import Cue.DiscoveryConsistency
import Cue.Lib.Threads
import Mathlib.Data.Fintype.Basic

/-! Calls that change the peers at the same time. A call takes the four locks one
after the other, and a merge takes the first one twice before that. The calls come
out as if one followed the other, in the order of their first sections, as long as
a merge finds the list as it copied it when it puts its copy back, and each map is
assigned last by a call that has built it from the list as it is then. -/
namespace Cue.Cluster
open Cue.Lib Cue.Model

variable {T : Type} {hash : String → UInt64} {sd sd' : ServiceDiscovery} {phase phase' : PeersPhase}

/-- The locks from this one on. -/
def DiscoveryLock.rest : DiscoveryLock → List DiscoveryLock
  | .peers => [.peers, .nodeToPeer, .nodeToRaft, .raftToNode]
  | .nodeToPeer => [.nodeToPeer, .nodeToRaft, .raftToNode]
  | .nodeToRaft => [.nodeToRaft, .raftToNode]
  | .raftToNode => [.raftToNode]

/-- The call will assign what is under the lock, built from these peers; one that
is to copy the list will build it from whatever is there then. -/
def PeersPhase.Brings (peers : List PeerInfo) (lock : DiscoveryLock) : PeersPhase → Prop
  | .copying => True
  | .writing built next => built.peersList = peers ∧ lock ∈ next.rest
  | .called _ | .returned => False

instance (peers : List PeerInfo) (lock : DiscoveryLock) (phase : PeersPhase) : Decidable (phase.Brings peers lock) :=
  match phase with
  | .copying => isTrue trivial
  | .writing built next => inferInstanceAs (Decidable (built.peersList = peers ∧ lock ∈ next.rest))
  | .called _ | .returned => isFalse not_false

/-- Behind an assignment, a call still brings what is under the locks after it. -/
theorem PeersPhase.Brings.next {built : ServiceDiscovery} {peers : List PeerInfo} {lock other : DiscoveryLock}
    (brings : (PeersPhase.writing built lock).Brings peers other) (apart : other ≠ lock) :
    ((lock.next.map (PeersPhase.writing built)).getD .returned).Brings peers other := by
  obtain ⟨current, later⟩ := brings
  cases lock <;> simp_all [DiscoveryLock.rest, DiscoveryLock.next, Brings]

namespace ServiceDiscovery

/-- What is under the lock is built from the list. -/
def Describes (hash : String → UInt64) (sd : ServiceDiscovery) : DiscoveryLock → Prop
  | .peers => True
  | .nodeToPeer => sd.nodeToPeerMap = (build hash sd.peersList).nodeToPeerMap
  | .nodeToRaft => sd.nodeToRaftMap = (build hash sd.peersList).nodeToRaftMap
  | .raftToNode => sd.raftToNodeMap = (build hash sd.peersList).raftToNodeMap

theorem eq_build_of_describes (described : ∀ lock, sd.Describes hash lock) : sd = build hash sd.peersList := by
  have nodeToPeer := described .nodeToPeer
  have nodeToRaft := described .nodeToRaft
  have raftToNode := described .raftToNode
  obtain ⟨peers, _, _, _⟩ := sd
  simp only [Describes] at nodeToPeer nodeToRaft raftToNode
  rw [nodeToPeer, nodeToRaft, raftToNode]
  rfl

theorem peersList_assign {built : ServiceDiscovery} {lock : DiscoveryLock} (map : lock ≠ .peers) :
    (sd.assign built lock).peersList = sd.peersList := by
  cases lock with
  | peers => exact absurd rfl map
  | nodeToPeer | nodeToRaft | raftToNode => rfl

/-- An assignment leaves alone what is under the other locks. -/
theorem Describes.assign {lock other : DiscoveryLock} (described : sd.Describes hash lock) (map : other ≠ .peers)
    (apart : lock ≠ other) (built : ServiceDiscovery) : (sd.assign built other).Describes hash lock := by
  cases other with
  | peers => exact absurd rfl map
  | nodeToPeer | nodeToRaft | raftToNode =>
    cases lock <;> first | exact described | exact absurd rfl apart

/-- What is built from the list describes it. -/
theorem describes_assign {lock : DiscoveryLock} (map : lock ≠ .peers) :
    (sd.assign (build hash sd.peersList) lock).Describes hash lock := by
  cases lock with
  | peers => exact absurd rfl map
  | nodeToPeer | nodeToRaft | raftToNode => rfl

end ServiceDiscovery

/-! ### Runs -/

section Runs

/-- One locked section of one call. -/
def peersStep [DecidableEq T] (hash : String → UInt64) (threads : Threads T ServiceDiscovery PeersPhase)
    (op : T × Unit) : Option (Threads T ServiceDiscovery PeersPhase) :=
  threads.step (fun sd phase _ => sd.lockedSection hash phase) op

/-- A merge puts its copy back while the list is as it copied it. A call assigns a
map that it has built from the list as it is, or leaves it to another call to do so. -/
def InTurn (threads : Threads T ServiceDiscovery PeersPhase) (t : T) : Prop :=
  match threads.locals t with
  | .writing built .peers => built.peersList = threads.shared.peersList
  | .writing built lock => built.peersList = threads.shared.peersList ∨
      ∃ u, u ≠ t ∧ (threads.locals u).Brings threads.shared.peersList lock
  | _ => True

instance [Fintype T] [DecidableEq T] (threads : Threads T ServiceDiscovery PeersPhase) (t : T) :
    Decidable (InTurn threads t) := by
  unfold InTurn
  split <;> infer_instance

/-- All calls before their first section. -/
def beforeCalls (hash : String → UInt64) (seed : List PeerInfo) (calls : T → PeersCall) :
    Threads T ServiceDiscovery PeersPhase where
  shared := .new hash seed
  locals t := .called (calls t)

/-- Runs of the calls in which every section comes in turn. -/
abbrev PeersRun [DecidableEq T] (hash : String → UInt64) (seed : List PeerInfo) (calls : T → PeersCall) :=
  Run (fun threads op threads' => peersStep hash threads op = some threads') (fun _ threads op => InTurn threads op.1)
    (beforeCalls hash seed calls)

/-- Where a call stands that has begun or not. -/
def PeersPhase.Stands (hash : String → UInt64) (op : PeersCall) (begun : Prop) : PeersPhase → Prop
  | .called op' => op' = op ∧ ¬ begun
  | .writing built _ => built = .build hash built.peersList ∧ begun
  | .copying | .returned => begun

/-- The calls that have begun came in some order. The list is the one they leave
in that order, and each map is built from it or still to be. -/
structure Ordered (hash : String → UInt64) (seed : List PeerInfo) (calls : T → PeersCall) (order : List T)
    (threads : Threads T ServiceDiscovery PeersPhase) : Prop where
  once : order.Nodup
  places : ∀ t, (threads.locals t).Stands hash (calls t) (t ∈ order)
  list : threads.shared.peersList = (order.map calls).foldl ServiceDiscovery.listAfter seed
  maps : ∀ lock, threads.shared.Describes hash lock ∨ ∃ t, (threads.locals t).Brings threads.shared.peersList lock

variable {calls : T → PeersCall} {seed : List PeerInfo} {order order' : List T}
  {threads threads' : Threads T ServiceDiscovery PeersPhase} {t : T}

theorem beforeCalls_ordered (hash : String → UInt64) (seed : List PeerInfo) (calls : T → PeersCall) :
    Ordered hash seed calls [] (beforeCalls hash seed calls) where
  once := List.nodup_nil
  places t := ⟨rfl, List.not_mem_nil⟩
  list := rfl
  maps lock := by cases lock <;> first | exact .inl rfl | exact .inl trivial

variable [DecidableEq T]

/-- A call that goes on, and may have begun just now. -/
theorem Ordered.moves (ordered : Ordered hash seed calls order threads) (stands : phase'.Stands hash (calls t) True)
    (once : order'.Nodup) (member : ∀ u, u ∈ order' ↔ u = t ∨ u ∈ order)
    (list : sd'.peersList = (order'.map calls).foldl ServiceDiscovery.listAfter seed)
    (maps : ∀ lock, sd'.Describes hash lock ∨
      ∃ u, (Function.update threads.locals t phase' u).Brings sd'.peersList lock) :
    Ordered hash seed calls order' ⟨sd', Function.update threads.locals t phase'⟩ := by
  refine ⟨once, fun u => ?_, list, maps⟩
  by_cases same : u = t
  · subst same
    simpa [member] using stands
  · simpa [same, member] using ordered.places u

/-- A call that will assign all the maps. -/
theorem maps_brought (hash : String → UInt64) (locals : T → PeersPhase)
    (brings : ∀ lock, lock ≠ .peers → phase'.Brings sd'.peersList lock) (lock : DiscoveryLock) :
    sd'.Describes hash lock ∨ ∃ u, (Function.update locals t phase' u).Brings sd'.peersList lock := by
  by_cases first : lock = .peers
  · subst first
    exact .inl trivial
  · exact .inr ⟨t, by simpa using brings lock first⟩

theorem Ordered.begin {op : PeersCall} (ordered : Ordered hash seed calls order threads)
    (place : threads.locals t = .called op)
    (acted : threads.shared.lockedSection hash (.called op) = some (sd', phase')) :
    Ordered hash seed calls (order ++ [t]) ⟨sd', Function.update threads.locals t phase'⟩ := by
  have stands := ordered.places t
  rw [place] at stands
  obtain ⟨rfl, fresh⟩ := stands
  have moves := fun stands list => @Ordered.moves _ hash sd' phase' calls seed order (order ++ [t]) threads t _ ordered
    stands (List.concat_eq_append ▸ ordered.once.concat fresh) (by simp [or_comm]) (by simpa [← ordered.list] using list)
  cases called : calls t with
  | update peers =>
    rw [called] at acted moves
    cases acted
    exact moves ⟨rfl, trivial⟩ rfl (maps_brought hash _ fun lock map =>
      ⟨rfl, by cases lock <;> simp_all [DiscoveryLock.rest]⟩)
  | merge newPeers =>
    rw [called] at acted place moves
    simp only [ServiceDiscovery.lockedSection, Option.some.injEq, Prod.mk.injEq] at acted
    obtain ⟨rfl, rfl⟩ := acted
    by_cases nothing : threads.shared.missing newPeers = []
    · rw [if_pos nothing] at moves ⊢
      refine moves trivial rfl fun lock => ?_
      rw [nothing, List.append_nil]
      exact (ordered.maps lock).imp_right (Threads.exists_update fun brings => by rw [place] at brings; cases brings)
    · rw [if_neg nothing] at moves ⊢
      exact moves trivial rfl (maps_brought hash _ fun _ _ => trivial)

/-- A map is assigned, and is right then or left to the call that does it later. -/
theorem Ordered.assigns {built : ServiceDiscovery} {lock : DiscoveryLock}
    (ordered : Ordered hash seed calls order threads) (place : threads.locals t = .writing built lock)
    (map : lock ≠ .peers) (turn : built.peersList = threads.shared.peersList ∨
      ∃ u, u ≠ t ∧ (threads.locals u).Brings threads.shared.peersList lock)
    (made : built = .build hash built.peersList) (other : DiscoveryLock) :
    (threads.shared.assign built lock).Describes hash other ∨
      ∃ u, (Function.update threads.locals t ((lock.next.map (PeersPhase.writing built)).getD .returned) u).Brings
        (threads.shared.assign built lock).peersList other := by
  have list := @ServiceDiscovery.peersList_assign threads.shared built lock map
  have elsewhere : ∀ u, u ≠ t → (threads.locals u).Brings threads.shared.peersList other →
      ∃ u, (Function.update threads.locals t ((lock.next.map (PeersPhase.writing built)).getD .returned) u).Brings
        (threads.shared.assign built lock).peersList other :=
    fun u apart brings => ⟨u, by rwa [Function.update_of_ne apart, list]⟩
  by_cases same : other = lock
  · subst same
    rcases turn with current | ⟨u, apart, brings⟩
    · rw [made, current]
      exact .inl (ServiceDiscovery.describes_assign map)
    · exact .inr (elsewhere u apart brings)
  · rcases ordered.maps other with described | ⟨u, brings⟩
    · exact .inl (described.assign map same built)
    · by_cases here : u = t
      · -- what this call was to assign later it still is
        subst here
        rw [place] at brings
        refine .inr ⟨u, ?_⟩
        rw [Function.update_self, list]
        exact brings.next same
      · exact .inr (elsewhere u here brings)

theorem Ordered.step {op : T × Unit} (ordered : Ordered hash seed calls order threads)
    (turn : InTurn threads op.1) (stepped : peersStep hash threads op = some threads') :
    ∃ order', Ordered hash seed calls order' threads' := by
  obtain ⟨sd', phase', acted, rfl⟩ := Threads.step_eq_some.mp stepped
  obtain ⟨t, _⟩ := op
  have stands := ordered.places t
  unfold InTurn at turn
  cases place : threads.locals t with
  | called op =>
    rw [place] at acted
    exact ⟨_, ordered.begin place acted⟩
  | copying =>
    rw [place] at acted stands
    cases acted
    refine ⟨order, ordered.moves ⟨rfl, trivial⟩ ordered.once (fun u => ?_) ordered.list
      (maps_brought hash _ fun lock _ => ⟨rfl, by cases lock <;> simp [DiscoveryLock.rest]⟩)⟩
    exact ⟨Or.inr, fun either => either.elim (fun same => same ▸ stands) id⟩
  | writing built lock =>
    rw [place] at acted stands
    cases acted
    obtain ⟨made, begun⟩ := stands
    have member : ∀ u, u ∈ order ↔ u = t ∨ u ∈ order := fun u =>
      ⟨Or.inr, fun either => either.elim (fun same => same ▸ begun) id⟩
    rw [place] at turn
    by_cases first : lock = .peers
    · subst first
      refine ⟨order, ordered.moves ⟨made, trivial⟩ ordered.once member (turn.trans ordered.list)
        (maps_brought hash _ fun lock map => ⟨rfl, ?_⟩)⟩
      cases lock <;> simp [DiscoveryLock.rest] at map ⊢
    · have list := @ServiceDiscovery.peersList_assign threads.shared built lock first
      refine ⟨order, ordered.moves ?_ ordered.once member (list.trans ordered.list)
        (ordered.assigns place first ?_ made)⟩
      · cases lock <;> first | exact ⟨made, trivial⟩ | trivial
      · cases lock <;> first | exact turn | exact absurd rfl first
  | returned =>
    rw [place] at acted
    cases acted

/-- When every merge puts its copy back into the list it copied, and the maps are
left to the calls that have built them from the list as it is, then the calls that
have returned have left what they leave one after the other, in some order, and the
four structures describe one list. -/
theorem sequential_if_in_turn (hash : String → UInt64) (seed : List PeerInfo) (seedDistinct : (nodeIDs seed).Nodup)
    (calls : T → PeersCall) (distinct : ∀ t, (nodeIDs (calls t).peers).Nodup)
    (ops : List (T × Unit)) (threads : Threads T ServiceDiscovery PeersPhase)
    (run : PeersRun hash seed calls ops threads) (still : ∀ t, (threads.locals t).running = false) :
    (∃ order : List T, order.Nodup ∧ (∀ t, t ∈ order ↔ threads.locals t = .returned) ∧
      threads.shared = (order.map calls).foldl (ServiceDiscovery.call hash) (.new hash seed)) ∧
    (nodeIDs threads.shared.peersList).Nodup ∧
    threads.shared = .build hash threads.shared.peersList ∧
    (Set.InjOn hash {node | node ∈ nodeIDs threads.shared.peersList} → threads.shared.Consistent) := by
  obtain ⟨order, ordered⟩ : ∃ order, Ordered hash seed calls order threads := by
    refine run.invariant (fun _ threads => ∃ order, Ordered hash seed calls order threads)
      ⟨[], beforeCalls_ordered hash seed calls⟩ ?_
    rintro _ _ op _ ⟨order, ordered⟩ turn stepped
    exact ordered.step turn stepped
  have built : threads.shared = .build hash threads.shared.peersList := by
    refine ServiceDiscovery.eq_build_of_describes fun lock => (ordered.maps lock).resolve_right ?_
    rintro ⟨t, brings⟩
    have quiet := still t
    cases place : threads.locals t <;> simp_all [PeersPhase.running, PeersPhase.Brings]
  have listed : (nodeIDs threads.shared.peersList).Nodup := by
    rw [ordered.list]
    refine ServiceDiscovery.calls_distinct hash seedDistinct fun op member => ?_
    obtain ⟨t, _, rfl⟩ := List.mem_map.mp member
    exact distinct t
  refine ⟨⟨order, ordered.once, fun t => ?_, ?_⟩, listed, built, fun injective => ?_⟩
  · have stands := ordered.places t
    have quiet := still t
    cases place : threads.locals t with rw [place] at stands quiet
    | called op => exact iff_of_false stands.2 PeersPhase.noConfusion
    | copying | writing built lock => cases quiet
    | returned => exact iff_of_true stands rfl
  · rw [built, ordered.list]
    exact (ServiceDiscovery.calls_build hash seed (order.map calls)).symm
  · rw [built]
    exact ServiceDiscovery.build_consistent injective (fun peer member => List.mem_map_of_mem member) listed

end Runs

/-! ### Calls that overlap -/

open ServiceDiscovery (twoNodes peerAt)

private def overlappingCalls : Fin 3 → PeersCall
  | 0 => .update [peerAt "b" "10.0.0.1"]
  | 1 => .update [peerAt "a" "10.0.0.2"]
  | 2 => .merge [peerAt "b" "10.0.0.3"]

/-- Two replacements take turns with the maps, and a merge adds its peer while both
are on their way. -/
private def overlapping : Option (Threads (Fin 3) ServiceDiscovery PeersPhase) :=
  ([0, 1, 0, 1, 0, 2, 1, 0, 2, 1, 2, 2, 2, 2].map fun t => (t, ())).foldlM
    (fun threads op => if InTurn threads op.1 then peersStep twoNodes threads op else none)
    (beforeCalls twoNodes [] overlappingCalls)

private theorem overlapping_executes : overlapping.isSome = true := rfl

theorem overlapping_calls_in_order :
    (∀ t, ((Option.get _ overlapping_executes).locals t) = .returned) ∧
    (Option.get _ overlapping_executes).shared.listPeers = [peerAt "a" "10.0.0.2", peerAt "b" "10.0.0.3"] ∧
    ∃ order : List (Fin 3), order.Nodup ∧ (∀ t, t ∈ order ↔ (Option.get _ overlapping_executes).locals t = .returned) ∧
      (Option.get _ overlapping_executes).shared =
        (order.map overlappingCalls).foldl (ServiceDiscovery.call twoNodes) (.new twoNodes []) := by
  have returned : ∀ t, ((Option.get _ overlapping_executes).locals t) = .returned := by decide
  refine ⟨returned, rfl, ?_⟩
  exact (sequential_if_in_turn twoNodes [] List.nodup_nil overlappingCalls
    (by decide) _ _
    (Run.of_guarded (Option.some_get overlapping_executes).symm) (fun t => by rw [returned t]; rfl)).1

private def replaceTwice : Bool → PeersCall
  | false => .update [peerAt "a" "10.0.0.1"]
  | true => .update [peerAt "b" "10.0.0.2"]

/-- The second replacement comes between the first and the second lock of the first one. -/
private def mixed : Option (Threads Bool ServiceDiscovery PeersPhase) :=
  [(false, ()), (true, ()), (true, ()), (true, ()), (true, ()), (false, ()), (false, ()), (false, ())].foldlM
    (peersStep twoNodes) (beforeCalls twoNodes [] replaceTwice)

private theorem mixed_executes : mixed.isSome = true := rfl

private def mergeTwice : Bool → PeersCall
  | false => .merge [peerAt "a" "10.0.0.1"]
  | true => .merge [peerAt "b" "10.0.0.2"]

/-- The second merge adds its peer after the first one has copied the list. -/
private def overtaken : Option (Threads Bool ServiceDiscovery PeersPhase) :=
  [(false, ()), (false, ()), (true, ()), (false, ()), (true, ()), (false, ()), (false, ()), (false, ()),
    (true, ()), (true, ()), (true, ()), (true, ())].foldlM
    (peersStep twoNodes) (beforeCalls twoNodes [] mergeTwice)

private theorem overtaken_executes : overtaken.isSome = true := rfl

/-- Of two replacements, one may leave the list and the other the maps; of two
merges, one may take back what the other has added. No order of the two explains it. -/
theorem replacements_mix_and_merges_get_lost :
    ((∀ t, (Option.get _ mixed_executes).locals t = .returned) ∧
      (Option.get _ mixed_executes).shared.listPeers = [peerAt "b" "10.0.0.2"] ∧
      (Option.get _ mixed_executes).shared.lookup "b" = none ∧
      (Option.get _ mixed_executes).shared.validateConsistency twoNodes = false) ∧
    (∀ t, (Option.get _ overtaken_executes).locals t = .returned) ∧
      (Option.get _ overtaken_executes).shared.listPeers = [peerAt "a" "10.0.0.1"] ∧
      ∀ first, ([first, !first].map mergeTwice).foldl (ServiceDiscovery.call twoNodes) (.new twoNodes []) ≠
        (Option.get _ overtaken_executes).shared := by
  refine ⟨⟨fun t => by cases t <;> rfl, rfl, rfl, rfl⟩, fun t => by cases t <;> rfl, rfl, fun first same => ?_⟩
  -- in either order both peers are there
  have fewer : (Option.get _ overtaken_executes).shared.listPeers.length = 1 := rfl
  rw [← same] at fewer
  cases first <;> cases fewer

end Cue.Cluster
