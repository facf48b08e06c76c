import Cue.Lib.Threads
import Cue.Proxy.Registry

/-! Proxies that connect again while their pair is being removed. A watcher
decides under the pair's lock that the pair has lost both connections, and calls
`Remove` with the proxy's ID after it has released that lock. Until then the pair
may have got a new connection, or another pair may stand under that ID.

A flag that is off says that the direction has no open connection, except in a
pair that a `Remove` has marked and not yet closed; nobody is registered under
that pair again, so a decision taken in between finds it gone. -/
namespace Cue.Proxy
open Cue.Lib

/-! ### The two directions of a pair -/

namespace PairConns

variable {C : Type} {p p' : PairConns C} {type other : ConnectionType}

@[simp] theorem put_proxyID (p : PairConns C) (type : ConnectionType) (direction : Direction C) :
    (p.put type direction).proxyID = p.proxyID := by
  cases type <;> rfl

@[simp] theorem get_put_self (p : PairConns C) (type : ConnectionType) (direction : Direction C) :
    (p.put type direction).get type = direction := by
  cases type <;> rfl

theorem get_put_of_ne (p : PairConns C) (direction : Direction C) (different : other ≠ type) :
    (p.put type direction).get other = p.get other := by
  cases type <;> cases other
  all_goals first | rfl | exact absurd rfl different

theorem mem_conns {conn : C} : conn ∈ p.conns ↔ ∃ type, (p.get type).conn = some conn := by
  unfold conns
  rw [List.mem_append, Option.mem_toList, Option.mem_toList]
  constructor
  · rintro (inbound | outbound)
    · exact ⟨.inbound, inbound⟩
    · exact ⟨.outbound, outbound⟩
  · rintro ⟨_ | _, found⟩
    · exact Or.inl found
    · exact Or.inr found

theorem gens_eq_iff {seen : UInt64 × UInt64} :
    p.gens = seen ↔ (p.get .inbound).gen = seen.1 ∧ (p.get .outbound).gen = seen.2 :=
  Prod.ext_iff

/-- The same pair at a later time: a generation has one connection. -/
structure Later (p p' : PairConns C) : Prop where
  proxyID : p'.proxyID = p.proxyID
  gen : ∀ type, (p.get type).gen ≤ (p'.get type).gen
  conn : ∀ type, (p'.get type).gen = (p.get type).gen → (p'.get type).conn = (p.get type).conn

theorem Later.refl (p : PairConns C) : Later p p := ⟨rfl, fun _ => UInt64.le_refl _, fun _ _ => rfl⟩

/-- A flag is turned off. -/
theorem Later.clear (p : PairConns C) (type : ConnectionType) :
    Later p (p.put type { p.get type with alive := false }) := by
  refine ⟨put_proxyID .., fun other => ?_, fun other _ => ?_⟩
  all_goals
    by_cases same : other = type
    · subst same
      simp
    · simp [get_put_of_ne _ _ same]

/-- A new generation, unless the counter would start again from zero. -/
theorem Later.set (p : PairConns C) (type : ConnectionType) (conn : C) (counted : (p.get type).gen ≠ -1) :
    Later p (p.put type ⟨some conn, true, (p.get type).gen + 1⟩) := by
  have grows : (p.get type).gen < (p.get type).gen + 1 := UInt64.lt_add_one counted
  refine ⟨put_proxyID .., fun other => ?_, fun other => ?_⟩
  · by_cases same : other = type
    · subst same
      rw [get_put_self]
      exact UInt64.le_of_lt grows
    · rw [get_put_of_ne _ _ same]
      exact UInt64.le_refl _
  · by_cases same : other = type
    · subst same
      rw [get_put_self]
      intro unchanged
      exact absurd unchanged.symm (UInt64.ne_of_lt grows)
    · rw [get_put_of_ne _ _ same]
      exact fun _ => rfl

/-- A direction of a pair, after one direction of one pair was put. -/
theorem get_of_put {heap : List (PairConns C)} {i j : Nat} {direction : Direction C} (found : heap[i]? = some p)
    (located : (heap.set i (p.put type direction))[j]? = some p') (other : ConnectionType) :
    j = i ∧ other = type ∧ p'.get other = direction ∨ ∃ q, heap[j]? = some q ∧ p'.get other = q.get other := by
  by_cases here : j = i
  · subst here
    rw [List.getElem?_set_self (List.getElem?_eq_some_iff.mp found).1] at located
    cases located
    by_cases same : other = type
    · subst same
      exact Or.inl ⟨rfl, rfl, get_put_self ..⟩
    · exact Or.inr ⟨p, found, get_put_of_ne _ _ same⟩
  · rw [List.getElem?_set_ne (Ne.symm here)] at located
    exact Or.inr ⟨p', located, rfl⟩

end PairConns

/-! ### What a section does -/

namespace ProxyRegistry

variable {C : Type} {r r' : ProxyRegistry C} {pair : Nat} {seen : UInt64 × UInt64}

/-- A later registry: pairs stay, and closed connections stay closed. -/
structure Grows (r r' : ProxyRegistry C) : Prop where
  heap : ∀ (pair : Nat) (p : PairConns C), r.heap[pair]? = some p → ∃ p', r'.heap[pair]? = some p' ∧ p.Later p'
  closed : ∀ conn ∈ r.closed, conn ∈ r'.closed

/-- The pair has a connection of the current generation that is not closed. -/
def Open (r : ProxyRegistry C) (pair : Nat) : Prop :=
  ∃ p, r.heap[pair]? = some p ∧ ∃ conn ∈ p.conns, conn ∉ r.closed

/-- The pair had these generations at some time. -/
def Saw (r : ProxyRegistry C) (pair : Nat) (seen : UInt64 × UInt64) : Prop :=
  ∃ p, r.heap[pair]? = some p ∧ seen.1 ≤ (p.get .inbound).gen ∧ seen.2 ≤ (p.get .outbound).gen

/-- Unless the pair got a new connection since, it has no open one. -/
def Quiet (r : ProxyRegistry C) (pair : Nat) (seen : UInt64 × UInt64) : Prop :=
  ∀ p, r.heap[pair]? = some p → p.gens = seen → ∀ conn ∈ p.conns, conn ∈ r.closed

theorem Grows.saw (grows : Grows r r') (saw : r.Saw pair seen) : r'.Saw pair seen := by
  obtain ⟨p, found, inbound, outbound⟩ := saw
  obtain ⟨p', found', later⟩ := grows.heap pair p found
  exact ⟨p', found', UInt64.le_trans inbound (later.gen .inbound), UInt64.le_trans outbound (later.gen .outbound)⟩

theorem Grows.quiet (grows : Grows r r') (saw : r.Saw pair seen) (quiet : r.Quiet pair seen) : r'.Quiet pair seen := by
  obtain ⟨p, found, inbound, outbound⟩ := saw
  obtain ⟨p', found', later⟩ := grows.heap pair p found
  intro q located gens conn member
  rw [found'] at located
  cases located
  -- the counters only grow, so they are what they were when the generations were seen
  obtain ⟨sameIn, sameOut⟩ := PairConns.gens_eq_iff.mp gens
  have before : p.gens = seen := by
    refine PairConns.gens_eq_iff.mpr ⟨UInt64.le_antisymm ?_ inbound, UInt64.le_antisymm ?_ outbound⟩
    · exact sameIn ▸ later.gen .inbound
    · exact sameOut ▸ later.gen .outbound
  obtain ⟨beforeIn, beforeOut⟩ := PairConns.gens_eq_iff.mp before
  have unchanged : ∀ type, (p'.get type).gen = (p.get type).gen := by
    intro type
    cases type
    · rw [sameIn, beforeIn]
    · rw [sameOut, beforeOut]
  obtain ⟨type, current⟩ := PairConns.mem_conns.mp member
  rw [later.conn type (unchanged type)] at current
  exact grows.closed conn (quiet p found before conn (PairConns.mem_conns.mpr ⟨type, current⟩))

theorem Grows.refl (r : ProxyRegistry C) : Grows r r := ⟨fun _ p found => ⟨p, found, .refl p⟩, fun _ => id⟩

/-- One pair is replaced by itself at a later time. -/
theorem Grows.set {p p' : PairConns C} (found : r.heap[pair]? = some p) (later : p.Later p')
    (heap : r'.heap = r.heap.set pair p') (closed : ∀ conn ∈ r.closed, conn ∈ r'.closed) : Grows r r' := by
  refine ⟨fun i q located => ?_, closed⟩
  rw [heap]
  by_cases here : i = pair
  · subst here
    rw [found] at located
    cases located
    exact ⟨p', List.getElem?_set_self (List.getElem?_eq_some_iff.mp found).1, later⟩
  · exact ⟨q, by rw [List.getElem?_set_ne (Ne.symm here)]; exact located, .refl q⟩

theorem clearAlive_eq {p : PairConns C} (found : r.heap[pair]? = some p) (type : ConnectionType) :
    r.clearAlive pair type = { r with heap := r.heap.set pair (p.put type { p.get type with alive := false }) } := by
  simp [clearAlive, found]

theorem clearAlive_grows (r : ProxyRegistry C) (pair : Nat) (type : ConnectionType) :
    Grows r (r.clearAlive pair type) := by
  unfold clearAlive
  split
  · exact .refl r
  · rename_i p found
    exact .set found (.clear p type) rfl fun _ => id

@[simp] theorem clearAlive_pairs (r : ProxyRegistry C) (pair : Nat) (type : ConnectionType) :
    (r.clearAlive pair type).pairs = r.pairs ∧ (r.clearAlive pair type).locked = r.locked ∧
      (r.clearAlive pair type).closed = r.closed := by
  unfold clearAlive
  split <;> simp

/-- The counter of generations of the direction that gets a connection is not at its end. -/
def counted (r : ProxyRegistry C) (place : Place) (op : ConnSection) : Bool :=
  match place, op with
  | .joined pair type, .setConn =>
    match r.heap[pair]? with
    | some p => (p.get type).gen ≠ -1
    | none => true
  | _, _ => true

/-- What one section did, by the place where the connection stood. -/
inductive Acted (c : C) (r : ProxyRegistry C) : Place → ProxyRegistry C → Place → Prop where
  | failed {place : Place} : Acted c r place { r with closed := c :: r.closed } place
  | joined {proxyID : String} {type : ConnectionType} {pair : Nat} (registered : r.pairs.get proxyID = some pair) :
      Acted c r .dialing r (.joined pair type)
  | created {proxyID : String} {type : ConnectionType} {channel : List State.Partition.TopologyUpdate}
      (free : r.locked = false) (unknown : r.pairs.get proxyID = none) :
      Acted c r .dialing { r with
        pairs := r.pairs.set proxyID r.heap.length
        heap := r.heap ++ [{ proxyID := proxyID }]
        topologyCh := channel } (.joined r.heap.length type)
  | set {pair : Nat} {type : ConnectionType} {p : PairConns C} (found : r.heap[pair]? = some p)
      (counted : (p.get type).gen ≠ -1) :
      Acted c r (.joined pair type) { r with
        heap := r.heap.set pair (p.put type ⟨some c, true, (p.get type).gen + 1⟩)
        closed := (p.get type).conn.toList ++ r.closed } (.watching pair type ((p.get type).gen + 1))
  | stale {pair : Nat} {type : ConnectionType} {gen : UInt64} : Acted c r (.watching pair type gen) r .ended
  | noticed {pair : Nat} {type : ConnectionType} {p p' : PairConns C} {place : Place}
      (found : r.heap[pair]? = some p) (closed : c ∈ r.closed)
      (cleared : p' = p.put type { p.get type with alive := false })
      (outcome : place = .ended ∨
        place = .decided pair p'.gens ∧ p'.inbound.alive = false ∧ p'.outbound.alive = false) :
      Acted c r (.watching pair type (p.get type).gen) { r with heap := r.heap.set pair p' } place
  | unregistered {pair : Nat} {seen : UInt64 × UInt64} : Acted c r (.decided pair seen) r .ended
  | begun {pair victim : Nat} {seen : UInt64 × UInt64} {p : PairConns C} (free : r.locked = false)
      (found : r.heap[pair]? = some p) (registered : r.pairs.get p.proxyID = some victim) :
      Acted c r (.decided pair seen) ({ r with locked := true }.clearAlive victim .inbound)
        (.removing .marking pair seen victim)
  | cleared {pair victim : Nat} {seen : UInt64 × UInt64} :
      Acted c r (.removing .marking pair seen victim) (r.clearAlive victim .outbound)
        (.removing .marked pair seen victim)
  | closedPair {pair victim : Nat} {seen : UInt64 × UInt64} :
      Acted c r (.removing .marked pair seen victim) (r.closePair victim) (.removing .closed pair seen victim)
  | ended {pair victim : Nat} {seen : UInt64 × UInt64} {p : PairConns C}
      {channel : List State.Partition.TopologyUpdate} (found : r.heap[pair]? = some p) :
      Acted c r (.removing .closed pair seen victim) { r with
        pairs := r.pairs.delete p.proxyID
        locked := false
        topologyCh := channel } .ended

private theorem sendTopology_eq (r : ProxyRegistry C) (room : Bool) (update : State.Partition.TopologyUpdate) :
    ∃ channel, r.sendTopology room update = { r with topologyCh := channel } := by
  cases room
  · exact ⟨r.topologyCh, rfl⟩
  · exact ⟨r.topologyCh ++ [update], rfl⟩

theorem getOrCreate_acted {c : C} (free : r.locked = false) (proxyID : String) (type : ConnectionType) (room : Bool) :
    Acted c r .dialing (r.getOrCreate proxyID room).1 (.joined (r.getOrCreate proxyID room).2 type) := by
  unfold getOrCreate
  cases known : r.pairs.get proxyID with
  | some pair => exact .joined known
  | none =>
    obtain ⟨channel, sent⟩ := sendTopology_eq (C := C) { r with
      pairs := r.pairs.set proxyID r.heap.length, heap := r.heap ++ [{ proxyID := proxyID }] } room
      (.add proxyID (some ⟨r.heap.length, 10240⟩))
    dsimp only
    rw [sent]
    exact .created free known

theorem removeEnd_acted {c : C} {victim : Nat} {seen : UInt64 × UInt64} {p : PairConns C}
    (found : r.heap[pair]? = some p) (room : Bool) :
    Acted c r (.removing .closed pair seen victim) (r.removeEnd p.proxyID room) .ended := by
  obtain ⟨channel, sent⟩ := sendTopology_eq (C := C)
    { r with pairs := r.pairs.delete p.proxyID, locked := false } room (.remove p.proxyID)
  rw [removeEnd, sent]
  exact .ended found

theorem connClosed_acted {c : C} {type : ConnectionType} {gen : UInt64} {p : PairConns C} (closed : c ∈ r.closed)
    (found : (r.connClosed pair type gen).1.heap[pair]? = some p) :
    Acted c r (.watching pair type gen) (r.connClosed pair type gen).1
      (if (r.connClosed pair type gen).2 then .decided pair p.gens else .ended) := by
  unfold connClosed at found ⊢
  cases before : r.heap[pair]? with
  | none => simp [before] at found
  | some q =>
    simp only [before] at found ⊢
    by_cases current : gen = (q.get type).gen
    · subst current
      simp only [ne_eq, not_true_eq_false, if_false] at found ⊢
      rw [List.getElem?_set_self (List.getElem?_eq_some_iff.mp before).1] at found
      cases found
      refine .noticed before closed rfl ?_
      split
      · rename_i remove
        simp only [Bool.and_eq_true, Bool.not_eq_true'] at remove
        exact Or.inr ⟨rfl, remove⟩
      · exact Or.inl rfl
    · simpa [current] using Acted.stale

variable [DecidableEq C]

theorem act_set (c : C) (r : ProxyRegistry C) (pair : Nat) (type : ConnectionType) :
    r.act c (.joined pair type) .setConn = match r.setConn pair type c with
      | none => none
      | some (r, gen) => some (r, .watching pair type gen) := by
  cases type <;> rfl

theorem act_connClosed (c : C) (r : ProxyRegistry C) (pair : Nat) (type : ConnectionType) (gen : UInt64) :
    r.act c (.watching pair type gen) .connClosed = if c ∉ r.closed then none
      else match (r.connClosed pair type gen).1.heap[pair]? with
        | none => none
        | some p => some ((r.connClosed pair type gen).1,
          if (r.connClosed pair type gen).2 then .decided pair p.gens else .ended) := by
  cases type <;> rfl

theorem act_acted {c : C} {place place' : Place} {op : ConnSection} (counts : r.counted place op = true)
    (acted : r.act c place op = some (r', place')) : Acted c r place r' place' := by
  cases op with
  | fail =>
    simp only [act, Option.some.injEq, Prod.mk.injEq] at acted
    obtain ⟨rfl, rfl⟩ := acted
    exact .failed
  | getOrCreate proxyID type room =>
    cases place with
    | dialing =>
      simp only [act] at acted
      split at acted
      · cases acted
      · rename_i free
        simp only [Option.some.injEq, Prod.mk.injEq] at acted
        obtain ⟨rfl, rfl⟩ := acted
        exact getOrCreate_acted (by simpa using free) proxyID type room
    | _ => cases acted
  | setConn =>
    cases place with
    | joined pair type =>
      rw [act_set] at acted
      unfold setConn at acted
      cases found : r.heap[pair]? with
      | none => simp [found] at acted
      | some p =>
        simp only [found, Option.some.injEq, Prod.mk.injEq] at acted
        obtain ⟨rfl, rfl⟩ := acted
        exact .set found (by simpa [counted, found] using counts)
    | _ => cases acted
  | connClosed =>
    cases place with
    | watching pair type gen =>
      rw [act_connClosed] at acted
      split at acted
      · cases acted
      · rename_i closed
        cases found : (r.connClosed pair type gen).1.heap[pair]? with
        | none => simp [found] at acted
        | some p =>
          simp only [found, Option.some.injEq, Prod.mk.injEq] at acted
          obtain ⟨rfl, rfl⟩ := acted
          exact connClosed_acted (not_not.mp closed) found
    | _ => cases acted
  | removeBegin =>
    cases place with
    | decided pair seen =>
      simp only [act] at acted
      split at acted
      · cases acted
      · rename_i free
        cases found : r.heap[pair]? with
        | none => simp [found] at acted
        | some p =>
          simp only [found, removeBegin] at acted
          cases registered : r.pairs.get p.proxyID with
          | none =>
            simp only [registered, Option.some.injEq, Prod.mk.injEq] at acted
            obtain ⟨rfl, rfl⟩ := acted
            exact .unregistered
          | some victim =>
            simp only [registered, Option.some.injEq, Prod.mk.injEq] at acted
            obtain ⟨rfl, rfl⟩ := acted
            exact .begun (by simpa using free) found registered
    | _ => cases acted
  | clearOutbound =>
    cases place with
    | removing stage pair seen victim =>
      cases stage with
      | marking =>
        cases acted
        exact .cleared
      | _ => cases acted
    | _ => cases acted
  | closePair =>
    cases place with
    | removing stage pair seen victim =>
      cases stage with
      | marked =>
        cases acted
        exact .closedPair
      | _ => cases acted
    | _ => cases acted
  | removeEnd room =>
    cases place with
    | removing stage pair seen victim =>
      cases stage with
      | closed =>
        simp only [act] at acted
        cases found : r.heap[pair]? with
        | none => simp [found] at acted
        | some p =>
          simp only [found, Option.some.injEq, Prod.mk.injEq] at acted
          obtain ⟨rfl, rfl⟩ := acted
          exact removeEnd_acted found room
      | _ => cases acted
    | _ => cases acted

omit [DecidableEq C] in
theorem Acted.grows {c : C} {place place' : Place} (acted : Acted c r place r' place') : Grows r r' := by
  cases acted with
  | failed => exact ⟨(Grows.refl r).heap, fun _ => List.mem_cons_of_mem c⟩
  | joined | stale | unregistered => exact .refl r
  | created =>
    refine ⟨fun pair p found => ⟨p, ?_, .refl p⟩, fun _ => id⟩
    exact (List.getElem?_append_left (List.getElem?_eq_some_iff.mp found).1).trans found
  | set found counted => exact .set found (.set _ _ _ counted) rfl fun _ => List.mem_append_right _
  | noticed found _ cleared => exact .set found (cleared ▸ .clear _ _) rfl fun _ => id
  | begun =>
    have grows := clearAlive_grows { r with locked := true }
    exact ⟨(grows _ _).heap, (grows _ _).closed⟩
  | cleared => exact clearAlive_grows _ _ _
  | closedPair =>
    unfold closePair
    split
    · exact .refl r
    · exact ⟨(Grows.refl r).heap, fun _ => List.mem_append_right _⟩
  | ended => exact ⟨(Grows.refl r).heap, fun _ => id⟩

end ProxyRegistry

/-! ### Runs -/

/-- The registry, and where the goroutines of each connection stand. -/
abbrev Connections (C : Type) := Threads C (ProxyRegistry C) Place

namespace Connections

variable {C : Type}

def new : Connections C := ⟨.new, fun _ => .dialing⟩

def step [DecidableEq C] (s : Connections C) (op : C × ConnSection) : Option (Connections C) :=
  Threads.step (ProxyRegistry.act op.1) s op

/-- Any interleaving of any number of connections in which no direction of a pair
gets 2^64 connections. -/
def Reaches [DecidableEq C] : List (C × ConnSection) → Connections C → Prop :=
  Run (fun s op s' => step s op = some s')
    (fun _ s op => s.shared.counted (s.locals op.1) op.2 = true) new

/-- The connection is inside a `Remove` of that pair. -/
def Targets (victim : Nat) (place : Place) : Prop := ∃ stage pair seen, place = .removing stage pair seen victim

/-- It has not closed that pair yet. -/
def Marks (victim : Nat) (place : Place) : Prop :=
  ∃ stage pair seen, place = .removing stage pair seen victim ∧ stage ≠ .closed

def Removing (place : Place) : Prop := ∃ victim, Targets victim place

/-- The pair is being removed or was removed. -/
def Doomed (s : Connections C) (pair : Nat) : Prop :=
  (∃ c, Targets pair (s.locals c)) ∨ ∀ proxyID, s.shared.pairs.get proxyID ≠ some pair

/-- What a connection can rely on at its place, whatever the others do. -/
def Fits (r : ProxyRegistry C) (c : C) : Place → Prop
  | .watching pair type gen =>
    ∃ p, r.heap[pair]? = some p ∧ gen ≤ (p.get type).gen ∧ ((p.get type).gen = gen → (p.get type).conn = some c)
  | .decided pair seen => r.Saw pair seen
  | .removing _ pair seen victim => r.Saw pair seen ∧ (victim = pair → r.Quiet pair seen)
  | .dialing | .joined _ _ | .ended => True

theorem Fits.mono {r r' : ProxyRegistry C} {c : C} {place : Place} (fits : Fits r c place) (grows : r.Grows r') :
    Fits r' c place := by
  cases place with
  | watching pair type gen =>
    obtain ⟨p, found, below, own⟩ := fits
    obtain ⟨p', found', later⟩ := grows.heap pair p found
    refine ⟨p', found', UInt64.le_trans below (later.gen type), fun same => ?_⟩
    have unchanged : (p.get type).gen = gen := UInt64.le_antisymm (same ▸ later.gen type) below
    rw [later.conn type (same.trans unchanged.symm), own unchanged]
  | decided pair seen => exact grows.saw fits
  | removing stage pair seen victim => exact ⟨grows.saw fits.1, fun same => grows.quiet fits.1 (fits.2 same)⟩
  | dialing | joined _ _ | ended => trivial

structure Sound (s : Connections C) : Prop where
  lock : s.shared.locked = true ↔ ∃ c, Removing (s.locals c)
  alone : Alone Removing s.locals
  fits : ∀ c, Fits s.shared c (s.locals c)
  registered : ∀ proxyID pair, s.shared.pairs.get proxyID = some pair →
    ∃ p, s.shared.heap[pair]? = some p ∧ p.proxyID = proxyID
  /-- the pair that a `Remove` found stays registered while the lock is held -/
  held : ∀ c stage pair seen victim, s.locals c = .removing stage pair seen victim →
    ∃ p, s.shared.heap[pair]? = some p ∧ s.shared.pairs.get p.proxyID = some victim
  /-- a direction whose flag is off has no open connection, or it soon has none -/
  dead : ∀ (pair : Nat) p type, s.shared.heap[pair]? = some p → (p.get type).alive = false →
    (∀ conn, (p.get type).conn = some conn → conn ∈ s.shared.closed) ∨ ∃ c, Marks pair (s.locals c)
  decided : ∀ c pair seen, s.locals c = .decided pair seen → s.shared.Quiet pair seen ∨ s.Doomed pair

theorem Sound.start : (new : Connections C).Sound := by
  refine ⟨?_, ?_, fun _ => trivial, ?_, ?_, ?_, ?_⟩
  · simp [new, ProxyRegistry.new, Removing, Targets]
  · intro c d first
    obtain ⟨_, _, _, _, inside⟩ := first
    cases inside
  · intro proxyID pair known
    cases known
  · intro c stage pair seen victim inside
    cases inside
  · intro pair p type found
    simp [new, ProxyRegistry.new] at found
  · intro c pair seen inside
    cases inside

variable {s : Connections C} {c : C} {r' : ProxyRegistry C} {place place' : Place}

@[simp] theorem removing_inside (stage : RemoveStage) (pair : Nat) (seen : UInt64 × UInt64) (victim : Nat) :
    Removing (.removing stage pair seen victim) := ⟨victim, stage, pair, seen, rfl⟩

/-- The lock is taken by the first section of a `Remove` and given back by the last. -/
theorem lock_acted {r : ProxyRegistry C} (acted : r.Acted c place r' place') :
    r'.locked = r.locked ∧ (Removing place' ↔ Removing place) ∨
      r.locked = false ∧ r'.locked = true ∧ Removing place' ∨
      r'.locked = false ∧ Removing place ∧ ¬ Removing place' := by
  cases acted with
  | failed => exact Or.inl ⟨rfl, Iff.rfl⟩
  | joined | created | set | stale | unregistered => exact Or.inl ⟨rfl, by simp [Removing, Targets]⟩
  | noticed _ _ _ outcome =>
    refine Or.inl ⟨rfl, ?_⟩
    rcases outcome with rfl | ⟨rfl, _⟩
    all_goals simp [Removing, Targets]
  | begun free => exact Or.inr (Or.inl ⟨free, by simp, removing_inside ..⟩)
  | cleared => exact Or.inl ⟨by simp, by simp⟩
  | closedPair =>
    refine Or.inl ⟨?_, by simp⟩
    unfold ProxyRegistry.closePair
    split <;> rfl
  | ended => exact Or.inr (Or.inr ⟨rfl, removing_inside .., by simp [Removing, Targets]⟩)

/-- A pair is registered when it is created, and its place is free again after the
last section of a `Remove`. -/
theorem pairs_acted {r : ProxyRegistry C} (acted : r.Acted c place r' place') :
    r'.pairs = r.pairs ∨
      (∃ proxyID, r.locked = false ∧ ¬ Removing place' ∧ r'.pairs = r.pairs.set proxyID r.heap.length ∧
        r'.heap[r.heap.length]? = some { proxyID := proxyID }) ∨
      ∃ stage pair seen victim p, place = .removing stage pair seen victim ∧ ¬ Removing place' ∧
        r.heap[pair]? = some p ∧ r'.pairs = r.pairs.delete p.proxyID := by
  cases acted with
  | created free => exact Or.inr (Or.inl ⟨_, free, by simp [Removing, Targets], rfl, List.getElem?_concat_length⟩)
  | ended found => exact Or.inr (Or.inr ⟨_, _, _, _, _, rfl, by simp [Removing, Targets], found, rfl⟩)
  | begun | cleared => exact Or.inl (by simp)
  | closedPair =>
    refine Or.inl ?_
    unfold ProxyRegistry.closePair
    split <;> rfl
  | failed | joined | set | stale | noticed | unregistered => exact Or.inl rfl

/-- A `Remove` keeps its pair until that is no longer registered. -/
theorem targets_acted {r : ProxyRegistry C} {victim : Nat} (acted : r.Acted c place r' place')
    (inside : Targets victim place) :
    Targets victim place' ∨ ∃ stage pair seen p, place = .removing stage pair seen victim ∧ r.heap[pair]? = some p ∧
      r'.pairs = r.pairs.delete p.proxyID := by
  obtain ⟨stage, pair, seen, rfl⟩ := inside
  cases acted with
  | failed | cleared | closedPair => exact Or.inl ⟨_, _, _, rfl⟩
  | ended found => exact Or.inr ⟨_, _, _, _, rfl, found, rfl⟩

theorem Sound.unlocked (sound : s.Sound) (free : s.shared.locked = false) (d : C) : ¬ Removing (s.locals d) := by
  intro inside
  have locked := sound.lock.mpr ⟨d, inside⟩
  rw [free] at locked
  cases locked

variable [DecidableEq C]

/-- The state after a section of the connection `c`. -/
def after (s : Connections C) (c : C) (r' : ProxyRegistry C) (place' : Place) : Connections C :=
  ⟨r', Function.update s.locals c place'⟩

theorem after_self (s : Connections C) (c : C) (r' : ProxyRegistry C) (place' : Place) :
    (after s c r' place').locals c = place' := Function.update_self ..

theorem after_other {d : C} (s : Connections C) (r' : ProxyRegistry C) (place' : Place) (other : d ≠ c) :
    (after s c r' place').locals d = s.locals d := Function.update_of_ne other ..

theorem Sound.alone_after (sound : s.Sound) (acted : s.shared.Acted c (s.locals c) r' place') :
    Alone Removing (after s c r' place').locals := by
  by_cases inside : Removing place'
  · refine .occupy fun d other => ?_
    rcases lock_acted acted with ⟨_, same⟩ | ⟨free, _⟩ | ⟨_, _, outside⟩
    · exact sound.alone.others (same.mp inside) other
    · exact sound.unlocked free d
    · exact absurd inside outside
  · exact sound.alone.leave inside

theorem Sound.lock_after (sound : s.Sound) (acted : s.shared.Acted c (s.locals c) r' place') :
    r'.locked = true ↔ ∃ d, Removing ((after s c r' place').locals d) := by
  rcases lock_acted acted with ⟨same, inside⟩ | ⟨_, locked, inside⟩ | ⟨free, inside, outside⟩
  · rw [same, sound.lock]
    constructor
    · exact Threads.exists_update inside.mpr
    · rintro ⟨d, there⟩
      by_cases actor : d = c
      · subst actor
        rw [after_self] at there
        exact ⟨d, inside.mp there⟩
      · rw [after_other s r' place' actor] at there
        exact ⟨d, there⟩
  · exact ⟨fun _ => ⟨c, by rwa [after_self]⟩, fun _ => locked⟩
  · rw [free]
    refine ⟨fun wrong => (by cases wrong), ?_⟩
    rintro ⟨d, there⟩
    by_cases actor : d = c
    · subst actor
      rw [after_self] at there
      exact absurd there outside
    · rw [after_other s r' place' actor] at there
      exact absurd there (sound.alone.others inside actor)

omit [DecidableEq C] in
theorem Sound.registered_after (sound : s.Sound) (acted : s.shared.Acted c (s.locals c) r' place')
    (proxyID : String) (pair : Nat) (known : r'.pairs.get proxyID = some pair) :
    ∃ p, r'.heap[pair]? = some p ∧ p.proxyID = proxyID := by
  have keep (before : s.shared.pairs.get proxyID = some pair) : ∃ p, r'.heap[pair]? = some p ∧ p.proxyID = proxyID := by
    obtain ⟨p, found, own⟩ := sound.registered proxyID pair before
    obtain ⟨p', found', later⟩ := acted.grows.heap pair p found
    exact ⟨p', found', later.proxyID.trans own⟩
  rcases pairs_acted acted with same | ⟨id, _, _, same, created⟩ | ⟨_, _, _, _, p, _, _, _, same⟩
  all_goals rw [same] at known
  · exact keep known
  · rw [FinMap.get_set] at known
    split at known
    · rename_i own
      cases known
      exact ⟨_, created, own.symm⟩
    · exact keep known
  · rw [FinMap.get_delete] at known
    split at known
    · cases known
    · exact keep known

theorem Sound.held_after (sound : s.Sound) (acted : s.shared.Acted c (s.locals c) r' place') (d : C)
    (stage : RemoveStage) (pair : Nat) (seen : UInt64 × UInt64) (victim : Nat)
    (inside : (after s c r' place').locals d = .removing stage pair seen victim) :
    ∃ p, r'.heap[pair]? = some p ∧ r'.pairs.get p.proxyID = some victim := by
  have keep {p : PairConns C} (found : s.shared.heap[pair]? = some p) (own : s.shared.pairs.get p.proxyID = some victim)
      (same : r'.pairs = s.shared.pairs) : ∃ p, r'.heap[pair]? = some p ∧ r'.pairs.get p.proxyID = some victim := by
    obtain ⟨p', found', later⟩ := acted.grows.heap pair p found
    exact ⟨p', found', by rw [same, later.proxyID, own]⟩
  by_cases actor : d = c
  · subst actor
    rw [after_self] at inside
    have same : r'.pairs = s.shared.pairs := by
      rcases pairs_acted acted with same | ⟨_, _, outside, _⟩ | ⟨_, _, _, _, _, _, outside, _⟩
      · exact same
      all_goals exact absurd (inside ▸ removing_inside ..) outside
    have before := sound.held d
    generalize s.locals d = place at acted before
    cases acted with
    | begun _ found registered =>
      cases inside
      exact keep found registered same
    | failed | cleared | closedPair =>
      cases inside
      obtain ⟨p, found, own⟩ := before _ _ _ _ rfl
      exact keep found own same
    | noticed _ _ _ outcome => rcases outcome with rfl | ⟨rfl, _⟩ <;> cases inside
    | joined | created | set | stale | unregistered | ended => cases inside
  · rw [after_other s r' place' actor] at inside
    obtain ⟨p, found, own⟩ := sound.held d stage pair seen victim inside
    have here : Removing (s.locals d) := inside ▸ removing_inside ..
    rcases pairs_acted acted with same | ⟨_, free, _⟩ | ⟨_, _, _, _, _, there, _⟩
    · exact keep found own same
    · exact absurd here (sound.unlocked free d)
    · exact absurd here (sound.alone.others (there ▸ removing_inside ..) actor)

theorem Sound.dead_after (sound : s.Sound) (acted : s.shared.Acted c (s.locals c) r' place') (pair : Nat)
    (p : PairConns C) (type : ConnectionType) (located : r'.heap[pair]? = some p) (off : (p.get type).alive = false) :
    (∀ conn, (p.get type).conn = some conn → conn ∈ r'.closed) ∨
      ∃ d, Marks pair ((after s c r' place').locals d) := by
  -- a direction that is as before is dead for the reason it was before
  have keep {q : PairConns C} (before : s.shared.heap[pair]? = some q) (same : p.get type = q.get type)
      (kept : Marks pair (s.locals c) → Marks pair place') :
      (∀ conn, (p.get type).conn = some conn → conn ∈ r'.closed) ∨
        ∃ d, Marks pair ((after s c r' place').locals d) := by
    rw [same] at off ⊢
    rcases sound.dead pair q type before off with shut | marked
    · exact Or.inl fun conn current => acted.grows.closed conn (shut conn current)
    · exact Or.inr (Threads.exists_update kept marked)
  have fits := sound.fits c
  generalize s.locals c = place at acted fits keep
  cases acted with
  | failed => exact keep located rfl id
  | joined | stale | unregistered => exact keep located rfl (by simp [Marks])
  | ended => exact keep located rfl (by simp [Marks])
  | created =>
    by_cases old : pair < s.shared.heap.length
    · rw [List.getElem?_append_left old] at located
      exact keep located rfl (by simp [Marks])
    · rw [List.getElem?_append_right (by omega)] at located
      have fresh := List.mem_singleton.mp (List.mem_of_getElem? located)
      subst fresh
      cases type <;> exact Or.inl fun _ current => by cases current
  | set found =>
    rcases PairConns.get_of_put found located type with ⟨_, _, new⟩ | ⟨q, before, same⟩
    · rw [new] at off
      cases off
    · exact keep before same (by simp [Marks])
  | noticed found closed cleared =>
    subst cleared
    rcases PairConns.get_of_put found located type with ⟨rfl, rfl, new⟩ | ⟨q, before, same⟩
    · -- the watcher of the current generation saw its own connection closed
      obtain ⟨q, before, _, own⟩ := fits
      rw [found] at before
      cases before
      refine Or.inl fun conn current => ?_
      rw [new, own rfl] at current
      cases current
      exact closed
    · exact keep before same (by simp [Marks])
  | @begun _ victim _ _ _ _ registered =>
    obtain ⟨q, found, _⟩ := sound.registered _ _ registered
    rw [ProxyRegistry.clearAlive_eq (r := { s.shared with locked := true }) found] at located
    rcases PairConns.get_of_put found located type with ⟨rfl, _, _⟩ | ⟨q, before, same⟩
    · exact Or.inr ⟨c, by rw [after_self]; exact ⟨_, _, _, rfl, by simp⟩⟩
    · exact keep before same (by simp [Marks])
  | @cleared _ victim _ =>
    cases found : s.shared.heap[victim]? with
    | none =>
      simp only [ProxyRegistry.clearAlive, found] at located
      exact keep located rfl (by simp [Marks])
    | some q =>
      rw [ProxyRegistry.clearAlive_eq found] at located
      rcases PairConns.get_of_put found located type with ⟨rfl, _, _⟩ | ⟨q, before, same⟩
      · exact Or.inr ⟨c, by rw [after_self]; exact ⟨_, _, _, rfl, by simp⟩⟩
      · exact keep before same (by simp [Marks])
  | @closedPair _ victim _ =>
    by_cases here : pair = victim
    · subst here
      refine Or.inl fun conn current => ?_
      unfold ProxyRegistry.closePair at located ⊢
      cases found : s.shared.heap[pair]? with
      | none => simp [found] at located
      | some q =>
        simp only [found] at located ⊢
        cases located
        exact List.mem_append_left _ (PairConns.mem_conns.mpr ⟨type, current⟩)
    · refine keep (q := p) ?_ rfl ?_
      · unfold ProxyRegistry.closePair at located
        split at located <;> exact located
      · rintro ⟨_, _, _, inside, _⟩
        cases inside
        exact absurd rfl here

/-- A pair that is being removed or was removed never comes back. -/
theorem Sound.doomed_after (sound : s.Sound) (acted : s.shared.Acted c (s.locals c) r' place') {pair : Nat}
    (present : pair < s.shared.heap.length) (doomed : s.Doomed pair) : (after s c r' place').Doomed pair := by
  rcases doomed with ⟨d, inside⟩ | gone
  · by_cases actor : d = c
    · subst actor
      rcases targets_acted acted inside with still | ⟨stage, decider, seen, p, here, found, deleted⟩
      · exact Or.inl ⟨d, by rwa [after_self]⟩
      · -- the pair is registered under one proxy, and that place is now free
        refine Or.inr fun proxyID known => ?_
        obtain ⟨q, found', own⟩ := sound.held d stage decider seen pair here
        rw [found] at found'
        cases found'
        change r'.pairs.get proxyID = some pair at known
        rw [deleted, FinMap.get_delete] at known
        split at known
        · cases known
        · rename_i other
          obtain ⟨a, first, firstID⟩ := sound.registered proxyID pair known
          obtain ⟨b, second, secondID⟩ := sound.registered p.proxyID pair own
          rw [first] at second
          cases second
          exact other (firstID.symm.trans secondID)
    · exact Or.inl ⟨d, by rwa [after_other s r' place' actor]⟩
  · refine Or.inr fun proxyID known => ?_
    change r'.pairs.get proxyID = some pair at known
    rcases pairs_acted acted with same | ⟨id, _, _, same, _⟩ | ⟨_, _, _, _, p, _, _, _, same⟩
    all_goals rw [same] at known
    · exact gone proxyID known
    · rw [FinMap.get_set] at known
      split at known
      · cases known
        exact Nat.lt_irrefl _ present
      · exact gone proxyID known
    · rw [FinMap.get_delete] at known
      split at known
      · cases known
      · exact gone proxyID known

theorem Sound.fits_after (sound : s.Sound) (acted : s.shared.Acted c (s.locals c) r' place') (d : C) :
    Fits r' d ((after s c r' place').locals d) := by
  by_cases actor : d = c
  · subst actor
    rw [after_self]
    have fits := sound.fits d
    have decided := sound.decided d
    have grows := acted.grows
    generalize s.locals d = place at acted fits decided
    have before := fits.mono grows
    cases acted with
    | failed => exact before
    | joined | created | stale | unregistered | ended => trivial
    | set found =>
      refine ⟨_, List.getElem?_set_self (List.getElem?_eq_some_iff.mp found).1, ?_, fun _ => ?_⟩
      · rw [PairConns.get_put_self]
        exact UInt64.le_refl _
      · rw [PairConns.get_put_self]
    | noticed found _ _ outcome =>
      rcases outcome with rfl | ⟨rfl, _⟩
      · trivial
      · exact ⟨_, List.getElem?_set_self (List.getElem?_eq_some_iff.mp found).1, UInt64.le_refl _, UInt64.le_refl _⟩
    | @begun pair victim seen p free found registered =>
      refine ⟨before, ?_⟩
      rintro rfl
      -- the pair is registered and no other `Remove` is under way
      rcases decided victim seen rfl with quiet | ⟨other, inside⟩ | gone
      · exact grows.quiet fits quiet
      · exact absurd ⟨victim, inside⟩ (sound.unlocked free other)
      · exact absurd registered (gone p.proxyID)
    | cleared | closedPair => exact before
  · rw [after_other s r' place' actor]
    exact (sound.fits d).mono acted.grows

theorem Sound.decided_after (sound : s.Sound) (acted : s.shared.Acted c (s.locals c) r' place') (d : C) (pair : Nat)
    (seen : UInt64 × UInt64) (inside : (after s c r' place').locals d = .decided pair seen) :
    r'.Quiet pair seen ∨ (after s c r' place').Doomed pair := by
  have keep (saw : s.shared.Saw pair seen) (before : s.shared.Quiet pair seen ∨ s.Doomed pair) :
      r'.Quiet pair seen ∨ (after s c r' place').Doomed pair := by
    rcases before with quiet | doomed
    · exact Or.inl (acted.grows.quiet saw quiet)
    · obtain ⟨p, found, _⟩ := saw
      exact Or.inr (sound.doomed_after acted (List.getElem?_eq_some_iff.mp found).1 doomed)
  by_cases actor : d = c
  · subst actor
    rw [after_self] at inside
    subst inside
    have fits := sound.fits d
    have decided := sound.decided d
    have dead := sound.dead_after acted
    generalize s.locals d = place at acted fits decided
    cases acted with
    | failed => exact keep fits (decided pair seen rfl)
    | @noticed _ type p p' _ found closed cleared outcome =>
      rcases outcome with other | ⟨same, inbound, outbound⟩
      · cases other
      · cases same
        have located : (s.shared.heap.set pair p')[pair]? = some p' :=
          List.getElem?_set_self (List.getElem?_eq_some_iff.mp found).1
        by_cases marked : ∃ d', Marks pair
            ((after s d { s.shared with heap := s.shared.heap.set pair p' } (.decided pair p'.gens)).locals d')
        · obtain ⟨d', stage, decider, seen, there, _⟩ := marked
          exact Or.inr (Or.inl ⟨d', stage, decider, seen, there⟩)
        · refine Or.inl fun q again _ conn member => ?_
          rw [located] at again
          cases again
          obtain ⟨type', current⟩ := PairConns.mem_conns.mp member
          have off : (p'.get type').alive = false := by
            cases type'
            · exact inbound
            · exact outbound
          exact (dead pair p' type' located off).resolve_right marked conn current
  · rw [after_other s r' place' actor] at inside
    have fits := sound.fits d
    rw [inside] at fits
    exact keep fits (sound.decided d pair seen inside)

theorem Sound.after (sound : s.Sound) (acted : s.shared.Acted c (s.locals c) r' place') : (after s c r' place').Sound :=
  ⟨sound.lock_after acted, sound.alone_after acted, sound.fits_after acted, sound.registered_after acted,
    sound.held_after acted, sound.dead_after acted, sound.decided_after acted⟩

/-- In every interleaving a `Remove` whose watcher decided about the pair that it
found, and since when neither direction of that pair got a new connection, finds
no open connection in it, from the moment it has the lock to the moment it gives
the lock back. -/
theorem removal_finds_closed_unless_raced {ops : List (C × ConnSection)} {s : Connections C} {c : C}
    {stage : RemoveStage} {pair victim : Nat} {seen : UInt64 × UInt64} {p : PairConns C} (run : Reaches ops s)
    (inside : s.locals c = .removing stage pair seen victim) (same : victim = pair)
    (found : s.shared.heap[victim]? = some p) (unchanged : p.gens = seen) : ¬ s.shared.Open victim := by
  have sound : s.Sound := by
    refine run.invariant (fun _ s => s.Sound) .start ?_
    intro _ s op s' sound counted stepped
    obtain ⟨r', place', acted, rfl⟩ := Threads.step_eq_some.mp stepped
    exact sound.after (ProxyRegistry.act_acted counted acted)
  have fits := sound.fits c
  rw [inside] at fits
  subst same
  rintro ⟨q, located, conn, member, isOpen⟩
  rw [found] at located
  cases located
  exact isOpen (fits.2 rfl p found unchanged conn member)

/-! ### Given runs -/

private def guardedStep (s : Connections Nat) (op : Nat × ConnSection) : Option (Connections Nat) :=
  if s.shared.counted (s.locals op.1) op.2 = true then step s op else none

/-- The only connection of a proxy is lost, and its watcher comes to the point of closing the pair. -/
private def lost : List (Nat × ConnSection) :=
  [(1, .getOrCreate "p" .inbound true), (1, .setConn), (1, .fail), (1, .connClosed), (1, .removeBegin),
    (1, .clearOutbound)]

private theorem lost_executes : (lost.foldlM guardedStep new).isSome = true := rfl

theorem lost_pair_has_no_open_connection :
    ∃ s : Connections Nat, Reaches lost s ∧ s.locals 1 = .removing .marked 0 (1, 0) 0 ∧ ¬ s.shared.Open 0 := by
  have run : Reaches lost (Option.get _ lost_executes) := Run.of_guarded (Option.some_get _).symm
  exact ⟨_, run, rfl, removal_finds_closed_unless_raced (c := 1) run rfl rfl rfl rfl⟩

/-- The proxy connects again between the decision and the `Remove`. -/
private def reconnected : List (Nat × ConnSection) :=
  [(1, .getOrCreate "p" .inbound true), (1, .setConn), (1, .fail), (1, .connClosed),
    (2, .getOrCreate "p" .inbound true), (2, .setConn), (1, .removeBegin), (1, .clearOutbound)]

private theorem reconnected_executes : (reconnected.foldlM guardedStep new).isSome = true := rfl

/-- An outbound connection joins the pair before it is removed and is set in it
afterwards; a new pair of the proxy gets an inbound connection; then the outbound
connection of the old pair is lost. -/
private def replaced : List (Nat × ConnSection) :=
  [(1, .getOrCreate "p" .inbound true), (1, .setConn), (2, .getOrCreate "p" .outbound true), (1, .fail),
    (1, .connClosed), (1, .removeBegin), (1, .clearOutbound), (1, .closePair), (1, .removeEnd true), (2, .setConn),
    (3, .getOrCreate "p" .inbound true), (3, .setConn), (2, .fail), (2, .connClosed), (2, .removeBegin),
    (2, .clearOutbound)]

private theorem replaced_executes : (replaced.foldlM guardedStep new).isSome = true := rfl

/-- `Remove` closes a pair that has an open connection: one that the pair got
after the decision, or one of another pair that the proxy has since. -/
theorem reconnecting_proxy_removed :
    (∃ s s' : Connections Nat, Reaches reconnected s ∧ s.shared.pairs.get "p" = some 0 ∧ s.shared.Open 0 ∧
      step s (1, .closePair) = some s' ∧ 2 ∉ s.shared.closed ∧ 2 ∈ s'.shared.closed) ∧
    ∃ s s' : Connections Nat, Reaches replaced s ∧ s.shared.pairs.get "p" = some 1 ∧ s.shared.Open 1 ∧
      step s (2, .closePair) = some s' ∧ 3 ∉ s.shared.closed ∧ 3 ∈ s'.shared.closed := by
  constructor
  · have run : Reaches reconnected (Option.get _ reconnected_executes) := Run.of_guarded (Option.some_get _).symm
    have closed : (Option.get _ reconnected_executes).shared.closed = [1, 1] := rfl
    have unclosed : 2 ∉ (Option.get _ reconnected_executes).shared.closed := by simp [closed]
    exact ⟨_, _, run, rfl, ⟨_, rfl, 2, List.mem_cons_self, unclosed⟩, rfl, unclosed, List.mem_cons_self⟩
  · have run : Reaches replaced (Option.get _ replaced_executes) := Run.of_guarded (Option.some_get _).symm
    have closed : (Option.get _ replaced_executes).shared.closed = [2, 1, 1] := rfl
    have unclosed : 3 ∉ (Option.get _ replaced_executes).shared.closed := by simp [closed]
    exact ⟨_, _, run, rfl, ⟨_, rfl, 3, List.mem_cons_self, unclosed⟩, rfl, unclosed, List.mem_cons_self⟩

end Connections
end Cue.Proxy
