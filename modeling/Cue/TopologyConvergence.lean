import Cue.Lib.Run
import Cue.PartitionProofs
import Cue.State.TopicManager

/-! The proxies that a partition knows and the proxies that the topic manager
knows. The manager keeps the whole topology, and a new partition copies it; a
running one is told of changes one at a time, over a channel that may be full,
and then the change is lost. The broadcast to several partitions is a step per
partition, in any order, and the partitions go on in between.

The updates on the way decide what a partition will know, so `Worker.settled` is
what is followed through a run. -/
namespace Cue.State
open Cue.Lib Cue.Model

namespace Partition

/-! ### What the steps of a partition do to its push channels -/

theorem addJob_proxyPushChs {p p' : Partition} {job : Job} {clock : Clock} {outcome : AddOutcome}
    (ok : p.addJob job clock = .ok (p', outcome)) : p'.proxyPushChs = p.proxyPushChs := by
  unfold addJob at ok
  repeat' split at ok
  all_goals cases ok
  all_goals rfl

theorem addJobs_proxyPushChs {p p' : Partition} {jobs : List Job} {clock : Nat → Clock}
    {outcomes : List (String × AddOutcome)} (ok : p.addJobs jobs clock = .ok (p', outcomes)) :
    p'.proxyPushChs = p.proxyPushChs := by
  induction jobs generalizing p clock outcomes with
  | nil =>
    cases ok
    rfl
  | cons job jobs ih =>
    obtain ⟨middle, outcome, rest, first, others, rfl⟩ := addJobs_cons ok
    rw [ih others, addJob_proxyPushChs first]

theorem dispatch_proxyPushChs {p p' : Partition} {env : DispatchEnv} {sent : Option SentBatch}
    (ok : p.dispatch env = .ok (p', sent)) : p'.proxyPushChs = p.proxyPushChs := by
  unfold dispatch dispatchItems at ok
  repeat' split at ok
  all_goals cases ok
  all_goals rfl

theorem flushDLQ_proxyPushChs {p p' : Partition} {now : Int} {room : Bool} {cmd : Option Command}
    (ok : p.flushDLQ now room = .ok (p', cmd)) : p'.proxyPushChs = p.proxyPushChs := by
  unfold flushDLQ at ok
  split at ok
  · cases ok
  · dsimp only at ok
    split at ok <;> cases ok <;> rfl

theorem step_proxyPushChs {p p' : Partition} {op : Op} {effect : Effect} (ok : p.step op = .ok (p', effect))
    (other : ∀ update, op ≠ .topology update) : p'.proxyPushChs = p.proxyPushChs := by
  cases op with
  | topology update => exact absurd rfl (other update)
  | heartbeat hb =>
    obtain ⟨q, run, rest⟩ := bind_ok ok
    cases rest
    unfold handleHeartbeat at run
    repeat' split at run
    all_goals cases run
    all_goals rfl
  | cleanup now order rebuildOrder =>
    obtain ⟨q, run, rest⟩ := bind_ok ok
    cases rest
    unfold cleanupProxyMap at run
    split at run <;> cases run
    rfl
  | command cmd clock =>
    cases step_ran ok with
    | addJobs _ _ added => exact addJobs_proxyPushChs added
    | done | drop | ignored => rfl
    | proxies proxy _ _ => exact absurd rfl (proxy cmd clock)
  | dispatch env =>
    cases step_ran ok with
    | dispatch run => exact dispatch_proxyPushChs run
    | proxies _ idle _ => exact absurd rfl (idle env)
  | flush now room =>
    cases step_ran ok with
    | flush _ run => exact flushDLQ_proxyPushChs run
    | unflushed => rfl
    | proxies _ _ steady => exact absurd rfl (steady now room)

def TopologyUpdate.proxyID : TopologyUpdate → String
  | .add proxyID _ | .remove proxyID => proxyID

/-- The push channels after an update. -/
def learn (chs : FinMap String PushCh) : TopologyUpdate → FinMap String PushCh
  | .add proxyID (some pushCh) => chs.set proxyID pushCh
  | .add _ none => chs
  | .remove proxyID => chs.delete proxyID

@[simp] theorem handleTopologyUpdate_proxyPushChs (p : Partition) (update : TopologyUpdate) :
    (p.handleTopologyUpdate update).proxyPushChs = learn p.proxyPushChs update := by
  rcases update with ⟨proxyID, _ | pushCh⟩ | proxyID <;> rfl

/-- An update is about its own proxy only. -/
theorem get_learn_of_ne (chs : FinMap String PushCh) {update : TopologyUpdate} {proxyID : String}
    (other : proxyID ≠ update.proxyID) : (learn chs update).get proxyID = chs.get proxyID := by
  rcases update with ⟨id, _ | pushCh⟩ | id
  · rfl
  · exact (FinMap.get_set chs id proxyID pushCh).trans (if_neg other)
  · exact (FinMap.get_delete chs id proxyID).trans (if_neg other)

end Partition

namespace Worker

variable {w w' : Worker}

/-- The updates that are on the way to the partition, in order. -/
def pending (w : Worker) : List Partition.TopologyUpdate := w.handling.toList ++ w.topologyCh

/-- The push channels that the partition will know when all these are handled. -/
def settled (w : Worker) : FinMap String PushCh := w.pending.foldl Partition.learn w.partition.proxyPushChs

theorem settled_receive (received : w.receive = some w') : w'.settled = w.settled := by
  unfold receive at received
  split at received
  · rename_i update rest free channel
    cases received
    simp [settled, pending, free, channel]
  · cases received

theorem settled_handle (handled : w.handle = some w') : w'.settled = w.settled := by
  unfold handle at handled
  split at handled
  · rename_i update busy
    cases handled
    simp [settled, pending, busy]
  · cases handled

theorem settled_work {op : Partition.Op} (worked : w.work op = some w') : w'.settled = w.settled := by
  unfold work at worked
  split at worked
  · cases worked
  · cases worked
  · rename_i other
    split at worked
    · rename_i p effect ok
      cases worked
      have kept := Partition.step_proxyPushChs ok fun update same => other update same
      simp [settled, pending, kept]
    · cases worked

/-- An update that finds room comes last. -/
theorem settled_offer (w : Worker) (update : Partition.TopologyUpdate) :
    settled { w with topologyCh := w.topologyCh ++ [update] } = Partition.learn w.settled update := by
  simp [settled, pending]

/-- At rest the partition knows what was settled. -/
theorem settled_rest (idle : w.handling = none) (empty : w.topologyCh = []) :
    w.settled = w.partition.proxyPushChs := by
  simp [settled, pending, idle, empty]

end Worker

namespace TopicManager

/-- The push channel that the current topology has for a proxy. -/
def pushCh (tm : TopicManager) (proxyID : String) : Option PushCh := (tm.currentTopology.get proxyID).join

/-- A loop over the current topology, for one proxy: only its own entry matters. -/
theorem get_learn_all {topology : List (String × Option PushCh)} (distinct : (topology.map Prod.fst).Nodup)
    (chs : FinMap String PushCh) (proxyID : String) :
    (topology.foldl (fun chs entry => Partition.learn chs (.add entry.1 entry.2)) chs).get proxyID =
      ((topology.find? fun entry => entry.1 = proxyID).bind Prod.snd).or (chs.get proxyID) := by
  induction topology generalizing chs with
  | nil => rfl
  | cons entry topology ih =>
    obtain ⟨id, ch⟩ := entry
    rw [List.map_cons, List.nodup_cons] at distinct
    rw [List.foldl_cons, ih distinct.2]
    by_cases here : id = proxyID
    · subst here
      have gone : (topology.find? fun entry => entry.1 = id) = none := by
        refine List.find?_eq_none.mpr fun entry member same => distinct.1 ?_
        exact List.mem_map.mpr ⟨entry, member, by simpa using same⟩
      cases ch with
      | none => simp [gone, Partition.learn]
      | some ch => simp [gone, Partition.learn]
    · have other : proxyID ≠ (Partition.TopologyUpdate.add id ch).proxyID := Ne.symm here
      rw [Partition.get_learn_of_ne chs other]
      simp [here]

/-- A new partition knows the current topology. -/
theorem settled_startPartition (tm : TopicManager) (topic : String) (nowMilli : Int) (proxyID : String) :
    (tm.startPartition topic nowMilli).settled.get proxyID = tm.pushCh proxyID := by
  rw [Worker.settled_rest rfl rfl]
  unfold startPartition
  dsimp only
  have learned : (tm.currentTopology.pairs.foldl (fun p entry => p.handleTopologyUpdate (.add entry.1 entry.2))
      (Partition.new topic tm.config nowMilli)).proxyPushChs =
      tm.currentTopology.pairs.foldl (fun chs entry => Partition.learn chs (.add entry.1 entry.2)) .empty :=
    (List.foldl_hom Partition.proxyPushChs
      fun p entry => (Partition.handleTopologyUpdate_proxyPushChs p (.add entry.1 entry.2)).symm).symm
  rw [learned, get_learn_all tm.currentTopology.nodup, FinMap.get_empty, Option.or_none]
  unfold pushCh FinMap.get
  cases tm.currentTopology.pairs.find? fun entry => entry.1 = proxyID with
  | none => rfl
  | some entry => simp

/-- What a broadcast has recorded about its proxy. -/
def Recorded (tm : TopicManager) : Partition.TopologyUpdate → Prop
  | .add proxyID pushCh => tm.currentTopology.get proxyID = some pushCh
  | .remove proxyID => tm.currentTopology.get proxyID = none

theorem recordUpdate_recorded (tm : TopicManager) (update : Partition.TopologyUpdate) :
    (tm.recordUpdate update).Recorded update := by
  cases update with
  | add proxyID pushCh => exact FinMap.get_set_self _ proxyID pushCh
  | remove proxyID => simp [Recorded, recordUpdate, FinMap.get_delete]

theorem recordUpdate_of_ne (tm : TopicManager) {update : Partition.TopologyUpdate} {proxyID : String}
    (other : proxyID ≠ update.proxyID) :
    (tm.recordUpdate update).currentTopology.get proxyID = tm.currentTopology.get proxyID := by
  cases update with
  | add id pushCh => exact (FinMap.get_set _ id proxyID pushCh).trans (if_neg other)
  | remove id => exact (FinMap.get_delete _ id proxyID).trans (if_neg other)

@[simp] theorem recordUpdate_workers (tm : TopicManager) (update : Partition.TopologyUpdate) :
    (tm.recordUpdate update).workers = tm.workers := by
  cases update <;> rfl

/-- A recorded update says what the topology has for its proxy, unless it adds
the proxy without a channel. -/
theorem Recorded.get_learn {tm : TopicManager} {update : Partition.TopologyUpdate} (recorded : tm.Recorded update)
    (chs : FinMap String PushCh) (channel : tm.currentTopology.get update.proxyID ≠ some none) :
    (Partition.learn chs update).get update.proxyID = tm.pushCh update.proxyID := by
  rcases update with ⟨id, _ | ch⟩ | id
  · exact absurd recorded channel
  · simp [Partition.learn, Partition.TopologyUpdate.proxyID, pushCh, show _ = _ from recorded]
  · simp [Partition.learn, Partition.TopologyUpdate.proxyID, pushCh, show _ = _ from recorded, FinMap.get_delete]

@[simp] theorem offer_currentTopology (tm : TopicManager) (topic : String) (update : Partition.TopologyUpdate) :
    (tm.offer topic update).1.currentTopology = tm.currentTopology := by
  unfold offer
  repeat' split
  all_goals rfl

/-- An offer is about its own topic only. -/
theorem offer_of_ne (tm : TopicManager) {topic other : String} (update : Partition.TopologyUpdate)
    (different : other ≠ topic) : (tm.offer topic update).1.workers.get other = tm.workers.get other := by
  unfold offer
  split
  · split
    · exact (FinMap.get_set _ topic other _).trans (if_neg different)
    · rfl
  · rfl

/-- What the partition of the topic will know, whether or not there was room. -/
theorem offer_settled {tm : TopicManager} {topic : String} {update : Partition.TopologyUpdate} {w : Worker}
    (found : (tm.offer topic update).1.workers.get topic = some w) :
    ∃ before, tm.workers.get topic = some before ∧
      w.settled = if (tm.offer topic update).2 then Partition.learn before.settled update else before.settled := by
  unfold offer at found ⊢
  cases known : tm.workers.get topic with
  | none => simp [known] at found
  | some before =>
    refine ⟨before, rfl, ?_⟩
    simp only [known] at found ⊢
    by_cases room : before.topologyCh.length < topologyCapacity
    · simp only [room, if_true, FinMap.get_set_self, Option.some.injEq] at found ⊢
      rw [← found, Worker.settled_offer]
    · simp only [room, if_false, known, Option.some.injEq] at found ⊢
      rw [found, if_neg Bool.false_ne_true]

end TopicManager

/-! ### The manager and the partitions together -/

structure TopologyFeed where
  manager : TopicManager
  /-- what the broadcast that is under way has still to send, and to which topic -/
  unsent : List (String × Partition.TopologyUpdate)
  /-- the topics, each with a proxy whose last update it missed; no step reads this -/
  missed : List (String × String)

inductive TopologyOp where
  | command (cmd : TopicCommand) (nowMilli : Int) (room : Bool)
  | offer (topic : String) (update : Partition.TopologyUpdate)
  | receive (topic : String)
  | handle (topic : String)
  | work (topic : String) (op : Partition.Op)

namespace TopologyFeed

def new (config : PartitionConfig) : TopologyFeed := ⟨.new config, [], []⟩

/-- A step of one partition's goroutine. -/
def atWorker (s : TopologyFeed) (topic : String) (act : Worker → Option Worker) : Option TopologyFeed :=
  match s.manager.workers.get topic with
  | none => none
  | some w =>
    match act w with
    | none => none
    | some w' => some { s with manager := { s.manager with workers := s.manager.workers.set topic w' } }

/-- The switch of the manager's `Run`. -/
def runCommand (s : TopologyFeed) (nowMilli : Int) (room : Bool) : TopicCommand → TopologyFeed
  | .spawn topic requestID respCh => { s with
      manager := (s.manager.handleSpawn topic requestID respCh nowMilli room).1
      missed := if s.manager.workers.contains topic then s.missed else s.missed.filter fun pair => pair.1 ≠ topic }
  | .kill topic requestID respCh => { s with manager := (s.manager.handleKill topic requestID respCh room).1 }
  | .topology (some update) => { s with
      manager := s.manager.recordUpdate update
      unsent := s.manager.workers.keys.map fun topic => (topic, update) }
  | .topology none | .unknown _ _ => s

/-- One iteration of the broadcast's loop. -/
def offer (s : TopologyFeed) (topic : String) (update : Partition.TopologyUpdate) : TopologyFeed where
  manager := (s.manager.offer topic update).1
  unsent := s.unsent.erase (topic, update)
  missed :=
    if (s.manager.offer topic update).2 then s.missed.filter fun pair => pair ≠ (topic, update.proxyID)
    else (topic, update.proxyID) :: s.missed

def step (s : TopologyFeed) : TopologyOp → Option TopologyFeed
  | .command cmd nowMilli room => if s.unsent = [] then some (s.runCommand nowMilli room cmd) else none
  | .offer topic update => if (topic, update) ∈ s.unsent then some (s.offer topic update) else none
  | .receive topic => s.atWorker topic Worker.receive
  | .handle topic => s.atWorker topic Worker.handle
  | .work topic op => s.atWorker topic fun w => w.work op

/-- Any sequence of commands, in any interleaving with the partitions. -/
def Reaches (config : PartitionConfig) : List TopologyOp → TopologyFeed → Prop :=
  Run (fun s op s' => s.step op = some s') (fun _ _ _ => True) (new config)

/-- What will be settled agrees with the current topology wherever nothing was
missed and nothing is unsent. -/
structure Agrees (s : TopologyFeed) : Prop where
  distinct : (s.unsent.map Prod.fst).Nodup
  recorded : ∀ topic update, (topic, update) ∈ s.unsent → s.manager.Recorded update
  settled : ∀ topic w, s.manager.workers.get topic = some w → ∀ proxyID, (topic, proxyID) ∉ s.missed →
    (∀ update, (topic, update) ∈ s.unsent → proxyID ≠ update.proxyID) →
    s.manager.currentTopology.get proxyID ≠ some none → w.settled.get proxyID = s.manager.pushCh proxyID

theorem Agrees.start (config : PartitionConfig) : (new config).Agrees := by
  refine ⟨List.nodup_nil, ?_, ?_⟩
  · intro topic update member
    cases member
  · intro topic w found
    cases found

variable {s s' : TopologyFeed} {topic : String}

theorem Agrees.atWorker {act : Worker → Option Worker} (agrees : s.Agrees)
    (kept : ∀ w w', act w = some w' → w'.settled = w.settled) (stepped : s.atWorker topic act = some s') :
    s'.Agrees := by
  unfold TopologyFeed.atWorker at stepped
  split at stepped
  · cases stepped
  · rename_i w found
    split at stepped
    · cases stepped
    · rename_i w' acted
      cases stepped
      refine ⟨agrees.distinct, agrees.recorded, ?_⟩
      intro other v located proxyID heard sent channel
      dsimp only at located
      rw [FinMap.get_set] at located
      split at located
      · rename_i same
        subst same
        cases located
        rw [kept w w' acted]
        exact agrees.settled _ w found proxyID heard sent channel
      · exact agrees.settled other v located proxyID heard sent channel

theorem Agrees.spawn (agrees : s.Agrees) (topic : String) (requestID : UInt32) (respCh : Option Nat) (nowMilli : Int)
    (room : Bool) : (s.runCommand nowMilli room (.spawn topic requestID respCh)).Agrees := by
  unfold runCommand TopicManager.handleSpawn
  by_cases known : s.manager.workers.contains topic
  · simpa [known] using agrees
  · simp only [known, Bool.false_eq_true, if_false]
    refine ⟨agrees.distinct, agrees.recorded, ?_⟩
    intro other w located proxyID heard sent channel
    dsimp only at located heard
    rw [FinMap.get_set] at located
    split at located
    · cases located
      exact s.manager.settled_startPartition topic nowMilli proxyID
    · rename_i different
      refine agrees.settled other w located proxyID ?_ sent channel
      intro missed
      exact heard (List.mem_filter.mpr ⟨missed, by simpa using different⟩)

theorem Agrees.kill (agrees : s.Agrees) (topic : String) (requestID : UInt32) (respCh : Option Nat) (nowMilli : Int)
    (room : Bool) : (s.runCommand nowMilli room (.kill topic requestID respCh)).Agrees := by
  unfold runCommand TopicManager.handleKill
  by_cases known : s.manager.workers.contains topic
  · simp only [known, if_true]
    refine ⟨agrees.distinct, agrees.recorded, ?_⟩
    intro other w located
    dsimp only at located
    rw [FinMap.get_delete] at located
    split at located
    · cases located
    · exact agrees.settled other w located
  · simpa [known] using agrees

theorem Agrees.record (agrees : s.Agrees) (free : s.unsent = []) (update : Partition.TopologyUpdate) (nowMilli : Int)
    (room : Bool) : (s.runCommand nowMilli room (.topology (some update))).Agrees := by
  refine ⟨?_, ?_, ?_⟩
  · have keys : (s.manager.workers.keys).Nodup := s.manager.workers.nodup
    simpa [runCommand, Function.comp_def] using keys
  · intro topic other member
    obtain ⟨_, _, same⟩ := List.mem_map.mp member
    cases same
    exact s.manager.recordUpdate_recorded update
  · intro topic w found proxyID heard sent channel
    simp only [runCommand, TopicManager.recordUpdate_workers] at found
    have member : topic ∈ s.manager.workers.keys := (FinMap.mem_keys _ topic).mpr ⟨w, found⟩
    have other := sent update (List.mem_map.mpr ⟨topic, member, rfl⟩)
    have same := s.manager.recordUpdate_of_ne other
    simp only [runCommand, TopicManager.pushCh, same] at channel ⊢
    exact agrees.settled topic w found proxyID heard (by simp [free]) channel

theorem Agrees.offer (agrees : s.Agrees) {update : Partition.TopologyUpdate} (member : (topic, update) ∈ s.unsent) :
    (s.offer topic update).Agrees := by
  refine ⟨agrees.distinct.sublist (List.erase_sublist.map Prod.fst), ?_, ?_⟩
  · intro other sent still
    have recorded := agrees.recorded other sent (List.mem_of_mem_erase still)
    cases sent <;> simpa [TopologyFeed.offer, TopicManager.Recorded] using recorded
  · intro other w located proxyID heard sent channel
    simp only [TopologyFeed.offer, TopicManager.offer_currentTopology, TopicManager.pushCh] at channel ⊢
    simp only [TopologyFeed.offer] at heard sent located
    by_cases here : other = topic
    · subst here
      obtain ⟨before, found, settled⟩ := TopicManager.offer_settled located
      by_cases about : proxyID = update.proxyID
      · -- the update is the last one about this proxy, and it was not missed
        subst about
        cases room : (s.manager.offer other update).2 with
        | false => simp [room] at heard
        | true =>
          rw [settled, room, if_pos rfl]
          exact (agrees.recorded other update member).get_learn _ channel
      · have same : w.settled.get proxyID = before.settled.get proxyID := by
          rw [settled]
          split
          · exact Partition.get_learn_of_ne _ about
          · rfl
        rw [same]
        refine agrees.settled other before found proxyID ?_ ?_ channel
        · intro missed
          apply heard
          split
          · exact List.mem_filter.mpr ⟨missed, by simpa using about⟩
          · exact List.mem_cons_of_mem _ missed
        · -- a broadcast has one update for a topic
          intro also unsent
          cases List.inj_on_of_nodup_map agrees.distinct unsent member rfl
          exact about
    · rw [s.manager.offer_of_ne update here] at located
      refine agrees.settled other w located proxyID ?_ ?_ channel
      · intro missed
        apply heard
        split
        · exact List.mem_filter.mpr ⟨missed, by simp [here]⟩
        · exact List.mem_cons_of_mem _ missed
      · intro also unsent
        exact sent also ((List.mem_erase_of_ne (by simp [here])).mpr unsent)

theorem Agrees.step {op : TopologyOp} (agrees : s.Agrees) (stepped : s.step op = some s') : s'.Agrees := by
  cases op with
  | command cmd nowMilli room =>
    simp only [TopologyFeed.step] at stepped
    split at stepped
    · rename_i free
      cases stepped
      cases cmd with
      | spawn topic requestID respCh => exact agrees.spawn topic requestID respCh nowMilli room
      | kill topic requestID respCh => exact agrees.kill topic requestID respCh nowMilli room
      | topology update =>
        cases update with
        | none => exact agrees
        | some update => exact agrees.record free update nowMilli room
      | unknown requestID respCh => exact agrees
    · cases stepped
  | offer topic update =>
    simp only [TopologyFeed.step] at stepped
    split at stepped
    · rename_i member
      cases stepped
      exact agrees.offer member
    · cases stepped
  | receive topic => exact agrees.atWorker (fun _ _ => Worker.settled_receive) stepped
  | handle topic => exact agrees.atWorker (fun _ _ => Worker.settled_handle) stepped
  | work topic op => exact agrees.atWorker (fun _ _ => Worker.settled_work) stepped

/-- In every interleaving, when no broadcast is under way and a partition has
received and handled all that is on its channel, it has for every proxy the push
channel of the current topology, if the last update about the proxy found room on
the channel and the proxy was not added without a push channel. -/
theorem topology_known_unless_missed {config : PartitionConfig} {ops : List TopologyOp} {s : TopologyFeed}
    {topic : String} {w : Worker} (run : Reaches config ops s) (sent : s.unsent = [])
    (running : s.manager.workers.get topic = some w) (empty : w.topologyCh = []) (idle : w.handling = none)
    (proxyID : String) (heard : (topic, proxyID) ∉ s.missed)
    (channel : s.manager.currentTopology.get proxyID ≠ some none) :
    w.partition.proxyPushChs.get proxyID = s.manager.pushCh proxyID := by
  have agrees : s.Agrees :=
    Run.invariant (fun _ => Agrees) (.start config) (fun _ _ _ _ agrees _ stepped => agrees.step stepped) run
  rw [← Worker.settled_rest idle empty]
  exact agrees.settled topic w running proxyID heard (by simp [sent]) channel

/-! ### Given runs -/

/-- A partition that is left alone handles all that waits on its channel. -/
theorem catches_up {w : Worker} (running : s.manager.workers.get topic = some w) (idle : w.handling = none) :
    ∃ (ops : List TopologyOp) (s' : TopologyFeed) (w' : Worker), (∀ op ∈ ops, op = .receive topic ∨ op = .handle topic) ∧
      ops.foldlM step s = some s' ∧ s'.unsent = s.unsent ∧ s'.manager.currentTopology = s.manager.currentTopology ∧
      s'.manager.workers.get topic = some w' ∧ w'.topologyCh = [] ∧ w'.handling = none ∧
      w'.partition.proxyPushChs = w.settled := by
  generalize waiting : w.topologyCh = updates
  induction updates generalizing s w with
  | nil => exact ⟨[], s, w, by simp, rfl, rfl, rfl, running, waiting, idle, (Worker.settled_rest idle waiting).symm⟩
  | cons update updates ih =>
    let received : Worker := { w with topologyCh := updates, handling := some update }
    let handled : Worker := { received with partition := w.partition.handleTopologyUpdate update, handling := none }
    have receives : w.receive = some received := by simp [Worker.receive, idle, waiting, received]
    have handles : received.handle = some handled := rfl
    let s₁ : TopologyFeed := { s with manager := { s.manager with workers := s.manager.workers.set topic received } }
    let s₂ : TopologyFeed := { s with manager := { s.manager with workers := s₁.manager.workers.set topic handled } }
    have first : s.step (.receive topic) = some s₁ := by simp [step, atWorker, running, receives, s₁]
    have second : s₁.step (.handle topic) = some s₂ := by simp [step, atWorker, handles, s₁, s₂]
    obtain ⟨ops, s', w', only, executed, unsent, topology, found, empty, rest, knows⟩ :=
      ih (s := s₂) (w := handled) (FinMap.get_set_self _ topic handled) rfl rfl
    refine ⟨.receive topic :: .handle topic :: ops, s', w', ?_, ?_, unsent, topology, found, empty, rest, ?_⟩
    · simpa using only
    · rw [List.foldlM_cons, first]
      show (s₁.step (.handle topic) >>= fun s => ops.foldlM step s) = _
      rw [second]
      exact executed
    · rw [knows, Worker.settled_handle handles, Worker.settled_receive receives]

private def smallPartition : PartitionConfig := ⟨4, 3, 20, 10, 1000, 1000⟩

private def proxyCh : PushCh := ⟨1, 8⟩

/-- The proxy says again and again that it is there. -/
private def announced (count : Nat) : List TopologyOp :=
  .command (.spawn "t" 1 none) 0 true ::
    (List.range count).flatMap fun _ =>
      [.command (.topology (some (.add "p" (some proxyCh)))) 0 true, .offer "t" (.add "p" (some proxyCh))]

private theorem announced_fill (count : Nat) (within : count ≤ TopicManager.topologyCapacity) :
    ∃ s w, (announced count).foldlM step (new smallPartition) = some s ∧ s.unsent = [] ∧
      s.manager.workers = FinMap.empty.set "t" w ∧ w.handling = none ∧ w.topologyCh.length = count ∧
      (0 < count → w.settled.get "p" = some proxyCh) := by
  induction count with
  | zero => exact ⟨_, _, rfl, rfl, rfl, rfl, rfl, by simp⟩
  | succ count ih =>
    obtain ⟨s, w, executed, unsent, workers, idle, length, _⟩ := ih (by omega)
    have room : w.topologyCh.length < TopicManager.topologyCapacity := by omega
    let told : Worker := { w with topologyCh := w.topologyCh ++ [.add "p" (some proxyCh)] }
    let recorded := s.runCommand 0 true (.topology (some (.add "p" (some proxyCh))))
    have same : recorded.manager.workers = FinMap.empty.set "t" w := workers
    have waiting : recorded.unsent = [("t", .add "p" (some proxyCh))] := by
      show s.manager.workers.keys.map _ = _
      rw [workers]
      rfl
    refine ⟨recorded.offer "t" (.add "p" (some proxyCh)), told, ?_, ?_, ?_, idle, ?_, ?_⟩
    · rw [announced, List.range_succ, List.flatMap_append, ← List.cons_append, List.foldlM_append]
      show (announced count).foldlM _ _ >>= _ = _
      rw [executed]
      show ([_, _] : List TopologyOp).foldlM step s = _
      rw [List.foldlM_cons]
      have first : s.step (.command (.topology (some (.add "p" (some proxyCh)))) 0 true) = some recorded := if_pos unsent
      have second : recorded.step (.offer "t" (.add "p" (some proxyCh))) =
          some (recorded.offer "t" (.add "p" (some proxyCh))) := if_pos (by simp [waiting])
      rw [first]
      exact congrArg (fun next => next >>= some) second
    · simp [offer, waiting]
    · simp [offer, TopicManager.offer, same, room, FinMap.set_set, told]
    · simp [told, length]
    · intro _
      rw [Worker.settled_offer]
      exact FinMap.get_set_self _ "p" proxyCh

/-- A partition that is busy until 64 updates wait for it misses that the proxy
went away. When it has handled all of them it still has the proxy's push channel,
which the current topology has not. -/
theorem missed_removal_unlearned :
    ∃ ops s w, Reaches smallPartition (announced TopicManager.topologyCapacity ++
        [.command (.topology (some (.remove "p"))) 0 true, .offer "t" (.remove "p")] ++ ops) s ∧
      (∀ op ∈ ops, op = .receive "t" ∨ op = .handle "t") ∧ s.unsent = [] ∧
      s.manager.workers.get "t" = some w ∧ w.topologyCh = [] ∧ w.handling = none ∧
      w.partition.proxyPushChs.get "p" = some proxyCh ∧ s.manager.pushCh "p" = none := by
  obtain ⟨full, w, executed, unsent, workers, idle, length, settled⟩ :=
    announced_fill TopicManager.topologyCapacity (Nat.le_refl _)
  let recorded := full.runCommand 0 true (.topology (some (.remove "p")))
  have waiting : recorded.unsent = [("t", .remove "p")] := by
    show full.manager.workers.keys.map _ = _
    rw [workers]
    rfl
  have running : recorded.manager.workers.get "t" = some w := by
    show full.manager.workers.get "t" = some w
    rw [workers, FinMap.get_set_self]
  have refused : recorded.manager.offer "t" (.remove "p") = (recorded.manager, false) := by
    simp [TopicManager.offer, running, length]
  obtain ⟨ops, s, w', only, drained, rest, topology, found, empty, free, knows⟩ :=
    catches_up (s := recorded.offer "t" (.remove "p")) (by rw [offer, refused, running]) idle
  refine ⟨ops, s, w', Run.of_execute (fun _ _ _ _ taken => ⟨trivial, taken⟩) ?_, only, ?_, found, empty, free, ?_, ?_⟩
  · have first : full.step (.command (.topology (some (.remove "p"))) 0 true) = some recorded := if_pos unsent
    have second : recorded.step (.offer "t" (.remove "p")) = some (recorded.offer "t" (.remove "p")) :=
      if_pos (by simp [waiting])
    rw [List.foldlM_append, List.foldlM_append, executed]
    show ([_, _] : List TopologyOp).foldlM step full >>= _ = _
    rw [List.foldlM_cons, first]
    show recorded.step _ >>= _ >>= _ = _
    rw [second]
    exact drained
  · rw [rest]
    simp [offer, waiting]
  · rw [knows]
    exact settled (by decide)
  · rw [TopicManager.pushCh, topology]
    simp [offer, recorded, runCommand, TopicManager.recordUpdate, FinMap.get_delete]

/-- A proxy comes, and the partition handles the update. -/
private def learned : List TopologyOp := announced 1 ++ [.receive "t", .handle "t"]

private theorem learned_executes : (learned.foldlM step (new smallPartition)).isSome = true := rfl

theorem announced_proxy_known : ∃ s w, Reaches smallPartition learned s ∧ s.unsent = [] ∧
    s.manager.workers.get "t" = some w ∧ s.manager.pushCh "p" = some proxyCh ∧
    w.partition.proxyPushChs.get "p" = s.manager.pushCh "p" := by
  have run : Reaches smallPartition learned (Option.get _ learned_executes) :=
    Run.of_execute (fun _ _ _ _ taken => ⟨trivial, taken⟩) (Option.some_get _).symm
  have heard : ("t", "p") ∉ (Option.get _ learned_executes).missed := List.not_mem_nil
  have current : (Option.get _ learned_executes).manager.currentTopology.get "p" = some (some proxyCh) := rfl
  have channel : (Option.get _ learned_executes).manager.currentTopology.get "p" ≠ some none := by simp [current]
  exact ⟨_, _, run, rfl, rfl, rfl, topology_known_unless_missed run rfl rfl rfl rfl "p" heard channel⟩

end TopologyFeed
end Cue.State
