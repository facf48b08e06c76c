import Cue.RoleFollowing

/-! The gap between the last applied entry and the last snapshot. `ShouldSnapshot`
subtracts two indices that different goroutines store: the one that handles
committed entries, and the one that handles notifications. Each has a channel of
its own, so the index of a compaction may be stored before the entries up to it
are applied, and `ShouldSnapshot` loads the two one after the other.

- `gap_in_order_while_timely` is the exact condition on the stores.
- `compaction_overtakes_entry` is a run in which the subtraction wraps.

`CompactionPace` puts the condition on the raft loop. -/
namespace Cue.Cluster
open Cue.Lib Cue.Model

/-- The raft loop and three goroutines of the agent: for the notifications (in
`feed`), the committed entries and the snapshots. -/
structure SnapshotFeed (M : Type) where
  feed : RoleFeed M
  /-- the entry that was received and not yet processed -/
  applying : Option CommittedEntry
  /-- `handleCommittedEntries` has not ended -/
  running : Bool
  lastSnapshotTrySec : Int64
  /-- the time and the `lastAppliedIndex` of a `ShouldSnapshot` before its second load -/
  checking : Option (Int64 × UInt64)
  /-- how often `CmdSnapshot` is on `ctrlCh` -/
  requests : Nat
  /-- the pairs that were subtracted -/
  gaps : List GapRead

inductive SnapshotOp (M : Type) where
  | feed (op : RoleOp M)
  /-- the next entry is taken off `commitCh` -/
  | receive
  | apply (spawn : Except String Unit)
  /-- `ShouldSnapshot` to its first load -/
  | check (now : Int64)
  /-- the rest of it, with `saveSnapshot` if it is true; `room` is on `ctrlCh` -/
  | finish (later : Int64) (room : Bool)

/-- The two numbers are subtracted in the right order. -/
def GapRead.InOrder (gap : GapRead) : Prop := gap.snapshotIndex ≤ gap.lastApplied

instance (gap : GapRead) : Decidable gap.InOrder := inferInstanceAs (Decidable (_ ≤ _))

/-- Only then is the difference that of the numbers. -/
theorem GapRead.inOrder_iff (gap : GapRead) :
    gap.InOrder ↔ gap.walGap.toNat + gap.snapshotIndex.toNat = gap.lastApplied.toNat := by
  unfold InOrder walGap
  rw [UInt64.le_iff_toNat_le, UInt64.toNat_sub]
  have applied := gap.lastApplied.toNat_lt
  have stored := gap.snapshotIndex.toNat_lt
  omega

namespace SnapshotFeed

variable {M : Type}

def snapshotIndex (s : SnapshotFeed M) : UInt64 := UInt64.ofNat s.feed.snapshotIndex

def lastApplied (s : SnapshotFeed M) : UInt64 := s.feed.agent.lastAppliedIndex

/-- Nothing in the source stores `lastSnapshotSec`, so it is zero. A compaction
needs no request and a check no active agent here; `Maintained` asks for both. -/
def step (codec : Codec) (conf : ConfCodec) (policy : SnapshotPolicy) (s : SnapshotFeed M) :
    SnapshotOp M → Option (SnapshotFeed M)
  | .feed op => (s.feed.step codec conf op).map fun feed => { s with
      feed := feed
      requests := match op with
        | .compact => s.requests - 1
        | _ => s.requests }
  | .receive =>
    match s.running, s.applying, s.feed.node.commitCh with
    | true, none, next :: rest => some { s with
        feed := { s.feed with node := { s.feed.node with commitCh := rest } }
        applying := some next }
    | _, _, _ => none
  | .apply spawn =>
    match s.applying with
    | none => none
    | some committed =>
      let (agent, err) := s.feed.agent.processCommittedEntry codec conf committed spawn
      some { s with
        feed := { s.feed with agent := agent }
        applying := none
        running := err.isNone }
  | .check now =>
    match s.checking with
    | some _ => none
    | none => some { s with
        checking := if policy.coolingDown s.lastSnapshotTrySec now then none else some (now, s.lastApplied) }
  | .finish later room =>
    match s.checking with
    | none => none
    | some (now, lastApplied) =>
      let gap : GapRead := ⟨lastApplied, s.snapshotIndex⟩
      let due := policy.due now 0 gap
      some { s with
        checking := none
        lastSnapshotTrySec := if due then later else s.lastSnapshotTrySec
        requests := if due && room then s.requests + 1 else s.requests
        gaps := s.gaps ++ [gap] }

/-- A node and an agent that were just created. -/
def new (raftID : Nat) (storage : StorageCore) (nodeID : String) (discovery : Discovery)
    (channels : FinMap String (List Command)) (deadJobs : List String) : SnapshotFeed M where
  feed := .new raftID storage nodeID discovery channels deadJobs
  applying := none
  running := true
  lastSnapshotTrySec := 0
  checking := none
  requests := 0
  gaps := []

/-! ### The stores -/

/-- The index of a compaction is stored when the entries up to it are applied,
and when no `ShouldSnapshot` has loaded less; no entry below the last snapshot is
applied. -/
def Timely (s : SnapshotFeed M) : SnapshotOp M → Prop
  | .feed .handle => ∀ index, s.feed.handling = some (.walCompact index) →
      UInt64.ofNat index ≤ s.lastApplied ∧ ∀ loaded ∈ s.checking, UInt64.ofNat index ≤ loaded.2
  | .apply _ => ∀ committed ∈ s.applying, committed.type = .normal → s.snapshotIndex ≤ committed.index
  | _ => True

instance (s : SnapshotFeed M) (op : SnapshotOp M) : Decidable (s.Timely op) :=
  match op with
  | .feed .handle =>
    match busy : s.feed.handling, started : s.checking with
    | some (.walCompact index), none =>
      decidable_of_iff (UInt64.ofNat index ≤ s.lastApplied) (by simp [Timely, busy, started])
    | some (.walCompact index), some loaded =>
      decidable_of_iff (UInt64.ofNat index ≤ s.lastApplied ∧ UInt64.ofNat index ≤ loaded.2)
        (by simp [Timely, busy, started])
    | some (.roleChange _ _ _ _), _ | some .roleIsVoter, _ | some .roleIsNonVoter, _ | none, _ =>
      isTrue (by simp [Timely, busy])
  | .apply _ =>
    match received : s.applying with
    | some committed =>
      decidable_of_iff (committed.type = .normal → s.snapshotIndex ≤ committed.index) (by simp [Timely, received])
    | none => isTrue (by simp [Timely, received])
  | .feed (.act _) | .feed .compact | .feed .receive | .receive | .check _ | .finish _ _ => isTrue trivial

/-- A `ShouldSnapshot` that starts or goes on now subtracts in the right order. -/
structure Safe (s : SnapshotFeed M) : Prop where
  applied : s.snapshotIndex ≤ s.lastApplied
  loaded : ∀ loaded ∈ s.checking, s.snapshotIndex ≤ loaded.2

/-! ### What is stored -/

end SnapshotFeed

namespace ClusterAgent

theorem deliverCommand_lastApplied (a : ClusterAgent) (topic : String) (cmd : Command) (spawn : Except String Unit) :
    (a.deliverCommand topic cmd spawn).1.lastAppliedIndex = a.lastAppliedIndex := by
  unfold deliverCommand
  split <;> rfl

theorem routeCommand_lastApplied (a : ClusterAgent) (cmd : Command) (spawn : Except String Unit) :
    (a.routeCommand cmd spawn).1.lastAppliedIndex = a.lastAppliedIndex := by
  unfold routeCommand
  split
  · split
    · rfl
    · split
      · rfl
      · split
        · rfl
        · exact deliverCommand_lastApplied a _ _ spawn
  · split
    · rfl
    · exact deliverCommand_lastApplied _ _ cmd spawn
  · split
    · rfl
    · exact deliverCommand_lastApplied _ _ cmd spawn
  · rfl

/-- Only a normal entry sets the index, and it does so even if it is not processed. -/
theorem processCommittedEntry_lastApplied (codec : Codec) (conf : ConfCodec) (a : ClusterAgent)
    (committed : CommittedEntry) (spawn : Except String Unit) :
    (a.processCommittedEntry codec conf committed spawn).1.lastAppliedIndex =
      if committed.type = .normal then committed.index else a.lastAppliedIndex := by
  have config (a : ClusterAgent) : (a.handleConfigChange conf committed).1.lastAppliedIndex = a.lastAppliedIndex := by
    unfold handleConfigChange
    dsimp only
    split <;> rfl
  unfold processCommittedEntry
  cases type : committed.type with
  | confChange => exact config _
  | confChangeV2 => exact config _
  | other number => rfl
  | normal =>
    rw [if_pos rfl]
    unfold handleNormalCommand
    dsimp only
    split
    · rfl
    · split
      · rfl
      · exact routeCommand_lastApplied _ _ spawn

end ClusterAgent

namespace SnapshotFeed

variable {M : Type} {codec : Codec} {conf : ConfCodec} {policy : SnapshotPolicy} {s s' : SnapshotFeed M}

/-- One step of `feed`, as far as the indices go. -/
structure FeedStep (s s' : SnapshotFeed M) (op : RoleOp M) : Prop where
  checking : s'.checking = s.checking
  gaps : s'.gaps = s.gaps
  applied : s'.lastApplied = s.lastApplied
  stored : (∃ index, op = .handle ∧ s.feed.handling = some (.walCompact index) ∧
      s'.snapshotIndex = UInt64.ofNat index) ∨
    s'.snapshotIndex = s.snapshotIndex ∧ ∀ index, ¬(op = .handle ∧ s.feed.handling = some (.walCompact index))

/-- The raft loop and the notifications store one index at most, that of a compaction. -/
theorem feed_stores {op : RoleOp M} (stepped : s.step codec conf policy (.feed op) = some s') : FeedStep s s' op := by
  obtain ⟨feed, moved, rfl⟩ := Option.map_eq_some_iff.mp stepped
  cases op with
  | act action =>
    cases moved
    exact ⟨rfl, rfl, rfl, .inr ⟨rfl, by simp⟩⟩
  | compact =>
    cases moved
    exact ⟨rfl, rfl, rfl, .inr ⟨rfl, by simp⟩⟩
  | receive =>
    simp only [RoleFeed.step] at moved
    split at moved <;> cases moved
    exact ⟨rfl, rfl, rfl, .inr ⟨rfl, by simp⟩⟩
  | handle =>
    simp only [RoleFeed.step] at moved
    split at moved <;> cases moved
    rename_i event busy
    cases event with
    | walCompact index => exact ⟨rfl, rfl, rfl, .inl ⟨index, rfl, busy, rfl⟩⟩
    | roleChange isLeader leaderID role term => exact ⟨rfl, rfl, rfl, .inr ⟨rfl, by simp [busy]⟩⟩
    | roleIsVoter => exact ⟨rfl, rfl, rfl, .inr ⟨rfl, by simp [busy]⟩⟩
    | roleIsNonVoter => exact ⟨rfl, rfl, rfl, .inr ⟨rfl, by simp [busy]⟩⟩

/-- A store from a notification keeps it safe exactly if it is timely. -/
theorem Safe.feed_iff {op : RoleOp M} (safe : s.Safe) (stepped : s.step codec conf policy (.feed op) = some s') :
    s'.Safe ↔ s.Timely (.feed op) := by
  obtain ⟨checking, -, applied, ⟨index, rfl, busy, stored⟩ | ⟨stored, quiet⟩⟩ := feed_stores stepped
  · constructor
    · rintro ⟨behind, loaded⟩ index handling
      cases busy.symm.trans handling
      rw [stored, applied] at behind
      rw [stored, checking] at loaded
      exact ⟨behind, loaded⟩
    · intro timely
      obtain ⟨behind, loaded⟩ := timely index busy
      refine ⟨?_, ?_⟩
      · rwa [stored, applied]
      · rwa [stored, checking]
  · have after : s'.Safe := by
      refine ⟨?_, ?_⟩
      · rw [stored, applied]
        exact safe.applied
      · rw [stored, checking]
        exact safe.loaded
    refine iff_of_true after ?_
    cases op with
    | handle => exact fun index busy => absurd ⟨rfl, busy⟩ (quiet index)
    | act action => trivial
    | compact => trivial
    | receive => trivial

/-- Exactly the timely stores keep it safe. -/
theorem Safe.step_iff {op : SnapshotOp M} (safe : s.Safe) (stepped : s.step codec conf policy op = some s') :
    s'.Safe ↔ s.Timely op := by
  cases op with
  | feed op => exact safe.feed_iff stepped
  | receive =>
    simp only [step] at stepped
    split at stepped <;> cases stepped
    exact iff_of_true ⟨safe.applied, safe.loaded⟩ trivial
  | apply spawn =>
    simp only [step] at stepped
    split at stepped <;> cases stepped
    rename_i committed received
    have applied := s.feed.agent.processCommittedEntry_lastApplied codec conf committed spawn
    constructor
    · intro after found same normal
      cases received.symm.trans same
      rw [if_pos normal] at applied
      exact applied ▸ after.applied
    · intro timely
      refine ⟨?_, safe.loaded⟩
      show s.snapshotIndex ≤ _
      rw [lastApplied, applied]
      split
      · exact timely committed received ‹_›
      · exact safe.applied
  | check now =>
    simp only [step] at stepped
    split at stepped <;> cases stepped
    refine iff_of_true ⟨safe.applied, ?_⟩ trivial
    intro loaded started
    dsimp only at started
    split at started <;> cases started
    exact safe.applied
  | finish later room =>
    simp only [step] at stepped
    split at stepped <;> cases stepped
    exact iff_of_true ⟨safe.applied, by simp⟩ trivial

/-- A safe state subtracts in the right order. -/
theorem Safe.gaps {op : SnapshotOp M} (safe : s.Safe) (stepped : s.step codec conf policy op = some s') :
    ∀ gap ∈ s'.gaps, gap ∈ s.gaps ∨ gap.InOrder := by
  cases op with
  | finish later room =>
    simp only [step] at stepped
    split at stepped <;> cases stepped
    rename_i now lastApplied started
    intro gap member
    rcases List.mem_append.mp member with old | new
    · exact .inl old
    · cases List.mem_singleton.mp new
      exact .inr (safe.loaded _ started)
  | feed op =>
    rw [(feed_stores stepped).gaps]
    exact fun _ => .inl
  | receive | apply | check =>
    simp only [step] at stepped
    split at stepped <;> cases stepped
    exact fun _ => .inl

/-! ### Runs -/

/-- A call of `ShouldSnapshot`, or a part of one. -/
def Calls : SnapshotOp M → Prop
  | .check _ | .finish _ _ => True
  | _ => False

/-- The state is safe, and so was every one before it. -/
structure Ordered (s : SnapshotFeed M) : Prop where
  safe : s.Safe
  gaps : ∀ gap ∈ s.gaps, gap.InOrder

theorem Ordered.start (raftID : Nat) (storage : StorageCore) (nodeID : String) (discovery : Discovery)
    (channels : FinMap String (List Command)) (deadJobs : List String) :
    Ordered (new raftID storage nodeID discovery channels deadJobs : SnapshotFeed M) :=
  ⟨⟨Nat.le_refl _, by simp [new]⟩, by simp [new]⟩

theorem Ordered.step {op : SnapshotOp M} (ordered : s.Ordered) (timely : s.Timely op)
    (stepped : s.step codec conf policy op = some s') : s'.Ordered := by
  refine ⟨(ordered.safe.step_iff stepped).mpr timely, ?_⟩
  intro gap member
  rcases ordered.safe.gaps stepped gap member with old | right
  · exact ordered.gaps gap old
  · exact right

theorem timely_of_calls {op : SnapshotOp M} (calls : Calls op) : s.Timely op := by
  cases op with
  | check now => trivial
  | finish later room => trivial
  | feed op => cases calls
  | receive => cases calls
  | apply spawn => cases calls

theorem Ordered.calls (ordered : s.Ordered) {calls : List (SnapshotOp M)} (only : ∀ op ∈ calls, Calls op)
    (executed : calls.foldlM (SnapshotFeed.step codec conf policy) s = some s') : s'.Ordered := by
  induction calls generalizing s with
  | nil =>
    cases executed
    exact ordered
  | cons op rest ih =>
    obtain ⟨middle, first, others⟩ := Option.bind_eq_some_iff.mp executed
    exact ih (ordered.step (timely_of_calls (only op List.mem_cons_self)) first)
      (fun op member => only op (List.mem_cons_of_mem _ member)) others

/-- A time at which `ShouldSnapshot` does not return at once. -/
theorem exists_not_coolingDown (policy : SnapshotPolicy) (lastTrySec : Int64) :
    ∃ now, policy.coolingDown lastTrySec now = false := by
  refine ⟨lastTrySec + policy.snapshotIntervalSec.toInt64, ?_⟩
  have elapsed : lastTrySec + policy.snapshotIntervalSec.toInt64 - lastTrySec = policy.snapshotIntervalSec.toInt64 := by
    rw [Int64.add_comm, Int64.add_sub_cancel]
  simp [SnapshotPolicy.coolingDown, elapsed]

/-- A `ShouldSnapshot` that has loaded the first index ends. -/
theorem finish_started {now : Int64} {loaded : UInt64} (started : s.checking = some (now, loaded)) :
    ∃ s', s.step codec conf policy (.finish 0 false) = some s' ∧ s'.checking = none ∧ s'.feed = s.feed ∧
      ⟨loaded, s.snapshotIndex⟩ ∈ s'.gaps := by
  simp only [step, started]
  exact ⟨_, rfl, rfl, rfl, List.mem_append_right _ List.mem_cons_self⟩

/-- One that starts now loads both indices as they are. -/
theorem check_and_finish (idle : s.checking = none) : ∃ now s₁ s₂, s.step codec conf policy (.check now) = some s₁ ∧
    s₁.step codec conf policy (.finish 0 false) = some s₂ ∧ ⟨s.lastApplied, s.snapshotIndex⟩ ∈ s₂.gaps := by
  obtain ⟨now, ready⟩ := exists_not_coolingDown policy s.lastSnapshotTrySec
  have started : s.step codec conf policy (.check now) = some { s with checking := some (now, s.lastApplied) } := by
    simp only [step, idle, ready, if_neg Bool.false_ne_true]
  obtain ⟨s₂, finished, -, -, subtracted⟩ := @finish_started M codec conf policy
    { s with checking := some (now, s.lastApplied) } now s.lastApplied rfl
  exact ⟨now, _, s₂, started, finished, subtracted⟩

/-- In a state that is not safe two calls are enough to subtract in the wrong order. -/
theorem wraps_of_not_safe (codec : Codec) (conf : ConfCodec) (policy : SnapshotPolicy) (broken : ¬s.Safe) :
    ∃ (calls : List (SnapshotOp M)) (s' : SnapshotFeed M), (∀ op ∈ calls, Calls op) ∧
      calls.foldlM (step codec conf policy) s = some s' ∧ ∃ gap ∈ s'.gaps, ¬gap.InOrder := by
  cases started : s.checking with
  | none =>
    have ahead : ¬s.snapshotIndex ≤ s.lastApplied := fun applied => broken ⟨applied, by simp [started]⟩
    obtain ⟨now, s₁, s₂, checked, finished, subtracted⟩ := @check_and_finish M codec conf policy s started
    refine ⟨[.check now, .finish 0 false], s₂, by simp [Calls], ?_, _, subtracted, ahead⟩
    simp [checked, finished]
  | some loaded =>
    obtain ⟨now, loaded⟩ := loaded
    obtain ⟨s₁, finished, idle, same, subtracted⟩ := @finish_started M codec conf policy s now loaded started
    by_cases less : s.snapshotIndex ≤ loaded
    · have ahead : ¬s₁.snapshotIndex ≤ s₁.lastApplied := by
        unfold snapshotIndex lastApplied
        rw [same]
        exact fun applied => broken ⟨applied, by simpa [started] using less⟩
      obtain ⟨now, s₂, s₃, checked, finished', subtracted'⟩ := @check_and_finish M codec conf policy s₁ idle
      refine ⟨[.finish 0 false, .check now, .finish 0 false], s₃, by simp [Calls], ?_, _, subtracted', ahead⟩
      simp [finished, checked, finished']
    · exact ⟨[.finish 0 false], s₁, by simp [Calls], by simp [finished], _, subtracted, less⟩

end SnapshotFeed

/-- Runs of a new node and a new agent in which every operation is admitted. -/
abbrev SnapshotRun {M : Type} (codec : Codec) (conf : ConfCodec) (policy : SnapshotPolicy)
    (admits : List (SnapshotOp M) → SnapshotFeed M → SnapshotOp M → Prop) (first : SnapshotFeed M) :
    List (SnapshotOp M) → SnapshotFeed M → Prop :=
  Run (fun s op s' => s.step codec conf policy op = some s') admits first

/-- In a run in which every store is timely `ShouldSnapshot` subtracts in the
right order. The condition is exact: after one more step it goes on to do so,
whenever it is called, if and only if that step was timely. -/
theorem gap_in_order_while_timely {M : Type} {codec : Codec} {conf : ConfCodec} {policy : SnapshotPolicy}
    {raftID : Nat} {storage : StorageCore} {nodeID : String} {discovery : Discovery}
    {channels : FinMap String (List Command)} {deadJobs : List String} {ops : List (SnapshotOp M)}
    {s : SnapshotFeed M}
    (run : SnapshotRun codec conf policy (fun _ => SnapshotFeed.Timely)
      (.new raftID storage nodeID discovery channels deadJobs) ops s) :
    (∀ gap ∈ s.gaps, gap.InOrder) ∧
      ∀ op s', s.step codec conf policy op = some s' →
        (s.Timely op ↔ ∀ (calls : List (SnapshotOp M)) (s'' : SnapshotFeed M),
          (∀ call ∈ calls, SnapshotFeed.Calls call) → calls.foldlM (SnapshotFeed.step codec conf policy) s' = some s'' →
          ∀ gap ∈ s''.gaps, gap.InOrder) := by
  have ordered : s.Ordered := by
    refine run.invariant (fun _ s => s.Ordered) (.start raftID storage nodeID discovery channels deadJobs) ?_
    intro _ s op s' ordered timely stepped
    exact ordered.step timely stepped
  refine ⟨ordered.gaps, fun op s' stepped => ⟨?_, ?_⟩⟩
  · intro timely calls s'' only executed
    exact ((ordered.step timely stepped).calls only executed).gaps
  · intro never
    refine (ordered.safe.step_iff stepped).mp ?_
    by_contra broken
    obtain ⟨calls, s'', only, executed, gap, member, wrong⟩ := SnapshotFeed.wraps_of_not_safe codec conf policy broken
    exact wrong (never calls s'' only executed gap member)

/-! ### Given runs -/

/-- As `runSnapshotMaintenance` has it: only an active agent calls
`ShouldSnapshot`, and the log is compacted after it was true. -/
def SnapshotFeed.Maintained {M : Type} (s : SnapshotFeed M) : SnapshotOp M → Prop
  | .check _ => s.feed.agent.isActive = true
  | .feed .compact => 0 < s.requests
  | _ => True


instance {M : Type} (s : SnapshotFeed M) (op : SnapshotOp M) : Decidable (s.Maintained op) :=
  match op with
  | .check _ => inferInstanceAs (Decidable (_ = _))
  | .feed .compact => inferInstanceAs (Decidable (_ < _))
  | .feed (.act _) | .feed .receive | .feed .handle | .receive | .apply _ | .finish _ _ => isTrue trivial

/-- A job is added and done. -/
private def gapMessages : List (Bytes × Command) := [addMessage 1 .t .a, doneMessage 2 .t .a]

private def gapStart : SnapshotFeed Unit := .new 1 (freshCore 100 0) "n" ⟨.empty, .empty⟩ .empty []

private def noChanges : ConfCodec := ⟨fun _ => none, fun _ => none⟩

/-- A follower commits one entry. -/
private def gapReady (entry : Entry) : List (SnapshotOp Unit) :=
  (handleReady ⟨⟨.follower, 2, 1⟩, none, {}, [entry], [], [(entry, {})]⟩).map fun action => .feed (.act action)

/-- The agent applies the first entry, and a snapshot is asked for. -/
private def gapOps : List (SnapshotOp Unit) :=
  gapReady ⟨1, 1, .normal, some (addMessage 1 .t .a).1⟩ ++
    [.feed .receive, .feed .handle, .receive, .apply (.ok ()), .check 1000, .finish 1000 true] ++
    gapReady ⟨1, 2, .normal, some (doneMessage 2 .t .a).1⟩

/-- The second entry is still on `commitCh` when the compaction is heard of. -/
private def overtakenOps : List (SnapshotOp Unit) :=
  gapOps ++ [.feed .compact, .feed .receive, .feed .handle, .check 1060, .finish 1060 true]

private theorem overtakenGap_executes : (overtakenOps.foldlM (fun (s : SnapshotFeed Unit) op =>
    if s.Maintained op then s.step (wireCodec gapMessages) noChanges ⟨60, 1⟩ op else none) gapStart).isSome = true := rfl

/-- The log is compacted up to an entry that waits on `commitCh`. The gap of
minus one is the largest there is, and the agent asks for a snapshot again. -/
theorem compaction_overtakes_entry : ∃ s : SnapshotFeed Unit,
    SnapshotRun (wireCodec gapMessages) noChanges ⟨60, 1⟩ (fun _ => SnapshotFeed.Maintained) gapStart overtakenOps s ∧
      s.gaps = [⟨1, 0⟩, ⟨1, 2⟩] ∧ s.requests = 1 ∧ (⟨1, 2⟩ : GapRead).walGap = 18446744073709551615 ∧
      ¬∀ gap ∈ s.gaps, gap.InOrder := by
  refine ⟨Option.get _ overtakenGap_executes, Run.of_guarded (Option.some_get _).symm, rfl, rfl, rfl, ?_⟩
  intro ordered
  exact absurd (ordered ⟨1, 2⟩ (List.mem_cons_of_mem _ List.mem_cons_self)) (by decide)

/-- The same run, but the second entry is applied before the log is compacted. -/
private def caughtUpOps : List (SnapshotOp Unit) :=
  gapOps ++ [.receive, .apply (.ok ()), .feed .compact, .feed .receive, .feed .handle, .check 1060, .finish 1060 true]

private theorem caughtUp_executes : (caughtUpOps.foldlM (fun (s : SnapshotFeed Unit) op =>
    if s.Timely op then s.step (wireCodec gapMessages) noChanges ⟨60, 1⟩ op else none) gapStart).isSome = true := rfl

theorem compaction_after_entry : ∃ s : SnapshotFeed Unit,
    SnapshotRun (wireCodec gapMessages) noChanges ⟨60, 1⟩ (fun _ => SnapshotFeed.Timely) gapStart caughtUpOps s ∧
      s.gaps = [⟨1, 0⟩, ⟨2, 2⟩] ∧ ∀ gap ∈ s.gaps, gap.InOrder := by
  have run : SnapshotRun (wireCodec gapMessages) noChanges ⟨60, 1⟩ (fun _ => SnapshotFeed.Timely) gapStart caughtUpOps
      (Option.get _ caughtUp_executes) := Run.of_guarded (Option.some_get _).symm
  exact ⟨_, run, rfl, (gap_in_order_while_timely run).1⟩

end Cue.Cluster
