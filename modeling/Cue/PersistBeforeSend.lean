import Cue.Cluster.EntryCodec
import Cue.Cluster.RaftNode
import Cue.StorageRuns

/-! Persist before send. The actions of a node are taken one by one, so that it
can crash between any two of them. A message that was put on `outgoingCh` rests
on the hard state and the entries carried up to then, and the directories must
give them back. Nothing that `handleReady` does before the send writes them:
entries reach the write-ahead log once they are committed and the buffer is
full, the hard state never does. -/
namespace Cue.Cluster
open Cue.Lib Cue.Model

variable {M : Type} {codec : Codec} {conf : ConfCodec} {c c' : CRaft M} {core core' : StorageCore} {entry : Entry}
  {configured : Configured} {layout : Layout} {written flushThreshold segmentSize : Nat}

/-! ### What the messages rest on -/

structure Promise where
  /-- the hard state at the send, and those carried since -/
  hardStates : List HardState
  entries : List Entry
  deriving DecidableEq

/-- A node with what its `Ready`s carried. -/
structure Sender (M : Type) where
  node : CRaft M
  /-- the entries carried so far, without those overwritten since -/
  carried : List Entry
  /-- the entries that `AppendCommitted` took -/
  applied : List Entry
  /-- of the last message -/
  promise : Option Promise

/-- An entry overwrites those from its index on. -/
def overwrite (carried : List Entry) (entry : Entry) : List Entry :=
  (carried.filter fun old => old.index < entry.index) ++ [entry]

/-- `AppendCommitted` is reached and succeeds. -/
def CRaft.takes (codec : Codec) (conf : ConfCodec) (c : CRaft M) (entry : Entry) (configured : Configured) : Bool :=
  match c.switchType conf entry configured with
  | none => false
  | some (c, _, _) => (c.storage.appendCommitted codec entry).isOk

def Sender.step (codec : Codec) (conf : ConfCodec) (s : Sender M) (action : Action M) : Sender M :=
  let node := s.node.act codec conf action
  match action with
  | .checkRole _ => { s with node := node }
  | .installSnapshot snapshotMeta =>
    { s with node := node, carried := s.carried.filter fun entry => snapshotMeta.index < entry.index.toNat }
  | .setHardState hs =>
    { s with
      node := node
      promise := s.promise.map fun promise => { promise with hardStates := promise.hardStates ++ [hs] } }
  | .append entries => { s with node := node, carried := entries.foldl overwrite s.carried }
  | .send _ => { s with node := node, promise := some ⟨[s.node.storage.hardState], s.carried⟩ }
  | .apply entry configured =>
    { s with
      node := node
      applied := if s.node.takes codec conf entry configured then s.applied ++ [entry] else s.applied }

/-- A reopened storage has the hard state of the last message or a later one,
and its entries behind the snapshot that were not overwritten. -/
def Sender.KeptBy (s : Sender M) (reopened : StorageCore) : Prop :=
  ∀ promise, s.promise = some promise → reopened.hardState ∈ promise.hardStates ∧
    ∀ entry ∈ promise.entries, entry ∈ s.carried → reopened.snapshotMeta.index < entry.index.toNat →
      reopened.entries.get entry.index.toNat = some entry

/-- When a message is sent, no hard state has been carried, and every entry
carried so far has been committed and has left the buffer. -/
def Sender.Settled (s : Sender M) (action : Action M) : Prop :=
  match action with
  | .send _ => s.node.storage.hardState = {} ∧ ∀ entry ∈ s.carried, entry ∈ s.applied ∧
      ∀ be ∈ s.node.storage.writeBuffer, be.index ≠ entry.index.toNat
  | _ => True

instance (s : Sender M) (action : Action M) : Decidable (s.Settled action) :=
  match action with
  | .send _ => inferInstanceAs (Decidable (_ = _ ∧ ∀ entry ∈ s.carried, _ ∧ ∀ be ∈ s.node.storage.writeBuffer, _))
  | .checkRole _ | .installSnapshot _ | .setHardState _ | .append _ | .apply _ _ => isTrue trivial

/-- The entries that are applied by the actions. -/
def Action.committed? : Action M → Option Entry
  | .apply entry _ => some entry
  | _ => none

theorem handleReady_committed (rd : Ready M) :
    (handleReady rd).filterMap Action.committed? = rd.committedEntries.map Prod.fst := by
  unfold handleReady
  cases rd.snapshot <;> split <;> split <;>
    simp [List.filterMap_cons, List.filterMap_map, Action.committed?, Function.comp_def]

/-! ### What an action writes -/

@[simp] theorem CRaft.notify_storage (c : CRaft M) (event : NotifyEvent) : (c.notify event).storage = c.storage := by
  unfold notify
  split <;> rfl

@[simp] theorem CRaft.deliver_storage (c : CRaft M) (committed : CommittedEntry) :
    (c.deliver committed).storage = c.storage := by
  unfold deliver
  split <;> rfl

@[simp] theorem CRaft.checkRole_storage (c : CRaft M) (status : RaftStatus) :
    (c.checkRole status).storage = c.storage := by
  unfold checkRole
  split
  · exact c.notify_storage _
  · rfl

/-- The same records, written and buffered. -/
def SameRecords (core core' : StorageCore) : Prop := core'.wal = core.wal ∧ core'.writeBuffer = core.writeBuffer

theorem CRaft.switchType_records {voters learners : List Nat}
    (switched : c.switchType conf entry configured = some (c', voters, learners)) :
    SameRecords c.storage c'.storage := by
  unfold switchType at switched
  split at switched
  · cases switched
  · cases switched
    exact ⟨rfl, rfl⟩
  · cases switched
    simp [SameRecords, handleConfChange, StorageCore.setConfState]

/-- An entry goes to the write-ahead log in one call of `AppendCommitted`, or nothing is written. -/
theorem CRaft.applyCommittedEntry_cases (codec : Codec) (conf : ConfCodec) (c : CRaft M) (entry : Entry)
    (configured : Configured) :
    (c.takes codec conf entry configured = false ∧
      SameRecords c.storage (c.applyCommittedEntry codec conf entry configured).storage) ∨
    (c.takes codec conf entry configured = true ∧ ∃ core, SameRecords c.storage core ∧
      core.appendCommitted codec entry = .ok (c.applyCommittedEntry codec conf entry configured).storage) := by
  unfold takes applyCommittedEntry
  cases switched : c.switchType conf entry configured with
  | none => exact Or.inl ⟨rfl, rfl, rfl⟩
  | some result =>
    obtain ⟨c', voters, learners⟩ := result
    have same := switchType_records switched
    simp only [deliver_storage, persist]
    cases appended : c'.storage.appendCommitted codec entry with
    | error err => exact Or.inl ⟨rfl, same⟩
    | ok storage => exact Or.inr ⟨rfl, c'.storage, same, appended⟩

/-- Everything written so far stays, and a commit adds its entry to the buffer or empties it. -/
theorem Logged.commit {committed : List Entry}
    (logged : Logged codec committed core.wal core.writeBuffer layout written 0)
    (stored : ∀ old ∈ committed.take written, layout.Stores old)
    (ascending : Ascending (committed ++ [entry])) (ok : core.appendCommitted codec entry = .ok core') :
    ∃ layout' written', Logged codec (committed ++ [entry]) core'.wal core'.writeBuffer layout' written' 0 ∧
      (∀ old ∈ (committed ++ [entry]).take written', layout'.Stores old) ∧
      ∀ old, layout.Stores old → layout'.Stores old := by
  obtain ⟨encodable, unflushed | flushes⟩ := StorageCore.appendCommitted_spec ok
  all_goals have noted := logged.note encodable
  · subst unflushed
    refine ⟨layout, written, noted, ?_, fun old stores => stores⟩
    rw [List.take_append_of_le_length logged.progress]
    exact stored
  · unfold StorageCore.flushBuffer at flushes
    split at flushes
    · rename_i empty
      simp [StorageCore.noted] at empty
    · split at flushes
      · cases flushes
      · rename_i wal batch
        cases flushes
        obtain ⟨layout', flushed, kept⟩ := noted.flush ascending batch
        refine ⟨layout', _, flushed, ?_, ?_⟩
        · intro old member
          rw [List.take_length] at member
          have source : layout.Stores old ∨ old ∈ (committed ++ [entry]).drop written := by
            rw [← List.take_append_drop written (committed ++ [entry]),
              List.take_append_of_le_length logged.progress] at member
            rcases List.mem_append.mp member with before | new
            · exact Or.inl (stored old before)
            · exact Or.inr new
          exact (kept old source).resolve_right (Nat.not_lt_zero _)
        · intro old stores
          exact (kept old (Or.inl stores)).resolve_right (Nat.not_lt_zero _)

/-! ### The invariant -/

structure Backed (codec : Codec) (s : Sender M) (layout : Layout) (written : Nat) : Prop where
  logged : Logged codec s.applied s.node.storage.wal s.node.storage.writeBuffer layout written 0
  stored : ∀ entry ∈ s.applied.take written, layout.Stores entry
  promised : ∀ promise, s.promise = some promise →
    {} ∈ promise.hardStates ∧ ∀ entry ∈ promise.entries, layout.Stores entry

namespace Backed

variable {s s' : Sender M}

/-- An action that writes nothing, with a promise that is backed already. -/
theorem of_same (backed : Backed codec s layout written) (records : SameRecords s.node.storage s'.node.storage)
    (applied : s'.applied = s.applied)
    (promised : ∀ promise, s'.promise = some promise →
      {} ∈ promise.hardStates ∧ ∀ entry ∈ promise.entries, layout.Stores entry) :
    Backed codec s' layout written := by
  refine ⟨?_, ?_, promised⟩
  · rw [applied, records.1, records.2]
    exact backed.logged
  · rw [applied]
    exact backed.stored

/-- A committed entry that has left the buffer is in the files. -/
theorem stored_of_unbuffered (backed : Backed codec s layout written) (member : entry ∈ s.applied)
    (unbuffered : ∀ be ∈ s.node.storage.writeBuffer, be.index ≠ entry.index.toNat) : layout.Stores entry := by
  rw [← List.take_append_drop written s.applied] at member
  rcases List.mem_append.mp member with early | late
  · exact backed.stored entry early
  · have waiting : buffered codec entry ∈ s.node.storage.writeBuffer := by
      rw [backed.logged.buffer]
      exact List.mem_map_of_mem late
    exact absurd rfl (unbuffered _ waiting)

theorem step (backed : Backed codec s layout written) {action : Action M} (settled : s.Settled action)
    (ascending : Ascending (s.step codec conf action).applied) :
    ∃ layout' written', Backed codec (s.step codec conf action) layout' written' := by
  cases action with
  | checkRole status =>
    refine ⟨layout, written, backed.of_same ?_ rfl backed.promised⟩
    simp [SameRecords, Sender.step, CRaft.act]
  | installSnapshot snapshotMeta => exact ⟨layout, written, backed.of_same ⟨rfl, rfl⟩ rfl backed.promised⟩
  | setHardState hs =>
    refine ⟨layout, written, backed.of_same ⟨rfl, rfl⟩ rfl ?_⟩
    intro promise made
    obtain ⟨old, before, rfl⟩ := Option.map_eq_some_iff.mp made
    obtain ⟨initial, stores⟩ := backed.promised old before
    exact ⟨List.mem_append_left _ initial, stores⟩
  | append entries =>
    obtain ⟨_, _, _, same⟩ := s.node.storage.appendEntries_eq entries
    have records : SameRecords s.node.storage (s.node.storage.appendEntries entries) := by
      rw [same]
      exact ⟨rfl, rfl⟩
    exact ⟨layout, written, backed.of_same records rfl backed.promised⟩
  | send msg =>
    obtain ⟨initial, safe⟩ := settled
    refine ⟨layout, written, backed.of_same ⟨rfl, rfl⟩ rfl ?_⟩
    intro promise made
    cases made
    refine ⟨by simp [initial], fun entry member => ?_⟩
    obtain ⟨applied, unbuffered⟩ := safe entry member
    exact backed.stored_of_unbuffered applied unbuffered
  | apply entry configured =>
    rcases s.node.applyCommittedEntry_cases codec conf entry configured with ⟨refused, same⟩ | ⟨takes, core, same, ok⟩
    · refine ⟨layout, written, backed.of_same same ?_ backed.promised⟩
      simp [Sender.step, refused]
    · have applied : (s.step codec conf (.apply entry configured)).applied = s.applied ++ [entry] := by
        simp [Sender.step, takes]
      rw [applied] at ascending
      have logged := backed.logged
      rw [← same.1, ← same.2] at logged
      obtain ⟨layout', written', logged', stored, kept⟩ := logged.commit backed.stored ascending ok
      refine ⟨layout', written', ?_, ?_, ?_⟩
      · rw [applied]
        exact logged'
      · rw [applied]
        exact stored
      · intro promise made
        obtain ⟨initial, stores⟩ := backed.promised promise made
        exact ⟨initial, fun old member => kept old (stores old member)⟩

end Backed

theorem Sender.step_applied (s : Sender M) (action : Action M) :
    (s.step codec conf action).applied.Sublist (s.applied ++ [action].filterMap Action.committed?) := by
  cases action with
  | apply entry configured =>
    show List.Sublist (if _ then s.applied ++ [entry] else s.applied) (s.applied ++ [entry])
    split
    · exact List.Sublist.refl _
    · exact List.sublist_append_left _ _
  | _ => exact List.sublist_append_left _ _

/-! ### Opening -/

theorem newRaftStorage_opens {disk : Disk} (opened : newRaftStorage codec disk flushThreshold segmentSize = .ok core) :
    newSegmentedWal disk.walDir segmentSize = .ok core.wal ∧ core.writeBuffer = [] ∧ core.hardState = {} ∧
      core.snapshotMeta = disk.snapshotFile.getD {} := by
  unfold newRaftStorage at opened
  split at opened
  · cases opened
  · rename_i wal created
    dsimp only at opened
    split at opened
    · cases opened
    · rename_i recovered ok
      cases opened
      unfold StorageCore.recover at ok
      split at ok
      · cases ok
      · cases ok
        simp [created]

theorem Backed.start {snapshotFile : Option SnapshotMetadata} (raftID : Nat)
    (opened : newRaftStorage codec ⟨.empty, snapshotFile⟩ flushThreshold segmentSize = .ok core) :
    Backed (M := M) codec ⟨.new raftID core, [], [], none⟩ Layout.empty 0 := by
  obtain ⟨created, empty, _⟩ := newRaftStorage_opens opened
  obtain ⟨wal, created', holds⟩ := @new_holds codec segmentSize
  cases created.symm.trans created'
  refine ⟨⟨holds, Nat.le_refl _, empty, ?_, ?_⟩, ?_, ?_⟩
  · intro entry member
    cases member
  · rintro entry (⟨range, member, _⟩ | member) <;> cases member
  · intro entry member
    cases member
  · intro promise made
    cases made

/-- In a run of `Ready`s in which every message is sent before any hard state has
been carried, and after all entries carried so far were committed and have left
the buffer, the directories give back at every crash point what the messages
rest on. -/
theorem sent_survives_crash_of_settled (lawful : codec.Lawful) {snapshotFile : Option SnapshotMetadata}
    (opened : newRaftStorage codec ⟨.empty, snapshotFile⟩ flushThreshold segmentSize = .ok core) (raftID : Nat)
    {readies : List (Ready M)} {actions : List (Action M)} {s : Sender M}
    (ordered : Ascending (readies.flatMap fun rd => rd.committedEntries.map Prod.fst))
    (crashed : actions <+: readies.flatMap handleReady)
    (run : Run (fun s action s' => s.step codec conf action = s') (fun _ => Sender.Settled)
      ⟨.new raftID core, [], [], none⟩ actions s) (flushThreshold' segmentSize' : Nat) :
    ∃ reopened, newRaftStorage codec s.node.storage.disk flushThreshold' segmentSize' = .ok reopened ∧
      s.KeptBy reopened := by
  have backed : Ascending (actions.filterMap Action.committed?) →
      s.applied.Sublist (actions.filterMap Action.committed?) ∧ ∃ layout written, Backed codec s layout written := by
    refine run.invariant (fun actions s => Ascending (actions.filterMap Action.committed?) →
      s.applied.Sublist (actions.filterMap Action.committed?) ∧ ∃ layout written, Backed codec s layout written)
      (fun _ => ⟨List.Sublist.refl _, _, _, Backed.start raftID opened⟩) ?_
    rintro actions s action _ before settled rfl ascending
    rw [List.filterMap_append] at ascending ⊢
    obtain ⟨fewer, layout, written, backed⟩ := before (ascending.sublist (List.sublist_append_left _ _))
    have fewer' : (s.step codec conf action).applied.Sublist
        (actions.filterMap Action.committed? ++ [action].filterMap Action.committed?) :=
      (s.step_applied action).trans (fewer.append (List.Sublist.refl _))
    exact ⟨fewer', backed.step settled (ascending.sublist fewer')⟩
  have ascending : Ascending (actions.filterMap Action.committed?) := by
    refine ordered.sublist ?_
    rw [← show (fun rd : Ready M => (handleReady rd).filterMap Action.committed?) = _ from
      funext handleReady_committed, ← List.filterMap_flatMap]
    exact crashed.sublist.filterMap _
  obtain ⟨fewer, layout, written, backed⟩ := backed ascending
  obtain ⟨reopened, opens, finds⟩ := reopen_finds backed.logged lawful (ascending.sublist fewer)
    s.node.storage.snapshotFile flushThreshold' segmentSize'
  obtain ⟨_, _, hardState, snapshotMeta⟩ := newRaftStorage_opens opens
  refine ⟨reopened, opens, ?_⟩
  intro promise made
  obtain ⟨initial, stores⟩ := backed.promised promise made
  refine ⟨hardState ▸ initial, fun entry member _ behind => ?_⟩
  rw [snapshotMeta] at behind
  exact finds entry (stores entry member) behind

private def sentMessages : List (Bytes × Command) := [addMessage 1 .t .a]

private def sentEntries : List Entry := messageEntries 1 sentMessages

/-- The runs below have no configuration changes. -/
private def sentConf : ConfCodec := ⟨fun _ => none, fun _ => none⟩

private def senderStart (flushThreshold : Nat) : Sender String := ⟨.new 1 (freshCore flushThreshold 0), [], [], none⟩

/-- A follower in its first term takes an entry and acknowledges it. -/
private def followerReady : Ready String :=
  ⟨⟨.follower, 2, 1⟩, none, ⟨1, 0, 0⟩, sentEntries, ["MsgAppResp"], []⟩

private def acknowledged : Sender String :=
  (handleReady followerReady).foldl (Sender.step (wireCodec sentMessages) sentConf) (senderStart 100)

/-- The node crashes after its acknowledgement: neither the term nor the entry is there afterwards. -/
theorem acknowledged_entry_lost_by_crash :
    ∃ (actions : List (Action String)) (s : Sender String) (reopened : StorageCore),
    actions <+: [followerReady].flatMap handleReady ∧
      Run (fun s action s' => s.step (wireCodec sentMessages) sentConf action = s') (fun _ _ _ => True)
        (senderStart 100) actions s ∧
      s.node.outgoingCh = ["MsgAppResp"] ∧
      newRaftStorage (wireCodec sentMessages) s.node.storage.disk 100 0 = .ok reopened ∧ ¬ s.KeptBy reopened ∧
      reopened.hardState = {} ∧ reopened.entries.get 1 = none := by
  refine ⟨handleReady followerReady, acknowledged, freshCore 100 0, ⟨[], by simp⟩, ?_, by decide, by decide, ?_,
    rfl, rfl⟩
  · refine Run.of_execute (f := fun s action => some (s.step (wireCodec sentMessages) sentConf action)) ?_ rfl
    intro _ s action s' taken
    exact ⟨trivial, Option.some.inj taken⟩
  · intro kept
    have promised : acknowledged.promise = some ⟨[⟨1, 0, 0⟩], sentEntries⟩ := by decide
    have := (kept _ promised).1
    revert this
    decide

/-- An entry is carried and committed, and only the next `Ready` has a message. -/
private def settledReadies : List (Ready String) :=
  [⟨⟨.follower, 2, 0⟩, none, {}, sentEntries, [], sentEntries.map fun entry => (entry, {})⟩,
    ⟨⟨.follower, 2, 0⟩, none, {}, [], ["MsgPreVote"], []⟩]

private def settledRun : Option (Sender String) :=
  (settledReadies.flatMap handleReady).foldlM (fun s action => if s.Settled action then
    some (s.step (wireCodec sentMessages) sentConf action) else none) (senderStart 1)

private theorem settled_executes : settledRun.isSome = true := rfl

theorem flushed_entry_survives_crash : ∃ (s : Sender String) (reopened : StorageCore),
    s.promise = some ⟨[{}], sentEntries⟩ ∧
      newRaftStorage (wireCodec sentMessages) s.node.storage.disk 100 0 = .ok reopened ∧ s.KeptBy reopened := by
  have run : Run (fun s action s' => s.step (wireCodec sentMessages) sentConf action = s') (fun _ => Sender.Settled)
      (senderStart 1) (settledReadies.flatMap handleReady) (Option.get _ settled_executes) := by
    refine Run.of_execute ?_ (Option.some_get settled_executes).symm
    intro _ s action s' taken
    split at taken
    · exact ⟨‹_›, Option.some.inj taken⟩
    · cases taken
  obtain ⟨reopened, opens, kept⟩ := sent_survives_crash_of_settled (wireCodec_lawful sentMessages)
    (newRaftStorage_empty (wireCodec sentMessages) 1 0) 1 (by decide) (List.prefix_refl _) run 100 0
  exact ⟨_, reopened, by decide, opens, kept⟩

end Cue.Cluster
