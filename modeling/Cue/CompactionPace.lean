import Cue.CommitDelivery
import Cue.SnapshotGap

/-! How fast the raft loop may compact. A compaction goes up to an entry that the
job index has, and that index is ahead of the agent by what waits on `commitCh`
or was dropped from it. If the loop waits for the agent, every compaction that is
still to be heard of is of applied entries, and the gap of `ShouldSnapshot`
does not wrap. -/
namespace Cue.Cluster
open Cue.Lib Cue.Model

/-- The snapshot's index and the indices of the job index. -/
def StorageCore.IndexedUpTo (c : StorageCore) (bound : Nat) : Prop :=
  c.snapshotMeta.index ≤ bound ∧
    ∀ id state, c.jobIndex.get id = some state → state.addIndex ≤ bound ∧ state.completeIndex ≤ bound

/-- A snapshot is never ahead of the entries in the job index. -/
theorem StorageCore.IndexedUpTo.compact {c c' : StorageCore} {bound : Nat} (indexed : c.IndexedUpTo bound)
    (compacted : c.compact = .ok c') : c'.snapshotMeta.index ≤ bound := by
  obtain ⟨before, jobs⟩ := indexed
  have keep : c.firstIndex < c.findFirstIndexToKeep → c.findFirstIndexToKeep ≤ bound + 1 := by
    intro cuts
    unfold findFirstIndexToKeep at cuts ⊢
    split
    · rename_i pending
      obtain ⟨id, state, found, -, same⟩ := minPending_source pending
      have := (jobs id state found).1
      omega
    · split
      · rename_i completed
        obtain ⟨id, state, found, same⟩ := @maxComplete_source c.jobIndex (by omega)
        have := (jobs id state found).2
        omega
      · simp_all
  unfold StorageCore.compact at compacted
  dsimp only at compacted
  split at compacted
  · cases compacted
    exact before
  · rename_i cuts
    split at compacted <;> cases compacted
    have := keep (Nat.lt_of_not_le cuts)
    show c.findFirstIndexToKeep - 1 ≤ bound
    omega

namespace CRaft

variable {M : Type} {codec : Codec} {conf : ConfCodec} {c : CRaft M} {index : Nat}

theorem mem_notify {event other : NotifyEvent} (member : other ∈ (c.notify event).notifyCh) :
    other ∈ c.notifyCh ∨ other = event := by
  unfold notify at member
  split at member
  · simpa using member
  · exact .inl member

@[simp] theorem persist_notifyCh (c : CRaft M) (entry : Entry) : (c.persist codec entry).notifyCh = c.notifyCh := by
  unfold persist
  split <;> rfl

@[simp] theorem deliver_notifyCh (c : CRaft M) (committed : CommittedEntry) :
    (c.deliver committed).notifyCh = c.notifyCh := by
  unfold deliver
  split <;> rfl

/-- Of the actions of a `handleReady`, none tells of a compaction. -/
theorem compactions_act {action : Action M} (member : .walCompact index ∈ (c.act codec conf action).notifyCh) :
    .walCompact index ∈ c.notifyCh := by
  cases action with
  | checkRole status =>
    simp only [act, checkRole] at member
    split at member
    · exact (mem_notify member).resolve_right NotifyEvent.noConfusion
    · exact member
  | apply entry configured =>
    simp only [act, applyCommittedEntry, switchType] at member
    cases changed : conf.changes entry with
    | error err => simpa [changed] using member
    | ok changes =>
      cases changes with
      | none => simpa [changed] using member
      | some changes =>
        simp only [changed, deliver_notifyCh, persist_notifyCh, handleConfChange] at member
        refine (mem_notify member).resolve_right ?_
        split <;> exact NotifyEvent.noConfusion
  | installSnapshot snapshotMeta => exact member
  | setHardState hs => exact member
  | append entries => exact member
  | send msg => exact member

/-- An action puts at most one entry on `commitCh`, the one it applies. -/
theorem commitCh_act (action : Action M) :
    (c.act codec conf action).commitCh = c.commitCh ∨
      ∃ (entry : Entry) (configured : Configured) (committed : CommittedEntry), action = .apply entry configured ∧
        committed.index = entry.index ∧ (c.act codec conf action).commitCh = c.commitCh ++ [committed] := by
  cases action with
  | checkRole status =>
    simp only [act, checkRole]
    split
    · exact .inl (notify_commitCh _ _)
    · exact .inl rfl
  | apply entry configured =>
    simp only [act]
    cases decodes : (conf.changes entry).isOk with
    | false =>
      unfold applyCommittedEntry switchType
      cases changed : conf.changes entry with
      | error err => exact .inl rfl
      | ok changes => simp [changed, Except.isOk, Except.toBool] at decodes
    | true =>
      obtain ⟨delivered, same, behind⟩ := c.applyCommittedEntry_commitCh codec configured decodes
      rw [behind]
      split
      · exact .inr ⟨entry, configured, delivered, rfl, by rw [← same]; rfl, rfl⟩
      · exact .inl rfl
  | installSnapshot snapshotMeta => exact .inl rfl
  | setHardState hs => exact .inl rfl
  | append entries => exact .inl rfl
  | send msg => exact .inl rfl

/-- `CmdSnapshot` tells of a compaction that was just made, and of no entry. -/
theorem handleSnapshot_channels (c : CRaft M) : c.handleSnapshot.commitCh = c.commitCh ∧
    ∀ index, .walCompact index ∈ c.handleSnapshot.notifyCh → .walCompact index ∈ c.notifyCh ∨
      ∃ storage, c.storage.compact = .ok storage ∧ index = storage.snapshotMeta.index := by
  unfold handleSnapshot
  split
  · exact ⟨rfl, fun _ => .inl⟩
  · rename_i storage compacted
    refine ⟨notify_commitCh _ _, fun index member => ?_⟩
    rcases mem_notify member with old | new
    · exact .inl old
    · cases new
      exact .inr ⟨storage, compacted, rfl⟩

end CRaft

namespace SnapshotFeed

variable {M : Type} {codec : Codec} {conf : ConfCodec} {policy : SnapshotPolicy} {s s' : SnapshotFeed M}
  {ops : List (SnapshotOp M)}

/-- Raft hands over each entry after those with a lower index; the log is
compacted when the agent has applied what the storage has indexed; and no index
is stored between the two loads of a `ShouldSnapshot`. -/
def Careful (ops : List (SnapshotOp M)) (s : SnapshotFeed M) : SnapshotOp M → Prop
  | .feed (.act (.apply entry _)) => ∀ (earlier : Entry) (configured : Configured),
      .feed (.act (.apply earlier configured)) ∈ ops → earlier.index < entry.index
  | .feed .compact => s.feed.node.storage.IndexedUpTo s.lastApplied.toNat
  | .feed .handle => s.checking = none
  | _ => True

/-- The indices that are or will be applied, in this order. -/
def indices (s : SnapshotFeed M) : List UInt64 :=
  s.lastApplied :: (s.applying.toList ++ s.feed.node.commitCh).map CommittedEntry.index

/-- The compactions still to be heard of are of applied entries, and the entries
still to be applied are in order. -/
structure Behind (ops : List (SnapshotOp M)) (s : SnapshotFeed M) : Prop where
  told : ∀ index, .walCompact index ∈ s.feed.pending → index ≤ s.lastApplied.toNat
  ascending : s.indices.Pairwise (· ≤ ·)
  handed : ∀ index ∈ s.indices, index = 0 ∨
    ∃ (entry : Entry) (configured : Configured), .feed (.act (.apply entry configured)) ∈ ops ∧ entry.index = index

theorem Behind.start (raftID : Nat) (storage : StorageCore) (nodeID : String) (discovery : Discovery)
    (channels : FinMap String (List Command)) (deadJobs : List String) :
    Behind [] (new raftID storage nodeID discovery channels deadJobs : SnapshotFeed M) := by
  refine ⟨?_, List.pairwise_singleton _ _, ?_⟩
  · intro index member
    cases member
  · intro index member
    exact .inl (List.mem_singleton.mp member)

theorem Behind.handed_append (behind : Behind ops s) (op : SnapshotOp M) : ∀ index ∈ s.indices, index = 0 ∨
    ∃ (entry : Entry) (configured : Configured), .feed (.act (.apply entry configured)) ∈ ops ++ [op] ∧
      entry.index = index := by
  intro index member
  rcases behind.handed index member with zero | ⟨entry, configured, applied, same⟩
  · exact .inl zero
  · exact .inr ⟨entry, configured, List.mem_append_left _ applied, same⟩

/-- The index only grows if it moves on along the entries to be applied. -/
theorem Behind.le_of_mem (behind : Behind ops s) {index : UInt64} (member : index ∈ s.indices) :
    s.lastApplied ≤ index := by
  rcases List.mem_cons.mp member with rfl | later
  · exact UInt64.le_refl _
  · exact (List.pairwise_cons.mp behind.ascending).1 index later

/-- A step that adds nothing to the channels. -/
theorem Behind.shrink (behind : Behind ops s) (op : SnapshotOp M) (kept : s'.indices.Sublist s.indices)
    (told : ∀ index, .walCompact index ∈ s'.feed.pending → .walCompact index ∈ s.feed.pending) :
    Behind (ops ++ [op]) s' := by
  have grown : s.lastApplied ≤ s'.lastApplied := behind.le_of_mem (kept.subset List.mem_cons_self)
  refine ⟨?_, behind.ascending.sublist kept, ?_⟩
  · intro index member
    exact (behind.told index (told index member)).trans (UInt64.le_iff_toNat_le.mp grown)
  · intro index member
    exact behind.handed_append op index (kept.subset member)

theorem Behind.timely {op : SnapshotOp M} (behind : Behind ops s) (safe : s.Safe) (careful : s.Careful ops op) :
    s.Timely op := by
  cases op with
  | feed op =>
    cases op with
    | handle =>
      intro index busy
      have below : index ≤ s.lastApplied.toNat := behind.told index (by simp [RoleFeed.pending, busy])
      refine ⟨?_, ?_⟩
      · rw [UInt64.le_iff_toNat_le, UInt64.toNat_ofNat']
        exact (Nat.mod_le _ _).trans below
      · rw [show s.checking = none from careful]
        simp
    | act action => trivial
    | compact => trivial
    | receive => trivial
  | apply spawn =>
    intro committed received _
    have member : committed.index ∈ s.indices := by
      rw [Option.mem_def] at received
      simp [indices, received]
    exact UInt64.le_trans safe.applied (behind.le_of_mem member)
  | receive => trivial
  | check now => trivial
  | finish later room => trivial

/-- An entry with a higher index than all before it joins the queue. -/
theorem Behind.handOver {entry : Entry} {configured : Configured} (behind : Behind ops s)
    (newest : s.Careful ops (.feed (.act (.apply entry configured))))
    (appended : s'.indices = s.indices ++ [entry.index]) (same : s'.lastApplied = s.lastApplied)
    (told : ∀ index, .walCompact index ∈ s'.feed.pending → .walCompact index ∈ s.feed.pending) :
    Behind (ops ++ [.feed (.act (.apply entry configured))]) s' := by
  have highest : ∀ other ∈ s.indices, other ≤ entry.index := by
    intro other member
    rcases behind.handed other member with rfl | ⟨earlier, configured, applied, rfl⟩
    · exact UInt64.zero_le
    · exact UInt64.le_of_lt (newest earlier configured applied)
  refine ⟨?_, ?_, ?_⟩
  · rw [same]
    exact fun index member => behind.told index (told index member)
  · rw [appended, List.pairwise_append]
    exact ⟨behind.ascending, List.pairwise_singleton _ _, by simpa using highest⟩
  · rw [appended]
    intro other member
    rcases List.mem_append.mp member with old | new
    · exact behind.handed_append _ other old
    · exact .inr ⟨entry, configured, by simp, (List.mem_singleton.mp new).symm⟩

/-- The log is compacted up to an entry that is applied. -/
theorem Behind.compacted (behind : Behind ops s) (op : SnapshotOp M) (kept : s'.indices = s.indices)
    (same : s'.lastApplied = s.lastApplied)
    (told : ∀ index, .walCompact index ∈ s'.feed.pending →
      .walCompact index ∈ s.feed.pending ∨ index ≤ s.lastApplied.toNat) : Behind (ops ++ [op]) s' := by
  refine ⟨?_, kept ▸ behind.ascending, kept ▸ behind.handed_append op⟩
  intro index member
  rw [same]
  exact (told index member).elim (behind.told index) id

/-- The raft loop: an action of a `handleReady`. -/
theorem Behind.act {action : Action M} (behind : Behind ops s) (careful : s.Careful ops (.feed (.act action)))
    (stepped : s.step codec conf policy (.feed (.act action)) = some s') :
    Behind (ops ++ [.feed (.act action)]) s' := by
  cases stepped
  have told : ∀ index, .walCompact index ∈ s.feed.handling.toList ++ (s.feed.node.act codec conf action).notifyCh →
      .walCompact index ∈ s.feed.pending := by
    intro index member
    rcases List.mem_append.mp member with now | later
    · exact List.mem_append_left _ now
    · exact List.mem_append_right _ (CRaft.compactions_act later)
  rcases @CRaft.commitCh_act M codec conf s.feed.node action with
    same | ⟨entry, configured, committed, rfl, index, added⟩
  · exact behind.shrink _ (by simp [indices, lastApplied, same]) told
  · exact behind.handOver careful (by simp [indices, lastApplied, added, index]) rfl told

theorem Behind.feed {op : RoleOp M} (behind : Behind ops s) (careful : s.Careful ops (.feed op))
    (stepped : s.step codec conf policy (.feed op) = some s') : Behind (ops ++ [.feed op]) s' := by
  cases op with
  | act action => exact behind.act careful stepped
  | compact =>
    cases stepped
    obtain ⟨same, compactions⟩ := s.feed.node.handleSnapshot_channels
    refine behind.compacted _ (by simp [indices, lastApplied, same]) rfl ?_
    intro index member
    rcases List.mem_append.mp member with now | later
    · exact .inl (List.mem_append_left _ now)
    · rcases compactions index later with old | ⟨storage, compacted, rfl⟩
      · exact .inl (List.mem_append_right _ old)
      · exact .inr (StorageCore.IndexedUpTo.compact careful compacted)
  | receive =>
    obtain ⟨feed, moved, rfl⟩ := Option.map_eq_some_iff.mp stepped
    simp only [RoleFeed.step] at moved
    split at moved <;> cases moved
    rename_i free channel
    refine behind.shrink _ (List.Sublist.refl _) ?_
    simp [RoleFeed.pending, free, channel]
  | handle =>
    obtain ⟨feed, moved, rfl⟩ := Option.map_eq_some_iff.mp stepped
    simp only [RoleFeed.step] at moved
    split at moved <;> cases moved
    rename_i event busy
    have node : (s.feed.handleNotification event).node = s.feed.node := by cases event <;> rfl
    have agent : (s.feed.handleNotification event).agent.lastAppliedIndex = s.feed.agent.lastAppliedIndex := by
      cases event <;> rfl
    refine behind.shrink _ ?_ ?_
    · simp [indices, lastApplied, node, agent]
    · simp only [RoleFeed.pending, node]
      exact fun index member => List.mem_append_right _ member

theorem Behind.step {op : SnapshotOp M} (behind : Behind ops s) (careful : s.Careful ops op)
    (stepped : s.step codec conf policy op = some s') : Behind (ops ++ [op]) s' := by
  cases op with
  | feed op => exact behind.feed careful stepped
  | receive =>
    simp only [SnapshotFeed.step] at stepped
    split at stepped <;> cases stepped
    rename_i free channel
    refine behind.shrink _ ?_ fun _ => id
    simp [indices, lastApplied, free, channel]
  | apply spawn =>
    simp only [SnapshotFeed.step] at stepped
    split at stepped <;> cases stepped
    rename_i committed received
    refine behind.shrink _ ?_ fun _ => id
    have applied := s.feed.agent.processCommittedEntry_lastApplied codec conf committed spawn
    simp only [indices, lastApplied, applied, received, Option.toList, List.nil_append, List.singleton_append,
      List.map_cons]
    split
    · exact .cons _ (.refl _)
    · exact .cons_cons _ (.cons _ (.refl _))
  | check now =>
    simp only [SnapshotFeed.step] at stepped
    split at stepped <;> cases stepped
    exact behind.shrink _ (List.Sublist.refl _) fun _ => id
  | finish later room =>
    simp only [SnapshotFeed.step] at stepped
    split at stepped <;> cases stepped
    exact behind.shrink _ (List.Sublist.refl _) fun _ => id

end SnapshotFeed

/-- If raft hands over entries in order, and the loop compacts only what the
agent has applied, and the loads are not interrupted, then `ShouldSnapshot`
subtracts in the right order. -/
theorem gap_in_order_when_caught_up {M : Type} {codec : Codec} {conf : ConfCodec} {policy : SnapshotPolicy}
    {raftID : Nat} {storage : StorageCore} {nodeID : String} {discovery : Discovery}
    {channels : FinMap String (List Command)} {deadJobs : List String} {ops : List (SnapshotOp M)}
    {s : SnapshotFeed M}
    (run : SnapshotRun codec conf policy SnapshotFeed.Careful
      (.new raftID storage nodeID discovery channels deadJobs) ops s) :
    ∀ gap ∈ s.gaps, gap.InOrder := by
  have both : s.Ordered ∧ s.Behind ops := by
    refine run.invariant (fun ops s => s.Ordered ∧ s.Behind ops)
      ⟨.start raftID storage nodeID discovery channels deadJobs,
        .start raftID storage nodeID discovery channels deadJobs⟩ ?_
    rintro _ s op s' ⟨ordered, behind⟩ careful stepped
    exact ⟨ordered.step (behind.timely ordered.safe careful) stepped, behind.step careful stepped⟩
  exact both.1.gaps

end Cue.Cluster
