import Cue.Cluster.EntryCodec
import Cue.JobIndexHistory
import Cue.StorageReopen

/-! The job index that a live storage keeps against the one that recovery builds
from the same entries. They agree on which jobs are completed. A job that was
added again after its completion waits in the live index and not in the other,
so the index up to which the log is kept may differ. -/
namespace Cue.Cluster
open Cue.Lib Cue.Model

variable {codec : Codec} {log : List Entry} {id : String}

/-- Every job that was added again is covered by one that was never completed
and was not added later; or all jobs were completed and the first of those added
again comes right behind the last completion. -/
def KeepSurvives (codec : Codec) (log : List Entry) : Prop :=
  (∀ id, Readded codec log id →
    ∃ other, NeverCompleted codec log other ∧ lastAdded codec log other ≤ lastAdded codec log id) ∨
  (∀ id, ¬ NeverCompleted codec log id) ∧ ∃ first, Readded codec log first ∧
    (∀ id, Readded codec log id → lastAdded codec log first ≤ lastAdded codec log id) ∧
    (∃ id, lastCompleted codec log id + 1 = lastAdded codec log first) ∧
    ∀ id, lastCompleted codec log id < lastAdded codec log first

section Agree

variable {live rebuilt : StorageCore} (ascending : Ascending log)
  (liveIndex : live.jobIndex = log.foldl (indexEntry codec true) .empty)
  (rebuiltIndex : rebuilt.jobIndex = log.foldl (indexEntry codec false) .empty)
include ascending liveIndex rebuiltIndex

theorem completed_agree : rebuilt.getCompletedJobIDs.Perm live.getCompletedJobIDs := by
  refine (List.perm_ext_iff_of_nodup (FinMap.nodup _) (FinMap.nodup _)).mpr fun id => ?_
  exact (mem_getCompletedJobIDs rebuiltIndex ascending).trans (mem_getCompletedJobIDs liveIndex ascending).symm

theorem maxComplete_agree :
    StorageCore.maxComplete rebuilt.jobIndex = StorageCore.maxComplete live.jobIndex := by
  apply Nat.le_antisymm
  · rw [← Nat.lt_succ_iff, maxComplete_lt_iff rebuiltIndex ascending (Nat.succ_pos _),
      ← maxComplete_lt_iff liveIndex ascending (Nat.succ_pos _)]
    exact Nat.lt_succ_self _
  · rw [← Nat.lt_succ_iff, maxComplete_lt_iff liveIndex ascending (Nat.succ_pos _),
      ← maxComplete_lt_iff rebuiltIndex ascending (Nat.succ_pos _)]
    exact Nat.lt_succ_self _

/-- Jobs that were never completed hold both back. -/
private theorem keep_agree_of_never (pending : StorageCore.minPending rebuilt.jobIndex ≠ 0) :
    StorageCore.minPending live.jobIndex ≠ 0 ∧
      (StorageCore.minPending rebuilt.jobIndex = StorageCore.minPending live.jobIndex ↔
        ∀ id, Readded codec log id →
          ∃ other, NeverCompleted codec log other ∧ lastAdded codec log other ≤ lastAdded codec log id) := by
  obtain ⟨first, waits, same⟩ := minPending_lastAdded rebuiltIndex ascending pending
  have never : NeverCompleted codec log first := waits.resolve_right fun reset => nomatch reset.1
  obtain ⟨nonzero, least⟩ := minPending_le_lastAdded liveIndex ascending (Or.inl never)
  refine ⟨nonzero, ?_⟩
  constructor
  · intro equal id readded
    refine ⟨first, never, ?_⟩
    rw [← same, equal]
    exact (minPending_le_lastAdded liveIndex ascending (Or.inr ⟨rfl, readded⟩)).2
  · intro covered
    obtain ⟨source, waits, origin⟩ := minPending_lastAdded liveIndex ascending nonzero
    refine Nat.le_antisymm ?_ (same ▸ least)
    rcases waits with never | ⟨_, readded⟩
    · exact origin ▸ (minPending_le_lastAdded rebuiltIndex ascending (Or.inl never)).2
    · obtain ⟨other, never, low⟩ := covered source readded
      exact (minPending_le_lastAdded rebuiltIndex ascending (Or.inl never)).2.trans (origin ▸ low)

/-- Only jobs that were added again hold the live log back. -/
private theorem keep_agree_of_readded (none : StorageCore.minPending rebuilt.jobIndex = 0)
    (pending : StorageCore.minPending live.jobIndex ≠ 0) :
    (∀ id, ¬ NeverCompleted codec log id) ∧ 0 < StorageCore.maxComplete rebuilt.jobIndex ∧
      ∃ first, Readded codec log first ∧ StorageCore.minPending live.jobIndex = lastAdded codec log first ∧
        ∀ id, Readded codec log id → lastAdded codec log first ≤ lastAdded codec log id := by
  have noneNever : ∀ id, ¬ NeverCompleted codec log id := fun id never =>
    (minPending_le_lastAdded rebuiltIndex ascending (Or.inl never)).1 none
  obtain ⟨first, waits, same⟩ := minPending_lastAdded liveIndex ascending pending
  have readded : Readded codec log first := (waits.resolve_left (noneNever first)).2
  refine ⟨noneNever, ?_, first, readded, same, ?_⟩
  · by_contra zero
    have := (maxComplete_lt_iff rebuiltIndex ascending Nat.one_pos).mp (by omega) first
    have := readded.1
    omega
  · intro id other
    exact same ▸ (minPending_le_lastAdded liveIndex ascending (Or.inr ⟨rfl, other⟩)).2

theorem keep_agree_iff :
    { live with jobIndex := rebuilt.jobIndex }.findFirstIndexToKeep = live.findFirstIndexToKeep ↔
      KeepSurvives codec log := by
  have most := maxComplete_agree ascending liveIndex rebuiltIndex
  unfold StorageCore.findFirstIndexToKeep KeepSurvives
  dsimp only
  by_cases none : StorageCore.minPending rebuilt.jobIndex = 0
  · rw [if_neg (not_not.mpr none)]
    by_cases idle : StorageCore.minPending live.jobIndex = 0
    · rw [if_neg (not_not.mpr idle), most]
      refine iff_of_true rfl (Or.inl fun id readded => ?_)
      exact absurd idle (minPending_le_lastAdded liveIndex ascending (Or.inr ⟨rfl, readded⟩)).1
    · obtain ⟨noneNever, completed, first, readded, same, least⟩ :=
        keep_agree_of_readded ascending liveIndex rebuiltIndex none idle
      rw [if_pos completed, if_pos idle, same]
      constructor
      · intro equal
        obtain ⟨last, state, found, source⟩ := @maxComplete_source rebuilt.jobIndex (Nat.ne_of_gt completed)
        rw [(index_found rebuiltIndex ascending found).completed] at source
        refine Or.inr ⟨noneNever, first, readded, least, ⟨last, by omega⟩, ?_⟩
        exact (maxComplete_lt_iff rebuiltIndex ascending (by omega)).mp (by omega)
      · rintro (covered | ⟨_, other, readded', least', ⟨last, next⟩, above⟩)
        · obtain ⟨other, never, _⟩ := covered first readded
          exact absurd never (noneNever other)
        · have earliest := Nat.le_antisymm (least other readded') (least' first readded)
          have below := (maxComplete_lt_iff rebuiltIndex ascending (by omega)).mpr above
          have reached : ¬ StorageCore.maxComplete rebuilt.jobIndex < lastCompleted codec log last := fun less =>
            Nat.lt_irrefl _ ((maxComplete_lt_iff rebuiltIndex ascending (by omega)).mp less last)
          omega
  · obtain ⟨nonzero, agree⟩ := keep_agree_of_never ascending liveIndex rebuiltIndex none
    rw [if_pos none, if_pos nonzero, agree]
    refine ⟨Or.inl, fun survives => survives.resolve_right ?_⟩
    rintro ⟨noneNever, _⟩
    obtain ⟨first, waits, _⟩ := minPending_lastAdded rebuiltIndex ascending none
    exact noneNever first (waits.resolve_right fun reset => nomatch reset.1)

end Agree

/-! ### Runs of the storage -/

/-- A storage after these entries were committed to it. -/
theorem committed_journaled {first live : StorageCore} {flushThreshold segmentSize : Nat} (ascending : Ascending log)
    (opened : newRaftStorage codec .empty flushThreshold segmentSize = .ok first)
    (committed : log.foldlM (StorageCore.appendCommitted codec) first = .ok live) :
    (∃ written layout floor, Journaled codec log live written layout floor) ∧
      live.jobIndex = log.foldl (indexEntry codec true) .empty ∧ live.snapshotFile = none := by
  induction log using List.reverseRecOn generalizing live with
  | nil =>
    cases committed
    refine ⟨⟨_, _, _, .start opened⟩, ?_⟩
    rw [newRaftStorage_empty] at opened
    cases opened
    exact ⟨rfl, rfl⟩
  | append_singleton log entry ih =>
    rw [List.foldlM_append] at committed
    obtain ⟨middle, before, appended⟩ := bind_ok committed
    have last : middle.appendCommitted codec entry = .ok live := by
      change (middle.appendCommitted codec entry >>= pure) = _ at appended
      rwa [bind_pure] at appended
    obtain ⟨⟨written, layout, floor, journaled⟩, jobIndex, file⟩ := ih (Ascending.snoc_iff.mp ascending).1 before
    obtain ⟨⟨written', layout', after⟩, wal, writeBuffer, rfl⟩ := journaled.appendCommitted ascending last
    refine ⟨⟨written', layout', floor, after⟩, ?_, file⟩
    rw [List.foldl_append, ← jobIndex]
    rfl

/-- Entries are committed to an empty storage, which is closed and opened again.
The rebuilt index names the same completed jobs; the index from which on the log
is kept is the same exactly under the condition on jobs that were added again. -/
theorem rebuilt_index_agrees_iff {first live : StorageCore} {disk : Disk} {flushThreshold segmentSize : Nat}
    (lawful : codec.Lawful) (ascending : Ascending log)
    (opened : newRaftStorage codec .empty flushThreshold segmentSize = .ok first)
    (committed : log.foldlM (StorageCore.appendCommitted codec) first = .ok live) (closed : live.close = .ok disk)
    (flushThreshold' segmentSize' : Nat) :
    ∃ rebuilt, newRaftStorage codec disk flushThreshold' segmentSize' = .ok rebuilt ∧
      rebuilt.getCompletedJobIDs.Perm live.getCompletedJobIDs ∧
      ({ live with jobIndex := rebuilt.jobIndex }.findFirstIndexToKeep = live.findFirstIndexToKeep ↔
        KeepSurvives codec log) := by
  obtain ⟨⟨written, layout, floor, journaled⟩, jobIndex, file⟩ := committed_journaled ascending opened committed
  unfold StorageCore.close at closed
  split at closed
  · cases closed
  · rename_i flushed ok
    cases closed
    obtain ⟨⟨layout', all⟩, wal, rfl⟩ := journaled.flushed ascending ok
    obtain ⟨rebuilt, reopened, reread⟩ := all.reopened ascending lawful none flushThreshold' segmentSize'
    have positive : log.filter (fun entry => 0 < entry.index.toNat) = log :=
      List.filter_eq_self.mpr fun entry member => by simpa using ascending.positive member
    have rebuiltIndex := reread.jobIndex
    simp only [Option.getD_none, positive] at rebuiltIndex
    refine ⟨rebuilt, ?_, completed_agree ascending jobIndex rebuiltIndex,
      keep_agree_iff ascending jobIndex rebuiltIndex⟩
    rw [← reopened, StorageCore.disk, ← file]

private def againMessages : List (Bytes × Command) :=
  [addMessage 1 .t .a, doneMessage 2 .t .a, addMessage 3 .t .a, addMessage 4 .t .c, doneMessage 5 .t .c]

private def againCodec : Codec := wireCodec againMessages

private def againLog : List Entry := messageEntries 1 againMessages

-- the runs below are evaluated
set_option maxRecDepth 4000

private theorem again_commits :
    (againLog.foldlM (StorageCore.appendCommitted againCodec) (freshCore 1 0)).toOption.isSome = true := rfl

private theorem again_closes : (Option.get _ again_commits).close.toOption.isSome = true := rfl

private theorem again_reopens :
    (newRaftStorage againCodec (Option.get _ again_closes) 1 0).toOption.isSome = true := rfl

/-- A job is finished and added again, then another one is added and finished:
the live storage keeps the log from the job's second entry on, the rebuilt one
would cut it away. -/
theorem readded_job_not_kept : ∃ live disk rebuilt, Ascending againLog ∧
    newRaftStorage againCodec .empty 1 0 = .ok (freshCore 1 0) ∧
    againLog.foldlM (StorageCore.appendCommitted againCodec) (freshCore 1 0) = .ok live ∧
    live.close = .ok disk ∧ newRaftStorage againCodec disk 1 0 = .ok rebuilt ∧
    live.findFirstIndexToKeep = 3 ∧ { live with jobIndex := rebuilt.jobIndex }.findFirstIndexToKeep = 6 :=
  ⟨_, _, _, by decide, newRaftStorage_empty _ _ _, ok_of_toOption again_commits, ok_of_toOption again_closes,
    ok_of_toOption again_reopens, by decide, by decide⟩

/-- The job added again comes behind one that was never finished. -/
private def coveredLog : List Entry :=
  messageEntries 1 [addMessage 4 .t .c, addMessage 1 .t .a, doneMessage 2 .t .a, addMessage 3 .t .a]

private theorem covered_commits :
    (coveredLog.foldlM (StorageCore.appendCommitted againCodec) (freshCore 1 0)).toOption.isSome = true := rfl

private theorem covered_closes : (Option.get _ covered_commits).close.toOption.isSome = true := rfl

private theorem covered_survives : KeepSurvives againCodec coveredLog := by
  refine Or.inl fun id readded => ⟨"c", by decide, ?_⟩
  have first : lastAdded againCodec coveredLog "c" = 1 := by decide
  have added := Nat.zero_lt_of_lt readded.2
  omega

theorem covered_job_kept : ∃ live disk rebuilt,
    coveredLog.foldlM (StorageCore.appendCommitted againCodec) (freshCore 1 0) = .ok live ∧
      live.close = .ok disk ∧ newRaftStorage againCodec disk 1 0 = .ok rebuilt ∧
      rebuilt.getCompletedJobIDs.Perm live.getCompletedJobIDs ∧
      { live with jobIndex := rebuilt.jobIndex }.findFirstIndexToKeep = live.findFirstIndexToKeep := by
  have committed := ok_of_toOption covered_commits
  have closed := ok_of_toOption covered_closes
  obtain ⟨rebuilt, reopened, completed, keep⟩ := rebuilt_index_agrees_iff (wireCodec_lawful againMessages)
    (by decide) (newRaftStorage_empty _ 1 0) committed closed 1 0
  exact ⟨_, _, rebuilt, committed, closed, reopened, completed, keep.mpr covered_survives⟩

end Cue.Cluster
