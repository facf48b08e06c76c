import Cue.Cluster.EntryCodec
import Cue.Cluster.StorageLock
import Cue.StorageRuns

/-! Which operations of the storage return with its lock still taken. All that
release it by `defer` release it. Of those that release it by hand, two forget
one path each: `appendCommitted` when the entry cannot be encoded, `compact` when
the log cannot be truncated. Nothing that takes the lock returns after that. -/
namespace Cue.Cluster.StorageCore
open Cue.Lib Cue.Lib.Critical Cue.Model

variable {codec : Codec} {calls : Calls}

/-- The paths on which an operation returns without releasing the lock. -/
def Forgets (calls : Calls) (c : StorageCore) : CoreOp → Prop
  | .appendCommitted _ => ∃ err, calls.encoded = .error err
  | .compact => c.firstIndex < c.findFirstIndexToKeep ∧ ∃ err, calls.truncated.1 = some err
  | _ => False

/-- Operations that need the lock. -/
def NeedsLock (flushing : Bool) : CoreOp → Prop
  | .appendEntries entries => entries ≠ []
  | .flushBuffer => flushing = false
  | _ => True

/-! ### Each operation -/

section Ends

variable {s : Shared} {post : Except WalError Unit → Guarded Shared → Prop}

@[simp] theorem ends_changeCore (f : StorageCore → StorageCore) (g : Guarded Shared) :
    (changeCore f).Ends post g ↔ post (.ok ()) { g with value := { g.value with core := f g.value.core } } :=
  ends_change _

@[simp] theorem ends_raise (err : Option WalError) (g : Guarded Shared) :
    (raise err).Ends post g ↔ post (err.elim (.ok ()) .error) g := by
  cases err with
  | none => exact ends_pure ()
  | some err => exact ends_fail err

theorem ends_whileLocked (body : Locked Unit) :
    (whileLocked body).Ends post ⟨s, false⟩ ↔
      body.Ends (fun result g => g.locked = true ∧ post result { g with locked := false }) ⟨s, true⟩ := by
  simp [whileLocked]

theorem flushBuffer_ends (calls : Calls) (s : Shared) :
    (flushBufferLocked calls).Ends (fun _ after => after.locked = false ∧ after.value.flushing = s.flushing)
      ⟨s, false⟩ := by
  unfold flushBufferLocked
  cases busy : s.flushing with
  | true => simp [busy]
  | false => cases calls.appended.1 <;> simp [busy, ends_ite]

/-- Every operation returns if the lock is free, and leaves it free except on the
two paths that forget it. -/
theorem performLocked_ends (codec : Codec) (calls : Calls) (op : CoreOp) (s : Shared) :
    (performLocked codec calls op).Ends (fun _ after => (after.locked = true ↔ Forgets calls s.core op) ∧
      after.value.flushing = s.flushing) ⟨s, false⟩ := by
  cases op with
  | appendEntries entries => simp [performLocked, appendEntriesLocked, ends_ite, ends_whileLocked, Forgets]
  | appendCommitted entry =>
    cases failed : calls.encoded with
    | error err => simp [performLocked, appendCommittedLocked, failed, Forgets]
    | ok buffered =>
      simp [performLocked, appendCommittedLocked, failed, Forgets, ends_ite]
      exact fun _ => flushBuffer_ends calls _
  | flushBuffer =>
    obtain ⟨result, after, ran, free, same⟩ := flushBuffer_ends calls s
    exact ⟨result, after, ran, by simp [free, Forgets], same⟩
  | compact =>
    cases failed : calls.truncated.1 <;>
      simp [performLocked, compactLocked, failed, Forgets, ends_ite]
  | recover =>
    cases failed : calls.recovered.2 <;> simp [performLocked, recoverLocked, ends_whileLocked, failed, Forgets]
  | installSnapshot snapshotMeta => simp [performLocked, installSnapshotLocked, ends_whileLocked, Forgets]
  | setHardState hs => simp [performLocked, setHardStateLocked, ends_whileLocked, Forgets]
  | setConfState cs =>
    cases failed : calls.saved <;> simp [performLocked, setConfStateLocked, ends_whileLocked, failed, Forgets]

/-- While the lock is taken, whatever needs it waits. -/
theorem performLocked_blocks (codec : Codec) (calls : Calls) {op : CoreOp} {s : Shared}
    (needed : NeedsLock s.flushing op) : performLocked codec calls op ⟨s, true⟩ = none := by
  apply blocks_of_not_ends
  cases op with
  | appendEntries entries =>
    have some : entries ≠ [] := needed
    simp [performLocked, appendEntriesLocked, whileLocked, some]
  | flushBuffer =>
    have idle : s.flushing = false := needed
    simp [performLocked, flushBufferLocked, idle]
  | _ => simp [performLocked, appendCommittedLocked, compactLocked, recoverLocked, installSnapshotLocked,
      setHardStateLocked, setConfStateLocked, whileLocked]

end Ends

/-- From a free lock every operation returns, for every way its calls end, and
the lock is free again exactly if it did not take one of the two paths. If it is,
whatever comes next returns; if not, whatever needs it never does. -/
theorem lock_released_iff (codec : Codec) (calls : Calls) (op : CoreOp) (s : Shared) :
    ∃ result after, performLocked codec calls op ⟨s, false⟩ = some (result, after) ∧
      (after.locked = false ↔ ¬ Forgets calls s.core op) ∧
      (after.locked = false → ∀ (calls' : Calls) (next : CoreOp),
        ∃ answer, performLocked codec calls' next after = some answer) ∧
      (after.locked = true → ∀ (calls' : Calls) (next : CoreOp), NeedsLock after.value.flushing next →
        performLocked codec calls' next after = none) := by
  obtain ⟨result, after, ran, held, _⟩ := performLocked_ends codec calls op s
  refine ⟨result, after, ran, ?_, ?_, ?_⟩
  · rw [← held, Bool.not_eq_true]
  · intro free calls' next
    obtain ⟨answer, later, returned, _⟩ := performLocked_ends codec calls' next after.value
    rw [← free] at returned
    exact ⟨_, returned⟩
  · intro taken calls' next needed
    have blocked := performLocked_blocks codec calls' needed
    rw [← taken] at blocked
    exact blocked

/-! ### Without the lock -/

/-- Calls that all succeed. -/
private def succeeding (encoded : BufferedEntry) (wal : SegmentedWAL) (recovered : List Entry) : Calls :=
  ⟨.ok encoded, none, (none, wal), (none, wal), (recovered, none)⟩

private theorem flushBuffer_performs {c c' : StorageCore} (encoded : BufferedEntry) (recovered : List Entry)
    (ok : c.flushBuffer = .ok c') :
    (flushBufferLocked (succeeding encoded c'.wal recovered)).Ends
      (fun result after => result = .ok () ∧ after = ⟨⟨c', false⟩, false⟩) ⟨⟨c, false⟩, false⟩ := by
  unfold flushBuffer at ok
  unfold flushBufferLocked
  split at ok
  · rename_i empty
    cases ok
    simp [empty]
  · rename_i filled
    split at ok
    · cases ok
    · cases ok
      simp [filled, succeeding]

private theorem appendCommitted_performs {c c' : StorageCore} {entry : Entry}
    (ok : c.appendCommitted codec entry = .ok c') :
    ∃ calls, performLocked codec calls (.appendCommitted entry) ⟨⟨c, false⟩, false⟩ =
      some (.ok (), ⟨⟨c', false⟩, false⟩) := by
  unfold appendCommitted at ok
  split at ok
  · cases ok
  · rename_i buffered encoded
    dsimp only at ok
    split at ok
    · rename_i full
      refine ⟨succeeding buffered c'.wal [], eq_of_ends ?_⟩
      have flushed := flushBuffer_performs buffered [] ok
      simp only [ge_iff_le, List.length_append, List.length_singleton] at full
      simpa [performLocked, appendCommittedLocked, succeeding, full] using flushed
    · rename_i room
      cases ok
      refine ⟨succeeding buffered c.wal [], eq_of_ends ?_⟩
      simp only [ge_iff_le, List.length_append, List.length_singleton] at room
      simp [performLocked, appendCommittedLocked, succeeding, room]

private theorem compact_performs {c c' : StorageCore} (ok : c.compact = .ok c') :
    ∃ calls, performLocked codec calls .compact ⟨⟨c, false⟩, false⟩ = some (.ok (), ⟨⟨c', false⟩, false⟩) := by
  refine ⟨succeeding ⟨0, []⟩ c'.wal [], eq_of_ends ?_⟩
  unfold compact at ok
  dsimp only at ok
  split at ok
  · rename_i nothing
    cases ok
    simp [performLocked, compactLocked, nothing]
  · rename_i cuts
    split at ok
    · cases ok
    · cases ok
      simp [performLocked, compactLocked, cuts, cutBack, saveSnapshotMeta, succeeding]

/-- What an operation does when it succeeds, it does here when its calls succeed. -/
theorem performLocked_of_perform {c c' : StorageCore} {op : CoreOp} (ok : c.perform codec op = .ok c') :
    ∃ calls, performLocked codec calls op ⟨⟨c, false⟩, false⟩ = some (.ok (), ⟨⟨c', false⟩, false⟩) := by
  cases op with
  | appendEntries entries =>
    cases ok
    refine ⟨succeeding ⟨0, []⟩ c.wal [], eq_of_ends ?_⟩
    by_cases nothing : entries = []
    · simp [performLocked, appendEntriesLocked, nothing, appendEntries]
    · simp [performLocked, appendEntriesLocked, nothing, ends_whileLocked]
  | appendCommitted entry => exact appendCommitted_performs ok
  | flushBuffer => exact ⟨_, eq_of_ends (flushBuffer_performs ⟨0, []⟩ [] ok)⟩
  | compact => exact compact_performs ok
  | recover =>
    change c.recover codec = _ at ok
    unfold recover at ok
    split at ok
    · cases ok
    · rename_i recovered _
      cases ok
      refine ⟨succeeding ⟨0, []⟩ c.wal recovered, eq_of_ends ?_⟩
      simp [performLocked, recoverLocked, ends_whileLocked, succeeding]
  | installSnapshot snapshotMeta =>
    cases ok
    refine ⟨succeeding ⟨0, []⟩ c.wal [], eq_of_ends ?_⟩
    simp [performLocked, installSnapshotLocked, ends_whileLocked, saveSnapshotMeta, succeeding, installSnapshot]
  | setHardState hs =>
    cases ok
    refine ⟨succeeding ⟨0, []⟩ c.wal [], eq_of_ends ?_⟩
    simp [performLocked, setHardStateLocked, ends_whileLocked]
  | setConfState cs =>
    cases ok
    refine ⟨succeeding ⟨0, []⟩ c.wal [], eq_of_ends ?_⟩
    simp [performLocked, setConfStateLocked, ends_whileLocked, saveSnapshotMeta, succeeding, setConfState]

/-! ### Given calls -/

private def oneJob : List (Bytes × Command) := [addMessage 1 .t .a, doneMessage 2 .t .a]

private theorem done_executes : (((messageEntries 1 oneJob).map CoreOp.appendCommitted).foldlM
    (perform (wireCodec oneJob)) (freshCore 100 0)).toOption.isSome = true := rfl

/-- A storage in which a job was added and done. -/
private def doneCore : StorageCore := Option.get _ done_executes

/-- Every call fails. -/
private def failing (c : StorageCore) : Calls :=
  ⟨.error .badEntry, some .notExist, (some .notExist, c.wal), (some .notExist, c.wal), ([], some .notExist)⟩

/-- An entry that cannot be encoded, and a file that cannot be removed: the lock
stays taken, and the next `setHardState` of the raft loop waits for ever. -/
theorem failures_keep_lock :
    performLocked (wireCodec oneJob) (failing doneCore) (.appendCommitted ⟨1, 3, .normal, none⟩)
        ⟨⟨doneCore, false⟩, false⟩ = some (.error .badEntry, ⟨⟨doneCore, false⟩, true⟩) ∧
      performLocked (wireCodec oneJob) (failing doneCore) (.setHardState {}) ⟨⟨doneCore, false⟩, true⟩ = none ∧
      (performLocked (wireCodec oneJob) (failing doneCore) .compact ⟨⟨doneCore, false⟩, false⟩).map
        (fun ended => ended.2.locked) = some true :=
  ⟨rfl, rfl, rfl⟩

end Cue.Cluster.StorageCore
