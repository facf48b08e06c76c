import Cue.StorageProofs

/-! A batch that overlaps the log. Each entry of the batch removes the tail from its
own index on before it is stored, so the log ends with the batch. The last index
only grows: when the batch ends before the old log did, it stays where the old log
ended, and the indices behind the batch have no entries. -/
namespace Cue.Cluster
open Cue.Lib Cue.Model

namespace StorageCore

variable {c : StorageCore} {first start : Nat} {log batch : List Entry} {entry : Entry}

/-- The log in memory is exactly this one, which starts at `first`. -/
structure Holds (c : StorageCore) (first : Nat) (log : List Entry) : Prop where
  consecutive : Consecutive first log
  present : ∀ index entry, c.entries.get index = some entry ↔ entry ∈ log ∧ entry.index.toNat = index

/-- The log in memory is the range from the first to the last index, or empty. -/
structure Dense (c : StorageCore) (log : List Entry) : Prop where
  holds : c.Holds c.firstIndex log
  last : c.lastIndex + 1 = c.firstIndex + log.length

/-! ### One entry -/

theorem appendOne_lastIndex (c : StorageCore) (entry : Entry) :
    (c.appendOne entry).lastIndex = max c.lastIndex entry.index.toNat := by
  simp only [appendOne]
  split <;> omega

theorem appendOne_firstIndex (positive : 0 < c.firstIndex) (above : c.firstIndex ≤ entry.index.toNat) :
    (c.appendOne entry).firstIndex = c.firstIndex := by
  simp only [appendOne]
  rw [if_neg (by omega)]

/-- The entries below an index, as a part of the log. -/
theorem Holds.mem_take (holds : c.Holds first log) {index : Nat} (above : first ≤ index)
    (next : index ≤ first + log.length) (other : Entry) :
    other ∈ log.take (index - first) ↔ other ∈ log ∧ other.index.toNat < index := by
  have split := holds.consecutive
  rw [← List.take_append_drop (index - first) log] at split
  obtain ⟨below, beyond⟩ := Consecutive.append_iff.mp split
  rw [List.length_take, Nat.min_eq_left (by omega), Nat.add_sub_cancel' above] at beyond
  constructor
  · intro member
    have bounds := below.bounds member
    rw [List.length_take] at bounds
    exact ⟨List.mem_of_mem_take member, by omega⟩
  · rintro ⟨member, less⟩
    rw [← List.take_append_drop (index - first) log] at member
    rcases List.mem_append.mp member with low | high
    · exact low
    · have bounds := beyond.bounds high
      omega

/-- The loop that removes the tail leaves what stands below the index: nothing of the
log lies behind the last index. -/
theorem Holds.get_kept (holds : c.Holds first log) (reach : first + log.length ≤ c.lastIndex + 1) (start index : Nat)
    (other : Entry) :
    (if start ≤ c.lastIndex then c.entries.filter fun i _ => i < start ∨ c.lastIndex < i else c.entries).get index =
        some other ↔
      (other ∈ log ∧ other.index.toNat = index) ∧ index < start := by
  split
  · rw [FinMap.get_filter_some, holds.present]
    simp only [decide_eq_true_eq]
    constructor
    · rintro ⟨⟨member, found⟩, less | late⟩
      · exact ⟨⟨member, found⟩, less⟩
      · have bounds := holds.consecutive.bounds member
        omega
    · rintro ⟨found, less⟩
      exact ⟨found, Or.inl less⟩
  · rw [holds.present]
    refine ⟨fun found => ⟨found, ?_⟩, fun found => found.1⟩
    have bounds := holds.consecutive.bounds found.1
    omega

/-- What is left of the log is what stands below the entry. -/
theorem appendOne_holds (entry : Entry) (holds : c.Holds first log) (reach : first + log.length ≤ c.lastIndex + 1)
    (above : first ≤ entry.index.toNat) (next : entry.index.toNat ≤ first + log.length) :
    (c.appendOne entry).Holds first (log.take (entry.index.toNat - first) ++ [entry]) := by
  have split := holds.consecutive
  rw [← List.take_append_drop (entry.index.toNat - first) log] at split
  refine ⟨Consecutive.append_iff.mpr ⟨(Consecutive.append_iff.mp split).1, ?_, trivial⟩, fun index other => ?_⟩
  · rw [List.length_take]
    omega
  · simp only [appendOne, FinMap.get_set, List.mem_append, List.mem_singleton, holds.mem_take above next]
    by_cases same : index = entry.index.toNat
    · rw [if_pos same]
      constructor
      · intro found
        cases found
        exact ⟨Or.inr rfl, same.symm⟩
      · rintro ⟨⟨_, less⟩ | rfl, found⟩
        · omega
        · rfl
    · rw [if_neg same, holds.get_kept reach]
      constructor
      · rintro ⟨⟨member, found⟩, less⟩
        exact ⟨Or.inl ⟨member, found ▸ less⟩, found⟩
      · rintro ⟨⟨member, less⟩ | rfl, found⟩
        · exact ⟨⟨member, found⟩, found ▸ less⟩
        · exact absurd found.symm same

/-! ### A batch -/

theorem appendEntries_lastIndex (consecutive : Consecutive start batch) (reach : start ≤ c.lastIndex + 1) :
    (c.appendEntries batch).lastIndex + 1 = max (c.lastIndex + 1) (start + batch.length) := by
  induction batch generalizing c start with
  | nil =>
    simp only [appendEntries, List.foldl_nil, List.length_nil]
    omega
  | cons entry batch ih =>
    obtain ⟨here, rest⟩ := consecutive
    have after := appendOne_lastIndex c entry
    have later := ih rest (c := c.appendOne entry) (by omega)
    simp only [appendEntries, List.foldl_cons, List.length_cons] at later ⊢
    omega

theorem appendEntries_firstIndex (positive : 0 < c.firstIndex) (consecutive : Consecutive start batch)
    (above : c.firstIndex ≤ start) : (c.appendEntries batch).firstIndex = c.firstIndex := by
  induction batch generalizing c start with
  | nil => rfl
  | cons entry batch ih =>
    obtain ⟨here, rest⟩ := consecutive
    have after : (c.appendOne entry).firstIndex = c.firstIndex := appendOne_firstIndex positive (by omega)
    exact (ih (c := c.appendOne entry) (by omega) rest (by omega)).trans after

/-- A batch that goes on where the log ends. -/
theorem appendEntries_extends (batch : List Entry) (holds : c.Holds first log)
    (reach : first + log.length ≤ c.lastIndex + 1) (consecutive : Consecutive (first + log.length) batch) :
    (c.appendEntries batch).Holds first (log ++ batch) := by
  induction batch generalizing c log with
  | nil => simpa [appendEntries] using holds
  | cons entry batch ih =>
    obtain ⟨here, rest⟩ := consecutive
    have after := appendOne_holds entry holds reach (by omega) (by omega)
    rw [List.take_of_length_le (by omega)] at after
    have last := appendOne_lastIndex c entry
    have later := ih after (by simp only [List.length_append, List.length_singleton]; omega)
      (by simpa [Nat.add_assoc] using rest)
    simpa [appendEntries] using later

/-- A batch that goes on anywhere in the log, or right behind it. -/
theorem appendEntries_holds (holds : c.Holds first log) (reach : first + log.length ≤ c.lastIndex + 1)
    (nonempty : batch ≠ []) (consecutive : Consecutive start batch) (above : first ≤ start)
    (next : start ≤ first + log.length) :
    (c.appendEntries batch).Holds first (log.take (start - first) ++ batch) := by
  obtain ⟨entry, batch, rfl⟩ := List.exists_cons_of_ne_nil nonempty
  obtain ⟨here, rest⟩ := consecutive
  have after := appendOne_holds entry holds reach (by omega) (by omega)
  have last := appendOne_lastIndex c entry
  rw [here] at after last
  have length : (log.take (start - first) ++ [entry]).length = start - first + 1 := by
    simp only [List.length_append, List.length_take, List.length_singleton]
    omega
  have later := appendEntries_extends batch after (by omega)
    (by rw [length, show first + (start - first + 1) = start + 1 by omega]; exact rest)
  simpa [appendEntries] using later

/-- A batch that starts in a dense log or right behind it replaces the log from
there on. The last index is that of the batch, and the log dense again, exactly if
the batch reaches to the end of the old log. -/
theorem append_truncates_unless_shorter (c : StorageCore) (log batch : List Entry) (start : Nat) (dense : c.Dense log)
    (positive : 0 < c.firstIndex) (nonempty : batch ≠ []) (consecutive : Consecutive start batch)
    (above : c.firstIndex ≤ start) (next : start ≤ c.lastIndex + 1) :
    (c.appendEntries batch).Holds c.firstIndex (log.take (start - c.firstIndex) ++ batch) ∧
    (c.appendEntries batch).firstIndex = c.firstIndex ∧
    (c.appendEntries batch).lastIndex = max c.lastIndex (batch.getLast nonempty).index.toNat ∧
    ((c.appendEntries batch).lastIndex = (batch.getLast nonempty).index.toNat ↔
      c.lastIndex ≤ (batch.getLast nonempty).index.toNat) ∧
    ((c.appendEntries batch).Dense (log.take (start - c.firstIndex) ++ batch) ↔
      c.lastIndex ≤ (batch.getLast nonempty).index.toNat) := by
  have last := dense.last
  have ending := consecutive.index_getLast nonempty
  have holds := appendEntries_holds dense.holds (by omega) nonempty consecutive above (by omega)
  have firstIndex := appendEntries_firstIndex positive consecutive above
  have lastIndex := appendEntries_lastIndex consecutive next
  have grown : (c.appendEntries batch).lastIndex = max c.lastIndex (batch.getLast nonempty).index.toNat := by omega
  refine ⟨holds, firstIndex, grown, by omega, fun whole => ?_, fun covers => ⟨firstIndex ▸ holds, ?_⟩⟩
  all_goals
    have length : (log.take (start - c.firstIndex) ++ batch).length = start - c.firstIndex + batch.length := by
      simp only [List.length_append, List.length_take]
      omega
  · have dense' := whole.last
    omega
  · omega

/-! ### A longer and a shorter batch -/

/-- An entry without data. -/
def entryAt (term index : UInt64) : Entry := ⟨term, index, .normal, none⟩

private def oldLog : List Entry := [entryAt 1 1, entryAt 1 2, entryAt 1 3, entryAt 1 4, entryAt 1 5]

/-- A storage with this log, which starts at 1, and nothing else. -/
def storageWith (log : List Entry) : StorageCore where
  entries := .collect (fun entry => entry.index.toNat) id log
  hardState := {}
  confState := {}
  snapshotMeta := {}
  firstIndex := 1
  lastIndex := log.length
  wal := ⟨.empty, [], ⟨1, 0, 0, true⟩, 1, 0⟩
  writeBuffer := []
  flushThreshold := 100
  jobIndex := .empty
  snapshotFile := none

theorem storageWith_dense (consecutive : Consecutive 1 log) : (storageWith log).Dense log where
  holds := by
    refine ⟨consecutive, fun index entry => (FinMap.get_collect_iff consecutive.indices_nodup).trans ⟨?_, ?_⟩⟩
    · rintro ⟨_, member, found, rfl⟩
      exact ⟨member, found⟩
    · rintro ⟨member, found⟩
      exact ⟨entry, member, found, rfl⟩
  last := Nat.add_comm _ _

private theorem oldLog_dense : (storageWith oldLog).Dense oldLog :=
  storageWith_dense ⟨rfl, rfl, rfl, rfl, rfl, trivial⟩

/-- A new leader overwrites the entries from 4 on and goes one further. -/
theorem longer_batch_replaces_tail :
    ((storageWith oldLog).appendEntries [entryAt 2 4, entryAt 2 5, entryAt 2 6]).Dense
      [entryAt 1 1, entryAt 1 2, entryAt 1 3, entryAt 2 4, entryAt 2 5, entryAt 2 6] ∧
    ((storageWith oldLog).appendEntries [entryAt 2 4, entryAt 2 5, entryAt 2 6]).lastIndex = 6 := by
  obtain ⟨_, _, _, last, dense⟩ := append_truncates_unless_shorter (storageWith oldLog) oldLog
    [entryAt 2 4, entryAt 2 5, entryAt 2 6] 4 oldLog_dense Nat.one_pos (by simp) ⟨rfl, rfl, rfl, trivial⟩
    (by decide) (by decide)
  exact ⟨dense.mpr (by decide), last.mpr (by decide)⟩

/-- A new leader overwrites the entries from 3 on with one entry. The log ends
there, but the last index is still 5, and 4 and 5 cannot be read. -/
theorem shorter_batch_keeps_last_index :
    (storageWith oldLog).Dense oldLog ∧
    ((storageWith oldLog).appendEntries [entryAt 2 3]).lastIndex = 5 ∧
    ((storageWith oldLog).appendEntries [entryAt 2 3]).entries.get 4 = none ∧
    ((storageWith oldLog).appendEntries [entryAt 2 3]).entries.get 5 = none ∧
    ((storageWith oldLog).appendEntries [entryAt 2 3]).term 5 = .error .unavailable ∧
    ((storageWith oldLog).appendEntries [entryAt 2 3]).entriesBetween (fun _ => 1) 1 6 0 = .error .unavailable :=
  ⟨oldLog_dense, rfl, rfl, rfl, rfl, rfl⟩

end StorageCore
end Cue.Cluster
