import Cue.Compaction
import Cue.ConflictingAppend

/-! What a snapshot from the leader does to the log. `InstallSnapshot` replaces the
metadata that `Term` reads. The entries, the two indices and the configuration are
other fields, and they stay: the log still ends where it ended, and what is appended
behind the snapshot leaves a gap. Only when the storage is opened again from the
metadata file do the indices follow the snapshot. -/
namespace Cue.Cluster
open Cue.Lib Cue.Model

namespace StorageCore

variable {c : StorageCore} {log batch : List Entry} {start : Nat}

/-- All entries from `lo` to before `hi` can be read, whatever their sizes. -/
def Available (c : StorageCore) (lo hi : Nat) : Prop := ∀ size, ∃ entries, c.entriesBetween size lo hi 0 = .ok entries

/-- Without a limit the loop of `Entries` passes every index. -/
theorem present_of_collectEntries {size : Entry → Nat} {idx left total : Nat} {entries : List Entry}
    (collected : c.collectEntries size 0 idx left total = .ok entries) :
    ∀ index, idx ≤ index → index < idx + left → ∃ entry, c.entries.get index = some entry := by
  induction left generalizing idx total entries with
  | zero =>
    intro index low high
    omega
  | succ left ih =>
    intro index low high
    unfold collectEntries at collected
    split at collected
    · cases collected
    · rename_i entry found
      rw [if_neg (by omega)] at collected
      split at collected
      · cases collected
      · rename_i rest
        by_cases here : index = idx
        · exact ⟨entry, here ▸ found⟩
        · exact ih rest index (by omega) (by omega)

theorem available_iff {lo hi : Nat} (above : c.firstIndex ≤ lo) (below : hi ≤ c.lastIndex + 1) :
    c.Available lo hi ↔ ∀ index, lo ≤ index → index < hi → ∃ entry, c.entries.get index = some entry := by
  have inside (size : Entry → Nat) : c.entriesBetween size lo hi 0 = c.collectEntries size 0 lo (hi - lo) 0 := by
    rw [entriesBetween, if_neg (Nat.not_lt.mpr above), if_neg (Nat.not_lt.mpr below)]
  constructor
  · intro available index low high
    obtain ⟨entries, returned⟩ := available fun _ => 0
    rw [inside] at returned
    exact present_of_collectEntries returned index low (by omega)
  · intro present size
    rw [inside]
    exact collectEntries_ok c size 0 lo (hi - lo) 0 fun index low high => present index low (by omega)

theorem Dense.exists_entry (dense : c.Dense log) {index : Nat} (low : c.firstIndex ≤ index)
    (high : index ≤ c.lastIndex) : ∃ entry, c.entries.get index = some entry := by
  have last := dense.last
  obtain ⟨entry, member, here⟩ := dense.holds.consecutive.exists_mem low (by omega)
  exact ⟨entry, (dense.holds.present index entry).mpr ⟨member, here⟩⟩

theorem Dense.none_behind (dense : c.Dense log) {index : Nat} (high : c.lastIndex < index) :
    c.entries.get index = none := by
  cases found : c.entries.get index with
  | none => rfl
  | some entry =>
    obtain ⟨member, here⟩ := (dense.holds.present index entry).mp found
    have bounds := dense.holds.consecutive.bounds member
    have last := dense.last
    omega

/-- In a dense log every range can be read. -/
theorem Dense.available (dense : c.Dense log) {lo hi : Nat} (above : c.firstIndex ≤ lo) (below : hi ≤ c.lastIndex + 1) :
    c.Available lo hi :=
  (available_iff above below).mpr fun _ low high => dense.exists_entry (Nat.le_trans above low) (by omega)

/-! ### Appending behind a gap -/

theorem appendEntries_beyond (consecutive : Consecutive start batch) (beyond : c.lastIndex < start) :
    (∀ index, (c.appendEntries batch).entries.get index =
      if start ≤ index ∧ index < start + batch.length then batch[index - start]? else c.entries.get index) ∧
    (c.appendEntries batch).lastIndex = if batch = [] then c.lastIndex else start + batch.length - 1 := by
  induction batch generalizing c start with
  | nil =>
    refine ⟨fun index => ?_, rfl⟩
    rw [if_neg (by simp)]
    rfl
  | cons entry batch ih =>
    obtain ⟨here, rest⟩ := consecutive
    have last : (c.appendOne entry).lastIndex = start := by
      rw [appendOne_lastIndex]
      omega
    have stored (index : Nat) :
        (c.appendOne entry).entries.get index = if index = start then some entry else c.entries.get index := by
      simp only [appendOne, here, if_neg (Nat.not_le.mpr beyond), FinMap.get_set]
    obtain ⟨entries, ends⟩ := ih (c := c.appendOne entry) rest (by omega)
    simp only [appendEntries, List.foldl_cons, List.length_cons] at entries ends ⊢
    refine ⟨fun index => ?_, ?_⟩
    · rw [entries, stored]
      by_cases first : index = start
      · subst first
        rw [if_neg (by omega), if_pos rfl, if_pos (by omega), Nat.sub_self]
        rfl
      · rw [if_neg first]
        by_cases inside : start + 1 ≤ index ∧ index < start + 1 + batch.length
        · rw [if_pos inside, if_pos (by omega), show index - start = index - (start + 1) + 1 by omega]
          rfl
        · rw [if_neg inside, if_neg (by omega)]
    · rw [ends, if_neg (List.cons_ne_nil _ _)]
      split
      · rename_i nothing
        rw [last, nothing]
        simp
      · omega

/-! ### The live storage -/

/-- A snapshot that lies behind the log gives `Term` its term. The indices stay,
neither of which is the snapshot's, and so does the configuration. When entries are
appended behind the snapshot, a range of them or of the old log can be read, but no
range that touches the gap. -/
theorem installSnapshot_keeps_log (c : StorageCore) (log : List Entry) (dense : c.Dense log)
    (positive : 0 < c.firstIndex)
    (snapshot : SnapshotMetadata) (beyond : c.lastIndex < snapshot.index) (batch : List Entry)
    (consecutive : Consecutive (snapshot.index + 1) batch) :
    (c.installSnapshot snapshot).term snapshot.index = .ok snapshot.term ∧
    (c.installSnapshot snapshot).firstIndex = c.firstIndex ∧ c.firstIndex ≠ snapshot.index + 1 ∧
    (c.installSnapshot snapshot).lastIndex = c.lastIndex ∧ c.lastIndex ≠ snapshot.index ∧
    ((c.installSnapshot snapshot).initialState.2 = snapshot.confState ↔ c.confState = snapshot.confState) ∧
    ∀ lo hi, ((c.installSnapshot snapshot).appendEntries batch).firstIndex ≤ lo → lo < hi →
      hi ≤ ((c.installSnapshot snapshot).appendEntries batch).lastIndex + 1 →
      (((c.installSnapshot snapshot).appendEntries batch).Available lo hi ↔
        hi ≤ c.lastIndex + 1 ∨ snapshot.index < lo) := by
  have last := dense.last
  refine ⟨if_pos rfl, rfl, by omega, rfl, by omega, Iff.rfl, fun lo hi above some below => ?_⟩
  have behind : (c.installSnapshot snapshot).lastIndex < snapshot.index + 1 := Nat.lt_succ_of_lt beyond
  obtain ⟨entries, ends⟩ := appendEntries_beyond consecutive behind
  have first := appendEntries_firstIndex (c := c.installSnapshot snapshot) positive consecutive
    (show c.firstIndex ≤ snapshot.index + 1 by omega)
  have start : c.firstIndex ≤ lo := first ▸ above
  have stop : hi ≤ c.lastIndex + 1 ∨ hi ≤ snapshot.index + 1 + batch.length := by
    rw [ends] at below
    split at below
    · exact Or.inl below
    · omega
  rw [available_iff above below]
  constructor
  · intro present
    by_contra touches
    -- the first index of the range that is in the gap
    obtain ⟨entry, found⟩ := present (max lo (c.lastIndex + 1)) (by omega) (by omega)
    rw [entries, if_neg (by omega)] at found
    cases found.symm.trans (dense.none_behind (by omega))
  · intro apart index low high
    rw [entries]
    split
    · rename_i inside
      exact ⟨batch[index - (snapshot.index + 1)], List.getElem?_eq_getElem (by omega)⟩
    · exact dense.exists_entry (by omega) (by omega)

/-- Two entries and a snapshot at 8, behind which two entries are appended: ranges
before and behind the gap are read. -/
theorem ranges_beside_gap_available :
    ((storageWith [entryAt 1 1, entryAt 1 2]).installSnapshot ⟨8, 3, {}⟩).term 8 = .ok 3 ∧
    (((storageWith [entryAt 1 1, entryAt 1 2]).installSnapshot ⟨8, 3, {}⟩).appendEntries
      [entryAt 3 9, entryAt 3 10]).Available 1 3 ∧
    (((storageWith [entryAt 1 1, entryAt 1 2]).installSnapshot ⟨8, 3, {}⟩).appendEntries
      [entryAt 3 9, entryAt 3 10]).Available 9 11 := by
  obtain ⟨term, _, _, _, _, _, ranges⟩ := installSnapshot_keeps_log (storageWith [entryAt 1 1, entryAt 1 2])
    [entryAt 1 1, entryAt 1 2] (storageWith_dense ⟨rfl, rfl, trivial⟩) Nat.one_pos ⟨8, 3, {}⟩ (by decide)
    [entryAt 3 9, entryAt 3 10] ⟨rfl, rfl, trivial⟩
  exact ⟨term, (ranges 1 3 (by decide) (by decide) (by decide)).mpr (Or.inl (by decide)),
    (ranges 9 11 (by decide) (by decide) (by decide)).mpr (Or.inr (by decide))⟩

/-- The snapshot is at 8 and knows a voter. The log still goes from 1 to 2, the voter is
not known, and after an append at 9 what is to be between the two cannot be read. -/
theorem installed_snapshot_leaves_gap :
    ((storageWith [entryAt 1 1, entryAt 1 2]).installSnapshot ⟨8, 3, ⟨[7], []⟩⟩).firstIndex = 1 ∧
    ((storageWith [entryAt 1 1, entryAt 1 2]).installSnapshot ⟨8, 3, ⟨[7], []⟩⟩).lastIndex = 2 ∧
    ((storageWith [entryAt 1 1, entryAt 1 2]).installSnapshot ⟨8, 3, ⟨[7], []⟩⟩).initialState.2 = {} ∧
    (((storageWith [entryAt 1 1, entryAt 1 2]).installSnapshot ⟨8, 3, ⟨[7], []⟩⟩).appendEntries
      [entryAt 3 9]).entriesBetween (fun _ => 1) 1 10 0 = .error .unavailable :=
  ⟨rfl, rfl, rfl, rfl⟩

/-! ### After a restart -/

/-- A storage without entries starts and ends at its snapshot, and takes what follows. -/
theorem dense_of_empty {first : Nat} (none : ∀ index, c.entries.get index = none) (starts : c.firstIndex = first + 1)
    (ends : c.lastIndex = first) (consecutive : Consecutive (first + 1) batch) :
    (c.appendEntries batch).Dense batch := by
  have empty : c.Holds (first + 1) [] := ⟨trivial, fun index entry => by simp [none]⟩
  have holds := appendEntries_extends batch empty (by simp [ends]) consecutive
  have start := appendEntries_firstIndex (c := c) (by omega) consecutive (by omega)
  have last := appendEntries_lastIndex (c := c) consecutive (by omega)
  rw [List.nil_append] at holds
  refine ⟨?_, ?_⟩
  · rw [start, starts]
    exact holds
  · rw [last, start]
    omega

/-- If the write-ahead log has nothing behind the snapshot, the storage that is opened
next time starts right behind it, and every range of what is appended can be read. The
configuration is not read from the file. -/
theorem reopened_at_snapshot {codec : Codec} (c : StorageCore) (snapshot : SnapshotMetadata)
    {flushThreshold segmentSize : Nat} {wal : SegmentedWAL} (opened : newSegmentedWal c.wal.dir segmentSize = .ok wal)
    (nothing : wal.recover codec snapshot.index = .ok []) :
    ∃ core, newRaftStorage codec (c.installSnapshot snapshot).disk flushThreshold segmentSize = .ok core ∧
      core.firstIndex = snapshot.index + 1 ∧ core.lastIndex = snapshot.index ∧
      core.term snapshot.index = .ok snapshot.term ∧ core.initialState.2 = {} ∧
      ∀ batch, Consecutive (snapshot.index + 1) batch → ∀ lo hi, (core.appendEntries batch).firstIndex ≤ lo →
        hi ≤ (core.appendEntries batch).lastIndex + 1 → (core.appendEntries batch).Available lo hi := by
  unfold newRaftStorage
  simp only [disk, installSnapshot, opened, Option.getD_some, recover, nothing, List.foldl_nil]
  refine ⟨_, rfl, rfl, rfl, if_pos rfl, rfl, fun batch consecutive lo hi above below => ?_⟩
  exact (dense_of_empty (fun _ => rfl) rfl rfl consecutive).available above below

end StorageCore
end Cue.Cluster
