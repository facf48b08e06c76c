import Cue.Cluster.EntryCodec
import Cue.ConflictingAppend

/-! What `Entries` returns under a size limit. It takes entries as long as their sizes
add up to at most the limit, so what it returns is the longest beginning of the range
that fits. When already the first entry is larger, nothing fits, and nothing is
returned, where raft expects the first entry alone. -/
namespace Cue.Cluster
open Cue.Lib Cue.Model

/-- The size of all entries of a list. -/
def totalSize (size : Entry → Nat) : List Entry → Nat
  | [] => 0
  | entry :: entries => size entry + totalSize size entries

/-- The longest beginning of the range that is not larger than the limit. -/
structure LongestWithin (size : Entry → Nat) (maxSize : Nat) (range batch : List Entry) : Prop where
  begins : batch <+: range
  fits : totalSize size batch ≤ maxSize
  longest : ∀ other, other <+: range → totalSize size other ≤ maxSize → other <+: batch

/-- What raft expects: at least one entry, and otherwise as many as fit. -/
def MeetsContract (size : Entry → Nat) (maxSize : Nat) (range batch : List Entry) : Prop :=
  batch ≠ [] ∧ (LongestWithin size maxSize range batch ∨
    ∃ entry rest, range = entry :: rest ∧ maxSize < size entry ∧ batch = [entry])

variable {size : Entry → Nat} {maxSize : Nat} {entry : Entry} {range batch log : List Entry}

/-! ### The running size -/

/-- The entries that the loop of `Entries` takes when it has a total already. -/
def takeWithin (size : Entry → Nat) (maxSize : Nat) : Nat → List Entry → List Entry
  | _, [] => []
  | total, entry :: entries =>
    if total + size entry > maxSize then []
    else entry :: takeWithin size maxSize (total + size entry) entries

theorem takeWithin_begins (total : Nat) (range : List Entry) : takeWithin size maxSize total range <+: range := by
  induction range generalizing total with
  | nil => exact List.prefix_refl _
  | cons entry range ih =>
    unfold takeWithin
    split
    · exact List.nil_prefix
    · exact List.cons_prefix_cons.mpr ⟨rfl, ih _⟩

theorem takeWithin_fits {total : Nat} (room : total ≤ maxSize) (range : List Entry) :
    total + totalSize size (takeWithin size maxSize total range) ≤ maxSize := by
  induction range generalizing total with
  | nil => exact room
  | cons entry range ih =>
    unfold takeWithin
    split
    · exact room
    · rename_i more
      have rest := ih (Nat.not_lt.mp more)
      simp only [totalSize]
      omega

theorem takeWithin_longest {total : Nat} {other : List Entry} (begins : other <+: range)
    (fits : total + totalSize size other ≤ maxSize) : other <+: takeWithin size maxSize total range := by
  induction range generalizing total other with
  | nil => exact begins
  | cons entry range ih =>
    cases other with
    | nil => exact List.nil_prefix
    | cons first other =>
      obtain ⟨rfl, later⟩ := List.cons_prefix_cons.mp begins
      simp only [totalSize] at fits
      unfold takeWithin
      rw [if_neg (by omega)]
      exact List.cons_prefix_cons.mpr ⟨rfl, ih later (by omega)⟩

theorem takeWithin_longestWithin (size : Entry → Nat) (maxSize : Nat) (range : List Entry) :
    LongestWithin size maxSize range (takeWithin size maxSize 0 range) where
  begins := takeWithin_begins 0 range
  fits := by
    have fits := @takeWithin_fits size maxSize 0 (Nat.zero_le _) range
    omega
  longest other begins fits := takeWithin_longest begins (by omega)

/-- The longest beginning that fits is what raft expects if the first entry fits. -/
theorem LongestWithin.meets_iff {rest : List Entry} (longest : LongestWithin size maxSize (entry :: rest) batch) :
    MeetsContract size maxSize (entry :: rest) batch ↔ size entry ≤ maxSize := by
  constructor
  · rintro ⟨some, _ | ⟨first, others, same, large, alone⟩⟩
    · obtain ⟨first, others, rfl⟩ := List.exists_cons_of_ne_nil some
      obtain ⟨rfl, _⟩ := List.cons_prefix_cons.mp longest.begins
      have fits := longest.fits
      simp only [totalSize] at fits
      omega
    · have fits := longest.fits
      obtain ⟨rfl, rfl⟩ := List.cons.inj same
      rw [alone] at fits
      simpa [totalSize] using fits
  · intro fits
    have first : [entry] <+: batch := longest.longest _ (List.cons_prefix_cons.mpr ⟨rfl, List.nil_prefix⟩) (by
      simpa [totalSize] using fits)
    refine ⟨?_, Or.inl longest⟩
    rintro rfl
    cases List.prefix_nil.mp first

/-! ### The loop of `Entries` -/

namespace StorageCore

variable {c : StorageCore} {first : Nat}

theorem Holds.get (holds : c.Holds first log) {index : Nat} (above : first ≤ index) :
    c.entries.get index = log[index - first]? := by
  cases found : log[index - first]? with
  | some entry =>
    have here := holds.consecutive.index_getElem? found
    exact (holds.present index entry).mpr ⟨List.mem_of_getElem? found, by omega⟩
  | none =>
    cases held : c.entries.get index with
    | none => rfl
    | some entry =>
      obtain ⟨member, here⟩ := (holds.present index entry).mp held
      have bounds := holds.consecutive.bounds member
      have beyond := List.getElem?_eq_none_iff.mp found
      omega

/-- When every entry of the range is there, the loop takes entries while they fit. -/
theorem collectEntries_eq (limited : 0 < maxSize) (range : List Entry) (idx total : Nat)
    (there : ∀ k, k < range.length → c.entries.get (idx + k) = range[k]?) :
    c.collectEntries size maxSize idx range.length total = .ok (takeWithin size maxSize total range) := by
  induction range generalizing idx total with
  | nil => rfl
  | cons entry range ih =>
    have here : c.entries.get idx = some entry := there 0 (Nat.zero_lt_succ _)
    have later := ih (idx + 1) (total + size entry) fun k below => by
      have next := there (k + 1) (Nat.succ_lt_succ below)
      rwa [← Nat.add_assoc, Nat.add_right_comm] at next
    simp only [List.length_cons, collectEntries, here, takeWithin, limited, true_and, later]
    split <;> rfl

/-- The entries of a dense log from `lo` to before `hi`. -/
def between (c : StorageCore) (log : List Entry) (lo hi : Nat) : List Entry :=
  (log.drop (lo - c.firstIndex)).take (hi - lo)

theorem Dense.length_between (dense : c.Dense log) {lo hi : Nat} (above : c.firstIndex ≤ lo)
    (below : hi ≤ c.lastIndex + 1) :
    (c.between log lo hi).length = hi - lo := by
  have last := dense.last
  simp only [between, List.length_take, List.length_drop]
  omega

theorem Dense.get_between (dense : c.Dense log) {lo hi k : Nat} (above : c.firstIndex ≤ lo)
    (inside : k < (c.between log lo hi).length) : c.entries.get (lo + k) = (c.between log lo hi)[k]? := by
  have short : k < hi - lo := Nat.lt_of_lt_of_le inside (List.length_take_le _ _)
  rw [dense.holds.get (Nat.le_add_right_of_le above), between, List.getElem?_take_of_lt short, List.getElem?_drop]
  congr 1
  omega

/-- The loop fails only for an entry that is not there. -/
theorem collectEntries_error {err : StorageError} {idx left total : Nat}
    (failed : c.collectEntries size maxSize idx left total = .error err) : err = .unavailable := by
  induction left generalizing idx total with
  | zero => cases failed
  | succ left ih =>
    unfold collectEntries at failed
    split at failed
    · exact (Except.error.inj failed).symm
    · split at failed
      · cases failed
      · split at failed
        · rename_i later
          cases failed
          exact ih later
        · cases failed

theorem entriesBetween_compacted_iff (c : StorageCore) (size : Entry → Nat) (lo hi maxSize : Nat) :
    c.entriesBetween size lo hi maxSize = .error .compacted ↔ lo < c.firstIndex := by
  unfold entriesBetween
  split
  · rename_i below
    exact iff_of_true rfl below
  · rename_i above
    refine iff_of_false (fun failed => ?_) above
    split at failed
    · cases failed
    · cases collectEntries_error failed

/-- The longest beginning of the range that fits is returned, which is what raft
expects exactly if the first entry fits; outside of the log the two errors are. -/
theorem entries_meet_contract_iff (c : StorageCore) (log : List Entry) (dense : c.Dense log) (size : Entry → Nat)
    (lo hi maxSize : Nat) :
    (c.entriesBetween size lo hi maxSize = .error .compacted ↔ lo < c.firstIndex) ∧
    (c.firstIndex ≤ lo → c.lastIndex + 1 < hi → c.entriesBetween size lo hi maxSize = .error .unavailable) ∧
    (c.firstIndex ≤ lo → lo < hi → hi ≤ c.lastIndex + 1 → 0 < maxSize →
      ∃ batch, c.entriesBetween size lo hi maxSize = .ok batch ∧
        LongestWithin size maxSize (c.between log lo hi) batch ∧
        (MeetsContract size maxSize (c.between log lo hi) batch ↔
          ∀ entry, c.entries.get lo = some entry → size entry ≤ maxSize)) := by
  refine ⟨c.entriesBetween_compacted_iff size lo hi maxSize, fun above beyond => ?_, fun above some below limited => ?_⟩
  · rw [entriesBetween, if_neg (Nat.not_lt.mpr above), if_pos beyond]
  · have length := dense.length_between above below
    have collected := @collectEntries_eq size maxSize c limited (c.between log lo hi) lo 0 fun k inside =>
      dense.get_between above inside
    have longest := takeWithin_longestWithin size maxSize (c.between log lo hi)
    refine ⟨_, ?_, longest, ?_⟩
    · rw [entriesBetween, if_neg (Nat.not_lt.mpr above), if_neg (Nat.not_lt.mpr below), ← length]
      exact collected
    · obtain ⟨first, rest, split⟩ := List.exists_cons_of_length_pos (length ▸ Nat.sub_pos_of_lt some)
      have here : c.entries.get lo = Option.some first := by
        have here := dense.get_between above (show 0 < (c.between log lo hi).length by omega)
        rwa [split] at here
      rw [split] at longest ⊢
      rw [longest.meets_iff, here]
      simp

/-- Three entries of six bytes each under a limit of 13. -/
theorem two_of_three_entries_fit :
    ∃ batch, (storageWith [entryAt 1 1, entryAt 1 2, entryAt 1 3]).entriesBetween
        (fun entry => (wireBytes entry).length) 1 4 13 = .ok batch ∧
      MeetsContract (fun entry => (wireBytes entry).length) 13 [entryAt 1 1, entryAt 1 2, entryAt 1 3] batch := by
  obtain ⟨_, _, within⟩ := entries_meet_contract_iff (storageWith [entryAt 1 1, entryAt 1 2, entryAt 1 3])
    [entryAt 1 1, entryAt 1 2, entryAt 1 3] (storageWith_dense ⟨rfl, rfl, rfl, trivial⟩)
    (fun entry => (wireBytes entry).length) 1 4 13
  obtain ⟨batch, returned, _, meets⟩ := within (Nat.le_refl 1) (by decide) (by decide) (by decide)
  refine ⟨batch, returned, meets.mpr fun entry found => ?_⟩
  cases found
  decide

/-- Nothing is returned when the first entry alone is larger than the limit. -/
theorem large_first_entry_withheld :
    (storageWith [entryAt 1 1, entryAt 1 2]).Dense [entryAt 1 1, entryAt 1 2] ∧
    (wireBytes (entryAt 1 1)).length = 6 ∧
    (storageWith [entryAt 1 1, entryAt 1 2]).entriesBetween (fun entry => (wireBytes entry).length) 1 3 4 = .ok [] ∧
    ¬ MeetsContract (fun entry => (wireBytes entry).length) 4 [entryAt 1 1, entryAt 1 2] [] :=
  ⟨storageWith_dense ⟨rfl, rfl, trivial⟩, rfl, rfl, fun meets => meets.1 rfl⟩

end StorageCore
end Cue.Cluster
