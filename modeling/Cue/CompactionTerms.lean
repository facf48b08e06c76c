import Cue.Compaction

/-! The terms that raft reads after compaction. The entries that stay have the terms
they had. The term of the snapshot, which stands for the last entry that was
removed, is the term of the hard state, and that is the entry's own term only while
no other term has begun since. -/
namespace Cue.Cluster
open Cue.Lib Cue.Model

/-! ### The indices after a cut -/

namespace StorageCore

variable {c c' : StorageCore} {index : Nat} {entry : Entry}

/-- Every entry lies between the two indices. -/
theorem updateIndices_bounds (found : c.entries.get index = some entry) :
    c.updateIndices.firstIndex ≤ entry.index.toNat ∧ entry.index.toNat ≤ c.updateIndices.lastIndex := by
  have member : entry.index.toNat ∈ c.entries.pairs.map fun (pair : Nat × Entry) => pair.2.index.toNat :=
    List.mem_map.mpr ⟨(index, entry), (FinMap.mem_pairs _ _ _).mpr found, rfl⟩
  unfold updateIndices
  dsimp only
  rw [if_neg (List.ne_nil_of_mem member)]
  rw [List.foldl_min, List.foldl_max]
  exact ⟨(Nat.min_le_right _ _).trans (List.min?_getD_le_of_mem member),
    (List.le_max?_getD_of_mem member).trans (Nat.le_max_right _ _)⟩

/-- A log that is cut: its entries are stored under their indices, there is one for
every index from the cut to the last one, and the cut is not behind the snapshot. -/
structure CutInside (c : StorageCore) : Prop where
  cuts : c.firstIndex < c.findFirstIndexToKeep
  keyed : ∀ index entry, c.entries.get index = some entry → entry.index.toNat = index
  present : ∀ index, c.findFirstIndexToKeep ≤ index → index ≤ c.lastIndex → ∃ entry, c.entries.get index = some entry
  within : c.findFirstIndexToKeep ≤ c.lastIndex + 1
  behind : c.snapshotMeta.index < c.findFirstIndexToKeep

/-- What a cut leaves for `Term`. -/
theorem compact_cut (cuts : c.firstIndex < c.findFirstIndexToKeep) (ok : c.compact = .ok c') :
    c'.snapshotMeta.index = c.findFirstIndexToKeep - 1 ∧ c'.snapshotMeta.term = c.hardState.term ∧
    (∀ index entry, c'.entries.get index = some entry ↔
      c.entries.get index = some entry ∧ c.findFirstIndexToKeep ≤ entry.index.toNat) ∧
    ∀ index entry, c'.entries.get index = some entry →
      c'.firstIndex ≤ entry.index.toNat ∧ entry.index.toNat ≤ c'.lastIndex := by
  unfold compact at ok
  simp only [if_neg (Nat.not_le.mpr cuts)] at ok
  split at ok
  · cases ok
  · cases ok
    refine ⟨rfl, by simp, fun index entry => ?_, fun index entry found => updateIndices_bounds (by simpa using found)⟩
    simp only [updateIndices_entries]
    rw [FinMap.get_filter_some]
    simp only [decide_eq_true_eq, Nat.not_lt]

/-- An entry that stays has the term it had. -/
theorem term_of_kept (inside : c.CutInside) (ok : c.compact = .ok c') (kept : c.findFirstIndexToKeep ≤ index)
    (below : index ≤ c.lastIndex) : c'.term index = c.term index := by
  obtain ⟨snapshot, _, stays, bounds⟩ := compact_cut inside.cuts ok
  obtain ⟨entry, found⟩ := inside.present index kept below
  have here := inside.keyed index entry found
  have found' := (stays index entry).mpr ⟨found, here ▸ kept⟩
  have between := bounds index entry found'
  have cuts := inside.cuts
  have behind := inside.behind
  have before : c.term index = .ok entry.term.toNat := by
    unfold term
    rw [if_neg (by omega), if_neg (by omega), if_neg (by omega), if_neg (by omega), found]
  have after : c'.term index = .ok entry.term.toNat := by
    unfold term
    rw [if_neg (by omega), if_neg (by omega), if_neg (by omega), if_neg (by omega), found']
  rw [before, after]

/-- Three entries of these terms; the job of the first one was done by the second. -/
private def threeEntries (first second third : UInt64) (current : Nat) : StorageCore :=
  { freshCore 100 0 with
    entries := .collect (fun entry => entry.index.toNat) id
      [⟨first, 1, .normal, none⟩, ⟨second, 2, .normal, none⟩, ⟨third, 3, .normal, none⟩]
    hardState := { term := current }
    lastIndex := 3
    jobIndex := FinMap.empty.set "a" ⟨1, 2, .done⟩ }

private theorem threeEntries_cut (first second third : UInt64) (current : Nat) :
    (threeEntries first second third current).CutInside := by
  have keep : (threeEntries first second third current).findFirstIndexToKeep = 3 := rfl
  refine ⟨by rw [keep]; exact Nat.lt_of_sub_eq_succ rfl, fun index entry found => ?_, fun index above below => ?_,
    ?_, ?_⟩
  · obtain ⟨_, _, here, rfl⟩ := (FinMap.get_collect_iff (by simp)).mp found
    exact here
  · have three : index = 3 := Nat.le_antisymm below (keep ▸ above)
    subst three
    exact ⟨_, rfl⟩
  · exact Nat.le_succ 3
  · exact Nat.succ_pos 2

private theorem oneTerm_compacts : (threeEntries 1 1 1 1).compact.toOption.isSome = true := rfl

private theorem oneTerm_compact :
    (threeEntries 1 1 1 1).compact = .ok ((threeEntries 1 1 1 1).compact.toOption.get oneTerm_compacts) := rfl

private theorem nextTerm_compacts : (threeEntries 1 1 2 2).compact.toOption.isSome = true := rfl

end StorageCore

/-- In a run of the storage, whatever the hard state, a cut is such a cut. -/
theorem Memory.cutInside {first cut : Nat} {log : Log} (memory : Memory first cut log) (hs : HardState)
    (cuts : log.core.firstIndex < log.core.findFirstIndexToKeep) : (log.core.setHardState hs).CutInside := by
  obtain ⟨later, low, high, right, _⟩ := memory.cut_bounds cuts
  have counted := memory.counted
  have snapshot := memory.snapshot
  refine ⟨cuts, fun index entry found => ((memory.present index entry).mp found).2.1, fun index above below => ?_,
    ?_, ?_⟩
  · change log.core.findFirstIndexToKeep ≤ index at above
    change index ≤ log.core.lastIndex at below
    obtain ⟨entry, member, found⟩ := memory.consecutive.exists_mem (show first ≤ index by omega) (by omega)
    exact ⟨entry, (memory.present index entry).mpr ⟨member, found, by omega⟩⟩
  · change log.core.findFirstIndexToKeep ≤ log.core.lastIndex + 1
    omega
  · change log.core.snapshotMeta.index < log.core.findFirstIndexToKeep
    omega

end Cue.Cluster
