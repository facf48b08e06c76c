import Cue.Lib.SwapRemove
import Cue.State.ProcessQueue
import Mathlib.Data.List.Nodup

/-! The process queue is the list of its live records. Adding appends, a
removal fills the hole with the last record, and a retry changes one record in
place. A record's `cell` is its own position, so everything else about it can
be followed through removals as if it had none. -/
namespace Cue.State.ProcessQueue
open Cue.Lib

/-- The representation invariant. -/
structure Valid (pq : ProcessQueue) : Prop where
  fits : pq.liveCount ≤ pq.records.length
  placed : ∀ (i : Nat) job, i < pq.liveCount → pq.records[i]? = some job → job.cell = i
  buried : ∀ (i : Nat) job, pq.liveCount ≤ i → pq.records[i]? = some job → job = tombstone

theorem new_valid (capacity : Nat) : (new capacity).Valid where
  fits := by simp [new]
  placed := by simp [new]
  buried := by
    intro i job _ found
    exact (List.mem_replicate.mp (List.mem_of_getElem? found)).2

@[simp] theorem live_new (capacity : Nat) : (new capacity).live = [] := by simp [live, new]

theorem length_live {pq : ProcessQueue} (valid : pq.Valid) : pq.live.length = pq.liveCount := by
  simp [live, Nat.min_eq_left valid.fits]

theorem getElem?_live (pq : ProcessQueue) (i : Nat) :
    pq.live[i]? = if i < pq.liveCount then pq.records[i]? else none := by
  simp [live, List.getElem?_take]

/-- A live record knows its cell. -/
theorem cell_of_getElem?_live {pq : ProcessQueue} {i : Nat} {job : JobRef} (valid : pq.Valid)
    (found : pq.live[i]? = some job) : job.cell = i := by
  rw [getElem?_live] at found
  split at found
  · rename_i below
    exact valid.placed i job below found
  · cases found

theorem mem_live {pq : ProcessQueue} {job : JobRef} (valid : pq.Valid) :
    job ∈ pq.live ↔ 0 ≤ job.cell ∧ pq.live[job.cell.toNat]? = some job := by
  constructor
  · intro member
    obtain ⟨i, found⟩ := List.mem_iff_getElem?.mp member
    simp only [cell_of_getElem?_live valid found, Int.toNat_natCast]
    exact ⟨by omega, found⟩
  · rintro ⟨_, found⟩
    exact List.mem_of_getElem? found

theorem addNewJob_live {pq pq' : ProcessQueue} {job : JobRef} (valid : pq.Valid)
    (ok : pq.addNewJob job = some pq') :
    pq'.live = pq.live ++ [{ job with cell := pq.liveCount }] ∧ pq'.Valid ∧
      pq'.records.length = pq.records.length ∧ pq'.liveCount = pq.liveCount + 1 := by
  unfold addNewJob at ok
  split at ok
  · cases ok
  · rename_i room
    cases ok
    have bound : pq.liveCount < pq.records.length := by omega
    refine ⟨?_, ⟨by simp only [List.length_set]; omega, ?_, ?_⟩, by simp, rfl⟩
    · simp only [live]
      rw [List.take_add_one, List.getElem?_set_self bound, List.take_set,
        List.set_eq_of_length_le (List.length_take_le ..)]
      rfl
    · intro i other below found
      simp only [List.getElem?_set] at found
      split at found
      · rename_i same
        subst same
        simp only [Option.some.injEq] at found
        subst found
        rfl
      · exact valid.placed i other (by simp only at below; omega) found
    · intro i other above found
      simp only at above
      rw [List.getElem?_set_ne (by omega)] at found
      exact valid.buried i other (by omega) found

theorem addNewJob_none {pq : ProcessQueue} {job : JobRef} (valid : pq.Valid) :
    pq.addNewJob job = none ↔ pq.liveCount = pq.records.length := by
  have fits := valid.fits
  unfold addNewJob
  split
  · simp only [true_iff]
    omega
  · simp only [reduceCtorEq, false_iff]
    omega

theorem removeByCellIndex_valid {pq : ProcessQueue} (cell : Int) (valid : pq.Valid) :
    (pq.removeByCellIndex cell).Valid := by
  unfold removeByCellIndex
  split
  · exact valid
  · rename_i inside
    have fits := valid.fits
    obtain ⟨c, rfl⟩ : ∃ c : Nat, cell = c := ⟨cell.toNat, by omega⟩
    have below : c < pq.liveCount := by omega
    simp only [Int.toNat_natCast]
    refine ⟨by split <;> simp <;> omega, ?_, ?_⟩
    · intro i job low found
      simp only at low
      rw [List.getElem?_set_ne (by omega)] at found
      split at found
      · rw [List.getElem?_set] at found
        split at found
        · rename_i same
          subst same
          simp only [if_pos (show c < pq.records.length by omega), Option.some.injEq] at found
          subst found
          rfl
        · exact valid.placed i job (by omega) found
      · exact valid.placed i job (by omega) found
    · intro i job high found
      simp only at high
      by_cases last : i = pq.liveCount - 1
      · subst last
        rw [List.getElem?_set_self (by split <;> first | omega | (rw [List.length_set]; omega))] at found
        exact (Option.some.inj found).symm
      · rw [List.getElem?_set_ne (by omega)] at found
        have kept : pq.records[i]? = some job := by
          split at found
          · rwa [List.getElem?_set_ne (by omega)] at found
          · exact found
        exact valid.buried i job (by omega) kept

/-- Whatever does not look at cells sees a removal as filling the hole with
the last record. -/
theorem map_live_removeByCellIndex {β : Type} (f : JobRef → β) (blind : ∀ job cell, f { job with cell := cell } = f job)
    {pq : ProcessQueue} (c : Nat) (valid : pq.Valid) :
    (pq.removeByCellIndex c).live.map f = swapRemove (pq.live.map f) c := by
  have fits := valid.fits
  have size := length_live valid
  unfold removeByCellIndex
  by_cases inside : c < pq.liveCount
  · rw [if_neg (by omega)]
    apply List.ext_getElem?
    intro k
    rw [getElem?_swapRemove (by simpa [size] using inside)]
    simp only [List.getElem?_map, getElem?_live, List.length_map, size, Int.toNat_natCast]
    by_cases short : k + 1 < pq.liveCount
    · have below : k < pq.liveCount - 1 := by omega
      rw [if_pos below, if_pos short, List.getElem?_set_ne (by omega)]
      have last : pq.records[pq.liveCount - 1]? = some (pq.records.getD (pq.liveCount - 1) tombstone) := by
        rw [List.getD_eq_getElem?_getD, List.getElem?_eq_getElem (by omega)]
        rfl
      by_cases hole : k = c
      · subst hole
        have apart : ((k : Nat) : Int) ≠ ((pq.liveCount - 1 : Nat) : Int) := by omega
        have final : pq.liveCount - 1 < pq.liveCount := by omega
        have bound : k < pq.records.length := by omega
        simp only [apart, ne_eq, not_false_eq_true, ↓reduceIte, List.getElem?_set_self bound, final, last,
          Option.map_some, blind]
      · have here : k < pq.liveCount := by omega
        simp only [hole, here, ↓reduceIte]
        split
        · rw [List.getElem?_set_ne (Ne.symm hole)]
        · rfl
    · rw [if_neg (by omega), if_neg short]
      rfl
  · rw [if_pos (by omega), swapRemove_of_ge (by simp [size]; omega)]

theorem removeCells_valid {pq : ProcessQueue} (cells : List JobRef) (valid : pq.Valid) :
    (pq.removeCells cells).Valid := by
  induction cells with
  | nil => exact valid
  | cons ref cells ih => exact removeByCellIndex_valid ref.cell ih

theorem map_live_removeCells {β : Type} (f : JobRef → β) (blind : ∀ job cell, f { job with cell := cell } = f job)
    {pq : ProcessQueue} (cells : List JobRef) (valid : pq.Valid) (natural : ∀ ref ∈ cells, 0 ≤ ref.cell) :
    (pq.removeCells cells).live.map f =
      swapRemoveAll (pq.live.map f) (cells.map fun ref => ref.cell.toNat) := by
  induction cells with
  | nil => rfl
  | cons ref cells ih =>
    have tail := ih fun other member => natural other (List.mem_cons_of_mem _ member)
    have cell : ((ref.cell.toNat : Nat) : Int) = ref.cell := Int.toNat_of_nonneg (natural ref (by simp))
    have step := map_live_removeByCellIndex f blind ref.cell.toNat (removeCells_valid cells valid)
    rw [cell, tail] at step
    simpa [removeCells, swapRemoveAll] using step

theorem records_length_removeByCellIndex (pq : ProcessQueue) (cell : Int) :
    (pq.removeByCellIndex cell).records.length = pq.records.length := by
  unfold removeByCellIndex
  split
  · rfl
  · simp only [List.length_set]
    split <;> simp

theorem records_length_removeCells (pq : ProcessQueue) (cells : List JobRef) :
    (pq.removeCells cells).records.length = pq.records.length := by
  induction cells with
  | nil => rfl
  | cons ref cells ih => exact (records_length_removeByCellIndex _ _).trans ih

theorem updateRetry_valid {pq : ProcessQueue} (cell retryCount delaySec now : Int) (valid : pq.Valid) :
    (pq.updateRetry cell retryCount delaySec now).Valid := by
  unfold updateRetry
  split
  · exact valid
  · refine ⟨by simpa using valid.fits, ?_, ?_⟩
    · intro i job below found
      simp only [List.getElem?_modify] at found
      split at found
      · obtain ⟨old, held, rfl⟩ := Option.map_eq_some_iff.mp found
        exact valid.placed i old below held
      · exact valid.placed i job below (by simpa using found)
    · intro i job above found
      simp only at above
      simp only [List.getElem?_modify] at found
      split at found
      · omega
      · exact valid.buried i job above (by simpa using found)

theorem records_length_updateRetry (pq : ProcessQueue) (cell retryCount delaySec now : Int) :
    (pq.updateRetry cell retryCount delaySec now).records.length = pq.records.length := by
  unfold updateRetry
  split
  · rfl
  · simp

/-- A retry leaves alone whatever does not look at the retry count and the due time. -/
theorem map_live_updateRetry {β : Type} (f : JobRef → β)
    (blind : ∀ job retryCount due, f { job with retryCount := retryCount, dueTimeSec := due } = f job)
    (pq : ProcessQueue) (cell retryCount delaySec now : Int) :
    (pq.updateRetry cell retryCount delaySec now).live.map f = pq.live.map f := by
  unfold updateRetry
  split
  · rfl
  · apply List.ext_getElem?
    intro k
    simp only [List.getElem?_map, getElem?_live, List.getElem?_modify]
    split
    · split
      · cases pq.records[k]? <;> simp [blind]
      · simp
    · rfl

/-- A retry changes the record in its cell. -/
theorem getElem?_live_updateRetry {pq : ProcessQueue} {c : Nat} (inside : c < pq.liveCount)
    (retryCount delaySec now : Int) (k : Nat) :
    (pq.updateRetry c retryCount delaySec now).live[k]? = if k = c then (pq.live[k]?).map fun job =>
      { job with retryCount := retryCount, dueTimeSec := now + delaySec } else pq.live[k]? := by
  unfold updateRetry
  rw [if_neg (by omega)]
  simp only [getElem?_live, List.getElem?_modify, Int.toNat_natCast]
  by_cases here : k = c
  · subst here
    simp [inside]
  · have apart : ¬ c = k := fun same => here same.symm
    simp [here, apart]

/-! ### Reading a batch -/

private theorem scan_ordered (nowSec : Int) (jobs : List JobRef) (found : Oldest)
    (ordered : 0 < found.secondCount → found.oldestTime < found.secondTime) :
    0 < (jobs.foldl (Oldest.scan nowSec) found).secondCount →
      (jobs.foldl (Oldest.scan nowSec) found).oldestTime < (jobs.foldl (Oldest.scan nowSec) found).secondTime := by
  induction jobs generalizing found with
  | nil => exact ordered
  | cons job jobs ih =>
    apply ih
    unfold Oldest.scan
    dsimp only
    split
    · split
      · rename_i older
        exact fun _ => older
      · split
        · exact ordered
        · split
          · intro _
            simp only
            omega
          · split
            · intro _
              simp only
              omega
            · exact ordered
    · exact ordered

theorem mem_live_of_mem_collect {pq : ProcessQueue} {job : JobRef} {due : Int} {count : Nat}
    (member : job ∈ pq.collect due count) : job ∈ pq.live ∧ job.dueTimeSec = due := by
  have kept := List.mem_of_mem_take member
  simpa using kept

private theorem scan_due (nowSec : Int) (jobs : List JobRef) (found : Oldest)
    (oldest : 0 < found.oldestCount → found.oldestTime ≤ nowSec)
    (second : 0 < found.secondCount → found.secondTime ≤ nowSec) :
    (0 < (jobs.foldl (Oldest.scan nowSec) found).oldestCount →
      (jobs.foldl (Oldest.scan nowSec) found).oldestTime ≤ nowSec) ∧
    (0 < (jobs.foldl (Oldest.scan nowSec) found).secondCount →
      (jobs.foldl (Oldest.scan nowSec) found).secondTime ≤ nowSec) := by
  induction jobs generalizing found with
  | nil => exact ⟨oldest, second⟩
  | cons job jobs ih =>
    rw [List.foldl_cons]
    unfold Oldest.scan
    dsimp only
    split
    · rename_i due
      split
      · exact ih _ (fun _ => due) oldest
      · split
        · rename_i same
          exact ih _ (fun _ => same ▸ due) second
        · split
          · exact ih _ oldest fun _ => due
          · split
            · rename_i same
              exact ih _ oldest fun _ => same ▸ due
            · exact ih _ oldest second
    · exact ih _ oldest second

/-- A batch holds records that are due. -/
theorem due_of_mem_readBatch {pq : ProcessQueue} {count nowSec : Int} {job : JobRef}
    (member : job ∈ pq.readBatch count nowSec) : job.dueTimeSec ≤ nowSec := by
  obtain ⟨oldest, second⟩ := scan_due nowSec pq.live {} (by simp) (by simp)
  unfold readBatch at member
  dsimp only at member
  split at member
  · cases member
  · rename_i some
    have first := oldest (Nat.pos_of_ne_zero some)
    split at member
    · rename_i more
      rcases List.mem_append.mp member with early | late
      · exact (mem_live_of_mem_collect early).2 ▸ first
      · exact (mem_live_of_mem_collect late).2 ▸ second more.2
    · exact (mem_live_of_mem_collect member).2 ▸ first

/-- A batch holds live records. -/
theorem mem_live_of_mem_readBatch {pq : ProcessQueue} {count nowSec : Int} {job : JobRef}
    (member : job ∈ pq.readBatch count nowSec) : job ∈ pq.live := by
  unfold readBatch at member
  dsimp only at member
  split at member
  · cases member
  · split at member
    · rcases List.mem_append.mp member with first | second
      · exact (mem_live_of_mem_collect first).1
      · exact (mem_live_of_mem_collect second).1
    · exact (mem_live_of_mem_collect member).1

private theorem live_cells_nodup {pq : ProcessQueue} (valid : pq.Valid) :
    (pq.live.map JobRef.cell).Nodup := by
  have cells : pq.live.map JobRef.cell = (List.range pq.liveCount).map Int.ofNat := by
    apply List.ext_getElem?
    intro i
    simp only [List.getElem?_map, getElem?_live]
    by_cases below : i < pq.liveCount
    · have bound : i < pq.records.length := Nat.lt_of_lt_of_le below valid.fits
      rw [if_pos below, List.getElem?_eq_getElem bound, List.getElem?_range below]
      simp [valid.placed i _ below (List.getElem?_eq_getElem bound)]
    · rw [if_neg below, List.getElem?_eq_none (by simpa using below)]
      rfl
  rw [cells]
  exact List.nodup_range.map fun _ _ same => Int.ofNat.inj same

private theorem collect_cells_nodup {pq : ProcessQueue} (due : Int) (count : Nat) (valid : pq.Valid) :
    ((pq.collect due count).map JobRef.cell).Nodup :=
  (live_cells_nodup valid).sublist (((List.take_sublist _ _).trans List.filter_sublist).map _)

/-- Cells of records that are in the queue are positions in it. -/
theorem positions_nodup {items : List JobRef} (natural : ∀ ref ∈ items, 0 ≤ ref.cell)
    (distinct : (items.map JobRef.cell).Nodup) : (items.map fun ref => ref.cell.toNat).Nodup := by
  refine (distinct.of_map _).map_on fun ref member other inside same => ?_
  have := natural ref member
  have := natural other inside
  exact List.inj_on_of_nodup_map distinct member inside (by omega)

/-- No record is read twice in one batch. -/
theorem readBatch_cells_nodup {pq : ProcessQueue} (count nowSec : Int) (valid : pq.Valid) :
    ((pq.readBatch count nowSec).map JobRef.cell).Nodup := by
  unfold readBatch
  dsimp only
  split
  · exact List.nodup_nil
  · split
    · rename_i more
      rw [List.map_append, List.nodup_append]
      refine ⟨collect_cells_nodup _ _ valid, collect_cells_nodup _ _ valid, ?_⟩
      intro cell first cell' second same
      obtain ⟨a, aMember, rfl⟩ := List.mem_map.mp first
      obtain ⟨b, bMember, rfl⟩ := List.mem_map.mp second
      obtain ⟨aLive, aDue⟩ := mem_live_of_mem_collect aMember
      obtain ⟨bLive, bDue⟩ := mem_live_of_mem_collect bMember
      have equal : a = b := List.inj_on_of_nodup_map (live_cells_nodup valid) aLive bLive same
      have order := scan_ordered nowSec pq.live {} (by simp) more.2
      rw [equal, bDue] at aDue
      omega
    · exact collect_cells_nodup _ _ valid

end Cue.State.ProcessQueue
