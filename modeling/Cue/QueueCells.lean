import Cue.ProcessQueueProofs

/-! Through every sequence of operations with whatever arguments, the first
`liveCount` cells of the queue hold records that know their cell and the rest
are tombstones. Moving the last record into a hole changes only its `Cell`, so
a record is followed by what it carries besides that. -/
namespace Cue.State.ProcessQueue
open Cue.Lib

inductive QueueOp where
  | addNewJob (job : JobRef)
  | removeByCellIndex (cell : Int)
  | removeCells (cells : List JobRef)
  | updateRetry (cell retryCount delaySec now : Int)

/-- The queue after an operation; a full queue is left as it is. -/
def apply (pq : ProcessQueue) : QueueOp → ProcessQueue
  | .addNewJob job => (pq.addNewJob job).getD pq
  | .removeByCellIndex cell => pq.removeByCellIndex cell
  | .removeCells cells => pq.removeCells cells
  | .updateRetry cell retryCount delaySec now => pq.updateRetry cell retryCount delaySec now

theorem apply_valid {pq : ProcessQueue} (op : QueueOp) (valid : pq.Valid) :
    (pq.apply op).Valid ∧ (pq.apply op).records.length = pq.records.length := by
  cases op with
  | addNewJob job =>
    cases added : pq.addNewJob job with
    | none =>
      simp only [apply, added, Option.getD_none]
      exact ⟨valid, trivial⟩
    | some pq' =>
      obtain ⟨_, valid', length, _⟩ := addNewJob_live valid added
      simp only [apply, added, Option.getD_some]
      exact ⟨valid', length⟩
  | removeByCellIndex cell => exact ⟨removeByCellIndex_valid cell valid, records_length_removeByCellIndex pq cell⟩
  | removeCells cells => exact ⟨removeCells_valid cells valid, records_length_removeCells pq cells⟩
  | updateRetry cell retryCount delaySec now =>
    exact ⟨updateRetry_valid _ _ _ _ valid, records_length_updateRetry _ _ _ _ _⟩

/-- The queue after a sequence of operations. -/
def applyAll (pq : ProcessQueue) (ops : List QueueOp) : ProcessQueue := ops.foldl apply pq

theorem applyAll_valid {pq : ProcessQueue} (ops : List QueueOp) (valid : pq.Valid) :
    (pq.applyAll ops).Valid ∧ (pq.applyAll ops).records.length = pq.records.length := by
  induction ops generalizing pq with
  | nil => exact ⟨valid, rfl⟩
  | cons op ops ih =>
    obtain ⟨kept, length⟩ := apply_valid op valid
    obtain ⟨after, same⟩ := ih kept
    exact ⟨after, same.trans length⟩

/-- What a record carries wherever it sits. -/
def carried (job : JobRef) : Int × Int × Int := (job.index, job.retryCount, job.dueTimeSec)

/-- What each operation does to the records of a queue. -/
structure Effects (pq : ProcessQueue) : Prop where
  added : ∀ job, (pq.liveCount = pq.records.length ∧ pq.addNewJob job = none ∧ pq.apply (.addNewJob job) = pq) ∨
    ∃ pq', pq.addNewJob job = some pq' ∧ pq'.live = pq.live ++ [{ job with cell := pq.liveCount }]
  removed : ∀ (c : Nat) job, pq.live[c]? = some job →
    (pq.live.map carried).Perm (carried job :: (pq.removeByCellIndex c).live.map carried)
  absent : ∀ cell : Int, cell < 0 ∨ pq.liveCount ≤ cell → pq.removeByCellIndex cell = pq
  retried : ∀ (c : Nat) retryCount delaySec now, c < pq.liveCount →
    (pq.updateRetry c retryCount delaySec now).liveCount = pq.liveCount ∧
    ∀ k : Nat, (pq.updateRetry c retryCount delaySec now).records[k]? = if k = c then (pq.records[k]?).map fun job =>
      { job with retryCount := retryCount, dueTimeSec := now + delaySec } else pq.records[k]?
  invalid : ∀ cell retryCount delaySec now : Int, cell < 0 ∨ pq.liveCount ≤ cell →
    pq.updateRetry cell retryCount delaySec now = pq

theorem removed_perm {pq : ProcessQueue} {c : Nat} {job : JobRef} (valid : pq.Valid) (found : pq.live[c]? = some job) :
    (pq.live.map carried).Perm (carried job :: (pq.removeByCellIndex c).live.map carried) := by
  obtain ⟨inside, here⟩ := List.getElem?_eq_some_iff.mp found
  have bound : c < (pq.live.map carried).length := by simpa using inside
  rw [map_live_removeByCellIndex carried (fun _ _ => rfl) c valid]
  have split := (List.getElem_cons_eraseIdx_perm bound).symm
  rw [List.getElem_map, here] at split
  exact split.trans ((swapRemove_perm bound).symm.cons _)

theorem Valid.effects {pq : ProcessQueue} (valid : pq.Valid) : pq.Effects where
  added := by
    intro job
    cases added : pq.addNewJob job with
    | none => exact .inl ⟨(addNewJob_none valid).mp added, rfl, by simp only [apply, added, Option.getD_none]⟩
    | some pq' => exact .inr ⟨pq', rfl, (addNewJob_live valid added).1⟩
  removed := fun _ _ found => removed_perm valid found
  absent := fun _ out => if_pos out
  retried := by
    intro c retryCount delaySec now inside
    unfold updateRetry
    rw [if_neg (by omega)]
    refine ⟨rfl, fun k => ?_⟩
    simp only [List.getElem?_modify, Int.toNat_natCast, eq_comm]
    split <;> simp
  invalid := fun _ _ _ _ out => if_pos out

/-- After any operations on a new queue, the cells below `liveCount` hold
records with their own position, the others are tombstones, and each operation
adds, removes or changes exactly the record it is meant for. -/
theorem queue_cells (capacity : Nat) (ops : List QueueOp) :
    let pq := (new capacity).applyAll ops
    pq.records.length = capacity ∧ pq.liveCount ≤ capacity ∧
    (∀ i : Nat, i < pq.liveCount → ∃ job, pq.records[i]? = some job ∧ job.cell = i) ∧
    (∀ i : Nat, pq.liveCount ≤ i → i < capacity → pq.records[i]? = some tombstone) ∧ pq.Effects := by
  intro pq
  obtain ⟨valid, length⟩ := applyAll_valid ops (new_valid capacity)
  have size : pq.records.length = capacity := length.trans (by simp [new])
  refine ⟨size, size ▸ valid.fits, ?_, ?_, valid.effects⟩
  · intro i below
    have inside : i < pq.records.length := Nat.lt_of_lt_of_le below valid.fits
    exact ⟨_, List.getElem?_eq_getElem inside, valid.placed i _ below (List.getElem?_eq_getElem inside)⟩
  · intro i above inside
    have slot := List.getElem?_eq_getElem (size ▸ inside : i < pq.records.length)
    rw [slot, valid.buried i _ above slot]

end Cue.State.ProcessQueue
