import Cue.ProcessQueueProofs

/-! Cleaning the queue after a batch. The records of a batch come in two groups by
due time, each in the order of its cells, and are removed from the last to the
first. A removal moves the last live record into the hole; when the removals of the
second group have shortened the queue to a cell of the first group or below it, the
record of that cell has been moved, and its own removal finds the cell empty. -/
namespace Cue.State.ProcessQueue
open Cue.Lib

/-- The arguments of an `UpdateRetry` call, with the clock. -/
structure Retry where
  cell : Int
  retryCount : Int
  delaySec : Int
  now : Int
  deriving DecidableEq, Repr

def retryAll (pq : ProcessQueue) (retries : List Retry) : ProcessQueue :=
  retries.foldl (fun pq retry => pq.updateRetry retry.cell retry.retryCount retry.delaySec retry.now) pq

/-- What a record says about its job, wherever it stands. -/
def content (ref : JobRef) : Int × Int × Int := (ref.index, ref.retryCount, ref.dueTimeSec)

variable {pq : ProcessQueue}

theorem retryAll_valid (retries : List Retry) (valid : pq.Valid) : (pq.retryAll retries).Valid := by
  induction retries generalizing pq with
  | nil => exact valid
  | cons retry retries ih => exact ih (updateRetry_valid _ _ _ _ valid)

theorem liveCount_retryAll (pq : ProcessQueue) (retries : List Retry) :
    (pq.retryAll retries).liveCount = pq.liveCount := by
  induction retries generalizing pq with
  | nil => rfl
  | cons retry retries ih =>
    refine (ih (pq.updateRetry retry.cell retry.retryCount retry.delaySec retry.now)).trans ?_
    unfold updateRetry
    split <;> rfl

/-- The live records whose cells are not given are those at the other positions. -/
theorem filter_live_eq_others (valid : pq.Valid) (cells : List JobRef) (natural : ∀ ref ∈ cells, 0 ≤ ref.cell) :
    pq.live.filter (fun ref => ref.cell ∉ cells.map JobRef.cell) =
      others pq.live (cells.map fun ref => ref.cell.toNat) := by
  have places : pq.live.zipIdx = pq.live.map fun ref => (ref, ref.cell.toNat) := by
    apply List.ext_getElem?
    intro i
    rw [List.getElem?_zipIdx, List.getElem?_map, Nat.zero_add]
    cases found : pq.live[i]? with
    | none => rfl
    | some ref =>
      rw [getElem?_live] at found
      split at found
      · rename_i below
        simp [valid.placed i ref below found]
      · cases found
  have same : ∀ ref ∈ pq.live, decide (ref.cell ∉ cells.map JobRef.cell) =
      decide (ref.cell.toNat ∉ cells.map fun ref => ref.cell.toNat) := by
    intro ref member
    have here := ((mem_live valid).mp member).1
    refine decide_eq_decide.mpr (not_congr ?_)
    simp only [List.mem_map]
    refine exists_congr fun other => and_congr_right fun inside => ?_
    have there := natural other inside
    omega
  rw [others, places, List.filter_map, List.map_map, List.filter_congr same]
  simp [Function.comp_def]

/-- The cells that have their turn in time, as positions and as records. -/
theorem inRange_positions_iff {count : Nat} {cells : List JobRef} (natural : ∀ ref ∈ cells, 0 ≤ ref.cell) :
    InRange count (cells.map fun ref => ref.cell.toNat) ↔
      ∀ before ref after, cells = before ++ ref :: after → ref.cell + (after.length : Int) < count := by
  constructor
  · intro turns before ref after split
    have turn := turns (before.map fun ref => ref.cell.toNat) ref.cell.toNat (after.map fun ref => ref.cell.toNat)
      (by rw [split]; simp)
    have := natural ref (by rw [split]; simp)
    rw [List.length_map] at turn
    omega
  · intro turns before cell after split
    obtain ⟨first, rest, rfl, -, restIs⟩ := List.map_eq_append_iff.mp split
    obtain ⟨ref, last, rfl, rfl, rfl⟩ := List.map_eq_cons_iff.mp restIs
    have turn := turns first ref last rfl
    have := natural ref (by simp)
    rw [List.length_map]
    omega

/-- However the batch was read and whatever was retried in between, cleaning keeps
every live record that is not given. It removes those given, and so exactly those,
if and only if each of them has its cell below the live count that is left when its
turn comes. -/
theorem removeCells_exact_iff (pq : ProcessQueue) (valid : pq.Valid) (count nowSec : Int) (cells : List JobRef)
    (read : cells.Sublist (pq.readBatch count nowSec)) (retries : List Retry) :
    (((pq.retryAll retries).live.filter fun ref => ref.cell ∉ cells.map JobRef.cell).map content).Subperm
      (((pq.retryAll retries).removeCells cells).live.map content) ∧
    ((((pq.retryAll retries).removeCells cells).live.map content).Perm
      (((pq.retryAll retries).live.filter fun ref => ref.cell ∉ cells.map JobRef.cell).map content) ↔
    ∀ before ref after, cells = before ++ ref :: after → ref.cell + (after.length : Int) < pq.liveCount) := by
  have valid' := retryAll_valid retries valid
  have counted := pq.liveCount_retryAll retries
  have size := length_live valid'
  have live ref (member : ref ∈ cells) := (mem_live valid).mp (mem_live_of_mem_readBatch (read.subset member))
  have natural ref (member : ref ∈ cells) : 0 ≤ ref.cell := (live ref member).1
  have distinct : (cells.map fun ref => ref.cell.toNat).Nodup :=
    positions_nodup natural ((readBatch_cells_nodup count nowSec valid).sublist (read.map _))
  have inside : ∀ cell ∈ cells.map fun ref => ref.cell.toNat,
      cell < ((pq.retryAll retries).live.map content).length := by
    intro cell member
    obtain ⟨ref, given, rfl⟩ := List.mem_map.mp member
    have bound := (List.getElem?_eq_some_iff.mp (live ref given).2).1
    rw [length_live valid] at bound
    rw [List.length_map, size, counted]
    exact bound
  rw [filter_live_eq_others valid' cells natural, map_others,
    map_live_removeCells content (fun _ _ => rfl) cells valid' natural,
    ← inRange_positions_iff natural]
  have perm := swapRemoveAll_perm_iff ((pq.retryAll retries).live.map content) distinct inside
  rw [List.length_map, size, counted] at perm
  exact ⟨others_subperm _ distinct, perm⟩

/-! ### One group and two -/

private def queueOf (dues : List Int) : ProcessQueue where
  records := dues.zipIdx.map fun (due, i) => ⟨i, 0, i, due⟩
  liveCount := dues.length

private theorem queueOf_valid (dues : List Int) : (queueOf dues).Valid where
  fits := by simp [queueOf]
  placed i job below found := by
    simp only [queueOf, List.getElem?_map, List.getElem?_zipIdx, Option.map_map] at found
    obtain ⟨due, _, rfl⟩ := Option.map_eq_some_iff.mp found
    simp
  buried i job above found := by
    have bound := (List.getElem?_eq_some_iff.mp found).1
    simp only [queueOf, List.length_map, List.length_zipIdx] at bound above
    omega

/-- Three records that are due at one time: the first and the last are cleaned away. -/
theorem one_group_cleaned :
    (((queueOf [5, 5, 5]).removeCells [⟨0, 0, 0, 5⟩, ⟨2, 0, 2, 5⟩]).live.map content).Perm [(1, 0, 5)] := by
  have read : [⟨0, 0, 0, 5⟩, ⟨2, 0, 2, 5⟩].Sublist ((queueOf [5, 5, 5]).readBatch 3 9) :=
    .cons_cons _ (.cons _ (.cons_cons _ .slnil))
  refine (removeCells_exact_iff (queueOf [5, 5, 5]) (queueOf_valid _) 3 9 _ read []).2.mpr ?_
  intro before ref after split
  rcases before with _ | ⟨_, _ | ⟨_, _⟩⟩
  · cases split
    decide
  · cases split
    decide
  · simp at split

/-- The record in the last cell is the oldest. The other one is removed first, and
the oldest moves into its cell; its own cell is then empty, and it stays. -/
theorem two_groups_keep_dead_record :
    (queueOf [7, 5]).Valid ∧
    (queueOf [7, 5]).readBatch 2 9 = [⟨1, 0, 1, 5⟩, ⟨0, 0, 0, 7⟩] ∧
    ((queueOf [7, 5]).removeCells [⟨1, 0, 1, 5⟩, ⟨0, 0, 0, 7⟩]).live = [⟨1, 0, 0, 5⟩] :=
  ⟨queueOf_valid _, rfl, rfl⟩

end Cue.State.ProcessQueue
