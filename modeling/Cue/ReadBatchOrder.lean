import Cue.ProcessQueueProofs
import Mathlib.Data.Finset.Sort

/-! `ReadBatch` returns the oldest ready work: the records of the two earliest
due times, each group in cell order, cut off at the count. Its single pass over
the queue keeps two due times with their counts; no sentinel is mistaken for a
due time, since a time is only used if its count is positive. -/
namespace Cue.State

/-- Earlier in the order of work: by due time, then by cell. -/
def JobRef.Before (job other : JobRef) : Prop :=
  job.dueTimeSec < other.dueTimeSec ∨ job.dueTimeSec = other.dueTimeSec ∧ job.cell < other.cell

namespace ProcessQueue

/-- The live records due at one time, in cell order. -/
def dueAt (pq : ProcessQueue) (due : Int) : List JobRef := pq.live.filter fun job => job.dueTimeSec = due

/-- The distinct due times of the ready records. -/
def readyTimes (pq : ProcessQueue) (nowSec : Int) : Finset Int :=
  ((pq.live.map JobRef.dueTimeSec).filter (· ≤ nowSec)).toFinset

/-- The first two of some times, in order. -/
def twoEarliest (times : Finset Int) : List Int := times.sort.take 2

/-- The records of the two earliest ready due times. -/
def oldestReady (pq : ProcessQueue) (nowSec : Int) : List JobRef :=
  (twoEarliest (pq.readyTimes nowSec)).flatMap pq.dueAt

theorem mem_dueAt {pq : ProcessQueue} {due : Int} {job : JobRef} :
    job ∈ pq.dueAt due ↔ job ∈ pq.live ∧ job.dueTimeSec = due := by
  simp [dueAt]

theorem mem_readyTimes {pq : ProcessQueue} {nowSec due : Int} :
    due ∈ pq.readyTimes nowSec ↔ (∃ job ∈ pq.live, job.dueTimeSec = due) ∧ due ≤ nowSec := by
  simp [readyTimes]

/-! ### The single pass -/

/-- What the pass keeps of the ready due times it has met. -/
inductive Tracks (times : Finset Int) : Oldest → Prop where
  | nothing (none : times = ∅) : Tracks times {}
  | one {due : Int} {count : Nat} (only : times = {due}) (some : 0 < count) :
      Tracks times ⟨due, 2 ^ 63 - 1, count, 0⟩
  | two {oldest second : Int} {count secondCount : Nat} (first : oldest ∈ times) (next : second ∈ times)
      (apart : oldest < second) (least : ∀ due ∈ times, due = oldest ∨ second ≤ due) (some : 0 < count)
      (more : 0 < secondCount) : Tracks times ⟨oldest, second, count, secondCount⟩

theorem Tracks.scan {times : Finset Int} {found : Oldest} {nowSec : Int} {job : JobRef} (tracks : Tracks times found)
    (wide : nowSec < 2 ^ 63) (ready : job.dueTimeSec ≤ nowSec) :
    Tracks (insert job.dueTimeSec times) (found.scan nowSec job) := by
  unfold Oldest.scan
  generalize job.dueTimeSec = due at ready
  rw [if_pos ready]
  cases tracks with
  | nothing none =>
    dsimp only
    rcases Int.lt_or_le due (2 ^ 63 - 1) with below | above
    · rw [if_pos below]
      exact .one (by simp [none]) Nat.one_pos
    · -- a due time that is the sentinel itself
      obtain rfl : due = 2 ^ 63 - 1 := by omega
      rw [if_neg (by omega), if_pos rfl]
      exact .one (by simp [none]) Nat.one_pos
  | @one old count only some =>
    subst only
    dsimp only
    rcases Int.lt_trichotomy due old with older | rfl | younger
    · rw [if_pos older]
      refine .two (by simp) (by simp) older (fun other member => ?_) Nat.one_pos some
      simp only [Finset.mem_insert, Finset.mem_singleton] at member
      omega
    · rw [if_neg (by omega), if_pos rfl]
      exact .one (by simp) (Nat.succ_pos _)
    · have least : ∀ other ∈ (insert due {old} : Finset Int), other = old ∨ due ≤ other := by
        intro other member
        simp only [Finset.mem_insert, Finset.mem_singleton] at member
        omega
      rw [if_neg (by omega), if_neg (by omega)]
      rcases Int.lt_or_le due (2 ^ 63 - 1) with below | above
      · rw [if_pos below]
        exact .two (by simp) (by simp) younger least some Nat.one_pos
      · obtain rfl : due = 2 ^ 63 - 1 := by omega
        rw [if_neg (by omega), if_pos rfl]
        exact .two (by simp) (by simp) younger least some (Nat.succ_pos _)
  | @two oldest second count secondCount first next apart least some more =>
    have kept : ∀ other ∈ insert due times, other = due ∨ other = oldest ∨ second ≤ other := by
      intro other member
      rcases Finset.mem_insert.mp member with rfl | member
      · exact .inl rfl
      · exact .inr (least other member)
    dsimp only
    rcases Int.lt_trichotomy due oldest with older | rfl | younger
    · rw [if_pos older]
      refine .two (by simp) (by simp [first]) older (fun other member => ?_) Nat.one_pos some
      have := kept other member
      omega
    · rw [if_neg (by omega), if_pos rfl]
      refine .two (by simp) (by simp [next]) apart (fun other member => ?_) (Nat.succ_pos _) more
      have := kept other member
      omega
    · rw [if_neg (by omega), if_neg (by omega)]
      rcases Int.lt_trichotomy due second with between | rfl | later
      · rw [if_pos between]
        refine .two (by simp [first]) (by simp) younger (fun other member => ?_) some Nat.one_pos
        have := kept other member
        omega
      · rw [if_neg (by omega), if_pos rfl]
        refine .two (by simp [first]) (by simp) younger (fun other member => ?_) some (Nat.succ_pos _)
        have := kept other member
        omega
      · rw [if_neg (by omega), if_neg (by omega)]
        refine .two (by simp [first]) (by simp [next]) apart (fun other member => ?_) some more
        have := kept other member
        omega

/-- The pass has met the ready due times of the records it went over. -/
theorem tracks_foldl {nowSec : Int} (wide : nowSec < 2 ^ 63) {times : Finset Int} {found : Oldest} (jobs : List JobRef)
    (tracks : Tracks times found) :
    Tracks (times ∪ ((jobs.map JobRef.dueTimeSec).filter (· ≤ nowSec)).toFinset)
      (jobs.foldl (Oldest.scan nowSec) found) := by
  induction jobs generalizing times found with
  | nil => simpa using tracks
  | cons job jobs ih =>
    rw [List.foldl_cons, List.map_cons]
    by_cases ready : job.dueTimeSec ≤ nowSec
    · rw [List.filter_cons_of_pos (by simpa using ready), List.toFinset_cons, Finset.union_insert,
        ← Finset.insert_union]
      exact ih (tracks.scan wide ready)
    · rw [List.filter_cons_of_neg (by simpa using ready)]
      have same : found.scan nowSec job = found := by
        unfold Oldest.scan
        dsimp only
        rw [if_neg ready]
      rw [same]
      exact ih tracks

theorem tracks_readyTimes (pq : ProcessQueue) {nowSec : Int} (wide : nowSec < 2 ^ 63) :
    Tracks (pq.readyTimes nowSec) (pq.live.foldl (Oldest.scan nowSec) {}) := by
  have tracks := tracks_foldl wide pq.live (.nothing rfl)
  rwa [Finset.empty_union] at tracks

theorem twoEarliest_eq {times : Finset Int} {oldest second : Int} (first : oldest ∈ times) (next : second ∈ times)
    (apart : oldest < second) (least : ∀ due ∈ times, due = oldest ∨ second ≤ due) :
    twoEarliest times = [oldest, second] := by
  have split : times = insert oldest (insert second ((times.erase oldest).erase second)) := by
    rw [Finset.insert_erase (Finset.mem_erase.mpr ⟨(Int.ne_of_lt apart).symm, next⟩), Finset.insert_erase first]
  rw [twoEarliest, split, Finset.sort_insert, Finset.sort_insert]
  · rfl
  · intro due member
    have inside := Finset.mem_of_mem_erase (Finset.mem_of_mem_erase member)
    have other := Finset.ne_of_mem_erase (Finset.mem_of_mem_erase member)
    exact (least due inside).resolve_left other
  · exact Finset.notMem_erase _ _
  · intro due member
    rcases Finset.mem_insert.mp member with rfl | member
    · exact apart.le
    · have inside := Finset.mem_of_mem_erase (Finset.mem_of_mem_erase member)
      rcases least due inside with rfl | later
      · exact Int.le_refl _
      · exact apart.le.trans later
  · simp [(Int.ne_of_lt apart)]

theorem collect_eq (pq : ProcessQueue) (due : Int) (count : Nat) :
    pq.collect due count = (pq.dueAt due).take count := rfl

/-- `ReadBatch` returns the first of the oldest ready records. -/
theorem readBatch_eq (pq : ProcessQueue) {count nowSec : Int} (natural : 0 ≤ count) (wide : nowSec < 2 ^ 63) :
    pq.readBatch count nowSec = (pq.oldestReady nowSec).take count.toNat := by
  have tracks := pq.tracks_readyTimes wide
  unfold readBatch oldestReady
  generalize pq.live.foldl (Oldest.scan nowSec) {} = found at tracks
  dsimp only
  cases tracks with
  | nothing none => simp [none, twoEarliest]
  | @one due found only some =>
    rw [if_neg (Nat.ne_of_gt some), if_neg (by simp), only, twoEarliest, Finset.sort_singleton, collect_eq]
    simp
  | @two oldest second _ _ first next apart least some more =>
    rw [if_neg (Nat.ne_of_gt some), twoEarliest_eq first next apart least]
    have groups : [oldest, second].flatMap pq.dueAt = pq.dueAt oldest ++ pq.dueAt second := by simp
    simp only [groups, List.take_append, collect_eq, List.length_take]
    by_cases room : (pq.dueAt oldest).length < count.toNat
    · rw [if_pos ⟨by omega, more⟩, Nat.min_eq_right room.le]
    · rw [if_neg (by omega), Nat.sub_eq_zero_of_le (Nat.le_of_not_lt room), List.take_zero, List.append_nil]

/-! ### Order -/

/-- What the front of an ordered list leaves out comes after what is in it. -/
theorem rel_of_not_mem_take {A : Type} {R : A → A → Prop} {items : List A} {n : Nat} {taken left : A}
    (ordered : items.Pairwise R) (member : taken ∈ items.take n) (listed : left ∈ items) (out : left ∉ items.take n) :
    R taken left := by
  rw [← List.take_append_drop n items] at ordered listed
  exact (List.pairwise_append.mp ordered).2.2 taken member left ((List.mem_append.mp listed).resolve_left out)

/-- The live records stand in the order of their cells. -/
theorem live_cells_ordered {pq : ProcessQueue} (valid : pq.Valid) :
    pq.live.Pairwise fun job other => job.cell < other.cell := by
  rw [List.pairwise_iff_getElem]
  intro i j low high less
  have placed : ∀ k (bound : k < pq.live.length), (pq.live[k]).cell = k :=
    fun k bound => cell_of_getElem?_live valid (List.getElem?_eq_getElem bound)
  rw [placed i low, placed j high]
  exact Int.ofNat_lt.mpr less

theorem oldestReady_ordered {pq : ProcessQueue} (valid : pq.Valid) (nowSec : Int) :
    (pq.oldestReady nowSec).Pairwise JobRef.Before := by
  unfold oldestReady
  rw [List.pairwise_flatMap]
  refine ⟨fun due _ => ?_, ?_⟩
  · refine ((live_cells_ordered valid).filter _).imp_of_mem fun inside other less => ?_
    exact .inr ⟨(mem_dueAt.mp inside).2.trans (mem_dueAt.mp other).2.symm, less⟩
  · refine ((Finset.sortedLT_sort _).pairwise.sublist (List.take_sublist _ _)).imp fun less job inside other later => ?_
    refine .inl ?_
    rw [(mem_dueAt.mp inside).2, (mem_dueAt.mp later).2]
    exact less

theorem oldestReady_sorted (pq : ProcessQueue) (nowSec : Int) :
    (pq.oldestReady nowSec).Pairwise fun job other => job.dueTimeSec ≤ other.dueTimeSec := by
  unfold oldestReady
  rw [List.pairwise_flatMap]
  refine ⟨fun due _ => ?_, ?_⟩
  · refine List.pairwise_of_forall_mem_list fun job inside other later => ?_
    rw [(mem_dueAt.mp inside).2, (mem_dueAt.mp later).2]
  · refine ((Finset.sortedLT_sort _).pairwise.sublist (List.take_sublist _ _)).imp fun less job inside other later => ?_
    rw [(mem_dueAt.mp inside).2, (mem_dueAt.mp later).2]
    exact less.le

/-- A ready record of neither due time is due later. -/
theorem due_lt_of_not_mem_oldestReady {pq : ProcessQueue} {nowSec : Int} {job taken : JobRef} (live : job ∈ pq.live)
    (ready : job.dueTimeSec ≤ nowSec) (out : job ∉ pq.oldestReady nowSec) (member : taken ∈ pq.oldestReady nowSec) :
    taken.dueTimeSec < job.dueTimeSec := by
  obtain ⟨due, early, inside⟩ := List.mem_flatMap.mp member
  rw [(mem_dueAt.mp inside).2]
  refine rel_of_not_mem_take (Finset.sortedLT_sort (pq.readyTimes nowSec)).pairwise early ?_ fun first => out ?_
  · exact (Finset.mem_sort _).mpr (mem_readyTimes.mpr ⟨⟨job, live, rfl⟩, ready⟩)
  · exact List.mem_flatMap.mpr ⟨_, first, mem_dueAt.mpr ⟨live, rfl⟩⟩

/-- The order of work between what a batch takes and what it leaves. -/
theorem before_of_not_mem_readBatch {pq : ProcessQueue} {count nowSec : Int} {job taken : JobRef} (valid : pq.Valid)
    (natural : 0 ≤ count) (wide : nowSec < 2 ^ 63) (live : job ∈ pq.live) (ready : job.dueTimeSec ≤ nowSec)
    (out : job ∉ pq.readBatch count nowSec) (member : taken ∈ pq.readBatch count nowSec) : taken.Before job := by
  rw [readBatch_eq pq natural wide] at out member
  by_cases listed : job ∈ pq.oldestReady nowSec
  · exact rel_of_not_mem_take (oldestReady_ordered valid nowSec) member listed out
  · exact .inl (due_lt_of_not_mem_oldestReady live ready listed (List.mem_of_mem_take member))

/-- A batch is the first `count` of the records of the two earliest ready due
times, each group in cell order. So it is sorted by due time, holds no cell
twice, and leaves no ready record that is older than one it takes. -/
theorem readBatch_returns_oldest (pq : ProcessQueue) {count nowSec : Int} (natural : 0 ≤ count)
    (wide : nowSec < 2 ^ 63) :
    pq.readBatch count nowSec = ((twoEarliest (pq.readyTimes nowSec)).flatMap pq.dueAt).take count.toNat ∧
      ((pq.readBatch count nowSec).Pairwise fun job other => job.dueTimeSec ≤ other.dueTimeSec) ∧
      (pq.Valid → ((pq.readBatch count nowSec).map JobRef.cell).Nodup) ∧
      ∀ job ∈ pq.live, job.dueTimeSec ≤ nowSec → job ∉ pq.readBatch count nowSec →
        ∀ taken ∈ pq.readBatch count nowSec, taken.dueTimeSec ≤ job.dueTimeSec := by
  have batch := readBatch_eq pq natural wide
  have sorted := pq.oldestReady_sorted nowSec
  refine ⟨batch, ?_, fun valid => readBatch_cells_nodup count nowSec valid, fun job live ready out taken member => ?_⟩
  · rw [batch]
    exact sorted.sublist (List.take_sublist _ _)
  · rw [batch] at out member
    by_cases listed : job ∈ pq.oldestReady nowSec
    · have later := rel_of_not_mem_take sorted member listed out
      exact later
    · exact (due_lt_of_not_mem_oldestReady live ready listed (List.mem_of_mem_take member)).le

/-- Due at 5, 3, 5 and 9. -/
private def fourDue : ProcessQueue := ⟨[⟨7, 0, 0, 5⟩, ⟨8, 0, 1, 3⟩, ⟨9, 1, 2, 5⟩, ⟨4, 0, 3, 9⟩, tombstone], 4⟩

theorem two_of_three_ready_read : (0 : Int) ≤ 2 ∧ fourDue.readBatch 2 6 = [⟨8, 0, 1, 3⟩, ⟨7, 0, 0, 5⟩] ∧
    fourDue.readBatch 2 6 = ((twoEarliest (fourDue.readyTimes 6)).flatMap fourDue.dueAt).take 2 :=
  ⟨by decide, rfl, (readBatch_returns_oldest fourDue (by decide) (by decide)).1⟩

end ProcessQueue
end Cue.State
