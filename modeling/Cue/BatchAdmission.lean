import Cue.PartitionProofs
import Mathlib.Data.Finset.Card

/-! Which jobs of a batch a partition takes. A job is refused if its ID is still
stored, be it only as a job that is done, or if no cell of the queue is free;
the IDs of a batch that are new and the free cells decide the whole batch. -/
namespace Cue.State.Partition
open Cue.Lib Cue.Model

/-- The ID is stored and its job is not done. -/
def pending (p : Partition) (id : String) : Bool := (p.jobStore.view id).any fun job => !job.done

/-- The IDs of the jobs in a batch that are not flagged done already. -/
def offered (jobs : List Job) : List String := (jobs.filter fun job => !job.done).map Job.id

/-- The number of IDs in a batch that the store does not know. -/
def newcomers (p : Partition) (jobs : List Job) : Nat :=
  ((offered jobs).filter fun id => !p.jobStore.byID.contains id).toFinset.card

def freeCells (p : Partition) : Nat := p.processQueue.records.length - p.processQueue.liveCount

/-! ### What one job changes -/

theorem pending_of_view {p q : Partition} (same : p.jobStore.view = q.jobStore.view) (id : String) :
    p.pending id = q.pending id := by simp only [pending, same]

theorem contains_of_named {js js' : JobStore} {id : String} (same : js'.byID.get id = js.byID.get id) :
    js'.byID.contains id = js.byID.contains id := by simp only [FinMap.contains, same]

/-- The three ways a job that is not flagged done can end. -/
theorem added_unflagged {p p' : Partition} {job : Job} {clock : Clock} {outcome : AddOutcome}
    (unflagged : job.done = false) (added : Added p job clock p' outcome) :
    (p.jobStore.byID.contains job.id = true ∧ p' = p) ∨
    (p.jobStore.byID.contains job.id = false ∧ 0 < p.freeCells ∧ p'.freeCells = p.freeCells - 1 ∧
      (∀ id, p'.pending id = (decide (id = job.id) || p.pending id)) ∧
      ∀ id, p'.jobStore.byID.contains id = (decide (id = job.id) || p.jobStore.byID.contains id)) ∨
    (p.jobStore.byID.contains job.id = false ∧ p.freeCells = 0 ∧ p'.freeCells = 0 ∧
      (∀ id, p'.pending id = p.pending id) ∧
      ∀ id, p'.jobStore.byID.contains id = p.jobStore.byID.contains id) := by
  cases added with
  | alreadyDone flagged => simp [unflagged] at flagged
  | duplicate _ known => exact Or.inl ⟨by simp [FinMap.contains, known], rfl⟩
  | accepted _ created room queued queueValid capacity count =>
    refine Or.inr (Or.inl ⟨?_, ?_, ?_, ?_, ?_⟩)
    · have fresh := created.fresh
      simp only [stamped_id] at fresh
      simp [FinMap.contains, fresh]
    · unfold freeCells
      omega
    · simp only [freeCells, capacity, count]
      omega
    · intro id
      simp only [pending, JobStore.created_view created, stamped_id, Function.update_apply]
      by_cases same : id = job.id
      · simp [same, unflagged]
      · simp [same]
    · intro id
      simp only [FinMap.contains, created.named, FinMap.get_set, stamped_id]
      by_cases same : id = job.id <;> simp [same]
  | queueFull _ fresh refused full =>
    refine Or.inr (Or.inr ⟨by simp [FinMap.contains, fresh], ?_, ?_, ?_, ?_⟩)
    · simp [freeCells, full]
    · simp [freeCells, full]
    · exact fun id => pending_of_view refused.view id
    · exact fun id => contains_of_named (refused.named id)

theorem newcomers_flagged {p : Partition} {job : Job} {jobs : List Job} (flagged : job.done = true) :
    p.newcomers (job :: jobs) = p.newcomers jobs := by
  simp [newcomers, offered, flagged]

theorem newcomers_known {p : Partition} {job : Job} {jobs : List Job}
    (known : p.jobStore.byID.contains job.id = true) : p.newcomers (job :: jobs) = p.newcomers jobs := by
  cases flagged : job.done with
  | true => exact newcomers_flagged flagged
  | false => simp [newcomers, offered, flagged, known]

/-- Accepting a new ID leaves one newcomer fewer, however often the batch names it. -/
theorem newcomers_accepted {p p' : Partition} {job : Job} (jobs : List Job)
    (unflagged : job.done = false) (unknown : p.jobStore.byID.contains job.id = false)
    (known : ∀ id, p'.jobStore.byID.contains id = (decide (id = job.id) || p.jobStore.byID.contains id)) :
    p.newcomers (job :: jobs) = p'.newcomers jobs + 1 := by
  have split : ((offered (job :: jobs)).filter fun id => !p.jobStore.byID.contains id).toFinset =
      insert job.id ((offered jobs).filter fun id => !p'.jobStore.byID.contains id).toFinset := by
    ext id
    by_cases same : id = job.id <;> simp [offered, unflagged, known, same, unknown]
  unfold newcomers
  rw [split, Finset.card_insert_of_notMem]
  simp [known]

theorem newcomers_pos {p : Partition} {job : Job} (jobs : List Job) (unflagged : job.done = false)
    (unknown : p.jobStore.byID.contains job.id = false) : 0 < p.newcomers (job :: jobs) := by
  unfold newcomers
  apply Finset.card_pos.mpr
  exact ⟨job.id, by simp [offered, unflagged, unknown]⟩

/-! ### A whole batch -/

section Batch

variable {p p' : Partition} {jobs : List Job} {clock : Nat → Clock} {outcomes : List (String × AddOutcome)}

/-- Jobs that are stored already stay as they are, and without a free cell nothing is added. -/
private theorem addJobs_keeps (unflagged : ∀ job ∈ jobs, job.done = false) (valid : p.Valid)
    (slots : p.jobStore.jobs.length + jobs.length < 2 ^ 32) (ok : p.addJobs jobs clock = .ok (p', outcomes))
    {id : String} (stays : p.jobStore.byID.contains id = true ∨ p.freeCells = 0 ∨ id ∉ jobs.map Job.id) :
    p'.pending id = p.pending id := by
  induction jobs generalizing p clock outcomes with
  | nil =>
    cases ok
    rfl
  | cons job jobs ih =>
    obtain ⟨middle, outcome, rest, here, others, rfl⟩ := addJobs_cons ok
    simp only [List.length_cons] at slots
    have added := addJob_spec valid (by omega) here
    have bound := added.length
    have later := @ih middle _ rest (fun other member => unflagged other (List.mem_cons_of_mem _ member))
      (added.valid valid) (by omega) others
    have outside : id ∉ (job :: jobs).map Job.id → id ≠ job.id ∧ id ∉ jobs.map Job.id := by simp
    rcases added_unflagged (unflagged job List.mem_cons_self) added with
      ⟨known, rfl⟩ | ⟨unknown, free, taken, views, names⟩ | ⟨unknown, full, still, views, names⟩
    · exact later (stays.imp_right (Or.imp_right fun apart => (outside apart).2))
    · have other : id ≠ job.id := by
        rintro rfl
        rcases stays with known | full | apart
        · rw [unknown] at known
          cases known
        · omega
        · exact (outside apart).1 rfl
      rw [later, views]
      · simp [other]
      · rcases stays with known | full | apart
        · left
          simp [names, known]
        · omega
        · exact Or.inr (Or.inr (outside apart).2)
    · rw [later (Or.inr (Or.inl still)), views]

/-- All jobs of a batch are pending afterwards exactly if those whose ID is
stored were so before, and the free cells suffice for the new IDs. -/
theorem addJobs_pending_iff (unflagged : ∀ job ∈ jobs, job.done = false) (valid : p.Valid)
    (slots : p.jobStore.jobs.length + jobs.length < 2 ^ 32) (ok : p.addJobs jobs clock = .ok (p', outcomes)) :
    (∀ id ∈ jobs.map Job.id, p'.pending id = true) ↔
      (∀ id ∈ jobs.map Job.id, p.jobStore.byID.contains id = true → p.pending id = true) ∧
        p.newcomers jobs ≤ p.freeCells := by
  induction jobs generalizing p clock outcomes with
  | nil => simp [newcomers, offered]
  | cons job jobs ih =>
    obtain ⟨middle, outcome, rest, here, others, rfl⟩ := addJobs_cons ok
    have slots' : p.jobStore.jobs.length + jobs.length + 1 < 2 ^ 32 := slots
    have added := addJob_spec valid (by omega) here
    have bound := added.length
    have first := unflagged job List.mem_cons_self
    have unflagged' : ∀ job ∈ jobs, job.done = false := fun other member =>
      unflagged other (List.mem_cons_of_mem _ member)
    have valid' := added.valid valid
    have later := ih unflagged' valid' (by omega) others
    simp only [List.map_cons, List.forall_mem_cons, later]
    rcases added_unflagged first added with
      ⟨known, rfl⟩ | ⟨unknown, free, taken, views, names⟩ | ⟨unknown, full, still, views, names⟩
    · rw [addJobs_keeps unflagged' valid' (by omega) others (Or.inl known), newcomers_known known]
      simp [known, and_assoc]
    · have count := newcomers_accepted jobs first unknown names
      have here : p'.pending job.id = true := by
        rw [addJobs_keeps unflagged' valid' (by omega) others (Or.inl (by simp [names])), views]
        simp
      have room : middle.newcomers jobs ≤ middle.freeCells ↔ p.newcomers (job :: jobs) ≤ p.freeCells := by omega
      have others : ∀ id, (middle.jobStore.byID.contains id = true → middle.pending id = true) ↔
          (p.jobStore.byID.contains id = true → p.pending id = true) := by
        intro id
        rw [names, views]
        by_cases same : id = job.id
        · simp [same, unknown]
        · simp [same]
      simp [here, unknown, room, others]
    · have positive := newcomers_pos jobs first unknown
      have absent : p.pending job.id = false := by
        have none := (JobStore.view_none valid.store job.id).mpr (by simpa [FinMap.contains] using unknown)
        simp [pending, none]
      have refused : p'.pending job.id = false := by
        rw [addJobs_keeps unflagged' valid' (by omega) others (Or.inr (Or.inl still)), views, absent]
      have crowded : ¬ p.newcomers (job :: jobs) ≤ p.freeCells := by omega
      simp [refused, crowded]

/-- A batch leaves the jobs alone that it does not name. -/
theorem addJobs_pending_other (unflagged : ∀ job ∈ jobs, job.done = false) (valid : p.Valid)
    (slots : p.jobStore.jobs.length + jobs.length < 2 ^ 32) (ok : p.addJobs jobs clock = .ok (p', outcomes))
    {id : String} (apart : id ∉ jobs.map Job.id) : p'.pending id = p.pending id :=
  addJobs_keeps unflagged valid slots ok (Or.inr (Or.inr apart))

end Batch

/-! ### Finished and dropped jobs -/

theorem pending_done {p : Partition} {js : JobStore} {ids : List String} (valid : p.Valid)
    (finished : Finished p.jobStore ids js) (id : String) :
    ({ p with jobStore := js } : Partition).pending id = (decide (id ∉ ids) && p.pending id) := by
  simp only [pending, finished.view]
  cases held : p.jobStore.view id with
  | none => simp
  | some job =>
    have same := JobStore.view_id valid.store held
    by_cases named : id ∈ ids <;> simp [marked, same, named]

theorem pending_drop {p : Partition} {js : JobStore} {ids : List String}
    (dropped : Dropped p.jobStore ids js) (id : String) :
    ({ p with jobStore := js } : Partition).pending id = (decide (id ∉ ids) && p.pending id) := by
  simp only [pending, dropped.view]
  by_cases named : id ∈ ids <;> simp [named]

end Cue.State.Partition
