import Cue.PartitionReplay

/-! What a batch of jobs does to a partition, job by job. A job is taken exactly
if it is not flagged done, its ID is not live and the queue has room; a job that
is refused or skipped leaves the live IDs and the queue as they are, although it
may take a slot and give it back in between. Repeating the batch changes nothing. -/
namespace Cue.State.Partition
open Cue.Lib Cue.Model

variable {p p' : Partition} {job : Job} {jobs : List Job} {clock : Nat → Clock}
  {outcomes : List (String × AddOutcome)}

def Live (p : Partition) (id : String) : Prop := p.jobStore.byID.contains id = true

def QueueFull (p : Partition) : Prop := p.processQueue.liveCount ≥ p.processQueue.records.length

/-- The store stays below `2^32` slots, whichever job of the batch is added last. -/
def StaysSmall (p : Partition) (jobs : List Job) (clock : Nat → Clock) : Prop :=
  ∀ n p' outcomes, p.addJobs (jobs.take n) clock = .ok (p', outcomes) → p'.jobStore.jobs.length < 2 ^ 32

/-- What one job of a batch did, and when. -/
structure Intake (p : Partition) (job : Job) (clock : Clock) (p' : Partition) (outcome : AddOutcome) : Prop where
  accepts : (∃ idx, outcome = .accepted idx) ↔ job.done = false ∧ ¬ p.Live job.id ∧ ¬ p.QueueFull
  refuses : outcome = .queueFull ↔ job.done = false ∧ ¬ p.Live job.id ∧ p.QueueFull
  gains : ∀ idx, outcome = .accepted idx → (∀ id, p'.Live id ↔ p.Live id ∨ id = job.id) ∧
    p'.jobStore.get idx = some (stamped job clock.nowMilli) ∧
    p'.processQueue.live = p.processQueue.live ++ [⟨idx, 0, p.processQueue.liveCount, clock.nowSec⟩]
  keeps : (∀ idx, outcome ≠ .accepted idx) → (∀ id, p'.Live id ↔ p.Live id) ∧ p'.processQueue = p.processQueue

/-- The jobs of a batch, one after the other. -/
inductive Processed : Partition → List Job → (Nat → Clock) → Partition → List (String × AddOutcome) → Prop where
  | nil {p : Partition} {clock : Nat → Clock} : Processed p [] clock p []
  | cons {p middle p' : Partition} {job : Job} {jobs : List Job} {clock : Nat → Clock} {outcome : AddOutcome}
      {outcomes : List (String × AddOutcome)} (first : Intake p job (clock 0) middle outcome)
      (rest : Processed middle jobs (fun i => clock (i + 1)) p' outcomes) :
      Processed p (job :: jobs) clock p' ((job.id, outcome) :: outcomes)

/-! ### One job -/

theorem live_iff {id : String} : p.Live id ↔ ∃ i, p.jobStore.byID.get id = some i :=
  FinMap.contains_iff _ _

theorem Added.intake {clock : Clock} {outcome : AddOutcome} (added : Added p job clock p' outcome) (valid : p.Valid)
    (named : job.done = false → job.id ≠ "") : Intake p job clock p' outcome := by
  cases added with
  | alreadyDone flagged => exact ⟨by simp [flagged], by simp [flagged], by simp, fun _ => ⟨fun _ => Iff.rfl, rfl⟩⟩
  | duplicate unflagged known =>
    have live : p.Live job.id := live_iff.mpr ⟨_, known⟩
    exact ⟨by simp [live], by simp [live], by simp, fun _ => ⟨fun _ => Iff.rfl, rfl⟩⟩
  | @accepted js pq idx unflagged created room queued queueValid capacity count =>
    have fresh := created.fresh
    rw [stamped_id] at fresh
    have unknown : ¬ p.Live job.id := by simp [live_iff, fresh]
    have spare : ¬ p.QueueFull := Nat.not_le.mpr room
    refine ⟨by simp [unflagged, unknown, spare], by simp [spare], ?_, fun other => absurd rfl (other idx)⟩
    rintro _ same
    cases same
    refine ⟨fun id => ?_, ?_, queued⟩
    · simp only [live_iff, created.named, FinMap.get_set, stamped_id]
      by_cases same : id = job.id <;> simp [same]
    · simp only [JobStore.created_get valid.store created, ↓reduceIte, stamped_id, if_neg (named unflagged)]
  | queueFull unflagged fresh refused full =>
    have unknown : ¬ p.Live job.id := by simp [live_iff, fresh]
    have filled : p.QueueFull := Nat.le_of_eq full.symm
    refine ⟨by simp [filled], by simp [unflagged, unknown, filled], by simp, fun _ => ⟨fun id => ?_, rfl⟩⟩
    simp only [live_iff, refused.named]

/-- At the last slot below the count at which `uint32` wraps. -/
theorem slots_cases (js : JobStore) (valid : js.Valid) :
    (js.freeList = [] → js.jobs.length + 1 < 2 ^ 32) ∨ js.freeList = [] ∧ js.jobs.length + 1 = 2 ^ 32 := by
  have small := valid.small
  by_cases used : js.freeList = []
  · by_cases last : js.jobs.length + 1 = 2 ^ 32
    · exact .inr ⟨used, last⟩
    · exact .inl fun _ => by omega
  · exact .inl fun none => absurd none used

/-- A release at the wrapped count does nothing. -/
theorem release_wrapped {js : JobStore} (idx : Nat) (wrapped : js.jobs.length = 2 ^ 32) :
    js.release idx = .ok js := by
  unfold JobStore.release uint32
  rw [wrapped, Nat.mod_self, if_pos (Nat.zero_le _)]

/-- A job with an ID is added without a panic, and as `Added` says if the store
stays below the count at which `uint32` wraps. -/
theorem addJob_total (valid : p.Valid) (named : job.done = false → job.id ≠ "") (clock : Clock) :
    ∃ p' outcome, p.addJob job clock = .ok (p', outcome) ∧
      (p'.jobStore.jobs.length < 2 ^ 32 → Added p job clock p' outcome) := by
  rcases slots_cases p.jobStore valid.store with room | ⟨used, last⟩
  · have spared : job.id = "" → job.done = true ∨ p.jobStore.byID.contains job.id = true ∨ 0 < p.freeCells := by
      intro empty
      cases flagged : job.done with
      | true => exact .inl rfl
      | false => exact absurd empty (named flagged)
    obtain ⟨p', outcome, ok⟩ := addJob_succeeds valid room spared clock
    exact ⟨p', outcome, ok, fun _ => addJob_room valid room ok⟩
  · unfold addJob
    by_cases flagged : job.done = true
    · rw [if_pos flagged]
      exact ⟨_, _, rfl, fun _ => .alreadyDone flagged⟩
    rw [if_neg flagged]
    -- a job that is not refused as known brings the store to the wrapped count
    rcases JobStore.create_last (stamped job clock.nowMilli) used last with
      ⟨refused, i, known⟩ | ⟨idx, js, taken, wrapped⟩
    · simp only [refused]
      exact ⟨_, _, rfl, fun _ => .duplicate (by simpa using flagged) (by simpa using known)⟩
    · simp only [taken, release_wrapped idx wrapped]
      split
      · refine ⟨_, _, rfl, fun small => ?_⟩
        simp only [wrapped] at small
        exact absurd small (Nat.lt_irrefl _)
      · refine ⟨_, _, rfl, fun small => ?_⟩
        simp only [wrapped] at small
        exact absurd small (Nat.lt_irrefl _)

/-! ### Whole batches -/

theorem Added.plain {clock : Clock} {outcome : AddOutcome} (added : Added p job clock p' outcome) (plain : p.Plain)
    (named : job.done = false → job.id ≠ "") : p'.Plain := by
  refine ⟨added.valid plain.valid, ?_⟩
  cases added with
  | alreadyDone => exact plain.anonymous
  | duplicate => exact plain.anonymous
  | accepted unflagged created =>
    rw [created.named, FinMap.get_set, stamped_id, if_neg (Ne.symm (named unflagged))]
    exact plain.anonymous
  | queueFull _ _ refused =>
    rw [refused.named]
    exact plain.anonymous

/-- What remains of a batch stays small as well. -/
theorem StaysSmall.rest {middle : Partition} {outcome : AddOutcome} (small : p.StaysSmall (job :: jobs) clock)
    (first : p.addJob job (clock 0) = .ok (middle, outcome)) :
    middle.jobStore.jobs.length < 2 ^ 32 ∧ middle.StaysSmall jobs fun i => clock (i + 1) := by
  refine ⟨small 1 middle [(job.id, outcome)] (by simp [addJobs, first]), fun n p' outcomes added => ?_⟩
  exact small (n + 1) p' ((job.id, outcome) :: outcomes) (by simp [addJobs, first, added])

/-- A batch that has a slot for every job stays small. -/
theorem staysSmall_of_slots (valid : p.Valid) (slots : p.jobStore.jobs.length + jobs.length < 2 ^ 32) :
    p.StaysSmall jobs clock := by
  intro n p' outcomes added
  have fewer : (jobs.take n).length ≤ jobs.length := List.length_take_le' _ _
  obtain ⟨_, _, bound⟩ := addJobs_induction
    (fun q rest _ _ => q.jobStore.jobs.length + rest.length < 2 ^ 32)
    (fun q q' job rest _ _ _ _ _ before _ added => by
      have grown := added.length
      simp only [List.length_cons] at before
      omega)
    [] valid (by omega) (by omega) added
  exact bound

theorem addJobs_processed (plain : p.Plain) (named : ∀ job ∈ jobs, job.done = false → job.id ≠ "")
    (small : p.StaysSmall jobs clock) :
    ∃ p' outcomes, p.addJobs jobs clock = .ok (p', outcomes) ∧ Processed p jobs clock p' outcomes ∧ p'.Plain := by
  induction jobs generalizing p clock with
  | nil => exact ⟨p, [], rfl, .nil, plain⟩
  | cons job jobs ih =>
    have here := named job List.mem_cons_self
    obtain ⟨middle, outcome, first, spec⟩ := addJob_total plain.valid here (clock 0)
    obtain ⟨fits, later⟩ := small.rest first
    have added := spec fits
    obtain ⟨p', outcomes, rest, processed, after⟩ := ih (added.plain plain here)
      (fun other member => named other (List.mem_cons_of_mem _ member)) later
    exact ⟨p', _, by simp only [addJobs, first, rest], .cons (added.intake plain.valid here) processed, after⟩

/-! ### The same batch again -/

/-- Nothing is left to do for this job. -/
def Settled (p : Partition) (job : Job) : Prop := job.done = true ∨ p.Live job.id ∨ p.QueueFull

theorem settled_congr {job : Job} (names : ∀ id, p'.Live id ↔ p.Live id) (queue : p'.processQueue = p.processQueue) :
    p'.Settled job ↔ p.Settled job := by
  simp only [Settled, names, QueueFull, queue]

theorem Intake.settled {clock : Clock} {outcome : AddOutcome} (intake : Intake p job clock p' outcome) :
    p'.Settled job := by
  by_cases taken : ∃ idx, outcome = .accepted idx
  · obtain ⟨idx, here⟩ := taken
    exact .inr (.inl (((intake.gains idx here).1 job.id).mpr (.inr rfl)))
  · obtain ⟨names, queue⟩ := intake.keeps fun idx here => taken ⟨idx, here⟩
    rw [settled_congr names queue]
    by_contra waiting
    simp only [Settled, not_or, Bool.not_eq_true] at waiting
    exact taken (intake.accepts.mpr waiting)

/-- A job for which nothing is left to do changes neither the live IDs nor the queue. -/
theorem Intake.idle {clock : Clock} {outcome : AddOutcome} (intake : Intake p job clock p' outcome)
    (settled : p.Settled job) : (∀ id, p'.Live id ↔ p.Live id) ∧ p'.processQueue = p.processQueue := by
  refine intake.keeps fun idx here => ?_
  obtain ⟨unflagged, unknown, spare⟩ := intake.accepts.mp ⟨idx, here⟩
  rcases settled with flagged | live | full
  · rw [unflagged] at flagged
    cases flagged
  · exact unknown live
  · exact spare full

theorem Intake.settled_other {clock : Clock} {outcome : AddOutcome} {other : Job}
    (intake : Intake p job clock p' outcome) (settled : p.Settled other) : p'.Settled other := by
  by_cases taken : ∃ idx, outcome = .accepted idx
  · obtain ⟨idx, here⟩ := taken
    rcases settled with flagged | live | full
    · exact .inl flagged
    · exact .inr (.inl (((intake.gains idx here).1 other.id).mpr (.inl live)))
    · exact absurd full (intake.accepts.mp ⟨idx, here⟩).2.2
  · obtain ⟨names, queue⟩ := intake.keeps fun idx here => taken ⟨idx, here⟩
    exact (settled_congr names queue).mpr settled

theorem Processed.settled_other {other : Job} (processed : Processed p jobs clock p' outcomes)
    (settled : p.Settled other) : p'.Settled other := by
  induction processed with
  | nil => exact settled
  | cons first _ ih => exact ih (first.settled_other settled)

theorem Processed.settled (processed : Processed p jobs clock p' outcomes) : ∀ job ∈ jobs, p'.Settled job := by
  induction processed with
  | nil => simp
  | cons first rest ih =>
    intro job member
    rcases List.mem_cons.mp member with rfl | later
    · exact rest.settled_other first.settled
    · exact ih job later

theorem Processed.idle (processed : Processed p jobs clock p' outcomes) (settled : ∀ job ∈ jobs, p.Settled job) :
    (∀ id, p'.Live id ↔ p.Live id) ∧ p'.processQueue = p.processQueue := by
  induction processed with
  | nil => exact ⟨fun _ => Iff.rfl, rfl⟩
  | cons first rest ih =>
    obtain ⟨names, queue⟩ := first.idle (settled _ List.mem_cons_self)
    obtain ⟨names', queue'⟩ := ih fun other member =>
      (settled_congr names queue).mpr (settled other (List.mem_cons_of_mem _ member))
    exact ⟨fun id => (names' id).trans (names id), queue'.trans queue⟩

/-! ### Runs -/

/-- The jobs that are added have IDs, and slots below `2^32`. -/
def AddsNamed (p : Partition) : Op → Prop
  | .command cmd clock => ∀ payload, cmd.type = .addJobs → cmd.addJobs = some payload →
    (∀ job ∈ payload.jobs, job.id ≠ "") ∧ p.StaysSmall payload.jobs clock
  | _ => True

/-- The runs of a partition that starts empty in which every job added has an ID. -/
abbrev NamedRun (topic : String) (config : PartitionConfig) (nowMilli : Int) : List Op → Partition → Prop :=
  Run (fun p op p' => ∃ effect, p.step op = .ok (p', effect)) (fun _ => AddsNamed) (new topic config nowMilli)

theorem Stepped.plain {op : Op} {effect : Effect} (stepped : Stepped p op p' effect) (plain : p.Plain)
    (named : p.AddsNamed op) : p'.Plain := by
  cases stepped with
  | addJobs type carried added =>
    obtain ⟨ids, small⟩ := named _ type carried
    obtain ⟨_, _, same, _, after⟩ := addJobs_processed plain (fun job member _ => ids job member) small
    cases added.symm.trans same
    exact after
  | done _ _ finished => exact ⟨⟨finished.valid, plain.valid.queue⟩, finished.named ▸ plain.anonymous⟩
  | drop _ _ dropped =>
    refine ⟨⟨dropped.valid, plain.valid.queue⟩, ?_⟩
    rw [dropped.named, plain.anonymous]
    split <;> rfl
  | ignored => exact plain
  | dispatch dispatched =>
    exact ⟨⟨dispatched.jobStore ▸ plain.valid.store, dispatched.queueValid⟩, dispatched.jobStore ▸ plain.anonymous⟩
  | flush _ flushed =>
    refine ⟨⟨flushed.swept.valid, flushed.processQueue ▸ plain.valid.queue⟩, ?_⟩
    rcases flushed.swept.named "" with same | gone
    · exact same.trans plain.anonymous
    · exact gone
  | unflushed => exact plain
  | proxies => exact ⟨⟨plain.valid.store, plain.valid.queue⟩, plain.anonymous⟩

theorem new_plain (topic : String) (config : PartitionConfig) (nowMilli : Int) : (new topic config nowMilli).Plain :=
  ⟨new_valid topic config nowMilli, rfl⟩

theorem NamedRun.plain {topic : String} {config : PartitionConfig} {nowMilli : Int} {ops : List Op}
    (run : NamedRun topic config nowMilli ops p) : p.Plain := by
  refine Run.invariant (fun _ p => p.Plain) (new_plain topic config nowMilli) ?_ run
  rintro _ p op p' plain named ⟨effect, ok⟩
  exact (step_spec plain.valid ok).plain plain named

/-- The jobs refused for want of room, as a producer is told of them. -/
def refusals (outcomes : List (String × AddOutcome)) : List JobFailure :=
  (outcomes.filter fun outcome => outcome.2 = .queueFull).map fun outcome => ⟨outcome.1, .queueFull⟩

theorem failures_eq (outcomes : List (String × AddOutcome)) : failures outcomes = refusals outcomes := by
  induction outcomes with
  | nil => rfl
  | cons outcome outcomes ih =>
    obtain ⟨id, outcome⟩ := outcome
    unfold failures refusals at ih ⊢
    cases outcome <;> simp [ih]

/-- Who asked is told of the refused jobs, with an error if there are any. -/
theorem handleAddJobs_processed {cmd : Command} {payload : AddJobsPayload} (carried : cmd.addJobs = some payload)
    (plain : p.Plain) (named : ∀ job ∈ payload.jobs, job.id ≠ "") (small : p.StaysSmall payload.jobs clock) :
    ∃ handled outcomes, p.handleAddJobs cmd clock = .ok handled ∧
      Processed p payload.jobs clock handled.partition outcomes ∧ handled.partition.Plain ∧
      handled.reply = answer cmd (if refusals outcomes = [] then .success else .error) "" (refusals outcomes) := by
  obtain ⟨p', outcomes, ok, processed, after⟩ :=
    addJobs_processed plain (fun job member _ => named job member) small
  unfold handleAddJobs
  simp only [carried, ok]
  refine ⟨_, outcomes, rfl, processed, after, ?_⟩
  rw [failures_eq]
  split
  · rename_i none
    rw [none]
  · rfl

/-- A batch is taken job by job, in order: what is accepted, refused for want of
room or skipped, and what each of these changes, is as `Intake` says. A command
with a response channel is answered, with success exactly if no job was refused
and with the refused jobs; without one nobody is told. The same batch again
changes neither the live IDs nor the queue. -/
theorem batch_partially_accepted {topic : String} {config : PartitionConfig} {nowMilli : Int} {ops : List Op}
    {cmd : Command} {payload : AddJobsPayload} (run : NamedRun topic config nowMilli ops p)
    (carried : cmd.addJobs = some payload) (named : ∀ job ∈ payload.jobs, job.id ≠ "")
    (small : p.StaysSmall payload.jobs clock) :
    ∃ handled outcomes, p.handleAddJobs cmd clock = .ok handled ∧
      Processed p payload.jobs clock handled.partition outcomes ∧
      (∀ requestID respCh, cmd.respInfo = some ⟨requestID, some respCh⟩ → handled.reply =
        some ⟨requestID, if refusals outcomes = [] then .success else .error, "", refusals outcomes⟩) ∧
      (∀ reply, handled.reply = some reply → reply.failures = refusals outcomes) ∧
      ∀ clock', handled.partition.StaysSmall payload.jobs clock' →
        ∃ again, handled.partition.handleAddJobs cmd clock' = .ok again ∧
          (∀ id, again.partition.Live id ↔ handled.partition.Live id) ∧
          again.partition.processQueue = handled.partition.processQueue := by
  obtain ⟨handled, outcomes, ok, processed, plain, told⟩ := handleAddJobs_processed carried run.plain named small
  refine ⟨handled, outcomes, ok, processed, ?_, ?_, fun clock' small' => ?_⟩
  · intro requestID respCh asked
    rw [told, answer, asked]
  · intro reply offered
    rw [told, answer] at offered
    split at offered <;> cases offered
    rfl
  · obtain ⟨again, _, ok', repeated, -, -⟩ := handleAddJobs_processed carried plain named small'
    exact ⟨again, ok', repeated.idle processed.settled⟩

private def intakeConfig : PartitionConfig := ⟨2, 3, 20, 1, 1000, 1000⟩

private def intakeClock : Nat → Clock := fun i => ⟨5000 + i, 5⟩

private def jobNamed (id : String) : Job := ⟨id, "t", [], false, 1⟩

private def adding (jobs : List Job) : Command :=
  { type := .addJobs, addJobs := some ⟨"t", jobs⟩, respInfo := some ⟨9, some 0⟩ }

/-- One job is stored before; of the batch one is known, one flagged done, one fits. -/
private def mixedBatch : List Job :=
  [jobNamed "a", jobNamed "b", { jobNamed "d" with done := true }, jobNamed "c", jobNamed "b"]

private def oneStored : Partition :=
  ⟨"t", intakeConfig, ⟨[jobNamed "a"], [], FinMap.empty.set "a" 0, 62⟩,
    ⟨[⟨0, 0, 0, 5⟩, tombstone], 1⟩, .new, .new 1000 1000 0, .empty⟩

private theorem oneStored_run :
    NamedRun "t" intakeConfig 0 [.command (adding [jobNamed "a"]) intakeClock] oneStored := by
  refine Run.next .start ?_ ⟨{ accepted := [("a", 0)] }, rfl⟩
  rintro payload - same
  cases same
  exact ⟨by simp [jobNamed], staysSmall_of_slots (new_valid _ _ _) (by decide)⟩

theorem mixed_batch_accepted : ∃ handled outcomes,
    oneStored.handleAddJobs (adding mixedBatch) intakeClock = .ok handled ∧
    Processed oneStored mixedBatch intakeClock handled.partition outcomes ∧
    refusals outcomes = [⟨"c", .queueFull⟩] ∧ handled.reply = some ⟨9, .error, "", [⟨"c", .queueFull⟩]⟩ := by
  obtain ⟨handled, outcomes, ok, processed, answered, told, -⟩ := @batch_partially_accepted oneStored intakeClock
    _ _ _ _ (adding mixedBatch) _ oneStored_run rfl (by simp [mixedBatch, jobNamed])
    (staysSmall_of_slots oneStored_run.plain.valid (by decide))
  have replied : (oneStored.handleAddJobs (adding mixedBatch) intakeClock).map Handled.reply =
      .ok (some ⟨9, .error, "", [⟨"c", .queueFull⟩]⟩) := rfl
  rw [ok] at replied
  have refused : refusals outcomes = [⟨"c", .queueFull⟩] := (told _ (Except.ok.inj replied)).symm
  refine ⟨handled, outcomes, ok, processed, refused, ?_⟩
  rw [answered 9 0 rfl, refused]
  rfl

end Cue.State.Partition
