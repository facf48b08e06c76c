import Cue.ReplicaAgreement

/-! A partition that is given commands and nothing else, as after a restart. As
long as the queue has room, what is stored under an ID follows from the
commands alone, and each ID goes its own way. -/
namespace Cue.State.Partition
open Cue.Lib Cue.Model

variable {p p' : Partition} {cmd : Command} {job : Job} {jobs : List Job}

/-- The commands of a channel, one after the other; `clock i` is read during the `i`-th. -/
def processAll : Partition → List Command → (Nat → Nat → Clock) → Except Panic Partition
  | p, [], _ => .ok p
  | p, cmd :: cmds, clock =>
    match p.handleCommand cmd (clock 0) with
    | .error panicked => .error panicked
    | .ok handled => handled.partition.processAll cmds fun i => clock (i + 1)

/-! ### One ID -/

/-- A job without the time that the clock gave it. -/
def unstamped (job : Job) : Job := { job with createdAt := 0 }

def stored (p : Partition) (id : String) : Option Job := (p.jobStore.view id).map unstamped

/-- The live job under an ID that is not done. -/
def waiting (p : Partition) (id : String) : Option Job := (p.stored id).filter fun job => !job.done

/-- The job is accepted under its ID unless it is flagged done or the ID is taken. -/
def offer (id : String) (stored : Option Job) (job : Job) : Option Job :=
  if job.id = id ∧ job.done = false ∧ stored = none then some (unstamped job) else stored

/-- The jobs of an `AddJobs` command. -/
def batchOf (cmd : Command) : List Job :=
  match cmd.type, cmd.addJobs with
  | .addJobs, some payload => payload.jobs
  | _, _ => []

def finishedBy (cmd : Command) : List String :=
  match cmd.type, cmd.done with
  | .done, some payload => payload.jobIDs
  | _, _ => []

def droppedBy (cmd : Command) : List String :=
  match cmd.type, cmd.drop with
  | .drop, some payload => payload.jobIDs
  | _, _ => []

/-- What is stored under an ID after a command for which the queue has room. -/
def storedAfter (id : String) (stored : Option Job) (cmd : Command) : Option Job :=
  let stored := (batchOf cmd).foldl (offer id) stored
  let stored := if id ∈ finishedBy cmd then stored.map fun job => { job with done := true } else stored
  if id ∈ droppedBy cmd then none else stored

private theorem unstamped_stamped (job : Job) (nowMilli : Int) : unstamped (stamped job nowMilli) = unstamped job := by
  unfold stamped
  split <;> rfl

/-! ### One command -/

/-- What holds of a partition that only ever got commands without empty IDs. -/
structure Plain (p : Partition) : Prop where
  valid : p.Valid
  anonymous : p.jobStore.byID.get "" = none

/-- From `p` to `p'` with a batch of `count` jobs at most. -/
structure Advanced (p : Partition) (count : Nat) (p' : Partition) : Prop where
  plain : p'.Plain
  slots : p'.jobStore.jobs.length ≤ p.jobStore.jobs.length + count
  cells : p'.freeCells ≤ p.freeCells

/-- Adding a job fails only for one without an ID that has to be released again. -/
theorem addJob_succeeds (valid : p.Valid) (room : p.jobStore.freeList = [] → p.jobStore.jobs.length + 1 < 2 ^ 32)
    (named : job.id = "" → job.done = true ∨ p.jobStore.byID.contains job.id = true ∨ 0 < p.freeCells)
    (clock : Clock) : ∃ p' outcome, p.addJob job clock = .ok (p', outcome) := by
  unfold addJob
  split
  · exact ⟨_, _, rfl⟩
  · rename_i unflagged
    rcases JobStore.create_cases (stamped job clock.nowMilli) valid.store room with
      ⟨refused, _⟩ | ⟨idx, js, taken, created⟩
    · rw [refused]
      exact ⟨_, _, rfl⟩
    · rw [taken]
      simp only
      split
      · exact ⟨_, _, rfl⟩
      · rename_i full
        have present : job.id ≠ "" := by
          intro empty
          have fresh := created.fresh
          have full := (ProcessQueue.addNewJob_none valid.queue).mp full
          rw [stamped_id] at fresh
          rcases named empty with flagged | known | spare
          · exact unflagged flagged
          · simp [FinMap.contains, fresh] at known
          · simp [freeCells, full] at spare
        obtain ⟨js', released⟩ := JobStore.release_ok created.valid created.slot (by simpa using present)
        rw [released]
        exact ⟨_, _, rfl⟩

theorem addJob_ok (valid : p.Valid) (slots : p.jobStore.jobs.length + 1 < 2 ^ 32)
    (named : job.id = "" → job.done = true ∨ p.jobStore.byID.contains job.id = true ∨ 0 < p.freeCells)
    (clock : Clock) : ∃ p' outcome, p.addJob job clock = .ok (p', outcome) :=
  addJob_succeeds valid (fun _ => slots) named clock

/-- Unless the queue was full, a job is stored exactly if it is offered under a new ID. -/
theorem Added.stored_offer {clock : Clock} {outcome : AddOutcome} (added : Added p job clock p' outcome)
    (valid : p.Valid) (taken : outcome ≠ .queueFull) (id : String) : p'.stored id = offer id (p.stored id) job := by
  cases added with
  | alreadyDone flagged => simp [offer, flagged]
  | duplicate unflagged known =>
    unfold offer
    split
    · rename_i new
      obtain ⟨rfl, _, absent⟩ := new
      have held := JobStore.view_isSome valid.store job.id
      simp only [stored, Option.map_eq_none_iff] at absent
      simp [absent, FinMap.contains, known] at held
    · rfl
  | accepted unflagged created room queued queueValid capacity count =>
    have fresh := created.fresh
    simp only [stamped_id] at fresh
    have absent := (JobStore.view_none valid.store job.id).mpr fresh
    simp only [stored, JobStore.created_view created, stamped_id, Function.update_apply, offer]
    by_cases here : id = job.id
    · subst here
      simp [absent, unflagged, unstamped_stamped]
    · simp [here, Ne.symm here]
  | queueFull => exact absurd rfl taken

/-- With a cell to spare afterwards, a job is stored exactly if it is offered under a new ID. -/
theorem addJob_advanced (plain : p.Plain) (slots : p.jobStore.jobs.length + 1 < 2 ^ 32) (named : job.id ≠ "")
    (clock : Clock) : ∃ p' outcome, p.addJob job clock = .ok (p', outcome) ∧ Advanced p 1 p' ∧
      (0 < p'.freeCells → ∀ id, p'.stored id = offer id (p.stored id) job) := by
  obtain ⟨p', outcome, ok⟩ := addJob_ok plain.valid slots (fun empty => absurd empty named) clock
  have added := addJob_spec plain.valid slots ok
  have stored := added.stored_offer plain.valid
  refine ⟨p', outcome, ok, ?_⟩
  have valid := added.valid plain.valid
  have length := added.length
  cases added with
  | alreadyDone flagged => exact ⟨⟨plain, length, Nat.le_refl _⟩, fun _ => stored nofun⟩
  | duplicate unflagged known => exact ⟨⟨plain, length, Nat.le_refl _⟩, fun _ => stored nofun⟩
  | accepted unflagged created room queued queueValid capacity count =>
    refine ⟨⟨⟨valid, ?_⟩, length, ?_⟩, fun _ => stored nofun⟩
    · rw [created.named, FinMap.get_set, stamped_id, if_neg (Ne.symm named)]
      exact plain.anonymous
    · simp only [freeCells, capacity, count]
      omega
  | queueFull unflagged fresh refused full =>
    refine ⟨⟨⟨valid, ?_⟩, length, Nat.le_refl _⟩, fun spare => ?_⟩
    · rw [refused.named]
      exact plain.anonymous
    · simp [freeCells, full] at spare

theorem addJobs_advanced (plain : p.Plain) (slots : p.jobStore.jobs.length + jobs.length < 2 ^ 32)
    (named : ∀ job ∈ jobs, job.id ≠ "") (clock : Nat → Clock) :
    ∃ p' outcomes, p.addJobs jobs clock = .ok (p', outcomes) ∧ Advanced p jobs.length p' ∧
      (0 < p'.freeCells → ∀ id, p'.stored id = jobs.foldl (offer id) (p.stored id)) := by
  induction jobs generalizing p clock with
  | nil => exact ⟨p, [], rfl, ⟨plain, Nat.le_refl _, Nat.le_refl _⟩, fun _ _ => rfl⟩
  | cons job jobs ih =>
    simp only [List.length_cons] at slots
    obtain ⟨middle, outcome, first, here, offered⟩ := addJob_advanced plain (by omega)
      (named job List.mem_cons_self) (clock 0)
    have grown := here.slots
    obtain ⟨p', outcomes, rest, later, offeredRest⟩ := ih here.plain (by omega)
      (fun job member => named job (List.mem_cons_of_mem _ member)) fun i => clock (i + 1)
    have more := later.slots
    have fewer := later.cells
    refine ⟨p', (job.id, outcome) :: outcomes, ?_, ⟨later.plain, ?_, fewer.trans here.cells⟩, ?_⟩
    · simp only [addJobs, first, rest]
    · simp only [List.length_cons]
      omega
    · intro spare id
      rw [offeredRest spare, offered (by omega), List.foldl_cons]

private theorem finished_stored {js : JobStore} {ids : List String} (valid : p.jobStore.Valid)
    (finished : Finished p.jobStore ids js) (id : String) :
    stored { p with jobStore := js } id =
      if id ∈ ids then (p.stored id).map fun job => { job with done := true } else p.stored id := by
  simp only [stored, finished.view]
  cases held : p.jobStore.view id with
  | none => simp
  | some job =>
    have same := JobStore.view_id valid held
    subst same
    simp only [Option.map_some, marked]
    split <;> rfl

theorem forceReleaseAll_ok {js : JobStore} {ids : List String} (valid : js.Valid)
    (anonymous : "" ∈ ids → js.byID.get "" = none) : ∃ js', forceReleaseAll js ids = .ok js' := by
  induction ids generalizing js with
  | nil => exact ⟨js, rfl⟩
  | cons id ids ih =>
    obtain ⟨middle, first⟩ := @JobStore.forceRelease_ok js valid id fun empty => anonymous (by simp [empty])
    have dropped := forceReleaseAll_spec [id] valid (show forceReleaseAll js [id] = .ok middle by
      simp [forceReleaseAll, first])
    obtain ⟨js', rest⟩ := ih dropped.valid fun later => by
      rw [dropped.named, anonymous (List.mem_cons_of_mem _ later)]
      split <;> rfl
    refine ⟨js', ?_⟩
    rw [forceReleaseAll, List.foldlM_cons, first]
    exact rest

/-- A command never panics here, and changes what is stored as `storedAfter` says. -/
theorem handleCommand_advanced (plain : p.Plain) (slots : p.jobStore.jobs.length + (batchOf cmd).length < 2 ^ 32)
    (named : ∀ job ∈ batchOf cmd, job.id ≠ "") (clock : Nat → Clock) :
    ∃ handled, p.handleCommand cmd clock = .ok handled ∧ Advanced p (batchOf cmd).length handled.partition ∧
      (0 < handled.partition.freeCells → ∀ id, handled.partition.stored id = storedAfter id (p.stored id) cmd) := by
  have idle : Advanced p 0 p := ⟨plain, Nat.le_refl _, Nat.le_refl _⟩
  unfold handleCommand storedAfter
  cases type : cmd.type with
  | addJobs =>
    cases present : cmd.addJobs with
    | none =>
      simp only [handleAddJobs, present, batchOf, finishedBy, droppedBy, type]
      exact ⟨_, rfl, idle, fun _ _ => rfl⟩
    | some payload =>
      simp only [handleAddJobs, present, batchOf, finishedBy, droppedBy, type] at slots named ⊢
      obtain ⟨p', outcomes, added, advanced, offered⟩ := addJobs_advanced plain slots named clock
      rw [added]
      exact ⟨_, rfl, advanced, offered⟩
  | done =>
    cases present : cmd.done with
    | none =>
      simp only [handleDone, present, batchOf, finishedBy, droppedBy, type]
      exact ⟨_, rfl, idle, fun _ _ => rfl⟩
    | some payload =>
      simp only [handleDone, present, batchOf, finishedBy, droppedBy, type]
      obtain ⟨js, marked, finished⟩ := markDoneAll_spec payload.jobIDs plain.valid.store
      rw [marked]
      refine ⟨_, rfl, ⟨⟨⟨finished.valid, plain.valid.queue⟩, ?_⟩, Nat.le_of_eq finished.length, Nat.le_refl _⟩, ?_⟩
      · simp only [finished.named]
        exact plain.anonymous
      · intro _ id
        exact finished_stored plain.valid.store finished id
  | drop =>
    cases present : cmd.drop with
    | none =>
      simp only [handleDrop, present, batchOf, finishedBy, droppedBy, type]
      exact ⟨_, rfl, idle, fun _ _ => rfl⟩
    | some payload =>
      simp only [handleDrop, present, batchOf, finishedBy, droppedBy, type]
      obtain ⟨js, released⟩ := @forceReleaseAll_ok _ payload.jobIDs plain.valid.store fun _ => plain.anonymous
      have dropped := forceReleaseAll_spec payload.jobIDs plain.valid.store released
      rw [released]
      refine ⟨_, rfl, ⟨⟨⟨dropped.valid, plain.valid.queue⟩, ?_⟩, Nat.le_of_eq dropped.length, Nat.le_refl _⟩, ?_⟩
      · simp only [dropped.named, plain.anonymous]
        split <;> rfl
      · intro _ id
        simp only [stored, dropped.view]
        split <;> rfl
  | _ =>
    simp only [batchOf, finishedBy, droppedBy, type]
    exact ⟨_, rfl, idle, fun _ _ => rfl⟩

/-! ### A channel of commands -/

theorem processAll_advanced {cmds : List Command} (plain : p.Plain)
    (slots : p.jobStore.jobs.length + (cmds.flatMap batchOf).length < 2 ^ 32)
    (named : ∀ job ∈ cmds.flatMap batchOf, job.id ≠ "") (clock : Nat → Nat → Clock) :
    ∃ p', p.processAll cmds clock = .ok p' ∧ Advanced p (cmds.flatMap batchOf).length p' ∧
      (0 < p'.freeCells → ∀ id, p'.stored id = cmds.foldl (storedAfter id) (p.stored id)) := by
  induction cmds generalizing p clock with
  | nil => exact ⟨p, rfl, ⟨plain, Nat.le_refl _, Nat.le_refl _⟩, fun _ _ => rfl⟩
  | cons cmd cmds ih =>
    simp only [List.flatMap_cons, List.length_append, List.mem_append] at slots named
    obtain ⟨handled, first, here, after⟩ := handleCommand_advanced plain (by omega)
      (fun job member => named job (Or.inl member)) (clock 0)
    have grown := here.slots
    obtain ⟨p', rest, later, afterRest⟩ := ih here.plain (by omega)
      (fun job member => named job (Or.inr member)) fun i => clock (i + 1)
    have more := later.slots
    have fewer := later.cells
    refine ⟨p', ?_, ⟨later.plain, ?_, fewer.trans here.cells⟩, ?_⟩
    · simp only [processAll, first, rest]
    · simp only [List.flatMap_cons, List.length_append]
      omega
    · intro spare id
      rw [afterRest spare, after (by omega), List.foldl_cons]

/-- A new partition that got the commands of a channel. -/
theorem new_processAll (topic : String) (config : PartitionConfig) (nowMilli : Int) {cmds : List Command}
    (few : (cmds.flatMap batchOf).length < 2 ^ 32) (named : ∀ job ∈ cmds.flatMap batchOf, job.id ≠ "")
    (clock : Nat → Nat → Clock) :
    ∃ p, (new topic config nowMilli).processAll cmds clock = .ok p ∧
      (0 < p.freeCells → ∀ id, p.stored id = cmds.foldl (storedAfter id) none) := by
  obtain ⟨p, processed, _, after⟩ := processAll_advanced ⟨new_valid topic config nowMilli, rfl⟩
    (by simpa [new, JobStore.new] using few) named clock
  exact ⟨p, processed, after⟩

/-! ### Queues that are never exceeded -/

/-- No command of the channel brings more new jobs than the queue has free cells. -/
def KeepsRoom : Partition → List Command → (Nat → Nat → Clock) → Prop
  | _, [], _ => True
  | p, cmd :: cmds, clock => p.newcomers (batchOf cmd) ≤ p.freeCells ∧
    match p.handleCommand cmd (clock 0) with
    | .error _ => True
    | .ok handled => KeepsRoom handled.partition cmds fun i => clock (i + 1)

instance decidableKeepsRoom : (p : Partition) → (cmds : List Command) → (clock : Nat → Nat → Clock) →
    Decidable (p.KeepsRoom cmds clock)
  | _, [], _ => .isTrue trivial
  | p, cmd :: cmds, clock => by
    unfold KeepsRoom
    cases p.handleCommand cmd (clock 0) with
    | error _ => exact inferInstanceAs (Decidable (_ ∧ True))
    | ok handled =>
      have := decidableKeepsRoom handled.partition cmds fun i => clock (i + 1)
      exact inferInstanceAs (Decidable (_ ∧ _))

/-- No job was refused so far: every slot has a cell of its own. -/
structure Tight (p : Partition) : Prop where
  valid : p.Valid
  slots : p.jobStore.jobs.length ≤ p.processQueue.liveCount
  small : p.processQueue.records.length + 1 < 2 ^ 32

theorem Tight.spare (tight : p.Tight) : p.jobStore.jobs.length + 1 < 2 ^ 32 := by
  have := tight.slots
  have := tight.small
  have := tight.valid.queue.fits
  omega

theorem addJob_roomy (tight : p.Tight) (room : p.newcomers (job :: jobs) ≤ p.freeCells) (clock : Clock) :
    ∃ p' outcome, p.addJob job clock = .ok (p', outcome) ∧ p'.Tight ∧ p'.newcomers jobs ≤ p'.freeCells ∧
      ∀ id, p'.stored id = offer id (p.stored id) job := by
  have free : job.done = false → p.jobStore.byID.contains job.id = false → 0 < p.freeCells := by
    intro unflagged unknown
    exact (newcomers_pos jobs unflagged unknown).trans_le room
  obtain ⟨p', outcome, ok⟩ := addJob_ok tight.valid tight.spare (fun _ => by
    cases flagged : job.done with
    | true => exact Or.inl rfl
    | false =>
      cases known : p.jobStore.byID.contains job.id with
      | true => exact Or.inr (Or.inl rfl)
      | false => exact Or.inr (Or.inr (free flagged known))) clock
  have added := addJob_spec tight.valid tight.spare ok
  have taken : outcome ≠ .queueFull := by
    rintro rfl
    cases added with
    | queueFull unflagged fresh _ full =>
      have := free unflagged (by simp [FinMap.contains, fresh])
      simp [freeCells, full] at this
  refine ⟨p', outcome, ok, ⟨added.valid tight.valid, ?_, ?_⟩, ?_, added.stored_offer tight.valid taken⟩
  · have slots := tight.slots
    cases added with
    | alreadyDone => exact slots
    | duplicate => exact slots
    | accepted _ created _ _ _ _ count =>
      have := (JobStore.created_length created).1
      simp only [count]
      omega
    | queueFull => exact absurd rfl taken
  · cases added with
    | alreadyDone => exact tight.small
    | duplicate => exact tight.small
    | accepted _ _ _ _ _ capacity => exact capacity ▸ tight.small
    | queueFull => exact absurd rfl taken
  · cases flagged : job.done with
    | true =>
      have still : p' = p := by cases added <;> simp_all
      rw [newcomers_flagged flagged] at room
      rwa [still]
    | false =>
      rcases added_unflagged flagged added with ⟨known, rfl⟩ | ⟨unknown, _, less, _, names⟩ | ⟨unknown, full, _⟩
      · rwa [newcomers_known known] at room
      · have := newcomers_accepted jobs flagged unknown names
        omega
      · have := free flagged unknown
        omega

theorem addJobs_roomy (tight : p.Tight) (room : p.newcomers jobs ≤ p.freeCells) (clock : Nat → Clock) :
    ∃ p' outcomes, p.addJobs jobs clock = .ok (p', outcomes) ∧ p'.Tight ∧
      ∀ id, p'.stored id = jobs.foldl (offer id) (p.stored id) := by
  induction jobs generalizing p clock with
  | nil => exact ⟨p, [], rfl, tight, fun _ => rfl⟩
  | cons job jobs ih =>
    obtain ⟨middle, outcome, first, here, left, offered⟩ := addJob_roomy tight room (clock 0)
    obtain ⟨p', outcomes, rest, later, offeredRest⟩ := ih here left fun i => clock (i + 1)
    refine ⟨p', (job.id, outcome) :: outcomes, ?_, later, fun id => ?_⟩
    · simp only [addJobs, first, rest]
    · rw [offeredRest, offered, List.foldl_cons]

private theorem forceReleaseAll_anonymous {js : JobStore} {ids : List String} (valid : js.Valid)
    (held : js.byID.get "" ≠ none) (member : "" ∈ ids) : forceReleaseAll js ids = .error .doubleRelease := by
  obtain ⟨i, here⟩ := Option.ne_none_iff_exists'.mp held
  induction ids generalizing js with
  | nil => cases member
  | cons id ids ih =>
    rw [forceReleaseAll, List.foldlM_cons]
    by_cases empty : id = ""
    · rw [empty, JobStore.forceRelease_anonymous valid here]
      rfl
    · obtain ⟨middle, first⟩ := @JobStore.forceRelease_ok js valid id fun same => absurd same empty
      have dropped := forceReleaseAll_spec [id] valid (show forceReleaseAll js [id] = .ok middle by
        simp [forceReleaseAll, first])
      have still : middle.byID.get "" = some i := by
        rw [dropped.named, if_neg (by simpa using Ne.symm empty), here]
      rw [first]
      exact ih dropped.valid (by simp [still]) ((List.mem_cons.mp member).resolve_left (Ne.symm empty)) still

theorem stored_none (valid : p.Valid) {id : String} : p.stored id = none ↔ p.jobStore.byID.get id = none := by
  rw [stored, Option.map_eq_none_iff, JobStore.view_none valid.store]

/-- With room in the queue a command fails only if it drops a job without an ID. -/
theorem handleCommand_roomy (tight : p.Tight) (room : p.newcomers (batchOf cmd) ≤ p.freeCells)
    (clock : Nat → Clock) :
    (("" ∈ droppedBy cmd → p.stored "" = none) ∧ ∃ handled, p.handleCommand cmd clock = .ok handled ∧
      handled.partition.Tight ∧ ∀ id, handled.partition.stored id = storedAfter id (p.stored id) cmd) ∨
    ¬ ("" ∈ droppedBy cmd → p.stored "" = none) ∧ p.handleCommand cmd clock = .error .doubleRelease := by
  unfold handleCommand storedAfter
  cases type : cmd.type with
  | addJobs =>
    refine Or.inl ⟨by simp [droppedBy, type], ?_⟩
    cases present : cmd.addJobs with
    | none =>
      simp only [handleAddJobs, present, batchOf, finishedBy, droppedBy, type]
      exact ⟨_, rfl, tight, fun _ => rfl⟩
    | some payload =>
      simp only [handleAddJobs, present, batchOf, finishedBy, droppedBy, type] at room ⊢
      obtain ⟨p', outcomes, added, after, offered⟩ := addJobs_roomy tight room clock
      rw [added]
      exact ⟨_, rfl, after, offered⟩
  | done =>
    refine Or.inl ⟨by simp [droppedBy, type], ?_⟩
    cases present : cmd.done with
    | none =>
      simp only [handleDone, present, batchOf, finishedBy, droppedBy, type]
      exact ⟨_, rfl, tight, fun _ => rfl⟩
    | some payload =>
      simp only [handleDone, present, batchOf, finishedBy, droppedBy, type]
      obtain ⟨js, marked, finished⟩ := markDoneAll_spec payload.jobIDs tight.valid.store
      rw [marked]
      refine ⟨_, rfl, ⟨⟨finished.valid, tight.valid.queue⟩, ?_, tight.small⟩, ?_⟩
      · exact finished.length ▸ tight.slots
      · exact finished_stored tight.valid.store finished
  | drop =>
    cases present : cmd.drop with
    | none =>
      refine Or.inl ⟨by simp [droppedBy, type, present], ?_⟩
      simp only [handleDrop, present, batchOf, finishedBy, droppedBy, type]
      exact ⟨_, rfl, tight, fun _ => rfl⟩
    | some payload =>
      simp only [handleDrop, present, batchOf, finishedBy, droppedBy, type, stored_none tight.valid]
      by_cases safe : "" ∈ payload.jobIDs → p.jobStore.byID.get "" = none
      · obtain ⟨js, released⟩ := forceReleaseAll_ok tight.valid.store safe
        have dropped := forceReleaseAll_spec payload.jobIDs tight.valid.store released
        rw [released]
        refine Or.inl ⟨safe, _, rfl, ⟨⟨dropped.valid, tight.valid.queue⟩, ?_, tight.small⟩, fun id => ?_⟩
        · exact dropped.length ▸ tight.slots
        · simp only [stored, dropped.view]
          split <;> rfl
      · obtain ⟨member, held⟩ := Classical.not_imp.mp safe
        rw [forceReleaseAll_anonymous tight.valid.store held member]
        exact Or.inr ⟨safe, rfl⟩
  | _ =>
    refine Or.inl ⟨by simp [droppedBy, type], ?_⟩
    simp only [batchOf, finishedBy, droppedBy, type]
    exact ⟨_, rfl, tight, fun _ => rfl⟩

/-- No command drops the empty ID while a job is stored under it. -/
def DropsSafely : Option Job → List Command → Prop
  | _, [] => True
  | anonymous, cmd :: cmds =>
    ("" ∈ droppedBy cmd → anonymous = none) ∧ DropsSafely (storedAfter "" anonymous cmd) cmds

theorem processAll_roomy {cmds : List Command} {clock : Nat → Nat → Clock} (tight : p.Tight)
    (room : p.KeepsRoom cmds clock) :
    (DropsSafely (p.stored "") cmds ∧ ∃ p', p.processAll cmds clock = .ok p' ∧
      ∀ id, p'.stored id = cmds.foldl (storedAfter id) (p.stored id)) ∨
    ¬ DropsSafely (p.stored "") cmds ∧ p.processAll cmds clock = .error .doubleRelease := by
  induction cmds generalizing p clock with
  | nil => exact Or.inl ⟨trivial, p, rfl, fun _ => rfl⟩
  | cons cmd cmds ih =>
    obtain ⟨here, later⟩ := room
    rcases handleCommand_roomy tight here (clock 0) with ⟨safe, handled, ok, after, stored⟩ | ⟨risky, failed⟩
    · rw [ok] at later
      rcases ih after later with ⟨safeRest, p', rest, storedRest⟩ | ⟨riskyRest, failed⟩
      · refine Or.inl ⟨⟨safe, stored "" ▸ safeRest⟩, p', ?_, fun id => ?_⟩
        · simp only [processAll, ok, rest]
        · rw [storedRest, stored, List.foldl_cons]
      · refine Or.inr ⟨fun both => riskyRest (stored "" ▸ both.2), ?_⟩
        simp only [processAll, ok, failed]
    · refine Or.inr ⟨fun both => risky both.1, ?_⟩
      simp only [processAll, failed]

theorem new_tight (topic : String) (config : PartitionConfig) (nowMilli : Int)
    (small : config.activeQueueCapacity + 1 < 2 ^ 32) : (new topic config nowMilli).Tight :=
  ⟨new_valid topic config nowMilli, Nat.le_refl _, by simpa [new, ProcessQueue.new] using small⟩

end Cue.State.Partition
