import Cue.PartitionReplay

/-! Done is final. The store keeps two things even past the slot count at which
`uint32` wraps: a slot that a record can refer to is named by the ID of its job,
and a finished job stays finished until it is released. A dispatch sends only
what it finds unfinished in such a slot. -/
namespace Cue.State
open Cue.Lib Cue.Model

/-! ### The store -/

namespace JobStore

variable {js js' : JobStore} {id : String} {idx : Nat} {job : Job}

/-- IDs name slots of the array, and a job that a record can reach is named by its ID. -/
structure Named (js : JobStore) : Prop where
  inside : ∀ id i, js.byID.get id = some i → i < js.jobs.length
  reached : ∀ i < 2 ^ 32, ∀ job, js.jobs[i]? = some job → job.id ≠ "" → js.byID.get job.id = some i

/-- Every job under the ID that a record can reach is finished. -/
def Over (id : String) (js : JobStore) : Prop :=
  ∀ i < 2 ^ 32, ∀ job, js.jobs[i]? = some job → job.id ≠ "" → job.id = id → job.done = true

theorem new_named (capacity : Nat) : (new capacity).Named := ⟨by simp [new], by simp [new]⟩

theorem over_of_absent (named : js.Named) (absent : js.byID.get id = none) : js.Over id := by
  rintro i small job slot nonempty rfl
  rw [named.reached i small job slot nonempty] at absent
  cases absent

theorem release_named (named : js.Named) (ok : js.release idx = .ok js') :
    js'.Named ∧ ∀ id, js.Over id → js'.Over id := by
  unfold release at ok
  split at ok
  · cases ok
    exact ⟨named, fun _ ended => ended⟩
  · rename_i below
    have small : idx < 2 ^ 32 := Nat.lt_trans (Nat.not_le.mp below) (Nat.mod_lt _ (by decide))
    split at ok
    · cases ok
    · rename_i job slot
      split at ok
      · cases ok
      · rename_i nonempty
        cases ok
        have owner := named.reached idx small job slot nonempty
        have others : ∀ (i : Nat) other, (js.jobs.set idx Job.zero)[i]? = some other → other.id ≠ "" →
            i ≠ idx ∧ js.jobs[i]? = some other := by
          intro i other found filled
          rw [List.getElem?_set] at found
          split at found
          · split at found
            · cases found
              exact absurd rfl filled
            · cases found
          · rename_i apart
            exact ⟨Ne.symm apart, found⟩
        refine ⟨⟨?_, ?_⟩, ?_⟩
        · intro id i found
          rw [FinMap.get_delete] at found
          split at found
          · cases found
          · simpa using named.inside id i found
        · intro i reach other found filled
          obtain ⟨apart, before⟩ := others i other found filled
          have kept := named.reached i reach other before filled
          rw [FinMap.get_delete, if_neg]
          · exact kept
          · intro same
            rw [same, owner] at kept
            exact apart (Option.some.inj kept).symm
        · intro id ended i reach other found filled
          exact ended i reach other (others i other found filled).2 filled

theorem forceRelease_named (named : js.Named) (ok : js.forceRelease id = .ok js') :
    js'.Named ∧ ∀ other, js.Over other → js'.Over other := by
  unfold forceRelease at ok
  split at ok
  · cases ok
    exact ⟨named, fun _ ended => ended⟩
  · exact release_named named ok

/-- A new job, in a slot of its own or past the reach of records. -/
private theorem named_of_new (named : js.Named) (fresh : js.byID.get job.id = none)
    (stored : js'.byID = js.byID.set job.id idx) (bound : idx < js'.jobs.length)
    (longer : js.jobs.length ≤ js'.jobs.length)
    (slots : ∀ i < 2 ^ 32, ∀ other, js'.jobs[i]? = some other → i = idx ∧ other = job ∨ js.jobs[i]? = some other) :
    js'.Named ∧ js.byID.get job.id = none ∧ js'.byID.get job.id = some idx ∧
      ∀ other, other ≠ job.id → js.Over other → js'.Over other := by
  refine ⟨⟨?_, ?_⟩, fresh, by rw [stored, FinMap.get_set_self], ?_⟩
  · intro id i found
    rw [stored, FinMap.get_set] at found
    split at found
    · cases found
      exact bound
    · exact Nat.lt_of_lt_of_le (named.inside id i found) longer
  · intro i small other found filled
    rw [stored, FinMap.get_set]
    rcases slots i small other found with ⟨rfl, rfl⟩ | before
    · rw [if_pos rfl]
    · have kept := named.reached i small other before filled
      rw [if_neg, kept]
      intro same
      rw [same, fresh] at kept
      cases kept
  · intro id apart ended i small other found filled same
    rcases slots i small other found with ⟨_, rfl⟩ | before
    · exact absurd same.symm apart
    · exact ended i small other before filled same

theorem create_named (named : js.Named) (ok : js.create job = .ok (some (idx, js'))) :
    js'.Named ∧ js.byID.get job.id = none ∧ js'.byID.get job.id = some idx ∧
      ∀ other, other ≠ job.id → js.Over other → js'.Over other := by
  unfold create at ok
  split at ok
  · cases ok
  · rename_i unknown
    have fresh : js.byID.get job.id = none := by simpa [FinMap.contains] using unknown
    split at ok
    · split at ok
      · cases ok
      · rename_i slot found
        have bound := (List.getElem?_eq_some_iff.mp found).1
        split at ok
        · cases ok
        · cases ok
          refine named_of_new named fresh rfl (by simpa using bound) (by simp) ?_
          intro i _ other there
          rw [List.getElem?_set] at there
          split at there
          · rename_i here
            exact Or.inl ⟨here.symm, (Option.some.inj there).symm⟩
          · exact Or.inr there
    · cases ok
      refine named_of_new named fresh rfl (Nat.lt_of_le_of_lt (Nat.mod_le _ _) (by simp)) (by simp) ?_
      intro i small other there
      rcases Nat.lt_or_ge i js.jobs.length with old | new
      · rw [List.getElem?_append_left old] at there
        exact Or.inr there
      · have last : i = js.jobs.length := by
          have bound := (List.getElem?_eq_some_iff.mp there).1
          simp only [List.length_append, List.length_singleton] at bound
          omega
        subst last
        refine Or.inl ⟨(Nat.mod_eq_of_lt small).symm, ?_⟩
        simpa using there.symm

/-- The slots that these IDs name, flagged. -/
def flagged (js : JobStore) (ids : List String) : JobStore :=
  { js with jobs := js.jobs.mapIdx fun i job =>
    if ∃ id ∈ ids, js.byID.get id = some i then { job with done := true } else job }

theorem flagged_slot (js : JobStore) (ids : List String) (i : Nat) :
    (js.flagged ids).jobs[i]? = (js.jobs[i]?).map fun job =>
      if ∃ id ∈ ids, js.byID.get id = some i then { job with done := true } else job := by
  simp [flagged, List.getElem?_mapIdx]

theorem flagged_nil (js : JobStore) : js.flagged [] = js := by
  have same : (js.flagged []).jobs = js.jobs := by
    apply List.ext_getElem?
    intro i
    simp [flagged_slot]
  exact congrArg (fun jobs => { js with jobs := jobs }) same

theorem flagged_append (js : JobStore) (ids ids' : List String) :
    (js.flagged ids).flagged ids' = js.flagged (ids ++ ids') := by
  have same : ((js.flagged ids).flagged ids').jobs = (js.flagged (ids ++ ids')).jobs := by
    apply List.ext_getElem?
    intro i
    have names : (js.flagged ids).byID = js.byID := rfl
    simp only [flagged_slot, names, List.mem_append, or_and_right, exists_or, Option.map_map]
    congr 1
    funext job
    by_cases first : ∃ id ∈ ids, js.byID.get id = some i <;>
      by_cases second : ∃ id ∈ ids', js.byID.get id = some i <;> simp [first, second]
  exact congrArg (fun jobs => { js with jobs := jobs }) same

/-- Only which IDs are named counts, not how often or in which order. -/
theorem flagged_congr {ids ids' : List String} (same : ∀ id, id ∈ ids ↔ id ∈ ids') :
    js.flagged ids = js.flagged ids' := by
  simp only [flagged, same]

theorem markDone_flagged (named : js.Named) (id : String) : js.markDone id = .ok (js.flagged [id]) := by
  unfold markDone
  cases found : js.byID.get id with
  | none =>
    have same : (js.flagged [id]).jobs = js.jobs := by
      apply List.ext_getElem?
      intro i
      simp [flagged_slot, found]
    exact congrArg (fun jobs => Except.ok { js with jobs := jobs }) same.symm
  | some idx =>
    have bound := named.inside id idx found
    have slot : js.jobs[idx]? = some js.jobs[idx] := List.getElem?_eq_getElem bound
    have same : (js.flagged [id]).jobs = js.jobs.set idx { js.jobs[idx] with done := true } := by
      apply List.ext_getElem?
      intro i
      rw [flagged_slot, List.getElem?_set]
      by_cases here : idx = i
      · subst here
        simp [found, bound]
      · simp [found, here]
    simp only [slot]
    exact congrArg (fun jobs => Except.ok { js with jobs := jobs }) same.symm

theorem flagged_named (named : js.Named) (ids : List String) :
    (js.flagged ids).Named ∧ (∀ id ∈ ids, (js.flagged ids).Over id) ∧
      ∀ id, js.Over id → (js.flagged ids).Over id := by
  have source : ∀ (i : Nat) job', (js.flagged ids).jobs[i]? = some job' → ∃ job, js.jobs[i]? = some job ∧
      job'.id = job.id ∧ ((∃ id ∈ ids, js.byID.get id = some i) ∨ job.done = true → job'.done = true) := by
    intro i job' found
    rw [flagged_slot] at found
    obtain ⟨job, slot, rfl⟩ := Option.map_eq_some_iff.mp found
    refine ⟨job, slot, ?_⟩
    split
    · exact ⟨rfl, fun _ => rfl⟩
    · rename_i unnamed
      exact ⟨rfl, fun finished => finished.resolve_left unnamed⟩
  refine ⟨⟨?_, ?_⟩, ?_, ?_⟩
  · intro id i found
    simpa [flagged] using named.inside id i found
  · intro i small job' found filled
    obtain ⟨job, slot, same, _⟩ := source i job' found
    rw [same] at filled ⊢
    exact named.reached i small job slot filled
  · rintro id member i small job' found filled rfl
    obtain ⟨job, slot, same, finished⟩ := source i job' found
    refine finished (Or.inl ⟨job'.id, member, ?_⟩)
    rw [same] at filled ⊢
    exact named.reached i small job slot filled
  · rintro id ended i small job' found filled rfl
    obtain ⟨job, slot, same, finished⟩ := source i job' found
    exact finished (Or.inr (ended i small job slot (same ▸ filled) same.symm))

end JobStore

/-! ### The partition -/

namespace Partition

variable {p p' : Partition} {id : String}

theorem markDoneAll_flagged {js : JobStore} (named : js.Named) (ids : List String) :
    markDoneAll js ids = .ok (js.flagged ids) := by
  induction ids generalizing js with
  | nil => rw [js.flagged_nil]; rfl
  | cons id ids ih =>
    have step : markDoneAll js (id :: ids) = markDoneAll (js.flagged [id]) ids := by
      simp only [markDoneAll, List.foldlM_cons, JobStore.markDone_flagged named id]
      rfl
    rw [step, ih (JobStore.flagged_named named [id]).1, JobStore.flagged_append, List.singleton_append]

/-- A job of the batch brings the ID into a store that does not hold it. -/
def Creates (p : Partition) (id : String) : List Job → (Nat → Clock) → Prop
  | [], _ => False
  | job :: jobs, clock =>
    match p.addJob job (clock 0) with
    | .ok (p', _) => (p.jobStore.byID.get id = none ∧ p'.jobStore.byID.get id ≠ none) ∨
        p'.Creates id jobs fun i => clock (i + 1)
    | .error _ => False

instance decidableCreates (id : String) : (p : Partition) → (jobs : List Job) → (clock : Nat → Clock) →
    Decidable (p.Creates id jobs clock)
  | _, [], _ => .isFalse not_false
  | p, job :: jobs, clock =>
    match added : p.addJob job (clock 0) with
    | .ok (p', _) =>
      have := decidableCreates id p' jobs fun i => clock (i + 1)
      decidable_of_iff ((p.jobStore.byID.get id = none ∧ p'.jobStore.byID.get id ≠ none) ∨
        p'.Creates id jobs fun i => clock (i + 1)) (by rw [Creates, added])
    | .error _ => .isFalse (by rw [Creates, added]; exact not_false)

/-- The step creates a job under the ID. -/
def CreatesAnew (p : Partition) (id : String) : Op → Prop
  | .command cmd clock => p.Creates id (Op.adds (.command cmd clock)) clock
  | _ => False

instance (id : String) (p : Partition) : (op : Op) → Decidable (p.CreatesAnew id op)
  | .command cmd clock => decidableCreates id p (Op.adds (.command cmd clock)) clock
  | .dispatch _ => .isFalse not_false
  | .flush _ _ => .isFalse not_false
  | .topology _ => .isFalse not_false
  | .heartbeat _ => .isFalse not_false
  | .cleanup _ _ _ => .isFalse not_false

/-! ### One step -/

theorem addJob_named {job : Job} {clock : Clock} {outcome : AddOutcome} (named : p.jobStore.Named)
    (ok : p.addJob job clock = .ok (p', outcome)) :
    p'.jobStore.Named ∧ ∀ id, ¬ (p.jobStore.byID.get id = none ∧ p'.jobStore.byID.get id ≠ none) →
      p.jobStore.Over id → p'.jobStore.Over id := by
  unfold addJob at ok
  split at ok
  · cases ok
    exact ⟨named, fun _ _ ended => ended⟩
  · split at ok
    · cases ok
    · cases ok
      exact ⟨named, fun _ _ ended => ended⟩
    · rename_i idx js created
      obtain ⟨after, fresh, stored, kept⟩ := JobStore.create_named named created
      rw [stamped_id] at fresh stored
      split at ok
      · cases ok
        refine ⟨after, fun id old => ?_⟩
        by_cases here : id = job.id
        · subst here
          exact absurd ⟨fresh, by simp [stored]⟩ old
        · exact kept id (by simpa using here)
      · split at ok
        · cases ok
        · rename_i js' released
          cases ok
          obtain ⟨final, keptAgain⟩ := JobStore.release_named after released
          refine ⟨final, fun id old ended => ?_⟩
          by_cases here : id = job.id
          · -- a job that the queue refused is gone again
            subst here
            exact JobStore.over_of_absent final (not_not.mp fun present => old ⟨fresh, present⟩)
          · exact keptAgain id (kept id (by simpa using here) ended)

theorem addJobs_named {jobs : List Job} {clock : Nat → Clock} {outcomes : List (String × AddOutcome)}
    (named : p.jobStore.Named) (ok : p.addJobs jobs clock = .ok (p', outcomes)) :
    p'.jobStore.Named ∧ ∀ id, ¬ p.Creates id jobs clock → p.jobStore.Over id → p'.jobStore.Over id := by
  induction jobs generalizing p clock outcomes with
  | nil =>
    cases ok
    exact ⟨named, fun _ _ ended => ended⟩
  | cons job jobs ih =>
    obtain ⟨middle, outcome, rest, first, others, rfl⟩ := addJobs_cons ok
    obtain ⟨between, kept⟩ := addJob_named named first
    obtain ⟨after, keptRest⟩ := ih between others
    refine ⟨after, fun id old ended => ?_⟩
    rw [Creates, first, not_or] at old
    exact keptRest id old.2 (kept id old.1 ended)

theorem forceReleaseAll_named {js js' : JobStore} {ids : List String} (named : js.Named)
    (ok : forceReleaseAll js ids = .ok js') : js'.Named ∧ ∀ id, js.Over id → js'.Over id := by
  induction ids generalizing js with
  | nil =>
    cases ok
    exact ⟨named, fun _ ended => ended⟩
  | cons first ids ih =>
    simp only [forceReleaseAll, List.foldlM_cons] at ok
    obtain ⟨middle, released, others⟩ := bind_ok ok
    obtain ⟨between, kept⟩ := JobStore.forceRelease_named named released
    obtain ⟨after, keptRest⟩ := ih between others
    exact ⟨after, fun id ended => keptRest id (kept id ended)⟩

theorem proposals_named {now : Int} {items : List (JobRef × Int)} {js js' : JobStore} {drops : List DropProposal}
    (named : js.Named) (ok : DLQBuffer.proposals now items js = .ok (drops, js')) :
    js'.Named ∧ ∀ id, js.Over id → js'.Over id := by
  induction items generalizing js drops with
  | nil =>
    cases ok
    exact ⟨named, fun _ ended => ended⟩
  | cons item items ih =>
    obtain ⟨_, _, ⟨-, middle, released, others⟩ | ⟨-, more, others, -⟩⟩ := proposals_cons ok
    · obtain ⟨between, kept⟩ := JobStore.release_named named released
      obtain ⟨after, keptRest⟩ := ih between others
      exact ⟨after, fun id ended => keptRest id (kept id ended)⟩
    · exact ih named others

/-- A job that is over stays over as long as none is created under its ID. -/
theorem step_named {op : Op} {effect : Effect} (named : p.jobStore.Named) (ok : p.step op = .ok (p', effect)) :
    p'.jobStore.Named ∧ ∀ id, ¬ p.CreatesAnew id op → p.jobStore.Over id → p'.jobStore.Over id := by
  cases step_ran ok with
  | addJobs type carried added => simpa [CreatesAnew, Op.adds, type, carried] using addJobs_named named added
  | done _ _ marked =>
    rw [markDoneAll_flagged named] at marked
    cases marked
    obtain ⟨after, _, kept⟩ := JobStore.flagged_named named _
    exact ⟨after, fun id _ => kept id⟩
  | drop _ _ released =>
    obtain ⟨after, kept⟩ := forceReleaseAll_named named released
    exact ⟨after, fun id _ => kept id⟩
  | dispatch run =>
    rw [dispatch_jobStore run]
    exact ⟨named, fun _ _ ended => ended⟩
  | flush _ run =>
    obtain ⟨drops, dlq, js, proposed, _, rfl, _⟩ := flushDLQ_ran run
    obtain ⟨after, kept⟩ := proposals_named named proposed
    exact ⟨after, fun id _ => kept id⟩
  | ignored | unflushed | proxies => exact ⟨named, fun _ _ ended => ended⟩

/-! ### Whole runs -/

def Moves (p : Partition) (op : Op) (p' : Partition) : Prop := ∃ effect, p.step op = .ok (p', effect)

/-- A move as a function. -/
def move (p : Partition) (op : Op) : Option Partition := (p.step op).toOption.map Prod.fst

theorem moves_of_move {op : Op} (ok : p.move op = some p') : Moves p op p' := by
  unfold move at ok
  cases stepped : p.step op with
  | error panicked =>
    rw [stepped] at ok
    cases ok
  | ok result =>
    rw [stepped] at ok
    cases ok
    exact ⟨result.2, stepped⟩

/-- The runs of a partition that starts empty. -/
abbrev PartitionRun (topic : String) (config : PartitionConfig) (nowMilli : Int) : List Op → Partition → Prop :=
  Run Moves (fun _ _ _ => True) (new topic config nowMilli)

theorem PartitionRun.named {topic : String} {config : PartitionConfig} {nowMilli : Int} {ops : List Op}
    (run : PartitionRun topic config nowMilli ops p) : p.jobStore.Named := by
  refine run.invariant (fun _ p => p.jobStore.Named) (JobStore.new_named _) ?_
  rintro _ p op p' named _ ⟨effect, ok⟩
  exact (step_named named ok).1

/-- A dispatch does not send a job that is over. -/
theorem sent_not_over {env : DispatchEnv} {batch : SentBatch} (ended : p.jobStore.Over id)
    (ok : p.dispatch env = .ok (p', some batch)) : ∀ job ∈ batch.jobs, job.id ≠ id := by
  intro job member same
  have listed : some job ∈ batch.jobs.map some := List.mem_map_of_mem member
  rw [dispatch_sent ok] at listed
  obtain ⟨item, read, found⟩ := List.mem_map.mp listed
  have pending : job.done = false := by
    have stays := (List.mem_filter.mp read).2
    simp only [removable, dead, found, Option.all_some] at stays
    cases flag : job.done with
    | false => rfl
    | true => simp [flag] at stays
  unfold JobStore.get at found
  split at found
  · cases found
  · obtain ⟨slot, filled⟩ := Option.filter_eq_some_iff.mp found
    have reach : item.slot < 2 ^ 32 := by
      unfold JobRef.slot
      omega
    have finished := ended item.slot reach job slot (by simpa using filled) same
    rw [pending] at finished
    cases finished

theorem handleCommand_done {cmd : Command} (named : p.jobStore.Named) (type : cmd.type = .done)
    (clock : Nat → Clock) : ∃ handled, p.handleCommand cmd clock = .ok handled ∧
      handled.partition = { p with jobStore := p.jobStore.flagged (finishedBy cmd) } := by
  unfold handleCommand handleDone finishedBy
  rw [type]
  cases carried : cmd.done with
  | none =>
    refine ⟨_, rfl, ?_⟩
    rw [JobStore.flagged_nil]
  | some payload =>
    simp only [markDoneAll_flagged named]
    exact ⟨_, rfl, rfl⟩

/-- Done commands one after the other flag what they name. -/
theorem processAll_done (named : p.jobStore.Named) {cmds : List Command} (done : ∀ cmd ∈ cmds, cmd.type = .done)
    (clock : Nat → Nat → Clock) :
    p.processAll cmds clock = .ok { p with jobStore := p.jobStore.flagged (cmds.flatMap finishedBy) } := by
  induction cmds generalizing p clock with
  | nil =>
    rw [List.flatMap_nil, JobStore.flagged_nil]
    rfl
  | cons cmd cmds ih =>
    obtain ⟨handled, ok, after⟩ := handleCommand_done named (done cmd List.mem_cons_self) (clock 0)
    have between := (JobStore.flagged_named named (finishedBy cmd)).1
    simp only [processAll, ok, after]
    rw [ih between fun other member => done other (List.mem_cons_of_mem _ member), JobStore.flagged_append,
      List.flatMap_cons]

/-- Done is final. After a `Done` that names an ID, no dispatch of any run in
which no job is created under it sends a job with that ID; and `Done` commands
that name the same IDs lead to the same partition, however often and in which
order they name them. -/
theorem done_is_final {topic : String} {config : PartitionConfig} {nowMilli : Int} {ops : List Op}
    (run : PartitionRun topic config nowMilli ops p) :
    (∀ cmd clock p₁, Moves p (.command cmd clock) p₁ → ∀ id ∈ finishedBy cmd, ∀ later q,
      Run Moves (fun _ s op => ¬ s.CreatesAnew id op) p₁ later q → ∀ env q' batch,
        q.dispatch env = .ok (q', some batch) → ∀ job ∈ batch.jobs, job.id ≠ id) ∧
    ∀ cmds cmds', (∀ cmd ∈ cmds ++ cmds', cmd.type = .done) →
      (∀ id, id ∈ cmds.flatMap finishedBy ↔ id ∈ cmds'.flatMap finishedBy) → ∀ clock clock',
        ∃ p', p.processAll cmds clock = .ok p' ∧ p.processAll cmds' clock' = .ok p' := by
  have named := run.named
  constructor
  · rintro cmd clock p₁ ⟨effect, ok⟩ id finished later q after env q' batch sent
    have ended : q.jobStore.Named ∧ q.jobStore.Over id := by
      refine after.invariant (fun _ q => q.jobStore.Named ∧ q.jobStore.Over id) ?_ ?_
      · have type : cmd.type = .done := by
          unfold finishedBy at finished
          split at finished
          · assumption
          · cases finished
        obtain ⟨handled, run, marks⟩ := handleCommand_done named type clock
        obtain ⟨other, again, rest⟩ := bind_ok ok
        cases run.symm.trans again
        cases rest
        obtain ⟨flagged, ended, _⟩ := JobStore.flagged_named named (finishedBy cmd)
        rw [marks]
        exact ⟨flagged, ended id finished⟩
      · rintro _ s op s' ⟨named, ended⟩ old ⟨effect, ok⟩
        obtain ⟨after, kept⟩ := step_named named ok
        exact ⟨after, kept id old ended⟩
    exact sent_not_over ended.2 sent
  · intro cmds cmds' done same clock clock'
    refine ⟨_, processAll_done named (fun cmd member => done cmd (List.mem_append_left _ member)) clock, ?_⟩
    rw [JobStore.flagged_congr same]
    exact processAll_done named (fun cmd member => done cmd (List.mem_append_right _ member)) clock'

/-! Two jobs are added, one is finished, and another job is added; the dispatch
sends the two that are not finished. -/

private def finalConfig : PartitionConfig := ⟨4, 3, 20, 4, 1000, 1000⟩

private def finalAdd (id : String) : Op :=
  .command { type := .addJobs, addJobs := some ⟨"orders", [⟨id, "orders", [1], false, 0⟩]⟩ } fun _ => ⟨1000, 1⟩

private def finalDone : Command := { type := .done, done := some ⟨"orders", ["a"]⟩ }

private def finalFirst : List Op :=
  [ .topology (.add "proxy" (some ⟨0, 4⟩)),
    .heartbeat { proxyID := "proxy", topic := "orders", consumptionScore := 1, timestamp := 0 },
    finalAdd "a", finalAdd "b" ]

private theorem first_moves : (finalFirst.foldlM move (new "orders" finalConfig 0)).isSome = true := rfl

private theorem done_moves :
    ((Option.get _ first_moves).move (.command finalDone fun _ => ⟨1000, 1⟩)).isSome = true := rfl

/-- Adding the finished job again is a duplicate and creates nothing. -/
private theorem later_moves : ([finalAdd "a", finalAdd "c"].foldlM
    (fun p op => if ¬ p.CreatesAnew "a" op then p.move op else none) (Option.get _ done_moves)).isSome = true := rfl

private theorem final_sends : ((Option.get _ later_moves).dispatch ⟨73, 0, 1, true, true, fun _ => 1⟩).toOption.map
    (fun result => result.2.map fun batch => batch.jobs.map Job.id) = some (some ["b", "c"]) := by decide

theorem finished_job_not_sent : ∃ (q q' : Partition) (batch : SentBatch),
    q.dispatch ⟨73, 0, 1, true, true, fun _ => 1⟩ = .ok (q', some batch) ∧
      batch.jobs.map Job.id = ["b", "c"] ∧ ∀ job ∈ batch.jobs, job.id ≠ "a" := by
  have run : PartitionRun "orders" finalConfig 0 finalFirst (Option.get _ first_moves) :=
    Run.of_execute (fun _ _ _ _ ok => ⟨trivial, moves_of_move ok⟩) (Option.some_get first_moves).symm
  have later : Run Moves (fun _ s op => ¬ s.CreatesAnew "a" op) (Option.get _ done_moves)
      [finalAdd "a", finalAdd "c"] (Option.get _ later_moves) := by
    refine Run.of_execute (fun _ s op s' ok => ?_) (Option.some_get later_moves).symm
    split at ok
    · rename_i old
      exact ⟨old, moves_of_move ok⟩
    · cases ok
  have sends := final_sends
  cases sent : (Option.get _ later_moves).dispatch ⟨73, 0, 1, true, true, fun _ => 1⟩ with
  | error panicked =>
    rw [sent] at sends
    cases sends
  | ok result =>
    obtain ⟨q', batch⟩ := result
    rw [sent] at sends
    cases batch with
    | none => cases sends
    | some batch =>
      refine ⟨_, q', batch, sent, Option.some.inj (Option.some.inj sends), ?_⟩
      exact (done_is_final run).1 finalDone _ _ (moves_of_move (Option.some_get done_moves).symm) "a" (by decide)
        _ _ later _ q' batch sent

end Partition
end Cue.State
