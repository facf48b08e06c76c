import Cue.DeadLetterOnce

/-! What a flush of the dead-letter buffer does. An entry is a slot, and the flush
takes the job that stands in the slot by then. Beside the partition the IDs are kept
of the jobs that the entries were made for.

- `FlushExact` is the property: a flush proposes or releases those jobs, one each.
- `flush_exact_if_spared` shows it for every run in which no drop names a job that is
  in the buffer and no job goes into the buffer that is there already.
- `flush_wrong_unless_spared` has three runs that do not keep to this: the slot is
  empty, or it is another job's, or two entries are one job's. -/
namespace Cue.State
open Cue.Lib Cue.Model

namespace JobStore

/-- The ID of the job that a record refers to by now. -/
def idOf (js : JobStore) (ref : JobRef) : Option String := (js.get ref.slot).map Job.id

/-- The job under this ID is done, and not yet released. -/
def finished (js : JobStore) (id : String) : Bool := (js.view id).any Job.done

/-- The job under this ID is live and not done. -/
def pending (js : JobStore) (id : String) : Bool := (js.view id).any fun job => !job.done

end JobStore

namespace Partition

/-- The IDs of the jobs that the entries of the buffer refer to by now. -/
def bufferedIDs (p : Partition) : List String := (p.dlqBuffer.jobs.map Prod.fst).filterMap p.jobStore.idOf

/-- The IDs of the jobs that a step adds to the buffer. -/
def letterIDs (p : Partition) (op : Op) : List String := (p.letters op).filterMap p.jobStore.idOf

/-- The IDs of the jobs that were added to the buffer since it was last flushed. -/
def noteLetters (ids : List String) (p : Partition) (op : Op) (_ : Effect) : List String :=
  match op with
  | .flush now _ => if p.dlqBuffer.shouldFlush now then [] else ids
  | op => ids ++ p.letterIDs op

/-- A flush proposes those of the jobs with these IDs that are live and not done, one
proposal each, releases those that are done and nothing else, and empties the buffer. -/
def FlushExact (s : Partition × List String) (now : Int) : Prop :=
  ∃ drops dlq js, s.1.dlqBuffer.flush s.1.jobStore now = .ok (drops, dlq, js) ∧
    (drops.map DropProposal.jobID).Nodup ∧
    (∀ id, id ∈ drops.map DropProposal.jobID ↔ id ∈ s.2 ∧ s.1.jobStore.pending id = true) ∧
    (∀ id, js.view id = if id ∈ s.2 ∧ s.1.jobStore.finished id = true then none else s.1.jobStore.view id) ∧
    dlq.jobs = [] ∧ dlq.bytes = 0

/-- The IDs that a command drops. -/
def Op.drops : Op → List String
  | .command cmd _ => if cmd.type = .drop then (cmd.drop.map DropPayload.jobIDs).getD [] else []
  | _ => []

/-- No job of the buffer is dropped or put into the buffer a second time. -/
def SparesBuffered (p : Partition) (op : Op) : Prop :=
  (∀ id ∈ p.bufferedIDs, id ∉ op.drops) ∧ (p.bufferedIDs ++ p.letterIDs op).Nodup

instance (p : Partition) (op : Op) : Decidable (p.SparesBuffered op) := inferInstanceAs (Decidable (_ ∧ _))

/-! ### Entries that find their jobs -/

/-- The records refer to the jobs with these IDs, one by one. -/
def RefersTo (js : JobStore) (refs : List JobRef) (ids : List String) : Prop := refs.map js.idOf = ids.map some

theorem RefersTo.filterMap {js : JobStore} {refs : List JobRef} {ids : List String} (held : RefersTo js refs ids) :
    refs.filterMap js.idOf = ids := by
  have same : (refs.map js.idOf).filterMap id = (ids.map some).filterMap id := congrArg _ held
  simpa [List.filterMap_map] using same

theorem RefersTo.of_isSome {js : JobStore} {refs : List JobRef} (there : ∀ ref ∈ refs, (js.idOf ref).isSome) :
    RefersTo js refs (refs.filterMap js.idOf) := by
  induction refs with
  | nil => rfl
  | cons ref refs ih =>
    obtain ⟨id, named⟩ := Option.isSome_iff_exists.mp (there ref List.mem_cons_self)
    have rest := ih fun other member => there other (List.mem_cons_of_mem _ member)
    simp only [RefersTo, List.map_cons, List.filterMap_cons, named]
    exact congrArg _ rest

/-- The entries hold as long as no slot loses one of these jobs. -/
theorem RefersTo.frame {js js' : JobStore} {refs : List JobRef} {ids : List String} (held : RefersTo js refs ids)
    (stays : ∀ ref, ∀ id ∈ ids, js.idOf ref = some id → js'.idOf ref = some id) : RefersTo js' refs ids := by
  unfold RefersTo
  rw [← held]
  refine List.map_congr_left fun ref member => ?_
  have listed : js.idOf ref ∈ ids.map some := held ▸ List.mem_map_of_mem member
  obtain ⟨id, known, named⟩ := List.mem_map.mp listed
  rw [← named]
  exact stays ref id known named.symm

theorem idOf_eq_some {js : JobStore} {ref : JobRef} {id : String} :
    js.idOf ref = some id ↔ ∃ job, js.get ref.slot = some job ∧ job.id = id :=
  Option.map_eq_some_iff

theorem pending_eq {js : JobStore} {id : String} {job : Job} (view : js.view id = some job) :
    js.pending id = !js.finished id := by
  simp [JobStore.pending, JobStore.finished, view]

theorem finished_eq {js : JobStore} {id : String} {job : Job} (view : js.view id = some job) :
    js.finished id = job.done := by
  simp [JobStore.finished, view]

/-! ### The loop of `Flush` -/

/-- The finished ones of these jobs are gone, the others are as they were. -/
structure Cleared (js : JobStore) (ids : List String) (js' : JobStore) : Prop where
  view : ∀ id, js'.view id = if id ∈ ids ∧ js.finished id = true then none else js.view id
  valid : js'.Valid

section Entry

variable {js js' middle : JobStore} {job : Job} {ids : List String} {slot : Nat} {refs : List JobRef}

theorem RefersTo.released (held : RefersTo js refs ids) (valid : js.Valid) (released : js.Released slot job middle)
    (fresh : job.id ∉ ids) : RefersTo middle refs ids := by
  refine held.frame fun ref id known named => ?_
  obtain ⟨found, there, rfl⟩ := idOf_eq_some.mp named
  refine idOf_eq_some.mpr ⟨found, ?_, rfl⟩
  rw [JobStore.released_get valid released, if_neg, there]
  intro clash
  have same : some found = some job :=
    there.symm.trans (clash ▸ (JobStore.get_some valid).mpr ⟨released.slot, released.nonempty⟩)
  cases same
  exact fresh known

theorem finished_released (valid : js.Valid) (released : js.Released slot job middle) {id : String}
    (other : id ≠ job.id) : middle.finished id = js.finished id := by
  rw [JobStore.finished, JobStore.released_view valid released, Function.update_of_ne other]
  rfl

theorem Cleared.cons_finished (valid : js.Valid) (released : js.Released slot job middle) (fresh : job.id ∉ ids)
    (finished : js.finished job.id = true) (cleared : Cleared middle ids js') : Cleared js (job.id :: ids) js' where
  valid := cleared.valid
  view := by
    intro id
    rw [cleared.view, JobStore.released_view valid released]
    by_cases first : id = job.id
    · subst first
      simp [fresh, finished]
    · rw [finished_released valid released first, Function.update_of_ne first]
      simp [first]

theorem Cleared.cons_unfinished (fresh : job.id ∉ ids) (unfinished : js.finished job.id = false)
    (cleared : Cleared js ids js') : Cleared js (job.id :: ids) js' where
  valid := cleared.valid
  view := by
    intro id
    rw [cleared.view]
    by_cases first : id = job.id
    · subst first
      simp [fresh, unfinished]
    · simp [first]

end Entry

/-- When every entry finds its own job, and no two find the same, each of the jobs is
either proposed or released. -/
theorem proposals_exact {now : Int} {items : List (JobRef × Int)} {js : JobStore} {ids : List String}
    (valid : js.Valid) (held : RefersTo js (items.map Prod.fst) ids) (once : ids.Nodup) :
    ∃ drops js', DLQBuffer.proposals now items js = .ok (drops, js') ∧
      drops.map DropProposal.jobID = ids.filter (fun id => !js.finished id) ∧ Cleared js ids js' := by
  induction items generalizing js ids with
  | nil =>
    cases ids with
    | nil => exact ⟨[], js, rfl, rfl, by simp, valid⟩
    | cons id ids => cases held
  | cons item items ih =>
    cases ids with
    | nil => cases held
    | cons id ids =>
      obtain ⟨here, rest⟩ := List.cons.inj held
      obtain ⟨fresh, distinct⟩ := List.nodup_cons.mp once
      obtain ⟨job, found, rfl⟩ := idOf_eq_some.mp here
      have flag := finished_eq (JobStore.get_view valid found).2
      simp only [DLQBuffer.proposals, found]
      by_cases done : job.done = true
      · rw [done] at flag
        obtain ⟨slot, nonempty⟩ := (JobStore.get_some valid).mp found
        obtain ⟨middle, freed⟩ := JobStore.release_ok valid slot nonempty
        have released := JobStore.released_of_slot valid slot freed
        obtain ⟨drops, js', proposed, listed, cleared⟩ :=
          ih released.valid (RefersTo.released rest valid released fresh) distinct
        refine ⟨drops, js', by simp only [done, ↓reduceIte, freed, proposed], ?_,
          cleared.cons_finished valid released fresh flag⟩
        rw [listed, List.filter_cons_of_neg (by simp [flag])]
        refine List.filter_congr fun id member => ?_
        rw [finished_released valid released fun same => fresh (same ▸ member)]
      · have flag : js.finished job.id = false := flag.trans (by simpa using done)
        obtain ⟨drops, js', proposed, listed, cleared⟩ := ih valid rest distinct
        refine ⟨⟨job.id, job.topic, now⟩ :: drops, js', by simp only [if_neg done, proposed], ?_,
          cleared.cons_unfinished fresh flag⟩
        rw [List.filter_cons_of_pos (by simp [flag]), List.map_cons, listed]

/-! ### The bytes of the buffer -/

/-- The bytes are those of the entries. -/
def Counted (dlq : DLQBuffer) : Prop := dlq.bytes = dlq.jobs.foldl (fun bytes entry => bytes + entry.2) 0

private theorem counted_classifyItem {maxRetries : Int} {c c' : Classified} {item : JobRef}
    (counted : Counted c.dlqBuffer) (ok : classifyItem maxRetries c item = .ok c') : Counted c'.dlqBuffer := by
  unfold classifyItem at ok
  split at ok
  · cases ok
    exact counted
  · split at ok
    · cases ok
      exact counted
    · rename_i pending
      split at ok
      · simp only [DLQBuffer.add, pending, Bool.false_eq_true, ↓reduceIte] at ok
        cases ok
        simp only [Counted, List.foldl_append, List.foldl_cons, List.foldl_nil]
        exact congrArg (· + _) counted
      · cases ok
        exact counted

private theorem counted_classify {maxRetries : Int} {items : List JobRef} {c c' : Classified}
    (counted : Counted c.dlqBuffer) (ok : items.foldlM (classifyItem maxRetries) c = .ok c') :
    Counted c'.dlqBuffer := by
  induction items generalizing c with
  | nil =>
    cases ok
    exact counted
  | cons item items ih =>
    rw [List.foldlM_cons] at ok
    obtain ⟨middle, first, rest⟩ := bind_ok ok
    exact ih (counted_classifyItem counted first) rest

theorem counted_dispatch {p p' : Partition} {env : DispatchEnv} {sent : Option SentBatch}
    (counted : Counted p.dlqBuffer) (ok : p.dispatch env = .ok (p', sent)) : Counted p'.dlqBuffer := by
  obtain ⟨c, classified, buffer, _⟩ := dispatch_classified ok
  rw [buffer]
  exact counted_classify counted classified

/-! ### One step -/

/-- Every entry finds the job that it was made for, and no two were made for one job. -/
structure Spared (s : Partition × List String) : Prop where
  valid : s.1.Valid
  held : RefersTo s.1.jobStore (s.1.dlqBuffer.jobs.map Prod.fst) s.2
  once : s.2.Nodup
  counted : Counted s.1.dlqBuffer

namespace Spared

variable {p : Partition} {ids : List String}

theorem flush (spared : Spared (p, ids)) (now : Int) :
    ∃ drops dlq js, p.dlqBuffer.flush p.jobStore now = .ok (drops, dlq, js) ∧
      drops.map DropProposal.jobID = ids.filter (fun id => !p.jobStore.finished id) ∧
      Cleared p.jobStore ids js ∧ dlq.jobs = [] ∧ dlq.bytes = 0 := by
  obtain ⟨drops, js, proposed, listed, cleared⟩ :=
    @proposals_exact now p.dlqBuffer.jobs p.jobStore ids spared.valid.store spared.held spared.once
  unfold DLQBuffer.flush
  by_cases empty : p.dlqBuffer.jobs = []
  · rw [empty] at proposed
    cases proposed
    rw [if_pos empty]
    have bytes := spared.counted
    simp only [Counted, empty, List.foldl_nil] at bytes
    exact ⟨[], p.dlqBuffer, p.jobStore, rfl, listed, cleared, empty, bytes⟩
  · rw [if_neg empty]
    simp only [proposed]
    exact ⟨drops, _, js, rfl, listed, cleared, rfl, rfl⟩

/-- The jobs of the entries are all still there. -/
theorem live (spared : Spared (p, ids)) {id : String} (member : id ∈ ids) :
    ∃ job, p.jobStore.view id = some job := by
  have listed : some id ∈ (p.dlqBuffer.jobs.map Prod.fst).map p.jobStore.idOf := by
    rw [spared.held]
    exact List.mem_map_of_mem member
  obtain ⟨ref, _, named⟩ := List.mem_map.mp listed
  obtain ⟨job, found, rfl⟩ := idOf_eq_some.mp named
  exact ⟨job, (JobStore.get_view spared.valid.store found).2⟩

theorem flushExact (spared : Spared (p, ids)) (now : Int) : FlushExact (p, ids) now := by
  obtain ⟨drops, dlq, js, flushed, listed, cleared, emptied, bytes⟩ := spared.flush now
  refine ⟨drops, dlq, js, flushed, ?_, fun id => ?_, cleared.view, emptied, bytes⟩
  · rw [listed]
    exact spared.once.filter _
  · rw [listed, List.mem_filter]
    refine and_congr_right fun member => ?_
    obtain ⟨job, view⟩ := spared.live member
    rw [pending_eq view]

/-- A command that leaves the jobs of the entries in their slots. -/
theorem command {js : JobStore} {pq : ProcessQueue} (spared : Spared (p, ids))
    (valid : { p with jobStore := js, processQueue := pq }.Valid)
    (stays : ∀ ref, ∀ id ∈ ids, p.jobStore.idOf ref = some id → js.idOf ref = some id) :
    Spared ({ p with jobStore := js, processQueue := pq }, ids) :=
  ⟨valid, spared.held.frame stays, spared.once, spared.counted⟩

theorem addJob {p' : Partition} {job : Job} {clock : Clock} {outcome : AddOutcome} (spared : Spared (p, ids))
    (added : Added p job clock p' outcome) : Spared (p', ids) := by
  have valid := added.valid spared.valid
  cases added with
  | alreadyDone | duplicate => exact spared
  | accepted _ created _ _ _ =>
    refine spared.command valid fun ref id _ named => ?_
    obtain ⟨held, found, rfl⟩ := idOf_eq_some.mp named
    refine idOf_eq_some.mpr ⟨held, ?_, rfl⟩
    -- the slot taken was empty before
    rw [JobStore.created_get spared.valid.store created, if_neg, found]
    intro taken
    rw [taken, JobStore.created_empty spared.valid.store created] at found
    cases found
  | queueFull _ _ refused =>
    refine spared.command valid fun ref id _ named => ?_
    rw [JobStore.idOf, refused.get]
    exact named

theorem addJobs {p' : Partition} {jobs : List Job} {clock : Nat → Clock} {outcomes : List (String × AddOutcome)}
    (spared : Spared (p, ids)) (slots : p.jobStore.jobs.length + jobs.length < 2 ^ 32)
    (ok : p.addJobs jobs clock = .ok (p', outcomes)) : Spared (p', ids) := by
  obtain ⟨_, _, after⟩ := addJobs_induction (fun q _ _ _ => Spared (q, ids))
    (fun _ _ _ _ _ _ _ _ _ before _ added => before.addJob added) [] spared.valid slots spared ok
  exact after

theorem done {js : JobStore} {named : List String} (spared : Spared (p, ids))
    (finished : Finished p.jobStore named js) : Spared ({ p with jobStore := js }, ids) := by
  refine spared.command ⟨finished.valid, spared.valid.queue⟩ fun ref id _ here => ?_
  obtain ⟨job, found, rfl⟩ := idOf_eq_some.mp here
  refine idOf_eq_some.mpr ⟨marked named job, by rw [finished.get, found]; rfl, ?_⟩
  unfold marked
  split <;> rfl

theorem drop {js : JobStore} {named : List String} (spared : Spared (p, ids)) (spares : ∀ id ∈ ids, id ∉ named)
    (dropped : Dropped p.jobStore named js) : Spared ({ p with jobStore := js }, ids) := by
  refine spared.command ⟨dropped.valid, spared.valid.queue⟩ fun ref id known here => ?_
  obtain ⟨job, found, rfl⟩ := idOf_eq_some.mp here
  refine idOf_eq_some.mpr ⟨job, ?_, rfl⟩
  rw [dropped.get, found]
  simp [spares job.id known]

/-- An exhausted record's job is in the store. -/
private theorem letter_there {op : Op} {ref : JobRef} (member : ref ∈ p.letters op) :
    (p.jobStore.idOf ref).isSome = true := by
  cases op with
  | dispatch env =>
    have spent := (List.mem_filter.mp member).2
    unfold JobStore.idOf
    cases found : p.jobStore.get ref.slot with
    | none => simp [exhausted, dead, found] at spent
    | some job => rfl
  | command | flush | topology | heartbeat | cleanup => cases member

theorem dispatch {p' : Partition} {env : DispatchEnv} {sent : Option SentBatch} (spared : Spared (p, ids))
    (distinct : (ids ++ p.letterIDs (.dispatch env)).Nodup) (ok : p.dispatch env = .ok (p', sent)) :
    Spared (p', ids ++ p.letterIDs (.dispatch env)) := by
  have dispatched := dispatch_spec spared.valid.queue ok
  have store := dispatched.jobStore
  refine ⟨⟨store ▸ spared.valid.store, dispatched.queueValid⟩, ?_, distinct, counted_dispatch spared.counted ok⟩
  have new : RefersTo p.jobStore (p.letters (.dispatch env)) (p.letterIDs (.dispatch env)) :=
    RefersTo.of_isSome fun ref member => letter_there member
  unfold RefersTo at new ⊢
  rw [store, dispatched.buffered, List.map_append, List.map_append, ← new]
  exact congrArg (· ++ _) spared.held

theorem flushDLQ {p' : Partition} {now : Int} {room : Bool} {cmd : Option Command} (spared : Spared (p, ids))
    (ok : p.flushDLQ now room = .ok (p', cmd)) : Spared (p', []) := by
  obtain ⟨drops, dlq, js, flushed, _, cleared, emptied, bytes⟩ := spared.flush now
  have after : Spared ({ p with dlqBuffer := dlq, jobStore := js }, []) := by
    refine ⟨⟨cleared.valid, spared.valid.queue⟩, ?_, List.nodup_nil, ?_⟩
    · simp [RefersTo, emptied]
    · simp [Counted, emptied, bytes]
  simp only [Partition.flushDLQ, flushed] at ok
  split at ok
  · cases ok
    exact after
  · cases ok
    exact after

end Spared

theorem spared_step {s s' : Partition × List String} {op : Op} (spared : Spared s) (fits : s.1.Fits op)
    (spares : s.1.SparesBuffered op) (step : ObservedStep noteLetters s op s') : Spared s' := by
  obtain ⟨p, ids⟩ := s
  obtain ⟨p', ids'⟩ := s'
  obtain ⟨effect, ok, rfl⟩ := step
  obtain ⟨undropped, distinct⟩ := spares
  have known : p.bufferedIDs = ids := spared.held.filterMap
  rw [known] at undropped distinct
  have quiet : p.letters op = [] → ids ++ p.letterIDs op = ids := by
    intro none
    rw [letterIDs, none]
    exact List.append_nil ids
  cases step_ran ok with
  | addJobs type carried added =>
    simp only [noteLetters, quiet rfl]
    exact spared.addJobs (by simpa [Fits, Op.adds, type, carried] using fits) added
  | done _ _ marked =>
    simp only [noteLetters, quiet rfl]
    obtain ⟨js, marked', finished⟩ := markDoneAll_spec _ spared.valid.store
    cases marked.symm.trans marked'
    exact spared.done finished
  | drop type carried released =>
    simp only [noteLetters, quiet rfl]
    simp only [Op.drops, type, carried, ↓reduceIte, Option.map_some, Option.getD_some] at undropped
    exact spared.drop undropped (forceReleaseAll_spec _ spared.valid.store released)
  | ignored =>
    simp only [noteLetters, quiet rfl]
    exact spared
  | dispatch run => exact spared.dispatch distinct run
  | flush needed run =>
    simp only [noteLetters, needed, ↓reduceIte]
    exact spared.flushDLQ run
  | unflushed early =>
    simp only [noteLetters, early]
    exact spared
  | proxies proxy idle steady =>
    cases op with
    | command cmd clock => exact absurd rfl (proxy cmd clock)
    | dispatch env => exact absurd rfl (idle env)
    | flush now room => exact absurd rfl (steady now room)
    | topology | heartbeat | cleanup =>
      simp only [noteLetters, quiet rfl]
      exact ⟨⟨spared.valid.store, spared.valid.queue⟩, spared.held, spared.once, spared.counted⟩

/-! ### Whole runs -/

theorem spared_new (topic : String) (config : PartitionConfig) (nowMilli : Int) :
    Spared (new topic config nowMilli, []) :=
  ⟨new_valid topic config nowMilli, rfl, List.nodup_nil, rfl⟩

/-- When jobs are neither dropped while they are in the buffer nor put there twice, a
flush at any time is exact. -/
theorem flush_exact_if_spared {topic : String} {config : PartitionConfig} {nowMilli : Int} {ops : List Op}
    {s : Partition × List String}
    (run : ObservedRun noteLetters (fun p op => p.Fits op ∧ p.SparesBuffered op) topic config nowMilli [] ops s)
    (now : Int) : FlushExact s now := by
  have spared : Spared s := by
    refine run.invariant (fun _ s => Spared s) (spared_new topic config nowMilli) ?_
    rintro _ s op s' spared ⟨fits, spares⟩ step
    exact spared_step spared fits spares step
  exact spared.flushExact now

/-! Jobs that may be sent once are sent and come back to the queue unfinished, so the
next dispatch puts them into the buffer. -/

private def flushConfig : PartitionConfig := ⟨4, 1, 20, 4, 1000, 1000⟩

private def addOrders (ids : List String) (nowSec : Int) : Op :=
  .command { type := .addJobs, addJobs := some ⟨"orders", ids.map fun id => ⟨id, "orders", [1], false, 0⟩⟩ }
    fun _ => ⟨1000, nowSec⟩

private def doneOrders (ids : List String) : Op :=
  .command { type := .done, done := some ⟨"orders", ids⟩ } fun _ => ⟨0, 0⟩

private def dropOrders (ids : List String) : Op :=
  .command { type := .drop, drop := some ⟨"orders", ids⟩ } fun _ => ⟨0, 0⟩

private def due (chLen : Nat) (nowSec : Int) : Op := .dispatch ⟨73, chLen, nowSec, true, true, fun _ => nowSec⟩

private def proxyUp : List Op :=
  [ .topology (.add "proxy" (some ⟨0, 4⟩)),
    .heartbeat { proxyID := "proxy", topic := "orders", consumptionScore := 1, timestamp := 0 } ]

private def twoBuffered : List Op := proxyUp ++ [addOrders ["a", "b"] 1, due 0 1, due 0 4]

private theorem spared_executes :
    (observe noteLetters (fun p op => p.Fits op ∧ p.SparesBuffered op) "orders" flushConfig 0 []
      (twoBuffered ++ [doneOrders ["b"], addOrders ["c"] 5])).isSome = true :=
  rfl

/-- Of two jobs in the buffer one is done before the flush. -/
theorem one_of_two_proposed :
    (Option.get _ spared_executes).2 = ["a", "b"] ∧
      (Option.get _ spared_executes).1.jobStore.finished "b" = true ∧
      FlushExact (Option.get _ spared_executes) 9 :=
  ⟨rfl, rfl, flush_exact_if_spared (observe_run spared_executes) 9⟩

/-- The IDs that a flush proposes, if it gets to its end. -/
private def proposedIDs (p : Partition) (now : Int) : Option (List String) :=
  (p.dlqBuffer.flush p.jobStore now).toOption.map fun flushed => flushed.1.map DropProposal.jobID

private theorem FlushExact.proposedIDs {s : Partition × List String} {now : Int} (exactly : FlushExact s now) :
    ∃ proposed, s.1.proposedIDs now = some proposed ∧ proposed.Nodup ∧ ∀ id ∈ proposed, id ∈ s.2 := by
  obtain ⟨drops, dlq, js, flushed, distinct, listed, _⟩ := exactly
  refine ⟨drops.map DropProposal.jobID, ?_, distinct, fun id member => ((listed id).mp member).1⟩
  rw [Partition.proposedIDs, flushed]
  rfl

private theorem dropped_executes :
    (observe noteLetters (fun _ _ => True) "orders" flushConfig 0 [] (twoBuffered ++ [dropOrders ["a"]])).isSome =
      true :=
  rfl

private theorem reused_executes :
    (observe noteLetters (fun _ _ => True) "orders" flushConfig 0 []
      (twoBuffered ++ [dropOrders ["a"], addOrders ["c"] 5])).isSome = true :=
  rfl

-- the record of b moves to the front before `removeCells` gets to it, and is read again
private theorem repeated_executes :
    (observe noteLetters (fun _ _ => True) "orders" flushConfig 0 []
      (proxyUp ++ [addOrders ["a", "b"] 1, due 0 1, addOrders ["c"] 2, due 0 2, doneOrders ["a"], due 3 4, due 0 5,
        due 0 7])).isSome = true :=
  rfl

/-- A job dropped while it is in the buffer leaves an entry without a job, which the
flush dereferences, or with a job that never was in the buffer, which it proposes. A job
that is in the buffer twice is proposed twice. -/
theorem flush_wrong_unless_spared :
    (∃ ops s, ObservedRun noteLetters (fun _ _ => True) "orders" flushConfig 0 [] ops s ∧ s.2 = ["a", "b"] ∧
      s.1.dlqBuffer.flush s.1.jobStore 9 = .error .nilDereference ∧ ¬ FlushExact s 9) ∧
    (∃ ops s, ObservedRun noteLetters (fun _ _ => True) "orders" flushConfig 0 [] ops s ∧ s.2 = ["a", "b"] ∧
      s.1.proposedIDs 9 = some ["c", "b"] ∧ ¬ FlushExact s 9) ∧
    ∃ ops s, ObservedRun noteLetters (fun _ _ => True) "orders" flushConfig 0 [] ops s ∧ s.2 = ["b", "c", "b"] ∧
      s.1.proposedIDs 9 = some ["b", "c", "b"] ∧ ¬ FlushExact s 9 := by
  refine ⟨⟨_, _, observe_run dropped_executes, rfl, rfl, ?_⟩,
    ⟨_, _, observe_run reused_executes, rfl, rfl, ?_⟩,
    _, _, observe_run repeated_executes, rfl, rfl, ?_⟩
  · rintro ⟨_, _, _, flushed, _⟩
    cases flushed
  · intro exactly
    obtain ⟨proposed, ids, _, known⟩ := exactly.proposedIDs
    cases ids.symm.trans (rfl : _ = some ["c", "b"])
    exact absurd (known "c" List.mem_cons_self) (by decide)
  · intro exactly
    obtain ⟨proposed, ids, distinct, _⟩ := exactly.proposedIDs
    cases ids.symm.trans (rfl : _ = some ["b", "c", "b"])
    exact absurd distinct (by decide)

end Partition
end Cue.State
