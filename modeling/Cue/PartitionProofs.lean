import Cue.Lib.Run
import Cue.JobStoreProofs
import Cue.ProcessQueueProofs
import Cue.State.Partition

/-! What each step of a partition can do, one specification a function. The
handlers are related to the store's `get` and `view`, dispatching to the live
records and the dead-letter entries; later modules use these and do not unfold
the steps. -/
namespace Cue.State.Partition
open Cue.Lib Cue.Model

/-- The store and the queue are well formed. -/
structure Valid (p : Partition) : Prop where
  store : p.jobStore.Valid
  queue : p.processQueue.Valid

theorem new_valid (topic : String) (config : PartitionConfig) (nowMilli : Int) :
    (new topic config nowMilli).Valid :=
  ⟨JobStore.new_valid _, ProcessQueue.new_valid _⟩

/-! ### Adding jobs -/

@[simp] theorem stamped_id (job : Job) (nowMilli : Int) : (stamped job nowMilli).id = job.id := by
  unfold stamped
  split <;> rfl

@[simp] theorem stamped_done (job : Job) (nowMilli : Int) : (stamped job nowMilli).done = job.done := by
  unfold stamped
  split <;> rfl

/-- What one job of a batch did to the partition. -/
inductive Added (p : Partition) (job : Job) (clock : Clock) : Partition → AddOutcome → Prop where
  | alreadyDone (flagged : job.done = true) : Added p job clock p .alreadyDone
  | duplicate {i : Nat} (unflagged : job.done = false) (known : p.jobStore.byID.get job.id = some i) :
      Added p job clock p .duplicate
  | accepted {js : JobStore} {pq : ProcessQueue} {idx : Nat} (unflagged : job.done = false)
      (created : p.jobStore.Created (stamped job clock.nowMilli) idx js)
      (room : p.processQueue.liveCount < p.processQueue.records.length)
      (queued : pq.live = p.processQueue.live ++ [⟨idx, 0, p.processQueue.liveCount, clock.nowSec⟩])
      (queueValid : pq.Valid) (capacity : pq.records.length = p.processQueue.records.length)
      (count : pq.liveCount = p.processQueue.liveCount + 1) :
      Added p job clock { p with jobStore := js, processQueue := pq } (.accepted idx)
  | queueFull {js : JobStore} (unflagged : job.done = false)
      (fresh : p.jobStore.byID.get job.id = none) (refused : p.jobStore.Refused js)
      (full : p.processQueue.liveCount = p.processQueue.records.length) :
      Added p job clock { p with jobStore := js } .queueFull

/-- What a job does if it has a slot, free or new. -/
theorem addJob_room {p p' : Partition} {job : Job} {clock : Clock} {outcome : AddOutcome} (valid : p.Valid)
    (room : p.jobStore.freeList = [] → p.jobStore.jobs.length + 1 < 2 ^ 32)
    (ok : p.addJob job clock = .ok (p', outcome)) : Added p job clock p' outcome := by
  unfold addJob at ok
  by_cases flagged : job.done = true
  · rw [if_pos flagged] at ok
    cases ok
    exact .alreadyDone flagged
  · rw [if_neg flagged] at ok
    have unflagged : job.done = false := by simpa using flagged
    rcases JobStore.create_cases (stamped job clock.nowMilli) valid.store room with
      ⟨refused, i, known⟩ | ⟨idx, js, taken, created⟩
    · simp only [refused] at ok
      cases ok
      exact .duplicate unflagged (by simpa using known)
    · simp only [taken] at ok
      cases queued : p.processQueue.addNewJob ⟨idx, 0, 0, clock.nowSec⟩ with
      | some pq =>
        simp only [queued] at ok
        cases ok
        obtain ⟨grown, queueValid, capacity, count⟩ := ProcessQueue.addNewJob_live valid.queue queued
        have fits := queueValid.fits
        exact .accepted unflagged created (by omega) grown queueValid capacity count
      | none =>
        simp only [queued] at ok
        have full := (ProcessQueue.addNewJob_none valid.queue).mp queued
        cases freed : js.release idx with
        | error panicked => simp [freed] at ok
        | ok js' =>
          simp only [freed] at ok
          cases ok
          have released := JobStore.released_of_slot created.valid created.slot freed
          exact .queueFull unflagged (by simpa using created.fresh)
            (JobStore.created_released valid.store created released) full

theorem addJob_spec {p p' : Partition} {job : Job} {clock : Clock} {outcome : AddOutcome} (valid : p.Valid)
    (slots : p.jobStore.jobs.length + 1 < 2 ^ 32) (ok : p.addJob job clock = .ok (p', outcome)) :
    Added p job clock p' outcome :=
  addJob_room valid (fun _ => slots) ok

theorem Added.valid {p p' : Partition} {job : Job} {clock : Clock} {outcome : AddOutcome}
    (added : Added p job clock p' outcome) (valid : p.Valid) : p'.Valid := by
  cases added with
  | alreadyDone => exact valid
  | duplicate => exact valid
  | accepted _ created _ _ queueValid => exact ⟨created.valid, queueValid⟩
  | queueFull _ _ refused => exact ⟨refused.valid, valid.queue⟩

/-- A job takes at most one new slot. -/
theorem Added.length {p p' : Partition} {job : Job} {clock : Clock} {outcome : AddOutcome}
    (added : Added p job clock p' outcome) :
    p'.jobStore.jobs.length ≤ p.jobStore.jobs.length + 1 := by
  cases added with
  | alreadyDone => exact Nat.le_succ _
  | duplicate => exact Nat.le_succ _
  | accepted _ created => exact (JobStore.created_length created).1
  | queueFull _ _ refused => exact refused.length

theorem addJobs_cons {p p' : Partition} {job : Job} {jobs : List Job} {clock : Nat → Clock}
    {outcomes : List (String × AddOutcome)} (ok : p.addJobs (job :: jobs) clock = .ok (p', outcomes)) :
    ∃ middle outcome rest, p.addJob job (clock 0) = .ok (middle, outcome) ∧
      middle.addJobs jobs (fun i => clock (i + 1)) = .ok (p', rest) ∧
      outcomes = (job.id, outcome) :: rest := by
  unfold addJobs at ok
  cases first : p.addJob job (clock 0) with
  | error panicked => simp [first] at ok
  | ok result =>
    obtain ⟨middle, outcome⟩ := result
    simp only [first] at ok
    cases others : middle.addJobs jobs (fun i => clock (i + 1)) with
    | error panicked => simp [others] at ok
    | ok result =>
      obtain ⟨last, rest⟩ := result
      simp only [others] at ok
      cases ok
      exact ⟨middle, outcome, rest, rfl, others, rfl⟩

/-- Induction along the loop of `handleAddJobs`: what one job keeps, the whole
batch keeps. The relation carries the jobs and clock readings still to come and
the outcomes so far. -/
theorem addJobs_induction
    (inv : Partition → List Job → (Nat → Clock) → List (String × AddOutcome) → Prop)
    (keep : ∀ p p' job jobs clock outcome done, p.Valid → p.jobStore.jobs.length + 1 < 2 ^ 32 →
      inv p (job :: jobs) clock done → p.addJob job (clock 0) = .ok (p', outcome) →
      Added p job (clock 0) p' outcome →
      inv p' jobs (fun i => clock (i + 1)) (done ++ [(job.id, outcome)]))
    {p p' : Partition} {jobs : List Job} {clock : Nat → Clock} {outcomes : List (String × AddOutcome)}
    (done : List (String × AddOutcome)) (valid : p.Valid)
    (slots : p.jobStore.jobs.length + jobs.length < 2 ^ 32) (base : inv p jobs clock done)
    (ok : p.addJobs jobs clock = .ok (p', outcomes)) :
    p'.Valid ∧ ∃ clock', inv p' [] clock' (done ++ outcomes) := by
  induction jobs generalizing p clock outcomes done with
  | nil =>
    cases ok
    exact ⟨valid, clock, by simpa using base⟩
  | cons job jobs ih =>
    obtain ⟨middle, outcome, rest, first, others, rfl⟩ := addJobs_cons ok
    simp only [List.length_cons] at slots
    have added := addJob_spec valid (by omega) first
    have bound := added.length
    have next := ih (done ++ [(job.id, outcome)]) (added.valid valid) (by omega)
      (keep p middle job jobs clock outcome done valid (by omega) base first added) others
    simpa using next

/-! ### Finishing and dropping jobs -/

/-- The job as the `Done` of these IDs leaves it. -/
def marked (ids : List String) (job : Job) : Job := if job.id ∈ ids then { job with done := true } else job

private theorem marked_cons (id : String) (ids : List String) (job : Job) :
    marked ids (if job.id = id then { job with done := true } else job) = marked (id :: ids) job := by
  unfold marked
  by_cases first : job.id = id <;> by_cases later : job.id ∈ ids <;> simp_all

/-- Every job named is flagged, the others are as they were. -/
structure Finished (js : JobStore) (ids : List String) (js' : JobStore) : Prop where
  get : ∀ i, js'.get i = (js.get i).map (marked ids)
  view : ∀ id, js'.view id = (js.view id).map (marked ids)
  named : js'.byID = js.byID
  free : js'.freeList = js.freeList
  length : js'.jobs.length = js.jobs.length
  valid : js'.Valid

theorem markDoneAll_spec {js : JobStore} (ids : List String) (valid : js.Valid) :
    ∃ js', markDoneAll js ids = .ok js' ∧ Finished js ids js' := by
  induction ids generalizing js with
  | nil =>
    have same : marked [] = id := by
      funext job
      simp [marked]
    exact ⟨js, rfl, by simp [same], by simp [same], rfl, rfl, rfl, valid⟩
  | cons id ids ih =>
    obtain ⟨middle, first, step⟩ := JobStore.markDone_spec id valid
    obtain ⟨js', rest, finished⟩ := ih step.valid
    refine ⟨js', ?_, ?_, ?_, ?_, ?_, ?_, finished.valid⟩
    · simp only [markDoneAll, List.foldlM_cons, first]
      exact rest
    · intro i
      rw [finished.get, JobStore.marked_get valid step, Option.map_map]
      congr 1
      funext job
      exact marked_cons id ids job
    · intro other
      rw [finished.view, JobStore.marked_view valid step]
      by_cases same : other = id
      · subst same
        rw [Function.update_self, Option.map_map]
        cases held : js.view other with
        | none => rfl
        | some job =>
          have named := JobStore.view_id valid held
          have flagged := marked_cons other ids job
          rw [if_pos named] at flagged
          simp [flagged]
      · rw [Function.update_of_ne same]
        cases held : js.view other with
        | none => rfl
        | some job =>
          have named := JobStore.view_id valid held
          have flagged := marked_cons id ids job
          rw [if_neg (by rw [named]; exact same)] at flagged
          simp [flagged]
    · exact finished.named.trans step.named
    · exact finished.free.trans step.free
    · exact finished.length.trans step.length

/-- The jobs named are gone, the others are as they were. -/
structure Dropped (js : JobStore) (ids : List String) (js' : JobStore) : Prop where
  get : ∀ i, js'.get i = (js.get i).filter fun job => job.id ∉ ids
  view : ∀ id, js'.view id = if id ∈ ids then none else js.view id
  named : ∀ id, js'.byID.get id = if id ∈ ids then none else js.byID.get id
  length : js'.jobs.length = js.jobs.length
  valid : js'.Valid

private theorem released_filter {js js' : JobStore} {i : Nat} {job : Job} (valid : js.Valid)
    (released : js.Released i job js') (k : Nat) :
    js'.get k = (js.get k).filter fun other => other.id ≠ job.id := by
  have owner := valid.occupied i job released.slot released.nonempty
  rw [JobStore.released_get valid released]
  split
  · rename_i same
    subst same
    rw [(JobStore.get_some valid).mpr ⟨released.slot, released.nonempty⟩]
    simp [Option.filter_some]
  · rename_i apart
    cases found : js.get k with
    | none => rfl
    | some other =>
      obtain ⟨named, _⟩ := JobStore.get_view valid found
      have differs : other.id ≠ job.id := by
        intro same
        rw [same, owner] at named
        exact apart (Option.some.inj named).symm
      simp [Option.filter_some, differs]

private theorem absent_filter {js : JobStore} {id : String} (valid : js.Valid) (absent : js.byID.get id = none)
    (k : Nat) : js.get k = (js.get k).filter fun other => other.id ≠ id := by
  cases found : js.get k with
  | none => rfl
  | some other =>
    obtain ⟨named, _⟩ := JobStore.get_view valid found
    have differs : other.id ≠ id := by
      rintro rfl
      rw [absent] at named
      cases named
    simp [Option.filter_some, differs]

private theorem forceRelease_dropped {js js' : JobStore} {id : String} (valid : js.Valid)
    (ok : js.forceRelease id = .ok js') : Dropped js [id] js' := by
  rcases JobStore.forceRelease_spec valid ok with ⟨absent, rfl⟩ | ⟨i, job, named, rfl, released⟩
  · refine ⟨fun k => by simpa using absent_filter valid absent k, ?_, ?_, rfl, valid⟩
    · intro other
      by_cases same : other = id
      · subst same
        simpa using (JobStore.view_none valid other).mpr absent
      · simp [same]
    · intro other
      by_cases same : other = id
      · subst same
        simpa using absent
      · simp [same]
  · refine ⟨fun k => by simpa using released_filter valid released k, ?_, ?_, released.length, released.valid⟩
    · intro other
      rw [JobStore.released_view valid released, Function.update_apply]
      simp
    · intro other
      rw [released.named, FinMap.get_delete]
      simp

theorem forceReleaseAll_spec {js js' : JobStore} (ids : List String) (valid : js.Valid)
    (ok : forceReleaseAll js ids = .ok js') : Dropped js ids js' := by
  induction ids generalizing js with
  | nil =>
    cases ok
    refine ⟨?_, by simp, by simp, rfl, valid⟩
    intro i
    cases js'.get i <;> simp [Option.filter_some]
  | cons id ids ih =>
    simp only [forceReleaseAll, List.foldlM_cons] at ok
    obtain ⟨middle, first, others⟩ := bind_ok ok
    have step := forceRelease_dropped valid first
    have rest := ih step.valid others
    refine ⟨?_, ?_, ?_, rest.length.trans step.length, rest.valid⟩
    · intro i
      rw [rest.get, step.get, Option.filter_filter]
      congr 1
      funext job
      by_cases here : job.id = id <;> by_cases later : job.id ∈ ids <;> simp [here, later]
    · intro other
      rw [rest.view, step.view]
      by_cases here : other = id <;> by_cases later : other ∈ ids <;> simp [here, later]
    · intro other
      rw [rest.named, step.named]
      by_cases here : other = id <;> by_cases later : other ∈ ids <;> simp [here, later]

/-! ### Dispatch -/

/-- The record's job is gone or finished. -/
def dead (js : JobStore) (item : JobRef) : Bool := (js.get item.slot).all Job.done

/-- The record's job is pending and was sent as often as it may be. -/
def exhausted (js : JobStore) (maxRetries : Int) (item : JobRef) : Bool :=
  !dead js item && decide (maxRetries ≤ item.retryCount)

/-- The record leaves the queue when it is read. -/
def removable (js : JobStore) (maxRetries : Int) (item : JobRef) : Bool :=
  dead js item || exhausted js maxRetries item

/-- What the classification loop did with the records it was given. -/
structure ClassifiedAs (maxRetries : Int) (c : Classified) (items : List JobRef) (c' : Classified) : Prop where
  jobStore : c'.jobStore = c.jobStore
  buffered : c'.dlqBuffer.jobs.map Prod.fst =
    c.dlqBuffer.jobs.map Prod.fst ++ items.filter (exhausted c.jobStore maxRetries)
  removed : c'.removeCells = c.removeCells ++ items.filter (removable c.jobStore maxRetries)
  kept : c'.validRefs = c.validRefs ++ items.filter fun item => !removable c.jobStore maxRetries item

private theorem classifyItem_spec (maxRetries : Int) (c : Classified) (item : JobRef) :
    ∃ c', classifyItem maxRetries c item = .ok c' ∧ ClassifiedAs maxRetries c [item] c' := by
  unfold classifyItem
  cases found : c.jobStore.get item.slot with
  | none =>
    have gone : dead c.jobStore item = true := by simp [dead, found]
    exact ⟨_, rfl, rfl, by simp [exhausted, gone], by simp [removable, gone], by simp [removable, gone]⟩
  | some job =>
    by_cases done : job.done = true
    · have gone : dead c.jobStore item = true := by simp [dead, found, done]
      simp only [done, ↓reduceIte]
      exact ⟨_, rfl, rfl, by simp [exhausted, gone], by simp [removable, gone], by simp [removable, gone]⟩
    · have pending : dead c.jobStore item = false := by simpa [dead, found] using done
      by_cases spent : item.retryCount ≥ maxRetries
      · simp only [done, spent, DLQBuffer.add, Bool.false_eq_true, ↓reduceIte]
        exact ⟨_, rfl, rfl, by simp [exhausted, pending, spent], by simp [removable, exhausted, pending, spent],
          by simp [removable, exhausted, pending, spent]⟩
      · simp only [done, spent, Bool.false_eq_true, ↓reduceIte]
        have unspent : exhausted c.jobStore maxRetries item = false := by
          simpa [exhausted, pending] using spent
        have stays : removable c.jobStore maxRetries item = false := by simp [removable, pending, unspent]
        exact ⟨_, rfl, rfl, by simp [unspent], by simp [stays], by simp [stays]⟩

private theorem ClassifiedAs.append {maxRetries : Int} {c c' c'' : Classified} {items items' : List JobRef}
    (first : ClassifiedAs maxRetries c items c') (second : ClassifiedAs maxRetries c' items' c'') :
    ClassifiedAs maxRetries c (items ++ items') c'' where
  jobStore := second.jobStore.trans first.jobStore
  buffered := by rw [second.buffered, first.buffered, first.jobStore, List.filter_append, List.append_assoc]
  removed := by rw [second.removed, first.removed, first.jobStore, List.filter_append, List.append_assoc]
  kept := by rw [second.kept, first.kept, first.jobStore, List.filter_append, List.append_assoc]

private theorem classify_fold (maxRetries : Int) (items : List JobRef) (c : Classified) :
    ∃ c', items.foldlM (classifyItem maxRetries) c = .ok c' ∧ ClassifiedAs maxRetries c items c' := by
  induction items generalizing c with
  | nil => exact ⟨c, rfl, rfl, by simp, by simp, by simp⟩
  | cons item items ih =>
    obtain ⟨middle, first, here⟩ := classifyItem_spec maxRetries c item
    obtain ⟨c', rest, others⟩ := ih middle
    refine ⟨c', ?_, here.append others⟩
    rw [List.foldlM_cons, first]
    exact rest

/-- Classification never panics: only pending jobs reach the dead-letter buffer. -/
theorem classify_spec (p : Partition) (items : List JobRef) :
    ∃ c, p.classify items = .ok c ∧
      ClassifiedAs p.config.maxRetries { dlqBuffer := p.dlqBuffer, jobStore := p.jobStore } items c :=
  classify_fold _ _ _

private theorem classifyItem_jobs {maxRetries : Int} {c c' : Classified} {item : JobRef}
    (ok : classifyItem maxRetries c item = .ok c') :
    c'.jobSlice.map some = c.jobSlice.map some ++
      ([item].filter fun item => !removable c.jobStore maxRetries item).map fun item => c.jobStore.get item.slot := by
  unfold classifyItem at ok
  cases found : c.jobStore.get item.slot with
  | none =>
    simp only [found] at ok
    cases ok
    simp [removable, dead, found]
  | some job =>
    simp only [found] at ok
    by_cases done : job.done = true
    · rw [if_pos done] at ok
      cases ok
      simp [removable, dead, found, done]
    · rw [if_neg done] at ok
      by_cases spent : item.retryCount ≥ maxRetries
      · rw [if_pos spent] at ok
        simp only [DLQBuffer.add, done, Bool.false_eq_true, ↓reduceIte] at ok
        cases ok
        simp [removable, exhausted, dead, found, done, spent]
      · rw [if_neg spent] at ok
        cases ok
        simp [removable, exhausted, dead, found, done, spent]

private theorem classify_fold_jobs {maxRetries : Int} {items : List JobRef} {c c' : Classified}
    (ok : items.foldlM (classifyItem maxRetries) c = .ok c') :
    c'.jobSlice.map some = c.jobSlice.map some ++
      (items.filter fun item => !removable c.jobStore maxRetries item).map fun item => c.jobStore.get item.slot := by
  induction items generalizing c with
  | nil =>
    cases ok
    simp
  | cons item items ih =>
    obtain ⟨middle, first, spec⟩ := classifyItem_spec maxRetries c item
    rw [List.foldlM_cons, first] at ok
    rw [ih ok, classifyItem_jobs first, spec.jobStore, List.append_assoc, ← List.map_append, ← List.filter_append,
      List.singleton_append]

private theorem updateRetries_spec {β : Type} (f : JobRef → β)
    (blind : ∀ job retryCount due, f { job with retryCount := retryCount, dueTimeSec := due } = f job)
    {p : Partition} (refs : List JobRef) (updateSec : Nat → Int) (valid : p.processQueue.Valid) :
    (p.updateRetries refs updateSec).Valid ∧
      (p.updateRetries refs updateSec).live.map f = p.processQueue.live.map f ∧
      (p.updateRetries refs updateSec).records.length = p.processQueue.records.length := by
  unfold updateRetries
  generalize p.processQueue = pq at valid
  induction refs.zipIdx generalizing pq with
  | nil => exact ⟨valid, rfl, rfl⟩
  | cons ref refs ih =>
    obtain ⟨valid', same, size⟩ := ih _ (ProcessQueue.updateRetry_valid ref.1.cell (ref.1.retryCount + 1)
      (p.calculateRetryDelaySec (ref.1.retryCount + 1)) (updateSec ref.2) valid)
    refine ⟨valid', same.trans (ProcessQueue.map_live_updateRetry f blind pq _ _ _ _), ?_⟩
    exact size.trans (ProcessQueue.records_length_updateRetry pq _ _ _ _)

/-- What a dispatch did that read `items`: the removable ones left the queue
and the exhausted ones among them went to the dead-letter buffer. -/
structure Dispatched (p : Partition) (items : List JobRef) (p' : Partition) : Prop where
  topic : p'.topic = p.topic
  config : p'.config = p.config
  jobStore : p'.jobStore = p.jobStore
  buffered : p'.dlqBuffer.jobs.map Prod.fst =
    p.dlqBuffer.jobs.map Prod.fst ++ items.filter (exhausted p.jobStore p.config.maxRetries)
  indices : p'.processQueue.live.map JobRef.index =
    swapRemoveAll (p.processQueue.live.map JobRef.index)
      ((items.filter (removable p.jobStore p.config.maxRetries)).map fun item => item.cell.toNat)
  queueValid : p'.processQueue.Valid
  capacity : p'.processQueue.records.length = p.processQueue.records.length

private theorem dispatchItems_spec {p p' : Partition} {proxyID : String} {items : List JobRef}
    {env : DispatchEnv} {sent : Option SentBatch} (valid : p.processQueue.Valid)
    (read : ∀ item ∈ items, item ∈ p.processQueue.live)
    (ok : p.dispatchItems proxyID items env = .ok (p', sent)) : Dispatched p items p' := by
  obtain ⟨c, classified, spec⟩ := p.classify_spec items
  have natural : ∀ ref ∈ c.removeCells, 0 ≤ ref.cell := by
    intro ref member
    rw [spec.removed] at member
    have item := List.mem_of_mem_filter (by simpa using member)
    exact ((ProcessQueue.mem_live valid).mp (read ref item)).1
  have removed : c.removeCells = items.filter (removable p.jobStore p.config.maxRetries) := by
    simpa using spec.removed
  unfold dispatchItems at ok
  simp only [classified] at ok
  split at ok
  · cases ok
    obtain ⟨valid', same, size⟩ := @updateRetries_spec _ JobRef.index (fun _ _ _ => rfl)
      { p with dlqBuffer := c.dlqBuffer, jobStore := c.jobStore } c.validRefs env.updateSec valid
    refine ⟨rfl, rfl, spec.jobStore, spec.buffered, ?_, ProcessQueue.removeCells_valid _ valid', ?_⟩
    · rw [ProcessQueue.map_live_removeCells JobRef.index (fun _ _ => rfl) _ valid' natural, removed, same]
    · rw [ProcessQueue.records_length_removeCells]
      exact size
  · cases ok
    refine ⟨rfl, rfl, spec.jobStore, spec.buffered, ?_, ProcessQueue.removeCells_valid _ valid, ?_⟩
    · rw [ProcessQueue.map_live_removeCells JobRef.index (fun _ _ => rfl) _ valid natural, removed]
    · rw [ProcessQueue.records_length_removeCells]

/-- The records a dispatch reads, none if it does not come to that. -/
def itemsRead (p : Partition) (env : DispatchEnv) : List JobRef :=
  match p.selectBatch env with
  | .ok (_, some (_, items)) => items
  | _ => []

private theorem selectBatch_items {p : Partition} {env : DispatchEnv} {pm : ProxyMap} {proxyID : String}
    {items : List JobRef} (ok : p.selectBatch env = .ok (pm, some (proxyID, items))) :
    ∃ count, items = p.processQueue.readBatch count env.nowSec := by
  unfold selectBatch at ok
  split at ok
  · cases ok
  · split at ok
    · cases ok
    · cases ok
    · split at ok
      · cases ok
      · split at ok
        · cases ok
        · dsimp only at ok
          split at ok
          · cases ok
          · simp only [Except.ok.injEq, Prod.mk.injEq] at ok
            split at ok
            · cases ok.2
            · obtain ⟨-, read⟩ := ok
              cases read
              exact ⟨_, rfl⟩

private theorem itemsRead_cases (p : Partition) (env : DispatchEnv) :
    p.itemsRead env = [] ∨ ∃ count, p.itemsRead env = p.processQueue.readBatch count env.nowSec := by
  unfold itemsRead
  split
  · rename_i selected
    exact Or.inr (selectBatch_items selected)
  · exact Or.inl rfl

theorem itemsRead_live {p : Partition} {env : DispatchEnv} {item : JobRef}
    (member : item ∈ p.itemsRead env) : item ∈ p.processQueue.live := by
  rcases p.itemsRead_cases env with none | ⟨count, batch⟩
  · rw [none] at member
    cases member
  · rw [batch] at member
    exact ProcessQueue.mem_live_of_mem_readBatch member

theorem itemsRead_cells_nodup {p : Partition} (env : DispatchEnv) (valid : p.processQueue.Valid) :
    ((p.itemsRead env).map JobRef.cell).Nodup := by
  rcases p.itemsRead_cases env with none | ⟨count, batch⟩
  · rw [none]
    exact List.nodup_nil
  · rw [batch]
    exact ProcessQueue.readBatch_cells_nodup count env.nowSec valid

theorem itemsRead_positions_nodup {p : Partition} (env : DispatchEnv) (valid : p.processQueue.Valid) :
    ((p.itemsRead env).map fun item => item.cell.toNat).Nodup :=
  ProcessQueue.positions_nodup (fun _ member => ((ProcessQueue.mem_live valid).mp (itemsRead_live member)).1)
    (itemsRead_cells_nodup env valid)

/-- What a dispatch reads is due. -/
theorem itemsRead_due {p : Partition} {env : DispatchEnv} {item : JobRef}
    (member : item ∈ p.itemsRead env) : item.dueTimeSec ≤ env.nowSec := by
  rcases p.itemsRead_cases env with none | ⟨count, batch⟩
  · rw [none] at member
    cases member
  · rw [batch] at member
    exact ProcessQueue.due_of_mem_readBatch member

theorem dispatch_spec {p p' : Partition} {env : DispatchEnv} {sent : Option SentBatch}
    (valid : p.processQueue.Valid) (ok : p.dispatch env = .ok (p', sent)) :
    Dispatched p (p.itemsRead env) p' := by
  have read : ∀ item ∈ p.itemsRead env, item ∈ p.processQueue.live := fun _ => itemsRead_live
  unfold dispatch at ok
  unfold itemsRead at read ⊢
  split at ok
  · cases ok
  · rename_i selected
    cases ok
    simp only [selected]
    exact ⟨rfl, rfl, rfl, by simp, by simp [swapRemoveAll], valid, rfl⟩
  · rename_i pm proxyID items selected
    simp only [selected] at read ⊢
    have dispatched := @dispatchItems_spec { p with proxyMap := pm } p' proxyID items env sent valid read ok
    exact ⟨dispatched.topic, dispatched.config, dispatched.jobStore, dispatched.buffered,
      dispatched.indices, dispatched.queueValid, dispatched.capacity⟩

/-- The jobs of a batch are those of the records that were read and stay. -/
theorem dispatch_sent {p p' : Partition} {env : DispatchEnv} {batch : SentBatch}
    (ok : p.dispatch env = .ok (p', some batch)) :
    batch.jobs.map some =
      ((p.itemsRead env).filter fun item => !removable p.jobStore p.config.maxRetries item).map
        fun item => p.jobStore.get item.slot := by
  unfold dispatch at ok
  split at ok
  · cases ok
  · cases ok
  · rename_i pm proxyID items selected
    simp only [itemsRead, selected]
    unfold dispatchItems at ok
    split at ok
    · cases ok
    · rename_i classified
      split at ok
      · cases ok
        simpa using classify_fold_jobs classified
      · cases ok

/-- If the batch can be encoded and the channel takes it, nothing is sent only
when no record that was read stays. -/
theorem dispatch_unsent {p p' : Partition} {env : DispatchEnv} (marshals : env.marshals = true)
    (goes : env.sent = true) (ok : p.dispatch env = .ok (p', none)) :
    ((p.itemsRead env).filter fun item => !removable p.jobStore p.config.maxRetries item) = [] := by
  unfold dispatch at ok
  unfold itemsRead
  split at ok
  · cases ok
  · rename_i selected
    simp only [selected, List.filter_nil]
  · rename_i pm proxyID items selected
    simp only [selected]
    unfold dispatchItems at ok
    split at ok
    · cases ok
    · rename_i classified
      split at ok
      · cases ok
      · rename_i refused
        have none : _ = [] := not_not.mp fun some => refused ⟨some, marshals, goes⟩
        have jobs := classify_fold_jobs classified
        rw [none] at jobs
        simpa using jobs.symm

/-- A dispatch leaves the buffer and the store as the classification of what it read
does, which may be nothing. -/
theorem dispatch_classified {p p' : Partition} {env : DispatchEnv} {sent : Option SentBatch}
    (ok : p.dispatch env = .ok (p', sent)) :
    ∃ c, p.classify (p.itemsRead env) = .ok c ∧ p'.dlqBuffer = c.dlqBuffer ∧ p'.jobStore = c.jobStore := by
  unfold dispatch at ok
  unfold itemsRead
  split at ok
  · cases ok
  · rename_i selected
    cases ok
    simp only [selected]
    exact ⟨_, rfl, rfl, rfl⟩
  · rename_i pm proxyID items selected
    simp only [selected]
    obtain ⟨c, classified, _⟩ := classify_spec { p with proxyMap := pm } items
    unfold dispatchItems at ok
    simp only [classified] at ok
    split at ok
    · cases ok
      exact ⟨c, classified, rfl, rfl⟩
    · cases ok
      exact ⟨c, classified, rfl, rfl⟩

theorem dispatch_jobStore {p p' : Partition} {env : DispatchEnv} {sent : Option SentBatch}
    (ok : p.dispatch env = .ok (p', sent)) : p'.jobStore = p.jobStore := by
  obtain ⟨c, classified, _, store⟩ := dispatch_classified ok
  obtain ⟨c', same, spec⟩ := p.classify_spec (p.itemsRead env)
  cases classified.symm.trans same
  exact store.trans spec.jobStore

/-! ### Dead letters -/

/-- Some finished jobs were released and nothing else happened to the store. -/
structure Swept (js js' : JobStore) : Prop where
  get : ∀ i, js'.get i = js.get i ∨ js'.get i = none ∧ ∃ job, js.get i = some job ∧ job.done = true
  view : ∀ id, js'.view id = js.view id ∨ js'.view id = none ∧ ∃ job, js.view id = some job ∧ job.done = true
  named : ∀ id, js'.byID.get id = js.byID.get id ∨ js'.byID.get id = none
  length : js'.jobs.length = js.jobs.length
  valid : js'.Valid

theorem Swept.refl {js : JobStore} (valid : js.Valid) : Swept js js :=
  ⟨fun _ => Or.inl rfl, fun _ => Or.inl rfl, fun _ => Or.inl rfl, rfl, valid⟩

theorem Swept.trans {js js' js'' : JobStore} (first : Swept js js') (second : Swept js' js'') :
    Swept js js'' where
  get := by
    intro i
    rcases second.get i with same | ⟨gone, job, held, done⟩
    · rw [same]
      exact first.get i
    · rcases first.get i with same | ⟨gone', _⟩
      · exact Or.inr ⟨gone, job, by rw [← same, held], done⟩
      · rw [gone'] at held
        cases held
  view := by
    intro id
    rcases second.view id with same | ⟨gone, job, held, done⟩
    · rw [same]
      exact first.view id
    · rcases first.view id with same | ⟨gone', _⟩
      · exact Or.inr ⟨gone, job, by rw [← same, held], done⟩
      · rw [gone'] at held
        cases held
  named := by
    intro id
    rcases second.named id with same | gone
    · rw [same]
      exact first.named id
    · exact Or.inr gone
  length := second.length.trans first.length
  valid := second.valid

theorem Swept.view_pending {js js' : JobStore} (swept : Swept js js') (id : String) (job : Job)
    (pending : job.done = false) : js'.view id = some job ↔ js.view id = some job := by
  rcases swept.view id with same | ⟨gone, other, found, done⟩
  · rw [same]
  · rw [gone, found]
    constructor
    · intro impossible
      cases impossible
    · intro same
      cases same
      rw [pending] at done
      cases done

private theorem released_swept {js js' : JobStore} {i : Nat} {job : Job} (valid : js.Valid)
    (released : js.Released i job js') (done : job.done = true) : Swept js js' where
  get := by
    intro k
    rw [JobStore.released_get valid released]
    by_cases same : k = i
    · subst same
      rw [if_pos rfl]
      exact Or.inr ⟨rfl, job, (JobStore.get_some valid).mpr ⟨released.slot, released.nonempty⟩, done⟩
    · rw [if_neg same]
      exact Or.inl rfl
  view := by
    intro id
    rw [JobStore.released_view valid released]
    by_cases same : id = job.id
    · subst same
      have owner := valid.occupied i job released.slot released.nonempty
      exact Or.inr ⟨Function.update_self .., job, JobStore.view_some.mpr ⟨i, owner, released.slot⟩, done⟩
    · exact Or.inl (Function.update_of_ne same ..)
  named := by
    intro id
    rw [released.named, FinMap.get_delete]
    split
    · exact Or.inr rfl
    · exact Or.inl rfl
  length := released.length
  valid := released.valid

/-- One entry of the loop of `Flush`: its job is there, and released or proposed. -/
theorem proposals_cons {now : Int} {item : JobRef × Int} {items : List (JobRef × Int)} {js js' : JobStore}
    {drops : List DropProposal} (ok : DLQBuffer.proposals now (item :: items) js = .ok (drops, js')) :
    ∃ job, js.get item.1.slot = some job ∧
      ((job.done = true ∧ ∃ middle, js.release item.1.slot = .ok middle ∧
          DLQBuffer.proposals now items middle = .ok (drops, js')) ∨
        job.done = false ∧ ∃ more, DLQBuffer.proposals now items js = .ok (more, js') ∧
          drops = ⟨job.id, job.topic, now⟩ :: more) := by
  obtain ⟨ref, size⟩ := item
  simp only [DLQBuffer.proposals] at ok
  split at ok
  · cases ok
  · rename_i job held
    refine ⟨job, held, ?_⟩
    split at ok
    · rename_i done
      split at ok
      · cases ok
      · rename_i middle freed
        exact .inl ⟨done, middle, freed, ok⟩
    · rename_i pending
      split at ok
      · cases ok
      · rename_i more last others
        cases ok
        exact .inr ⟨Bool.not_eq_true _ ▸ pending, more, others, rfl⟩

/-- The loop of `Flush` sweeps the store. No entry's slot is free, or it panics,
and every entry whose job is pending is among the drops. -/
theorem proposals_spec {now : Int} {items : List (JobRef × Int)} {js js' : JobStore}
    {drops : List DropProposal} (valid : js.Valid)
    (ok : DLQBuffer.proposals now items js = .ok (drops, js')) :
    Swept js js' ∧ ∀ item ∈ items, ∃ job, js.get item.1.slot = some job ∧
      (job.done = false → job.id ∈ drops.map DropProposal.jobID) := by
  induction items generalizing js drops with
  | nil =>
    cases ok
    exact ⟨.refl valid, by simp⟩
  | cons item items ih =>
    obtain ⟨first, held, ⟨done, middle, freed, others⟩ | ⟨-, more, others, rfl⟩⟩ := proposals_cons ok
    · have released := JobStore.released_of_slot valid ((JobStore.get_some valid).mp held).1 freed
      have swept := released_swept valid released done
      obtain ⟨rest, proposed⟩ := ih released.valid others
      refine ⟨swept.trans rest, ?_⟩
      intro entry member
      rcases List.mem_cons.mp member with rfl | member
      · exact ⟨first, held, fun pending => by rw [pending] at done; cases done⟩
      · obtain ⟨job, found, listed⟩ := proposed entry member
        rcases swept.get entry.1.slot with same | ⟨gone, _⟩
        · exact ⟨job, same ▸ found, listed⟩
        · rw [gone] at found
          cases found
    · obtain ⟨rest, proposed⟩ := ih valid others
      refine ⟨rest, ?_⟩
      intro entry member
      rcases List.mem_cons.mp member with rfl | member
      · exact ⟨first, held, fun _ => by simp⟩
      · obtain ⟨job, found, listed⟩ := proposed entry member
        exact ⟨job, found, fun pending => List.mem_cons_of_mem _ (listed pending)⟩

/-- The finished jobs among the entries are released. -/
theorem proposals_release {now : Int} {items : List (JobRef × Int)} {js js' : JobStore} {drops : List DropProposal}
    (valid : js.Valid) (ok : DLQBuffer.proposals now items js = .ok (drops, js')) :
    ∀ item ∈ items, ∀ job, js.get item.1.slot = some job → job.done = true → js'.get item.1.slot = none := by
  induction items generalizing js drops with
  | nil => simp
  | cons item items ih =>
    intro entry member job found finished
    obtain ⟨first, held, ⟨-, middle, freed, others⟩ | ⟨pending, more, others, rfl⟩⟩ := proposals_cons ok
    · have released := JobStore.released_of_slot valid ((JobStore.get_some valid).mp held).1 freed
      by_cases same : entry.1.slot = item.1.slot
      · -- a free slot stays free
        have gone : middle.get entry.1.slot = none := by
          rw [JobStore.released_get valid released, if_pos same]
        rcases (proposals_spec released.valid others).1.get entry.1.slot with kept | ⟨none, _⟩
        · rw [kept, gone]
        · exact none
      · refine ih released.valid others entry ?_ job ?_ finished
        · exact (List.mem_cons.mp member).resolve_left fun here => same (by rw [here])
        · rw [JobStore.released_get valid released, if_neg same]
          exact found
    · rcases List.mem_cons.mp member with rfl | later
      · rw [held] at found
        cases found
        rw [finished] at pending
        cases pending
      · exact ih valid others entry later job found finished

/-- Every entry is proposed at most once, under the ID its job had. -/
theorem drops_sublist {now : Int} {items : List (JobRef × Int)} {js js' : JobStore} {drops : List DropProposal}
    (valid : js.Valid) (ok : DLQBuffer.proposals now items js = .ok (drops, js')) :
    (drops.map DropProposal.jobID).Sublist (items.filterMap fun item => (js.get item.1.slot).map Job.id) := by
  induction items generalizing js drops with
  | nil =>
    cases ok
    exact List.Sublist.slnil
  | cons item items ih =>
    obtain ⟨first, held, ⟨-, middle, freed, others⟩ | ⟨-, more, others, rfl⟩⟩ := proposals_cons ok
    · simp only [List.filterMap_cons, held, Option.map_some]
      have released := JobStore.released_of_slot valid ((JobStore.get_some valid).mp held).1 freed
      -- the entries behind it that found a job found the same one before
      obtain ⟨_, proposed⟩ := proposals_spec released.valid others
      have same : (items.filterMap fun item => (middle.get item.1.slot).map Job.id) =
          items.filterMap fun item => (js.get item.1.slot).map Job.id := by
        refine List.filterMap_congr fun entry member => ?_
        obtain ⟨job, found, _⟩ := proposed entry member
        rw [JobStore.released_get valid released] at found ⊢
        split at found
        · cases found
        · rename_i apart
          rw [if_neg apart]
      exact (same ▸ ih released.valid others).cons _
    · simp only [List.filterMap_cons, held, Option.map_some]
      exact (ih valid others).cons_cons _

/-- What a flush did that was due: the buffer is empty, finished jobs are
released, and with room on the channel every pending job is proposed. -/
structure Flushed (p : Partition) (room : Bool) (cmd : Option Command) (p' : Partition) : Prop where
  topic : p'.topic = p.topic
  config : p'.config = p.config
  processQueue : p'.processQueue = p.processQueue
  emptied : p'.dlqBuffer.jobs = []
  swept : Swept p.jobStore p'.jobStore
  proposed : ∀ item ∈ p.dlqBuffer.jobs, ∃ job, p.jobStore.get item.1.slot = some job ∧
    (room = true → job.done = false → ∃ drop, cmd.bind Command.drop = some drop ∧ job.id ∈ drop.jobIDs)

/-- A flush goes through all entries of the buffer, which may be none. -/
theorem flushDLQ_ran {p p' : Partition} {now : Int} {room : Bool} {cmd : Option Command}
    (ok : p.flushDLQ now room = .ok (p', cmd)) :
    ∃ drops dlq js, DLQBuffer.proposals now p.dlqBuffer.jobs p.jobStore = .ok (drops, js) ∧ dlq.jobs = [] ∧
      p' = { p with dlqBuffer := dlq, jobStore := js } ∧
      cmd = if drops = [] ∨ ¬ room then none
        else some { type := .drop, drop := some ⟨p.topic, drops.map DropProposal.jobID⟩ } := by
  unfold flushDLQ DLQBuffer.flush at ok
  by_cases empty : p.dlqBuffer.jobs = []
  · simp only [empty, ↓reduceIte, true_or] at ok
    cases ok
    exact ⟨[], p.dlqBuffer, p.jobStore, by rw [empty]; rfl, empty, rfl, rfl⟩
  · simp only [if_neg empty] at ok
    cases proposed : DLQBuffer.proposals now p.dlqBuffer.jobs p.jobStore with
    | error panicked => simp [proposed] at ok
    | ok result =>
      obtain ⟨drops, js⟩ := result
      simp only [proposed] at ok
      split at ok
      · rename_i silent
        cases ok
        exact ⟨drops, _, js, rfl, rfl, rfl, (if_pos silent).symm⟩
      · rename_i sent
        cases ok
        exact ⟨drops, _, js, rfl, rfl, rfl, (if_neg sent).symm⟩

theorem flushDLQ_spec {p p' : Partition} {now : Int} {room : Bool} {cmd : Option Command}
    (valid : p.jobStore.Valid) (ok : p.flushDLQ now room = .ok (p', cmd)) : Flushed p room cmd p' := by
  obtain ⟨drops, dlq, js, proposed, emptied, rfl, rfl⟩ := flushDLQ_ran ok
  obtain ⟨swept, listed⟩ := proposals_spec valid proposed
  refine ⟨rfl, rfl, rfl, emptied, swept, fun item member => ?_⟩
  obtain ⟨job, found, named⟩ := listed item member
  refine ⟨job, found, fun vacant pending => ?_⟩
  have some : ¬ (drops = [] ∨ ¬ room) := by
    rintro (none | full)
    · simpa [none] using named pending
    · exact full vacant
  rw [if_neg some]
  exact ⟨_, rfl, named pending⟩

/-- The IDs of the drop command that a step put on the channel. -/
def Effect.drops (effect : Effect) : List String :=
  ((effect.proposed.bind Command.drop).map DropPayload.jobIDs).getD []

theorem flush_drops {p p' : Partition} {now : Int} {room : Bool} {cmd : Option Command} (valid : p.jobStore.Valid)
    (ok : p.flushDLQ now room = .ok (p', cmd)) :
    (Effect.drops { proposed := cmd }).Sublist
      (p.dlqBuffer.jobs.filterMap fun item => (p.jobStore.get item.1.slot).map Job.id) := by
  obtain ⟨drops, dlq, js, proposed, _, rfl, rfl⟩ := flushDLQ_ran ok
  split
  · exact List.nil_sublist _
  · exact drops_sublist valid proposed

theorem flush_releases {p p' : Partition} {now : Int} {room : Bool} {cmd : Option Command}
    (valid : p.jobStore.Valid) (ok : p.flushDLQ now room = .ok (p', cmd)) :
    ∀ item ∈ p.dlqBuffer.jobs, ∀ job, p.jobStore.get item.1.slot = some job → job.done = true →
      p'.jobStore.get item.1.slot = none := by
  obtain ⟨drops, dlq, js, proposed, _, rfl, rfl⟩ := flushDLQ_ran ok
  exact fun item member => proposals_release valid proposed item member

/-! ### The main loop -/

/-- What a step of the main loop ran, whatever state it ran in. -/
inductive Ran (p : Partition) : Op → Partition → Effect → Prop where
  | addJobs {cmd : Command} {clock : Nat → Clock} {payload : AddJobsPayload} {p' : Partition}
      {outcomes : List (String × AddOutcome)} (type : cmd.type = .addJobs) (carried : cmd.addJobs = some payload)
      (added : p.addJobs payload.jobs clock = .ok (p', outcomes)) :
      Ran p (.command cmd clock) p' { accepted := acceptedJobs outcomes }
  | done {cmd : Command} {clock : Nat → Clock} {payload : DonePayload} {js : JobStore}
      (type : cmd.type = .done) (carried : cmd.done = some payload)
      (marked : markDoneAll p.jobStore payload.jobIDs = .ok js) :
      Ran p (.command cmd clock) { p with jobStore := js } {}
  | drop {cmd : Command} {clock : Nat → Clock} {payload : DropPayload} {js : JobStore}
      (type : cmd.type = .drop) (carried : cmd.drop = some payload)
      (released : forceReleaseAll p.jobStore payload.jobIDs = .ok js) :
      Ran p (.command cmd clock) { p with jobStore := js } {}
  | ignored {cmd : Command} {clock : Nat → Clock}
      (nothing : cmd.type = .addJobs → cmd.addJobs = none) (unfinished : cmd.type = .done → cmd.done = none)
      (undropped : cmd.type = .drop → cmd.drop = none) : Ran p (.command cmd clock) p {}
  | dispatch {env : DispatchEnv} {p' : Partition} {sent : Option SentBatch}
      (run : p.dispatch env = .ok (p', sent)) : Ran p (.dispatch env) p' {}
  | flush {now : Int} {room : Bool} {cmd : Option Command} {p' : Partition}
      (needed : p.dlqBuffer.shouldFlush now = true) (run : p.flushDLQ now room = .ok (p', cmd)) :
      Ran p (.flush now room) p' { proposed := cmd }
  | unflushed {now : Int} {room : Bool} (early : p.dlqBuffer.shouldFlush now = false) :
      Ran p (.flush now room) p {}
  | proxies {op : Op} {pm : ProxyMap} {chs : FinMap String PushCh}
      (proxy : ∀ cmd clock, op ≠ .command cmd clock) (idle : ∀ env, op ≠ .dispatch env)
      (steady : ∀ now room, op ≠ .flush now room) :
      Ran p op { p with proxyMap := pm, proxyPushChs := chs } {}

theorem command_ran {p : Partition} {cmd : Command} {clock : Nat → Clock} {handled : Handled}
    (ok : p.handleCommand cmd clock = .ok handled) :
    Ran p (.command cmd clock) handled.partition { accepted := handled.accepted } := by
  unfold handleCommand at ok
  split at ok
  · rename_i type
    unfold handleAddJobs at ok
    cases carried : cmd.addJobs with
    | none =>
      simp only [carried] at ok
      cases ok
      exact .ignored (fun _ => carried) (by simp [type]) (by simp [type])
    | some payload =>
      simp only [carried] at ok
      cases added : p.addJobs payload.jobs clock with
      | error panicked => simp [added] at ok
      | ok result =>
        simp only [added] at ok
        cases ok
        exact .addJobs type carried added
  · rename_i type
    unfold handleDone at ok
    cases carried : cmd.done with
    | none =>
      simp only [carried] at ok
      cases ok
      exact .ignored (by simp [type]) (fun _ => carried) (by simp [type])
    | some payload =>
      simp only [carried] at ok
      cases marked : markDoneAll p.jobStore payload.jobIDs with
      | error panicked => simp [marked] at ok
      | ok js =>
        simp only [marked] at ok
        cases ok
        exact .done type carried marked
  · rename_i type
    unfold handleDrop at ok
    cases carried : cmd.drop with
    | none =>
      simp only [carried] at ok
      cases ok
      exact .ignored (by simp [type]) (by simp [type]) (fun _ => carried)
    | some payload =>
      simp only [carried] at ok
      cases released : forceReleaseAll p.jobStore payload.jobIDs with
      | error panicked => simp [released] at ok
      | ok js =>
        simp only [released] at ok
        cases ok
        exact .drop type carried released
  · rename_i notAdd notDone notDrop
    cases ok
    exact .ignored (fun type => absurd type notAdd) (fun type => absurd type notDone)
      (fun type => absurd type notDrop)

theorem step_ran {p p' : Partition} {op : Op} {effect : Effect} (ok : p.step op = .ok (p', effect)) :
    Ran p op p' effect := by
  cases op with
  | command cmd clock =>
    obtain ⟨handled, run, rest⟩ := bind_ok ok
    cases rest
    exact command_ran run
  | dispatch env =>
    obtain ⟨⟨q, sent⟩, run, rest⟩ := bind_ok ok
    cases rest
    exact .dispatch run
  | flush now room =>
    obtain ⟨⟨q, cmd⟩, run, rest⟩ := bind_ok ok
    cases rest
    unfold flushDLQIfNeeded at run
    cases needed : p.dlqBuffer.shouldFlush now with
    | false =>
      simp only [needed] at run
      cases run
      exact .unflushed needed
    | true =>
      simp only [needed] at run
      exact .flush needed run
  | topology update =>
    cases ok
    unfold handleTopologyUpdate
    cases update with
    | add proxyID pushCh =>
      cases pushCh with
      | none => exact @Ran.proxies p _ p.proxyMap p.proxyPushChs (by simp) (by simp) (by simp)
      | some pushCh => exact .proxies (by simp) (by simp) (by simp)
    | remove proxyID => exact .proxies (by simp) (by simp) (by simp)
  | heartbeat hb =>
    obtain ⟨q, run, rest⟩ := bind_ok ok
    cases rest
    unfold handleHeartbeat at run
    split at run
    · cases run
      exact @Ran.proxies p _ p.proxyMap p.proxyPushChs (by simp) (by simp) (by simp)
    · split at run
      · cases run
      · cases run
        exact .proxies (by simp) (by simp) (by simp)
  | cleanup now order rebuildOrder =>
    obtain ⟨q, run, rest⟩ := bind_ok ok
    cases rest
    unfold cleanupProxyMap at run
    split at run
    · cases run
    · cases run
      exact .proxies (by simp) (by simp) (by simp)

/-- What a step of the main loop did. -/
inductive Stepped (p : Partition) : Op → Partition → Effect → Prop where
  | addJobs {cmd : Command} {clock : Nat → Clock} {payload : AddJobsPayload} {p' : Partition}
      {outcomes : List (String × AddOutcome)} (type : cmd.type = .addJobs) (carried : cmd.addJobs = some payload)
      (added : p.addJobs payload.jobs clock = .ok (p', outcomes)) :
      Stepped p (.command cmd clock) p' { accepted := acceptedJobs outcomes }
  | done {cmd : Command} {clock : Nat → Clock} {payload : DonePayload} {js : JobStore}
      (type : cmd.type = .done) (carried : cmd.done = some payload)
      (finished : Finished p.jobStore payload.jobIDs js) :
      Stepped p (.command cmd clock) { p with jobStore := js } {}
  | drop {cmd : Command} {clock : Nat → Clock} {payload : DropPayload} {js : JobStore}
      (type : cmd.type = .drop) (carried : cmd.drop = some payload)
      (dropped : Dropped p.jobStore payload.jobIDs js) :
      Stepped p (.command cmd clock) { p with jobStore := js } {}
  | ignored {cmd : Command} {clock : Nat → Clock}
      (nothing : cmd.type = .addJobs → cmd.addJobs = none) (unfinished : cmd.type = .done → cmd.done = none)
      (undropped : cmd.type = .drop → cmd.drop = none) : Stepped p (.command cmd clock) p {}
  | dispatch {env : DispatchEnv} {p' : Partition} (dispatched : Dispatched p (p.itemsRead env) p') :
      Stepped p (.dispatch env) p' {}
  | flush {now : Int} {room : Bool} {cmd : Option Command} {p' : Partition}
      (needed : p.dlqBuffer.shouldFlush now = true) (flushed : Flushed p room cmd p') :
      Stepped p (.flush now room) p' { proposed := cmd }
  | unflushed {now : Int} {room : Bool} (early : p.dlqBuffer.shouldFlush now = false) :
      Stepped p (.flush now room) p {}
  | proxies {op : Op} {pm : ProxyMap} {chs : FinMap String PushCh}
      (proxy : ∀ cmd clock, op ≠ .command cmd clock) (idle : ∀ env, op ≠ .dispatch env)
      (steady : ∀ now room, op ≠ .flush now room) :
      Stepped p op { p with proxyMap := pm, proxyPushChs := chs } {}

theorem Ran.stepped {p p' : Partition} {op : Op} {effect : Effect} (ran : Ran p op p' effect) (valid : p.Valid) :
    Stepped p op p' effect := by
  cases ran with
  | addJobs type carried added => exact .addJobs type carried added
  | done type carried marked =>
    obtain ⟨js, marked', finished⟩ := markDoneAll_spec _ valid.store
    cases marked.symm.trans marked'
    exact .done type carried finished
  | drop type carried released => exact .drop type carried (forceReleaseAll_spec _ valid.store released)
  | ignored nothing unfinished undropped => exact .ignored nothing unfinished undropped
  | dispatch run => exact .dispatch (dispatch_spec valid.queue run)
  | flush needed run => exact .flush needed (flushDLQ_spec valid.store run)
  | unflushed early => exact .unflushed early
  | proxies proxy idle steady => exact .proxies proxy idle steady

theorem command_stepped {p : Partition} {cmd : Command} {clock : Nat → Clock} {handled : Handled}
    (valid : p.Valid) (ok : p.handleCommand cmd clock = .ok handled) :
    Stepped p (.command cmd clock) handled.partition { accepted := handled.accepted } :=
  (command_ran ok).stepped valid

theorem step_spec {p p' : Partition} {op : Op} {effect : Effect} (valid : p.Valid)
    (ok : p.step op = .ok (p', effect)) : Stepped p op p' effect :=
  (step_ran ok).stepped valid

/-- The jobs a command adds. -/
def Op.adds : Op → List Job
  | .command cmd _ => if cmd.type = .addJobs then (cmd.addJobs.map AddJobsPayload.jobs).getD [] else []
  | _ => []

/-- The step cannot bring the store to the slot count at which `uint32` wraps. -/
def Fits (p : Partition) (op : Op) : Prop := p.jobStore.jobs.length + op.adds.length < 2 ^ 32

instance (p : Partition) (op : Op) : Decidable (p.Fits op) := Nat.decLt _ _

theorem Stepped.valid {p p' : Partition} {op : Op} {effect : Effect} (stepped : Stepped p op p' effect)
    (valid : p.Valid) (fits : p.Fits op) : p'.Valid := by
  cases stepped with
  | addJobs type carried added =>
    exact (addJobs_induction (fun _ _ _ _ => True) (fun _ _ _ _ _ _ _ _ _ _ _ _ => trivial) [] valid
      (by simpa [Fits, Op.adds, type, carried] using fits) trivial added).1
  | done _ _ finished => exact ⟨finished.valid, valid.queue⟩
  | drop _ _ dropped => exact ⟨dropped.valid, valid.queue⟩
  | ignored => exact valid
  | dispatch dispatched => exact ⟨dispatched.jobStore ▸ valid.store, dispatched.queueValid⟩
  | flush _ flushed => exact ⟨flushed.swept.valid, flushed.processQueue ▸ valid.queue⟩
  | unflushed => exact valid
  | proxies => exact ⟨valid.store, valid.queue⟩

/-! ### Runs with an observer

What a run has done so far is kept beside the partition by an observer that
sees every step and its effect and changes nothing. An observer may give jobs
numbers in the order they are accepted. -/

/-- The next number is new, and the one after it will be. -/
theorem nodup_next {numbers : List Nat} {next : Nat} (distinct : numbers.Nodup) (below : ∀ n ∈ numbers, n < next) :
    (numbers ++ [next]).Nodup ∧ ∀ n ∈ numbers ++ [next], n < next + 1 := by
  constructor
  · refine List.nodup_append.mpr ⟨distinct, List.nodup_singleton _, ?_⟩
    rintro n old last new rfl
    rw [List.mem_singleton] at new
    exact Nat.lt_irrefl _ (new ▸ below n old)
  · intro n member
    rcases List.mem_append.mp member with old | new
    · exact Nat.lt_succ_of_lt (below n old)
    · rw [List.mem_singleton] at new
      exact new ▸ Nat.lt_succ_self _

section Observed

variable {G : Type} (watch : G → Partition → Op → Effect → G)

def ObservedStep (s : Partition × G) (op : Op) (s' : Partition × G) : Prop :=
  ∃ effect, s.1.step op = .ok (s'.1, effect) ∧ s'.2 = watch s.2 s.1 op effect

/-- The runs of a partition that starts empty. -/
abbrev ObservedRun (admits : Partition → Op → Prop) (topic : String) (config : PartitionConfig)
    (nowMilli : Int) (seen : G) : List Op → Partition × G → Prop :=
  Run (ObservedStep watch) (fun _ s op => admits s.1 op) (new topic config nowMilli, seen)

variable (admits : Partition → Op → Prop) [∀ p op, Decidable (admits p op)]

/-- The same step as a function, stuck where it is not admitted. -/
def observedStep (s : Partition × G) (op : Op) : Option (Partition × G) :=
  if admits s.1 op then
    match s.1.step op with
    | .ok (p, effect) => some (p, watch s.2 s.1 op effect)
    | .error _ => none
  else none

/-- The end of the run that executes these operations. -/
def observe (topic : String) (config : PartitionConfig) (nowMilli : Int) (seen : G) (ops : List Op) :
    Option (Partition × G) :=
  ops.foldlM (observedStep watch admits) (new topic config nowMilli, seen)

variable {watch admits}

theorem observedStep_sound {s s' : Partition × G} {op : Op} (ok : observedStep watch admits s op = some s') :
    admits s.1 op ∧ ObservedStep watch s op s' := by
  unfold observedStep at ok
  split at ok
  · rename_i admitted
    split at ok
    · rename_i stepped
      cases ok
      exact ⟨admitted, _, stepped, rfl⟩
    · cases ok
  · cases ok

theorem observe_run {topic : String} {config : PartitionConfig} {nowMilli : Int} {seen : G} {ops : List Op}
    (executes : (observe watch admits topic config nowMilli seen ops).isSome = true) :
    ObservedRun watch admits topic config nowMilli seen ops (Option.get _ executes) :=
  Run.of_execute (fun _ _ _ _ ok => observedStep_sound ok) (Option.some_get executes).symm

end Observed

end Cue.State.Partition
