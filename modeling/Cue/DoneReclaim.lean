import Cue.JobAccounting

/-! Whether the slot of a finished job is ever given back. A slot is released by
a flush or a drop, and those get to it through a dead-letter entry or an enqueued
drop; a dispatch removes the record of a finished job and releases nothing.

- `Reclaimable` is the property: a stored job that is done is still referenced.
- `reclaimable_in_keeping_run` shows it for every run in which no dispatch reads
  the last reference to a finished job and no `Done` meets an unreferenced one.
- `dispatch_leaks_finished_job` is a run of three steps without that. -/
namespace Cue.State.Partition
open Cue.Lib Cue.Model

/-- The slot that the ID names holds a finished job. -/
def HoldsDone (js : JobStore) (id : String) (idx : Nat) : Prop :=
  js.byID.get id = some idx ∧ ∃ job ∈ js.jobs[idx]?, job.done = true

/-- Every slot with a finished job is referenced by a live record, by a
dead-letter entry or by an enqueued drop of its ID. -/
def Reclaimable (s : Partition × Ledger) : Prop :=
  ∀ id idx, HoldsDone s.1.jobStore id idx → References s.1 s.2.proposed id idx

/-- The slot is referenced, and not only by records that are read. -/
def ReferencedElsewhere (p : Partition) (proposed : List String) (id : String) (idx : Nat) (read : List JobRef) :
    Prop :=
  (∃ record ∈ p.processQueue.live, record.index = idx ∧ record ∉ read) ∨
    (∃ entry ∈ p.dlqBuffer.jobs, entry.1.index = idx) ∨ id ∈ proposed

/-- What keeps finished jobs in reach: a dispatch that reads a record of one finds
it referenced elsewhere, and a job is referenced when it is finished. -/
def KeepsDone (s : Partition × Ledger) : Op → Prop
  | .dispatch env => ∀ item ∈ s.1.itemsRead env, ∀ id ∈ s.1.jobStore.byID.keys, HoldsDone s.1.jobStore id item.slot →
      ReferencedElsewhere s.1 s.2.proposed id item.slot (s.1.itemsRead env)
  | .command cmd _ => cmd.type = .done → ∀ payload ∈ cmd.done, ∀ id ∈ payload.jobIDs,
      ∀ idx ∈ s.1.jobStore.byID.get id, References s.1 s.2.proposed id idx
  | _ => True

instance (js : JobStore) (id : String) (idx : Nat) : Decidable (HoldsDone js id idx) :=
  inferInstanceAs (Decidable (_ ∧ _))

instance (p : Partition) (proposed : List String) (id : String) (idx : Nat) :
    Decidable (References p proposed id idx) :=
  inferInstanceAs (Decidable (_ ∨ _))

instance (p : Partition) (proposed : List String) (id : String) (idx : Nat) (read : List JobRef) :
    Decidable (ReferencedElsewhere p proposed id idx read) :=
  inferInstanceAs (Decidable (_ ∨ _))

instance (s : Partition × Ledger) : (op : Op) → Decidable (KeepsDone s op)
  | .dispatch env => inferInstanceAs (Decidable (∀ item ∈ s.1.itemsRead env, ∀ id ∈ s.1.jobStore.byID.keys,
      HoldsDone s.1.jobStore id item.slot →
        ReferencedElsewhere s.1 s.2.proposed id item.slot (s.1.itemsRead env)))
  | .command cmd _ => inferInstanceAs (Decidable (cmd.type = .done → ∀ payload ∈ cmd.done, ∀ id ∈ payload.jobIDs,
      ∀ idx ∈ s.1.jobStore.byID.get id, References s.1 s.2.proposed id idx))
  | .flush _ _ => .isTrue trivial
  | .topology _ => .isTrue trivial
  | .heartbeat _ => .isTrue trivial
  | .cleanup _ _ _ => .isTrue trivial

/-! ### One step -/

structure Reclaims (s : Partition × Ledger) : Prop where
  valid : s.1.Valid
  referenced : Reclaimable s

theorem holdsDone_iff {js : JobStore} {id : String} {idx : Nat} :
    HoldsDone js id idx ↔ js.byID.get id = some idx ∧ ∃ job, js.view id = some job ∧ job.done = true := by
  refine and_congr_right fun named => exists_congr fun job => and_congr_left fun _ => ?_
  rw [JobStore.view, named]
  rfl

section Steps

variable {p p' : Partition} {ledger : Ledger}

private theorem reclaims_accept {job : Job} {clock : Clock} {idx : Nat} {js : JobStore} {pq : ProcessQueue}
    (reclaims : Reclaims (p, ledger)) (unflagged : job.done = false)
    (created : p.jobStore.Created (stamped job clock.nowMilli) idx js)
    (queued : pq.live = p.processQueue.live ++ [⟨idx, 0, p.processQueue.liveCount, clock.nowSec⟩])
    (queueValid : pq.Valid) :
    Reclaims ({ p with jobStore := js, processQueue := pq }, ledger.accept (job.id, idx)) where
  valid := ⟨created.valid, queueValid⟩
  referenced := by
    rintro id i ⟨named, found, slot, finished⟩
    have named : js.byID.get id = some i := named
    have slot : js.jobs[i]? = some found := slot
    rw [created.named, FinMap.get_set, stamped_id] at named
    split at named
    · -- the new job itself is not done
      cases named
      rw [created.slot] at slot
      cases slot
      rw [stamped_done, unflagged] at finished
      cases finished
    · rename_i apart
      have other : i ≠ idx := fun clash => created.unnamed id (clash ▸ named)
      rw [created.otherSlots i other] at slot
      refine (reclaims.referenced id i ⟨named, found, slot, finished⟩).mono ?_ ?_ ?_
      · intro record live same
        exact Or.inl ⟨record, by rw [queued]; exact List.mem_append_left _ live, same⟩
      · intro entry buffered same
        exact Or.inr (Or.inl ⟨entry, buffered, same⟩)
      · intro listed
        exact List.mem_filter.mpr ⟨listed, by simpa using apart⟩

private theorem reclaims_addJob {job : Job} {clock : Clock} {outcome : AddOutcome} (reclaims : Reclaims (p, ledger))
    (added : Added p job clock p' outcome) :
    Reclaims (p', (acceptedJobs [(job.id, outcome)]).foldl Ledger.accept ledger) := by
  cases added with
  | alreadyDone => exact reclaims
  | duplicate => exact reclaims
  | accepted unflagged created room queued queueValid =>
    exact reclaims_accept reclaims unflagged created queued queueValid
  | queueFull unflagged fresh refused =>
    refine ⟨⟨refused.valid, reclaims.valid.queue⟩, fun id idx holds => ?_⟩
    obtain ⟨named, done⟩ := holdsDone_iff.mp holds
    rw [refused.named] at named
    rw [refused.view] at done
    exact reclaims.referenced id idx (holdsDone_iff.mpr ⟨named, done⟩)

private theorem reclaims_addJobs {jobs : List Job} {clock : Nat → Clock} {outcomes : List (String × AddOutcome)}
    (reclaims : Reclaims (p, ledger)) (slots : p.jobStore.jobs.length + jobs.length < 2 ^ 32)
    (ok : p.addJobs jobs clock = .ok (p', outcomes)) :
    Reclaims (p', (acceptedJobs outcomes).foldl Ledger.accept ledger) := by
  have loop := addJobs_induction
    (fun q _ _ done => Reclaims (q, (acceptedJobs done).foldl Ledger.accept ledger))
    (fun q q' job _ clock outcome done _ _ before _ added => by
      have after := reclaims_addJob before added
      rwa [← List.foldl_append, acceptedJobs, acceptedJobs, ← List.filterMap_append] at after)
    [] reclaims.valid slots reclaims ok
  obtain ⟨_, _, after⟩ := loop
  exact after

private theorem reclaims_done {js : JobStore} {ids : List String} (reclaims : Reclaims (p, ledger))
    (finished : Finished p.jobStore ids js)
    (referenced : ∀ id ∈ ids, ∀ idx, p.jobStore.byID.get id = some idx → References p ledger.proposed id idx) :
    Reclaims ({ p with jobStore := js }, ledger) where
  valid := ⟨finished.valid, reclaims.valid.queue⟩
  referenced := by
    intro id idx holds
    obtain ⟨named, job, view, flagged⟩ := holdsDone_iff.mp holds
    have named : js.byID.get id = some idx := named
    have view : js.view id = some job := view
    rw [finished.named] at named
    by_cases member : id ∈ ids
    · exact referenced id member idx named
    · rw [finished.view] at view
      obtain ⟨before, held, rfl⟩ := Option.map_eq_some_iff.mp view
      have same := JobStore.view_id reclaims.valid.store held
      rw [marked, if_neg (by rw [same]; exact member)] at flagged
      exact reclaims.referenced id idx (holdsDone_iff.mpr ⟨named, before, held, flagged⟩)

private theorem reclaims_drop {js : JobStore} {ids : List String} (reclaims : Reclaims (p, ledger))
    (dropped : Dropped p.jobStore ids js) : Reclaims ({ p with jobStore := js }, ledger) where
  valid := ⟨dropped.valid, reclaims.valid.queue⟩
  referenced := by
    intro id idx holds
    obtain ⟨named, job, view, flagged⟩ := holdsDone_iff.mp holds
    have named : js.byID.get id = some idx := named
    have view : js.view id = some job := view
    rw [dropped.named] at named
    rw [dropped.view] at view
    split at named
    · cases named
    · rename_i spared
      rw [if_neg spared] at view
      exact reclaims.referenced id idx (holdsDone_iff.mpr ⟨named, job, view, flagged⟩)

private theorem reclaims_dispatch {env : DispatchEnv} (reclaims : Reclaims (p, ledger))
    (keeps : KeepsDone (p, ledger) (.dispatch env)) (dispatched : Dispatched p (p.itemsRead env) p') :
    Reclaims (p', ledger) where
  valid := ⟨dispatched.jobStore ▸ reclaims.valid.store, dispatched.queueValid⟩
  referenced := by
    intro id idx holds
    have holds : HoldsDone p'.jobStore id idx := holds
    rw [dispatched.jobStore] at holds
    have unread : ∀ record ∈ p.processQueue.live, record.index = idx → record ∉ p.itemsRead env →
        References p' ledger.proposed id idx := by
      intro record live same outside
      rcases index_after_dispatch reclaims.valid.queue dispatched live with ⟨read, _⟩ | stays
      · exact absurd read outside
      · obtain ⟨other, there, index⟩ := List.mem_map.mp stays
        exact Or.inl ⟨other, there, index.trans same⟩
    have buffered : ∀ entry ∈ p.dlqBuffer.jobs, entry.1.index = idx → References p' ledger.proposed id idx := by
      intro entry member same
      have listed : entry.1 ∈ p'.dlqBuffer.jobs.map Prod.fst := by
        rw [dispatched.buffered]
        exact List.mem_append_left _ (List.mem_map_of_mem member)
      obtain ⟨other, there, index⟩ := List.mem_map.mp listed
      exact Or.inr (Or.inl ⟨other, there, by rw [index]; exact same⟩)
    refine (reclaims.referenced id idx holds).mono ?_ buffered (fun listed => listed)
    intro record live same
    by_cases read : record ∈ p.itemsRead env
    · have bound := (Option.mem_def.mp holds.2.choose_spec.1)
      have small := Nat.lt_trans (List.getElem?_eq_some_iff.mp bound).1 reclaims.valid.store.small
      have at_slot := slot_of_index same small
      have known := (FinMap.mem_keys _ _).mpr ⟨idx, holds.1⟩
      rcases at_slot ▸ keeps record read id known (at_slot ▸ holds) with
        ⟨other, there, index, outside⟩ | ⟨entry, there, index⟩ | listed
      · exact unread other there index outside
      · exact buffered entry there index
      · exact Or.inr (Or.inr listed)
    · exact unread record live same read

private theorem reclaims_flush {now : Int} {room : Bool} {cmd : Option Command} (reclaims : Reclaims (p, ledger))
    (ok : p.flushDLQ now room = .ok (p', cmd)) (flushed : Flushed p room cmd p') :
    Reclaims (p', ledger.propose cmd) where
  valid := ⟨flushed.swept.valid, flushed.processQueue ▸ reclaims.valid.queue⟩
  referenced := by
    intro id idx holds
    obtain ⟨named', job, view', flagged⟩ := holdsDone_iff.mp holds
    have named : p.jobStore.byID.get id = some idx := by
      rcases flushed.swept.named id with same | gone
      · exact same ▸ named'
      · rw [gone] at named'
        cases named'
    have view : p.jobStore.view id = some job := by
      rcases flushed.swept.view id with same | ⟨gone, _⟩
      · exact same ▸ view'
      · rw [gone] at view'
        cases view'
    refine (reclaims.referenced id idx (holdsDone_iff.mpr ⟨named, job, view, flagged⟩)).mono ?_ ?_ ?_
    · intro record live same
      exact Or.inl ⟨record, by rw [flushed.processQueue]; exact live, same⟩
    · -- the job of an entry was released, or the flush panicked
      intro entry buffered same
      obtain ⟨i, here, slot⟩ := JobStore.view_some.mp view
      cases named.symm.trans here
      have small := Nat.lt_trans (List.getElem?_eq_some_iff.mp slot).1 reclaims.valid.store.small
      have at_slot := slot_of_index same small
      obtain ⟨found, get, _⟩ := flushed.proposed entry buffered
      obtain ⟨there, nonempty⟩ := (JobStore.get_some reclaims.valid.store).mp get
      rw [at_slot, slot] at there
      cases there
      have released := flush_releases reclaims.valid.store ok entry buffered job get flagged
      obtain ⟨i', here', slot'⟩ := JobStore.view_some.mp view'
      cases named'.symm.trans here'
      have kept := (JobStore.get_some flushed.swept.valid).mpr ⟨slot', nonempty⟩
      rw [at_slot, kept] at released
      cases released
    · exact List.mem_append_left _

/-- Only the enqueued drops of the ledger count. -/
private theorem Reclaims.of_proposed {ledger' : Ledger} (reclaims : Reclaims (p, ledger))
    (same : ledger'.proposed = ledger.proposed) : Reclaims (p, ledger') := by
  refine ⟨reclaims.valid, fun id idx holds => ?_⟩
  rw [same]
  exact reclaims.referenced id idx holds

end Steps

theorem reclaims_step {s s' : Partition × Ledger} {op : Op} (reclaims : Reclaims s) (fits : s.1.Fits op)
    (keeps : KeepsDone s op) (step : ObservedStep Ledger.record s op s') : Reclaims s' := by
  obtain ⟨p, ledger⟩ := s
  obtain ⟨p', ledger'⟩ := s'
  obtain ⟨effect, ok, rfl⟩ := step
  have quiet : ∀ (ledger : Ledger) (ids : List String),
      ((ledger.finish ids).propose none).proposed = ledger.proposed := by
    intro ledger ids
    simp [Ledger.finish, Ledger.propose]
  cases step_spec reclaims.valid ok with
  | addJobs type carried added =>
    have slots := by simpa [Fits, Op.adds, type, carried] using fits
    exact (reclaims_addJobs reclaims slots added).of_proposed (quiet _ _)
  | done type carried finished =>
    have after := reclaims_done reclaims finished (keeps type _ carried)
    exact after.of_proposed (quiet _ _)
  | drop type carried dropped => exact (reclaims_drop reclaims dropped).of_proposed (quiet _ _)
  | ignored => exact reclaims.of_proposed (quiet _ _)
  | dispatch dispatched => exact (reclaims_dispatch reclaims keeps dispatched).of_proposed (quiet _ _)
  | flush needed flushed =>
    obtain ⟨⟨q, cmd⟩, run, rest⟩ := bind_ok ok
    cases rest
    rw [flushDLQIfNeeded, if_pos needed] at run
    exact (reclaims_flush reclaims run flushed).of_proposed (by simp [Ledger.record, Ledger.finish, Ledger.propose])
  | unflushed => exact reclaims.of_proposed (quiet _ _)
  | @proxies op pm chs =>
    have same : Reclaims ({ p with proxyMap := pm, proxyPushChs := chs }, ledger) :=
      ⟨⟨reclaims.valid.store, reclaims.valid.queue⟩, reclaims.referenced⟩
    exact same.of_proposed (quiet _ _)

/-! ### Whole runs -/

theorem reclaims_new (topic : String) (config : PartitionConfig) (nowMilli : Int) :
    Reclaims (new topic config nowMilli, {}) := by
  refine ⟨new_valid topic config nowMilli, ?_⟩
  rintro id idx ⟨named, _⟩
  cases named

/-- When no step takes the last reference to a finished job and jobs are
referenced when they are finished, every finished job can be reclaimed. -/
theorem reclaimable_in_keeping_run {topic : String} {config : PartitionConfig} {nowMilli : Int} {ops : List Op}
    {s : Partition × Ledger}
    (run : Run (ObservedStep Ledger.record) (fun _ s op => s.1.Fits op ∧ KeepsDone s op)
      (new topic config nowMilli, {}) ops s) : Reclaimable s := by
  have reclaims : Reclaims s := by
    refine run.invariant (fun _ s => Reclaims s) (reclaims_new topic config nowMilli) ?_
    rintro _ s op s' reclaims ⟨fits, keeps⟩ step
    exact reclaims_step reclaims fits keeps step
  exact reclaims.referenced

/-! A job is added and finished; then a dispatch reads its record. -/

private def leakOps : List Op :=
  [ .topology (.add "proxy" (some ⟨0, 4⟩)),
    .heartbeat { proxyID := "proxy", topic := "orders", consumptionScore := 1, timestamp := 0 },
    .command { type := .addJobs, addJobs := some ⟨"orders", [⟨"a", "orders", [1], false, 0⟩]⟩ } fun _ => ⟨1000, 1⟩,
    .command { type := .done, done := some ⟨"orders", ["a"]⟩ } fun _ => ⟨1000, 1⟩,
    .dispatch ⟨73, 0, 1, true, true, fun _ => 1⟩ ]

private theorem leak_executes :
    (observe Ledger.record (fun _ _ => True) "orders" lossConfig 0 {} leakOps).isSome = true := rfl

/-- The record is removed, the slot and the ID are kept, and nothing refers to
them any more. -/
theorem dispatch_leaks_finished_job :
    ∃ ops s, ObservedRun Ledger.record (fun _ _ => True) "orders" lossConfig 0 {} ops s ∧ ¬ Reclaimable s := by
  refine ⟨leakOps, _, observe_run leak_executes, ?_⟩
  intro kept
  have referenced := kept "a" 0 ⟨by decide, ⟨"a", "orders", [1], true, 1000⟩, by decide, rfl⟩
  revert referenced
  decide

/-- The job is exhausted before it is finished, and waits in the buffer. -/
private def keptOps : List Op :=
  leakOps.take 3 ++
  [ .dispatch ⟨73, 0, 1, true, true, fun _ => 1⟩, .dispatch ⟨73, 0, 10, true, true, fun _ => 10⟩,
    .command { type := .done, done := some ⟨"orders", ["a"]⟩ } fun _ => ⟨1000, 1⟩ ]

private def keepStep (s : Partition × Ledger) (op : Op) : Option (Partition × Ledger) :=
  if KeepsDone s op then observedStep Ledger.record Fits s op else none

private theorem kept_executes : (keptOps.foldlM keepStep (new "orders" lossConfig 0, {})).isSome = true := rfl

private theorem kept_run :
    Run (ObservedStep Ledger.record) (fun _ s op => s.1.Fits op ∧ KeepsDone s op) (new "orders" lossConfig 0, {})
      keptOps (Option.get _ kept_executes) := by
  refine Run.of_execute (f := keepStep) ?_ (Option.some_get _).symm
  intro _ s op s' taken
  unfold keepStep at taken
  split at taken
  · obtain ⟨fits, stepped⟩ := observedStep_sound taken
    exact ⟨⟨fits, ‹_›⟩, stepped⟩
  · cases taken

/-- The buffered entry of the finished job is what will free its slot. -/
theorem buffered_job_reclaimable :
    HoldsDone (Option.get _ kept_executes).1.jobStore "a" 0 ∧ Reclaimable (Option.get _ kept_executes) :=
  ⟨by decide, reclaimable_in_keeping_run kept_run⟩

end Cue.State.Partition
