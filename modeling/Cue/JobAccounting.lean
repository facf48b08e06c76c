import Cue.PartitionProofs

/-! Where an accepted job can be until it is finished. A ledger follows the run:
the jobs accepted and not finished since, with their slots, and the IDs that a
drop command on `dropProposalCh` has named since.

- `Accounted` is the invariant: such a job is stored, pending, and referenced
  by a queue record, by a dead-letter entry, or by an enqueued drop.
- `no_job_lost_in_safe_run` shows it for every run in which no flush meets a
  full proposal channel with a pending job buffered, and no dispatch reads the
  record of a job with an empty ID, which `Get` cannot see.
- `full_channel_loses_job` is a run that loses a job to a full channel. -/
namespace Cue.State.Partition
open Cue.Lib Cue.Model

structure Ledger where
  outstanding : List (String × Nat) := []
  proposed : List String := []
  deriving DecidableEq

namespace Ledger

def accept (ledger : Ledger) (job : String × Nat) : Ledger where
  outstanding := ledger.outstanding ++ [job]
  proposed := ledger.proposed.filter (· ≠ job.1)

def finish (ledger : Ledger) (ids : List String) : Ledger :=
  { ledger with outstanding := ledger.outstanding.filter (·.1 ∉ ids) }

def propose (ledger : Ledger) (cmd : Option Command) : Ledger :=
  { ledger with proposed := ledger.proposed ++ ((cmd.bind Command.drop).map DropPayload.jobIDs).getD [] }

end Ledger

/-- The IDs a `Done` or `Drop` command finishes. -/
def Op.finishes : Op → List String
  | .command cmd _ =>
    match cmd.type with
    | .done => (cmd.done.map DonePayload.jobIDs).getD []
    | .drop => (cmd.drop.map DropPayload.jobIDs).getD []
    | _ => []
  | _ => []

def Ledger.record (ledger : Ledger) (_ : Partition) (op : Op) (effect : Effect) : Ledger :=
  ((effect.accepted.foldl accept ledger).finish op.finishes).propose effect.proposed

/-- A live record or a dead-letter entry has this slot as its index, or an
enqueued drop names the ID. -/
def References (p : Partition) (proposed : List String) (id : String) (idx : Nat) : Prop :=
  (∃ record ∈ p.processQueue.live, record.index = idx) ∨
    (∃ entry ∈ p.dlqBuffer.jobs, entry.1.index = idx) ∨ id ∈ proposed

/-- Every outstanding job still fills its slot and is referenced. -/
def NoJobLost (s : Partition × Ledger) : Prop :=
  ∀ job ∈ s.2.outstanding,
    (∃ held, s.1.jobStore.jobs[job.2]? = some held ∧ held.id = job.1) ∧
      References s.1 s.2.proposed job.1 job.2

/-- What keeps jobs from being lost: a due flush finds room on the proposal
channel unless every buffered job is finished, and a dispatch does not read the
record of a job with an empty ID. -/
def Safe (p : Partition) : Op → Prop
  | .flush now room => p.dlqBuffer.shouldFlush now = true → room = true ∨
      ∀ entry ∈ p.dlqBuffer.jobs, dead p.jobStore entry.1 = true
  | .dispatch env => ∀ item ∈ p.itemsRead env, p.jobStore.byID.get "" ≠ some item.slot
  | _ => True

instance (p : Partition) : (op : Op) → Decidable (p.Safe op)
  | .flush now room => inferInstanceAs (Decidable (p.dlqBuffer.shouldFlush now = true → room = true ∨
      ∀ entry ∈ p.dlqBuffer.jobs, dead p.jobStore entry.1 = true))
  | .dispatch env => inferInstanceAs (Decidable (∀ item ∈ p.itemsRead env,
      p.jobStore.byID.get "" ≠ some item.slot))
  | .command _ _ => .isTrue trivial
  | .topology _ => .isTrue trivial
  | .heartbeat _ => .isTrue trivial
  | .cleanup _ _ _ => .isTrue trivial

/-- An outstanding job is stored under its ID, in its slot, pending. -/
structure Held (js : JobStore) (id : String) (idx : Nat) : Prop where
  named : js.byID.get id = some idx
  pending : ∃ job, js.view id = some job ∧ job.done = false

structure Accounted (s : Partition × Ledger) : Prop where
  valid : s.1.Valid
  held : ∀ job ∈ s.2.outstanding, Held s.1.jobStore job.1 job.2
  referenced : ∀ job ∈ s.2.outstanding, References s.1 s.2.proposed job.1 job.2

theorem Accounted.noJobLost {s : Partition × Ledger} (accounted : Accounted s) : NoJobLost s := by
  intro job member
  obtain ⟨named, _⟩ := accounted.held job member
  exact ⟨accounted.valid.store.indexed job.1 job.2 named, accounted.referenced job member⟩

theorem References.mono {p p' : Partition} {proposed proposed' : List String} {id : String} {idx : Nat}
    (references : References p proposed id idx)
    (live : ∀ record ∈ p.processQueue.live, record.index = idx →
      References p' proposed' id idx)
    (dlq : ∀ entry ∈ p.dlqBuffer.jobs, entry.1.index = idx → References p' proposed' id idx)
    (names : id ∈ proposed → id ∈ proposed') : References p' proposed' id idx := by
  rcases references with ⟨record, member, same⟩ | ⟨entry, member, same⟩ | listed
  · exact live record member same
  · exact dlq entry member same
  · exact Or.inr (Or.inr (names listed))

/-- A record refers to the slot it names, below the wrap of `uint32`. -/
theorem slot_of_index {ref : JobRef} {idx : Nat} (same : ref.index = idx) (small : idx < 2 ^ 32) :
    ref.slot = idx := by
  unfold JobRef.slot
  rw [same]
  omega

theorem Held.small {js : JobStore} {id : String} {idx : Nat} (held : Held js id idx) (valid : js.Valid) :
    idx < 2 ^ 32 := by
  obtain ⟨job, slot, _⟩ := valid.indexed id idx held.named
  exact Nat.lt_trans (List.getElem?_eq_some_iff.mp slot).1 valid.small

/-- A held job is what `Get` returns for its slot, unless its ID is empty. -/
theorem Held.get {js : JobStore} {id : String} {idx : Nat} (held : Held js id idx) (valid : js.Valid)
    (nonempty : id ≠ "") : ∃ job, js.get idx = some job ∧ job.id = id ∧ job.done = false := by
  obtain ⟨job, view, pending⟩ := held.pending
  obtain ⟨i, named, slot⟩ := JobStore.view_some.mp view
  have here : idx = i := Option.some.inj (held.named.symm.trans named)
  subst here
  have same := JobStore.view_id valid view
  exact ⟨job, (JobStore.get_some valid).mpr ⟨slot, by rw [same]; exact nonempty⟩, same, pending⟩

/-! ### One step -/

private theorem accounted_accept {p : Partition} {ledger : Ledger} {job : Job} {clock : Clock} {idx : Nat}
    {js : JobStore} {pq : ProcessQueue} (accounted : Accounted (p, ledger)) (unflagged : job.done = false)
    (created : p.jobStore.Created (stamped job clock.nowMilli) idx js)
    (queued : pq.live = p.processQueue.live ++ [⟨idx, 0, p.processQueue.liveCount, clock.nowSec⟩])
    (queueValid : pq.Valid) :
    Accounted ({ p with jobStore := js, processQueue := pq }, ledger.accept (job.id, idx)) where
  valid := ⟨created.valid, queueValid⟩
  held := by
    intro entry member
    simp only [Ledger.accept, List.mem_append, List.mem_singleton] at member
    rcases member with old | rfl
    · obtain ⟨named, other, view, pending⟩ := accounted.held entry old
      have apart : entry.1 ≠ job.id := by
        intro same
        have fresh := created.fresh
        rw [stamped_id, ← same, named] at fresh
        cases fresh
      refine ⟨?_, other, ?_, pending⟩
      · rw [created.named, FinMap.get_set, stamped_id, if_neg apart]
        exact named
      · rw [JobStore.created_view created, stamped_id, Function.update_of_ne apart]
        exact view
    · refine ⟨?_, stamped job clock.nowMilli, ?_, by simpa using unflagged⟩
      · rw [created.named, FinMap.get_set, stamped_id, if_pos rfl]
      · rw [JobStore.created_view created, stamped_id, Function.update_self]
  referenced := by
    intro entry member
    simp only [Ledger.accept, List.mem_append, List.mem_singleton] at member
    rcases member with old | rfl
    · have apart : entry.1 ≠ job.id := by
        intro same
        have fresh := created.fresh
        rw [stamped_id, ← same, (accounted.held entry old).named] at fresh
        cases fresh
      apply (accounted.referenced entry old).mono
      · intro record live same
        exact Or.inl ⟨record, by rw [queued]; exact List.mem_append_left _ live, same⟩
      · intro dead buffered same
        exact Or.inr (Or.inl ⟨dead, buffered, same⟩)
      · intro listed
        exact List.mem_filter.mpr ⟨listed, by simpa using apart⟩
    · exact Or.inl ⟨_, by rw [queued]; exact List.mem_append_right _ (List.mem_singleton_self _), rfl⟩

private theorem accounted_addJob {p p' : Partition} {ledger : Ledger} {job : Job} {clock : Clock}
    {outcome : AddOutcome} (accounted : Accounted (p, ledger)) (added : Added p job clock p' outcome) :
    Accounted (p', (acceptedJobs [(job.id, outcome)]).foldl Ledger.accept ledger) := by
  cases added with
  | alreadyDone => exact accounted
  | duplicate => exact accounted
  | accepted unflagged created room queued queueValid =>
    exact accounted_accept accounted unflagged created queued queueValid
  | queueFull unflagged fresh refused =>
    refine ⟨⟨refused.valid, accounted.valid.queue⟩, ?_, accounted.referenced⟩
    intro entry member
    obtain ⟨named, other, view, pending⟩ := accounted.held entry member
    exact ⟨(refused.named _).trans named, other, by rw [refused.view]; exact view, pending⟩

private theorem accounted_addJobs {p p' : Partition} {ledger : Ledger} {jobs : List Job} {clock : Nat → Clock}
    {outcomes : List (String × AddOutcome)} (accounted : Accounted (p, ledger))
    (slots : p.jobStore.jobs.length + jobs.length < 2 ^ 32)
    (ok : p.addJobs jobs clock = .ok (p', outcomes)) :
    Accounted (p', (acceptedJobs outcomes).foldl Ledger.accept ledger) := by
  have loop := addJobs_induction
    (fun q _ _ done => Accounted (q, (acceptedJobs done).foldl Ledger.accept ledger))
    (fun q q' job _ clock outcome done _ _ before _ added => by
      have after := accounted_addJob before added
      rwa [← List.foldl_append, acceptedJobs, acceptedJobs, ← List.filterMap_append] at after)
    [] accounted.valid slots accounted ok
  obtain ⟨_, _, after⟩ := loop
  exact after

private theorem accounted_finish {p : Partition} {ledger : Ledger} {js : JobStore} (ids : List String)
    (accounted : Accounted (p, ledger)) (valid : js.Valid)
    (kept : ∀ id idx, id ∉ ids → Held p.jobStore id idx → Held js id idx) :
    Accounted ({ p with jobStore := js }, ledger.finish ids) where
  valid := ⟨valid, accounted.valid.queue⟩
  held := by
    intro job member
    obtain ⟨old, spared⟩ := List.mem_filter.mp member
    exact kept job.1 job.2 (by simpa using spared) (accounted.held job old)
  referenced := by
    intro job member
    exact accounted.referenced job (List.mem_filter.mp member).1

private theorem accounted_done {p : Partition} {ledger : Ledger} {js : JobStore} {ids : List String}
    (accounted : Accounted (p, ledger)) (finished : Finished p.jobStore ids js) :
    Accounted ({ p with jobStore := js }, ledger.finish ids) := by
  apply accounted_finish ids accounted finished.valid
  rintro id idx spared ⟨named, job, view, pending⟩
  refine ⟨by rw [finished.named]; exact named, job, ?_, pending⟩
  have same := JobStore.view_id accounted.valid.store view
  rw [finished.view, view, Option.map_some, marked, if_neg (by rw [same]; exact spared)]

private theorem accounted_drop {p : Partition} {ledger : Ledger} {js : JobStore} {ids : List String}
    (accounted : Accounted (p, ledger)) (dropped : Dropped p.jobStore ids js) :
    Accounted ({ p with jobStore := js }, ledger.finish ids) := by
  apply accounted_finish ids accounted dropped.valid
  rintro id idx spared ⟨named, job, view, pending⟩
  refine ⟨?_, job, ?_, pending⟩
  · rw [dropped.named, if_neg spared]
    exact named
  · rw [dropped.view, if_neg spared]
    exact view

/-- A record read and removed was dead, or is in the dead-letter buffer now;
any other record's index is still in the queue. -/
theorem index_after_dispatch {p p' : Partition} {env : DispatchEnv} {record : JobRef}
    (valid : p.processQueue.Valid) (dispatched : Dispatched p (p.itemsRead env) p')
    (member : record ∈ p.processQueue.live) :
    (record ∈ p.itemsRead env ∧ removable p.jobStore p.config.maxRetries record = true) ∨
      record.index ∈ p'.processQueue.live.map JobRef.index := by
  obtain ⟨natural, placed⟩ := (ProcessQueue.mem_live valid).mp member
  by_cases taken : record ∈ (p.itemsRead env).filter (removable p.jobStore p.config.maxRetries)
  · exact Or.inl (List.mem_filter.mp taken)
  · right
    rw [dispatched.indices]
    apply @mem_swapRemoveAll _ _ _ record.cell.toNat
    · exact (itemsRead_positions_nodup env valid).sublist (List.filter_sublist.map _)
    · intro clash
      obtain ⟨item, read, same⟩ := List.mem_map.mp clash
      have live := itemsRead_live (List.mem_filter.mp read).1
      obtain ⟨_, there⟩ := (ProcessQueue.mem_live valid).mp live
      rw [same, placed] at there
      cases there
      exact taken read
    · rw [List.getElem?_map, placed]
      rfl

private theorem accounted_dispatch {p p' : Partition} {ledger : Ledger} {env : DispatchEnv}
    (accounted : Accounted (p, ledger))
    (named : ∀ item ∈ p.itemsRead env, p.jobStore.byID.get "" ≠ some item.slot)
    (dispatched : Dispatched p (p.itemsRead env) p') : Accounted (p', ledger) where
  valid := ⟨dispatched.jobStore ▸ accounted.valid.store, dispatched.queueValid⟩
  held := by
    intro job member
    have same : p'.jobStore = p.jobStore := dispatched.jobStore
    simp only [same]
    exact accounted.held job member
  referenced := by
    intro job member
    have held := accounted.held job member
    have small := held.small accounted.valid.store
    have buffer : ∀ ref ∈ p'.dlqBuffer.jobs.map Prod.fst, ref.index = job.2 →
        References p' ledger.proposed job.1 job.2 := by
      intro ref listed same
      obtain ⟨entry, there, rfl⟩ := List.mem_map.mp listed
      exact Or.inr (Or.inl ⟨entry, there, same⟩)
    apply (accounted.referenced job member).mono
    · intro record live same
      rcases index_after_dispatch accounted.valid.queue dispatched live with ⟨read, removed⟩ | stays
      · have slot := slot_of_index same small
        have nonempty : job.1 ≠ "" := by
          intro blank
          apply named record read
          rw [slot, ← blank]
          exact held.named
        obtain ⟨found, get, _, pending⟩ := held.get accounted.valid.store nonempty
        have alive : dead p.jobStore record = false := by simp [dead, slot, get, pending]
        have spent : exhausted p.jobStore p.config.maxRetries record = true := by
          simpa [removable, alive] using removed
        apply buffer record _ same
        rw [dispatched.buffered]
        exact List.mem_append_right _ (List.mem_filter.mpr ⟨read, spent⟩)
      · obtain ⟨other, there, index⟩ := List.mem_map.mp stays
        exact Or.inl ⟨other, there, index.trans same⟩
    · intro entry buffered same
      apply buffer entry.1 _ same
      rw [dispatched.buffered]
      exact List.mem_append_left _ (List.mem_map_of_mem buffered)
    · exact id

private theorem accounted_flush {p p' : Partition} {ledger : Ledger} {room : Bool} {cmd : Option Command}
    (accounted : Accounted (p, ledger)) (flushed : Flushed p room cmd p')
    (safe : room = true ∨ ∀ entry ∈ p.dlqBuffer.jobs, dead p.jobStore entry.1 = true) :
    Accounted (p', ledger.propose cmd) where
  valid := ⟨flushed.swept.valid, flushed.processQueue ▸ accounted.valid.queue⟩
  held := by
    intro job member
    obtain ⟨named, found, view, pending⟩ := accounted.held job member
    have kept := (flushed.swept.view_pending job.1 found pending).mpr view
    refine ⟨?_, found, kept, pending⟩
    rcases flushed.swept.named job.1 with same | gone
    · rw [same]
      exact named
    · have absent := (JobStore.view_none flushed.swept.valid job.1).mpr gone
      rw [absent] at kept
      cases kept
  referenced := by
    intro job member
    have held := accounted.held job member
    apply (accounted.referenced job member).mono
    · intro record live same
      exact Or.inl ⟨record, by rw [flushed.processQueue]; exact live, same⟩
    · intro entry buffered same
      have slot := slot_of_index same (held.small accounted.valid.store)
      obtain ⟨found, get, proposed⟩ := flushed.proposed entry buffered
      obtain ⟨named, _⟩ := JobStore.get_view accounted.valid.store get
      have owner : found.id = job.1 :=
        JobStore.indexed_injective accounted.valid.store (slot ▸ named) held.named
      have pending : found.done = false := by
        obtain ⟨stored, view, pending⟩ := held.pending
        have view' := (JobStore.get_view accounted.valid.store get).2
        rw [owner, view] at view'
        cases view'
        exact pending
      rcases safe with room | finished
      · obtain ⟨drop, sent, listed⟩ := proposed room pending
        refine Or.inr (Or.inr ?_)
        simp only [Ledger.propose, sent, Option.map_some, Option.getD_some]
        exact List.mem_append_right _ (owner ▸ listed)
      · have done := finished entry buffered
        simp [dead, get, pending] at done
    · exact List.mem_append_left _

theorem accounted_step {s s' : Partition × Ledger} {op : Op} (accounted : Accounted s)
    (fits : s.1.Fits op) (safe : s.1.Safe op) (step : ObservedStep Ledger.record s op s') :
    Accounted s' := by
  obtain ⟨p, ledger⟩ := s
  obtain ⟨p', ledger'⟩ := s'
  obtain ⟨effect, ok, rfl⟩ := step
  have quiet : ∀ ledger : Ledger, (ledger.finish []).propose none = ledger := by
    intro ledger
    simp [Ledger.finish, Ledger.propose]
  cases step_spec accounted.valid ok with
  | addJobs type carried added =>
    have slots := by simpa [Fits, Op.adds, type, carried] using fits
    simpa [Ledger.record, Op.finishes, type, quiet] using accounted_addJobs accounted slots added
  | done type carried finished =>
    simpa [Ledger.record, Op.finishes, type, carried, Ledger.propose] using accounted_done accounted finished
  | drop type carried dropped =>
    simpa [Ledger.record, Op.finishes, type, carried, Ledger.propose] using accounted_drop accounted dropped
  | @ignored cmd clock nothing unfinished undropped =>
    have none : Op.finishes (.command cmd clock) = [] := by
      simp only [Op.finishes]
      split
      · rename_i type
        simp [unfinished type]
      · rename_i type
        simp [undropped type]
      · rfl
    simpa [Ledger.record, none, quiet] using accounted
  | dispatch dispatched =>
    simpa [Ledger.record, Op.finishes, quiet] using accounted_dispatch accounted safe dispatched
  | flush needed flushed =>
    simpa [Ledger.record, Op.finishes, Ledger.finish] using accounted_flush accounted flushed (safe needed)
  | unflushed => simpa [Ledger.record, Op.finishes, quiet] using accounted
  | @proxies op pm chs proxy =>
    have none : op.finishes = [] := by
      cases op with
      | command cmd clock => exact absurd rfl (proxy cmd clock)
      | _ => rfl
    have same : Accounted ({ p with proxyMap := pm, proxyPushChs := chs }, ledger) :=
      ⟨⟨accounted.valid.store, accounted.valid.queue⟩, accounted.held, accounted.referenced⟩
    simpa [Ledger.record, none, quiet] using same

/-! ### Whole runs -/

theorem accounted_new (topic : String) (config : PartitionConfig) (nowMilli : Int) :
    Accounted (new topic config nowMilli, {}) :=
  ⟨new_valid topic config nowMilli, by simp, by simp⟩

/-- In a run of safe steps no accepted job is lost. -/
theorem no_job_lost_in_safe_run {topic : String} {config : PartitionConfig} {nowMilli : Int}
    {ops : List Op} {s : Partition × Ledger}
    (run : ObservedRun Ledger.record (fun p op => p.Fits op ∧ p.Safe op) topic config nowMilli {} ops s) :
    NoJobLost s := by
  have accounted : Accounted s := by
    refine run.invariant (fun _ s => Accounted s) (accounted_new topic config nowMilli) ?_
    rintro _ s op s' accounted ⟨fits, safe⟩ step
    exact accounted_step accounted fits safe step
  exact accounted.noJobLost

/-! A job is sent to a proxy once, is out of retries when it is read again, and
waits in the buffer; the flush then finds the proposal channel full or not. -/

def lossConfig : PartitionConfig := ⟨2, 1, 20, 1, 1000, 1000⟩

def lossOps (room : Bool) : List Op :=
  let due (nowSec : Int) : Op := .dispatch ⟨73, 0, nowSec, true, true, fun _ => nowSec⟩
  [ .topology (.add "proxy" (some ⟨0, 4⟩)),
    .heartbeat { proxyID := "proxy", topic := "orders", consumptionScore := 1, timestamp := 0 },
    .command { type := .addJobs, addJobs := some ⟨"orders", [⟨"a", "orders", [1], false, 0⟩]⟩ }
      fun _ => ⟨1000, 1⟩,
    due 1, due 10, .flush 11000 room ]

private theorem loss_executes :
    (observe Ledger.record (fun _ _ => True) "orders" lossConfig 0 {} (lossOps false)).isSome = true := rfl

/-- The flush empties the buffer, the proposal is discarded, and the job sits
in its slot with nothing left to send or drop it. -/
theorem full_channel_loses_job :
    ∃ ops s, ObservedRun Ledger.record (fun _ _ => True) "orders" lossConfig 0 {} ops s ∧ ¬ NoJobLost s := by
  refine ⟨lossOps false, _, observe_run loss_executes, ?_⟩
  intro kept
  have referenced := (kept ("a", 0) (by decide)).2
  revert referenced
  unfold References
  decide

private theorem safe_executes :
    (observe Ledger.record (fun p op => p.Fits op ∧ p.Safe op) "orders" lossConfig 0 {}
      (lossOps true)).isSome = true := rfl

/-- With room on the channel the same run keeps the job: the drop names it. -/
theorem no_job_lost_with_room :
    ("a", 0) ∈ (Option.get _ safe_executes).2.outstanding ∧ NoJobLost (Option.get _ safe_executes) :=
  ⟨by decide, no_job_lost_in_safe_run (observe_run safe_executes)⟩

end Cue.State.Partition
