import Cue.ReadBatchOrder
import Cue.RetrySpacing

/-! No ready record waits forever. While a record waits, only the records ahead
of it in the order of work are sent before it. A sent record is due again after
the time of the send and a new one not before it is added, so neither comes
ahead of the record that waits: every dispatch leaves fewer records ahead. -/
namespace Cue.State

namespace ProcessQueue

/-- How many live records are worked on before the record, with the record itself. -/
def ahead (pq : ProcessQueue) (job : JobRef) : Nat :=
  pq.live.countP fun other => other.dueTimeSec < job.dueTimeSec ∨
    other.dueTimeSec = job.dueTimeSec ∧ other.cell ≤ job.cell

theorem ahead_pos {pq : ProcessQueue} {job : JobRef} (live : job ∈ pq.live) : 0 < pq.ahead job :=
  List.countP_pos_iff.mpr ⟨job, live, by simp⟩

/-- A record put at the end, and not due before, is not ahead. -/
theorem ahead_append {pq pq' : ProcessQueue} {job record : JobRef} (grown : pq'.live = pq.live ++ [record])
    (due : job.dueTimeSec ≤ record.dueTimeSec) (behind : job.cell < record.cell) : pq'.ahead job = pq.ahead job := by
  have out : ¬ (record.dueTimeSec < job.dueTimeSec ∨
      record.dueTimeSec = job.dueTimeSec ∧ record.cell ≤ job.cell) := by omega
  simp [ahead, grown, out]

/-- Fewer elements are counted if one is not any more and no other one is new. -/
theorem countP_lt {A : Type} {before after : A → Bool} {items : List A} {item : A} (member : item ∈ items)
    (known : ∀ other ∈ items, after other = true → before other = true) (counted : before item = true)
    (dropped : after item = false) : items.countP after < items.countP before := by
  obtain ⟨front, back, rfl⟩ := List.append_of_mem member
  have first := List.countP_mono_left fun other inside => known other (List.mem_append_left _ inside)
  have last := List.countP_mono_left fun other inside =>
    known other (List.mem_append_right _ (List.mem_cons_of_mem _ inside))
  simp only [List.countP_append, List.countP_cons, counted, dropped, ↓reduceIte]
  simp only [Bool.false_eq_true, ↓reduceIte]
  omega

/-- The records in `cells` became due after `start`, the others are as they were. -/
structure Postponed (start : Int) (cells : List Int) (pq pq' : ProcessQueue) : Prop where
  count : pq'.liveCount = pq.liveCount
  others : ∀ k : Nat, (k : Int) ∉ cells → pq'.live[k]? = pq.live[k]?
  later : ∀ (k : Nat) job, (k : Int) ∈ cells → pq'.live[k]? = some job → start < job.dueTimeSec

theorem liveCount_updateRetry (pq : ProcessQueue) (cell retryCount delaySec now : Int) :
    (pq.updateRetry cell retryCount delaySec now).liveCount = pq.liveCount := by
  unfold updateRetry
  split <;> rfl

theorem postponed_retries {start : Int} {delay : Int → Int} {updateSec : Nat → Int} (positive : ∀ n, 1 ≤ delay n)
    (onward : ∀ i, start ≤ updateSec i) (refs : List (JobRef × Nat)) (pq : ProcessQueue)
    (inside : ∀ ref ∈ refs, 0 ≤ ref.1.cell ∧ ref.1.cell < pq.liveCount) :
    Postponed start (refs.map fun ref => ref.1.cell) pq (refs.foldl (fun pq ref =>
      pq.updateRetry ref.1.cell (ref.1.retryCount + 1) (delay (ref.1.retryCount + 1)) (updateSec ref.2)) pq) := by
  induction refs generalizing pq with
  | nil => exact ⟨rfl, fun _ _ => rfl, by simp⟩
  | cons ref refs ih =>
    obtain ⟨natural, bound⟩ := inside ref List.mem_cons_self
    obtain ⟨cell, eq⟩ := Int.eq_ofNat_of_zero_le natural
    have retried := @getElem?_live_updateRetry pq cell (by omega) (ref.1.retryCount + 1)
      (delay (ref.1.retryCount + 1)) (updateSec ref.2)
    rw [← eq] at retried
    have count := pq.liveCount_updateRetry ref.1.cell (ref.1.retryCount + 1) (delay (ref.1.retryCount + 1))
      (updateSec ref.2)
    have rest := ih (pq.updateRetry ref.1.cell (ref.1.retryCount + 1) (delay (ref.1.retryCount + 1))
      (updateSec ref.2)) fun other member => count ▸ inside other (List.mem_cons_of_mem _ member)
    refine ⟨rest.count.trans count, fun k out => ?_, fun k job member found => ?_⟩
    · simp only [List.map_cons, List.mem_cons, not_or] at out
      exact (rest.others k out.2).trans ((retried k).trans (if_neg (by omega)))
    · by_cases again : (k : Int) ∈ refs.map fun ref => ref.1.cell
      · exact rest.later k job again found
      · -- the retry of this record is the last one noted in its cell
        have here : k = cell := by
          have first : (k : Int) = ref.1.cell := (List.mem_cons.mp member).resolve_right again
          omega
        rw [List.foldl_cons, rest.others k again, retried k, if_pos here] at found
        obtain ⟨old, _, rfl⟩ := Option.map_eq_some_iff.mp found
        have after := positive (ref.1.retryCount + 1)
        have clock := onward ref.2
        show start < updateSec ref.2 + delay (ref.1.retryCount + 1)
        omega

/-- The record in the cell of `job`. -/
def inCellOf (pq : ProcessQueue) (job : JobRef) : JobRef := (pq.live[job.cell.toNat]?).getD job

theorem live_eq_map_inCellOf {pq pq' : ProcessQueue} (valid : pq.Valid) (valid' : pq'.Valid)
    (count : pq'.liveCount = pq.liveCount) : pq'.live = pq.live.map pq'.inCellOf := by
  refine List.ext_getElem? fun k => ?_
  rw [List.getElem?_map]
  cases found : pq.live[k]? with
  | none =>
    rw [List.getElem?_eq_none_iff, length_live valid, ← count, ← length_live valid'] at found
    simpa using found
  | some job =>
    have placed := cell_of_getElem?_live valid found
    have bound : k < pq'.live.length := by
      rw [length_live valid', count, ← length_live valid]
      exact (List.getElem?_eq_some_iff.mp found).1
    simp [inCellOf, placed, bound]

/-- Fewer records are ahead if some of those are postponed and nothing else changes. -/
theorem Postponed.ahead_lt {start : Int} {refs : List JobRef} {pq pq' : ProcessQueue} {job : JobRef}
    (postponed : Postponed start (refs.map JobRef.cell) pq pq') (valid : pq.Valid) (valid' : pq'.Valid)
    (ready : job.dueTimeSec ≤ start) (some : refs ≠ []) (live : ∀ ref ∈ refs, ref ∈ pq.live)
    (before : ∀ ref ∈ refs, ref.Before job) : pq'.ahead job < pq.ahead job := by
  obtain ⟨ref, member⟩ := List.exists_mem_of_ne_nil refs some
  -- what is in the cell of a postponed record is due after `start`
  have later : ∀ other ∈ pq.live, other.cell ∈ refs.map JobRef.cell → start < (pq'.inCellOf other).dueTimeSec := by
    intro other inside listed
    obtain ⟨natural, placed⟩ := (mem_live valid).mp inside
    have bound : other.cell.toNat < pq'.live.length := by
      rw [length_live valid', postponed.count, ← length_live valid]
      exact (List.getElem?_eq_some_iff.mp placed).1
    refine postponed.later other.cell.toNat _ (by rwa [Int.toNat_of_nonneg natural]) ?_
    simp [inCellOf, bound]
  have same : ∀ other ∈ pq.live, other.cell ∉ refs.map JobRef.cell → pq'.inCellOf other = other := by
    intro other inside out
    obtain ⟨natural, placed⟩ := (mem_live valid).mp inside
    unfold inCellOf
    rw [postponed.others _ (by rwa [Int.toNat_of_nonneg natural]), placed]
    rfl
  unfold ahead
  rw [live_eq_map_inCellOf valid valid' postponed.count, List.countP_map]
  refine countP_lt (live ref member) (fun other inside counted => ?_) ?_ ?_
  · by_cases listed : other.cell ∈ refs.map JobRef.cell
    · have gone := later other inside listed
      simp only [Function.comp_apply, decide_eq_true_eq] at counted
      omega
    · simpa [same other inside listed] using counted
  · have early := before ref member
    unfold JobRef.Before at early
    simp only [decide_eq_true_eq]
    omega
  · have gone := later ref (live ref member) (List.mem_map_of_mem member)
    simp only [Function.comp_apply, decide_eq_false_iff_not]
    omega

/-- A batch is not empty if a record is ready and there is room for one. -/
theorem readBatch_ne_nil {pq : ProcessQueue} {count nowSec : Int} {job : JobRef} (room : 1 ≤ count)
    (wide : nowSec < 2 ^ 63) (live : job ∈ pq.live) (ready : job.dueTimeSec ≤ nowSec) :
    pq.readBatch count nowSec ≠ [] := by
  have timed : job.dueTimeSec ∈ (pq.readyTimes nowSec).sort :=
    (Finset.mem_sort _).mpr (mem_readyTimes.mpr ⟨⟨job, live, rfl⟩, ready⟩)
  cases times : (pq.readyTimes nowSec).sort with
  | nil =>
    rw [times] at timed
    cases timed
  | cons first rest =>
    have listed : first ∈ (pq.readyTimes nowSec).sort := times ▸ List.mem_cons_self
    obtain ⟨⟨oldest, inside, due⟩, _⟩ := mem_readyTimes.mp ((Finset.mem_sort _).mp listed)
    have member : oldest ∈ pq.oldestReady nowSec := by
      unfold oldestReady twoEarliest
      rw [times]
      exact List.mem_flatMap.mpr ⟨first, List.mem_cons_self, mem_dueAt.mpr ⟨inside, due⟩⟩
    rw [readBatch_eq pq (by omega) wide, Ne, List.take_eq_nil_iff, not_or]
    exact ⟨by omega, List.ne_nil_of_mem member⟩

end ProcessQueue

namespace Partition
open Cue.Lib Cue.Model

/-- The size of the batch a dispatch reads, if it comes to that: this node leads,
and the proxy whose turn it is has consumers and room in its channel. -/
def offeredSize (p : Partition) (env : DispatchEnv) : Option Int :=
  if clusterNodeStatusFromUint32 env.status ≠ .leaderActive ∨ p.proxyMap.available = [] then none
  else
    match p.proxyMap.getNextAvailable with
    | .ok (some (proxyID, consumerCount), _) =>
      if consumerCount ≤ 0 then none
      else
        match p.proxyPushChs.get proxyID with
        | none => none
        | some pushCh =>
          let chCapacity := (pushCh.cap : Int) - env.chLen
          if chCapacity ≤ 0 then none else some (p.batchSize consumerCount chCapacity)
    | _ => none

theorem itemsRead_of_offeredSize {p : Partition} {env : DispatchEnv} {size : Int}
    (offered : p.offeredSize env = some size) : p.itemsRead env = p.processQueue.readBatch size env.nowSec := by
  unfold offeredSize at offered
  unfold itemsRead selectBatch
  split at offered
  · cases offered
  · rename_i leads
    rw [if_neg leads]
    split at offered
    · rename_i next
      split at offered
      · cases offered
      · rename_i consumers
        split at offered
        · cases offered
        · rename_i pushCh channel
          dsimp only at offered
          split at offered
          · cases offered
          · rename_i room
            cases offered
            simp only [next, consumers, channel, room, ↓reduceIte]
            split
            · rename_i read
              split at read
              · cases read
              · cases read
                rfl
            · rename_i unread
              by_contra some
              exact unread _ _ _ (by rw [if_neg (Ne.symm some)])
    · cases offered

/-- Jobs are added, or a batch of at least one record is read and goes out while
no queued job is gone, done or out of retries. Of a clock that never goes back it
is only used that it shows no time before `start`. -/
def Serves (start : Int) (p : Partition) : Op → Prop
  | .command cmd clock => cmd.type = .addJobs ∧ ∀ i, start ≤ (clock i).nowSec
  | .dispatch env => (∃ size, p.offeredSize env = some size ∧ 1 ≤ size) ∧ env.marshals = true ∧ env.sent = true ∧
      (start ≤ env.nowSec ∧ env.nowSec < 2 ^ 63 ∧ ∀ i, start ≤ env.updateSec i) ∧
      ∀ job ∈ p.processQueue.live, removable p.jobStore p.config.maxRetries job = false
  | _ => False

abbrev ServingRun (start : Int) (p : Partition) : List Op → Partition → Prop :=
  Run (fun p op p' => ∃ effect, p.step op = .ok (p', effect)) (fun _ p op => p.Serves start op) p

def dispatches (ops : List Op) : Nat := ops.countP fun | .dispatch _ => true | _ => false

/-- One of the first `bound` dispatches of the run puts the job of the record, which
is queued until then, on the push channel. -/
def SentWithin (bound : Nat) (job : JobRef) (start : Int) (p : Partition) (ops : List Op) : Prop :=
  ∃ before env after q q' batch sentJob, ops = before ++ .dispatch env :: after ∧ dispatches before < bound ∧
    ServingRun start p before q ∧ job ∈ q.processQueue.live ∧ q.dispatch env = .ok (q', some batch) ∧
    q.jobStore.get job.slot = some sentJob ∧ sentJob ∈ batch.jobs

/-! ### One step -/

section Steps

variable {job : JobRef} {start : Int} {p p' : Partition}

/-- A job that is added is queued at the end, due when it is added. -/
theorem addJob_queue {added : Job} {clock : Clock} {outcome : AddOutcome} (valid : p.processQueue.Valid)
    (ok : p.addJob added clock = .ok (p', outcome)) : p'.processQueue = p.processQueue ∨
      p'.processQueue.Valid ∧ ∃ idx, p'.processQueue.live =
        p.processQueue.live ++ [⟨idx, 0, p.processQueue.liveCount, clock.nowSec⟩] := by
  unfold addJob at ok
  split at ok
  · cases ok
    exact .inl rfl
  · split at ok
    · cases ok
    · cases ok
      exact .inl rfl
    · split at ok
      · rename_i queued
        cases ok
        obtain ⟨grown, valid', _⟩ := ProcessQueue.addNewJob_live valid queued
        exact .inr ⟨valid', _, grown⟩
      · split at ok
        · cases ok
        · cases ok
          exact .inl rfl

/-- New jobs do not come ahead of a record that is ready. -/
theorem addJobs_behind {jobs : List Job} {clock : Nat → Clock} {outcomes : List (String × AddOutcome)}
    (valid : p.processQueue.Valid) (ready : job.dueTimeSec ≤ start) (onward : ∀ i, start ≤ (clock i).nowSec)
    (ok : p.addJobs jobs clock = .ok (p', outcomes)) : p'.processQueue.Valid ∧
      (job ∈ p.processQueue.live →
        job ∈ p'.processQueue.live ∧ p'.processQueue.ahead job = p.processQueue.ahead job) := by
  induction jobs generalizing p clock outcomes with
  | nil =>
    cases ok
    exact ⟨valid, fun live => ⟨live, rfl⟩⟩
  | cons added jobs ih =>
    obtain ⟨middle, outcome, rest, first, others, rfl⟩ := addJobs_cons ok
    have later : ∀ i, start ≤ (clock (i + 1)).nowSec := fun i => onward (i + 1)
    rcases addJob_queue valid first with same | ⟨valid', idx, grown⟩
    · have kept := ih (same ▸ valid) later others
      rwa [same] at kept
    · obtain ⟨valid'', kept⟩ := ih valid' later others
      refine ⟨valid'', fun live => ?_⟩
      obtain ⟨natural, placed⟩ := (ProcessQueue.mem_live valid).mp live
      have inside : job.cell.toNat < p.processQueue.liveCount :=
        ProcessQueue.length_live valid ▸ (List.getElem?_eq_some_iff.mp placed).1
      have behind := @ProcessQueue.ahead_append _ _ job _ grown (Int.le_trans ready (onward 0)) (by dsimp only; omega)
      obtain ⟨stays, count⟩ := kept (grown ▸ List.mem_append_left _ live)
      exact ⟨stays, count.trans behind⟩

theorem calculateRetryDelaySec_pos (p : Partition) (retryCount : Int) : 1 ≤ p.calculateRetryDelaySec retryCount := by
  have clamped : ∀ delaySec : Int, 1 ≤ if delaySec < 1 then 1 else delaySec := by
    intro delaySec
    split <;> omega
  unfold calculateRetryDelaySec
  split
  · exact Int.le_refl 1
  · exact clamped _

/-- All that was read goes out if it stays. -/
theorem sentRefs_eq_itemsRead {env : DispatchEnv} {sent : Option SentBatch} (marshals : env.marshals = true)
    (goes : env.sent = true) (stays : ∀ item ∈ p.itemsRead env, removable p.jobStore p.config.maxRetries item = false)
    (ok : p.dispatch env = .ok (p', sent)) : p.sentRefs env = p.itemsRead env := by
  have all : ((p.itemsRead env).filter fun item => !removable p.jobStore p.config.maxRetries item) = p.itemsRead env :=
    List.filter_eq_self.mpr fun item member => by simp [stays item member]
  unfold sentRefs
  rw [ok]
  cases sent with
  | none => rw [← all, dispatch_unsent marshals goes ok]
  | some batch => exact all

/-- The batch holds the job of each record that is sent. -/
theorem dispatch_holds {env : DispatchEnv} {sent : Option SentBatch} (member : job ∈ p.sentRefs env)
    (ok : p.dispatch env = .ok (p', sent)) : ∃ batch sentJob, sent = some batch ∧
      p.jobStore.get job.slot = some sentJob ∧ sentJob ∈ batch.jobs := by
  unfold sentRefs at member
  rw [ok] at member
  cases sent with
  | none => cases member
  | some batch =>
    have held : p.jobStore.get job.slot ∈ batch.jobs.map some := by
      rw [dispatch_sent ok]
      exact List.mem_map_of_mem member
    obtain ⟨sentJob, inside, same⟩ := List.mem_map.mp held
    exact ⟨batch, sentJob, rfl, same.symm, inside⟩

/-- While no record has to be removed, a dispatch postpones all that it reads and
changes nothing else. -/
theorem dispatch_postpones {env : DispatchEnv} {sent : Option SentBatch} (valid : p.processQueue.Valid)
    (serves : p.Serves start (.dispatch env)) (ok : p.dispatch env = .ok (p', sent)) :
    p.sentRefs env = p.itemsRead env ∧
      ProcessQueue.Postponed start ((p.itemsRead env).map JobRef.cell) p.processQueue p'.processQueue := by
  obtain ⟨_, marshals, goes, ⟨_, _, updates⟩, healthy⟩ := serves
  have stays : ∀ item ∈ p.itemsRead env, removable p.jobStore p.config.maxRetries item = false :=
    fun item member => healthy item (itemsRead_live member)
  have all := sentRefs_eq_itemsRead marshals goes stays ok
  have nothing : (p.itemsRead env).filter (removable p.jobStore p.config.maxRetries) = [] :=
    List.filter_eq_nil_iff.mpr fun item member => by simp [stays item member]
  have retries := ProcessQueue.postponed_retries p.calculateRetryDelaySec_pos updates (p.itemsRead env).zipIdx
    p.processQueue fun ref member => by
      obtain ⟨natural, placed⟩ :=
        (ProcessQueue.mem_live valid).mp (itemsRead_live (List.fst_mem_of_mem_zipIdx member))
      have inside := (List.getElem?_eq_some_iff.mp placed).1
      rw [ProcessQueue.length_live valid] at inside
      omega
  rw [map_cell_zipIdx] at retries
  refine ⟨all, ?_⟩
  rw [(dispatch_queue ok).2, nothing, all]
  exact retries

/-- A dispatch whose batch does not hold a ready record postpones some of those
ahead of it. -/
theorem dispatch_ahead_lt {env : DispatchEnv} {sent : Option SentBatch} (valid : p.processQueue.Valid)
    (ready : job.dueTimeSec ≤ start) (serves : p.Serves start (.dispatch env)) (live : job ∈ p.processQueue.live)
    (out : job ∉ p.sentRefs env) (ok : p.dispatch env = .ok (p', sent)) :
    job ∈ p'.processQueue.live ∧ p'.processQueue.ahead job < p.processQueue.ahead job := by
  obtain ⟨all, postponed⟩ := dispatch_postpones valid serves ok
  obtain ⟨⟨size, offered, room⟩, _, _, ⟨onward, wide, _⟩, _⟩ := serves
  have read := itemsRead_of_offeredSize offered
  have due := Int.le_trans ready onward
  rw [all, read] at out
  refine ⟨?_, postponed.ahead_lt valid (dispatch_spec valid ok).queueValid ready ?_ (fun _ => itemsRead_live) ?_⟩
  · -- no record of the batch is in the cell of the one that waits
    obtain ⟨natural, placed⟩ := (ProcessQueue.mem_live valid).mp live
    have apart : (job.cell.toNat : Int) ∉ (p.itemsRead env).map JobRef.cell := by
      intro listed
      obtain ⟨item, member, same⟩ := List.mem_map.mp listed
      obtain ⟨_, there⟩ := (ProcessQueue.mem_live valid).mp (itemsRead_live member)
      rw [same, Int.toNat_natCast, placed] at there
      cases there
      exact out (read ▸ member)
    exact List.mem_of_getElem? ((postponed.others _ apart).trans placed)
  · exact read ▸ ProcessQueue.readBatch_ne_nil room wide live due
  · intro item member
    exact ProcessQueue.before_of_not_mem_readBatch valid (by omega) wide live due out (read ▸ member)

end Steps

/-! ### Whole runs -/

theorem SentWithin.append {bound : Nat} {job : JobRef} {start : Int} {p : Partition} {ops : List Op}
    (sent : SentWithin bound job start p ops) (op : Op) : SentWithin bound job start p (ops ++ [op]) := by
  obtain ⟨before, env, after, q, q', batch, sentJob, rfl, rest⟩ := sent
  exact ⟨before, env, after ++ [op], q, q', batch, sentJob, by simp, rest⟩

/-- While the record waits, the dispatches so far and the records still ahead are
no more than were ahead at the start. -/
structure Waiting (total : Nat) (job : JobRef) (start : Int) (p : Partition) (ops : List Op) (q : Partition) :
    Prop where
  run : ServingRun start p ops q
  valid : q.processQueue.Valid
  progress : job ∈ q.processQueue.live ∧ dispatches ops + q.processQueue.ahead job ≤ total ∨
    SentWithin total job start p ops

theorem Waiting.step {job : JobRef} {start : Int} {total : Nat} {p q q' : Partition} {ops : List Op} {op : Op}
    {effect : Effect} (waiting : Waiting total job start p ops q) (ready : job.dueTimeSec ≤ start)
    (serves : q.Serves start op) (ok : q.step op = .ok (q', effect)) :
    Waiting total job start p (ops ++ [op]) q' := by
  obtain ⟨run, valid, progress⟩ := waiting
  have onward := Run.next run serves ⟨effect, ok⟩
  have sentBefore := fun sent : SentWithin total job start p ops => sent.append op
  cases step_ran ok with
  | addJobs _ _ added =>
    obtain ⟨valid', kept⟩ := addJobs_behind valid ready serves.2 added
    refine ⟨onward, valid', progress.imp ?_ sentBefore⟩
    rintro ⟨live, bound⟩
    obtain ⟨stays, count⟩ := kept live
    exact ⟨stays, by simpa [dispatches, count] using bound⟩
  | ignored =>
    refine ⟨onward, valid, progress.imp ?_ sentBefore⟩
    rintro ⟨live, bound⟩
    exact ⟨live, by simpa [dispatches] using bound⟩
  | done type => cases type.symm.trans serves.1
  | drop type => cases type.symm.trans serves.1
  | dispatch sends =>
    rename_i env sent
    refine ⟨onward, (dispatch_spec valid sends).queueValid, ?_⟩
    rcases progress with ⟨live, bound⟩ | already
    · by_cases member : job ∈ q.sentRefs env
      · have some : 0 < q.processQueue.ahead job := ProcessQueue.ahead_pos live
        obtain ⟨batch, sentJob, rfl, stored, held⟩ := dispatch_holds member sends
        exact .inr ⟨ops, env, [], q, q', batch, sentJob, rfl, by omega, run, live, sends, stored, held⟩
      · obtain ⟨stays, fewer⟩ := dispatch_ahead_lt valid ready serves live member sends
        refine .inl ⟨stays, ?_⟩
        simp only [dispatches, List.countP_append, List.countP_singleton, ↓reduceIte] at bound ⊢
        omega
    · exact .inr (sentBefore already)
  | flush | unflushed => cases serves
  | proxies proxy idle steady =>
    cases op with
    | command cmd clock => exact absurd rfl (proxy cmd clock)
    | dispatch env => exact absurd rfl (idle env)
    | flush | topology | heartbeat | cleanup => cases serves

/-- The job of a ready record is in a batch that goes out after as many dispatches
as records are ahead of it at the start, itself included, however many jobs are
added meanwhile. -/
theorem ready_record_sent {p q : Partition} {job : JobRef} {start : Int} {ops : List Op}
    (valid : p.processQueue.Valid) (live : job ∈ p.processQueue.live) (ready : job.dueTimeSec ≤ start)
    (run : ServingRun start p ops q) (enough : p.processQueue.ahead job ≤ dispatches ops) :
    SentWithin (p.processQueue.ahead job) job start p ops := by
  have waiting : Waiting (p.processQueue.ahead job) job start p ops q := by
    refine run.invariant (Waiting (p.processQueue.ahead job) job start p) ?_ ?_
    · exact ⟨.start, valid, .inl ⟨live, by simp [dispatches]⟩⟩
    · rintro ops q op q' waiting serves ⟨effect, ok⟩
      exact waiting.step ready serves ok
  rcases waiting.progress with ⟨still, bound⟩ | sent
  · have some := ProcessQueue.ahead_pos still
    omega
  · exact sent

/-! Two jobs are queued and a batch holds one. The second goes out in the second
batch, though a third job is added and the first one is due again by then. -/

private def addAt (id : String) (nowSec : Int) : Op :=
  .command { type := .addJobs, addJobs := some ⟨"orders", [⟨id, "orders", [1], false, 0⟩]⟩ }
    fun _ => ⟨1000 * nowSec, nowSec⟩

private def sendAt (nowSec : Int) : Op := .dispatch ⟨73, 0, nowSec, true, true, fun _ => nowSec⟩

private def second : JobRef := ⟨1, 0, 1, 1⟩

private def serve (p : Partition) (op : Op) : Partition :=
  match p.step op with
  | .ok (p, _) => p
  | .error _ => p

private theorem serve_step {p : Partition} {op : Op} (ok : (p.step op).isOk = true) :
    ∃ effect, p.step op = .ok (serve p op, effect) := by
  unfold serve
  cases stepped : p.step op with
  | error panicked => simp [stepped, Except.isOk, Except.toBool] at ok
  | ok after => exact ⟨after.2, rfl⟩

private def twoQueued : Partition :=
  [.topology (.add "proxy" (some ⟨0, 4⟩)),
    .heartbeat { proxyID := "proxy", topic := "orders", consumptionScore := 1, timestamp := 0 },
    addAt "a" 1, addAt "b" 1].foldl serve (new "orders" ⟨4, 3, 20, 1, 1000, 1000⟩ 0)

private def servedOps : List Op := [sendAt 5, addAt "c" 6, sendAt 9]

private theorem served_run : ServingRun 1 twoQueued servedOps (servedOps.foldl serve twoQueued) := by
  have first : ServingRun 1 twoQueued [sendAt 5] (serve twoQueued (sendAt 5)) := by
    refine .next .start ?_ (serve_step rfl)
    exact ⟨⟨1, rfl, Int.le_refl 1⟩, rfl, rfl, ⟨by decide, by decide, fun _ => show (1 : Int) ≤ 5 by decide⟩, by decide⟩
  have added : ServingRun 1 twoQueued [sendAt 5, addAt "c" 6] (serve (serve twoQueued (sendAt 5)) (addAt "c" 6)) :=
    .next first ⟨rfl, fun _ => show (1 : Int) ≤ 6 by decide⟩ (serve_step rfl)
  refine .next added ?_ (serve_step rfl)
  exact ⟨⟨1, rfl, Int.le_refl 1⟩, rfl, rfl, ⟨by decide, by decide, fun _ => show (1 : Int) ≤ 9 by decide⟩, by decide⟩

theorem second_job_sent_second : twoQueued.processQueue.ahead second = 2 ∧ dispatches servedOps = 2 ∧
    SentWithin (twoQueued.processQueue.ahead second) second 1 twoQueued servedOps := by
  have first := @ProcessQueue.addNewJob_live (ProcessQueue.new 4) _ ⟨0, 0, 0, 1⟩ (ProcessQueue.new_valid 4) rfl
  have both : twoQueued.processQueue.Valid :=
    (@ProcessQueue.addNewJob_live _ _ ⟨1, 0, 0, 1⟩ first.2.1 rfl).2.1
  exact ⟨rfl, rfl, ready_record_sent both (by decide) (Int.le_refl 1) served_run (Nat.le_refl 2)⟩

end Partition
end Cue.State
