import Cue.PartitionProofs

/-! How often and when a record is sent. Every record put into the queue gets a
ticket; the tickets move with the records through swap-removes, and each sent
batch is noted under the tickets of the records it holds.

- `RetriesKept` is the property: a record's retry count is the number of batches
  it was in, at most `maxRetries`, and between two of them the retry delay passed.
- `retries_bounded_and_spaced` shows it for every run. -/
namespace Cue.State.Partition
open Cue.Lib Cue.Model

/-- The records whose jobs a dispatch puts on the push channel. -/
def sentRefs (p : Partition) (env : DispatchEnv) : List JobRef :=
  match p.dispatch env with
  | .ok (_, some _) => (p.itemsRead env).filter fun item => !removable p.jobStore p.config.maxRetries item
  | _ => []

/-- The clock when the batch was read and when the record's retry was noted; the
batch was sent in between. -/
structure Send where
  readSec : Int
  updateSec : Int
  deriving DecidableEq

structure Deliveries where
  born : Nat := 0
  queue : List Nat := []
  sends : Nat → List Send := fun _ => []

namespace Deliveries

def accept (d : Deliveries) (_ : String × Nat) : Deliveries :=
  { d with born := d.born + 1, queue := d.queue ++ [d.born] }

def send (env : DispatchEnv) (d : Deliveries) (ref : JobRef × Nat) : Deliveries :=
  match d.queue[ref.1.cell.toNat]? with
  | some ticket => { d with
      sends := Function.update d.sends ticket (d.sends ticket ++ [⟨env.nowSec, env.updateSec ref.2⟩]) }
  | none => d

@[simp] theorem send_queue (env : DispatchEnv) (d : Deliveries) (ref : JobRef × Nat) :
    (d.send env ref).queue = d.queue := by
  unfold send
  split <;> rfl

@[simp] theorem send_born (env : DispatchEnv) (d : Deliveries) (ref : JobRef × Nat) :
    (d.send env ref).born = d.born := by
  unfold send
  split <;> rfl

theorem send_sends {env : DispatchEnv} {d : Deliveries} {ref : JobRef × Nat} {ticket : Nat}
    (named : d.queue[ref.1.cell.toNat]? = some ticket) (other : Nat) :
    (d.send env ref).sends other =
      if other = ticket then d.sends ticket ++ [⟨env.nowSec, env.updateSec ref.2⟩] else d.sends other := by
  simp only [send, named, Function.update_apply]

/-- The sends are noted, then the tickets follow the records that are removed. -/
def dispatch (d : Deliveries) (p : Partition) (env : DispatchEnv) : Deliveries :=
  let noted := (p.sentRefs env).zipIdx.foldl (send env) d
  let removed := (p.itemsRead env).filter (removable p.jobStore p.config.maxRetries)
  { noted with queue := swapRemoveAll noted.queue (removed.map fun item => item.cell.toNat) }

def record (d : Deliveries) (p : Partition) (op : Op) (effect : Effect) : Deliveries :=
  match op with
  | .dispatch env => d.dispatch p env
  | _ => effect.accepted.foldl accept d

end Deliveries

/-- Between the clock at a send and at the next one, the delay for the retry
count that the first send led to has passed. -/
def Spaced (delay : Int → Int) (sends : List Send) : Prop :=
  ∀ (k : Nat) first second, sends[k]? = some first → sends[k + 1]? = some second →
    ∀ sent resent, sent ≤ first.updateSec → second.readSec ≤ resent → sent + delay (k + 1) ≤ resent

structure RetriesKept (s : Partition × Deliveries) : Prop where
  aligned : s.2.queue.length = s.1.processQueue.live.length
  distinct : s.2.queue.Nodup
  counted : ∀ (k : Nat) record ticket, s.1.processQueue.live[k]? = some record → s.2.queue[k]? = some ticket →
    record.retryCount = (s.2.sends ticket).length
  bounded : ∀ ticket, (s.2.sends ticket).length ≤ s.1.config.maxRetries.toNat
  spaced : ∀ ticket, Spaced s.1.calculateRetryDelaySec (s.2.sends ticket)
  batches : ∀ env p' batch, s.1.dispatch env = .ok (p', some batch) →
    batch.jobs.map some = (s.1.sentRefs env).map (fun ref => s.1.jobStore.get ref.slot) ∧
      ∀ ref ∈ s.1.sentRefs env, s.1.processQueue.live[ref.cell.toNat]? = some ref

/-! ### The invariant -/

/-- The record was sent as often as it says, and is not due before the delay
after its last send is over. -/
structure Attached (delay : Int → Int) (sends : List Send) (record : JobRef) : Prop where
  counted : record.retryCount = sends.length
  waits : ∀ last ∈ sends.getLast?, last.updateSec + delay sends.length ≤ record.dueTimeSec

structure Tracked (delay : Int → Int) (maxRetries : Int) (pq : ProcessQueue) (d : Deliveries) : Prop where
  valid : pq.Valid
  aligned : d.queue.length = pq.live.length
  distinct : d.queue.Nodup
  born : ∀ ticket ∈ d.queue, ticket < d.born
  attached : ∀ (k : Nat) record ticket, pq.live[k]? = some record → d.queue[k]? = some ticket →
    Attached delay (d.sends ticket) record
  unborn : ∀ ticket, d.born ≤ ticket → d.sends ticket = []
  bounded : ∀ ticket, (d.sends ticket).length ≤ maxRetries.toNat
  spaced : ∀ ticket, Spaced delay (d.sends ticket)

section Steps

variable {delay : Int → Int} {maxRetries : Int} {pq pq' : ProcessQueue} {d : Deliveries}

private theorem Tracked.accept (tracked : Tracked delay maxRetries pq d) {record : JobRef} (valid : pq'.Valid)
    (grown : pq'.live = pq.live ++ [record]) (fresh : record.retryCount = 0) (job : String × Nat) :
    Tracked delay maxRetries pq' (d.accept job) where
  valid := valid
  aligned := by
    simp [Deliveries.accept, grown, tracked.aligned]
  distinct := (nodup_next tracked.distinct tracked.born).1
  born := (nodup_next tracked.distinct tracked.born).2
  attached := by
    intro k placed ticket here named
    rw [grown] at here
    have named : (d.queue ++ [d.born])[k]? = some ticket := named
    rcases Nat.lt_or_ge k pq.live.length with old | new
    · rw [List.getElem?_append_left old] at here
      rw [List.getElem?_append_left (tracked.aligned ▸ old)] at named
      exact tracked.attached k placed ticket here named
    · have last : k = pq.live.length := by
        have bound := (List.getElem?_eq_some_iff.mp here).1
        simp only [List.length_append, List.length_singleton] at bound
        omega
      subst last
      rw [← tracked.aligned, List.getElem?_concat_length] at named
      rw [List.getElem?_concat_length] at here
      cases here
      cases named
      rw [Deliveries.accept, tracked.unborn d.born (Nat.le_refl _)]
      exact ⟨fresh, by simp⟩
  unborn := fun ticket late => tracked.unborn ticket (Nat.le_of_succ_le late)
  bounded := tracked.bounded
  spaced := tracked.spaced

private theorem Spaced.append {sends : List Send} {next : Send} (spaced : Spaced delay sends)
    (later : ∀ last ∈ sends.getLast?, last.updateSec + delay sends.length ≤ next.readSec) :
    Spaced delay (sends ++ [next]) := by
  intro k first second here there
  rcases Nat.lt_or_ge (k + 1) sends.length with old | new
  · rw [List.getElem?_append_left (by omega)] at here
    rw [List.getElem?_append_left old] at there
    exact spaced k first second here there
  · have last : k + 1 = sends.length := by
      have bound := (List.getElem?_eq_some_iff.mp there).1
      simp only [List.length_append, List.length_singleton] at bound
      omega
    rw [List.getElem?_append_left (by omega)] at here
    rw [last, List.getElem?_concat_length] at there
    cases there
    have due := later first (by rw [List.getLast?_eq_getElem?, ← last]; exact here)
    rw [← last] at due
    push_cast at due
    intro sent resent before after
    omega

/-- A retry is noted in the record and under its ticket. -/
private theorem Tracked.send (tracked : Tracked delay maxRetries pq d) {env : DispatchEnv} {ref : JobRef} {i : Nat}
    (natural : 0 ≤ ref.cell) (placed : pq.live[ref.cell.toNat]? = some ref) (due : ref.dueTimeSec ≤ env.nowSec)
    (left : ref.retryCount < maxRetries) :
    Tracked delay maxRetries
      (pq.updateRetry ref.cell (ref.retryCount + 1) (delay (ref.retryCount + 1)) (env.updateSec i))
      (d.send env (ref, i)) := by
  obtain ⟨ticket, named⟩ : ∃ ticket, d.queue[ref.cell.toNat]? = some ticket :=
    ⟨_, List.getElem?_eq_getElem (tracked.aligned ▸ (List.getElem?_eq_some_iff.mp placed).1)⟩
  have inside : ref.cell.toNat < pq.liveCount :=
    ProcessQueue.length_live tracked.valid ▸ (List.getElem?_eq_some_iff.mp placed).1
  have cell : ((ref.cell.toNat : Nat) : Int) = ref.cell := Int.toNat_of_nonneg natural
  obtain ⟨counted, waits⟩ := tracked.attached _ ref ticket placed named
  have live := ProcessQueue.getElem?_live_updateRetry inside (ref.retryCount + 1) (delay (ref.retryCount + 1))
    (env.updateSec i)
  rw [cell] at live
  have noted := @Deliveries.send_sends env d (ref, i) ticket named
  refine ⟨ProcessQueue.updateRetry_valid _ _ _ _ tracked.valid, ?_, ?_, ?_, ?_, ?_, ?_, ?_⟩
  · have same := congrArg List.length
      (ProcessQueue.map_live_updateRetry (fun _ => ()) (fun _ _ _ => rfl) pq ref.cell (ref.retryCount + 1)
        (delay (ref.retryCount + 1)) (env.updateSec i))
    simp only [List.length_map] at same
    rw [Deliveries.send_queue]
    exact tracked.aligned.trans same.symm
  · rw [Deliveries.send_queue]
    exact tracked.distinct
  · rw [Deliveries.send_queue, Deliveries.send_born]
    exact tracked.born
  · intro k record other here there
    rw [live] at here
    rw [Deliveries.send_queue] at there
    rw [noted]
    by_cases same : k = ref.cell.toNat
    · subst same
      rw [if_pos rfl, placed] at here
      cases here
      cases named.symm.trans there
      rw [if_pos rfl]
      exact ⟨by simp [counted], by simp [counted]⟩
    · rw [if_neg same] at here
      have apart : other ≠ ticket := by
        rintro rfl
        exact same ((List.getElem?_inj (List.getElem?_eq_some_iff.mp there).1 tracked.distinct).mp
          (there.trans named.symm))
      rw [if_neg apart]
      exact tracked.attached k record other here there
  · intro other late
    rw [Deliveries.send_born] at late
    have apart : other ≠ ticket := by
      rintro rfl
      exact absurd (tracked.born other (List.mem_of_getElem? named)) (Nat.not_lt.mpr late)
    rw [noted, if_neg apart]
    exact tracked.unborn other late
  · intro other
    rw [noted]
    split
    · rw [List.length_append, List.length_singleton]
      omega
    · exact tracked.bounded other
  · intro other
    rw [noted]
    split
    · exact (tracked.spaced ticket).append fun last final => Int.le_trans (waits last final) due
    · exact tracked.spaced other

/-- Retries of different records, one after the other. -/
private theorem Tracked.sendAll (tracked : Tracked delay maxRetries pq d) (env : DispatchEnv)
    (refs : List (JobRef × Nat)) (distinct : (refs.map fun ref => ref.1.cell).Nodup)
    (ready : ∀ ref ∈ refs, 0 ≤ ref.1.cell ∧ pq.live[ref.1.cell.toNat]? = some ref.1 ∧
      ref.1.dueTimeSec ≤ env.nowSec ∧ ref.1.retryCount < maxRetries) :
    Tracked delay maxRetries (refs.foldl (fun pq ref => pq.updateRetry ref.1.cell (ref.1.retryCount + 1)
      (delay (ref.1.retryCount + 1)) (env.updateSec ref.2)) pq) (refs.foldl (Deliveries.send env) d) := by
  induction refs generalizing pq d with
  | nil => exact tracked
  | cons ref refs ih =>
    obtain ⟨natural, placed, due, left⟩ := ready ref List.mem_cons_self
    obtain ⟨fresh, distinct⟩ := List.nodup_cons.mp distinct
    have inside : ref.1.cell.toNat < pq.liveCount :=
      ProcessQueue.length_live tracked.valid ▸ (List.getElem?_eq_some_iff.mp placed).1
    refine ih (tracked.send natural placed due left) distinct fun other member => ?_
    obtain ⟨otherNatural, otherPlaced, rest⟩ := ready other (List.mem_cons_of_mem _ member)
    refine ⟨otherNatural, ?_, rest⟩
    -- the other records are as they were read
    have apart : other.1.cell.toNat ≠ ref.1.cell.toNat := by
      intro same
      refine fresh (List.mem_map.mpr ⟨other, member, ?_⟩)
      show other.1.cell = ref.1.cell
      omega
    have live := ProcessQueue.getElem?_live_updateRetry inside (ref.1.retryCount + 1)
      (delay (ref.1.retryCount + 1)) (env.updateSec ref.2) other.1.cell.toNat
    rw [Int.toNat_of_nonneg natural, if_neg apart] at live
    exact live.trans otherPlaced

/-- Removed records take their tickets with them. -/
private theorem Tracked.remove (tracked : Tracked delay maxRetries pq d) (cells : List JobRef)
    (natural : ∀ ref ∈ cells, 0 ≤ ref.cell) :
    Tracked delay maxRetries (pq.removeCells cells)
      { d with queue := swapRemoveAll d.queue (cells.map fun ref => ref.cell.toNat) } := by
  have moved := ProcessQueue.map_live_removeCells (fun job => (job.retryCount, job.dueTimeSec)) (fun _ _ => rfl)
    cells tracked.valid natural
  have aligned : d.queue.length = (pq.live.map fun job => (job.retryCount, job.dueTimeSec)).length := by
    rw [List.length_map]
    exact tracked.aligned
  obtain ⟨length, pairs⟩ := @swapRemoveAll_pair _ _ _ _ (cells.map fun ref => ref.cell.toNat) aligned
  refine ⟨ProcessQueue.removeCells_valid cells tracked.valid, ?_, swapRemoveAll_nodup _ tracked.distinct,
    fun ticket member => tracked.born ticket (mem_of_mem_swapRemoveAll member), ?_, tracked.unborn, tracked.bounded,
    tracked.spaced⟩
  · rw [← List.length_map (fun job : JobRef => (job.retryCount, job.dueTimeSec)), moved]
    exact length
  · intro k record ticket here there
    have bare : ((pq.removeCells cells).live.map fun job => (job.retryCount, job.dueTimeSec))[k]? =
        some (record.retryCount, record.dueTimeSec) := by
      rw [List.getElem?_map, here]
      rfl
    rw [moved] at bare
    obtain ⟨k', named, was⟩ := pairs k ticket _ there bare
    rw [List.getElem?_map] at was
    obtain ⟨old, found, same⟩ := Option.map_eq_some_iff.mp was
    obtain ⟨counted, waits⟩ := tracked.attached k' old ticket found named
    obtain ⟨retries, due⟩ := Prod.mk.inj same
    exact ⟨retries ▸ counted, due ▸ waits⟩

end Steps

/-! ### One step -/

theorem sentRefs_subset {p : Partition} {env : DispatchEnv} {ref : JobRef} (member : ref ∈ p.sentRefs env) :
    ref ∈ p.itemsRead env ∧ removable p.jobStore p.config.maxRetries ref = false := by
  unfold sentRefs at member
  split at member
  · simpa using member
  · cases member

theorem sentRefs_cells_nodup {p : Partition} (env : DispatchEnv) (valid : p.processQueue.Valid) :
    ((p.sentRefs env).map JobRef.cell).Nodup := by
  unfold sentRefs
  split
  · exact (itemsRead_cells_nodup env valid).sublist (List.filter_sublist.map _)
  · exact List.nodup_nil

theorem map_cell_zipIdx (refs : List JobRef) : refs.zipIdx.map (fun ref => ref.1.cell) = refs.map JobRef.cell := by
  rw [← List.zipIdx_map_fst 0 refs, List.map_map]
  simp

/-- The queue after a dispatch: retries are noted, then dead records removed. -/
theorem dispatch_queue {p p' : Partition} {env : DispatchEnv} {sent : Option SentBatch}
    (ok : p.dispatch env = .ok (p', sent)) : p'.config = p.config ∧
      p'.processQueue = (p.updateRetries (p.sentRefs env) env.updateSec).removeCells
        ((p.itemsRead env).filter (removable p.jobStore p.config.maxRetries)) := by
  unfold sentRefs
  rw [ok]
  unfold dispatch at ok
  unfold itemsRead
  split at ok
  · cases ok
  · rename_i selected
    cases ok
    rw [selected]
    exact ⟨rfl, rfl⟩
  · rename_i pm proxyID items selected
    rw [selected]
    obtain ⟨c, classified, spec⟩ := classify_spec { p with proxyMap := pm } items
    have removed : c.removeCells = items.filter (removable p.jobStore p.config.maxRetries) := by
      simpa using spec.removed
    have kept : c.validRefs = items.filter fun item => !removable p.jobStore p.config.maxRetries item := by
      simpa using spec.kept
    unfold dispatchItems at ok
    simp only [classified] at ok
    split at ok
    · cases ok
      rw [removed, kept]
      exact ⟨rfl, rfl⟩
    · cases ok
      rw [removed]
      exact ⟨rfl, rfl⟩

private theorem calculateRetryDelaySec_congr {p p' : Partition} (config : p'.config = p.config) :
    p'.calculateRetryDelaySec = p.calculateRetryDelaySec := by
  funext retryCount
  unfold calculateRetryDelaySec
  rw [config]

/-- The invariant of a partition and its observer. -/
def Followed (p : Partition) (d : Deliveries) : Prop :=
  Tracked p.calculateRetryDelaySec p.config.maxRetries p.processQueue d

private theorem Followed.of_same {p p' : Partition} {d : Deliveries} (followed : Followed p d)
    (config : p'.config = p.config) (queue : p'.processQueue = p.processQueue) : Followed p' d := by
  unfold Followed
  rw [calculateRetryDelaySec_congr config, config, queue]
  exact followed

private theorem Followed.dispatch {p p' : Partition} {d : Deliveries} {env : DispatchEnv} {sent : Option SentBatch}
    (followed : Followed p d) (ok : p.dispatch env = .ok (p', sent)) : Followed p' (d.dispatch p env) := by
  obtain ⟨config, queue⟩ := dispatch_queue ok
  have live : ∀ ref ∈ p.itemsRead env, 0 ≤ ref.cell ∧ p.processQueue.live[ref.cell.toNat]? = some ref :=
    fun ref member => (ProcessQueue.mem_live followed.valid).mp (itemsRead_live member)
  have noted := followed.sendAll env (p.sentRefs env).zipIdx
    (map_cell_zipIdx _ ▸ sentRefs_cells_nodup env followed.valid) fun ref member => by
      obtain ⟨read, stays⟩ := sentRefs_subset (List.fst_mem_of_mem_zipIdx member)
      obtain ⟨natural, placed⟩ := live ref.1 read
      refine ⟨natural, placed, itemsRead_due read, ?_⟩
      obtain ⟨alive, unspent⟩ := Bool.or_eq_false_iff.mp stays
      simpa [exhausted, alive] using unspent
  have removed := noted.remove ((p.itemsRead env).filter (removable p.jobStore p.config.maxRetries)) fun ref member =>
    (live ref (List.mem_filter.mp member).1).1
  unfold Followed
  rw [calculateRetryDelaySec_congr config, config, queue]
  exact removed

private theorem Followed.addJob {p p' : Partition} {d : Deliveries} {job : Job} {clock : Clock}
    {outcome : AddOutcome} (followed : Followed p d) (ok : p.addJob job clock = .ok (p', outcome)) :
    Followed p' ((acceptedJobs [(job.id, outcome)]).foldl Deliveries.accept d) := by
  unfold Partition.addJob at ok
  split at ok
  · cases ok
    exact followed
  · split at ok
    · cases ok
    · cases ok
      exact followed
    · rename_i idx js created
      split at ok
      · rename_i queued
        cases ok
        obtain ⟨grown, valid, _⟩ := ProcessQueue.addNewJob_live followed.valid queued
        exact Tracked.accept followed valid grown rfl (job.id, idx)
      · split at ok
        · cases ok
        · cases ok
          exact followed

private theorem Followed.addJobs {p p' : Partition} {d : Deliveries} {jobs : List Job} {clock : Nat → Clock}
    {outcomes : List (String × AddOutcome)} (followed : Followed p d)
    (ok : p.addJobs jobs clock = .ok (p', outcomes)) :
    Followed p' ((acceptedJobs outcomes).foldl Deliveries.accept d) := by
  induction jobs generalizing p d clock outcomes with
  | nil =>
    cases ok
    exact followed
  | cons job jobs ih =>
    obtain ⟨middle, outcome, rest, first, others, rfl⟩ := addJobs_cons ok
    have after := ih (followed.addJob first) others
    rwa [← List.foldl_append, acceptedJobs, acceptedJobs, ← List.filterMap_append] at after

theorem followed_step {s s' : Partition × Deliveries} {op : Op} (followed : Followed s.1 s.2)
    (step : ObservedStep Deliveries.record s op s') : Followed s'.1 s'.2 := by
  obtain ⟨p, d⟩ := s
  obtain ⟨p', d'⟩ := s'
  obtain ⟨effect, ok, rfl⟩ := step
  cases step_ran ok with
  | addJobs _ _ added => exact followed.addJobs added
  | done | drop => exact followed.of_same rfl rfl
  | ignored | unflushed => exact followed
  | dispatch run => exact followed.dispatch run
  | flush _ run =>
    obtain ⟨_, _, _, _, _, rfl, _⟩ := flushDLQ_ran run
    exact followed.of_same rfl rfl
  | proxies _ idle _ =>
    have quiet : Deliveries.record d p op {} = d := by
      cases op with
      | dispatch env => exact absurd rfl (idle env)
      | command | flush | topology | heartbeat | cleanup => rfl
    rw [quiet]
    exact followed.of_same rfl rfl

/-! ### Whole runs -/

theorem followed_new (topic : String) (config : PartitionConfig) (nowMilli : Int) :
    Followed (new topic config nowMilli) {} where
  valid := ProcessQueue.new_valid _
  aligned := by simp [new]
  distinct := List.nodup_nil
  born := by simp
  attached := by simp
  unborn := fun _ _ => rfl
  bounded := fun _ => Nat.zero_le _
  spaced := by simp [Spaced]

/-- Along every run each record is sent at most `maxRetries` times, as often as
its retry count says, and not again before the retry delay has passed. -/
theorem retries_bounded_and_spaced {topic : String} {config : PartitionConfig} {nowMilli : Int} {ops : List Op}
    {s : Partition × Deliveries}
    (run : ObservedRun Deliveries.record (fun _ _ => True) topic config nowMilli {} ops s) : RetriesKept s := by
  have followed : Followed s.1 s.2 := by
    refine Run.invariant (s := s) (fun _ s => Followed s.1 s.2) ?_ ?_ run
    · exact followed_new topic config nowMilli
    · rintro _ s op s' followed _ step
      exact followed_step followed step
  refine ⟨followed.aligned, followed.distinct, ?_, followed.bounded, followed.spaced, ?_⟩
  · intro k record ticket here named
    exact (followed.attached k record ticket here named).counted
  · intro env p' batch sent
    refine ⟨?_, fun ref member => ?_⟩
    · rw [dispatch_sent sent, sentRefs, sent]
    · exact ((ProcessQueue.mem_live followed.valid).mp (itemsRead_live (sentRefs_subset member).1)).2

/-! A job is sent twice with a swap-remove in between: the record before it in
the queue is removed once its job is done. -/

private def retryOps : List Op :=
  let add (id : String) : Op :=
    .command { type := .addJobs, addJobs := some ⟨"orders", [⟨id, "orders", [1], false, 0⟩]⟩ } fun _ => ⟨1000, 1⟩
  let due (nowSec : Int) : Op := .dispatch ⟨73, 0, nowSec, true, true, fun _ => nowSec⟩
  [ .topology (.add "proxy" (some ⟨0, 4⟩)),
    .heartbeat { proxyID := "proxy", topic := "orders", consumptionScore := 1, timestamp := 0 },
    add "a", add "b", due 1,
    .command { type := .done, done := some ⟨"orders", ["a"]⟩ } fun _ => ⟨2000, 2⟩, due 4 ]

private theorem retry_executes :
    (observe Deliveries.record (fun _ _ => True) "orders" ⟨4, 3, 20, 4, 1000, 1000⟩ 0 {} retryOps).isSome = true := rfl

theorem retries_spaced_after_removal :
    (Option.get _ retry_executes).1.processQueue.live.map JobRef.cell = [0] ∧
      (Option.get _ retry_executes).2.sends 1 = [⟨1, 1⟩, ⟨4, 4⟩] ∧ RetriesKept (Option.get _ retry_executes) :=
  ⟨by decide, by decide, retries_bounded_and_spaced (observe_run retry_executes)⟩

end Cue.State.Partition
