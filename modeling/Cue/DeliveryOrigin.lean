import Cue.JobAccounting
import Cue.Lib.Origin
import Cue.ProxyAvailability
import Cue.TopologyConvergence

/-! Where a delivery comes from. A batch that a partition hands to a proxy has
been through the store, the queue and the map of proxies, in which slots are used
again, records move and proxies come and go. Whatever happens there, the jobs and
the proxy of a batch are what the operations of the run so far say. -/
namespace Cue.State
open Cue.Lib Cue.Model

namespace ProxyMap

variable {pm pm' : ProxyMap} {id : String}

/-- Whom the search finds has consumers. -/
theorem findAvailable_some {start left : Nat} {consumers : Int} {idx : Nat}
    (found : pm.findAvailable start left = .ok (some (id, consumers, idx))) :
    ∃ state, pm.proxies.get id = some state ∧ 0 < state.consumers := by
  induction left generalizing start with
  | zero => cases found
  | succ left ih =>
    unfold findAvailable at found
    split at found
    · cases found
    · split at found
      · cases found
      · rename_i state stored
        split at found
        · rename_i positive
          cases found
          exact ⟨state, stored, positive⟩
        · exact ih found

theorem getNextAvailable_some {consumers : Int}
    (next : pm.getNextAvailable = .ok (some (id, consumers), pm')) :
    ∃ state, pm.proxies.get id = some state ∧ 0 < state.consumers := by
  unfold getNextAvailable at next
  split at next
  · cases next
  · cases next
  · rename_i found
    cases next
    exact findAvailable_some found

theorem getNextAvailable_proxies {answer : Option (String × Int)}
    (next : pm.getNextAvailable = .ok (answer, pm')) : pm'.proxies = pm.proxies := by
  unfold getNextAvailable at next
  split at next <;> cases next <;> rfl

end ProxyMap

namespace Partition

section Jobs

variable {p p' : Partition} {op : Op} {effect : Effect} {id : String} {job : Job}

/-- The job of this ID that is there and not done. -/
def openJob (p : Partition) (id : String) : Option Job := (p.jobStore.view id).filter fun job => !job.done

theorem openJob_eq_some : p.openJob id = some job ↔ p.jobStore.view id = some job ∧ job.done = false := by
  simp [openJob, Option.filter_eq_some_iff]

/-- The command adds the job, which gets its creation time from the clock if it has none. -/
def Op.Posts (op : Op) (job : Job) : Prop :=
  ∃ cmd clock payload i original, op = .command cmd clock ∧ cmd.type = .addJobs ∧ cmd.addJobs = some payload ∧
    payload.jobs[i]? = some original ∧ original.done = false ∧ job = stamped original (clock i).nowMilli

/-- What is open after a batch was open before, or is a job of the batch. -/
theorem addJobs_openJob {jobs : List Job} {clock : Nat → Clock} {outcomes : List (String × AddOutcome)}
    (valid : p.Valid) (slots : p.jobStore.jobs.length + jobs.length < 2 ^ 32)
    (ok : p.addJobs jobs clock = .ok (p', outcomes)) (shown : p'.openJob id = some job) :
    p.openJob id = some job ∨
      ∃ i original, jobs[i]? = some original ∧ original.done = false ∧ job = stamped original (clock i).nowMilli := by
  induction jobs generalizing p clock outcomes with
  | nil =>
    cases ok
    exact .inl shown
  | cons first jobs ih =>
    obtain ⟨middle, outcome, rest, taken, others, -⟩ := addJobs_cons ok
    rw [List.length_cons] at slots
    have added := addJob_spec valid (by omega) taken
    have bound := added.length
    rcases ih (added.valid valid) (by omega) others with earlier | ⟨i, original, found, unflagged, same⟩
    · cases added with
      | alreadyDone | duplicate => exact .inl earlier
      | queueFull _ _ refused =>
        rw [openJob_eq_some, refused.view] at earlier
        exact .inl (openJob_eq_some.mpr earlier)
      | accepted unflagged created =>
        rw [openJob_eq_some, JobStore.created_view created] at earlier
        obtain ⟨held, pending⟩ := earlier
        rw [Function.update_apply] at held
        split at held
        · cases held
          exact .inr ⟨0, first, rfl, unflagged, rfl⟩
        · exact .inl (openJob_eq_some.mpr ⟨held, pending⟩)
    · exact .inr ⟨i + 1, original, found, unflagged, same⟩

/-- A step opens a job only by adding it, and closes those it finishes. -/
theorem step_openJob (valid : p.Valid) (fits : p.Fits op) (ok : p.step op = .ok (p', effect))
    (shown : p'.openJob id = some job) : op.Posts job ∨ p.openJob id = some job ∧ id ∉ op.finishes := by
  cases step_spec valid ok with
  | @addJobs cmd clock payload _ _ type carried added =>
    have slots : p.jobStore.jobs.length + payload.jobs.length < 2 ^ 32 := by
      simpa [Fits, Op.adds, type, carried] using fits
    rcases addJobs_openJob valid slots added shown with earlier | ⟨i, original, found, unflagged, same⟩
    · exact .inr ⟨earlier, by simp [Op.finishes, type]⟩
    · exact .inl ⟨cmd, clock, payload, i, original, rfl, type, carried, found, unflagged, same⟩
  | @done cmd clock payload js type carried finished =>
    obtain ⟨held, pending⟩ := openJob_eq_some.mp shown
    change _ = _ at held
    rw [finished.view] at held
    obtain ⟨before, found, rfl⟩ := Option.map_eq_some_iff.mp held
    have named := JobStore.view_id valid.store found
    -- a job that is named would be flagged
    have spared : before.id ∉ payload.jobIDs := by
      intro member
      rw [marked, if_pos member] at pending
      cases pending
    rw [marked, if_neg spared] at pending ⊢
    refine .inr ⟨openJob_eq_some.mpr ⟨found, pending⟩, ?_⟩
    simpa [Op.finishes, type, carried, ← named] using spared
  | drop type carried dropped =>
    obtain ⟨held, pending⟩ := openJob_eq_some.mp shown
    change _ = _ at held
    rw [dropped.view] at held
    split at held
    · cases held
    · rename_i spared
      exact .inr ⟨openJob_eq_some.mpr ⟨held, pending⟩, by simpa [Op.finishes, type, carried] using spared⟩
  | ignored nothing unfinished undropped =>
    refine .inr ⟨shown, ?_⟩
    simp only [Op.finishes]
    split
    · rename_i type
      simp [unfinished type]
    · rename_i type
      simp [undropped type]
    · simp
  | dispatch dispatched =>
    rw [openJob_eq_some, dispatched.jobStore] at shown
    exact .inr ⟨openJob_eq_some.mpr shown, by simp [Op.finishes]⟩
  | flush needed flushed =>
    obtain ⟨held, pending⟩ := openJob_eq_some.mp shown
    have before := (flushed.swept.view_pending id job pending).mp held
    exact .inr ⟨openJob_eq_some.mpr ⟨before, pending⟩, by simp [Op.finishes]⟩
  | unflushed => exact .inr ⟨shown, by simp [Op.finishes]⟩
  | proxies proxy =>
    refine .inr ⟨shown, ?_⟩
    cases op with
    | command cmd clock => exact absurd rfl (proxy cmd clock)
    | dispatch | flush | topology | heartbeat | cleanup => simp [Op.finishes]

/-- The jobs of a batch are open. -/
theorem dispatch_open {env : DispatchEnv} {batch : SentBatch} (valid : p.Valid)
    (sent : p.dispatch env = .ok (p', some batch)) (member : job ∈ batch.jobs) : p.openJob job.id = some job := by
  have listed : some job ∈ batch.jobs.map some := List.mem_map_of_mem member
  rw [dispatch_sent sent] at listed
  obtain ⟨item, stays, found⟩ := List.mem_map.mp listed
  obtain ⟨-, stays⟩ := List.mem_filter.mp stays
  have pending : job.done = false := by
    by_contra flagged
    simp [removable, dead, found, flagged] at stays
  exact openJob_eq_some.mpr ⟨(JobStore.get_view valid.store found).2, pending⟩

end Jobs

section Proxies

variable {p p' : Partition} {op : Op} {effect : Effect} {env : DispatchEnv} {id : String} {state : ProxyState}

/-- The node leads, the proxy has consumers, and there is a channel to it. -/
def Reaches (p : Partition) (env : DispatchEnv) (id : String) : Prop :=
  clusterNodeStatusFromUint32 env.status = .leaderActive ∧
    (∃ state, p.proxyMap.proxies.get id = some state ∧ 0 < state.consumers) ∧
      ∃ pushCh, p.proxyPushChs.get id = some pushCh

theorem selectBatch_proxies {pm : ProxyMap} {selection : Option (String × List JobRef)}
    (selected : p.selectBatch env = .ok (pm, selection)) :
    pm.proxies = p.proxyMap.proxies ∧ ∀ id items, selection = some (id, items) → p.Reaches env id := by
  unfold selectBatch at selected
  split at selected
  · cases selected
    exact ⟨rfl, by simp⟩
  · rename_i leads
    split at selected
    · cases selected
    · rename_i next
      cases selected
      exact ⟨ProxyMap.getNextAvailable_proxies next, by simp⟩
    · rename_i next
      have same := ProxyMap.getNextAvailable_proxies next
      dsimp only at selected
      split at selected
      · cases selected
        exact ⟨same, by simp⟩
      · split at selected
        · cases selected
          exact ⟨same, by simp⟩
        · rename_i pushCh connected
          split at selected
          · cases selected
            exact ⟨same, by simp⟩
          · simp only [Except.ok.injEq, Prod.mk.injEq] at selected
            obtain ⟨rfl, rfl⟩ := selected
            refine ⟨same, fun id items chosen => ?_⟩
            split at chosen
            · cases chosen
            · cases chosen
              exact ⟨not_not.mp fun other => leads (.inl other), ProxyMap.getNextAvailable_some next, pushCh, connected⟩

theorem dispatch_proxies {sent : Option SentBatch} (ok : p.dispatch env = .ok (p', sent)) :
    p'.proxyMap.proxies = p.proxyMap.proxies ∧ ∀ batch, sent = some batch → p.Reaches env batch.proxyID := by
  unfold dispatch at ok
  split at ok
  · cases ok
  · rename_i selected
    cases ok
    exact ⟨(selectBatch_proxies selected).1, by simp⟩
  · rename_i selected
    obtain ⟨same, reaches⟩ := selectBatch_proxies selected
    unfold dispatchItems at ok
    split at ok
    · cases ok
    · dsimp only at ok
      split at ok
      · cases ok
        exact ⟨same, fun batch mine => Option.some.inj mine ▸ reaches _ _ rfl⟩
      · cases ok
        exact ⟨same, by simp⟩

/-- Adding jobs changes the store and the queue only. -/
theorem addJobs_frame {jobs : List Job} {clock : Nat → Clock} {outcomes : List (String × AddOutcome)}
    (ok : p.addJobs jobs clock = .ok (p', outcomes)) :
    p' = { p with jobStore := p'.jobStore, processQueue := p'.processQueue } := by
  induction jobs generalizing p clock outcomes with
  | nil =>
    cases ok
    rfl
  | cons job jobs ih =>
    obtain ⟨middle, outcome, rest, first, others, rfl⟩ := addJobs_cons ok
    rw [ih others]
    unfold addJob at first
    repeat' split at first
    all_goals cases first
    all_goals rfl

theorem step_topic (ok : p.step op = .ok (p', effect)) : p'.topic = p.topic := by
  cases step_ran ok with
  | addJobs _ _ added => rw [addJobs_frame added]
  | dispatch run =>
    unfold dispatch dispatchItems at run
    repeat' split at run
    all_goals cases run
    all_goals rfl
  | flush _ run =>
    obtain ⟨_, _, _, _, _, rfl, _⟩ := flushDLQ_ran run
    rfl
  | done | drop | ignored | unflushed | proxies => rfl

/-- The loops of a clean-up visit the proxies that the map then has. -/
def Visits (p : Partition) : Op → Prop
  | .cleanup now order rebuildOrder => p.proxyMap.Admits (.cleanupStale now 5 order rebuildOrder)
  | _ => True

instance (p : Partition) (op : Op) : Decidable (p.Visits op) :=
  match op with
  | .cleanup now order rebuildOrder =>
    match dropped : ProxyMap.dropStale now (int64 (5 * 1000)) order (p.proxyMap, false) with
    | .error _ => decidable_of_iff (order.Perm p.proxyMap.proxies.keys)
        ⟨fun all => ⟨all, fun _ _ ok => by cases dropped.symm.trans ok⟩, And.left⟩
    | .ok (left, _) => decidable_of_iff (order.Perm p.proxyMap.proxies.keys ∧ rebuildOrder.Perm left.proxies.keys)
        ⟨fun ⟨all, rest⟩ => ⟨all, fun _ _ ok => by
          cases dropped.symm.trans ok
          exact rest⟩, fun ⟨all, rest⟩ => ⟨all, rest _ _ dropped⟩⟩
  | .command _ _ | .dispatch _ | .flush _ _ | .topology _ | .heartbeat _ => isTrue trivial

/-- The report no longer counts: the proxy has reported again, or a clean-up finds it too old. -/
def Op.Outdates (topic id : String) (state : ProxyState) : Op → Prop
  | .heartbeat hb => hb.topic = topic ∧ hb.proxyID = id
  | .cleanup now _ _ => ProxyMap.Stale now 5 state
  | _ => False

/-- A report is what a heartbeat of the topic said, until it is outdated. -/
theorem step_report (visits : p.Visits op) (ok : p.step op = .ok (p', effect))
    (shown : p'.proxyMap.proxies.get id = some state) :
    (∃ hb, op = .heartbeat hb ∧ hb.topic = p.topic ∧ hb.proxyID = id ∧
      state = ⟨hb.consumptionScore, hb.timestamp⟩) ∨
    p.proxyMap.proxies.get id = some state ∧ ¬op.Outdates p.topic id state := by
  cases op with
  | command cmd clock =>
    refine .inr ⟨?_, not_false⟩
    cases step_ran ok with
    | addJobs _ _ added => rwa [addJobs_frame added] at shown
    | done | drop | ignored => exact shown
    | proxies proxy _ _ => exact absurd rfl (proxy cmd clock)
  | dispatch env =>
    refine .inr ⟨?_, not_false⟩
    cases step_ran ok with
    | dispatch run => rwa [(dispatch_proxies run).1] at shown
    | proxies _ idle _ => exact absurd rfl (idle env)
  | flush now room =>
    refine .inr ⟨?_, not_false⟩
    cases step_ran ok with
    | flush _ run =>
      obtain ⟨_, _, _, _, _, rfl, _⟩ := flushDLQ_ran run
      exact shown
    | unflushed => exact shown
    | proxies _ _ steady => exact absurd rfl (steady now room)
  | topology update =>
    refine .inr ⟨?_, not_false⟩
    cases ok
    rcases update with ⟨proxyID, _ | pushCh⟩ | proxyID <;> exact shown
  | heartbeat hb =>
    obtain ⟨q, run, rest⟩ := bind_ok ok
    cases rest
    unfold handleHeartbeat at run
    split at run
    · rename_i foreign
      cases run
      exact .inr ⟨shown, fun outdated => foreign outdated.1⟩
    · rename_i own
      split at run
      · cases run
      · rename_i updated
        cases run
        have own : hb.topic = p.topic := not_not.mp own
        rw [ProxyMap.update_proxies updated, FinMap.get_set] at shown
        split at shown
        · rename_i here
          cases shown
          exact .inl ⟨hb, rfl, own, here.symm, rfl⟩
        · rename_i other
          exact .inr ⟨shown, fun outdated => other outdated.2.symm⟩
  | cleanup now order rebuildOrder =>
    obtain ⟨q, run, rest⟩ := bind_ok ok
    cases rest
    unfold cleanupProxyMap at run
    split at run
    · cases run
    · rename_i cleaned
      cases run
      rw [@ProxyMap.perform_refines _ _ (.cleanupStale now 5 order rebuildOrder) visits cleaned] at shown
      obtain ⟨reported, recent⟩ := Option.filter_eq_some_iff.mp shown
      have recent : ¬ProxyMap.Stale now 5 state := by simpa using recent
      exact .inr ⟨reported, recent⟩

/-- A channel is the one of the last update about the proxy that brought one. -/
theorem step_pushCh {pushCh : PushCh} (ok : p.step op = .ok (p', effect))
    (shown : p'.proxyPushChs.get id = some pushCh) :
    op = .topology (.add id (some pushCh)) ∨ p.proxyPushChs.get id = some pushCh ∧ op ≠ .topology (.remove id) := by
  cases op with
  | topology update =>
    cases ok
    rw [handleTopologyUpdate_proxyPushChs] at shown
    by_cases about : id = update.proxyID
    · subst about
      rcases update with ⟨proxyID, _ | other⟩ | proxyID
      · exact .inr ⟨shown, by simp⟩
      · simp only [learn, TopologyUpdate.proxyID, FinMap.get_set_self, Option.some.injEq] at shown
        exact .inl (by rw [shown]; rfl)
      · simp [learn, TopologyUpdate.proxyID, FinMap.get_delete] at shown
    · rw [get_learn_of_ne _ about] at shown
      refine .inr ⟨shown, fun removes => about ?_⟩
      cases removes
      rfl
  | command | dispatch | flush | heartbeat | cleanup =>
    rw [step_proxyPushChs ok (by simp)] at shown
    exact .inr ⟨shown, by simp⟩

end Proxies

section Runs

variable {G : Type} {watch : G → Partition → Op → Effect → G} {topic : String} {config : PartitionConfig}
  {nowMilli : Int} {seen : G} {ops : List Op} {s : Partition × G} {env : DispatchEnv} {after : Partition}
  {batch : SentBatch}

theorem run_valid {admits : Partition → Op → Prop} (fits : ∀ p op, admits p op → p.Fits op)
    (run : ObservedRun watch admits topic config nowMilli seen ops s) : s.1.Valid := by
  refine run.invariant (fun _ s => s.1.Valid) (new_valid topic config nowMilli) ?_
  rintro _ s op s' valid admitted ⟨effect, ok, -⟩
  exact (step_spec valid ok).valid valid (fits _ _ admitted)

/-- No job is delivered that nobody has added, nor one that was finished since:
the job stands in an earlier `AddJobs` command, unflagged and with the content it
is delivered with, and no `Done` or `Drop` command behind it names its ID. -/
theorem delivered_jobs_were_added (run : ObservedRun watch Fits topic config nowMilli seen ops s)
    (sent : s.1.dispatch env = .ok (after, some batch)) :
    ∀ job ∈ batch.jobs, ∃ before op behind, ops = before ++ op :: behind ∧ op.Posts job ∧
      ∀ later ∈ behind, job.id ∉ later.finishes := by
  intro job member
  have shown := dispatch_open (run_valid (fun _ _ => id) run) sent member
  refine run.origin (fun s => s.1.openJob job.id) Op.Posts (fun op _ => job.id ∈ op.finishes) ?_ ?_ shown
  · simp [openJob, new, JobStore.view, JobStore.new]
  · rintro ops s op s' v run fits ⟨effect, ok, -⟩ shown
    exact step_openJob (run_valid (fun _ _ => id) run) fits ok shown

theorem run_topic {admits : Partition → Op → Prop}
    (run : ObservedRun watch admits topic config nowMilli seen ops s) : s.1.topic = topic := by
  refine run.invariant (fun _ s => s.1.topic = topic) rfl ?_
  rintro _ s op s' same - ⟨effect, ok, -⟩
  exact (step_topic ok).trans same

/-! A job is added, dropped and added again with another content. It takes the slot that
the record of the first one still refers to, so it is in the batch twice. -/

private def originOps : List Op :=
  let add (data : Bytes) : Op :=
    .command { type := .addJobs, addJobs := some ⟨"orders", [⟨"a", "orders", data, false, 0⟩]⟩ } fun _ => ⟨1000, 1⟩
  [ .topology (.add "proxy" (some ⟨0, 4⟩)),
    .heartbeat { proxyID := "proxy", topic := "orders", consumptionScore := 1, timestamp := 0 },
    .cleanup 1000 ["proxy"] ["proxy"], add [1],
    .command { type := .drop, drop := some ⟨"orders", ["a"]⟩ } fun _ => ⟨2000, 2⟩, add [2] ]

private def originConfig : PartitionConfig := ⟨4, 3, 20, 4, 1000, 1000⟩

private def originEnv : DispatchEnv := ⟨73, 0, 2, true, true, fun _ => 2⟩

private theorem origin_executes :
    (observe (fun (_ : Unit) _ _ _ => ()) Fits "orders" originConfig 0 () originOps).isSome = true := rfl

private def readded : Job := ⟨"a", "orders", [2], false, 1000⟩

private theorem origin_sends : ∃ after,
    (Option.get _ origin_executes).1.dispatch originEnv = .ok (after, some ⟨"proxy", [readded, readded]⟩) := ⟨_, rfl⟩

theorem readded_job_delivered :
    ∃ before op behind, originOps = before ++ op :: behind ∧ op.Posts readded ∧
      ∀ later ∈ behind, readded.id ∉ later.finishes := by
  obtain ⟨after, sent⟩ := origin_sends
  exact delivered_jobs_were_added (observe_run origin_executes) sent readded List.mem_cons_self

/-- A batch goes out only from a leader, to a proxy that is connected and whose
last report on the topic has consumers: no later report replaced it, and no
clean-up found it too old. -/
theorem delivered_to_reporting_proxy
    (run : ObservedRun watch (fun p op => p.Visits op) topic config nowMilli seen ops s)
    (sent : s.1.dispatch env = .ok (after, some batch)) :
    clusterNodeStatusFromUint32 env.status = .leaderActive ∧
      (∃ before hb behind, ops = before ++ .heartbeat hb :: behind ∧ hb.topic = topic ∧ hb.proxyID = batch.proxyID ∧
        0 < hb.consumptionScore ∧
        ∀ later ∈ behind, ¬later.Outdates topic batch.proxyID ⟨hb.consumptionScore, hb.timestamp⟩) ∧
      ∃ before pushCh behind, ops = before ++ .topology (.add batch.proxyID (some pushCh)) :: behind ∧
        .topology (.remove batch.proxyID) ∉ behind := by
  obtain ⟨leads, ⟨state, reported, positive⟩, pushCh, connected⟩ := (dispatch_proxies sent).2 batch rfl
  refine ⟨leads, ?_, ?_⟩
  · obtain ⟨before, op, behind, rfl, ⟨hb, rfl, own, about, rfl⟩, recent⟩ :=
      run.origin (fun s => s.1.proxyMap.proxies.get batch.proxyID)
        (fun op state => ∃ hb, op = .heartbeat hb ∧ hb.topic = topic ∧ hb.proxyID = batch.proxyID ∧
          state = ⟨hb.consumptionScore, hb.timestamp⟩)
        (fun op state => op.Outdates topic batch.proxyID state) rfl
        (by
          rintro ops s op s' v run visits ⟨effect, ok, -⟩ shown
          have here := step_report visits ok shown
          rwa [run_topic run] at here) reported
    exact ⟨before, hb, behind, rfl, own, about, positive, recent⟩
  · obtain ⟨before, op, behind, rfl, rfl, stays⟩ :=
      run.origin (fun s => s.1.proxyPushChs.get batch.proxyID)
        (fun op pushCh => op = .topology (.add batch.proxyID (some pushCh)))
        (fun op _ => op = .topology (.remove batch.proxyID)) rfl
        (by
          rintro ops s op s' v run - ⟨effect, ok, -⟩ shown
          exact step_pushCh ok shown) connected
    exact ⟨before, pushCh, behind, rfl, fun removed => stays _ removed rfl⟩

private theorem target_executes :
    (observe (fun (_ : Unit) _ _ _ => ()) (fun p op => p.Visits op) "orders" originConfig 0 () originOps).isSome =
      true := rfl

private theorem target_sends : ∃ after,
    (Option.get _ target_executes).1.dispatch originEnv = .ok (after, some ⟨"proxy", [readded, readded]⟩) := ⟨_, rfl⟩

theorem reporting_proxy_served :
    ∃ before hb behind, originOps = before ++ .heartbeat hb :: behind ∧ hb.topic = "orders" ∧ hb.proxyID = "proxy" ∧
      0 < hb.consumptionScore ∧
      ∀ later ∈ behind, ¬later.Outdates "orders" "proxy" ⟨hb.consumptionScore, hb.timestamp⟩ := by
  obtain ⟨after, sent⟩ := target_sends
  exact (delivered_to_reporting_proxy (observe_run target_executes) sent).2.1

end Runs

end Partition
end Cue.State
