import Cue.BatchAdmission

/-! Two replicas of one partition. Both are given the same commands in the same
order, and between them each does what it likes of its own: dispatching,
flushing, following its proxies.

- `Agree` is the property: the same job IDs are stored and pending on both.
- `agree_in_aligned_run` shows it for every run in which each batch of jobs
  finds the two replicas `Aligned`: a new ID is stored on both or on neither,
  and the queues have room for all new IDs, or equally much.
- `dispatch_breaks_agreement` is a run in which only one replica dispatches and
  so has room for a job that the other refuses. -/
namespace Cue.State.Partition
open Cue.Lib Cue.Model

inductive PairOp where
  | command (cmd : Command) (left right : Nat → Clock)
  | left (op : Op)
  | right (op : Op)

/-- Everything but a command comes from the replica's own node. -/
def Op.isLocal : Op → Bool
  | .command _ _ => false
  | _ => true

inductive PairStep : Partition × Partition → PairOp → Partition × Partition → Prop where
  | command {p q p' q' : Partition} {cmd : Command} {left right : Nat → Clock} {shown shown' : Effect}
      (first : p.step (.command cmd left) = .ok (p', shown))
      (second : q.step (.command cmd right) = .ok (q', shown')) :
      PairStep (p, q) (.command cmd left right) (p', q')
  | left {p q p' : Partition} {op : Op} {shown : Effect} (own : op.isLocal = true)
      (step : p.step op = .ok (p', shown)) : PairStep (p, q) (.left op) (p', q)
  | right {p q q' : Partition} {op : Op} {shown : Effect} (own : op.isLocal = true)
      (step : q.step op = .ok (q', shown)) : PairStep (p, q) (.right op) (p, q')

def Agree (p q : Partition) : Prop := ∀ id, p.pending id = q.pending id

/-- Both replicas know the same IDs of the batch, finished jobs included, and
have the same number of free queue cells, as far as the batch can fill them. -/
structure Aligned (p q : Partition) (jobs : List Job) : Prop where
  known : ∀ id ∈ offered jobs, p.jobStore.byID.contains id = q.jobStore.byID.contains id
  room : min p.freeCells (p.newcomers jobs) = min q.freeCells (p.newcomers jobs)

instance (p q : Partition) (jobs : List Job) : Decidable (Aligned p q jobs) :=
  decidable_of_iff
    ((∀ id ∈ offered jobs, p.jobStore.byID.contains id = q.jobStore.byID.contains id) ∧
      min p.freeCells (p.newcomers jobs) = min q.freeCells (p.newcomers jobs))
    ⟨fun ⟨known, room⟩ => ⟨known, room⟩, fun aligned => ⟨aligned.known, aligned.room⟩⟩

/-- One job of an aligned batch does the same on both replicas. -/
private theorem aligned_addJob {p q p' q' : Partition} {job : Job} {jobs : List Job} {left right : Clock}
    {outcome outcome' : AddOutcome} (agree : Agree p q) (aligned : Aligned p q (job :: jobs))
    (first : Added p job left p' outcome) (second : Added q job right q' outcome') :
    Agree p' q' ∧ Aligned p' q' jobs := by
  cases flagged : job.done with
  | true =>
    have still : p' = p := by cases first <;> simp_all
    have still' : q' = q := by cases second <;> simp_all
    subst still still'
    refine ⟨agree, ?_, ?_⟩
    · intro id member
      exact aligned.known id (by simpa [offered, flagged] using member)
    · simpa only [newcomers_flagged flagged] using aligned.room
  | false =>
    have later : ∀ id ∈ offered jobs, id ∈ offered (job :: jobs) := by
      intro id member
      simp only [offered, flagged, Bool.not_false, List.filter_cons_of_pos, List.map_cons]
      exact List.mem_cons_of_mem _ member
    have same := aligned.known job.id (by simp [offered, flagged])
    have room := aligned.room
    rcases added_unflagged flagged first with
      ⟨known, rfl⟩ | ⟨unknown, free, taken, views, names⟩ | ⟨unknown, full, still, views, names⟩
    · rcases added_unflagged flagged second with ⟨_, rfl⟩ | ⟨unknown', _⟩ | ⟨unknown', _⟩
      · refine ⟨agree, fun id member => aligned.known id (later id member), ?_⟩
        rwa [newcomers_known known] at room
      · rw [known, unknown'] at same
        cases same
      · rw [known, unknown'] at same
        cases same
    · have count := newcomers_accepted jobs flagged unknown names
      rcases added_unflagged flagged second with
        ⟨known', rfl⟩ | ⟨_, free', taken', views', names'⟩ | ⟨_, full', _⟩
      · rw [unknown, known'] at same
        cases same
      · refine ⟨?_, ?_, ?_⟩
        · intro id
          rw [views, views', agree id]
        · intro id member
          rw [names, names', aligned.known id (later id member)]
        · rw [taken, taken']
          omega
      · omega
    · have positive := newcomers_pos jobs flagged unknown
      rcases added_unflagged flagged second with
        ⟨known', rfl⟩ | ⟨_, free', _⟩ | ⟨_, full', still', views', names'⟩
      · rw [unknown, known'] at same
        cases same
      · omega
      · refine ⟨?_, ?_, ?_⟩
        · intro id
          rw [views, views', agree id]
        · intro id member
          rw [names, names', aligned.known id (later id member)]
        · rw [still, still']

private theorem aligned_addJobs {p q p' q' : Partition} {jobs : List Job} {left right : Nat → Clock}
    {outcomes outcomes' : List (String × AddOutcome)} (valid : p.Valid) (valid' : q.Valid)
    (slots : p.jobStore.jobs.length + jobs.length < 2 ^ 32)
    (slots' : q.jobStore.jobs.length + jobs.length < 2 ^ 32) (agree : Agree p q)
    (aligned : Aligned p q jobs) (first : p.addJobs jobs left = .ok (p', outcomes))
    (second : q.addJobs jobs right = .ok (q', outcomes')) : Agree p' q' := by
  induction jobs generalizing p q left right outcomes outcomes' with
  | nil =>
    cases first
    cases second
    exact agree
  | cons job jobs ih =>
    obtain ⟨middle, outcome, rest, here, others, rfl⟩ := addJobs_cons first
    obtain ⟨middle', outcome', rest', here', others', rfl⟩ := addJobs_cons second
    simp only [List.length_cons] at slots slots'
    have added := addJob_spec valid (by omega) here
    have added' := addJob_spec valid' (by omega) here'
    have bound := added.length
    have bound' := added'.length
    obtain ⟨agree, aligned⟩ := aligned_addJob agree aligned added added'
    exact ih (added.valid valid) (added'.valid valid') (by omega) (by omega) agree aligned others others'

/-! ### Steps and runs -/

/-- What a replica does on its own leaves the pending jobs alone. -/
theorem pending_local {p p' : Partition} {op : Op} {shown : Effect} (valid : p.Valid)
    (own : op.isLocal = true) (step : p.step op = .ok (p', shown)) (id : String) :
    p'.pending id = p.pending id := by
  cases step_spec valid step with
  | addJobs => cases own
  | done => cases own
  | drop => cases own
  | ignored => rfl
  | dispatch dispatched => exact pending_of_view (by rw [dispatched.jobStore]) id
  | flush _ flushed =>
    unfold pending
    rcases flushed.swept.view id with same | ⟨gone, job, held, done⟩
    · rw [same]
    · simp [gone, held, done]
  | unflushed => rfl
  | proxies => rfl

theorem agree_command {p q p' q' : Partition} {cmd : Command} {left right : Nat → Clock}
    {shown shown' : Effect} (valid : p.Valid) (valid' : q.Valid) (fits : p.Fits (.command cmd left))
    (fits' : q.Fits (.command cmd right)) (aligned : Aligned p q (Op.command cmd left).adds)
    (agree : Agree p q) (first : p.step (.command cmd left) = .ok (p', shown))
    (second : q.step (.command cmd right) = .ok (q', shown')) : Agree p' q' := by
  cases step_spec valid first with
  | @addJobs _ _ payload _ _ type carried added =>
    cases step_spec valid' second with
    | @addJobs _ _ payload' _ _ _ carried' added' =>
      have same : payload = payload' := Option.some.inj (carried.symm.trans carried')
      subst same
      simp only [Fits, Op.adds, type, carried, ↓reduceIte, Option.map_some, Option.getD_some] at fits fits' aligned
      exact aligned_addJobs valid valid' fits fits' agree aligned added added'
    | done type' => simp [type] at type'
    | drop type' => simp [type] at type'
    | ignored nothing => simp [nothing type] at carried
    | proxies command => exact absurd rfl (command _ _)
  | @done _ _ payload _ type carried finished =>
    cases step_spec valid' second with
    | addJobs type' => simp [type] at type'
    | @done _ _ payload' _ _ carried' finished' =>
      have same : payload = payload' := Option.some.inj (carried.symm.trans carried')
      subst same
      intro id
      rw [pending_done valid finished, pending_done valid' finished', agree id]
    | drop type' => simp [type] at type'
    | ignored _ nothing => simp [nothing type] at carried
    | proxies command => exact absurd rfl (command _ _)
  | @drop _ _ payload _ type carried dropped =>
    cases step_spec valid' second with
    | addJobs type' => simp [type] at type'
    | done type' => simp [type] at type'
    | @drop _ _ payload' _ _ carried' dropped' =>
      have same : payload = payload' := Option.some.inj (carried.symm.trans carried')
      subst same
      intro id
      rw [pending_drop dropped, pending_drop dropped', agree id]
    | ignored _ _ nothing => simp [nothing type] at carried
    | proxies command => exact absurd rfl (command _ _)
  | ignored nothing unfinished undropped =>
    cases step_spec valid' second with
    | addJobs type carried => simp [nothing type] at carried
    | done type carried => simp [unfinished type] at carried
    | drop type carried => simp [undropped type] at carried
    | ignored => exact agree
    | proxies command => exact absurd rfl (command _ _)
  | proxies command => exact absurd rfl (command _ _)

/-- A command that adds jobs finds the replicas aligned, with slots to spare. -/
def AlignedAt (s : Partition × Partition) : PairOp → Prop
  | .command cmd left right => s.1.Fits (.command cmd left) ∧ s.2.Fits (.command cmd right) ∧
      Aligned s.1 s.2 (Op.command cmd left).adds
  | _ => True

instance (s : Partition × Partition) : (op : PairOp) → Decidable (AlignedAt s op)
  | .command cmd left right => inferInstanceAs (Decidable (s.1.Fits (.command cmd left) ∧
      s.2.Fits (.command cmd right) ∧ Aligned s.1 s.2 (Op.command cmd left).adds))
  | .left _ => .isTrue trivial
  | .right _ => .isTrue trivial

/-- The runs of two replicas that start empty. -/
abbrev PairRun (admits : Partition × Partition → PairOp → Prop) (topic : String) (config : PartitionConfig)
    (leftMilli rightMilli : Int) : List PairOp → Partition × Partition → Prop :=
  Run PairStep (fun _ s op => admits s op) (new topic config leftMilli, new topic config rightMilli)

private theorem local_fits {p : Partition} {op : Op} (valid : p.Valid) (own : op.isLocal = true) : p.Fits op := by
  have small := valid.store.small
  cases op with
  | command => cases own
  | _ => simpa [Fits, Op.adds] using small

theorem agree_in_aligned_run {topic : String} {config : PartitionConfig} {leftMilli rightMilli : Int}
    {ops : List PairOp} {s : Partition × Partition}
    (run : PairRun AlignedAt topic config leftMilli rightMilli ops s) : Agree s.1 s.2 := by
  have kept : s.1.Valid ∧ s.2.Valid ∧ Agree s.1 s.2 := by
    refine run.invariant (fun _ s => s.1.Valid ∧ s.2.Valid ∧ Agree s.1 s.2)
      ⟨new_valid .., new_valid .., fun _ => rfl⟩ ?_
    rintro _ s op s' ⟨valid, valid', agree⟩ aligned step
    cases step with
    | command first second =>
      obtain ⟨fits, fits', aligned⟩ := aligned
      exact ⟨(step_spec valid first).valid valid fits, (step_spec valid' second).valid valid' fits',
        agree_command valid valid' fits fits' aligned agree first second⟩
    | left own step =>
      refine ⟨(step_spec valid step).valid valid (local_fits valid own), valid', ?_⟩
      intro id
      rw [pending_local valid own step, agree id]
    | right own step =>
      refine ⟨valid, (step_spec valid' step).valid valid' (local_fits valid' own), ?_⟩
      intro id
      rw [pending_local valid' own step, agree id]
  exact kept.2.2

/-- The pair's step as a function, stuck where it is not admitted. -/
def pairStep (admits : Partition × Partition → PairOp → Prop) [∀ s op, Decidable (admits s op)]
    (s : Partition × Partition) (op : PairOp) : Option (Partition × Partition) :=
  if admits s op then
    match op with
    | .command cmd left right =>
      match s.1.step (.command cmd left), s.2.step (.command cmd right) with
      | .ok (p, _), .ok (q, _) => some (p, q)
      | _, _ => none
    | .left op =>
      match op.isLocal, s.1.step op with
      | true, .ok (p, _) => some (p, s.2)
      | _, _ => none
    | .right op =>
      match op.isLocal, s.2.step op with
      | true, .ok (q, _) => some (s.1, q)
      | _, _ => none
  else none

theorem pairStep_sound {admits : Partition × Partition → PairOp → Prop} [∀ s op, Decidable (admits s op)]
    {s s' : Partition × Partition} {op : PairOp} (ok : pairStep admits s op = some s') :
    admits s op ∧ PairStep s op s' := by
  unfold pairStep at ok
  split at ok
  · rename_i admitted
    refine ⟨admitted, ?_⟩
    cases op with
    | command cmd left right =>
      dsimp only at ok
      split at ok
      · rename_i first second
        cases ok
        exact .command first second
      · cases ok
    | left op =>
      dsimp only at ok
      split at ok
      · rename_i own step
        cases ok
        exact .left own step
      · cases ok
    | right op =>
      dsimp only at ok
      split at ok
      · rename_i own step
        cases ok
        exact .right own step
      · cases ok
  · cases ok

/-! A queue of one cell: a job is added and finished, and another one is added.
In between both replicas dispatch, or only the left one does. -/

def pairConfig : PartitionConfig := ⟨1, 3, 20, 1, 1000, 1000⟩

def pairOps (both : Bool) : List PairOp :=
  let proxy : List Op :=
    [ .topology (.add "proxy" (some ⟨0, 4⟩)),
      .heartbeat { proxyID := "proxy", topic := "orders", consumptionScore := 1, timestamp := 0 } ]
  let add (id : String) : PairOp :=
    .command { type := .addJobs, addJobs := some ⟨"orders", [⟨id, "orders", [1], false, 0⟩]⟩ }
      (fun _ => ⟨1000, 1⟩) (fun _ => ⟨1000, 1⟩)
  let dispatch : Op := .dispatch ⟨73, 0, 1, true, true, fun _ => 1⟩
  proxy.map .left ++ proxy.map .right ++
  [ add "a",
    .command { type := .done, done := some ⟨"orders", ["a"]⟩ } (fun _ => ⟨1000, 1⟩) (fun _ => ⟨1000, 1⟩),
    .left dispatch ] ++
  (if both then [.right dispatch] else []) ++
  [ add "b" ]

def pairEnd (admits : Partition × Partition → PairOp → Prop) [∀ s op, Decidable (admits s op)]
    (both : Bool) : Option (Partition × Partition) :=
  (pairOps both).foldlM (pairStep admits) (new "orders" pairConfig 0, new "orders" pairConfig 0)

private theorem apart_executes : (pairEnd (fun _ _ => True) false).isSome = true := rfl

/-- The replica that dispatched has dropped the finished job's record and
accepts the new job; the other one's queue is full and it refuses. -/
theorem dispatch_breaks_agreement :
    ∃ ops s, PairRun (fun _ _ => True) "orders" pairConfig 0 0 ops s ∧ ¬ Agree s.1 s.2 := by
  refine ⟨pairOps false, _, Run.of_execute (fun _ _ _ _ => pairStep_sound)
    (Option.some_get apart_executes).symm, ?_⟩
  intro agree
  have same := agree "b"
  revert same
  decide

private theorem aligned_executes : (pairEnd AlignedAt true).isSome = true := rfl

/-- When both have dispatched, both have the new job. -/
theorem agree_after_both_dispatch :
    (Option.get _ aligned_executes).2.pending "b" = true ∧
      Agree (Option.get _ aligned_executes).1 (Option.get _ aligned_executes).2 :=
  ⟨by decide, agree_in_aligned_run (Run.of_execute (fun _ _ _ _ => pairStep_sound)
    (Option.some_get aligned_executes).symm)⟩

end Cue.State.Partition
