import Cue.BatchIntake

/-! Commands whose job IDs are any strings. The store marks a free slot by an
empty ID, so a job without an ID is stored in a slot that looks free: `Get` does
not return it, and giving the slot back is taken for a second release. Commands
are handled as they should be exactly if none of them adds such a job. -/
namespace Cue.State.Partition
open Cue.Lib Cue.Model

variable {p p' : Partition} {job : Job} {jobs : List Job} {clock : Nat → Clock}
  {outcomes : List (String × AddOutcome)} {held : List (String × Nat)}

/-- A partition and the jobs it has accepted, by ID and slot, that were not dropped since. -/
abbrev Custody := Partition × List (String × Nat)

/-- `Get` returns every one of these jobs in its slot. -/
def Returned (js : JobStore) (held : List (String × Nat)) : Prop :=
  ∀ id idx, (id, idx) ∈ held → ∃ job, js.get idx = some job ∧ job.id = id

def handleInCustody (s : Custody) (op : Command × (Nat → Clock)) : Except Panic Custody :=
  match s.1.handleCommand op.1 op.2 with
  | .error panicked => .error panicked
  | .ok handled =>
    .ok (handled.partition, (s.2.filter fun entry => entry.1 ∉ droppedBy op.1) ++ handled.accepted)

/-- Commands one after the other on a new partition, each with the clock it reads. -/
def handleAll (topic : String) (config : PartitionConfig) (nowMilli : Int) (ops : List (Command × (Nat → Clock))) :
    Except Panic Custody :=
  ops.foldlM handleInCustody (new topic config nowMilli, [])

/-- The store never reaches `2^32` slots. -/
def SlotsSuffice (topic : String) (config : PartitionConfig) (nowMilli : Int)
    (ops : List (Command × (Nat → Clock))) : Prop :=
  ∀ before op after, ops = before ++ op :: after → ∀ s, handleAll topic config nowMilli before = .ok s →
    s.1.StaysSmall (batchOf op.1) op.2

/-! ### Jobs with an ID -/

theorem Added.returned {clock : Clock} {outcome : AddOutcome} (added : Added p job clock p' outcome) (valid : p.Valid)
    (named : job.done = false → job.id ≠ "") (returned : Returned p.jobStore held) :
    Returned p'.jobStore (held ++ acceptedJobs [(job.id, outcome)]) := by
  cases added with
  | alreadyDone => simpa [acceptedJobs] using returned
  | duplicate => simpa [acceptedJobs] using returned
  | @accepted js _ idx unflagged created =>
    intro id slot member
    rw [JobStore.created_get valid.store created]
    rcases List.mem_append.mp member with old | new
    · obtain ⟨other, found, same⟩ := returned id slot old
      have apart : slot ≠ idx := by
        rintro rfl
        rw [JobStore.created_empty valid.store created] at found
        cases found
      exact ⟨other, by rw [if_neg apart, found], same⟩
    · obtain ⟨rfl, rfl⟩ : id = job.id ∧ slot = idx := by simpa [acceptedJobs] using new
      exact ⟨_, by rw [if_pos rfl, if_neg (by simpa using named unflagged)], stamped_id _ _⟩
  | queueFull _ _ refused =>
    intro id slot member
    rw [refused.get]
    exact returned id slot (by simpa [acceptedJobs] using member)

theorem addJobs_returned (plain : p.Plain) (named : ∀ job ∈ jobs, job.done = false → job.id ≠ "")
    (small : p.StaysSmall jobs clock) (returned : Returned p.jobStore held)
    (ok : p.addJobs jobs clock = .ok (p', outcomes)) : Returned p'.jobStore (held ++ acceptedJobs outcomes) := by
  induction jobs generalizing p clock outcomes held with
  | nil =>
    cases ok
    simpa [acceptedJobs] using returned
  | cons job jobs ih =>
    obtain ⟨middle, outcome, rest, first, others, rfl⟩ := addJobs_cons ok
    have here := named job List.mem_cons_self
    obtain ⟨fits, later⟩ := small.rest first
    obtain ⟨_, _, same, spec⟩ := addJob_total plain.valid here (clock 0)
    cases first.symm.trans same
    have added := spec fits
    have after := ih (added.plain plain here) (fun other member => named other (List.mem_cons_of_mem _ member)) later
      (added.returned plain.valid here returned) others
    simpa only [acceptedJobs, List.append_assoc, ← List.filterMap_append, List.singleton_append] using after

/-- A job that is marked done is still returned. -/
theorem Finished.returned {js js' : JobStore} {ids : List String} (finished : Finished js ids js')
    (returned : Returned js held) : Returned js' held := by
  intro id idx member
  obtain ⟨job, found, same⟩ := returned id idx member
  refine ⟨marked ids job, by rw [finished.get, found]; rfl, ?_⟩
  unfold marked
  split <;> exact same

theorem Dropped.returned {js js' : JobStore} {ids : List String} (dropped : Dropped js ids js')
    (returned : Returned js held) : Returned js' (held.filter fun entry => entry.1 ∉ ids) := by
  intro id idx member
  obtain ⟨inside, kept⟩ : (id, idx) ∈ held ∧ id ∉ ids := by simpa using member
  obtain ⟨job, found, same⟩ := returned id idx inside
  exact ⟨job, by simp [dropped.get, found, Option.filter_some, same, kept], same⟩

/-- A command that adds no job without an ID is handled, and what it does not drop is still returned. -/
theorem handleCommand_returned {cmd : Command} (plain : p.Plain)
    (named : ∀ job ∈ batchOf cmd, job.done = false → job.id ≠ "") (small : p.StaysSmall (batchOf cmd) clock)
    (returned : Returned p.jobStore held) :
    ∃ handled, p.handleCommand cmd clock = .ok handled ∧ handled.partition.Plain ∧
      Returned handled.partition.jobStore ((held.filter fun entry => entry.1 ∉ droppedBy cmd) ++ handled.accepted) := by
  unfold handleCommand
  cases type : cmd.type with
  | addJobs =>
    cases present : cmd.addJobs with
    | none =>
      simp only [handleAddJobs, present, droppedBy, type]
      exact ⟨_, rfl, plain, by simpa using returned⟩
    | some payload =>
      simp only [handleAddJobs, present, batchOf, droppedBy, type] at named small ⊢
      obtain ⟨p', outcomes, ok, _, after⟩ := addJobs_processed plain named small
      rw [ok]
      exact ⟨_, rfl, after, by simpa using addJobs_returned plain named small returned ok⟩
  | done =>
    cases present : cmd.done with
    | none =>
      simp only [handleDone, present, droppedBy, type]
      exact ⟨_, rfl, plain, by simpa using returned⟩
    | some payload =>
      simp only [handleDone, present, droppedBy, type]
      obtain ⟨js, ok, finished⟩ := markDoneAll_spec payload.jobIDs plain.valid.store
      rw [ok]
      refine ⟨_, rfl, ⟨⟨finished.valid, plain.valid.queue⟩, finished.named ▸ plain.anonymous⟩, ?_⟩
      simpa using finished.returned returned
  | drop =>
    cases present : cmd.drop with
    | none =>
      simp only [handleDrop, present, droppedBy, type]
      exact ⟨_, rfl, plain, by simpa using returned⟩
    | some payload =>
      simp only [handleDrop, present, droppedBy, type]
      obtain ⟨js, ok⟩ := @forceReleaseAll_ok _ payload.jobIDs plain.valid.store fun _ => plain.anonymous
      have dropped := forceReleaseAll_spec payload.jobIDs plain.valid.store ok
      rw [ok]
      refine ⟨_, rfl, ⟨⟨dropped.valid, plain.valid.queue⟩, ?_⟩, ?_⟩
      · rw [dropped.named, plain.anonymous]
        split <;> rfl
      · simpa using dropped.returned returned
  | _ => exact ⟨_, rfl, plain, by simpa [droppedBy, type] using returned⟩

/-! ### Jobs without one -/

theorem id_of_get {js : JobStore} {idx : Nat} (found : js.get idx = some job) : job.id ≠ "" := by
  unfold JobStore.get at found
  split at found
  · cases found
  · simpa using (Option.filter_eq_some_iff.mp found).2

/-- A job without an ID is accepted if it does not bring the process down. -/
theorem addJob_anonymous {clock : Clock} {outcome : AddOutcome} (plain : p.Plain) (unflagged : job.done = false)
    (empty : job.id = "") (ok : p.addJob job clock = .ok (p', outcome)) (small : p'.jobStore.jobs.length < 2 ^ 32) :
    ∃ idx, outcome = .accepted idx := by
  have unknown : ∀ i, p.jobStore.byID.get (stamped job clock.nowMilli).id ≠ some i := by
    simp [empty, plain.anonymous]
  unfold addJob at ok
  rw [if_neg (by simp [unflagged])] at ok
  rcases slots_cases p.jobStore plain.valid.store with room | ⟨used, last⟩
  · rcases JobStore.create_cases (stamped job clock.nowMilli) plain.valid.store room with
      ⟨_, i, known⟩ | ⟨idx, js, taken, created⟩
    · exact absurd known (unknown i)
    · simp only [taken] at ok
      split at ok
      · cases ok
        exact ⟨idx, rfl⟩
      · cases freed : js.release idx with
        | error panicked => simp [freed] at ok
        | ok js' =>
          have released := JobStore.released_of_slot created.valid created.slot freed
          exact absurd (by simpa using empty) released.nonempty
  · rcases JobStore.create_last (stamped job clock.nowMilli) used last with
      ⟨_, i, known⟩ | ⟨idx, js, taken, wrapped⟩
    · exact absurd known (unknown i)
    · simp only [taken] at ok
      split at ok
      · cases ok
        exact ⟨idx, rfl⟩
      · rw [release_wrapped idx wrapped] at ok
        cases ok
        exact absurd small (Nat.not_lt.mpr (Nat.le_of_eq wrapped.symm))

/-- A batch with such a job is not handled, or the job is among those accepted. -/
theorem addJobs_anonymous (plain : p.Plain) (small : p.StaysSmall jobs clock) (member : job ∈ jobs)
    (unflagged : job.done = false) (empty : job.id = "") (ok : p.addJobs jobs clock = .ok (p', outcomes)) :
    ∃ idx, ("", idx) ∈ acceptedJobs outcomes := by
  induction jobs generalizing p clock outcomes with
  | nil => cases member
  | cons first jobs ih =>
    obtain ⟨middle, outcome, rest, added, others, rfl⟩ := addJobs_cons ok
    obtain ⟨fits, later⟩ := small.rest added
    by_cases named : first.done = false → first.id ≠ ""
    · obtain ⟨_, _, same, spec⟩ := addJob_total plain.valid named (clock 0)
      cases added.symm.trans same
      have other : job ∈ jobs := by
        rcases List.mem_cons.mp member with rfl | other
        · exact absurd empty (named unflagged)
        · exact other
      obtain ⟨idx, accepted⟩ := ih ((spec fits).plain plain named) later other others
      refine ⟨idx, ?_⟩
      rw [← List.singleton_append, acceptedJobs, List.filterMap_append]
      exact List.mem_append_right _ accepted
    · simp only [Classical.not_imp, not_not] at named
      obtain ⟨idx, rfl⟩ := addJob_anonymous plain named.1 named.2 added fits
      exact ⟨idx, by simp [acceptedJobs, named.2]⟩

/-! ### Commands one after the other -/

section Commands

variable {topic : String} {config : PartitionConfig} {nowMilli : Int} {ops : List (Command × (Nat → Clock))}
  {op : Command × (Nat → Clock)} {s s' : Custody}

theorem handleAll_concat (handled : handleAll topic config nowMilli ops = .ok s) :
    handleAll topic config nowMilli (ops ++ [op]) = handleInCustody s op := by
  unfold handleAll at handled ⊢
  rw [List.foldlM_append, handled]
  change List.foldlM handleInCustody s [op] = _
  rw [List.foldlM_cons]
  cases handleInCustody s op <;> rfl

theorem handleAll_concat_ok (handled : handleAll topic config nowMilli (ops ++ [op]) = .ok s') :
    ∃ s, handleAll topic config nowMilli ops = .ok s ∧ handleInCustody s op = .ok s' := by
  cases before : handleAll topic config nowMilli ops with
  | error panicked =>
    rw [handleAll] at handled before
    rw [List.foldlM_append, before] at handled
    cases handled
  | ok s => exact ⟨s, rfl, (handleAll_concat before).symm.trans handled⟩

theorem SlotsSuffice.init (small : SlotsSuffice topic config nowMilli (ops ++ [op])) :
    SlotsSuffice topic config nowMilli ops := fun before op' after same =>
  small before op' (after ++ [op]) (by simp [same])

theorem handleAll_named (small : SlotsSuffice topic config nowMilli ops)
    (named : ∀ op ∈ ops, ∀ job ∈ batchOf op.1, job.done = false → job.id ≠ "") :
    ∃ s, handleAll topic config nowMilli ops = .ok s ∧ s.1.Plain ∧ Returned s.1.jobStore s.2 := by
  induction ops using List.reverseRecOn with
  | nil => exact ⟨_, rfl, new_plain topic config nowMilli, fun _ _ member => by cases member⟩
  | append_singleton ops op ih =>
    obtain ⟨s, before, plain, returned⟩ := ih small.init fun other member =>
      named other (List.mem_append_left _ member)
    obtain ⟨handled, ok, after, still⟩ := handleCommand_returned plain (named op (by simp))
      (small ops op [] rfl s before) returned
    refine ⟨(handled.partition, _), ?_, after, still⟩
    rw [handleAll_concat before, handleInCustody, ok]

/-- A command that adds a job without an ID panics, or accepts a job that `Get` does not return. -/
theorem not_returned_of_anonymous (plain : s.1.Plain) (small : s.1.StaysSmall (batchOf op.1) op.2)
    (member : job ∈ batchOf op.1) (unflagged : job.done = false) (empty : job.id = "")
    (ok : handleInCustody s op = .ok s') : ¬ Returned s'.1.jobStore s'.2 := by
  intro returned
  obtain ⟨cmd, clock⟩ := op
  cases type : cmd.type <;> cases present : cmd.addJobs <;>
    simp only [batchOf, type, present, List.not_mem_nil] at member
  rename_i payload
  simp only [batchOf, type, present] at small
  simp only [handleInCustody, handleCommand, type, handleAddJobs, present] at ok
  cases added : s.1.addJobs payload.jobs clock with
  | error panicked => simp [added] at ok
  | ok result =>
    obtain ⟨p', outcomes⟩ := result
    simp only [added, Except.ok.injEq] at ok
    subst ok
    obtain ⟨idx, accepted⟩ := addJobs_anonymous plain small member unflagged empty added
    obtain ⟨other, found, same⟩ := returned "" idx (List.mem_append_right _ accepted)
    exact id_of_get found same

/-- Every job takes one slot at most. -/
theorem handleAll_slots (few : (ops.flatMap fun op => batchOf op.1).length < 2 ^ 32)
    (named : ∀ op ∈ ops, ∀ job ∈ batchOf op.1, job.id ≠ "") (handled : handleAll topic config nowMilli ops = .ok s) :
    s.1.Plain ∧ s.1.jobStore.jobs.length ≤ (ops.flatMap fun op => batchOf op.1).length := by
  induction ops using List.reverseRecOn generalizing s with
  | nil =>
    cases handled
    exact ⟨new_plain topic config nowMilli, Nat.le_refl _⟩
  | append_singleton ops op ih =>
    simp only [List.flatMap_append, List.flatMap_cons, List.flatMap_nil, List.append_nil, List.length_append] at few ⊢
    obtain ⟨middle, before, here⟩ := handleAll_concat_ok handled
    obtain ⟨plain, bound⟩ := ih (by omega) (fun other member => named other (List.mem_append_left _ member)) before
    obtain ⟨answered, ok, advanced, -⟩ := handleCommand_advanced plain (by omega) (named op (by simp)) op.2
    rw [handleInCustody, ok] at here
    cases here
    have grown := advanced.slots
    exact ⟨advanced.plain, by dsimp only; omega⟩

theorem slotsSuffice_of_few (few : (ops.flatMap fun op => batchOf op.1).length < 2 ^ 32)
    (named : ∀ op ∈ ops, ∀ job ∈ batchOf op.1, job.id ≠ "") : SlotsSuffice topic config nowMilli ops := by
  rintro before op after rfl s handled
  simp only [List.flatMap_append, List.flatMap_cons, List.length_append] at few
  obtain ⟨plain, bound⟩ := handleAll_slots (by omega) (fun other member => named other (by simp [member])) handled
  exact staysSmall_of_slots plain.valid (by omega)

/-- Commands are handled, without a panic and with every job that was accepted
returned by `Get` until it is dropped, exactly if none adds a job without an ID. -/
theorem commands_handled_iff (small : SlotsSuffice topic config nowMilli ops) :
    (∀ before after, ops = before ++ after →
      ∃ s, handleAll topic config nowMilli before = .ok s ∧ Returned s.1.jobStore s.2) ↔
      ∀ op ∈ ops, ∀ job ∈ batchOf op.1, job.done = false → job.id ≠ "" := by
  constructor
  · intro good
    induction ops using List.reverseRecOn with
    | nil => simp
    | append_singleton ops op ih =>
      have earlier := ih small.init fun before after same => good before (after ++ [op]) (by simp [same])
      obtain ⟨s, before, plain, _⟩ := handleAll_named small.init earlier
      obtain ⟨s', handled, returned⟩ := good (ops ++ [op]) [] (by simp)
      intro other member job inside unflagged empty
      rcases List.mem_append.mp member with old | new
      · exact earlier other old job inside unflagged empty
      · obtain rfl := List.mem_singleton.mp new
        rw [handleAll_concat before] at handled
        exact not_returned_of_anonymous plain (small ops other [] rfl s before) inside unflagged empty handled returned
  · rintro named before after rfl
    obtain ⟨s, handled, _, returned⟩ := @handleAll_named topic config nowMilli before
      (fun earlier op rest same => small earlier op (rest ++ after) (by simp [same]))
      fun op member => named op (List.mem_append_left _ member)
    exact ⟨s, handled, returned⟩

end Commands

private def custodyConfig : PartitionConfig := ⟨2, 3, 20, 1, 1000, 1000⟩

private def custodyClock : Nat → Clock := fun _ => ⟨5000, 5⟩

private def addOf (ids : List String) : Command × (Nat → Clock) :=
  ({ type := .addJobs, addJobs := some ⟨"t", ids.map fun id => ⟨id, "t", [], false, 1⟩⟩ }, custodyClock)

private def dropOf (ids : List String) : Command × (Nat → Clock) :=
  ({ type := .drop, drop := some ⟨"t", ids⟩ }, custodyClock)

private def namedOps : List (Command × (Nat → Clock)) := [addOf ["a", "b"], dropOf ["a", ""], addOf ["c"]]

theorem named_jobs_handled : ∃ s, handleAll "t" custodyConfig 0 namedOps = .ok s ∧ s.2 = [("b", 1)] ∧
    Returned s.1.jobStore s.2 := by
  have ids : ∀ op ∈ namedOps, ∀ job ∈ batchOf op.1, job.id ≠ "" := by
    simp [namedOps, addOf, dropOf, batchOf]
  have few : (namedOps.flatMap fun op => batchOf op.1).length < 2 ^ 32 := by decide
  obtain ⟨s, handled, returned⟩ := (@commands_handled_iff "t" custodyConfig 0 namedOps (slotsSuffice_of_few few ids)).mpr
    (fun op member job inside _ => ids op member job inside) namedOps [] (List.append_nil _).symm
  have kept : (handleAll "t" custodyConfig 0 namedOps).map Prod.snd = .ok [("b", 1)] := rfl
  rw [handled] at kept
  exact ⟨s, handled, Except.ok.inj kept, returned⟩

/-- A job without an ID is reported as added, but `Get` does not return it;
dropping it, or adding it to a full queue, takes the process down. -/
theorem empty_id_mishandled :
    (∃ s, handleAll "t" custodyConfig 0 [addOf [""]] = .ok s ∧ s.2 = [("", 0)] ∧ s.1.jobStore.get 0 = none) ∧
      handleAll "t" custodyConfig 0 [addOf [""], dropOf [""]] = .error .doubleRelease ∧
      handleAll "t" custodyConfig 0 [addOf ["a", "b"], addOf [""]] = .error .doubleRelease :=
  ⟨⟨_, rfl, rfl, rfl⟩, rfl, rfl⟩

end Cue.State.Partition
