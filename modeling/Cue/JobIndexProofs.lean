import Cue.Cluster.RaftStorage

/-! The job index. An entry changes the state of the jobs it names and of no
others, whatever is in the index; `minPending` and `maxComplete` are the bounds
their loops look for. A job is pending in a log when its last `AddJobs` is
followed by no completion. -/
namespace Cue.Cluster
open Cue.Lib Cue.Model

variable {codec : Codec} {resets : Bool} {entry other : Entry} {entries : List Entry} {jobs : JobIndex}
  {state : JobState} {id : String}

/-! ### What an entry says of jobs -/

/-- The jobs that a command adds. -/
def addedIDs (cmd : Command) : List String :=
  match cmd.type, cmd.addJobs with
  | .addJobs, some payload => payload.jobs.map Job.id
  | _, _ => []

/-- The jobs that a `Done` or `Drop` command completes. -/
def completedIDs (cmd : Command) : List String :=
  match cmd.type with
  | .done | .drop =>
    match cmd.done, cmd.drop with
    | some payload, _ => payload.jobIDs
    | none, some payload => payload.jobIDs
    | none, none => []
  | _ => []

def Adds (codec : Codec) (entry : Entry) (id : String) : Prop :=
  ∃ cmd, codec.command (entry.data.getD []) = some cmd ∧ id ∈ addedIDs cmd

def Completes (codec : Codec) (entry : Entry) (id : String) : Prop :=
  ∃ cmd, codec.command (entry.data.getD []) = some cmd ∧ id ∈ completedIDs cmd

instance : Decidable (Adds codec entry id) :=
  inferInstanceAs (Decidable (∃ cmd ∈ codec.command (entry.data.getD []), id ∈ addedIDs cmd))

instance : Decidable (Completes codec entry id) :=
  inferInstanceAs (Decidable (∃ cmd ∈ codec.command (entry.data.getD []), id ∈ completedIDs cmd))

theorem Adds.not_completes (adds : Adds codec entry id) : ¬ Completes codec entry id := by
  rintro ⟨cmd, decoded, completed⟩
  obtain ⟨same, decoded', added⟩ := adds
  cases decoded.symm.trans decoded'
  unfold addedIDs at added
  unfold completedIDs at completed
  split at added <;> simp_all

/-- The job's last `AddJobs` in the log is `entry`, and no later entry completes it. -/
def Pending (codec : Codec) (entries : List Entry) (id : String) (entry : Entry) : Prop :=
  ∃ before after, entries = before ++ entry :: after ∧ Adds codec entry id ∧
    ∀ later ∈ after, ¬ Adds codec later id ∧ ¬ Completes codec later id

theorem Pending.mem (pending : Pending codec entries id entry) : entry ∈ entries := by
  obtain ⟨before, after, rfl, _⟩ := pending
  simp

theorem pending_append : Pending codec (entries ++ [other]) id entry ↔
    Adds codec other id ∧ entry = other ∨
      ¬ Adds codec other id ∧ ¬ Completes codec other id ∧ Pending codec entries id entry := by
  constructor
  · rintro ⟨before, after, split, adds, later⟩
    rcases List.eq_nil_or_concat' after with rfl | ⟨rest, final, rfl⟩
    · obtain ⟨rfl, same⟩ := List.append_inj' split rfl
      cases same
      exact Or.inl ⟨adds, rfl⟩
    · rw [← List.cons_append, ← List.append_assoc] at split
      obtain ⟨rfl, same⟩ := List.append_inj' split rfl
      cases same
      obtain ⟨notAdded, notCompleted⟩ := later other (by simp)
      exact Or.inr ⟨notAdded, notCompleted, before, rest, rfl, adds, fun e member =>
        later e (List.mem_append_left _ member)⟩
  · rintro (⟨adds, rfl⟩ | ⟨notAdded, notCompleted, before, after, rfl, adds, later⟩)
    · exact ⟨entries, [], rfl, adds, by simp⟩
    · refine ⟨before, after ++ [other], by simp, adds, ?_⟩
      intro e member
      rcases List.mem_append.mp member with old | new
      · exact later e old
      · rw [List.mem_singleton] at new
        exact new ▸ ⟨notAdded, notCompleted⟩

/-! ### The index after an entry -/

/-- Updating each job of a list by a function that is the same done twice. -/
private theorem get_foldl_update (update : JobState → JobState) (idem : ∀ state, update (update state) = update state)
    (ids : List String) (jobs : JobIndex) (id : String) :
    (ids.foldl (fun jobs id => jobs.set id (update ((jobs.get id).getD {}))) jobs).get id =
      if id ∈ ids then some (update ((jobs.get id).getD {})) else jobs.get id := by
  induction ids generalizing jobs with
  | nil => rfl
  | cons first ids ih =>
    rw [List.foldl_cons, ih, FinMap.get_set]
    by_cases here : id = first <;> by_cases later : id ∈ ids <;> simp_all

private theorem get_adds (index : Nat) (ids : List String) (jobs : JobIndex) (id : String) :
    (ids.foldl (indexAdd resets index) jobs).get id =
      if id ∈ ids then some { (jobs.get id).getD {} with
        addIndex := index
        completeType := if resets then .none else ((jobs.get id).getD {}).completeType }
      else jobs.get id :=
  get_foldl_update (fun state => { state with
      addIndex := index
      completeType := if resets then .none else state.completeType })
    (fun _ => by cases resets <;> rfl) ids jobs id

private theorem get_completes (index : Nat) (kind : CompleteType) (ids : List String) (jobs : JobIndex)
    (id : String) :
    (ids.foldl (indexComplete index kind) jobs).get id =
      if id ∈ ids then some { (jobs.get id).getD {} with completeIndex := index, completeType := kind }
      else jobs.get id :=
  get_foldl_update (fun state => { state with completeIndex := index, completeType := kind }) (fun _ => rfl) ids jobs id

/-- `CompleteType` as the code chooses it: by the payload, not by the type. -/
def completeKind (cmd : Command) : CompleteType := if cmd.done.isSome then .done else .drop

private theorem indexCommand_eq (index : Nat) (jobs : JobIndex) (cmd : Command) :
    indexCommand resets index jobs cmd =
      (completedIDs cmd).foldl (indexComplete index (completeKind cmd))
        ((addedIDs cmd).foldl (indexAdd resets index) jobs) := by
  unfold indexCommand addedIDs completedIDs completeKind
  cases cmd.type <;> cases cmd.addJobs <;> cases cmd.done <;> cases cmd.drop <;> rfl

theorem indexEntry_added (adds : Adds codec entry id) :
    (indexEntry codec resets jobs entry).get id = some { (jobs.get id).getD {} with
      addIndex := entry.index.toNat
      completeType := if resets then .none else ((jobs.get id).getD {}).completeType } := by
  have notCompleted := adds.not_completes
  obtain ⟨cmd, decoded, added⟩ := adds
  have absent : id ∉ completedIDs cmd := fun member => notCompleted ⟨cmd, decoded, member⟩
  simp only [indexEntry, decoded]
  rw [indexCommand_eq, get_completes, if_neg absent, get_adds, if_pos added]

theorem indexEntry_completed (completes : Completes codec entry id) :
    ∃ kind ≠ CompleteType.none, (indexEntry codec resets jobs entry).get id =
      some { (jobs.get id).getD {} with completeIndex := entry.index.toNat, completeType := kind } := by
  have notAdded : ¬ Adds codec entry id := fun adds => adds.not_completes completes
  obtain ⟨cmd, decoded, completed⟩ := completes
  have absent : id ∉ addedIDs cmd := fun member => notAdded ⟨cmd, decoded, member⟩
  refine ⟨completeKind cmd, ?_, ?_⟩
  · unfold completeKind
    split <;> simp
  · simp only [indexEntry, decoded]
    rw [indexCommand_eq, get_completes, if_pos completed, get_adds, if_neg absent]

theorem indexEntry_other (notAdded : ¬ Adds codec entry id) (notCompleted : ¬ Completes codec entry id) :
    (indexEntry codec resets jobs entry).get id = jobs.get id := by
  unfold indexEntry
  split
  · rename_i cmd decoded
    have notIn : id ∉ addedIDs cmd := fun member => notAdded ⟨cmd, decoded, member⟩
    have notOut : id ∉ completedIDs cmd := fun member => notCompleted ⟨cmd, decoded, member⟩
    rw [indexCommand_eq, get_completes, if_neg notOut, get_adds, if_neg notIn]
  · rfl

/-- The indices in a job's state are the entry's or those it had. -/
theorem indexEntry_indices (found : (indexEntry codec resets jobs entry).get id = some state) :
    (state.addIndex = entry.index.toNat ∨ state.addIndex = ((jobs.get id).getD {}).addIndex) ∧
      (state.completeIndex = entry.index.toNat ∨ state.completeIndex = ((jobs.get id).getD {}).completeIndex) := by
  by_cases adds : Adds codec entry id
  · rw [indexEntry_added adds] at found
    cases found
    exact ⟨Or.inl rfl, Or.inr rfl⟩
  · by_cases completes : Completes codec entry id
    · obtain ⟨kind, _, after⟩ := @indexEntry_completed _ resets _ jobs _ completes
      rw [after] at found
      cases found
      exact ⟨Or.inr rfl, Or.inl rfl⟩
    · rw [indexEntry_other adds completes] at found
      simp [found]

/-! ### The bounds of compaction -/

/-- A state that `findFirstIndexToKeep` counts as pending. -/
def JobState.Waits (state : JobState) : Prop := state.addIndex > 0 ∧ state.completeType = .none

private theorem foldl_least (states : List (String × JobState)) (least : Nat) :
    let result := states.foldl (fun least (_, state) =>
      if state.addIndex > 0 ∧ state.completeType = .none ∧ (least = 0 ∨ state.addIndex < least)
      then state.addIndex else least) least
    (result = least ∨ ∃ pair ∈ states, pair.2.Waits ∧ result = pair.2.addIndex) ∧
      (least ≠ 0 → result ≠ 0 ∧ result ≤ least) ∧
      ∀ pair ∈ states, pair.2.Waits → result ≠ 0 ∧ result ≤ pair.2.addIndex := by
  induction states generalizing least with
  | nil => simp
  | cons first states ih =>
    simp only [List.foldl_cons]
    generalize after : (if first.2.addIndex > 0 ∧ first.2.completeType = .none ∧
      (least = 0 ∨ first.2.addIndex < least) then first.2.addIndex else least) = next
    obtain ⟨source, bound, all⟩ := ih next
    refine ⟨?_, ?_, ?_⟩
    · rcases source with same | ⟨pair, member, waits, same⟩
      · rw [same]
        split at after
        · rename_i chosen
          exact Or.inr ⟨first, List.mem_cons_self, ⟨chosen.1, chosen.2.1⟩, after.symm⟩
        · exact Or.inl after.symm
      · exact Or.inr ⟨pair, List.mem_cons_of_mem _ member, waits, same⟩
    · intro positive
      have step : next ≠ 0 ∧ next ≤ least := by
        split at after <;> omega
      exact ⟨(bound step.1).1, (bound step.1).2.trans step.2⟩
    · intro pair member waits
      rcases List.mem_cons.mp member with rfl | member
      · have step : next ≠ 0 ∧ next ≤ pair.2.addIndex := by
          obtain ⟨positive, waiting⟩ := waits
          split at after
          · omega
          · rename_i passed
            simp only [positive, waiting, true_and, not_or, not_lt] at passed
            omega
        exact ⟨(bound step.1).1, (bound step.1).2.trans step.2⟩
      · exact all pair member waits

theorem minPending_le (found : jobs.get id = some state) (waits : state.Waits) :
    StorageCore.minPending jobs ≠ 0 ∧ StorageCore.minPending jobs ≤ state.addIndex :=
  (foldl_least jobs.pairs 0).2.2 (id, state) ((jobs.mem_pairs id state).mpr found) waits

theorem minPending_source (nonzero : StorageCore.minPending jobs ≠ 0) :
    ∃ id state, jobs.get id = some state ∧ state.Waits ∧ StorageCore.minPending jobs = state.addIndex := by
  rcases (foldl_least jobs.pairs 0).1 with none | ⟨⟨id, state⟩, member, waits, same⟩
  · exact absurd none nonzero
  · exact ⟨id, state, (jobs.mem_pairs id state).mp member, waits, same⟩

private theorem foldl_most (states : List (String × JobState)) (most : Nat) :
    let result := states.foldl (fun most (_, state) => max most state.completeIndex) most
    (result = most ∨ ∃ pair ∈ states, result = pair.2.completeIndex) ∧
      most ≤ result ∧ ∀ pair ∈ states, pair.2.completeIndex ≤ result := by
  induction states generalizing most with
  | nil => simp
  | cons first states ih =>
    simp only [List.foldl_cons]
    obtain ⟨source, bound, all⟩ := ih (max most first.2.completeIndex)
    refine ⟨?_, (Nat.le_max_left _ _).trans bound, ?_⟩
    · rcases source with same | ⟨pair, member, same⟩
      · rw [same]
        by_cases more : most ≤ first.2.completeIndex
        · exact Or.inr ⟨first, List.mem_cons_self, Nat.max_eq_right more⟩
        · exact Or.inl (Nat.max_eq_left (by omega))
      · exact Or.inr ⟨pair, List.mem_cons_of_mem _ member, same⟩
    · intro pair member
      rcases List.mem_cons.mp member with rfl | member
      · exact (Nat.le_max_right _ _).trans bound
      · exact all pair member

theorem maxComplete_source (nonzero : StorageCore.maxComplete jobs ≠ 0) :
    ∃ id state, jobs.get id = some state ∧ StorageCore.maxComplete jobs = state.completeIndex := by
  rcases (foldl_most jobs.pairs 0).1 with none | ⟨⟨id, state⟩, member, same⟩
  · exact absurd none nonzero
  · exact ⟨id, state, (jobs.mem_pairs id state).mp member, same⟩

theorem le_maxComplete (found : jobs.get id = some state) : state.completeIndex ≤ StorageCore.maxComplete jobs :=
  (foldl_most jobs.pairs 0).2.2 (id, state) ((jobs.mem_pairs id state).mpr found)

end Cue.Cluster
