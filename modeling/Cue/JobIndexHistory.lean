import Cue.StorageWal

/-! The job index as a function of the log it was built from. The last `AddJobs`
and the last completion of a job say all that the index knows of it; a live
index and a recovered one differ only in jobs that were added again after they
had been completed. -/
namespace Cue.Cluster
open Cue.Lib Cue.Model

variable {codec : Codec} {resets : Bool} {log : List Entry} {entry : Entry} {id : String}

/-! ### The last entries that name a job -/

/-- The index of the last `AddJobs` of any topic that names the job, or zero. -/
def lastAdded (codec : Codec) (log : List Entry) (id : String) : Nat :=
  log.foldl (fun last entry => if Adds codec entry id then entry.index.toNat else last) 0

/-- The index of the last `Done` or `Drop` of any topic that names the job, or zero. -/
def lastCompleted (codec : Codec) (log : List Entry) (id : String) : Nat :=
  log.foldl (fun last entry => if Completes codec entry id then entry.index.toNat else last) 0

/-- Some topic added the job, and no topic did so again after the last completion. -/
def Dead (codec : Codec) (log : List Entry) (id : String) : Prop :=
  0 < lastAdded codec log id ∧ lastAdded codec log id ≤ lastCompleted codec log id

instance : Decidable (Dead codec log id) := inferInstanceAs (Decidable (_ ∧ _))

/-- The job was added and no entry completes it. -/
def NeverCompleted (codec : Codec) (log : List Entry) (id : String) : Prop :=
  0 < lastAdded codec log id ∧ lastCompleted codec log id = 0

instance : Decidable (NeverCompleted codec log id) := inferInstanceAs (Decidable (_ ∧ _))

/-- The job was added again after its last completion. -/
def Readded (codec : Codec) (log : List Entry) (id : String) : Prop :=
  0 < lastCompleted codec log id ∧ lastCompleted codec log id < lastAdded codec log id

/-- A job that was never completed was last added at the index or before; or all
jobs were completed, the last of them before the index. -/
def Held (codec : Codec) (log : List Entry) (index : Nat) : Prop :=
  (∃ id, 0 < lastAdded codec log id ∧ lastCompleted codec log id = 0 ∧ lastAdded codec log id ≤ index) ∨
    (∀ id, 0 < lastAdded codec log id → 0 < lastCompleted codec log id) ∧ ∀ id, lastCompleted codec log id < index

theorem lastAdded_append : lastAdded codec (log ++ [entry]) id =
    if Adds codec entry id then entry.index.toNat else lastAdded codec log id := by
  rw [lastAdded, List.foldl_append]
  rfl

theorem lastCompleted_append : lastCompleted codec (log ++ [entry]) id =
    if Completes codec entry id then entry.index.toNat else lastCompleted codec log id := by
  rw [lastCompleted, List.foldl_append]
  rfl

private theorem foldl_source (p : Entry → Prop) [DecidablePred p] (log : List Entry) :
    let last := log.foldl (fun last entry => if p entry then entry.index.toNat else last) 0
    last = 0 ∨ ∃ entry ∈ log, p entry ∧ entry.index.toNat = last := by
  induction log using List.reverseRecOn with
  | nil => exact Or.inl rfl
  | append_singleton log final ih =>
    simp only [List.foldl_append, List.foldl_cons, List.foldl_nil]
    split
    · exact Or.inr ⟨final, by simp, ‹_›, rfl⟩
    · rcases ih with zero | ⟨entry, member, here, same⟩
      · exact Or.inl zero
      · exact Or.inr ⟨entry, List.mem_append_left _ member, here, same⟩

private theorem le_foldl (p : Entry → Prop) [DecidablePred p] (ascending : Ascending log) (member : entry ∈ log)
    (here : p entry) :
    entry.index.toNat ≤ log.foldl (fun last entry => if p entry then entry.index.toNat else last) 0 := by
  induction log using List.reverseRecOn with
  | nil => cases member
  | append_singleton log final ih =>
    obtain ⟨ascending, _, greater⟩ := Ascending.snoc_iff.mp ascending
    simp only [List.foldl_append, List.foldl_cons, List.foldl_nil]
    rcases List.mem_append.mp member with old | new
    · split
      · exact (greater entry old).le
      · exact ih ascending old
    · rw [List.mem_singleton] at new
      subst new
      rw [if_pos here]

theorem lastAdded_source : lastAdded codec log id = 0 ∨
    ∃ entry ∈ log, Adds codec entry id ∧ entry.index.toNat = lastAdded codec log id :=
  foldl_source (fun entry => Adds codec entry id) log

theorem lastCompleted_source : lastCompleted codec log id = 0 ∨
    ∃ entry ∈ log, Completes codec entry id ∧ entry.index.toNat = lastCompleted codec log id :=
  foldl_source (fun entry => Completes codec entry id) log

theorem le_lastAdded (ascending : Ascending log) (member : entry ∈ log) (adds : Adds codec entry id) :
    entry.index.toNat ≤ lastAdded codec log id :=
  le_foldl (fun entry => Adds codec entry id) ascending member adds

theorem lastAdded_pos (ascending : Ascending log) (member : entry ∈ log) (adds : Adds codec entry id) :
    0 < lastAdded codec log id :=
  (ascending.positive member).trans_le (le_lastAdded ascending member adds)

/-! ### What the index knows of a job -/

/-- The state of a job in an index built from the log. -/
structure Indexed (codec : Codec) (resets : Bool) (log : List Entry) (id : String) (state : JobState) : Prop where
  added : state.addIndex = lastAdded codec log id
  completed : state.completeIndex = lastCompleted codec log id
  incomplete : state.completeType = .none ↔ lastCompleted codec log id = 0 ∨
    resets = true ∧ lastCompleted codec log id < lastAdded codec log id

theorem indexed_log (ascending : Ascending log) (id : String) :
    Indexed codec resets log id (((log.foldl (indexEntry codec resets) .empty).get id).getD {}) := by
  induction log using List.reverseRecOn with
  | nil => exact ⟨rfl, rfl, by simp [lastCompleted, FinMap.get_empty]⟩
  | append_singleton log last ih =>
    obtain ⟨ascending, index, greater⟩ := Ascending.snoc_iff.mp ascending
    have before := ih ascending
    rw [List.foldl_append]
    simp only [List.foldl_cons, List.foldl_nil]
    by_cases adds : Adds codec last id
    · rw [indexEntry_added adds]
      have notCompleted := adds.not_completes
      refine ⟨?_, ?_, ?_⟩
      · rw [lastAdded_append, if_pos adds]
        rfl
      · rw [lastCompleted_append, if_neg notCompleted]
        exact before.completed
      · rw [lastCompleted_append, if_neg notCompleted, lastAdded_append, if_pos adds]
        cases resets with
        | false => simpa using before.incomplete
        | true =>
          have later : lastCompleted codec log id < last.index.toNat := by
            rcases @lastCompleted_source codec log id with zero | ⟨entry, member, _, same⟩
            · omega
            · exact same ▸ greater entry member
          simp [later]
    · by_cases completes : Completes codec last id
      · obtain ⟨kind, nonempty, after⟩ := @indexEntry_completed _ resets _
          (log.foldl (indexEntry codec resets) .empty) _ completes
        rw [after]
        refine ⟨?_, ?_, ?_⟩
        · rw [lastAdded_append, if_neg adds]
          exact before.added
        · rw [lastCompleted_append, if_pos completes]
          rfl
        · have earlier : lastAdded codec log id ≤ last.index.toNat := by
            rcases @lastAdded_source codec log id with zero | ⟨entry, member, _, same⟩
            · omega
            · exact same ▸ (greater entry member).le
          rw [lastCompleted_append, if_pos completes, lastAdded_append, if_neg adds]
          constructor
          · exact fun same => absurd same nonempty
          · omega
      · rw [indexEntry_other adds completes]
        refine ⟨?_, ?_, ?_⟩
        · rw [lastAdded_append, if_neg adds]
          exact before.added
        · rw [lastCompleted_append, if_neg completes]
          exact before.completed
        · rw [lastCompleted_append, if_neg completes, lastAdded_append, if_neg adds]
          exact before.incomplete

section Index

variable {core : StorageCore} (indexed : core.jobIndex = log.foldl (indexEntry codec resets) .empty)
  (ascending : Ascending log)
include indexed ascending

theorem index_found {state : JobState} (found : core.jobIndex.get id = some state) :
    Indexed codec resets log id state := by
  have known := @indexed_log codec resets log ascending id
  rw [← indexed, found] at known
  exact known

theorem index_holds (named : 0 < lastAdded codec log id ∨ 0 < lastCompleted codec log id) :
    ∃ state, core.jobIndex.get id = some state ∧ Indexed codec resets log id state := by
  have known := @indexed_log codec resets log ascending id
  rw [← indexed] at known
  cases found : core.jobIndex.get id with
  | none =>
    rw [found] at known
    have notAdded : 0 = lastAdded codec log id := known.added
    have notCompleted : 0 = lastCompleted codec log id := known.completed
    omega
  | some state =>
    rw [found] at known
    exact ⟨state, rfl, known⟩

theorem mem_getCompletedJobIDs : id ∈ core.getCompletedJobIDs ↔ Dead codec log id := by
  rw [StorageCore.getCompletedJobIDs, FinMap.mem_keys]
  constructor
  · rintro ⟨state, kept⟩
    obtain ⟨found, passes⟩ := FinMap.get_filter_some.mp kept
    obtain ⟨added, _, order⟩ : state.addIndex > 0 ∧ state.completeType ≠ .none ∧
      state.completeIndex ≥ state.addIndex := by simpa using passes
    have known := index_found indexed ascending found
    rw [known.added] at added order
    rw [known.completed] at order
    exact ⟨added, order⟩
  · rintro ⟨added, order⟩
    obtain ⟨state, found, known⟩ := index_holds indexed ascending (Or.inl added)
    refine ⟨state, FinMap.get_filter_some.mpr ⟨found, ?_⟩⟩
    have complete : state.completeType ≠ .none := by
      rw [Ne, known.incomplete]
      omega
    simpa [known.added, known.completed, complete] using And.intro added order

/-- The jobs that count as pending. -/
theorem waits_iff : (∃ state, core.jobIndex.get id = some state ∧ state.Waits) ↔
    NeverCompleted codec log id ∨ resets = true ∧ Readded codec log id := by
  constructor
  · rintro ⟨state, found, added, incomplete⟩
    have known := index_found indexed ascending found
    rw [known.added] at added
    rcases known.incomplete.mp incomplete with never | ⟨reset, later⟩
    · exact Or.inl ⟨added, never⟩
    · by_cases never : lastCompleted codec log id = 0
      · exact Or.inl ⟨added, never⟩
      · exact Or.inr ⟨reset, Nat.pos_of_ne_zero never, later⟩
  · intro waits
    have added : 0 < lastAdded codec log id := by
      rcases waits with never | ⟨_, readded⟩
      · exact never.1
      · exact Nat.zero_lt_of_lt readded.2
    obtain ⟨state, found, known⟩ := index_holds indexed ascending (Or.inl added)
    refine ⟨state, found, known.added ▸ added, known.incomplete.mpr ?_⟩
    exact waits.imp (fun never => never.2) fun reset => ⟨reset.1, reset.2.2⟩

theorem minPending_le_lastAdded (waits : NeverCompleted codec log id ∨ resets = true ∧ Readded codec log id) :
    StorageCore.minPending core.jobIndex ≠ 0 ∧ StorageCore.minPending core.jobIndex ≤ lastAdded codec log id := by
  obtain ⟨state, found, waiting⟩ := (waits_iff indexed ascending).mpr waits
  rw [← (index_found indexed ascending found).added]
  exact minPending_le found waiting

theorem minPending_lastAdded (nonzero : StorageCore.minPending core.jobIndex ≠ 0) :
    ∃ id, (NeverCompleted codec log id ∨ resets = true ∧ Readded codec log id) ∧
      StorageCore.minPending core.jobIndex = lastAdded codec log id := by
  obtain ⟨id, state, found, waiting, same⟩ := minPending_source nonzero
  refine ⟨id, (waits_iff indexed ascending).mp ⟨state, found, waiting⟩, ?_⟩
  rw [same, (index_found indexed ascending found).added]

theorem maxComplete_lt_iff {index : Nat} (least : 0 < index) :
    StorageCore.maxComplete core.jobIndex < index ↔ ∀ id, lastCompleted codec log id < index := by
  constructor
  · intro below id
    by_cases completed : 0 < lastCompleted codec log id
    · obtain ⟨state, found, known⟩ := index_holds indexed ascending (Or.inr completed)
      have most := le_maxComplete found
      rw [known.completed] at most
      omega
    · omega
  · intro all
    by_contra above
    obtain ⟨id, state, found, same⟩ := @maxComplete_source core.jobIndex (by omega)
    have known := index_found indexed ascending found
    have := all id
    rw [same, known.completed] at above
    omega

end Index

/-- With an index that recovery built, an index at which some job was added is
kept exactly if it is held. -/
theorem keep_le_iff {core : StorageCore} (indexed : core.jobIndex = log.foldl (indexEntry codec false) .empty)
    (ascending : Ascending log) {index : Nat} (member : entry ∈ log) (adds : Adds codec entry id)
    (least : 0 < index) : core.findFirstIndexToKeep ≤ index ↔ Held codec log index := by
  by_cases zero : StorageCore.minPending core.jobIndex = 0
  · have all : ∀ id, 0 < lastAdded codec log id → 0 < lastCompleted codec log id := by
      intro id added
      by_contra incomplete
      exact (minPending_le_lastAdded indexed ascending (Or.inl ⟨added, by omega⟩)).1 zero
    have finished : 0 < StorageCore.maxComplete core.jobIndex := by
      have completed := all id (lastAdded_pos ascending member adds)
      by_contra none
      have := (maxComplete_lt_iff indexed ascending Nat.one_pos).mp (by omega) id
      omega
    rw [StorageCore.findFirstIndexToKeep, if_neg (not_not.mpr zero), if_pos finished, Nat.add_one_le_iff,
      maxComplete_lt_iff indexed ascending least]
    constructor
    · intro before
      exact Or.inr ⟨all, before⟩
    · rintro (⟨id, added, incomplete, _⟩ | ⟨_, before⟩)
      · have := all id added
        omega
      · exact before
  · rw [StorageCore.findFirstIndexToKeep, if_pos zero]
    obtain ⟨first, waits, same⟩ := minPending_lastAdded indexed ascending zero
    have never : NeverCompleted codec log first := waits.resolve_right fun reset => Bool.false_ne_true reset.1
    constructor
    · intro low
      exact Or.inl ⟨first, never.1, never.2, same ▸ low⟩
    · rintro (⟨id, added, incomplete, low⟩ | ⟨all, _⟩)
      · exact (minPending_le_lastAdded indexed ascending (Or.inl ⟨added, incomplete⟩)).2.trans low
      · have := all first never.1
        have := never.2
        omega

end Cue.Cluster
