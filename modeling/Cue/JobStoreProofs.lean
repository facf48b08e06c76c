import Cue.State.JobStore
import Mathlib.Logic.Function.Basic
import Mathlib.Data.List.Nodup

/-! The job store is a finite map from IDs to jobs. `Valid` ties the slot
array, the free list and the ID index together; `view` is the map they stand
for, and each operation is one update of it. An empty ID is allowed: its slot
looks free, but is never on the free list. -/
namespace Cue.State.JobStore
open Cue.Lib Cue.Model

/-- The representation invariant, below the slot count at which `uint32` wraps. -/
structure Valid (js : JobStore) : Prop where
  small : js.jobs.length < 2 ^ 32
  indexed : ∀ id i, js.byID.get id = some i → ∃ job, js.jobs[i]? = some job ∧ job.id = id
  occupied : ∀ (i : Nat) job, js.jobs[i]? = some job → job.id ≠ "" → js.byID.get job.id = some i
  freed : ∀ i ∈ js.freeList, (∃ job, js.jobs[i]? = some job ∧ job.id = "") ∧ js.byID.get "" ≠ some i
  freedOnce : js.freeList.Nodup

/-- The job stored under an ID. -/
def view (js : JobStore) (id : String) : Option Job := (js.byID.get id).bind fun i => js.jobs[i]?

theorem new_valid (capacity : Nat) : (new capacity).Valid :=
  ⟨by simp [new], by simp [new], by simp [new], by simp [new], by simp [new]⟩

@[simp] theorem view_new (capacity : Nat) (id : String) : (new capacity).view id = none := rfl

theorem view_some {js : JobStore} {id : String} {job : Job} :
    js.view id = some job ↔ ∃ i, js.byID.get id = some i ∧ js.jobs[i]? = some job := by
  simp [view, Option.bind_eq_some_iff]

theorem view_id {js : JobStore} {id : String} {job : Job} (valid : js.Valid)
    (held : js.view id = some job) : job.id = id := by
  obtain ⟨i, named, slot⟩ := view_some.mp held
  obtain ⟨other, found, same⟩ := valid.indexed id i named
  rw [slot] at found
  cases found
  exact same

theorem view_isSome {js : JobStore} (valid : js.Valid) (id : String) :
    (js.view id).isSome = js.byID.contains id := by
  unfold view FinMap.contains
  cases named : js.byID.get id with
  | none => rfl
  | some i =>
    obtain ⟨job, slot, _⟩ := valid.indexed id i named
    simp [slot]

theorem view_none {js : JobStore} (valid : js.Valid) (id : String) :
    js.view id = none ↔ js.byID.get id = none := by
  have same := view_isSome valid id
  unfold FinMap.contains at same
  cases held : js.view id <;> cases named : js.byID.get id <;> simp_all

/-- One ID per slot. -/
theorem indexed_injective {js : JobStore} {id id' : String} {i : Nat} (valid : js.Valid)
    (named : js.byID.get id = some i) (other : js.byID.get id' = some i) : id = id' := by
  obtain ⟨job, slot, rfl⟩ := valid.indexed id i named
  obtain ⟨job', slot', rfl⟩ := valid.indexed id' i other
  rw [slot] at slot'
  cases slot'
  rfl

theorem uint32_length {js : JobStore} (valid : js.Valid) : uint32 js.jobs.length = js.jobs.length :=
  Nat.mod_eq_of_lt valid.small

theorem get_eq {js : JobStore} (valid : js.Valid) (i : Nat) :
    js.get i = (js.jobs[i]?).filter fun job => job.id ≠ "" := by
  unfold get
  rw [uint32_length valid]
  split
  · rename_i past
    rw [List.getElem?_eq_none past]
    rfl
  · rfl

/-- `Get` sees exactly the occupied slots. -/
theorem get_some {js : JobStore} {i : Nat} {job : Job} (valid : js.Valid) :
    js.get i = some job ↔ js.jobs[i]? = some job ∧ job.id ≠ "" := by
  rw [get_eq valid]
  simp [Option.filter_eq_some_iff]

theorem get_view {js : JobStore} {i : Nat} {job : Job} (valid : js.Valid)
    (found : js.get i = some job) : js.byID.get job.id = some i ∧ js.view job.id = some job := by
  obtain ⟨slot, nonempty⟩ := (get_some valid).mp found
  have named := valid.occupied i job slot nonempty
  exact ⟨named, view_some.mpr ⟨i, named, slot⟩⟩

/-- What `Create` did when it took slot `idx` for `job`. -/
structure Created (js : JobStore) (job : Job) (idx : Nat) (js' : JobStore) : Prop where
  fresh : js.byID.get job.id = none
  unnamed : ∀ id, js.byID.get id ≠ some idx
  emptySlot : ∀ old, js.jobs[idx]? = some old → old.id = ""
  slot : js'.jobs[idx]? = some job
  otherSlots : ∀ i, i ≠ idx → js'.jobs[i]? = js.jobs[i]?
  named : js'.byID = js.byID.set job.id idx
  origin : (js.freeList.getLast? = some idx ∧ js'.freeList = js.freeList.dropLast ∧
      js'.jobs.length = js.jobs.length) ∨
    (js.freeList = [] ∧ idx = js.jobs.length ∧ js'.freeList = [] ∧ js'.jobs.length = js.jobs.length + 1)
  valid : js'.Valid

private theorem created_valid {js js' : JobStore} {job : Job} {idx : Nat} (valid : js.Valid)
    (unnamed : ∀ id, js.byID.get id ≠ some idx)
    (slot : js'.jobs[idx]? = some job) (otherSlots : ∀ i, i ≠ idx → js'.jobs[i]? = js.jobs[i]?)
    (named : js'.byID = js.byID.set job.id idx) (small : js'.jobs.length < 2 ^ 32)
    (free : ∀ i ∈ js'.freeList, i ∈ js.freeList ∧ i ≠ idx) (once : js'.freeList.Nodup)
    (fresh : js.byID.get job.id = none) : js'.Valid where
  small := small
  indexed := by
    intro id i found
    rw [named, FinMap.get_set] at found
    split at found
    · rename_i same
      cases found
      exact ⟨job, slot, same.symm⟩
    · have apart : i ≠ idx := fun same => unnamed id (same ▸ found)
      rw [otherSlots i apart]
      exact valid.indexed id i found
  occupied := by
    intro i other found nonempty
    rw [named, FinMap.get_set]
    by_cases same : i = idx
    · subst same
      rw [slot] at found
      cases found
      simp
    · rw [otherSlots i same] at found
      have kept := valid.occupied i other found nonempty
      have apart : other.id ≠ job.id := by
        intro clash
        rw [clash, fresh] at kept
        cases kept
      rw [if_neg apart]
      exact kept
  freed := by
    intro i member
    obtain ⟨old, apart⟩ := free i member
    obtain ⟨empty, anonymous⟩ := valid.freed i old
    rw [otherSlots i apart, named, FinMap.get_set]
    refine ⟨empty, ?_⟩
    split
    · simpa using Ne.symm apart
    · exact anonymous
  freedOnce := once

/-- `Create` refuses a known ID and otherwise fills a free slot; it never panics.
A new slot is only taken when none is free. -/
theorem create_cases {js : JobStore} (job : Job) (valid : js.Valid)
    (room : js.freeList = [] → js.jobs.length + 1 < 2 ^ 32) :
    (js.create job = .ok none ∧ ∃ i, js.byID.get job.id = some i) ∨
      ∃ idx js', js.create job = .ok (some (idx, js')) ∧ Created js job idx js' := by
  unfold create
  by_cases known : js.byID.contains job.id = true
  · rw [if_pos known]
    exact Or.inl ⟨rfl, (FinMap.contains_iff _ _).mp known⟩
  · rw [if_neg known]
    have fresh : js.byID.get job.id = none := by
      simpa [FinMap.contains] using known
    right
    cases last : js.freeList.getLast? with
    | some idx =>
      have member : idx ∈ js.freeList := List.mem_of_getLast? last
      obtain ⟨⟨old, slot, empty⟩, anonymous⟩ := valid.freed idx member
      have unnamed : ∀ id, js.byID.get id ≠ some idx := by
        intro id named
        obtain ⟨other, found, same⟩ := valid.indexed id idx named
        rw [slot] at found
        cases found
        rw [empty] at same
        exact anonymous (same ▸ named)
      have split : js.freeList = js.freeList.dropLast ++ [idx] :=
        (List.dropLast_append_getLast? idx last).symm
      have once := valid.freedOnce
      rw [split] at once
      have bound : idx < js.jobs.length := (List.getElem?_eq_some_iff.mp slot).1
      simp only [slot, empty, ne_eq, not_true_eq_false, ↓reduceIte]
      refine ⟨idx, _, rfl, fresh, unnamed, ?_, ?_, ?_, rfl, Or.inl ⟨last, rfl, by simp⟩, ?_⟩
      · intro other found
        rw [slot] at found
        cases found
        exact empty
      · simp [bound]
      · intro i apart
        simp [List.getElem?_set_ne (Ne.symm apart)]
      · apply @created_valid _ _ _ idx valid unnamed (by simp [bound])
          (fun i apart => by simp [List.getElem?_set_ne (Ne.symm apart)]) rfl
          (by simpa using valid.small) _ _ fresh
        · intro i kept
          refine ⟨List.dropLast_subset _ kept, ?_⟩
          rintro rfl
          exact List.disjoint_of_nodup_append once kept (by simp)
        · exact (List.nodup_append.mp once).1
    | none =>
      have none : js.freeList = [] := List.getLast?_eq_none_iff.mp last
      have unwrapped : uint32 js.jobs.length = js.jobs.length := uint32_length valid
      simp only [unwrapped]
      have unnamed : ∀ id, js.byID.get id ≠ some js.jobs.length := by
        intro id named
        obtain ⟨other, found, _⟩ := valid.indexed id _ named
        simp at found
      have others : ∀ i, i ≠ js.jobs.length → (js.jobs ++ [job])[i]? = js.jobs[i]? := by
        intro i apart
        rcases Nat.lt_or_gt_of_ne apart with below | above
        · simp [List.getElem?_append_left below]
        · rw [List.getElem?_eq_none (by simp; omega), List.getElem?_eq_none (by omega)]
      refine ⟨_, _, rfl, fresh, unnamed, ?_, by simp, others, rfl, Or.inr ⟨none, rfl, none, by simp⟩, ?_⟩
      · intro old found
        simp at found
      · exact @created_valid _ _ _ js.jobs.length valid unnamed (by simp) others rfl
          (by simpa using room none) (by simp [none]) (by simp [none]) fresh

/-- At `2^32 - 1` slots, none of them free, one more job brings the store to the
count that `uint32` shows as zero. -/
theorem create_last {js : JobStore} (job : Job) (used : js.freeList = [])
    (last : js.jobs.length + 1 = 2 ^ 32) :
    (js.create job = .ok none ∧ ∃ i, js.byID.get job.id = some i) ∨
      ∃ idx js', js.create job = .ok (some (idx, js')) ∧ js'.jobs.length = 2 ^ 32 := by
  unfold create
  by_cases known : js.byID.contains job.id = true
  · rw [if_pos known]
    exact Or.inl ⟨rfl, (FinMap.contains_iff _ _).mp known⟩
  · rw [if_neg known, used]
    refine Or.inr ⟨_, _, rfl, ?_⟩
    rw [List.length_append, List.length_singleton, last]

theorem created_view {js js' : JobStore} {job : Job} {idx : Nat}
    (created : Created js job idx js') : js'.view = Function.update js.view job.id (some job) := by
  funext id
  unfold view
  rw [created.named, FinMap.get_set]
  by_cases same : id = job.id
  · subst same
    simp [created.slot]
  · rw [if_neg same, Function.update_of_ne same]
    cases named : js.byID.get id with
    | none => rfl
    | some i =>
      have apart : i ≠ idx := fun clash => created.unnamed id (clash ▸ named)
      simp [created.otherSlots i apart]

theorem created_get {js js' : JobStore} {job : Job} {idx : Nat} (valid : js.Valid)
    (created : Created js job idx js') (i : Nat) :
    js'.get i = if i = idx then (if job.id = "" then none else some job) else js.get i := by
  rw [get_eq created.valid, get_eq valid]
  split
  · rename_i same
    subst same
    rw [created.slot]
    simp [Option.filter_some]
  · rename_i apart
    rw [created.otherSlots i apart]

theorem created_empty {js js' : JobStore} {job : Job} {idx : Nat} (valid : js.Valid)
    (created : Created js job idx js') : js.get idx = none := by
  cases found : js.get idx with
  | none => rfl
  | some old =>
    obtain ⟨slot, nonempty⟩ := (get_some valid).mp found
    exact absurd (created.emptySlot old slot) nonempty

theorem created_length {js js' : JobStore} {job : Job} {idx : Nat}
    (created : Created js job idx js') : js'.jobs.length ≤ js.jobs.length + 1 ∧ idx < js'.jobs.length := by
  have inside := (List.getElem?_eq_some_iff.mp created.slot).1
  rcases created.origin with ⟨_, _, same⟩ | ⟨_, _, _, grown⟩
  · omega
  · omega

/-- What `Release` did to the occupied slot `idx`. -/
structure Released (js : JobStore) (idx : Nat) (job : Job) (js' : JobStore) : Prop where
  slot : js.jobs[idx]? = some job
  nonempty : job.id ≠ ""
  emptied : js'.jobs[idx]? = some Job.zero
  otherSlots : ∀ i, i ≠ idx → js'.jobs[i]? = js.jobs[i]?
  named : js'.byID = js.byID.delete job.id
  free : js'.freeList = js.freeList ++ [idx]
  length : js'.jobs.length = js.jobs.length
  valid : js'.Valid

theorem release_spec {js js' : JobStore} {idx : Nat} (valid : js.Valid) (ok : js.release idx = .ok js') :
    (js.jobs.length ≤ idx ∧ js' = js) ∨ ∃ job, Released js idx job js' := by
  unfold release at ok
  rw [uint32_length valid] at ok
  split at ok
  · rename_i past
    cases ok
    exact Or.inl ⟨past, rfl⟩
  · rename_i inside
    right
    cases slot : js.jobs[idx]? with
    | none => simp [slot] at ok
    | some job =>
      simp only [slot] at ok
      split at ok
      · cases ok
      · rename_i nonempty
        cases ok
        have bound : idx < js.jobs.length := by omega
        have others : ∀ i, i ≠ idx → (js.jobs.set idx Job.zero)[i]? = js.jobs[i]? :=
          fun i apart => List.getElem?_set_ne (Ne.symm apart)
        have named := valid.occupied idx job slot nonempty
        refine ⟨job, slot, nonempty, by simp [bound], others, rfl, rfl, by simp, ?_⟩
        refine ⟨by simpa using valid.small, ?_, ?_, ?_, ?_⟩
        · intro id i found
          simp only [FinMap.get_delete] at found
          split at found
          · cases found
          · rename_i apart
            have elsewhere : i ≠ idx := by
              rintro rfl
              exact apart (indexed_injective valid found named)
            simp only [others i elsewhere]
            exact valid.indexed id i found
        · intro i other found filled
          by_cases same : i = idx
          · subst same
            simp only [List.getElem?_set_self bound, Option.some.injEq] at found
            subst found
            exact absurd rfl filled
          · simp only [others i same] at found
            have kept := valid.occupied i other found filled
            have apart : other.id ≠ job.id := by
              intro clash
              rw [clash, named] at kept
              exact same (Option.some.inj kept).symm
            simp only [FinMap.get_delete, if_neg apart]
            exact kept
        · intro i member
          simp only [List.mem_append, List.mem_singleton] at member
          simp only [FinMap.get_delete, if_neg (Ne.symm nonempty)]
          rcases member with old | rfl
          · obtain ⟨⟨empty, held, blank⟩, anonymous⟩ := valid.freed i old
            have apart : i ≠ idx := by
              rintro rfl
              rw [slot] at held
              cases held
              exact nonempty blank
            exact ⟨⟨empty, by simp only [others i apart]; exact held, blank⟩, anonymous⟩
          · refine ⟨⟨Job.zero, by simp [bound], rfl⟩, ?_⟩
            intro clash
            exact nonempty (indexed_injective valid named clash)
        · rw [List.nodup_append]
          refine ⟨valid.freedOnce, List.nodup_singleton _, ?_⟩
          intro i old last member same
          rw [List.mem_singleton] at member
          subst last same
          obtain ⟨⟨empty, held, blank⟩, _⟩ := valid.freed i old
          rw [slot] at held
          cases held
          exact nonempty blank

/-- A slot that holds a job can be released of that job only. -/
theorem released_of_slot {js js' : JobStore} {idx : Nat} {job : Job} (valid : js.Valid)
    (slot : js.jobs[idx]? = some job) (ok : js.release idx = .ok js') : Released js idx job js' := by
  rcases release_spec valid ok with ⟨past, -⟩ | ⟨other, released⟩
  · exact absurd (List.getElem?_eq_some_iff.mp slot).1 (Nat.not_lt.mpr past)
  · cases released.slot.symm.trans slot
    exact released

/-- A slot that holds a job with an ID can be released. -/
theorem release_ok {js : JobStore} {idx : Nat} {job : Job} (valid : js.Valid) (slot : js.jobs[idx]? = some job)
    (nonempty : job.id ≠ "") : ∃ js', js.release idx = .ok js' := by
  have inside := (List.getElem?_eq_some_iff.mp slot).1
  unfold release
  rw [uint32_length valid, if_neg (by omega), slot]
  simp only [if_neg nonempty]
  exact ⟨_, rfl⟩

theorem released_view {js js' : JobStore} {job : Job} {idx : Nat} (valid : js.Valid)
    (released : Released js idx job js') : js'.view = Function.update js.view job.id none := by
  have owner := valid.occupied idx job released.slot released.nonempty
  funext id
  unfold view
  rw [released.named, FinMap.get_delete]
  by_cases same : id = job.id
  · subst same
    simp
  · rw [if_neg same, Function.update_of_ne same]
    cases named : js.byID.get id with
    | none => rfl
    | some i =>
      have apart : i ≠ idx := by
        rintro rfl
        exact same (indexed_injective valid named owner)
      simp [released.otherSlots i apart]

theorem released_get {js js' : JobStore} {job : Job} {idx : Nat} (valid : js.Valid)
    (released : Released js idx job js') (i : Nat) :
    js'.get i = if i = idx then none else js.get i := by
  rw [get_eq released.valid, get_eq valid]
  split
  · rename_i same
    subst same
    rw [released.emptied]
    rfl
  · rename_i apart
    rw [released.otherSlots i apart]

/-- A job created and released at once leaves what the store shows as it was. -/
structure Refused (js js' : JobStore) : Prop where
  get : ∀ i, js'.get i = js.get i
  named : ∀ id, js'.byID.get id = js.byID.get id
  view : js'.view = js.view
  length : js'.jobs.length ≤ js.jobs.length + 1
  grows : js.jobs.length ≤ js'.jobs.length
  valid : js'.Valid

theorem created_released {js created released : JobStore} {job : Job} {idx : Nat} (valid : js.Valid)
    (first : Created js job idx created) (second : Released created idx job released) :
    Refused js released where
  get := by
    intro i
    rw [released_get first.valid second, created_get valid first]
    by_cases same : i = idx
    · subst same
      rw [if_pos rfl, created_empty valid first]
    · rw [if_neg same, if_neg same]
  named := by
    intro id
    rw [second.named, first.named, FinMap.get_delete, FinMap.get_set]
    by_cases same : id = job.id
    · subst same
      rw [if_pos rfl, first.fresh]
    · rw [if_neg same, if_neg same]
  view := by
    rw [released_view first.valid second, created_view first, Function.update_idem]
    have absent : js.view job.id = none := (view_none valid job.id).mpr first.fresh
    rw [← absent, Function.update_eq_self]
  length := by
    rw [second.length]
    exact (created_length first).1
  grows := by
    rw [second.length]
    rcases first.origin with ⟨_, _, same⟩ | ⟨_, _, _, grown⟩ <;> omega
  valid := second.valid

/-- Dropping an ID releases its slot; an unknown ID changes nothing. -/
theorem forceRelease_spec {js js' : JobStore} {id : String} (valid : js.Valid)
    (ok : js.forceRelease id = .ok js') :
    (js.byID.get id = none ∧ js' = js) ∨
      ∃ i job, js.byID.get id = some i ∧ job.id = id ∧ Released js i job js' := by
  unfold forceRelease at ok
  cases named : js.byID.get id with
  | none =>
    simp only [named] at ok
    cases ok
    exact Or.inl ⟨rfl, rfl⟩
  | some i =>
    simp only [named] at ok
    obtain ⟨job, slot, same⟩ := valid.indexed id i named
    exact Or.inr ⟨i, job, rfl, same, released_of_slot valid slot ok⟩

/-- Only a job without an ID cannot be dropped. -/
theorem forceRelease_ok {js : JobStore} (valid : js.Valid) {id : String} (anonymous : id = "" → js.byID.get "" = none) :
    ∃ js', js.forceRelease id = .ok js' := by
  unfold forceRelease
  cases named : js.byID.get id with
  | none => exact ⟨js, rfl⟩
  | some i =>
    obtain ⟨job, slot, rfl⟩ := valid.indexed id i named
    refine release_ok valid slot ?_
    intro empty
    rw [empty, anonymous empty] at named
    cases named

theorem forceRelease_anonymous {js : JobStore} {i : Nat} (valid : js.Valid) (held : js.byID.get "" = some i) :
    js.forceRelease "" = .error .doubleRelease := by
  obtain ⟨job, slot, empty⟩ := valid.indexed "" i held
  have inside : ¬ i ≥ uint32 js.jobs.length := by
    rw [uint32_length valid]
    exact Nat.not_le.mpr (List.getElem?_eq_some_iff.mp slot).1
  simp only [forceRelease, held, release, if_neg inside, slot, empty, if_pos]

/-- Finishing a job keeps its slot and sets its flag. -/
structure Marked (js : JobStore) (id : String) (js' : JobStore) : Prop where
  named : js'.byID = js.byID
  free : js'.freeList = js.freeList
  length : js'.jobs.length = js.jobs.length
  slots : ∀ i, js.byID.get id ≠ some i → js'.jobs[i]? = js.jobs[i]?
  flagged : ∀ i job, js.byID.get id = some i → js.jobs[i]? = some job →
    js'.jobs[i]? = some { job with done := true }
  valid : js'.Valid

theorem markDone_spec {js : JobStore} (id : String) (valid : js.Valid) :
    ∃ js', js.markDone id = .ok js' ∧ Marked js id js' := by
  unfold markDone
  cases named : js.byID.get id with
  | none =>
    exact ⟨js, rfl, rfl, rfl, rfl, fun _ _ => rfl, fun _ _ found _ => by simp [named] at found, valid⟩
  | some idx =>
    obtain ⟨job, slot, same⟩ := valid.indexed id idx named
    have bound : idx < js.jobs.length := (List.getElem?_eq_some_iff.mp slot).1
    simp only [slot]
    have set_self : (js.jobs.set idx { job with done := true })[idx]? = some { job with done := true } := by
      simp [bound]
    have set_other : ∀ i, i ≠ idx → (js.jobs.set idx { job with done := true })[i]? = js.jobs[i]? :=
      fun i apart => List.getElem?_set_ne (Ne.symm apart)
    refine ⟨_, rfl, rfl, rfl, by simp, ?_, ?_, ?_⟩
    · intro i apart
      exact set_other i (fun clash => apart (by rw [named, clash]))
    · intro i other here found
      have unique : idx = i := Option.some.inj (named.symm.trans here)
      subst unique
      rw [slot] at found
      cases found
      exact set_self
    · refine ⟨by simpa using valid.small, ?_, ?_, ?_, valid.freedOnce⟩
      · intro other i found
        by_cases at_idx : i = idx
        · subst at_idx
          exact ⟨_, set_self, same.trans (indexed_injective valid named found)⟩
        · simp only [set_other i at_idx]
          exact valid.indexed other i found
      · intro i other found nonempty
        by_cases at_idx : i = idx
        · subst at_idx
          simp only [set_self, Option.some.injEq] at found
          subst found
          exact valid.occupied i job slot nonempty
        · simp only [set_other i at_idx] at found
          exact valid.occupied i other found nonempty
      · intro i member
        obtain ⟨⟨empty, held, blank⟩, anonymous⟩ := valid.freed i member
        refine ⟨?_, anonymous⟩
        by_cases at_idx : i = idx
        · subst at_idx
          rw [slot] at held
          cases held
          exact ⟨_, set_self, blank⟩
        · simp only [set_other i at_idx]
          exact ⟨empty, held, blank⟩

theorem marked_get {js js' : JobStore} {id : String} (valid : js.Valid) (marked : Marked js id js') (i : Nat) :
    js'.get i = (js.get i).map fun job => if job.id = id then { job with done := true } else job := by
  rw [get_eq marked.valid, get_eq valid]
  cases slot : js.jobs[i]? with
  | none =>
    have bound : js.jobs.length ≤ i := List.getElem?_eq_none_iff.mp slot
    rw [List.getElem?_eq_none (by rw [marked.length]; exact bound)]
    rfl
  | some job =>
    by_cases here : js.byID.get id = some i
    · obtain ⟨other, found, same⟩ := valid.indexed id i here
      rw [slot] at found
      cases found
      subst same
      rw [marked.flagged i job here slot]
      by_cases blank : job.id = ""
      · simp [Option.filter_some, blank]
      · simp [Option.filter_some, blank]
    · rw [marked.slots i here, slot]
      by_cases blank : job.id = ""
      · simp [Option.filter_some, blank]
      · have apart : job.id ≠ id := by
          rintro rfl
          exact here (valid.occupied i job slot blank)
        simp [Option.filter_some, blank, apart]

theorem marked_view {js js' : JobStore} {id : String} (valid : js.Valid) (marked : Marked js id js') :
    js'.view = Function.update js.view id ((js.view id).map fun job => { job with done := true }) := by
  funext other
  unfold view
  rw [marked.named]
  by_cases same : other = id
  · subst same
    rw [Function.update_self]
    cases named : js.byID.get other with
    | none => rfl
    | some i =>
      obtain ⟨job, slot, _⟩ := valid.indexed other i named
      simp [slot, marked.flagged i job named slot]
  · rw [Function.update_of_ne same]
    cases named : js.byID.get other with
    | none => rfl
    | some i =>
      have apart : js.byID.get id ≠ some i := fun clash => same (indexed_injective valid named clash)
      simp [marked.slots i apart]

end Cue.State.JobStore
