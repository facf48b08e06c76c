import Cue.JobStoreProofs
import Cue.Lib.Run

/-! A store that never sees an empty ID. Then the empty slots are exactly the
free ones and the ID index names exactly the occupied ones, through every
sequence of operations, and each operation is one on a finite map from IDs to
jobs. The slot count only grows, so a store below `2^32` slots has been there
all along. -/
namespace Cue.State.JobStore
open Cue.Lib Cue.Model

/-- Slots, free list and ID index say the same. -/
structure Exact (js : JobStore) : Prop where
  named : ∀ id i, js.byID.get id = some i ↔ id ≠ "" ∧ ∃ job, js.jobs[i]? = some job ∧ job.id = id
  single : ∀ (i k : Nat) job other, js.jobs[i]? = some job → js.jobs[k]? = some other →
    job.id ≠ "" → job.id = other.id → i = k
  free : ∀ i, i ∈ js.freeList ↔ ∃ job, js.jobs[i]? = some job ∧ job.id = ""
  freeOnce : js.freeList.Nodup

/-- The representation invariant when no job has an empty ID. -/
structure Tight (js : JobStore) : Prop where
  valid : js.Valid
  identified : js.byID.get "" = none
  listed : ∀ (i : Nat) job, js.jobs[i]? = some job → job.id = "" → i ∈ js.freeList

theorem Tight.exact {js : JobStore} (tight : js.Tight) : js.Exact where
  named := by
    intro id i
    constructor
    · intro found
      refine ⟨?_, tight.valid.indexed id i found⟩
      rintro rfl
      rw [tight.identified] at found
      cases found
    · rintro ⟨nonempty, job, slot, rfl⟩
      exact tight.valid.occupied i job slot nonempty
  single := by
    intro i k job other here there nonempty same
    have first := tight.valid.occupied i job here nonempty
    have second := tight.valid.occupied k other there (same ▸ nonempty)
    rw [same, second] at first
    exact (Option.some.inj first).symm
  free := by
    intro i
    constructor
    · intro member
      exact (tight.valid.freed i member).1
    · rintro ⟨job, slot, empty⟩
      exact tight.listed i job slot empty
  freeOnce := tight.valid.freedOnce

/-- Looking a job up by its ID reads the map the store stands for. -/
theorem Tight.getByID_eq {js : JobStore} (tight : js.Tight) (id : String) : js.getByID id = js.view id := by
  unfold getByID view
  cases found : js.byID.get id with
  | none => rfl
  | some i =>
    obtain ⟨nonempty, job, slot, same⟩ := (tight.exact.named id i).mp found
    have visible : js.get i = some job := (get_some tight.valid).mpr ⟨slot, same ▸ nonempty⟩
    simp only [Option.bind_some, visible, slot]

/-! ### One operation -/

inductive StoreOp where
  | create (job : Job)
  | release (idx : Nat)
  | markDone (jobID : String)
  | releaseIfDone (jobID : String)
  | forceRelease (jobID : String)

/-- The store after an operation; a refused `Create` leaves it as it was. -/
def perform (js : JobStore) : StoreOp → Except Panic JobStore
  | .create job => do
    match ← js.create job with
    | none => .ok js
    | some (_, created) => .ok created
  | .release idx => js.release idx
  | .markDone jobID => js.markDone jobID
  | .releaseIfDone jobID => do
    let (_, released) ← js.releaseIfDone jobID
    .ok released
  | .forceRelease jobID => js.forceRelease jobID

/-- Jobs have IDs, and only occupied slots are released. -/
def Admits (js : JobStore) : StoreOp → Prop
  | .create job => job.id ≠ ""
  | .release idx => ∃ job, js.jobs[idx]? = some job ∧ job.id ≠ ""
  | .markDone _ | .releaseIfDone _ | .forceRelease _ => True

/-- What an operation means for the map from IDs to jobs: insertion, deletion
of the ID in a slot, setting a flag, deletion of an ID. -/
def onMap (js : JobStore) (jobs : FinMap String Job) : StoreOp → FinMap String Job
  | .create job => if jobs.contains job.id then jobs else jobs.set job.id job
  | .release idx =>
    match js.jobs[idx]? with
    | none => jobs
    | some job => jobs.delete job.id
  | .markDone jobID =>
    match jobs.get jobID with
    | none => jobs
    | some job => jobs.set jobID { job with done := true }
  | .releaseIfDone jobID =>
    match jobs.get jobID with
    | none => jobs
    | some job => if job.done then jobs.delete jobID else jobs
  | .forceRelease jobID => jobs.delete jobID

/-- The map holds what the store holds. -/
def Represents (js : JobStore) (jobs : FinMap String Job) : Prop := ∀ id, js.view id = jobs.get id

theorem Represents.contains {js : JobStore} {jobs : FinMap String Job} (valid : js.Valid)
    (same : js.Represents jobs) (id : String) : jobs.contains id = js.byID.contains id := by
  rw [← view_isSome valid, same id]
  rfl

/-- No operation gives slots back. -/
theorem length_le_release {js js' : JobStore} {idx : Nat} (ok : js.release idx = .ok js') :
    js.jobs.length ≤ js'.jobs.length := by
  unfold release at ok
  split at ok
  · cases ok
    exact Nat.le_refl _
  · split at ok
    · cases ok
    · split at ok
      · cases ok
      · cases ok
        simp

theorem length_le_create {js js' : JobStore} {job : Job} {idx : Nat}
    (ok : js.create job = .ok (some (idx, js'))) : js.jobs.length ≤ js'.jobs.length := by
  unfold create at ok
  split at ok
  · cases ok
  · split at ok
    · split at ok
      · cases ok
      · split at ok
        · cases ok
        · cases ok
          simp
    · cases ok
      simp

theorem releaseIfDone_cases {js js' : JobStore} {id : String} {freed : Bool}
    (ok : js.releaseIfDone id = .ok (freed, js')) : js' = js ∨ ∃ idx, js.release idx = .ok js' := by
  unfold releaseIfDone at ok
  split at ok
  · cases ok
    exact .inl rfl
  · split at ok
    · cases ok
    · split at ok
      · obtain ⟨after, released, done⟩ := bind_ok ok
        cases done
        exact .inr ⟨_, released⟩
      · cases ok
        exact .inl rfl

theorem length_le_perform {js js' : JobStore} {op : StoreOp} (ok : js.perform op = .ok js') :
    js.jobs.length ≤ js'.jobs.length := by
  cases op with
  | create job =>
    obtain ⟨result, created, done⟩ := bind_ok ok
    cases result with
    | none => cases done; exact Nat.le_refl _
    | some pair => cases done; exact length_le_create created
  | release idx => exact length_le_release ok
  | markDone id =>
    change js.markDone id = _ at ok
    unfold markDone at ok
    split at ok
    · cases ok
      exact Nat.le_refl _
    · split at ok
      · cases ok
      · cases ok
        simp
  | releaseIfDone id =>
    obtain ⟨⟨freed, after⟩, released, done⟩ := bind_ok ok
    cases done
    rcases releaseIfDone_cases released with rfl | ⟨idx, slot⟩
    · exact Nat.le_refl _
    · exact length_le_release slot
  | forceRelease id =>
    change js.forceRelease id = _ at ok
    unfold forceRelease at ok
    split at ok
    · cases ok
      exact Nat.le_refl _
    · exact length_le_release ok

section Step

variable {js js' : JobStore} {jobs : FinMap String Job}

theorem created_tight {job : Job} {idx : Nat} (tight : js.Tight) (named : job.id ≠ "")
    (created : Created js job idx js') : js'.Tight where
  valid := created.valid
  identified := by
    rw [created.named, FinMap.get_set, if_neg (Ne.symm named)]
    exact tight.identified
  listed := by
    intro i other slot empty
    have apart : i ≠ idx := by
      rintro rfl
      rw [created.slot] at slot
      cases slot
      exact named empty
    rw [created.otherSlots i apart] at slot
    have before := tight.listed i other slot empty
    rcases created.origin with ⟨last, rest, _⟩ | ⟨none, _⟩
    · rw [← List.dropLast_append_getLast? idx last, List.mem_append, List.mem_singleton] at before
      rw [rest]
      exact before.resolve_right apart
    · rw [none] at before
      cases before

theorem created_represents {job : Job} {idx : Nat} (same : js.Represents jobs)
    (created : Created js job idx js') : js'.Represents (jobs.set job.id job) := by
  intro id
  rw [created_view created, FinMap.get_set, Function.update_apply, same id]

theorem released_tight {job : Job} {idx : Nat} (tight : js.Tight) (released : Released js idx job js') :
    js'.Tight where
  valid := released.valid
  identified := by
    rw [released.named, FinMap.get_delete, if_neg (Ne.symm released.nonempty)]
    exact tight.identified
  listed := by
    intro i other slot empty
    rw [released.free, List.mem_append, List.mem_singleton]
    by_cases here : i = idx
    · exact .inr here
    · rw [released.otherSlots i here] at slot
      exact .inl (tight.listed i other slot empty)

theorem released_represents {job : Job} {idx : Nat} (tight : js.Tight) (same : js.Represents jobs)
    (released : Released js idx job js') : js'.Represents (jobs.delete job.id) := by
  intro id
  rw [released_view tight.valid released, FinMap.get_delete, Function.update_apply, same id]

/-- An occupied slot is emptied. -/
theorem Tight.release {job : Job} {idx : Nat} (tight : js.Tight) (same : js.Represents jobs)
    (slot : js.jobs[idx]? = some job) (nonempty : job.id ≠ "") :
    ∃ js', js.release idx = .ok js' ∧ js'.Tight ∧ js'.Represents (jobs.delete job.id) := by
  obtain ⟨js', ok⟩ := release_ok tight.valid slot nonempty
  have released := released_of_slot tight.valid slot ok
  exact ⟨js', ok, released_tight tight released, released_represents tight same released⟩

/-- A known ID has an occupied slot, and the map holds the job in it. -/
theorem Tight.known {id : String} {i : Nat} (tight : js.Tight) (same : js.Represents jobs)
    (found : js.byID.get id = some i) :
    ∃ job, js.jobs[i]? = some job ∧ job.id = id ∧ id ≠ "" ∧ jobs.get id = some job := by
  obtain ⟨nonempty, job, slot, named⟩ := (tight.exact.named id i).mp found
  exact ⟨job, slot, named, nonempty, (same id).symm.trans (view_some.mpr ⟨i, found, slot⟩)⟩

theorem Represents.unknown {id : String} (same : js.Represents jobs) (absent : js.byID.get id = none) :
    jobs.get id = none := by
  rw [← same id, view, absent]
  rfl

theorem Represents.delete_unknown {id : String} (same : js.Represents jobs) (absent : js.byID.get id = none) :
    js.Represents (jobs.delete id) := by
  rw [FinMap.delete_of_not_contains (by rw [FinMap.contains, same.unknown absent]; rfl)]
  exact same

theorem marked_tight {id : String} (tight : js.Tight) (marked : Marked js id js') : js'.Tight where
  valid := marked.valid
  identified := by
    rw [marked.named]
    exact tight.identified
  listed := by
    intro i job slot empty
    rw [marked.free]
    by_cases here : js.byID.get id = some i
    · obtain ⟨nonempty, old, held, same⟩ := (tight.exact.named id i).mp here
      rw [marked.flagged i old here held] at slot
      cases slot
      exact absurd (same.symm.trans empty) nonempty
    · rw [marked.slots i here] at slot
      exact tight.listed i job slot empty

theorem marked_represents {id : String} (tight : js.Tight) (same : js.Represents jobs)
    (marked : Marked js id js') : js'.Represents (js.onMap jobs (.markDone id)) := by
  intro other
  rw [marked_view tight.valid marked, Function.update_apply, same id, same other]
  cases held : jobs.get id with
  | none =>
    simp only [onMap, held]
    split
    · rename_i here
      rw [here, held]
      rfl
    · rfl
  | some job =>
    simp only [onMap, held]
    exact (FinMap.get_set jobs id other _).symm

/-- A job that is taken was unknown, and goes where there was none. -/
theorem create_some {job : Job} {idx : Nat} (small : js.jobs.length < 2 ^ 32)
    (ok : js.create job = .ok (some (idx, js'))) :
    js.byID.contains job.id = false ∧ js.get idx = none ∧
      js'.jobs[idx]? = some job ∧ ∀ i, i ≠ idx → js'.jobs[i]? = js.jobs[i]? := by
  have unwrapped : uint32 js.jobs.length = js.jobs.length := Nat.mod_eq_of_lt small
  unfold create at ok
  split at ok
  · cases ok
  · rename_i unknown
    refine ⟨by simpa using unknown, ?_⟩
    split at ok
    · split at ok
      · cases ok
      · rename_i slot found
        have inside := (List.getElem?_eq_some_iff.mp found).1
        split at ok
        · cases ok
        · rename_i empty
          cases ok
          refine ⟨?_, List.getElem?_set_self inside, fun i apart => List.getElem?_set_ne (Ne.symm apart)⟩
          have blank : slot.id = "" := not_not.mp empty
          simp only [get, found, Option.filter_some, blank, ne_eq, not_true_eq_false, decide_false,
            Bool.false_eq_true, ↓reduceIte, ite_self]
    · cases ok
      rw [unwrapped]
      refine ⟨by rw [get, unwrapped, if_pos (Nat.le_refl _)], by simp, ?_⟩
      intro i apart
      rcases Nat.lt_or_gt_of_ne apart with below | above
      · exact List.getElem?_append_left below
      · rw [List.getElem?_eq_none (by simp; omega), List.getElem?_eq_none (by omega)]

/-- `Create` refuses a known ID and inserts any other. The slot that would be
number `2^32` can still be taken, but not be found again. -/
theorem Tight.create {job : Job} (tight : js.Tight) (same : js.Represents jobs) (named : job.id ≠ "") :
    (js.create job = .ok none ∧ jobs.contains job.id = true) ∨
      ∃ idx js', js.create job = .ok (some (idx, js')) ∧ jobs.contains job.id = false ∧
        (js'.jobs.length < 2 ^ 32 → js'.Tight ∧ js'.Represents (jobs.set job.id job)) := by
  have small := tight.valid.small
  rw [same.contains tight.valid]
  by_cases room : js.freeList = [] → js.jobs.length + 1 < 2 ^ 32
  · rcases create_cases job tight.valid room with ⟨refused, known⟩ | ⟨idx, js', ok, created⟩
    · exact .inl ⟨refused, (FinMap.contains_iff _ _).mpr known⟩
    · exact .inr ⟨idx, js', ok, (create_some small ok).1,
        fun _ => ⟨created_tight tight named created, created_represents same created⟩⟩
  · rw [Classical.not_imp] at room
    rcases create_last job room.1 (by omega) with ⟨refused, known⟩ | ⟨idx, js', ok, full⟩
    · exact .inl ⟨refused, (FinMap.contains_iff _ _).mpr known⟩
    · exact .inr ⟨idx, js', ok, (create_some small ok).1, fun below => absurd full (Nat.ne_of_lt below)⟩

/-- Every admitted operation succeeds. While the slots can be counted in 32
bits it keeps the invariant and does to the map what it is meant to do. -/
theorem perform_spec {op : StoreOp} (tight : js.Tight) (same : js.Represents jobs) (admitted : js.Admits op) :
    ∃ js', js.perform op = .ok js' ∧
      (js'.jobs.length < 2 ^ 32 → js'.Tight ∧ js'.Represents (js.onMap jobs op)) := by
  cases op with
  | create job =>
    simp only [perform, onMap]
    rcases tight.create same admitted with ⟨refused, known⟩ | ⟨idx, js', created, fresh, inserted⟩
    · rw [refused, if_pos known]
      exact ⟨js, rfl, fun _ => ⟨tight, same⟩⟩
    · rw [created, fresh]
      exact ⟨js', rfl, inserted⟩
  | release idx =>
    obtain ⟨job, slot, nonempty⟩ := admitted
    obtain ⟨js', ok, kept, shown⟩ := tight.release same slot nonempty
    refine ⟨js', ok, fun _ => ⟨kept, ?_⟩⟩
    rw [onMap, slot]
    exact shown
  | markDone id =>
    obtain ⟨js', ok, marked⟩ := markDone_spec id tight.valid
    exact ⟨js', ok, fun _ => ⟨marked_tight tight marked, marked_represents tight same marked⟩⟩
  | releaseIfDone id =>
    simp only [perform, onMap, releaseIfDone]
    cases found : js.byID.get id with
    | none =>
      rw [same.unknown found]
      exact ⟨js, rfl, fun _ => ⟨tight, same⟩⟩
    | some i =>
      obtain ⟨job, slot, rfl, nonempty, held⟩ := tight.known same found
      obtain ⟨js', ok, kept, shown⟩ := tight.release same slot nonempty
      simp only [slot, held]
      split
      · rw [ok]
        exact ⟨js', rfl, fun _ => ⟨kept, shown⟩⟩
      · exact ⟨js, rfl, fun _ => ⟨tight, same⟩⟩
  | forceRelease id =>
    cases found : js.byID.get id with
    | none =>
      exact ⟨js, by simp only [perform, forceRelease, found], fun _ => ⟨tight, same.delete_unknown found⟩⟩
    | some i =>
      obtain ⟨job, slot, rfl, nonempty, _⟩ := tight.known same found
      obtain ⟨js', ok, kept, shown⟩ := tight.release same slot nonempty
      exact ⟨js', by simp only [perform, forceRelease, found, ok], fun _ => ⟨kept, shown⟩⟩

end Step

/-! ### Whole runs -/

/-- The stores that sequences of operations make from a new one. -/
abbrev Reached (capacity : Nat) : List StoreOp → JobStore → Prop :=
  Run (fun js op js' => js.perform op = .ok js') (fun _ => Admits) (new capacity)

theorem new_tight (capacity : Nat) : (new capacity).Tight where
  valid := new_valid capacity
  identified := rfl
  listed := by simp [new]

theorem Reached.tight {capacity : Nat} {ops : List StoreOp} {js : JobStore} (run : Reached capacity ops js)
    (small : js.jobs.length < 2 ^ 32) : js.Tight ∧ ∃ jobs, js.Represents jobs := by
  refine Run.invariant (fun _ js => js.jobs.length < 2 ^ 32 → js.Tight ∧ ∃ jobs, js.Represents jobs)
    ?_ ?_ run small
  · exact fun _ => ⟨new_tight capacity, .empty, fun _ => rfl⟩
  · intro ops js op js' before admitted ok small'
    obtain ⟨tight, jobs, same⟩ := before (Nat.lt_of_le_of_lt (length_le_perform ok) small')
    obtain ⟨after, done, kept⟩ := perform_spec tight same admitted
    rw [ok] at done
    cases done
    exact ⟨(kept small').1, _, (kept small').2⟩

/-- In every store below `2^32` slots that operations on identified jobs lead
to, slots, free list and ID index correspond exactly. `Create` does not panic
and only fills a slot without a job, and refuses a job only for its ID being
there. There is a finite map that `GetByID` looks up in, and every operation
succeeds and does its operation on that map. -/
theorem reached_is_map {capacity : Nat} {ops : List StoreOp} {js : JobStore} (run : Reached capacity ops js)
    (small : js.jobs.length < 2 ^ 32) :
    js.Exact ∧
    (∀ job, job.id ≠ "" → (js.create job = .ok none ∧ (js.getByID job.id).isSome) ∨
      ∃ idx js', js.create job = .ok (some (idx, js')) ∧ js.getByID job.id = none ∧ js.get idx = none ∧
        js'.jobs[idx]? = some job ∧ ∀ i, i ≠ idx → js'.jobs[i]? = js.jobs[i]?) ∧
    ∃ jobs : FinMap String Job, (∀ id, js.getByID id = jobs.get id) ∧
      ∀ op, js.Admits op → ∃ js', js.perform op = .ok js' ∧
        (js'.jobs.length < 2 ^ 32 → ∀ id, js'.getByID id = (js.onMap jobs op).get id) := by
  obtain ⟨tight, jobs, same⟩ := run.tight small
  refine ⟨tight.exact, ?_, jobs, fun id => (tight.getByID_eq id).trans (same id), ?_⟩
  · intro job named
    rw [tight.getByID_eq, same]
    rcases tight.create same named with ⟨refused, known⟩ | ⟨idx, js', ok, fresh, _⟩
    · exact .inl ⟨refused, known⟩
    · refine .inr ⟨idx, js', ok, ?_, (create_some small ok).2⟩
      simpa [FinMap.contains] using fresh
  · intro op admitted
    obtain ⟨js', ok, kept⟩ := perform_spec tight same admitted
    refine ⟨js', ok, fun small' id => ?_⟩
    obtain ⟨tight', same'⟩ := kept small'
    rw [tight'.getByID_eq, same']

private def jobNamed (id : String) : Job := { Job.zero with id := id }

/-- Two jobs in a store made for one, one of them done and freed, and a third in its slot. -/
private def reuseOps : List StoreOp :=
  [.create (jobNamed "a"), .create (jobNamed "b"), .markDone "a", .releaseIfDone "a", .create (jobNamed "c")]

private def reused : JobStore where
  jobs := [jobNamed "c", jobNamed "b"]
  freeList := []
  byID := (FinMap.empty.set "b" 1).set "c" 0
  cap := 1025

private theorem reuse_reached : Reached 1 reuseOps reused := by
  have named : ∀ id, id ≠ "" → (jobNamed id).id ≠ "" := fun _ nonempty => nonempty
  exact .next (.next (.next (.next (.next .start (named "a" (by simp)) rfl) (named "b" (by simp)) rfl)
    trivial rfl) trivial rfl) (named "c" (by simp)) rfl

theorem reused_is_map : reused.Exact ∧ reused.getByID "c" = some (jobNamed "c") ∧ reused.getByID "a" = none :=
  ⟨(reached_is_map reuse_reached (by simp [reused])).1, rfl, rfl⟩

end Cue.State.JobStore
