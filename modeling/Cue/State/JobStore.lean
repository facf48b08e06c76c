import Cue.Lib.FinMap
import Cue.Lib.Machine
import Cue.Model.Command

/-! `internal/state/job_store.go`: an array of job slots, the indices of the
freed ones, and the slot of every job ID. A slot is free when its ID is empty. -/
namespace Cue.State
open Cue.Lib Cue.Model

/-- The ways a partition step can take the process down. -/
inductive Panic where
  | doubleRelease
  | freeListCorruption
  | nilDereference
  | indexOutOfRange
  deriving DecidableEq, Repr

structure JobStore where
  jobs : List Job
  freeList : List Nat
  byID : FinMap String Nat
  /-- `cap(js.jobs)` -/
  cap : Nat
  deriving DecidableEq

namespace JobStore

def new (capacity : Nat) : JobStore := ⟨[], [], .empty, capacity⟩

/-- The capacity `Create` reallocates to: half as much again, at least 1024 more. -/
def grow (cap : Nat) : Nat := max (max (cap * 3 / 2) (cap + 1024)) 1024

/-- The slot and the store, or `none` for `ErrDuplicateJobID`. The last freed
slot is reused first; with none free the array grows by one. -/
def create (js : JobStore) (job : Job) : Except Panic (Option (Nat × JobStore)) :=
  if js.byID.contains job.id then .ok none
  else
    match js.freeList.getLast? with
    | some idx =>
      match js.jobs[idx]? with
      | none => .error .indexOutOfRange
      | some slot =>
        if slot.id ≠ "" then .error .freeListCorruption
        else .ok (some (idx, { js with
          jobs := js.jobs.set idx job
          freeList := js.freeList.dropLast
          byID := js.byID.set job.id idx }))
    | none =>
      let idx := uint32 js.jobs.length
      let cap := if idx ≥ js.cap then grow js.cap else js.cap
      .ok (some (idx, { js with
        jobs := js.jobs ++ [job]
        byID := js.byID.set job.id idx
        -- `append` reallocates by itself should the array still be full
        cap := max cap (js.jobs.length + 1) }))

def release (js : JobStore) (idx : Nat) : Except Panic JobStore :=
  if idx ≥ uint32 js.jobs.length then .ok js
  else
    match js.jobs[idx]? with
    | none => .error .indexOutOfRange
    | some job =>
      if job.id = "" then .error .doubleRelease
      else .ok { js with
        byID := js.byID.delete job.id
        jobs := js.jobs.set idx Job.zero
        freeList := js.freeList ++ [idx] }

def markDone (js : JobStore) (jobID : String) : Except Panic JobStore :=
  match js.byID.get jobID with
  | none => .ok js
  | some idx =>
    match js.jobs[idx]? with
    | none => .error .indexOutOfRange
    | some job => .ok { js with jobs := js.jobs.set idx { job with done := true } }

def forceRelease (js : JobStore) (jobID : String) : Except Panic JobStore :=
  match js.byID.get jobID with
  | none => .ok js
  | some idx => js.release idx

/-- The job's slot is freed when it is marked done; the flag says whether it was. -/
def releaseIfDone (js : JobStore) (jobID : String) : Except Panic (Bool × JobStore) :=
  match js.byID.get jobID with
  | none => .ok (false, js)
  | some idx =>
    match js.jobs[idx]? with
    | none => .error .indexOutOfRange
    | some job =>
      if job.done then do
        let released ← js.release idx
        .ok (true, released)
      else .ok (false, js)

/-- `Get`: the job in a slot, `none` past the end or in a released slot. -/
def get (js : JobStore) (idx : Nat) : Option Job :=
  if idx ≥ uint32 js.jobs.length then none
  else (js.jobs[idx]?).filter fun job => job.id ≠ ""

def getByID (js : JobStore) (jobID : String) : Option Job := (js.byID.get jobID).bind js.get

end JobStore
end Cue.State
