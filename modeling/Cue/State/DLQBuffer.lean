import Cue.State.ProcessQueue

/-! `internal/state/dlq.go`: the records of jobs that ran out of retries,
waiting for a batched drop proposal. The buffer shares the partition's store. -/
namespace Cue.State
open Cue.Model

structure DropProposal where
  jobID : String
  topic : String
  timestamp : Int
  deriving DecidableEq, Repr

structure DLQBuffer where
  jobs : List (JobRef × Int)
  bytes : Int
  lastFlush : Int
  maxBytes : Int
  maxAgeMs : Int
  deriving DecidableEq, Repr

namespace DLQBuffer

def new (maxBytes maxAgeMs now : Int) : DLQBuffer := ⟨[], 0, now, maxBytes, maxAgeMs⟩

def shouldFlush (dlq : DLQBuffer) (now : Int) : Bool :=
  dlq.bytes ≥ dlq.maxBytes ∨ now - dlq.lastFlush ≥ dlq.maxAgeMs

def add (dlq : DLQBuffer) (js : JobStore) (jobRef : JobRef) (jobSize : Int) (alreadyDone : Bool) :
    Except Panic (DLQBuffer × JobStore) :=
  if alreadyDone then
    match js.release jobRef.slot with
    | .error panicked => .error panicked
    | .ok js => .ok (dlq, js)
  else .ok ({ dlq with jobs := dlq.jobs ++ [(jobRef, jobSize)], bytes := dlq.bytes + jobSize }, js)

/-- The loop of `Flush`: a `nil` job is dereferenced, a done one released, any
other proposed. -/
def proposals (now : Int) : List (JobRef × Int) → JobStore → Except Panic (List DropProposal × JobStore)
  | [], js => .ok ([], js)
  | (ref, _) :: items, js =>
    match js.get ref.slot with
    | none => .error .nilDereference
    | some job =>
      if job.done then
        match js.release ref.slot with
        | .error panicked => .error panicked
        | .ok js => proposals now items js
      else
        match proposals now items js with
        | .error panicked => .error panicked
        | .ok (drops, js) => .ok (⟨job.id, job.topic, now⟩ :: drops, js)

def flush (dlq : DLQBuffer) (js : JobStore) (now : Int) :
    Except Panic (List DropProposal × DLQBuffer × JobStore) :=
  if dlq.jobs = [] then .ok ([], dlq, js)
  else
    match proposals now dlq.jobs js with
    | .error panicked => .error panicked
    | .ok (drops, js) => .ok (drops, { dlq with jobs := [], bytes := 0, lastFlush := now }, js)

end DLQBuffer
end Cue.State
