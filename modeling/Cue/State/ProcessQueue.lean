import Cue.State.JobStore

/-! `internal/state/process_queue.go`: the records of queued jobs, the first
`liveCount` of them live, the rest tombstones. -/
namespace Cue.State

/-- A job in the queue: the slot it refers to, how often it was sent, the cell
it sits in and the second it is due. -/
structure JobRef where
  index : Int
  retryCount : Int
  cell : Int
  dueTimeSec : Int
  deriving DecidableEq, Repr

def tombstone : JobRef := ⟨-1, -1, -1, -1⟩

/-- `uint32(ref.Index)`, the slot a record refers to. -/
def JobRef.slot (ref : JobRef) : Nat := (ref.index % 2 ^ 32).toNat

structure ProcessQueue where
  records : List JobRef
  liveCount : Nat
  deriving DecidableEq, Repr

namespace ProcessQueue

def new (capacity : Nat) : ProcessQueue := ⟨List.replicate capacity tombstone, 0⟩

/-- The records below `liveCount`, by cell. -/
def live (pq : ProcessQueue) : List JobRef := pq.records.take pq.liveCount

/-- `none` when the queue is full. -/
def addNewJob (pq : ProcessQueue) (job : JobRef) : Option ProcessQueue :=
  if pq.liveCount ≥ pq.records.length then none
  else some {
    records := pq.records.set pq.liveCount { job with cell := pq.liveCount }
    liveCount := pq.liveCount + 1 }

def removeByCellIndex (pq : ProcessQueue) (cell : Int) : ProcessQueue :=
  if cell < 0 ∨ cell ≥ pq.liveCount then pq
  else
    let lastIdx := pq.liveCount - 1
    let records :=
      if cell ≠ lastIdx then
        pq.records.set cell.toNat { pq.records.getD lastIdx tombstone with cell := cell }
      else pq.records
    { records := records.set lastIdx tombstone, liveCount := lastIdx }

/-- The records given are removed from the last to the first. -/
def removeCells (pq : ProcessQueue) (cells : List JobRef) : ProcessQueue :=
  cells.foldr (fun ref pq => pq.removeByCellIndex ref.cell) pq

/-- `now` is the reading of `currentSec`; an invalid cell changes nothing. -/
def updateRetry (pq : ProcessQueue) (cell retryCount delaySec now : Int) : ProcessQueue :=
  if cell < 0 ∨ cell ≥ pq.liveCount then pq
  else { pq with records := pq.records.modify cell.toNat fun job =>
    { job with retryCount := retryCount, dueTimeSec := now + delaySec } }

/-- The two oldest due times found so far, and how many records have each. -/
structure Oldest where
  oldestTime : Int := 2 ^ 63 - 1
  secondTime : Int := 2 ^ 63 - 1
  oldestCount : Nat := 0
  secondCount : Nat := 0
  deriving DecidableEq, Repr

/-- One iteration of `ReadBatch`'s first pass. -/
def Oldest.scan (nowSec : Int) (found : Oldest) (job : JobRef) : Oldest :=
  let due := job.dueTimeSec
  if due ≤ nowSec then
    if due < found.oldestTime then
      { oldestTime := due, oldestCount := 1,
        secondTime := found.oldestTime, secondCount := found.oldestCount }
    else if due = found.oldestTime then { found with oldestCount := found.oldestCount + 1 }
    else if due < found.secondTime then { found with secondTime := due, secondCount := 1 }
    else if due = found.secondTime then { found with secondCount := found.secondCount + 1 }
    else found
  else found

/-- The first `count` live records due at exactly `due`, in cell order. -/
def collect (pq : ProcessQueue) (due : Int) (count : Nat) : List JobRef :=
  (pq.live.filter fun job => job.dueTimeSec = due).take count

def readBatch (pq : ProcessQueue) (count nowSec : Int) : List JobRef :=
  let found := pq.live.foldl (Oldest.scan nowSec) {}
  if found.oldestCount = 0 then []
  else
    let items := pq.collect found.oldestTime count.toNat
    if items.length < count ∧ found.secondCount > 0 then
      items ++ pq.collect found.secondTime (count.toNat - items.length)
    else items

end ProcessQueue
end Cue.State
