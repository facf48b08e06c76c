import Cue.Lib.Slices
import Mathlib.Logic.Function.Basic

/-! `internal/cluster/dlq.go`: the lines of dead jobs, on their way to a file.
Appends collect lines in one of two buffers; when it is full the buffers change
their roles and a goroutine writes the full one. The buffers are slices, and what
is being written shares its array with the buffer it was taken from.

Each function is one section under the lock, or one write to the file. A line
carries the call of `AppendBatch` it came from, which no step reads. The capacity
that an append gives to a full slice is a parameter. Rotation, the file's size and
writes that fail are left out; a file that was closed cannot be written. -/
namespace Cue.Cluster
open Cue.Lib

/-- A goroutine of `write` that has not yet reported the end of its batch. -/
inductive DLQWriter where
  | started
  | captured (batch : Slice)
  | persisting (batch : Slice) (next : Nat)
  | failed
  deriving DecidableEq, Repr

structure DLQFileManager (T : Type) where
  heap : SliceHeap (T × String)
  /-- which of the two buffers; the first one is `false` -/
  active : Bool
  buffers : Bool → Slice
  flushing : Option Slice
  busy : Bool
  closed : Bool
  /-- `writeFile` is not nil -/
  writable : Bool
  file : List (T × String)
  writers : List DLQWriter
  /-- the goroutines of `write` that have still to check for a chained flush -/
  checking : Nat

namespace DLQFileManager

variable {T : Type}

def initialCap : Nat := 4096

/-- A manager of an empty file. -/
def new : DLQFileManager T where
  heap := ⟨[⟨initialCap, []⟩, ⟨initialCap, []⟩]⟩
  active := false
  buffers := fun i => ⟨i.toNat, 0⟩
  flushing := none
  busy := false
  closed := false
  writable := true
  file := []
  writers := []
  checking := 0

def formatLine (timestamp : Int) (topic jobID : String) : String :=
  toString timestamp ++ "|" ++ topic ++ "|" ++ jobID ++ "\n"

def activeBuffer (m : DLQFileManager T) : Slice := m.buffers m.active

def appendLine (grown : Nat → Nat) (m : DLQFileManager T) (line : T × String) : DLQFileManager T :=
  let (heap, buffer) := m.heap.append grown m.activeBuffer line
  { m with heap := heap, buffers := Function.update m.buffers m.active buffer }

/-- A buffer that has been filled to its capacity. -/
def full (m : DLQFileManager T) : Bool := m.activeBuffer.len ≥ m.heap.capacity m.activeBuffer

def grow (m : DLQFileManager T) (i : Bool) : DLQFileManager T :=
  let newCap := m.heap.capacity (m.buffers i) * 2
  let (heap, buffer) := m.heap.make (if newCap = 0 then initialCap else newCap)
  { m with heap := heap, buffers := Function.update m.buffers i buffer }

/-- The goroutine that writes the buffer `idx` is started. -/
def startFlush (m : DLQFileManager T) (idx : Bool) : DLQFileManager T :=
  { m with
    flushing := some (m.buffers idx)
    buffers := Function.update m.buffers idx ⟨(m.buffers idx).array, 0⟩
    busy := true
    writers := m.writers ++ [.started] }

def triggerFlushLocked (m : DLQFileManager T) : DLQFileManager T :=
  let idx := m.active
  let newIdx := !idx
  if (m.buffers idx).len = 0 then m
  else if (m.buffers newIdx).len > 0 then m
  else
    let flushed := (m.buffers idx).len
    let m := m.startFlush idx
    let m := if m.heap.capacity (m.buffers newIdx) < flushed * 2 then m.grow newIdx else m
    { m with active := newIdx }

/-- `AppendBatch` under the lock. -/
def appendBatch (grown : Nat → Nat) (m : DLQFileManager T) (call : T) (lines : List String) : DLQFileManager T :=
  let m := lines.foldl (fun m line => m.appendLine grown (call, line)) m
  if m.full ∧ m.busy = false then m.triggerFlushLocked else m

/-- The next section of a writer, and where it is then. A writer whose batch is on
file has only the check for a chained flush left. -/
def write (m : DLQFileManager T) : DLQWriter → DLQFileManager T × Option DLQWriter
  | .started =>
    match m.flushing with
    | some batch => if batch.len = 0 then ({ m with busy := false }, none) else (m, some (.captured batch))
    | none => ({ m with busy := false }, none)
  | .captured batch => if m.writable then (m, some (.persisting batch 0)) else (m, some .failed)
  | .persisting batch next =>
    match (m.heap.content batch)[next]? with
    | some line =>
      if m.writable then ({ m with file := m.file ++ [line] }, some (.persisting batch (next + 1)))
      else (m, some .failed)
    | none => ({ m with flushing := none, busy := false, checking := m.checking + 1 }, none)
  | .failed => if m.closed then ({ m with busy := false }, none) else (m, some .started)

/-- One section of one of the writers. -/
def writeSection (m : DLQFileManager T) (w : DLQWriter) : DLQFileManager T :=
  let (m, next) := { m with writers := m.writers.erase w }.write w
  { m with writers := next.toList ++ m.writers }

/-- The check for a chained flush, which does not look at `busy`. -/
def checkChained (m : DLQFileManager T) : DLQFileManager T :=
  let m := { m with checking := m.checking - 1 }
  if m.closed = false ∧ m.full then m.triggerFlushLocked else m

/-- `len(m.flushing)`, which is zero for nil. -/
def flushingLen (m : DLQFileManager T) : Nat :=
  match m.flushing with
  | some batch => batch.len
  | none => 0

/-- `Close` under the lock: the first of the two buffers that has lines. -/
def closeLocked (m : DLQFileManager T) : DLQFileManager T :=
  if m.busy = false ∧ m.flushingLen = 0 then
    if (m.buffers m.active).len > 0 then m.startFlush m.active
    else if (m.buffers (!m.active)).len > 0 then m.startFlush (!m.active)
    else m
  else m

/-- `wg` has counted down to zero. -/
def finished (m : DLQFileManager T) : Bool := m.writers = [] ∧ m.checking = 0

def finalSync (m : DLQFileManager T) : DLQFileManager T := { m with writable := false }

end DLQFileManager
end Cue.Cluster
