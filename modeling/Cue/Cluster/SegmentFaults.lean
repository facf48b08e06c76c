import Cue.Cluster.RaftSegment

/-! `AppendBatch` and `rotate` of `internal/cluster/raft_segment.go`, call by call,
when calls to the operating system fail. A failed call changes nothing, except
that `Write` may have written a part of its bytes and that `Close` closes the file
whatever it returns. The log stays as the failed call leaves it: `AppendBatch`
undoes nothing, and `flushBuffer` keeps the batch to pass it again. -/
namespace Cue.Cluster
open Cue.Lib

/-- The calls of `rotate`, in their order. -/
inductive RotateCall where
  | createTemp
  | syncTemp
  | syncOld
  | closeOld
  | renameSealed
  | syncSealed
  | openSealed
  | closeTemp
  | promote
  | syncPromoted
  | openActive
  deriving DecidableEq, Repr

/-- The call that fails while an entry is appended. -/
inductive EntryFault where
  | rotate (call : RotateCall)
  /-- `Write` fails after so many bytes -/
  | write (written : Nat)
  deriving DecidableEq, Repr

/-- The calls of an `AppendBatch` that fail: those for the `i`-th entry, and the
`Sync` at the end. -/
structure Faults where
  entry : Nat → Option EntryFault := fun _ => none
  sync : Bool := false

/-- The log in memory and on disk, and whether `active.writeFile` is closed. -/
structure FallibleWAL where
  wal : SegmentedWAL
  closed : Bool := false
  deriving DecidableEq

inductive AppendError where
  /-- the call failed for a reason outside, such as a full disk -/
  | failed
  /-- `os.ErrClosed` -/
  | closed
  | wal (err : WalError)
  deriving DecidableEq, Repr

/-- An error, and the log as it is left. -/
structure AppendFailure where
  error : AppendError
  left : FallibleWAL
  deriving DecidableEq

/-- `os.Rename`: what is under the new name is replaced. -/
def renameFile (dir : Directory) (old new : FileName) : Option Directory :=
  (dir.get old).map fun file => (dir.delete old).set new file

namespace FallibleWAL

def setDir (s : FallibleWAL) (dir : Directory) : FallibleWAL := { s with wal := { s.wal with dir := dir } }

/-- Step 1 of `rotate`: the file of the next segment under a temporary name. -/
def createTemp (s : FallibleWAL) (fault : Option RotateCall) : Except AppendFailure FallibleWAL :=
  let tmpPath := FileName.tmp s.wal.nextIndex
  if fault = some .createTemp then .error ⟨.failed, s⟩
  else if s.wal.dir.contains tmpPath then .error ⟨.wal .exist, s⟩
  else
    let s := s.setDir (s.wal.dir.set tmpPath [])
    if fault = some .syncTemp then .error ⟨.failed, s⟩ else .ok s

/-- Steps 2 and 3: the active file is closed, gets the name of its range and is
listed as sealed. -/
def sealActive (s : FallibleWAL) (fault : Option RotateCall) : Except AppendFailure FallibleWAL :=
  let sealed : Segment := ⟨s.wal.active.startIndex, s.wal.nextIndex - 1, s.wal.active.size, false⟩
  if s.closed then .error ⟨.closed, s⟩
  else if fault = some .syncOld then .error ⟨.failed, s⟩
  else
    let s := { s with closed := true }
    if fault = some .closeOld ∨ fault = some .renameSealed then .error ⟨.failed, s⟩
    else
      match renameFile s.wal.dir s.wal.active.path sealed.path with
      | none => .error ⟨.wal .notExist, s⟩
      | some dir =>
        let s := s.setDir dir
        if fault = some .syncSealed ∨ fault = some .openSealed then .error ⟨.failed, s⟩
        else .ok { s with wal := { s.wal with segments := s.wal.segments ++ [sealed] } }

/-- Steps 4 and 5: the temporary file becomes the active one. -/
def promoteTemp (s : FallibleWAL) (fault : Option RotateCall) : Except AppendFailure FallibleWAL :=
  let active : Segment := ⟨s.wal.nextIndex, 0, 0, true⟩
  if fault = some .closeTemp ∨ fault = some .promote then .error ⟨.failed, s⟩
  else
    match renameFile s.wal.dir (.tmp s.wal.nextIndex) active.path with
    | none => .error ⟨.wal .notExist, s⟩
    | some dir =>
      let s := s.setDir dir
      if fault = some .syncPromoted ∨ fault = some .openActive then .error ⟨.failed, s⟩
      else .ok { wal := { s.wal with active := active }, closed := false }

def rotate (s : FallibleWAL) (fault : Option RotateCall) : Except AppendFailure FallibleWAL := do
  let s ← s.createTemp fault
  let s ← s.sealActive fault
  s.promoteTemp fault

/-- `Write` and what follows it. If it fails, neither the size nor the next index
takes notice of the bytes that were written. -/
def write (s : FallibleWAL) (fault : Option EntryFault) (be : BufferedEntry) : Except AppendFailure FallibleWAL :=
  let file := (s.wal.dir.get s.wal.active.path).getD []
  if s.closed then .error ⟨.closed, s⟩
  else
    match fault with
    | some (.write written) =>
      .error ⟨.failed, s.setDir (s.wal.dir.set s.wal.active.path (file ++ be.data.take written))⟩
    | _ =>
      if (file ++ be.data).length ≥ maxOffset then .error ⟨.wal .fileTooBig, s⟩
      else .ok { s with wal := { s.wal with
        dir := s.wal.dir.set s.wal.active.path (file ++ be.data)
        active := { s.wal.active with size := s.wal.active.size + be.data.length }
        nextIndex := if be.index + 1 > s.wal.nextIndex then be.index + 1 else s.wal.nextIndex } }

/-- The call of `rotate` that fails, if it comes to that. -/
def rotateFault : Option EntryFault → Option RotateCall
  | some (.rotate call) => some call
  | _ => none

/-- A full segment is sealed before an entry is written. -/
def prepare (s : FallibleWAL) (fault : Option RotateCall) : Except AppendFailure FallibleWAL :=
  if s.wal.active.size ≥ s.wal.segmentSize then s.rotate fault else .ok s

/-- One iteration of `AppendBatch`. -/
def appendEntry (s : FallibleWAL) (fault : Option EntryFault) (be : BufferedEntry) :
    Except AppendFailure FallibleWAL := do
  let s ← s.prepare (rotateFault fault)
  s.write fault be

/-- The whole loop. -/
def appendEntries (s : FallibleWAL) : List BufferedEntry → (Nat → Option EntryFault) →
    Except AppendFailure FallibleWAL
  | [], _ => .ok s
  | be :: rest, faults => do
    let s ← s.appendEntry (faults 0) be
    s.appendEntries rest fun i => faults (i + 1)

def appendBatch (s : FallibleWAL) (entries : List BufferedEntry) (faults : Faults) :
    Except AppendFailure FallibleWAL := do
  let s ← s.appendEntries entries faults.entry
  if s.closed then .error ⟨.closed, s⟩ else if faults.sync then .error ⟨.failed, s⟩ else .ok s

end FallibleWAL
end Cue.Cluster
