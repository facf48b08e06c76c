import Cue.Lib.FinMap

/-! The rotation of the dead-letter file, from `internal/cluster/dlq.go`, and
the files it works on: the current one, a temporary one and the sealed ones,
named after the second they were sealed in. A file is the list of its lines. A
rename replaces what its target was. Each rename may fail; removing, opening and
writing a file succeed here, and the handle for writing is on the current file.
`DLQFile` has the buffers that the lines come from. -/
namespace Cue.Cluster
open Cue.Lib

/-- The files of the data directory; a sealed one is named by the formatted time. -/
inductive DLQName where
  | current
  | temp
  | sealed (stamp : String)
  deriving DecidableEq, Repr

abbrev DLQDirectory := FinMap DLQName (List String)

structure DLQFiles where
  dir : DLQDirectory
  maxSizeBytes : Int
  /-- `writeFile` is not nil -/
  writable : Bool
  fileSize : Nat
  rotating : Bool
  deriving DecidableEq

/-- Whether each rename succeeds, if what it renames is there. -/
structure Renames where
  toTemp : Bool
  toSealed : Bool
  back : Bool
  deriving DecidableEq, Repr

/-- `os.Rename`: `none` if it fails. -/
def DLQDirectory.renameFile (succeeds : Bool) (source target : DLQName) (dir : DLQDirectory) : Option DLQDirectory :=
  match dir.get source with
  | none => none
  | some lines => if succeeds then some ((dir.delete source).set target lines) else none

def byteSize (lines : List String) : Nat := lines.foldl (fun total line => total + line.utf8ByteSize) 0

namespace DLQFiles

/-- The temporary file is removed, and the current one opened or created. -/
def openCurrentFile (m : DLQFiles) : DLQFiles :=
  let dir := m.dir.delete .temp
  let lines := (dir.get .current).getD []
  { m with dir := dir.set .current lines, writable := true, fileSize := byteSize lines }

/-- `NewDLQFileManager` -/
def newManager (dir : DLQDirectory) (maxSizeBytes : Int) : DLQFiles :=
  openCurrentFile ⟨dir, maxSizeBytes, false, 0, false⟩

/-- `doRotate`; `stamp` is the formatted time. -/
def doRotate (m : DLQFiles) (stamp : String) (renames : Renames) : DLQFiles :=
  let m := { m with rotating := false }
  if (m.fileSize : Int) ≤ m.maxSizeBytes ∨ m.writable = false then m
  else
    match DLQDirectory.renameFile renames.toTemp .current .temp m.dir with
    | none => m.openCurrentFile
    | some dir =>
      match DLQDirectory.renameFile renames.toSealed .temp (.sealed stamp) dir with
      | none => { m with dir := (DLQDirectory.renameFile renames.back .temp .current dir).getD dir }.openCurrentFile
      | some dir => { { m with dir := dir }.openCurrentFile with fileSize := 0 }

/-- `persistBatch`: `none` if there is no file to write to. A current file that is
no longer in the directory takes the lines with it. -/
def persistBatch (m : DLQFiles) (batch : List String) : Option DLQFiles :=
  if m.writable then
    let fileSize := m.fileSize + byteSize batch
    some { m with
      dir := match m.dir.get .current with
        | some lines => m.dir.set .current (lines ++ batch)
        | none => m.dir
      fileSize := fileSize
      -- the rotation is started on a goroutine of its own
      rotating := m.rotating || decide ((fileSize : Int) > m.maxSizeBytes) }
  else none

end DLQFiles
end Cue.Cluster
