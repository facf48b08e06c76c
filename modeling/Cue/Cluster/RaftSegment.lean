import Cue.Lib.FinMap
import Cue.Lib.Machine
import Cue.Model.Command
import Mathlib.Data.List.Sort

/-! `internal/cluster/raft_segment.go` and `helper.go`: the write-ahead log, a
directory of segment files. Each file is a sequence of records: the total
length and the entry's index, eight little-endian bytes each, then the entry
encoded by protobuf.

File names are kept as the numbers they are printed from. `ReadDir` returns them
in the order of their names, which is the order of the numbers as long as these
have at most sixteen digits; on input ordered so, `sort.Slice` moves nothing and
is the stable sort used here. With more digits the order of the names differs,
but segments that start at different indices are sorted in one way only
(`Faithful.sorted_listing`). Indices are natural numbers; the code's `uint64`
arithmetic differs only once an index reaches `2^64 - 1`. I/O errors other than
a missing, existing or overlong file are left out; `SegmentFaults` has those of
appending. -/
namespace Cue.Cluster
open Cue.Lib Cue.Model

inductive EntryType where
  | normal
  | confChange
  | confChangeV2
  | other (n : Nat)
  deriving DecidableEq, Repr

/-- `raftpb.Entry`; `data` is `none` for a nil slice. -/
structure Entry where
  term : UInt64
  index : UInt64
  type : EntryType
  data : Option Bytes
  deriving DecidableEq, Repr

/-- The encodings used from other packages: protobuf for entries, msgpack for
the commands inside them; and the memory there is for what is decoded. -/
structure Codec where
  marshal : Entry → Option Bytes
  unmarshal : Bytes → Option Entry
  /-- `msgpack.Unmarshal` into a `model.Command` -/
  command : Bytes → Option Command
  /-- `msgpack.Marshal` of a `model.Command` -/
  marshalCommand : Command → Except String Bytes
  /-- the largest buffer that the machine can allocate -/
  memory : Nat

/-- What is assumed of `proto.Marshal` and `proto.Unmarshal`: they round trip,
and a message is smaller than protobuf's limit of 2 GiB, which can be allocated. -/
structure Codec.Lawful (codec : Codec) : Prop where
  roundTrip : ∀ entry bytes, codec.marshal entry = some bytes → codec.unmarshal bytes = some entry
  bounded : ∀ entry bytes, codec.marshal entry = some bytes → bytes.length < 2 ^ 31
  room : 2 ^ 31 ≤ codec.memory

/-- What is assumed of `msgpack`: a command is read back as it goes over the wire. -/
structure Codec.LawfulCommands (codec : Codec) : Prop where
  roundTrip : ∀ cmd bytes, codec.marshalCommand cmd = .ok bytes →
    ∃ wire, cmd.onWire = some wire ∧ codec.command bytes = some wire

structure BufferedEntry where
  index : Nat
  data : Bytes
  deriving DecidableEq, Repr

/-- A record: header and payload. -/
def frame (index : Nat) (data : Bytes) : Bytes :=
  littleEndian 8 (16 + data.length) ++ littleEndian 8 index ++ data

def encodeBufferedEntry (codec : Codec) (entry : Entry) : Option BufferedEntry :=
  (codec.marshal entry).map fun data => ⟨entry.index.toNat, frame entry.index.toNat data⟩

/-! ### Reading records -/

inductive WalError where
  | eof
  | unexpectedEOF
  | notExist
  | exist
  | invalidSeek
  | fileTooBig
  | badEntry
  | indexMismatch
  | gap
  | multipleActive
  /-- `make` with a negative or absurd length, which panics -/
  | makeslice
  /-- the buffer cannot be allocated, which ends the process -/
  | outOfMemory
  /-- the loop never ends -/
  | diverges
  deriving DecidableEq, Repr

/-- `io.ReadFull` at an offset of the file. -/
def readFull (file : Bytes) (pos n : Nat) : Except WalError Bytes :=
  if n = 0 then .ok []
  else
    let rest := file.drop pos
    if rest = [] then .error .eof
    else if rest.length < n then .error .unexpectedEOF
    else .ok (rest.take n)

/-- The index and the total length in a record's header. -/
def readHeader (file : Bytes) (pos : Nat) : Except WalError (Nat × Nat) :=
  match readFull file pos 16 with
  | .error err => .error err
  | .ok header => .ok (fromLittleEndian (header.drop 8), fromLittleEndian (header.take 8))

/-- Offsets are `int64`: no file is as long as this. -/
def maxOffset : Nat := 2 ^ 63

/-- The offset behind a record: from behind its header, `Seek` goes on by
`int64(size) - 16`, so a size of `2^63` or more goes back. -/
def skipRecord (pos size : Nat) : Except WalError Nat :=
  if size < maxOffset then
    if pos + size < maxOffset then .ok (pos + size) else .error .invalidSeek
  else if pos + size < 2 ^ 64 then .error .invalidSeek
  else .ok ((pos + size) % 2 ^ 64)

/-- The loop of `scanLastIndex`. A run longer than the file has come back to an
offset it was at before and never ends. -/
def scanFrom (file : Bytes) : Nat → Nat → Nat → Except WalError Nat
  | 0, _, _ => .error .diverges
  | fuel + 1, pos, last =>
    match readHeader file pos with
    | .error .eof => .ok last
    | .error err => .error err
    | .ok (idx, size) =>
      match skipRecord pos size with
      | .error err => .error err
      | .ok pos => scanFrom file fuel pos idx

def scanLast (file : Bytes) : Except WalError Nat := scanFrom file (file.length + 2) 0 0

/-- The largest slice the runtime will try to allocate. -/
def maxAlloc : Nat := 2 ^ 48

/-- `WALReader.ReadEntry`: the entry and the offset behind it. -/
def readEntry (codec : Codec) (file : Bytes) (pos : Nat) : Except WalError (Entry × Nat) :=
  match readHeader file pos with
  | .error err => .error err
  | .ok (idx, totalSize) =>
    -- `int64(totalSize) - 16` is negative, or no length for a slice
    if totalSize < 16 ∨ totalSize > maxAlloc + 16 then .error .makeslice
    else if totalSize > codec.memory + 16 then .error .outOfMemory
    else
      match readFull file (pos + 16) (totalSize - 16) with
      | .error err => .error err
      | .ok data =>
        match codec.unmarshal data with
        | none => .error .badEntry
        | some entry =>
          if entry.index.toNat ≠ idx then .error .indexMismatch
          else .ok (entry, pos + totalSize)

/-- The entries of a file from an offset on, up to the first clean end. Every
record is longer than its header, so the file's length bounds the loop. -/
def readEntries (codec : Codec) (file : Bytes) : Nat → Nat → Except WalError (List Entry)
  | 0, _ => .error .diverges
  | fuel + 1, pos =>
    match readEntry codec file pos with
    | .error .eof => .ok []
    | .error err => .error err
    | .ok (entry, pos) =>
      match readEntries codec file fuel pos with
      | .error err => .error err
      | .ok entries => .ok (entry :: entries)

def readFile (codec : Codec) (file : Bytes) : Except WalError (List Entry) :=
  readEntries codec file (file.length + 1) 0

/-! ### Segments -/

inductive FileName where
  | wal (start stop : Nat)
  | active (start : Nat)
  | tmp (start : Nat)
  deriving DecidableEq, Repr

/-- The directory order: by the first number, then `-` before `.`, then the second number. -/
def FileName.rank : FileName → Nat × Nat × Nat
  | .wal start stop => (start, 0, stop)
  | .active start => (start, 1, 0)
  | .tmp start => (start, 2, 0)

def FileName.upTo (left right : FileName) : Prop :=
  left.rank.1 < right.rank.1 ∨ left.rank.1 = right.rank.1 ∧
    (left.rank.2.1 < right.rank.2.1 ∨ left.rank.2.1 = right.rank.2.1 ∧ left.rank.2.2 ≤ right.rank.2.2)

instance : DecidableRel FileName.upTo := fun _ _ => inferInstanceAs (Decidable (_ ∨ _))

abbrev Directory := FinMap FileName Bytes

def readDir (dir : Directory) : List FileName := dir.keys.insertionSort FileName.upTo

structure Segment where
  startIndex : Nat
  endIndex : Nat
  size : Nat
  active : Bool
  deriving DecidableEq, Repr

def Segment.path (seg : Segment) : FileName :=
  if seg.active then .active seg.startIndex else .wal seg.startIndex seg.endIndex

structure SegmentedWAL where
  dir : Directory
  segments : List Segment
  active : Segment
  nextIndex : Nat
  segmentSize : Nat
  deriving DecidableEq

/-- `SegmentSize` -/
def defaultSegmentSize : Nat := 100 * 1024 * 1024

/-- `os.Stat(path).Size()` -/
def fileSize (dir : Directory) (name : FileName) : Nat := ((dir.get name).getD []).length

def parseSegment (dir : Directory) (name : FileName) : Option Segment :=
  match name with
  | .active start => some ⟨start, 0, fileSize dir name, true⟩
  | .wal start stop => some ⟨start, stop, fileSize dir name, false⟩
  | .tmp _ => none

def continuous : List Segment → Bool
  | prev :: curr :: rest => prev.endIndex + 1 = curr.startIndex ∧ continuous (curr :: rest)
  | _ => true

/-- Opening with `O_CREATE` keeps a file that is there. -/
def createActiveSegment (dir : Directory) (nextIndex : Nat) : Directory × Segment :=
  (if dir.contains (.active nextIndex) then dir else dir.set (.active nextIndex) [],
    ⟨nextIndex, 0, 0, true⟩)

def scanLastIndex (dir : Directory) (seg : Segment) : Except WalError Nat :=
  match dir.get seg.path with
  | none => .error .notExist
  | some file => scanLast file

def FileName.isTmp : FileName → Bool
  | .tmp _ => true
  | _ => false

/-- A segment size of zero stands for none given. -/
def newSegmentedWal (dir : Directory) (segmentSize : Nat) : Except WalError SegmentedWAL :=
  let segmentSize := if segmentSize > 0 then segmentSize else defaultSegmentSize
  let names := readDir dir
  let dir := dir.filter fun name _ => !name.isTmp
  let parsed := (names.filterMap (parseSegment dir)).insertionSort fun a b => a.startIndex ≤ b.startIndex
  if continuous parsed = false then .error .gap
  else
    let sealed := parsed.filter fun seg => !seg.active
    match parsed.filter Segment.active with
    | [active] =>
      match scanLastIndex dir active with
      | .error err => .error err
      | .ok lastIdx => .ok ⟨dir, sealed, active, lastIdx + 1, segmentSize⟩
    | [] =>
      let nextIndex := match sealed.getLast? with
        | some last => last.endIndex + 1
        | none => 1
      let (dir, active) := createActiveSegment dir nextIndex
      .ok ⟨dir, sealed, active, nextIndex, segmentSize⟩
    | _ => .error .multipleActive

namespace SegmentedWAL

/-- Seal the active file under its range and start a new one. The new file is
created under a temporary name, which must not exist, and renamed. -/
def rotate (sw : SegmentedWAL) : Except WalError SegmentedWAL :=
  let lastIdx := sw.nextIndex - 1
  let tmpPath := FileName.tmp sw.nextIndex
  if sw.dir.contains tmpPath then .error .exist
  else
    let sealed : Segment := ⟨sw.active.startIndex, lastIdx, sw.active.size, false⟩
    let active : Segment := ⟨sw.nextIndex, 0, 0, true⟩
    match sw.dir.get sw.active.path with
    | none => .error .notExist
    | some file =>
      let dir := ((sw.dir.delete sw.active.path).set sealed.path file).set active.path []
      .ok { sw with dir := dir, segments := sw.segments ++ [sealed], active := active }

/-- One iteration of `AppendBatch`. -/
def appendEntry (sw : SegmentedWAL) (be : BufferedEntry) : Except WalError SegmentedWAL :=
  match if sw.active.size ≥ sw.segmentSize then sw.rotate else .ok sw with
  | .error err => .error err
  | .ok sw =>
    let file := (sw.dir.get sw.active.path).getD [] ++ be.data
    if file.length ≥ maxOffset then .error .fileTooBig
    else .ok { sw with
      dir := sw.dir.set sw.active.path file
      active := { sw.active with size := sw.active.size + be.data.length }
      nextIndex := if be.index + 1 > sw.nextIndex then be.index + 1 else sw.nextIndex }

def appendBatch (sw : SegmentedWAL) (entries : List BufferedEntry) : Except WalError SegmentedWAL :=
  entries.foldlM appendEntry sw

/-- The entries of a segment's file. -/
def readSegment (codec : Codec) (dir : Directory) (seg : Segment) : Except WalError (List Entry) :=
  match dir.get seg.path with
  | none => .error .notExist
  | some file => readFile codec file

/-- The entries that `Recover` hands to its callback. -/
def recover (codec : Codec) (sw : SegmentedWAL) (snapshotIndex : Nat) : Except WalError (List Entry) :=
  match (sw.segments ++ [sw.active]).mapM (readSegment codec sw.dir) with
  | .error err => .error err
  | .ok files => .ok (files.flatten.filter fun entry => snapshotIndex < entry.index.toNat)

/-- Whole segments that end at `upToIndex` or before are deleted, the active
one too; a file that cannot be removed is only logged. -/
def truncate (sw : SegmentedWAL) (upToIndex : Nat) : Except WalError SegmentedWAL :=
  let gone := sw.segments.filter fun seg => seg.endIndex ≤ upToIndex
  let sw := { sw with
    dir := gone.foldl (fun dir seg => dir.delete seg.path) sw.dir
    segments := sw.segments.filter fun seg => ¬ seg.endIndex ≤ upToIndex }
  if sw.active.startIndex ≤ upToIndex then
    match scanLastIndex sw.dir sw.active with
    | .error err => .error err
    | .ok last =>
      if last ≤ upToIndex then
        let (dir, active) := createActiveSegment (sw.dir.delete sw.active.path) (upToIndex + 1)
        .ok { sw with dir := dir, active := active, nextIndex := upToIndex + 1 }
      else .ok sw
  else .ok sw

end SegmentedWAL
end Cue.Cluster
