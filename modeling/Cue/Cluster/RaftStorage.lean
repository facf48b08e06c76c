import Cue.Cluster.RaftSegment

/-! `internal/cluster/raft_storage.go`: the raft log in memory, the buffer of
committed entries on their way to the write-ahead log, and the index of jobs
that says how far the log can be cut. Locks, metrics and log lines are left out;
an operation that fails stops the node. The file `snapshot.meta` is kept as the
metadata it encodes. -/
namespace Cue.Cluster
open Cue.Lib Cue.Model

structure HardState where
  term : Nat := 0
  vote : Nat := 0
  commit : Nat := 0
  deriving DecidableEq, Repr

structure ConfState where
  voters : List Nat := []
  learners : List Nat := []
  deriving DecidableEq, Repr

structure SnapshotMetadata where
  index : Nat := 0
  term : Nat := 0
  confState : ConfState := {}
  deriving DecidableEq, Repr

/-- `JobState.CompleteType`: empty, "done" or "drop". -/
inductive CompleteType where
  | none
  | done
  | drop
  deriving DecidableEq, Repr

/-- An index or a term of zero made one, as `Snapshot` does. -/
def SnapshotMetadata.atLeastOne (snapshotMeta : SnapshotMetadata) : SnapshotMetadata := { snapshotMeta with
  index := if snapshotMeta.index = 0 then 1 else snapshotMeta.index
  term := if snapshotMeta.term = 0 then 1 else snapshotMeta.term }

structure JobState where
  addIndex : Nat := 0
  completeIndex : Nat := 0
  completeType : CompleteType := .none
  deriving DecidableEq, Repr

abbrev JobIndex := FinMap String JobState

structure StorageCore where
  entries : FinMap Nat Entry
  hardState : HardState
  confState : ConfState
  snapshotMeta : SnapshotMetadata
  firstIndex : Nat
  lastIndex : Nat
  wal : SegmentedWAL
  writeBuffer : List BufferedEntry
  flushThreshold : Nat
  jobIndex : JobIndex
  /-- the content of `snapshot.meta` -/
  snapshotFile : Option SnapshotMetadata
  deriving DecidableEq

/-- What survives a restart. -/
structure Disk where
  walDir : Directory
  snapshotFile : Option SnapshotMetadata
  deriving DecidableEq

def Disk.empty : Disk := ⟨.empty, none⟩

/-! ### The job index -/

/-- A job added at `index`. A live storage also resets the completion of a job
that is added again, recovery does not. -/
def indexAdd (resets : Bool) (index : Nat) (jobs : JobIndex) (jobID : String) : JobIndex :=
  let state := (jobs.get jobID).getD {}
  jobs.set jobID { state with
    addIndex := index
    completeType := if resets then .none else state.completeType }

def indexComplete (index : Nat) (completeType : CompleteType) (jobs : JobIndex) (jobID : String) : JobIndex :=
  let state := (jobs.get jobID).getD {}
  jobs.set jobID { state with completeIndex := index, completeType := completeType }

def indexCommand (resets : Bool) (index : Nat) (jobs : JobIndex) (cmd : Command) : JobIndex :=
  match cmd.type with
  | .addJobs =>
    match cmd.addJobs with
    | some payload => (payload.jobs.map Job.id).foldl (indexAdd resets index) jobs
    | none => jobs
  | .done | .drop =>
    match cmd.done, cmd.drop with
    | some payload, _ => payload.jobIDs.foldl (indexComplete index .done) jobs
    | none, some payload => payload.jobIDs.foldl (indexComplete index .drop) jobs
    | none, none => jobs
  | _ => jobs

/-- The index after an entry; one that does not decode changes nothing. -/
def indexEntry (codec : Codec) (resets : Bool) (jobs : JobIndex) (entry : Entry) : JobIndex :=
  match codec.command (entry.data.getD []) with
  | some cmd => indexCommand resets entry.index.toNat jobs cmd
  | none => jobs

namespace StorageCore

/-! ### Indices and recovery -/

/-- The smallest and the largest index of the entries, or the snapshot's. -/
def updateIndices (c : StorageCore) : StorageCore :=
  let indices := c.entries.pairs.map fun (pair : Nat × Entry) => pair.2.index.toNat
  if indices = [] then
    { c with firstIndex := c.snapshotMeta.index + 1, lastIndex := c.snapshotMeta.index }
  else
    { c with firstIndex := indices.foldl min (2 ^ 64 - 1), lastIndex := indices.foldl max 0 }

def storeEntry (entries : FinMap Nat Entry) (entry : Entry) : FinMap Nat Entry :=
  entries.set entry.index.toNat entry

def recover (codec : Codec) (c : StorageCore) : Except WalError StorageCore :=
  match c.wal.recover codec c.snapshotMeta.index with
  | .error err => .error err
  | .ok recovered =>
    let c := { c with
      entries := recovered.foldl storeEntry c.entries
      jobIndex := recovered.foldl (indexEntry codec false) .empty }
    .ok c.updateIndices

end StorageCore

/-- `NewRaftStorage` on the directories as they are. -/
def newRaftStorage (codec : Codec) (disk : Disk) (flushThreshold segmentSize : Nat) :
    Except WalError StorageCore :=
  match newSegmentedWal disk.walDir segmentSize with
  | .error err => .error err
  | .ok wal =>
    let core : StorageCore := {
      entries := .empty
      hardState := {}
      confState := {}
      snapshotMeta := disk.snapshotFile.getD {}
      firstIndex := 0
      lastIndex := 0
      wal := wal
      writeBuffer := []
      flushThreshold := flushThreshold
      jobIndex := .empty
      snapshotFile := disk.snapshotFile }
    match core.recover codec with
    | .error err => .error err
    | .ok core => .ok core.updateIndices

namespace StorageCore

def disk (c : StorageCore) : Disk := ⟨c.wal.dir, c.snapshotFile⟩

/-! ### Appending -/

/-- One iteration of `appendEntries`: a conflicting tail is removed first. The loop
that removes it counts up to `lastIndex`, and ends only below the largest `uint64`. -/
def appendOne (c : StorageCore) (entry : Entry) : StorageCore :=
  let index := entry.index.toNat
  let kept := if index ≤ c.lastIndex then c.entries.filter fun i _ => i < index ∨ c.lastIndex < i else c.entries
  { c with
    entries := kept.set index entry
    lastIndex := if index > c.lastIndex then index else c.lastIndex
    firstIndex := if c.firstIndex = 0 ∨ index < c.firstIndex then index else c.firstIndex }

def appendEntries (c : StorageCore) (entries : List Entry) : StorageCore := entries.foldl appendOne c

def flushBuffer (c : StorageCore) : Except WalError StorageCore :=
  if c.writeBuffer = [] then .ok c
  else
    match c.wal.appendBatch c.writeBuffer with
    | .error err => .error err
    | .ok wal => .ok { c with wal := wal, writeBuffer := [] }

def appendCommitted (codec : Codec) (c : StorageCore) (entry : Entry) : Except WalError StorageCore :=
  match encodeBufferedEntry codec entry with
  | none => .error .badEntry
  | some buffered =>
    let c := { c with
      writeBuffer := c.writeBuffer ++ [buffered]
      jobIndex := indexEntry codec true c.jobIndex entry }
    if c.writeBuffer.length ≥ c.flushThreshold then c.flushBuffer else .ok c

/-! ### Compaction -/

/-- The smallest `AddIndex` of a pending job, zero if there is none. -/
def minPending (jobs : JobIndex) : Nat :=
  jobs.pairs.foldl (fun least (_, state) =>
    if state.addIndex > 0 ∧ state.completeType = .none ∧ (least = 0 ∨ state.addIndex < least)
    then state.addIndex else least) 0

def maxComplete (jobs : JobIndex) : Nat :=
  jobs.pairs.foldl (fun most (_, state) => max most state.completeIndex) 0

def findFirstIndexToKeep (c : StorageCore) : Nat :=
  if minPending c.jobIndex ≠ 0 then minPending c.jobIndex
  else if maxComplete c.jobIndex > 0 then maxComplete c.jobIndex + 1
  else c.firstIndex

def compact (c : StorageCore) : Except WalError StorageCore :=
  let upToIndex := c.findFirstIndexToKeep
  if upToIndex ≤ c.firstIndex then .ok c
  else
    let c := { c with entries := c.entries.filter fun _ entry => ¬ entry.index.toNat < upToIndex }
    let c := c.updateIndices
    let jobs := c.jobIndex.filter fun _ state => ¬ (state.completeIndex > 0 ∧ state.completeIndex < upToIndex)
    let snapshotMeta : SnapshotMetadata := ⟨upToIndex - 1, c.hardState.term, c.confState⟩
    let jobs := jobs.filter fun _ state => ¬ state.addIndex < upToIndex
    match c.wal.truncate upToIndex with
    | .error err => .error err
    | .ok wal => .ok { c with
        jobIndex := jobs
        snapshotMeta := snapshotMeta
        snapshotFile := some snapshotMeta
        wal := wal }

/-! ### The `raft.Storage` interface -/

def setHardState (c : StorageCore) (hs : HardState) : StorageCore := { c with hardState := hs }

def setConfState (c : StorageCore) (cs : ConfState) : StorageCore :=
  let snapshotMeta := { c.snapshotMeta with confState := cs }
  { c with confState := cs, snapshotMeta := snapshotMeta, snapshotFile := some snapshotMeta }

def installSnapshot (c : StorageCore) (snapshotMeta : SnapshotMetadata) : StorageCore :=
  { c with snapshotMeta := snapshotMeta, snapshotFile := some snapshotMeta }

inductive StorageError where
  | compacted
  | unavailable
  deriving DecidableEq, Repr

def initialState (c : StorageCore) : HardState × ConfState := (c.hardState, c.confState)

/-- `Term`; the last two tests of the source end the same way. -/
def term (c : StorageCore) (idx : Nat) : Except StorageError Nat :=
  if idx = c.snapshotMeta.index then .ok c.snapshotMeta.term
  else if idx = 0 ∧ c.snapshotMeta.index = 1 then .ok 1
  else if idx < c.firstIndex then .error .compacted
  else if idx > c.lastIndex then .error .unavailable
  else
    match c.entries.get idx with
    | some entry => .ok entry.term.toNat
    | none => .error .unavailable

/-- The loop of `Entries` over `idx`, `left` indices; `size` is `proto.Size`. -/
def collectEntries (c : StorageCore) (size : Entry → Nat) (maxSize : Nat) :
    Nat → Nat → Nat → Except StorageError (List Entry)
  | _, 0, _ => .ok []
  | idx, left + 1, total =>
    match c.entries.get idx with
    | none => .error .unavailable
    | some entry =>
      if maxSize > 0 ∧ total + size entry > maxSize then .ok []
      else
        match c.collectEntries size maxSize (idx + 1) left (total + size entry) with
        | .error err => .error err
        | .ok entries => .ok (entry :: entries)

/-- `Entries`, the entries from `lo` to before `hi`. -/
def entriesBetween (c : StorageCore) (size : Entry → Nat) (lo hi maxSize : Nat) :
    Except StorageError (List Entry) :=
  if lo < c.firstIndex then .error .compacted
  else if hi > c.lastIndex + 1 then .error .unavailable
  else c.collectEntries size maxSize lo (hi - lo) 0

/-- `Snapshot` returns the storage's own metadata, which it changes first. -/
def snapshot (c : StorageCore) : SnapshotMetadata × StorageCore :=
  (c.snapshotMeta.atLeastOne, { c with snapshotMeta := c.snapshotMeta.atLeastOne })

/-- `GetCompletedJobIDs` -/
def getCompletedJobIDs (c : StorageCore) : List String :=
  (c.jobIndex.filter fun _ state =>
    state.addIndex > 0 ∧ state.completeType ≠ .none ∧ state.completeIndex ≥ state.addIndex).keys

/-- `Close` flushes the buffer; the files stay. -/
def close (c : StorageCore) : Except WalError Disk :=
  match c.flushBuffer with
  | .error err => .error err
  | .ok c => .ok c.disk

end StorageCore

/-! ### All operations -/

/-- The operations that change the storage. -/
inductive CoreOp where
  | appendEntries (entries : List Entry)
  | appendCommitted (entry : Entry)
  | flushBuffer
  | compact
  | recover
  | installSnapshot (snapshotMeta : SnapshotMetadata)
  | setHardState (hs : HardState)
  | setConfState (cs : ConfState)
  deriving DecidableEq

def StorageCore.perform (codec : Codec) (c : StorageCore) : CoreOp → Except WalError StorageCore
  | .appendEntries entries => .ok (c.appendEntries entries)
  | .appendCommitted entry => c.appendCommitted codec entry
  | .flushBuffer => c.flushBuffer
  | .compact => c.compact
  | .recover => c.recover codec
  | .installSnapshot snapshotMeta => .ok (c.installSnapshot snapshotMeta)
  | .setHardState hs => .ok (c.setHardState hs)
  | .setConfState cs => .ok (c.setConfState cs)

end Cue.Cluster
