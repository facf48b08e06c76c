import Cue.Cluster.RaftStorage
import Cue.Lib.Critical

/-! The operations of `StorageCore` with its lock `mu`, and with every way the
calls to the encoder and to the files can end. Some operations release the lock
by `defer`, the others by hand on each path. What the calls are given is not
looked at here; how they end, and what they leave of the log, is an input. -/
namespace Cue.Cluster
open Cue.Lib Cue.Lib.Critical Cue.Model

/-- How the calls end that an operation makes. -/
structure Calls where
  /-- `encodeBufferedEntry` -/
  encoded : Except WalError BufferedEntry
  /-- the error of `saveSnapshotMeta`, if any -/
  saved : Option WalError
  /-- the error of `AppendBatch`, if any, and the log behind it -/
  appended : Option WalError × SegmentedWAL
  /-- the error of `Truncate`, if any, and the log behind it -/
  truncated : Option WalError × SegmentedWAL
  /-- the entries that `Recover` hands over, and its error, if any -/
  recovered : List Entry × Option WalError

/-- The storage and its flag `flushing`, which the lock does not guard. -/
structure Shared where
  core : StorageCore
  flushing : Bool
  deriving DecidableEq

namespace StorageCore

/-- A program on the storage. -/
abbrev Locked := Critical Shared WalError

/-- A change of the storage. -/
def changeCore (f : StorageCore → StorageCore) : Locked Unit := change fun s => { s with core := f s.core }

/-- `defer c.mu.Unlock()` right behind `c.mu.Lock()`. -/
def whileLocked (body : Locked Unit) : Locked Unit := do
  lock
  deferred unlock body

/-- The result of a call that fails with an error. -/
def raise : Option WalError → Locked Unit
  | none => pure ()
  | some err => fail err

/-- `saveSnapshotMeta` writes what the metadata is, if it succeeds. -/
def saveSnapshotMeta (calls : Calls) (c : StorageCore) : StorageCore :=
  if calls.saved = none then { c with snapshotFile := some c.snapshotMeta } else c

def appendEntriesLocked (entries : List Entry) : Locked Unit :=
  if entries = [] then pure () else whileLocked (changeCore fun c => c.appendEntries entries)

def flushBufferLocked (calls : Calls) : Locked Unit := do
  -- `CompareAndSwap`
  if (← look).flushing then pure ()
  else
    change fun s => { s with flushing := true }
    deferred (change fun s => { s with flushing := false }) do
      lock
      let batch := (← look).core.writeBuffer
      if batch = [] then unlock
      else
        unlock
        changeCore fun c => { c with wal := calls.appended.2 }
        raise calls.appended.1
        lock
        changeCore fun c => { c with
          writeBuffer := if c.writeBuffer.length ≥ batch.length then c.writeBuffer.drop batch.length else [] }
        unlock

def appendCommittedLocked (codec : Codec) (calls : Calls) (entry : Entry) : Locked Unit := do
  lock
  match calls.encoded with
  | .error err => fail err
  | .ok buffered =>
    changeCore fun c => { c with
      writeBuffer := c.writeBuffer ++ [buffered]
      jobIndex := indexEntry codec true c.jobIndex entry }
    unlock
    let c := (← look).core
    if c.writeBuffer.length ≥ c.flushThreshold then flushBufferLocked calls else pure ()

/-- What `compact` does before it truncates the log. -/
def cutBack (calls : Calls) (upToIndex : Nat) (c : StorageCore) : StorageCore :=
  let c := { c with entries := c.entries.filter fun _ entry => ¬ entry.index.toNat < upToIndex }
  let c := c.updateIndices
  let jobs := c.jobIndex.filter fun _ state => ¬ (state.completeIndex > 0 ∧ state.completeIndex < upToIndex)
  let c := saveSnapshotMeta calls { c with snapshotMeta := ⟨upToIndex - 1, c.hardState.term, c.confState⟩ }
  { c with jobIndex := jobs.filter fun _ state => ¬ state.addIndex < upToIndex }

def compactLocked (calls : Calls) : Locked Unit := do
  lock
  let c := (← look).core
  if c.findFirstIndexToKeep ≤ c.firstIndex then unlock
  else
    changeCore fun c => { cutBack calls c.findFirstIndexToKeep c with wal := calls.truncated.2 }
    raise calls.truncated.1
    unlock

def recoverLocked (codec : Codec) (calls : Calls) : Locked Unit :=
  whileLocked do
    changeCore fun c => { c with
      entries := calls.recovered.1.foldl storeEntry c.entries
      jobIndex := calls.recovered.1.foldl (indexEntry codec false) .empty }
    raise calls.recovered.2
    changeCore updateIndices

def installSnapshotLocked (calls : Calls) (snapshotMeta : SnapshotMetadata) : Locked Unit :=
  whileLocked (changeCore fun c => saveSnapshotMeta calls { c with snapshotMeta := snapshotMeta })

def setHardStateLocked (hs : HardState) : Locked Unit := whileLocked (changeCore fun c => c.setHardState hs)

def setConfStateLocked (calls : Calls) (cs : ConfState) : Locked Unit :=
  whileLocked do
    changeCore fun c => saveSnapshotMeta calls { c with
      confState := cs
      snapshotMeta := { c.snapshotMeta with confState := cs } }
    raise calls.saved

def performLocked (codec : Codec) (calls : Calls) : CoreOp → Locked Unit
  | .appendEntries entries => appendEntriesLocked entries
  | .appendCommitted entry => appendCommittedLocked codec calls entry
  | .flushBuffer => flushBufferLocked calls
  | .compact => compactLocked calls
  | .recover => recoverLocked codec calls
  | .installSnapshot snapshotMeta => installSnapshotLocked calls snapshotMeta
  | .setHardState hs => setHardStateLocked hs
  | .setConfState cs => setConfStateLocked calls cs

end StorageCore
end Cue.Cluster
