import Cue.Cluster.RaftStorage

/-! `internal/cluster/raft_node.go`: what a node does with a `Ready` of the raft
library. `handleReady` is kept as the list of its actions in their order, so a
crash or a cancelled context is a prefix of it. The library itself is not
modelled: its status, the messages it wants sent and the outcome of a
configuration change are part of the `Ready`. A blocking send waits for room, so
`outgoingCh` lists all that was ever put on it; the other channels are the
queues they are. -/
namespace Cue.Cluster
open Cue.Lib Cue.Model

/-- `raft.StateType` -/
inductive RaftState where
  | follower
  | candidate
  | leader
  | preCandidate
  deriving DecidableEq, Repr

/-- The parts of `raft.Status` that are read. -/
structure RaftStatus where
  raftState : RaftState
  lead : Nat
  term : Nat
  deriving DecidableEq, Repr

inductive NotifyEvent where
  | roleChange (isLeader : Bool) (leaderID : Nat) (role : RaftState) (term : Nat)
  | roleIsVoter
  | roleIsNonVoter
  | walCompact (snapshotIndex : Nat)
  deriving DecidableEq, Repr

structure CommittedEntry where
  data : Option Bytes
  index : UInt64
  term : UInt64
  type : EntryType
  voters : List Nat
  learners : List Nat
  deriving DecidableEq, Repr

inductive ConfChangeType where
  | addNode
  | removeNode
  | updateNode
  | addLearnerNode
  deriving DecidableEq, Repr

structure ConfChangeSingle where
  type : ConfChangeType
  nodeID : Nat
  deriving DecidableEq, Repr

/-- `proto.Unmarshal` of the two kinds of configuration changes. -/
structure ConfCodec where
  confChange : Bytes → Option ConfChangeSingle
  confChangeV2 : Bytes → Option (List ConfChangeSingle)

/-- The changes of an entry: none for a normal entry, an error if they do not decode. -/
def ConfCodec.changes (conf : ConfCodec) (entry : Entry) : Except Unit (Option (List ConfChangeSingle)) :=
  match entry.type with
  | .confChangeV2 =>
    match conf.confChangeV2 (entry.data.getD []) with
    | some changes => .ok (some changes)
    | none => .error ()
  | .confChange =>
    match conf.confChange (entry.data.getD []) with
    | some change => .ok (some [change])
    | none => .error ()
  | _ => .ok none

/-- What the library answers to a configuration change: the state that
`ApplyConfChange` returns, and the configuration in its status afterwards. -/
structure Configured where
  confState : ConfState := {}
  voters : List Nat := []
  learners : List Nat := []
  deriving DecidableEq, Repr

/-- `raft.Ready` with messages of type `M`; `snapshot` is `none` for an empty one. -/
structure Ready (M : Type) where
  status : RaftStatus
  snapshot : Option SnapshotMetadata
  hardState : HardState
  entries : List Entry
  messages : List M
  committedEntries : List (Entry × Configured)

inductive Action (M : Type) where
  | checkRole (status : RaftStatus)
  | installSnapshot (snapshotMeta : SnapshotMetadata)
  | setHardState (hs : HardState)
  | append (entries : List Entry)
  | send (msg : M)
  | apply (entry : Entry) (configured : Configured)

/-- `handleReady`: role, snapshot, hard state, entries, messages, and only then
the committed entries. -/
def handleReady {M : Type} (rd : Ready M) : List (Action M) :=
  [.checkRole rd.status] ++ (rd.snapshot.map Action.installSnapshot).toList ++
    (if rd.hardState = {} then [] else [.setHardState rd.hardState]) ++
    (if rd.entries = [] then [] else [.append rd.entries]) ++
    rd.messages.map Action.send ++
    rd.committedEntries.map fun pair => .apply pair.1 pair.2

structure CRaft (M : Type) where
  raftID : Nat
  storage : StorageCore
  commitCh : List CommittedEntry
  outgoingCh : List M
  notifyCh : List NotifyEvent
  prevRole : RaftState
  prevLeaderID : Nat
  /-- the node's context was cancelled -/
  cancelled : Bool

/-- The capacity of each channel between the node and the agent. -/
def channelCapacity : Nat := 1024

namespace CRaft

variable {M : Type}

/-- `NewCRaft` on a storage. -/
def new (raftID : Nat) (storage : StorageCore) : CRaft M where
  raftID := raftID
  storage := storage
  commitCh := []
  outgoingCh := []
  notifyCh := []
  prevRole := .follower
  prevLeaderID := 0
  cancelled := false

/-- A send that drops the event when the channel is full. -/
def notify (c : CRaft M) (event : NotifyEvent) : CRaft M :=
  if c.notifyCh.length < channelCapacity then { c with notifyCh := c.notifyCh ++ [event] } else c

def checkRole (c : CRaft M) (status : RaftStatus) : CRaft M :=
  if status.raftState ≠ c.prevRole ∨ status.lead ≠ c.prevLeaderID then
    { c.notify (.roleChange (status.raftState = .leader) status.lead status.raftState status.term) with
      prevRole := status.raftState
      prevLeaderID := status.lead }
  else c

def handleConfChange (c : CRaft M) (cs : ConfState) : CRaft M :=
  { c with storage := c.storage.setConfState cs }.notify
    (if c.raftID ∈ cs.voters then .roleIsVoter else .roleIsNonVoter)

/-- The send to `commitCh`, which drops the entry when the channel is full. -/
def deliver (c : CRaft M) (committed : CommittedEntry) : CRaft M :=
  if c.commitCh.length < channelCapacity then { c with commitCh := c.commitCh ++ [committed] } else c

/-- `AppendCommitted`; a failure cancels the node's context, nothing more. An
entry that does not encode leaves the storage as it was. -/
def persist (codec : Codec) (c : CRaft M) (entry : Entry) : CRaft M :=
  match c.storage.appendCommitted codec entry with
  | .ok storage => { c with storage := storage }
  | .error _ => { c with cancelled := true }

/-- The switch on the entry's type, with the voters and learners after a
configuration change; `none` for a change that does not decode. -/
def switchType (conf : ConfCodec) (c : CRaft M) (entry : Entry) (configured : Configured) :
    Option (CRaft M × List Nat × List Nat) :=
  match conf.changes entry with
  | .error _ => none
  | .ok none => some (c, [], [])
  | .ok (some _) => some (c.handleConfChange configured.confState, configured.voters, configured.learners)

/-- A configuration change that does not decode is neither persisted nor delivered. -/
def applyCommittedEntry (codec : Codec) (conf : ConfCodec) (c : CRaft M) (entry : Entry)
    (configured : Configured) : CRaft M :=
  match c.switchType conf entry configured with
  | none => c
  | some (c, voters, learners) =>
    (c.persist codec entry).deliver ⟨entry.data, entry.index, entry.term, entry.type, voters, learners⟩

/-- `handleControl` with `CmdSnapshot`. -/
def handleSnapshot (c : CRaft M) : CRaft M :=
  match c.storage.compact with
  | .error _ => c
  | .ok storage => { c with storage := storage }.notify (.walCompact storage.snapshotMeta.index)

def act (codec : Codec) (conf : ConfCodec) (c : CRaft M) : Action M → CRaft M
  | .checkRole status => c.checkRole status
  | .installSnapshot snapshotMeta => { c with storage := c.storage.installSnapshot snapshotMeta }
  | .setHardState hs => { c with storage := c.storage.setHardState hs }
  | .append entries => { c with storage := c.storage.appendEntries entries }
  | .send msg => { c with outgoingCh := c.outgoingCh ++ [msg] }
  | .apply entry configured => c.applyCommittedEntry codec conf entry configured

end CRaft
end Cue.Cluster
