import Cue.Cluster.RaftNode
import Cue.State.JobStore

/-! `internal/cluster/agent.go`, `agent_client_ingress.go`, `agent_raft_bridge.go`,
`agent_snapshot.go` and `internal/state/handler.go`: what an agent does with a
command of a client, with a notification and with a committed entry, and when it
asks for a snapshot. The router and the topic
manager are the channels of the topics, each kept with all that was put on it;
whether a topic without a channel gets one is an argument of the step. What
goes out (responses, proposals, control commands, the new list of peers) is
listed in order. Of an error that wraps another one, only the text in front is
kept. A channel that stays full for ten seconds, which panics, is
left out, and so are metrics and log lines. -/
namespace Cue.Cluster
open Cue.Lib Cue.Model

/-- The two maps of `ServiceDiscovery` that are read here. -/
structure Discovery where
  nodeToRaft : FinMap String Nat
  raftToNode : FinMap Nat String
  deriving DecidableEq

structure Members where
  voters : List String := []
  learners : List String := []
  deriving DecidableEq, Repr

inductive ControlCmd where
  | addNode (nodeID : Nat)
  | removeNode (nodeID : Nat)
  | transferLeader (nodeID : Nat)
  deriving DecidableEq, Repr

inductive Output where
  | respond (respCh : Nat) (res : ToProducerResponse)
  | propose (data : Bytes)
  | control (cmd : ControlCmd)
  | updatePeers (peers : List PeerInfo)
  deriving DecidableEq, Repr

def Output.proposal? : Output → Option Bytes
  | .propose data => some data
  | _ => none

/-- The command of a normal entry. -/
def Entry.command (codec : Codec) (entry : Entry) : Option Command :=
  match entry.type with
  | .normal => entry.data.bind codec.command
  | _ => none

structure ClusterAgent where
  nodeID : String
  isLeader : Bool
  leaderID : String
  status : UInt32
  currentTerm : Nat
  lastAppliedIndex : UInt64
  proposalID : UInt64
  pendingProposals : FinMap UInt64 RespInfo
  deadJobs : List String
  discovery : Discovery
  members : Members
  /-- the command channels by topic -/
  channels : FinMap String (List Command)
  /-- what was given to the dead-letter file -/
  dlq : List (String × List String)
  deriving DecidableEq

namespace ClusterAgent

def unavailable : UInt32 := 72

/-- `NewClusterAgent` with the topics that exist, and the dead jobs that `Start`
reads from the storage. -/
def new (nodeID : String) (discovery : Discovery) (channels : FinMap String (List Command))
    (deadJobs : List String) : ClusterAgent where
  nodeID := nodeID
  isLeader := false
  leaderID := ""
  status := unavailable
  currentTerm := 0
  lastAppliedIndex := 0
  proposalID := 0
  pendingProposals := .empty
  deadJobs := deadJobs
  discovery := discovery
  members := {}
  channels := channels
  dlq := []

def isActive (a : ClusterAgent) : Bool := a.status = 73 ∨ a.status = 71

/-! ### Notifications -/

/-- The event's own `IsLeader` is overwritten by what the role says. -/
def applyRoleChange (a : ClusterAgent) (leaderRaftID : Nat) (role : RaftState) (term : Nat) : ClusterAgent :=
  { a with
    isLeader := role = .leader
    leaderID := (a.discovery.raftToNode.get leaderRaftID).getD ""
    currentTerm := term
    status := match role with
      | .leader => 73
      | .follower => 71
      | .candidate | .preCandidate => unavailable }

/-! ### Commands of clients -/

/-- An error for the client, if it waits for an answer. -/
def respondError (cmd : Command) (error : String) : List Output :=
  match cmd.respInfo with
  | some ⟨requestID, some respCh⟩ => [.respond respCh ⟨requestID, .error, error, []⟩]
  | _ => []

def controlNode (a : ClusterAgent) (nodeID : String) (control : Nat → ControlCmd) : List Output :=
  match a.discovery.nodeToRaft.get nodeID with
  | some raftID => if raftID ≠ 0 then [.control (control raftID)] else []
  | none => []

/-- The topic of the payload that the type selects; a missing payload is dereferenced. -/
def topicOf (cmd : Command) : Except State.Panic String :=
  let topic := match cmd.type with
    | .addJobs => cmd.addJobs.map AddJobsPayload.topic
    | .done => cmd.done.map DonePayload.topic
    | .drop => cmd.drop.map DropPayload.topic
    | _ => some ""
  match topic with
  | some topic => .ok topic
  | none => .error .nilDereference

/-- `handler.TopicExist` -/
def topicExist (a : ClusterAgent) (topic : String) : Bool := a.channels.contains topic

/-- The last part of `processCommand`: a new proposal ID, the record under it,
and the encoded command to raft. The record stays when encoding fails. -/
def propose (codec : Codec) (a : ClusterAgent) (cmd : Command) : Except State.Panic (ClusterAgent × List Output) :=
  let id := a.proposalID + 1
  match cmd.respInfo with
  | none => .error .nilDereference
  | some respInfo =>
    let a := { a with proposalID := id, pendingProposals := a.pendingProposals.set id respInfo }
    match codec.marshalCommand { cmd with proposeID := id } with
    | .error err => .ok (a, respondError cmd err)
    | .ok data => .ok (a, [.propose data])

def processJobCommand (codec : Codec) (a : ClusterAgent) (cmd : Command) :
    Except State.Panic (ClusterAgent × List Output) :=
  if a.isActive = false then .ok (a, respondError cmd "service unavailable: node is not active")
  else if a.isLeader then
    match topicOf cmd with
    | .error panicked => .error panicked
    | .ok topic =>
      if a.topicExist topic = false then .ok (a, respondError cmd "topic not found") else a.propose codec cmd
  else a.propose codec cmd

def processCommand (codec : Codec) (a : ClusterAgent) (cmd : Command) :
    Except State.Panic (ClusterAgent × List Output) :=
  if a.isLeader = false then .ok (a, [])
  else if a.isActive = false then .ok (a, [])
  else
    match cmd.type with
    | .updatePeersList => .ok (a, (cmd.peers.map fun payload => .updatePeers payload.peers).toList)
    | .addNode =>
      match cmd.addNode with
      | none => .ok (a, [])
      | some payload => .ok (a, a.controlNode payload.nodeID .addNode)
    | .removeNode =>
      match cmd.removeNode with
      | none => .ok (a, [])
      | some payload => .ok (a, a.controlNode payload.nodeID .removeNode)
    | .transferLeader =>
      match cmd.transfer with
      | none => .ok (a, [])
      | some payload => .ok (a, a.controlNode payload.targetNodeID .transferLeader)
    | .addJobs | .done | .drop => a.processJobCommand codec cmd
    | .unknown _ => .ok (a, respondError cmd "unknown command type")

/-! ### Committed entries -/

/-- `handler.ProcessCommand`; `spawn` is how `ensureChannel` ends for a topic without a channel. -/
def deliverCommand (a : ClusterAgent) (topic : String) (cmd : Command) (spawn : Except String Unit) :
    ClusterAgent × Option String :=
  match a.channels.get topic, spawn with
  | some queued, _ => ({ a with channels := a.channels.set topic (queued ++ [cmd]) }, none)
  | none, .ok _ => ({ a with channels := a.channels.set topic [cmd] }, none)
  | none, .error err => (a, some err)

def getAndRemovePendingResponse (a : ClusterAgent) (id : UInt64) : Option RespInfo × ClusterAgent :=
  (a.pendingProposals.get id, { a with pendingProposals := a.pendingProposals.delete id })

/-- A dead job is handed on as done. -/
def markDead (deadJobs : List String) (job : Job) : Job := if job.id ∈ deadJobs then { job with done := true } else job

/-- `delete(a.deadJobs, id)` for every job of the command. -/
def forget (a : ClusterAgent) (jobIDs : List String) : ClusterAgent :=
  { a with deadJobs := a.deadJobs.filter fun id => id ∉ jobIDs }

/-- The switch of `handleNormalCommand`: the agent and the error, if there is
one. A batch goes to the topic of its first job, and nowhere if all its jobs are dead. -/
def routeCommand (a : ClusterAgent) (cmd : Command) (spawn : Except String Unit) : ClusterAgent × Option String :=
  match cmd.type with
  | .addJobs =>
    match cmd.addJobs with
    | none => (a, some "add_job payload missing")
    | some payload =>
      match payload.jobs.map (markDead a.deadJobs) with
      | [] => (a, none)
      | first :: rest =>
        if ∀ job ∈ payload.jobs, job.id ∈ a.deadJobs then (a, none)
        else
          let cmd := { cmd with addJobs := some { payload with jobs := first :: rest } }
          ((a.deliverCommand first.topic cmd spawn).1, none)
  | .done =>
    match cmd.done with
    | none => (a, some "done payload missing")
    | some payload => (a.forget payload.jobIDs).deliverCommand payload.topic cmd spawn
  | .drop =>
    match cmd.drop with
    | none => (a, some "drop payload missing")
    | some payload =>
      let (a, _) := (a.forget payload.jobIDs).deliverCommand payload.topic cmd spawn
      ({ a with dlq := a.dlq ++ [(payload.topic, payload.jobIDs)] }, none)
  | type => (a, some ("unknown command type: " ++ toString type.number))

/-- The topic on whose channel a command is put, if it is put on any. -/
def destination (deadJobs : List String) (cmd : Command) : Option String :=
  match cmd.type with
  | .addJobs =>
    match cmd.addJobs with
    | some payload =>
      if ∀ job ∈ payload.jobs, job.id ∈ deadJobs then none else payload.jobs.head?.map Job.topic
    | none => none
  | .done => cmd.done.map DonePayload.topic
  | .drop => cmd.drop.map DropPayload.topic
  | _ => none

def handleNormalCommand (codec : Codec) (a : ClusterAgent) (committed : CommittedEntry)
    (spawn : Except String Unit) : ClusterAgent × Option String :=
  let a := { a with lastAppliedIndex := committed.index }
  match committed.data with
  | none => (a, none)
  | some data =>
    match codec.command data with
    | none => (a, some "unmarshal Command")
    | some cmd =>
      let (pending, a) := a.getAndRemovePendingResponse cmd.proposeID
      let cmd := match pending with
        | some respInfo => { cmd with respInfo := some respInfo }
        | none => cmd
      a.routeCommand cmd spawn

/-- `handleConfigChange`; the loop over the changes only logs them. -/
def handleConfigChange (conf : ConfCodec) (a : ClusterAgent) (committed : CommittedEntry) :
    ClusterAgent × Option String :=
  let a := { a with members := ⟨committed.voters.filterMap a.discovery.raftToNode.get,
    committed.learners.filterMap a.discovery.raftToNode.get⟩ }
  match conf.changes ⟨committed.term, committed.index, committed.type, committed.data⟩ with
  | .error _ =>
    (a, some (if committed.type = .confChange then "unmarshal ConfChange" else "unmarshal ConfChangeV2"))
  | .ok _ => (a, none)

def processCommittedEntry (codec : Codec) (conf : ConfCodec) (a : ClusterAgent) (committed : CommittedEntry)
    (spawn : Except String Unit) : ClusterAgent × Option String :=
  let a := { a with currentTerm := committed.term.toNat }
  match committed.type with
  | .confChange | .confChangeV2 => a.handleConfigChange conf committed
  | .normal => a.handleNormalCommand codec committed spawn
  | .other _ => (a, none)

end ClusterAgent

/-! ### Snapshots -/

structure SnapshotPolicy where
  snapshotIntervalSec : UInt64
  snapshotTriggerCount : UInt64
  deriving DecidableEq, Repr

/-- `lastAppliedIndex` and `snapshotIndex` as `ShouldSnapshot` has loaded them. -/
structure GapRead where
  lastApplied : UInt64
  snapshotIndex : UInt64
  deriving DecidableEq, Repr

def GapRead.walGap (gap : GapRead) : UInt64 := gap.lastApplied - gap.snapshotIndex

namespace SnapshotPolicy

/-- The first test of `ShouldSnapshot`, before the indices are loaded. -/
def coolingDown (policy : SnapshotPolicy) (lastTrySec currentSec : Int64) : Bool :=
  lastTrySec > 0 && currentSec - lastTrySec < policy.snapshotIntervalSec.toInt64

/-- `ShouldSnapshot` from the difference of the indices on. -/
def due (policy : SnapshotPolicy) (currentSec lastSnapshotSec : Int64) (gap : GapRead) : Bool :=
  if gap.walGap ≥ policy.snapshotTriggerCount then true
  else if gap.walGap = 0 then false
  else lastSnapshotSec > 0 && currentSec - lastSnapshotSec ≥ policy.snapshotIntervalSec.toInt64

end SnapshotPolicy
end Cue.Cluster
