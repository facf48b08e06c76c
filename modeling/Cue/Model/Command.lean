/-! Commands and requests with their payloads (`internal/model`). A pointer
payload is an `Option`; a command decoded from the log has exactly the one its
type names. -/
namespace Cue.Model

abbrev Bytes := List UInt8

/-- `CommandType`; any other byte is `unknown`. -/
inductive CommandType where
  | updatePeersList
  | addNode
  | removeNode
  | transferLeader
  | addJobs
  | done
  | drop
  | unknown (value : UInt8)
  deriving DecidableEq, Repr

def CommandType.number : CommandType → UInt8
  | .updatePeersList => 0
  | .addNode => 1
  | .removeNode => 2
  | .transferLeader => 3
  | .addJobs => 4
  | .done => 5
  | .drop => 6
  | .unknown value => value

inductive IdentityKind where
  | dns
  | ip
  | spiffe
  | unknown (value : UInt8)
  deriving DecidableEq, Repr

structure TLSIdentity where
  kind : IdentityKind
  value : String
  deriving DecidableEq, Repr

structure PeerInfo where
  nodeID : String
  host : String
  port : UInt16
  identity : TLSIdentity
  deriving DecidableEq, Repr

/-- `model.Job`. `done` and `createdAt` never leave the node: the wire format
skips them. -/
structure Job where
  id : String
  topic : String
  data : Bytes
  done : Bool
  createdAt : Int
  deriving DecidableEq, Repr

/-- `var zero model.Job`, what a released slot holds. -/
def Job.zero : Job := ⟨"", "", [], false, 0⟩

structure PeersListPayload where
  peers : List PeerInfo
  deriving DecidableEq, Repr

structure AddNodePayload where
  nodeID : String
  deriving DecidableEq, Repr

structure RemoveNodePayload where
  nodeID : String
  deriving DecidableEq, Repr

structure TransferLeaderPayload where
  targetNodeID : String
  deriving DecidableEq, Repr

structure AddJobsPayload where
  topic : String
  jobs : List Job
  deriving DecidableEq, Repr

structure DonePayload where
  topic : String
  jobIDs : List String
  deriving DecidableEq, Repr

structure DropPayload where
  topic : String
  jobIDs : List String
  deriving DecidableEq, Repr

/-- `RespInfo`: whom to answer. A channel is named by a number, `nil` is `none`. -/
structure RespInfo where
  requestID : UInt32
  respCh : Option Nat
  deriving DecidableEq, Repr

structure Command where
  type : CommandType
  proposeID : UInt64 := 0
  peers : Option PeersListPayload := none
  addNode : Option AddNodePayload := none
  removeNode : Option RemoveNodePayload := none
  transfer : Option TransferLeaderPayload := none
  addJobs : Option AddJobsPayload := none
  done : Option DonePayload := none
  drop : Option DropPayload := none
  respInfo : Option RespInfo := none
  deriving DecidableEq, Repr

/-- A job as the wire carries it. -/
def Job.onWire (job : Job) : Job := { job with done := false, createdAt := 0 }

/-- What `UnmarshalMsgpack` makes of what `MarshalMsgpack` writes: the type, the
proposal ID and the payload that the type selects, which must be there. -/
def Command.onWire (cmd : Command) : Option Command :=
  match cmd.type with
  | .updatePeersList => cmd.peers.map fun payload =>
    { type := cmd.type, proposeID := cmd.proposeID, peers := some payload }
  | .addNode => cmd.addNode.map fun payload =>
    { type := cmd.type, proposeID := cmd.proposeID, addNode := some payload }
  | .removeNode => cmd.removeNode.map fun payload =>
    { type := cmd.type, proposeID := cmd.proposeID, removeNode := some payload }
  | .transferLeader => cmd.transfer.map fun payload =>
    { type := cmd.type, proposeID := cmd.proposeID, transfer := some payload }
  | .addJobs => cmd.addJobs.map fun payload =>
    { type := cmd.type, proposeID := cmd.proposeID,
      addJobs := some { payload with jobs := payload.jobs.map Job.onWire } }
  | .done => cmd.done.map fun payload =>
    { type := cmd.type, proposeID := cmd.proposeID, done := some payload }
  | .drop => cmd.drop.map fun payload =>
    { type := cmd.type, proposeID := cmd.proposeID, drop := some payload }
  | .unknown _ => none

/-- The proposal ID is written, whoever waits for an answer is not. -/
theorem Command.onWire_plain {cmd wire : Command} (onWire : cmd.onWire = some wire) :
    wire.proposeID = cmd.proposeID ∧ wire.respInfo = none := by
  unfold Command.onWire at onWire
  split at onWire
  case h_8 => cases onWire
  all_goals
    obtain ⟨payload, _, rfl⟩ := Option.map_eq_some_iff.mp onWire
    exact ⟨rfl, rfl⟩

inductive ToProducerRespStatus where
  | success
  | error
  deriving DecidableEq, Repr

/-- `FailDuplicate`, `FailQueueFull`, `FailInternal` (1, 2, 3 on the wire). -/
inductive FailReason where
  | duplicate
  | queueFull
  | internal
  deriving DecidableEq, Repr

structure JobFailure where
  jobID : String
  reason : FailReason
  deriving DecidableEq, Repr

structure ToProducerResponse where
  requestID : UInt32
  status : ToProducerRespStatus
  error : String := ""
  failures : List JobFailure := []
  deriving DecidableEq, Repr

/-- `ClusterNodeStatus`; every value but 71 and 73 reads as unavailable. -/
inductive ClusterNodeStatus where
  | followerActive
  | unavailable
  | leaderActive
  deriving DecidableEq, Repr

/-- `ToUin32` -/
def ClusterNodeStatus.toUint32 : ClusterNodeStatus → UInt32
  | .followerActive => 71
  | .unavailable => 72
  | .leaderActive => 73

def clusterNodeStatusFromUint32 (value : UInt32) : ClusterNodeStatus :=
  if value = 71 then .followerActive else if value = 73 then .leaderActive else .unavailable

/-- `ProxyHeartbeat`, as the gateway hands it to a partition. -/
structure ProxyHeartbeat where
  proxyID : String
  topic : String
  consumptionScore : Int
  timestamp : Int
  deriving DecidableEq, Repr

/-! ### Requests of a proxy -/

/-- `ProxyRequestType`; any other byte is `unknown`. -/
inductive ProxyRequestType where
  | heartbeatReport
  | addTopic
  | addJobs
  | done
  | unknown (value : UInt8)
  deriving DecidableEq, Repr

structure AddTopicPayload where
  topic : String
  deriving DecidableEq, Repr

structure TopicCapacity where
  topic : String
  consumptionScore : Int
  deriving DecidableEq, Repr

structure HeartbeatReport where
  proxyID : String
  timestamp : Int
  capacities : List TopicCapacity
  deriving DecidableEq, Repr

/-- `ProxyRequest` as it is decoded: any payload may be missing, whatever the type. -/
structure ProxyRequest where
  requestID : UInt32
  type : ProxyRequestType
  addTopic : Option AddTopicPayload := none
  heartbeatReport : Option HeartbeatReport := none
  addJobs : Option AddJobsPayload := none
  done : Option DonePayload := none
  deriving DecidableEq, Repr

/-- `PartitionHeartbeat`, as a partition hands it to the gateway. -/
structure PartitionHeartbeat where
  topic : String
  canAccept : Bool
  timestamp : Int
  deriving DecidableEq, Repr

end Cue.Model
