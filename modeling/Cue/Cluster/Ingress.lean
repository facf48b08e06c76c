import Cue.Cluster.PeerModel
import Cue.Cluster.ServiceDiscovery

/-! `internal/cluster/agent_cluster_ingress.go` and `handleRequestStream` of
`internal/cluster/agent_network.go`: what an agent does with the request of another
node. Nothing in the switch panics, so the recovery is left out, and so are metrics
and log lines. The request that shares the peers is sent by a goroutine of its own;
here it is put on a list. -/
namespace Cue.Cluster
open Cue.Lib Cue.Model

/-- What the requests of other nodes read and change of an agent, with `M` the messages of raft. -/
structure PeerAgent (M : Type) where
  /-- nothing is stored before the first leader is known -/
  leaderID : Option String
  /-- `none` is the pointer that is not set -/
  status : Option UInt32
  discovery : ServiceDiscovery
  peerSyncOutgoingCoolDown : Int
  stepCh : List M
  /-- the requests that goroutines send, with the node they go to -/
  sent : List (String × ClusterRequest)

/-- What a request meets. -/
structure IngressEnv (M : Type) where
  stringToUint64 : String → UInt64
  /-- `proto.Unmarshal` of a raft message -/
  unmarshal : Bytes → Option M
  /-- the clock in milliseconds -/
  now : Int
  /-- whether the message is taken before the context is done -/
  stepped : Bool

namespace PeerAgent

variable {M : Type}

def errUnknownRequestType : String := "unknown request type"

def errInvalidRaftMessage : String := "invalid raft message"

def getLeaderID (a : PeerAgent M) : String := a.leaderID.getD ""

def getStatus (a : PeerAgent M) : ClusterNodeStatus :=
  match a.status with
  | none => .unavailable
  | some val => if val = 0 then .unavailable else clusterNodeStatusFromUint32 val

/-- `&ClusterResponse{Type: ResAck, Ack: &AckPayload{}}` -/
def ack : ClusterResponse := { type := .ack, ack := some ⟨⟩ }

/-- `&ClusterResponse{Type: ResNegative, Negative: &NegativePayload{}}` -/
def negative : ClusterResponse := { type := .negative, negative := some ⟨⟩ }

def handleUpdatePeersList (env : IngressEnv M) (a : PeerAgent M) (peers : List PeerInfo) :
    PeerAgent M × Except String ClusterResponse :=
  ({ a with discovery := a.discovery.updatePeers env.stringToUint64 peers }, .ok ack)

def handleAddMissingPeers (env : IngressEnv M) (a : PeerAgent M) (peers : List PeerInfo) :
    PeerAgent M × Except String ClusterResponse :=
  ({ a with
      discovery := a.discovery.mergePeers env.stringToUint64 peers
      peerSyncOutgoingCoolDown := env.now }, .ok ack)

def handlePeersListQuery (a : PeerAgent M) (nodeID : String) : PeerAgent M × Except String ClusterResponse :=
  let request : ClusterRequest := { type := .addMissingPeers, addMissing := some ⟨a.discovery.listPeers⟩ }
  ({ a with sent := a.sent ++ [(nodeID, request)] }, .ok ack)

def processRequest (env : IngressEnv M) (a : PeerAgent M) (request : ClusterRequest) (nodeID : String) :
    PeerAgent M × Except String ClusterResponse :=
  match request.type with
  | .connectionHeartbeat => (a, .ok ack)
  | .clusterInfo =>
    (a, .ok { type := .clusterInfo, clusterInfo := some ⟨a.getLeaderID, a.getStatus.toUint32⟩ })
  | .updatePeersList =>
    match request.updatePeers with
    | none => (a, .ok negative)
    | some payload => a.handleUpdatePeersList env payload.peers
  | .addMissingPeers =>
    match request.addMissing with
    | none => (a, .ok negative)
    | some payload => a.handleAddMissingPeers env payload.peers
  | .peersListQuery => a.handlePeersListQuery nodeID
  | .raftMessage =>
    match request.raftMessage with
    | none => (a, .error errInvalidRaftMessage)
    | some payload =>
      match env.unmarshal payload.data with
      | none => (a, .error errInvalidRaftMessage)
      | some msg => if env.stepped then ({ a with stepCh := a.stepCh ++ [msg] }, .ok ack) else (a, .ok negative)
  | .unknown _ => (a, .error errUnknownRequestType)

/-- The agent after a request, and the response that is passed to `WriteResponse`
unless the request cannot be read. -/
def handleRequestStream (mp : PeerFormats) (env : IngressEnv M) (a : PeerAgent M) (nodeID : String) (stream : Bytes) :
    PeerAgent M × Option ClusterResponse :=
  match readRequest mp stream with
  | .error _ => (a, none)
  | .ok (req, _) =>
    match a.processRequest env req nodeID with
    | (a, .ok resp) => (a, some resp)
    | (a, .error _) => (a, some { type := .negative })

end PeerAgent
end Cue.Cluster
