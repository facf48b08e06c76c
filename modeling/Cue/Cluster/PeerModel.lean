import Cue.Lib.Msgpack
import Cue.Model.Command

/-! `internal/cluster/model.go`: what nodes say to each other, and how it is
encoded. A request or a response is an array of its type and the payload that its
type selects; the query for the list of peers has none. The `String` methods are
left out. -/
namespace Cue.Cluster
open Cue.Lib Cue.Model

/-! ### Requests -/

/-- `ClusterRequestType`; any other byte is `unknown`. -/
inductive ClusterRequestType where
  | connectionHeartbeat
  | peersListQuery
  | updatePeersList
  | addMissingPeers
  | raftMessage
  | clusterInfo
  | unknown (value : UInt8)
  deriving DecidableEq, Repr

def ClusterRequestType.number : ClusterRequestType → UInt8
  | .connectionHeartbeat => 0
  | .peersListQuery => 1
  | .updatePeersList => 2
  | .addMissingPeers => 3
  | .raftMessage => 4
  | .clusterInfo => 5
  | .unknown value => value

/-- `ClusterRequestType(value)`. -/
def ClusterRequestType.ofNumber (value : UInt8) : ClusterRequestType :=
  match value.toNat with
  | 0 => .connectionHeartbeat
  | 1 => .peersListQuery
  | 2 => .updatePeersList
  | 3 => .addMissingPeers
  | 4 => .raftMessage
  | 5 => .clusterInfo
  | _ => .unknown value

structure HeartbeatPayload where
  timestamp : Int
  deriving DecidableEq, Repr

structure UpdatePeersPayload where
  peers : List PeerInfo
  deriving DecidableEq, Repr

structure AddMissingPayload where
  peers : List PeerInfo
  deriving DecidableEq, Repr

structure RaftMessagePayload where
  data : Bytes
  deriving DecidableEq, Repr

structure ClusterInfoPayload where
  deriving DecidableEq, Repr

structure PeersListRespPayload where
  peers : List PeerInfo
  deriving DecidableEq, Repr

structure ClusterRequest where
  type : ClusterRequestType
  heartbeat : Option HeartbeatPayload := none
  peersList : Option PeersListRespPayload := none
  updatePeers : Option UpdatePeersPayload := none
  addMissing : Option AddMissingPayload := none
  raftMessage : Option RaftMessagePayload := none
  clusterInfo : Option ClusterInfoPayload := none
  deriving DecidableEq, Repr

/-! ### Responses -/

/-- `ClusterResponseType`; any other byte is `unknown`. -/
inductive ClusterResponseType where
  | ack
  | negative
  | peersList
  | unavailable
  | error
  | clusterInfo
  | unknown (value : UInt8)
  deriving DecidableEq, Repr

def ClusterResponseType.number : ClusterResponseType → UInt8
  | .ack => 0
  | .negative => 1
  | .peersList => 2
  | .unavailable => 3
  | .error => 4
  | .clusterInfo => 5
  | .unknown value => value

/-- `ClusterResponseType(value)`. -/
def ClusterResponseType.ofNumber (value : UInt8) : ClusterResponseType :=
  match value.toNat with
  | 0 => .ack
  | 1 => .negative
  | 2 => .peersList
  | 3 => .unavailable
  | 4 => .error
  | 5 => .clusterInfo
  | _ => .unknown value

structure AckPayload where
  deriving DecidableEq, Repr

structure NegativePayload where
  deriving DecidableEq, Repr

structure UnavailablePayload where
  deriving DecidableEq, Repr

structure ErrorPayload where
  message : String
  deriving DecidableEq, Repr

structure ClusterInfoRespPayload where
  leaderID : String
  /-- a `ClusterNodeStatus` as the number it is -/
  status : UInt32
  deriving DecidableEq, Repr

structure ClusterResponse where
  type : ClusterResponseType
  ack : Option AckPayload := none
  negative : Option NegativePayload := none
  peersList : Option PeersListRespPayload := none
  unavailable : Option UnavailablePayload := none
  error : Option ErrorPayload := none
  clusterInfo : Option ClusterInfoRespPayload := none
  deriving DecidableEq, Repr

/-! ### Encoding -/

/-- `msgpack` with the encodings of the payloads. -/
structure PeerFormats extends Msgpack where
  heartbeat : Format HeartbeatPayload
  updatePeers : Format UpdatePeersPayload
  addMissing : Format AddMissingPayload
  raftMessage : Format RaftMessagePayload
  clusterInfo : Format ClusterInfoPayload
  ack : Format AckPayload
  negative : Format NegativePayload
  peersList : Format PeersListRespPayload
  unavailable : Format UnavailablePayload
  error : Format ErrorPayload
  clusterInfoResp : Format ClusterInfoRespPayload

namespace ClusterRequest

/-- The switch of `MarshalMsgpack`. -/
def marshalPayload (mp : PeerFormats) (r : ClusterRequest) : Except String Bytes :=
  match r.type with
  | .connectionHeartbeat => mp.heartbeat.present "heartbeat payload missing" r.heartbeat
  | .peersListQuery => .ok mp.nil
  | .updatePeersList => mp.updatePeers.present "update_peers payload missing" r.updatePeers
  | .addMissingPeers => mp.addMissing.present "add_missing payload missing" r.addMissing
  | .raftMessage => mp.raftMessage.present "raft_message payload missing" r.raftMessage
  | .clusterInfo => mp.clusterInfo.present "cluster_info payload missing" r.clusterInfo
  | .unknown value => .error ("unknown request type: " ++ toString value)

def marshalMsgpack (mp : PeerFormats) (r : ClusterRequest) : Except String Bytes :=
  mp.marshalUnion r.type.number (r.marshalPayload mp)

/-- The switch of `UnmarshalMsgpack`. -/
def unmarshalPayload (mp : PeerFormats) (r : ClusterRequest) (raw : Bytes) : Except String ClusterRequest :=
  match r.type with
  | .connectionHeartbeat =>
    (mp.heartbeat.read "unmarshal heartbeat" raw).map fun payload => { r with heartbeat := some payload }
  | .peersListQuery => .ok { r with peersList := none }
  | .updatePeersList =>
    (mp.updatePeers.read "unmarshal update_peers" raw).map fun payload => { r with updatePeers := some payload }
  | .addMissingPeers =>
    (mp.addMissing.read "unmarshal add_missing" raw).map fun payload => { r with addMissing := some payload }
  | .raftMessage =>
    (mp.raftMessage.read "unmarshal raft_message" raw).map fun payload => { r with raftMessage := some payload }
  | .clusterInfo =>
    (mp.clusterInfo.read "unmarshal cluster_info" raw).map fun payload => { r with clusterInfo := some payload }
  | .unknown value => .error ("unknown request type: " ++ toString value)

/-- `UnmarshalMsgpack` into `r`. -/
def unmarshalMsgpack (mp : PeerFormats) (r : ClusterRequest) (data : Bytes) : Except String ClusterRequest :=
  mp.unmarshalUnion data fun tag raw => { r with type := .ofNumber tag }.unmarshalPayload mp raw

/-- `ClusterRequest{}` -/
def zero : ClusterRequest := { type := .connectionHeartbeat }

end ClusterRequest

namespace ClusterResponse

/-- The switch of `MarshalMsgpack`. -/
def marshalPayload (mp : PeerFormats) (r : ClusterResponse) : Except String Bytes :=
  match r.type with
  | .ack => mp.ack.present "ack payload missing" r.ack
  | .negative => mp.negative.present "negative payload missing" r.negative
  | .peersList => mp.peersList.present "peers_list payload missing" r.peersList
  | .unavailable => mp.unavailable.present "unavailable payload missing" r.unavailable
  | .error => mp.error.present "error payload missing" r.error
  | .clusterInfo => mp.clusterInfoResp.present "cluster_info payload missing" r.clusterInfo
  | .unknown value => .error ("unknown response type: " ++ toString value)

def marshalMsgpack (mp : PeerFormats) (r : ClusterResponse) : Except String Bytes :=
  mp.marshalUnion r.type.number (r.marshalPayload mp)

/-- The switch of `UnmarshalMsgpack`. -/
def unmarshalPayload (mp : PeerFormats) (r : ClusterResponse) (raw : Bytes) : Except String ClusterResponse :=
  match r.type with
  | .ack => (mp.ack.read "unmarshal ack" raw).map fun payload => { r with ack := some payload }
  | .negative => (mp.negative.read "unmarshal negative" raw).map fun payload => { r with negative := some payload }
  | .peersList =>
    (mp.peersList.read "unmarshal peers_list" raw).map fun payload => { r with peersList := some payload }
  | .unavailable =>
    (mp.unavailable.read "unmarshal unavailable" raw).map fun payload => { r with unavailable := some payload }
  | .error => (mp.error.read "unmarshal error" raw).map fun payload => { r with error := some payload }
  | .clusterInfo =>
    (mp.clusterInfoResp.read "unmarshal cluster_info" raw).map fun payload => { r with clusterInfo := some payload }
  | .unknown value => .error ("unknown response type: " ++ toString value)

/-- `UnmarshalMsgpack` into `r`. -/
def unmarshalMsgpack (mp : PeerFormats) (r : ClusterResponse) (data : Bytes) : Except String ClusterResponse :=
  mp.unmarshalUnion data fun tag raw => { r with type := .ofNumber tag }.unmarshalPayload mp raw

/-- `ClusterResponse{}` -/
def zero : ClusterResponse := { type := .ack }

end ClusterResponse

/-! ### Frames

`SendRequest`, `ReadRequest` and `WriteResponse` of `internal/cluster/quic_server.go`, over the
bytes that a stream carries in one direction. -/

/-- `io.ReadFull`: so many bytes, and what follows them. -/
def streamReadFull (stream : Bytes) (n : Nat) : Except String (Bytes × Bytes) :=
  if n ≤ stream.length then .ok (stream.take n, stream.drop n)
  else .error (if stream = [] then "EOF" else "unexpected EOF")

/-- A message behind its length. -/
def writeFrame (data : Bytes) : Bytes := littleEndian 4 (uint32 data.length) ++ data

def readFrame (stream : Bytes) : Except String (Bytes × Bytes) :=
  match streamReadFull stream 4 with
  | .error err => .error err
  | .ok (lenBuf, rest) => streamReadFull rest (fromLittleEndian lenBuf)

/-- `msgpack.Unmarshal` of a frame into a message that decodes itself. -/
def readMessage {B : Type} (mp : PeerFormats) (decode : Bytes → Except String B) (stream : Bytes) :
    Except String (B × Bytes) :=
  match readFrame stream with
  | .error err => .error err
  | .ok (data, rest) =>
    match (mp.first data).bind decode with
    | .error err => .error err
    | .ok message => .ok (message, rest)

/-- What `SendRequest` writes. -/
def sendRequest (mp : PeerFormats) (req : ClusterRequest) : Except String Bytes :=
  (req.marshalMsgpack mp).map writeFrame

/-- `ReadRequest`: the request, and what follows it on the stream. -/
def readRequest (mp : PeerFormats) (stream : Bytes) : Except String (ClusterRequest × Bytes) :=
  readMessage mp (ClusterRequest.zero.unmarshalMsgpack mp) stream

/-- What `WriteResponse` writes. -/
def writeResponse (mp : PeerFormats) (resp : ClusterResponse) : Except String Bytes :=
  (resp.marshalMsgpack mp).map writeFrame

/-- What `SendRequest` reads. -/
def readResponse (mp : PeerFormats) (stream : Bytes) : Except String (ClusterResponse × Bytes) :=
  readMessage mp (ClusterResponse.zero.unmarshalMsgpack mp) stream

end Cue.Cluster
