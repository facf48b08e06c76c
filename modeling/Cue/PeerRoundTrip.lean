import Cue.Cluster.PeerModel

/-! Requests and responses between nodes come off a stream as they were put on it.
The frame says how long a message is, the tag which payload it has, and the two
switches of each codec select the same one. -/
namespace Cue.Cluster
open Cue.Lib Cue.Model

/-! ### Frames -/

theorem streamReadFull_append (bytes rest : Bytes) :
    streamReadFull (bytes ++ rest) bytes.length = .ok (bytes, rest) := by
  simp [streamReadFull]

/-- A frame is read to its last byte. -/
theorem readFrame_writeFrame {data : Bytes} (short : data.length < 2 ^ 32) (rest : Bytes) :
    readFrame (writeFrame data ++ rest) = .ok (data, rest) := by
  have length : fromLittleEndian (littleEndian 4 (uint32 data.length)) = data.length := by
    rw [fromLittleEndian_littleEndian, uint32, Nat.mod_eq_of_lt short]
    exact Nat.mod_eq_of_lt short
  have lenBuf := streamReadFull_append (littleEndian 4 (uint32 data.length)) (data ++ rest)
  rw [length_littleEndian] at lenBuf
  rw [readFrame, writeFrame, List.append_assoc, lenBuf]
  dsimp only
  rw [length]
  exact streamReadFull_append data rest

theorem readMessage_writeFrame {B : Type} {mp : PeerFormats} {decode : Bytes → Except String B} {data : Bytes}
    {message : B} (lawful : mp.toMsgpack.Lawful) (value : mp.IsValue data) (short : data.length < 2 ^ 32)
    (decoded : decode data = .ok message) (rest : Bytes) :
    readMessage mp decode (writeFrame data ++ rest) = .ok (message, rest) := by
  have whole : (mp.first data).bind decode = .ok message := by
    rw [lawful.first data value]
    exact decoded
  rw [readMessage, readFrame_writeFrame short]
  dsimp only
  rw [whole]

/-! ### Requests -/

namespace ClusterRequest

variable {mp : PeerFormats} {req : ClusterRequest}

/-- The payload that the type needs is there. -/
def hasPayload (req : ClusterRequest) : Bool :=
  match req.type with
  | .connectionHeartbeat => req.heartbeat.isSome
  | .peersListQuery => true
  | .updatePeersList => req.updatePeers.isSome
  | .addMissingPeers => req.addMissing.isSome
  | .raftMessage => req.raftMessage.isSome
  | .clusterInfo => req.clusterInfo.isSome
  | .unknown _ => false

/-- The request with the payload that its type selects and no other. -/
def selected (req : ClusterRequest) : ClusterRequest :=
  match req.type with
  | .connectionHeartbeat => { type := req.type, heartbeat := req.heartbeat }
  | .peersListQuery => { type := req.type }
  | .updatePeersList => { type := req.type, updatePeers := req.updatePeers }
  | .addMissingPeers => { type := req.type, addMissing := req.addMissing }
  | .raftMessage => { type := req.type, raftMessage := req.raftMessage }
  | .clusterInfo => { type := req.type, clusterInfo := req.clusterInfo }
  | .unknown _ => { type := req.type }

/-- `msgpack` reads the payload back. -/
def Carried (mp : PeerFormats) (req : ClusterRequest) : Prop :=
  match req.type with
  | .connectionHeartbeat => ∀ payload ∈ req.heartbeat, mp.RoundTrips mp.heartbeat payload payload
  | .updatePeersList => ∀ payload ∈ req.updatePeers, mp.RoundTrips mp.updatePeers payload payload
  | .addMissingPeers => ∀ payload ∈ req.addMissing, mp.RoundTrips mp.addMissing payload payload
  | .raftMessage => ∀ payload ∈ req.raftMessage, mp.RoundTrips mp.raftMessage payload payload
  | .clusterInfo => ∀ payload ∈ req.clusterInfo, mp.RoundTrips mp.clusterInfo payload payload
  | .peersListQuery | .unknown _ => True

theorem payload_round_trips (lawful : mp.toMsgpack.Lawful) (carried : req.Carried mp) (there : req.hasPayload = true) :
    ∃ raw, req.marshalPayload mp = .ok raw ∧ mp.IsValue raw ∧
      ({ type := .ofNumber req.type.number } : ClusterRequest).unmarshalPayload mp raw = .ok req.selected := by
  unfold Carried at carried
  unfold hasPayload at there
  unfold marshalPayload unmarshalPayload selected
  cases type : req.type with
  | unknown value => simp [type] at there
  | peersListQuery => exact ⟨mp.nil, rfl, lawful.nil, rfl⟩
  | _ =>
    simp only [type] at carried there ⊢
    obtain ⟨raw, payload, given, written, value, decoded⟩ := Msgpack.present_read carried there
    exact ⟨raw, written, value, by rw [given]; exact decoded⟩

theorem marshal_round_trips (lawful : mp.toMsgpack.Lawful) (carried : req.Carried mp) (there : req.hasPayload = true) :
    ∃ data, req.marshalMsgpack mp = .ok data ∧ mp.IsValue data ∧ zero.unmarshalMsgpack mp data = .ok req.selected := by
  obtain ⟨raw, written, value, decoded⟩ := payload_round_trips lawful carried there
  obtain ⟨data, union, whole, read⟩ := Msgpack.marshalUnion_ok lawful req.type.number value
  rw [marshalMsgpack, written]
  exact ⟨data, union, whole, (read _).trans decoded⟩

end ClusterRequest

/-! ### Responses -/

namespace ClusterResponse

variable {mp : PeerFormats} {resp : ClusterResponse}

/-- The payload that the type needs is there. -/
def hasPayload (resp : ClusterResponse) : Bool :=
  match resp.type with
  | .ack => resp.ack.isSome
  | .negative => resp.negative.isSome
  | .peersList => resp.peersList.isSome
  | .unavailable => resp.unavailable.isSome
  | .error => resp.error.isSome
  | .clusterInfo => resp.clusterInfo.isSome
  | .unknown _ => false

/-- The response with the payload that its type selects and no other. -/
def selected (resp : ClusterResponse) : ClusterResponse :=
  match resp.type with
  | .ack => { type := resp.type, ack := resp.ack }
  | .negative => { type := resp.type, negative := resp.negative }
  | .peersList => { type := resp.type, peersList := resp.peersList }
  | .unavailable => { type := resp.type, unavailable := resp.unavailable }
  | .error => { type := resp.type, error := resp.error }
  | .clusterInfo => { type := resp.type, clusterInfo := resp.clusterInfo }
  | .unknown _ => { type := resp.type }

/-- `msgpack` reads the payload back. -/
def Carried (mp : PeerFormats) (resp : ClusterResponse) : Prop :=
  match resp.type with
  | .ack => ∀ payload ∈ resp.ack, mp.RoundTrips mp.ack payload payload
  | .negative => ∀ payload ∈ resp.negative, mp.RoundTrips mp.negative payload payload
  | .peersList => ∀ payload ∈ resp.peersList, mp.RoundTrips mp.peersList payload payload
  | .unavailable => ∀ payload ∈ resp.unavailable, mp.RoundTrips mp.unavailable payload payload
  | .error => ∀ payload ∈ resp.error, mp.RoundTrips mp.error payload payload
  | .clusterInfo => ∀ payload ∈ resp.clusterInfo, mp.RoundTrips mp.clusterInfoResp payload payload
  | .unknown _ => True

theorem payload_round_trips (carried : resp.Carried mp) (there : resp.hasPayload = true) :
    ∃ raw, resp.marshalPayload mp = .ok raw ∧ mp.IsValue raw ∧
      ({ type := .ofNumber resp.type.number } : ClusterResponse).unmarshalPayload mp raw = .ok resp.selected := by
  unfold Carried at carried
  unfold hasPayload at there
  unfold marshalPayload unmarshalPayload selected
  cases type : resp.type with
  | unknown value => simp [type] at there
  | _ =>
    simp only [type] at carried there ⊢
    obtain ⟨raw, payload, given, written, value, decoded⟩ := Msgpack.present_read carried there
    exact ⟨raw, written, value, by rw [given]; exact decoded⟩

theorem marshal_round_trips (lawful : mp.toMsgpack.Lawful) (carried : resp.Carried mp)
    (there : resp.hasPayload = true) :
    ∃ data, resp.marshalMsgpack mp = .ok data ∧ mp.IsValue data ∧
      zero.unmarshalMsgpack mp data = .ok resp.selected := by
  obtain ⟨raw, written, value, decoded⟩ := payload_round_trips carried there
  obtain ⟨data, union, whole, read⟩ := Msgpack.marshalUnion_ok lawful resp.type.number value
  rw [marshalMsgpack, written]
  exact ⟨data, union, whole, (read _).trans decoded⟩

end ClusterResponse

/-! ### Both -/

variable {mp : PeerFormats}

/-- A request or a response with the payload that its type needs is encoded. If the
encoding is shorter than 4 GiB, what is written is its length and the encoding, and
what is read off the stream is the message with this payload and no other; whatever
follows is still on the stream. -/
theorem peer_messages_round_trip (lawful : mp.toMsgpack.Lawful) :
    (∀ req : ClusterRequest, req.Carried mp → req.hasPayload = true →
      ∃ data, req.marshalMsgpack mp = .ok data ∧ (data.length < 2 ^ 32 →
        sendRequest mp req = .ok (littleEndian 4 data.length ++ data) ∧
          ∀ rest, readRequest mp (littleEndian 4 data.length ++ data ++ rest) = .ok (req.selected, rest))) ∧
    ∀ resp : ClusterResponse, resp.Carried mp → resp.hasPayload = true →
      ∃ data, resp.marshalMsgpack mp = .ok data ∧ (data.length < 2 ^ 32 →
        writeResponse mp resp = .ok (littleEndian 4 data.length ++ data) ∧
          ∀ rest, readResponse mp (littleEndian 4 data.length ++ data ++ rest) = .ok (resp.selected, rest)) := by
  have frame {data : Bytes} (short : data.length < 2 ^ 32) :
      writeFrame data = littleEndian 4 data.length ++ data := by
    rw [writeFrame, uint32, Nat.mod_eq_of_lt short]
  constructor
  · intro req carried there
    obtain ⟨data, written, value, decoded⟩ := req.marshal_round_trips lawful carried there
    refine ⟨data, written, fun short => ?_⟩
    rw [← frame short, sendRequest, written]
    exact ⟨rfl, readMessage_writeFrame lawful value short decoded⟩
  · intro resp carried there
    obtain ⟨data, written, value, decoded⟩ := resp.marshal_round_trips lawful carried there
    refine ⟨data, written, fun short => ?_⟩
    rw [← frame short, writeResponse, written]
    exact ⟨rfl, readMessage_writeFrame lawful value short decoded⟩

/-! ### Given messages -/

/-- A map with the field `data`, which has less than 256 bytes. -/
def dataFormat : Format RaftMessagePayload where
  marshal payload :=
    if payload.data.length < 256 then
      .ok ([0x81, 0xa4, 0x64, 0x61, 0x74, 0x61, 0xc4, UInt8.ofNat payload.data.length] ++ payload.data)
    else .error "left out"
  unmarshal raw :=
    match raw with
    | 0x81 :: 0xa4 :: 0x64 :: 0x61 :: 0x74 :: 0x61 :: 0xc4 :: count :: data => .ok ⟨data.take count.toNat⟩
    | _ => .error "left out"

/-- The payload has no fields: its encoding is an empty map. -/
def emptyFormat {A : Type} (payload : A) : Format A where
  marshal _ := .ok [0x80]
  unmarshal raw := if raw = [0x80] then .ok payload else .error "left out"

/-- The formats of raft messages, of requests for information and of answers without fields. -/
def plainFormats : PeerFormats where
  toMsgpack := .compact
  heartbeat := .table []
  updatePeers := .table []
  addMissing := .table []
  raftMessage := dataFormat
  clusterInfo := emptyFormat ⟨⟩
  ack := emptyFormat ⟨⟩
  negative := emptyFormat ⟨⟩
  peersList := .table []
  unavailable := emptyFormat ⟨⟩
  error := .table []
  clusterInfoResp := .table []

private def raftRequest : ClusterRequest := { type := .raftMessage, raftMessage := some ⟨[8, 9]⟩ }

private def ackResponse : ClusterResponse := { type := .ack, ack := some ⟨⟩ }

/-- A raft message and its acknowledgement. -/
theorem raft_message_round_trips : ∃ sent answered,
    sendRequest plainFormats raftRequest = .ok sent ∧ readRequest plainFormats (sent ++ [5]) = .ok (raftRequest, [5]) ∧
    writeResponse plainFormats ackResponse = .ok answered ∧
      readResponse plainFormats (answered ++ []) = .ok (ackResponse, []) := by
  obtain ⟨requests, responses⟩ :=
    peer_messages_round_trip (show plainFormats.toMsgpack.Lawful from Msgpack.compact_lawful)
  have request : raftRequest.Carried plainFormats := by
    rintro payload given
    cases given
    exact ⟨_, rfl, rfl, rfl⟩
  have response : ackResponse.Carried plainFormats := by
    rintro payload given
    exact ⟨_, rfl, rfl, rfl⟩
  obtain ⟨data, encoded, sent⟩ := requests raftRequest request rfl
  obtain ⟨data', encoded', answered⟩ := responses ackResponse response rfl
  cases encoded
  cases encoded'
  obtain ⟨written, read⟩ := sent (by decide)
  obtain ⟨written', read'⟩ := answered (by decide)
  exact ⟨_, _, written, read [5], written', read' []⟩

end Cue.Cluster
