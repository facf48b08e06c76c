import Cue.Cluster.Ingress
import Cue.PeerRoundTrip

/-! Every request of another node gets an answer that the node can decode, except
a raft message that is none. The handlers give each response the payload that its
type needs; the response for an error is made without one, and is never encoded. -/
namespace Cue.Cluster
open Cue.Lib Cue.Model

/-! ### Requests that were read -/

/-- What was decoded has the payload that its type needs. -/
theorem ClusterRequest.unmarshalPayload_hasPayload {mp : PeerFormats} {r req : ClusterRequest} {raw : Bytes}
    (decoded : r.unmarshalPayload mp raw = .ok req) : req.hasPayload = true := by
  unfold unmarshalPayload at decoded
  cases type : r.type with
  | peersListQuery =>
    simp only [type] at decoded
    cases decoded
    simp [hasPayload]
  | unknown value => simp [type] at decoded
  | _ =>
    simp only [type] at decoded
    obtain ⟨payload, _, rfl⟩ := Format.map_read_eq_ok.mp decoded
    simp [hasPayload]

theorem readMessage_ok {B : Type} {mp : PeerFormats} {decode : Bytes → Except String B} {stream rest : Bytes}
    {message : B} (read : readMessage mp decode stream = .ok (message, rest)) : ∃ data, decode data = .ok message := by
  unfold readMessage at read
  split at read
  · cases read
  · rename_i data _ _
    cases value : mp.first data with
    | error err => simp [value, Except.bind] at read
    | ok whole =>
      simp only [value, Except.bind] at read
      split at read
      · cases read
      · rename_i decoded
        cases read
        exact ⟨whole, decoded⟩

theorem readRequest_hasPayload {mp : PeerFormats} {stream rest : Bytes} {req : ClusterRequest}
    (read : readRequest mp stream = .ok (req, rest)) : req.hasPayload = true := by
  obtain ⟨data, decoded⟩ := readMessage_ok read
  obtain ⟨tag, raw, payload⟩ := Msgpack.unmarshalUnion_ok decoded
  exact ClusterRequest.unmarshalPayload_hasPayload payload

/-! ### Responses -/

/-- The response is encoded, and the node that asked decodes one of the same type. -/
def ClusterResponse.Answers (mp : PeerFormats) (resp : ClusterResponse) : Prop :=
  ∃ data, resp.marshalMsgpack mp = .ok data ∧
    ∃ back, ClusterResponse.zero.unmarshalMsgpack mp data = .ok back ∧ back.type = resp.type ∧
      (data.length < 2 ^ 32 → ∀ rest, readResponse mp (writeFrame data ++ rest) = .ok (back, rest))

namespace ClusterResponse

variable {mp : PeerFormats} {resp : ClusterResponse}

@[simp] theorem selected_type (resp : ClusterResponse) : resp.selected.type = resp.type := by
  unfold selected
  split <;> rfl

theorem answers_of_hasPayload (lawful : mp.toMsgpack.Lawful) (carried : resp.Carried mp)
    (there : resp.hasPayload = true) : resp.Answers mp := by
  obtain ⟨data, written, value, decoded⟩ := resp.marshal_round_trips lawful carried there
  exact ⟨data, written, resp.selected, decoded, resp.selected_type,
    fun short rest => readMessage_writeFrame lawful value short decoded rest⟩

/-- A response without the payload that its type needs is not encoded. -/
theorem hasPayload_of_marshal {data : Bytes} (written : resp.marshalMsgpack mp = .ok data) : resp.hasPayload = true := by
  unfold marshalMsgpack Msgpack.marshalUnion at written
  split at written
  · cases written
  · rename_i payload encoded
    unfold marshalPayload at encoded
    unfold hasPayload
    cases type : resp.type with
    | unknown value => simp [type] at encoded
    | _ =>
      simp only [type] at encoded ⊢
      exact Format.isSome_of_present encoded

end ClusterResponse

namespace PeerAgent

variable {M : Type} {req : ClusterRequest}

/-- A raft message that cannot be decoded. -/
def Garbled (env : IngressEnv M) (req : ClusterRequest) : Prop :=
  req.type = .raftMessage ∧ ∃ payload, req.raftMessage = some payload ∧ env.unmarshal payload.data = none

/-- A request that has its payload fails only if it is a raft message that cannot be
decoded, and then nothing has changed. Every response that is made has its payload. -/
theorem processRequest_spec (env : IngressEnv M) (a : PeerAgent M) (nodeID : String) (there : req.hasPayload = true) :
    Garbled env req ∧ a.processRequest env req nodeID = (a, .error errInvalidRaftMessage) ∨
    ¬ Garbled env req ∧ ∃ a' resp, a.processRequest env req nodeID = (a', .ok resp) ∧ resp.hasPayload = true := by
  have plain (other : req.type ≠ .raftMessage) : ¬ Garbled env req := fun garbled => other garbled.1
  unfold ClusterRequest.hasPayload at there
  unfold processRequest
  cases type : req.type with
  | connectionHeartbeat => exact .inr ⟨plain (by simp [type]), a, ack, rfl, rfl⟩
  | clusterInfo => exact .inr ⟨plain (by simp [type]), a, _, rfl, rfl⟩
  | peersListQuery => exact .inr ⟨plain (by simp [type]), _, ack, rfl, rfl⟩
  | updatePeersList =>
    simp only [type] at there ⊢
    obtain ⟨payload, given⟩ := Option.isSome_iff_exists.mp there
    rw [given]
    exact .inr ⟨plain (by simp [type]), _, ack, rfl, rfl⟩
  | addMissingPeers =>
    simp only [type] at there ⊢
    obtain ⟨payload, given⟩ := Option.isSome_iff_exists.mp there
    rw [given]
    exact .inr ⟨plain (by simp [type]), _, ack, rfl, rfl⟩
  | raftMessage =>
    simp only [type] at there ⊢
    obtain ⟨payload, given⟩ := Option.isSome_iff_exists.mp there
    rw [given]
    cases decoded : env.unmarshal payload.data with
    | none => exact .inl ⟨⟨type, payload, given, decoded⟩, by simp only [decoded]⟩
    | some msg =>
      refine .inr ⟨?_, ?_⟩
      · rintro ⟨_, other, same, failed⟩
        rw [given] at same
        cases same
        rw [decoded] at failed
        cases failed
      · simp only [decoded]
        -- the message is taken, or the agent is shutting down
        split
        · exact ⟨_, ack, rfl, rfl⟩
        · exact ⟨a, negative, rfl, rfl⟩
  | unknown value => simp [type] at there

end PeerAgent

/-- For a request that was read off a stream, in every state of the agent, the
response that is to be written is encoded and decoded to the same type, unless the
request was a raft message that cannot be decoded. -/
theorem answered_unless_garbled {M : Type} {mp : PeerFormats} (lawful : mp.toMsgpack.Lawful) (env : IngressEnv M)
    (a : PeerAgent M) (nodeID : String) (stream rest : Bytes) (req : ClusterRequest)
    (read : readRequest mp stream = .ok (req, rest)) :
    ∃ a' resp, a.handleRequestStream mp env nodeID stream = (a', some resp) ∧
      (resp.Carried mp → (resp.Answers mp ↔ ¬ PeerAgent.Garbled env req)) := by
  unfold PeerAgent.handleRequestStream
  rw [read]
  dsimp only
  rcases a.processRequest_spec env nodeID (readRequest_hasPayload read) with
    ⟨garbled, failed⟩ | ⟨fine, a', resp, made, there⟩
  · rw [failed]
    refine ⟨a, _, rfl, fun _ => ⟨?_, fun fine => absurd garbled fine⟩⟩
    rintro ⟨data, written, _⟩
    have there := ClusterResponse.hasPayload_of_marshal written
    cases there
  · rw [made]
    exact ⟨a', resp, rfl, fun carried => ⟨fun _ => fine, fun _ => resp.answers_of_hasPayload lawful carried there⟩⟩

/-! ### A message and a garbled one -/

private def idleAgent : PeerAgent Unit := ⟨none, some 71, .build (fun _ => 1) [], 0, [], []⟩

/-- The only raft message is the bytes 8 and 9. -/
private def oneMessage : IngressEnv Unit where
  stringToUint64 _ := 1
  unmarshal data := if data = [8, 9] then some () else none
  now := 0
  stepped := true

private def raftRequestOf (data : Bytes) : ClusterRequest := { type := .raftMessage, raftMessage := some ⟨data⟩ }

private def streamOf (data : Bytes) : Bytes := ((sendRequest plainFormats (raftRequestOf data)).toOption).getD []

theorem raft_message_answered :
    (idleAgent.handleRequestStream plainFormats oneMessage "b" (streamOf [8, 9])).1.stepCh = [()] ∧
    ∃ resp, (idleAgent.handleRequestStream plainFormats oneMessage "b" (streamOf [8, 9])).2 = some resp ∧
      resp.Answers plainFormats := by
  refine ⟨rfl, ?_⟩
  obtain ⟨a', resp, handled, answers⟩ := answered_unless_garbled
    (show plainFormats.toMsgpack.Lawful from Msgpack.compact_lawful) oneMessage idleAgent "b" (streamOf [8, 9]) []
    (raftRequestOf [8, 9]) rfl
  cases handled
  refine ⟨_, rfl, (answers ?_).mpr ?_⟩
  · rintro payload given
    exact ⟨_, rfl, rfl, rfl⟩
  · rintro ⟨_, payload, given, failed⟩
    cases given
    cases failed

/-- A raft message of one byte is read off the stream but is none, and the response cannot be encoded. -/
theorem garbled_message_unanswered :
    readRequest plainFormats (streamOf [1]) = .ok (raftRequestOf [1], []) ∧
    (idleAgent.handleRequestStream plainFormats oneMessage "b" (streamOf [1])).2 = some { type := .negative } ∧
    writeResponse plainFormats { type := .negative } = .error "negative payload missing" ∧
    ∀ mp data, ({ type := .negative } : ClusterResponse).marshalMsgpack mp ≠ .ok data :=
  ⟨rfl, rfl, rfl, fun _ _ written => by cases ClusterResponse.hasPayload_of_marshal written⟩

end Cue.Cluster
