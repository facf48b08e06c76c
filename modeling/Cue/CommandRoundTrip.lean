import Cue.Cluster.RaftSegment
import Cue.Model.CommandCodec

/-! Commands come back from their encoding as they go over the wire. The two
switches of the codec select the same payload, and a command that was decoded has
this payload and no other.

Of `msgpack` it is assumed that numbers and the elements of an array are read back,
and the payload at hand; that is a condition on the payload, since `IdentityKind`
is encoded as a text that only the three known kinds are read back from. -/
namespace Cue.Model
open Cue.Lib

/-- The payload that the type selects is there. -/
def Command.hasPayload (cmd : Command) : Bool :=
  match cmd.type with
  | .updatePeersList => cmd.peers.isSome
  | .addNode => cmd.addNode.isSome
  | .removeNode => cmd.removeNode.isSome
  | .transferLeader => cmd.transfer.isSome
  | .addJobs => cmd.addJobs.isSome
  | .done => cmd.done.isSome
  | .drop => cmd.drop.isSome
  | .unknown _ => false

namespace CommandFormats

variable {mp : CommandFormats} {cmd wire : Command}

/-- The fields of a job that are tagged `-` keep their zero values. -/
structure Lawful (mp : CommandFormats) : Prop extends mp.toMsgpack.Lawful where
  plain : ∀ raw payload, mp.addJobs.unmarshal raw = .ok payload → ∀ job ∈ payload.jobs, job.onWire = job

/-- The payload that the type selects, if it is there, is read back as it goes over the wire. -/
def Carries (mp : CommandFormats) (cmd : Command) : Prop :=
  match cmd.type with
  | .updatePeersList => ∀ payload ∈ cmd.peers, mp.RoundTrips mp.peers payload payload
  | .addNode => ∀ payload ∈ cmd.addNode, mp.RoundTrips mp.addNode payload payload
  | .removeNode => ∀ payload ∈ cmd.removeNode, mp.RoundTrips mp.removeNode payload payload
  | .transferLeader => ∀ payload ∈ cmd.transfer, mp.RoundTrips mp.transfer payload payload
  | .addJobs => ∀ payload ∈ cmd.addJobs,
    mp.RoundTrips mp.addJobs payload { payload with jobs := payload.jobs.map Job.onWire }
  | .done => ∀ payload ∈ cmd.done, mp.RoundTrips mp.done payload payload
  | .drop => ∀ payload ∈ cmd.drop, mp.RoundTrips mp.drop payload payload
  | .unknown _ => True

/-! ### The payload -/

theorem payload_round_trips (carries : mp.Carries cmd) (there : cmd.hasPayload = true) :
    ∃ raw wire, cmd.marshalPayload mp = .ok raw ∧ mp.IsValue raw ∧ cmd.onWire = some wire ∧
      ({ type := cmd.type, proposeID := cmd.proposeID } : Command).unmarshalPayload mp raw = .ok wire := by
  unfold Carries at carries
  unfold Command.hasPayload at there
  unfold Command.marshalPayload Command.unmarshalPayload Command.onWire
  cases type : cmd.type with
  | unknown value => simp [type] at there
  | _ =>
    simp only [type] at carries there ⊢
    obtain ⟨raw, payload, given, written, value, decoded⟩ := Msgpack.present_read carries there
    exact ⟨raw, _, written, value, by rw [given]; rfl, decoded⟩

/-- Without a payload there is nothing to encode. -/
theorem marshalPayload_missing (mp : CommandFormats) (missing : cmd.hasPayload = false) :
    ∃ err, cmd.marshalPayload mp = .error err := by
  unfold Command.hasPayload at missing
  unfold Command.marshalPayload
  cases type : cmd.type with
  | unknown value => exact ⟨_, rfl⟩
  | _ =>
    simp only [type, Option.isSome_eq_false_iff, Option.isNone_iff_eq_none] at missing ⊢
    rw [missing]
    exact ⟨_, rfl⟩

/-- What the second switch makes of a command without payloads. -/
theorem unmarshalPayload_plain (lawful : mp.Lawful) {type : CommandType} {proposeID : UInt64} {raw : Bytes}
    (decoded : ({ type := type, proposeID := proposeID } : Command).unmarshalPayload mp raw = .ok cmd) :
    cmd.hasPayload = true ∧ cmd.onWire = some cmd := by
  unfold Command.unmarshalPayload at decoded
  cases type with
  | unknown value => cases decoded
  | addJobs =>
    obtain ⟨payload, read, rfl⟩ := Format.map_read_eq_ok.mp decoded
    have same : payload.jobs.map Job.onWire = payload.jobs :=
      (List.map_congr_left (lawful.plain raw payload read)).trans (List.map_id _)
    refine ⟨rfl, ?_⟩
    simp [Command.onWire, same]
  | _ =>
    obtain ⟨payload, _, rfl⟩ := Format.map_read_eq_ok.mp decoded
    exact ⟨rfl, rfl⟩

/-! ### The array -/

theorem marshalMsgpack_ok (lawful : mp.Lawful) {raw : Bytes} (payload : cmd.marshalPayload mp = .ok raw)
    (value : mp.IsValue raw) :
    ∃ data, cmd.marshalMsgpack mp = .ok data ∧ mp.IsValue data ∧ Command.zero.unmarshalMsgpack mp data =
      ({ type := .ofNumber cmd.type.number, proposeID := cmd.proposeID } : Command).unmarshalPayload mp raw := by
  obtain ⟨type, typeWritten, typeValue, typeRead⟩ := lawful.uint8 cmd.type.number
  obtain ⟨id, idWritten, idValue, idRead⟩ := lawful.uint64 cmd.proposeID
  have values : ∀ elem ∈ [type, id, raw], mp.IsValue elem := by simp [typeValue, idValue, value]
  refine ⟨mp.array [type, id, raw], ?_, lawful.array _ (by simp) values, ?_⟩
  · rw [Command.marshalMsgpack, payload, typeWritten, idWritten]
    exact mp.marshalArray_ok [type, id, raw]
  · have elements : mp.unmarshalArray 3 (mp.array [type, id, raw]) = .ok [type, id, raw] :=
      lawful.elements _ (by simp) values
    have first : mp.uint8.read "unmarshal type" type = .ok cmd.type.number := Format.read_eq_ok.mpr typeRead
    have second : mp.uint64.read "unmarshal propose_id" id = .ok cmd.proposeID := Format.read_eq_ok.mpr idRead
    simp only [Command.unmarshalMsgpack, elements, List.getD_cons_zero, List.getD_cons_succ, first, second,
      Command.zero]

/-- A decoded command came out of the second switch. -/
theorem unmarshalMsgpack_eq_ok {data : Bytes} (decoded : Command.zero.unmarshalMsgpack mp data = .ok cmd) :
    ∃ type proposeID raw,
      ({ type := type, proposeID := proposeID } : Command).unmarshalPayload mp raw = .ok cmd := by
  unfold Command.unmarshalMsgpack at decoded
  split at decoded
  · cases decoded
  · split at decoded
    · cases decoded
    · split at decoded
      · cases decoded
      · exact ⟨_, _, _, decoded⟩

theorem marshal_round_trips (lawful : mp.Lawful) (carries : mp.Carries cmd) (there : cmd.hasPayload = true) :
    ∃ data wire, cmd.marshalMsgpack mp = .ok data ∧ mp.IsValue data ∧
      Command.zero.unmarshalMsgpack mp data = .ok wire ∧ cmd.onWire = some wire := by
  obtain ⟨raw, wire, payload, value, onWire, decoded⟩ := payload_round_trips carries there
  obtain ⟨data, written, whole, read⟩ := marshalMsgpack_ok lawful payload value
  have known : CommandType.ofNumber cmd.type.number = cmd.type := by
    unfold Command.hasPayload at there
    cases type : cmd.type with
    | unknown value => simp [type] at there
    | _ => rfl
  rw [known] at read
  exact ⟨data, wire, written, whole, read.trans decoded, onWire⟩

/-- A command with the payload that its type selects is encoded, and decoded to its
type, its proposal ID and this payload; encoding fails for all other commands; and a
command that was decoded is encoded and decoded to itself. -/
theorem command_codec_round_trips (lawful : mp.Lawful) :
    (∀ cmd, mp.Carries cmd → cmd.hasPayload = true →
      ∃ data wire, cmd.marshalMsgpack mp = .ok data ∧ Command.zero.unmarshalMsgpack mp data = .ok wire ∧
        cmd.onWire = some wire) ∧
    (∀ cmd, mp.Carries cmd → ((∃ err, cmd.marshalMsgpack mp = .error err) ↔ cmd.hasPayload = false)) ∧
    ∀ data cmd, Command.zero.unmarshalMsgpack mp data = .ok cmd → mp.Carries cmd →
      ∃ data', cmd.marshalMsgpack mp = .ok data' ∧ Command.zero.unmarshalMsgpack mp data' = .ok cmd := by
  refine ⟨fun cmd carries there => ?_, fun cmd carries => ⟨?_, ?_⟩, fun data cmd decoded carries => ?_⟩
  · obtain ⟨data, wire, written, _, read, onWire⟩ := marshal_round_trips lawful carries there
    exact ⟨data, wire, written, read, onWire⟩
  · rintro ⟨err, failed⟩
    by_contra there
    obtain ⟨data, _, written, _⟩ := marshal_round_trips lawful carries (Bool.not_eq_false _ ▸ there)
    cases failed.symm.trans written
  · intro missing
    obtain ⟨err, failed⟩ := marshalPayload_missing mp missing
    exact ⟨err, by rw [Command.marshalMsgpack, failed]⟩
  · obtain ⟨type, proposeID, raw, switched⟩ := unmarshalMsgpack_eq_ok decoded
    obtain ⟨there, plain⟩ := unmarshalPayload_plain lawful switched
    obtain ⟨data', wire, written, _, read, onWire⟩ := marshal_round_trips lawful carries there
    cases plain.symm.trans onWire
    exact ⟨data', written, read⟩

/-- `msgpack.Marshal` and `msgpack.Unmarshal` of commands, in the codec of the storage and the agent. -/
def codec (mp : CommandFormats) (marshal : Cluster.Entry → Option Bytes) (unmarshal : Bytes → Option Cluster.Entry)
    (memory : Nat) : Cluster.Codec where
  marshal := marshal
  unmarshal := unmarshal
  command data := ((mp.first data).bind (Command.zero.unmarshalMsgpack mp)).toOption
  marshalCommand := Command.marshalMsgpack mp
  memory := memory

/-- What the other modules assume of the codec of commands. -/
theorem codec_lawfulCommands (lawful : mp.Lawful) (carries : ∀ cmd, mp.Carries cmd)
    (marshal : Cluster.Entry → Option Bytes) (unmarshal : Bytes → Option Cluster.Entry) (memory : Nat) :
    (mp.codec marshal unmarshal memory).LawfulCommands where
  roundTrip cmd bytes written := by
    have there : cmd.hasPayload = true := by
      by_contra missing
      obtain ⟨err, failed⟩ := marshalPayload_missing mp (Bool.not_eq_true _ ▸ missing)
      simp [codec, Command.marshalMsgpack, failed] at written
    obtain ⟨data, wire, same, whole, read, onWire⟩ := marshal_round_trips lawful (carries cmd) there
    cases same.symm.trans written
    refine ⟨wire, onWire, ?_⟩
    simp only [codec, lawful.first bytes whole]
    exact congrArg Except.toOption read

/-! ### A given command -/

private def batchPayload : AddJobsPayload := ⟨"t", [⟨"a", "t", [7], true, 5⟩]⟩

private def batchBytes : Bytes :=
  [0x82,
    -- topic: "t"
    0xa5, 0x74, 0x6f, 0x70, 0x69, 0x63, 0xa1, 0x74,
    -- jobs: one with an id, a topic and data
    0xa4, 0x6a, 0x6f, 0x62, 0x73, 0x91, 0x83,
    0xa2, 0x69, 0x64, 0xa1, 0x61, 0xa5, 0x74, 0x6f, 0x70, 0x69, 0x63, 0xa1, 0x74,
    0xa4, 0x64, 0x61, 0x74, 0x61, 0xc4, 1, 7]

/-- Formats with the encoding of one payload. -/
private def oneBatch : CommandFormats where
  toMsgpack := .compact
  peers := .table []
  addNode := .table []
  removeNode := .table []
  transfer := .table []
  addJobs := ⟨fun payload => if payload = batchPayload then .ok batchBytes else .error "not in the table",
    fun raw => if raw = batchBytes then .ok ⟨"t", [⟨"a", "t", [7], false, 0⟩]⟩ else .error "not in the table"⟩
  done := .table []
  drop := .table []

private theorem oneBatch_lawful : oneBatch.Lawful where
  toLawful := Msgpack.compact_lawful
  plain raw payload decoded := by
    simp only [oneBatch] at decoded
    split at decoded
    · cases decoded
      simp [Job.onWire]
    · cases decoded

/-- The time at which a job was added is not encoded. -/
theorem batch_codec_round_trips :
    ∃ data wire, ({ type := .addJobs, proposeID := 3, addJobs := some batchPayload } : Command).marshalMsgpack oneBatch =
      .ok data ∧ Command.zero.unmarshalMsgpack oneBatch data = .ok wire ∧
        wire = { type := .addJobs, proposeID := 3, addJobs := some ⟨"t", [⟨"a", "t", [7], false, 0⟩]⟩ } := by
  have carries : oneBatch.Carries { type := .addJobs, proposeID := 3, addJobs := some batchPayload } := by
    rintro payload given
    cases given
    have written : oneBatch.addJobs.marshal batchPayload = .ok batchBytes := by simp [oneBatch]
    exact ⟨batchBytes, written, rfl, by simp [oneBatch, Job.onWire, batchPayload]⟩
  obtain ⟨data, wire, written, read, onWire⟩ := (command_codec_round_trips oneBatch_lawful).1 _ carries rfl
  cases onWire
  exact ⟨data, _, written, read, rfl⟩

end CommandFormats
end Cue.Model
