import Cue.Lib.Msgpack
import Cue.Model.Command

/-! `internal/model/command.go`: how commands are encoded. A command is an array
of its type, its proposal ID and the payload that its type selects. -/
namespace Cue.Model
open Cue.Lib

/-- `CommandType(value)`. -/
def CommandType.ofNumber (value : UInt8) : CommandType :=
  match value.toNat with
  | 0 => .updatePeersList
  | 1 => .addNode
  | 2 => .removeNode
  | 3 => .transferLeader
  | 4 => .addJobs
  | 5 => .done
  | 6 => .drop
  | _ => .unknown value

/-- `msgpack` with the encodings of the payloads. -/
structure CommandFormats extends Msgpack where
  peers : Format PeersListPayload
  addNode : Format AddNodePayload
  removeNode : Format RemoveNodePayload
  transfer : Format TransferLeaderPayload
  addJobs : Format AddJobsPayload
  done : Format DonePayload
  drop : Format DropPayload

namespace Command

/-- `Command{}` -/
def zero : Command := { type := .updatePeersList }

/-- The switch of `MarshalMsgpack`. -/
def marshalPayload (mp : CommandFormats) (c : Command) : Except String Bytes :=
  match c.type with
  | .updatePeersList => mp.peers.present "peers payload missing" c.peers
  | .addNode => mp.addNode.present "add_node payload missing" c.addNode
  | .removeNode => mp.removeNode.present "remove_node payload missing" c.removeNode
  | .transferLeader => mp.transfer.present "transfer_leader payload missing" c.transfer
  | .addJobs => mp.addJobs.present "add_job payload missing" c.addJobs
  | .done => mp.done.present "done payload missing" c.done
  | .drop => mp.drop.present "drop payload missing" c.drop
  | .unknown value => .error ("unknown command type: " ++ toString value)

def marshalMsgpack (mp : CommandFormats) (c : Command) : Except String Bytes :=
  match c.marshalPayload mp with
  | .error err => .error err
  | .ok payload => mp.marshalArray [mp.uint8.marshal c.type.number, mp.uint64.marshal c.proposeID, .ok payload]

/-- The switch of `UnmarshalMsgpack`. -/
def unmarshalPayload (mp : CommandFormats) (c : Command) (raw : Bytes) : Except String Command :=
  match c.type with
  | .updatePeersList => (mp.peers.read "unmarshal peers" raw).map fun payload => { c with peers := some payload }
  | .addNode => (mp.addNode.read "unmarshal add_node" raw).map fun payload => { c with addNode := some payload }
  | .removeNode =>
    (mp.removeNode.read "unmarshal remove_node" raw).map fun payload => { c with removeNode := some payload }
  | .transferLeader =>
    (mp.transfer.read "unmarshal transfer_leader" raw).map fun payload => { c with transfer := some payload }
  | .addJobs => (mp.addJobs.read "unmarshal add_job" raw).map fun payload => { c with addJobs := some payload }
  | .done => (mp.done.read "unmarshal done" raw).map fun payload => { c with done := some payload }
  | .drop => (mp.drop.read "unmarshal drop" raw).map fun payload => { c with drop := some payload }
  | .unknown value => .error ("unknown command type: " ++ toString value)

/-- `UnmarshalMsgpack` into `c`. An element that the array does not have is empty. -/
def unmarshalMsgpack (mp : CommandFormats) (c : Command) (data : Bytes) : Except String Command :=
  match mp.unmarshalArray 3 data with
  | .error err => .error ("unmarshal array: " ++ err)
  | .ok arr =>
    match mp.uint8.read "unmarshal type" (arr.getD 0 []) with
    | .error err => .error err
    | .ok typeVal =>
      match mp.uint64.read "unmarshal propose_id" (arr.getD 1 []) with
      | .error err => .error err
      | .ok proposeID =>
        { c with type := .ofNumber typeVal, proposeID := proposeID }.unmarshalPayload mp (arr.getD 2 [])

end Command
end Cue.Model
