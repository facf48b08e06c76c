import Cue.State.JobStore

/-! `internal/proxy/gateway.go`: what the handler of a proxy's inbound
connection does with a request. The channels are what is put on them, in order;
what a non-blocking send finds and the clock are arguments. A stream that cannot
be read or decoded is closed and nothing else happens, so it is left out, and so
are the end of the context, metrics and log lines. -/
namespace Cue.Proxy
open Cue.Lib Cue.Model

inductive TopicCommandType where
  | spawn
  | kill
  | proxyTopology
  deriving DecidableEq, Repr

/-- `state.TopicCommand`, without the topology, which a request does not set. -/
structure TopicCommand where
  type : TopicCommandType
  topic : String
  requestID : UInt32
  respCh : Option Nat
  deriving DecidableEq, Repr

/-- The part of `ConnectionPair` that the handler reads. -/
structure ConnectionPair where
  responseCh : Option Nat
  status : UInt32
  /-- the heartbeat channels by topic -/
  heartbeatRouter : FinMap String Nat
  topicStatus : FinMap String PartitionHeartbeat
  deriving DecidableEq

/-- What an iteration meets outside: the clock and the room on the heartbeat
channel at each entry of a report, and the room on `pushCh`. -/
structure InboundEnv where
  nowMilli : Nat → Int
  heartbeatRoom : Nat → Bool
  pushRoom : Bool

inductive InboundEffect where
  | heartbeat (channel : Nat) (hb : ProxyHeartbeat)
  | loopback (res : ToProducerResponse)
  | topicCommand (cmd : TopicCommand)
  | toCluster (cmd : Command)
  | cancelRead
  | closeStream
  deriving DecidableEq, Repr

namespace ConnectionPair

def leaderActive : UInt32 := 73

/-- Without a status yet the answer is yes. -/
def canAcceptJob (pair : ConnectionPair) (topic : String) : Bool :=
  match pair.topicStatus.get topic with
  | none => true
  | some status => status.canAccept

def sendBackErrorResponse (env : InboundEnv) (requestID : UInt32) (error : String) : List InboundEffect :=
  if env.pushRoom then [.loopback ⟨requestID, .error, error, []⟩] else []

/-- The loop over the entries of a report, from the entry at `position` on. -/
def routeHeartbeats (pair : ConnectionPair) (env : InboundEnv) (proxyID : String) (position : Nat) :
    List TopicCapacity → List InboundEffect
  | [] => []
  | entry :: entries =>
    let sent := match pair.heartbeatRouter.get entry.topic with
      | none => []
      | some channel =>
        if env.heartbeatRoom position then
          [.heartbeat channel ⟨proxyID, entry.topic, entry.consumptionScore, env.nowMilli position⟩]
        else []
    sent ++ pair.routeHeartbeats env proxyID (position + 1) entries

/-- A report only leads to heartbeats. -/
theorem mem_routeHeartbeats {pair : ConnectionPair} {env : InboundEnv} {proxyID : String} {position : Nat}
    {entries : List TopicCapacity} {effect : InboundEffect}
    (member : effect ∈ pair.routeHeartbeats env proxyID position entries) :
    ∃ channel hb, effect = .heartbeat channel hb := by
  induction entries generalizing position with
  | nil => cases member
  | cons entry entries ih =>
    rcases List.mem_append.mp member with sent | later
    · split at sent
      · cases sent
      · split at sent
        · exact ⟨_, _, List.mem_singleton.mp sent⟩
        · cases sent
    · exact ih later

/-- One iteration of `runInboundHandler`, for a request that decodes. A payload
that the type selects is read without a check, except that of `ReqDone`, which
is only handed on. -/
def runInboundHandler (pair : ConnectionPair) (env : InboundEnv) (req : ProxyRequest) :
    Except State.Panic (List InboundEffect) :=
  if req.type = .heartbeatReport then
    match req.heartbeatReport with
    | none => .error .nilDereference
    | some batch => .ok (pair.routeHeartbeats env batch.proxyID 0 batch.capacities ++ [.closeStream])
  else if pair.status ≠ leaderActive then
    .ok (sendBackErrorResponse env req.requestID "node is not active leader")
  else
    match req.type with
    | .addTopic =>
      match req.addTopic with
      | none => .error .nilDereference
      | some payload =>
        .ok [.topicCommand ⟨.spawn, payload.topic, req.requestID, pair.responseCh⟩, .closeStream]
    | .addJobs =>
      match req.addJobs with
      | none => .error .nilDereference
      | some payload =>
        if pair.canAcceptJob payload.topic = false then .ok (sendBackErrorResponse env req.requestID "queue_full")
        else .ok [.toCluster {
          type := .addJobs, addJobs := some payload, respInfo := some ⟨req.requestID, pair.responseCh⟩ }]
    | .done => .ok [.toCluster { type := .done, done := req.done, respInfo := some ⟨req.requestID, none⟩ }]
    | _ => .ok [.cancelRead, .closeStream]

end ConnectionPair
end Cue.Proxy
