import Cue.Proxy.Gateway

/-! `internal/proxy/gateway.go`: the outbound side of a connection pair. The
handlers of all connections a proxy has had share the pair's two channels: a
handler that was cancelled goes on until it sees it. A step is what one goroutine
does up to its next wait: the choice of `select` with what follows it, the write
of one message, the section under `statusMu`.

Of a stream it is kept whether all of the message was written. The channels are
never closed and no other type of message is put on `pushCh`, so these branches
are left out, and so are metrics and log lines. -/
namespace Cue.Proxy
open Cue.Lib Cue.Model

/-- `ToGatewayMessage`, with the field that its type selects. -/
inductive ToGatewayMessage where
  | consumer (data : Bytes)
  | heartbeat (hb : PartitionHeartbeat)
  | loopback (res : ToProducerResponse)
  deriving DecidableEq, Repr

structure ToProxyHeartbeat where
  nodeStatus : String
  voters : List String
  learners : List String
  leader : String
  term : UInt64
  deriving DecidableEq, Repr

/-- `ToProxyMessage`, as far as a handler makes one; a batch of jobs comes encoded. -/
inductive ToProxyMessage where
  | response (res : ToProducerResponse)
  | heartbeat (info : ToProxyHeartbeat)
  deriving DecidableEq, Repr

/-- What a handler gets in hand: what it takes from one of the channels, or the
heartbeat it sends itself. -/
inductive Parcel where
  | response (res : ToProducerResponse)
  | push (msg : ToGatewayMessage)
  | tick (info : ToProxyHeartbeat)
  deriving DecidableEq, Repr

/-- What became of a parcel. -/
inductive Fate where
  | sent
  | writeFailed
  | marshalFailed
  | applied
  deriving DecidableEq, Repr

inductive OutboundPlace where
  | selecting
  | writing (parcel : Parcel) (data : Bytes)
  | applying (hb : PartitionHeartbeat)
  | returned
  deriving DecidableEq, Repr

/-- One run of `runOutboundHandler`: where it stands, whether its context has
ended, and what it is done with, in order. -/
structure OutboundHandler where
  place : OutboundPlace := .selecting
  cancelled : Bool := false
  log : List (Parcel × Fate) := []
  deriving DecidableEq, Repr

/-- What a handler does up to its next wait, and what it meets. -/
inductive OutboundAct where
  | done
  | response
  | push
  | tick (info : ToProxyHeartbeat)
  | write (written : Bool)
  | apply
  deriving DecidableEq, Repr

structure Outbound where
  responseCh : List ToProducerResponse
  pushCh : List ToGatewayMessage
  topicStatus : FinMap String PartitionHeartbeat
  /-- one for every connection so far, the current one last -/
  handlers : List OutboundHandler

section Handler

variable (encode : ToProxyMessage → Option Bytes)

/-- The bytes that `writeMessage` is called with, if they can be made. -/
def Parcel.data : Parcel → Option Bytes
  | .response res => encode (.response res)
  | .push (.consumer data) => some data
  | .push (.heartbeat _) => none
  | .push (.loopback res) => encode (.response res)
  | .tick info => encode (.heartbeat info)

/-- What follows a choice of `select`, up to the write or the lock. -/
def OutboundHandler.take (h : OutboundHandler) (parcel : Parcel) : OutboundHandler :=
  match parcel with
  | .push (.heartbeat hb) => { h with place := .applying hb }
  | parcel =>
    match parcel.data encode with
    | none => { h with log := h.log ++ [(parcel, .marshalFailed)] }
    | some data => { h with place := .writing parcel data }

/-- Of several cases that are ready, `select` takes any. -/
def OutboundHandler.act (h : OutboundHandler) (s : Outbound) : OutboundAct → Option (Outbound × OutboundHandler)
  | .done => if h.place = .selecting ∧ h.cancelled then some (s, { h with place := .returned }) else none
  | .response =>
    match h.place, s.responseCh with
    | .selecting, res :: rest => some ({ s with responseCh := rest }, h.take encode (.response res))
    | _, _ => none
  | .push =>
    match h.place, s.pushCh with
    | .selecting, msg :: rest => some ({ s with pushCh := rest }, h.take encode (.push msg))
    | _, _ => none
  | .tick info => if h.place = .selecting then some (s, h.take encode (.tick info)) else none
  | .write written =>
    match h.place with
    | .writing parcel _ =>
      if written then some (s, { h with place := .selecting, log := h.log ++ [(parcel, .sent)] })
      else some (s, { h with place := .returned, log := h.log ++ [(parcel, .writeFailed)] })
    | _ => none
  | .apply =>
    match h.place with
    | .applying hb => some ({ s with topicStatus := s.topicStatus.set hb.topic hb },
      { h with place := .selecting, log := h.log ++ [(.push (.heartbeat hb), .applied)] })
    | _ => none

end Handler

namespace Outbound

def channelCap : Nat := 10240

def new : Outbound := ⟨[], [], .empty, []⟩

/-- A non-blocking send on `pushCh`, as partitions and `sendBackErrorResponse` do it. -/
def offerPush (s : Outbound) (msg : ToGatewayMessage) : Outbound :=
  if s.pushCh.length < channelCap then { s with pushCh := s.pushCh ++ [msg] } else s

/-- A send on `responseCh` that goes through, a send on `pushCh` that goes
through, `SetOutbound`, the end of a handler's context, a step of a handler. -/
inductive Op where
  | respond (res : ToProducerResponse)
  | push (msg : ToGatewayMessage)
  | setOutbound
  | cancel (handler : Nat)
  | handler (handler : Nat) (act : OutboundAct)
  deriving DecidableEq, Repr

def cancelHandler (s : Outbound) (handler : Nat) : Outbound :=
  { s with handlers := s.handlers.modify handler fun h => { h with cancelled := true } }

def step (encode : ToProxyMessage → Option Bytes) (s : Outbound) : Op → Option Outbound
  | .respond res =>
    if s.responseCh.length < channelCap then some { s with responseCh := s.responseCh ++ [res] } else none
  | .push msg => if s.pushCh.length < channelCap then some (s.offerPush msg) else none
  | .setOutbound =>
    let s := s.cancelHandler (s.handlers.length - 1)
    some { s with handlers := s.handlers ++ [{}] }
  | .cancel handler => some (s.cancelHandler handler)
  | .handler handler act =>
    match s.handlers[handler]? with
    | none => none
    | some h =>
      match h.act encode s act with
      | none => none
      | some (s', h') => some { s' with handlers := s'.handlers.set handler h' }

end Outbound
end Cue.Proxy
