import Cue.Lib.Dealing
import Cue.Lib.Rows
import Cue.Lib.Run
import Cue.Proxy.Outbound

/-! What reaches a proxy of the messages that are put on its channels, however
often it reconnects: every message is taken by one handler at most, in the order
of its channel, and a connection loses at most the one it was writing. -/
namespace Cue.Proxy
open Cue.Lib Cue.Model

inductive Channel where
  | response
  | push
  deriving DecidableEq, Repr

/-- The channel a parcel is taken from. -/
def Parcel.channel : Parcel → Option Channel
  | .response _ => some .response
  | .push _ => some .push
  | .tick _ => none

def OutboundPlace.inHand : OutboundPlace → Option Parcel
  | .selecting | .returned => none
  | .writing parcel _ => some parcel
  | .applying hb => some (.push (.heartbeat hb))

variable {encode : ToProxyMessage → Option Bytes}

namespace Outbound

variable {s s' : Outbound}

def waiting (s : Outbound) : Channel → List Parcel
  | .response => s.responseCh.map .response
  | .push => s.pushCh.map .push

@[simp]
theorem waiting_handlers (s : Outbound) (handlers : List OutboundHandler) (channel : Channel) :
    { s with handlers := handlers }.waiting channel = s.waiting channel := by
  cases channel <;> rfl

@[simp]
theorem waiting_cancelHandler (s : Outbound) (handler : Nat) (channel : Channel) :
    (s.cancelHandler handler).waiting channel = s.waiting channel :=
  waiting_handlers s _ channel

theorem cancelHandler_map {A : Type} (f : OutboundHandler → A)
    (same : ∀ h : OutboundHandler, f { h with cancelled := true } = f h) (s : Outbound) (handler : Nat) :
    (s.cancelHandler handler).handlers.map f = s.handlers.map f :=
  map_modify_same same _ _

/-- Where a parcel comes from: the head of a channel, or the handler itself. -/
inductive Gives (s : Outbound) : Parcel → Outbound → Prop where
  | response {res rest} :
      s.responseCh = res :: rest → Gives s (.response res) { s with responseCh := rest }
  | push {msg rest} :
      s.pushCh = msg :: rest → Gives s (.push msg) { s with pushCh := rest }
  | tick (info : ToProxyHeartbeat) : Gives s (.tick info) s

theorem Gives.handlers {parcel : Parcel} (gives : s.Gives parcel s') : s'.handlers = s.handlers := by
  cases gives <;> rfl

theorem Gives.waiting {parcel : Parcel} (gives : s.Gives parcel s') (channel : Channel) :
    s.waiting channel = (if parcel.channel = some channel then [parcel] else []) ++ s'.waiting channel := by
  cases gives with
  | response full | push full => cases channel <;> simp [Outbound.waiting, Parcel.channel, full]
  | tick info => simp [Parcel.channel]

end Outbound

namespace OutboundHandler

variable {h h' : OutboundHandler} {s s' : Outbound}

/-- Everything a step of a handler can do. -/
inductive Acts (encode : ToProxyMessage → Option Bytes) (h : OutboundHandler) (s : Outbound) :
    Outbound → OutboundHandler → Prop where
  | done : h.place = .selecting → h.Acts encode s s { h with place := .returned }
  | take {parcel s'} : h.place = .selecting → s.Gives parcel s' →
      h.Acts encode s s' (h.take encode parcel)
  | sent {parcel data} : h.place = .writing parcel data →
      h.Acts encode s s { h with place := .selecting, log := h.log ++ [(parcel, .sent)] }
  | failed {parcel data} : h.place = .writing parcel data →
      h.Acts encode s s { h with place := .returned, log := h.log ++ [(parcel, .writeFailed)] }
  | apply {hb} : h.place = .applying hb →
      h.Acts encode s { s with topicStatus := s.topicStatus.set hb.topic hb }
        { h with place := .selecting, log := h.log ++ [(.push (.heartbeat hb), .applied)] }

theorem act_acts {act : OutboundAct} (acted : h.act encode s act = some (s', h')) : h.Acts encode s s' h' := by
  unfold OutboundHandler.act at acted
  split at acted
  · obtain ⟨⟨selecting, -⟩, acted⟩ := Option.ite_none_right_eq_some.mp acted
    cases acted
    exact .done selecting
  · split at acted
    · cases acted
      exact .take ‹_› (.response ‹_›)
    · cases acted
  · split at acted
    · cases acted
      exact .take ‹_› (.push ‹_›)
    · cases acted
  · obtain ⟨selecting, acted⟩ := Option.ite_none_right_eq_some.mp acted
    cases acted
    exact .take selecting (.tick _)
  · split at acted
    · split at acted
      · cases acted
        exact .sent ‹_›
      · cases acted
        exact .failed ‹_›
    · cases acted
  · split at acted
    · cases acted
      exact .apply ‹_›
    · cases acted

theorem Acts.handlers (acts : h.Acts encode s s' h') : s'.handlers = s.handlers := by
  cases acts with
  | take _ gives => exact gives.handlers
  | _ => rfl

/-! ### What a handler has taken -/

/-- Everything the handler has got in hand so far. -/
def handled (h : OutboundHandler) : List Parcel := h.log.map Prod.fst ++ h.place.inHand.toList

def taken (h : OutboundHandler) (channel : Channel) : List Parcel :=
  h.handled.filter (·.channel = some channel)

theorem take_taken (selecting : h.place = .selecting) (parcel : Parcel) (channel : Channel) :
    (h.take encode parcel).taken channel =
      h.taken channel ++ if parcel.channel = some channel then [parcel] else [] := by
  have more : (h.take encode parcel).handled = h.handled ++ [parcel] := by
    unfold take
    split
    · simp [handled, selecting, OutboundPlace.inHand]
    · split <;> simp [handled, selecting, OutboundPlace.inHand]
  simp only [taken, more, List.filter_append, List.filter_cons, List.filter_nil, decide_eq_true_eq]

/-- A step takes the head of the channel or leaves the channel alone. -/
theorem Acts.taken (acts : h.Acts encode s s' h') (channel : Channel) :
    ∃ part : List Parcel, part.length ≤ 1 ∧ s.waiting channel = part ++ s'.waiting channel ∧
      h'.taken channel = h.taken channel ++ part := by
  cases acts with
  | done selecting =>
    exact ⟨[], by simp, rfl, by simp [OutboundHandler.taken, handled, selecting, OutboundPlace.inHand]⟩
  | @take parcel s' selecting gives =>
    refine ⟨_, ?_, gives.waiting channel, take_taken selecting parcel channel⟩
    split <;> simp
  | sent writing | failed writing =>
    exact ⟨[], by simp, rfl, by simp [OutboundHandler.taken, handled, writing, OutboundPlace.inHand]⟩
  | apply applying =>
    exact ⟨[], by simp, by cases channel <;> rfl,
      by simp [OutboundHandler.taken, handled, applying, OutboundPlace.inHand]⟩

/-! ### What a handler loses -/

/-- A message whose write failed is the last one of the handler, and the only such one. -/
def FailsLast (h : OutboundHandler) : Prop :=
  ∀ parcel, (parcel, .writeFailed) ∈ h.log → h.place = .returned ∧
    ∃ before, h.log = before ++ [(parcel, .writeFailed)] ∧ ∀ entry ∈ before, entry.2 ≠ .writeFailed

/-- No write has failed so far. -/
def Spared (h : OutboundHandler) : Prop := ∀ entry ∈ h.log, entry.2 ≠ .writeFailed

theorem Spared.failsLast (spared : h.Spared) : h.FailsLast := fun _ member => absurd rfl (spared _ member)

theorem FailsLast.spared {place : OutboundPlace} (last : h.FailsLast) (there : h.place = place)
    (running : place ≠ .returned) : h.Spared := by
  rintro ⟨parcel, fate⟩ member rfl
  exact running (there.symm.trans (last parcel member).1)

theorem Spared.log (spared : h.Spared) {place : OutboundPlace} {parcel : Parcel} {fate : Fate}
    (fine : fate ≠ .writeFailed) : { h with place := place, log := h.log ++ [(parcel, fate)] }.Spared := by
  intro entry member
  rcases List.mem_append.mp member with old | new
  · exact spared entry old
  · rwa [List.mem_singleton.mp new]

theorem Spared.take (spared : h.Spared) (parcel : Parcel) : (h.take encode parcel).Spared := by
  unfold OutboundHandler.take
  split
  · exact spared
  · split
    · exact spared.log (by simp)
    · exact spared

theorem Acts.failsLast (acts : h.Acts encode s s' h') (last : h.FailsLast) : h'.FailsLast := by
  cases acts with
  | done selecting => exact Spared.failsLast (last.spared selecting (by simp))
  | take selecting gives => exact ((last.spared selecting (by simp)).take _).failsLast
  | sent place | apply place => exact ((last.spared place (by simp)).log (by simp)).failsLast
  | @failed parcel data writing =>
    have spared := last.spared writing (by simp)
    intro other member
    rcases List.mem_append.mp member with old | new
    · exact absurd rfl (spared _ old)
    · cases List.mem_singleton.mp new
      exact ⟨rfl, h.log, rfl, spared⟩

end OutboundHandler

namespace Outbound

variable {s s' : Outbound} {op : Op} {ops : List Op}

/-- The runs of a pair from its creation on. -/
def Runs (encode : ToProxyMessage → Option Bytes) : List Op → Outbound → Prop :=
  Run (fun s op s' => s.step encode op = some s') (fun _ _ _ => True) Outbound.new

/-- Everything a step of a pair can do. -/
inductive Steps (encode : ToProxyMessage → Option Bytes) (s : Outbound) : Op → Outbound → Prop where
  | respond (res : ToProducerResponse) :
      s.Steps encode (.respond res) { s with responseCh := s.responseCh ++ [res] }
  | push (msg : ToGatewayMessage) : s.Steps encode (.push msg) { s with pushCh := s.pushCh ++ [msg] }
  | setOutbound : s.Steps encode .setOutbound
      { s.cancelHandler (s.handlers.length - 1) with
        handlers := (s.cancelHandler (s.handlers.length - 1)).handlers ++ [{}] }
  | cancel (handler : Nat) : s.Steps encode (.cancel handler) (s.cancelHandler handler)
  | handler {handler act h h' s'} :
      s.handlers[handler]? = some h → h.Acts encode s s' h' →
      s.Steps encode (.handler handler act) { s' with handlers := s.handlers.set handler h' }

theorem step_steps (stepped : s.step encode op = some s') : s.Steps encode op s' := by
  unfold step at stepped
  split at stepped
  · obtain ⟨-, stepped⟩ := Option.ite_none_right_eq_some.mp stepped
    cases stepped
    exact .respond _
  · obtain ⟨room, stepped⟩ := Option.ite_none_right_eq_some.mp stepped
    rw [offerPush, if_pos room] at stepped
    cases stepped
    exact .push _
  · cases stepped
    exact .setOutbound
  · cases stepped
    exact .cancel _
  · split at stepped
    · cases stepped
    · rename_i h here
      split at stepped
      · cases stepped
      · rename_i s₁ h₁ acted
        cases stepped
        have acts := OutboundHandler.act_acts acted
        rw [acts.handlers]
        exact .handler here acts

def Op.parcel? : Op → Option Parcel
  | .respond res => some (.response res)
  | .push msg => some (.push msg)
  | _ => none

/-- What was put on a channel, in order. -/
def offered (ops : List Op) (channel : Channel) : List Parcel :=
  (ops.filterMap Op.parcel?).filter (·.channel = some channel)

theorem offered_append (ops : List Op) (op : Op) (channel : Channel) :
    offered (ops ++ [op]) channel =
      offered ops channel ++ op.parcel?.toList.filter (·.channel = some channel) := by
  cases parcel : op.parcel? <;> simp [offered, List.filterMap_append, parcel]

/-- What has happened on a channel, seen as takers of a queue. -/
def Deals (channel : Channel) (ops : List Op) (s : Outbound) : Prop :=
  Dealing (offered ops channel) (s.waiting channel) (s.handlers.map (·.taken channel))

theorem Steps.deals {channel : Channel} (steps : s.Steps encode op s') (deals : Deals channel ops s) :
    Deals channel (ops ++ [op]) s' := by
  unfold Deals at deals ⊢
  rw [offered_append]
  cases steps with
  | respond res =>
    cases channel with
    | response => simpa [Op.parcel?, waiting, Parcel.channel] using deals.offer (.response res)
    | push => simpa [Op.parcel?, waiting, Parcel.channel] using deals
  | push msg =>
    cases channel with
    | response => simpa [Op.parcel?, waiting, Parcel.channel] using deals
    | push => simpa [Op.parcel?, waiting, Parcel.channel] using deals.offer (.push msg)
  | setOutbound =>
    have joined := deals.join
    rw [← cancelHandler_map (·.taken channel) (fun _ => rfl) s (s.handlers.length - 1)] at joined
    have fresh : ({} : OutboundHandler).taken channel = [] := rfl
    simpa [Op.parcel?, fresh] using joined
  | cancel handler =>
    rw [cancelHandler_map (·.taken channel) (fun _ => rfl)]
    simpa [Op.parcel?] using deals
  | @handler handler _ h h' s' here acts =>
    obtain ⟨part, short, head, more⟩ := acts.taken channel
    have position : (s.handlers.map (·.taken channel))[handler]? = some (h.taken channel) := by simp [here]
    rw [head] at deals
    match part, short with
    | [], _ =>
      have unchanged : (s.handlers.map (·.taken channel)).set handler (h'.taken channel) =
          s.handlers.map (·.taken channel) := by
        obtain ⟨inside, value⟩ := List.getElem?_eq_some_iff.mp position
        rw [more, List.append_nil, ← value, List.set_getElem_self]
      simpa [Op.parcel?, List.map_set, unchanged] using deals
    | [parcel], _ => simpa [Op.parcel?, List.map_set, more] using deals.take position

theorem Steps.failsLast (steps : s.Steps encode op s') (last : ∀ h ∈ s.handlers, h.FailsLast) :
    ∀ h ∈ s'.handlers, h.FailsLast := by
  have cancelling (handler : Nat) : ∀ h ∈ (s.cancelHandler handler).handlers, h.FailsLast := by
    intro h member
    have kept := cancelHandler_map (fun h => (h.place, h.log)) (fun _ => rfl) s handler
    obtain ⟨old, there, same⟩ := List.mem_map.mp (kept ▸ List.mem_map_of_mem member)
    obtain ⟨place, log⟩ := Prod.mk.inj same
    simpa only [OutboundHandler.FailsLast, place, log] using last old there
  cases steps with
  | respond | push => exact last
  | setOutbound =>
    intro h member
    rcases List.mem_append.mp member with old | new
    · exact cancelling _ h old
    · rw [List.mem_singleton.mp new]
      exact fun _ member => absurd member List.not_mem_nil
  | cancel handler => exact cancelling handler
  | handler here acts =>
    intro other member
    rcases List.mem_or_eq_of_mem_set member with old | rfl
    · exact last other old
    · exact acts.failsLast (last _ (List.mem_of_getElem? here))

/-- Whatever is put on a channel of a pair waits there or was taken by one handler,
once; a handler takes in the order of the channel, and it loses only the last
message it took, and only by a write that failed. -/
theorem messages_accounted (run : Runs encode ops s) (channel : Channel) :
    (s.handlers.flatMap (·.taken channel) ++ s.waiting channel).Perm (offered ops channel) ∧
      ∀ h ∈ s.handlers, (h.taken channel).Sublist (offered ops channel) ∧ h.FailsLast := by
  have deals : Deals channel ops s :=
    run.invariant (Deals channel) (by cases channel <;> exact .start)
      fun _ _ _ _ deals _ stepped => (step_steps stepped).deals deals
  have last : ∀ h ∈ s.handlers, h.FailsLast :=
    run.invariant (fun _ s => ∀ h ∈ s.handlers, h.FailsLast) (fun _ member => absurd member List.not_mem_nil)
      fun _ _ _ _ last _ stepped => (step_steps stepped).failsLast last
  refine ⟨?_, fun h member => ⟨deals.in_order (List.mem_map_of_mem member), last h member⟩⟩
  rw [List.flatMap_def]
  exact deals.perm

/-! The first connection is replaced while its handler holds an answer; the answer is
lost, and the batch behind it goes out on the second one. -/

private def reconnectOps : List Op :=
  [.setOutbound, .respond ⟨7, .success, "", []⟩, .respond ⟨8, .success, "", []⟩, .push (.consumer [1]),
    .handler 0 .response, .setOutbound, .handler 1 .push, .handler 0 (.write false), .handler 1 (.write true),
    .handler 1 .response]

theorem answer_lost_at_reconnect : ∃ s, Runs (fun _ => some [0]) reconnectOps s ∧
    s.handlers.map (·.log) =
      [[(.response ⟨7, .success, "", []⟩, .writeFailed)], [(.push (.consumer [1]), .sent)]] ∧
    (s.handlers.flatMap (·.taken .response) ++ s.waiting .response).Perm (offered reconnectOps .response) := by
  obtain ⟨s, executed, logs⟩ : ∃ s, reconnectOps.foldlM (step fun _ => some [0]) Outbound.new = some s ∧
      s.handlers.map (·.log) =
        [[(.response ⟨7, .success, "", []⟩, .writeFailed)], [(.push (.consumer [1]), .sent)]] := ⟨_, rfl, rfl⟩
  have run : Runs (fun _ => some [0]) reconnectOps s :=
    Run.of_execute (fun _ _ _ _ stepped => ⟨trivial, stepped⟩) executed
  exact ⟨s, run, logs, (messages_accounted run .response).1⟩

end Outbound
end Cue.Proxy
