import Cue.Cluster.Agent
import Cue.Cluster.EntryCodec
import Cue.JobAccounting
import Cue.Proxy.Gateway

/-! Which requests and which drops an active leader survives. A request passes
the gateway's handler, and the command it becomes passes `processCommand`; a
drop goes from a partition's flush to `processCommand` directly.

- `Carries` is what a request must bring along.
- `leader_survives_iff` says that this, and a topic the leader does not know, is
  exactly when no pointer is dereferenced that is nil.
- `bare_request_crashes_leader` has a crash for every type of request, and one
  for the drop of an ordinary run. -/
namespace Cue.Proxy
open Cue.Lib Cue.Model Cue.Cluster Cue.State

/-- The command that an iteration puts on `toClusterCh`. -/
def InboundEffect.command? : InboundEffect → Option Command
  | .toCluster cmd => some cmd
  | _ => none

/-- A request taken through the handler, and its command through the agent. -/
def serve (codec : Codec) (pair : ConnectionPair) (env : InboundEnv) (agent : ClusterAgent) (req : ProxyRequest) :
    Except Panic (ClusterAgent × List Output) :=
  match pair.runInboundHandler env req with
  | .error panicked => .error panicked
  | .ok effects =>
    match effects.findSome? InboundEffect.command? with
    | none => .ok (agent, [])
    | some cmd => agent.processCommand codec cmd

/-- The payload that the type selects is there. All but heartbeats get that far
only when the gateway sees an active leader. -/
def ConnectionPair.Carries (pair : ConnectionPair) (req : ProxyRequest) : Prop :=
  match req.type with
  | .heartbeatReport => req.heartbeatReport.isSome
  | .addTopic => pair.status = leaderActive → req.addTopic.isSome
  | .addJobs => pair.status = leaderActive → req.addJobs.isSome
  | .done => pair.status = leaderActive → req.done.isSome
  | .unknown _ => True

section ActiveLeader

variable {codec : Codec} {agent : ClusterAgent} {cmd : Command}

private theorem propose_ok_iff : (∃ out, agent.propose codec cmd = .ok out) ↔ cmd.respInfo.isSome := by
  unfold ClusterAgent.propose
  cases cmd.respInfo with
  | none => simp
  | some respInfo =>
    dsimp only
    split <;> simp

/-- A job command survives if its payload is there and, for a topic that has a
channel, somebody to answer is named. -/
theorem processCommand_ok_iff (leads : agent.isLeader = true) (active : agent.isActive = true)
    (job : cmd.type = .addJobs ∨ cmd.type = .done ∨ cmd.type = .drop) :
    (∃ out, agent.processCommand codec cmd = .ok out) ↔
      ∃ topic, ClusterAgent.topicOf cmd = .ok topic ∧ (agent.topicExist topic = true → cmd.respInfo.isSome) := by
  have direct : agent.processCommand codec cmd = agent.processJobCommand codec cmd := by
    unfold ClusterAgent.processCommand
    rcases job with type | type | type <;> simp [leads, active, type]
  rw [direct, ClusterAgent.processJobCommand, if_neg (by simp [active]), if_pos leads]
  cases ClusterAgent.topicOf cmd with
  | error panicked => simp
  | ok topic =>
    cases known : agent.topicExist topic with
    | false => simp [known]
    | true => simpa [known] using propose_ok_iff

/-- A request of a type that leads to a command. -/
theorem serve_command {pair : ConnectionPair} {env : InboundEnv} {req : ProxyRequest}
    (handled : pair.runInboundHandler env req = .ok [.toCluster cmd]) :
    serve codec pair env agent req = agent.processCommand codec cmd := by
  simp [serve, handled, InboundEffect.command?]

theorem serve_quiet {pair : ConnectionPair} {env : InboundEnv} {req : ProxyRequest} {effects : List InboundEffect}
    (handled : pair.runInboundHandler env req = .ok effects)
    (quiet : ∀ effect ∈ effects, effect.command? = none) : serve codec pair env agent req = .ok (agent, []) := by
  simp [serve, handled, List.findSome?_eq_none_iff.mpr quiet]

theorem serve_crash {pair : ConnectionPair} {env : InboundEnv} {req : ProxyRequest} {panicked : Panic}
    (handled : pair.runInboundHandler env req = .error panicked) :
    serve codec pair env agent req = .error panicked := by
  simp [serve, handled]

end ActiveLeader

/-! ### Requests -/

namespace ConnectionPair

variable {codec : Codec} {pair : ConnectionPair} {env : InboundEnv} {agent : ClusterAgent} {req : ProxyRequest}

private theorem sendBack_quiet (requestID : UInt32) (error : String) :
    ∀ effect ∈ sendBackErrorResponse env requestID error, effect.command? = none := by
  unfold sendBackErrorResponse
  split <;> simp [InboundEffect.command?]

private theorem serve_heartbeat (type : req.type = .heartbeatReport) :
    (∃ out, serve codec pair env agent req = .ok out) ↔ req.heartbeatReport.isSome := by
  have handled := runInboundHandler.eq_1 pair env req
  rw [if_pos type] at handled
  cases carried : req.heartbeatReport with
  | none =>
    rw [carried] at handled
    simp [serve_crash handled]
  | some batch =>
    rw [carried] at handled
    refine iff_of_true ⟨_, serve_quiet handled ?_⟩ rfl
    intro effect member
    rcases List.mem_append.mp member with routed | closed
    · obtain ⟨channel, hb, rfl⟩ := mem_routeHeartbeats routed
      rfl
    · rw [List.mem_singleton.mp closed]
      rfl

/-- Whatever it carries, a request is turned away by a node that is not active as leader. -/
private theorem serve_inactive (other : req.type ≠ .heartbeatReport) (passive : pair.status ≠ leaderActive) :
    ∃ out, serve codec pair env agent req = .ok out := by
  have handled := runInboundHandler.eq_1 pair env req
  rw [if_neg other, if_pos passive] at handled
  exact ⟨_, serve_quiet handled (sendBack_quiet _ _)⟩

private theorem serve_addTopic (type : req.type = .addTopic) (leading : pair.status = leaderActive) :
    (∃ out, serve codec pair env agent req = .ok out) ↔ req.addTopic.isSome := by
  have handled := runInboundHandler.eq_1 pair env req
  simp only [type, leading, reduceCtorEq, if_false, ne_eq, not_true_eq_false] at handled
  cases carried : req.addTopic with
  | none =>
    rw [carried] at handled
    simp [serve_crash handled]
  | some payload =>
    rw [carried] at handled
    exact iff_of_true ⟨_, serve_quiet handled (by simp [InboundEffect.command?])⟩ rfl

private theorem serve_addJobs (leads : agent.isLeader = true) (active : agent.isActive = true)
    (type : req.type = .addJobs) (leading : pair.status = leaderActive) :
    (∃ out, serve codec pair env agent req = .ok out) ↔ req.addJobs.isSome := by
  have handled := runInboundHandler.eq_1 pair env req
  simp only [type, leading, reduceCtorEq, if_false, ne_eq, not_true_eq_false] at handled
  cases carried : req.addJobs with
  | none =>
    rw [carried] at handled
    simp [serve_crash handled]
  | some payload =>
    rw [carried] at handled
    dsimp only at handled
    split at handled
    · exact iff_of_true ⟨_, serve_quiet handled (sendBack_quiet _ _)⟩ rfl
    · rw [serve_command handled, processCommand_ok_iff leads active (Or.inl rfl)]
      simp [ClusterAgent.topicOf]

private theorem serve_done (leads : agent.isLeader = true) (active : agent.isActive = true)
    (type : req.type = .done) (leading : pair.status = leaderActive) :
    (∃ out, serve codec pair env agent req = .ok out) ↔ req.done.isSome := by
  have handled := runInboundHandler.eq_1 pair env req
  simp only [type, leading, reduceCtorEq, if_false, ne_eq, not_true_eq_false] at handled
  rw [serve_command handled, processCommand_ok_iff leads active (Or.inr (Or.inl rfl))]
  cases req.done <;> simp [ClusterAgent.topicOf]

private theorem serve_unknown {value : UInt8} (type : req.type = .unknown value) (leading : pair.status = leaderActive) :
    ∃ out, serve codec pair env agent req = .ok out := by
  have handled := runInboundHandler.eq_1 pair env req
  simp only [type, leading, reduceCtorEq, if_false, ne_eq, not_true_eq_false] at handled
  exact ⟨_, serve_quiet handled (by simp [InboundEffect.command?])⟩

theorem serve_ok_iff (leads : agent.isLeader = true) (active : agent.isActive = true) :
    (∃ out, serve codec pair env agent req = .ok out) ↔ pair.Carries req := by
  unfold Carries
  by_cases leading : pair.status = leaderActive
  · cases type : req.type with
    | heartbeatReport => exact serve_heartbeat type
    | addTopic => simpa [leading] using serve_addTopic type leading
    | addJobs => simpa [leading] using serve_addJobs leads active type leading
    | done => simpa [leading] using serve_done leads active type leading
    | unknown value => simpa using serve_unknown type leading
  · cases type : req.type with
    | heartbeatReport => exact serve_heartbeat type
    | addTopic | addJobs | done | unknown _ => simpa [leading] using serve_inactive (by simp [type]) leading

end ConnectionPair

/-! ### Drops -/

/-- A flushed drop names its topic and nobody to answer. -/
theorem flushDLQ_drop {p p' : Partition} {now : Int} {room : Bool} {cmd : Command}
    (flushed : p.flushDLQ now room = .ok (p', some cmd)) :
    ∃ jobIDs, cmd = { type := .drop, drop := some ⟨p.topic, jobIDs⟩ } := by
  obtain ⟨drops, _, _, _, _, _, sent⟩ := Partition.flushDLQ_ran flushed
  split at sent
  · cases sent
  · cases sent
    exact ⟨_, rfl⟩

/-- An active leader survives a request exactly when it carries what its type
needs, and a drop exactly when the topic has no channel. -/
theorem leader_survives_iff (codec : Codec) (agent : ClusterAgent) (leads : agent.isLeader = true)
    (active : agent.isActive = true) :
    (∀ pair env req, (∃ out, serve codec pair env agent req = .ok out) ↔ pair.Carries req) ∧
    (∀ (p p' : Partition) now room cmd, p.flushDLQ now room = .ok (p', some cmd) →
      ((∃ out, agent.processCommand codec cmd = .ok out) ↔ agent.topicExist p.topic = false)) := by
  refine ⟨fun pair env req => ConnectionPair.serve_ok_iff leads active, ?_⟩
  intro p p' now room cmd flushed
  obtain ⟨jobIDs, rfl⟩ := flushDLQ_drop flushed
  rw [processCommand_ok_iff leads active (Or.inr (Or.inr rfl))]
  simp [ClusterAgent.topicOf]

/-! A leader with the given topics, a proxy whose gateway knows that it leads,
and a partition with one exhausted job in its buffer. -/

private def leader (channels : FinMap String (List Command)) : ClusterAgent :=
  (ClusterAgent.new "n1" ⟨.empty, FinMap.empty.set 1 "n1"⟩ channels []).applyRoleChange 1 .leader 1

private def proxyPair : ConnectionPair := ⟨some 0, 73, FinMap.empty.set "orders" 0, .empty⟩

private def calm : InboundEnv := ⟨fun _ => 0, fun _ => true, true⟩

private theorem exhausted_reached :
    (((Partition.lossOps true).take 5).foldlM (fun (p : Partition) op => (p.step op).toOption.map Prod.fst)
      (Partition.new "orders" Partition.lossConfig 0)).isSome = true := rfl

private theorem exhausted_flushes :
    ((Option.get _ exhausted_reached).flushDLQ 11000 true).toOption.isSome = true := rfl

private def flushedDrop : Command := { type := .drop, drop := some ⟨"orders", ["a"]⟩ }

private theorem exhausted_flushed :
    ∃ p', (Option.get _ exhausted_reached).flushDLQ 11000 true = .ok (p', some flushedDrop) := by
  refine ⟨(Option.get _ exhausted_flushes).1, (ok_of_toOption exhausted_flushes).trans ?_⟩
  have named : (Option.get _ exhausted_flushes).2 = some flushedDrop := by decide
  rw [← named]

/-- A request with no payload crashes the leader whatever its type is, and so
does the drop that a partition of one of its topics flushes. -/
theorem bare_request_crashes_leader :
    (∀ type ∈ [ProxyRequestType.heartbeatReport, .addTopic, .addJobs, .done],
      serve (wireCodec []) proxyPair calm (leader (FinMap.empty.set "orders" [])) { requestID := 1, type := type } =
        .error .nilDereference) ∧
    ∃ (p p' : Partition) (cmd : Command), p.flushDLQ 11000 true = .ok (p', some cmd) ∧
      (leader (FinMap.empty.set "orders" [])).processCommand (wireCodec []) cmd = .error .nilDereference := by
  refine ⟨by decide, _, _, flushedDrop, exhausted_flushed.choose_spec, by decide⟩

/-- A `Done` with its payload, and the same drop on a leader without the topic. -/
theorem complete_request_survives :
    (∃ out, serve (wireCodec []) proxyPair calm (leader .empty)
      { requestID := 1, type := .done, done := some ⟨"orders", ["a"]⟩ } = .ok out) ∧
    ∃ out, (leader .empty).processCommand (wireCodec []) flushedDrop = .ok out := by
  obtain ⟨requests, drops⟩ := leader_survives_iff (wireCodec []) (leader .empty) rfl (by decide)
  obtain ⟨p', flushed⟩ := exhausted_flushed
  refine ⟨(requests _ _ _).mpr fun _ => rfl, (drops _ p' _ _ _ flushed).mpr ?_⟩
  decide

end Cue.Proxy
