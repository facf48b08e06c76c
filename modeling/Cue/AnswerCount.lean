import Cue.CommandRouting

/-! How many answers a client gets for a command. A command that is not proposed
is answered by `processCommand` or never; one that is proposed is answered by the
partition that takes it from the channel, after the entry was applied. -/
namespace Cue.Cluster
open Cue.Lib Cue.Model

/-! ### Answers -/

/-- The application of an entry: the agent at that time, how a spawn would end,
and the partitions with their clocks as they take what is put on their channels. -/
structure Application where
  agent : ClusterAgent
  index : UInt64
  term : UInt64
  spawn : Except String Unit
  partition : String → State.Partition
  clock : Nat → State.Clock

namespace Application

def applied (codec : Codec) (app : Application) (data : Bytes) : ClusterAgent :=
  (app.agent.handleNormalCommand codec ⟨some data, app.index, app.term, .normal, [], []⟩ app.spawn).1

/-- What came onto the channels, with the topics. -/
def delivered (codec : Codec) (app : Application) (data : Bytes) : List (String × Command) :=
  (app.applied codec data).channels.keys.flatMap fun topic =>
    (((app.applied codec data).queue topic).drop (app.agent.queue topic).length).map fun cmd => (topic, cmd)

/-- What the partitions answer to it; one that panics answers nothing. -/
def responses (codec : Codec) (app : Application) (data : Bytes) : List ToProducerResponse :=
  (app.delivered codec data).flatMap fun (topic, cmd) =>
    match (app.partition topic).handleCommand cmd app.clock with
    | .ok handled => handled.reply.toList
    | .error _ => []

end Application

/-- What an output of `processCommand` leads to. -/
def outputResponses (codec : Codec) (app : Application) : Output → List ToProducerResponse
  | .respond _ res => [res]
  | .propose data => app.responses codec data
  | .control _ | .updatePeers _ => []

/-- Everything that is sent as an answer when the agent gets the command, and
when the entry is applied if the command is proposed. -/
def responses (codec : Codec) (a : ClusterAgent) (cmd : Command) (app : Application) : List ToProducerResponse :=
  match a.processCommand codec cmd with
  | .error _ => []
  | .ok (_, outs) => outs.flatMap (outputResponses codec app)

/-- How many of them are for the request. -/
def answerCount (codec : Codec) (a : ClusterAgent) (cmd : Command) (app : Application) (requestID : UInt32) : Nat :=
  (responses codec a cmd app).countP fun res => res.requestID = requestID

/-! ### The partition -/

/-- The request that waits on a channel. -/
def waiting : Option RespInfo → Option UInt32
  | some ⟨requestID, some _⟩ => some requestID
  | _ => none

theorem answer_requestID (cmd : Command) (status : ToProducerRespStatus) (error : String) (failures : List JobFailure) :
    (State.Partition.answer cmd status error failures).map ToProducerResponse.requestID = waiting cmd.respInfo := by
  unfold State.Partition.answer waiting
  split <;> simp_all

/-- A partition that handles a command answers whoever waits for it, once. -/
theorem handleCommand_reply {p : State.Partition} {cmd : Command} {clock : Nat → State.Clock}
    {handled : State.Partition.Handled} (ok : p.handleCommand cmd clock = .ok handled) :
    handled.reply.map ToProducerResponse.requestID = waiting cmd.respInfo := by
  unfold State.Partition.handleCommand at ok
  split at ok
  · unfold State.Partition.handleAddJobs at ok
    repeat' split at ok
    all_goals cases ok
    · exact answer_requestID ..
    · dsimp only
      split <;> exact answer_requestID ..
  · unfold State.Partition.handleDone at ok
    repeat' split at ok
    all_goals cases ok
    all_goals exact answer_requestID ..
  · unfold State.Partition.handleDrop at ok
    repeat' split at ok
    all_goals cases ok
    all_goals exact answer_requestID ..
  · cases ok
    exact answer_requestID ..

/-! ### The entry -/

namespace Application

variable {codec : Codec} {app : Application} {data : Bytes} {wire cmd : Command} {topic : String} {requestID : UInt32}

/-- What came onto the channel of one topic. -/
theorem delivered_to (decoded : codec.command data = some wire) (topic : String) :
    ((app.applied codec data).queue topic).drop (app.agent.queue topic).length =
      if ClusterAgent.destination app.agent.deadJobs wire = some topic ∧ app.agent.reachable app.spawn topic = true then
        [ClusterAgent.handedOn app.agent.deadJobs (app.agent.attach wire)] else [] := by
  rw [applied, app.agent.queue_handleNormalCommand app.spawn topic rfl decoded, List.drop_left]

theorem delivered_reachable (decoded : codec.command data = some wire)
    (destined : ClusterAgent.destination app.agent.deadJobs wire = some topic)
    (reachable : app.agent.reachable app.spawn topic = true) :
    app.delivered codec data = [(topic, ClusterAgent.handedOn app.agent.deadJobs (app.agent.attach wire))] := by
  have channel : topic ∈ (app.applied codec data).channels.keys := by
    rw [FinMap.mem_keys, applied, app.agent.get_handleNormalCommand app.spawn topic rfl decoded,
      if_pos ⟨destined, reachable⟩]
    exact ⟨_, rfl⟩
  unfold delivered
  rw [FinMap.flatMap_keys_unique channel, delivered_to decoded, if_pos ⟨destined, reachable⟩]
  · rfl
  · intro other _ different
    rw [delivered_to decoded, if_neg, List.map_nil]
    rintro ⟨same, _⟩
    exact different (Option.some.inj (same.symm.trans destined))

theorem delivered_unreachable (decoded : codec.command data = some wire)
    (nowhere : ∀ topic, ClusterAgent.destination app.agent.deadJobs wire = some topic →
      app.agent.reachable app.spawn topic ≠ true) : app.delivered codec data = [] := by
  refine List.flatMap_eq_nil_iff.mpr fun topic _ => ?_
  rw [delivered_to decoded, if_neg, List.map_nil]
  rintro ⟨destined, reachable⟩
  exact nowhere topic destined reachable

/-- Whoever waits on this node for the command gets the answer of the partition
that the command goes to. -/
def Answers (app : Application) (cmd : Command) (requestID : UInt32) : Prop :=
  waiting (app.agent.pendingProposals.get cmd.proposeID) = some requestID ∧
    ∃ topic, ClusterAgent.destination app.agent.deadJobs cmd = some topic ∧
      app.agent.reachable app.spawn topic = true ∧
      ∃ wire handled, cmd.onWire = some wire ∧
        (app.partition topic).handleCommand (ClusterAgent.handedOn app.agent.deadJobs (app.agent.attach wire))
          app.clock = .ok handled

theorem responses_answered (decoded : codec.command data = some wire)
    (destined : ClusterAgent.destination app.agent.deadJobs wire = some topic)
    (reachable : app.agent.reachable app.spawn topic = true) {handled : State.Partition.Handled}
    (ok : (app.partition topic).handleCommand (ClusterAgent.handedOn app.agent.deadJobs (app.agent.attach wire))
      app.clock = .ok handled) : app.responses codec data = handled.reply.toList := by
  unfold responses
  rw [delivered_reachable decoded destined reachable]
  simp [ok]

theorem responses_panicked (decoded : codec.command data = some wire)
    (destined : ClusterAgent.destination app.agent.deadJobs wire = some topic)
    (reachable : app.agent.reachable app.spawn topic = true) {panicked : State.Panic}
    (failed : (app.partition topic).handleCommand (ClusterAgent.handedOn app.agent.deadJobs (app.agent.attach wire))
      app.clock = .error panicked) : app.responses codec data = [] := by
  unfold responses
  rw [delivered_reachable decoded destined reachable]
  simp [failed]

theorem responses_unreachable (decoded : codec.command data = some wire)
    (nowhere : ∀ topic, ClusterAgent.destination app.agent.deadJobs wire = some topic →
      app.agent.reachable app.spawn topic ≠ true) : app.responses codec data = [] := by
  unfold responses
  rw [delivered_unreachable decoded nowhere, List.flatMap_nil]

theorem waiting_handedOn (unasked : wire.respInfo = none) :
    waiting (ClusterAgent.handedOn app.agent.deadJobs (app.agent.attach wire)).respInfo =
      waiting (app.agent.pendingProposals.get wire.proposeID) := by
  have kept (cmd : Command) : (ClusterAgent.handedOn app.agent.deadJobs cmd).respInfo = cmd.respInfo := by
    unfold ClusterAgent.handedOn
    split <;> rfl
  rw [kept, ClusterAgent.attach]
  cases found : app.agent.pendingProposals.get wire.proposeID with
  | some respInfo => rfl
  | none => exact congrArg waiting unasked

theorem countP_reply (reply : Option ToProducerResponse) (requestID : UInt32) :
    (reply.toList.countP fun res => res.requestID = requestID) ≤ 1 ∧
      ((reply.toList.countP fun res => res.requestID = requestID) = 1 ↔
        reply.map ToProducerResponse.requestID = some requestID) := by
  cases reply with
  | none => simp
  | some res => by_cases own : res.requestID = requestID <;> simp [own]

/-- The answers to a command when its entry is applied. -/
theorem count_responses (app : Application) (requestID : UInt32) (onWire : cmd.onWire = some wire)
    (decoded : codec.command data = some wire) :
    ((app.responses codec data).countP fun res => res.requestID = requestID) ≤ 1 ∧
      (((app.responses codec data).countP fun res => res.requestID = requestID) = 1 ↔ app.Answers cmd requestID) := by
  obtain ⟨sameID, unasked⟩ := Command.onWire_plain onWire
  have route := ClusterAgent.destination_onWire app.agent.deadJobs onWire
  by_cases goes : ∃ topic, ClusterAgent.destination app.agent.deadJobs wire = some topic ∧
      app.agent.reachable app.spawn topic = true
  case neg =>
    have nothing : app.responses codec data = [] :=
      responses_unreachable decoded fun topic destined reachable => goes ⟨topic, destined, reachable⟩
    have unanswered : ¬ app.Answers cmd requestID := by
      rintro ⟨_, topic, destined, reachable, _⟩
      exact goes ⟨topic, route.trans destined, reachable⟩
    simp [nothing, unanswered]
  obtain ⟨topic, destined, reachable⟩ := goes
  have same {other : String} (found : ClusterAgent.destination app.agent.deadJobs cmd = some other) : other = topic :=
    Option.some.inj (found.symm.trans (route.symm.trans destined))
  cases result : (app.partition topic).handleCommand
      (ClusterAgent.handedOn app.agent.deadJobs (app.agent.attach wire)) app.clock with
  | error panicked =>
    have nothing := responses_panicked decoded destined reachable result
    have unanswered : ¬ app.Answers cmd requestID := by
      rintro ⟨_, other, found, _, wire', handled, onWire', ok⟩
      cases same found
      cases Option.some.inj (onWire.symm.trans onWire')
      cases result.symm.trans ok
    simp [nothing, unanswered]
  | ok handled =>
    rw [responses_answered decoded destined reachable result]
    obtain ⟨atMost, counted⟩ := countP_reply handled.reply requestID
    refine ⟨atMost, counted.trans ?_⟩
    rw [handleCommand_reply result, waiting_handedOn unasked, sameID]
    constructor
    · intro waits
      exact ⟨waits, topic, route.symm.trans destined, reachable, wire, handled, onWire, result⟩
    · rintro ⟨waits, _⟩
      exact waits

end Application

/-! ### The command -/

variable {codec : Codec} {a : ClusterAgent} {cmd : Command} {requestID : UInt32} {respCh : Nat}

theorem respondError_count (app : Application) (asked : cmd.respInfo = some ⟨requestID, some respCh⟩) (err : String) :
    (((ClusterAgent.respondError cmd err).flatMap (outputResponses codec app)).countP
      fun res => res.requestID = requestID) = 1 := by
  simp [ClusterAgent.respondError, asked, outputResponses]

theorem members_responses {outs : List Output} (app : Application)
    (only : ∀ out ∈ outs, ClusterAgent.Output.AboutMembers out) : outs.flatMap (outputResponses codec app) = [] := by
  refine List.flatMap_eq_nil_iff.mpr fun out member => ?_
  have about := only out member
  cases out with
  | respond | propose => exact about.elim
  | control | updatePeers => rfl

/-- A command is answered at most once, and it is answered exactly if the agent is
an active leader and the type is unknown, or the command is one on jobs whose
topic is not found, which cannot be encoded, or which is answered when its entry
is applied. -/
theorem answered_once_iff (lawful : codec.LawfulCommands) (asked : cmd.respInfo = some ⟨requestID, some respCh⟩)
    (app : Application) :
    answerCount codec a cmd app requestID ≤ 1 ∧
      (answerCount codec a cmd app requestID = 1 ↔ a.isLeader = true ∧ a.isActive = true ∧
        ((∃ value, cmd.type = .unknown value) ∨
          ClusterAgent.OnJobs cmd ∧ ∃ topic, ClusterAgent.topicOf cmd = .ok topic ∧ (a.topicExist topic = false ∨
            (∃ err, codec.marshalCommand { cmd with proposeID := a.proposalID + 1 } = .error err) ∨
            app.Answers { cmd with proposeID := a.proposalID + 1 } requestID))) := by
  have processed := ClusterAgent.processCommand_processed codec a cmd
  unfold answerCount responses
  generalize a.processCommand codec cmd = result at processed ⊢
  cases processed with
  | ignored passive => rcases passive with passive | passive <;> simp [passive]
  | members leads active type only =>
    dsimp only
    rw [members_responses app only]
    rcases type with type | type | type | type <;> simp [type, ClusterAgent.OnJobs]
  | unknownType leads active type =>
    dsimp only
    rw [respondError_count app asked]
    exact ⟨le_rfl, iff_of_true rfl ⟨leads, active, Or.inl ⟨_, type⟩⟩⟩
  | noPayload leads active type missing =>
    simp [missing, type.type_known]
  | noTopic leads active type named missing =>
    dsimp only
    rw [respondError_count app asked]
    exact ⟨le_rfl, iff_of_true rfl ⟨leads, active, Or.inr ⟨type, _, named, Or.inl missing⟩⟩⟩
  | unasked leads active type named known nobody => cases asked.symm.trans nobody
  | unencoded leads active type named known _ failed =>
    dsimp only
    rw [respondError_count app asked]
    exact ⟨le_rfl, iff_of_true rfl ⟨leads, active, Or.inr ⟨type, _, named, Or.inr (Or.inl ⟨_, failed⟩)⟩⟩⟩
  | proposed leads active type named known _ encoded =>
    obtain ⟨wire, onWire, decoded⟩ := lawful.roundTrip _ _ encoded
    have counted := app.count_responses requestID onWire decoded
    simpa [outputResponses, leads, active, type.type_known, named, known, encoded, type] using counted

/-- A leader with the topic `t` that knows the node `n2`. -/
private def answeringLeader : ClusterAgent :=
  { ClusterAgent.new "n1" ⟨FinMap.empty.set "n2" 2, FinMap.empty.set 2 "n2"⟩ (FinMap.empty.set "t" []) [] with
    isLeader := true
    status := 73 }

/-- A batch without jobs for the topic `t`. -/
private def emptyMessage : Bytes × Command :=
  (messageHeader 4 1 ++ [0x82] ++ topicField Letter.t.byte ++ [0xa4, 0x6a, 0x6f, 0x62, 0x73, 0x90],
  { type := .addJobs, proposeID := 1, addJobs := some ⟨"t", []⟩ })

private def answeredMessages : List (Bytes × Command) := [addMessage 1 .t .a, emptyMessage]

private theorem answeredMessages_distinct : (answeredMessages.map Prod.fst).Nodup := by decide

/-- The entry is applied by the leader itself, next. -/
private def nextApplication : Application where
  agent := answeringLeader.recorded ⟨7, some 0⟩
  index := 1
  term := 1
  spawn := .ok ()
  partition := fun topic => .new topic ⟨4, 3, 20, 4, 1000, 1000⟩ 0
  clock := fun _ => ⟨0, 0⟩

/-- A batch of one new job is answered by its partition. -/
theorem batch_answered_once :
    answerCount (wireCodec answeredMessages) answeringLeader
      { (addMessage 0 .t .a).2 with respInfo := some ⟨7, some 0⟩ } nextApplication 7 = 1 :=
  (answered_once_iff (wireCodec_lawfulCommands answeredMessages_distinct) rfl nextApplication).2.mpr
    ⟨rfl, rfl, Or.inr ⟨Or.inl rfl, "t", rfl, Or.inr (Or.inr ⟨rfl, "t", rfl, rfl, _, _, rfl, rfl⟩)⟩⟩

/-- Whoever asks a leader to add a node that it knows gets no answer. Neither does
whoever adds no jobs to a topic, when the entry is applied. -/
theorem add_node_never_answered : ∃ (codec : Codec) (a : ClusterAgent) (addNode addNothing : Command) (data : Bytes),
    codec.LawfulCommands ∧ a.isLeader = true ∧ a.isActive = true ∧
      (addNode.type = .addNode ∧ addNode.respInfo = some ⟨7, some 0⟩ ∧
        a.processCommand codec addNode = .ok (a, [.control (.addNode 2)]) ∧
        ∀ app, answerCount codec a addNode app 7 = 0) ∧
      addNothing.type = .addJobs ∧ addNothing.respInfo = some ⟨7, some 0⟩ ∧
        a.processCommand codec addNothing = .ok (a.recorded ⟨7, some 0⟩, [.propose data]) ∧
        ∀ app, answerCount codec a addNothing app 7 = 0 := by
  refine ⟨wireCodec answeredMessages, answeringLeader,
    { type := .addNode, addNode := some ⟨"n2"⟩, respInfo := some ⟨7, some 0⟩, proposeID := 0 },
    { emptyMessage.2 with respInfo := some ⟨7, some 0⟩ }, emptyMessage.1,
    wireCodec_lawfulCommands answeredMessages_distinct, rfl, rfl, ⟨rfl, rfl, rfl, fun _ => rfl⟩, rfl, rfl, rfl,
    fun app => ?_⟩
  have nowhere : ClusterAgent.destination app.agent.deadJobs emptyMessage.2 = none := by
    simp [ClusterAgent.destination, emptyMessage]
  have nothing : app.responses (wireCodec answeredMessages) emptyMessage.1 = [] :=
    Application.responses_unreachable (show _ = some emptyMessage.2 from rfl) fun topic destined => by
      cases nowhere.symm.trans destined
  change List.countP _ (app.responses (wireCodec answeredMessages) emptyMessage.1 ++ []) = 0
  rw [nothing]
  rfl

end Cue.Cluster
