import Cue.CommandReplay

/-! Where a command goes on the two sides of replication. A leader looks up the
topic that the payload names before it proposes a command; the node that applies
the entry puts a batch of jobs on the channel of the topic that its first job
names, and a `Done` or a `Drop` on the channel of the payload's topic. -/
namespace Cue.Cluster
open Cue.Lib Cue.Model

namespace ClusterAgent

variable {codec : Codec} {a a' : ClusterAgent} {cmd : Command} {data : Bytes}

/-! ### Proposing -/

/-- The proposal gets the next ID, and whoever waits for it is recorded under that. -/
def recorded (a : ClusterAgent) (respInfo : RespInfo) : ClusterAgent :=
  { a with
    proposalID := a.proposalID + 1
    pendingProposals := a.pendingProposals.set (a.proposalID + 1) respInfo }

/-- An output that is about the members of the cluster. -/
def Output.AboutMembers : Output → Prop
  | .control _ | .updatePeers _ => True
  | .respond _ _ | .propose _ => False

/-- A command on jobs. -/
def OnJobs (cmd : Command) : Prop := cmd.type = .addJobs ∨ cmd.type = .done ∨ cmd.type = .drop

theorem OnJobs.type_known (onJobs : OnJobs cmd) (value : UInt8) : cmd.type ≠ .unknown value := by
  rcases onJobs with type | type | type <;> simp [type]

/-- What `processCommand` did with a command. -/
inductive Processed (codec : Codec) (a : ClusterAgent) (cmd : Command) :
    Except State.Panic (ClusterAgent × List Output) → Prop where
  | ignored (passive : a.isLeader = false ∨ a.isActive = false) : Processed codec a cmd (.ok (a, []))
  | members {outs : List Output} (leads : a.isLeader = true) (active : a.isActive = true)
      (type : cmd.type = .updatePeersList ∨ cmd.type = .addNode ∨ cmd.type = .removeNode ∨ cmd.type = .transferLeader)
      (only : ∀ out ∈ outs, Output.AboutMembers out) : Processed codec a cmd (.ok (a, outs))
  | unknownType {value : UInt8} (leads : a.isLeader = true) (active : a.isActive = true)
      (type : cmd.type = .unknown value) : Processed codec a cmd (.ok (a, respondError cmd "unknown command type"))
  | noPayload {panicked : State.Panic} (leads : a.isLeader = true) (active : a.isActive = true)
      (type : OnJobs cmd) (missing : topicOf cmd = .error panicked) :
      Processed codec a cmd (.error panicked)
  | noTopic {topic : String} (leads : a.isLeader = true) (active : a.isActive = true)
      (type : OnJobs cmd) (named : topicOf cmd = .ok topic)
      (missing : a.topicExist topic = false) : Processed codec a cmd (.ok (a, respondError cmd "topic not found"))
  | unasked {topic : String} (leads : a.isLeader = true) (active : a.isActive = true)
      (type : OnJobs cmd) (named : topicOf cmd = .ok topic)
      (known : a.topicExist topic = true) (nobody : cmd.respInfo = none) :
      Processed codec a cmd (.error .nilDereference)
  | unencoded {topic err : String} {respInfo : RespInfo} (leads : a.isLeader = true) (active : a.isActive = true)
      (type : OnJobs cmd) (named : topicOf cmd = .ok topic)
      (known : a.topicExist topic = true) (asked : cmd.respInfo = some respInfo)
      (failed : codec.marshalCommand { cmd with proposeID := a.proposalID + 1 } = .error err) :
      Processed codec a cmd (.ok (a.recorded respInfo, respondError cmd err))
  | proposed {topic : String} {data : Bytes} {respInfo : RespInfo} (leads : a.isLeader = true)
      (active : a.isActive = true) (type : OnJobs cmd) (named : topicOf cmd = .ok topic)
      (known : a.topicExist topic = true) (asked : cmd.respInfo = some respInfo)
      (encoded : codec.marshalCommand { cmd with proposeID := a.proposalID + 1 } = .ok data) :
      Processed codec a cmd (.ok (a.recorded respInfo, [.propose data]))

theorem controlNode_members (a : ClusterAgent) (nodeID : String) (control : Nat → ControlCmd) :
    ∀ out ∈ a.controlNode nodeID control, Output.AboutMembers out := by
  unfold controlNode
  repeat' split
  all_goals simp [Output.AboutMembers]

theorem processJobCommand_processed (leads : a.isLeader = true) (active : a.isActive = true)
    (type : OnJobs cmd) :
    Processed codec a cmd (a.processJobCommand codec cmd) := by
  unfold processJobCommand
  rw [if_neg (by simp [active]), if_pos leads]
  split
  · rename_i missing
    exact .noPayload leads active type missing
  · rename_i topic named
    split
    · rename_i missing
      exact .noTopic leads active type named missing
    · rename_i known
      have known : a.topicExist topic = true := by simpa using known
      unfold propose
      split
      · rename_i nobody
        exact .unasked leads active type named known nobody
      · rename_i asked
        dsimp only
        split
        · rename_i failed
          exact .unencoded leads active type named known asked failed
        · rename_i encoded
          exact .proposed leads active type named known asked encoded

/-- Every way a command can end in `processCommand`. -/
theorem processCommand_processed (codec : Codec) (a : ClusterAgent) (cmd : Command) :
    Processed codec a cmd (a.processCommand codec cmd) := by
  unfold processCommand
  by_cases passive : a.isLeader = false
  · rw [if_pos passive]
    exact .ignored (Or.inl passive)
  by_cases inactive : a.isActive = false
  · rw [if_neg passive, if_pos inactive]
    exact .ignored (Or.inr inactive)
  have leads : a.isLeader = true := by simpa using passive
  have active : a.isActive = true := by simpa using inactive
  rw [if_neg passive, if_neg inactive]
  have control (type : cmd.type = .addNode ∨ cmd.type = .removeNode ∨ cmd.type = .transferLeader) (nodeID : String)
      (ctrl : Nat → ControlCmd) : Processed codec a cmd (.ok (a, a.controlNode nodeID ctrl)) :=
    .members leads active (Or.inr type) (a.controlNode_members nodeID ctrl)
  split
  · rename_i type
    refine .members leads active (Or.inl type) ?_
    cases cmd.peers <;> simp [Output.AboutMembers]
  · rename_i type
    split
    · exact .members leads active (Or.inr (Or.inl type)) (by simp)
    · exact control (Or.inl type) _ _
  · rename_i type
    split
    · exact .members leads active (Or.inr (Or.inr (Or.inl type))) (by simp)
    · exact control (Or.inr (Or.inl type)) _ _
  · rename_i type
    split
    · exact .members leads active (Or.inr (Or.inr (Or.inr type))) (by simp)
    · exact control (Or.inr (Or.inr type)) _ _
  · rename_i type
    exact processJobCommand_processed leads active (Or.inl type)
  · rename_i type
    exact processJobCommand_processed leads active (Or.inr (Or.inl type))
  · rename_i type
    exact processJobCommand_processed leads active (Or.inr (Or.inr type))
  · rename_i value type
    exact .unknownType leads active type

/-- The message of a batch that was proposed is read back as the same batch. -/
theorem proposed_batch {outs : List Output} {payload : AddJobsPayload} (lawful : codec.LawfulCommands)
    (type : cmd.type = .addJobs) (carried : cmd.addJobs = some payload)
    (accepted : a.processCommand codec cmd = .ok (a', outs)) (member : .propose data ∈ outs) :
    codec.command data = some {
      type := .addJobs
      proposeID := a.proposalID + 1
      addJobs := some { payload with jobs := payload.jobs.map Job.onWire } } := by
  have processed := processCommand_processed codec a cmd
  rw [accepted] at processed
  have quiet (err : String) : Output.propose data ∉ respondError cmd err := by
    unfold respondError
    split <;> simp
  cases processed with
  | ignored => simp at member
  | members _ _ _ only => exact (only _ member).elim
  | unknownType | noTopic | unencoded => exact absurd member (quiet _)
  | proposed _ _ _ _ _ _ encoded =>
    simp only [List.mem_singleton, Output.propose.injEq] at member
    subst member
    obtain ⟨wire, onWire, decoded⟩ := lawful.roundTrip _ _ encoded
    rw [decoded, ← onWire]
    simp [Command.onWire, type, carried]

/-! ### Applying -/

variable {committed : CommittedEntry} {spawn : Except String Unit} {topic : String}

/-- A command and what is read of it go to the same topic. -/
theorem destination_onWire {wire : Command} (deadJobs : List String) (onWire : cmd.onWire = some wire) :
    destination deadJobs wire = destination deadJobs cmd := by
  unfold Command.onWire at onWire
  split at onWire
  case h_5 type =>
    obtain ⟨payload, carried, rfl⟩ := Option.map_eq_some_iff.mp onWire
    have first : (payload.jobs.map Job.onWire).head?.map Job.topic = payload.jobs.head?.map Job.topic := by
      cases payload.jobs <;> rfl
    simp [destination, type, carried, Job.onWire, ← first]
  case h_8 => cases onWire
  all_goals
    rename_i type
    obtain ⟨payload, carried, rfl⟩ := Option.map_eq_some_iff.mp onWire
    simp [destination, type, carried]

/-- The command as it is put there. -/
def handedOn (deadJobs : List String) (cmd : Command) : Command :=
  match cmd.type with
  | .addJobs => { cmd with addJobs := cmd.addJobs.map fun payload =>
      { payload with jobs := payload.jobs.map (markDead deadJobs) } }
  | _ => cmd

/-- The topic has a channel or gets one. -/
def reachable (a : ClusterAgent) (spawn : Except String Unit) (topic : String) : Bool :=
  a.channels.contains topic || spawn.isOk

theorem get_deliverCommand (a : ClusterAgent) (target : String) (cmd : Command) (spawn : Except String Unit)
    (topic : String) : (a.deliverCommand target cmd spawn).1.channels.get topic =
      if target = topic ∧ a.reachable spawn topic = true then some (a.queue topic ++ [cmd])
      else a.channels.get topic := by
  unfold deliverCommand reachable queue FinMap.contains
  by_cases own : target = topic
  · subst own
    cases known : a.channels.get target with
    | some queued => simp
    | none => cases spawn <;> simp [known, Except.isOk, Except.toBool]
  · have other : topic ≠ target := Ne.symm own
    simp only [own, false_and, if_false]
    split <;> simp [FinMap.get_set, other]

theorem get_routeCommand (a : ClusterAgent) (cmd : Command) (spawn : Except String Unit) (topic : String) :
    (a.routeCommand cmd spawn).1.channels.get topic =
      if destination a.deadJobs cmd = some topic ∧ a.reachable spawn topic = true then
        some (a.queue topic ++ [handedOn a.deadJobs cmd])
      else a.channels.get topic := by
  have forgotten (jobIDs : List String) (target : String) := (a.forget jobIDs).get_deliverCommand target cmd spawn topic
  unfold routeCommand destination handedOn
  cases type : cmd.type with
  | addJobs =>
    cases carried : cmd.addJobs with
    | none => simp
    | some payload =>
      cases jobs : payload.jobs with
      | nil => simp [jobs]
      | cons first rest =>
        simp only [jobs, List.map_cons, List.head?_cons, Option.map_some]
        split
        · simp
        · rw [get_deliverCommand, markDead_topic]
          simp
  | done =>
    cases cmd.done with
    | none => simp
    | some payload => simpa [forget, reachable, queue] using forgotten payload.jobIDs payload.topic
  | drop =>
    cases cmd.drop with
    | none => simp
    | some payload => simpa [forget, reachable, queue] using forgotten payload.jobIDs payload.topic
  | _ => simp

/-- The command of an entry, with whoever waits for it on this node. -/
def attach (a : ClusterAgent) (cmd : Command) : Command :=
  match a.pendingProposals.get cmd.proposeID with
  | some respInfo => { cmd with respInfo := some respInfo }
  | none => cmd

@[simp] theorem attach_type (a : ClusterAgent) (cmd : Command) : (a.attach cmd).type = cmd.type := by
  unfold attach
  split <;> rfl

@[simp] theorem attach_addJobs (a : ClusterAgent) (cmd : Command) : (a.attach cmd).addJobs = cmd.addJobs := by
  unfold attach
  split <;> rfl

/-- What the application of an entry puts on the channels. -/
theorem get_handleNormalCommand (a : ClusterAgent) (spawn : Except String Unit) (topic : String)
    (carried : committed.data = some data) (decoded : codec.command data = some cmd) :
    (a.handleNormalCommand codec committed spawn).1.channels.get topic =
      if destination a.deadJobs cmd = some topic ∧ a.reachable spawn topic = true then
        some (a.queue topic ++ [handedOn a.deadJobs (a.attach cmd)])
      else a.channels.get topic := by
  have same : destination a.deadJobs (a.attach cmd) = destination a.deadJobs cmd := by
    unfold attach
    split <;> rfl
  rw [← same]
  unfold handleNormalCommand
  simp only [carried, decoded, getAndRemovePendingResponse]
  exact get_routeCommand { a with
    lastAppliedIndex := committed.index
    pendingProposals := a.pendingProposals.delete cmd.proposeID } (a.attach cmd) spawn topic

theorem contains_handleNormalCommand (a : ClusterAgent) (spawn : Except String Unit) (topic : String)
    (carried : committed.data = some data) (decoded : codec.command data = some cmd) :
    (a.handleNormalCommand codec committed spawn).1.channels.contains topic =
      (decide (destination a.deadJobs cmd = some topic ∧ a.reachable spawn topic = true) ||
        a.channels.contains topic) := by
  unfold FinMap.contains
  rw [get_handleNormalCommand a spawn topic carried decoded]
  by_cases goes : destination a.deadJobs cmd = some topic ∧ a.reachable spawn topic = true <;> simp [goes]

/-- The entry of one message. -/
theorem queue_handleNormalCommand (a : ClusterAgent) (spawn : Except String Unit) (topic : String)
    (carried : committed.data = some data) (decoded : codec.command data = some cmd) :
    (a.handleNormalCommand codec committed spawn).1.queue topic = a.queue topic ++
      if destination a.deadJobs cmd = some topic ∧ a.reachable spawn topic = true then
        [handedOn a.deadJobs (a.attach cmd)] else [] := by
  unfold queue
  rw [get_handleNormalCommand a spawn topic carried decoded]
  split
  · rfl
  · simp

/-- Channels stay, and what was put on them stays in front. -/
theorem handleNormalCommand_grows (codec : Codec) (a : ClusterAgent) (committed : CommittedEntry)
    (spawn : Except String Unit) (topic : String) :
    a.queue topic <+: (a.handleNormalCommand codec committed spawn).1.queue topic ∧
      (a.channels.contains topic = true →
        (a.handleNormalCommand codec committed spawn).1.channels.contains topic = true) := by
  cases carried : committed.data with
  | none => simp [handleNormalCommand, carried, queue]
  | some data =>
    cases decoded : codec.command data with
    | none => simp [handleNormalCommand, carried, decoded, queue]
    | some cmd =>
      rw [queue_handleNormalCommand a spawn topic carried decoded]
      refine ⟨List.prefix_append _ _, fun known => ?_⟩
      rw [contains_handleNormalCommand a spawn topic carried decoded, known, Bool.or_true]

/-- Committed entries applied one after the other, each with how a spawn would end. -/
def applyAll (codec : Codec) (a : ClusterAgent) (entries : List (CommittedEntry × Except String Unit)) :
    ClusterAgent :=
  entries.foldl (fun a entry => (a.handleNormalCommand codec entry.1 entry.2).1) a

theorem applyAll_grows (codec : Codec) (a : ClusterAgent) (entries : List (CommittedEntry × Except String Unit))
    (topic : String) : a.queue topic <+: (a.applyAll codec entries).queue topic ∧
      (a.channels.contains topic = true → (a.applyAll codec entries).channels.contains topic = true) := by
  induction entries generalizing a with
  | nil => exact ⟨List.prefix_rfl, id⟩
  | cons entry entries ih =>
    obtain ⟨first, kept⟩ := a.handleNormalCommand_grows codec entry.1 entry.2 topic
    obtain ⟨rest, keptAll⟩ := ih (a.handleNormalCommand codec entry.1 entry.2).1
    exact ⟨first.trans rest, fun known => keptAll (kept known)⟩

end ClusterAgent

/-! ### Batches -/

/-- The jobs of a batch as they are handed on. -/
theorem ClusterAgent.attached_batch (node : ClusterAgent) {proposeID : UInt64} {payload : AddJobsPayload} {job : Job}
    (member : job ∈ payload.jobs) :
    let cmd := handedOn node.deadJobs (node.attach { type := .addJobs, proposeID, addJobs := some payload })
    cmd.type = .addJobs ∧ ∃ given, cmd.addJobs = some given ∧ markDead node.deadJobs job ∈ given.jobs := by
  have marked : markDead node.deadJobs job ∈ payload.jobs.map (markDead node.deadJobs) := List.mem_map_of_mem member
  simpa [handedOn] using marked

/-- Every job of the batch came onto the channel of the topic. -/
def Delivers (before after : ClusterAgent) (topic : String) (jobs : List Job) : Prop :=
  ∃ new, after.queue topic = before.queue topic ++ new ∧ ∀ job ∈ jobs, ∃ cmd ∈ new, cmd.type = .addJobs ∧
    ∃ payload, cmd.addJobs = some payload ∧ ClusterAgent.markDead before.deadJobs job.onWire ∈ payload.jobs

/-- A command that finishes jobs of the topic. -/
def FinishesIn (topic : String) (cmd : Command) : Prop :=
  (cmd.type = .done ∧ ∃ jobIDs, cmd.done = some ⟨topic, jobIDs⟩) ∨
    cmd.type = .drop ∧ ∃ jobIDs, cmd.drop = some ⟨topic, jobIDs⟩

variable {codec : Codec} {a a' : ClusterAgent} {cmd : Command} {data : Bytes} {outs : List Output}
  {payload : AddJobsPayload}

theorem FinishesIn.destination {topic : String} (finishes : FinishesIn topic cmd) (deadJobs : List String) :
    ClusterAgent.destination deadJobs cmd = some topic ∧
      ClusterAgent.handedOn deadJobs (a.attach cmd) = a.attach cmd := by
  rcases finishes with ⟨done, jobIDs, carried⟩ | ⟨drop, jobIDs, carried⟩
  · simp [ClusterAgent.destination, ClusterAgent.handedOn, done, carried]
  · simp [ClusterAgent.destination, ClusterAgent.handedOn, drop, carried]

/-- Where the batch goes, in terms of the payload. -/
theorem destination_checked_iff (deadJobs : List String) (payload : AddJobsPayload) :
    (if ∀ job ∈ payload.jobs, job.id ∈ deadJobs then none else payload.jobs.head?.map Job.topic) = some payload.topic ↔
      payload.jobs.head?.map Job.topic = some payload.topic ∧ ∃ job ∈ payload.jobs, job.id ∉ deadJobs := by
  by_cases dead : ∀ job ∈ payload.jobs, job.id ∈ deadJobs
  · have none' : ¬ ∃ job ∈ payload.jobs, job.id ∉ deadJobs := by
      rintro ⟨job, member, alive⟩
      exact alive (dead job member)
    rw [if_pos dead]
    simp [none']
  · have some' : ∃ job ∈ payload.jobs, job.id ∉ deadJobs := by simpa using dead
    rw [if_neg dead]
    simp [some']

/-- A channel that got the batch or nothing got every job exactly if it got the batch. -/
theorem delivers_iff {before after : ClusterAgent} {topic : String} {jobs : List Job} {goes : Prop} [Decidable goes]
    {batch : Command} (grown : after.queue topic = before.queue topic ++ if goes then [batch] else [])
    (whole : ∀ job ∈ jobs, batch.type = .addJobs ∧
      ∃ payload, batch.addJobs = some payload ∧ ClusterAgent.markDead before.deadJobs job.onWire ∈ payload.jobs) :
    Delivers before after topic jobs ↔ jobs = [] ∨ goes := by
  constructor
  · rintro ⟨new, added, held⟩
    by_contra missed
    obtain ⟨some', elsewhere⟩ := not_or.mp missed
    rw [if_neg elsewhere] at grown
    have nothing : new = [] := (List.append_cancel_left (grown.symm.trans added)).symm
    obtain ⟨job, member⟩ := List.exists_mem_of_ne_nil _ some'
    obtain ⟨_, present, _⟩ := held job member
    rw [nothing] at present
    cases present
  · rintro (empty | there)
    · exact ⟨_, grown, by simp [empty]⟩
    · rw [if_pos there] at grown
      exact ⟨_, grown, fun job member => ⟨_, List.mem_singleton_self _, whole job member⟩⟩

/-- On a topic that has a channel, a command that finishes jobs of it comes last,
whatever was applied before. -/
theorem FinishesIn.comes_behind {topic : String} {held : ClusterAgent} {finish : Command}
    (finishes : FinishesIn topic finish) (known : held.channels.contains topic = true)
    (later : List (CommittedEntry × Except String Unit)) {last : CommittedEntry} (lastData : last.data = some data)
    (decoded : codec.command data = some finish) (spawn : Except String Unit) :
    let now := held.applyAll codec later
    held.queue topic <+: now.queue topic ∧
      (now.handleNormalCommand codec last spawn).1.queue topic = now.queue topic ++ [now.attach finish] := by
  obtain ⟨front, kept⟩ := held.applyAll_grows codec later topic
  obtain ⟨destined, plain⟩ := finishes.destination (held.applyAll codec later).deadJobs
  have there : (held.applyAll codec later).reachable spawn topic = true := by
    rw [ClusterAgent.reachable, kept known]
    rfl
  refine ⟨front, ?_⟩
  rw [ClusterAgent.queue_handleNormalCommand _ spawn topic lastData decoded, if_pos ⟨destined, there⟩, plain]

/-- A batch that a leader accepted after it looked up the payload's topic comes
onto the channel of that topic, wherever it is applied, exactly if it is empty or
its first job names the same topic, one of its jobs is not dead, and the topic has
a channel or gets one. Then every `Done` and `Drop` of that topic that is applied
later comes onto the same channel, behind the batch. -/
theorem batch_reaches_checked_topic_iff (lawful : codec.LawfulCommands) (type : cmd.type = .addJobs)
    (carried : cmd.addJobs = some payload) (accepted : a.processCommand codec cmd = .ok (a', outs))
    (proposed : .propose data ∈ outs) (node : ClusterAgent) {committed : CommittedEntry}
    (entry : committed.data = some data) (spawn : Except String Unit) :
    (Delivers node (node.handleNormalCommand codec committed spawn).1 payload.topic payload.jobs ↔
      payload.jobs = [] ∨ payload.jobs.head?.map Job.topic = some payload.topic ∧
        (∃ job ∈ payload.jobs, job.id ∉ node.deadJobs) ∧ node.reachable spawn payload.topic = true) ∧
    (payload.jobs ≠ [] →
      Delivers node (node.handleNormalCommand codec committed spawn).1 payload.topic payload.jobs →
      ∀ later (last : CommittedEntry) finish data', last.data = some data' → codec.command data' = some finish →
        FinishesIn payload.topic finish → ∀ spawn',
        let held := (node.handleNormalCommand codec committed spawn).1
        let now := held.applyAll codec later
        held.queue payload.topic <+: now.queue payload.topic ∧
          (now.handleNormalCommand codec last spawn').1.queue payload.topic =
            now.queue payload.topic ++ [now.attach finish]) := by
  have decoded := ClusterAgent.proposed_batch lawful type carried accepted proposed
  have grown := node.queue_handleNormalCommand spawn payload.topic entry decoded
  have channel := node.get_handleNormalCommand spawn payload.topic entry decoded
  have route : _ = if ∀ job ∈ payload.jobs, job.id ∈ node.deadJobs then none else payload.jobs.head?.map Job.topic :=
    ClusterAgent.destination_onWire node.deadJobs (show Command.onWire {
      type := .addJobs
      proposeID := a.proposalID + 1
      addJobs := some payload } = some _ from rfl)
  rw [route] at grown channel
  have goes_iff : (_ ∧ node.reachable spawn payload.topic = true) ↔ _ :=
    (and_congr_left' (destination_checked_iff node.deadJobs payload)).trans and_assoc
  simp only [goes_iff] at grown channel
  have delivered := delivers_iff grown fun job member =>
    ClusterAgent.attached_batch node (List.mem_map_of_mem (f := Job.onWire) member)
  refine ⟨delivered, fun some' delivers later last finish data' lastData decoded' finishes spawn' => ?_⟩
  have there : (node.handleNormalCommand codec committed spawn).1.channels.contains payload.topic = true := by
    rw [FinMap.contains, channel, if_pos ((delivered.mp delivers).resolve_left some')]
    rfl
  exact finishes.comes_behind there later lastData decoded' spawn'

/-- A leader with the topics `t` and `b`. -/
private def routingLeader : ClusterAgent :=
  { ClusterAgent.new "n1" ⟨.empty, .empty⟩ ((FinMap.empty.set "t" []).set "b" []) [] with
    isLeader := true
    status := 73 }

/-- A batch that names the topic `t`, of one job `a` of the topic `b`. -/
private def strayMessage : Bytes × Command :=
  (messageHeader 4 1 ++ [0x82] ++ topicField Letter.t.byte ++ [0xa4, 0x6a, 0x6f, 0x62, 0x73, 0x91, 0x83] ++
    [0xa2, 0x69, 0x64, 0xa1, Letter.a.byte] ++ topicField Letter.b.byte ++ [0xa4, 0x64, 0x61, 0x74, 0x61, 0xc0],
  { type := .addJobs, proposeID := 1, addJobs := some ⟨"t", [⟨"a", "b", [], false, 0⟩]⟩ })

private def routedMessages (batch : Bytes × Command) : List (Bytes × Command) := [batch, doneMessage 2 .t .a]

private def asked (message : Bytes × Command) : Command :=
  { message.2 with proposeID := 0, respInfo := some ⟨7, some 0⟩ }

private def normalEntry (index : UInt64) (message : Bytes × Command) : CommittedEntry :=
  ⟨some message.1, index, 1, .normal, [], []⟩

private theorem strayMessages_distinct : ((routedMessages strayMessage).map Prod.fst).Nodup := by decide

private theorem straightMessages_distinct : ((routedMessages (addMessage 1 .t .a)).map Prod.fst).Nodup := by decide

/-- A batch of one job of the topic it names comes onto that topic's channel. -/
theorem straight_batch_reaches_topic :
    let node := routingLeader.recorded ⟨7, some 0⟩
    Delivers node (node.handleNormalCommand (wireCodec (routedMessages (addMessage 1 .t .a)))
      (normalEntry 1 (addMessage 1 .t .a)) (.ok ())).1 "t" [⟨"a", "t", [], false, 0⟩] :=
  (batch_reaches_checked_topic_iff (wireCodec_lawfulCommands straightMessages_distinct) rfl rfl
    (show routingLeader.processCommand _ (asked (addMessage 1 .t .a)) = .ok (_, [.propose _]) from rfl)
    (List.mem_singleton_self _) _ rfl _).1.mpr
      (Or.inr ⟨rfl, ⟨_, List.mem_singleton_self _, List.not_mem_nil⟩, rfl⟩)

/-- The leader looks up the topic `t` and accepts the batch. When it applies the
entry the job goes to the topic `b`, and the job's `Done` to `t`. -/
theorem stray_batch_misses_topic : ∃ (codec : Codec) (a a' : ClusterAgent) (cmd : Command) (data : Bytes),
    codec.LawfulCommands ∧ cmd.type = .addJobs ∧ cmd.addJobs = some ⟨"t", [⟨"a", "b", [], false, 0⟩]⟩ ∧
      a.topicExist "t" = true ∧ a.processCommand codec cmd = .ok (a', [.propose data]) ∧
      let held := (a'.handleNormalCommand codec ⟨some data, 1, 1, .normal, [], []⟩ (.ok ())).1
      let finished := (held.handleNormalCommand codec (normalEntry 2 (doneMessage 2 .t .a)) (.ok ())).1
      ¬ Delivers a' held "t" [⟨"a", "b", [], false, 0⟩] ∧ held.queue "t" = [] ∧
        held.queue "b" = [{ strayMessage.2 with respInfo := some ⟨7, some 0⟩ }] ∧
        finished.queue "t" = [(doneMessage 2 .t .a).2] ∧ finished.queue "b" = held.queue "b" := by
  refine ⟨wireCodec (routedMessages strayMessage), routingLeader, routingLeader.recorded ⟨7, some 0⟩,
    asked strayMessage, strayMessage.1, wireCodec_lawfulCommands strayMessages_distinct, rfl, rfl, rfl, rfl, ?_,
    rfl, rfl, rfl, rfl⟩
  rintro ⟨new, grown, held⟩
  have nothing : new = [] := grown.symm
  obtain ⟨_, present, _⟩ := held _ (List.mem_singleton_self _)
  rw [nothing] at present
  cases present

end Cue.Cluster
