import Cue.Cmd.Serve
import Cue.CommandRouting

/-! Which topics a leader knows. A proxy's request for a topic is handled by the
process that gets it and goes into no log; another process learns of the topic
only when it applies an entry for it. Raft is here as in the records of pending
proposals: any proposal may be committed or lost, every process applies the
entries in order, and any process may become leader at any time. -/
namespace Cue.Cmd
open Cue.Lib Cue.Model Cue.Cluster

variable {N : Type} {codec : Codec} {conf : ConfCodec}

/-! ### Clusters -/

/-- How a process came to a topic: it handled a command to spawn it, with the
answer it gave, or it applied an entry for it. -/
inductive How where
  | spawned (answer : Option (Nat × ToProducerResponse))
  | delivered (position : Nat)
  deriving DecidableEq

structure Opening (N : Type) where
  node : N
  /-- in which life of the process -/
  life : Nat
  topic : String
  how : How
  deriving DecidableEq

structure Service (N : Type) where
  processes : N → Process
  /-- how often a process was started again -/
  lives : N → Nat
  proposals : List Bytes
  log : List Entry
  /-- what no step reads: how the processes came to their topics -/
  history : List (Opening N)

inductive ServiceOp (N : Type) where
  | roleChange (node : N) (leaderRaftID : Nat) (role : RaftState) (term : Nat)
  | request (node : N) (pair : Proxy.ConnectionPair) (env : Proxy.InboundEnv) (req : ProxyRequest)
  | manageTopics (node : N) (nowMilli : Int) (room : Bool)
  | takeCommand (node : N) (topic : String) (clock : Nat → State.Clock)
  /-- a proxy came or went -/
  | topology (node : N) (update : Option State.Partition.TopologyUpdate)
  /-- a command of the admin API or of a partition -/
  | command (node : N) (cmd : Command)
  | processNext (node : N)
  | commit (term index : UInt64) (which : Nat)
  /-- an entry of raft's own is committed -/
  | commitOther (entry : Entry)
  | apply (node : N) (configured : Configured) (spawn : Except String Unit) (nowMilli : Int)
  | restart (node : N) (deadJobs : List String) (applied : Nat)

namespace Process

/-- The topic that the topic manager is to spawn next. -/
def spawnedTopic (p : Process) : Option String :=
  match p.topicCmdCh with
  | .spawn topic _ _ :: _ => some topic
  | _ => none

/-- The topic to which the command of an entry is delivered. -/
def deliveredTopic (codec : Codec) (p : Process) (entry : Entry) (spawn : Except String Unit) : Option String :=
  ((entry.command codec).bind (ClusterAgent.destination p.agent.deadJobs)).filter (p.agent.reachable spawn)

end Process

namespace Service

/-- Processes that have just been started. -/
def start (names : N → String) (discovery : Discovery) (config : State.PartitionConfig) : Service N where
  processes node := .start (names node) discovery config [] 0
  lives _ := 0
  proposals := []
  log := []
  history := []

/-- A process does something and may come to a topic. -/
def move [DecidableEq N] (s : Service N) (node : N) (p : Process) (opened : Option (String × How)) : Service N :=
  { s with
    processes := Function.update s.processes node p
    history := s.history ++ (opened.map fun (topic, how) => ⟨node, s.lives node, topic, how⟩).toList }

def restarted [DecidableEq N] (s : Service N) (node : N) (p : Process) : Service N :=
  { s with
    processes := Function.update s.processes node p
    lives := Function.update s.lives node (s.lives node + 1) }

/-- A panic ends the process: no step, the process is started again. -/
def step [DecidableEq N] (codec : Codec) (conf : ConfCodec) (s : Service N) : ServiceOp N → Option (Service N)
  | .roleChange node leaderRaftID role term =>
    let p := s.processes node
    some (s.move node { p with agent := p.agent.applyRoleChange leaderRaftID role term } none)
  | .request node pair env req =>
    match (s.processes node).request pair env req with
    | none => none
    | some p => some (s.move node p none)
  | .manageTopics node nowMilli room =>
    match (s.processes node).manageTopics nowMilli room with
    | none => none
    | some (p, answer) => some (s.move node p ((s.processes node).spawnedTopic.map (·, .spawned answer)))
  | .takeCommand node topic clock =>
    match (s.processes node).takeCommand topic clock with
    | none => none
    | some p => some (s.move node p none)
  | .topology node update =>
    let p := s.processes node
    some (s.move node { p with topicCmdCh := p.topicCmdCh ++ [.topology update] } none)
  | .command node cmd =>
    let p := s.processes node
    some (s.move node { p with toClusterCh := p.toClusterCh ++ [cmd] } none)
  | .processNext node =>
    match (s.processes node).processNext codec with
    | none => none
    | some (p, outputs) => some { s.move node p none with
        proposals := s.proposals ++ outputs.filterMap Output.proposal? }
  | .commit term index which =>
    match s.proposals[which]? with
    | none => none
    | some data => some { s with log := s.log ++ [⟨term, index, .normal, some data⟩] }
  | .commitOther entry =>
    if entry.type = .normal ∧ entry.data ≠ none then none else some { s with log := s.log ++ [entry] }
  | .apply node configured spawn nowMilli =>
    let p := s.processes node
    if p.running then
      match s.log[p.applied]? with
      | none => none
      | some entry => some (s.move node (p.apply codec conf entry configured spawn nowMilli)
          ((p.deliveredTopic codec entry spawn).map (·, .delivered p.applied)))
    else none
  | .restart node deadJobs applied =>
    if applied ≤ s.log.length then
      let p := s.processes node
      some (s.restarted node (.start p.agent.nodeID p.agent.discovery p.topics.config deadJobs applied))
    else none

/-- Since its last start the process has come to the topic. -/
def Opened (s : Service N) (node : N) (topic : String) : Prop :=
  ∃ opening ∈ s.history, opening.node = node ∧ opening.life = s.lives node ∧ opening.topic = topic

/-- A request for the topic was answered with success. -/
def Acknowledged (s : Service N) (topic : String) : Prop :=
  ∃ opening ∈ s.history, opening.topic = topic ∧
    ∃ respCh requestID, opening.how = .spawned (some (respCh, ⟨requestID, .success, "", []⟩))

end Service

/-! ### One process -/

namespace Process

variable {p p' : Process} {topic : String}

/-- A topic has a channel exactly if it has a partition, and nobody asks to kill one. -/
structure Sound (p : Process) : Prop where
  registered : ∀ topic, p.agent.channels.contains topic = p.topics.workers.contains topic
  lasting : ∀ topic requestID respCh, .kill topic requestID respCh ∉ p.topicCmdCh

/-- The process stays sound and knows the topics it knew, and this one. -/
structure ComesTo (p p' : Process) (opened : Option String) : Prop where
  sound : p'.Sound
  known : ∀ topic, p'.agent.channels.contains topic = true ↔
    p.agent.channels.contains topic = true ∨ opened = some topic

theorem Sound.start (nodeID : String) (discovery : Discovery) (config : State.PartitionConfig)
    (deadJobs : List String) (applied : Nat) : (Process.start nodeID discovery config deadJobs applied).Sound :=
  ⟨fun _ => rfl, fun _ _ _ => List.not_mem_nil⟩

/-- A step that leaves the topics as they are. -/
theorem Sound.stays (sound : p.Sound)
    (channels : ∀ topic, p'.agent.channels.contains topic = p.agent.channels.contains topic)
    (workers : ∀ topic, p'.topics.workers.contains topic = p.topics.workers.contains topic)
    (lasting : ∀ topic requestID respCh, .kill topic requestID respCh ∉ p'.topicCmdCh) : p.ComesTo p' none := by
  refine ⟨⟨fun topic => ?_, lasting⟩, fun topic => ?_⟩
  · rw [channels, workers, sound.registered]
  · simp [channels]

/-- A step that makes sure of a topic. -/
theorem Sound.opens (sound : p.Sound)
    (channels : ∀ other, p'.agent.channels.contains other = (decide (other = topic) || p.agent.channels.contains other))
    (workers : ∀ other, p'.topics.workers.contains other = (decide (other = topic) || p.topics.workers.contains other))
    (lasting : ∀ topic requestID respCh, .kill topic requestID respCh ∉ p'.topicCmdCh) : p.ComesTo p' (some topic) := by
  refine ⟨⟨fun other => ?_, lasting⟩, fun other => ?_⟩
  · rw [channels, workers, sound.registered]
  · rw [channels, Option.some_inj, Bool.or_eq_true, decide_eq_true_eq, or_comm, @eq_comm _ other topic]

/-- The gateway only asks to spawn topics. -/
theorem send_effects_stays (sound : p.Sound) {effects : List Proxy.InboundEffect}
    (spawns : ∀ cmd, .topicCommand cmd ∈ effects → cmd.type = .spawn) : p.ComesTo (effects.foldl send p) none := by
  induction effects generalizing p with
  | nil => exact sound.stays (fun _ => rfl) (fun _ => rfl) sound.lasting
  | cons effect effects ih =>
    have first : p.ComesTo (p.send effect) none := by
      refine sound.stays (fun _ => ?_) (fun _ => ?_) (fun topic requestID respCh => ?_)
      · cases effect <;> rfl
      · cases effect <;> rfl
      · cases effect with
        | topicCommand cmd =>
          have spawn := spawns cmd List.mem_cons_self
          simp [send, topicCommand, spawn, sound.lasting]
        | _ => exact sound.lasting topic requestID respCh
    have rest := ih first.sound fun cmd member => spawns cmd (List.mem_cons_of_mem _ member)
    refine ⟨rest.sound, fun topic => (rest.known topic).trans ?_⟩
    simp [first.known topic]

theorem runInboundHandler_spawns {pair : Proxy.ConnectionPair} {env : Proxy.InboundEnv} {req : ProxyRequest}
    {effects : List Proxy.InboundEffect} (handled : pair.runInboundHandler env req = .ok effects)
    {cmd : Proxy.TopicCommand} (member : .topicCommand cmd ∈ effects) : cmd.type = .spawn := by
  unfold Proxy.ConnectionPair.runInboundHandler Proxy.ConnectionPair.sendBackErrorResponse at handled
  split at handled
  · split at handled
    · cases handled
    · cases handled
      rcases List.mem_append.mp member with routed | closed
      · obtain ⟨_, _, heartbeat⟩ := Proxy.ConnectionPair.mem_routeHeartbeats routed
        cases heartbeat
      · simp at closed
  · repeat' split at handled
    all_goals cases handled
    all_goals simp at member
    rw [member]

theorem request_stays (sound : p.Sound) {pair : Proxy.ConnectionPair} {env : Proxy.InboundEnv} {req : ProxyRequest}
    (requested : p.request pair env req = some p') : p.ComesTo p' none := by
  unfold request at requested
  split at requested
  · cases requested
  · rename_i effects handled
    cases requested
    exact send_effects_stays sound fun cmd => runInboundHandler_spawns handled

theorem offer_contains (tm : State.TopicManager) (topic : String) (update : State.Partition.TopologyUpdate)
    (other : String) : (tm.offer topic update).1.workers.contains other = tm.workers.contains other := by
  unfold State.TopicManager.offer
  split
  · rename_i found
    split
    · rw [FinMap.contains_set]
      by_cases own : other = topic
      · simp [own, FinMap.contains, found]
      · simp [own]
    · rfl
  · rfl

theorem broadcast_contains (tm : State.TopicManager) (update : Option State.Partition.TopologyUpdate)
    (topic : String) : (tm.broadcastTopologyUpdate update).workers.contains topic = tm.workers.contains topic := by
  cases update with
  | none => rfl
  | some update =>
    have offers (topics : List String) (tm : State.TopicManager) :
        (topics.foldl (fun tm topic => (tm.offer topic update).1) tm).workers.contains topic =
          tm.workers.contains topic := by
      induction topics generalizing tm with
      | nil => rfl
      | cons first rest ih => exact (ih _).trans (offer_contains tm first update topic)
    refine (offers _ _).trans ?_
    cases update <;> rfl

theorem handleSpawn_contains (tm : State.TopicManager) (topic : String) (requestID : UInt32) (respCh : Option Nat)
    (nowMilli : Int) (room : Bool) (other : String) :
    (tm.handleSpawn topic requestID respCh nowMilli room).1.workers.contains other =
      (decide (other = topic) || tm.workers.contains other) := by
  unfold State.TopicManager.handleSpawn
  split
  · rename_i known
    by_cases own : other = topic <;> simp [own, known]
  · exact FinMap.contains_set ..

theorem manageTopics_comesTo (sound : p.Sound) {nowMilli : Int} {room : Bool}
    {answer : Option (Nat × ToProducerResponse)} (managed : p.manageTopics nowMilli room = some (p', answer)) :
    p.ComesTo p' p.spawnedTopic := by
  unfold manageTopics at managed
  unfold spawnedTopic
  have lasting := sound.lasting
  split at managed <;> rename_i queued
  · cases managed
  · rename_i topic requestID respCh rest
    rw [queued] at lasting ⊢
    simp only [Option.some.injEq, Prod.mk.injEq] at managed
    obtain ⟨rfl, -⟩ := managed
    have channels (other : String) : (if p.topics.workers.contains topic then p.agent.channels
        else p.agent.channels.set topic []).contains other =
          (decide (other = topic) || p.agent.channels.contains other) := by
      split
      · rename_i known
        rw [← sound.registered] at known
        by_cases own : other = topic <;> simp [own, known]
      · exact FinMap.contains_set ..
    exact sound.opens channels (handleSpawn_contains p.topics topic requestID respCh nowMilli room)
      fun other id ch member => lasting other id ch (List.mem_cons_of_mem _ member)
  · rw [queued] at lasting
    exact absurd List.mem_cons_self (lasting _ _ _)
  · rw [queued] at lasting ⊢
    cases managed
    exact sound.stays (fun _ => rfl) (fun topic => broadcast_contains _ _ topic) fun other id ch member =>
      lasting other id ch (List.mem_cons_of_mem _ member)
  · rw [queued] at lasting ⊢
    cases managed
    exact sound.stays (fun _ => rfl) (fun _ => rfl) fun other id ch member =>
      lasting other id ch (List.mem_cons_of_mem _ member)

theorem takeCommand_stays (sound : p.Sound) {clock : Nat → State.Clock}
    (taken : p.takeCommand topic clock = some p') : p.ComesTo p' none := by
  unfold takeCommand at taken
  split at taken
  · rename_i hasChannel hasWorker
    split at taken
    · cases taken
    · cases taken
      have same {V : Type} {m : FinMap String V} {v v' : V} (found : m.get topic = some v) (other : String) :
          (m.set topic v').contains other = m.contains other := by
        rw [FinMap.contains_set]
        by_cases own : other = topic <;> simp [own, FinMap.contains, found]
      exact sound.stays (same hasChannel) (same hasWorker) sound.lasting
  · cases taken

theorem processCommand_channels {a a' : ClusterAgent} {cmd : Command} {outputs : List Output}
    (ok : a.processCommand codec cmd = .ok (a', outputs)) : a'.channels = a.channels := by
  have processed := a.processCommand_processed codec cmd
  rw [ok] at processed
  cases processed <;> rfl

theorem processNext_stays (sound : p.Sound) {outputs : List Output}
    (processed : p.processNext codec = some (p', outputs)) : p.ComesTo p' none := by
  unfold processNext at processed
  split at processed
  · cases processed
  · split at processed
    · cases processed
    · rename_i agent _ ok
      cases processed
      have same : agent.channels = p.agent.channels := processCommand_channels ok
      exact sound.stays (fun topic => congrArg (FinMap.contains · topic) same) (fun _ => rfl) sound.lasting

/-- An entry makes sure of the topic it is delivered to. -/
theorem contains_processCommittedEntry (p : Process) (entry : Entry) (configured : Configured)
    (spawn : Except String Unit) (topic : String) :
    (p.agent.processCommittedEntry codec conf
      ⟨entry.data, entry.index, entry.term, entry.type, configured.voters, configured.learners⟩
      spawn).1.channels.contains topic =
      (decide (p.deliveredTopic codec entry spawn = some topic) || p.agent.channels.contains topic) := by
  unfold ClusterAgent.processCommittedEntry deliveredTopic Entry.command
  cases entry.type with
  | confChange | confChangeV2 =>
    unfold ClusterAgent.handleConfigChange
    dsimp only
    split <;> simp
  | other => simp
  | normal =>
    cases carried : entry.data with
    | none => simp [ClusterAgent.handleNormalCommand]
    | some data =>
      cases decoded : codec.command data with
      | none => simp [ClusterAgent.handleNormalCommand, decoded]
      | some cmd =>
        dsimp only
        rw [ClusterAgent.contains_handleNormalCommand _ spawn topic rfl decoded]
        simp [decoded, Option.filter_eq_some_iff, ClusterAgent.reachable]

/-- An entry whose topic has a channel leaves the topic manager alone. -/
theorem apply_present {entry : Entry} (present : p.missingTopic codec entry = none) (conf : ConfCodec)
    (configured : Configured) (spawn : Except String Unit) (nowMilli : Int) :
    (p.apply codec conf entry configured spawn nowMilli).topics = p.topics ∧
      (p.apply codec conf entry configured spawn nowMilli).topicCmdCh = p.topicCmdCh := by
  unfold apply
  rw [present]
  exact ⟨rfl, rfl⟩

/-- Without a channel for its topic, an entry asks for a partition. -/
theorem apply_comesTo (sound : p.Sound) (entry : Entry) (configured : Configured) (spawn : Except String Unit)
    (nowMilli : Int) :
    p.ComesTo (p.apply codec conf entry configured spawn nowMilli) (p.deliveredTopic codec entry spawn) := by
  have channels (other : String) :
      (p.apply codec conf entry configured spawn nowMilli).agent.channels.contains other =
        (decide (p.deliveredTopic codec entry spawn = some other) || p.agent.channels.contains other) := by
    rw [← p.contains_processCommittedEntry entry configured spawn other]
    unfold apply
    dsimp only
    split <;> rfl
  cases destined : (entry.command codec).bind (ClusterAgent.destination p.agent.deadJobs) with
  | none =>
    have delivered : p.deliveredTopic codec entry spawn = none := by rw [deliveredTopic, destined]; rfl
    have missing : p.missingTopic codec entry = none := by rw [missingTopic, destined]; rfl
    obtain ⟨topics, queue⟩ := apply_present missing conf configured spawn nowMilli
    rw [delivered] at channels ⊢
    exact sound.stays (by simpa using channels) (fun _ => by rw [topics]) (queue ▸ sound.lasting)
  | some topic =>
    by_cases known : p.agent.channels.contains topic = true
    · have delivered : p.deliveredTopic codec entry spawn = some topic := by
        simp [deliveredTopic, destined, ClusterAgent.reachable, known]
      have missing : p.missingTopic codec entry = none := by simp [missingTopic, destined, known]
      obtain ⟨topics, queue⟩ := apply_present missing conf configured spawn nowMilli
      rw [delivered] at channels ⊢
      refine sound.opens (by simpa [eq_comm] using channels) (fun other => ?_) (queue ▸ sound.lasting)
      rw [topics]
      rw [sound.registered] at known
      by_cases own : other = topic <;> simp [own, known]
    have missing : p.missingTopic codec entry = some topic := by simp [missingTopic, destined, known]
    cases spawn with
    | ok =>
      have delivered : p.deliveredTopic codec entry (.ok ()) = some topic := by
        simp [deliveredTopic, destined, ClusterAgent.reachable, Except.isOk, Except.toBool]
      rw [delivered] at channels ⊢
      refine sound.opens (by simpa [eq_comm] using channels) ?_ ?_
      all_goals
        unfold apply
        rw [missing]
      · exact handleSpawn_contains p.topics topic 0 none nowMilli true
      · exact sound.lasting
    | error err =>
      have delivered : p.deliveredTopic codec entry (.error err) = none := by
        simp [deliveredTopic, destined, ClusterAgent.reachable, known, Except.isOk, Except.toBool]
      rw [delivered] at channels ⊢
      refine sound.stays (by simpa using channels) ?_ ?_
      all_goals
        unfold apply
        rw [missing]
      · exact fun _ => rfl
      · simp [sound.lasting]

end Process

namespace Service

variable {s s' : Service N} {node : N}

/-- The topics of a process are those it came to since its last start. -/
structure Traced (s : Service N) : Prop where
  sound : ∀ node, (s.processes node).Sound
  past : ∀ opening ∈ s.history, opening.life ≤ s.lives opening.node
  known : ∀ node topic, (s.processes node).agent.channels.contains topic = true ↔ s.Opened node topic

theorem Traced.start (names : N → String) (discovery : Discovery) (config : State.PartitionConfig) :
    (Service.start names discovery config).Traced where
  sound _ := .start _ _ _ _ _
  past _ member := by cases member
  known node topic := by
    refine iff_of_false Bool.false_ne_true ?_
    rintro ⟨_, member, _⟩
    cases member

variable [DecidableEq N]

theorem move_processes (s : Service N) (node : N) (p : Process) (opened : Option (String × How)) :
    (s.move node p opened).processes = Function.update s.processes node p := rfl

theorem opened_move {p : Process} {opened : Option (String × How)} {other : N} {topic : String} :
    (s.move node p opened).Opened other topic ↔
      s.Opened other topic ∨ other = node ∧ opened.map Prod.fst = some topic := by
  constructor
  · rintro ⟨opening, member, rfl, life, rfl⟩
    rcases List.mem_append.mp member with before | now
    · exact Or.inl ⟨opening, before, rfl, life, rfl⟩
    · obtain ⟨_, given, rfl⟩ := Option.map_eq_some_iff.mp (Option.mem_toList.mp now)
      exact Or.inr ⟨rfl, by rw [given]; rfl⟩
  · rintro (⟨opening, member, shape⟩ | ⟨rfl, given⟩)
    · exact ⟨opening, List.mem_append_left _ member, shape⟩
    · obtain ⟨⟨topic, how⟩, rfl, rfl⟩ := Option.map_eq_some_iff.mp given
      exact ⟨_, List.mem_append_right _ (List.mem_singleton_self _), rfl, rfl, rfl⟩

theorem Traced.move {p : Process} {opened : Option (String × How)} (traced : s.Traced)
    (comesTo : (s.processes node).ComesTo p (opened.map Prod.fst)) : (s.move node p opened).Traced where
  sound other := by
    rw [move_processes]
    by_cases here : other = node
    · subst here
      rw [Function.update_self]
      exact comesTo.sound
    · rw [Function.update_of_ne here]
      exact traced.sound other
  past opening member := by
    rcases List.mem_append.mp member with before | now
    · exact traced.past opening before
    · obtain ⟨_, _, rfl⟩ := Option.map_eq_some_iff.mp (Option.mem_toList.mp now)
      exact le_rfl
  known other topic := by
    rw [move_processes, opened_move, ← traced.known]
    by_cases here : other = node
    · subst here
      rw [Function.update_self, comesTo.known]
      simp
    · rw [Function.update_of_ne here]
      simp [here]

theorem restarted_processes (s : Service N) (node : N) (p : Process) :
    (s.restarted node p).processes = Function.update s.processes node p := rfl

theorem restarted_lives (s : Service N) (node : N) (p : Process) :
    (s.restarted node p).lives = Function.update s.lives node (s.lives node + 1) := rfl

/-- A process that is started again has come to no topic yet. -/
theorem Traced.restart {deadJobs : List String} {applied : Nat} {nodeID : String} {discovery : Discovery}
    {config : State.PartitionConfig} (traced : s.Traced) :
    (s.restarted node (.start nodeID discovery config deadJobs applied)).Traced where
  sound other := by
    rw [restarted_processes]
    by_cases here : other = node
    · subst here
      rw [Function.update_self]
      exact .start _ _ _ _ _
    · rw [Function.update_of_ne here]
      exact traced.sound other
  past opening member := by
    have past := traced.past opening member
    rw [restarted_lives]
    by_cases here : opening.node = node
    · rw [here] at past ⊢
      rw [Function.update_self]
      omega
    · rw [Function.update_of_ne here]
      exact past
  known other topic := by
    rw [restarted_processes, Opened, restarted_lives]
    by_cases here : other = node
    · subst here
      rw [Function.update_self, Function.update_self]
      refine iff_of_false Bool.false_ne_true ?_
      rintro ⟨opening, member, rfl, life, _⟩
      have past := traced.past opening member
      omega
    · rw [Function.update_of_ne here, Function.update_of_ne here]
      exact traced.known other topic

theorem Traced.step {op : ServiceOp N} (traced : s.Traced) (stepped : s.step codec conf op = some s') : s'.Traced := by
  have sound := traced.sound
  cases op with
  | roleChange node leaderRaftID role term =>
    cases stepped
    exact traced.move ((sound node).stays (fun _ => rfl) (fun _ => rfl) (sound node).lasting)
  | request node pair env req =>
    simp only [Service.step] at stepped
    split at stepped
    · cases stepped
    · rename_i requested
      cases stepped
      exact traced.move (Process.request_stays (sound node) requested)
  | manageTopics node nowMilli room =>
    simp only [Service.step] at stepped
    split at stepped
    · cases stepped
    · rename_i managed
      cases stepped
      refine traced.move ?_
      rw [Option.map_map]
      simpa [Function.comp_def] using Process.manageTopics_comesTo (sound node) managed
  | takeCommand node topic clock =>
    simp only [Service.step] at stepped
    split at stepped
    · cases stepped
    · rename_i taken
      cases stepped
      exact traced.move (Process.takeCommand_stays (sound node) taken)
  | topology node update =>
    cases stepped
    exact traced.move ((sound node).stays (fun _ => rfl) (fun _ => rfl) (by simp [(sound node).lasting]))
  | command node cmd =>
    cases stepped
    exact traced.move ((sound node).stays (fun _ => rfl) (fun _ => rfl) (sound node).lasting)
  | processNext node =>
    simp only [Service.step] at stepped
    split at stepped
    · cases stepped
    · rename_i processed
      cases stepped
      have moved : (s.move node _ none).Traced := traced.move (Process.processNext_stays (sound node) processed)
      exact ⟨moved.sound, moved.past, moved.known⟩
  | commit term index which =>
    simp only [Service.step] at stepped
    split at stepped
    · cases stepped
    · cases stepped
      exact ⟨traced.sound, traced.past, traced.known⟩
  | commitOther entry =>
    simp only [Service.step] at stepped
    split at stepped
    · cases stepped
    · cases stepped
      exact ⟨traced.sound, traced.past, traced.known⟩
  | apply node configured spawn nowMilli =>
    simp only [Service.step] at stepped
    split at stepped
    · split at stepped
      · cases stepped
      · cases stepped
        refine traced.move ?_
        rw [Option.map_map]
        simpa [Function.comp_def] using Process.apply_comesTo (sound node) _ configured spawn nowMilli
    · cases stepped
  | restart node deadJobs applied =>
    simp only [Service.step] at stepped
    split at stepped
    · cases stepped
      exact traced.restart
    · cases stepped

end Service

/-! ### Leaders -/

/-- `processCommand` turns the command away because its topic is not found. -/
def Rejects (codec : Codec) (a : ClusterAgent) (cmd : Command) : Prop :=
  a.processCommand codec cmd = .ok (a, ClusterAgent.respondError cmd "topic not found")

theorem rejects_iff {a : ClusterAgent} {cmd : Command} {payload : AddJobsPayload} (leads : a.isLeader = true)
    (active : a.isActive = true) (type : cmd.type = .addJobs) (carried : cmd.addJobs = some payload) :
    Rejects codec a cmd ↔ a.channels.contains payload.topic = false := by
  have named : ClusterAgent.topicOf cmd = .ok payload.topic := by simp [ClusterAgent.topicOf, type, carried]
  -- a proposal counts up, also when it cannot be encoded
  have counts {respInfo : RespInfo} : a.recorded respInfo ≠ a := by
    intro same
    have next : a.proposalID + 1 = a.proposalID := congrArg ClusterAgent.proposalID same
    simp at next
  have found (known : a.topicExist payload.topic = true) : ¬ a.channels.contains payload.topic = false := by
    rw [show a.channels.contains payload.topic = true from known]
    simp
  have processed := a.processCommand_processed codec cmd
  unfold Rejects
  generalize a.processCommand codec cmd = result at processed ⊢
  cases processed with
  | ignored passive => simp [leads, active] at passive
  | members _ _ other => simp [type] at other
  | unknownType _ _ other => cases type.symm.trans other
  | noPayload _ _ _ missing => cases named.symm.trans missing
  | noTopic _ _ _ named' missing =>
    cases named.symm.trans named'
    exact iff_of_true rfl missing
  | unasked _ _ _ named' known =>
    cases named.symm.trans named'
    exact iff_of_false (by simp) (found known)
  | unencoded _ _ _ named' known =>
    cases named.symm.trans named'
    exact iff_of_false (by simp [counts]) (found known)
  | proposed _ _ _ named' known =>
    cases named.symm.trans named'
    exact iff_of_false (by simp [counts]) (found known)

/-- In any run, whatever was acknowledged before, a process that is active as
leader turns a batch away because its topic is not found exactly if it has not
come to the topic since its own last start: it neither handled a command to spawn
it nor applied an entry for it. -/
theorem topic_rejected_iff_never_opened [DecidableEq N] (names : N → String) (discovery : Discovery)
    (config : State.PartitionConfig) {ops : List (ServiceOp N)} {s : Service N}
    (run : Run (fun s op s' => s.step codec conf op = some s') (fun _ _ _ => True)
      (.start names discovery config) ops s) (node : N)
    (leads : (s.processes node).agent.isLeader = true) (active : (s.processes node).agent.isActive = true)
    {cmd : Command} {payload : AddJobsPayload} (type : cmd.type = .addJobs) (carried : cmd.addJobs = some payload) :
    Rejects codec (s.processes node).agent cmd ↔ ¬ s.Opened node payload.topic := by
  have traced : s.Traced := by
    refine run.invariant (fun _ s => s.Traced) (.start names discovery config) ?_
    intro _ s op s' traced _ stepped
    exact traced.step stepped
  rw [rejects_iff leads active type carried, ← traced.known, Bool.not_eq_true]

/-! ### Given runs -/

/-- Two processes of one cluster. -/
private def pairOfProcesses : Service Bool :=
  .start (fun second => if second then "n2" else "n1") ⟨.empty, (FinMap.empty.set 1 "n1").set 2 "n2"⟩
    ⟨4, 3, 20, 4, 1000, 1000⟩

private def noConf : ConfCodec := ⟨fun _ => none, fun _ => none⟩

private def topicMessages : List (Bytes × Command) := [addMessage 1 .t .a]

/-- The first process leads and gets a request for the topic `t`, which its topic manager handles. -/
private def acknowledgingOps : List (ServiceOp Bool) :=
  [.roleChange false 1 .leader 1,
    .request false ⟨some 0, 0, .empty, .empty⟩ ⟨fun _ => 0, fun _ => true, true⟩
      { type := .addTopic, requestID := 7, addTopic := some ⟨"t"⟩ },
    .manageTopics false 0 true]

/-- Then the second one leads and applies its first, empty entry. -/
private def takeoverOps : List (ServiceOp Bool) :=
  [.roleChange false 2 .follower 2, .roleChange true 2 .leader 2, .commitOther ⟨2, 1, .normal, none⟩,
    .apply true {} (.ok ()) 0]

private def serviceStep (s : Service Bool) (op : ServiceOp Bool) : Option (Service Bool) :=
  s.step (wireCodec topicMessages) noConf op

private theorem takeover_executes :
    ((acknowledgingOps ++ takeoverOps).foldlM serviceStep pairOfProcesses).isSome = true := rfl

/-- The topic is acknowledged, and the next leader, which has applied the whole
log, does not find it. -/
theorem acknowledged_topic_not_found : ∃ (ops : List (ServiceOp Bool)) (s : Service Bool) (cmd : Command),
    Run (fun s op s' => s.step (wireCodec topicMessages) noConf op = some s') (fun _ _ _ => True) pairOfProcesses ops s ∧
      s.Acknowledged "t" ∧ (s.processes true).agent.isLeader = true ∧ (s.processes true).agent.isActive = true ∧
      (s.processes true).applied = s.log.length ∧ cmd.type = .addJobs ∧
      cmd.addJobs = some ⟨"t", [⟨"a", "t", [], false, 0⟩]⟩ ∧
      (s.processes true).agent.processCommand (wireCodec topicMessages) cmd = .ok ((s.processes true).agent,
        [.respond 0 ⟨8, .error, "topic not found", []⟩]) :=
  ⟨acknowledgingOps ++ takeoverOps, Option.get _ takeover_executes,
    { type := .addJobs, proposeID := 0, respInfo := some ⟨8, some 0⟩,
      addJobs := some ⟨"t", [⟨"a", "t", [], false, 0⟩]⟩ },
    Run.of_execute (fun _ _ _ _ taken => ⟨trivial, taken⟩) (Option.some_get _).symm,
    ⟨⟨false, 0, "t", .spawned (some (0, ⟨7, .success, "", []⟩))⟩, List.mem_singleton_self _, rfl, 0, 7, rfl⟩,
    rfl, rfl, rfl, rfl, rfl, rfl⟩

/-- A batch for the topic is committed and applied by both before the second process leads. -/
private def usedOps : List (ServiceOp Bool) :=
  [.request false ⟨some 0, 0, .empty, .empty⟩ ⟨fun _ => 0, fun _ => true, true⟩
      { type := .addJobs, requestID := 8, addJobs := some ⟨"t", [⟨"a", "t", [], false, 0⟩]⟩ },
    .processNext false, .commit 1 1 0, .apply false {} (.ok ()) 0, .apply true {} (.ok ()) 0,
    .roleChange false 2 .follower 2, .roleChange true 2 .leader 2]

private theorem used_executes :
    ((acknowledgingOps ++ usedOps).foldlM serviceStep pairOfProcesses).isSome = true := rfl

/-- A topic that has a job in the log is found by the next leader. -/
theorem used_topic_found : ∃ s : Service Bool, s.Acknowledged "t" ∧ (s.processes true).agent.isLeader = true ∧
    ¬ Rejects (wireCodec topicMessages) (s.processes true).agent
      { type := .addJobs, proposeID := 0, respInfo := some ⟨9, some 0⟩,
        addJobs := some ⟨"t", [⟨"a", "t", [], false, 0⟩]⟩ } :=
  ⟨Option.get _ used_executes,
    ⟨⟨false, 0, "t", .spawned (some (0, ⟨7, .success, "", []⟩))⟩, List.mem_cons_self, rfl, 0, 7, rfl⟩, rfl,
    (topic_rejected_iff_never_opened _ _ _
      (Run.of_execute (fun _ _ _ _ taken => ⟨trivial, taken⟩) (Option.some_get used_executes).symm) true rfl rfl rfl
      rfl).not.mpr (not_not.mpr ⟨⟨true, 0, "t", .delivered 0⟩, by decide, rfl, rfl, rfl⟩)⟩

end Cue.Cmd
