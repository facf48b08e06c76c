import Cue.Cluster.Agent
import Cue.Proxy.Gateway
import Cue.State.TopicManager

/-! `cmd/serve.go`: the gateway, the topic manager and the cluster agent of one
process and the channels between them. The agent and the topic manager share the
command router, which gets and loses a topic together with the manager's maps.
Each goroutine takes one thing from its channel at a time; the goroutines of the
partitions are here only as the readers of their command channels. -/
namespace Cue.Cmd
open Cue.Lib Cue.Model Cue.Cluster

structure Process where
  agent : ClusterAgent
  topics : State.TopicManager
  topicCmdCh : List State.TopicCommand
  toClusterCh : List Command
  /-- how many entries of the log were applied -/
  applied : Nat
  /-- the goroutine that applies entries has not ended -/
  running : Bool

namespace Process

/-- A process that was just started has no topics. -/
def start (nodeID : String) (discovery : Discovery) (config : State.PartitionConfig) (deadJobs : List String)
    (applied : Nat) : Process where
  agent := .new nodeID discovery .empty deadJobs
  topics := .new config
  topicCmdCh := []
  toClusterCh := []
  applied := applied
  running := true

/-! ### The gateway -/

/-- The command on the topic manager's side; a topology without an update is ignored there. -/
def topicCommand (cmd : Proxy.TopicCommand) : State.TopicCommand :=
  match cmd.type with
  | .spawn => .spawn cmd.topic cmd.requestID cmd.respCh
  | .kill => .kill cmd.topic cmd.requestID cmd.respCh
  | .proxyTopology => .topology none

def send (p : Process) : Proxy.InboundEffect → Process
  | .topicCommand cmd => { p with topicCmdCh := p.topicCmdCh ++ [topicCommand cmd] }
  | .toCluster cmd => { p with toClusterCh := p.toClusterCh ++ [cmd] }
  | .heartbeat _ _ | .loopback _ | .cancelRead | .closeStream => p

/-- A request on an inbound connection, whose pair reads the agent's status. -/
def request (p : Process) (pair : Proxy.ConnectionPair) (env : Proxy.InboundEnv) (req : ProxyRequest) :
    Option Process :=
  match { pair with status := p.agent.status }.runInboundHandler env req with
  | .error _ => none
  | .ok effects => some (effects.foldl send p)

/-! ### The topic manager -/

/-- One iteration of `TopicManager.Run`, and the answer. A topic that is spawned
gets a new command channel. -/
def manageTopics (p : Process) (nowMilli : Int) (room : Bool) : Option (Process × Option (Nat × ToProducerResponse)) :=
  match p.topicCmdCh with
  | [] => none
  | .spawn topic requestID respCh :: rest =>
    let channels :=
      if p.topics.workers.contains topic then p.agent.channels else p.agent.channels.set topic []
    let (topics, res) := p.topics.handleSpawn topic requestID respCh nowMilli room
    some ({ p with agent := { p.agent with channels := channels }, topics := topics, topicCmdCh := rest }, res)
  | .kill topic requestID respCh :: rest =>
    let channels :=
      if p.topics.workers.contains topic then p.agent.channels.delete topic else p.agent.channels
    let (topics, res) := p.topics.handleKill topic requestID respCh room
    some ({ p with agent := { p.agent with channels := channels }, topics := topics, topicCmdCh := rest }, res)
  | .topology update :: rest =>
    some ({ p with topics := p.topics.broadcastTopologyUpdate update, topicCmdCh := rest }, none)
  | .unknown requestID respCh :: rest =>
    some ({ p with topicCmdCh := rest }, State.TopicManager.answer requestID respCh room .error "invalid payload")

/-- A partition takes a command from its channel. -/
def takeCommand (p : Process) (topic : String) (clock : Nat → State.Clock) : Option Process :=
  match p.agent.channels.get topic, p.topics.workers.get topic with
  | some (cmd :: rest), some worker =>
    match worker.work (.command cmd clock) with
    | none => none
    | some worker => some { p with
        agent := { p.agent with channels := p.agent.channels.set topic rest }
        topics := { p.topics with workers := p.topics.workers.set topic worker } }
  | _, _ => none

/-! ### The agent -/

/-- The agent takes a command of a client. A panic ends the process. -/
def processNext (codec : Codec) (p : Process) : Option (Process × List Output) :=
  match p.toClusterCh with
  | [] => none
  | cmd :: rest =>
    match p.agent.processCommand codec cmd with
    | .error _ => none
    | .ok (agent, outputs) => some ({ p with agent := agent, toClusterCh := rest }, outputs)

/-- The topic whose channel `ensureChannel` does not find. -/
def missingTopic (codec : Codec) (p : Process) (entry : Entry) : Option String :=
  ((entry.command codec).bind (ClusterAgent.destination p.agent.deadJobs)).filter fun topic =>
    !p.agent.channels.contains topic

/-- An entry is applied. If its topic has no channel, `ensureChannel` sends a
command to spawn it, with a response channel of its own. The topic manager handles
that while `ensureChannel` waits; if it does so too late, the command is still there. -/
def apply (codec : Codec) (conf : ConfCodec) (p : Process) (entry : Entry) (configured : Configured)
    (spawn : Except String Unit) (nowMilli : Int) : Process :=
  let (agent, err) := p.agent.processCommittedEntry codec conf
    ⟨entry.data, entry.index, entry.term, entry.type, configured.voters, configured.learners⟩ spawn
  let p' := { p with agent := agent, applied := p.applied + 1, running := err.isNone }
  match p.missingTopic codec entry, spawn with
  | none, _ => p'
  | some topic, .ok _ => { p' with topics := (p.topics.handleSpawn topic 0 none nowMilli true).1 }
  | some topic, .error _ => { p' with topicCmdCh := p.topicCmdCh ++ [.spawn topic 0 none] }

end Process
end Cue.Cmd
