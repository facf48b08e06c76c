import Cue.State.Partition

/-! `internal/state/topic_manager.go`: the goroutine that starts and stops the
topics' partitions and passes on to them which proxies are connected, together
with the goroutines of the partitions. The map `stopChs`, the map `topologyChs`
and the two routers get and lose a topic together, so they are one map here.
`Stop`, metrics and log lines are left out. -/
namespace Cue.State
open Cue.Lib Cue.Model

/-- `TopicCommand`, by its type. An answer goes to the channel, if there is one. -/
inductive TopicCommand where
  | spawn (topic : String) (requestID : UInt32) (respCh : Option Nat)
  | kill (topic : String) (requestID : UInt32) (respCh : Option Nat)
  | topology (update : Option Partition.TopologyUpdate)
  | unknown (requestID : UInt32) (respCh : Option Nat)
  deriving DecidableEq, Repr

/-- The goroutine of a partition: what waits on its `topologyCh`, and the update
that it has received and not yet handled. -/
structure Worker where
  partition : Partition
  topologyCh : List Partition.TopologyUpdate
  handling : Option Partition.TopologyUpdate
  deriving DecidableEq

namespace Worker

/-- The case of `Run` that receives from `topologyCh`. -/
def receive (w : Worker) : Option Worker :=
  match w.handling, w.topologyCh with
  | none, update :: rest => some { w with topologyCh := rest, handling := some update }
  | _, _ => none

def handle (w : Worker) : Option Worker :=
  match w.handling with
  | some update => some { w with partition := w.partition.handleTopologyUpdate update, handling := none }
  | none => none

/-- Every other case of `Run`. A panic ends the process. -/
def work (w : Worker) (op : Partition.Op) : Option Worker :=
  match w.handling, op with
  | some _, _ | none, .topology _ => none
  | none, op =>
    match w.partition.step op with
    | .ok (p, _) => some { w with partition := p }
    | .error _ => none

end Worker

structure TopicManager where
  config : PartitionConfig
  workers : FinMap String Worker
  /-- the update `add` that is kept for a proxy: its push channel -/
  currentTopology : FinMap String (Option PushCh)
  deriving DecidableEq

namespace TopicManager

def new (config : PartitionConfig) : TopicManager where
  config := config
  workers := .empty
  currentTopology := .empty

/-- The capacity of a `topologyCh`. -/
def topologyCapacity : Nat := 64

/-- The answer to a command, if it wants one and the channel has room for it. -/
def answer (requestID : UInt32) (respCh : Option Nat) (room : Bool) (status : ToProducerRespStatus) (error : String) :
    Option (Nat × ToProducerResponse) :=
  match respCh with
  | some ch => if room then some (ch, ⟨requestID, status, error, []⟩) else none
  | none => none

/-- A new partition that has learned the proxies known so far. -/
def startPartition (tm : TopicManager) (topic : String) (nowMilli : Int) : Worker where
  partition := tm.currentTopology.pairs.foldl (fun p (proxyID, pushCh) => p.handleTopologyUpdate (.add proxyID pushCh))
    (Partition.new topic tm.config nowMilli)
  topologyCh := []
  handling := none

def handleSpawn (tm : TopicManager) (topic : String) (requestID : UInt32) (respCh : Option Nat) (nowMilli : Int)
    (room : Bool) : TopicManager × Option (Nat × ToProducerResponse) :=
  if tm.workers.contains topic then (tm, answer requestID respCh room .error "topic already exists")
  else
    ({ tm with workers := tm.workers.set topic (tm.startPartition topic nowMilli) },
      answer requestID respCh room .success "")

def handleKill (tm : TopicManager) (topic : String) (requestID : UInt32) (respCh : Option Nat) (room : Bool) :
    TopicManager × Option (Nat × ToProducerResponse) :=
  if tm.workers.contains topic then
    ({ tm with workers := tm.workers.delete topic }, answer requestID respCh room .success "")
  else (tm, answer requestID respCh room .error "topic not found")

/-! `broadcastTopologyUpdate` in two parts, since the partitions go on while it runs. -/

/-- The part under `topologyMu`. -/
def recordUpdate (tm : TopicManager) : Partition.TopologyUpdate → TopicManager
  | .add proxyID pushCh => { tm with currentTopology := tm.currentTopology.set proxyID pushCh }
  | .remove proxyID => { tm with currentTopology := tm.currentTopology.delete proxyID }

/-- One iteration of the loop over `topologyChs`, and whether the channel had room. -/
def offer (tm : TopicManager) (topic : String) (update : Partition.TopologyUpdate) : TopicManager × Bool :=
  match tm.workers.get topic with
  | some w =>
    if w.topologyCh.length < topologyCapacity then
      ({ tm with workers := tm.workers.set topic { w with topologyCh := w.topologyCh ++ [update] } }, true)
    else (tm, false)
  | none => (tm, false)

/-- The whole of it, when nothing comes between. -/
def broadcastTopologyUpdate (tm : TopicManager) : Option Partition.TopologyUpdate → TopicManager
  | none => tm
  | some update =>
    (tm.recordUpdate update).workers.keys.foldl (fun tm topic => (tm.offer topic update).1) (tm.recordUpdate update)

end TopicManager
end Cue.State
