import Cue.State.DLQBuffer
import Cue.State.ProxyMap

/-! `internal/state/partition.go`: one topic's jobs. Commands come from the
committed log on every node; dispatching and dead-letter flushing are local
and only an active leader dispatches. What a step reads from outside (clock,
node status, channel fill, whether a non-blocking send found room) is an
argument of the step. Metrics and log lines are left out. -/
namespace Cue.State
open Cue.Lib Cue.Model

structure PartitionConfig where
  activeQueueCapacity : Nat
  maxRetries : Int
  maxBackoffSec : Int
  dispatchBatchSize : Int
  dlqMaxBytes : Int
  dlqMaxAgeMs : Int
  deriving DecidableEq, Repr

/-- A proxy's push channel: which one it is, and its capacity. -/
structure PushCh where
  id : Nat
  cap : Nat
  deriving DecidableEq, Repr

structure Partition where
  topic : String
  config : PartitionConfig
  jobStore : JobStore
  processQueue : ProcessQueue
  proxyMap : ProxyMap
  dlqBuffer : DLQBuffer
  proxyPushChs : FinMap String PushCh
  deriving DecidableEq

/-- Readings of the two clocks a step looks at. -/
structure Clock where
  nowMilli : Int
  nowSec : Int
  deriving DecidableEq, Repr

namespace Partition

def new (topic : String) (config : PartitionConfig) (nowMilli : Int) : Partition where
  topic := topic
  config := config
  jobStore := .new (config.activeQueueCapacity + config.maxBackoffSec * config.maxRetries).toNat
  processQueue := .new config.activeQueueCapacity
  proxyMap := .new
  dlqBuffer := .new config.dlqMaxBytes config.dlqMaxAgeMs nowMilli
  proxyPushChs := .empty

/-! ### Commands -/

/-- What became of one job of an `AddJobs` batch. -/
inductive AddOutcome where
  | alreadyDone
  | duplicate
  | queueFull
  | accepted (idx : Nat)
  deriving DecidableEq, Repr

/-- A job that says no creation time gets the current one. -/
def stamped (job : Job) (nowMilli : Int) : Job :=
  if job.createdAt = 0 then { job with createdAt := nowMilli } else job

/-- One iteration of the loop of `handleAddJobs`. -/
def addJob (p : Partition) (job : Job) (clock : Clock) : Except Panic (Partition × AddOutcome) :=
  if job.done then .ok (p, .alreadyDone)
  else
    match p.jobStore.create (stamped job clock.nowMilli) with
    | .error panicked => .error panicked
    | .ok none => .ok (p, .duplicate)
    | .ok (some (idx, js)) =>
      match p.processQueue.addNewJob ⟨idx, 0, 0, clock.nowSec⟩ with
      | some pq => .ok ({ p with jobStore := js, processQueue := pq }, .accepted idx)
      | none =>
        match js.release idx with
        | .error panicked => .error panicked
        | .ok js => .ok ({ p with jobStore := js }, .queueFull)

/-- The whole loop; `clock i` is read while the `i`-th job is added. -/
def addJobs (p : Partition) : List Job → (Nat → Clock) → Except Panic (Partition × List (String × AddOutcome))
  | [], _ => .ok (p, [])
  | job :: jobs, clock =>
    match p.addJob job (clock 0) with
    | .error panicked => .error panicked
    | .ok (p, outcome) =>
      match p.addJobs jobs fun i => clock (i + 1) with
      | .error panicked => .error panicked
      | .ok (p, outcomes) => .ok (p, (job.id, outcome) :: outcomes)

/-- The slots of the jobs that were created and queued, with their IDs. -/
def acceptedJobs (outcomes : List (String × AddOutcome)) : List (String × Nat) :=
  outcomes.filterMap fun (id, outcome) =>
    match outcome with
    | .accepted idx => some (id, idx)
    | _ => none

def failures (outcomes : List (String × AddOutcome)) : List JobFailure :=
  outcomes.filterMap fun (id, outcome) =>
    match outcome with
    | .queueFull => some ⟨id, .queueFull⟩
    | _ => none

/-- What a command leaves behind: the partition, the jobs it accepted, and the
answer offered to the response channel, if there is one. -/
structure Handled where
  partition : Partition
  accepted : List (String × Nat) := []
  reply : Option ToProducerResponse := none
  deriving DecidableEq

/-- An answer goes out only to a command that carries a response channel. -/
def answer (cmd : Command) (status : ToProducerRespStatus) (error : String)
    (failures : List JobFailure) : Option ToProducerResponse :=
  match cmd.respInfo with
  | some ⟨requestID, some _⟩ => some ⟨requestID, status, error, failures⟩
  | _ => none

def handleAddJobs (p : Partition) (cmd : Command) (clock : Nat → Clock) : Except Panic Handled :=
  match cmd.addJobs with
  | none => .ok { partition := p, reply := answer cmd .error "invalid payload" [] }
  | some payload =>
    match p.addJobs payload.jobs clock with
    | .error panicked => .error panicked
    | .ok (p, outcomes) =>
      let failed := failures outcomes
      .ok {
        partition := p
        accepted := acceptedJobs outcomes
        reply := if failed = [] then answer cmd .success "" [] else answer cmd .error "" failed }

def markDoneAll (js : JobStore) (jobIDs : List String) : Except Panic JobStore :=
  jobIDs.foldlM JobStore.markDone js

def handleDone (p : Partition) (cmd : Command) : Except Panic Handled :=
  match cmd.done with
  | none => .ok { partition := p, reply := answer cmd .error "invalid payload" [] }
  | some payload =>
    match markDoneAll p.jobStore payload.jobIDs with
    | .error panicked => .error panicked
    | .ok js => .ok { partition := { p with jobStore := js }, reply := answer cmd .success "" [] }

def forceReleaseAll (js : JobStore) (jobIDs : List String) : Except Panic JobStore :=
  jobIDs.foldlM JobStore.forceRelease js

def handleDrop (p : Partition) (cmd : Command) : Except Panic Handled :=
  match cmd.drop with
  | none => .ok { partition := p, reply := answer cmd .error "invalid payload" [] }
  | some payload =>
    match forceReleaseAll p.jobStore payload.jobIDs with
    | .error panicked => .error panicked
    | .ok js => .ok { partition := { p with jobStore := js }, reply := answer cmd .success "" [] }

def handleCommand (p : Partition) (cmd : Command) (clock : Nat → Clock) : Except Panic Handled :=
  match cmd.type with
  | .addJobs => p.handleAddJobs cmd clock
  | .done => p.handleDone cmd
  | .drop => p.handleDrop cmd
  | _ => .ok { partition := p, reply := answer cmd .error "unknown command" [] }

/-! ### Proxies -/

inductive TopologyUpdate where
  | add (proxyID : String) (pushCh : Option PushCh)
  | remove (proxyID : String)
  deriving DecidableEq, Repr

def handleTopologyUpdate (p : Partition) : TopologyUpdate → Partition
  | .add proxyID (some pushCh) => { p with proxyPushChs := p.proxyPushChs.set proxyID pushCh }
  | .add _ none => p
  | .remove proxyID => { p with proxyPushChs := p.proxyPushChs.delete proxyID }

def handleHeartbeat (p : Partition) (hb : ProxyHeartbeat) : Except Panic Partition :=
  if hb.topic ≠ p.topic then .ok p
  else
    match p.proxyMap.update hb.proxyID hb.consumptionScore hb.timestamp with
    | .error panicked => .error panicked
    | .ok pm => .ok { p with proxyMap := pm }

def cleanupProxyMap (p : Partition) (now : Int) (order rebuildOrder : List String) :
    Except Panic Partition :=
  match p.proxyMap.cleanupStale now 5 order rebuildOrder with
  | .error panicked => .error panicked
  | .ok pm => .ok { p with proxyMap := pm }

/-! ### Dispatch -/

def calculateRetryDelaySec (p : Partition) (retryCount : Int) : Int :=
  if retryCount ≤ 0 then 1
  else
    let delaySec :=
      if retryCount = 1 then 3
      else if retryCount = 2 then 6
      else if retryCount = 3 then 10
      else if retryCount = 4 then 15
      else 20
    let delaySec :=
      if p.config.maxBackoffSec > 0 ∧ delaySec > p.config.maxBackoffSec then p.config.maxBackoffSec
      else delaySec
    if delaySec < 1 then 1 else delaySec

/-- What the classification loop of `dispatch` has collected. -/
structure Classified where
  dlqBuffer : DLQBuffer
  jobStore : JobStore
  jobSlice : List Job := []
  validRefs : List JobRef := []
  removeCells : List JobRef := []
  deriving DecidableEq

def classifyItem (maxRetries : Int) (c : Classified) (item : JobRef) : Except Panic Classified :=
  match c.jobStore.get item.slot with
  | none => .ok { c with removeCells := c.removeCells ++ [item] }
  | some job =>
    if job.done then .ok { c with removeCells := c.removeCells ++ [item] }
    else if item.retryCount ≥ maxRetries then
      match c.dlqBuffer.add c.jobStore item job.data.length job.done with
      | .error panicked => .error panicked
      | .ok (dlq, js) =>
        .ok { c with dlqBuffer := dlq, jobStore := js, removeCells := c.removeCells ++ [item] }
    else .ok { c with jobSlice := c.jobSlice ++ [job], validRefs := c.validRefs ++ [item] }

def classify (p : Partition) (items : List JobRef) : Except Panic Classified :=
  items.foldlM (classifyItem p.config.maxRetries) { dlqBuffer := p.dlqBuffer, jobStore := p.jobStore }

/-- What a dispatch reads from outside: the node status, the fill of the push
channel, the clock, whether the batch could be encoded, whether the push
channel took it, and the clock again at each retry update. -/
structure DispatchEnv where
  status : UInt32
  chLen : Nat
  nowSec : Int
  marshals : Bool
  sent : Bool
  updateSec : Nat → Int

/-- A batch put on a proxy's push channel. -/
structure SentBatch where
  proxyID : String
  jobs : List Job
  deriving DecidableEq, Repr

/-- The retry bookkeeping of a sent batch. -/
def updateRetries (p : Partition) (refs : List JobRef) (updateSec : Nat → Int) : ProcessQueue :=
  refs.zipIdx.foldl (fun pq (ref, i) =>
    pq.updateRetry ref.cell (ref.retryCount + 1) (p.calculateRetryDelaySec (ref.retryCount + 1))
      (updateSec i)) p.processQueue

/-- `dispatch` from the classification of the records it read on. The dead
records are removed whether or not a batch goes out. -/
def dispatchItems (p : Partition) (proxyID : String) (items : List JobRef) (env : DispatchEnv) :
    Except Panic (Partition × Option SentBatch) :=
  match p.classify items with
  | .error panicked => .error panicked
  | .ok c =>
    let p := { p with dlqBuffer := c.dlqBuffer, jobStore := c.jobStore }
    if c.jobSlice ≠ [] ∧ env.marshals ∧ env.sent then
      .ok ({ p with processQueue := (p.updateRetries c.validRefs env.updateSec).removeCells c.removeCells },
        some ⟨proxyID, c.jobSlice⟩)
    else .ok ({ p with processQueue := p.processQueue.removeCells c.removeCells }, none)

def batchSize (p : Partition) (consumerCount chCapacity : Int) : Int :=
  min (min (int64 (consumerCount * p.config.dispatchBatchSize)) chCapacity) 4096

/-- The first part of `dispatch`: the proxy whose turn it is and the records
read for it, if this node dispatches at all and the proxy's channel has room. -/
def selectBatch (p : Partition) (env : DispatchEnv) :
    Except Panic (ProxyMap × Option (String × List JobRef)) :=
  if clusterNodeStatusFromUint32 env.status ≠ .leaderActive ∨ p.proxyMap.available = [] then
    .ok (p.proxyMap, none)
  else
    match p.proxyMap.getNextAvailable with
    | .error panicked => .error panicked
    | .ok (none, pm) => .ok (pm, none)
    | .ok (some (proxyID, consumerCount), pm) =>
      if consumerCount ≤ 0 then .ok (pm, none)
      else
        match p.proxyPushChs.get proxyID with
        | none => .ok (pm, none)
        | some pushCh =>
          let chCapacity := (pushCh.cap : Int) - env.chLen
          if chCapacity ≤ 0 then .ok (pm, none)
          else
            let items := p.processQueue.readBatch (p.batchSize consumerCount chCapacity) env.nowSec
            .ok (pm, if items = [] then none else some (proxyID, items))

def dispatch (p : Partition) (env : DispatchEnv) : Except Panic (Partition × Option SentBatch) :=
  match p.selectBatch env with
  | .error panicked => .error panicked
  | .ok (pm, none) => .ok ({ p with proxyMap := pm }, none)
  | .ok (pm, some (proxyID, items)) => { p with proxyMap := pm }.dispatchItems proxyID items env

/-! ### Dead letters -/

/-- `flushDLQ`: the drop command that reached `dropProposalCh`, if the channel
had room (`room`) for it. -/
def flushDLQ (p : Partition) (now : Int) (room : Bool) : Except Panic (Partition × Option Command) :=
  match p.dlqBuffer.flush p.jobStore now with
  | .error panicked => .error panicked
  | .ok (drops, dlq, js) =>
    let p := { p with dlqBuffer := dlq, jobStore := js }
    if drops = [] ∨ ¬ room then .ok (p, none)
    else .ok (p, some {
      type := .drop
      drop := some ⟨p.topic, drops.map DropProposal.jobID⟩ })

def flushDLQIfNeeded (p : Partition) (now : Int) (room : Bool) :
    Except Panic (Partition × Option Command) :=
  if p.dlqBuffer.shouldFlush now then p.flushDLQ now room else .ok (p, none)

/-! ### The main loop -/

/-- What `Run` can be woken for. The ticker's case is a dispatch followed by a
flush; the stop case is a flush. The partition's own heartbeat only reads. -/
inductive Op where
  | command (cmd : Command) (clock : Nat → Clock)
  | dispatch (env : DispatchEnv)
  | flush (now : Int) (room : Bool)
  | topology (update : TopologyUpdate)
  | heartbeat (hb : ProxyHeartbeat)
  | cleanup (now : Int) (order rebuildOrder : List String)

/-- What a step shows outside: the jobs accepted, with their slots, and the
drop command put on `dropProposalCh`. -/
structure Effect where
  accepted : List (String × Nat) := []
  proposed : Option Command := none
  deriving DecidableEq

def step (p : Partition) : Op → Except Panic (Partition × Effect)
  | .command cmd clock => do
    let handled ← p.handleCommand cmd clock
    pure (handled.partition, { accepted := handled.accepted })
  | .dispatch env => do
    let (p, _) ← p.dispatch env
    pure (p, {})
  | .flush now room => do
    let (p, cmd) ← p.flushDLQIfNeeded now room
    pure (p, { proposed := cmd })
  | .topology update => pure (p.handleTopologyUpdate update, {})
  | .heartbeat hb => do
    let p ← p.handleHeartbeat hb
    pure (p, {})
  | .cleanup now order rebuildOrder => do
    let p ← p.cleanupProxyMap now order rebuildOrder
    pure (p, {})

end Partition
end Cue.State
