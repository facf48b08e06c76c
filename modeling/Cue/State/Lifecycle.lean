import Cue.State.TopicManager

/-! `internal/state/topic_manager.go` together with `internal/state/handler.go` and
`router.go`: the goroutine of the topic manager, the goroutines of the partitions
it starts and stops, and `handleCommittedEntries`, which hands the committed commands
to them one by one and has a topic started that it does not find. A step is one
critical section or one channel operation, so the maps of the manager and the
routers are apart here.

A partition is known by its number in the order of creation, and so are its
channels. What a partition does with a command, and the topology, are in
`State/Partition.lean` and `State/TopicManager.lean`. Sleeps, metrics and log
lines are left out. -/
namespace Cue.State
open Cue.Lib Cue.Model

namespace Lifecycle

/-- Where an answer goes: the channel that a call of `ensureChannel` made, or another one. -/
inductive RespCh where
  | call (number : Nat)
  | other (channel : Nat)
  deriving DecidableEq, Repr

/-- `TopicCommand`, by its type. -/
inductive Request where
  | spawn (topic : String) (requestID : UInt32) (respCh : Option RespCh)
  | kill (topic : String) (requestID : UInt32) (respCh : Option RespCh)
  | topology
  | unknown (requestID : UInt32) (respCh : Option RespCh)
  deriving DecidableEq, Repr

def Request.respCh : Request → Option RespCh
  | .spawn _ _ respCh | .kill _ _ respCh | .unknown _ respCh => respCh
  | .topology => none

inductive RunPlace where
  | created
  | running
  | returned
  deriving DecidableEq, Repr

/-- A partition's goroutine: what waits on its command channel, what it has taken
from there, and whether its stop channel is closed. -/
structure PartitionRun where
  topic : String
  place : RunPlace := .created
  commandCh : List Command := []
  taken : List Command := []
  stopClosed : Bool := false
  deriving DecidableEq, Repr

/-- The spawn or kill in progress. -/
structure Pending where
  topic : String
  requestID : UInt32
  respCh : Option RespCh
  number : Nat
  deriving DecidableEq, Repr

/-- Where the manager stands: what it does next. -/
inductive ManagerPlace where
  | idle
  | registerCommands (pending : Pending)
  | registerHeartbeats (pending : Pending)
  | start (pending : Pending)
  | unregisterCommands (pending : Pending)
  | unregisterHeartbeats (pending : Pending)
  | forget (pending : Pending)
  | closeCommands
  | returned
  deriving DecidableEq, Repr

inductive ProcessError where
  | cancelled
  | spawnFailed (error : String)
  | channelUnavailable
  deriving DecidableEq, Repr

/-- What ends `handleCommittedEntries`, which recovers from a panic and returns. -/
inductive HandlerEnd where
  | failed (err : ProcessError)
  | sendOnClosed
  | deadlocked
  deriving DecidableEq, Repr

/-- Where `handleCommittedEntries` stands: between two calls of `ProcessCommand`, or in one. -/
inductive HandlerPlace where
  | idle
  | asking (topic : String) (cmd : Command)
  | waiting (topic : String) (cmd : Command) (call : Nat) (retries : Nat) (answer : Option ToProducerResponse)
  | sending (topic : String) (cmd : Command) (number : Nat)
  | ended (cause : HandlerEnd)
  deriving DecidableEq, Repr

/-- After a call that failed: `handleNormalCommand` returns the error for a `Done`
alone, and the caller panics then. -/
def HandlerPlace.afterError (cmd : Command) (err : ProcessError) : HandlerPlace :=
  if cmd.type = .done then .ended (.failed err) else .idle

/-- The panics that nobody recovers from, of the manager and of the gateway. -/
inductive Crash where
  | doubleClose
  | sendOnClosed
  deriving DecidableEq, Repr

end Lifecycle

open Lifecycle in
structure Lifecycle where
  cmdCh : List Request
  cmdClosed : Bool
  stopChs : FinMap String Nat
  topologyChs : FinMap String Nat
  cmdRouter : FinMap String Nat
  hbRouter : FinMap String Nat
  partitions : List PartitionRun
  manager : ManagerPlace
  handler : HandlerPlace
  /-- how many calls of `ensureChannel` have asked for a topic -/
  calls : Nat
  /-- the commands for which `ProcessCommand` returned nil, in order -/
  processed : List (String × Command)
  /-- the commands for which it returned an error, in order -/
  failed : List (String × Command × ProcessError)
  cancelled : Bool
  crashed : Option Crash

namespace Lifecycle

def new : Lifecycle where
  cmdCh := []
  cmdClosed := false
  stopChs := .empty
  topologyChs := .empty
  cmdRouter := .empty
  hbRouter := .empty
  partitions := []
  manager := .idle
  handler := .idle
  calls := 0
  processed := []
  failed := []
  cancelled := false
  crashed := none

/-- The capacities of `topicCmdCh` and of a partition's command channel. -/
def cmdCap : Nat := 1024
def commandBuffer : Nat := 1000

def errTopicExists : String := "topic already exists"

/-! ### The topic manager -/

/-- A non-blocking send. The channel of a call has room for its one answer; a call
that is over does not look at it any more. -/
def respond (s : Lifecycle) (respCh : Option RespCh) (res : ToProducerResponse) : Lifecycle :=
  match respCh, s.handler with
  | some (.call number), .waiting topic cmd call retries none =>
    if number = call then { s with handler := .waiting topic cmd call retries (some res) } else s
  | _, _ => s

def closeStop (s : Lifecycle) (number : Nat) : Lifecycle :=
  match s.partitions[number]? with
  | none => s
  | some p =>
    if p.stopClosed then { s with crashed := some .doubleClose }
    else { s with partitions := s.partitions.set number { p with stopClosed := true } }

/-- `handleSpawn` up to the routers. -/
def beginSpawn (s : Lifecycle) (topic : String) (requestID : UInt32) (respCh : Option RespCh) : Lifecycle :=
  if s.stopChs.contains topic then s.respond respCh ⟨requestID, .error, errTopicExists, []⟩
  else
    let number := s.partitions.length
    { s with
      stopChs := s.stopChs.set topic number
      topologyChs := s.topologyChs.set topic number
      partitions := s.partitions ++ [{ topic := topic }]
      manager := .registerCommands ⟨topic, requestID, respCh, number⟩ }

/-- `handleKill` up to the routers. -/
def beginKill (s : Lifecycle) (topic : String) (requestID : UInt32) (respCh : Option RespCh) : Lifecycle :=
  match s.stopChs.get topic with
  | none => s.respond respCh ⟨requestID, .error, "topic not found", []⟩
  | some number => { s.closeStop number with manager := .unregisterCommands ⟨topic, requestID, respCh, number⟩ }

def handle (s : Lifecycle) : Request → Lifecycle
  | .spawn topic requestID respCh => s.beginSpawn topic requestID respCh
  | .kill topic requestID respCh => s.beginKill topic requestID respCh
  | .topology => s
  | .unknown requestID respCh => s.respond respCh ⟨requestID, .error, "invalid payload", []⟩

/-- `go partition.Run()`, and the answer. -/
def startPartition (s : Lifecycle) (pending : Pending) : Lifecycle :=
  let s := { s with
    partitions := s.partitions.modify pending.number fun p => { p with place := .running }
    manager := .idle }
  s.respond pending.respCh ⟨pending.requestID, .success, "", []⟩

def forgetPartition (s : Lifecycle) (pending : Pending) : Lifecycle :=
  let s := { s with
    stopChs := s.stopChs.delete pending.topic
    topologyChs := s.topologyChs.delete pending.topic
    manager := .idle }
  s.respond pending.respCh ⟨pending.requestID, .success, "", []⟩

/-- The next step of the manager, when its context is not looked at. -/
def manage (s : Lifecycle) : Option Lifecycle :=
  match s.manager with
  | .idle =>
    match s.cmdCh with
    | [] => none
    | request :: rest => some ({ s with cmdCh := rest }.handle request)
  | .registerCommands pending => some { s with
      cmdRouter := s.cmdRouter.set pending.topic pending.number
      manager := .registerHeartbeats pending }
  | .registerHeartbeats pending => some { s with
      hbRouter := s.hbRouter.set pending.topic pending.number
      manager := .start pending }
  | .start pending => some (s.startPartition pending)
  | .unregisterCommands pending => some { s with
      cmdRouter := s.cmdRouter.delete pending.topic
      manager := .unregisterHeartbeats pending }
  | .unregisterHeartbeats pending => some { s with
      hbRouter := s.hbRouter.delete pending.topic
      manager := .forget pending }
  | .forget pending => some (s.forgetPartition pending)
  | .closeCommands => some { s with cmdClosed := true, manager := .returned }
  | .returned => none

/-- The first part of `Stop`: every stop channel is closed. -/
def stop (s : Lifecycle) : Lifecycle :=
  { s.stopChs.pairs.foldl (fun s entry => s.closeStop entry.2) s with manager := .closeCommands }

/-! ### `ProcessCommand` -/

def fail (s : Lifecycle) (topic : String) (cmd : Command) (err : ProcessError) : Lifecycle :=
  { s with handler := .afterError cmd err, failed := s.failed ++ [(topic, cmd, err)] }

/-- `GetChannel` after an answer or a timeout, with what follows; `answer` is what
the channel of the call holds from here on. -/
def lookAgain (s : Lifecycle) (topic : String) (cmd : Command) (call retries : Nat)
    (answer : Option ToProducerResponse) : Lifecycle :=
  match s.cmdRouter.get topic with
  | some number => { s with handler := .sending topic cmd number }
  | none =>
    if retries + 1 < 3 then { s with handler := .waiting topic cmd call (retries + 1) answer }
    else s.fail topic cmd .channelUnavailable

/-- What `handleCommittedEntries` does next, where it has a choice. -/
inductive HandlerAct where
  | call (topic : String) (cmd : Command)
  | ask (requestID : UInt32)
  | answer
  | timeout
  | cancelled
  | put
  | blocked
  deriving DecidableEq, Repr

def process (s : Lifecycle) : HandlerAct → Option Lifecycle
  | .call topic cmd =>
    if s.handler = .idle then
      match s.cmdRouter.get topic with
      | some number => some { s with handler := .sending topic cmd number }
      | none => some { s with handler := .asking topic cmd }
    else none
  | .ask requestID =>
    match s.handler with
    | .asking topic cmd =>
      if s.cmdClosed then some { s with handler := .ended .sendOnClosed }
      else if s.cmdCh.length < cmdCap then some { s with
        cmdCh := s.cmdCh ++ [.spawn topic requestID (some (.call s.calls))]
        handler := .waiting topic cmd s.calls 0 none
        calls := s.calls + 1 }
      else none
    | _ => none
  | .answer =>
    match s.handler with
    | .waiting topic cmd call retries (some res) =>
      if res.status = .error ∧ res.error ≠ errTopicExists then
        some (s.fail topic cmd (.spawnFailed res.error))
      else some (s.lookAgain topic cmd call retries none)
    | _ => none
  | .timeout =>
    match s.handler with
    | .waiting topic cmd call retries answer => some (s.lookAgain topic cmd call retries answer)
    | _ => none
  | .cancelled =>
    match s.handler with
    | .asking topic cmd | .waiting topic cmd _ _ _ =>
      if s.cancelled then some (s.fail topic cmd .cancelled) else none
    | _ => none
  | .put =>
    match s.handler with
    | .sending topic cmd number =>
      match s.partitions[number]? with
      | none => none
      | some p =>
        if p.commandCh.length < commandBuffer then some { s with
          partitions := s.partitions.set number { p with commandCh := p.commandCh ++ [cmd] }
          handler := .idle
          processed := s.processed ++ [(topic, cmd)] }
        else none
    | _ => none
  | .blocked =>
    match s.handler with
    | .sending _ _ _ => some { s with handler := .ended .deadlocked }
    | _ => none

/-! ### All of it -/

/-- A command from the gateway or the registry, a step of the manager, its look at
the context, the end of the context, a step of `ProcessCommand`, a partition that
takes a command, and one that sees its stop channel closed. -/
inductive Op where
  | send (request : Request)
  | manage
  | stop
  | cancel
  | process (act : HandlerAct)
  | take (number : Nat)
  | quit (number : Nat)
  deriving DecidableEq, Repr

/-- After a crash there is no step. -/
def step (s : Lifecycle) (op : Op) : Option Lifecycle :=
  if s.crashed.isSome then none
  else match op with
  | .send request =>
    if s.cmdClosed then some { s with crashed := some .sendOnClosed }
    else if s.cmdCh.length < cmdCap then some { s with cmdCh := s.cmdCh ++ [request] }
    else none
  | .manage => s.manage
  | .stop => if s.manager = .idle ∧ s.cancelled then some s.stop else none
  | .cancel => some { s with cancelled := true }
  | .process act => s.process act
  | .take number =>
    match s.partitions[number]? with
    | none => none
    | some p =>
      match p.place, p.commandCh with
      | .running, cmd :: rest => some { s with
          partitions := s.partitions.set number { p with commandCh := rest, taken := p.taken ++ [cmd] } }
      | _, _ => none
  | .quit number =>
    match s.partitions[number]? with
    | none => none
    | some p =>
      if p.place = .running ∧ p.stopClosed then some { s with
        partitions := s.partitions.set number { p with place := .returned } }
      else none

end Lifecycle
end Cue.State
