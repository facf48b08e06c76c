import Cue.Cluster.PeerModel

/-! The part of `internal/cluster/agent.go` that waits for the cluster when a
node starts: a voter for a majority of the initial voters, any other node for a
leader that confirms itself. What a node sees of the others at an attempt is an
input, and so are the random numbers and whether the node is being stopped.
Logging is left out. -/
namespace Cue.Cluster
open Cue.Model

/-- `rand.Int63n`: a number below `n`; it panics when there is none. -/
def int63n (draw : Nat) (n : Int) : Except String Nat :=
  if n ≤ 0 then .error "invalid argument to Int63n" else .ok (draw % n.toNat)

/-- `backoffDuration`, in milliseconds. Shifting by a negative number panics. -/
def backoffDuration (draw attempt initialMs : Nat) : Except String Nat :=
  if attempt = 0 then .error "negative shift amount"
  else
    let shifted := initialMs * 2 ^ (attempt - 1) % 2 ^ 64
    let backoff := if shifted > 5000 then 5000 else shifted
    match int63n draw (backoff / 4 : Nat) with
    | .error panicked => .error panicked
    | .ok jitter => .ok (backoff + jitter)

/-- How a waiting loop ends. -/
inductive WaitEnd where
  | ready
  | cancelled
  /-- no attempt is left: the node is marked unavailable -/
  | unavailable
  | panicked (reason : String)
  deriving DecidableEq, Repr

/-- The attempts of a waiting loop from `attempt` on, `left` of them: how long
the node sleeps behind each, and how it ends. -/
def waitLoop (ready cancelled : Nat → Bool) (draws : Nat → Nat) (initialMs : Nat) : Nat → Nat → List Nat × WaitEnd
  | 0, _ => ([], .unavailable)
  | left + 1, attempt =>
    if ready attempt then ([], .ready)
    else
      match backoffDuration (draws attempt) attempt initialMs with
      | .error reason => ([], .panicked reason)
      | .ok sleepMs =>
        if cancelled attempt then ([sleepMs], .cancelled)
        else
          let (sleeps, ended) := waitLoop ready cancelled draws initialMs left (attempt + 1)
          (sleepMs :: sleeps, ended)

/-- What a node sees of the others at one attempt: the nodes it is connected to,
what each answers to a request for the cluster's state, and what the leader it
names answers then. No answer is an error of `sendRequest`. -/
structure ClusterView where
  activeNodes : List String
  answer : String → Option ClusterResponse
  verification : String → String → Option ClusterResponse

/-- The cluster's state in a response, if it is of that type. -/
def clusterInfoOf (response : Option ClusterResponse) : Option ClusterInfoRespPayload :=
  response.bind fun resp => if resp.type = .clusterInfo then resp.clusterInfo else none

def ClusterView.trustedLeader (view : ClusterView) : Bool :=
  view.activeNodes.any fun target =>
    match clusterInfoOf (view.answer target) with
    | none => false
    | some info =>
      if info.leaderID = "" then false
      else
        match clusterInfoOf (view.verification target info.leaderID) with
        | none => false
        | some verified => verified.status = ClusterNodeStatus.leaderActive.toUint32

def ClusterView.majorityConnected (view : ClusterView) (nodeID : String) (initialVoters : List String) : Bool :=
  let connected := (view.activeNodes.filter fun node => node ∈ initialVoters).length
  let connected := if nodeID ∈ initialVoters then connected + 1 else connected
  connected ≥ initialVoters.length / 2 + 1

def waitForLeader (views : Nat → ClusterView) (cancelled : Nat → Bool) (draws : Nat → Nat) : List Nat × WaitEnd :=
  waitLoop (fun attempt => (views attempt).trustedLeader) cancelled draws 100 10 1

def waitForMajority (nodeID : String) (initialVoters : List String) (views : Nat → ClusterView)
    (cancelled : Nat → Bool) (draws : Nat → Nat) : List Nat × WaitEnd :=
  waitLoop (fun attempt => (views attempt).majorityConnected nodeID initialVoters) cancelled draws 500 100 1

end Cue.Cluster
