import Cue.Cluster.PeerModel
import Cue.Lib.FanOut
import Cue.Lib.FinMap

/-! `broadcast` in `internal/cluster/agent_network.go`: a request goes to all nodes
that there is a connection to, and the responses are collected until all have answered
or a timeout. `sendRequest` returns in the end, and what it returns is an input. -/
namespace Cue.Cluster
open Cue.Lib

def broadcast (activeNodes : List String) (nodeID : String) : FanOut String (Except String ClusterResponse) :=
  .new (activeNodes.filter (· ≠ nodeID)) activeNodes.length

/-- The map that is returned, from the results in the order they were received. -/
def broadcastResults (collected : List (String × Except String ClusterResponse)) : FinMap String ClusterResponse :=
  .collect Prod.fst Prod.snd (collected.filterMap fun res => res.2.toOption.map fun resp => (res.1, resp))

end Cue.Cluster
