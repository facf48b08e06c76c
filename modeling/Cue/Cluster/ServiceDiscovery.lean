import Cue.Lib.FinMap
import Cue.Model.Command

/-! `internal/cluster/discovery.go`: the peers that a node knows, as a list and as
three maps, each of the four under a lock of its own. The hash `StringToUint64`
that makes a raft ID of a node ID is a parameter. Polling over HTTP, the discovery
file and `ListPeersRaftIDs` are left out. -/
namespace Cue.Cluster
open Cue.Lib Cue.Model

structure ServiceDiscovery where
  peersList : List PeerInfo
  nodeToPeerMap : FinMap String PeerInfo
  nodeToRaftMap : FinMap String UInt64
  raftToNodeMap : FinMap UInt64 String
  deriving DecidableEq

/-- The four locks, in the order in which `updateInternalState` takes them. -/
inductive DiscoveryLock where
  | peers
  | nodeToPeer
  | nodeToRaft
  | raftToNode
  deriving DecidableEq, Repr

/-- The lock that is taken after this one. -/
def DiscoveryLock.next : DiscoveryLock → Option DiscoveryLock
  | .peers => some .nodeToPeer
  | .nodeToPeer => some .nodeToRaft
  | .nodeToRaft => some .raftToNode
  | .raftToNode => none

/-- A call of one of the two functions that change the peers. -/
inductive PeersCall where
  | update (peers : List PeerInfo)
  | merge (peers : List PeerInfo)
  deriving DecidableEq, Repr

def PeersCall.peers : PeersCall → List PeerInfo
  | .update peers | .merge peers => peers

/-- Where a call stands between two of its locked sections. -/
inductive PeersPhase where
  | called (op : PeersCall)
  /-- A merge that added peers, before it copies the list. -/
  | copying
  /-- In `updateInternalState`, with what it has built, before it takes this lock. -/
  | writing (built : ServiceDiscovery) (lock : DiscoveryLock)
  | returned
  deriving DecidableEq

/-- The call has been through a locked section and has another one before it. -/
def PeersPhase.running : PeersPhase → Bool
  | .called _ | .returned => false
  | .copying | .writing _ _ => true

namespace ServiceDiscovery

def lookup (sd : ServiceDiscovery) (nodeID : String) : Option PeerInfo := sd.nodeToPeerMap.get nodeID

def listPeers (sd : ServiceDiscovery) : List PeerInfo := sd.peersList

def getNodeIDFromRaftID (sd : ServiceDiscovery) (raftID : UInt64) : Option String := sd.raftToNodeMap.get raftID

/-- One of the four assignments of `updateInternalState`. -/
def assign (sd built : ServiceDiscovery) : DiscoveryLock → ServiceDiscovery
  | .peers => { sd with peersList := built.peersList }
  | .nodeToPeer => { sd with nodeToPeerMap := built.nodeToPeerMap }
  | .nodeToRaft => { sd with nodeToRaftMap := built.nodeToRaftMap }
  | .raftToNode => { sd with raftToNodeMap := built.raftToNodeMap }

/-- The peers of `newPeers` that the list does not have. A peer that comes twice is there twice. -/
def missing (sd : ServiceDiscovery) (newPeers : List PeerInfo) : List PeerInfo :=
  newPeers.filter fun peer => !sd.peersList.any fun p => p.nodeID = peer.nodeID

variable (stringToUint64 : String → UInt64)

/-- What `updateInternalState` builds before it takes a lock. -/
def build (peers : List PeerInfo) : ServiceDiscovery where
  peersList := peers
  nodeToPeerMap := .collect PeerInfo.nodeID id peers
  nodeToRaftMap := .collect PeerInfo.nodeID (fun peer => stringToUint64 peer.nodeID) peers
  raftToNodeMap := .collect (fun peer => stringToUint64 peer.nodeID) PeerInfo.nodeID peers

def updateInternalState (sd : ServiceDiscovery) (peers : List PeerInfo) : ServiceDiscovery :=
  [DiscoveryLock.peers, .nodeToPeer, .nodeToRaft, .raftToNode].foldl
    (fun sd => sd.assign (build stringToUint64 peers)) sd

/-- `NewServiceDiscovery` -/
def new (seed : List PeerInfo) : ServiceDiscovery :=
  updateInternalState stringToUint64 ⟨[], .empty, .empty, .empty⟩ seed

def updatePeers (sd : ServiceDiscovery) (peers : List PeerInfo) : ServiceDiscovery :=
  sd.updateInternalState stringToUint64 peers

def mergePeers (sd : ServiceDiscovery) (newPeers : List PeerInfo) : ServiceDiscovery :=
  let added := sd.missing newPeers
  let sd := { sd with peersList := sd.peersList ++ added }
  if added = [] then sd else sd.updateInternalState stringToUint64 sd.peersList

def call (sd : ServiceDiscovery) : PeersCall → ServiceDiscovery
  | .update peers => sd.updatePeers stringToUint64 peers
  | .merge peers => sd.mergePeers stringToUint64 peers

/-- The assignment under one lock, and where the call stands after it. -/
def write (sd built : ServiceDiscovery) (lock : DiscoveryLock) : ServiceDiscovery × PeersPhase :=
  (sd.assign built lock, (lock.next.map (PeersPhase.writing built)).getD .returned)

/-- The next locked section of a call. -/
def lockedSection (sd : ServiceDiscovery) : PeersPhase → Option (ServiceDiscovery × PeersPhase)
  | .called (.update peers) => some (sd.write (build stringToUint64 peers) .peers)
  | .called (.merge newPeers) =>
    some ({ sd with peersList := sd.peersList ++ sd.missing newPeers },
      if sd.missing newPeers = [] then .returned else .copying)
  | .copying => some (sd, .writing (build stringToUint64 sd.peersList) .peers)
  | .writing built lock => some (sd.write built lock)
  | .returned => none

def validateConsistency (sd : ServiceDiscovery) : Bool :=
  decide (sd.peersList.length = sd.nodeToPeerMap.size) && decide (sd.peersList.length = sd.nodeToRaftMap.size) &&
    decide (sd.peersList.length = sd.raftToNodeMap.size) &&
    sd.peersList.all fun peer =>
      ((sd.nodeToPeerMap.get peer.nodeID).any fun p => p.nodeID = peer.nodeID) &&
        decide (sd.nodeToRaftMap.get peer.nodeID = some (stringToUint64 peer.nodeID)) &&
          decide (sd.raftToNodeMap.get (stringToUint64 peer.nodeID) = some peer.nodeID)

end ServiceDiscovery
end Cue.Cluster
