import Cue.Cluster.ServiceDiscovery

/-! The outgoing connections of `internal/cluster/quic_server.go`: `VerifyTLSIdentity`,
`Connect`, `SyncConnections` and `GetOutgoingConnection`, and the way of a raft
message to its connection in `internal/cluster/agent_raft_bridge.go` and
`agent_network.go`. Each call goes on by sections, and other calls come between.

Who answers a call is an argument of the section: a connection, whose certificate
is the one that TLS has delivered and whose chain was verified, and later the
reply to the handshake. `net.ParseIP` is a parameter. Timeouts, the number of
attempts, the end of the server, and the connections that other nodes open are
left out. -/
namespace Cue.Cluster
open Cue.Lib Cue.Model

/-! ### Certificates -/

/-- A URI by its scheme and as `String` writes it. -/
structure CertURI where
  scheme : String
  text : String
  deriving DecidableEq, Repr

/-- The names in an `x509.Certificate`. -/
structure Certificate where
  dnsNames : List String := []
  ipAddresses : List Bytes := []
  uris : List CertURI := []
  deriving DecidableEq, Repr

def v4InV6Prefix : Bytes := [0, 0, 0, 0, 0, 0, 0, 0, 0, 0, 0xff, 0xff]

/-- `net.IP.Equal`: an IPv4 address and the same one in IPv6 form are equal. -/
def ipEqual (ip x : Bytes) : Bool :=
  if ip.length = x.length then ip = x
  else if ip.length = 4 ∧ x.length = 16 then x.take 12 = v4InV6Prefix ∧ ip = x.drop 12
  else if ip.length = 16 ∧ x.length = 4 then ip.take 12 = v4InV6Prefix ∧ ip.drop 12 = x
  else false

def verifyTLSIdentity (parseIP : String → Option Bytes) (cert : Certificate) (expected : TLSIdentity) :
    Except String Unit :=
  match expected.kind with
  | .dns =>
    if expected.value ∈ cert.dnsNames then .ok ()
    else .error ("certificate does not contain expected DNS SAN: " ++ expected.value ++ ". cert.DNSNames: [" ++
      " ".intercalate cert.dnsNames ++ "]")
  | .ip =>
    match parseIP expected.value with
    | none => .error ("invalid IP in expected identity: " ++ expected.value)
    | some expectedIP =>
      if cert.ipAddresses.any fun ip => ipEqual ip expectedIP then .ok ()
      else .error ("certificate does not contain expected IP SAN: " ++ expected.value)
  | .spiffe =>
    if cert.uris.any fun uri => uri.scheme = "spiffe" ∧ uri.text = expected.value then .ok ()
    else .error ("certificate does not contain expected SPIFFE URI: " ++ expected.value)
  | .unknown kind => .error ("unsupported identity kind: " ++ toString kind)

/-! ### Connections -/

/-- A connection and the leaf certificate of the peer. -/
structure QuicConn where
  id : Nat
  leaf : Certificate
  deriving DecidableEq, Repr

structure ClusterQUIC where
  selfNodeID : String
  outgoingConns : FinMap String QuicConn
  /-- the connections that were replaced, with the time -/
  retiringOutgoingConns : List (Int × QuicConn)
  deriving DecidableEq

namespace ClusterQUIC

def getOutgoingConnection (s : ClusterQUIC) (nodeID : String) : Except String QuicConn :=
  match s.outgoingConns.get nodeID with
  | none => .error ("no connection for node_id: " ++ nodeID)
  | some conn => .ok conn

/-- `Connect` up to the dial. -/
def findPeer (s : ClusterQUIC) (discovery : ServiceDiscovery) (nodeID : String) : Except String PeerInfo :=
  if nodeID = s.selfNodeID then .error "self connection not allowed"
  else
    match discovery.lookup nodeID with
    | none => .error ("peer not found in discovery: " ++ nodeID)
    | some peerInfo => .ok peerInfo

/-- The end of `Connect`, with the node ID of the handshake. -/
def store (s : ClusterQUIC) (now : Int) (nodeID : String) (conn : QuicConn) : ClusterQUIC :=
  { s with
    retiringOutgoingConns := s.retiringOutgoingConns ++ ((s.outgoingConns.get nodeID).map (now, ·)).toList
    outgoingConns := s.outgoingConns.set nodeID conn }

/-- The locked section of `SyncConnections`: what is left of the connections when
those of these IDs are dead, and the nodes to connect to. -/
def prune (s : ClusterQUIC) (peers : List PeerInfo) (dead : List Nat) : ClusterQUIC × List PeerInfo :=
  let desired : FinMap String PeerInfo :=
    .collect PeerInfo.nodeID id (peers.filter fun p => p.nodeID ≠ s.selfNodeID)
  let outgoingConns := s.outgoingConns.filter fun nodeID conn => desired.contains nodeID && !dead.contains conn.id
  ({ s with outgoingConns }, (desired.filter fun nodeID _ => !outgoingConns.contains nodeID).pairs.map Prod.snd)

end ClusterQUIC

/-! ### Calls -/

/-- What the calls share. -/
structure Links where
  discovery : ServiceDiscovery
  quic : ClusterQUIC

/-- A call that uses or changes the connections, or the list of peers. -/
inductive LinkCall where
  | connect (nodeID : String)
  | syncConnections
  | sendRaftMessage (raftID : UInt64)
  | peers (op : PeersCall)
  deriving DecidableEq

/-- Where a call stands. -/
inductive LinkPhase where
  | called (call : LinkCall)
  /-- the peer was looked up, and is dialled -/
  | dialing (nodeID : String) (peerInfo : PeerInfo)
  /-- the identity was verified, and the reply to the handshake is awaited -/
  | greeting (nodeID : String) (conn : QuicConn)
  | listed (peers : List PeerInfo)
  /-- `SyncConnections` waits for the calls of `Connect` to these nodes -/
  | connecting (nodes : List PeerInfo)
  /-- the node that the raft message is for is known -/
  | addressed (nodeID : String)
  /-- the raft message for the node goes over this connection -/
  | sent (nodeID : String) (conn : QuicConn)
  | updating (phase : PeersPhase)
  | ended (result : Except String Unit)
  deriving DecidableEq

/-- What a section gets from outside. -/
inductive LinkInput where
  | go
  | dialed (conn : Except String QuicConn)
  | reply (now : Int) (nodeID : Except String String)
  | contexts (dead : List Nat)
  deriving DecidableEq

structure LinkEnv where
  stringToUint64 : String → UInt64
  parseIP : String → Option Bytes

/-- The next section of a call. -/
def Links.act (env : LinkEnv) (links : Links) (phase : LinkPhase) (input : LinkInput) : Option (Links × LinkPhase) :=
  match phase, input with
  | .called (.connect nodeID), .go =>
    match links.quic.findPeer links.discovery nodeID with
    | .error err => some (links, .ended (.error err))
    | .ok peerInfo => some (links, .dialing nodeID peerInfo)
  | .dialing _ _, .dialed (.error err) => some (links, .ended (.error ("failed to dial QUIC: " ++ err)))
  | .dialing nodeID peerInfo, .dialed (.ok conn) =>
    match verifyTLSIdentity env.parseIP conn.leaf peerInfo.identity with
    | .error err => some (links, .ended (.error err))
    | .ok _ => some (links, .greeting nodeID conn)
  | .greeting _ _, .reply _ (.error err) => some (links, .ended (.error err))
  | .greeting _ conn, .reply now (.ok nodeID) =>
    some ({ links with quic := links.quic.store now nodeID conn }, .ended (.ok ()))
  | .called .syncConnections, .go => some (links, .listed links.discovery.listPeers)
  | .listed peers, .contexts dead =>
    some ({ links with quic := (links.quic.prune peers dead).1 }, .connecting (links.quic.prune peers dead).2)
  | .connecting _, .go => some (links, .ended (.ok ()))
  | .called (.sendRaftMessage raftID), .go =>
    match links.discovery.getNodeIDFromRaftID raftID with
    | none => some (links, .ended (.error "unknown node ID for raft ID"))
    | some nodeID => some (links, .addressed nodeID)
  | .addressed nodeID, .go | .sent nodeID _, .go =>
    -- a message that could not be sent is sent again, over the connection that is there then
    match links.quic.getOutgoingConnection nodeID with
    | .error _ => some (links, .addressed nodeID)
    | .ok conn => some (links, .sent nodeID conn)
  | .called (.peers op), .go =>
    (links.discovery.lockedSection env.stringToUint64 (.called op)).map fun (discovery, phase) =>
      ({ links with discovery }, .updating phase)
  | .updating phase, .go =>
    (links.discovery.lockedSection env.stringToUint64 phase).map fun (discovery, phase) =>
      ({ links with discovery }, .updating phase)
  | _, _ => none

end Cue.Cluster
