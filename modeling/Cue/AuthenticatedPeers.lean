import Cue.Cluster.QuicServer
import Cue.Lib.Threads

/-! Whom a connection belongs to. `Connect` verifies the certificate against the
identity of the node that it dials, and files the connection under the node that
the reply to the handshake names. When the reply names the node that was dialled,
every connection is filed under a node whose identity its certificate has shown,
and raft messages for the node go over no other. -/
namespace Cue.Cluster
open Cue.Lib Cue.Model

variable {T : Type} {env : LinkEnv} {links links' : Links} {phase phase' : LinkPhase} {input : LinkInput}

/-! ### Sections -/

namespace ClusterQUIC

variable {s : ClusterQUIC} {nodeID : String}

theorem findPeer_ok {discovery : ServiceDiscovery} {peerInfo : PeerInfo}
    (found : s.findPeer discovery nodeID = .ok peerInfo) : discovery.lookup nodeID = some peerInfo := by
  unfold findPeer at found
  split at found
  · cases found
  · split at found
    · cases found
    · rename_i known
      cases found
      exact known

theorem getOutgoingConnection_ok {conn : QuicConn} (found : s.getOutgoingConnection nodeID = .ok conn) :
    s.outgoingConns.get nodeID = some conn := by
  unfold getOutgoingConnection at found
  split at found
  · cases found
  · rename_i filed
    cases found
    exact filed

/-- Only what was filed stays filed. -/
theorem prune_filed {peers : List PeerInfo} {dead : List Nat} {conn : QuicConn}
    (filed : (s.prune peers dead).1.outgoingConns.get nodeID = some conn) : s.outgoingConns.get nodeID = some conn :=
  (FinMap.get_filter_some.mp filed).1

end ClusterQUIC

/-- The call has begun, and what it knows has nothing to do with a node's identity. -/
def LinkPhase.plain : LinkPhase → Bool
  | .called _ | .dialing _ _ | .greeting _ _ | .sent _ _ => false
  | _ => true

/-- What one section did. -/
inductive LinkActed (env : LinkEnv) (links : Links) : LinkPhase → LinkInput → Links → LinkPhase → Prop where
  | found {nodeID : String} {peerInfo : PeerInfo} (known : links.discovery.lookup nodeID = some peerInfo) :
      LinkActed env links (.called (.connect nodeID)) .go links (.dialing nodeID peerInfo)
  | verified {nodeID : String} {peerInfo : PeerInfo} {conn : QuicConn}
      (passed : verifyTLSIdentity env.parseIP conn.leaf peerInfo.identity = .ok ()) :
      LinkActed env links (.dialing nodeID peerInfo) (.dialed (.ok conn)) links (.greeting nodeID conn)
  | stored {nodeID reply : String} {conn : QuicConn} {now : Int} :
      LinkActed env links (.greeting nodeID conn) (.reply now (.ok reply))
        { links with quic := links.quic.store now reply conn } (.ended (.ok ()))
  | pruned {peers : List PeerInfo} {dead : List Nat} :
      LinkActed env links (.listed peers) (.contexts dead) { links with quic := (links.quic.prune peers dead).1 }
        (.connecting (links.quic.prune peers dead).2)
  | sent {phase : LinkPhase} {nodeID : String} {conn : QuicConn}
      (filed : links.quic.outgoingConns.get nodeID = some conn) :
      LinkActed env links phase .go links (.sent nodeID conn)
  | other {phase phase' : LinkPhase} {input : LinkInput} {links' : Links} (same : links'.quic = links.quic)
      (plain : phase'.plain = true) : LinkActed env links phase input links' phase'

theorem Links.acted (acted : links.act env phase input = some (links', phase')) :
    LinkActed env links phase input links' phase' := by
  unfold act at acted
  split at acted
  · split at acted
    · cases acted
      exact .other rfl rfl
    · rename_i found
      cases acted
      exact .found (ClusterQUIC.findPeer_ok found)
  · cases acted
    exact .other rfl rfl
  · split at acted
    · cases acted
      exact .other rfl rfl
    · rename_i passed
      cases acted
      exact .verified passed
  · cases acted
    exact .other rfl rfl
  · cases acted
    exact .stored
  · cases acted
    exact .other rfl rfl
  · cases acted
    exact .pruned
  · cases acted
    exact .other rfl rfl
  · split at acted
    all_goals
      cases acted
      exact .other rfl rfl
  · split at acted
    · cases acted
      exact .other rfl rfl
    · rename_i filed
      cases acted
      exact .sent (ClusterQUIC.getOutgoingConnection_ok filed)
  · split at acted
    · cases acted
      exact .other rfl rfl
    · rename_i filed
      cases acted
      exact .sent (ClusterQUIC.getOutgoingConnection_ok filed)
  · obtain ⟨_, _, result⟩ := Option.map_eq_some_iff.mp acted
    cases result
    exact .other rfl rfl
  · obtain ⟨_, _, result⟩ := Option.map_eq_some_iff.mp acted
    cases result
    exact .other rfl rfl
  · cases acted

theorem LinkActed.begun {call : LinkCall} (acted : LinkActed env links phase input links' phase') :
    phase' ≠ .called call := by
  rintro rfl
  cases acted with
  | other same plain => cases plain

/-! ### Runs -/

/-- Before any connection, with any peers known and any calls to come. -/
def beforeLinks (selfNodeID : String) (discovery : ServiceDiscovery) (calls : T → LinkCall) :
    Threads T Links LinkPhase where
  shared := ⟨discovery, ⟨selfNodeID, .empty, []⟩⟩
  locals t := .called (calls t)

/-- A reply to a handshake names the node that was dialled. -/
def honest (threads : Threads T Links LinkPhase) (op : T × LinkInput) : Bool :=
  match threads.locals op.1, op.2 with
  | .greeting nodeID _, .reply _ (.ok reply) => reply = nodeID
  | _, _ => true

section Runs

variable [DecidableEq T]

/-- One section of one call. -/
def linkStep (env : LinkEnv) (threads : Threads T Links LinkPhase) (op : T × LinkInput) :
    Option (Threads T Links LinkPhase) :=
  threads.step (Links.act env) op

/-- Runs in which the replies are those that `admits` admits. -/
abbrev LinkRun (env : LinkEnv) (admits : Threads T Links LinkPhase → T × LinkInput → Prop)
    (start : Threads T Links LinkPhase) :=
  Run (fun threads op threads' => linkStep env threads op = some threads') (fun _ => admits) start

variable {admits : Threads T Links LinkPhase → T × LinkInput → Prop} {start threads threads' : Threads T Links LinkPhase}
  {ops : List (T × LinkInput)} {op : T × LinkInput} {t : T} {nodeID : String} {conn : QuicConn} {peerInfo : PeerInfo}

/-- A call of `Connect` for the node has found these data of the node in discovery. -/
def LookedUp (env : LinkEnv) (admits : Threads T Links LinkPhase → T × LinkInput → Prop)
    (start : Threads T Links LinkPhase) (ops : List (T × LinkInput)) (t : T) (nodeID : String)
    (peerInfo : PeerInfo) : Prop :=
  ∃ before after threads, ops = before ++ (t, .go) :: after ∧ LinkRun env admits start before threads ∧
    threads.locals t = .called (.connect nodeID) ∧ threads.shared.discovery.lookup nodeID = some peerInfo

/-- The connection was dialled by a call of `Connect` for the node, and its
certificate passed for the identity that the call had found in discovery. -/
def Authenticated (env : LinkEnv) (admits : Threads T Links LinkPhase → T × LinkInput → Prop)
    (start : Threads T Links LinkPhase) (ops : List (T × LinkInput)) (nodeID : String) (conn : QuicConn) : Prop :=
  ∃ t before after peerInfo, ops = before ++ (t, .dialed (.ok conn)) :: after ∧
    LookedUp env admits start before t nodeID peerInfo ∧
    verifyTLSIdentity env.parseIP conn.leaf peerInfo.identity = .ok ()

theorem LookedUp.later (found : LookedUp env admits start ops t nodeID peerInfo) (op : T × LinkInput) :
    LookedUp env admits start (ops ++ [op]) t nodeID peerInfo := by
  obtain ⟨before, after, threads, rfl, run, called, known⟩ := found
  exact ⟨before, after ++ [op], threads, by simp, run, called, known⟩

theorem Authenticated.later (shown : Authenticated env admits start ops nodeID conn) (op : T × LinkInput) :
    Authenticated env admits start (ops ++ [op]) nodeID conn := by
  obtain ⟨t, before, after, peerInfo, rfl, found, passed⟩ := shown
  exact ⟨t, before, after ++ [op], peerInfo, by simp, found, passed⟩

/-- A call that stands there knows of the node what a certificate has shown, or what discovery said. -/
def PhaseBacked (env : LinkEnv) (admits : Threads T Links LinkPhase → T × LinkInput → Prop)
    (start : Threads T Links LinkPhase) (ops : List (T × LinkInput)) (t : T) : LinkPhase → Prop
  | .dialing nodeID peerInfo => LookedUp env admits start ops t nodeID peerInfo
  | .greeting nodeID conn | .sent nodeID conn => Authenticated env admits start ops nodeID conn
  | _ => True

theorem PhaseBacked.later {phase : LinkPhase} (backed : PhaseBacked env admits start ops t phase) (op : T × LinkInput) :
    PhaseBacked env admits start (ops ++ [op]) t phase := by
  cases phase with
  | dialing nodeID peerInfo => exact LookedUp.later backed op
  | greeting nodeID conn => exact Authenticated.later backed op
  | sent nodeID conn => exact Authenticated.later backed op
  | _ => exact backed

theorem PhaseBacked.of_plain {phase : LinkPhase} (plain : phase.plain = true) :
    PhaseBacked env admits start ops t phase := by
  cases phase with
  | dialing nodeID peerInfo => cases plain
  | greeting nodeID conn => cases plain
  | sent nodeID conn => cases plain
  | called call => cases plain
  | _ => trivial

/-- Whatever is filed or known to a call is backed by what was verified before. -/
structure Attested (env : LinkEnv) (admits : Threads T Links LinkPhase → T × LinkInput → Prop)
    (start : Threads T Links LinkPhase) (ops : List (T × LinkInput)) (threads : Threads T Links LinkPhase) : Prop where
  run : LinkRun env admits start ops threads
  calls : ∀ t, PhaseBacked env admits start ops t (threads.locals t)
  filed : ∀ nodeID conn, threads.shared.quic.outgoingConns.get nodeID = some conn →
    Authenticated env admits start ops nodeID conn

theorem beforeLinks_attested (selfNodeID : String) (discovery : ServiceDiscovery) (calls : T → LinkCall) :
    Attested env admits (beforeLinks selfNodeID discovery calls) [] (beforeLinks selfNodeID discovery calls) where
  run := .start
  calls _ := trivial
  filed _ _ found := by cases found

theorem Attested.step (attested : Attested env admits start ops threads) (admitted : admits threads op)
    (names : honest threads op = true) (stepped : linkStep env threads op = some threads') :
    Attested env admits start (ops ++ [op]) threads' := by
  have run := Run.next attested.run admitted stepped
  obtain ⟨links, phase, acted, rfl⟩ := Threads.step_eq_some.mp stepped
  obtain ⟨t, input⟩ := op
  -- the other calls stand where they stood, so what is new is the place of one call and what is filed
  suffices new : PhaseBacked env admits start (ops ++ [(t, input)]) t phase ∧
      ∀ nodeID conn, links.quic.outgoingConns.get nodeID = some conn →
        Authenticated env admits start (ops ++ [(t, input)]) nodeID conn by
    refine ⟨run, fun u => ?_, new.2⟩
    by_cases here : u = t
    · subst here
      simpa using new.1
    · simpa [Function.update_of_ne here] using (attested.calls u).later (t, input)
  have kept nodeID conn (found : threads.shared.quic.outgoingConns.get nodeID = some conn) :=
    (attested.filed nodeID conn found).later (t, input)
  have backed := attested.calls t
  have what := Links.acted acted
  generalize place : threads.locals t = stood at what backed
  cases what with
  | found known => exact ⟨⟨ops, [], threads, rfl, attested.run, place, known⟩, kept⟩
  | verified passed => exact ⟨⟨t, ops, [], _, rfl, backed, passed⟩, kept⟩
  | @stored nodeID reply conn now =>
    refine ⟨trivial, fun other there found => ?_⟩
    have same : reply = nodeID := by simpa [honest, place] using names
    subst same
    rw [ClusterQUIC.store, FinMap.get_set] at found
    split at found
    · rename_i here
      subst here
      cases found
      exact Authenticated.later backed _
    · exact kept other there found
  | pruned => exact ⟨trivial, fun nodeID conn found => kept nodeID conn (ClusterQUIC.prune_filed found)⟩
  | sent filed => exact ⟨kept _ _ filed, kept⟩
  | other same plain => exact ⟨.of_plain plain, fun nodeID conn found => kept nodeID conn (same ▸ found)⟩

theorem attested_of_run {selfNodeID : String} {discovery : ServiceDiscovery} {calls : T → LinkCall}
    (names : ∀ threads op, admits threads op → honest threads op = true)
    (run : LinkRun env admits (beforeLinks selfNodeID discovery calls) ops threads) :
    Attested env admits (beforeLinks selfNodeID discovery calls) ops threads :=
  run.invariant _ (beforeLinks_attested selfNodeID discovery calls) fun _ threads op _ attested admitted stepped =>
    attested.step admitted (names threads op admitted) stepped

/-- A call that has not begun is the one that was to come. -/
theorem called_of_run {selfNodeID : String} {discovery : ServiceDiscovery} {calls : T → LinkCall}
    (run : LinkRun env admits (beforeLinks selfNodeID discovery calls) ops threads) {call : LinkCall}
    (waiting : threads.locals t = .called call) : call = calls t := by
  refine run.invariant (fun _ threads => ∀ t call, threads.locals t = .called call → call = calls t)
    (fun t call waiting => (LinkPhase.called.inj waiting).symm) ?_ t call waiting
  intro _ threads op _ earlier _ stepped u call waiting
  obtain ⟨links, phase, acted, rfl⟩ := Threads.step_eq_some.mp stepped
  by_cases here : u = op.1
  · subst here
    simp only [Function.update_self] at waiting
    exact absurd waiting (Links.acted acted).begun
  · simp only [Function.update_of_ne here] at waiting
    exact earlier u call waiting

/-- In every run of calls in which the replies to handshakes name the node that was
dialled, a connection that is filed under a node was dialled by a call of `Connect`
for this node, and its certificate passed for the identity that the call had found
in discovery. A raft message for the node goes over such a connection. -/
theorem filed_under_authenticated_node (env : LinkEnv) (selfNodeID : String) (discovery : ServiceDiscovery)
    (calls : T → LinkCall) (ops : List (T × LinkInput)) (threads : Threads T Links LinkPhase)
    (run : LinkRun env (fun threads op => honest threads op = true)
      (beforeLinks selfNodeID discovery calls) ops threads) :
    (∀ nodeID conn, threads.shared.quic.outgoingConns.get nodeID = some conn →
      Authenticated env (fun threads op => honest threads op = true) (beforeLinks selfNodeID discovery calls) ops
        nodeID conn) ∧
    ∀ t nodeID conn, threads.locals t = .sent nodeID conn →
      Authenticated env (fun threads op => honest threads op = true) (beforeLinks selfNodeID discovery calls) ops
        nodeID conn := by
  have attested := attested_of_run (fun _ _ => id) run
  refine ⟨attested.filed, fun t nodeID conn place => ?_⟩
  have backed := attested.calls t
  rwa [place] at backed

end Runs

/-! ### A reply with another name -/

/-- The raft IDs of two nodes; no IP address is parsed. -/
private def twoPeers : LinkEnv where
  stringToUint64 node := if node = "n" then 1 else 2
  parseIP _ := none

private def peerNamed (node : String) : PeerInfo := ⟨node, "", 0, ⟨.dns, node⟩⟩

private def knownPeers : ServiceDiscovery := .new twoPeers.stringToUint64 [peerNamed "n", peerNamed "m"]

/-- One call connects to a node, the other sends a raft message to the node `n`. -/
private def connectAndSend (node : String) : Bool → LinkCall
  | false => .connect node
  | true => .sendRaftMessage 1

/-- The peer shows a certificate for its own name and replies that it is `n`. -/
private def exchange (node : String) : List (Bool × LinkInput) :=
  [(false, .go), (false, .dialed (.ok ⟨0, { dnsNames := [node] }⟩)), (false, .reply 0 (.ok "n")),
    (true, .go), (true, .go)]

private def honestExchange : Option (Threads Bool Links LinkPhase) :=
  (exchange "n").foldlM (fun threads op => if honest threads op = true then linkStep twoPeers threads op else none)
    (beforeLinks "self" knownPeers (connectAndSend "n"))

private theorem honestExchange_executes : honestExchange.isSome = true := rfl

theorem raft_message_to_authenticated_node :
    (Option.get _ honestExchange_executes).locals true = .sent "n" ⟨0, { dnsNames := ["n"] }⟩ ∧
    Authenticated twoPeers (fun threads op => honest threads op = true)
      (beforeLinks "self" knownPeers (connectAndSend "n")) (exchange "n") "n" ⟨0, { dnsNames := ["n"] }⟩ :=
  ⟨rfl, (filed_under_authenticated_node twoPeers "self" knownPeers (connectAndSend "n") (exchange "n") _
    (Run.of_guarded (Option.some_get honestExchange_executes).symm)).2 true "n" _ rfl⟩

private def forgedExchange : Option (Threads Bool Links LinkPhase) :=
  (exchange "m").foldlM (linkStep twoPeers) (beforeLinks "self" knownPeers (connectAndSend "m"))

private theorem forgedExchange_executes : forgedExchange.isSome = true := rfl

/-- The peer `m`, dialled as `m` and verified as `m`, replies that it is `n`. The
connection is filed under `n`, whose identity the certificate does not show, and
the raft message for `n` goes to `m`. -/
theorem forged_reply_filed_under_other_node :
    (Option.get _ forgedExchange_executes).shared.quic.outgoingConns.get "n" = some ⟨0, { dnsNames := ["m"] }⟩ ∧
    (Option.get _ forgedExchange_executes).locals true = .sent "n" ⟨0, { dnsNames := ["m"] }⟩ ∧
    knownPeers.lookup "n" = some (peerNamed "n") ∧
    verifyTLSIdentity twoPeers.parseIP { dnsNames := ["m"] } (peerNamed "n").identity ≠ .ok () ∧
    ¬ Authenticated twoPeers (fun _ _ => True) (beforeLinks "self" knownPeers (connectAndSend "m")) (exchange "m")
      "n" ⟨0, { dnsNames := ["m"] }⟩ := by
  refine ⟨rfl, rfl, rfl, fun passed => ?_, ?_⟩
  · cases passed
  · -- no call of the run connects to the node that the connection is filed under
    rintro ⟨t, _, _, _, _, ⟨_, _, _, _, run, called, _⟩, _⟩
    have call := called_of_run run called
    cases t <;> simp [connectAndSend] at call

end Cue.Cluster
