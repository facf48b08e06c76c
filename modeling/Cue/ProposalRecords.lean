import Cue.Cluster.Agent
import Cue.Cluster.EntryCodec
import Cue.Lib.Run
import Mathlib.Logic.Function.Basic

/-! The records of pending proposals in a cluster. A proposal ID is counted by
each node for itself, from zero after every start, and goes into the log with
the command; whoever applies the entry looks its own record up under it. The
log here is what raft agreed on: any proposal that was made may be committed or
lost, and every node applies the entries in order. -/
namespace Cue.Cluster
open Cue.Lib Cue.Model

variable {N : Type} {codec : Codec} {conf : ConfCodec}

/-- A command given to raft: by which node, in which of its lives. -/
structure Proposal (N : Type) where
  node : N
  life : Nat
  cmd : Command
  data : Bytes

structure Peer where
  agent : ClusterAgent
  /-- how often the node was started again -/
  life : Nat
  /-- how many entries of the log it has applied -/
  applied : Nat
  /-- the goroutine that applies entries has not ended -/
  running : Bool
  /-- for which command the record under an ID was registered -/
  registered : FinMap UInt64 Command

/-- A record that was consumed: the command in the entry, what was found, and
for which command that was registered. -/
structure Answer where
  cmd : Command
  respInfo : RespInfo
  registered : Option Command
  deriving DecidableEq

/-- The answer goes to whoever asked for the command. -/
def Answer.Own (answer : Answer) : Prop :=
  ∃ original, answer.registered = some original ∧ original.respInfo = some answer.respInfo ∧
    original.onWire = some answer.cmd

structure Nodes (N : Type) where
  peers : N → Peer
  proposals : List (Proposal N)
  /-- the committed entries, each with the proposal it stems from -/
  log : List (Entry × Option (Proposal N))
  answers : List Answer

inductive ClusterOp (N : Type) where
  | roleChange (node : N) (leaderRaftID : Nat) (role : RaftState) (term : Nat)
  | propose (node : N) (cmd : Command)
  /-- a proposal is committed -/
  | commit (term index : UInt64) (which : Nat)
  /-- an entry of raft's own is committed -/
  | commitOther (entry : Entry)
  | apply (node : N) (configured : Configured) (spawn : Except String Unit)
  | restart (node : N) (channels : FinMap String (List Command)) (deadJobs : List String) (applied : Nat)

namespace Peer

def propose (codec : Codec) (peer : Peer) (node : N) (cmd : Command) : Option (Peer × List (Proposal N)) :=
  match peer.agent.processCommand codec cmd with
  | .error _ => none
  | .ok (agent, outputs) =>
    let cmd := { cmd with proposeID := agent.proposalID }
    let registered :=
      if agent.proposalID = peer.agent.proposalID then peer.registered
      else peer.registered.set agent.proposalID cmd
    some ({ peer with agent := agent, registered := registered },
      (outputs.filterMap Output.proposal?).map fun data => ⟨node, peer.life, cmd, data⟩)

def answers (codec : Codec) (peer : Peer) (entry : Entry) : List Answer :=
  match entry.command codec with
  | none => []
  | some cmd =>
    match peer.agent.pendingProposals.get cmd.proposeID with
    | none => []
    | some respInfo => [⟨cmd, respInfo, peer.registered.get cmd.proposeID⟩]

def apply (codec : Codec) (conf : ConfCodec) (peer : Peer) (entry : Entry) (configured : Configured)
    (spawn : Except String Unit) : Peer :=
  let (agent, err) := peer.agent.processCommittedEntry codec conf
    ⟨entry.data, entry.index, entry.term, entry.type, configured.voters, configured.learners⟩ spawn
  { peer with agent := agent, applied := peer.applied + 1, running := err.isNone }

def restart (peer : Peer) (channels : FinMap String (List Command)) (deadJobs : List String) (applied : Nat) : Peer :=
  ⟨.new peer.agent.nodeID peer.agent.discovery channels deadJobs, peer.life + 1, applied, true, .empty⟩

end Peer

namespace Nodes

/-- Nodes that have just been started. -/
def start (names : N → String) (discovery : Discovery) (channels : FinMap String (List Command)) : Nodes N where
  peers node := ⟨.new (names node) discovery channels [], 0, 0, true, .empty⟩
  proposals := []
  log := []
  answers := []

/-- A panic ends the process: no step, the node is started again. -/
def step [DecidableEq N] (codec : Codec) (conf : ConfCodec) (s : Nodes N) : ClusterOp N → Option (Nodes N)
  | .roleChange node leaderRaftID role term =>
    let peer := s.peers node
    let peer := { peer with agent := peer.agent.applyRoleChange leaderRaftID role term }
    some { s with peers := Function.update s.peers node peer }
  | .propose node cmd =>
    match (s.peers node).propose codec node cmd with
    | none => none
    | some (peer, made) => some { s with
        peers := Function.update s.peers node peer
        proposals := s.proposals ++ made }
  | .commit term index which =>
    match s.proposals[which]? with
    | none => none
    | some proposal => some { s with log := s.log ++ [(⟨term, index, .normal, some proposal.data⟩, some proposal)] }
  | .commitOther entry =>
    if entry.type = .normal ∧ entry.data ≠ none then none else some { s with log := s.log ++ [(entry, none)] }
  | .apply node configured spawn =>
    let peer := s.peers node
    if peer.running then
      match s.log[peer.applied]? with
      | none => none
      | some (entry, _) => some { s with
          peers := Function.update s.peers node (peer.apply codec conf entry configured spawn)
          answers := s.answers ++ peer.answers codec entry }
    else none
  | .restart node channels deadJobs applied =>
    if applied ≤ s.log.length then
      some { s with peers := Function.update s.peers node ((s.peers node).restart channels deadJobs applied) }
    else none

/-- An entry that finds a record where it is applied was proposed there since
the node's last start; and no counter wraps around. -/
def Local (codec : Codec) (s : Nodes N) (op : ClusterOp N) : Prop :=
  match op with
  | .apply node _ _ => ∀ pair ∈ s.log[(s.peers node).applied]?, (s.peers node).answers codec pair.1 ≠ [] →
      ∃ proposal ∈ pair.2, proposal.node = node ∧ proposal.life = (s.peers node).life
  | .propose node _ => (s.peers node).agent.proposalID.toNat + 1 < 2 ^ 64
  | _ => True

instance [DecidableEq N] (s : Nodes N) (op : ClusterOp N) : Decidable (s.Local codec op) :=
  match op with
  | .apply node _ _ => inferInstanceAs (Decidable (∀ pair ∈ s.log[(s.peers node).applied]?, _ → ∃ p ∈ pair.2, _))
  | .propose _ _ => inferInstanceAs (Decidable (_ < _))
  | .roleChange _ _ _ _ | .commit _ _ _ | .commitOther _ | .restart _ _ _ _ => isTrue trivial

end Nodes

/-! ### What an agent does to its records -/

namespace ClusterAgent

variable {a a' : ClusterAgent} {cmd : Command} {outputs : List Output}

private theorem respondError_quiet (cmd : Command) (error : String) :
    (respondError cmd error).filterMap Output.proposal? = [] := by
  unfold respondError
  split <;> rfl

private theorem controlNode_quiet (a : ClusterAgent) (nodeID : String) (control : Nat → ControlCmd) :
    (a.controlNode nodeID control).filterMap Output.proposal? = [] := by
  unfold controlNode
  split
  · split <;> rfl
  · rfl

/-- Nothing is proposed and no record changes. -/
def Quiet (a a' : ClusterAgent) (outputs : List Output) : Prop :=
  a' = a ∧ outputs.filterMap Output.proposal? = []

/-- A record is registered under the next ID, and what is proposed encodes the command with it. -/
def Registers (codec : Codec) (a : ClusterAgent) (cmd : Command) (a' : ClusterAgent) (outputs : List Output) : Prop :=
  ∃ respInfo, cmd.respInfo = some respInfo ∧
    a' = { a with
      proposalID := a.proposalID + 1
      pendingProposals := a.pendingProposals.set (a.proposalID + 1) respInfo } ∧
    ∀ data ∈ outputs.filterMap Output.proposal?,
      codec.marshalCommand { cmd with proposeID := a.proposalID + 1 } = .ok data

private theorem propose_registers (ok : a.propose codec cmd = .ok (a', outputs)) :
    a.Registers codec cmd a' outputs := by
  unfold propose at ok
  simp only at ok
  split at ok
  · cases ok
  · rename_i respInfo asked
    refine ⟨respInfo, asked, ?_⟩
    split at ok
    · cases ok
      refine ⟨rfl, ?_⟩
      rw [respondError_quiet]
      simp
    · rename_i data marshalled
      cases ok
      refine ⟨rfl, ?_⟩
      simpa [Output.proposal?] using marshalled

private theorem processJobCommand_cases (ok : a.processJobCommand codec cmd = .ok (a', outputs)) :
    Quiet a a' outputs ∨ a.Registers codec cmd a' outputs := by
  unfold processJobCommand at ok
  split at ok
  · cases ok
    exact Or.inl ⟨rfl, respondError_quiet _ _⟩
  · split at ok
    · split at ok
      · cases ok
      · split at ok
        · cases ok
          exact Or.inl ⟨rfl, respondError_quiet _ _⟩
        · exact Or.inr (propose_registers ok)
    · exact Or.inr (propose_registers ok)

theorem processCommand_cases (ok : a.processCommand codec cmd = .ok (a', outputs)) :
    Quiet a a' outputs ∨ a.Registers codec cmd a' outputs := by
  unfold processCommand at ok
  split at ok
  · cases ok
    exact Or.inl ⟨rfl, rfl⟩
  split at ok
  · cases ok
    exact Or.inl ⟨rfl, rfl⟩
  split at ok
  · cases ok
    refine Or.inl ⟨rfl, ?_⟩
    cases cmd.peers <;> rfl
  -- the three commands about one node
  iterate 3
    · split at ok
      · cases ok
        exact Or.inl ⟨rfl, rfl⟩
      · cases ok
        exact Or.inl ⟨rfl, controlNode_quiet _ _ _⟩
  iterate 3 exact processJobCommand_cases ok
  · cases ok
    exact Or.inl ⟨rfl, respondError_quiet _ _⟩

/-- The counter stays, and records can only go. -/
def FewerRecords (a a' : ClusterAgent) : Prop :=
  a'.proposalID = a.proposalID ∧
    ∀ id respInfo, a'.pendingProposals.get id = some respInfo → a.pendingProposals.get id = some respInfo

private theorem deliverCommand_records (a : ClusterAgent) (topic : String) (cmd : Command)
    (spawn : Except String Unit) : FewerRecords a (a.deliverCommand topic cmd spawn).1 := by
  unfold deliverCommand
  split <;> exact ⟨rfl, fun _ _ found => found⟩

private theorem routeCommand_records (a : ClusterAgent) (cmd : Command) (spawn : Except String Unit) :
    FewerRecords a (a.routeCommand cmd spawn).1 := by
  have same : FewerRecords a a := ⟨rfl, fun _ _ found => found⟩
  unfold routeCommand
  split
  · split
    · exact same
    · split
      · exact same
      · split
        · exact same
        · exact deliverCommand_records a _ _ spawn
  · split
    · exact same
    · exact deliverCommand_records (a.forget _) _ _ spawn
  · split
    · exact same
    · exact deliverCommand_records (a.forget _) _ _ spawn
  · exact same

theorem processCommittedEntry_records (codec : Codec) (conf : ConfCodec) (a : ClusterAgent)
    (committed : CommittedEntry) (spawn : Except String Unit) :
    FewerRecords a (a.processCommittedEntry codec conf committed spawn).1 := by
  have same : FewerRecords a a := ⟨rfl, fun _ _ found => found⟩
  unfold processCommittedEntry
  simp only
  split
  iterate 2
    · unfold handleConfigChange
      simp only
      split <;> exact same
  · unfold handleNormalCommand
    simp only
    split
    · exact same
    · split
      · exact same
      · rename_i cmd _
        obtain ⟨counter, fewer⟩ := routeCommand_records (getAndRemovePendingResponse { a with
          currentTerm := committed.term.toNat, lastAppliedIndex := committed.index } cmd.proposeID).2 _ spawn
        refine ⟨counter, fun id respInfo found => ?_⟩
        have left := fewer id respInfo found
        simp only [getAndRemovePendingResponse, FinMap.get_delete] at left
        split at left
        · cases left
        · exact left
  · exact same

end ClusterAgent

/-! ### Where the records come from -/

structure Peer.Kept (peer : Peer) : Prop where
  recorded : ∀ id respInfo, peer.agent.pendingProposals.get id = some respInfo →
    ∃ original, peer.registered.get id = some original ∧ original.respInfo = some respInfo
  counted : ∀ id original, peer.registered.get id = some original → id.toNat ≤ peer.agent.proposalID.toNat

/-- A proposal encodes its command, and its node remembers it as long as it lives. -/
structure Proposal.Made (codec : Codec) (peers : N → Peer) (proposal : Proposal N) : Prop where
  encoded : codec.marshalCommand proposal.cmd = .ok proposal.data
  past : proposal.life ≤ (peers proposal.node).life
  known : proposal.life = (peers proposal.node).life →
    (peers proposal.node).registered.get proposal.cmd.proposeID = some proposal.cmd

/-- A node forgets its proposals only by a new start. -/
def Peer.Succeeds (peer peer' : Peer) : Prop :=
  peer.life < peer'.life ∨ peer'.life = peer.life ∧
    ∀ id original, peer.registered.get id = some original → peer'.registered.get id = some original

theorem Proposal.Made.update [DecidableEq N] {peers : N → Peer} {proposal : Proposal N}
    (made : proposal.Made codec peers) {node : N} {peer : Peer} (succeeds : (peers node).Succeeds peer) :
    proposal.Made codec (Function.update peers node peer) := by
  have past := made.past
  by_cases here : proposal.node = node
  · subst here
    refine ⟨made.encoded, ?_, ?_⟩
    · rw [Function.update_self]
      rcases succeeds with later | ⟨same, _⟩ <;> omega
    · rw [Function.update_self]
      intro alive
      rcases succeeds with later | ⟨same, keeps⟩
      · omega
      · exact keeps _ _ (made.known (by omega))
  · refine ⟨made.encoded, ?_, ?_⟩
    · rw [Function.update_of_ne here]
      exact past
    · rw [Function.update_of_ne here]
      exact made.known

structure Nodes.Attributed (codec : Codec) (s : Nodes N) : Prop where
  kept : ∀ node, (s.peers node).Kept
  made : ∀ proposal ∈ s.proposals, proposal.Made codec s.peers
  proposed : ∀ pair ∈ s.log, ∀ proposal ∈ pair.2, proposal ∈ s.proposals ∧ pair.1.data = some proposal.data
  own : ∀ answer ∈ s.answers, answer.Own

private theorem toNat_next {id : UInt64} (room : id.toNat + 1 < 2 ^ 64) : (id + 1).toNat = id.toNat + 1 := by
  rw [UInt64.toNat_add, UInt64.toNat_one]
  omega

/-- A command that is proposed gets an ID that was not used since the start. -/
theorem Peer.Kept.propose {peer peer' : Peer} {node : N} {cmd : Command} {made : List (Proposal N)}
    (kept : peer.Kept) (room : peer.agent.proposalID.toNat + 1 < 2 ^ 64)
    (ok : peer.propose codec node cmd = some (peer', made)) :
    peer'.Kept ∧ peer.Succeeds peer' ∧ ∀ proposal ∈ made, proposal.node = node ∧ proposal.life = peer'.life ∧
      codec.marshalCommand proposal.cmd = .ok proposal.data ∧
      peer'.registered.get proposal.cmd.proposeID = some proposal.cmd := by
  have next := toNat_next room
  unfold Peer.propose at ok
  split at ok
  · cases ok
  · rename_i agent outputs processed
    cases ok
    rcases ClusterAgent.processCommand_cases processed with ⟨rfl, quiet⟩ | ⟨respInfo, asked, rfl, encodes⟩
    · simp only [↓reduceIte, quiet, List.map_nil]
      exact ⟨kept, Or.inr ⟨rfl, fun _ _ found => found⟩, fun _ member => absurd member List.not_mem_nil⟩
    · have moved : ¬ peer.agent.proposalID + 1 = peer.agent.proposalID := by
        intro same
        rw [same] at next
        omega
      have fresh : peer.registered.get (peer.agent.proposalID + 1) = none := by
        apply Option.eq_none_iff_forall_ne_some.mpr
        intro original found
        have := kept.counted _ original found
        omega
      simp only [moved, ↓reduceIte]
      refine ⟨⟨?_, ?_⟩, Or.inr ⟨rfl, ?_⟩, ?_⟩
      · intro id info found
        simp only [FinMap.get_set] at found ⊢
        split at found
        · rename_i here
          cases found
          rw [if_pos here]
          exact ⟨_, rfl, asked⟩
        · rename_i elsewhere
          rw [if_neg elsewhere]
          exact kept.recorded id info found
      · intro id original found
        simp only [FinMap.get_set] at found
        simp only [next]
        split at found
        · rename_i here
          rw [here, next]
        · have := kept.counted id original found
          omega
      · intro id original found
        have elsewhere : ¬ id = peer.agent.proposalID + 1 := by
          rintro rfl
          rw [fresh] at found
          cases found
        simp only [FinMap.get_set, if_neg elsewhere]
        exact found
      · intro proposal member
        obtain ⟨data, sent, rfl⟩ := List.mem_map.mp member
        exact ⟨rfl, rfl, encodes data sent, FinMap.get_set_self _ _ _⟩

/-- An entry that was proposed here since the last start finds the record of its own command. -/
theorem Peer.Kept.answers {peer : Peer} {peers : N → Peer} {entry : Entry} {proposal : Proposal N} (kept : peer.Kept)
    (lawful : codec.LawfulCommands) (made : proposal.Made codec peers) (here : peers proposal.node = peer)
    (alive : proposal.life = peer.life) (carried : entry.data = some proposal.data) :
    ∀ answer ∈ peer.answers codec entry, answer.Own := by
  intro answer member
  unfold Peer.answers at member
  split at member
  · cases member
  · rename_i cmd decoded
    split at member
    · cases member
    · rename_i respInfo found
      rw [List.mem_singleton] at member
      subst member
      obtain ⟨wire, onWire, reads⟩ := lawful.roundTrip _ _ made.encoded
      have same : cmd = wire := by
        unfold Entry.command at decoded
        split at decoded
        · rw [carried, Option.bind_some, reads] at decoded
          exact (Option.some.inj decoded).symm
        · cases decoded
      subst same
      have known := made.known (here.symm ▸ alive)
      rw [here, ← (Command.onWire_plain onWire).1] at known
      obtain ⟨original, registered, asked⟩ := kept.recorded _ _ found
      rw [known] at registered
      cases registered
      exact ⟨proposal.cmd, known, asked, onWire⟩

namespace Nodes.Attributed

variable {s s' : Nodes N} {op : ClusterOp N}

theorem withPeer [DecidableEq N] (attributed : s.Attributed codec) (node : N) (peer : Peer) (kept : peer.Kept)
    (succeeds : (s.peers node).Succeeds peer) :
    Nodes.Attributed codec { s with peers := Function.update s.peers node peer } := by
  refine ⟨?_, ?_, attributed.proposed, attributed.own⟩
  · rw [Function.forall_update_iff s.peers (fun _ peer => peer.Kept)]
    exact ⟨kept, fun other _ => attributed.kept other⟩
  · intro proposal member
    exact (attributed.made proposal member).update succeeds

theorem withEntry (attributed : s.Attributed codec) (entry : Entry) (origin : Option (Proposal N))
    (carried : ∀ proposal ∈ origin, proposal ∈ s.proposals ∧ entry.data = some proposal.data) :
    Nodes.Attributed codec { s with log := s.log ++ [(entry, origin)] } := by
  refine ⟨attributed.kept, attributed.made, ?_, attributed.own⟩
  intro pair member proposal inside
  rcases List.mem_append.mp member with old | new
  · exact attributed.proposed pair old proposal inside
  · rw [List.mem_singleton] at new
    subst new
    exact carried proposal inside

theorem start (names : N → String) (discovery : Discovery) (channels : FinMap String (List Command)) :
    (Nodes.start names discovery channels).Attributed codec := by
  refine ⟨fun node => ⟨?_, ?_⟩, ?_, ?_, ?_⟩
  · intro id respInfo found
    cases found
  · intro id original found
    cases found
  all_goals
    intro _ member
    cases member

theorem step [DecidableEq N] (attributed : s.Attributed codec) (lawful : codec.LawfulCommands)
    (isLocal : s.Local codec op) (stepped : s.step codec conf op = some s') : s'.Attributed codec := by
  cases op with
  | roleChange node leaderRaftID role term =>
    cases stepped
    have kept := attributed.kept node
    exact attributed.withPeer node _ ⟨kept.recorded, kept.counted⟩ (Or.inr ⟨rfl, fun _ _ found => found⟩)
  | propose node cmd =>
    simp only [Nodes.step] at stepped
    split at stepped
    · cases stepped
    · rename_i peer made ok
      cases stepped
      obtain ⟨kept, succeeds, new⟩ := (attributed.kept node).propose isLocal ok
      have grown := attributed.withPeer node peer kept succeeds
      refine ⟨grown.kept, ?_, ?_, attributed.own⟩
      · intro proposal member
        rcases List.mem_append.mp member with old | fresh
        · exact grown.made proposal old
        · obtain ⟨rfl, life, encoded, known⟩ := new proposal fresh
          refine ⟨encoded, ?_, fun _ => ?_⟩
          · simp only [Function.update_self, life, Nat.le_refl]
          · simp only [Function.update_self]
            exact known
      · intro pair member proposal inside
        obtain ⟨old, data⟩ := attributed.proposed pair member proposal inside
        exact ⟨List.mem_append_left _ old, data⟩
  | commit term index which =>
    simp only [Nodes.step] at stepped
    split at stepped
    · cases stepped
    · rename_i proposal chosen
      cases stepped
      refine attributed.withEntry _ _ fun other inside => ?_
      cases inside
      exact ⟨List.mem_of_getElem? chosen, rfl⟩
  | commitOther entry =>
    simp only [Nodes.step] at stepped
    split at stepped
    · cases stepped
    · cases stepped
      exact attributed.withEntry entry none (by simp)
  | apply node configured spawn =>
    simp only [Nodes.step] at stepped
    split at stepped
    · split at stepped
      · cases stepped
      · rename_i entry origin next
        cases stepped
        have kept := attributed.kept node
        obtain ⟨counter, fewer⟩ := (s.peers node).agent.processCommittedEntry_records codec conf
          ⟨entry.data, entry.index, entry.term, entry.type, configured.voters, configured.learners⟩ spawn
        have grown := attributed.withPeer node ((s.peers node).apply codec conf entry configured spawn)
          ⟨fun id respInfo found => kept.recorded id respInfo (fewer id respInfo found),
            fun id original found => (kept.counted id original found).trans (Nat.le_of_eq (by rw [← counter]; rfl))⟩
          (Or.inr ⟨rfl, fun _ _ found => found⟩)
        refine ⟨grown.kept, grown.made, grown.proposed, ?_⟩
        intro answer member
        rcases List.mem_append.mp member with old | new
        · exact attributed.own answer old
        · obtain ⟨proposal, inside, rfl, alive⟩ := isLocal (entry, origin) next (List.ne_nil_of_mem new)
          obtain ⟨listed, carried⟩ := attributed.proposed (entry, origin) (List.mem_of_getElem? next) proposal inside
          exact kept.answers lawful (attributed.made proposal listed) rfl alive carried answer new
    · cases stepped
  | restart node channels deadJobs applied =>
    simp only [Nodes.step] at stepped
    split at stepped
    · cases stepped
      refine attributed.withPeer node _ ⟨?_, ?_⟩ (Or.inl (Nat.lt_succ_self _))
      · intro id respInfo found
        cases found
      · intro id original found
        cases found
    · cases stepped

end Nodes.Attributed

/-- In a run in which every entry that finds a record where it is applied was
proposed there since the node's last start, and no counter wraps around, every
consumed record was registered for the command in the entry. -/
theorem answers_own_in_local_run [DecidableEq N] (lawful : codec.LawfulCommands) (names : N → String)
    (discovery : Discovery) (channels : FinMap String (List Command)) {ops : List (ClusterOp N)} {s : Nodes N}
    (run : Run (fun s op s' => s.step codec conf op = some s') (fun _ => Nodes.Local codec)
      (Nodes.start names discovery channels) ops s) : ∀ answer ∈ s.answers, answer.Own := by
  have attributed : s.Attributed codec := by
    refine run.invariant (fun _ s => Nodes.Attributed codec s) (.start names discovery channels) ?_
    intro _ s op s' attributed isLocal stepped
    exact attributed.step lawful isLocal stepped
  exact attributed.own

/-- Two nodes with one topic. -/
private def twoNodes : Nodes (Fin 2) :=
  .start (fun node => if node = 0 then "n1" else "n2") ⟨.empty, (FinMap.empty.set 1 "n1").set 2 "n2"⟩
    (FinMap.empty.set "t" [])

/-- The first proposals of the two nodes. -/
private def firstMessages : List (Bytes × Command) := [addMessage 1 .t .a, addMessage 1 .t .b]

private def askFor (message : Bytes × Command) (requestID : UInt32) : Command :=
  { message.2 with proposeID := 0, respInfo := some ⟨requestID, some 0⟩ }

private def plain : ConfCodec := ⟨fun _ => none, fun _ => none⟩

private def lostOps : List (ClusterOp (Fin 2)) :=
  [.roleChange 0 1 .leader 1, .propose 0 (askFor (addMessage 0 .t .a) 7), .roleChange 0 2 .follower 2,
    .roleChange 1 2 .leader 2, .propose 1 (askFor (addMessage 0 .t .b) 9), .commit 2 1 1, .apply 0 {} (.ok ())]

private theorem lost_executes :
    (lostOps.foldlM (fun s op => s.step (wireCodec firstMessages) plain op) twoNodes :
      Option (Nodes (Fin 2))).isSome = true := rfl

/-- The first node's proposal is lost with its leadership. The second node's
first proposal has the same ID, and on the first node it takes the record. -/
theorem lost_proposal_takes_foreign_answer : ∃ (ops : List (ClusterOp (Fin 2))) (s : Nodes (Fin 2)),
    Run (fun s op s' => s.step (wireCodec firstMessages) plain op = some s') (fun _ _ _ => True) twoNodes ops s ∧
      ∃ answer ∈ s.answers, answer.cmd = (addMessage 1 .t .b).2 ∧
        answer.registered = some { (addMessage 1 .t .a).2 with respInfo := some ⟨7, some 0⟩ } ∧ ¬ answer.Own := by
  refine ⟨lostOps, Option.get _ lost_executes,
    Run.of_execute (fun _ _ _ _ taken => ⟨trivial, taken⟩) (Option.some_get _).symm,
    ⟨(addMessage 1 .t .b).2, ⟨7, some 0⟩, some { (addMessage 1 .t .a).2 with respInfo := some ⟨7, some 0⟩ }⟩,
    by decide, rfl, rfl, ?_⟩
  rintro ⟨original, registered, _, onWire⟩
  cases registered
  revert onWire
  decide

private def answeredOps : List (ClusterOp (Fin 2)) :=
  [.roleChange 0 1 .leader 1, .propose 0 (askFor (addMessage 0 .t .a) 7), .commit 1 1 0, .apply 0 {} (.ok ()),
    .apply 1 {} (.ok ())]

private theorem answered_executes :
    (answeredOps.foldlM (fun s op => if s.Local (wireCodec firstMessages) op then
      s.step (wireCodec firstMessages) plain op else none) twoNodes : Option (Nodes (Fin 2))).isSome = true := rfl

/-- The leader's proposal is committed and applied on both nodes: it answers its client once. -/
theorem applied_proposal_answers_its_client : ∃ s : Nodes (Fin 2), s.answers.length = 1 ∧
    ∀ answer ∈ s.answers, answer.Own :=
  ⟨_, by decide, answers_own_in_local_run (@wireCodec_lawfulCommands firstMessages (by decide)) _ _ _
    (Run.of_guarded (Option.some_get answered_executes).symm)⟩

end Cue.Cluster
