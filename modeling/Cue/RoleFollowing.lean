import Cue.Cluster.Agent
import Cue.Cluster.EntryCodec
import Cue.StorageRuns

/-! The role that raft has and the role that the agent shows. The raft loop puts
an event on `notifyCh` when `handleReady` sees another role or leader than the
last time, and remembers the new ones whether or not there was room; the agent's
goroutine takes the events off one by one. The channel is shared with the events
of configuration changes and compactions.

The events that are still to be handled decide what the agent will show, so
`RoleFeed.settled` is what is followed through a run. -/
namespace Cue.Cluster
open Cue.Lib Cue.Model

/-- The raft loop and the goroutine of `handleRaftNotifications`. -/
structure RoleFeed (M : Type) where
  node : CRaft M
  agent : ClusterAgent
  isVoter : Bool
  snapshotIndex : Nat
  /-- the event that was received and not yet handled -/
  handling : Option NotifyEvent
  /-- the role in the most recent `handleReady` -/
  observed : Option RaftState

inductive RoleOp (M : Type) where
  /-- the next action of a `handleReady` -/
  | act (action : Action M)
  | compact
  | receive
  | handle

/-- The status that stands for a role. -/
def roleStatus : RaftState → UInt32
  | .leader => 73
  | .follower => 71
  | .candidate | .preCandidate => ClusterAgent.unavailable

namespace RoleFeed

variable {M : Type}

/-- The switch of `handleRaftNotifications`. -/
def handleNotification (s : RoleFeed M) : NotifyEvent → RoleFeed M
  | .roleIsVoter => { s with isVoter := true }
  | .roleIsNonVoter => { s with isVoter := false }
  | .walCompact snapshotIndex => { s with snapshotIndex := snapshotIndex }
  | .roleChange _ leaderID role term => { s with agent := s.agent.applyRoleChange leaderID role term }

def step (codec : Codec) (conf : ConfCodec) (s : RoleFeed M) : RoleOp M → Option (RoleFeed M)
  | .act action => some { s with
      node := s.node.act codec conf action
      observed := match action with
        | .checkRole status => some status.raftState
        | _ => s.observed }
  | .compact => some { s with node := s.node.handleSnapshot }
  | .receive =>
    match s.handling, s.node.notifyCh with
    | none, event :: rest => some { s with node := { s.node with notifyCh := rest }, handling := some event }
    | _, _ => none
  | .handle =>
    match s.handling with
    | some event => some { s.handleNotification event with handling := none }
    | none => none

/-- A node and an agent that were just created. -/
def new (raftID : Nat) (storage : StorageCore) (nodeID : String) (discovery : Discovery)
    (channels : FinMap String (List Command)) (deadJobs : List String) : RoleFeed M where
  node := .new raftID storage
  agent := .new nodeID discovery channels deadJobs
  isVoter := false
  snapshotIndex := 0
  handling := none
  observed := none

/-- `notifyCh` is empty and the receiver idle. -/
def Idle (s : RoleFeed M) : Prop := s.node.notifyCh = [] ∧ s.handling = none

/-- The agent shows the role that `handleReady` saw last. -/
def Follows (s : RoleFeed M) : Prop :=
  ∀ role, s.observed = some role → (s.agent.isLeader = true ↔ role = .leader) ∧ s.agent.status = roleStatus role

/-- A `handleReady` that sees a role of another status finds room on `notifyCh`,
and the first one, if it must be told at all, differs from a follower without a
leader, which the node starts as. -/
def Heard (s : RoleFeed M) : RoleOp M → Prop
  | .act (.checkRole status) =>
    (s.observed = none → roleStatus status.raftState ≠ ClusterAgent.unavailable →
      (status.raftState ≠ .follower ∨ status.lead ≠ 0) ∧ s.node.notifyCh.length < channelCapacity) ∧
    ∀ role ∈ s.observed, roleStatus status.raftState ≠ roleStatus role → s.node.notifyCh.length < channelCapacity
  | _ => True

instance (s : RoleFeed M) (op : RoleOp M) : Decidable (s.Heard op) :=
  match op with
  | .act (.checkRole _) => inferInstanceAs (Decidable (_ ∧ _))
  | .act (.installSnapshot _) | .act (.setHardState _) | .act (.append _) | .act (.send _) | .act (.apply _ _)
  | .compact | .receive | .handle => isTrue trivial

/-! ### What is still to be handled -/

/-- The status that an event sets. -/
def eventStatus : NotifyEvent → Option UInt32
  | .roleChange _ _ role _ => some (roleStatus role)
  | _ => none

def settle (status : UInt32) (events : List NotifyEvent) : UInt32 :=
  events.foldl (fun status event => (eventStatus event).getD status) status

/-- The events that are still to be handled, in order. -/
def pending (s : RoleFeed M) : List NotifyEvent := s.handling.toList ++ s.node.notifyCh

/-- The status that the agent will show when all pending events are handled. -/
def settled (s : RoleFeed M) : UInt32 := settle s.agent.status s.pending

theorem settle_append (status : UInt32) (events more : List NotifyEvent) :
    settle status (events ++ more) = settle (settle status events) more := by
  simp [settle]

theorem settle_quiet (status : UInt32) {events : List NotifyEvent} (quiet : ∀ event ∈ events, eventStatus event = none) :
    settle status events = status := by
  induction events with
  | nil => rfl
  | cons event events ih =>
    have first := quiet event List.mem_cons_self
    have rest := ih fun other member => quiet other (List.mem_cons_of_mem _ member)
    simpa [settle, first] using rest

end RoleFeed

/-! ### What the raft loop does to the channel -/

namespace CRaft

variable {M : Type} {c : CRaft M}

/-- A step of the raft loop that is not about the role: it can only add events
of another kind. -/
structure Quiet (c c' : CRaft M) : Prop where
  role : c'.prevRole = c.prevRole
  leader : c'.prevLeaderID = c.prevLeaderID
  events : ∃ events, (∀ event ∈ events, RoleFeed.eventStatus event = none) ∧ c'.notifyCh = c.notifyCh ++ events

theorem Quiet.refl (c : CRaft M) : Quiet c c := ⟨rfl, rfl, [], by simp, by simp⟩

theorem Quiet.trans {c' c'' : CRaft M} (first : Quiet c c') (second : Quiet c' c'') : Quiet c c'' := by
  obtain ⟨events, quiet, added⟩ := first.events
  obtain ⟨events', quiet', added'⟩ := second.events
  refine ⟨second.role.trans first.role, second.leader.trans first.leader, events ++ events', ?_, ?_⟩
  · intro event member
    rcases List.mem_append.mp member with early | late
    · exact quiet event early
    · exact quiet' event late
  · rw [added', added, List.append_assoc]

theorem notify_quiet {event : NotifyEvent} (other : RoleFeed.eventStatus event = none) : Quiet c (c.notify event) := by
  unfold notify
  split
  · exact ⟨rfl, rfl, [event], by simpa using other, rfl⟩
  · exact .refl c

theorem persist_quiet (codec : Codec) (entry : Entry) : Quiet c (c.persist codec entry) := by
  unfold persist
  split <;> exact ⟨rfl, rfl, [], by simp, by simp⟩

theorem deliver_quiet (committed : CommittedEntry) : Quiet c (c.deliver committed) := by
  unfold deliver
  split
  · exact ⟨rfl, rfl, [], by simp, by simp⟩
  · exact .refl c

theorem handleConfChange_quiet (cs : ConfState) : Quiet c (c.handleConfChange cs) := by
  have stored : Quiet c { c with storage := c.storage.setConfState cs } := ⟨rfl, rfl, [], by simp, by simp⟩
  refine stored.trans (notify_quiet ?_)
  split <;> rfl

theorem applyCommittedEntry_quiet (codec : Codec) (conf : ConfCodec) (entry : Entry) (configured : Configured) :
    Quiet c (c.applyCommittedEntry codec conf entry configured) := by
  have finish (c : CRaft M) (committed : CommittedEntry) : Quiet c ((c.persist codec entry).deliver committed) :=
    (persist_quiet codec entry).trans (deliver_quiet committed)
  unfold applyCommittedEntry switchType
  cases conf.changes entry with
  | error _ => exact .refl c
  | ok changes =>
    cases changes with
    | none => exact finish c _
    | some _ => exact (handleConfChange_quiet configured.confState).trans (finish _ _)

theorem handleSnapshot_quiet : Quiet c c.handleSnapshot := by
  unfold handleSnapshot
  split
  · exact .refl c
  · rename_i storage _
    have stored : Quiet c { c with storage := storage } := ⟨rfl, rfl, [], by simp, by simp⟩
    exact stored.trans (notify_quiet rfl)

/-- Only the first action of a `handleReady` is about the role. -/
theorem act_quiet (codec : Codec) (conf : ConfCodec) {action : Action M} (other : ∀ status, action ≠ .checkRole status) :
    Quiet c (c.act codec conf action) := by
  cases action with
  | checkRole status => exact absurd rfl (other status)
  | installSnapshot _ | setHardState _ | append _ | send _ => exact ⟨rfl, rfl, [], by simp, by simp [act]⟩
  | apply entry configured => exact applyCommittedEntry_quiet codec conf entry configured

/-- What `handleReady` does about the role: the node remembers it, and an event
is added if role or leader is another one and there is room. -/
theorem checkRole_spec (c : CRaft M) (status : RaftStatus) :
    (c.checkRole status).prevRole = status.raftState ∧ (c.checkRole status).prevLeaderID = status.lead ∧
      (c.checkRole status).notifyCh = c.notifyCh ++
        if (status.raftState ≠ c.prevRole ∨ status.lead ≠ c.prevLeaderID) ∧ c.notifyCh.length < channelCapacity then
          [.roleChange (status.raftState = .leader) status.lead status.raftState status.term]
        else [] := by
  unfold checkRole notify
  by_cases changed : status.raftState ≠ c.prevRole ∨ status.lead ≠ c.prevLeaderID
  · by_cases room : c.notifyCh.length < channelCapacity <;> simp [changed, room]
  · obtain ⟨role, lead⟩ := not_or.mp changed
    simp [not_not.mp role, not_not.mp lead]

end CRaft

/-! ### Runs -/

namespace RoleFeed

variable {M : Type} {codec : Codec} {conf : ConfCodec} {s s' : RoleFeed M} {status : RaftStatus}

theorem roleStatus_leader (role : RaftState) : roleStatus role = 73 ↔ role = .leader := by
  cases role <;> decide

/-- What `handleReady` makes of what the agent will show. -/
theorem settled_checkRole (s : RoleFeed M) (status : RaftStatus) (observed : Option RaftState) :
    settled { s with node := s.node.checkRole status, observed := observed } =
      if (status.raftState ≠ s.node.prevRole ∨ status.lead ≠ s.node.prevLeaderID) ∧
        s.node.notifyCh.length < channelCapacity then roleStatus status.raftState else s.settled := by
  unfold settled pending
  dsimp only
  rw [(s.node.checkRole_spec status).2.2, ← List.append_assoc, settle_append]
  split
  · simp [settle, eventStatus]
  · rfl

theorem settled_quiet {node : CRaft M} (quiet : s.node.Quiet node) : settled { s with node := node } = s.settled := by
  obtain ⟨events, others, added⟩ := quiet.events
  unfold settled pending
  dsimp only
  rw [added, ← List.append_assoc, settle_append, settle_quiet _ others]

/-- The agent's two fields agree with one another, and once all is handled the
agent shows the role that was seen last, or is as unavailable as at the start. -/
structure Tracks (s : RoleFeed M) : Prop where
  leads : s.agent.isLeader = true ↔ s.agent.status = 73
  unseen : s.observed = none →
    s.node.prevRole = .follower ∧ s.node.prevLeaderID = 0 ∧ s.settled = ClusterAgent.unavailable
  seen : ∀ role, s.observed = some role → s.node.prevRole = role ∧ s.settled = roleStatus role

theorem Tracks.start (raftID : Nat) (storage : StorageCore) (nodeID : String) (discovery : Discovery)
    (channels : FinMap String (List Command)) (deadJobs : List String) :
    (new raftID storage nodeID discovery channels deadJobs : RoleFeed M).Tracks := by
  refine ⟨?_, fun _ => ⟨rfl, rfl, rfl⟩, ?_⟩
  · simp [new, ClusterAgent.new, ClusterAgent.unavailable]
  · intro role seen
    cases seen

/-- The condition on a `handleReady` is exactly that the agent will be told. -/
theorem Tracks.heard_iff (tracks : s.Tracks) (status : RaftStatus) (observed : Option RaftState) :
    s.Heard (.act (.checkRole status)) ↔
      settled { s with node := s.node.checkRole status, observed := observed } = roleStatus status.raftState := by
  rw [settled_checkRole]
  unfold Heard
  cases before : s.observed with
  | none =>
    obtain ⟨role, lead, unavailable⟩ := tracks.unseen before
    rw [role, lead, unavailable]
    simp only [true_imp_iff, Option.mem_def, reduceCtorEq, false_imp_iff, implies_true, and_true]
    split
    · rename_i told
      exact ⟨fun _ => rfl, fun _ _ => told⟩
    · rename_i untold
      constructor
      · intro heard
        by_contra other
        exact untold (heard (Ne.symm other))
      · intro same needed
        exact absurd same.symm needed
  | some role =>
    obtain ⟨previous, shown⟩ := tracks.seen role before
    rw [previous, shown]
    simp only [reduceCtorEq, false_imp_iff, Option.mem_def, Option.some.injEq, forall_eq', true_and]
    split
    · rename_i told
      exact ⟨fun _ => rfl, fun _ _ => told.2⟩
    · rename_i untold
      constructor
      · intro heard
        by_contra other
        have changed : status.raftState ≠ role := by
          rintro rfl
          exact other rfl
        exact untold ⟨Or.inl changed, heard (Ne.symm other)⟩
      · intro same needed
        exact absurd same.symm needed

theorem handleNotification_spec (s : RoleFeed M) (event : NotifyEvent) :
    (s.handleNotification event).node = s.node ∧ (s.handleNotification event).observed = s.observed ∧
      (s.handleNotification event).agent.status = (eventStatus event).getD s.agent.status ∧
      ((s.agent.isLeader = true ↔ s.agent.status = 73) →
        ((s.handleNotification event).agent.isLeader = true ↔ (s.handleNotification event).agent.status = 73)) := by
  cases event with
  | roleChange isLeader leaderID role term =>
    refine ⟨rfl, rfl, ?_, fun _ => ?_⟩
    · cases role <;> rfl
    · cases role <;> simp [handleNotification, ClusterAgent.applyRoleChange, ClusterAgent.unavailable]
  | roleIsVoter | roleIsNonVoter | walCompact _ => exact ⟨rfl, rfl, rfl, id⟩

/-- Another step of the raft loop changes nothing that is tracked. -/
theorem Tracks.quiet {node : CRaft M} (tracks : s.Tracks) (quiet : s.node.Quiet node) :
    Tracks { s with node := node } := by
  refine ⟨tracks.leads, ?_, ?_⟩
  · intro unseen
    rw [settled_quiet quiet]
    dsimp only
    rw [quiet.role, quiet.leader]
    exact tracks.unseen unseen
  · intro role seen
    rw [settled_quiet quiet]
    dsimp only
    rw [quiet.role]
    exact tracks.seen role seen

/-- The receiver moves an event on or handles it; what the agent will show stays. -/
theorem Tracks.of_settled (tracks : s.Tracks) (leads : s'.agent.isLeader = true ↔ s'.agent.status = 73)
    (role : s'.node.prevRole = s.node.prevRole) (leader : s'.node.prevLeaderID = s.node.prevLeaderID)
    (observed : s'.observed = s.observed) (settled : s'.settled = s.settled) : s'.Tracks := by
  refine ⟨leads, ?_, ?_⟩
  · intro unseen
    rw [role, leader, settled]
    exact tracks.unseen (observed ▸ unseen)
  · intro seenRole seen
    rw [role, settled]
    exact tracks.seen seenRole (observed ▸ seen)

theorem settled_receive {event : NotifyEvent} {rest : List NotifyEvent} (free : s.handling = none)
    (channel : s.node.notifyCh = event :: rest) :
    settled { s with node := { s.node with notifyCh := rest }, handling := some event } = s.settled := by
  simp [settled, pending, free, channel]

theorem settled_handle {event : NotifyEvent} (busy : s.handling = some event) :
    settled { s.handleNotification event with handling := none } = s.settled := by
  obtain ⟨node, _, status, _⟩ := s.handleNotification_spec event
  simp [settled, pending, busy, node, status, settle]

theorem Tracks.step {op : RoleOp M} (tracks : s.Tracks) (heard : s.Heard op)
    (stepped : s.step codec conf op = some s') : s'.Tracks := by
  cases op with
  | act action =>
    by_cases role : ∃ status, action = .checkRole status
    · obtain ⟨status, rfl⟩ := role
      have told := (tracks.heard_iff status (some status.raftState)).mp heard
      cases stepped
      refine ⟨tracks.leads, ?_, ?_⟩
      · intro unseen
        cases unseen
      · intro role seen
        cases seen
        exact ⟨(s.node.checkRole_spec status).1, told⟩
    · have other : ∀ status, action ≠ .checkRole status := fun status same => role ⟨status, same⟩
      have kept := tracks.quiet (s.node.act_quiet codec conf other)
      cases stepped
      cases action with
      | checkRole status => exact absurd rfl (other status)
      | _ => exact kept
  | compact =>
    cases stepped
    exact tracks.quiet s.node.handleSnapshot_quiet
  | receive =>
    simp only [RoleFeed.step] at stepped
    split at stepped
    · rename_i event rest free channel
      cases stepped
      exact tracks.of_settled tracks.leads rfl rfl rfl (settled_receive free channel)
    · cases stepped
  | handle =>
    simp only [RoleFeed.step] at stepped
    split at stepped
    · rename_i event busy
      cases stepped
      obtain ⟨node, observed, _, leads⟩ := s.handleNotification_spec event
      exact tracks.of_settled (leads tracks.leads) (by rw [node]) (by rw [node]) observed (settled_handle busy)
    · cases stepped

/-- At rest the agent shows what was settled. -/
theorem Tracks.follows (tracks : s.Tracks) (idle : s.Idle) : s.Follows := by
  obtain ⟨empty, free⟩ := idle
  have shown : s.settled = s.agent.status := by
    simp [settled, pending, empty, free, settle]
  intro role seen
  obtain ⟨_, settled⟩ := tracks.seen role seen
  rw [shown] at settled
  exact ⟨by rw [tracks.leads, settled, roleStatus_leader], settled⟩

/-! ### The receiver alone -/

/-- The receiver alone comes from `s` to rest at `s'`. -/
structure Drained (codec : Codec) (conf : ConfCodec) (s s' : RoleFeed M) : Prop where
  reached : ∃ ops : List (RoleOp M), (∀ op ∈ ops, op = .receive ∨ op = .handle) ∧
    ops.foldlM (step codec conf) s = some s'
  idle : s'.Idle
  observed : s'.observed = s.observed
  status : s'.agent.status = s.settled
  leads : (s.agent.isLeader = true ↔ s.agent.status = 73) → (s'.agent.isLeader = true ↔ s'.agent.status = 73)

namespace Drained

theorem rest (codec : Codec) (conf : ConfCodec) (idle : s.Idle) : Drained codec conf s s := by
  refine ⟨⟨[], by simp, rfl⟩, idle, rfl, ?_, id⟩
  simp [settled, pending, idle.1, idle.2, settle]

/-- One more step of the receiver in front. -/
theorem before {middle : RoleFeed M} {op : RoleOp M} (drained : Drained codec conf middle s')
    (receiver : op = .receive ∨ op = .handle) (stepped : s.step codec conf op = some middle)
    (observed : middle.observed = s.observed) (settled : middle.settled = s.settled)
    (leads : (s.agent.isLeader = true ↔ s.agent.status = 73) →
      (middle.agent.isLeader = true ↔ middle.agent.status = 73)) : Drained codec conf s s' := by
  obtain ⟨ops, only, executed⟩ := drained.reached
  refine ⟨⟨op :: ops, ?_, ?_⟩, drained.idle, drained.observed.trans observed, drained.status.trans settled,
    fun agrees => drained.leads (leads agrees)⟩
  · intro other member
    rcases List.mem_cons.mp member with rfl | member
    · exact receiver
    · exact only other member
  · rw [List.foldlM_cons, stepped]
    exact executed

theorem handle {event : NotifyEvent} (busy : s.handling = some event)
    (drained : Drained codec conf { s.handleNotification event with handling := none } s') :
    Drained codec conf s s' := by
  obtain ⟨_, observed, _, leads⟩ := s.handleNotification_spec event
  exact drained.before (Or.inr rfl) (by simp [step, busy]) observed (settled_handle busy) leads

theorem receive {event : NotifyEvent} {rest : List NotifyEvent} (free : s.handling = none)
    (channel : s.node.notifyCh = event :: rest)
    (drained : Drained codec conf { s with node := { s.node with notifyCh := rest }, handling := some event } s') :
    Drained codec conf s s' :=
  drained.before (Or.inl rfl) (by simp [step, free, channel]) rfl (settled_receive free channel) id

end Drained

private theorem drains_free (codec : Codec) (conf : ConfCodec) (events : List NotifyEvent) (s : RoleFeed M)
    (free : s.handling = none) (channel : s.node.notifyCh = events) : ∃ s', Drained codec conf s s' := by
  induction events generalizing s with
  | nil => exact ⟨s, .rest codec conf ⟨channel, free⟩⟩
  | cons event events ih =>
    let received : RoleFeed M := { s with node := { s.node with notifyCh := events }, handling := some event }
    obtain ⟨s', drained⟩ := ih { received.handleNotification event with handling := none } rfl (by
      show (received.handleNotification event).node.notifyCh = events
      rw [(received.handleNotification_spec event).1])
    exact ⟨s', .receive free channel (.handle rfl drained)⟩

/-- The receiver comes to rest. -/
theorem drains (codec : Codec) (conf : ConfCodec) (s : RoleFeed M) : ∃ s', Drained codec conf s s' := by
  cases busy : s.handling with
  | none => exact drains_free codec conf s.node.notifyCh s busy rfl
  | some event =>
    obtain ⟨s', drained⟩ := drains_free codec conf _ { s.handleNotification event with handling := none } rfl rfl
    exact ⟨s', .handle busy drained⟩

/-- The agent will show the role of a `handleReady` exactly if it is heard. -/
theorem Tracks.checked_follows_iff (tracks : s.Tracks) (drained : Drained codec conf
    { s with node := s.node.checkRole status, observed := some status.raftState } s') :
    s'.Follows ↔ s.Heard (.act (.checkRole status)) := by
  rw [tracks.heard_iff status (some status.raftState), ← drained.status]
  have leads := drained.leads tracks.leads
  constructor
  · intro follows
    exact (follows _ drained.observed).2
  · intro shown role seen
    rw [drained.observed] at seen
    cases seen
    exact ⟨by rw [leads, shown, roleStatus_leader], shown⟩

end RoleFeed

/-- Runs of a new node and a new agent in which every operation is admitted. -/
abbrev RoleRun {M : Type} (codec : Codec) (conf : ConfCodec) (admits : RoleFeed M → RoleOp M → Prop)
    (first : RoleFeed M) : List (RoleOp M) → RoleFeed M → Prop :=
  Run (fun s op s' => s.step codec conf op = some s') (fun _ => admits) first

/-- In a run in which every `handleReady` is heard the agent shows the role that
was seen last, whenever the channel is empty and the receiver idle. The
condition is exact: after one more `handleReady` the receiver comes to rest, and
the agent shows the new role if and only if it was heard. -/
theorem role_followed_while_heard {M : Type} {codec : Codec} {conf : ConfCodec} {raftID : Nat}
    {storage : StorageCore} {nodeID : String} {discovery : Discovery} {channels : FinMap String (List Command)}
    {deadJobs : List String} {ops : List (RoleOp M)} {s : RoleFeed M}
    (run : RoleRun codec conf RoleFeed.Heard (.new raftID storage nodeID discovery channels deadJobs) ops s) :
    (s.Idle → s.Follows) ∧
      ∀ status, ∃ s₁ s₂, s.step codec conf (.act (.checkRole status)) = some s₁ ∧
        RoleFeed.Drained codec conf s₁ s₂ ∧ (s₂.Follows ↔ s.Heard (.act (.checkRole status))) := by
  have tracks : s.Tracks := by
    refine run.invariant (fun _ s => s.Tracks) (.start raftID storage nodeID discovery channels deadJobs) ?_
    intro _ s op s' tracks heard stepped
    exact tracks.step heard stepped
  refine ⟨tracks.follows, fun status => ?_⟩
  obtain ⟨s₂, drained⟩ := RoleFeed.drains codec conf
    { s with node := s.node.checkRole status, observed := some status.raftState }
  exact ⟨_, s₂, rfl, drained, tracks.checked_follows_iff drained⟩

/-! ### Given runs -/

/-- A `Ready` that brings nothing but the status of the node. -/
private def roleReady (role : RaftState) (lead : Nat) : Ready Unit := ⟨⟨role, lead, 1⟩, none, {}, [], [], []⟩

private def roleStart : RoleFeed Unit := .new 1 (freshCore 100 0) "n" ⟨.empty, .empty⟩ .empty []

private def unconfigured : ConfCodec := ⟨fun _ => none, fun _ => none⟩

/-- A follower hears of `count` leaders, one after the other. -/
private def leaders (count : Nat) : List (RoleOp Unit) :=
  (List.range count).flatMap fun i => (handleReady (roleReady .follower (i + 1))).map .act

private theorem leaders_fill (count : Nat) (within : count ≤ channelCapacity) :
    ∃ s, (leaders count).foldlM (RoleFeed.step (wireCodec []) unconfigured) roleStart = some s ∧ s.Tracks ∧
      s.node.notifyCh.length = count ∧ s.node.prevLeaderID = count ∧
      (s.observed = none ∧ count = 0 ∨ s.observed = some .follower) := by
  induction count with
  | zero => exact ⟨roleStart, rfl, .start .., rfl, rfl, Or.inl ⟨rfl, rfl⟩⟩
  | succ count ih =>
    obtain ⟨s, executed, tracks, length, lead, observed⟩ := ih (by omega)
    have room : s.node.notifyCh.length < channelCapacity := by omega
    have changed : count + 1 ≠ s.node.prevLeaderID := by omega
    obtain ⟨role', lead', channel⟩ := s.node.checkRole_spec ⟨.follower, count + 1, 1⟩
    have heard : s.Heard (.act (.checkRole ⟨.follower, count + 1, 1⟩)) := by
      rcases observed with ⟨unseen, _⟩ | seen
      · simp [RoleFeed.Heard, unseen, room]
      · simp [RoleFeed.Heard, seen]
    have stepped : s.step (wireCodec []) unconfigured (.act (.checkRole ⟨.follower, count + 1, 1⟩)) = some
        { s with node := s.node.checkRole ⟨.follower, count + 1, 1⟩, observed := some .follower } := rfl
    refine ⟨_, ?_, tracks.step heard stepped, ?_, lead', Or.inr rfl⟩
    · rw [leaders, List.range_succ, List.flatMap_append, List.foldlM_append]
      show (leaders count).foldlM _ _ >>= _ = _
      rw [executed]
      rfl
    · show (s.node.checkRole _).notifyCh.length = count + 1
      rw [channel, if_pos ⟨Or.inr changed, room⟩]
      simp [length]

/-- The first `handleReady` of a follower without a leader tells the agent
nothing, so that it stays unavailable. And a node that becomes the leader while
the channel is full is not shown as the leader once all events are handled. -/
theorem role_change_unheard :
    (∃ s, RoleRun (wireCodec []) unconfigured (fun _ _ => True) roleStart
        ((handleReady (roleReady .follower 0)).map .act) s ∧
      s.Idle ∧ s.observed = some .follower ∧ s.agent.status = ClusterAgent.unavailable ∧ ¬ s.Follows) ∧
    ∃ ops s, RoleRun (wireCodec []) unconfigured (fun _ _ => True) roleStart
        (leaders channelCapacity ++ (handleReady (roleReady .leader 1)).map .act ++ ops) s ∧
      (∀ op ∈ ops, op = .receive ∨ op = .handle) ∧ s.Idle ∧ s.observed = some .leader ∧
      s.agent.isLeader = false ∧ ¬ s.Follows := by
  constructor
  · refine ⟨{ roleStart with observed := some .follower }, Run.of_execute (fun _ _ _ _ taken => ⟨trivial, taken⟩) rfl,
      ⟨rfl, rfl⟩, rfl, rfl, ?_⟩
    intro follows
    exact absurd (follows .follower rfl).2 (by decide)
  · obtain ⟨full, executed, tracks, length, _, observed⟩ := leaders_fill channelCapacity (Nat.le_refl _)
    have seen : full.observed = some .follower := observed.resolve_left (by simp [channelCapacity])
    obtain ⟨s, drained⟩ := RoleFeed.drains (wireCodec []) unconfigured
      { full with node := full.node.checkRole ⟨.leader, 1, 1⟩, observed := some .leader }
    obtain ⟨ops, only, received⟩ := drained.reached
    have unheard : ¬ full.Heard (.act (.checkRole ⟨.leader, 1, 1⟩)) := by
      simp only [RoleFeed.Heard, seen, length, Nat.lt_irrefl, imp_false, not_not]
      decide
    have unshown : ¬ s.Follows := fun follows => unheard ((tracks.checked_follows_iff drained).mp follows)
    refine ⟨ops, s, Run.of_execute (fun _ _ _ _ taken => ⟨trivial, taken⟩) ?_, only, drained.idle, drained.observed,
      ?_, unshown⟩
    · rw [List.foldlM_append, List.foldlM_append, executed]
      exact received
    · have status : s.agent.status = 71 := by
        rw [drained.status, RoleFeed.settled_checkRole, if_neg (by simp [length])]
        exact (tracks.seen .follower seen).2
      have leads := drained.leads tracks.leads
      rw [status] at leads
      simpa using leads

/-- A node becomes a follower and then the leader, and both events are handled. -/
private def heardOps : List (RoleOp Unit) :=
  (handleReady (roleReady .follower 2)).map .act ++ [.receive] ++ (handleReady (roleReady .leader 1)).map .act ++
    [.handle, .receive, .handle]

private theorem heard_executes : (heardOps.foldlM (fun (s : RoleFeed Unit) op =>
    if s.Heard op then s.step (wireCodec []) unconfigured op else none) roleStart).isSome = true := rfl

theorem leader_shown_after_follower : ∃ s : RoleFeed Unit,
    RoleRun (wireCodec []) unconfigured RoleFeed.Heard roleStart heardOps s ∧ s.observed = some .leader ∧ s.Idle ∧
      s.Follows := by
  have run : RoleRun (wireCodec []) unconfigured RoleFeed.Heard roleStart heardOps (Option.get _ heard_executes) :=
    Run.of_guarded (Option.some_get _).symm
  exact ⟨_, run, rfl, ⟨rfl, rfl⟩, (role_followed_while_heard run).1 ⟨rfl, rfl⟩⟩

end Cue.Cluster
