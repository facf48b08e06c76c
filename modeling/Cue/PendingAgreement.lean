import Cue.BatchAdmission
import Cue.Cluster.EntryCodec
import Cue.CommandReplay
import Cue.StorageRuns

/-! The pending jobs of a topic, once in the job index of the storage and once
in the partition. Both see the same committed entries, but the index takes every
`AddJobs` as it comes, while the partition refuses a job whose ID is still
stored or for which the queue has no cell. -/
namespace Cue.Cluster
open Cue.Lib Cue.Model Cue.State

variable {codec : Codec} {topic : String} {entry : Entry} {cmd : Command} {id : String}

/-- What a node keeps of a topic. -/
structure Node where
  core : StorageCore
  agent : ClusterAgent
  partition : Partition

/-- A committed entry goes to the storage and through the agent, and the
partition takes what was put on its channel. -/
def Node.apply (codec : Codec) (topic : String) (node : Node) (entry : Entry) (clock : Nat → Nat → Clock) :
    Except RebuildError Node :=
  match node.core.appendCommitted codec entry with
  | .error err => .error (.wal err)
  | .ok core =>
    match replayEntry codec node.agent entry with
    | .error err => .error (.apply err)
    | .ok agent =>
      match node.partition.processAll (agent.queue topic) clock with
      | .error panic => .error (.panicked panic)
      | .ok p => .ok ⟨core, { agent with channels := agent.channels.set topic [] }, p⟩

/-- The job is pending in the index, as `findFirstIndexToKeep` counts it. -/
def StorageCore.Awaits (core : StorageCore) (id : String) : Prop :=
  ∃ state, core.jobIndex.get id = some state ∧ state.Waits

def Node.Agrees (node : Node) : Prop := ∀ id, node.core.Awaits id ↔ node.partition.pending id = true

/-- An entry of the topic that names no empty ID, with slots to spare for it. -/
def Node.Admits (codec : Codec) (topic : String) (node : Node) (entry : Entry) : Prop :=
  0 < entry.index.toNat ∧ ∃ data cmd, entry.data = some data ∧ codec.command data = some cmd ∧
    JobCommand topic cmd ∧ "" ∉ addedIDs cmd ∧
    node.partition.jobStore.jobs.length + (Partition.batchOf cmd).length < 2 ^ 32

/-- No job of the command is stored as done, and the queue has a cell for every
ID that is not stored. -/
def Takes (p : Partition) (cmd : Command) : Prop :=
  (∀ id ∈ addedIDs cmd, p.jobStore.byID.contains id = true → p.pending id = true) ∧
    p.newcomers (Partition.batchOf cmd) ≤ p.freeCells

instance (p : Partition) (cmd : Command) : Decidable (Takes p cmd) := inferInstanceAs (Decidable (_ ∧ _))

def TakesEntry (codec : Codec) (p : Partition) (entry : Entry) : Prop :=
  ∀ cmd ∈ codec.command (entry.data.getD []), Takes p cmd

/-- The runs in which the partition takes every command. -/
abbrev NodeRun (codec : Codec) (topic : String) (first : Node) : List (Entry × (Nat → Nat → Clock)) → Node → Prop :=
  Run (fun node op node' => node.apply codec topic op.1 op.2 = .ok node')
    (fun _ node op => node.Admits codec topic op.1 ∧ TakesEntry codec node.partition op.1) first

/-! ### The index -/

theorem StorageCore.appendCommitted_jobIndex {core core' : StorageCore}
    (ok : core.appendCommitted codec entry = .ok core') :
    core'.jobIndex = indexEntry codec true core.jobIndex entry := by
  obtain ⟨wal, writeBuffer, rfl⟩ := appendCommitted_frame ok
  rfl

theorem awaits_appendCommitted {core core' : StorageCore} (positive : 0 < entry.index.toNat)
    (ok : core.appendCommitted codec entry = .ok core') :
    core'.Awaits id ↔ Adds codec entry id ∨ ¬ Completes codec entry id ∧ core.Awaits id := by
  unfold StorageCore.Awaits
  rw [StorageCore.appendCommitted_jobIndex ok]
  by_cases adds : Adds codec entry id
  · rw [indexEntry_added adds]
    refine iff_of_true ⟨_, rfl, positive, rfl⟩ (Or.inl adds)
  · by_cases completes : Completes codec entry id
    · obtain ⟨kind, nonempty, after⟩ := @indexEntry_completed _ true _ core.jobIndex _ completes
      rw [after]
      refine iff_of_false ?_ (by simp [adds, completes])
      rintro ⟨state, same, _, incomplete⟩
      cases same
      exact nonempty incomplete
    · rw [indexEntry_other adds completes]
      simp [adds, completes]

/-! ### The partition -/

/-- The partition follows the index in one command exactly if it takes it. -/
theorem command_pending_iff {p : Partition} {clock : Nat → Clock} {handled : Partition.Handled} (valid : p.Valid)
    (command : JobCommand topic cmd) (slots : p.jobStore.jobs.length + (Partition.batchOf cmd).length < 2 ^ 32)
    (ok : p.handleCommand cmd clock = .ok handled) :
    (∀ id, handled.partition.pending id = true ↔
      id ∈ addedIDs cmd ∨ id ∉ completedIDs cmd ∧ p.pending id = true) ↔ Takes p cmd := by
  have stepped := Partition.command_stepped valid ok
  generalize handled.partition = p' at stepped ⊢
  generalize ({ accepted := handled.accepted } : Partition.Effect) = effect at stepped
  cases command with
  | addJobs proposeID jobs uniform =>
    have unflagged : ∀ job ∈ jobs, job.done = false := by
      intro job member
      rw [← (uniform job member).2]
      rfl
    have nothing : ∀ id, id ∉ completedIDs
        { type := .addJobs, proposeID := proposeID, addJobs := some ⟨topic, jobs⟩ } := fun _ => List.not_mem_nil
    cases stepped with
    | @addJobs _ _ payload _ _ type carried added =>
      cases carried
      refine Iff.trans ?_ (Partition.addJobs_pending_iff unflagged valid slots added)
      constructor
      · intro follows id member
        exact (follows id).mpr (Or.inl member)
      · intro taken id
        by_cases member : id ∈ jobs.map Job.id
        · exact iff_of_true (taken id member) (Or.inl member)
        · rw [Partition.addJobs_pending_other unflagged valid slots added member]
          exact ⟨fun still => Or.inr ⟨nothing id, still⟩, fun either => (either.resolve_left member).2⟩
    | done type => cases type
    | drop type => cases type
    | ignored carried => cases carried rfl
    | proxies command => exact absurd rfl (command _ _)
  | done proposeID jobIDs =>
    cases stepped with
    | addJobs type => cases type
    | @done _ _ payload _ type carried finished =>
      cases carried
      refine iff_of_true (fun id => ?_) ⟨nofun, Nat.zero_le _⟩
      rw [Partition.pending_done valid finished]
      simp [addedIDs, completedIDs]
    | drop type => cases type
    | ignored _ carried => cases carried rfl
    | proxies command => exact absurd rfl (command _ _)
  | drop proposeID jobIDs =>
    cases stepped with
    | addJobs type => cases type
    | done type => cases type
    | @drop _ _ payload _ type carried dropped =>
      cases carried
      refine iff_of_true (fun id => ?_) ⟨nofun, Nat.zero_le _⟩
      rw [Partition.pending_drop dropped]
      simp [addedIDs, completedIDs]
    | ignored _ _ carried => cases carried rfl
    | proxies command => exact absurd rfl (command _ _)

/-! ### Steps and runs -/

/-- With no dead jobs a command arrives as it is; a batch without jobs is left out. -/
private theorem routed_none (command : JobCommand topic cmd) :
    routed [] cmd = if cmd.addJobs.any (fun payload => payload.jobs.isEmpty) then [] else [cmd] := by
  cases command with
  | addJobs proposeID jobs =>
    have same : jobs.map (ClusterAgent.markDead []) = jobs := List.map_id jobs
    cases jobs with
    | nil => rfl
    | cons job jobs =>
      have alive : ¬ ∀ other ∈ job :: jobs, other.id ∈ ([] : List String) := fun all => nomatch all job (by simp)
      simp only [routed, if_neg alive, same]
      rfl
  | done => rfl
  | drop => rfl

/-- What holds between a node's parts while nothing is under way. -/
structure Node.Settled (topic : String) (node : Node) : Prop where
  plain : node.partition.Plain
  drained : node.agent.queue topic = []
  alive : node.agent.deadJobs = []
  unasked : ∀ id, node.agent.pendingProposals.get id = none
  agrees : node.Agrees

theorem Node.Settled.apply {node : Node} {core : StorageCore} (settled : node.Settled topic)
    (admitted : node.Admits codec topic entry) (stored : node.core.appendCommitted codec entry = .ok core)
    (clock : Nat → Nat → Clock) :
    ∃ node', node.apply codec topic entry clock = .ok node' ∧
      (node'.Agrees ↔ TakesEntry codec node.partition entry) ∧ (node'.Agrees → node'.Settled topic) := by
  obtain ⟨positive, data, cmd, carried, decoded, command, named, slots⟩ := admitted
  have adds : ∀ id, Adds codec entry id ↔ id ∈ addedIDs cmd := by simp [Adds, carried, decoded]
  have completes : ∀ id, Completes codec entry id ↔ id ∈ completedIDs cmd := by simp [Completes, carried, decoded]
  have takes : TakesEntry codec node.partition entry ↔ Takes node.partition cmd := by
    simp [TakesEntry, carried, decoded]
  obtain ⟨agent, applied, routes⟩ := replayEntry_routes carried decoded command settled.unasked
  have arrived : agent.queue topic = routed [] cmd := by
    rw [routes.own, settled.drained, settled.alive]
    rfl
  have alive : agent.deadJobs = [] := by
    apply List.eq_nil_iff_forall_not_mem.mpr
    intro id dead
    rw [routes.dead, settled.alive] at dead
    exact List.not_mem_nil dead.1
  -- the partition after what arrived, and when it follows the index
  obtain ⟨p, processed, plain, follows⟩ : ∃ p, node.partition.processAll (agent.queue topic) clock = .ok p ∧
      p.Plain ∧ ((∀ id, p.pending id = true ↔
        id ∈ addedIDs cmd ∨ id ∉ completedIDs cmd ∧ node.partition.pending id = true) ↔ Takes node.partition cmd) := by
    rw [arrived, routed_none command]
    split
    · rename_i empty
      refine ⟨node.partition, rfl, settled.plain, ?_⟩
      cases command with
      | addJobs proposeID jobs =>
        have none : jobs = [] := by simpa using empty
        subst none
        exact iff_of_true (fun id => by simp [addedIDs, completedIDs]) ⟨by simp [addedIDs], Nat.zero_le _⟩
      | done => cases empty
      | drop => cases empty
    · have present : ∀ job ∈ Partition.batchOf cmd, job.id ≠ "" := by
        intro job member anonymous
        cases command with
        | addJobs proposeID jobs => exact named (anonymous ▸ List.mem_map_of_mem member)
        | done => cases member
        | drop => cases member
      obtain ⟨handled, ok, advanced, _⟩ := Partition.handleCommand_advanced settled.plain slots present (clock 0)
      exact ⟨handled.partition, by simp [Partition.processAll, ok], advanced.plain,
        command_pending_iff settled.plain.valid command slots ok⟩
  have agrees : (∀ id, core.Awaits id ↔ p.pending id = true) ↔ Takes node.partition cmd := by
    rw [← follows]
    refine forall_congr' fun id => ?_
    rw [awaits_appendCommitted positive stored, adds, completes, settled.agrees id]
    exact Iff.comm
  refine ⟨⟨core, { agent with channels := agent.channels.set topic [] }, p⟩, ?_, agrees.trans takes.symm, ?_⟩
  · simp only [Node.apply, stored, applied, processed]
  · intro still
    refine ⟨plain, ?_, alive, routes.unasked, still⟩
    simp [ClusterAgent.queue, FinMap.get_set_self]

/-- An empty storage and an empty partition get the same entries. While the
partition takes every command, the jobs pending in the index are those pending
in the partition; and they still are after one more entry exactly if the
partition takes that one too. -/
theorem pending_agrees_while_taken {first : StorageCore} {flushThreshold segmentSize : Nat} {nodeID : String}
    {discovery : Discovery} {config : PartitionConfig} {nowMilli : Int}
    {ops : List (Entry × (Nat → Nat → Clock))} {node : Node}
    (opened : newRaftStorage codec .empty flushThreshold segmentSize = .ok first)
    (run : NodeRun codec topic ⟨first, .new nodeID discovery .empty [], .new topic config nowMilli⟩ ops node) :
    node.Agrees ∧ ∀ entry core clock, node.Admits codec topic entry →
      node.core.appendCommitted codec entry = .ok core →
      ∃ node', node.apply codec topic entry clock = .ok node' ∧
        (node'.Agrees ↔ TakesEntry codec node.partition entry) := by
  have settled : node.Settled topic := by
    refine Run.invariant (fun _ node => node.Settled topic) ?_ ?_ run
    · rw [newRaftStorage_empty] at opened
      cases opened
      refine ⟨⟨Partition.new_valid topic config nowMilli, rfl⟩, rfl, rfl, fun _ => rfl, fun id => ?_⟩
      refine iff_of_false ?_ (by simp [Partition.pending, Partition.new])
      rintro ⟨state, found, _⟩
      cases found
    · rintro _ node op node' settled ⟨admitted, taken⟩ stepped
      cases stored : node.core.appendCommitted codec op.1 with
      | error err => simp [Node.apply, stored] at stepped
      | ok core =>
        obtain ⟨after, applied, agrees, keeps⟩ := settled.apply admitted stored op.2
        cases stepped.symm.trans applied
        exact keeps (agrees.mpr taken)
  refine ⟨settled.agrees, fun entry core clock admitted stored => ?_⟩
  obtain ⟨node', applied, agrees, _⟩ := settled.apply admitted stored clock
  exact ⟨node', applied, agrees⟩

private def repeatMessages : List (Bytes × Command) :=
  [addMessage 1 .t .a, doneMessage 2 .t .a, addMessage 3 .t .a]

private def repeatCodec : Codec := wireCodec repeatMessages

private def repeatNode : Node :=
  ⟨freshCore 1 0, .new "n" ⟨.empty, .empty⟩ .empty [], .new "t" ⟨8, 3, 60, 16, 1000, 1000⟩ 1000⟩

private def repeatClock : Nat → Nat → Clock := fun _ _ => ⟨1000, 1⟩

private def applyAll (entries : List Entry) : Option Node :=
  entries.foldlM (fun node entry => (Node.apply repeatCodec "t" node entry repeatClock).toOption) repeatNode

-- the runs below are evaluated
set_option maxRecDepth 4000

private theorem repeat_applies : (applyAll (messageEntries 1 repeatMessages)).isSome = true := rfl

private theorem repeat_commands : ∀ message ∈ repeatMessages,
    repeatCodec.command message.1 = some message.2 ∧ JobCommand "t" message.2 ∧ "" ∉ addedIDs message.2 := by
  have decoded : ∀ message ∈ repeatMessages,
      repeatCodec.command message.1 = some message.2 ∧ "" ∉ addedIDs message.2 := by decide
  intro message member
  refine ⟨(decoded message member).1, ?_, (decoded message member).2⟩
  simp only [repeatMessages, List.mem_cons, List.not_mem_nil, or_false] at member
  rcases member with rfl | rfl | rfl
  · exact addMessage_command 1 .t .a
  · exact doneMessage_command 2 .t .a
  · exact addMessage_command 3 .t .a

/-- A job is finished and added again before its slot is released: the index
waits for it, and the partition has refused it as a duplicate. -/
theorem repeated_job_pins_log : ∃ node, applyAll (messageEntries 1 repeatMessages) = some node ∧
    (∀ message ∈ repeatMessages,
      repeatCodec.command message.1 = some message.2 ∧ JobCommand "t" message.2 ∧ "" ∉ addedIDs message.2) ∧
    node.core.Awaits "a" ∧ node.partition.pending "a" = false := by
  refine ⟨Option.get _ repeat_applies, (Option.some_get _).symm, repeat_commands, ?_, by decide⟩
  exact ⟨⟨3, 2, .none⟩, by decide, by decide, rfl⟩

private theorem message_taken {node : Node} {entry : Entry} {message : Bytes × Command}
    (member : message ∈ repeatMessages) (carried : entry.data = some message.1) (positive : 0 < entry.index.toNat)
    (room : node.partition.jobStore.jobs.length + (Partition.batchOf message.2).length < 2 ^ 32)
    (taken : Takes node.partition message.2) :
    node.Admits repeatCodec "t" entry ∧ TakesEntry repeatCodec node.partition entry := by
  obtain ⟨decoded, command, named⟩ := repeat_commands message member
  refine ⟨⟨positive, _, _, carried, decoded, command, named, room⟩, fun cmd read => ?_⟩
  rw [carried] at read
  cases decoded.symm.trans read
  exact taken

private def addEntry : Entry := ⟨1, 1, .normal, some (addMessage 1 .t .a).1⟩

private def doneEntry : Entry := ⟨1, 2, .normal, some (doneMessage 2 .t .a).1⟩

private theorem add_applies : (repeatNode.apply repeatCodec "t" addEntry repeatClock).toOption.isSome = true := rfl

private theorem done_applies :
    ((Option.get _ add_applies).apply repeatCodec "t" doneEntry repeatClock).toOption.isSome = true := rfl

/-- A job is added to an empty partition and finished. -/
theorem finished_job_agrees : ∃ node,
    NodeRun repeatCodec "t" repeatNode [(addEntry, repeatClock), (doneEntry, repeatClock)] node ∧
      node.Agrees ∧ node.partition.pending "a" = false := by
  have added : NodeRun repeatCodec "t" repeatNode [(addEntry, repeatClock)] (Option.get _ add_applies) :=
    .next .start (@message_taken repeatNode addEntry (addMessage 1 .t .a) (by decide) rfl (by decide) (by decide)
      (by decide)) (ok_of_toOption add_applies)
  have run : NodeRun repeatCodec "t" repeatNode [(addEntry, repeatClock), (doneEntry, repeatClock)]
      (Option.get _ done_applies) :=
    added.next (@message_taken _ doneEntry (doneMessage 2 .t .a) (by decide) rfl (by decide) (by decide)
      (by decide)) (ok_of_toOption done_applies)
  exact ⟨_, run, (pending_agrees_while_taken (newRaftStorage_empty _ 1 0) run).1, by decide⟩

end Cue.Cluster
