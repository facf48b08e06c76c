import Cue.Cluster.EntryCodec
import Cue.CommandReplay
import Cue.StorageRuns

/-! Two topics in one log. After a restart the job index is read from all
entries, the dead jobs are taken from it, and the log is replayed past them into
the partitions. Partitions keep their own IDs, but the index and the dead jobs
know an ID only once for all topics.

- `rebuild` is what a restart makes of the storage and of one topic.
- `reaching` are the topic's commands that get past the dead jobs for an ID.
- `Held` says when the job index keeps an entry.
- `rebuilt_topics_agree_iff` compares two logs with the same commands for the topic. -/
namespace Cue.Cluster
open Cue.Lib Cue.Model Cue.State

variable {codec : Codec} {topic : String} {log : List Entry} {entry : Entry} {id : String}

/-! ### Restart -/

/-- What a restarted node reads from elsewhere. -/
structure Restart where
  nodeID : String
  discovery : Discovery
  config : PartitionConfig
  nowMilli : Int
  clock : Nat → Nat → Clock

/-- The storage is recovered, all its entries go through the agent, and a new
partition gets the commands that were put on the topic's channel. -/
def rebuild (codec : Codec) (core : StorageCore) (restart : Restart) (topic : String) :
    Except RebuildError (StorageCore × Partition) :=
  match core.wal.recover codec core.snapshotMeta.index with
  | .error err => .error (.wal err)
  | .ok log =>
    match core.recover codec with
    | .error err => .error (.wal err)
    | .ok recovered =>
      match replay codec (.new restart.nodeID restart.discovery .empty recovered.getCompletedJobIDs) log with
      | .error err => .error (.apply err)
      | .ok agent =>
        match (Partition.new topic restart.config restart.nowMilli).processAll (agent.queue topic) restart.clock with
        | .error panic => .error (.panicked panic)
        | .ok p => .ok (recovered, p)

/-- The topic's last command that names the job is the `AddJobs` in this entry. -/
def LeftPending (codec : Codec) (topic : String) (log : List Entry) (id : String) (entry : Entry) : Prop :=
  ∃ before after, log = before ++ entry :: after ∧ (∃ cmd ∈ ownCommand codec topic entry, id ∈ addedIDs cmd) ∧
    ∀ later ∈ after, ∀ cmd ∈ ownCommand codec topic later, id ∉ addedIDs cmd ∧ id ∉ completedIDs cmd

/-- The topic's commands that count for a job: of a dead one, only those from the
first completion on, since that is where the agent forgets it. -/
def reaching (codec : Codec) (topic id : String) (log : List Entry) : List Command :=
  ownCommands codec topic (if Dead codec log id then behind codec id log else log)

private theorem LeftPending.adds (left : LeftPending codec topic log id entry) :
    entry ∈ log ∧ Adds codec entry id := by
  obtain ⟨before, after, rfl, ⟨cmd, own, added⟩, _⟩ := left
  refine ⟨by simp, ?_⟩
  simp only [ownCommand, Option.mem_def] at own
  split at own
  · rename_i found decoded
    split at own
    · cases own
      exact ⟨found, decoded, added⟩
    · cases own
  · cases own

/-! ### Two logs -/

/-- What a restart makes of one log: its topic gets the commands that reach each job. -/
theorem rebuild_reaching {core : StorageCore} (commands : JobLog codec log) (ascending : Ascending log)
    (read : core.wal.recover codec core.snapshotMeta.index = .ok log)
    (named : ∀ cmd ∈ ownCommands codec topic log, "" ∉ addedIDs cmd)
    (few : ((ownCommands codec topic log).flatMap Partition.batchOf).length < 2 ^ 32) (restart : Restart) :
    ∃ after p, rebuild codec core restart topic = .ok (after, p) ∧
      (0 < p.freeCells → ∀ id, p.waiting id = leftWaiting id (reaching codec topic id log)) ∧
      ∀ id entry, LeftPending codec topic log id entry →
        (after.findFirstIndexToKeep ≤ entry.index.toNat ↔ Held codec log entry.index.toNat) := by
  have indexed : ∃ after, core.recover codec = .ok after ∧
      after.jobIndex = log.foldl (indexEntry codec false) .empty := by
    unfold StorageCore.recover
    rw [read]
    exact ⟨_, rfl, StorageCore.updateIndices_jobIndex⟩
  obtain ⟨after, recovered, index⟩ := indexed
  obtain ⟨agent, replayed, routed⟩ :=
    replay_routed commands topic restart.nodeID restart.discovery after.getCompletedJobIDs
  have present : ∀ job ∈ (agent.queue topic).flatMap Partition.batchOf, job.id ≠ "" := by
    intro job member anonymous
    obtain ⟨cmd, own, added⟩ := routed.named job member
    exact named cmd own (anonymous ▸ added)
  obtain ⟨p, processed, stored⟩ := Partition.new_processAll topic restart.config restart.nowMilli
    (routed.few.trans_lt few) present restart.clock
  refine ⟨after, p, ?_, ?_, ?_⟩
  · simp only [rebuild, read, recovered, replayed, processed]
  · intro spare id
    rw [Partition.waiting, stored spare, leftWaiting, routed.stored, reaching]
    simp only [mem_getCompletedJobIDs index ascending]
  · intro id entry left
    obtain ⟨member, adds⟩ := left.adds
    exact keep_le_iff index ascending member adds (ascending.positive member)

/-- Two logs with the same commands for a topic that never uses the empty ID,
with queues that were never full. The topic's waiting jobs agree exactly if they
do for the IDs that are dead in one of the logs, going by the commands that reach
them; and the entries that the topic needs are kept exactly if they are held. -/
theorem rebuilt_topics_agree_iff {core₁ core₂ : StorageCore} {log₁ log₂ : List Entry}
    (commands₁ : JobLog codec log₁) (commands₂ : JobLog codec log₂)
    (ascending₁ : Ascending log₁) (ascending₂ : Ascending log₂)
    (read₁ : core₁.wal.recover codec core₁.snapshotMeta.index = .ok log₁)
    (read₂ : core₂.wal.recover codec core₂.snapshotMeta.index = .ok log₂)
    (same : ownCommands codec topic log₁ = ownCommands codec topic log₂)
    (named : ∀ cmd ∈ ownCommands codec topic log₁, "" ∉ addedIDs cmd)
    (few : ((ownCommands codec topic log₁).flatMap Partition.batchOf).length < 2 ^ 32) (restart₁ restart₂ : Restart) :
    ∃ after₁ p₁ after₂ p₂, rebuild codec core₁ restart₁ topic = .ok (after₁, p₁) ∧
      rebuild codec core₂ restart₂ topic = .ok (after₂, p₂) ∧
      (0 < p₁.freeCells → 0 < p₂.freeCells →
        ((∀ id, p₁.waiting id = p₂.waiting id) ↔ ∀ id, Dead codec log₁ id ∨ Dead codec log₂ id →
          leftWaiting id (reaching codec topic id log₁) = leftWaiting id (reaching codec topic id log₂))) ∧
      (∀ id entry, LeftPending codec topic log₁ id entry →
        (after₁.findFirstIndexToKeep ≤ entry.index.toNat ↔ Held codec log₁ entry.index.toNat)) ∧
      ∀ id entry, LeftPending codec topic log₂ id entry →
        (after₂.findFirstIndexToKeep ≤ entry.index.toNat ↔ Held codec log₂ entry.index.toNat) := by
  obtain ⟨after₁, p₁, rebuilt₁, waiting₁, keep₁⟩ := rebuild_reaching commands₁ ascending₁ read₁ named few restart₁
  obtain ⟨after₂, p₂, rebuilt₂, waiting₂, keep₂⟩ :=
    rebuild_reaching commands₂ ascending₂ read₂ (same ▸ named) (same ▸ few) restart₂
  refine ⟨after₁, p₁, after₂, p₂, rebuilt₁, rebuilt₂, ?_, keep₁, keep₂⟩
  intro spare₁ spare₂
  constructor
  · intro agree id _
    rw [← waiting₁ spare₁, ← waiting₂ spare₂, agree]
  · intro agree id
    rw [waiting₁ spare₁, waiting₂ spare₂]
    by_cases dead : Dead codec log₁ id ∨ Dead codec log₂ id
    · exact agree id dead
    · obtain ⟨alive₁, alive₂⟩ := not_or.mp dead
      rw [reaching, reaching, if_neg alive₁, if_neg alive₂, same]

private def sharedMessages : List (Bytes × Command) :=
  [addMessage 1 .t .a, doneMessage 2 .c .a, addMessage 3 .c .a, addMessage 4 .c .c, doneMessage 5 .c .c]

private def sharedCodec : Codec := wireCodec sharedMessages

/-- A storage to which the messages were committed, each flushed at once. -/
private def committedCore (messages : List (Bytes × Command)) : Option StorageCore :=
  (messageEntries 1 messages).foldlM (fun core entry => (core.appendCommitted sharedCodec entry).toOption)
    (freshCore 1 0)

private def sharedRestart : Restart :=
  ⟨"n", ⟨.empty, .empty⟩, ⟨8, 3, 60, 16, 1000, 1000⟩, 1000, fun _ _ => ⟨1000, 1⟩⟩

private theorem alone_commits : (committedCore (sharedMessages.take 1)).isSome = true := rfl

private theorem finished_commits : (committedCore (sharedMessages.take 2)).isSome = true := rfl

private theorem alone_rebuilds :
    (rebuild sharedCodec (Option.get _ alone_commits) sharedRestart "t").toOption.isSome = true := rfl

private theorem finished_rebuilds :
    (rebuild sharedCodec (Option.get _ finished_commits) sharedRestart "t").toOption.isSome = true := rfl

private theorem message_jobLog {messages : List (Bytes × Command)} {first : Nat}
    (known : ∀ message ∈ messages, sharedCodec.command message.1 = some message.2 ∧
      ∃ topic, JobCommand topic message.2) : JobLog sharedCodec (messageEntries first messages) := by
  intro entry member
  obtain ⟨i, bound, rfl⟩ := List.mem_mapIdx.mp member
  obtain ⟨decoded, topic, command⟩ := known messages[i] (List.getElem_mem bound)
  exact ⟨_, topic, _, rfl, decoded, command⟩

private theorem shared_commands : ∀ message ∈ sharedMessages,
    sharedCodec.command message.1 = some message.2 ∧ ∃ topic, JobCommand topic message.2 := by
  have decoded : ∀ message ∈ sharedMessages, sharedCodec.command message.1 = some message.2 := by decide
  intro message member
  refine ⟨decoded message member, ?_⟩
  simp only [sharedMessages, List.mem_cons, List.not_mem_nil, or_false] at member
  rcases member with rfl | rfl | rfl | rfl | rfl
  · exact ⟨_, addMessage_command 1 .t .a⟩
  · exact ⟨_, doneMessage_command 2 .c .a⟩
  · exact ⟨_, addMessage_command 3 .c .a⟩
  · exact ⟨_, addMessage_command 4 .c .c⟩
  · exact ⟨_, doneMessage_command 5 .c .c⟩

private theorem shared_jobLog {messages : List (Bytes × Command)}
    (fewer : ∀ message ∈ messages, message ∈ sharedMessages) : JobLog sharedCodec (messageEntries 1 messages) :=
  message_jobLog fun message member => shared_commands message (fewer message member)

/-- Another topic finishes a job of its own under the same ID: after a restart
the job is gone from the topic that never finished it, and its entry may be cut. -/
theorem foreign_done_removes_job : ∃ core₁ core₂ log₁ log₂ after₁ p₁ after₂ p₂ entry,
    JobLog sharedCodec log₁ ∧ JobLog sharedCodec log₂ ∧ Ascending log₁ ∧ Ascending log₂ ∧
      core₁.wal.recover sharedCodec core₁.snapshotMeta.index = .ok log₁ ∧
      core₂.wal.recover sharedCodec core₂.snapshotMeta.index = .ok log₂ ∧
      ownCommands sharedCodec "t" log₁ = ownCommands sharedCodec "t" log₂ ∧
      rebuild sharedCodec core₁ sharedRestart "t" = .ok (after₁, p₁) ∧
      rebuild sharedCodec core₂ sharedRestart "t" = .ok (after₂, p₂) ∧
      0 < p₁.freeCells ∧ 0 < p₂.freeCells ∧ p₁.waiting "a" ≠ p₂.waiting "a" ∧
      LeftPending sharedCodec "t" log₂ "a" entry ∧ entry.index.toNat < after₂.findFirstIndexToKeep := by
  refine ⟨Option.get _ alone_commits, Option.get _ finished_commits, messageEntries 1 (sharedMessages.take 1),
    messageEntries 1 (sharedMessages.take 2), _, _, _, _, ⟨1, 1, .normal, some (addMessage 1 .t .a).1⟩,
    shared_jobLog fun _ => List.mem_of_mem_take, shared_jobLog fun _ => List.mem_of_mem_take, by decide, by decide,
    by decide, by decide, by decide, ok_of_toOption alone_rebuilds, ok_of_toOption finished_rebuilds,
    by decide, by decide, by decide, ?_, by decide⟩
  exact ⟨[], messageEntries 2 [doneMessage 2 .c .a], by decide, by decide, by decide⟩

private def neighbourMessages : List (Bytes × Command) :=
  [addMessage 3 .c .a, addMessage 1 .t .a, addMessage 4 .c .c, doneMessage 5 .c .c]

-- the runs below are evaluated
set_option maxRecDepth 4000

private theorem neighbour_commits : (committedCore neighbourMessages).isSome = true := rfl

private theorem completes_of_dead (dead : Dead codec log id) : ∃ entry ∈ log, Completes codec entry id := by
  rcases @lastCompleted_source codec log id with zero | ⟨entry, member, completes, _⟩
  · have completed := Nat.lt_of_lt_of_le dead.1 dead.2
    omega
  · exact ⟨entry, member, completes⟩

/-- A topic that adds the same ID earlier and finishes another job changes nothing. -/
theorem neighbour_leaves_job : ∃ after₁ p₁ after₂ p₂,
    rebuild sharedCodec (Option.get _ alone_commits) sharedRestart "t" = .ok (after₁, p₁) ∧
      rebuild sharedCodec (Option.get _ neighbour_commits) sharedRestart "t" = .ok (after₂, p₂) ∧
      (0 < p₁.freeCells → 0 < p₂.freeCells → ∀ id, p₁.waiting id = p₂.waiting id) ∧
      after₂.findFirstIndexToKeep ≤ 2 := by
  have left : LeftPending sharedCodec "t" (messageEntries 1 neighbourMessages) "a"
      ⟨1, 2, .normal, some (addMessage 1 .t .a).1⟩ :=
    ⟨messageEntries 1 (neighbourMessages.take 1), messageEntries 3 (neighbourMessages.drop 2), by decide, by decide,
      by decide⟩
  obtain ⟨after₁, p₁, after₂, p₂, rebuilt₁, rebuilt₂, agree, _, keep⟩ := @rebuilt_topics_agree_iff sharedCodec "t"
    (Option.get _ alone_commits) (Option.get _ neighbour_commits) (messageEntries 1 (sharedMessages.take 1))
    (messageEntries 1 neighbourMessages) (shared_jobLog fun _ => List.mem_of_mem_take) (shared_jobLog (by decide))
    (by decide) (by decide) (by decide) (by decide) (by decide) (by decide) (by decide)
    sharedRestart sharedRestart
  refine ⟨after₁, p₁, after₂, p₂, rebuilt₁, rebuilt₂, ?_, (keep "a" _ left).mpr ?_⟩
  · intro spare₁ spare₂
    refine (agree spare₁ spare₂).mpr ?_
    rintro id (dead | dead)
    · obtain ⟨entry, member, cmd, decoded, completed⟩ := completes_of_dead dead
      have never : ∀ entry ∈ messageEntries 1 (sharedMessages.take 1),
          ∀ cmd ∈ sharedCodec.command (entry.data.getD []), completedIDs cmd = [] := by decide
      rw [never entry member cmd decoded] at completed
      cases completed
    · obtain ⟨entry, member, cmd, decoded, completed⟩ := completes_of_dead dead
      have only : ∀ entry ∈ messageEntries 1 neighbourMessages,
          ∀ cmd ∈ sharedCodec.command (entry.data.getD []), ∀ id ∈ completedIDs cmd, id = "c" := by decide
      obtain rfl := only entry member cmd decoded id completed
      decide
  · exact Or.inl ⟨"a", by decide, by decide, by decide⟩

end Cue.Cluster
