import Cue.Cluster.EntryCodec
import Cue.CommandReplay
import Cue.StorageRuns

/-! The filter for dead jobs. After a restart the jobs that the recovered log
completed last are left out of the replay, each until its first completion comes
by. What waits in the partition at the end is the same as without the filter:
the last command that names a dead job completes it either way. The exception
is a job with an empty ID, which the store cannot release. -/
namespace Cue.Cluster
open Cue.Lib Cue.Model Cue.State

variable {codec : Codec} {topic : String} {log : List Entry} {entry : Entry} {cmd : Command} {cmds : List Command}
  {id : String} {deadJobs : List String} {a : ClusterAgent} {nodeID : String} {discovery : Discovery}

/-- No `Drop` that names the empty ID comes after an `AddJobs` that does. -/
def SafeDrops (cmds : List Command) : Prop :=
  cmds.Pairwise fun earlier later => "" ∈ addedIDs earlier → "" ∉ Partition.droppedBy later

instance : Decidable (SafeDrops cmds) := inferInstanceAs (Decidable (List.Pairwise _ _))

/-- The log is one of commands for the topic. -/
def TopicLog (codec : Codec) (topic : String) (log : List Entry) : Prop :=
  ∀ entry ∈ log, ∃ data cmd, entry.data = some data ∧ codec.command data = some cmd ∧ JobCommand topic cmd

/-! ### Dead jobs -/

/-- Every `AddJobs` that names the job is followed by a completion. -/
def CompletedLast (codec : Codec) (id : String) (log : List Entry) : Prop :=
  ∀ before entry after, log = before ++ entry :: after → Adds codec entry id → ∃ later ∈ after, Completes codec later id

theorem CompletedLast.suffix {part : List Entry} (last : CompletedLast codec id log) (suffix : part <:+ log) :
    CompletedLast codec id part := by
  obtain ⟨front, rfl⟩ := suffix
  rintro before entry after rfl adds
  exact last (front ++ before) entry after (by simp) adds

theorem Dead.completedLast (dead : Dead codec log id) (ascending : Ascending log) : CompletedLast codec id log := by
  rintro before entry after rfl adds
  rcases @lastCompleted_source codec (before ++ entry :: after) id with zero | ⟨final, member, completes, same⟩
  · have := dead.1.trans_le dead.2
    omega
  · have notLater : entry.index.toNat ≤ final.index.toNat :=
      (le_lastAdded ascending (by simp) adds).trans (dead.2.trans same.symm.le)
    refine ⟨final, ?_, completes⟩
    rcases List.mem_append.mp member with early | late
    · -- a completion before the entry has a smaller index
      have less : final.index.toNat < entry.index.toNat := by
        have ordered := (List.pairwise_cons.mp ascending).2
        rw [List.map_append, List.pairwise_append] at ordered
        exact ordered.2.2 _ (List.mem_map_of_mem early) _ (by simp)
      omega
    · rcases List.mem_cons.mp late with rfl | after
      · exact absurd completes adds.not_completes
      · exact after

private theorem storedAfter_other (command : JobCommand topic cmd) (notAdded : id ∉ addedIDs cmd)
    (notCompleted : id ∉ completedIDs cmd) (stored : Option Job) :
    Partition.storedAfter id stored cmd = stored := by
  cases command with
  | addJobs proposeID jobs =>
    refine foldl_offer_other (fun job member here => ?_) stored
    exact notAdded (here ▸ List.mem_map_of_mem member)
  | done proposeID jobIDs => exact if_neg notCompleted
  | drop proposeID jobIDs => exact if_neg notCompleted

private theorem storedAfter_completed (command : JobCommand topic cmd) (completed : id ∈ completedIDs cmd)
    (stored : Option Job) : (Partition.storedAfter id stored cmd).filter (fun job => !job.done) = none := by
  cases command with
  | addJobs => cases completed
  | done proposeID jobIDs =>
    have marked : Partition.storedAfter id stored { type := .done, proposeID, done := some ⟨topic, jobIDs⟩ } =
        stored.map fun job => { job with done := true } := if_pos completed
    rw [marked]
    cases stored <;> simp
  | drop proposeID jobIDs =>
    have gone : Partition.storedAfter id stored { type := .drop, proposeID, drop := some ⟨topic, jobIDs⟩ } = none :=
      if_pos completed
    rw [gone]
    rfl

/-- A job that was completed last does not wait. -/
theorem CompletedLast.leftWaiting (last : CompletedLast codec id log) (commands : TopicLog codec topic log) :
    leftWaiting id (ownCommands codec topic log) = none := by
  induction log using List.reverseRecOn with
  | nil => rfl
  | append_singleton log entry ih =>
    obtain ⟨data, cmd, carried, decoded, command⟩ := commands entry (by simp)
    have adds : Adds codec entry id ↔ id ∈ addedIDs cmd := by simp [Adds, carried, decoded]
    have completes : Completes codec entry id ↔ id ∈ completedIDs cmd := by simp [Completes, carried, decoded]
    have notAdded : id ∉ addedIDs cmd := by
      intro added
      obtain ⟨later, member, _⟩ := last log entry [] rfl (adds.mpr added)
      cases member
    have split : ownCommands codec topic (log ++ [entry]) =
        ownCommands codec topic log ++ [{ cmd with proposeID := 0 }] := by
      simp [ownCommands, ownCommand_own carried decoded command]
    rw [Cluster.leftWaiting, split, List.foldl_append]
    by_cases completed : id ∈ completedIDs cmd
    · exact storedAfter_completed command completed _
    · have same := storedAfter_other command notAdded completed
        ((ownCommands codec topic log).foldl (Partition.storedAfter id) none)
      have before := ih (fun before added after split adds => ?_) fun old member =>
        commands old (List.mem_append_left _ member)
      · exact (congrArg _ same).trans before
      · obtain ⟨later, member, done⟩ := last before added (after ++ [entry]) (by simp [split]) adds
        rcases List.mem_append.mp member with old | new
        · exact ⟨later, old, done⟩
        · rw [List.mem_singleton] at new
          exact absurd (completes.mp (new ▸ done)) completed

/-! ### Jobs without an ID -/

private theorem foldl_offer_keeps (jobs : List Job) {stored : Option Job} (held : stored ≠ none) :
    jobs.foldl (Partition.offer id) stored = stored := by
  induction jobs with
  | nil => rfl
  | cons job jobs ih =>
    have same : Partition.offer id stored job = stored := by simp [Partition.offer, held]
    rw [List.foldl_cons, same, ih]

private theorem storedAfter_added (command : JobCommand topic cmd) (added : id ∈ addedIDs cmd)
    (stored : Option Job) : Partition.storedAfter id stored cmd ≠ none := by
  cases command with
  | addJobs proposeID jobs uniform =>
    show jobs.foldl (Partition.offer id) stored ≠ none
    have added : id ∈ jobs.map Job.id := added
    clear * - added uniform
    induction jobs generalizing stored with
    | nil => cases added
    | cons job jobs ih =>
      rw [List.foldl_cons]
      by_cases held : Partition.offer id stored job = none
      · refine ih _ (fun other member => uniform other (List.mem_cons_of_mem _ member)) ?_
        refine (List.mem_cons.mp added).resolve_left fun here => ?_
        have unflagged : job.done = false := by
          rw [← (uniform job List.mem_cons_self).2]
          rfl
        cases stored with
        | none => simp [Partition.offer, here, unflagged] at held
        | some old => simp [Partition.offer] at held
      · rw [foldl_offer_keeps jobs held]
        exact held
  | done => cases added
  | drop => cases added

private theorem storedAfter_keeps (command : JobCommand topic cmd) {stored : Option Job} (held : stored ≠ none)
    (kept : id ∉ Partition.droppedBy cmd) : Partition.storedAfter id stored cmd ≠ none := by
  cases command with
  | addJobs proposeID jobs =>
    have same : Partition.storedAfter id stored { type := .addJobs, proposeID, addJobs := some ⟨topic, jobs⟩ } =
        stored := foldl_offer_keeps jobs held
    rw [same]
    exact held
  | done proposeID jobIDs =>
    show (if id ∈ jobIDs then stored.map fun job => { job with done := true } else stored) ≠ none
    split
    · simpa using held
    · exact held
  | drop proposeID jobIDs =>
    have same : Partition.storedAfter id stored { type := .drop, proposeID, drop := some ⟨topic, jobIDs⟩ } =
        stored := if_neg kept
    rw [same]
    exact held

private theorem foldl_stored_none (commands : ∀ cmd ∈ cmds, JobCommand topic cmd)
    (absent : ∀ cmd ∈ cmds, id ∉ addedIDs cmd) : cmds.foldl (Partition.storedAfter id) none = none := by
  induction cmds with
  | nil => rfl
  | cons cmd cmds ih =>
    have same : Partition.storedAfter id none cmd = none := by
      have command := commands cmd List.mem_cons_self
      have notAdded := absent cmd List.mem_cons_self
      cases command with
      | addJobs proposeID jobs =>
        refine foldl_offer_other (fun job member here => ?_) none
        exact notAdded (here ▸ List.mem_map_of_mem member)
      | done => exact ite_self none
      | drop => exact ite_self none
    rw [List.foldl_cons, same]
    exact ih (fun other member => commands other (List.mem_cons_of_mem _ member))
      fun other member => absent other (List.mem_cons_of_mem _ member)

/-- A job that was added without an ID stays while drops are safe. -/
private theorem foldl_stored_some (commands : ∀ cmd ∈ cmds, JobCommand topic cmd) (safe : SafeDrops cmds)
    (member : cmd ∈ cmds) (added : "" ∈ addedIDs cmd) : cmds.foldl (Partition.storedAfter "") none ≠ none := by
  induction cmds using List.reverseRecOn with
  | nil => cases member
  | append_singleton cmds last ih =>
    obtain ⟨before, _, cross⟩ := List.pairwise_append.mp safe
    have command := commands last (by simp)
    rw [List.foldl_append]
    rcases List.mem_append.mp member with old | new
    · refine storedAfter_keeps command ?_ (cross cmd old last (by simp) added)
      exact ih (fun other member => commands other (List.mem_append_left _ member)) before old
    · rw [List.mem_singleton] at new
      exact storedAfter_added command (new ▸ added) _

private theorem dropsSafely_append (first second : List Command) (anonymous : Option Job) :
    Partition.DropsSafely anonymous (first ++ second) ↔ Partition.DropsSafely anonymous first ∧
      Partition.DropsSafely (first.foldl (Partition.storedAfter "") anonymous) second := by
  induction first generalizing anonymous with
  | nil => simp [Partition.DropsSafely]
  | cons cmd first ih => simp [Partition.DropsSafely, ih, and_assoc]

private theorem dropsSafely_routed (command : JobCommand topic cmd) (anonymous : Option Job) :
    Partition.DropsSafely anonymous (routed deadJobs cmd) ↔ ("" ∈ Partition.droppedBy cmd → anonymous = none) := by
  cases command with
  | addJobs proposeID jobs =>
    simp only [routed]
    split <;> simp [Partition.DropsSafely, Partition.droppedBy]
  | done => simp [routed, Partition.DropsSafely, Partition.droppedBy]
  | drop => simp [routed, Partition.DropsSafely]

theorem TopicLog.ownCommands (commands : TopicLog codec topic log) :
    ∀ cmd ∈ ownCommands codec topic log, JobCommand topic cmd := by
  intro cmd member
  obtain ⟨entry, inside, own⟩ := List.mem_filterMap.mp member
  obtain ⟨data, found, carried, decoded, command⟩ := commands entry inside
  rw [ownCommand_own carried decoded command] at own
  cases own
  cases command with
  | addJobs proposeID jobs uniform => exact .addJobs 0 jobs uniform
  | done proposeID jobIDs => exact .done 0 jobIDs
  | drop proposeID jobIDs => exact .drop 0 jobIDs

theorem TopicLog.jobLog (commands : TopicLog codec topic log) : JobLog codec log := by
  intro entry member
  obtain ⟨data, cmd, carried, decoded, command⟩ := commands entry member
  exact ⟨data, topic, cmd, carried, decoded, command⟩

/-- Safe drops in the log are safe on the channel; without a filter the converse holds too. -/
theorem replay_dropsSafely (commands : TopicLog codec topic log)
    (replayed : replay codec (.new nodeID discovery .empty deadJobs) log = .ok a) :
    (SafeDrops (ownCommands codec topic log) → Partition.DropsSafely none (a.queue topic)) ∧
      (deadJobs = [] → Partition.DropsSafely none (a.queue topic) → SafeDrops (ownCommands codec topic log)) := by
  induction log using List.reverseRecOn generalizing a with
  | nil =>
    cases replayed
    exact ⟨fun _ => trivial, fun _ _ => List.Pairwise.nil⟩
  | append_singleton log entry ih =>
    have earlier : TopicLog codec topic log := fun old member => commands old (List.mem_append_left _ member)
    obtain ⟨data, cmd, carried, decoded, command⟩ := commands entry (by simp)
    obtain ⟨before, first, routed⟩ := replay_routed earlier.jobLog topic nodeID discovery deadJobs
    obtain ⟨after, applied, routes⟩ := replayEntry_routes carried decoded command routed.unasked
    have same : a = after := by
      rw [replay, List.foldlM_append] at replayed
      rw [replay] at first
      rw [first] at replayed
      change (replayEntry codec before entry >>= pure) = _ at replayed
      rw [applied] at replayed
      cases replayed
      rfl
    subst same
    obtain ⟨toQueue, fromQueue⟩ := ih earlier first
    have split : ownCommands codec topic (log ++ [entry]) =
        ownCommands codec topic log ++ [{ cmd with proposeID := 0 }] := by
      simp [ownCommands, ownCommand_own carried decoded command]
    have dropped : Partition.droppedBy { cmd with proposeID := 0 } = Partition.droppedBy cmd := rfl
    rw [routes.own, dropsSafely_append, dropsSafely_routed command, split, SafeDrops, List.pairwise_append]
    simp only [List.mem_singleton, forall_eq, List.pairwise_singleton, true_and, dropped]
    constructor
    · rintro ⟨safe, cross⟩
      refine ⟨toQueue safe, fun drops => ?_⟩
      have part : (if "" ∈ deadJobs then behind codec "" log else log) <:+ log := by
        split
        · exact List.dropWhile_suffix _
        · exact List.suffix_refl _
      have inside : ∀ own ∈ ownCommands codec topic (if "" ∈ deadJobs then behind codec "" log else log),
          own ∈ ownCommands codec topic log := fun own member => (part.sublist.filterMap _).subset member
      rw [routed.stored]
      exact foldl_stored_none (fun own member => earlier.ownCommands own (inside own member))
        fun own member added => cross own (inside own member) added drops
    · rintro none ⟨safe, absent⟩
      refine ⟨fromQueue none safe, fun old member added drops => ?_⟩
      have empty := absent drops
      rw [routed.stored, if_neg (by simp [none])] at empty
      exact foldl_stored_some earlier.ownCommands (fromQueue none safe) member added empty

/-! ### Filtered and plain replay -/

private theorem waiting_filtered (commands : TopicLog codec topic log) (ascending : Ascending log)
    (dead : ∀ id, id ∈ deadJobs ↔ Dead codec log id) (routed : Routed codec topic deadJobs log a) (id : String) :
    leftWaiting id (a.queue topic) = leftWaiting id (ownCommands codec topic log) := by
  rw [leftWaiting, routed.stored, ← leftWaiting]
  split
  · rename_i member
    have last := ((dead id).mp member).completedLast ascending
    have suffix : behind codec id log <:+ log := List.dropWhile_suffix _
    rw [last.leftWaiting commands]
    exact (last.suffix suffix).leftWaiting fun entry inside => commands entry (suffix.subset inside)
  · rfl

private def addAnonymous : Bytes × Command :=
  (messageHeader 4 1 ++ [0x82] ++ topicField Letter.t.byte ++ [0xa4, 0x6a, 0x6f, 0x62, 0x73, 0x91, 0x83] ++
    [0xa2, 0x69, 0x64, 0xa0] ++ topicField Letter.t.byte ++ [0xa4, 0x64, 0x61, 0x74, 0x61, 0xc0],
  { type := .addJobs, proposeID := 1, addJobs := some ⟨"t", [⟨"", "t", [], false, 0⟩]⟩ })

private def dropAnonymous : Bytes × Command :=
  (messageHeader 6 2 ++ [0x82] ++ topicField Letter.t.byte ++
    [0xa7, 0x6a, 0x6f, 0x62, 0x5f, 0x69, 0x64, 0x73, 0x91, 0xa0],
  { type := .drop, proposeID := 2, drop := some ⟨"t", [""]⟩ })

private def anonymousMessages : List (Bytes × Command) := [addAnonymous, dropAnonymous]

private def returningMessages : List (Bytes × Command) :=
  [addMessage 3 .t .a, doneMessage 4 .t .a, addMessage 5 .t .a, addMessage 6 .t .c, doneMessage 7 .t .a]

private def filterCodec : Codec := wireCodec (anonymousMessages ++ returningMessages)

private def filterCore (messages : List (Bytes × Command)) : Option StorageCore :=
  (messageEntries 1 messages).foldlM (fun core entry => (core.appendCommitted filterCodec entry).toOption)
    (freshCore 1 0)

private def filterConfig : PartitionConfig := ⟨8, 3, 60, 16, 1000, 1000⟩

private theorem anonymous_commits : (filterCore anonymousMessages).isSome = true := rfl

private theorem anonymous_recovers :
    ((Option.get _ anonymous_commits).recover filterCodec).toOption.isSome = true := rfl

private theorem filter_topicLog {messages : List (Bytes × Command)} {first : Nat}
    (known : ∀ message ∈ messages, filterCodec.command message.1 = some message.2)
    (commands : ∀ message ∈ messages, JobCommand "t" message.2) :
    TopicLog filterCodec "t" (messageEntries first messages) := by
  intro entry member
  obtain ⟨i, bound, rfl⟩ := List.mem_mapIdx.mp member
  exact ⟨_, _, rfl, known messages[i] (List.getElem_mem bound), commands messages[i] (List.getElem_mem bound)⟩

private def filterReplay (deadJobs : List String) (messages : List (Bytes × Command)) : Except String ClusterAgent :=
  replay filterCodec (.new "n" ⟨.empty, .empty⟩ .empty deadJobs) (messageEntries 1 messages)

private theorem anonymous_replays : (filterReplay
    (Option.get _ anonymous_recovers).getCompletedJobIDs anonymousMessages).toOption.isSome = true := rfl

private theorem anonymous_replays_plain : (filterReplay [] anonymousMessages).toOption.isSome = true := rfl

private theorem anonymous_processed : ((Partition.new "t" filterConfig 1000).processAll
    ((Option.get _ anonymous_replays).queue "t") fun _ _ => ⟨1000, 1⟩).toOption.isSome = true := rfl

-- the runs below are evaluated
set_option maxRecDepth 4000

private theorem returning_commits : (filterCore returningMessages).isSome = true := rfl

private theorem returning_recovers :
    ((Option.get _ returning_commits).recover filterCodec).toOption.isSome = true := rfl

private theorem returning_topicLog : TopicLog filterCodec "t" (messageEntries 1 returningMessages) := by
  refine filter_topicLog (by decide) fun message member => ?_
  simp only [returningMessages, List.mem_cons, List.not_mem_nil, or_false] at member
  rcases member with rfl | rfl | rfl | rfl | rfl
  · exact addMessage_command 3 .t .a
  · exact doneMessage_command 4 .t .a
  · exact addMessage_command 5 .t .a
  · exact addMessage_command 6 .t .c
  · exact doneMessage_command 7 .t .a

private theorem returning_replays : (filterReplay
    (Option.get _ returning_recovers).getCompletedJobIDs returningMessages).toOption.isSome = true := rfl

private theorem returning_replays_plain : (filterReplay [] returningMessages).toOption.isSome = true := rfl

end Cue.Cluster
