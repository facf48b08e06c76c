import Cue.Cluster.Agent
import Cue.Cluster.EntryCodec
import Cue.JobIndexHistory
import Cue.PartitionReplay
import Mathlib.Data.List.TakeWhile

/-! Job commands on their way from the log to a partition. An agent applies the
entries one by one and puts the commands on the channels of their topics; until
they are completed, jobs that were dead at the start are flagged or left out.
`Routed` says what the channel of a topic then makes a partition store. -/
namespace Cue.Cluster
open Cue.Lib Cue.Model Cue.State

variable {codec : Codec} {topic : String} {log : List Entry} {entry : Entry} {cmd : Command}
  {id : String} {deadJobs : List String} {a : ClusterAgent}

def replayEntry (codec : Codec) (a : ClusterAgent) (entry : Entry) : Except String ClusterAgent :=
  match a.handleNormalCommand codec ⟨entry.data, entry.index, entry.term, entry.type, [], []⟩ (.ok ()) with
  | (a, none) => .ok a
  | (_, some err) => .error err

def replay (codec : Codec) (a : ClusterAgent) (log : List Entry) : Except String ClusterAgent :=
  log.foldlM (replayEntry codec) a

/-- The commands on a topic's channel. -/
def ClusterAgent.queue (a : ClusterAgent) (topic : String) : List Command := (a.channels.get topic).getD []

inductive RebuildError where
  | wal (err : WalError)
  | apply (err : String)
  | panicked (panic : Panic)
  deriving DecidableEq

/-! ### A topic's own commands -/

/-- A command on the jobs of a topic, as it comes out of the log. -/
inductive JobCommand (topic : String) : Command → Prop where
  | addJobs (proposeID : UInt64) (jobs : List Job) (uniform : ∀ job ∈ jobs, job.topic = topic ∧ job.onWire = job) :
      JobCommand topic { type := .addJobs, proposeID := proposeID, addJobs := some ⟨topic, jobs⟩ }
  | done (proposeID : UInt64) (jobIDs : List String) :
      JobCommand topic { type := .done, proposeID := proposeID, done := some ⟨topic, jobIDs⟩ }
  | drop (proposeID : UInt64) (jobIDs : List String) :
      JobCommand topic { type := .drop, proposeID := proposeID, drop := some ⟨topic, jobIDs⟩ }

theorem addMessage_command (proposeID : UInt8) (topic id : Letter) :
    JobCommand topic.text (addMessage proposeID topic id).2 :=
  .addJobs _ _ fun job member => by
    rw [List.mem_singleton] at member
    subst member
    exact ⟨rfl, rfl⟩

theorem doneMessage_command (proposeID : UInt8) (topic id : Letter) :
    JobCommand topic.text (doneMessage proposeID topic id).2 :=
  .done _ _

def JobLog (codec : Codec) (log : List Entry) : Prop :=
  ∀ entry ∈ log, ∃ data topic cmd, entry.data = some data ∧ codec.command data = some cmd ∧ JobCommand topic cmd

/-- The entry's command if it is for the topic, without the proposal ID. -/
def ownCommand (codec : Codec) (topic : String) (entry : Entry) : Option Command :=
  match codec.command (entry.data.getD []) with
  | some cmd => if ClusterAgent.topicOf cmd = .ok topic then some { cmd with proposeID := 0 } else none
  | none => none

def ownCommands (codec : Codec) (topic : String) (log : List Entry) : List Command :=
  log.filterMap (ownCommand codec topic)

/-- The log from the first entry on that completes the job. -/
def behind (codec : Codec) (id : String) (log : List Entry) : List Entry :=
  log.dropWhile fun entry => ¬ Completes codec entry id

/-- The job that commands leave waiting under an ID. -/
def leftWaiting (id : String) (cmds : List Command) : Option Job :=
  (cmds.foldl (Partition.storedAfter id) none).filter fun job => !job.done

/-! ### What one command puts on the channel -/

/-- What a command puts on its topic's channel while these jobs are dead. -/
def routed (deadJobs : List String) (cmd : Command) : List Command :=
  match cmd.type, cmd.addJobs with
  | .addJobs, some payload =>
    if ∀ job ∈ payload.jobs, job.id ∈ deadJobs then []
    else [{ cmd with addJobs := some { payload with jobs := payload.jobs.map (ClusterAgent.markDead deadJobs) } }]
  | _, _ => [cmd]

private theorem markDead_id (deadJobs : List String) (job : Job) :
    (ClusterAgent.markDead deadJobs job).id = job.id := by
  unfold ClusterAgent.markDead
  split <;> rfl

theorem markDead_topic (deadJobs : List String) (job : Job) :
    (ClusterAgent.markDead deadJobs job).topic = job.topic := by
  unfold ClusterAgent.markDead
  split <;> rfl

private theorem offer_markDead (alive : id ∉ deadJobs) (stored : Option Job) (job : Job) :
    Partition.offer id stored (ClusterAgent.markDead deadJobs job) = Partition.offer id stored job := by
  by_cases here : job.id = id
  · have unmarked : ClusterAgent.markDead deadJobs job = job := by
      rw [ClusterAgent.markDead, if_neg (here ▸ alive)]
    rw [unmarked]
  · simp [Partition.offer, markDead_id, here]

theorem foldl_offer_other {jobs : List Job} (absent : ∀ job ∈ jobs, job.id ≠ id) (stored : Option Job) :
    jobs.foldl (Partition.offer id) stored = stored := by
  induction jobs with
  | nil => rfl
  | cons job jobs ih =>
    have skipped : Partition.offer id stored job = stored := by
      simp [Partition.offer, absent job List.mem_cons_self]
    rw [List.foldl_cons, skipped]
    exact ih fun job member => absent job (List.mem_cons_of_mem _ member)

/-- For a job that is not dead the command arrives as it is. -/
private theorem routed_alive (command : JobCommand topic cmd) (alive : id ∉ deadJobs) (stored : Option Job) :
    (routed deadJobs cmd).foldl (Partition.storedAfter id) stored = Partition.storedAfter id stored cmd := by
  cases command with
  | addJobs proposeID jobs =>
    simp only [routed]
    split
    · rename_i allDead
      refine (foldl_offer_other (fun job member here => ?_) stored).symm
      exact alive (here ▸ allDead job member)
    · show (jobs.map (ClusterAgent.markDead deadJobs)).foldl (Partition.offer id) stored =
        jobs.foldl (Partition.offer id) stored
      rw [List.foldl_map]
      simp only [offer_markDead alive]
  | done => rfl
  | drop => rfl

private theorem offer_dead (dead : id ∈ deadJobs) (job : Job) :
    Partition.offer id none (ClusterAgent.markDead deadJobs job) = none := by
  by_cases here : job.id = id
  · have flagged : (ClusterAgent.markDead deadJobs job).done = true := by
      rw [ClusterAgent.markDead, if_pos (here ▸ dead)]
    simp [Partition.offer, flagged]
  · simp [Partition.offer, markDead_id, here]

/-- A dead job is not stored. -/
private theorem routed_dead (command : JobCommand topic cmd) (dead : id ∈ deadJobs) :
    (routed deadJobs cmd).foldl (Partition.storedAfter id) none = none := by
  cases command with
  | addJobs proposeID jobs =>
    simp only [routed]
    split
    · rfl
    · show (jobs.map (ClusterAgent.markDead deadJobs)).foldl (Partition.offer id) none = none
      rw [List.foldl_map]
      exact List.foldl_fixed' (offer_dead dead) jobs
  | done proposeID jobIDs => exact ite_self none
  | drop proposeID jobIDs => exact ite_self none

private theorem routed_batches (command : JobCommand topic cmd) :
    ((routed deadJobs cmd).flatMap Partition.batchOf).length ≤ (Partition.batchOf cmd).length ∧
      ∀ job ∈ (routed deadJobs cmd).flatMap Partition.batchOf, job.id ∈ addedIDs cmd := by
  cases command with
  | addJobs proposeID jobs =>
    simp only [routed]
    split
    · simp
    · refine ⟨by simp [Partition.batchOf], ?_⟩
      intro job member
      simp only [List.flatMap_cons, List.flatMap_nil, List.append_nil, Partition.batchOf] at member
      obtain ⟨original, inside, rfl⟩ := List.mem_map.mp member
      rw [markDead_id]
      exact List.mem_map_of_mem inside
  | done => exact ⟨Nat.le_refl _, fun _ member => absurd member List.not_mem_nil⟩
  | drop => exact ⟨Nat.le_refl _, fun _ member => absurd member List.not_mem_nil⟩

/-! ### One entry -/

/-- How the agent changes when a command of the topic is applied. -/
structure Routes (topic : String) (cmd : Command) (a a' : ClusterAgent) : Prop where
  unasked : ∀ id, a'.pendingProposals.get id = none
  dead : ∀ id, id ∈ a'.deadJobs ↔ id ∈ a.deadJobs ∧ id ∉ completedIDs cmd
  own : a'.queue topic = a.queue topic ++ routed a.deadJobs cmd
  others : ∀ other, other ≠ topic → a'.queue other = a.queue other

private theorem deliverCommand_queue (a : ClusterAgent) (topic : String) (cmd : Command) :
    ∃ channels, a.deliverCommand topic cmd (.ok ()) = ({ a with channels := channels }, none) ∧
      (channels.get topic).getD [] = a.queue topic ++ [cmd] ∧
      ∀ other, other ≠ topic → channels.get other = a.channels.get other := by
  unfold ClusterAgent.deliverCommand ClusterAgent.queue
  cases a.channels.get topic with
  | none =>
    refine ⟨_, rfl, by rw [FinMap.get_set_self]; rfl, fun other apart => ?_⟩
    rw [FinMap.get_set, if_neg apart]
  | some queued =>
    refine ⟨_, rfl, by rw [FinMap.get_set_self]; rfl, fun other apart => ?_⟩
    rw [FinMap.get_set, if_neg apart]

private theorem forget_dead (jobIDs : List String) :
    id ∈ (a.forget jobIDs).deadJobs ↔ id ∈ a.deadJobs ∧ id ∉ jobIDs := by
  simp [ClusterAgent.forget]

private theorem routeCommand_routes (command : JobCommand topic cmd)
    (unasked : ∀ id, a.pendingProposals.get id = none) :
    ∃ a', a.routeCommand cmd (.ok ()) = (a', none) ∧ Routes topic cmd a a' := by
  cases command with
  | addJobs proposeID jobs uniform =>
    have unchanged : ∀ id, id ∈ a.deadJobs ↔ id ∈ a.deadJobs ∧ id ∉ ([] : List String) := by simp
    cases jobs with
    | nil => exact ⟨a, rfl, unasked, unchanged, by simp [routed], fun _ _ => rfl⟩
    | cons first rest =>
      simp only [ClusterAgent.routeCommand, List.map_cons]
      split
      · rename_i allDead
        refine ⟨a, rfl, unasked, unchanged, ?_, fun _ _ => rfl⟩
        simp only [routed, if_pos allDead, List.append_nil]
      · rename_i someAlive
        rw [markDead_topic, (uniform first List.mem_cons_self).1]
        obtain ⟨channels, delivered, own, others⟩ := deliverCommand_queue a topic
          { type := .addJobs, proposeID := proposeID, addJobs := some ⟨topic,
              (first :: rest).map (ClusterAgent.markDead a.deadJobs)⟩ }
        refine ⟨{ a with channels := channels }, ?_, unasked, unchanged, ?_, ?_⟩
        · exact congrArg (fun result : ClusterAgent × Option String => (result.1, none)) delivered
        · simp only [routed, if_neg someAlive]
          exact own
        · intro other apart
          simp only [ClusterAgent.queue, others other apart]
  | done proposeID jobIDs =>
    obtain ⟨channels, delivered, own, others⟩ := deliverCommand_queue (a.forget jobIDs) topic
      { type := .done, proposeID := proposeID, done := some ⟨topic, jobIDs⟩ }
    refine ⟨_, delivered, unasked, fun _ => forget_dead jobIDs, own, ?_⟩
    intro other apart
    simp only [ClusterAgent.queue, others other apart]
    rfl
  | drop proposeID jobIDs =>
    obtain ⟨channels, delivered, own, others⟩ := deliverCommand_queue (a.forget jobIDs) topic
      { type := .drop, proposeID := proposeID, drop := some ⟨topic, jobIDs⟩ }
    simp only [ClusterAgent.routeCommand, delivered]
    refine ⟨_, rfl, unasked, fun _ => forget_dead jobIDs, own, ?_⟩
    intro other apart
    simp only [ClusterAgent.queue, others other apart]
    rfl

theorem replayEntry_routes {data : Bytes} (carried : entry.data = some data)
    (decoded : codec.command data = some cmd) (command : JobCommand topic cmd)
    (unasked : ∀ id, a.pendingProposals.get id = none) :
    ∃ a', replayEntry codec a entry = .ok a' ∧ Routes topic cmd a a' := by
  have emptied : ∀ id, (a.pendingProposals.delete cmd.proposeID).get id = none := by
    intro id
    rw [FinMap.get_delete, unasked]
    split <;> rfl
  obtain ⟨a', routes, effect⟩ := @routeCommand_routes topic cmd { a with
    lastAppliedIndex := entry.index
    pendingProposals := a.pendingProposals.delete cmd.proposeID } command emptied
  refine ⟨a', ?_, effect.unasked, effect.dead, effect.own, effect.others⟩
  simp only [replayEntry, ClusterAgent.handleNormalCommand, carried, decoded,
    ClusterAgent.getAndRemovePendingResponse, unasked, routes]

/-! ### A whole log -/

private theorem topicOf_command (command : JobCommand topic cmd) : ClusterAgent.topicOf cmd = .ok topic := by
  cases command <;> rfl

theorem ownCommand_own {data : Bytes} (carried : entry.data = some data)
    (decoded : codec.command data = some cmd) (command : JobCommand topic cmd) :
    ownCommand codec topic entry = some { cmd with proposeID := 0 } := by
  simp only [ownCommand, carried, Option.getD_some, decoded, topicOf_command command, if_true]

private theorem ownCommand_other {data : Bytes} {target : String} (carried : entry.data = some data)
    (decoded : codec.command data = some cmd) (command : JobCommand target cmd) (apart : topic ≠ target) :
    ownCommand codec topic entry = none := by
  simp [ownCommand, carried, decoded, topicOf_command command, Ne.symm apart]

private theorem behind_nil (pending : ∀ entry ∈ log, ¬ Completes codec entry id) : behind codec id log = [] := by
  rw [behind, List.dropWhile_eq_nil_iff]
  simpa using pending

private theorem behind_append (done : ¬ ∀ entry ∈ log, ¬ Completes codec entry id) :
    behind codec id (log ++ [entry]) = behind codec id log ++ [entry] := by
  have nonempty : behind codec id log ≠ [] := by
    rw [behind, Ne, List.dropWhile_eq_nil_iff]
    simpa using done
  rw [behind, List.dropWhile_append, if_neg (by simpa [behind] using nonempty)]
  rfl

private theorem behind_last (pending : ∀ entry ∈ log, ¬ Completes codec entry id) :
    behind codec id (log ++ [entry]) = if Completes codec entry id then [entry] else [] := by
  rw [behind, List.dropWhile_append, if_pos (by simpa [behind] using behind_nil pending)]
  by_cases completes : Completes codec entry id <;> simp [completes]

/-- The topic's channel after a log that was replayed with these dead jobs. -/
structure Routed (codec : Codec) (topic : String) (deadJobs : List String) (log : List Entry)
    (a : ClusterAgent) : Prop where
  unasked : ∀ id, a.pendingProposals.get id = none
  dead : ∀ id, id ∈ a.deadJobs ↔ id ∈ deadJobs ∧ ∀ entry ∈ log, ¬ Completes codec entry id
  stored : ∀ id, (a.queue topic).foldl (Partition.storedAfter id) none =
    (ownCommands codec topic (if id ∈ deadJobs then behind codec id log else log)).foldl (Partition.storedAfter id) none
  few : ((a.queue topic).flatMap Partition.batchOf).length ≤
    ((ownCommands codec topic log).flatMap Partition.batchOf).length
  named : ∀ job ∈ (a.queue topic).flatMap Partition.batchOf, ∃ cmd ∈ ownCommands codec topic log, job.id ∈ addedIDs cmd

private theorem completes_iff {data : Bytes} (carried : entry.data = some data)
    (decoded : codec.command data = some cmd) : Completes codec entry id ↔ id ∈ completedIDs cmd := by
  simp [Completes, carried, decoded]

private theorem routed_completing (command : JobCommand topic cmd) (completed : id ∈ completedIDs cmd) :
    routed deadJobs cmd = [cmd] := by
  cases command with
  | addJobs => cases completed
  | done => rfl
  | drop => rfl

private theorem Routed.dead_step {a' : ClusterAgent} {target : String} {data : Bytes}
    (routed : Routed codec topic deadJobs log a) (carried : entry.data = some data)
    (decoded : codec.command data = some cmd) (routes : Routes target cmd a a') (id : String) :
    id ∈ a'.deadJobs ↔ id ∈ deadJobs ∧ ∀ old ∈ log ++ [entry], ¬ Completes codec old id := by
  rw [routes.dead, routed.dead, ← completes_iff carried decoded]
  simp only [List.mem_append, List.mem_singleton, or_imp, forall_and, forall_eq, and_assoc]

/-- The agent marks the topic's jobs in its own commands. -/
private theorem Routed.own_stored {a' : ClusterAgent} {data : Bytes} (routed : Routed codec topic deadJobs log a)
    (carried : entry.data = some data) (decoded : codec.command data = some cmd) (command : JobCommand topic cmd)
    (routes : Routes topic cmd a a') (id : String) :
    (a'.queue topic).foldl (Partition.storedAfter id) none =
      (ownCommands codec topic (if id ∈ deadJobs then behind codec id (log ++ [entry]) else log ++ [entry])).foldl
        (Partition.storedAfter id) none := by
  have own := ownCommand_own carried decoded command
  have before := routed.stored id
  have alive : id ∉ a.deadJobs → (a'.queue topic).foldl (Partition.storedAfter id) none =
      (ownCommands codec topic ((if id ∈ deadJobs then behind codec id log else log) ++ [entry])).foldl
        (Partition.storedAfter id) none := by
    intro notDead
    rw [ownCommands, List.filterMap_append, List.foldl_append, routes.own, List.foldl_append, before,
      routed_alive command notDead]
    simp only [List.filterMap_cons, own, List.filterMap_nil, List.foldl_cons, List.foldl_nil, ownCommands]
    rfl
  by_cases dead : id ∈ deadJobs
  · simp only [if_pos dead] at alive before ⊢
    by_cases pending : ∀ old ∈ log, ¬ Completes codec old id
    · rw [behind_nil pending] at before
      rw [behind_last pending, routes.own, List.foldl_append, before]
      split
      · rename_i completes
        rw [routed_completing command ((completes_iff carried decoded).mp completes)]
        simp only [ownCommands, List.filterMap_cons, own, List.filterMap_nil]
        rfl
      · exact routed_dead command ((routed.dead id).mpr ⟨dead, pending⟩)
    · rw [behind_append pending]
      exact alive fun still => pending ((routed.dead id).mp still).2
  · simp only [if_neg dead] at alive ⊢
    exact alive fun still => dead ((routed.dead id).mp still).1

private theorem Routed.own_step {a' : ClusterAgent} {data : Bytes} (routed : Routed codec topic deadJobs log a)
    (carried : entry.data = some data) (decoded : codec.command data = some cmd) (command : JobCommand topic cmd)
    (routes : Routes topic cmd a a') : Routed codec topic deadJobs (log ++ [entry]) a' := by
  have grown : ownCommands codec topic (log ++ [entry]) =
      ownCommands codec topic log ++ [{ cmd with proposeID := 0 }] := by
    simp [ownCommands, ownCommand_own carried decoded command]
  refine ⟨routes.unasked, routed.dead_step carried decoded routes, routed.own_stored carried decoded command routes,
    ?_, ?_⟩
  · rw [routes.own, grown]
    simp only [List.flatMap_append, List.length_append, List.flatMap_cons, List.flatMap_nil, List.append_nil]
    exact Nat.add_le_add routed.few (routed_batches command).1
  · intro job member
    rw [routes.own, List.flatMap_append] at member
    rw [grown]
    rcases List.mem_append.mp member with old | new
    · obtain ⟨earlier, inside, added⟩ := routed.named job old
      exact ⟨earlier, List.mem_append_left _ inside, added⟩
    · exact ⟨_, List.mem_append_right _ List.mem_cons_self, (routed_batches command).2 job new⟩

private theorem Routed.foreign_step {a' : ClusterAgent} {target : String} {data : Bytes}
    (routed : Routed codec topic deadJobs log a) (carried : entry.data = some data)
    (decoded : codec.command data = some cmd) (command : JobCommand target cmd) (routes : Routes target cmd a a')
    (apart : topic ≠ target) : Routed codec topic deadJobs (log ++ [entry]) a' := by
  have foreign := ownCommand_other carried decoded command apart
  have same : ∀ log, ownCommands codec topic (log ++ [entry]) = ownCommands codec topic log := by
    simp [ownCommands, foreign]
  refine ⟨routes.unasked, routed.dead_step carried decoded routes, ?_, ?_, ?_⟩
  · intro id
    rw [routes.others topic apart, routed.stored]
    split
    · by_cases pending : ∀ old ∈ log, ¬ Completes codec old id
      · rw [behind_nil pending, behind_last pending]
        split
        · exact congrArg _ (same []).symm
        · rfl
      · rw [behind_append pending, same]
    · rw [same]
  · rw [routes.others topic apart, same]
    exact routed.few
  · rw [routes.others topic apart, same]
    exact routed.named

/-- The replay of a log of job commands succeeds, whatever was dead at the start. -/
theorem replay_routed (commands : JobLog codec log) (topic nodeID : String) (discovery : Discovery)
    (deadJobs : List String) :
    ∃ a, replay codec (.new nodeID discovery .empty deadJobs) log = .ok a ∧ Routed codec topic deadJobs log a := by
  induction log using List.reverseRecOn with
  | nil =>
    refine ⟨_, rfl, fun _ => rfl, ?_, ?_, Nat.le_refl _, ?_⟩
    · simp [ClusterAgent.new]
    · intro id
      split <;> rfl
    · intro job member
      cases member
  | append_singleton log entry ih =>
    obtain ⟨a, replayed, routed⟩ := ih fun entry member => commands entry (List.mem_append_left _ member)
    obtain ⟨data, target, cmd, carried, decoded, command⟩ := commands entry (by simp)
    obtain ⟨a', applied, routes⟩ := replayEntry_routes carried decoded command routed.unasked
    refine ⟨a', ?_, ?_⟩
    · rw [replay] at replayed ⊢
      rw [List.foldlM_append, replayed]
      show (replayEntry codec a entry >>= pure) = _
      rw [applied]
      rfl
    · by_cases here : topic = target
      · subst here
        exact routed.own_step carried decoded command routes
      · exact routed.foreign_step carried decoded command routes here

end Cue.Cluster
