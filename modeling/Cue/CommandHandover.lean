import Cue.TopicLifecycle

/-! The way of a committed command to the partition of its topic, which may have to
be started first while others start topics too. No part of the program kills a
topic; as long as nothing does, every command that was processed is with the one
partition of its topic, in order, and an answer of the topic manager is enough for
`ProcessCommand` to go on. A call that fails, and whose error `handleNormalCommand`
drops, takes nothing from the calls behind it. -/
namespace Cue.State.Lifecycle
open Cue.Lib Cue.Model

variable {s s' : Lifecycle} {op : Op} {ops : List Op}

/-! ### Nobody kills -/

def Request.kills : Request → Bool
  | .kill _ _ _ => true
  | _ => false

def RespCh.foreign : RespCh → Bool
  | .call _ => false
  | .other _ => true

/-- The gateway and the registry kill no topic, and they do not have the channel of a
call of `ensureChannel`. -/
def Op.Outside : Op → Prop
  | .send request => request.kills = false ∧ request.respCh.all RespCh.foreign = true
  | _ => True

instance : (op : Op) → Decidable op.Outside
  | .send request => inferInstanceAs (Decidable (request.kills = false ∧ request.respCh.all RespCh.foreign = true))
  | .manage | .stop | .cancel | .process _ | .take _ | .quit _ => .isTrue trivial

def ManagerPlace.kills : ManagerPlace → Bool
  | .unregisterCommands _ | .unregisterHeartbeats _ | .forget _ => true
  | _ => false

/-- No kill waits or is in progress. -/
structure Killless (s : Lifecycle) : Prop where
  waiting : ∀ request ∈ s.cmdCh, request.kills = false
  manager : s.manager.kills = false

/-- The runs in which nobody kills a topic. -/
def SparingRuns : List Op → Lifecycle → Prop :=
  Run (fun s op s' => s.step op = some s') (fun _ _ op => op.Outside) Lifecycle.new

theorem SparingRuns.runs (run : SparingRuns ops s) : Runs ops s := by
  induction run with
  | start => exact .start
  | next _ _ stepped ih => exact .next ih trivial stepped

/-- What the manager does when no kill is around. -/
inductive Manages (s : Lifecycle) : Lifecycle → Prop where
  | already {topic requestID respCh rest} :
      s.manager = .idle → s.cmdCh = .spawn topic requestID respCh :: rest → s.stopChs.contains topic = true →
      s.Manages ({ s with cmdCh := rest }.respond respCh ⟨requestID, .error, errTopicExists, []⟩)
  | spawn {topic requestID respCh rest} :
      s.manager = .idle → s.cmdCh = .spawn topic requestID respCh :: rest → s.stopChs.contains topic = false →
      s.Manages { s with
        cmdCh := rest
        stopChs := s.stopChs.set topic s.partitions.length
        topologyChs := s.topologyChs.set topic s.partitions.length
        partitions := s.partitions ++ [{ topic := topic }]
        manager := .registerCommands ⟨topic, requestID, respCh, s.partitions.length⟩ }
  | topology {rest} : s.cmdCh = .topology :: rest → s.Manages { s with cmdCh := rest }
  | unknown {requestID respCh rest} :
      s.cmdCh = .unknown requestID respCh :: rest →
      s.Manages ({ s with cmdCh := rest }.respond respCh ⟨requestID, .error, "invalid payload", []⟩)
  | registerCommands {pending} : s.manager = .registerCommands pending → s.Manages { s with
      cmdRouter := s.cmdRouter.set pending.topic pending.number
      manager := .registerHeartbeats pending }
  | registerHeartbeats {pending} : s.manager = .registerHeartbeats pending → s.Manages { s with
      hbRouter := s.hbRouter.set pending.topic pending.number
      manager := .start pending }
  | start {pending} : s.manager = .start pending → s.Manages (s.startPartition pending)
  | close : s.Manages { s with cmdClosed := true, manager := .returned }

theorem manage_manages (killless : s.Killless) (managed : s.manage = some s') : s.Manages s' := by
  have spared := killless.manager
  unfold manage at managed
  split at managed
  · rename_i idle
    split at managed
    · cases managed
    · rename_i request rest full
      cases managed
      cases request with
      | spawn topic requestID respCh =>
        simp only [handle, beginSpawn]
        split
        · exact .already idle full ‹_›
        · exact .spawn idle full (Bool.eq_false_iff.mpr ‹_›)
      | kill topic requestID respCh =>
        have kills := killless.waiting _ (full ▸ List.mem_cons_self)
        cases kills
      | topology => exact .topology full
      | unknown requestID respCh => exact .unknown full
  · cases managed
    exact .registerCommands ‹_›
  · cases managed
    exact .registerHeartbeats ‹_›
  · cases managed
    exact .start ‹_›
  · rename_i place
    rw [place] at spared
    cases spared
  · rename_i place
    rw [place] at spared
    cases spared
  · rename_i place
    rw [place] at spared
    cases spared
  · cases managed
    exact .close
  · cases managed

/-! ### What every step leaves alone -/

/-- A partition's topic, and the commands that were put on its channel so far. -/
def entry (p : PartitionRun) : String × List Command := (p.topic, p.taken ++ p.commandCh)

def entries (s : Lifecycle) : List (String × List Command) := s.partitions.map entry

theorem closeStop_frame (s : Lifecycle) (number : Nat) :
    s.closeStop number =
        { s with partitions := (s.closeStop number).partitions, crashed := (s.closeStop number).crashed } ∧
      (s.closeStop number).entries = s.entries := by
  unfold closeStop
  split
  · exact ⟨rfl, rfl⟩
  · rename_i p found
    split
    · exact ⟨rfl, rfl⟩
    · exact ⟨rfl, map_set_same found rfl⟩

theorem stop_frame (s : Lifecycle) :
    s.stop = { s with partitions := s.stop.partitions, crashed := s.stop.crashed, manager := .closeCommands } ∧
      s.stop.entries = s.entries := by
  have folded (entries : List (String × Nat)) (s : Lifecycle) :
      let after := entries.foldl (fun s entry => s.closeStop entry.2) s
      after = { s with partitions := after.partitions, crashed := after.crashed } ∧ after.entries = s.entries := by
    induction entries generalizing s with
    | nil => exact ⟨rfl, rfl⟩
    | cons entry rest ih =>
      obtain ⟨same, kept⟩ := closeStop_frame s entry.2
      obtain ⟨sames, kepts⟩ := ih (s.closeStop entry.2)
      refine ⟨?_, kepts.trans kept⟩
      rw [List.foldl_cons, sames]
      rw [same]
  obtain ⟨same, kept⟩ := folded s.stopChs.pairs s
  unfold stop
  refine ⟨?_, kept⟩
  rw [same]

theorem Does.killless (does : s.Does op s') (outside : op.Outside) (killless : s.Killless) : s'.Killless := by
  obtain ⟨waiting, manager⟩ := killless
  have shorter {request : Request} {rest : List Request} (full : s.cmdCh = request :: rest) :
      ∀ request ∈ rest, request.kills = false := fun other member => waiting other (full ▸ List.mem_cons_of_mem _ member)
  have longer {request : Request} (spares : request.kills = false) :
      ∀ other ∈ s.cmdCh ++ [request], other.kills = false := by
    intro other member
    rcases List.mem_append.mp member with old | new
    · exact waiting other old
    · rwa [List.mem_singleton.mp new]
  cases does with
  | send request => exact ⟨longer outside.1, manager⟩
  | ask => exact ⟨longer rfl, manager⟩
  | stop =>
    rw [(stop_frame s).1]
    exact ⟨waiting, rfl⟩
  | manage managed =>
    cases manage_manages ⟨waiting, manager⟩ managed with
    | already _ full =>
      rw [respond_eq]
      exact ⟨shorter full, manager⟩
    | spawn _ full => exact ⟨shorter full, rfl⟩
    | topology full => exact ⟨shorter full, manager⟩
    | unknown full =>
      rw [respond_eq]
      exact ⟨shorter full, manager⟩
    | start =>
      rw [startPartition, respond_eq]
      exact ⟨waiting, rfl⟩
    | registerCommands | registerHeartbeats | close => exact ⟨waiting, rfl⟩
  | wait waits =>
    rw [waits.frame.1]
    exact ⟨waiting, manager⟩
  | sendClosed | cancel | find | put | take | quit => exact ⟨waiting, manager⟩

theorem SparingRuns.killless (run : SparingRuns ops s) : s.Killless := by
  refine run.invariant (fun _ s => Killless s) ⟨fun _ member => absurd member List.not_mem_nil, rfl⟩ ?_
  intro _ s op s' killless outside stepped
  exact (step_does stepped).2.killless outside killless

/-! ### Where the commands are -/

/-- Every partition is the one of its topic, and what was processed for the topic was
put on its channel. -/
structure Handed (s : Lifecycle) : Prop where
  only : ∀ (n : Nat) topic cmds, s.entries[n]? = some (topic, cmds) → s.stopChs.get topic = some n
  started : ∀ topic cmd, (topic, cmd) ∈ s.processed → ∃ n, s.stopChs.get topic = some n
  target : ∀ topic cmd n, s.handler = .sending topic cmd n → ∃ cmds, s.entries[n]? = some (topic, cmds)
  kept : ∀ (n : Nat) topic cmds, s.entries[n]? = some (topic, cmds) →
    cmds = (s.processed.filter (·.1 = topic)).map Prod.snd

theorem respond_cases (s : Lifecycle) (respCh : Option RespCh) (res : ToProducerResponse) :
    s.respond respCh res = s ∨ ∃ topic cmd call retries, respCh = some (.call call) ∧
      s.handler = .waiting topic cmd call retries none ∧
      s.respond respCh res = { s with handler := .waiting topic cmd call retries (some res) } := by
  unfold respond
  split
  · rename_i call topic cmd call' retries waiting
    split
    · subst_vars
      exact .inr ⟨topic, cmd, _, retries, rfl, waiting, rfl⟩
    · exact .inl rfl
  · exact .inl rfl

/-- What a step has to leave alone. -/
theorem Handed.frame (handed : s.Handed) (stops : s'.stopChs = s.stopChs) (done : s'.processed = s.processed)
    (entries : s'.entries = s.entries)
    (target : ∀ topic cmd n, s'.handler = .sending topic cmd n → ∃ cmds, s.entries[n]? = some (topic, cmds)) :
    s'.Handed where
  only := by
    rw [entries, stops]
    exact handed.only
  started := by
    rw [done, stops]
    exact handed.started
  target := by
    rw [entries]
    exact target
  kept := by
    rw [entries, done]
    exact handed.kept

theorem Handed.respond (handed : s.Handed) (respCh : Option RespCh) (res : ToProducerResponse) :
    (s.respond respCh res).Handed := by
  rcases respond_cases s respCh res with same | ⟨_, _, _, _, -, -, same⟩
  · rw [same]
    exact handed
  · rw [same]
    exact handed.frame rfl rfl rfl fun _ _ _ sending => (by cases sending)

theorem entries_get {n : Nat} {p : PartitionRun} (found : s.partitions[n]? = some p) :
    s.entries[n]? = some (p.topic, p.taken ++ p.commandCh) := by
  simp [entries, found, entry]

/-- The channel that the router has for a topic is the one of its partition. -/
theorem router_entry (sound : s.roster.Sound) {topic : String} {n : Nat} (found : s.cmdRouter.get topic = some n) :
    ∃ cmds, s.entries[n]? = some (topic, cmds) := by
  have here := sound.commands topic
  rw [show s.roster.cmdRouter.get topic = some n from found] at here
  split at here
  · cases here
  · obtain ⟨closed, there, -⟩ := sound.known topic n here.symm
    obtain ⟨p, mine, rfl, -⟩ := marks_get.mp there
    exact ⟨_, entries_get mine⟩

/-- A new partition: nothing was processed for its topic yet. -/
theorem Handed.spawn (handed : s.Handed) {topic : String} (fresh : s.stopChs.get topic = none)
    (stops : s'.stopChs = s.stopChs.set topic s.partitions.length) (done : s'.processed = s.processed)
    (partitions : s'.partitions = s.partitions ++ [{ topic := topic }]) (handler : s'.handler = s.handler) :
    s'.Handed := by
  have more : s'.entries = s.entries ++ [(topic, [])] := by simp [entries, partitions, entry]
  have length : s.entries.length = s.partitions.length := List.length_map ..
  have apart {other : String} {n : Nat} (known : s.stopChs.get other = some n) : other ≠ topic := by
    rintro rfl
    rw [fresh] at known
    cases known
  refine ⟨fun n other cmds found => ?_, fun other cmd member => ?_, fun other cmd n sending => ?_,
    fun n other cmds found => ?_⟩
  · rw [stops, FinMap.get_set]
    rcases getElem?_snoc.mp (more ▸ found) with old | ⟨rfl, same⟩
    · have known := handed.only n other cmds old
      rw [if_neg (apart known), known]
    · rw [if_pos (congrArg Prod.fst same).symm, length]
  · obtain ⟨n, known⟩ := handed.started other cmd (done ▸ member)
    exact ⟨n, by rw [stops, FinMap.get_set, if_neg (apart known), known]⟩
  · obtain ⟨cmds, there⟩ := handed.target other cmd n (handler ▸ sending)
    exact ⟨cmds, more ▸ getElem?_snoc.mpr (.inl there)⟩
  · rw [done]
    rcases getElem?_snoc.mp (more ▸ found) with old | ⟨-, same⟩
    · exact handed.kept n other cmds old
    · cases same
      have none : s.processed.filter (·.1 = topic) = [] := by
        refine List.filter_eq_nil_iff.mpr fun ⟨mine, cmd⟩ member => ?_
        obtain ⟨n, known⟩ := handed.started mine cmd member
        simpa using apart known
      rw [none, List.map_nil]

theorem Manages.handed (manages : s.Manages s') (handed : s.Handed) : s'.Handed := by
  cases manages with
  | @already _ _ respCh rest _ full present =>
    exact Handed.respond (s := { s with cmdCh := rest }) (handed.frame rfl rfl rfl handed.target) respCh _
  | spawn idle full absent =>
    exact handed.spawn (by simpa [FinMap.contains] using absent) rfl rfl rfl rfl
  | @unknown _ respCh rest full =>
    exact Handed.respond (s := { s with cmdCh := rest }) (handed.frame rfl rfl rfl handed.target) respCh _
  | @start pending place =>
    have running : { s with
        partitions := s.partitions.modify pending.number fun p => { p with place := .running }
        manager := .idle }.Handed :=
      handed.frame rfl rfl (map_modify_same (by intro _; rfl) _ _) handed.target
    exact running.respond pending.respCh _
  | topology | registerCommands | registerHeartbeats | close => exact handed.frame rfl rfl rfl handed.target

/-- A command that is put on the channel of its topic. -/
theorem Handed.put (handed : s.Handed) {topic : String} {cmd : Command} {number : Nat} {p : PartitionRun}
    (sending : s.handler = .sending topic cmd number) (found : s.partitions[number]? = some p) :
    { s with
      partitions := s.partitions.set number { p with commandCh := p.commandCh ++ [cmd] }
      handler := .idle
      processed := s.processed ++ [(topic, cmd)] }.Handed := by
  obtain ⟨cmds, there⟩ := handed.target topic cmd number sending
  have mine : entry p = (topic, cmds) := by simpa [entries, found] using there
  have known := handed.only number topic cmds there
  have more : (s.partitions.set number { p with commandCh := p.commandCh ++ [cmd] }).map entry =
      s.entries.set number (topic, cmds ++ [cmd]) := by
    obtain ⟨rfl, rfl⟩ := Prod.mk.inj mine
    simp [entries, List.map_set, entry]
  refine ⟨fun n other cmds' found => ?_, fun other cmd' member => ?_, fun _ _ _ idle => (by cases idle),
    fun n other cmds' found => ?_⟩
  · rw [entries, more] at found
    rcases getElem?_set_some found with ⟨rfl, same⟩ | ⟨-, old⟩
    · cases same
      exact known
    · exact handed.only n other cmds' old
  · rcases List.mem_append.mp member with old | new
    · exact handed.started other cmd' old
    · cases List.mem_singleton.mp new
      exact ⟨number, known⟩
  · rw [entries, more] at found
    simp only [List.filter_append, List.map_append]
    rcases getElem?_set_some found with ⟨rfl, same⟩ | ⟨apart, old⟩
    · cases same
      simp [handed.kept _ _ _ there]
    · have elsewhere : topic ≠ other := by
        rintro rfl
        exact apart (Option.some.inj (known.symm.trans (handed.only n topic cmds' old)))
      simp [handed.kept _ _ _ old, elsewhere]

theorem Does.handed (does : s.Does op s') (killless : s.Killless) (sound : s.roster.Sound) (handed : s.Handed) :
    s'.Handed := by
  cases does with
  | manage managed => exact (manage_manages killless managed).handed handed
  | stop =>
    have same := (stop_frame s).1
    exact handed.frame (by rw [same]) (by rw [same]) (stop_frame s).2 (by rw [same]; exact handed.target)
  | find found =>
    refine handed.frame rfl rfl rfl fun topic cmd n sending => ?_
    cases sending
    exact router_entry sound found
  | wait waits =>
    obtain ⟨same, elsewhere⟩ := waits.frame
    exact handed.frame (by rw [same]) (by rw [same]) (by rw [same]; rfl) fun topic cmd n sending =>
      absurd sending (elsewhere topic cmd n)
  | put sending found => exact handed.put sending found
  | take found full => exact handed.frame rfl rfl (map_set_same found (by simp [entry, full])) handed.target
  | quit found => exact handed.frame rfl rfl (map_set_same found (by rfl)) handed.target
  | sendClosed | send | cancel => exact handed.frame rfl rfl rfl handed.target
  | ask => exact handed.frame rfl rfl rfl fun _ _ _ sending => (by cases sending)

theorem new_handed : Lifecycle.new.Handed where
  only _ _ _ found := by simp [entries, Lifecycle.new] at found
  started _ _ member := by cases member
  target _ _ _ sending := by cases sending
  kept _ _ _ found := by simp [entries, Lifecycle.new] at found

theorem SparingRuns.handed (run : SparingRuns ops s) : s.Handed := by
  induction run with
  | start => exact new_handed
  | next run _ stepped ih =>
    exact (step_does stepped).2.handed (SparingRuns.killless run) (runs_sound (SparingRuns.runs run)) ih

/-- As long as nobody kills a topic: a topic gets one partition for good, and what that
partition has taken from its channel, followed by what waits there, is what was
processed for the topic, in order. -/
theorem commands_reach_their_partition (run : SparingRuns ops s) :
    (s.partitions.map (·.topic)).Nodup ∧
      (∀ topic cmd, (topic, cmd) ∈ s.processed → ∃ p ∈ s.partitions, p.topic = topic) ∧
      ∀ p ∈ s.partitions, p.taken ++ p.commandCh = (s.processed.filter (·.1 = p.topic)).map Prod.snd := by
  have handed := run.handed
  refine ⟨?_, fun topic cmd member => ?_, fun p member => ?_⟩
  · refine List.nodup_iff_getElem?_ne_getElem?.mpr fun n m before inside same => ?_
    have earlier : n < s.partitions.length := by simp at inside; omega
    have later : m < s.partitions.length := by simpa using inside
    have first := handed.only n _ _ (entries_get (List.getElem?_eq_getElem earlier))
    have second := handed.only m _ _ (entries_get (List.getElem?_eq_getElem later))
    have topics : s.partitions[n].topic = s.partitions[m].topic := by
      simpa [List.getElem?_map, List.getElem?_eq_getElem earlier, List.getElem?_eq_getElem later] using same
    rw [topics] at first
    exact absurd (Option.some.inj (first.symm.trans second)) (Nat.ne_of_lt before)
  · obtain ⟨n, known⟩ := handed.started topic cmd member
    obtain ⟨closed, there, -⟩ := (runs_sound run.runs).known topic n known
    obtain ⟨p, found, about, -⟩ := marks_get.mp there
    exact ⟨p, List.mem_of_getElem? found, about⟩
  · obtain ⟨n, found⟩ := List.mem_iff_getElem?.mp member
    exact handed.kept n p.topic _ (entries_get found)

/-! A drop asks for its topic and gives up, and the error is dropped; then a command
asks for it while a proxy has asked, too, and its wait times out once before the
answer that the topic exists is there. -/

private def handoverOps : List Op :=
  [.process (.call "orders" { type := .drop }), .process (.ask 6), .process .timeout, .process .timeout,
    .process .timeout, .send (.spawn "orders" 7 (some (.other 1))), .process (.call "orders" { type := .done }),
    .process (.ask 8), .manage, .process .timeout, .manage, .manage, .manage, .manage, .manage, .process .answer,
    .process .put, .take 0, .process (.call "orders" { type := .addJobs }), .process .put]

theorem contended_topic_gets_both : ∃ s p, SparingRuns handoverOps s ∧ p ∈ s.partitions ∧ p.topic = "orders" ∧
    s.failed = [("orders", { type := .drop }, .channelUnavailable)] ∧
    p.taken ++ p.commandCh = [{ type := .done }, { type := .addJobs }] := by
  obtain ⟨s, executed, processed, failed⟩ : ∃ s,
      handoverOps.foldlM (fun s op => if op.Outside then s.step op else none) Lifecycle.new = some s ∧
      s.processed = [("orders", { type := .done }), ("orders", { type := .addJobs })] ∧
      s.failed = [("orders", { type := .drop }, .channelUnavailable)] := ⟨_, rfl, rfl, rfl⟩
  have run : SparingRuns handoverOps s := Run.of_guarded executed
  obtain ⟨-, started, kept⟩ := commands_reach_their_partition run
  obtain ⟨p, member, about⟩ := started "orders" { type := .done } (by simp [processed])
  exact ⟨s, p, run, member, about, failed, by rw [kept p member, processed, about]; rfl⟩

/-! ### What `ProcessCommand` waits for -/

/-- A call that asks starts the count anew. -/
def countTimeout (count : Nat) : Op → Nat
  | .process (.ask _) => 0
  | .process .timeout => count + 1
  | _ => count

/-- How often the last call that asked the topic manager has timed out. -/
def timeouts (ops : List Op) : Nat := ops.foldl countTimeout 0

theorem timeouts_append (ops : List Op) (op : Op) : timeouts (ops ++ [op]) = countTimeout (timeouts ops) op := by
  rw [timeouts, List.foldl_append]
  rfl

/-- The call that waits for an answer, its topic, and how often it has looked in vain. -/
def HandlerPlace.waitsFor : HandlerPlace → Option (Nat × String × Nat)
  | .waiting topic _ call retries _ => some (call, topic, retries)
  | _ => none

/-- An answer that is there, and the topic it is about. -/
def HandlerPlace.hasAnswer : HandlerPlace → Option (String × ToProducerResponse)
  | .waiting topic _ _ _ answer => answer.map fun res => (topic, res)
  | _ => none

/-- The request whose answer a call waits for is about the topic of the call. -/
def Concerns (s : Lifecycle) (call : Nat) (topic : String) : Prop :=
  call < s.calls ∧ ∀ topic' retries, s.handler.waitsFor = some (call, topic', retries) → topic' = topic

/-- Any command but `spawn` has another answer channel than that of a call; a call
that waits was made before; an answer comes when the channel is there. -/
structure Served (s : Lifecycle) (ops : List Op) : Prop where
  asked : ∀ request ∈ s.cmdCh, ∀ call, request.respCh = some (.call call) →
    ∃ topic requestID respCh, request = .spawn topic requestID respCh ∧ s.Concerns call topic
  pending : ∀ p call, s.manager.pending = some p → p.respCh = some (.call call) → s.Concerns call p.topic
  recent : ∀ call topic retries, s.handler.waitsFor = some (call, topic, retries) →
    call < s.calls ∧ retries = timeouts ops ∧ retries < 3
  answered : ∀ topic res, s.handler.hasAnswer = some (topic, res) →
    (∃ n, s.cmdRouter.get topic = some n) ∧ (res.status = .error → res.error = errTopicExists)

/-- `ProcessCommand` goes on, and the rest stays. -/
theorem Served.goOn (served : s.Served ops) {ops' : List Op} (cmdCh : s'.cmdCh = s.cmdCh)
    (manager : s'.manager = s.manager)
    (concerns : ∀ call topic, s.Concerns call topic → s'.Concerns call topic)
    (recent : ∀ call topic retries, s'.handler.waitsFor = some (call, topic, retries) →
      call < s'.calls ∧ retries = timeouts ops' ∧ retries < 3)
    (answered : ∀ topic res, s'.handler.hasAnswer = some (topic, res) →
      (∃ n, s'.cmdRouter.get topic = some n) ∧ (res.status = .error → res.error = errTopicExists)) :
    s'.Served ops' := by
  refine ⟨fun request member call mine => ?_, fun p call here mine => ?_, recent, answered⟩
  · obtain ⟨topic, requestID, respCh, rfl, about⟩ := served.asked request (cmdCh ▸ member) call mine
    exact ⟨topic, requestID, respCh, rfl, concerns call topic about⟩
  · exact concerns call p.topic (served.pending p call (manager ▸ here) mine)

/-- An answer that comes when the channel is there, and with no other error than that
the topic exists. -/
theorem Served.respond (served : s.Served ops) {respCh : Option RespCh} {res : ToProducerResponse}
    (fine : ∀ call topic retries, respCh = some (.call call) → s.handler.waitsFor = some (call, topic, retries) →
      (∃ n, s.cmdRouter.get topic = some n) ∧ (res.status = .error → res.error = errTopicExists)) :
    (s.respond respCh res).Served ops := by
  rcases respond_cases s respCh res with same | ⟨topic, cmd, call, retries, mine, waiting, same⟩
  · rw [same]
    exact served
  · rw [same]
    have waits : s.handler.waitsFor = some (call, topic, retries) := by rw [waiting]; rfl
    refine served.goOn rfl rfl ?_ (fun _ _ _ here => served.recent _ _ _ (waits.trans here))
      fun topic' res' answer => ?_
    · simp only [Concerns, waits]
      exact fun _ _ about => about
    · cases answer
      exact fine call topic retries mine waits

/-- A step that leaves `ProcessCommand` where it is, and takes no channel away. -/
theorem Served.frame (served : s.Served ops) (handler : s'.handler = s.handler) (calls : s'.calls = s.calls)
    (router : ∀ topic n, s.cmdRouter.get topic = some n → ∃ n', s'.cmdRouter.get topic = some n')
    (cmdCh : ∀ request ∈ s'.cmdCh, request ∈ s.cmdCh ∨ ∀ call, request.respCh ≠ some (.call call))
    (pending : ∀ p call, s'.manager.pending = some p → p.respCh = some (.call call) →
      s.manager.pending = some p ∨ ∃ requestID, .spawn p.topic requestID p.respCh ∈ s.cmdCh) : s'.Served ops := by
  have concerns call topic : s'.Concerns call topic ↔ s.Concerns call topic := by simp only [Concerns, handler, calls]
  refine ⟨fun request member call mine => ?_, fun p call here mine => ?_, ?_, fun topic res answer => ?_⟩
  · rcases cmdCh request member with old | foreign
    · obtain ⟨topic, requestID, respCh, rfl, about⟩ := served.asked request old call mine
      exact ⟨topic, requestID, respCh, rfl, (concerns call topic).mpr about⟩
    · exact absurd mine (foreign call)
  · rw [concerns]
    rcases pending p call here mine with before | ⟨requestID, waiting⟩
    · exact served.pending p call before mine
    · obtain ⟨topic, requestID, respCh, same, about⟩ := served.asked _ waiting call mine
      cases same
      exact about
  · rw [handler, calls]
    exact served.recent
  · obtain ⟨⟨n, found⟩, fine⟩ := served.answered topic res (handler ▸ answer)
    exact ⟨router topic n found, fine⟩

theorem Manages.served (manages : s.Manages s') (sound : s.roster.Sound) (served : s.Served ops) : s'.Served ops := by
  have shorter {request : Request} {rest : List Request} (full : s.cmdCh = request :: rest) :
      { s with cmdCh := rest }.Served ops :=
    served.frame rfl rfl (fun _ n found => ⟨n, found⟩) (fun other member => .inl (full ▸ List.mem_cons_of_mem _ member))
      fun _ _ here _ => .inl here
  have keeps topic n (found : s.cmdRouter.get topic = some n) : ∃ n', s.cmdRouter.get topic = some n' := ⟨n, found⟩
  cases manages with
  | @already topic requestID respCh rest idle full present =>
    refine (shorter full).respond fun call other retries mine waits => ⟨?_, fun _ => rfl⟩
    obtain ⟨_, _, _, same, about⟩ := served.asked (.spawn topic requestID respCh) (full ▸ List.mem_cons_self) call mine
    cases same
    cases about.2 other retries waits
    obtain ⟨n, known⟩ := (FinMap.contains_iff _ _).mp present
    have here := sound.commands topic
    rw [show s.roster.manager = .idle from idle] at here
    exact ⟨n, here.trans known⟩
  | @spawn topic requestID respCh rest idle full absent =>
    refine served.frame rfl rfl keeps (fun other member => .inl (full ▸ List.mem_cons_of_mem _ member)) ?_
    intro p call here mine
    cases here
    exact .inr ⟨requestID, full ▸ List.mem_cons_self⟩
  | topology full => exact shorter full
  | @unknown requestID respCh rest full =>
    refine (shorter full).respond fun call other retries mine waits => ?_
    obtain ⟨_, _, _, same, -⟩ := served.asked (.unknown requestID respCh) (full ▸ List.mem_cons_self) call mine
    cases same
  | @registerCommands pending place =>
    refine served.frame rfl rfl (fun topic n found => ?_) (fun _ => .inl) fun p call here mine => .inl (place ▸ here)
    rw [FinMap.get_set]
    split
    · exact ⟨_, rfl⟩
    · exact ⟨n, found⟩
  | registerHeartbeats place =>
    exact served.frame rfl rfl keeps (fun _ => .inl) fun p call here mine => .inl (place ▸ here)
  | @start pending place =>
    have running : { s with
        partitions := s.partitions.modify pending.number fun p => { p with place := .running }
        manager := .idle }.Served ops :=
      served.frame rfl rfl keeps (fun _ => .inl) fun p call here mine => (by cases here)
    refine running.respond fun call topic retries mine waits => ⟨?_, fun failed => (by cases failed)⟩
    have about := served.pending pending call (by rw [place]; rfl) mine
    cases about.2 topic retries waits
    have here := sound.commands pending.topic
    have known := sound.pending pending (by rw [show s.roster.manager = .start pending from place]; rfl)
    rw [show s.roster.manager = .start pending from place] at here
    exact ⟨pending.number, here.trans known⟩
  | close => exact served.frame rfl rfl keeps (fun _ => .inl) fun p call here mine => (by cases here)

/-- More operations, none of them a request or a timeout. -/
theorem Served.later (served : s.Served ops) (calm : ∀ count, countTimeout count op = count) :
    s.Served (ops ++ [op]) := by
  have same : timeouts (ops ++ [op]) = timeouts ops := (timeouts_append ops op).trans (calm _)
  exact ⟨served.asked, served.pending, same ▸ served.recent, served.answered⟩

/-- `ProcessCommand` is where it does not wait. -/
theorem Served.free (served : s.Served ops) {ops' : List Op} (cmdCh : s'.cmdCh = s.cmdCh)
    (manager : s'.manager = s.manager) (calls : s'.calls = s.calls) (free : s'.handler.waitsFor = none) :
    s'.Served ops' := by
  refine served.goOn cmdCh manager (fun call topic about => ⟨calls ▸ about.1, by simp [free]⟩) (by simp [free])
    fun topic res answer => ?_
  cases place : s'.handler with
  | waiting =>
    rw [place] at free
    cases free
  | _ =>
    rw [place] at answer
    cases answer

/-- A new call: nothing that waits or is in progress is about it. -/
theorem Served.ask (served : s.Served ops) (topic : String) (cmd : Command) (requestID : UInt32) :
    Served { s with
      cmdCh := s.cmdCh ++ [.spawn topic requestID (some (.call s.calls))]
      handler := .waiting topic cmd s.calls 0 none
      calls := s.calls + 1 } (ops ++ [.process (.ask requestID)]) := by
  have older {call other} (about : s.Concerns call other) : call ≠ s.calls := Nat.ne_of_lt about.1
  refine ⟨fun request member call mine => ?_, fun p call here mine => ?_, fun call other retries waits => ?_,
    fun other res answer => (by cases answer)⟩
  · rcases List.mem_append.mp member with old | new
    · obtain ⟨other, id, respCh, rfl, about⟩ := served.asked request old call mine
      refine ⟨other, id, respCh, rfl, Nat.lt_succ_of_lt about.1, fun _ _ waits => ?_⟩
      cases waits
      exact absurd rfl (older about)
    · cases List.mem_singleton.mp new
      cases mine
      refine ⟨topic, requestID, _, rfl, Nat.lt_succ_self _, fun _ _ waits => ?_⟩
      cases waits
      rfl
  · have about := served.pending p call here mine
    refine ⟨Nat.lt_succ_of_lt about.1, fun _ _ waits => ?_⟩
    cases waits
    exact absurd rfl (older about)
  · cases waits
    exact ⟨Nat.lt_succ_self _, by rw [timeouts_append]; rfl, Nat.succ_pos 2⟩

theorem Served.retry (served : s.Served ops) {topic : String} {cmd : Command} {call retries : Nat}
    {answer : Option ToProducerResponse} (waiting : s.handler = .waiting topic cmd call retries answer)
    (left : retries + 1 < 3) :
    Served { s with handler := .waiting topic cmd call (retries + 1) answer } (ops ++ [.process .timeout]) := by
  have waits : s.handler.waitsFor = some (call, topic, retries) := by rw [waiting]; rfl
  refine served.goOn rfl rfl (fun call' other about => ⟨about.1, fun _ _ here => ?_⟩)
    (fun call' other retries' here => ?_) (fun other res here => served.answered other res (waiting ▸ here))
  · cases here
    exact about.2 topic retries waits
  · cases here
    obtain ⟨made, same, -⟩ := served.recent call topic retries waits
    exact ⟨made, by rw [same, timeouts_append]; rfl, left⟩

theorem waitsFor_afterError (cmd : Command) (err : ProcessError) :
    (HandlerPlace.afterError cmd err).waitsFor = none := by
  unfold HandlerPlace.afterError
  split <;> rfl

/-- An answer is not an error but for a topic that exists, and the channel is there. -/
theorem Served.pleased (served : s.Served ops) {topic : String} {cmd : Command} {call retries : Nat}
    {res : ToProducerResponse} (waiting : s.handler = .waiting topic cmd call retries (some res)) :
    ¬(res.status = .error ∧ res.error ≠ errTopicExists) ∧ ∃ number, s.cmdRouter.get topic = some number := by
  obtain ⟨there, fine⟩ := served.answered topic res (by rw [waiting]; rfl)
  exact ⟨fun bad => bad.2 (fine bad.1), there⟩

theorem Served.not_disappointed (served : s.Served ops) {topic : String} {cmd : Command} {call retries : Nat}
    {res : ToProducerResponse} (waiting : s.handler = .waiting topic cmd call retries (some res)) :
    ¬(res.status = .error ∧ res.error ≠ errTopicExists ∨ s.cmdRouter.get topic = none) := by
  obtain ⟨fine, _, found⟩ := served.pleased waiting
  rintro (failed | missing)
  · exact fine failed
  · cases missing.symm.trans found

theorem Waits.served {act : HandlerAct} (waits : s.Waits act s') (served : s.Served ops) :
    s'.Served (ops ++ [.process act]) := by
  cases waits with
  | miss | closed | blocked => exact served.free rfl rfl rfl rfl
  | giveUp | cancelled => exact served.free rfl rfl rfl (waitsFor_afterError _ _)
  | retry waiting left => exact served.retry waiting left
  | disappoint waiting bad => exact absurd bad (served.not_disappointed waiting)

theorem Does.served (does : s.Does op s') (killless : s.Killless) (outside : op.Outside) (sound : s.roster.Sound)
    (served : s.Served ops) : s'.Served (ops ++ [op]) := by
  have keeps topic n (found : s.cmdRouter.get topic = some n) : ∃ n', s.cmdRouter.get topic = some n' := ⟨n, found⟩
  -- the operations that only concern a channel, the manager or a partition
  have framed (calm : ∀ count, countTimeout count op = count) (handler : s'.handler = s.handler)
      (calls : s'.calls = s.calls) (router : s'.cmdRouter = s.cmdRouter)
      (cmdCh : ∀ request ∈ s'.cmdCh, request ∈ s.cmdCh ∨ ∀ call, request.respCh ≠ some (.call call))
      (pending : s'.manager.pending = s.manager.pending) : s'.Served (ops ++ [op]) :=
    (served.frame handler calls (router ▸ keeps) cmdCh fun _ _ here _ => .inl (pending ▸ here)).later calm
  cases does with
  | sendClosed | cancel | take | quit => exact framed (fun _ => rfl) rfl rfl rfl (fun _ => .inl) rfl
  | send request =>
    refine framed (fun _ => rfl) rfl rfl rfl (fun other member => ?_) rfl
    rcases List.mem_append.mp member with old | new
    · exact .inl old
    · right
      rintro call mine
      have foreign := outside.2
      rw [← List.mem_singleton.mp new, mine] at foreign
      cases foreign
  | manage managed => exact ((manage_manages killless managed).served sound served).later fun _ => rfl
  | stop idle =>
    have same := (stop_frame s).1
    exact framed (fun _ => rfl) (by rw [same]) (by rw [same]) (by rw [same]) (by rw [same]; exact fun _ => .inl)
      (by rw [same, idle]; rfl)
  | wait waits => exact waits.served served
  | ask asking => exact served.ask _ _ _
  | find | put => exact served.free rfl rfl rfl rfl

theorem new_served : Lifecycle.new.Served [] where
  asked _ member := absurd member List.not_mem_nil
  pending _ _ pending := by cases pending
  recent _ _ _ waits := by cases waits
  answered _ _ answer := by cases answer

theorem SparingRuns.served (run : SparingRuns ops s) : s.Served ops := by
  induction run with
  | start => exact new_served
  | next run outside stepped ih =>
    exact (step_does stepped).2.served (SparingRuns.killless run) outside (runs_sound (SparingRuns.runs run)) ih

/-- As long as nobody kills a topic, an answer of the topic manager lets `ProcessCommand`
go on with the channel; a call fails only when its context has ended or when it has
itself waited for the manager three times in vain. -/
theorem handover_fails_only_by_timeouts (run : SparingRuns ops s) :
    (∀ topic cmd call retries res, s.handler = .waiting topic cmd call retries (some res) →
      ∃ number, s.process .answer = some { s with handler := .sending topic cmd number }) ∧
      ∀ act s', s.step (.process act) = some s' → s'.failed ≠ s.failed →
        ∃ topic cmd err, s'.failed = s.failed ++ [(topic, cmd, err)] ∧
          (err = .cancelled ∧ s.cancelled = true ∨
            err = .channelUnavailable ∧ act = .timeout ∧ timeouts (ops ++ [.process act]) = 3) := by
  have served := run.served
  refine ⟨fun topic cmd call retries res waiting => ?_, fun act s' stepped fails => ?_⟩
  · obtain ⟨fine, number, found⟩ := served.pleased waiting
    exact ⟨number, by simp only [process, waiting, if_neg fine, lookAgain, found]⟩
  · cases (step_does stepped).2 with
    | find | ask | put => exact absurd rfl fails
    | wait waits =>
      cases waits with
      | miss | closed | retry | blocked => exact absurd rfl fails
      | cancelled ended => exact ⟨_, _, _, rfl, .inl ⟨rfl, ended⟩⟩
      | giveUp waiting last =>
        obtain ⟨-, counted, few⟩ := served.recent _ _ _ (congrArg HandlerPlace.waitsFor waiting)
        refine ⟨_, _, _, rfl, .inr ⟨rfl, rfl, ?_⟩⟩
        have again : timeouts (ops ++ [.process .timeout]) = timeouts ops + 1 := timeouts_append ..
        omega
      | disappoint waiting bad => exact absurd bad (served.not_disappointed waiting)

/-- The topic manager is busy for too long, for the second call as for the first. -/
theorem slow_manager_fails_handover :
    let waits : List Op := [.process (.call "orders" { type := .addJobs }), .process (.ask 8), .process .timeout,
      .process .timeout]
    ∃ s s', SparingRuns (waits ++ .process .timeout :: waits) s ∧ s.step (.process .timeout) = some s' ∧
      s'.failed.length = 2 ∧ timeouts (waits ++ .process .timeout :: waits ++ [.process .timeout]) = 3 := by
  intro waits
  obtain ⟨s, s', executed, stepped, before, after⟩ : ∃ s s',
      (waits ++ .process .timeout :: waits).foldlM (fun s op => if op.Outside then s.step op else none)
        Lifecycle.new = some s ∧ s.step (.process .timeout) = some s' ∧
      s.failed = [("orders", { type := .addJobs }, .channelUnavailable)] ∧
      s'.failed = [("orders", { type := .addJobs }, .channelUnavailable),
        ("orders", { type := .addJobs }, .channelUnavailable)] := ⟨_, _, rfl, rfl, rfl, rfl⟩
  have run : SparingRuns (waits ++ .process .timeout :: waits) s := Run.of_guarded executed
  refine ⟨s, s', run, stepped, by rw [after]; rfl, ?_⟩
  obtain ⟨topic, cmd, err, failed, cancelled | ⟨-, -, counted⟩⟩ :=
    (handover_fails_only_by_timeouts run).2 _ s' stepped (by rw [before, after]; simp)
  · rw [before, after] at failed
    cases failed
    cases cancelled.1
  · exact counted

end Cue.State.Lifecycle
