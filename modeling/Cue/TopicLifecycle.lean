import Cue.Lib.Rows
import Cue.Lib.Run
import Cue.State.Lifecycle

/-! What the topic manager keeps over any sequence of spawns and kills, step by
step, up to its end: a topic has one running partition at most, the maps and the
routers agree on it between two commands, and every stop channel is closed once. -/
namespace Cue.State.Lifecycle
open Cue.Lib Cue.Model

/-! ### One step -/

section Step

variable {s s' : Lifecycle} {op : Op}

/-- The steps of `ProcessCommand` in which it does not come to a channel. -/
inductive Waits (s : Lifecycle) : HandlerAct → Lifecycle → Prop where
  | miss {topic cmd} : s.Waits (.call topic cmd) { s with handler := .asking topic cmd }
  | closed {requestID} : s.Waits (.ask requestID) { s with handler := .ended .sendOnClosed }
  /-- It has an answer, which is an error or comes without the channel. -/
  | disappoint {topic cmd call retries res handler failed} :
      s.handler = .waiting topic cmd call retries (some res) →
      res.status = .error ∧ res.error ≠ errTopicExists ∨ s.cmdRouter.get topic = none →
      (∀ topic cmd number, handler ≠ .sending topic cmd number) →
      s.Waits .answer { s with handler := handler, failed := failed }
  | retry {topic cmd call retries answer} :
      s.handler = .waiting topic cmd call retries answer → retries + 1 < 3 →
      s.Waits .timeout { s with handler := .waiting topic cmd call (retries + 1) answer }
  | giveUp {topic cmd call retries answer} :
      s.handler = .waiting topic cmd call retries answer → ¬retries + 1 < 3 →
      s.Waits .timeout (s.fail topic cmd .channelUnavailable)
  | cancelled {topic cmd} : s.cancelled = true → s.Waits .cancelled (s.fail topic cmd .cancelled)
  | blocked : s.Waits .blocked { s with handler := .ended .deadlocked }

theorem afterError_ne_sending (cmd : Command) (err : ProcessError) (topic : String) (cmd' : Command) (number : Nat) :
    HandlerPlace.afterError cmd err ≠ .sending topic cmd' number := by
  unfold HandlerPlace.afterError
  split <;> simp

theorem Waits.frame {act : HandlerAct} (waits : s.Waits act s') :
    s' = { s with handler := s'.handler, failed := s'.failed } ∧
      ∀ topic cmd number, s'.handler ≠ .sending topic cmd number := by
  cases waits with
  | disappoint _ _ elsewhere => exact ⟨rfl, elsewhere⟩
  | giveUp | cancelled => exact ⟨rfl, afterError_ne_sending _ _⟩
  | miss | closed | retry | blocked => exact ⟨rfl, fun _ _ _ => HandlerPlace.noConfusion⟩

/-- Everything that a step can do; what the manager does is left to `manage`. -/
inductive Does (s : Lifecycle) : Op → Lifecycle → Prop where
  | sendClosed (request : Request) : s.Does (.send request) { s with crashed := some .sendOnClosed }
  | send (request : Request) : s.Does (.send request) { s with cmdCh := s.cmdCh ++ [request] }
  | cancel : s.Does .cancel { s with cancelled := true }
  | manage {s' : Lifecycle} : s.manage = some s' → s.Does .manage s'
  | stop : s.manager = .idle → s.Does .stop s.stop
  | wait {act s'} : s.Waits act s' → s.Does (.process act) s'
  /-- `ProcessCommand` has found the channel. -/
  | find {act topic cmd number} : s.cmdRouter.get topic = some number →
      s.Does (.process act) { s with handler := .sending topic cmd number }
  | ask {topic cmd requestID} : s.handler = .asking topic cmd →
      s.Does (.process (.ask requestID)) { s with
        cmdCh := s.cmdCh ++ [.spawn topic requestID (some (.call s.calls))]
        handler := .waiting topic cmd s.calls 0 none
        calls := s.calls + 1 }
  | put {topic cmd number p} :
      s.handler = .sending topic cmd number → s.partitions[number]? = some p →
      s.Does (.process .put) { s with
        partitions := s.partitions.set number { p with commandCh := p.commandCh ++ [cmd] }
        handler := .idle
        processed := s.processed ++ [(topic, cmd)] }
  | take {number p cmd rest} :
      s.partitions[number]? = some p → p.commandCh = cmd :: rest →
      s.Does (.take number) { s with
        partitions := s.partitions.set number { p with commandCh := rest, taken := p.taken ++ [cmd] } }
  | quit {number p} : s.partitions[number]? = some p →
      s.Does (.quit number) { s with partitions := s.partitions.set number { p with place := .returned } }

theorem process_does {act : HandlerAct} (processed : s.process act = some s') : s.Does (.process act) s' := by
  unfold process at processed
  split at processed
  · split at processed
    · split at processed
      · cases processed
        exact .find ‹_›
      · cases processed
        exact .wait .miss
    · cases processed
  · split at processed
    · split at processed
      · cases processed
        exact .wait .closed
      · obtain ⟨-, processed⟩ := Option.ite_none_right_eq_some.mp processed
        cases processed
        exact .ask ‹_›
    · cases processed
  · split at processed
    · rename_i here
      split at processed
      · cases processed
        exact .wait (.disappoint here (.inl ‹_›) (afterError_ne_sending _ _))
      · cases processed
        unfold lookAgain
        split
        · exact .find ‹_›
        · split
          · exact .wait (.disappoint here (.inr ‹_›) (by simp))
          · exact .wait (.disappoint here (.inr ‹_›) (afterError_ne_sending _ _))
    · cases processed
  · split at processed
    · rename_i here
      cases processed
      unfold lookAgain
      split
      · exact .find ‹_›
      · split
        · exact .wait (.retry here ‹_›)
        · exact .wait (.giveUp here ‹_›)
    · cases processed
  · split at processed
    · obtain ⟨ended, processed⟩ := Option.ite_none_right_eq_some.mp processed
      cases processed
      exact .wait (.cancelled ended)
    · obtain ⟨ended, processed⟩ := Option.ite_none_right_eq_some.mp processed
      cases processed
      exact .wait (.cancelled ended)
    · cases processed
  · split at processed
    · rename_i here
      split at processed
      · cases processed
      · rename_i p found
        obtain ⟨-, processed⟩ := Option.ite_none_right_eq_some.mp processed
        cases processed
        exact .put here found
    · cases processed
  · split at processed
    · cases processed
      exact .wait .blocked
    · cases processed

theorem step_does (stepped : s.step op = some s') : s.crashed = none ∧ s.Does op s' := by
  unfold step at stepped
  split at stepped
  · cases stepped
  · rename_i alive
    refine ⟨by simpa using alive, ?_⟩
    split at stepped
    · split at stepped
      · cases stepped
        exact .sendClosed _
      · obtain ⟨-, stepped⟩ := Option.ite_none_right_eq_some.mp stepped
        cases stepped
        exact .send _
    · exact .manage stepped
    · obtain ⟨⟨idle, -⟩, stepped⟩ := Option.ite_none_right_eq_some.mp stepped
      cases stepped
      exact .stop idle
    · cases stepped
      exact .cancel
    · exact process_does stepped
    · split at stepped
      · cases stepped
      · split at stepped
        · cases stepped
          exact .take ‹_› ‹_›
        · cases stepped
    · split at stepped
      · cases stepped
      · obtain ⟨-, stepped⟩ := Option.ite_none_right_eq_some.mp stepped
        cases stepped
        exact .quit ‹_›

end Step

/-! ### The roster -/

/-- What spawning, killing and stopping are about: the maps, and of every partition
its topic and whether it was told to stop. -/
structure Roster where
  stopChs : FinMap String Nat
  topologyChs : FinMap String Nat
  cmdRouter : FinMap String Nat
  hbRouter : FinMap String Nat
  marks : List (String × Bool)
  manager : ManagerPlace

def mark (p : PartitionRun) : String × Bool := (p.topic, p.stopClosed)

def roster (s : Lifecycle) : Roster where
  stopChs := s.stopChs
  topologyChs := s.topologyChs
  cmdRouter := s.cmdRouter
  hbRouter := s.hbRouter
  marks := s.partitions.map mark
  manager := s.manager

namespace Roster

/-- Everything that can happen to a roster. -/
inductive Moves (r : Roster) : Roster → Prop where
  | spawn {topic requestID respCh} :
      r.manager = .idle → r.stopChs.get topic = none → r.Moves { r with
        stopChs := r.stopChs.set topic r.marks.length
        topologyChs := r.topologyChs.set topic r.marks.length
        marks := r.marks ++ [(topic, false)]
        manager := .registerCommands ⟨topic, requestID, respCh, r.marks.length⟩ }
  | registerCommands {pending} : r.manager = .registerCommands pending → r.Moves { r with
      cmdRouter := r.cmdRouter.set pending.topic pending.number
      manager := .registerHeartbeats pending }
  | registerHeartbeats {pending} : r.manager = .registerHeartbeats pending → r.Moves { r with
      hbRouter := r.hbRouter.set pending.topic pending.number
      manager := .start pending }
  | start {pending} : r.manager = .start pending → r.Moves { r with manager := .idle }
  | kill {topic requestID respCh number} :
      r.manager = .idle → r.stopChs.get topic = some number → r.Moves { r with
        marks := r.marks.set number (topic, true)
        manager := .unregisterCommands ⟨topic, requestID, respCh, number⟩ }
  | unregisterCommands {pending} : r.manager = .unregisterCommands pending → r.Moves { r with
      cmdRouter := r.cmdRouter.delete pending.topic
      manager := .unregisterHeartbeats pending }
  | unregisterHeartbeats {pending} : r.manager = .unregisterHeartbeats pending → r.Moves { r with
      hbRouter := r.hbRouter.delete pending.topic
      manager := .forget pending }
  | forget {pending} : r.manager = .forget pending → r.Moves { r with
      stopChs := r.stopChs.delete pending.topic
      topologyChs := r.topologyChs.delete pending.topic
      manager := .idle }
  | stop : r.manager = .idle → r.Moves { r with
      marks := r.marks.map fun m => (m.1, true)
      manager := .closeCommands }
  | close : r.manager = .closeCommands → r.Moves { r with manager := .returned }

end Roster

/-! ### What a roster keeps -/

def ManagerPlace.pending : ManagerPlace → Option Pending
  | .registerCommands pending | .registerHeartbeats pending | .start pending
  | .unregisterCommands pending | .unregisterHeartbeats pending | .forget pending => some pending
  | .idle | .closeCommands | .returned => none

/-- The topic that the command router does not have, though the manager does. -/
def ManagerPlace.withoutCommands : ManagerPlace → Option String
  | .registerCommands pending | .unregisterHeartbeats pending | .forget pending => some pending.topic
  | _ => none

def ManagerPlace.withoutHeartbeats : ManagerPlace → Option String
  | .registerCommands pending | .registerHeartbeats pending | .forget pending => some pending.topic
  | _ => none

/-- The topic's partition is told to stop: it is being killed, or all are. -/
def ManagerPlace.Ends (place : ManagerPlace) (topic : String) : Prop :=
  match place with
  | .unregisterCommands pending | .unregisterHeartbeats pending | .forget pending => pending.topic = topic
  | .closeCommands | .returned => True
  | _ => False

/-- A router has the partitions that the manager has, but for one topic. -/
def Routes (router stopChs : FinMap String Nat) (without : Option String) : Prop :=
  ∀ topic, router.get topic = if without = some topic then none else stopChs.get topic

structure Roster.Sound (r : Roster) : Prop where
  topology : ∀ topic, r.topologyChs.get topic = r.stopChs.get topic
  commands : Routes r.cmdRouter r.stopChs r.manager.withoutCommands
  heartbeats : Routes r.hbRouter r.stopChs r.manager.withoutHeartbeats
  pending : ∀ p, r.manager.pending = some p → r.stopChs.get p.topic = some p.number
  known : ∀ topic number, r.stopChs.get topic = some number →
    ∃ closed, r.marks[number]? = some (topic, closed) ∧ (closed = true → r.manager.Ends topic)
  live : ∀ number topic, r.marks[number]? = some (topic, false) →
    r.stopChs.get topic = some number ∧ ¬r.manager.Ends topic

section Routes

variable {router stopChs : FinMap String Nat} {topic : String} {n : Nat}

theorem Routes.spawn (routes : Routes router stopChs none) (absent : stopChs.get topic = none) :
    Routes router (stopChs.set topic n) (some topic) := by
  intro other
  have here := routes other
  simp only [FinMap.get_set] at here ⊢
  grind

theorem Routes.register (routes : Routes router stopChs (some topic)) (known : stopChs.get topic = some n) :
    Routes (router.set topic n) stopChs none := by
  intro other
  have here := routes other
  simp only [FinMap.get_set] at here ⊢
  grind

theorem Routes.unregister (routes : Routes router stopChs none) : Routes (router.delete topic) stopChs (some topic) := by
  intro other
  have here := routes other
  simp only [FinMap.get_delete] at here ⊢
  grind

theorem Routes.forget (routes : Routes router stopChs (some topic)) : Routes router (stopChs.delete topic) none := by
  intro other
  have here := routes other
  simp only [FinMap.get_delete] at here ⊢
  grind

end Routes

namespace Roster

variable {r r' : Roster}

theorem Sound.move (sound : r.Sound) (moves : r.Moves r') : r'.Sound := by
  obtain ⟨topology, commands, heartbeats, pending, known, live⟩ := sound
  cases moves with
  | @spawn topic requestID respCh idle absent =>
    rw [idle] at commands heartbeats known live
    refine ⟨fun other => ?_, commands.spawn absent, heartbeats.spawn absent, fun p mine => ?_, fun other number => ?_,
      fun number other => ?_⟩
    · simp only [FinMap.get_set, topology]
    · cases mine
      simp
    · intro found
      rw [FinMap.get_set] at found
      split at found
      · cases found
        exact ⟨false, by simp [‹other = topic›], by simp⟩
      · obtain ⟨closed, there, ends⟩ := known other number found
        exact ⟨closed, getElem?_snoc.mpr (.inl there), fun yes => (ends yes).elim⟩
    · intro found
      refine ⟨?_, id⟩
      rw [FinMap.get_set]
      rcases getElem?_snoc.mp found with before | ⟨rfl, same⟩
      · have there := (live number other before).1
        rw [if_neg (by rintro rfl; simp [absent] at there), there]
      · rw [if_pos (congrArg Prod.fst same).symm]
  | @registerCommands p place =>
    rw [place] at commands heartbeats pending known live
    exact ⟨topology, commands.register (pending p rfl), heartbeats, pending, known, live⟩
  | @registerHeartbeats p place =>
    rw [place] at commands heartbeats pending known live
    exact ⟨topology, commands, heartbeats.register (pending p rfl), pending, known, live⟩
  | @kill topic requestID respCh number idle found =>
    rw [idle] at commands heartbeats known live
    obtain ⟨was, there, -⟩ := known topic number found
    refine ⟨topology, commands, heartbeats, fun p mine => ?_, fun other n found' => ?_, fun n other found' => ?_⟩
    · cases mine
      exact found
    · obtain ⟨closed, there', ends⟩ := known other n found'
      by_cases same : number = n
      · subst same
        cases there.symm.trans there'
        exact ⟨true, by simp [(List.getElem?_eq_some_iff.mp there).1], fun _ => rfl⟩
      · exact ⟨closed, by rwa [List.getElem?_set_ne same], fun yes => (ends yes).elim⟩
    · rcases getElem?_set_some found' with ⟨-, same⟩ | ⟨apart, old⟩
      · cases same
      · refine ⟨(live n other old).1, fun ends => ?_⟩
        cases ends
        exact apart (Option.some.inj (found.symm.trans (live n topic old).1))
  | @unregisterCommands p place =>
    rw [place] at commands heartbeats pending known live
    exact ⟨topology, commands.unregister, heartbeats, pending, known, live⟩
  | @unregisterHeartbeats p place =>
    rw [place] at commands heartbeats pending known live
    exact ⟨topology, commands, heartbeats.unregister, pending, known, live⟩
  | @forget p place =>
    rw [place] at commands heartbeats pending known live
    refine ⟨fun topic => ?_, commands.forget, heartbeats.forget, fun _ none => (by cases none),
      fun topic number found => ?_, fun number topic found => ?_⟩
    · simp only [FinMap.get_delete, topology]
    · rw [FinMap.get_delete] at found
      split at found
      · cases found
      · obtain ⟨closed, there, ends⟩ := known topic number found
        exact ⟨closed, there, fun yes => absurd (ends yes).symm ‹_›⟩
    · obtain ⟨there, spared⟩ := live number topic found
      refine ⟨?_, id⟩
      rw [FinMap.get_delete, if_neg (fun same => spared same.symm), there]
  | stop idle =>
    rw [idle] at commands heartbeats known live
    refine ⟨topology, commands, heartbeats, fun _ none => (by cases none), fun topic number found => ?_,
      fun number topic found => ?_⟩
    · obtain ⟨closed, there, -⟩ := known topic number found
      exact ⟨true, by simp [there], fun _ => trivial⟩
    · simp at found
  | start place | close place =>
    rw [place] at commands heartbeats pending known live
    exact ⟨topology, commands, heartbeats, fun _ none => (by cases none), known, live⟩

end Roster

/-! ### The steps, seen on the roster -/

variable {s s' : Lifecycle} {op : Op}

theorem respond_eq (s : Lifecycle) (respCh : Option RespCh) (res : ToProducerResponse) :
    s.respond respCh res = { s with handler := (s.respond respCh res).handler } := by
  unfold respond
  split
  · split <;> rfl
  · rfl

@[simp]
theorem respond_roster (s : Lifecycle) (respCh : Option RespCh) (res : ToProducerResponse) :
    (s.respond respCh res).roster = s.roster := by
  rw [respond_eq]
  rfl

@[simp]
theorem respond_crashed (s : Lifecycle) (respCh : Option RespCh) (res : ToProducerResponse) :
    (s.respond respCh res).crashed = s.crashed := by
  rw [respond_eq]

theorem closeStop_open {number : Nat} {p : PartitionRun} (found : s.partitions[number]? = some p)
    (opened : p.stopClosed = false) :
    s.closeStop number = { s with partitions := s.partitions.set number { p with stopClosed := true } } := by
  simp [closeStop, found, opened]

theorem marks_get {number : Nat} {topic : String} {closed : Bool} :
    s.roster.marks[number]? = some (topic, closed) ↔
      ∃ p, s.partitions[number]? = some p ∧ p.topic = topic ∧ p.stopClosed = closed := by
  simp [roster, mark]

/-- Between two commands, a partition that the manager has was not told to stop. -/
theorem known_open (sound : s.roster.Sound) (idle : s.manager = .idle) {topic : String} {number : Nat}
    (found : s.stopChs.get topic = some number) :
    ∃ p, s.partitions[number]? = some p ∧ p.topic = topic ∧ p.stopClosed = false := by
  obtain ⟨closed, there, ends⟩ := sound.known topic number found
  cases closed with
  | false => exact marks_get.mp there
  | true => exact ((show s.roster.manager = .idle from idle) ▸ ends rfl : ManagerPlace.Ends .idle topic).elim

/-- Closing the stop channels of different partitions, each of them open. -/
theorem closeStops_spec (entries : List (String × Nat)) (s : Lifecycle) (distinct : (entries.map Prod.snd).Nodup)
    (opened : ∀ entry ∈ entries, ∃ p, s.partitions[entry.2]? = some p ∧ p.stopClosed = false) :
    let after := entries.foldl (fun s entry => s.closeStop entry.2) s
    after = { s with partitions := after.partitions } ∧
      ∀ n : Nat, after.partitions[n]?.map mark =
        s.partitions[n]?.map fun p => (p.topic, p.stopClosed || decide (n ∈ entries.map Prod.snd)) := by
  induction entries generalizing s with
  | nil => exact ⟨rfl, fun n => by simp [show mark = fun p => (p.topic, p.stopClosed) from rfl]⟩
  | cons entry rest ih =>
    obtain ⟨fresh, others⟩ := List.nodup_cons.mp distinct
    obtain ⟨p, found, shut⟩ := opened entry List.mem_cons_self
    have first := closeStop_open found shut
    have kept : ∀ other ∈ rest, ∃ q, (s.closeStop entry.2).partitions[other.2]? = some q ∧ q.stopClosed = false := by
      intro other member
      obtain ⟨q, there, unshut⟩ := opened other (List.mem_cons_of_mem _ member)
      have apart : entry.2 ≠ other.2 := fun same => fresh (same ▸ List.mem_map_of_mem member)
      exact ⟨q, by rw [first, List.getElem?_set_ne apart, there], unshut⟩
    obtain ⟨same, marks⟩ := ih (s.closeStop entry.2) others kept
    refine ⟨?_, fun n => ?_⟩
    · rw [List.foldl_cons, same, first]
    · rw [List.foldl_cons, marks n, first]
      by_cases here : entry.2 = n
      · subst here
        have inside := (List.getElem?_eq_some_iff.mp found).1
        rw [List.getElem?_set_self inside, found]
        simp
      · rw [List.getElem?_set_ne here]
        simp only [List.map_cons, List.mem_cons, Ne.symm here, false_or]

theorem stop_moves (sound : s.roster.Sound) (idle : s.manager = .idle) :
    s.roster.Moves s.stop.roster ∧ s.stop.crashed = s.crashed := by
  have distinct : (s.stopChs.pairs.map Prod.snd).Nodup := by
    refine List.Nodup.map_on ?_ (List.Nodup.of_map Prod.fst s.stopChs.nodup)
    rintro ⟨topic, number⟩ mine ⟨other, _⟩ theirs rfl
    obtain ⟨p, found, rfl, -⟩ := known_open sound idle ((s.stopChs.mem_pairs _ _).mp mine)
    obtain ⟨q, found', rfl, -⟩ := known_open sound idle ((s.stopChs.mem_pairs _ _).mp theirs)
    cases found.symm.trans found'
    rfl
  obtain ⟨same, marks⟩ := closeStops_spec s.stopChs.pairs s distinct fun entry member =>
    (known_open sound idle ((s.stopChs.mem_pairs _ _).mp member)).imp fun _ h => ⟨h.1, h.2.2⟩
  have all : (s.stopChs.pairs.foldl (fun s entry => s.closeStop entry.2) s).partitions.map mark =
      s.roster.marks.map fun m => (m.1, true) := by
    refine List.ext_getElem? fun n => ?_
    rw [List.getElem?_map, marks n]
    simp only [roster, List.map_map, List.getElem?_map]
    cases found : s.partitions[n]? with
    | none => rfl
    | some p =>
      -- a partition that was not told to stop yet is in the map, so it is told now
      have told : p.stopClosed = true ∨ n ∈ s.stopChs.pairs.map Prod.snd := by
        cases shut : p.stopClosed with
        | true => exact .inl rfl
        | false =>
          have there := (sound.live n p.topic (marks_get.mpr ⟨p, found, rfl, shut⟩)).1
          exact .inr (List.mem_map.mpr ⟨(p.topic, n), (s.stopChs.mem_pairs _ _).mpr there, rfl⟩)
      simp only [Option.map_some, Function.comp_apply, mark]
      rcases told with shut | member
      · simp [shut]
      · simp [member]
  unfold stop
  rw [same]
  refine ⟨?_, rfl⟩
  have moved := Roster.Moves.stop (r := s.roster) idle
  rw [← all] at moved
  exact moved

/-- What the manager does first with a command. -/
theorem handle_moves (sound : s.roster.Sound) (idle : s.manager = .idle) (request : Request) :
    ((s.handle request).roster = s.roster ∨ s.roster.Moves (s.handle request).roster) ∧
      (s.handle request).crashed = s.crashed := by
  cases request with
  | spawn topic requestID respCh =>
    simp only [handle, beginSpawn]
    split
    · exact ⟨.inl (respond_roster _ _ _), respond_crashed _ _ _⟩
    · rename_i absent
      have unknown : s.stopChs.get topic = none := by simpa [FinMap.contains] using absent
      have moved := @Roster.Moves.spawn s.roster topic requestID respCh idle unknown
      refine ⟨.inr ?_, rfl⟩
      simpa [roster, mark] using moved
  | kill topic requestID respCh =>
    simp only [handle, beginKill]
    split
    · exact ⟨.inl (respond_roster _ _ _), respond_crashed _ _ _⟩
    · rename_i number found
      obtain ⟨p, here, rfl, opened⟩ := known_open sound idle found
      have moved := @Roster.Moves.kill s.roster p.topic requestID respCh number idle found
      rw [closeStop_open here opened]
      refine ⟨.inr ?_, rfl⟩
      simpa [roster, mark, List.map_set] using moved
  | topology => exact ⟨.inl rfl, rfl⟩
  | unknown requestID respCh => exact ⟨.inl (respond_roster _ _ _), respond_crashed _ _ _⟩

theorem manage_moves (sound : s.roster.Sound) (managed : s.manage = some s') :
    (s'.roster = s.roster ∨ s.roster.Moves s'.roster) ∧ s'.crashed = s.crashed := by
  unfold manage at managed
  split at managed
  · rename_i idle
    split at managed
    · cases managed
    · rename_i request rest _
      cases managed
      exact @handle_moves { s with cmdCh := rest } sound idle request
  · cases managed
    exact ⟨.inr (.registerCommands (show s.roster.manager = _ from ‹_›)), rfl⟩
  · cases managed
    exact ⟨.inr (.registerHeartbeats (show s.roster.manager = _ from ‹_›)), rfl⟩
  · rename_i pending place
    cases managed
    refine ⟨.inr ?_, respond_crashed _ _ _⟩
    have moved := Roster.Moves.start (show s.roster.manager = .start pending from place)
    rw [startPartition, respond_roster]
    have marks : (s.partitions.modify pending.number fun p => { p with place := .running }).map mark = s.roster.marks :=
      map_modify_same (by intro _; rfl) _ _
    rw [← marks] at moved
    exact moved
  · cases managed
    exact ⟨.inr (.unregisterCommands (show s.roster.manager = _ from ‹_›)), rfl⟩
  · cases managed
    exact ⟨.inr (.unregisterHeartbeats (show s.roster.manager = _ from ‹_›)), rfl⟩
  · rename_i pending place
    cases managed
    refine ⟨.inr ?_, respond_crashed _ _ _⟩
    rw [forgetPartition, respond_roster]
    exact .forget (show s.roster.manager = .forget pending from place)
  · cases managed
    exact ⟨.inr (.close (show s.roster.manager = _ from ‹_›)), rfl⟩
  · cases managed

/-- A step leaves the roster alone or is one of its moves; the manager never closes a
channel twice. -/
theorem step_moves (sound : s.roster.Sound) (stepped : s.step op = some s') :
    (s'.roster = s.roster ∨ s.roster.Moves s'.roster) ∧ s'.crashed ≠ some .doubleClose := by
  obtain ⟨alive, does⟩ := step_does stepped
  cases does with
  | manage managed =>
    obtain ⟨moved, crashed⟩ := manage_moves sound managed
    exact ⟨moved, by simp [crashed, alive]⟩
  | stop idle =>
    obtain ⟨moved, crashed⟩ := stop_moves sound idle
    exact ⟨.inr moved, by simp [crashed, alive]⟩
  | put _ found | take found | quit found =>
    exact ⟨.inl (congrArg (fun marks => { s.roster with marks := marks }) (map_set_same found (by rfl))),
      by simp [alive]⟩
  | wait waits =>
    rw [waits.frame.1]
    exact ⟨.inl rfl, by simp [alive]⟩
  | sendClosed => exact ⟨.inl rfl, by simp⟩
  | send | cancel | find | ask => exact ⟨.inl rfl, by simp [alive]⟩

/-! ### Runs -/

/-- The runs from the start of the manager on. -/
def Runs : List Op → Lifecycle → Prop :=
  Run (fun s op s' => s.step op = some s') (fun _ _ _ => True) Lifecycle.new

variable {ops : List Op}

theorem new_sound : Lifecycle.new.roster.Sound where
  topology _ := rfl
  commands _ := rfl
  heartbeats _ := rfl
  pending _ none := by cases none
  known _ _ none := by cases none
  live _ _ none := by simp [roster, Lifecycle.new] at none

theorem runs_sound (run : Runs ops s) : s.roster.Sound := by
  refine run.invariant (fun _ s => s.roster.Sound) new_sound ?_
  intro _ s op s' sound _ stepped
  rcases (step_moves sound stepped).1 with same | moved
  · rw [same]
    exact sound
  · exact sound.move moved

/-- Over any spawns and kills: a topic has one partition at most that was not told to
stop; between two commands the manager and both routers know exactly these; no stop
channel is closed twice; and once the manager has returned, all of them are closed. -/
theorem one_partition_per_topic (run : Runs ops s) :
    s.crashed ≠ some .doubleClose ∧
      (∀ (n m : Nat) (p q : PartitionRun), s.partitions[n]? = some p → s.partitions[m]? = some q →
        p.stopClosed = false → q.stopClosed = false → p.topic = q.topic → n = m) ∧
      (s.manager = .idle → ∀ topic,
        (∀ n : Nat, s.stopChs.get topic = some n ↔
          ∃ p, s.partitions[n]? = some p ∧ p.topic = topic ∧ p.stopClosed = false) ∧
          s.topologyChs.get topic = s.stopChs.get topic ∧ s.cmdRouter.get topic = s.stopChs.get topic ∧
          s.hbRouter.get topic = s.stopChs.get topic) ∧
      (s.manager = .returned → ∀ p ∈ s.partitions, p.stopClosed = true) := by
  have sound := runs_sound run
  refine ⟨?_, ?_, fun idle topic => ⟨fun n => ⟨known_open sound idle, ?_⟩, sound.topology topic, ?_, ?_⟩,
    fun returned p member => ?_⟩
  · cases run with
    | start => simp [Lifecycle.new]
    | next run _ stepped => exact (step_moves (runs_sound run) stepped).2
  · intro n m p q mine theirs open₁ open₂ same
    have first := (sound.live n p.topic (marks_get.mpr ⟨p, mine, rfl, open₁⟩)).1
    have second := (sound.live m q.topic (marks_get.mpr ⟨q, theirs, rfl, open₂⟩)).1
    rw [same] at first
    exact Option.some.inj (first.symm.trans second)
  · rintro ⟨p, found, rfl, opened⟩
    exact (sound.live n p.topic (marks_get.mpr ⟨p, found, rfl, opened⟩)).1
  · have here := sound.commands topic
    rwa [show s.roster.manager = .idle from idle] at here
  · have here := sound.heartbeats topic
    rwa [show s.roster.manager = .idle from idle] at here
  · obtain ⟨n, found⟩ := List.mem_iff_getElem?.mp member
    cases shut : p.stopClosed with
    | true => rfl
    | false =>
      have spared := (sound.live n p.topic (marks_get.mpr ⟨p, found, rfl, shut⟩)).2
      rw [show s.roster.manager = .returned from returned] at spared
      exact absurd trivial spared

/-! A topic is spawned, killed and spawned again, and then the process ends. -/

private def respawnOps : List Op :=
  [.send (.spawn "orders" 1 none), .manage, .manage, .manage, .manage, .send (.kill "orders" 2 none), .manage,
    .quit 0, .manage, .manage, .manage, .send (.spawn "orders" 3 none), .manage, .manage, .manage, .manage,
    .cancel, .stop, .manage]

theorem respawned_topic_stopped : ∃ s, Runs respawnOps s ∧ s.manager = .returned ∧
    s.partitions.map (·.topic) = ["orders", "orders"] ∧ ∀ p ∈ s.partitions, p.stopClosed = true := by
  obtain ⟨s, executed, returned, topics⟩ : ∃ s, respawnOps.foldlM step Lifecycle.new = some s ∧ s.manager = .returned ∧
      s.partitions.map (·.topic) = ["orders", "orders"] := ⟨_, rfl, rfl, rfl⟩
  have run : Runs respawnOps s := Run.of_execute (fun _ _ _ _ stepped => ⟨trivial, stepped⟩) executed
  exact ⟨s, run, returned, topics, (one_partition_per_topic run).2.2.2 returned⟩

end Cue.State.Lifecycle
