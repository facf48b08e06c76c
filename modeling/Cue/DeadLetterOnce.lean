import Cue.SlotOwnership

/-! How often a job becomes a dead letter. Under the ticket of every accepted
job it is counted how often the job was added to the dead-letter buffer and how
often its ID was proposed for a drop.

- `EntersOnce` is the property: each at most once, where the counts are those of
  the buffer's entries.
- `enters_once_in_swept_run` shows it for every run in which slots are reused
  cleanly and no exhausted record moves away before `removeCells` gets to it.
- `moved_record_enters_twice` is a run in which one does: records are read by due
  time and removed by cell, and the last record fills the hole of another one. -/
namespace Cue.State.Partition
open Cue.Lib Cue.Model

/-- The records that a step adds to the dead-letter buffer. -/
def letters (p : Partition) : Op → List JobRef
  | .dispatch env => (p.itemsRead env).filter (exhausted p.jobStore p.config.maxRetries)
  | _ => []

structure Letters where
  tickets : Tickets := {}
  added : Nat → Nat := fun _ => 0
  proposed : Nat → Nat := fun _ => 0

/-- The ticket of the job that is stored under an ID. -/
def Tickets.holder (tickets : Tickets) (p : Partition) (id : String) : Option Nat :=
  (p.jobStore.byID.get id).bind tickets.owner

def Letters.record (l : Letters) (p : Partition) (op : Op) (effect : Effect) : Letters where
  tickets := l.tickets.record p op effect
  added ticket := l.added ticket + (p.letters op).countP fun item => l.tickets.owner item.slot = some ticket
  proposed ticket := l.proposed ticket + effect.drops.countP fun id => l.tickets.holder p id = some ticket

/-- What is counted as added is what the next dispatch puts behind the buffer. -/
structure EntersOnce (s : Partition × Letters) : Prop where
  added : ∀ ticket, s.2.added ticket ≤ 1
  proposed : ∀ ticket, s.2.proposed ticket ≤ 1
  buffered : ∀ env p' sent, s.1.dispatch env = .ok (p', sent) →
    p'.dlqBuffer.jobs.map Prod.fst = s.1.dlqBuffer.jobs.map Prod.fst ++ s.1.letters (.dispatch env)

/-- `removeCells` works its list off from the end. Every exhausted record in it
is still in its cell when its turn comes. -/
def Reached (p : Partition) : List JobRef → Prop
  | [] => True
  | item :: after => (exhausted p.jobStore p.config.maxRetries item = true →
      item.cell < (p.processQueue.removeCells after).liveCount) ∧ p.Reached after

def Sweeps (p : Partition) : Op → Prop
  | .dispatch env => p.Reached ((p.itemsRead env).filter (removable p.jobStore p.config.maxRetries))
  | _ => True

instance decidableReached (p : Partition) : (items : List JobRef) → Decidable (p.Reached items)
  | [] => .isTrue trivial
  | item :: after =>
    have := decidableReached p after
    inferInstanceAs (Decidable ((exhausted p.jobStore p.config.maxRetries item = true →
      item.cell < (p.processQueue.removeCells after).liveCount) ∧ p.Reached after))

instance (p : Partition) : (op : Op) → Decidable (p.Sweeps op)
  | .dispatch _ => decidableReached p _
  | .command _ _ => .isTrue trivial
  | .flush _ _ => .isTrue trivial
  | .topology _ => .isTrue trivial
  | .heartbeat _ => .isTrue trivial
  | .cleanup _ _ _ => .isTrue trivial

/-! ### The counts -/

/-- A ticket in the queue has no letter, any other at most one, and a letter is
proposed or still buffered. -/
structure Letters.Single (l : Letters) : Prop where
  distinct : l.tickets.queue.Nodup
  born : ∀ ticket ∈ l.tickets.queue, ticket < l.tickets.born
  queued : ∀ ticket ∈ l.tickets.queue, l.added ticket = 0
  unborn : ∀ ticket, l.tickets.born ≤ ticket → l.added ticket = 0
  once : ∀ ticket, l.added ticket ≤ 1
  drained : ∀ ticket, l.proposed ticket + l.tickets.dlq.count ticket ≤ l.added ticket

namespace Letters.Single

variable {l : Letters}

private theorem accept (single : l.Single) (job : String × Nat) :
    { l with tickets := l.tickets.accept job }.Single where
  distinct := (nodup_next single.distinct single.born).1
  born := (nodup_next single.distinct single.born).2
  queued := by
    intro ticket member
    rcases List.mem_append.mp member with old | new
    · exact single.queued ticket old
    · rw [List.mem_singleton] at new
      exact single.unborn ticket (Nat.le_of_eq new.symm)
  unborn := fun ticket late => single.unborn ticket (Nat.le_of_succ_le late)
  once := single.once
  drained := single.drained

private theorem acceptAll (single : l.Single) (jobs : List (String × Nat)) :
    { l with tickets := jobs.foldl Tickets.accept l.tickets }.Single := by
  induction jobs generalizing l with
  | nil => exact single
  | cons job jobs ih => exact ih (single.accept job)

/-- Records leave the queue with one letter each. -/
private theorem add (single : l.Single) (queue letters : List Nat) (left : queue.Nodup)
    (stays : ∀ ticket ∈ queue, ticket ∈ l.tickets.queue ∧ ticket ∉ letters) (distinct : letters.Nodup)
    (came : ∀ ticket ∈ letters, ticket ∈ l.tickets.queue) :
    { l with
      tickets := { l.tickets with queue := queue, dlq := l.tickets.dlq ++ letters }
      added := fun ticket => l.added ticket + letters.count ticket }.Single where
  distinct := left
  born := fun ticket member => single.born ticket (stays ticket member).1
  queued := by
    intro ticket member
    obtain ⟨old, none⟩ := stays ticket member
    simp [single.queued ticket old, List.count_eq_zero_of_not_mem none]
  unborn := by
    intro ticket late
    have none : ticket ∉ letters := fun member =>
      Nat.not_lt.mpr late (single.born ticket (came ticket member))
    simp [single.unborn ticket late, List.count_eq_zero_of_not_mem none]
  once := by
    intro ticket
    by_cases member : ticket ∈ letters
    · simp [single.queued ticket (came ticket member), List.count_eq_one_of_mem distinct member]
    · simpa [List.count_eq_zero_of_not_mem member] using single.once ticket
  drained := by
    intro ticket
    have before := single.drained ticket
    simp only [List.count_append]
    omega

/-- The buffer is emptied and each entry proposed at most once. -/
private theorem flush {proposed : Nat → Nat} (single : l.Single)
    (few : ∀ ticket, proposed ticket ≤ l.tickets.dlq.count ticket) :
    { l with
      tickets := { l.tickets with dlq := [] }
      proposed := fun ticket => l.proposed ticket + proposed ticket }.Single where
  distinct := single.distinct
  born := single.born
  queued := single.queued
  unborn := single.unborn
  once := single.once
  drained := by
    intro ticket
    have before := single.drained ticket
    have more := few ticket
    simp only [List.count_nil]
    omega

end Letters.Single

/-! ### One step -/

section Dispatch

variable {p p' : Partition} {l : Letters} {env : DispatchEnv}

/-- An exhausted record's job is the one of the record's ticket. -/
private theorem letter_ticket (ticketed : Ticketed (p, l.tickets)) {item : JobRef}
    (member : item ∈ p.letters (.dispatch env)) :
    p.processQueue.live[item.cell.toNat]? = some item ∧ (l.tickets.queue[item.cell.toNat]?).isSome ∧
      l.tickets.owner item.slot = l.tickets.queue[item.cell.toNat]? := by
  obtain ⟨read, spent⟩ := List.mem_filter.mp member
  have placed := ((ProcessQueue.mem_live ticketed.valid.queue).mp (itemsRead_live read)).2
  refine ⟨placed, ?_⟩
  rcases ticketed.unaliased.queue _ item placed with free | owned
  · have free : p.jobStore.get item.slot = none := free
    simp [exhausted, dead, free] at spent
  · exact owned

/-- The tickets of the records that go to the dead-letter buffer. -/
private def letterTickets (p : Partition) (l : Letters) (env : DispatchEnv) : List Nat :=
  (p.letters (.dispatch env)).filterMap fun item => l.tickets.queue[item.cell.toNat]?

private theorem count_letters (ticketed : Ticketed (p, l.tickets)) (ticket : Nat) :
    (p.letters (.dispatch env)).countP (fun item => l.tickets.owner item.slot = some ticket) =
      (p.letterTickets l env).count ticket := by
  rw [letterTickets, List.count, List.countP_filterMap]
  refine List.countP_congr fun item member => ?_
  rw [(letter_ticket ticketed member).2.2]
  cases l.tickets.queue[item.cell.toNat]? <;> simp

private theorem letterTickets_nodup (ticketed : Ticketed (p, l.tickets)) (distinct : l.tickets.queue.Nodup) :
    (p.letterTickets l env).Nodup := by
  have positions : ((p.letters (.dispatch env)).map fun item => item.cell.toNat).Nodup :=
    (itemsRead_positions_nodup env ticketed.valid.queue).sublist (List.filter_sublist.map _)
  have same : p.letterTickets l env =
      ((p.letters (.dispatch env)).map fun item => item.cell.toNat).filterMap fun k => l.tickets.queue[k]? := by
    rw [letterTickets, List.filterMap_map]
    rfl
  rw [same]
  refine positions.filterMap fun k k' ticket here there => ?_
  exact (List.getElem?_inj (List.getElem?_eq_some_iff.mp here).1 distinct).mp (here.trans there.symm)

/-- No letter's record stays in the queue. -/
private theorem letter_leaves (ticketed : Ticketed (p, l.tickets)) (distinct : l.tickets.queue.Nodup)
    {items : List JobRef} (sweeps : p.Reached items) (read : ∀ item ∈ items, item ∈ p.processQueue.live)
    (positions : (items.map fun item => item.cell.toNat).Nodup) {item : JobRef} (member : item ∈ items)
    (spent : exhausted p.jobStore p.config.maxRetries item = true) {ticket : Nat}
    (named : l.tickets.queue[item.cell.toNat]? = some ticket) :
    ticket ∉ swapRemoveAll l.tickets.queue (items.map fun item => item.cell.toNat) := by
  obtain ⟨before, after, rfl⟩ := List.append_of_mem member
  have here : p.Reached (item :: after) := by
    clear * - sweeps
    induction before with
    | nil => exact sweeps
    | cons first before ih => exact ih sweeps.2
  have natural : ∀ ref ∈ before ++ item :: after, 0 ≤ ref.cell := fun ref inside =>
    ((ProcessQueue.mem_live ticketed.valid.queue).mp (read ref inside)).1
  have length : (swapRemoveAll l.tickets.queue (after.map fun item => item.cell.toNat)).length =
      (p.processQueue.removeCells after).liveCount := by
    obtain ⟨tags, first, second, _⟩ := ticketed.queue
    have aligned : l.tickets.queue.length = (p.processQueue.live.map JobRef.index).length := by
      have second : tags.map Prod.snd = l.tickets.queue := second
      have first : tags.map Prod.fst = p.processQueue.live.map JobRef.index := first
      rw [← second, ← first, List.length_map, List.length_map]
    rw [(swapRemoveAll_pair aligned).1, ← ProcessQueue.map_live_removeCells JobRef.index (fun _ _ => rfl) after
      ticketed.valid.queue fun ref inside => natural ref (by simp [inside]), List.length_map,
      ProcessQueue.length_live (ProcessQueue.removeCells_valid after ticketed.valid.queue)]
  rw [List.map_append, List.map_cons] at positions ⊢
  refine not_mem_swapRemoveAll distinct positions named ?_
  rw [length]
  have inside := here.1 spent
  have := natural item (by simp)
  omega

private theorem single_dispatch (ticketed : Ticketed (p, l.tickets)) (single : l.Single)
    (sweeps : p.Sweeps (.dispatch env)) : (l.record p (.dispatch env) {}).Single := by
  have same : l.record p (.dispatch env) {} = { l with
      tickets := { l.tickets with
        queue := swapRemoveAll l.tickets.queue
          (((p.itemsRead env).filter (removable p.jobStore p.config.maxRetries)).map fun item => item.cell.toNat)
        dlq := l.tickets.dlq ++ p.letterTickets l env }
      added := fun ticket => l.added ticket + (p.letterTickets l env).count ticket } := by
    simp only [Letters.record, count_letters ticketed]
    rfl
  rw [same]
  refine single.add _ _ (swapRemoveAll_nodup _ single.distinct) ?_ (letterTickets_nodup ticketed single.distinct) ?_
  · intro ticket stays
    refine ⟨mem_of_mem_swapRemoveAll stays, fun letter => ?_⟩
    obtain ⟨item, member, named⟩ := List.mem_filterMap.mp letter
    obtain ⟨read, spent⟩ := List.mem_filter.mp member
    refine letter_leaves ticketed single.distinct sweeps ?_ ?_ ?_ spent named stays
    · exact fun other inside => itemsRead_live (List.mem_filter.mp inside).1
    · exact (itemsRead_positions_nodup env ticketed.valid.queue).sublist (List.filter_sublist.map _)
    · exact List.mem_filter.mpr ⟨read, by simp [removable, spent]⟩
  · intro ticket letter
    obtain ⟨item, _, named⟩ := List.mem_filterMap.mp letter
    exact List.mem_of_getElem? named

/-- An ID is found among the entries at most as often as its job's ticket. -/
private theorem count_entries (valid : p.jobStore.Valid) {tickets : Tickets} {entries : List (JobRef × Int)}
    {dlq : List Nat} (means : ∀ (k : Nat) entry, entries[k]? = some entry → Means p tickets entry.1 dlq[k]?)
    (ticket : Nat) :
    (entries.filterMap fun item => (p.jobStore.get item.1.slot).map Job.id).countP
      (fun id => tickets.holder p id = some ticket) ≤ dlq.count ticket := by
  induction entries generalizing dlq with
  | nil => exact Nat.zero_le _
  | cons entry entries ih =>
    have rest : (entries.filterMap fun item => (p.jobStore.get item.1.slot).map Job.id).countP
        (fun id => tickets.holder p id = some ticket) ≤ dlq.tail.count ticket := by
      refine ih fun k other found => ?_
      rw [List.getElem?_tail]
      exact means (k + 1) other found
    cases found : p.jobStore.get entry.1.slot with
    | none =>
      simp only [List.filterMap_cons, found, Option.map_none]
      exact Nat.le_trans rest ((List.tail_sublist dlq).count_le ticket)
    | some job =>
      simp only [List.filterMap_cons, found, Option.map_some, List.countP_cons]
      rcases means 0 entry rfl with free | ⟨present, owned⟩
      · rw [found] at free
        cases free
      · cases dlq with
        | nil => cases present
        | cons first dlq =>
          have named := (JobStore.get_view valid found).1
          have holds : tickets.holder p job.id = some first := by
            rw [Tickets.holder, named]
            exact owned
          simp only [holds, Option.some.injEq, decide_eq_true_eq, List.count_cons, beq_iff_eq]
          exact Nat.add_le_add_right rest _

/-- An ID is proposed at most as often as its job has entries in the buffer. -/
private theorem count_drops (ticketed : Ticketed (p, l.tickets)) {effect : Effect}
    (listed : effect.drops.Sublist
      (p.dlqBuffer.jobs.filterMap fun item => (p.jobStore.get item.1.slot).map Job.id)) (ticket : Nat) :
    effect.drops.countP (fun id => l.tickets.holder p id = some ticket) ≤ l.tickets.dlq.count ticket :=
  Nat.le_trans listed.countP_le (count_entries ticketed.valid.store ticketed.unaliased.dlq ticket)

end Dispatch

/-- Records mean their own jobs, and no job has two letters. -/
structure Single (s : Partition × Letters) : Prop where
  ticketed : Ticketed (s.1, s.2.tickets)
  counts : s.2.Single

theorem single_step {s s' : Partition × Letters} {op : Op} (single : Single s) (fits : s.1.Fits op)
    (clean : s.1.Clean op) (sweeps : s.1.Sweeps op) (step : ObservedStep Letters.record s op s') : Single s' := by
  obtain ⟨p, l⟩ := s
  obtain ⟨p', l'⟩ := s'
  obtain ⟨effect, ok, rfl⟩ := step
  obtain ⟨ticketed, counts⟩ := single
  have after : Ticketed (p', l.tickets.record p op effect) :=
    ticketed_step ticketed fits clean ⟨effect, ok, rfl⟩
  refine ⟨after, ?_⟩
  have quiet : ∀ op accepted, p.letters op = [] →
      l.record p op { accepted := accepted } = { l with tickets := l.tickets.record p op { accepted := accepted } } := by
    intro op accepted none
    simp only [Letters.record, none]
    rfl
  cases step_ran ok with
  | addJobs | done | drop | ignored =>
    rw [quiet _ _ rfl]
    exact counts.acceptAll _
  | dispatch => exact single_dispatch ticketed counts sweeps
  | @flush now room cmd _ needed run =>
    have few := count_drops ticketed (flush_drops ticketed.valid.store run)
    have same : l.record p (.flush now room) { proposed := cmd } = { l with
        tickets := { l.tickets with dlq := [] }
        proposed := fun ticket => l.proposed ticket +
          (Effect.drops { proposed := cmd }).countP fun id => l.tickets.holder p id = some ticket } := by
      simp only [Letters.record, Tickets.record, needed]
      rfl
    rw [same]
    exact counts.flush few
  | unflushed early =>
    rw [quiet _ _ rfl]
    simp only [Tickets.record, early]
    exact counts
  | proxies proxy idle steady =>
    cases op with
    | command cmd clock => exact absurd rfl (proxy cmd clock)
    | dispatch env => exact absurd rfl (idle env)
    | flush now room => exact absurd rfl (steady now room)
    | topology | heartbeat | cleanup =>
      rw [quiet _ _ rfl]
      exact counts

/-! ### Whole runs -/

theorem single_new (topic : String) (config : PartitionConfig) (nowMilli : Int) :
    Single (new topic config nowMilli, {}) :=
  ⟨ticketed_new topic config nowMilli, List.nodup_nil, by simp, by simp, fun _ _ => rfl, fun _ => Nat.zero_le _,
    fun _ => Nat.le_refl _⟩

/-- When slots are reused cleanly and every exhausted record is still in its cell
when it is removed, no job is added to the buffer or proposed twice. -/
theorem enters_once_in_swept_run {topic : String} {config : PartitionConfig} {nowMilli : Int} {ops : List Op}
    {s : Partition × Letters}
    (run : ObservedRun Letters.record (fun p op => p.Fits op ∧ p.Clean op ∧ p.Sweeps op) topic config nowMilli {}
      ops s) : EntersOnce s := by
  have single : Single s := by
    refine run.invariant (fun _ s => Single s) (single_new topic config nowMilli) ?_
    rintro _ s op s' single ⟨fits, clean, sweeps⟩ step
    exact single_step single fits clean sweeps step
  refine ⟨single.counts.once, fun ticket => ?_, fun _ _ _ ok =>
    (dispatch_spec single.ticketed.valid.queue ok).buffered⟩
  have drained := single.counts.drained ticket
  have once := single.counts.once ticket
  omega

/-! Three jobs are sent once, which is all they may be, and the first is done.
With room for one job on the channel a dispatch removes only that one, and the
last record moves to the front. The next dispatch reads the other two oldest
first, so the record at the end is to be removed after the one at the front. -/

private def letterConfig : PartitionConfig := ⟨4, 1, 20, 4, 1000, 1000⟩

private def letterOps (chLen : Nat) : List Op :=
  let add (ids : List String) (nowSec : Int) : Op :=
    .command { type := .addJobs, addJobs := some ⟨"orders", ids.map fun id => ⟨id, "orders", [1], false, 0⟩⟩ }
      fun _ => ⟨1000, nowSec⟩
  let due (chLen : Nat) (nowSec : Int) : Op := .dispatch ⟨73, chLen, nowSec, true, true, fun _ => nowSec⟩
  [ .topology (.add "proxy" (some ⟨0, 4⟩)),
    .heartbeat { proxyID := "proxy", topic := "orders", consumptionScore := 1, timestamp := 0 },
    add ["a", "b"] 1, due 0 1, add ["c"] 2, due 0 2,
    .command { type := .done, done := some ⟨"orders", ["a"]⟩ } fun _ => ⟨3000, 3⟩,
    due chLen 4, due 0 5, .flush 6000 true, due 0 7, .flush 8000 true ]

private theorem moved_executes :
    (observe Letters.record (fun _ _ => True) "orders" letterConfig 0 {} (letterOps 3)).isSome = true := rfl

/-- The record at the end fills the hole at the front, stays in the queue and is
read again: its job is added and proposed a second time. -/
theorem moved_record_enters_twice :
    ∃ ops s, ObservedRun Letters.record (fun _ _ => True) "orders" letterConfig 0 {} ops s ∧
      s.2.added 1 = 2 ∧ s.2.proposed 1 = 2 ∧ ¬ EntersOnce s := by
  refine ⟨letterOps 3, _, observe_run moved_executes, by decide, by decide, ?_⟩
  intro once
  have added := once.added 1
  revert added
  decide

private theorem swept_executes :
    (observe Letters.record (fun p op => p.Fits op ∧ p.Clean op ∧ p.Sweeps op) "orders" letterConfig 0 {}
      (letterOps 0)).isSome = true := rfl

/-- With room for all of them the records are removed in order. -/
theorem swept_letters_enter_once :
    (Option.get _ swept_executes).2.proposed 1 = 1 ∧ EntersOnce (Option.get _ swept_executes) :=
  ⟨by decide, enters_once_in_swept_run (observe_run swept_executes)⟩

end Cue.State.Partition
