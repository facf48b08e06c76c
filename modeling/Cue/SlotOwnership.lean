import Cue.PartitionProofs

/-! Whether a record still means the job it was made for. Every accepted job
gets a ticket; a slot remembers the ticket of the last job accepted into it,
and the tickets of the queue records and dead-letter entries move as the
records do, in the same order.

- `Unaliased` is the property: no two live records share an index, and the slot
  of every record and entry is free or holds the job of the record's ticket.
- `unaliased_in_clean_run` shows it for every run in which a freed slot is
  taken again only when no record or entry has it as its index any more.
- `drop_then_add_aliases` is a run of three commands without that. -/
namespace Cue.State.Partition
open Cue.Lib Cue.Model

structure Tickets where
  born : Nat := 0
  owner : Nat → Option Nat := fun _ => none
  queue : List Nat := []
  dlq : List Nat := []

namespace Tickets

def accept (tickets : Tickets) (job : String × Nat) : Tickets where
  born := tickets.born + 1
  owner := Function.update tickets.owner job.2 (some tickets.born)
  queue := tickets.queue ++ [tickets.born]
  dlq := tickets.dlq

/-- The tickets follow the records a dispatch removes and buffers. -/
def dispatch (tickets : Tickets) (p : Partition) (items : List JobRef) : Tickets :=
  { tickets with
    queue := swapRemoveAll tickets.queue
      ((items.filter (removable p.jobStore p.config.maxRetries)).map fun item => item.cell.toNat)
    dlq := tickets.dlq ++ (items.filter (exhausted p.jobStore p.config.maxRetries)).filterMap
      fun item => tickets.queue[item.cell.toNat]? }

def record (tickets : Tickets) (p : Partition) (op : Op) (effect : Effect) : Tickets :=
  match op with
  | .dispatch env => tickets.dispatch p (p.itemsRead env)
  | .flush now _ => if p.dlqBuffer.shouldFlush now then { tickets with dlq := [] } else tickets
  | _ => effect.accepted.foldl accept tickets

end Tickets

/-- The slot a record refers to is free, or the job in it is the one of this ticket. -/
def Means (p : Partition) (tickets : Tickets) (ref : JobRef) (ticket : Option Nat) : Prop :=
  p.jobStore.get ref.slot = none ∨ (ticket.isSome ∧ tickets.owner ref.slot = ticket)

structure Unaliased (s : Partition × Tickets) : Prop where
  distinct : (s.1.processQueue.live.map JobRef.index).Nodup
  queue : ∀ (k : Nat) record, s.1.processQueue.live[k]? = some record → Means s.1 s.2 record s.2.queue[k]?
  dlq : ∀ (k : Nat) entry, s.1.dlqBuffer.jobs[k]? = some entry → Means s.1 s.2 entry.1 s.2.dlq[k]?

/-- No live record and no dead-letter entry has this slot as its index. -/
def Unreferenced (p : Partition) (idx : Nat) : Prop :=
  (∀ record ∈ p.processQueue.live, record.index ≠ idx) ∧ ∀ entry ∈ p.dlqBuffer.jobs, entry.1.index ≠ idx

/-- The freed slot that adding this job would take again, if it would. -/
def reuses (p : Partition) (job : Job) : Option Nat :=
  if job.done ∨ p.jobStore.byID.contains job.id ∨ p.processQueue.liveCount ≥ p.processQueue.records.length
  then none
  else p.jobStore.freeList.getLast?

/-- Along the loop of `handleAddJobs`, every freed slot taken again is unreferenced. -/
def CleanReuse (p : Partition) : List Job → (Nat → Clock) → Prop
  | [], _ => True
  | job :: jobs, clock =>
    (∀ idx ∈ p.reuses job, p.Unreferenced idx) ∧
      match p.addJob job (clock 0) with
      | .ok (p', _) => p'.CleanReuse jobs fun i => clock (i + 1)
      | .error _ => True

def Clean (p : Partition) (op : Op) : Prop :=
  match op with
  | .command _ clock => p.CleanReuse op.adds clock
  | _ => True

instance (p : Partition) (idx : Nat) : Decidable (p.Unreferenced idx) :=
  inferInstanceAs (Decidable (_ ∧ _))

instance decidableCleanReuse : (p : Partition) → (jobs : List Job) → (clock : Nat → Clock) →
    Decidable (p.CleanReuse jobs clock)
  | _, [], _ => .isTrue trivial
  | p, job :: jobs, clock =>
    have : Decidable (match p.addJob job (clock 0) with
        | .ok (p', _) => p'.CleanReuse jobs fun i => clock (i + 1)
        | .error _ => True) :=
      match p.addJob job (clock 0) with
      | .ok (p', _) => decidableCleanReuse p' jobs fun i => clock (i + 1)
      | .error _ => .isTrue trivial
    inferInstanceAs (Decidable (_ ∧ _))

instance (p : Partition) : (op : Op) → Decidable (p.Clean op)
  | .command cmd clock => decidableCleanReuse p (Op.command cmd clock).adds clock
  | .dispatch _ => .isTrue trivial
  | .flush _ _ => .isTrue trivial
  | .topology _ => .isTrue trivial
  | .heartbeat _ => .isTrue trivial
  | .cleanup _ _ _ => .isTrue trivial

/-! ### The invariant -/

/-- An index is a slot of the store that is free or owned by the ticket. -/
def Owns (js : JobStore) (owner : Nat → Option Nat) (tag : Int × Nat) : Prop :=
  ∃ i : Nat, tag.1 = i ∧ i < js.jobs.length ∧ (js.get i = none ∨ owner i = some tag.2)

/-- The tickets belong to the indices, one each. -/
def Tagged (js : JobStore) (owner : Nat → Option Nat) (indices : List Int) (tickets : List Nat) : Prop :=
  ∃ tags : List (Int × Nat), tags.map Prod.fst = indices ∧ tags.map Prod.snd = tickets ∧
    ∀ tag ∈ tags, Owns js owner tag

structure Ticketed (s : Partition × Tickets) : Prop where
  valid : s.1.Valid
  distinct : (s.1.processQueue.live.map JobRef.index).Nodup
  queue : Tagged s.1.jobStore s.2.owner (s.1.processQueue.live.map JobRef.index) s.2.queue
  dlq : Tagged s.1.jobStore s.2.owner (s.1.dlqBuffer.jobs.map fun entry => entry.1.index) s.2.dlq

theorem Tagged.mono {js js' : JobStore} {owner owner' : Nat → Option Nat} {indices : List Int}
    {tickets : List Nat} (tagged : Tagged js owner indices tickets)
    (keep : ∀ tag, tag.1 ∈ indices → Owns js owner tag → Owns js' owner' tag) :
    Tagged js' owner' indices tickets := by
  obtain ⟨tags, first, second, owns⟩ := tagged
  refine ⟨tags, first, second, ?_⟩
  intro tag member
  exact keep tag (first ▸ List.mem_map_of_mem member) (owns tag member)

private theorem Tagged.means {p : Partition} {tickets : Tickets} {refs : List JobRef} {list : List Nat}
    (valid : p.jobStore.Valid)
    (tagged : Tagged p.jobStore tickets.owner (refs.map JobRef.index) list) {k : Nat} {ref : JobRef}
    (found : refs[k]? = some ref) : Means p tickets ref list[k]? := by
  obtain ⟨tags, first, rfl, owns⟩ := tagged
  have index : (tags.map Prod.fst)[k]? = some ref.index := by
    rw [first, List.getElem?_map, found]
    rfl
  rw [List.getElem?_map] at index ⊢
  obtain ⟨tag, there, same⟩ := Option.map_eq_some_iff.mp index
  obtain ⟨i, natural, inside, state⟩ := owns tag (List.mem_of_getElem? there)
  have small := valid.small
  have slot : ref.slot = i := by
    unfold JobRef.slot
    rw [← same, natural]
    omega
  unfold Means
  rw [slot, there]
  rcases state with free | owned
  · exact Or.inl free
  · exact Or.inr ⟨rfl, owned⟩

theorem Ticketed.unaliased {s : Partition × Tickets} (ticketed : Ticketed s) : Unaliased s where
  distinct := ticketed.distinct
  queue := fun _ _ found => ticketed.queue.means ticketed.valid.store found
  dlq := by
    intro k entry found
    have tagged := ticketed.dlq
    rw [show (fun entry : JobRef × Int => entry.1.index) = JobRef.index ∘ Prod.fst from rfl,
      ← List.map_map] at tagged
    apply tagged.means ticketed.valid.store
    rw [List.getElem?_map, found]
    rfl

/-- The store may change as long as slots stay and a filled one was filled before. -/
private theorem Ticketed.store {p : Partition} {tickets : Tickets} {js : JobStore}
    (ticketed : Ticketed (p, tickets)) (valid : js.Valid)
    (length : p.jobStore.jobs.length ≤ js.jobs.length)
    (freed : ∀ i, p.jobStore.get i = none → js.get i = none) :
    Ticketed ({ p with jobStore := js }, tickets) := by
  have keep : ∀ tag, Owns p.jobStore tickets.owner tag → Owns js tickets.owner tag := by
    rintro tag ⟨i, natural, inside, state⟩
    exact ⟨i, natural, Nat.lt_of_lt_of_le inside length, state.imp (freed i) id⟩
  exact ⟨⟨valid, ticketed.valid.queue⟩, ticketed.distinct, ticketed.queue.mono fun tag _ => keep tag,
    ticketed.dlq.mono fun tag _ => keep tag⟩

/-! ### One step -/

private theorem ticketed_accept {p : Partition} {tickets : Tickets} {job : Job} {clock : Clock} {idx : Nat}
    {js : JobStore} {pq : ProcessQueue} (ticketed : Ticketed (p, tickets))
    (created : p.jobStore.Created (stamped job clock.nowMilli) idx js)
    (queued : pq.live = p.processQueue.live ++ [⟨idx, 0, p.processQueue.liveCount, clock.nowSec⟩])
    (queueValid : pq.Valid) (clean : p.jobStore.freeList.getLast? = some idx → p.Unreferenced idx) :
    Ticketed ({ p with jobStore := js, processQueue := pq }, tickets.accept (job.id, idx)) := by
  obtain ⟨tags, first, second, owns⟩ := ticketed.queue
  have longer : p.jobStore.jobs.length ≤ js.jobs.length := by
    rcases created.origin with ⟨_, _, same⟩ | ⟨_, _, _, grown⟩ <;> omega
  -- a new slot is beyond every index, a reused one is unreferenced by assumption
  have apart : ∀ tag : Int × Nat, Owns p.jobStore tickets.owner tag →
      tag.1 ∈ p.processQueue.live.map JobRef.index ∨
        tag.1 ∈ p.dlqBuffer.jobs.map (fun entry => entry.1.index) → tag.1 ≠ idx := by
    rintro tag ⟨i, natural, inside, _⟩ listed same
    rcases created.origin with ⟨reused, _, _⟩ | ⟨_, fresh, _, _⟩
    · obtain ⟨records, entries⟩ := clean reused
      rcases listed with live | buffered
      · obtain ⟨record, member, here⟩ := List.mem_map.mp live
        exact records record member (here.trans same)
      · obtain ⟨entry, member, here⟩ := List.mem_map.mp buffered
        exact entries entry member (here.trans same)
    · omega
  have keep : ∀ tag : Int × Nat, tag.1 ≠ idx → Owns p.jobStore tickets.owner tag →
      Owns js (tickets.accept (job.id, idx)).owner tag := by
    rintro tag differs ⟨i, natural, inside, state⟩
    have other : i ≠ idx := by
      rintro rfl
      exact differs natural
    refine ⟨i, natural, by omega, ?_⟩
    rw [JobStore.created_get ticketed.valid.store created, if_neg other]
    simpa [Tickets.accept, Function.update_of_ne other] using state
  have listed : ∀ tag ∈ tags, tag.1 ∈ p.processQueue.live.map JobRef.index := fun tag member =>
    first ▸ List.mem_map_of_mem member
  refine ⟨⟨created.valid, queueValid⟩, ?_, ?_, ?_⟩
  · simp only [queued, List.map_append, List.map_singleton]
    rw [List.nodup_append]
    refine ⟨ticketed.distinct, List.nodup_singleton _, ?_⟩
    intro index member last here same
    rw [List.mem_singleton] at here
    rw [← first] at member
    obtain ⟨tag, inTags, rfl⟩ := List.mem_map.mp member
    exact apart tag (owns tag inTags) (Or.inl (listed tag inTags)) (same.trans here)
  · refine ⟨tags ++ [((idx : Int), tickets.born)], ?_, ?_, ?_⟩
    · simp [queued, first]
    · simp [Tickets.accept, second]
    · intro tag member
      rcases List.mem_append.mp member with old | new
      · exact keep tag (apart tag (owns tag old) (Or.inl (listed tag old))) (owns tag old)
      · rw [List.mem_singleton] at new
        subst new
        exact ⟨idx, rfl, (JobStore.created_length created).2, Or.inr (by simp [Tickets.accept])⟩
  · apply ticketed.dlq.mono
    intro tag member owned
    exact keep tag (apart tag owned (Or.inr member)) owned

private theorem reuses_eq {p : Partition} {job : Job} {idx : Nat} (unflagged : job.done = false)
    (fresh : p.jobStore.byID.get job.id = none)
    (room : p.processQueue.liveCount < p.processQueue.records.length)
    (last : p.jobStore.freeList.getLast? = some idx) : idx ∈ p.reuses job := by
  have unknown : p.jobStore.byID.contains job.id = false := by simp [FinMap.contains, fresh]
  simp [reuses, unflagged, unknown, room, last]

private theorem ticketed_addJob {p p' : Partition} {tickets : Tickets} {job : Job} {clock : Clock}
    {outcome : AddOutcome} (ticketed : Ticketed (p, tickets))
    (clean : ∀ idx ∈ p.reuses job, p.Unreferenced idx) (added : Added p job clock p' outcome) :
    Ticketed (p', (acceptedJobs [(job.id, outcome)]).foldl Tickets.accept tickets) := by
  cases added with
  | alreadyDone => exact ticketed
  | duplicate => exact ticketed
  | accepted unflagged created room queued queueValid =>
    apply ticketed_accept ticketed created queued queueValid
    intro last
    exact clean _ (reuses_eq unflagged (by simpa using created.fresh) room last)
  | queueFull unflagged fresh refused =>
    exact ticketed.store refused.valid refused.grows fun i free => (refused.get i).trans free

private theorem ticketed_addJobs {p p' : Partition} {tickets : Tickets} {jobs : List Job}
    {clock : Nat → Clock} {outcomes : List (String × AddOutcome)} (ticketed : Ticketed (p, tickets))
    (slots : p.jobStore.jobs.length + jobs.length < 2 ^ 32) (clean : p.CleanReuse jobs clock)
    (ok : p.addJobs jobs clock = .ok (p', outcomes)) :
    Ticketed (p', (acceptedJobs outcomes).foldl Tickets.accept tickets) := by
  have loop := addJobs_induction
    (fun q jobs clock done => q.CleanReuse jobs clock ∧
      Ticketed (q, (acceptedJobs done).foldl Tickets.accept tickets))
    (fun q q' job _ clock outcome done _ _ before added_ok added => by
      obtain ⟨⟨here, rest⟩, before⟩ := before
      rw [added_ok] at rest
      have after := ticketed_addJob before here added
      rw [← List.foldl_append, acceptedJobs, acceptedJobs, ← List.filterMap_append] at after
      exact ⟨rest, after⟩)
    [] ticketed.valid slots ⟨clean, ticketed⟩ ok
  obtain ⟨_, _, _, after⟩ := loop
  exact after

private theorem tags_of_items {items live : List JobRef} {tags : List (Int × Nat)}
    (first : tags.map Prod.fst = live.map JobRef.index)
    (placed : ∀ item ∈ items, live[item.cell.toNat]? = some item) :
    (items.filterMap fun item => tags[item.cell.toNat]?).map Prod.fst = items.map JobRef.index := by
  induction items with
  | nil => rfl
  | cons item items ih =>
    have here := placed item List.mem_cons_self
    have index : (tags.map Prod.fst)[item.cell.toNat]? = some item.index := by
      rw [first, List.getElem?_map, here]
      rfl
    rw [List.getElem?_map] at index
    obtain ⟨tag, there, same⟩ := Option.map_eq_some_iff.mp index
    rw [List.filterMap_cons, there]
    simp only [List.map_cons, same]
    rw [ih fun other member => placed other (List.mem_cons_of_mem _ member)]

private theorem ticketed_dispatch {p p' : Partition} {tickets : Tickets} {env : DispatchEnv}
    (ticketed : Ticketed (p, tickets)) (dispatched : Dispatched p (p.itemsRead env) p') :
    Ticketed (p', tickets.dispatch p (p.itemsRead env)) := by
  obtain ⟨tags, first, second, owns⟩ := ticketed.queue
  obtain ⟨older, buffered, listed, owned⟩ := ticketed.dlq
  have store : p'.jobStore = p.jobStore := dispatched.jobStore
  have placed : ∀ item ∈ (p.itemsRead env).filter (exhausted p.jobStore p.config.maxRetries),
      p.processQueue.live[item.cell.toNat]? = some item := by
    intro item member
    have live := itemsRead_live (List.mem_filter.mp member).1
    exact ((ProcessQueue.mem_live ticketed.valid.queue).mp live).2
  refine ⟨⟨store ▸ ticketed.valid.store, dispatched.queueValid⟩, ?_, ?_, ?_⟩
  · rw [dispatched.indices]
    exact swapRemoveAll_nodup _ ticketed.distinct
  · refine ⟨swapRemoveAll tags (((p.itemsRead env).filter
      (removable p.jobStore p.config.maxRetries)).map fun item => item.cell.toNat), ?_, ?_, ?_⟩
    · rw [map_swapRemoveAll, first, dispatched.indices]
    · rw [map_swapRemoveAll, second]
      rfl
    · intro tag member
      rw [store]
      exact owns tag (mem_of_mem_swapRemoveAll member)
  · refine ⟨older ++ ((p.itemsRead env).filter (exhausted p.jobStore p.config.maxRetries)).filterMap
      (fun item => tags[item.cell.toNat]?), ?_, ?_, ?_⟩
    · have moved := congrArg (List.map JobRef.index) dispatched.buffered
      rw [List.map_append, List.map_map, List.map_map] at moved
      rw [List.map_append, tags_of_items first placed, buffered]
      exact moved.symm
    · have queue : tickets.queue = tags.map Prod.snd := second.symm
      rw [List.map_append, listed]
      simp [Tickets.dispatch, queue, List.map_filterMap]
    · intro tag member
      rw [store]
      rcases List.mem_append.mp member with old | new
      · exact owned tag old
      · obtain ⟨item, _, there⟩ := List.mem_filterMap.mp new
        exact owns tag (List.mem_of_getElem? there)

private theorem ticketed_flush {p p' : Partition} {tickets : Tickets} {room : Bool} {cmd : Option Command}
    (ticketed : Ticketed (p, tickets)) (flushed : Flushed p room cmd p') :
    Ticketed (p', { tickets with dlq := [] }) := by
  have freed : ∀ i, p.jobStore.get i = none → p'.jobStore.get i = none := by
    intro i free
    rcases flushed.swept.get i with same | ⟨gone, _⟩
    · rw [same, free]
    · exact gone
  have swept := ticketed.store flushed.swept.valid (Nat.le_of_eq flushed.swept.length.symm) freed
  refine ⟨⟨flushed.swept.valid, flushed.processQueue ▸ ticketed.valid.queue⟩, ?_, ?_, ?_⟩
  · rw [flushed.processQueue]
    exact swept.distinct
  · rw [flushed.processQueue]
    exact swept.queue
  · rw [flushed.emptied]
    exact ⟨[], rfl, rfl, by simp⟩

theorem ticketed_step {s s' : Partition × Tickets} {op : Op} (ticketed : Ticketed s)
    (fits : s.1.Fits op) (clean : s.1.Clean op) (step : ObservedStep Tickets.record s op s') :
    Ticketed s' := by
  obtain ⟨p, tickets⟩ := s
  obtain ⟨p', tickets'⟩ := s'
  obtain ⟨effect, ok, rfl⟩ := step
  cases step_spec ticketed.valid ok with
  | addJobs type carried added =>
    simp only [Clean, Op.adds, type, carried, ↓reduceIte, Option.map_some, Option.getD_some] at clean
    exact ticketed_addJobs ticketed (by simpa [Fits, Op.adds, type, carried] using fits) clean added
  | done type carried finished =>
    refine ticketed.store finished.valid (Nat.le_of_eq finished.length.symm) ?_
    intro i free
    rw [finished.get, free]
    rfl
  | drop type carried dropped =>
    refine ticketed.store dropped.valid (Nat.le_of_eq dropped.length.symm) ?_
    intro i free
    rw [dropped.get, free]
    rfl
  | ignored => exact ticketed
  | dispatch dispatched => exact ticketed_dispatch ticketed dispatched
  | flush needed flushed =>
    simp only [Tickets.record, needed, ↓reduceIte]
    exact ticketed_flush ticketed flushed
  | unflushed early =>
    simp only [Tickets.record, early, Bool.false_eq_true, ↓reduceIte]
    exact ticketed
  | proxies proxy idle steady =>
    have same : tickets.record p op {} = tickets := by
      cases op with
      | dispatch env => exact absurd rfl (idle env)
      | flush now room => exact absurd rfl (steady now room)
      | _ => rfl
    rw [same]
    exact ⟨⟨ticketed.valid.store, ticketed.valid.queue⟩, ticketed.distinct, ticketed.queue, ticketed.dlq⟩

/-! ### Whole runs -/

theorem ticketed_new (topic : String) (config : PartitionConfig) (nowMilli : Int) :
    Ticketed (new topic config nowMilli, {}) :=
  ⟨new_valid topic config nowMilli, by simp [new], ⟨[], by simp [new], rfl, by simp⟩, ⟨[], rfl, rfl, by simp⟩⟩

/-- When no slot is taken again while a record or entry refers to it, every
record means the job it was made for. -/
theorem unaliased_in_clean_run {topic : String} {config : PartitionConfig} {nowMilli : Int}
    {ops : List Op} {s : Partition × Tickets}
    (run : ObservedRun Tickets.record (fun p op => p.Fits op ∧ p.Clean op) topic config nowMilli {} ops s) :
    Unaliased s := by
  have ticketed : Ticketed s := by
    refine run.invariant (fun _ s => Ticketed s) (ticketed_new topic config nowMilli) ?_
    rintro _ s op s' ticketed ⟨fits, clean⟩ step
    exact ticketed_step ticketed fits clean step
  exact ticketed.unaliased

/-! A job is added, dropped and another one added; in between, the first job's
record is read by a dispatch, which removes it, or it is not. -/

def aliasConfig : PartitionConfig := ⟨4, 3, 20, 1, 1000, 1000⟩

def aliasOps (dispatched : Bool) : List Op :=
  let add (id : String) : Op :=
    .command { type := .addJobs, addJobs := some ⟨"orders", [⟨id, "orders", [1], false, 0⟩]⟩ }
      fun _ => ⟨1000, 1⟩
  [ .topology (.add "proxy" (some ⟨0, 4⟩)),
    .heartbeat { proxyID := "proxy", topic := "orders", consumptionScore := 1, timestamp := 0 },
    add "a",
    .command { type := .drop, drop := some ⟨"orders", ["a"]⟩ } fun _ => ⟨1000, 1⟩ ] ++
  (if dispatched then [.dispatch ⟨73, 0, 1, true, true, fun _ => 1⟩] else []) ++
  [ add "b" ]

private theorem alias_executes :
    (observe Tickets.record (fun _ _ => True) "orders" aliasConfig 0 {} (aliasOps false)).isSome = true := rfl

/-- The dropped job's record and the new job's record have the same index. -/
theorem drop_then_add_aliases :
    ∃ ops s, ObservedRun Tickets.record (fun _ _ => True) "orders" aliasConfig 0 {} ops s ∧ ¬ Unaliased s := by
  refine ⟨aliasOps false, _, observe_run alias_executes, ?_⟩
  intro unaliased
  have distinct := unaliased.distinct
  revert distinct
  decide

private theorem clean_executes :
    (observe Tickets.record (fun p op => p.Fits op ∧ p.Clean op) "orders" aliasConfig 0 {}
      (aliasOps true)).isSome = true := rfl

/-- With the stale record gone first, the slot is reused and means the new job. -/
theorem unaliased_after_dispatch :
    (Option.get _ clean_executes).1.processQueue.live.map JobRef.index = [0] ∧
      Unaliased (Option.get _ clean_executes) :=
  ⟨by decide, unaliased_in_clean_run (observe_run clean_executes)⟩

end Cue.State.Partition
