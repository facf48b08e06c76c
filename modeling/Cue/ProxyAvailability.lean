import Cue.ProxyMapProofs

/-! Who is available. What the proxies have reported is a registry in which an
update replaces one report and a clean-up drops the stale ones; the list, its
index and the turn do not matter for it. The map of proxies is that registry
after every sequence of operations, and the list has those of its proxies that
have consumers. So an operation changes the availability of no proxy but those it
is about, although removals move other proxies and a clean-up lists all of them
anew.

- `available_iff_registry` is the list of any run in terms of the registry.
- `availability_of_concerned` is what an operation does to the proxies it is about.
- `representation_kept` is the invariant, and what an operation leaves alone. -/
namespace Cue.State.ProxyMap
open Cue.Lib

/-! ### The registry -/

abbrev Registry := String → Option ProxyState

/-- The last heartbeat is too old, in the arithmetic of `int64`. -/
def Stale (now timeoutSeconds : Int) (state : ProxyState) : Prop :=
  int64 (now - state.lastHeartbeat) > int64 (timeoutSeconds * 1000)

instance (now timeoutSeconds : Int) (state : ProxyState) : Decidable (Stale now timeoutSeconds state) :=
  inferInstanceAs (Decidable (_ > _))

namespace Registry

/-- What an operation is meant to do; the orders of a clean-up play no part. -/
def after (registry : Registry) : ProxyOp → Registry
  | .update proxyID score timestamp => fun id => if id = proxyID then some ⟨score, timestamp⟩ else registry id
  | .cleanupStale now timeoutSeconds _ _ => fun id => (registry id).filter fun state => ¬Stale now timeoutSeconds state
  | .getNextAvailable => registry

def Available (registry : Registry) (id : String) : Prop := ∃ state, registry id = some state ∧ 0 < state.consumers

/-- The proxies that an operation is about: the updated one, or the stale ones. -/
def Concerns (registry : Registry) : ProxyOp → String → Prop
  | .update proxyID _ _, id => id = proxyID
  | .cleanupStale now timeoutSeconds _ _, id => ∃ state, registry id = some state ∧ Stale now timeoutSeconds state
  | .getNextAvailable, _ => False

variable {registry : Registry} {op : ProxyOp} {id : String}

theorem after_of_not_concerns (untouched : ¬registry.Concerns op id) : registry.after op id = registry id := by
  cases op with
  | update proxyID score timestamp => exact if_neg untouched
  | cleanupStale now timeoutSeconds order rebuildOrder =>
    simp only [after]
    cases reported : registry id with
    | none => rfl
    | some state =>
      have recent : ¬Stale now timeoutSeconds state := fun stale => untouched ⟨state, reported, stale⟩
      simp [Option.filter_some, recent]
  | getNextAvailable => rfl

theorem available_update_self {score timestamp : Int} :
    (registry.after (.update id score timestamp)).Available id ↔ 0 < score := by
  simp [after, Available]

/-- A proxy that is cleaned up is not available. -/
theorem not_available_of_stale {now timeoutSeconds : Int} {order rebuildOrder : List String}
    (stale : registry.Concerns (.cleanupStale now timeoutSeconds order rebuildOrder) id) :
    ¬(registry.after (.cleanupStale now timeoutSeconds order rebuildOrder)).Available id := by
  obtain ⟨state, reported, old⟩ := stale
  rintro ⟨left, kept, -⟩
  simp [after, reported, Option.filter_some, old] at kept

end Registry

/-! ### The map of proxies is the registry -/

variable {pm pm' : ProxyMap} {op : ProxyOp} {ops : List ProxyOp}

theorem perform_refines (admitted : pm.Admits op) (ok : pm.perform op = .ok pm') :
    pm'.proxies.get = Registry.after pm.proxies.get op := by
  funext id
  cases op with
  | update proxyID score timestamp =>
    rw [update_proxies ok, FinMap.get_set]
    rfl
  | cleanupStale now timeoutSeconds order rebuildOrder =>
    change pm.cleanupStale now timeoutSeconds order rebuildOrder = _ at ok
    unfold cleanupStale at ok
    split at ok
    · cases ok
    · rename_i left cleaned dropped
      have kept := dropStale_get dropped id
      have visited : pm.proxies.get id = none ∨ id ∈ order := by
        rw [admitted.1.mem_iff, FinMap.mem_keys]
        cases pm.proxies.get id <;> simp
      have same : pm'.proxies = left.proxies := by
        cases ok
        split
        · exact rebuildAvailableCache_proxies left rebuildOrder
        · rfl
      rw [same, kept]
      rcases visited with unknown | member
      · simp [Registry.after, unknown]
      · rw [if_pos member]
        rfl
  | getNextAvailable =>
    obtain ⟨⟨answer, after⟩, called, same⟩ := bind_ok ok
    cases same
    unfold getNextAvailable at called
    split at called <;> cases called <;> rfl

/-- Nothing is left of the orders in which the map was iterated. -/
theorem Reached.refines (run : Reached ops pm) : pm.proxies.get = ops.foldl Registry.after fun _ => none := by
  refine Run.invariant (fun ops pm => pm.proxies.get = ops.foldl Registry.after fun _ => none) rfl ?_ run
  intro ops pm op pm' same admitted ok
  rw [perform_refines admitted ok, same, List.foldl_append]
  rfl

theorem available_iff_registry (run : Reached ops pm) (id : String) :
    id ∈ pm.available ↔ Registry.Available (ops.foldl Registry.after fun _ => none) id := by
  rw [← run.refines]
  exact run.valid.scored id

/-- What an operation does to the proxies it is about: an updated one is available
if its score is positive, and a stale one is not. -/
theorem availability_of_concerned (run : Reached ops pm) :
    (∀ proxyID score timestamp, ∃ after, pm.perform (.update proxyID score timestamp) = .ok after ∧
      (proxyID ∈ after.available ↔ 0 < score)) ∧
    ∀ now timeoutSeconds order rebuildOrder, pm.Admits (.cleanupStale now timeoutSeconds order rebuildOrder) →
      ∃ after, pm.perform (.cleanupStale now timeoutSeconds order rebuildOrder) = .ok after ∧
        ∀ id state, pm.proxies.get id = some state → Stale now timeoutSeconds state → id ∉ after.available := by
  have listed : ∀ op, pm.Admits op → ∃ after, pm.perform op = .ok after ∧
      ∀ id, id ∈ after.available ↔ (Registry.after pm.proxies.get op).Available id := by
    intro op admitted
    obtain ⟨after, ok, kept⟩ := perform_valid run.valid admitted
    refine ⟨after, ok, fun id => ?_⟩
    rw [← perform_refines admitted ok]
    exact kept.scored id
  constructor
  · intro proxyID score timestamp
    obtain ⟨after, ok, available⟩ := listed (.update proxyID score timestamp) trivial
    exact ⟨after, ok, (available proxyID).trans Registry.available_update_self⟩
  · intro now timeoutSeconds order rebuildOrder admitted
    obtain ⟨after, ok, available⟩ := listed _ admitted
    refine ⟨after, ok, fun id state reported stale => ?_⟩
    rw [available]
    exact Registry.not_available_of_stale ⟨state, reported, stale⟩

/-- Behind any operations, no proxy is listed twice, the index is the inverse of
the list, and the list has the proxies with consumers. So `GetNextAvailable`
finds the state of every proxy it looks at, and no operation panics; each leaves
the availability of all proxies as it was, but of those that it is about. -/
theorem representation_kept (run : Reached ops pm) :
    pm.available.Nodup ∧ (∀ id i, pm.availableIndex.get id = some i ↔ pm.available[i]? = some id) ∧
    (∀ id, id ∈ pm.available ↔ ∃ state, pm.proxies.get id = some state ∧ 0 < state.consumers) ∧
    (∃ answer after, pm.getNextAvailable = .ok (answer, after)) ∧
    ∀ op, pm.Admits op → ∃ after, pm.perform op = .ok after ∧
      ∀ id, ¬Registry.Concerns pm.proxies.get op id → (id ∈ after.available ↔ id ∈ pm.available) := by
  have valid := run.valid
  obtain ⟨answer, next, answered, -⟩ := getNextAvailable_valid valid
  refine ⟨valid.indexed.nodup, valid.indexed, valid.scored, ⟨answer, next, answered⟩, ?_⟩
  intro op admitted
  obtain ⟨after, ok, kept⟩ := perform_valid valid admitted
  refine ⟨after, ok, fun id untouched => ?_⟩
  have same : after.proxies.get id = pm.proxies.get id := by
    rw [perform_refines admitted ok]
    exact Registry.after_of_not_concerns untouched
  rw [kept.scored, valid.scored, same]

/-- Three proxies. The last one of the list leaves and returns, and then the first
one does, so that the last takes its place. -/
private def swapOps : List ProxyOp :=
  [.update "a" 2 9000, .update "b" 1 0, .update "c" 3 9000, .update "c" 0 9100, .update "c" 4 9200,
    .update "a" 0 9300, .update "a" 1 9400]

private def swapped : ProxyMap where
  proxies := ((FinMap.empty.set "b" ⟨1, 0⟩).set "c" ⟨4, 9200⟩).set "a" ⟨1, 9400⟩
  available := ["c", "b", "a"]
  availableIndex := ((FinMap.empty.set "b" 1).set "c" 0).set "a" 2
  roundRobin := 0

private theorem swapped_reached : Reached swapOps swapped :=
  .next (.next (.next (.next (.next (.next (.next .start trivial rfl) trivial rfl) trivial rfl) trivial rfl)
    trivial rfl) trivial rfl) trivial rfl

/-- A clean-up drops the one that is stale; the two others stay available. -/
theorem swapped_keeps_others : ∃ after,
    swapped.perform (.cleanupStale 10000 5 ["a", "b", "c"] ["c", "a"]) = .ok after ∧
      ("a" ∈ after.available ↔ "a" ∈ swapped.available) ∧ ("c" ∈ after.available ↔ "c" ∈ swapped.available) := by
  have admitted : swapped.Admits (.cleanupStale 10000 5 ["a", "b", "c"] ["c", "a"]) := by
    refine ⟨by decide, ?_⟩
    intro left cleaned dropped
    cases dropped
    decide
  obtain ⟨-, -, -, -, frame⟩ := representation_kept swapped_reached
  obtain ⟨after, ok, untouched⟩ := frame _ admitted
  refine ⟨after, ok, untouched "a" ?_, untouched "c" ?_⟩
  · rintro ⟨state, reported, stale⟩
    cases reported
    exact absurd stale (by decide)
  · rintro ⟨state, reported, stale⟩
    cases reported
    exact absurd stale (by decide)

end Cue.State.ProxyMap
