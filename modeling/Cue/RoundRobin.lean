import Cue.ProxyMapProofs
import Mathlib.Data.List.Rotate

/-! Every available proxy gets its turn. Whatever the turn was left at by
removals and rebuilt lists, it is used modulo how many proxies are available,
and each call moves it by one. So as many calls as there are proxies with
consumers go once around the list. -/
namespace Cue.State.ProxyMap
open Cue.Lib

/-- The proxies with consumers and how many each has. -/
def withConsumers (pm : ProxyMap) : List (String × Int) :=
  (pm.proxies.pairs.filter fun p => 0 < p.2.consumers).map fun p => (p.1, p.2.consumers)

/-- What calls of `GetNextAvailable` in a row return, and the map behind them. -/
def nextCalls (pm : ProxyMap) : Nat → Except Panic (List (Option (String × Int)) × ProxyMap)
  | 0 => .ok ([], pm)
  | calls + 1 => do
    let (answer, pm) ← pm.getNextAvailable
    let (answers, pm) ← pm.nextCalls calls
    .ok (answer :: answers, pm)

/-- A proxy with its number of consumers. -/
def scoreOf (pm : ProxyMap) (id : String) : String × Int := (id, ((pm.proxies.get id).map ProxyState.consumers).getD 0)

variable {pm : ProxyMap}

/-- A call answers with the proxy whose turn it is, and the next call finds the turn one further. -/
theorem nextCalls_eq (valid : pm.Valid) (somebody : pm.available ≠ []) (calls turn : Nat) :
    ∃ turn', nextCalls { pm with roundRobin := turn } calls =
      .ok ((List.range calls).map fun j => (pm.available[(turn + j) % pm.available.length]?).map pm.scoreOf,
        { pm with roundRobin := turn' }) := by
  induction calls generalizing turn with
  | zero => exact ⟨turn, rfl⟩
  | succ calls ih =>
    have size : 0 < pm.available.length := List.length_pos_iff.mpr somebody
    have inside : turn % pm.available.length < pm.available.length := Nat.mod_lt _ size
    have here := List.getElem?_eq_getElem inside
    have turned : ({ pm with roundRobin := turn } : ProxyMap).Valid := ⟨valid.indexed, valid.scored⟩
    obtain ⟨state, stored, answered⟩ := getNextAvailable_eq turned here
    obtain ⟨turn', rest⟩ := ih ((turn % pm.available.length + 1) % pm.available.length)
    have next : ∀ j, ((turn % pm.available.length + 1) % pm.available.length + j) % pm.available.length =
        (turn + (j + 1)) % pm.available.length := by
      intro j
      simp only [Nat.mod_add_mod, Nat.add_assoc, Nat.add_comm 1 j]
    have answer : pm.scoreOf pm.available[turn % pm.available.length] =
        (pm.available[turn % pm.available.length], state.consumers) := by
      simp only [scoreOf, stored, Option.map_some, Option.getD_some]
    refine ⟨turn', ?_⟩
    rw [nextCalls, answered]
    change (nextCalls { pm with roundRobin := _ } calls >>= _) = _
    rw [rest]
    simp only [next, List.range_succ_eq_map, List.map_cons, List.map_map, Nat.add_zero, here, Option.map_some, answer]
    rfl

/-- Once around the list. -/
theorem range_turns (turn : Nat) :
    ((List.range pm.available.length).map fun j => (pm.available[(turn + j) % pm.available.length]?).map pm.scoreOf) =
      ((pm.available.rotate turn).map pm.scoreOf).map some := by
  apply List.ext_getElem?
  intro k
  simp only [List.getElem?_map]
  by_cases inside : k < pm.available.length
  · rw [List.getElem?_range inside, List.getElem?_rotate inside, Option.map_some, Nat.add_comm turn k]
    have bound : (k + turn) % pm.available.length < pm.available.length := Nat.mod_lt _ (by omega)
    rw [List.getElem?_eq_getElem bound]
    rfl
  · rw [List.getElem?_eq_none (by simpa using inside), List.getElem?_eq_none (by simpa using inside)]
    rfl

theorem withConsumers_nodup : (pm.withConsumers.map Prod.fst).Nodup := by
  unfold withConsumers
  rw [List.map_map]
  exact pm.proxies.nodup.sublist (List.filter_sublist.map Prod.fst)

/-- The list of available proxies is the proxies with consumers. -/
theorem Valid.available_perm (valid : pm.Valid) : (pm.available.map pm.scoreOf).Perm pm.withConsumers := by
  have ids : (pm.available.map pm.scoreOf).map Prod.fst = pm.available := by
    rw [List.map_map]
    exact List.map_id _
  refine (List.perm_ext_iff_of_nodup ((ids ▸ valid.indexed.nodup).of_map _) (withConsumers_nodup.of_map _)).mpr ?_
  rintro ⟨id, consumers⟩
  unfold withConsumers
  simp only [List.mem_map, List.mem_filter, decide_eq_true_eq, Prod.exists, Prod.mk.injEq]
  constructor
  · rintro ⟨other, member, same⟩
    cases same
    obtain ⟨state, stored, positive⟩ := (valid.scored id).mp member
    rw [stored]
    exact ⟨id, state, ⟨(FinMap.mem_pairs _ _ _).mpr stored, positive⟩, rfl, rfl⟩
  · rintro ⟨other, state, ⟨member, positive⟩, rfl, rfl⟩
    have stored := (FinMap.mem_pairs _ _ _).mp member
    refine ⟨other, (valid.scored other).mpr ⟨state, stored, positive⟩, ?_⟩
    rw [scoreOf, stored]
    rfl

/-- Behind any operations, as many calls as there are proxies with consumers all
succeed and return each of them once, with the number it has. With none, the
call says so. -/
theorem round_robin_fair {ops : List ProxyOp} (run : Reached ops pm) :
    (pm.withConsumers = [] → pm.getNextAvailable = .ok (none, pm)) ∧
    ∃ (answers : List (String × Int)) (after : ProxyMap),
      pm.nextCalls pm.withConsumers.length = .ok (answers.map some, after) ∧
      answers.Perm pm.withConsumers ∧ (answers.map Prod.fst).Nodup := by
  have valid := run.valid
  have same := valid.available_perm
  have size : pm.withConsumers.length = pm.available.length := by
    rw [← same.length_eq, List.length_map]
  constructor
  · intro nobody
    rw [nobody] at size
    exact getNextAvailable_none (List.length_eq_zero_iff.mp size.symm)
  · have around : ((pm.available.rotate pm.roundRobin).map pm.scoreOf).Perm pm.withConsumers :=
      ((List.rotate_perm _ _).map _).trans same
    have distinct := (around.map Prod.fst).nodup_iff.mpr withConsumers_nodup
    rw [size]
    by_cases nobody : pm.available = []
    · rw [nobody] at around distinct ⊢
      exact ⟨_, pm, by simp [nextCalls], around, distinct⟩
    · obtain ⟨turn', calls⟩ := nextCalls_eq valid nobody pm.available.length pm.roundRobin
      exact ⟨_, _, calls.trans (by rw [range_turns]), around, distinct⟩

/-- Three proxies, one of which is long gone and dropped. The two left are listed
anew, and one call was made since. -/
private def turnOps : List ProxyOp :=
  [.update "a" 2 9000, .update "b" 1 0, .update "c" 3 9000, .cleanupStale 10000 5 ["a", "b", "c"] ["c", "a"],
    .getNextAvailable]

private def turned : ProxyMap where
  proxies := (FinMap.empty.set "a" ⟨2, 9000⟩).set "c" ⟨3, 9000⟩
  available := ["c", "a"]
  availableIndex := (FinMap.empty.set "c" 0).set "a" 1
  roundRobin := 1

private theorem turned_reached : Reached turnOps turned := by
  refine .next (.next (.next (.next (.next .start trivial rfl) trivial rfl) trivial rfl) ⟨?_, ?_⟩ rfl) trivial rfl
  · decide
  · intro left cleaned ok
    cases ok
    decide

theorem turned_fair : ∃ (answers : List (String × Int)) (after : ProxyMap),
    turned.nextCalls 2 = .ok (answers.map some, after) ∧ answers.Perm [("c", 3), ("a", 2)] := by
  obtain ⟨answers, after, calls, each, _⟩ := (round_robin_fair turned_reached).2
  exact ⟨answers, after, calls, each⟩

end Cue.State.ProxyMap
