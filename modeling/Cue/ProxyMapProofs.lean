import Cue.Lib.Run
import Cue.Lib.SwapRemove
import Cue.State.ProxyMap

/-! The proxies that are available are those with consumers, in some order, and
every one of them knows its position. This holds after every sequence of
operations, whatever order the loops over the map of proxies take. -/
namespace Cue.State.ProxyMap
open Cue.Lib

/-- The position of a proxy in the list is what the index says. -/
def Indexed (pm : ProxyMap) : Prop := ∀ id i, pm.availableIndex.get id = some i ↔ pm.available[i]? = some id

/-- The representation invariant. -/
structure Valid (pm : ProxyMap) : Prop where
  indexed : pm.Indexed
  scored : ∀ id, id ∈ pm.available ↔ ∃ state, pm.proxies.get id = some state ∧ 0 < state.consumers

theorem new_valid : new.Valid where
  indexed := by simp [Indexed, new]
  scored := by simp [new]

section Index

variable {pm : ProxyMap}

theorem Indexed.mem (indexed : pm.Indexed) (id : String) :
    id ∈ pm.available ↔ ∃ i, pm.availableIndex.get id = some i := by
  rw [List.mem_iff_getElem?]
  exact exists_congr fun i => (indexed id i).symm

theorem Indexed.nodup (indexed : pm.Indexed) : pm.available.Nodup := by
  rw [List.nodup_iff_getElem?_ne_getElem?]
  intro i k below inside same
  have held : pm.available[k]? = some pm.available[k] := List.getElem?_eq_getElem inside
  have first := (indexed pm.available[k] i).mpr (same.trans held)
  have second := (indexed pm.available[k] k).mpr held
  rw [first] at second
  exact absurd (Option.some.inj second) (Nat.ne_of_lt below)

/-- A proxy that was not in the list gets the position behind it. -/
theorem Indexed.append {id : String} (indexed : pm.Indexed) (absent : pm.availableIndex.get id = none) :
    ({ pm with
      availableIndex := pm.availableIndex.set id pm.available.length
      available := pm.available ++ [id] } : ProxyMap).Indexed := by
  intro other i
  simp only [FinMap.get_set, List.getElem?_append]
  by_cases here : other = id
  · subst here
    have fresh : pm.available[i]? ≠ some other := fun held => by
      rw [(indexed other i).mpr held] at absent
      cases absent
    grind
  · rw [if_neg here, indexed]
    grind

theorem addToAvailable_spec (indexed : pm.Indexed) (id : String) :
    (pm.addToAvailable id).Indexed ∧ (pm.addToAvailable id).proxies = pm.proxies ∧
      ∀ other, other ∈ (pm.addToAvailable id).available ↔ other ∈ pm.available ∨ other = id := by
  unfold addToAvailable
  split
  · rename_i known
    refine ⟨indexed, rfl, fun other => ⟨.inl, ?_⟩⟩
    rintro (member | rfl)
    · exact member
    · exact (indexed.mem other).mpr ((FinMap.contains_iff _ _).mp known)
  · rename_i unknown
    have absent : pm.availableIndex.get id = none := by simpa [FinMap.contains] using unknown
    exact ⟨indexed.append absent, rfl, fun other => by simp⟩

/-- The last proxy takes the place of one that leaves. -/
theorem Indexed.remove {id lastID : String} {idx : Nat} (indexed : pm.Indexed)
    (slot : pm.available[idx]? = some id) (last : pm.available.getLast? = some lastID) :
    ({ pm with
      available := swapRemove pm.available idx
      availableIndex := (pm.availableIndex.set lastID idx).delete id } : ProxyMap).Indexed := by
  intro other k
  rw [getElem?_swapRemove_iff indexed.nodup slot last, FinMap.get_delete, FinMap.get_set]
  by_cases gone : other = id
  · simp [gone]
  · rw [if_neg gone]
    by_cases moved : other = lastID
    · subst moved
      rw [if_pos rfl, if_pos rfl, Option.some.injEq]
      exact ⟨fun place => ⟨gone, place.symm⟩, fun held => held.2.symm⟩
    · rw [if_neg moved, if_neg moved, indexed]
      exact ⟨fun held => ⟨gone, held⟩, And.right⟩

theorem removeFromAvailable_spec (indexed : pm.Indexed) (id : String) :
    ∃ pm', pm.removeFromAvailable id = .ok pm' ∧ pm'.Indexed ∧ pm'.proxies = pm.proxies ∧
      ∀ other, other ∈ pm'.available ↔ other ∈ pm.available ∧ other ≠ id := by
  unfold removeFromAvailable
  cases found : pm.availableIndex.get id with
  | none =>
    refine ⟨pm, rfl, indexed, rfl, fun other => ⟨fun member => ⟨member, ?_⟩, And.left⟩⟩
    rintro rfl
    obtain ⟨i, held⟩ := (indexed.mem other).mp member
    rw [found] at held
    cases held
  | some idx =>
    have slot := (indexed id idx).mp found
    have inside : idx < pm.available.length := (List.getElem?_eq_some_iff.mp slot).1
    cases last : pm.available.getLast? with
    | none =>
      rw [List.getLast?_eq_none_iff.mp last] at inside
      cases inside
    | some lastID =>
      have removed : (pm.available.set idx lastID).dropLast = swapRemove pm.available idx := by
        rw [swapRemove, if_pos inside, last]
      simp only [if_pos inside, removed]
      have kept := indexed.remove slot last
      refine ⟨_, rfl, kept, rfl, fun other => ?_⟩
      -- who is listed is read off the index map
      rw [kept.mem, FinMap.get_delete, FinMap.get_set]
      by_cases gone : other = id
      · simp [gone]
      · rw [if_neg gone]
        by_cases moved : other = lastID
        · subst moved
          rw [if_pos rfl]
          exact ⟨fun _ => ⟨List.mem_of_getLast? last, gone⟩, fun _ => ⟨idx, rfl⟩⟩
        · rw [if_neg moved, ← indexed.mem]
          exact ⟨fun member => ⟨member, gone⟩, And.left⟩

theorem removeFromAvailable_proxies {pm' : ProxyMap} {id : String} (ok : pm.removeFromAvailable id = .ok pm') :
    pm'.proxies = pm.proxies := by
  unfold removeFromAvailable at ok
  split at ok
  · cases ok
    rfl
  · split at ok
    · cases ok
    · split at ok <;> cases ok
      rfl

end Index

/-! ### The operations -/

section Operations

variable {pm : ProxyMap}

theorem update_valid (valid : pm.Valid) (proxyID : String) (score timestamp : Int) :
    ∃ pm', pm.update proxyID score timestamp = .ok pm' ∧ pm'.Valid := by
  have others : ∀ id, id ≠ proxyID → (id ∈ pm.available ↔
      ∃ state, (pm.proxies.set proxyID ⟨score, timestamp⟩).get id = some state ∧ 0 < state.consumers) := by
    intro id other
    rw [valid.scored, FinMap.get_set, if_neg other]
  have stored : (∃ state, (pm.proxies.set proxyID ⟨score, timestamp⟩).get proxyID = some state ∧
      0 < state.consumers) ↔ 0 < score := by
    simp
  have listed : proxyID ∈ pm.available ↔ ((pm.proxies.get proxyID).getD ⟨0, 0⟩).consumers > 0 := by
    rw [valid.scored]
    cases pm.proxies.get proxyID <;> simp
  unfold update
  dsimp only
  split
  · rename_i added
    obtain ⟨indexed, proxies, members⟩ := @addToAvailable_spec
      { pm with proxies := pm.proxies.set proxyID ⟨score, timestamp⟩ } valid.indexed proxyID
    refine ⟨_, rfl, indexed, fun id => ?_⟩
    rw [members, proxies]
    by_cases here : id = proxyID
    · subst here
      simp [added.2]
    · simp [here, ← others id here]
  · rename_i notAdded
    split
    · rename_i dropped
      obtain ⟨pm', ok, indexed, proxies, members⟩ := @removeFromAvailable_spec
        { pm with proxies := pm.proxies.set proxyID ⟨score, timestamp⟩ } valid.indexed proxyID
      refine ⟨pm', ok, indexed, fun id => ?_⟩
      rw [members, proxies]
      by_cases here : id = proxyID
      · subst here
        simp
        omega
      · simp [here, ← others id here]
    · rename_i notDropped
      refine ⟨_, rfl, valid.indexed, fun id => ?_⟩
      by_cases here : id = proxyID
      · subst here
        rw [stored, listed]
        grind
      · exact others id here

/-- Of what the proxies have reported, only the updated one's is replaced. -/
theorem update_proxies {pm' : ProxyMap} {proxyID : String} {score timestamp : Int}
    (ok : pm.update proxyID score timestamp = .ok pm') : pm'.proxies = pm.proxies.set proxyID ⟨score, timestamp⟩ := by
  unfold update at ok
  dsimp only at ok
  split at ok
  · cases ok
    unfold addToAvailable
    split <;> rfl
  · split at ok
    · exact removeFromAvailable_proxies ok
    · cases ok
      rfl

theorem dropStale_valid (now timeout : Int) (order : List String) (cleaned : Bool) (valid : pm.Valid) :
    ∃ pm' cleaned', dropStale now timeout order (pm, cleaned) = .ok (pm', cleaned') ∧ pm'.Valid := by
  induction order generalizing pm cleaned with
  | nil => exact ⟨pm, cleaned, rfl, valid⟩
  | cons id order ih =>
    unfold dropStale
    cases pm.proxies.get id with
    | none => exact ih cleaned valid
    | some state =>
      dsimp only
      split
      · obtain ⟨pm', ok, indexed, proxies, members⟩ := @removeFromAvailable_spec
          { pm with proxies := pm.proxies.delete id } valid.indexed id
        rw [ok]
        refine ih true ⟨indexed, fun other => ?_⟩
        rw [members, proxies, FinMap.get_delete]
        by_cases here : other = id
        · simp [here]
        · simp [here, valid.scored]
      · exact ih cleaned valid

/-- The loop drops those of the visited proxies whose heartbeat is too old. -/
theorem dropStale_get {pm' : ProxyMap} {now timeout : Int} {order : List String} {cleaned cleaned' : Bool}
    (ok : dropStale now timeout order (pm, cleaned) = .ok (pm', cleaned')) (other : String) :
    pm'.proxies.get other = if other ∈ order then
      (pm.proxies.get other).filter fun state => ¬int64 (now - state.lastHeartbeat) > timeout
      else pm.proxies.get other := by
  induction order generalizing pm cleaned with
  | nil =>
    cases ok
    simp
  | cons id order ih =>
    unfold dropStale at ok
    cases found : pm.proxies.get id with
    | none =>
      rw [found] at ok
      rw [ih ok]
      by_cases here : other = id
      · subst here
        simp [found]
      · simp [here]
    | some state =>
      rw [found] at ok
      dsimp only at ok
      split at ok
      · rename_i old
        split at ok
        · cases ok
        · rename_i left removed
          rw [ih ok, removeFromAvailable_proxies removed, FinMap.get_delete]
          by_cases here : other = id
          · subst here
            simp [found, Option.filter_some, old]
          · simp [here]
      · rename_i recent
        rw [ih ok]
        by_cases here : other = id
        · subst here
          simp [found, Option.filter_some, Int.not_lt.mp recent]
        · simp [here]

/-- One proxy of the loop in `rebuildAvailableCache`. -/
private def relist (pm : ProxyMap) (id : String) : ProxyMap :=
  match pm.proxies.get id with
  | some state =>
    if state.consumers > 0 then { pm with
      availableIndex := pm.availableIndex.set id pm.available.length
      available := pm.available ++ [id] }
    else pm
  | none => pm

private theorem relist_spec {id : String} (indexed : pm.Indexed) (absent : id ∉ pm.available) :
    (relist pm id).Indexed ∧ (relist pm id).proxies = pm.proxies ∧
      ∀ other, other ∈ (relist pm id).available ↔ other ∈ pm.available ∨
        other = id ∧ ∃ state, pm.proxies.get id = some state ∧ 0 < state.consumers := by
  unfold relist
  cases found : pm.proxies.get id with
  | none => exact ⟨indexed, rfl, fun other => by simp⟩
  | some state =>
    dsimp only
    split
    · rename_i positive
      have unindexed : pm.availableIndex.get id = none := by
        cases held : pm.availableIndex.get id with
        | none => rfl
        | some i => exact absurd ((indexed.mem id).mpr ⟨i, held⟩) absent
      exact ⟨indexed.append unindexed, rfl, fun other => by simp [positive]⟩
    · rename_i idle
      exact ⟨indexed, rfl, fun other => by simp [idle]⟩

private theorem foldl_relist_spec {order : List String} (indexed : pm.Indexed) (distinct : order.Nodup)
    (absent : ∀ id ∈ order, id ∉ pm.available) :
    (order.foldl relist pm).Indexed ∧ (order.foldl relist pm).proxies = pm.proxies ∧
      ∀ other, other ∈ (order.foldl relist pm).available ↔ other ∈ pm.available ∨
        other ∈ order ∧ ∃ state, pm.proxies.get other = some state ∧ 0 < state.consumers := by
  induction order generalizing pm with
  | nil => exact ⟨indexed, rfl, fun other => by simp⟩
  | cons id order ih =>
    obtain ⟨indexed', proxies, members⟩ := relist_spec indexed (absent id List.mem_cons_self)
    obtain ⟨fresh, rest⟩ := List.nodup_cons.mp distinct
    have later : ∀ other ∈ order, other ∉ (relist pm id).available := by
      intro other member
      rw [members]
      rintro (before | ⟨rfl, _⟩)
      · exact absent other (List.mem_cons_of_mem _ member) before
      · exact fresh member
    obtain ⟨indexed'', proxies', members'⟩ := ih indexed' rest later
    refine ⟨indexed'', proxies'.trans proxies, fun other => ?_⟩
    rw [List.foldl_cons, members', members, proxies, List.mem_cons]
    constructor
    · rintro ((before | ⟨rfl, scored⟩) | ⟨member, scored⟩)
      · exact .inl before
      · exact .inr ⟨.inl rfl, scored⟩
      · exact .inr ⟨.inr member, scored⟩
    · rintro (before | ⟨rfl | member, scored⟩)
      · exact .inl (.inl before)
      · exact .inl (.inr ⟨rfl, scored⟩)
      · exact .inr ⟨member, scored⟩

theorem rebuildAvailableCache_valid {order : List String} (visits : order.Perm pm.proxies.keys) :
    (pm.rebuildAvailableCache order).Valid := by
  obtain ⟨indexed, proxies, members⟩ := @foldl_relist_spec
    { pm with available := [], availableIndex := .empty, roundRobin := 0 } order (by simp [Indexed])
    (visits.nodup_iff.mpr pm.proxies.nodup) (by simp)
  refine ⟨indexed, fun id => ?_⟩
  rw [show pm.rebuildAvailableCache order = order.foldl relist _ from rfl, members, proxies, visits.mem_iff,
    FinMap.mem_keys]
  simp only [List.not_mem_nil, false_or]
  exact ⟨And.right, fun scored => ⟨⟨scored.choose, scored.choose_spec.1⟩, scored⟩⟩

theorem rebuildAvailableCache_proxies (pm : ProxyMap) (order : List String) :
    (pm.rebuildAvailableCache order).proxies = pm.proxies := by
  have one : ∀ (pm : ProxyMap) id, (relist pm id).proxies = pm.proxies := by
    intro pm id
    unfold relist
    split
    · split <;> rfl
    · rfl
  have all : ∀ pm : ProxyMap, (order.foldl relist pm).proxies = pm.proxies := by
    induction order with
    | nil => exact fun _ => rfl
    | cons id order ih => exact fun pm => (ih (relist pm id)).trans (one pm id)
  exact all _

/-- Whatever is found has consumers, so the first position looked at is taken. -/
theorem getNextAvailable_eq (valid : pm.Valid) {id : String}
    (turn : pm.available[pm.roundRobin % pm.available.length]? = some id) :
    ∃ state, pm.proxies.get id = some state ∧ pm.getNextAvailable = .ok (some (id, state.consumers),
      { pm with roundRobin := (pm.roundRobin % pm.available.length + 1) % pm.available.length }) := by
  obtain ⟨state, stored, positive⟩ := (valid.scored id).mp (List.mem_of_getElem? turn)
  refine ⟨state, stored, ?_⟩
  obtain ⟨left, size⟩ : ∃ left, pm.available.length = left + 1 := by
    cases list : pm.available with
    | nil => simp [list] at turn
    | cons first rest => exact ⟨rest.length, rfl⟩
  have found : pm.findAvailable pm.roundRobin pm.available.length =
      .ok (some (id, state.consumers, pm.roundRobin % pm.available.length)) := by
    nth_rewrite 1 [size]
    rw [findAvailable, turn]
    simp only [stored, if_pos positive]
  rw [getNextAvailable, found]

theorem getNextAvailable_none (nobody : pm.available = []) : pm.getNextAvailable = .ok (none, pm) := by
  have found : pm.findAvailable pm.roundRobin pm.available.length = .ok none := by
    rw [nobody]
    rfl
  rw [getNextAvailable, found]

theorem getNextAvailable_valid (valid : pm.Valid) :
    ∃ answer pm', pm.getNextAvailable = .ok (answer, pm') ∧ pm'.Valid := by
  cases turn : pm.available[pm.roundRobin % pm.available.length]? with
  | none =>
    have nobody : pm.available = [] := by
      by_contra somebody
      have bound := List.getElem?_eq_none_iff.mp turn
      exact absurd (Nat.mod_lt pm.roundRobin (List.length_pos_iff.mpr somebody)) (Nat.not_lt.mpr bound)
    exact ⟨none, pm, getNextAvailable_none nobody, valid⟩
  | some id =>
    obtain ⟨state, _, ok⟩ := getNextAvailable_eq valid turn
    exact ⟨_, _, ok, valid.indexed, valid.scored⟩

end Operations

/-! ### Whole runs -/

inductive ProxyOp where
  | update (proxyID : String) (score timestamp : Int)
  | cleanupStale (now timeoutSeconds : Int) (order rebuildOrder : List String)
  | getNextAvailable

def perform (pm : ProxyMap) : ProxyOp → Except Panic ProxyMap
  | .update proxyID score timestamp => pm.update proxyID score timestamp
  | .cleanupStale now timeoutSeconds order rebuildOrder => pm.cleanupStale now timeoutSeconds order rebuildOrder
  | .getNextAvailable => do
    let (_, pm) ← pm.getNextAvailable
    .ok pm

/-- The loops of `CleanupStale` visit the proxies that the map then has, in any order. -/
def Admits (pm : ProxyMap) : ProxyOp → Prop
  | .cleanupStale now timeoutSeconds order rebuildOrder => order.Perm pm.proxies.keys ∧
    ∀ left cleaned, dropStale now (int64 (timeoutSeconds * 1000)) order (pm, false) = .ok (left, cleaned) →
      rebuildOrder.Perm left.proxies.keys
  | .update _ _ _ | .getNextAvailable => True

/-- No operation panics, and each keeps the invariant. -/
theorem perform_valid {pm : ProxyMap} {op : ProxyOp} (valid : pm.Valid) (admitted : pm.Admits op) :
    ∃ pm', pm.perform op = .ok pm' ∧ pm'.Valid := by
  cases op with
  | update proxyID score timestamp => exact update_valid valid proxyID score timestamp
  | cleanupStale now timeoutSeconds order rebuildOrder =>
    obtain ⟨left, cleaned, ok, kept⟩ := dropStale_valid now (int64 (timeoutSeconds * 1000)) order false valid
    refine ⟨_, by rw [perform, cleanupStale, ok], ?_⟩
    split
    · exact rebuildAvailableCache_valid (admitted.2 left cleaned ok)
    · exact kept
  | getNextAvailable =>
    obtain ⟨answer, pm', ok, kept⟩ := getNextAvailable_valid valid
    exact ⟨pm', by rw [perform, ok]; rfl, kept⟩

/-- The maps that sequences of operations make from a new one. -/
abbrev Reached : List ProxyOp → ProxyMap → Prop :=
  Run (fun pm op pm' => pm.perform op = .ok pm') (fun _ => Admits) new

theorem Reached.valid {ops : List ProxyOp} {pm : ProxyMap} (run : Reached ops pm) : pm.Valid := by
  refine Run.invariant (fun _ pm => pm.Valid) new_valid ?_ run
  intro _ _ op pm' valid admitted ok
  obtain ⟨after, done, kept⟩ := perform_valid valid admitted
  rw [ok] at done
  cases done
  exact kept
end Cue.State.ProxyMap
