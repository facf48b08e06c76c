import Mathlib.Data.List.Induction
import Mathlib.Data.List.Nodup
import Mathlib.Data.List.Perm.Subperm

/-! Finite maps with one value per key and an iteration order that carries no
meaning. Every fact a client needs about a map goes through `get`; `pairs` is
only the order in which a loop over the map happens to visit it. -/
namespace Cue.Lib

/-- A finite map, as the pairs a loop over it visits. No key is visited twice. -/
structure FinMap (K V : Type) where
  pairs : List (K × V)
  nodup : (pairs.map Prod.fst).Nodup
  deriving DecidableEq

namespace FinMap

variable {K V : Type}

def empty : FinMap K V := ⟨[], List.nodup_nil⟩

def keys (m : FinMap K V) : List K := m.pairs.map Prod.fst

def size (m : FinMap K V) : Nat := m.pairs.length

/-- Keep the pairs that satisfy `keep`: a loop that deletes while it ranges. -/
def filter (m : FinMap K V) (keep : K → V → Bool) : FinMap K V where
  pairs := m.pairs.filter fun p => keep p.1 p.2
  nodup := m.nodup.sublist ((List.filter_sublist).map Prod.fst)

/-- A loop over the keys to which only one key contributes. -/
theorem flatMap_keys_unique {A : Type} {m : FinMap K V} {f : K → List A} {k : K} (member : k ∈ m.keys)
    (others : ∀ k' ∈ m.keys, k' ≠ k → f k' = []) : m.keys.flatMap f = f k := by
  obtain ⟨before, after, split⟩ := List.append_of_mem member
  have distinct : (before ++ k :: after).Nodup := split ▸ m.nodup
  have empty (part : List K) (inside : part ⊆ m.keys) (without : k ∉ part) : part.flatMap f = [] :=
    List.flatMap_eq_nil_iff.mpr fun k' there => others k' (inside there) (ne_of_mem_of_not_mem there without)
  rw [split, List.flatMap_append, List.flatMap_cons, empty before, empty after, List.nil_append, List.append_nil]
  all_goals grind

variable [DecidableEq K]

def get (m : FinMap K V) (k : K) : Option V := (m.pairs.find? fun p => p.1 = k).map Prod.snd

def contains (m : FinMap K V) (k : K) : Bool := (m.get k).isSome

def delete (m : FinMap K V) (k : K) : FinMap K V := m.filter fun k' _ => k' ≠ k

def set (m : FinMap K V) (k : K) (v : V) : FinMap K V where
  pairs := (k, v) :: (m.delete k).pairs
  nodup := by
    refine List.nodup_cons.mpr ⟨?_, (m.delete k).nodup⟩
    simp [delete, filter]

/-- A pair is visited exactly when it is what `get` finds. -/
theorem mem_pairs (m : FinMap K V) (k : K) (v : V) : (k, v) ∈ m.pairs ↔ m.get k = some v := by
  unfold get
  constructor
  · intro member
    cases found : m.pairs.find? fun p => p.1 = k with
    | none => simpa using List.find?_eq_none.mp found (k, v) member
    | some p =>
      have same : p.1 = k := by simpa using List.find?_some found
      have unique := List.inj_on_of_nodup_map m.nodup (List.mem_of_find?_eq_some found) member same
      simp [unique]
  · intro found
    obtain ⟨p, located, rfl⟩ := Option.map_eq_some_iff.mp found
    have same : p.1 = k := by simpa using List.find?_some located
    exact same ▸ List.mem_of_find?_eq_some located

@[simp] theorem get_empty (k : K) : (empty : FinMap K V).get k = none := rfl

theorem get_filter_some {m : FinMap K V} {keep : K → V → Bool} {k : K} {v : V} :
    (m.filter keep).get k = some v ↔ m.get k = some v ∧ keep k v = true := by
  rw [← mem_pairs, ← mem_pairs]
  simp [filter]

theorem get_filter (m : FinMap K V) (keep : K → V → Bool) (k : K) :
    (m.filter keep).get k = (m.get k).filter (keep k) := by
  apply Option.ext
  intro v
  rw [get_filter_some, Option.filter_eq_some_iff]

theorem get_delete (m : FinMap K V) (k k' : K) :
    (m.delete k).get k' = if k' = k then none else m.get k' := by
  apply Option.ext
  intro v
  rw [delete, get_filter_some]
  split <;> simp_all

theorem get_set (m : FinMap K V) (k k' : K) (v : V) :
    (m.set k v).get k' = if k' = k then some v else m.get k' := by
  apply Option.ext
  intro w
  rw [← mem_pairs]
  by_cases same : k' = k
  · subst same
    simp only [set, List.mem_cons, Prod.mk.injEq, true_and, mem_pairs, get_delete, ↓reduceIte,
      Option.some.injEq, reduceCtorEq, or_false]
    exact eq_comm
  · simp [set, mem_pairs, get_delete, same]

@[simp] theorem get_set_self (m : FinMap K V) (k : K) (v : V) : (m.set k v).get k = some v := by
  simp [get_set]

/-- The later of two values under one key is the one that stays. -/
theorem set_set (m : FinMap K V) (k : K) (v v' : V) : (m.set k v).set k v' = m.set k v' := by
  simp [set, delete, filter]

theorem delete_of_not_contains {m : FinMap K V} {k : K} (absent : m.contains k = false) : m.delete k = m := by
  obtain ⟨pairs, nodup⟩ := m
  have kept : (pairs.filter fun p => decide (p.1 ≠ k)) = pairs := by
    refine List.filter_eq_self.mpr fun p member => ?_
    have found := (mem_pairs ⟨pairs, nodup⟩ p.1 p.2).mp member
    simp only [decide_eq_true_eq]
    rintro rfl
    simp [contains, found] at absent
  simp only [delete, filter, kept]

/-- A key that is there is one pair of the map, the rest are those of the other keys. -/
theorem pairs_perm_delete {m : FinMap K V} {k : K} {v : V} (found : m.get k = some v) :
    m.pairs.Perm ((k, v) :: (m.delete k).pairs) := by
  have distinct : ((k, v) :: (m.delete k).pairs).Nodup := by
    refine List.nodup_cons.mpr ⟨?_, (m.delete k).nodup.of_map _⟩
    simp [delete, filter]
  refine (List.perm_ext_iff_of_nodup (m.nodup.of_map _) distinct).mpr ?_
  rintro ⟨k', v'⟩
  rw [List.mem_cons, mem_pairs, mem_pairs, get_delete]
  by_cases same : k' = k
  · subst same
    simp [found, eq_comm]
  · simp [same]

theorem delete_set_self (m : FinMap K V) (k : K) (v : V) : (m.set k v).delete k = m.delete k := by
  simp [set, delete, filter]

theorem delete_set_of_ne (m : FinMap K V) {k k' : K} (apart : k ≠ k') (v : V) :
    (m.set k v).delete k' = (m.delete k').set k v := by
  simp [set, delete, filter, apart, List.filter_filter, Bool.and_comm]

theorem delete_comm (m : FinMap K V) (k k' : K) : (m.delete k).delete k' = (m.delete k').delete k := by
  simp [delete, filter, List.filter_filter, Bool.and_comm]

theorem get_foldl_delete {A : Type} (f : A → K) (gone : List A) (m : FinMap K V) (k : K) :
    (gone.foldl (fun m a => m.delete (f a)) m).get k = if k ∈ gone.map f then none else m.get k := by
  induction gone generalizing m with
  | nil => rfl
  | cons a gone ih =>
    rw [List.foldl_cons, ih, get_delete]
    by_cases later : k ∈ gone.map f <;> by_cases here : k = f a <;> simp_all

theorem contains_iff (m : FinMap K V) (k : K) : m.contains k = true ↔ ∃ v, m.get k = some v := by
  simp [contains, Option.isSome_iff_exists]

theorem contains_set (m : FinMap K V) (k k' : K) (v : V) :
    (m.set k v).contains k' = (decide (k' = k) || m.contains k') := by
  unfold contains
  rw [get_set]
  by_cases own : k' = k <;> simp [own]

theorem mem_keys (m : FinMap K V) (k : K) : k ∈ m.keys ↔ ∃ v, m.get k = some v := by
  simp [keys, ← mem_pairs]

/-! ### Maps that a loop fills -/

section Collect

variable {A : Type} {key : A → K} {value : A → V} {items : List A} {k : K} {v : V}

/-- One value is set for every item. -/
def collect (key : A → K) (value : A → V) (items : List A) : FinMap K V :=
  items.foldl (fun m a => m.set (key a) (value a)) .empty

theorem get_foldl_set (others : ∀ a ∈ items, key a ≠ k) (m : FinMap K V) :
    (items.foldl (fun m a => m.set (key a) (value a)) m).get k = m.get k := by
  induction items generalizing m with
  | nil => rfl
  | cons a items ih =>
    rw [List.foldl_cons, ih fun b member => others b (List.mem_cons_of_mem _ member), get_set,
      if_neg (others a List.mem_cons_self).symm]

theorem get_collect_append (key : A → K) (value : A → V) (items more : List A) (k : K)
    (others : ∀ a ∈ more, key a ≠ k) :
    (collect key value (items ++ more)).get k = (collect key value items).get k := by
  unfold collect
  rw [List.foldl_append]
  exact get_foldl_set others _

theorem get_collect_singleton_append (items : List A) (a : A) :
    (collect key value (items ++ [a])).get (key a) = some (value a) := by
  simp [collect]

/-- A key that all items agree on. -/
theorem get_collect (present : ∃ a ∈ items, key a = k) (agree : ∀ a ∈ items, key a = k → value a = v) :
    (collect key value items).get k = some v := by
  induction items using List.reverseRecOn with
  | nil =>
    obtain ⟨_, member, _⟩ := present
    cases member
  | append_singleton items a ih =>
    by_cases last : key a = k
    · rw [← last, get_collect_singleton_append, agree a (by simp) last]
    · rw [get_collect_append key value items [a] k (by simpa using last)]
      refine ih ?_ fun b member => agree b (List.mem_append_left _ member)
      obtain ⟨b, member, same⟩ := present
      rcases List.mem_append.mp member with earlier | here
      · exact ⟨b, earlier, same⟩
      · exact absurd (List.mem_singleton.mp here ▸ same) last

theorem get_collect_none (absent : ∀ a ∈ items, key a ≠ k) : (collect key value items).get k = none :=
  get_collect_append key value [] items k absent

theorem mem_keys_collect : k ∈ (collect key value items).keys ↔ k ∈ items.map key := by
  rw [List.mem_map]
  constructor
  · intro member
    by_contra absent
    push Not at absent
    obtain ⟨v, found⟩ := (mem_keys _ _).mp member
    rw [get_collect_none absent] at found
    cases found
  · rintro ⟨a, member, rfl⟩
    induction items using List.reverseRecOn with
    | nil => cases member
    | append_singleton items b ih =>
      rw [mem_keys]
      by_cases last : key b = key a
      · exact ⟨value b, last ▸ get_collect_singleton_append items b⟩
      · rw [get_collect_append key value items [b] (key a) (by simpa using last), ← mem_keys]
        rcases List.mem_append.mp member with earlier | here
        · exact ih earlier
        · exact absurd (congrArg key (List.mem_singleton.mp here).symm) last

/-- With different keys, every item has its value. -/
theorem get_collect_iff (distinct : (items.map key).Nodup) :
    (collect key value items).get k = some v ↔ ∃ a ∈ items, key a = k ∧ value a = v := by
  constructor
  · intro found
    obtain ⟨a, member, rfl⟩ := List.mem_map.mp (mem_keys_collect.mp ((mem_keys _ _).mpr ⟨v, found⟩))
    have own : (collect key value items).get (key a) = some (value a) := by
      refine get_collect ⟨a, member, rfl⟩ fun b inside same => ?_
      rw [List.inj_on_of_nodup_map distinct inside member same]
    exact ⟨a, member, rfl, Option.some_inj.mp (own.symm.trans found)⟩
  · rintro ⟨a, member, rfl, rfl⟩
    refine get_collect ⟨a, member, rfl⟩ fun b inside same => ?_
    rw [List.inj_on_of_nodup_map distinct inside member same]

/-- The map is as large as the list exactly when no key is set twice. -/
theorem size_collect_iff : items.length = (collect key value items).size ↔ (items.map key).Nodup := by
  have size : (collect key value items).size = (collect key value items).keys.length := by simp [size, keys]
  have fewer : (collect key value items).keys.Subperm (items.map key) :=
    (collect key value items).nodup.subperm fun k => mem_keys_collect.mp
  rw [size]
  constructor
  · intro same
    have all : (collect key value items).keys.Perm (items.map key) :=
      fewer.perm_of_length_le (by simp [same])
    exact all.nodup_iff.mp (collect key value items).nodup
  · intro distinct
    have all : (collect key value items).keys.Perm (items.map key) :=
      (List.perm_ext_iff_of_nodup (collect key value items).nodup distinct).mpr fun _ => mem_keys_collect
    rw [all.length_eq, List.length_map]

end Collect

end FinMap
end Cue.Lib
