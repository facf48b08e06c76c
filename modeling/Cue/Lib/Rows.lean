import Mathlib.Algebra.BigOperators.Group.List.Basic
import Mathlib.Algebra.Ring.Nat

/-! Lists as tables: rows are added at the end and changed in place. -/
namespace Cue.Lib

variable {A B : Type} {rows : List A} {f : A → B} {n : Nat} {a b : A}

/-- A row of a longer table is an old one or the new one. -/
theorem getElem?_snoc : (rows ++ [a])[n]? = some b ↔ rows[n]? = some b ∨ n = rows.length ∧ a = b := by
  rw [List.getElem?_append]
  grind

theorem getElem?_set_some {m : Nat} (found : (rows.set n a)[m]? = some b) :
    n = m ∧ a = b ∨ n ≠ m ∧ rows[m]? = some b := by
  rw [List.getElem?_set] at found
  grind

theorem map_set_same (found : rows[n]? = some a) (same : f b = f a) : (rows.set n b).map f = rows.map f := by
  refine List.ext_getElem? fun m => ?_
  rw [List.map_set, List.getElem?_set]
  split
  · subst_vars
    simp only [List.length_map, (List.getElem?_eq_some_iff.mp found).1, if_true, same, List.getElem?_map, found,
      Option.map_some]
  · rfl

theorem map_modify_same {change : A → A} (same : ∀ a, f (change a) = f a) (rows : List A) (n : Nat) :
    (rows.modify n change).map f = rows.map f := by
  refine List.ext_getElem? fun m => ?_
  simp only [List.getElem?_map, List.getElem?_modify]
  split
  · simp [same, Function.comp_def]
  · simp

/-- What a change in place does to a sum over the rows. -/
theorem sum_set (f : A → Nat) (found : rows[n]? = some a) (b : A) :
    ((rows.set n b).map f).sum + f a = (rows.map f).sum + f b := by
  induction rows generalizing n with
  | nil => cases found
  | cons row rows ih =>
    cases n with
    | zero =>
      cases found
      simp only [List.set_cons_zero, List.map_cons, List.sum_cons]
      omega
    | succ n =>
      have rest := ih found
      simp only [List.set_cons_succ, List.map_cons, List.sum_cons]
      omega

end Cue.Lib
