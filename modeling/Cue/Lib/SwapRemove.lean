import Mathlib.Data.List.Nodup
import Mathlib.Data.List.Perm.Subperm

/-! Removal from a list by moving its last element into the hole. Positions
after a removal are the old ones, except that the hole holds what was last. -/
namespace Cue.Lib

variable {α β : Type}

/-- Fill position `i` with the last element and shorten the list by one; out
of range, nothing happens. -/
def swapRemove (l : List α) (i : Nat) : List α :=
  if i < l.length then
    match l.getLast? with
    | some last => (l.set i last).dropLast
    | none => l
  else l

/-- Remove several positions, the last listed first. -/
def swapRemoveAll (l : List α) (cells : List Nat) : List α :=
  cells.foldr (fun cell rest => swapRemove rest cell) l

theorem swapRemove_of_ge {l : List α} {i : Nat} (out : l.length ≤ i) : swapRemove l i = l := by
  simp [swapRemove, Nat.not_lt.mpr out]

theorem getElem?_swapRemove {l : List α} {i : Nat} (inside : i < l.length) (k : Nat) :
    (swapRemove l i)[k]? =
      if k + 1 < l.length then (if k = i then l[l.length - 1]? else l[k]?) else none := by
  have nonempty : l ≠ [] := by
    intro nil
    simp [nil] at inside
  rw [swapRemove, if_pos inside, List.getLast?_eq_getLast_of_ne_nil nonempty]
  simp only [List.getElem?_dropLast, List.length_set, List.getElem?_set]
  by_cases short : k + 1 < l.length
  · have below : k < l.length - 1 := by omega
    rw [if_pos below, if_pos short]
    by_cases same : i = k
    · subst same
      simp [inside, List.getLast_eq_getElem, List.getElem?_eq_getElem (show l.length - 1 < l.length by omega)]
    · rw [if_neg same, if_neg (Ne.symm same)]
  · rw [if_neg (by omega), if_neg short]

/-- Where the elements of a list without repetition are after a removal: the
removed one is gone, the last one is in its place, the others stay. -/
theorem getElem?_swapRemove_iff [DecidableEq α] {l : List α} {i : Nat} {a z : α} (distinct : l.Nodup)
    (found : l[i]? = some a) (last : l.getLast? = some z) (k : Nat) (x : α) :
    (swapRemove l i)[k]? = some x ↔ x ≠ a ∧ if x = z then k = i else l[k]? = some x := by
  have inside : i < l.length := (List.getElem?_eq_some_iff.mp found).1
  have final : l[l.length - 1]? = some z := by rw [← List.getLast?_eq_getElem?, last]
  have single : ∀ {n m : Nat} {y : α}, l[n]? = some y → l[m]? = some y → n = m := by
    intro n m y first second
    exact (List.getElem?_inj (List.getElem?_eq_some_iff.mp first).1 distinct).mp (first.trans second.symm)
  rw [getElem?_swapRemove inside, final]
  constructor
  · intro held
    split at held
    · rename_i short
      split at held
      · rename_i hole
        cases held
        refine ⟨?_, by rw [if_pos rfl]; exact hole⟩
        rintro rfl
        have := single found final
        omega
      · rename_i elsewhere
        refine ⟨?_, ?_⟩
        · rintro rfl
          exact elsewhere (single held found)
        · rw [if_neg]
          · exact held
          · rintro rfl
            have := single held final
            omega
    · cases held
  · rintro ⟨kept, place⟩
    split at place
    · rename_i same
      subst same place
      have apart : k ≠ l.length - 1 := by
        rintro rfl
        exact kept (Option.some.inj (final.symm.trans found))
      rw [if_pos (by omega), if_pos rfl]
    · rename_i other
      have bound : k < l.length := (List.getElem?_eq_some_iff.mp place).1
      have notLast : k ≠ l.length - 1 := by
        rintro rfl
        exact other (Option.some.inj (place.symm.trans final))
      have notHole : k ≠ i := by
        rintro rfl
        exact kept (Option.some.inj (place.symm.trans found))
      rw [if_pos (by omega), if_neg notHole]
      exact place
/-- Removal moves elements without looking at them. -/
theorem map_swapRemove (f : α → β) (l : List α) (i : Nat) :
    (swapRemove l i).map f = swapRemove (l.map f) i := by
  unfold swapRemove
  simp only [List.length_map, List.getLast?_map]
  split
  · cases l.getLast? <;> simp [List.map_dropLast, List.map_set]
  · rfl

theorem map_swapRemoveAll (f : α → β) (l : List α) (cells : List Nat) :
    (swapRemoveAll l cells).map f = swapRemoveAll (l.map f) cells := by
  induction cells with
  | nil => rfl
  | cons cell cells ih =>
    simp only [swapRemoveAll, List.foldr_cons] at ih ⊢
    rw [map_swapRemove, ih]

theorem mem_of_mem_swapRemove {l : List α} {i : Nat} {a : α} (member : a ∈ swapRemove l i) : a ∈ l := by
  by_cases inside : i < l.length
  · obtain ⟨k, found⟩ := List.mem_iff_getElem?.mp member
    rw [getElem?_swapRemove inside] at found
    split at found
    · split at found <;> exact List.mem_iff_getElem?.mpr ⟨_, found⟩
    · cases found
  · rwa [swapRemove_of_ge (Nat.not_lt.mp inside)] at member

theorem mem_of_mem_swapRemoveAll {l : List α} {cells : List Nat} {a : α}
    (member : a ∈ swapRemoveAll l cells) : a ∈ l := by
  induction cells with
  | nil => exact member
  | cons cell cells ih => exact ih (mem_of_mem_swapRemove member)

/-- Two lists of one length from which the same positions are removed stay in step. -/
theorem swapRemoveAll_pair {l : List α} {l' : List β} {cells : List Nat} (aligned : l.length = l'.length) :
    (swapRemoveAll l cells).length = (swapRemoveAll l' cells).length ∧
      ∀ (k : Nat) a b, (swapRemoveAll l cells)[k]? = some a → (swapRemoveAll l' cells)[k]? = some b →
        ∃ k' : Nat, l[k']? = some a ∧ l'[k']? = some b := by
  have left : (swapRemoveAll (l.zip l') cells).map Prod.fst = swapRemoveAll l cells := by
    rw [map_swapRemoveAll, List.map_fst_zip (Nat.le_of_eq aligned)]
  have right : (swapRemoveAll (l.zip l') cells).map Prod.snd = swapRemoveAll l' cells := by
    rw [map_swapRemoveAll, List.map_snd_zip (Nat.le_of_eq aligned.symm)]
  refine ⟨?_, fun k a b first second => ?_⟩
  · rw [← left, ← right, List.length_map, List.length_map]
  · rw [← left, List.getElem?_map] at first
    rw [← right, List.getElem?_map] at second
    obtain ⟨pair, there, rfl⟩ := Option.map_eq_some_iff.mp first
    rw [there] at second
    cases second
    obtain ⟨k', found⟩ := List.mem_iff_getElem?.mp (mem_of_mem_swapRemoveAll (List.mem_of_getElem? there))
    exact ⟨k', List.getElem?_zip_eq_some.mp found⟩

/-- Up to order, removal erases the position. -/
theorem swapRemove_perm {l : List α} {i : Nat} (inside : i < l.length) :
    (swapRemove l i).Perm (l.eraseIdx i) := by
  rcases List.eq_nil_or_concat' l with rfl | ⟨init, last, rfl⟩
  · simp at inside
  · rw [swapRemove, if_pos inside, List.getLast?_concat]
    simp only [List.length_append, List.length_singleton] at inside ⊢
    by_cases early : i < init.length
    · rw [List.set_append_left _ _ early, List.eraseIdx_append_of_lt_length early]
      simp only [List.dropLast_concat]
      exact (List.set_perm_cons_eraseIdx early last).trans (List.perm_append_singleton _ _).symm
    · have final : i = init.length := by omega
      subst final
      simp [List.eraseIdx_append_of_length_le]

theorem swapRemoveAll_nodup {l : List α} (cells : List Nat) (distinct : l.Nodup) :
    (swapRemoveAll l cells).Nodup := by
  induction cells with
  | nil => exact distinct
  | cons cell cells ih =>
    show (swapRemove (swapRemoveAll l cells) cell).Nodup
    by_cases inside : cell < (swapRemoveAll l cells).length
    · rw [(swapRemove_perm inside).nodup_iff]
      exact ih.sublist (List.eraseIdx_sublist _ _)
    · rw [swapRemove_of_ge (Nat.not_lt.mp inside)]
      exact ih

/-- After removing distinct positions, a position that was not removed and is
still in range holds what it held, and every element from such a position is
somewhere in the list: where it was, or in a hole. -/
theorem swapRemoveAll_frame (l : List α) (cells : List Nat) (distinct : cells.Nodup) :
    (∀ k a, k ∉ cells → (swapRemoveAll l cells)[k]? = some a → l[k]? = some a) ∧
    (∀ k a, k ∉ cells → l[k]? = some a →
      ∃ k', (swapRemoveAll l cells)[k']? = some a ∧ (k' = k ∨ k' ∈ cells)) := by
  induction cells with
  | nil => exact ⟨fun _ _ _ found => found, fun k _ _ found => ⟨k, found, Or.inl rfl⟩⟩
  | cons cell cells ih =>
    obtain ⟨fresh, distinct⟩ := List.nodup_cons.mp distinct
    obtain ⟨back, forth⟩ := ih distinct
    have unfolded : swapRemoveAll l (cell :: cells) = swapRemove (swapRemoveAll l cells) cell := rfl
    rw [unfolded]
    generalize swapRemoveAll l cells = rest at back forth
    by_cases inside : cell < rest.length
    · constructor
      · intro k a outside found
        obtain ⟨other, outside⟩ := List.ne_and_not_mem_of_not_mem_cons outside
        rw [getElem?_swapRemove inside, if_neg other] at found
        split at found
        · exact back k a outside found
        · cases found
      · intro k a outside found
        obtain ⟨other, outside⟩ := List.ne_and_not_mem_of_not_mem_cons outside
        obtain ⟨k', held, place⟩ := forth k a outside found
        have apart : k' ≠ cell := by
          rintro rfl
          rcases place with rfl | place
          · exact other rfl
          · exact fresh place
        have bound : k' < rest.length := (List.getElem?_eq_some_iff.mp held).1
        -- the element either stays where it is, or was last and moves into the hole
        by_cases last : k' + 1 < rest.length
        · refine ⟨k', ?_, place.imp id (List.mem_cons_of_mem _)⟩
          rw [getElem?_swapRemove inside, if_pos last, if_neg apart]
          exact held
        · refine ⟨cell, ?_, Or.inr List.mem_cons_self⟩
          have final : k' = rest.length - 1 := by omega
          rw [getElem?_swapRemove inside, if_pos (by omega), if_pos rfl, ← final]
          exact held
    · rw [swapRemove_of_ge (Nat.not_lt.mp inside)]
      refine ⟨fun k a outside found => back k a (List.not_mem_of_not_mem_cons outside) found, ?_⟩
      intro k a outside found
      obtain ⟨k', held, place⟩ := forth k a (List.not_mem_of_not_mem_cons outside) found
      exact ⟨k', held, place.imp id (List.mem_cons_of_mem _)⟩

/-- Removing distinct positions keeps every element that was at another one. -/
theorem mem_swapRemoveAll {l : List α} {cells : List Nat} {k : Nat} {a : α} (distinct : cells.Nodup)
    (outside : k ∉ cells) (found : l[k]? = some a) : a ∈ swapRemoveAll l cells := by
  obtain ⟨k', held, _⟩ := (swapRemoveAll_frame l cells distinct).2 k a outside found
  exact List.mem_iff_getElem?.mpr ⟨k', held⟩

/-- An element is gone if its position is still in range when its turn to be
removed comes. Otherwise it was moved into an earlier hole. -/
theorem not_mem_swapRemoveAll {l : List α} {before after : List Nat} {cell : Nat} {a : α} (distinct : l.Nodup)
    (cells : (before ++ cell :: after).Nodup) (found : l[cell]? = some a)
    (inside : cell < (swapRemoveAll l after).length) : a ∉ swapRemoveAll l (before ++ cell :: after) := by
  obtain ⟨fresh, later⟩ := List.nodup_cons.mp (List.nodup_append.mp cells).2.1
  have here : (swapRemoveAll l after)[cell]? = some a := by
    rw [List.getElem?_eq_getElem inside]
    have kept := (swapRemoveAll_frame l after later).1 cell _ fresh (List.getElem?_eq_getElem inside)
    rw [found] at kept
    exact kept.symm
  have gone : a ∉ swapRemove (swapRemoveAll l after) cell := by
    rw [(swapRemove_perm inside).mem_iff]
    intro member
    have once := swapRemoveAll_nodup after distinct
    rw [List.mem_eraseIdx_iff_getElem?] at member
    obtain ⟨k, apart, there⟩ := member
    exact apart ((List.getElem?_inj (List.getElem?_eq_some_iff.mp there).1 once).mp (there.trans here.symm))
  intro member
  have unfolded : swapRemoveAll l (before ++ cell :: after) =
      swapRemoveAll (swapRemove (swapRemoveAll l after) cell) before := by
    simp [swapRemoveAll]
  rw [unfolded] at member
  exact gone (mem_of_mem_swapRemoveAll member)

/-! ### Removing exactly these positions -/

/-- The elements at the other positions, in order. -/
def others (l : List α) (cells : List Nat) : List α :=
  (l.zipIdx.filter fun place => place.2 ∉ cells).map Prod.fst

/-- Each position is still in range when its turn comes, the last listed first. -/
def InRange (length : Nat) (cells : List Nat) : Prop :=
  ∀ before cell after, cells = before ++ cell :: after → cell + after.length < length

theorem inRange_cons {length cell : Nat} {cells : List Nat} :
    InRange length (cell :: cells) ↔ cell + cells.length < length ∧ InRange length cells := by
  constructor
  · intro inRange
    refine ⟨inRange [] cell cells rfl, fun before other after split => ?_⟩
    exact inRange (cell :: before) other after (by rw [split]; rfl)
  · rintro ⟨here, rest⟩ before other after split
    cases before with
    | nil =>
      cases split
      exact here
    | cons first before =>
      obtain ⟨-, split⟩ := List.cons.inj split
      exact rest before other after split

theorem length_swapRemove (l : List α) (i : Nat) :
    (swapRemove l i).length = if i < l.length then l.length - 1 else l.length := by
  split
  · rename_i inside
    rw [(swapRemove_perm inside).length_eq, List.length_eraseIdx_of_lt inside]
  · rename_i out
    rw [swapRemove_of_ge (Nat.not_lt.mp out)]

/-- Every removal takes at most one element, and each takes one exactly if all are in range. -/
theorem length_swapRemoveAll (l : List α) (cells : List Nat) :
    l.length ≤ (swapRemoveAll l cells).length + cells.length ∧
      ((swapRemoveAll l cells).length + cells.length = l.length ↔ InRange l.length cells) := by
  induction cells with
  | nil =>
    refine ⟨Nat.le_refl _, fun _ => ?_, fun _ => rfl⟩
    intro before cell after split
    simp at split
  | cons cell cells ih =>
    obtain ⟨bound, exact⟩ := ih
    have step := length_swapRemove (swapRemoveAll l cells) cell
    have unfolded : swapRemoveAll l (cell :: cells) = swapRemove (swapRemoveAll l cells) cell := rfl
    rw [inRange_cons, ← exact, unfolded, step, List.length_cons]
    split <;> omega

theorem map_others (f : α → β) (l : List α) (cells : List Nat) : (others l cells).map f = others (l.map f) cells := by
  simp [others, List.zipIdx_map, List.filter_map, Function.comp_def]

/-- A removal keeps the elements at the other positions. -/
theorem others_subperm (l : List α) {cells : List Nat} (distinct : cells.Nodup) :
    (others l cells).Subperm (swapRemoveAll l cells) := by
  have places : l.zipIdx.Nodup := by
    refine List.Nodup.of_map Prod.snd ?_
    rw [List.zipIdx_map_snd]
    exact List.nodup_range'
  have kept : (l.zipIdx.filter fun place => place.2 ∉ cells) ⊆ swapRemoveAll l.zipIdx cells := by
    rintro ⟨a, k⟩ member
    obtain ⟨inside, outside⟩ := List.mem_filter.mp member
    refine mem_swapRemoveAll (k := k) distinct (by simpa using outside) ?_
    simpa [List.mem_zipIdx_iff_getElem?] using inside
  obtain ⟨placed, perm, sublist⟩ := (places.filter _).subperm kept
  have elements := sublist.map Prod.fst
  rw [map_swapRemoveAll, List.zipIdx_map_fst] at elements
  exact ⟨placed.map Prod.fst, perm.map Prod.fst, elements⟩

theorem length_others (l : List α) {cells : List Nat} (distinct : cells.Nodup)
    (inside : ∀ cell ∈ cells, cell < l.length) : (others l cells).length + cells.length = l.length := by
  have positions : (others l cells).length = ((List.range l.length).filter fun k => k ∉ cells).length := by
    have mapped : (l.zipIdx.filter fun place => place.2 ∉ cells).map Prod.snd =
        (List.range l.length).filter fun k => k ∉ cells := by
      rw [List.range_eq_range', ← List.zipIdx_map_snd, List.filter_map]
      rfl
    rw [others, List.length_map, ← mapped, List.length_map]
  have removed : ((List.range l.length).filter fun k => k ∈ cells).Perm cells := by
    refine (List.perm_ext_iff_of_nodup (List.nodup_range.filter _) distinct).mpr fun k => ?_
    simp only [List.mem_filter, List.mem_range, decide_eq_true_eq]
    exact ⟨And.right, fun member => ⟨inside k member, member⟩⟩
  have both := List.length_eq_length_filter_add (l := List.range l.length) fun k => decide (k ∈ cells)
  rw [List.length_range, removed.length_eq] at both
  simp only [positions, decide_not]
  omega

/-- Up to order, a removal leaves the elements at the other positions and no more
exactly if every position is in range when its turn comes. -/
theorem swapRemoveAll_perm_iff (l : List α) {cells : List Nat} (distinct : cells.Nodup)
    (inside : ∀ cell ∈ cells, cell < l.length) :
    (swapRemoveAll l cells).Perm (others l cells) ↔ InRange l.length cells := by
  have counted := length_others l distinct inside
  obtain ⟨-, exact⟩ := length_swapRemoveAll l cells
  rw [← exact]
  constructor
  · intro perm
    rw [perm.length_eq, counted]
  · intro length
    exact ((others_subperm l distinct).perm_of_length_le (by omega)).symm

end Cue.Lib
