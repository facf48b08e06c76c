import Mathlib.Data.List.Basic

/-! Slices that start at the front of a backing array, as far as appending to
them can show that two slices share the array. Cutting a slice to length zero
keeps the array, so that a later append writes over what another slice still
reads. -/
namespace Cue.Lib

/-- A backing array: its capacity, and the cells that were ever written. -/
structure Backing (A : Type) where
  cap : Nat
  cells : List A
  deriving DecidableEq

/-- The first `len` cells of an array. -/
structure Slice where
  array : Nat
  len : Nat
  deriving DecidableEq, Repr

/-- All arrays, by the order in which they were allocated. -/
structure SliceHeap (A : Type) where
  arrays : List (Backing A)
  deriving DecidableEq

namespace SliceHeap

variable {A : Type}

def make (h : SliceHeap A) (cap : Nat) : SliceHeap A × Slice := (⟨h.arrays ++ [⟨cap, []⟩]⟩, ⟨h.arrays.length, 0⟩)

def capacity (h : SliceHeap A) (s : Slice) : Nat :=
  match h.arrays[s.array]? with
  | some b => b.cap
  | none => 0

def content (h : SliceHeap A) (s : Slice) : List A :=
  match h.arrays[s.array]? with
  | some b => b.cells.take s.len
  | none => []

/-- Append in place while there is room, else to a copy in a new array, whose
capacity `grown` says. -/
def append (grown : Nat → Nat) (h : SliceHeap A) (s : Slice) (x : A) : SliceHeap A × Slice :=
  match h.arrays[s.array]? with
  | none => (h, s)
  | some b =>
    if s.len < b.cap then
      let cells := b.cells.take s.len ++ x :: b.cells.drop (s.len + 1)
      (⟨h.arrays.set s.array { b with cells := cells }⟩, ⟨s.array, s.len + 1⟩)
    else (⟨h.arrays ++ [⟨grown b.cap, b.cells.take s.len ++ [x]⟩]⟩, ⟨h.arrays.length, s.len + 1⟩)

/-- The slice is there, and its cells were written. -/
def Valid (h : SliceHeap A) (s : Slice) : Prop := ∃ b, h.arrays[s.array]? = some b ∧ s.len ≤ b.cells.length

variable {h : SliceHeap A} {s t : Slice} {grown : Nat → Nat} {x : A}

theorem Valid.lt (valid : h.Valid s) : s.array < h.arrays.length := by
  obtain ⟨b, found, _⟩ := valid
  exact (List.getElem?_eq_some_iff.mp found).1

theorem Valid.length_content (valid : h.Valid s) : (h.content s).length = s.len := by
  obtain ⟨b, found, bound⟩ := valid
  simp [content, found, bound]

theorem content_eq {b : Backing A} (found : h.arrays[s.array]? = some b) : h.content s = b.cells.take s.len := by
  simp [content, found]

/-- Cutting to length zero. -/
theorem Valid.cut (valid : h.Valid s) : h.Valid ⟨s.array, 0⟩ := by
  obtain ⟨b, found, _⟩ := valid
  exact ⟨b, found, Nat.zero_le _⟩

theorem content_cut (h : SliceHeap A) (array : Nat) : h.content ⟨array, 0⟩ = [] := by
  unfold content
  split <;> rfl

/-! ### Appending -/

theorem append_valid (valid : h.Valid s) : (h.append grown s x).1.Valid (h.append grown s x).2 := by
  obtain ⟨b, found, bound⟩ := valid
  unfold append
  simp only [found]
  split
  · refine ⟨_, List.getElem?_set_self (List.getElem?_eq_some_iff.mp found).1, ?_⟩
    simp only [List.length_append, List.length_take, List.length_cons, List.length_drop]
    omega
  · refine ⟨_, List.getElem?_concat_length, ?_⟩
    simp only [List.length_append, List.length_take, List.length_singleton]
    omega

@[simp] theorem append_len (valid : h.Valid s) : (h.append grown s x).2.len = s.len + 1 := by
  obtain ⟨b, found, _⟩ := valid
  unfold append
  simp only [found]
  split <;> rfl

theorem content_append (valid : h.Valid s) :
    (h.append grown s x).1.content (h.append grown s x).2 = h.content s ++ [x] := by
  obtain ⟨b, found, bound⟩ := valid
  have first : (b.cells.take s.len ++ [x]).length = s.len + 1 := by simp [bound]
  rw [content_eq found]
  unfold append
  simp only [found]
  by_cases room : s.len < b.cap
  · simp only [room, if_true]
    have written := List.getElem?_set_self (a := { b with cells := b.cells.take s.len ++ x :: b.cells.drop (s.len + 1) })
      (List.getElem?_eq_some_iff.mp found).1
    rw [content_eq (s := ⟨s.array, s.len + 1⟩) written, List.append_cons]
    exact List.take_left' first
  · simp only [room, if_false]
    rw [content_eq (s := ⟨h.arrays.length, s.len + 1⟩) List.getElem?_concat_length]
    exact List.take_of_length_le (Nat.le_of_eq first)

/-- An append in place leaves the capacity alone. -/
theorem capacity_append (room : s.len < h.capacity s) :
    (h.append grown s x).1.capacity (h.append grown s x).2 = h.capacity s := by
  unfold capacity at room
  cases found : h.arrays[s.array]? with
  | none => simp [found] at room
  | some b =>
    simp only [found] at room
    have here := (List.getElem?_eq_some_iff.mp found).1
    simp [capacity, append, found, room, List.getElem?_set_self here]

/-- The slice stays in its array or gets the one that was allocated. -/
theorem append_array (grown : Nat → Nat) (h : SliceHeap A) (s : Slice) (x : A) :
    (h.append grown s x).2.array = s.array ∨ (h.append grown s x).2.array = h.arrays.length := by
  unfold append
  split
  · exact Or.inl rfl
  · split
    · exact Or.inl rfl
    · exact Or.inr rfl

/-- A slice of another array does not notice. -/
theorem getElem_append_of_ne (valid : h.Valid t) (apart : t.array ≠ s.array) :
    (h.append grown s x).1.arrays[t.array]? = h.arrays[t.array]? := by
  unfold append
  split
  · rfl
  · split
    · exact List.getElem?_set_ne (Ne.symm apart)
    · exact List.getElem?_append_left valid.lt

theorem Valid.append_of_ne (valid : h.Valid t) (apart : t.array ≠ s.array) : (h.append grown s x).1.Valid t := by
  obtain ⟨b, found, bound⟩ := id valid
  exact ⟨b, (getElem_append_of_ne valid apart).trans found, bound⟩

theorem content_append_of_ne (valid : h.Valid t) (apart : t.array ≠ s.array) :
    (h.append grown s x).1.content t = h.content t := by
  unfold content
  rw [getElem_append_of_ne valid apart]

theorem append_apart (valid : h.Valid t) (apart : t.array ≠ s.array) : t.array ≠ (h.append grown s x).2.array := by
  rcases append_array grown h s x with same | new
  · rw [same]
    exact apart
  · rw [new]
    exact Nat.ne_of_lt valid.lt

/-! ### Allocating -/

theorem make_valid (h : SliceHeap A) (cap : Nat) : (h.make cap).1.Valid (h.make cap).2 :=
  ⟨_, List.getElem?_concat_length, Nat.le_refl _⟩

theorem Valid.make (valid : h.Valid t) (cap : Nat) : (h.make cap).1.Valid t := by
  obtain ⟨b, found, bound⟩ := id valid
  exact ⟨b, (List.getElem?_append_left valid.lt).trans found, bound⟩

theorem content_make (valid : h.Valid t) (cap : Nat) : (h.make cap).1.content t = h.content t := by
  unfold content make
  rw [List.getElem?_append_left valid.lt]

end SliceHeap
end Cue.Lib
