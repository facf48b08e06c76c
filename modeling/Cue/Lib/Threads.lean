import Cue.Lib.Run
import Mathlib.Logic.Function.Basic

/-! Threads that share a state. A step is one atomic section of one thread: it
sees the shared state and where that thread stands, and no other thread. -/
namespace Cue.Lib

/-- What is shared, and where each thread stands. -/
structure Threads (T S L : Type) where
  shared : S
  locals : T → L

namespace Threads

variable {T S L I : Type} [DecidableEq T]

/-- One section of the thread that is named in the operation. -/
def step (act : S → L → I → Option (S × L)) (threads : Threads T S L) (op : T × I) : Option (Threads T S L) :=
  match act threads.shared (threads.locals op.1) op.2 with
  | none => none
  | some (shared, local') => some ⟨shared, Function.update threads.locals op.1 local'⟩

theorem step_eq_some {act : S → L → I → Option (S × L)} {threads threads' : Threads T S L} {op : T × I} :
    threads.step act op = some threads' ↔ ∃ shared local', act threads.shared (threads.locals op.1) op.2 =
      some (shared, local') ∧ threads' = ⟨shared, Function.update threads.locals op.1 local'⟩ := by
  unfold step
  constructor
  · intro stepped
    split at stepped
    · cases stepped
    · rename_i shared local' acted
      cases stepped
      exact ⟨shared, local', acted, rfl⟩
  · rintro ⟨shared, local', acted, rfl⟩
    rw [acted]

/-- A thread at such a place is still there after a step that keeps the place. -/
theorem exists_update {locals : T → L} {holds : L → Prop} {t : T} {place : L} (kept : holds (locals t) → holds place)
    (somewhere : ∃ u, holds (locals u)) : ∃ u, holds (Function.update locals t place u) := by
  obtain ⟨u, there⟩ := somewhere
  by_cases here : u = t
  · subst here
    exact ⟨u, by simpa using kept there⟩
  · exact ⟨u, by rwa [Function.update_of_ne here]⟩

end Threads

/-! ### Mutual exclusion -/

section Alone

variable {T L : Type} {inside : L → Prop} {locals : T → L} {t : T} {place : L}

/-- At most one thread is inside. -/
def Alone (inside : L → Prop) (locals : T → L) : Prop :=
  ∀ t u, inside (locals t) → inside (locals u) → t = u

/-- While a thread is inside, no other one is. -/
theorem Alone.others (alone : Alone inside locals) (here : inside (locals t)) {u : T} (other : u ≠ t) :
    ¬ inside (locals u) := fun there => other (alone u t there here)

variable [DecidableEq T]

/-- A thread that goes on to a place outside. -/
theorem Alone.leave (alone : Alone inside locals) (left : ¬ inside place) :
    Alone inside (Function.update locals t place) := by
  intro u v first second
  by_cases here : u = t
  · subst here
    rw [Function.update_self] at first
    exact absurd first left
  · by_cases there : v = t
    · subst there
      rw [Function.update_self] at second
      exact absurd second left
    · rw [Function.update_of_ne here] at first
      rw [Function.update_of_ne there] at second
      exact alone u v first second

/-- A thread may come or stay inside when no other one is. -/
theorem Alone.occupy (others : ∀ u, u ≠ t → ¬ inside (locals u)) :
    Alone inside (Function.update locals t place) := by
  intro u v first second
  by_cases here : u = t
  · by_cases there : v = t
    · rw [here, there]
    · rw [Function.update_of_ne there] at second
      exact absurd second (others v there)
  · rw [Function.update_of_ne here] at first
    exact absurd first (others u here)

end Alone
end Cue.Lib
