import Mathlib.Data.List.Induction

/-! Runs of a system that takes one operation at a time. A run records the
operations in the order they were taken; what it admits next may depend on
that history and on the state the system is in. -/
namespace Cue.Lib

/-! ### Steps that may fail -/

section Fallible

variable {E A B : Type} {action : Except E A} {next : A → Except E B}

theorem bind_ok {result : B} (ok : (action >>= next) = .ok result) :
    ∃ value, action = .ok value ∧ next value = .ok result := by
  cases action with
  | error err => cases ok
  | ok value => exact ⟨value, rfl, ok⟩

theorem bind_error {err : E} (failed : (action >>= next) = .error err) :
    action = .error err ∨ ∃ value, action = .ok value ∧ next value = .error err := by
  cases action with
  | error first =>
    cases failed
    exact .inl rfl
  | ok value => exact .inr ⟨value, rfl, failed⟩

end Fallible

/-! ### Runs -/

/-- The runs of `step` from `first` in which every operation is admitted. -/
inductive Run {S I : Type} (step : S → I → S → Prop) (admits : List I → S → I → Prop)
    (first : S) : List I → S → Prop where
  | start : Run step admits first [] first
  | next {ops : List I} {s s' : S} {op : I} : Run step admits first ops s →
      admits ops s op → step s op s' → Run step admits first (ops ++ [op]) s'

namespace Run

variable {S I : Type} {step : S → I → S → Prop} {admits : List I → S → I → Prop} {first s : S}
  {ops : List I}

/-- What holds at the start and is kept by every admitted step holds of every
state a run reaches, together with the operations that led there. -/
theorem invariant (inv : List I → S → Prop) (base : inv [] first)
    (keep : ∀ ops s op s', inv ops s → admits ops s op → step s op s' → inv (ops ++ [op]) s')
    (run : Run step admits first ops s) : inv ops s := by
  induction run with
  | start => exact base
  | next _ admitted stepped ih => exact keep _ _ _ _ ih admitted stepped

/-- Executing a step function that only takes admitted steps is a run. -/
theorem of_execute {f : S → I → Option S}
    (sound : ∀ ops s op s', f s op = some s' → admits ops s op ∧ step s op s')
    (executed : ops.foldlM f first = some s) : Run step admits first ops s := by
  induction ops using List.reverseRecOn generalizing s with
  | nil =>
    cases executed
    exact .start
  | append_singleton ops op ih =>
    rw [List.foldlM_append] at executed
    obtain ⟨before, earlier, last⟩ := Option.bind_eq_some_iff.mp executed
    obtain ⟨after, taken, nothing⟩ := Option.bind_eq_some_iff.mp last
    cases nothing
    obtain ⟨admitted, stepped⟩ := sound ops before op s taken
    exact .next (ih earlier) admitted stepped

/-- Executing a step function that checks first whether the operation is admitted. -/
theorem of_guarded {guard : S → I → Prop} [∀ s op, Decidable (guard s op)] {f : S → I → Option S}
    (executed : ops.foldlM (fun s op => if guard s op then f s op else none) first = some s) :
    Run (fun s op s' => f s op = some s') (fun _ => guard) first ops s := by
  refine of_execute ?_ executed
  intro _ s op s' taken
  split at taken
  · exact ⟨‹_›, taken⟩
  · cases taken

end Run
end Cue.Lib
