import Mathlib.Logic.Basic

/-! Programs that take a lock, may fail in the middle and may put off a part to
their end. A program that waits for a lock nobody will release never returns.
The rules compute, for a condition on how a program ends, the condition on where
it starts under which it does end so. -/
namespace Cue.Lib

/-- What a lock guards, and whether it is taken. -/
structure Guarded (S : Type) where
  value : S
  locked : Bool
  deriving DecidableEq

/-- A program returns a value or an error, and what it leaves; `none` if it never returns. -/
def Critical (S E A : Type) : Type := Guarded S → Option (Except E A × Guarded S)

namespace Critical

variable {S E A B : Type}

def ret (value : A) : Critical S E A := fun g => some (.ok value, g)

def andThen (prog : Critical S E A) (next : A → Critical S E B) : Critical S E B := fun g =>
  match prog g with
  | none => none
  | some (.error err, g) => some (.error err, g)
  | some (.ok value, g) => next value g

instance : Monad (Critical S E) where
  pure := ret
  bind := andThen

def fail (err : E) : Critical S E A := fun g => some (.error err, g)

/-- Waits for ever if the lock is taken. -/
def lock : Critical S E Unit := fun g => if g.locked then none else some (.ok (), { g with locked := true })

/-- Releasing a lock that is free ends the process. -/
def unlock : Critical S E Unit := fun g => if g.locked then some (.ok (), { g with locked := false }) else none

def look : Critical S E S := fun g => some (.ok g.value, g)

def change (f : S → S) : Critical S E Unit := fun g => some (.ok (), { g with value := f g.value })

/-- `defer`: the last part is done however the body returns. -/
def deferred (last : Critical S E Unit) (body : Critical S E A) : Critical S E A := fun g =>
  match body g with
  | none => none
  | some (result, g) =>
    match last g with
    | none => none
    | some (_, g) => some (result, g)

/-- The program returns, and how it does satisfies a condition. -/
def Ends (prog : Critical S E A) (post : Except E A → Guarded S → Prop) (g : Guarded S) : Prop :=
  ∃ result after, prog g = some (result, after) ∧ post result after

section Rules

variable {post : Except E A → Guarded S → Prop} {g : Guarded S}

theorem ends_iff {prog : Critical S E A} {result : Except E A} {after : Guarded S}
    (ended : prog g = some (result, after)) : prog.Ends post g ↔ post result after := by
  constructor
  · rintro ⟨_, _, same, holds⟩
    rw [ended] at same
    cases same
    exact holds
  · exact fun holds => ⟨result, after, ended, holds⟩

theorem eq_of_ends {prog : Critical S E A} {result : Except E A} {after : Guarded S}
    (ended : prog.Ends (fun r g => r = result ∧ g = after) g) : prog g = some (result, after) := by
  obtain ⟨_, _, ran, rfl, rfl⟩ := ended
  exact ran

/-- A program that cannot return blocks. -/
theorem blocks_of_not_ends {prog : Critical S E A} (never : ¬ prog.Ends (fun _ _ => True) g) : prog g = none := by
  cases ran : prog g with
  | none => rfl
  | some pair => exact absurd ⟨pair.1, pair.2, ran, trivial⟩ never

@[simp] theorem ends_pure (value : A) : Ends (pure value : Critical S E A) post g ↔ post (.ok value) g := ends_iff rfl

@[simp] theorem ends_fail (err : E) : Ends (fail err : Critical S E A) post g ↔ post (.error err) g := ends_iff rfl

@[simp] theorem ends_bind (prog : Critical S E B) (next : B → Critical S E A) :
    Ends (prog >>= next) post g ↔ prog.Ends (fun result g =>
      match result with
      | .error err => post (.error err) g
      | .ok value => (next value).Ends post g) g := by
  cases ran : prog g with
  | none => simp [Ends, ran, show (prog >>= next) g = none by simp only [bind, andThen, ran]]
  | some pair =>
    obtain ⟨result, after⟩ := pair
    rw [ends_iff ran]
    cases result with
    | error err => exact ends_iff (by simp only [bind, andThen, ran])
    | ok value =>
      have same : (prog >>= next) g = next value after := by simp only [bind, andThen, ran]
      simp only [Ends, same]

@[simp] theorem ends_look {post : Except E S → Guarded S → Prop} :
    Ends look post g ↔ post (.ok g.value) g := ends_iff rfl

section Commands

variable {post : Except E Unit → Guarded S → Prop}

@[simp] theorem ends_lock : Ends lock post g ↔ g.locked = false ∧ post (.ok ()) { g with locked := true } := by
  cases held : g.locked with
  | true => simp [Ends, lock, held]
  | false =>
    have taken : (lock : Critical S E Unit) g = some (.ok (), { g with locked := true }) := if_neg (by simp [held])
    simp [ends_iff taken]

@[simp] theorem ends_unlock : Ends unlock post g ↔ g.locked = true ∧ post (.ok ()) { g with locked := false } := by
  cases held : g.locked with
  | false => simp [Ends, unlock, held]
  | true =>
    have released : (unlock : Critical S E Unit) g = some (.ok (), { g with locked := false }) := if_pos held
    simp [ends_iff released]

@[simp] theorem ends_change (f : S → S) :
    Ends (change f) post g ↔ post (.ok ()) { g with value := f g.value } := ends_iff rfl

end Commands

@[simp] theorem ends_deferred (last : Critical S E Unit) (body : Critical S E A) :
    Ends (deferred last body) post g ↔ body.Ends (fun result g => last.Ends (fun _ g => post result g) g) g := by
  cases ran : body g with
  | none => simp [Ends, ran, show deferred last body g = none by simp only [deferred, ran]]
  | some pair =>
    obtain ⟨result, middle⟩ := pair
    rw [ends_iff ran]
    cases finished : last middle with
    | none => simp [Ends, finished, show deferred last body g = none by simp only [deferred, ran, finished]]
    | some final =>
      obtain ⟨_, after⟩ := final
      rw [ends_iff finished]
      exact ends_iff (by simp only [deferred, ran, finished])

theorem ends_ite {c : Prop} [Decidable c] (first second : Critical S E A) :
    Ends (if c then first else second) post g ↔ if c then first.Ends post g else second.Ends post g := by
  split <;> rfl

end Rules
end Critical
end Cue.Lib
