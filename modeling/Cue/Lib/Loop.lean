import Mathlib.Data.Finset.Card
import Mathlib.Data.Finset.Filter
import Mathlib.Logic.Relation
import Mathlib.Order.Basic

/-! Loops whose step either stops or gives the next state. If only finitely many
states go on, a loop runs for ever exactly when it comes back to a state. -/
namespace Cue.Lib

variable {σ : Type*} (next : σ → Option σ)

/-- One turn of the loop. -/
def Turn (s t : σ) : Prop := next s = some t

/-- The loop comes to a state that it comes back to. -/
def Returns (s : σ) : Prop :=
  ∃ t, Relation.ReflTransGen (Turn next) s t ∧ Relation.TransGen (Turn next) t t

/-- The loop is over after fewer than the given number of turns. -/
def stopsWithin : Nat → σ → Bool
  | 0, _ => false
  | fuel + 1, s =>
    match next s with
    | none => true
    | some t => stopsWithin fuel t

variable {next}

theorem stopsWithin_stop {fuel : Nat} {s : σ} (stop : next s = none) : stopsWithin next (fuel + 1) s = true := by
  simp only [stopsWithin, stop]

theorem stopsWithin_turn {fuel : Nat} {s t : σ} (turn : next s = some t) :
    stopsWithin next (fuel + 1) s = stopsWithin next fuel t := by
  simp only [stopsWithin, turn]

theorem Returns.of_turn {s t : σ} (turn : next s = some t) (returns : Returns next t) : Returns next s := by
  obtain ⟨state, reached, cycle⟩ := returns
  exact ⟨state, .head turn reached, cycle⟩

theorem Returns.turn {s : σ} (returns : Returns next s) : ∃ t, next s = some t ∧ Returns next t := by
  obtain ⟨state, reached, cycle⟩ := returns
  rcases Relation.ReflTransGen.cases_head reached with rfl | ⟨t, turn, rest⟩
  · obtain ⟨t, turn, rest⟩ := Relation.TransGen.head'_iff.mp cycle
    exact ⟨t, turn, s, rest, cycle⟩
  · exact ⟨t, turn, state, rest, cycle⟩

theorem Returns.not_stopsWithin {s : σ} (returns : Returns next s) (fuel : Nat) :
    stopsWithin next fuel s = false := by
  induction fuel generalizing s with
  | zero => rfl
  | succ fuel ih =>
    obtain ⟨t, turn, again⟩ := returns.turn
    rw [stopsWithin_turn turn]
    exact ih again

/-- A loop stops unless it comes back: every turn uses up one of the states that go on. -/
theorem stopsWithin_iff {running : Finset σ} (finite : ∀ s t, next s = some t → s ∈ running) {fuel : Nat}
    (enough : running.card < fuel) {s : σ} : stopsWithin next fuel s = true ↔ ¬ Returns next s := by
  classical
  refine ⟨fun stops returns => ?_, fun forward => ?_⟩
  · rw [returns.not_stopsWithin] at stops
    cases stops
  have few : (running.filter (Relation.ReflTransGen (Turn next) s)).card < fuel :=
    Nat.lt_of_le_of_lt (Finset.card_filter_le _ _) enough
  clear enough
  induction fuel generalizing s with
  | zero => exact absurd few (Nat.not_lt_zero _)
  | succ fuel ih =>
    cases turn : next s with
    | none => exact stopsWithin_stop turn
    | some t =>
      rw [stopsWithin_turn turn]
      refine ih (fun returns => forward (returns.of_turn turn)) ?_
      -- what `t` reaches, `s` reaches; but `t` does not come back to `s`
      have fewer : running.filter (Relation.ReflTransGen (Turn next) t) ⊂
          running.filter (Relation.ReflTransGen (Turn next) s) := by
        refine Finset.ssubset_iff_of_subset (fun state member => ?_) |>.mpr
          ⟨s, Finset.mem_filter.mpr ⟨finite s t turn, .refl⟩, fun member => ?_⟩
        · obtain ⟨inside, reached⟩ := Finset.mem_filter.mp member
          exact Finset.mem_filter.mpr ⟨inside, .head turn reached⟩
        · exact forward ⟨s, .refl, Relation.TransGen.head' turn (Finset.mem_filter.mp member).2⟩
      have smaller := Finset.card_lt_card fewer
      omega

/-- A loop whose turns all go up does not come back. -/
theorem not_returns_of_increasing [Preorder σ] {s : σ}
    (increasing : ∀ t u, Relation.ReflTransGen (Turn next) s t → next t = some u → t < u) : ¬ Returns next s := by
  rintro ⟨state, reached, cycle⟩
  have up : ∀ {t}, Relation.TransGen (Turn next) state t → state < t := by
    intro t path
    induction path with
    | single turn => exact increasing _ _ reached turn
    | tail path turn ih => exact ih.trans (increasing _ _ (reached.trans path.to_reflTransGen) turn)
  exact lt_irrefl state (up cycle)

end Cue.Lib
