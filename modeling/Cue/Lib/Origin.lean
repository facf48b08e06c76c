import Cue.Lib.Run

/-! Where a value that a state shows has come from. A value that appears only by
an operation that puts it there, and that no longer shows once an operation
touches it, was put there by an operation behind which none has touched it. -/
namespace Cue.Lib.Run

variable {S I V : Type} {step : S → I → S → Prop} {admits : List I → S → I → Prop} {first s : S} {ops : List I}

/-- `keep` is about one step of the run; what holds along the run may be used for it. -/
theorem origin (value : S → Option V) (puts touches : I → V → Prop) (empty : value first = none)
    (keep : ∀ ops s op s' v, Run step admits first ops s → admits ops s op → step s op s' → value s' = some v →
      puts op v ∨ value s = some v ∧ ¬touches op v)
    (run : Run step admits first ops s) {v : V} (shown : value s = some v) :
    ∃ before op after, ops = before ++ op :: after ∧ puts op v ∧ ∀ later ∈ after, ¬touches later v := by
  induction run with
  | start =>
    rw [empty] at shown
    cases shown
  | @next ops s s' op run admitted stepped ih =>
    rcases keep ops s op s' v run admitted stepped shown with put | ⟨earlier, untouched⟩
    · exact ⟨ops, op, [], rfl, put, by simp⟩
    · obtain ⟨before, origin, after, rfl, put, quiet⟩ := ih earlier
      refine ⟨before, origin, after ++ [op], by simp, put, fun later member => ?_⟩
      rcases List.mem_append.mp member with old | last
      · exact quiet later old
      · rw [List.mem_singleton.mp last]
        exact untouched

end Cue.Lib.Run
