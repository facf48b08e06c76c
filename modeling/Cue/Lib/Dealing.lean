import Mathlib.Data.List.Basic
import Mathlib.Data.List.Perm.Basic

/-! A queue that several takers share. Each of them takes the head; which one
comes next is open. -/
namespace Cue.Lib

variable {M : Type} {offered queue : List M} {received : List (List M)}

/-- What was put on the queue, what waits on it, and what each taker has taken,
in the order it took it. -/
inductive Dealing : List M → List M → List (List M) → Prop where
  | start : Dealing [] [] []
  | offer {offered queue : List M} {received : List (List M)} (m : M) :
      Dealing offered queue received → Dealing (offered ++ [m]) (queue ++ [m]) received
  | join {offered queue : List M} {received : List (List M)} :
      Dealing offered queue received → Dealing offered queue (received ++ [[]])
  | take {offered queue : List M} {received : List (List M)} {m : M} {taker : Nat} {got : List M} :
      Dealing offered (m :: queue) received → received[taker]? = some got →
      Dealing offered queue (received.set taker (got ++ [m]))

/-- One more element for one of the lists is one more element of their concatenation. -/
theorem flatten_set_append {lists : List (List M)} {position : Nat} {list : List M}
    (here : lists[position]? = some list) (m : M) :
    (lists.set position (list ++ [m])).flatten.Perm (lists.flatten ++ [m]) := by
  induction lists generalizing position with
  | nil => cases here
  | cons first rest ih =>
    cases position with
    | zero =>
      cases here
      simp only [List.set_cons_zero, List.flatten_cons, List.append_assoc]
      exact List.perm_append_comm.append_left _
    | succ position =>
      simp only [List.set_cons_succ, List.flatten_cons, List.append_assoc]
      exact (ih here).append_left _

namespace Dealing

/-- Nothing is lost on the queue and nothing is taken twice. -/
theorem perm (dealing : Dealing offered queue received) : (received.flatten ++ queue).Perm offered := by
  induction dealing with
  | start => exact .nil
  | offer m _ ih =>
    rw [← List.append_assoc]
    exact ih.append_right _
  | join _ ih => simpa using ih
  | @take offered queue received m taker got _ here ih =>
    calc List.Perm _ (received.flatten ++ [m] ++ queue) := (flatten_set_append here m).append_right queue
      _ = received.flatten ++ m :: queue := by simp
      List.Perm _ offered := ih

/-- What was taken so far stood in front of what waits, and every taker has a
part of it, in order. -/
theorem taken (dealing : Dealing offered queue received) :
    ∃ gone, offered = gone ++ queue ∧ ∀ got ∈ received, got.Sublist gone := by
  induction dealing with
  | start => exact ⟨[], rfl, by simp⟩
  | offer m _ ih =>
    obtain ⟨gone, rfl, parts⟩ := ih
    exact ⟨gone, by simp, parts⟩
  | join _ ih =>
    obtain ⟨gone, rfl, parts⟩ := ih
    refine ⟨gone, rfl, fun got member => ?_⟩
    rcases List.mem_append.mp member with old | new
    · exact parts got old
    · rw [List.mem_singleton.mp new]
      exact List.nil_sublist gone
  | @take offered queue received m taker got _ here ih =>
    obtain ⟨gone, rfl, parts⟩ := ih
    refine ⟨gone ++ [m], by simp, fun list member => ?_⟩
    rcases List.mem_or_eq_of_mem_set member with old | rfl
    · exact (parts list old).trans (List.sublist_append_left gone [m])
    · exact (parts got (List.mem_of_getElem? here)).append (List.Sublist.refl [m])

/-- Every taker takes in the order in which the messages were put. -/
theorem in_order (dealing : Dealing offered queue received) {got : List M} (member : got ∈ received) :
    got.Sublist offered := by
  obtain ⟨gone, rfl, parts⟩ := dealing.taken
  exact (parts got member).trans (List.sublist_append_left gone queue)

end Dealing
end Cue.Lib
