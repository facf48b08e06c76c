import Cue.Lib.Dealing
import Cue.Lib.Rows
import Cue.Lib.Run

/-! A function that starts a goroutine for each of its items and collects what they
send on a channel. A wait group counts the goroutines, one more closes the channel when
none is left, and the function returns then or, if it has a timeout, before. -/
namespace Cue.Lib

/-- Where a goroutine for an item stands. -/
inductive Worker (A R : Type) where
  | working (item : A)
  | sending (item : A) (result : R)
  /-- the result is on the channel; what is left is to leave the wait group -/
  | leaving (item : A) (result : R)
  | gone (item : A) (result : R)

inductive Collector where
  | starting
  | collecting
  /-- by the end of the channel, or by the timeout -/
  | returned (complete : Bool)
deriving DecidableEq, Repr

structure FanOut (A R : Type) where
  items : List A
  workers : List (Worker A R)
  waitGroup : Nat
  channel : List (A × R)
  capacity : Nat
  closed : Bool
  collector : Collector
  collected : List (A × R)
  /-- something was sent on the channel after it was closed -/
  panicked : Bool

namespace FanOut

inductive Op (R : Type) where
  | start
  | work (i : Nat) (result : R)
  | send (i : Nat)
  | leave (i : Nat)
  | close
  | collect
  | timeout

variable {A R : Type}

def new (items : List A) (capacity : Nat) : FanOut A R := ⟨items, [], 0, [], capacity, false, .starting, [], false⟩

def step (s : FanOut A R) : Op R → Option (FanOut A R)
  | .start =>
    match s.collector, s.items with
    | .starting, item :: items =>
      some { s with items, workers := s.workers ++ [.working item], waitGroup := s.waitGroup + 1 }
    | .starting, [] => some { s with collector := .collecting }
    | _, _ => none
  | .work i result =>
    match s.workers[i]? with
    | some (.working item) => some { s with workers := s.workers.set i (.sending item result) }
    | _ => none
  | .send i =>
    match s.workers[i]? with
    | some (.sending item result) =>
      if s.closed then some { s with panicked := true }
      else if s.channel.length < s.capacity then
        some { s with workers := s.workers.set i (.leaving item result), channel := s.channel ++ [(item, result)] }
      else none
    | _ => none
  | .leave i =>
    match s.workers[i]? with
    | some (.leaving item result) =>
      some { s with workers := s.workers.set i (.gone item result), waitGroup := s.waitGroup - 1 }
    | _ => none
  | .close =>
    -- the goroutine that closes begins when all others have begun
    if s.collector ≠ .starting ∧ s.waitGroup = 0 ∧ s.closed = false then some { s with closed := true } else none
  | .collect =>
    match s.collector, s.channel with
    | .collecting, result :: channel => some { s with channel, collected := s.collected ++ [result] }
    | .collecting, [] => if s.closed then some { s with collector := .returned true } else none
    | _, _ => none
  | .timeout => if s.collector = .collecting then some { s with collector := .returned false } else none

end FanOut

namespace Worker

variable {A R : Type}

def item : Worker A R → A
  | .working item | .sending item _ | .leaving item _ | .gone item _ => item

def sent : Worker A R → List (A × R)
  | .leaving item result | .gone item result => [(item, result)]
  | .working _ | .sending _ _ => []

/-- One as long as the goroutine is in the wait group. -/
def present : Worker A R → Nat
  | .gone _ _ => 0
  | _ => 1

/-- The steps it has to take, with the one that takes its result off the channel. -/
def effort : Worker A R → Nat
  | .working _ => 4
  | .sending _ _ => 3
  | .leaving _ _ => 1
  | .gone _ _ => 0

end Worker

namespace FanOut

variable {A R : Type} {s s' : FanOut A R} {op : Op R} {ops : List (Op R)} {items : List A} {capacity : Nat}

/-- What every step keeps. -/
structure Sound (items : List A) (capacity : Nat) (s : FanOut A R) : Prop where
  all : s.workers.map Worker.item ++ s.items = items
  room : s.capacity = capacity
  counted : s.waitGroup = (s.workers.map Worker.present).sum
  accounted : (s.workers.map Worker.sent).flatten.Perm (s.collected ++ s.channel)
  begun : s.collector ≠ .starting → s.items = []
  closing : s.closed = true → s.collector ≠ .starting ∧ s.waitGroup = 0
  complete : s.collector = .returned true → s.closed = true ∧ s.channel = []
  calm : s.panicked = false

/-- How many steps are left at most. -/
def effort (s : FanOut A R) : Nat :=
  5 * s.items.length + (s.workers.map Worker.effort).sum + s.channel.length + (if s.closed then 0 else 1) +
    match s.collector with
    | .starting => 2
    | .collecting => 1
    | .returned _ => 0

theorem sent_sublist (workers : List (Worker A R)) :
    ((workers.map Worker.sent).flatten.map Prod.fst).Sublist (workers.map Worker.item) := by
  induction workers with
  | nil => exact .refl _
  | cons w workers ih =>
    cases w with
    | working | sending => exact ih.cons _
    | leaving | gone => exact ih.cons_cons _

theorem sent_set {i : Nat} {item : A} {result : R} {workers : List (Worker A R)}
    (found : workers[i]? = some (.sending item result)) :
    ((workers.set i (.leaving item result)).map Worker.sent).flatten.Perm
      ((workers.map Worker.sent).flatten ++ [(item, result)]) := by
  have position : (workers.map Worker.sent)[i]? = some [] := by simp [found, Worker.sent]
  simpa [List.map_set, Worker.sent] using flatten_set_append position (item, result)

/-- A goroutine goes on and sends nothing. -/
theorem Sound.goOn {i : Nat} {w w' : Worker A R} (sound : s.Sound items capacity) (found : s.workers[i]? = some w)
    (item : w'.item = w.item) (sent : w'.sent = w.sent) (less : w'.effort < w.effort) (there : w'.present ≤ w.present) :
    let after := { s with workers := s.workers.set i w', waitGroup := s.waitGroup - (w.present - w'.present) }
    after.Sound items capacity ∧ after.effort < s.effort := by
  have present := sum_set Worker.present found w'
  have left := sum_set Worker.effort found w'
  have counted := sound.counted
  refine ⟨⟨?_, sound.room, by simp only; omega, ?_, sound.begun, fun yes => ⟨(sound.closing yes).1, ?_⟩, sound.complete,
    sound.calm⟩, by simp only [effort]; omega⟩
  · rw [map_set_same found item]
    exact sound.all
  · rw [map_set_same found sent]
    exact sound.accounted
  · simp [(sound.closing yes).2]

/-- The channel is open as long as a goroutine is in the wait group. -/
theorem Sound.send {i : Nat} (sound : s.Sound items capacity) (stepped : s.step (.send i) = some s') :
    s'.Sound items capacity ∧ s'.effort < s.effort := by
  have ⟨all, room, counted, accounted, begun, closing, complete, calm⟩ := sound
  simp only [FanOut.step] at stepped
  split at stepped
  · rename_i item result found
    have present := sum_set Worker.present found (.leaving item result)
    have left := sum_set Worker.present found (.gone item result)
    have less := sum_set Worker.effort found (.leaving item result)
    simp only [Worker.present, Worker.effort] at present left less
    split at stepped
    · have empty := (closing ‹_›).2
      omega
    · rename_i opened
      obtain ⟨-, stepped⟩ := Option.ite_none_right_eq_some.mp stepped
      cases stepped
      refine ⟨⟨?_, room, by simp only; omega, ?_, begun, closing, fun ended => absurd (complete ended).1 opened, calm⟩,
        by simp only [effort, List.length_append, List.length_singleton]; omega⟩
      · rw [map_set_same found (by rfl)]
        exact all
      · rw [← List.append_assoc]
        exact (sent_set found).trans (accounted.append_right _)
  · cases stepped

theorem Sound.step (sound : s.Sound items capacity) (stepped : s.step op = some s') :
    s'.Sound items capacity ∧ s'.effort < s.effort := by
  have ⟨all, room, counted, accounted, begun, closing, complete, calm⟩ := sound
  cases op with
  | start =>
    simp only [FanOut.step] at stepped
    split at stepped
    · rename_i item rest starting here
      cases stepped
      refine ⟨⟨by simpa [Worker.item, here] using all, room, by simp [counted, Worker.present],
        by simpa [Worker.sent] using accounted, fun other => absurd starting other,
        fun yes => absurd starting (closing yes).1, fun ended => (by simp [starting] at ended), calm⟩, ?_⟩
      simp only [effort, here, List.map_append, List.sum_append, List.map_singleton, List.sum_singleton, Worker.effort,
        List.length_cons]
      omega
    · rename_i starting here
      cases stepped
      refine ⟨⟨all, room, counted, accounted, fun _ => here, fun yes => absurd starting (closing yes).1,
        by simp, calm⟩, ?_⟩
      simp only [effort, starting]
      omega
    · cases stepped
  | work i result =>
    simp only [FanOut.step] at stepped
    split at stepped
    · rename_i item found
      cases stepped
      exact sound.goOn found rfl rfl (Nat.lt_succ_self 3) (Nat.le_refl 1)
    · cases stepped
  | send i => exact sound.send stepped
  | leave i =>
    simp only [FanOut.step] at stepped
    split at stepped
    · rename_i item result found
      cases stepped
      exact sound.goOn found rfl rfl Nat.one_pos (Nat.zero_le 1)
    · cases stepped
  | close =>
    obtain ⟨⟨started, empty, opened⟩, stepped⟩ := Option.ite_none_right_eq_some.mp stepped
    cases stepped
    refine ⟨⟨all, room, counted, accounted, begun, fun _ => ⟨started, empty⟩,
      fun ended => ⟨rfl, (complete ended).2⟩, calm⟩, ?_⟩
    simp only [effort, opened, if_true, Bool.false_eq_true, if_false]
    omega
  | collect =>
    simp only [FanOut.step] at stepped
    split at stepped
    · rename_i result rest collecting here
      cases stepped
      refine ⟨⟨all, room, counted, by simpa [here] using accounted, begun, closing, fun ended => ?_, calm⟩, ?_⟩
      · rw [show s.collector = .returned true from ended] at collecting
        cases collecting
      · simp only [effort, here, List.length_cons]
        omega
    · rename_i collecting here
      obtain ⟨closed, stepped⟩ := Option.ite_none_right_eq_some.mp stepped
      cases stepped
      refine ⟨⟨all, room, counted, accounted, fun _ => begun (by simp [collecting]),
        fun yes => ⟨by simp, (closing yes).2⟩,
        fun _ => ⟨closed, here⟩, calm⟩, ?_⟩
      simp only [effort, collecting]
      omega
    · cases stepped
  | timeout =>
    obtain ⟨collecting, stepped⟩ := Option.ite_none_right_eq_some.mp stepped
    cases stepped
    refine ⟨⟨all, room, counted, accounted, fun _ => begun (by simp [collecting]), fun yes => ⟨by simp, (closing yes).2⟩,
      by simp, calm⟩, ?_⟩
    simp only [effort, collecting]
    omega

/-- A channel for as many results as there are items has room for every one of them. -/
theorem Sound.has_room {i : Nat} {item : A} {result : R} (sound : s.Sound items capacity)
    (fits : items.length ≤ capacity)
    (found : s.workers[i]? = some (.sending item result)) : s.channel.length < s.capacity := by
  have more := (sent_set found).length_eq
  have most := (sent_sublist (s.workers.set i (.leaving item result))).length_le
  have sent := sound.accounted.length_eq
  have begun := congrArg List.length sound.all
  have room := sound.room
  simp only [List.length_append, List.length_map, List.length_set, List.length_singleton] at more most sent begun
  omega

/-- Nothing is left to do: the function has returned and no goroutine is there any more. -/
structure Finished (s : FanOut A R) : Prop where
  returned : ∃ complete, s.collector = .returned complete
  closed : s.closed = true
  gone : ∀ w ∈ s.workers, w.present = 0

/-- As long as something is left to do, some step can be taken. -/
theorem Sound.progress (sound : s.Sound items capacity) (fits : items.length ≤ capacity) (result : R)
    (stuck : ∀ op, s.step op = none) : s.Finished := by
  have started : s.collector ≠ .starting := by
    intro starting
    have none := stuck .start
    cases left : s.items <;> simp [FanOut.step, starting, left] at none
  have gone : ∀ w ∈ s.workers, w.present = 0 := by
    intro w there
    obtain ⟨i, found⟩ := List.mem_iff_getElem?.mp there
    cases w with
    | working item => simpa [FanOut.step, found] using stuck (.work i result)
    | sending item result =>
      have none := stuck (.send i)
      simp only [FanOut.step, found, sound.has_room fits found, if_true] at none
      split at none <;> cases none
    | leaving item result => simpa [FanOut.step, found] using stuck (.leave i)
    | gone item result => rfl
  have empty : s.waitGroup = 0 := by
    rw [sound.counted, List.sum_eq_zero]
    simpa using gone
  have closed : s.closed = true := by
    by_contra opened
    simpa [FanOut.step, started, empty, opened] using stuck .close
  refine ⟨?_, closed, gone⟩
  cases place : s.collector with
  | starting => exact absurd place started
  | collecting =>
    have none := stuck .collect
    cases held : s.channel <;> simp [FanOut.step, place, held, closed] at none
  | returned complete => exact ⟨complete, rfl⟩

def Runs (first : FanOut A R) : List (Op R) → FanOut A R → Prop :=
  Run (fun s op s' => s.step op = some s') (fun _ _ _ => True) first

theorem runs_sound (run : Runs (new items capacity) ops s) :
    s.Sound items capacity ∧ ops.length + s.effort ≤ 5 * items.length + 3 := by
  induction run with
  | start =>
    exact ⟨⟨rfl, rfl, rfl, .nil, absurd rfl, by simp [new], by simp [new], rfl⟩, by simp [new, effort]⟩
  | next _ _ stepped ih =>
    obtain ⟨sound, less⟩ := ih.1.step stepped
    exact ⟨sound, by simp only [List.length_append, List.length_singleton]; omega⟩

theorem Worker.sent_eq {w : Worker A R} {x : A × R} (member : x ∈ w.sent) : w.item = x.1 ∧ w.sent = [x] := by
  cases w with
  | working | sending => cases member
  | leaving | gone =>
    cases List.mem_singleton.mp member
    exact ⟨rfl, rfl⟩

theorem Sound.collected_sent {x : A × R} (sound : s.Sound items capacity) (there : x ∈ s.collected) :
    x.1 ∈ items ∧ ∃ w ∈ s.workers, w.sent = [x] := by
  obtain ⟨sent, found, member⟩ := List.mem_flatten.mp (sound.accounted.mem_iff.mpr (List.mem_append_left _ there))
  obtain ⟨w, mine, rfl⟩ := List.mem_map.mp found
  obtain ⟨item, all⟩ := Worker.sent_eq member
  exact ⟨sound.all ▸ List.mem_append_left _ (List.mem_map.mpr ⟨w, mine, item⟩), w, mine, all⟩

/-- With the end of the channel, all of it was collected. -/
theorem Sound.all_collected {item : A} (sound : s.Sound items capacity) (ended : s.collector = .returned true)
    (there : item ∈ items) : ∃ result, .gone item result ∈ s.workers ∧ (item, result) ∈ s.collected := by
  obtain ⟨closed, drained⟩ := sound.complete ended
  obtain ⟨started, empty⟩ := sound.closing closed
  rw [← sound.all, sound.begun started, List.append_nil] at there
  obtain ⟨w, mine, rfl⟩ := List.mem_map.mp there
  have gone := List.sum_eq_zero_iff_forall_eq_nat.mp (sound.counted.symm.trans empty) _ (List.mem_map_of_mem mine)
  have sent {x} (member : x ∈ w.sent) : x ∈ s.collected := by
    simpa [drained] using sound.accounted.mem_iff.mp (List.mem_flatten.mpr ⟨_, List.mem_map_of_mem mine, member⟩)
  cases w with
  | working | sending | leaving => cases gone
  | gone item result => exact ⟨result, mine, sent List.mem_cons_self⟩

/-- What is collected is about different items if they are different. -/
theorem Sound.nodup (sound : s.Sound items capacity) (distinct : items.Nodup) : (s.collected.map Prod.fst).Nodup := by
  have all : (s.workers.map Worker.item).Nodup := distinct.sublist (sound.all ▸ List.sublist_append_left _ _)
  have sent := (sound.accounted.map Prod.fst).nodup_iff.mp (all.sublist (sent_sublist s.workers))
  exact sent.sublist ((List.sublist_append_left _ _).map _)

end FanOut
end Cue.Lib
