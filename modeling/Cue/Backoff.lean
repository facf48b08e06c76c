import Cue.Cluster.Readiness

/-! How long a node sleeps between its attempts to reach the cluster. The
exponential is taken modulo `2^64` before it is capped. What wraps around has
lost all but its high bits, so it is above the cap or zero; at zero there is no
room for the jitter and the node panics. That happens as soon as the factors of
two in the initial backoff and the doublings are 64 together. -/
namespace Cue.Cluster

/-- The wait before the cap, without wrap-around. -/
def exponential (attempt initialMs : Nat) : Nat := initialMs * 2 ^ (attempt - 1)

variable {attempt initialMs : Nat}

/-- What wraps around and is not zero is above the cap. -/
theorem capped_exponential (high : initialMs ≤ 5000) (rest : ¬ 2 ^ 64 ∣ exponential attempt initialMs) :
    (if exponential attempt initialMs % 2 ^ 64 > 5000 then 5000 else exponential attempt initialMs % 2 ^ 64) =
      min (exponential attempt initialMs) 5000 := by
  by_cases fits : exponential attempt initialMs < 2 ^ 64
  · rw [Nat.mod_eq_of_lt fits]
    split <;> omega
  · have doublings : 52 ≤ attempt - 1 := by
      refine Nat.le_of_not_lt fun few => ?_
      have power : 2 ^ (attempt - 1) ≤ 2 ^ 51 := Nat.pow_le_pow_right (by omega) (by omega)
      have product := Nat.mul_le_mul high power
      unfold exponential at fits
      omega
    have factor : 2 ^ 52 ∣ exponential attempt initialMs % 2 ^ 64 := by
      rw [Nat.dvd_mod_iff (Nat.pow_dvd_pow 2 (by omega))]
      exact Nat.dvd_mul_left_of_dvd (Nat.pow_dvd_pow 2 doublings) initialMs
    have positive : 0 < exponential attempt initialMs % 2 ^ 64 :=
      Nat.pos_of_ne_zero fun zero => rest (Nat.dvd_of_mod_eq_zero zero)
    have large := Nat.le_of_dvd positive factor
    split <;> omega

theorem backoffDuration_ok (first : 1 ≤ attempt) (low : 4 ≤ initialMs) (high : initialMs ≤ 5000)
    (rest : ¬ 2 ^ 64 ∣ exponential attempt initialMs) (draw : Nat) :
    ∃ ms, backoffDuration draw attempt initialMs = .ok ms ∧ min (exponential attempt initialMs) 5000 ≤ ms ∧
      ms < 6250 := by
  have power : 0 < 2 ^ (attempt - 1) := Nat.two_pow_pos _
  have least : 4 ≤ exponential attempt initialMs := Nat.le_trans low (Nat.le_mul_of_pos_right _ power)
  unfold backoffDuration
  rw [if_neg (by omega)]
  dsimp only
  rw [show initialMs * 2 ^ (attempt - 1) = exponential attempt initialMs from rfl, capped_exponential high rest]
  have room : ¬ ((min (exponential attempt initialMs) 5000 / 4 : Nat) : Int) ≤ 0 := by omega
  have jitter : draw % (min (exponential attempt initialMs) 5000 / 4) < min (exponential attempt initialMs) 5000 / 4 :=
    Nat.mod_lt _ (by omega)
  rw [int63n, if_neg room, Int.toNat_natCast]
  exact ⟨_, rfl, by omega, by omega⟩

theorem backoffDuration_panics (first : 1 ≤ attempt) (lost : 2 ^ 64 ∣ exponential attempt initialMs) (draw : Nat) :
    backoffDuration draw attempt initialMs = .error "invalid argument to Int63n" := by
  have zero : initialMs * 2 ^ (attempt - 1) % 2 ^ 64 = 0 := Nat.mod_eq_zero_of_dvd lost
  unfold backoffDuration
  rw [if_neg (by omega), zero]
  rfl

/-- Fewer doublings lose no more. -/
theorem exponential_earlier {earlier : Nat} (before : earlier ≤ attempt)
    (rest : ¬ 2 ^ 64 ∣ exponential attempt initialMs) : ¬ 2 ^ 64 ∣ exponential earlier initialMs := by
  intro lost
  exact rest (Nat.dvd_trans lost (Nat.mul_dvd_mul_left _ (Nat.pow_dvd_pow 2 (by omega))))

/-- A loop that waits in vain sleeps behind every attempt that is left. -/
theorem waitLoop_exhausts {ready cancelled : Nat → Bool} (draws : Nat → Nat) (low : 4 ≤ initialMs)
    (high : initialMs ≤ 5000) {left first : Nat} (positive : 1 ≤ first)
    (rest : ∀ attempt, attempt < first + left → ¬ 2 ^ 64 ∣ exponential attempt initialMs)
    (vain : ∀ attempt, first ≤ attempt → attempt < first + left → ready attempt = false ∧ cancelled attempt = false) :
    ∃ sleeps, waitLoop ready cancelled draws initialMs left first = (sleeps, .unavailable) ∧ sleeps.length = left ∧
      ∀ ms ∈ sleeps, ms < 6250 := by
  induction left generalizing first with
  | zero => exact ⟨[], rfl, rfl, by simp⟩
  | succ left ih =>
    obtain ⟨waiting, running⟩ := vain first (Nat.le_refl _) (by omega)
    obtain ⟨ms, slept, _, short⟩ := backoffDuration_ok positive low high (rest first (by omega)) (draws first)
    obtain ⟨sleeps, later, length, bounded⟩ := @ih (first + 1) (by omega) (fun attempt below => rest attempt (by omega))
      (fun attempt after below => vain attempt (by omega) (by omega))
    refine ⟨ms :: sleeps, ?_, by simp [length], ?_⟩
    · rw [waitLoop, waiting, slept]
      simp only [Bool.false_eq_true, ↓reduceIte, running, later]
    · intro other member
      rcases List.mem_cons.mp member with rfl | member
      · exact short
      · exact bounded other member

/-- However it ends, a loop whose waits are all defined does not panic. -/
theorem waitLoop_defined {ready cancelled : Nat → Bool} (draws : Nat → Nat) (low : 4 ≤ initialMs)
    (high : initialMs ≤ 5000) {left first : Nat} (positive : 1 ≤ first)
    (rest : ∀ attempt, attempt < first + left → ¬ 2 ^ 64 ∣ exponential attempt initialMs) (reason : String) :
    (waitLoop ready cancelled draws initialMs left first).2 ≠ .panicked reason := by
  induction left generalizing first with
  | zero => exact WaitEnd.noConfusion
  | succ left ih =>
    obtain ⟨ms, slept, _⟩ := backoffDuration_ok positive low high (rest first (by omega)) (draws first)
    have later := @ih (first + 1) (by omega) (fun attempt below => rest attempt (by omega))
    rw [waitLoop, slept]
    split
    · exact WaitEnd.noConfusion
    · dsimp only
      split
      · exact WaitEnd.noConfusion
      · exact later

/-- A learner's ten attempts from 100 milliseconds on never panic. -/
theorem waitForLeader_defined (views : Nat → ClusterView) (cancelled : Nat → Bool) (draws : Nat → Nat)
    (reason : String) : (waitForLeader views cancelled draws).2 ≠ .panicked reason := by
  refine waitLoop_defined draws (by omega) (by omega) (Nat.le_refl 1) (fun attempt below => ?_) reason
  have last : ¬ 2 ^ 64 ∣ exponential 10 100 := by decide
  exact exponential_earlier (by omega) last

/-- The wait is defined and within its bounds exactly if the doublings have not
shifted out all of it; and then a loop can use as many attempts. -/
theorem backoff_total_iff {attempt initialMs : Nat} (first : 1 ≤ attempt) (low : 4 ≤ initialMs)
    (high : initialMs ≤ 5000) :
    ((∀ draw, ∃ ms, backoffDuration draw attempt initialMs = .ok ms ∧
        min (exponential attempt initialMs) 5000 ≤ ms ∧ ms < 6250) ↔ ¬ 2 ^ 64 ∣ exponential attempt initialMs) ∧
    (¬ 2 ^ 64 ∣ exponential attempt initialMs → ∀ (ready cancelled : Nat → Bool) (draws : Nat → Nat),
      (∀ i, 1 ≤ i → i ≤ attempt → ready i = false ∧ cancelled i = false) →
      ∃ sleeps, waitLoop ready cancelled draws initialMs attempt 1 = (sleeps, .unavailable) ∧
        sleeps.length = attempt) := by
  refine ⟨⟨?_, fun rest draw => backoffDuration_ok first low high rest draw⟩, ?_⟩
  · intro total lost
    obtain ⟨ms, ok, _⟩ := total 0
    rw [backoffDuration_panics first lost] at ok
    cases ok
  · intro rest ready cancelled draws vain
    obtain ⟨sleeps, ended, length, _⟩ :=
      @waitLoop_exhausts initialMs ready cancelled draws low high attempt 1 (Nat.le_refl 1)
      (fun i below => exponential_earlier (by omega) rest) (fun i after below => vain i after (by omega))
    exact ⟨sleeps, ended, length⟩

theorem backoff_total_leader :
    (∀ draw, ∃ ms, backoffDuration draw 10 100 = .ok ms ∧ min (exponential 10 100) 5000 ≤ ms ∧ ms < 6250) ∧
      ¬ 2 ^ 64 ∣ exponential 10 100 := by
  have rest : ¬ 2 ^ 64 ∣ exponential 10 100 := by decide
  exact ⟨(backoff_total_iff (by omega) (by omega) (by omega)).1.mpr rest, rest⟩

/-- A voter that reaches nobody: behind the 62nd sleep, attempt 63 of 100 shifts
500 milliseconds by 62 bits to nothing. -/
theorem waitForMajority_panics :
    backoffDuration 0 63 500 = .error "invalid argument to Int63n" ∧
      (waitForMajority "n1" ["n1", "n2", "n3"] (fun _ => ⟨[], fun _ => none, fun _ _ => none⟩) (fun _ => false)
        (fun _ => 0)).2 = .panicked "invalid argument to Int63n" ∧
      (waitForMajority "n1" ["n1", "n2", "n3"] (fun _ => ⟨[], fun _ => none, fun _ _ => none⟩) (fun _ => false)
        (fun _ => 0)).1.length = 62 :=
  ⟨rfl, rfl, rfl⟩

end Cue.Cluster
