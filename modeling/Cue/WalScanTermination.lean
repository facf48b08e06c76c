import Cue.Lib.Loop
import Cue.WalRecords

/-! Opening the write-ahead log scans the headers of the active file, and goes
from each by the length it states. The scan returns unless these lengths lead
it back to an offset it was at before, as a length of zero does at once. -/
namespace Cue.Cluster
open Cue.Lib Cue.Model

/-! ### The loop without a bound -/

/-- What the loop of `scanLastIndex` returns when it is at an offset. -/
inductive Scans (file : Bytes) : Nat → Nat → Except WalError Nat → Prop where
  | finish {pos last : Nat} (clean : readHeader file pos = .error .eof) : Scans file pos last (.ok last)
  | torn {pos last : Nat} {err : WalError} (failed : readHeader file pos = .error err) (other : err ≠ .eof) :
      Scans file pos last (.error err)
  | stuck {pos last idx size : Nat} {err : WalError} (header : readHeader file pos = .ok (idx, size))
      (failed : skipRecord pos size = .error err) : Scans file pos last (.error err)
  | next {pos last idx size behind : Nat} {result : Except WalError Nat}
      (header : readHeader file pos = .ok (idx, size)) (skipped : skipRecord pos size = .ok behind)
      (rest : Scans file behind idx result) : Scans file pos last result

/-- The offset of the next header. -/
def nextHeader (file : Bytes) (pos : Nat) : Option Nat :=
  match readHeader file pos with
  | .error _ => none
  | .ok (_, size) => (skipRecord pos size).toOption

/-- The scan goes from the start of the file to this offset. -/
def Scanned (file : Bytes) (pos : Nat) : Prop := Relation.ReflTransGen (Turn (nextHeader file)) 0 pos

/-- The scan comes to an offset that it comes back to. -/
def LoopsBack (file : Bytes) : Prop := Returns (nextHeader file) 0

theorem skipRecord_error {pos size : Nat} {err : WalError} (failed : skipRecord pos size = .error err) :
    err = .invalidSeek := by
  unfold skipRecord at failed
  split at failed <;> split at failed <;> cases failed <;> rfl

section

variable {file : Bytes} {pos last : Nat}

theorem nextHeader_error {err : WalError} (failed : readHeader file pos = .error err) : nextHeader file pos = none := by
  simp only [nextHeader, failed]

theorem nextHeader_ok {idx size : Nat} (header : readHeader file pos = .ok (idx, size)) :
    nextHeader file pos = (skipRecord pos size).toOption := by
  simp only [nextHeader, header]

/-- A turn of the loop: it returns what it has, or goes on behind the record. -/
theorem scanFrom_succ (file : Bytes) (fuel pos last : Nat) :
    (nextHeader file pos = none ∧ Scans file pos last (scanFrom file (fuel + 1) pos last) ∧
        scanFrom file (fuel + 1) pos last ≠ .error .diverges) ∨
      ∃ idx size behind, readHeader file pos = .ok (idx, size) ∧ skipRecord pos size = .ok behind ∧
        nextHeader file pos = some behind ∧ scanFrom file (fuel + 1) pos last = scanFrom file fuel behind idx := by
  cases header : readHeader file pos with
  | error err =>
    refine .inl ⟨nextHeader_error header, ?_⟩
    rcases readHeader_error header with rfl | rfl
    · simpa only [scanFrom, header, ne_eq, reduceCtorEq, not_false_eq_true, and_true] using .finish header
    · simpa [scanFrom, header] using Scans.torn header (by simp)
  | ok read =>
    obtain ⟨idx, size⟩ := read
    cases skipped : skipRecord pos size with
    | error err =>
      refine .inl ⟨by rw [nextHeader_ok header, skipped]; rfl, ?_⟩
      obtain rfl := skipRecord_error skipped
      simpa [scanFrom, header, skipped] using Scans.stuck header skipped
    | ok behind =>
      refine .inr ⟨idx, size, behind, rfl, skipped, by rw [nextHeader_ok header, skipped]; rfl, ?_⟩
      simp only [scanFrom, header, skipped]

/-- The bound runs out exactly when the loop has not stopped. -/
theorem scanFrom_diverges_iff {fuel : Nat} :
    scanFrom file fuel pos last = .error .diverges ↔ stopsWithin (nextHeader file) fuel pos = false := by
  induction fuel generalizing pos last with
  | zero => exact ⟨fun _ => rfl, fun _ => rfl⟩
  | succ fuel ih =>
    rcases scanFrom_succ file fuel pos last with ⟨stop, -, returned⟩ | ⟨idx, size, behind, -, -, turn, same⟩
    · simp [stopsWithin_stop stop, returned]
    · rw [same, stopsWithin_turn turn, ih]

/-- A scan that stays within its bound returns what the loop returns. -/
theorem scans_of_scanFrom {fuel : Nat} (returned : scanFrom file fuel pos last ≠ .error .diverges) :
    Scans file pos last (scanFrom file fuel pos last) := by
  induction fuel generalizing pos last with
  | zero => exact absurd rfl returned
  | succ fuel ih =>
    rcases scanFrom_succ file fuel pos last with ⟨-, scans, -⟩ | ⟨idx, size, behind, header, skipped, -, same⟩
    · exact scans
    · rw [same] at returned ⊢
      exact .next header skipped (ih returned)

theorem Scans.unique {first second : Except WalError Nat} (one : Scans file pos last first)
    (other : Scans file pos last second) : first = second := by
  induction one with
  | finish clean => cases other <;> simp_all
  | torn failed _ => cases other <;> simp_all
  | stuck header failed => cases other <;> simp_all
  | next header skipped _ ih => cases other <;> simp_all

/-- A loop that returns does not come back. -/
theorem Scans.forward {result : Except WalError Nat} (scans : Scans file pos last result) :
    ¬ Returns (nextHeader file) pos := by
  intro returns
  obtain ⟨behind, turn, again⟩ := returns.turn
  induction scans generalizing behind with
  | finish clean => simp [nextHeader_error clean] at turn
  | torn failed _ => simp [nextHeader_error failed] at turn
  | stuck header failed => simp [nextHeader_ok header, failed, Except.toOption] at turn
  | next header skipped _ ih =>
    simp only [nextHeader_ok header, skipped, Except.toOption, Option.some.injEq] at turn
    obtain rfl := turn
    obtain ⟨next, onward, further⟩ := again.turn
    exact ih again next onward further

end

/-- Headers are read inside the file only, so its length bounds a scan that does not come back. -/
theorem scanLast_diverges_iff (file : Bytes) : scanLast file = .error .diverges ↔ LoopsBack file := by
  have inside : ∀ pos behind, nextHeader file pos = some behind → pos ∈ Finset.range file.length := by
    intro pos behind turn
    cases header : readHeader file pos with
    | error err => simp [nextHeader_error header] at turn
    | ok read => exact Finset.mem_range.mpr (readHeader_inside header)
  have bound := @stopsWithin_iff Nat (nextHeader file) (Finset.range file.length) inside (file.length + 2)
    (by rw [Finset.card_range]; omega) 0
  rw [scanLast, scanFrom_diverges_iff, ← Bool.not_eq_true, bound, not_not, LoopsBack]

/-- The loop returns exactly when the scan does, and with the same result. -/
theorem scans_iff {file : Bytes} {result : Except WalError Nat} :
    Scans file 0 0 result ↔ scanLast file = result ∧ ¬ LoopsBack file := by
  rw [← scanLast_diverges_iff]
  refine ⟨fun scans => ?_, fun ⟨same, returned⟩ => same ▸ scans_of_scanFrom returned⟩
  have returned := mt (scanLast_diverges_iff file).mp scans.forward
  exact ⟨(scans_of_scanFrom returned).unique scans, returned⟩

/-! ### Opening and truncating -/

theorem scanLastIndex_diverges {dir : Directory} {seg : Segment} (diverges : scanLastIndex dir seg = .error .diverges) :
    ∃ file, dir.get seg.path = some file ∧ LoopsBack file := by
  unfold scanLastIndex at diverges
  cases here : dir.get seg.path with
  | none => simp [here] at diverges
  | some file =>
    simp only [here] at diverges
    exact ⟨file, rfl, (scanLast_diverges_iff file).mp diverges⟩

theorem newSegmentedWal_diverges {dir : Directory} {segmentSize : Nat}
    (diverges : newSegmentedWal dir segmentSize = .error .diverges) :
    ∃ start file, dir.get (.active start) = some file ∧ LoopsBack file := by
  dsimp only [newSegmentedWal] at diverges
  split at diverges
  · cases diverges
  · split at diverges
    · rename_i active single
      have activated : active.active = true := (List.mem_filter.mp (single ▸ List.mem_singleton_self active)).2
      split at diverges
      · obtain rfl := Except.error.inj diverges
        rename_i scan
        obtain ⟨file, here, loops⟩ := scanLastIndex_diverges scan
        rw [Segment.path, if_pos activated] at here
        exact ⟨active.startIndex, file, (FinMap.get_filter_some.mp here).1, loops⟩
      · cases diverges
    · cases diverges
    · cases diverges

theorem SegmentedWAL.truncate_diverges {sw : SegmentedWAL} {upToIndex : Nat}
    (diverges : sw.truncate upToIndex = .error .diverges) :
    ∃ file, sw.dir.get sw.active.path = some file ∧ LoopsBack file := by
  dsimp only [SegmentedWAL.truncate] at diverges
  split at diverges
  · split at diverges
    · obtain rfl := Except.error.inj diverges
      rename_i scan
      obtain ⟨file, here, loops⟩ := scanLastIndex_diverges scan
      rw [FinMap.get_foldl_delete] at here
      split at here
      · cases here
      · exact ⟨file, here, loops⟩
    · split at diverges <;> cases diverges
  · cases diverges

/-- Lengths that lead forward, none of them zero, keep the scan from coming back. -/
theorem not_loopsBack_of_forward {file : Bytes}
    (forward : ∀ pos idx size, Scanned file pos → readHeader file pos = .ok (idx, size) → 0 < size ∧ size < maxOffset) :
    ¬ LoopsBack file := by
  refine not_returns_of_increasing fun pos behind reached turn => ?_
  cases header : readHeader file pos with
  | error err => simp [nextHeader_error header] at turn
  | ok read =>
    obtain ⟨idx, size⟩ := read
    obtain ⟨positive, small⟩ := forward pos idx size reached header
    rw [nextHeader_ok header, skipRecord, if_pos small] at turn
    split at turn
    · obtain rfl := Option.some.inj turn
      omega
    · cases turn

/-- The scan of an active file returns an index or an error exactly when the
lengths in its headers do not lead back to an offset, for which it is enough
that they are positive as `int64`. Then opening and truncating return as well. -/
theorem opening_terminates_iff (file : Bytes) (dir : Directory) (segmentSize : Nat) (sw : SegmentedWAL)
    (upToIndex : Nat) :
    ((∃ result, Scans file 0 0 result) ↔ ¬ LoopsBack file) ∧
      ((∀ pos idx size, Scanned file pos → readHeader file pos = .ok (idx, size) → 0 < size ∧ size < maxOffset) →
        ∃ result, Scans file 0 0 result) ∧
      ((∀ start file, dir.get (.active start) = some file → ¬ LoopsBack file) →
        newSegmentedWal dir segmentSize ≠ .error .diverges) ∧
      ((∀ file, sw.dir.get sw.active.path = some file → ¬ LoopsBack file) →
        sw.truncate upToIndex ≠ .error .diverges) := by
  have returns : (∃ result, Scans file 0 0 result) ↔ ¬ LoopsBack file :=
    ⟨fun ⟨_, scans⟩ => (scans_iff.mp scans).2, fun forward => ⟨_, scans_iff.mpr ⟨rfl, forward⟩⟩⟩
  refine ⟨returns, fun forward => returns.mpr (not_loopsBack_of_forward forward), ?_, ?_⟩
  · intro forward diverges
    obtain ⟨start, file, here, loops⟩ := newSegmentedWal_diverges diverges
    exact forward start file here loops
  · intro forward diverges
    obtain ⟨file, here, loops⟩ := sw.truncate_diverges diverges
    exact forward file here loops

/-- A record, and another one that is cut off in its payload. -/
private def cutFile : Bytes := frame 7 [1, 2, 3] ++ (frame 8 [1, 2, 3]).take 17

private theorem cutFile_forward : ¬ LoopsBack cutFile := by
  rw [← scanLast_diverges_iff]
  intro diverges
  cases diverges.symm.trans (show scanLast cutFile = .ok 8 from rfl)

private def cutWal : SegmentedWAL :=
  ⟨FinMap.empty.set (.active 7) cutFile, [], ⟨7, 0, 36, true⟩, 9, defaultSegmentSize⟩

theorem scan_of_cut_file_returns :
    (∃ result, Scans cutFile 0 0 result) ∧ newSegmentedWal cutWal.dir 0 ≠ .error .diverges ∧
      cutWal.truncate 7 ≠ .error .diverges := by
  obtain ⟨returns, -, opens, truncates⟩ := opening_terminates_iff cutFile cutWal.dir 0 cutWal 7
  refine ⟨returns.mpr cutFile_forward, opens fun start file here => ?_, truncates fun file here => ?_⟩
  · rw [cutWal, FinMap.get_set] at here
    split at here
    · exact Option.some.inj here ▸ cutFile_forward
    · cases here
  · obtain rfl : cutFile = file := Option.some.inj here
    exact cutFile_forward

/-- A record, and the zeros that a file system can leave behind it. -/
private def zeroTail : Bytes := frame 7 [1, 2, 3] ++ List.replicate 16 0

private def zeroTailWal : SegmentedWAL :=
  ⟨FinMap.empty.set (.active 7) zeroTail, [], ⟨7, 0, 19, true⟩, 8, defaultSegmentSize⟩

/-- A header of zeros sends the scan back to its own start: neither opening nor truncating returns. -/
theorem zero_length_never_passed :
    (¬ ∃ result, Scans zeroTail 0 0 result) ∧
      newSegmentedWal (FinMap.empty.set (.active 7) zeroTail) 0 = .error .diverges ∧
      zeroTailWal.truncate 7 = .error .diverges := by
  have loops : LoopsBack zeroTail := (scanLast_diverges_iff zeroTail).mp rfl
  exact ⟨fun ⟨_, scans⟩ => (scans_iff.mp scans).2 loops, rfl, rfl⟩

end Cue.Cluster
