import Cue.Cluster.EntryCodec
import Cue.Lib.Loop
import Cue.WalRecords

/-! `Recover` on files of any content. It always comes to an end, but the length
in a record's header sizes a buffer before anything checks it. Where that length
is below the header's own 16 bytes, or beyond what the runtime tries to allocate,
`make` panics; where it is beyond the memory there is, the process ends. -/
namespace Cue.Cluster
open Cue.Lib Cue.Model

/-- The ends of `Recover` that are no return. -/
def WalError.Fatal (err : WalError) : Prop := err = .makeslice ∨ err = .outOfMemory

/-- A total length for which the buffer of the payload is not made. -/
def BadLength (codec : Codec) (size : Nat) : WalError → Prop
  | .makeslice => size < 16 ∨ size > maxAlloc + 16
  | .outOfMemory => codec.memory + 16 < size ∧ 16 ≤ size ∧ size ≤ maxAlloc + 16
  | _ => False

/-- The offset behind the record that is read at an offset. -/
def nextRecord (codec : Codec) (file : Bytes) (pos : Nat) : Option Nat :=
  (readEntry codec file pos).toOption.map Prod.snd

/-- From an offset, reading comes to a header with a length that is bad. -/
def MeetsBadLength (codec : Codec) (file : Bytes) (pos : Nat) (err : WalError) : Prop :=
  ∃ header idx size, Relation.ReflTransGen (Turn (nextRecord codec file)) pos header ∧
    readHeader file header = .ok (idx, size) ∧ BadLength codec size err

section

variable {codec : Codec} {file : Bytes} {pos : Nat} {err : WalError}

theorem BadLength.fatal {size : Nat} (bad : BadLength codec size err) : err.Fatal := by
  cases err with
  | makeslice => exact .inl rfl
  | outOfMemory => exact .inr rfl
  | _ => cases bad

/-- At most one of the two is met at a header. -/
theorem BadLength.unique {size : Nat} {other : WalError} (bad : BadLength codec size err)
    (again : BadLength codec size other) : other = err := by
  rcases bad.fatal with rfl | rfl <;> rcases again.fatal with rfl | rfl <;> simp only [BadLength] at bad again <;>
    first | rfl | omega

/-- What one call of `ReadEntry` does: it does not return at a bad length, and
otherwise returns an error or comes to an offset behind a header. -/
theorem readEntry_cases (codec : Codec) (file : Bytes) (pos : Nat) :
    (∃ err idx size, readEntry codec file pos = .error err ∧ readHeader file pos = .ok (idx, size) ∧
        BadLength codec size err) ∨
      ((∀ err idx size, readHeader file pos = .ok (idx, size) → ¬ BadLength codec size err) ∧
        ((∃ err, readEntry codec file pos = .error err ∧ ¬ err.Fatal ∧ err ≠ .diverges) ∨
          ∃ entry behind, readEntry codec file pos = .ok (entry, behind) ∧ pos < behind ∧ pos < file.length)) := by
  unfold readEntry
  cases header : readHeader file pos with
  | error err =>
    refine .inr ⟨by simp, .inl ⟨err, rfl, ?_⟩⟩
    rcases readHeader_error header with rfl | rfl <;> simp [WalError.Fatal]
  | ok read =>
    obtain ⟨idx, size⟩ := read
    by_cases panics : size < 16 ∨ size > maxAlloc + 16
    · exact .inl ⟨.makeslice, idx, size, if_pos panics, rfl, panics⟩
    by_cases large : size > codec.memory + 16
    · exact .inl ⟨.outOfMemory, idx, size, by simp only [if_neg panics, if_pos large], rfl, large, by omega⟩
    refine .inr ⟨?_, ?_⟩
    · rintro err idx' size' same bad
      cases same
      rcases bad.fatal with rfl | rfl
      · exact panics bad
      · exact large bad.1
    · simp only [if_neg panics, if_neg large]
      cases payload : readFull file (pos + 16) (size - 16) with
      | error err =>
        refine .inl ⟨err, rfl, ?_⟩
        rcases readFull_error payload with rfl | rfl <;> simp [WalError.Fatal]
      | ok data =>
        cases decoded : codec.unmarshal data with
        | none => exact .inl ⟨.badEntry, by simp only [decoded], by simp [WalError.Fatal]⟩
        | some entry =>
          by_cases same : entry.index.toNat = idx
          · refine .inr ⟨entry, pos + size, ?_, by omega, readHeader_inside header⟩
            simp [decoded, same]
          · exact .inl ⟨.indexMismatch, by simp [decoded, same], by simp [WalError.Fatal]⟩

/-- At a bad length, that one is met and no other. -/
theorem meetsBadLength_here {other : WalError} {idx size : Nat} (failed : readEntry codec file pos = .error err)
    (header : readHeader file pos = .ok (idx, size)) (bad : BadLength codec size err) :
    MeetsBadLength codec file pos other ↔ other = err := by
  constructor
  · rintro ⟨met, idx', size', reached, read, again⟩
    rcases Relation.ReflTransGen.cases_head reached with rfl | ⟨behind, turn, _⟩
    · cases header.symm.trans read
      exact bad.unique again
    · simp [Turn, nextRecord, failed, Except.toOption] at turn
  · rintro rfl
    exact ⟨pos, idx, size, .refl, header, bad⟩

/-- Where the header is in order, a bad length is met behind the record or not at all. -/
theorem meetsBadLength_iff (sound : ∀ err idx size, readHeader file pos = .ok (idx, size) → ¬ BadLength codec size err) :
    MeetsBadLength codec file pos err ↔
      ∃ behind, nextRecord codec file pos = some behind ∧ MeetsBadLength codec file behind err := by
  constructor
  · rintro ⟨header, idx, size, reached, read, bad⟩
    rcases Relation.ReflTransGen.cases_head reached with rfl | ⟨behind, turn, rest⟩
    · exact absurd bad (sound err idx size read)
    · exact ⟨behind, turn, header, idx, size, rest, read, bad⟩
  · rintro ⟨behind, turn, header, idx, size, reached, read, bad⟩
    exact ⟨header, idx, size, .head turn reached, read, bad⟩

/-- Reading on from an offset stays within its bound, and does not return exactly
when it comes to a bad length. -/
theorem readEntries_safe {fuel : Nat} (positive : 0 < fuel) (enough : file.length < pos + fuel) :
    readEntries codec file fuel pos ≠ .error .diverges ∧
      ∀ err : WalError, err.Fatal →
        (readEntries codec file fuel pos = .error err ↔ MeetsBadLength codec file pos err) := by
  induction fuel generalizing pos with
  | zero => exact absurd positive (Nat.lt_irrefl 0)
  | succ fuel ih =>
    rcases readEntry_cases codec file pos with ⟨bad, idx, size, failed, header, isBad⟩ |
      ⟨sound, ⟨other, failed, quiet, finite⟩ | ⟨entry, behind, read, onward, inside⟩⟩
    · have ended : readEntries codec file (fuel + 1) pos = .error bad := by
        rw [readEntries, failed]
        rcases isBad.fatal with rfl | rfl <;> rfl
      rw [ended]
      refine ⟨?_, fun err _ => ?_⟩
      · rcases isBad.fatal with rfl | rfl <;> simp
      · rw [meetsBadLength_here failed header isBad, Except.error.injEq, eq_comm]
    · have nowhere : nextRecord codec file pos = none := by simp [nextRecord, failed, Except.toOption]
      have ended : ∀ err, readEntries codec file (fuel + 1) pos = .error err → err = other := by
        intro err
        rw [readEntries, failed]
        cases other <;> simp_all
      refine ⟨fun diverges => finite (ended _ diverges).symm, fun err fatal => ?_⟩
      rw [meetsBadLength_iff sound, nowhere]
      exact ⟨fun failed => absurd (ended err failed ▸ fatal) quiet, by simp⟩
    · have turn : nextRecord codec file pos = some behind := by simp [nextRecord, read, Except.toOption]
      obtain ⟨returns, fails⟩ := @ih behind (by omega) (by omega)
      have onwards : ∀ err, readEntries codec file (fuel + 1) pos = .error err ↔
          readEntries codec file fuel behind = .error err := by
        intro err
        rw [readEntries, read]
        cases rest : readEntries codec file fuel behind <;> simp [rest]
      refine ⟨fun diverges => returns ((onwards _).mp diverges), fun err fatal => ?_⟩
      rw [meetsBadLength_iff sound, turn, onwards, fails err fatal]
      simp

theorem readFile_safe (codec : Codec) (file : Bytes) :
    readFile codec file ≠ .error .diverges ∧
      ∀ err : WalError, err.Fatal → (readFile codec file = .error err ↔ MeetsBadLength codec file 0 err) :=
  readEntries_safe (Nat.succ_pos _) (by omega)

end

/-! ### Whole logs -/

/-- The files are read in order up to the first one that fails. -/
theorem mapM_error_iff {A B E : Type} {f : A → Except E B} {items : List A} {err : E} :
    items.mapM f = .error err ↔ ∃ before item after, items = before ++ item :: after ∧
      (∀ earlier ∈ before, ∃ value, f earlier = .ok value) ∧ f item = .error err := by
  induction items with
  | nil => simp [pure, Except.pure]
  | cons first rest ih =>
    rw [List.mapM_cons]
    cases here : f first with
    | error other =>
      change (.error other : Except E (List B)) = .error err ↔ _
      rw [Except.error.injEq]
      refine ⟨fun same => ⟨[], first, rest, rfl, by simp, same ▸ here⟩, ?_⟩
      rintro ⟨before, item, after, split, fine, failed⟩
      cases before with
      | nil =>
        obtain ⟨rfl, rfl⟩ := List.cons.inj split
        exact Except.error.inj (here.symm.trans failed)
      | cons head before =>
        obtain ⟨rfl, -⟩ := List.cons.inj split
        obtain ⟨value, ok⟩ := fine first List.mem_cons_self
        cases ok.symm.trans here
    | ok value =>
      have onward : (do let a ← Except.ok value; let as ← rest.mapM f; pure (a :: as)) = .error err ↔
          rest.mapM f = .error err := by
        cases rest.mapM f <;> simp [bind, Except.bind, pure, Except.pure]
      rw [onward, ih]
      constructor
      · rintro ⟨before, item, after, rfl, fine, failed⟩
        exact ⟨first :: before, item, after, rfl, by simpa [here] using fine, failed⟩
      · rintro ⟨before, item, after, split, fine, failed⟩
        cases before with
        | nil =>
          obtain ⟨rfl, rfl⟩ := List.cons.inj split
          cases here.symm.trans failed
        | cons head before =>
          obtain ⟨rfl, rfl⟩ := List.cons.inj split
          exact ⟨before, item, after, rfl, fun earlier member => fine earlier (List.mem_cons_of_mem _ member), failed⟩

theorem readSegment_safe (codec : Codec) (dir : Directory) (seg : Segment) :
    SegmentedWAL.readSegment codec dir seg ≠ .error .diverges ∧
      ∀ err : WalError, err.Fatal → (SegmentedWAL.readSegment codec dir seg = .error err ↔
        ∃ file, dir.get seg.path = some file ∧ MeetsBadLength codec file 0 err) := by
  unfold SegmentedWAL.readSegment
  cases dir.get seg.path with
  | none =>
    refine ⟨by simp, fun err fatal => ?_⟩
    rcases fatal with rfl | rfl <;> simp
  | some file => simpa using readFile_safe codec file

/-- The error of `Recover` is that of the first file that fails. -/
theorem SegmentedWAL.recover_error_iff {codec : Codec} {sw : SegmentedWAL} {snapshotIndex : Nat} {err : WalError} :
    sw.recover codec snapshotIndex = .error err ↔
      ∃ before seg after, sw.segments ++ [sw.active] = before ++ seg :: after ∧
      (∀ earlier ∈ before, ∃ entries, readSegment codec sw.dir earlier = .ok entries) ∧
      readSegment codec sw.dir seg = .error err := by
  rw [← mapM_error_iff, SegmentedWAL.recover]
  cases (sw.segments ++ [sw.active]).mapM (readSegment codec sw.dir) <;> simp

/-- `Recover` never goes on forever. It panics, or ends the process for want of
memory, exactly if in the first file that it cannot read to the end it comes to a
header whose length is bad; otherwise it returns the entries or an error. So it is
for each single record. -/
theorem SegmentedWAL.recover_returns_iff (codec : Codec) (sw : SegmentedWAL) (snapshotIndex : Nat) :
    sw.recover codec snapshotIndex ≠ .error .diverges ∧
      (∀ err : WalError, err.Fatal → (sw.recover codec snapshotIndex = .error err ↔
        ∃ before seg after file, sw.segments ++ [sw.active] = before ++ seg :: after ∧
          (∀ earlier ∈ before, ∃ entries, readSegment codec sw.dir earlier = .ok entries) ∧
          sw.dir.get seg.path = some file ∧ MeetsBadLength codec file 0 err)) ∧
      ∀ file pos (err : WalError), err.Fatal → (readEntry codec file pos = .error err ↔
        ∃ idx size, readHeader file pos = .ok (idx, size) ∧ BadLength codec size err) := by
  refine ⟨fun diverges => ?_, fun err fatal => ?_, fun file pos err fatal => ?_⟩
  · obtain ⟨_, seg, _, -, -, failed⟩ := recover_error_iff.mp diverges
    exact (readSegment_safe codec sw.dir seg).1 failed
  · simp only [recover_error_iff, (readSegment_safe codec sw.dir _).2 err fatal, exists_and_left]
  · rcases readEntry_cases codec file pos with ⟨bad, idx, size, failed, header, isBad⟩ | ⟨sound, returns⟩
    · rw [failed, Except.error.injEq]
      constructor
      · rintro rfl
        exact ⟨idx, size, header, isBad⟩
      · rintro ⟨idx', size', same, again⟩
        cases header.symm.trans same
        exact again.unique isBad
    · refine ⟨fun died => ?_, fun ⟨idx, size, header, bad⟩ => absurd bad (sound err idx size header)⟩
      rcases returns with ⟨other, failed, quiet, -⟩ | ⟨entry, behind, read, -⟩
      · exact absurd (Except.error.inj (failed.symm.trans died) ▸ fatal) quiet
      · cases read.symm.trans died

private def walOf (file : Bytes) : SegmentedWAL :=
  ⟨FinMap.empty.set (.active 7) file, [], ⟨7, 0, file.length, true⟩, 8, defaultSegmentSize⟩

private def whole : Bytes := record (wireCodec []) ⟨1, 7, .normal, none⟩

/-- A log that ends within a record is refused with an error. -/
theorem cut_record_returns_error :
    (walOf (whole ++ whole.take 17)).recover (wireCodec []) 0 = .error .unexpectedEOF ∧
      ∀ err : WalError, err.Fatal → ¬ MeetsBadLength (wireCodec []) (whole ++ whole.take 17) 0 err := by
  refine ⟨rfl, fun err fatal bad => ?_⟩
  have died := ((SegmentedWAL.recover_returns_iff (wireCodec []) (walOf (whole ++ whole.take 17)) 0).2.1 err fatal).mpr
    ⟨[], _, [], _, rfl, by simp, rfl, bad⟩
  rcases fatal with rfl | rfl <;> cases died

/-- A log whose only record states the given length. -/
private def stating (size : Nat) : SegmentedWAL := walOf (whole ++ littleEndian 8 size ++ littleEndian 8 8)

/-- Zeros behind the last record make `Recover` panic, and so do lengths that
are negative as `int64` or beyond the runtime's limit; a length of 1 TiB ends the
process on a machine with 4 GiB. -/
theorem zero_tail_panics :
    (stating 0).recover (wireCodec []) 0 = .error .makeslice ∧
      (stating 15).recover (wireCodec []) 0 = .error .makeslice ∧
      (stating (2 ^ 63)).recover (wireCodec []) 0 = .error .makeslice ∧
      (stating (2 ^ 60)).recover (wireCodec []) 0 = .error .makeslice ∧
      (stating (2 ^ 40)).recover (wireCodec []) 0 = .error .outOfMemory :=
  ⟨rfl, rfl, rfl, rfl, rfl⟩

end Cue.Cluster
