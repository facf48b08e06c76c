import Cue.Cluster.SegmentFaults
import Cue.WalAnyOrder

/-! A batch that could not be appended is passed again. This works only if the
first attempt left nothing behind: every entry it wrote is written a second time,
the part of a record it wrote stays in front of the next one, and a rotation that
fails once the temporary file is there is never completed, since that file must
not exist when the rotation starts again and the active file is closed. -/
namespace Cue.Cluster
open Cue.Lib Cue.Model

namespace FallibleWAL

variable {s s' : FallibleWAL} {sw sw' : SegmentedWAL} {failure : AppendFailure}

/-! ### Rotation -/

theorem path_ne_tmp (seg : Segment) (start : Nat) : seg.path ≠ .tmp start := by
  unfold Segment.path
  split <;> simp

theorem createTemp_ok {fault : Option RotateCall} (ok : s.createTemp fault = .ok s') :
    s.wal.dir.contains (.tmp s.wal.nextIndex) = false ∧ s' = s.setDir (s.wal.dir.set (.tmp s.wal.nextIndex) []) := by
  unfold createTemp at ok
  dsimp only at ok
  split at ok
  · cases ok
  · split at ok
    · cases ok
    · rename_i absent
      split at ok
      · cases ok
      · cases ok
        exact ⟨by simpa using absent, rfl⟩

theorem sealActive_ok {fault : Option RotateCall} (ok : s.sealActive fault = .ok s') : ∃ dir,
    let sealed : Segment := ⟨s.wal.active.startIndex, s.wal.nextIndex - 1, s.wal.active.size, false⟩
    s.closed = false ∧ renameFile s.wal.dir s.wal.active.path sealed.path = some dir ∧
      s' = ⟨{ s.wal with dir := dir, segments := s.wal.segments ++ [sealed] }, true⟩ := by
  unfold sealActive at ok
  dsimp only at ok
  split at ok
  · cases ok
  · rename_i opened
    split at ok
    · cases ok
    · split at ok
      · cases ok
      · split at ok
        · cases ok
        · rename_i dir renamed
          split at ok
          · cases ok
          · cases ok
            exact ⟨dir, by simpa using opened, renamed, rfl⟩

theorem promoteTemp_ok {fault : Option RotateCall} (ok : s.promoteTemp fault = .ok s') : ∃ dir,
    let active : Segment := ⟨s.wal.nextIndex, 0, 0, true⟩
    renameFile s.wal.dir (.tmp s.wal.nextIndex) active.path = some dir ∧
      s' = ⟨{ s.wal with dir := dir, active := active }, false⟩ := by
  unfold promoteTemp at ok
  dsimp only at ok
  split at ok
  · cases ok
  · split at ok
    · cases ok
    · rename_i dir renamed
      split at ok
      · cases ok
      · cases ok
        exact ⟨dir, renamed, rfl⟩

/-- The directory after a rotation, by its two renames. -/
theorem rotated_dir {dir : Directory} {tmp old sealed active : FileName} {file : Bytes}
    (absent : dir.contains tmp = false) (sealedApart : sealed ≠ tmp) :
    ((((dir.set tmp []).delete old).set sealed file).delete tmp).set active [] =
      ((dir.delete old).set sealed file).set active [] := by
  rw [FinMap.delete_set_of_ne _ sealedApart, FinMap.delete_comm, FinMap.delete_set_self,
    FinMap.delete_of_not_contains absent]

/-- A rotation that succeeds is the one of the model without faults. -/
theorem rotate_ok {fault : Option RotateCall} (ok : s.rotate fault = .ok s') :
    s.wal.rotate = .ok s'.wal ∧ s'.closed = false := by
  obtain ⟨first, created, ok⟩ := bind_ok ok
  obtain ⟨second, closed, promoted⟩ := bind_ok ok
  obtain ⟨absent, rfl⟩ := createTemp_ok created
  obtain ⟨dir, _, renamed, rfl⟩ := sealActive_ok closed
  obtain ⟨dir', moved, rfl⟩ := promoteTemp_ok promoted
  obtain ⟨file, found, rfl⟩ := Option.map_eq_some_iff.mp renamed
  obtain ⟨empty, temp, rfl⟩ := Option.map_eq_some_iff.mp moved
  simp only [setDir, FinMap.get_set, path_ne_tmp, ↓reduceIte] at found
  simp only [setDir, FinMap.get_set, FinMap.get_delete, (path_ne_tmp _ _).symm, ↓reduceIte, Option.some.injEq] at temp
  subst temp
  unfold SegmentedWAL.rotate
  simp only [absent, Bool.false_eq_true, ↓reduceIte, found, setDir, and_true, Except.ok.injEq]
  rw [rotated_dir absent (path_ne_tmp _ _)]

/-- Without a fault, what the model without faults does is done. -/
theorem rotate_plain (ok : sw.rotate = .ok sw') : (⟨sw, false⟩ : FallibleWAL).rotate none = .ok ⟨sw', false⟩ := by
  obtain ⟨absent, file, found, rfl⟩ := SegmentedWAL.rotate_inv ok
  unfold rotate createTemp sealActive promoteTemp renameFile
  simp only [absent, setDir, reduceCtorEq, ↓reduceIte, Bool.false_eq_true, or_self, bind, Except.bind,
    FinMap.get_set, FinMap.get_delete, path_ne_tmp, (path_ne_tmp _ _).symm, found, Option.map_some]
  rw [rotated_dir absent (path_ne_tmp _ _)]

/-- No rotation can be completed any more: its temporary file is there, or the
file to be sealed is closed. -/
def Blocked (s : FallibleWAL) : Prop := s.wal.dir.contains (.tmp s.wal.nextIndex) = true ∨ s.closed = true

theorem createTemp_error {fault : Option RotateCall} (failed : s.createTemp fault = .error failure) :
    (failure.left = s ∧ (fault = some .createTemp ∨ s.wal.dir.contains (.tmp s.wal.nextIndex) = true)) ∨
      failure.left = s.setDir (s.wal.dir.set (.tmp s.wal.nextIndex) []) := by
  unfold createTemp at failed
  dsimp only at failed
  split at failed
  · rename_i here
    cases failed
    exact .inl ⟨rfl, .inl here⟩
  · split at failed
    · rename_i there
      cases failed
      exact .inl ⟨rfl, .inr there⟩
    · split at failed
      · cases failed
        exact .inr rfl
      · cases failed

theorem sealActive_error {fault : Option RotateCall} (failed : s.sealActive fault = .error failure) :
    failure.left.wal.active = s.wal.active ∧ failure.left.wal.segmentSize = s.wal.segmentSize ∧
      (failure.left = s ∨ failure.left.closed = true) := by
  unfold sealActive at failed
  dsimp only at failed
  split at failed
  · cases failed
    exact ⟨rfl, rfl, .inl rfl⟩
  · split at failed
    · cases failed
      exact ⟨rfl, rfl, .inl rfl⟩
    · split at failed
      · cases failed
        exact ⟨rfl, rfl, .inr rfl⟩
      · split at failed
        · cases failed
          exact ⟨rfl, rfl, .inr rfl⟩
        · split at failed
          · cases failed
            exact ⟨rfl, rfl, .inr rfl⟩
          · cases failed

theorem promoteTemp_error {fault : Option RotateCall} (failed : s.promoteTemp fault = .error failure) :
    failure.left.wal.active = s.wal.active ∧ failure.left.wal.segmentSize = s.wal.segmentSize ∧
      failure.left.closed = s.closed := by
  unfold promoteTemp at failed
  dsimp only at failed
  split at failed
  · cases failed
    exact ⟨rfl, rfl, rfl⟩
  · split at failed
    · cases failed
      exact ⟨rfl, rfl, rfl⟩
    · split at failed
      · cases failed
        exact ⟨rfl, rfl, rfl⟩
      · cases failed

/-- A rotation that fails leaves the log as it was, or blocked. -/
theorem rotate_error {fault : Option RotateCall} (failed : s.rotate fault = .error failure) :
    (failure.left = s ∧ (fault = some .createTemp ∨ s.wal.dir.contains (.tmp s.wal.nextIndex) = true)) ∨
      (failure.left.wal.active = s.wal.active ∧ failure.left.wal.segmentSize = s.wal.segmentSize ∧
        failure.left.Blocked) := by
  have temp : (s.setDir (s.wal.dir.set (.tmp s.wal.nextIndex) [])).Blocked :=
    .inl (by simp [setDir, FinMap.contains_set])
  rcases bind_error failed with early | ⟨first, created, failed⟩
  · refine (createTemp_error early).imp_right fun left => ?_
    rw [left]
    exact ⟨rfl, rfl, temp⟩
  · obtain ⟨_, rfl⟩ := createTemp_ok created
    refine .inr ?_
    rcases bind_error failed with early | ⟨second, closed, late⟩
    · obtain ⟨active, size, left | closed⟩ := sealActive_error early
      · exact ⟨active, size, left ▸ temp⟩
      · exact ⟨active, size, .inr closed⟩
    · obtain ⟨dir, _, _, rfl⟩ := sealActive_ok closed
      obtain ⟨active, size, closed⟩ := promoteTemp_error late
      exact ⟨active, size, .inr closed⟩

theorem Blocked.rotate (blocked : s.Blocked) (fault : Option RotateCall) :
    ∃ failure, s.rotate fault = .error failure := by
  cases rotated : s.rotate fault with
  | error failure => exact ⟨failure, rfl⟩
  | ok s' =>
    obtain ⟨first, created, ok⟩ := bind_ok rotated
    obtain ⟨second, closed, _⟩ := bind_ok ok
    obtain ⟨absent, rfl⟩ := createTemp_ok created
    obtain ⟨_, opened, _⟩ := sealActive_ok closed
    rcases blocked with there | shut
    · cases there.symm.trans absent
    · cases shut.symm.trans opened

/-! ### A log that takes nothing any more -/

/-- The active file is full and cannot be sealed. -/
structure Stuck (s : FallibleWAL) : Prop where
  full : s.wal.segmentSize ≤ s.wal.active.size
  blocked : s.Blocked

theorem Stuck.appendEntry (stuck : s.Stuck) (fault : Option EntryFault) (be : BufferedEntry) :
    ∃ failure, s.appendEntry fault be = .error failure ∧ failure.left.Stuck := by
  obtain ⟨failure, failed⟩ := stuck.blocked.rotate (rotateFault fault)
  refine ⟨failure, ?_, ?_⟩
  · unfold FallibleWAL.appendEntry prepare
    rw [if_pos stuck.full, failed]
    rfl
  · rcases rotate_error failed with ⟨same, _⟩ | ⟨active, size, blocked⟩
    · exact same ▸ stuck
    · exact ⟨by rw [active, size]; exact stuck.full, blocked⟩

/-- An error at the first entry ends the whole call. -/
theorem appendBatch_cons_error {be : BufferedEntry} {faults : Faults}
    (failed : s.appendEntry (faults.entry 0) be = .error failure) (rest : List BufferedEntry) :
    s.appendBatch (be :: rest) faults = .error failure := by
  unfold FallibleWAL.appendBatch appendEntries
  rw [failed]
  rfl

/-- Whatever is tried, a log that is stuck takes no entry and stays stuck. -/
theorem Stuck.appendBatch (stuck : s.Stuck) {entries : List BufferedEntry} (some : entries ≠ []) (faults : Faults) :
    ∃ failure, s.appendBatch entries faults = .error failure ∧ failure.left.Stuck := by
  cases entries with
  | nil => exact absurd rfl some
  | cons be rest =>
    obtain ⟨failure, failed, after⟩ := stuck.appendEntry (faults.entry 0) be
    exact ⟨failure, appendBatch_cons_error failed rest, after⟩

/-! ### Entries -/

/-- The log with room in the active file. -/
def ready (sw : SegmentedWAL) : Except WalError SegmentedWAL :=
  if sw.active.size ≥ sw.segmentSize then sw.rotate else .ok sw

/-- The log with more bytes at the end of its active file. -/
def withBytes (sw : SegmentedWAL) (bytes : Bytes) : SegmentedWAL := { sw with
  dir := sw.dir.set sw.active.path ((sw.dir.get sw.active.path).getD [] ++ bytes) }

/-- What an entry that fails leaves, if only the fault is in its way. -/
inductive EntryLeft (sw : SegmentedWAL) (be : BufferedEntry) : Option EntryFault → FallibleWAL → Prop where
  | untouched (full : sw.segmentSize ≤ sw.active.size) :
      EntryLeft sw be (some (.rotate .createTemp)) ⟨sw, false⟩
  | stuck {fault : Option EntryFault} {s : FallibleWAL} (stuck : s.Stuck) : EntryLeft sw be fault s
  | written {n : Nat} {opened : SegmentedWAL} (prepared : ready sw = .ok opened) :
      EntryLeft sw be (some (.write n)) ⟨withBytes opened (be.data.take n), false⟩

/-- The log with an entry behind its active file. -/
def withEntry (opened : SegmentedWAL) (be : BufferedEntry) : SegmentedWAL := { opened with
  dir := opened.dir.set opened.active.path ((opened.dir.get opened.active.path).getD [] ++ be.data)
  active := { opened.active with size := opened.active.size + be.data.length }
  nextIndex := if be.index + 1 > opened.nextIndex then be.index + 1 else opened.nextIndex }

theorem appendEntry_of_ready {opened : SegmentedWAL} (prepared : ready sw = .ok opened) (be : BufferedEntry) :
    sw.appendEntry be =
      if ((opened.dir.get opened.active.path).getD [] ++ be.data).length ≥ maxOffset then .error .fileTooBig
      else .ok (withEntry opened be) := by
  unfold SegmentedWAL.appendEntry
  rw [show (if sw.active.size ≥ sw.segmentSize then sw.rotate else .ok sw) = .ok opened from prepared]
  rfl

theorem write_fails (opened : SegmentedWAL) (n : Nat) (be : BufferedEntry) :
    (⟨opened, false⟩ : FallibleWAL).write (some (.write n)) be =
      .error ⟨.failed, ⟨withBytes opened (be.data.take n), false⟩⟩ := rfl

theorem write_faultless {fault : Option EntryFault} (faultless : ∀ n, fault ≠ some (.write n)) (be : BufferedEntry) :
    s.write fault be = s.write none be := by
  cases fault with
  | none => rfl
  | some fault =>
    cases fault with
    | write n => exact absurd rfl (faultless n)
    | rotate call => rfl

/-- A write without a fault. -/
theorem write_plain {opened : SegmentedWAL} (prepared : ready sw = .ok opened) (be : BufferedEntry) :
    (∃ sw', sw.appendEntry be = .ok sw' ∧ (⟨opened, false⟩ : FallibleWAL).write none be = .ok ⟨sw', false⟩) ∨
      ∃ err failure, sw.appendEntry be = .error err ∧
        (⟨opened, false⟩ : FallibleWAL).write none be = .error failure := by
  rw [appendEntry_of_ready prepared]
  unfold write
  dsimp only
  rw [if_neg Bool.false_ne_true]
  by_cases long : ((opened.dir.get opened.active.path).getD [] ++ be.data).length ≥ maxOffset
  · rw [if_pos long, if_pos long]
    exact .inr ⟨_, _, rfl, rfl⟩
  · rw [if_neg long, if_neg long]
    exact .inl ⟨_, rfl, rfl⟩

theorem prepare_ok {fault : Option RotateCall} (opened : s.closed = false) (ok : s.prepare fault = .ok s') :
    ready s.wal = .ok s'.wal ∧ s'.closed = false := by
  unfold prepare at ok
  unfold ready
  split at ok
  · rename_i full
    rw [if_pos full]
    exact rotate_ok ok
  · rename_i room
    rw [if_neg room]
    cases ok
    exact ⟨rfl, opened⟩

theorem prepare_plain {opened : SegmentedWAL} (prepared : ready sw = .ok opened) :
    (⟨sw, false⟩ : FallibleWAL).prepare none = .ok ⟨opened, false⟩ := by
  unfold ready at prepared
  unfold prepare
  dsimp only
  split at prepared
  · rename_i full
    rw [if_pos full]
    exact rotate_plain prepared
  · rename_i room
    cases prepared
    exact if_neg room

theorem ready_of_appendEntry {be : BufferedEntry} (ok : sw.appendEntry be = .ok sw') : ∃ opened, ready sw = .ok opened ∧
    ((opened.dir.get opened.active.path).getD [] ++ be.data).length < maxOffset := by
  cases prepared : ready sw with
  | ok opened =>
    rw [appendEntry_of_ready prepared] at ok
    split at ok
    · cases ok
    · rename_i short
      exact ⟨opened, rfl, Nat.not_le.mp short⟩
  | error err =>
    unfold SegmentedWAL.appendEntry at ok
    rw [show (if sw.active.size ≥ sw.segmentSize then sw.rotate else .ok sw) = .error err from prepared] at ok
    cases ok

theorem appendEntry_ok {fault : Option EntryFault} {be : BufferedEntry} (opened : s.closed = false)
    (ok : s.appendEntry fault be = .ok s') : s.wal.appendEntry be = .ok s'.wal ∧ s'.closed = false := by
  obtain ⟨⟨middle, closed⟩, prepared, wrote⟩ := bind_ok ok
  obtain ⟨prepared, rfl⟩ := prepare_ok opened prepared
  by_cases faulty : ∃ n, fault = some (.write n)
  · obtain ⟨n, rfl⟩ := faulty
    rw [write_fails] at wrote
    cases wrote
  · rw [write_faultless fun n same => faulty ⟨n, same⟩] at wrote
    rcases write_plain prepared be with ⟨sw', plain, done⟩ | ⟨_, _, _, failed⟩
    · cases done.symm.trans wrote
      exact ⟨plain, rfl⟩
    · cases failed.symm.trans wrote

theorem appendEntry_plain {be : BufferedEntry} (ok : sw.appendEntry be = .ok sw') :
    (⟨sw, false⟩ : FallibleWAL).appendEntry none be = .ok ⟨sw', false⟩ := by
  obtain ⟨opened, prepared, _⟩ := ready_of_appendEntry ok
  unfold FallibleWAL.appendEntry
  rw [show rotateFault none = none from rfl, prepare_plain prepared]
  rcases write_plain prepared be with ⟨next, plain, done⟩ | ⟨_, _, failed, _⟩
  · cases plain.symm.trans ok
    exact done
  · cases failed.symm.trans ok

theorem prepare_error {fault : Option EntryFault} {be : BufferedEntry} {opened : SegmentedWAL}
    (possible : ready sw = .ok opened)
    (failed : (⟨sw, false⟩ : FallibleWAL).prepare (rotateFault fault) = .error failure) :
    EntryLeft sw be fault failure.left := by
  have plain := prepare_plain possible
  unfold prepare at failed plain
  dsimp only at failed plain
  split at failed
  · rename_i full
    rcases rotate_error failed with ⟨same, here | there⟩ | ⟨active, size, blocked⟩
    · have created : fault = some (.rotate .createTemp) := by
        unfold rotateFault at here
        split at here
        · cases here
          rfl
        · cases here
      rw [created, same]
      exact .untouched full
    · rw [if_pos full] at plain
      obtain ⟨refused, stops⟩ := @Blocked.rotate ⟨sw, false⟩ (.inl there) none
      cases stops.symm.trans plain
    · exact .stuck ⟨by rw [active, size]; exact full, blocked⟩
  · cases failed

theorem appendEntry_error {fault : Option EntryFault} {be : BufferedEntry} (possible : sw.appendEntry be = .ok sw')
    (failed : (⟨sw, false⟩ : FallibleWAL).appendEntry fault be = .error failure) :
    EntryLeft sw be fault failure.left := by
  obtain ⟨opened, prepared, _⟩ := ready_of_appendEntry possible
  rcases bind_error failed with unprepared | ⟨⟨middle, closed⟩, early, unwritten⟩
  · exact prepare_error prepared unprepared
  · obtain ⟨same, rfl⟩ := prepare_ok rfl early
    cases same.symm.trans prepared
    by_cases faulty : ∃ n, fault = some (.write n)
    · obtain ⟨n, rfl⟩ := faulty
      rw [write_fails] at unwritten
      cases unwritten
      exact .written prepared
    · rw [write_faultless fun n same => faulty ⟨n, same⟩] at unwritten
      rcases write_plain prepared be with ⟨_, _, done⟩ | ⟨_, _, refused, _⟩
      · cases done.symm.trans unwritten
      · cases refused.symm.trans possible

/-! ### Batches -/

theorem appendEntries_ok {entries : List BufferedEntry} {faults : Nat → Option EntryFault} (opened : s.closed = false)
    (ok : s.appendEntries entries faults = .ok s') : s.wal.appendBatch entries = .ok s'.wal ∧ s'.closed = false := by
  induction entries generalizing s faults with
  | nil =>
    cases ok
    exact ⟨rfl, opened⟩
  | cons be rest ih =>
    obtain ⟨middle, first, others⟩ := bind_ok ok
    obtain ⟨plain, opened⟩ := appendEntry_ok opened first
    rw [SegmentedWAL.appendBatch_cons, plain]
    exact ih opened others

/-- Without faults, and with an open file, this is the model without faults. -/
theorem appendEntries_plain {entries : List BufferedEntry} (ok : sw.appendBatch entries = .ok sw') :
    (⟨sw, false⟩ : FallibleWAL).appendEntries entries (fun _ => none) = .ok ⟨sw', false⟩ := by
  induction entries generalizing sw with
  | nil =>
    cases ok
    rfl
  | cons be rest ih =>
    rw [SegmentedWAL.appendBatch_cons] at ok
    obtain ⟨middle, first, others⟩ := bind_ok ok
    unfold appendEntries
    rw [appendEntry_plain first]
    exact ih others

theorem appendBatch_ok {entries : List BufferedEntry} {faults : Faults} (opened : s.closed = false)
    (ok : s.appendBatch entries faults = .ok s') : s.wal.appendBatch entries = .ok s'.wal ∧ s'.closed = false := by
  obtain ⟨middle, appended, synced⟩ := bind_ok ok
  split at synced
  · cases synced
  · split at synced
    · cases synced
    · cases synced
      exact appendEntries_ok opened appended

theorem appendBatch_plain {entries : List BufferedEntry} (ok : sw.appendBatch entries = .ok sw') :
    (⟨sw, false⟩ : FallibleWAL).appendBatch entries {} = .ok ⟨sw', false⟩ := by
  unfold FallibleWAL.appendBatch
  rw [appendEntries_plain ok]
  rfl

/-- Where a loop failed that nothing but a fault was in the way of. -/
theorem appendEntries_error {entries : List BufferedEntry} {faults : Nat → Option EntryFault}
    (possible : sw.appendBatch entries = .ok sw')
    (failed : (⟨sw, false⟩ : FallibleWAL).appendEntries entries faults = .error failure) :
    ∃ (k : Nat) (be : BufferedEntry) (middle next : SegmentedWAL), entries[k]? = some be ∧
      sw.appendBatch (entries.take k) = .ok middle ∧ middle.appendEntry be = .ok next ∧
      EntryLeft middle be (faults k) failure.left := by
  induction entries generalizing sw faults with
  | nil => cases failed
  | cons be rest ih =>
    rw [SegmentedWAL.appendBatch_cons] at possible
    obtain ⟨next, first, others⟩ := bind_ok possible
    rcases bind_error failed with here | ⟨⟨after, closed⟩, done, later⟩
    · exact ⟨0, be, sw, next, rfl, rfl, first, appendEntry_error first here⟩
    · obtain ⟨plain, rfl⟩ := appendEntry_ok rfl done
      cases plain.symm.trans first
      obtain ⟨k, other, middle, next, found, before, possible, left⟩ := ih others later
      refine ⟨k + 1, other, middle, next, found, ?_, possible, left⟩
      rw [List.take_succ_cons, SegmentedWAL.appendBatch_cons, first]
      exact before

/-- A batch fails at an entry, or at the `Sync` behind them all. -/
theorem appendBatch_error {entries : List BufferedEntry} {faults : Faults}
    (possible : sw.appendBatch entries = .ok sw')
    (failed : (⟨sw, false⟩ : FallibleWAL).appendBatch entries faults = .error failure) :
    (∃ (k : Nat) (be : BufferedEntry) (middle next : SegmentedWAL), entries[k]? = some be ∧
      sw.appendBatch (entries.take k) = .ok middle ∧ middle.appendEntry be = .ok next ∧
      EntryLeft middle be (faults.entry k) failure.left) ∨ failure.left = ⟨sw', false⟩ := by
  rcases bind_error failed with early | ⟨⟨after, closed⟩, done, late⟩
  · exact .inl (appendEntries_error possible early)
  · obtain ⟨plain, rfl⟩ := appendEntries_ok rfl done
    cases plain.symm.trans possible
    refine .inr ?_
    rw [if_neg Bool.false_ne_true] at late
    split at late
    · cases late
      rfl
    · cases late

/-! ### Attempts that leave nothing of the batch -/

/-- The first attempt fails before anything of the batch is in the log, and not in
the middle of a rotation. -/
def Harmless (sw : SegmentedWAL) (entries : List BufferedEntry) (faults : Faults) : Prop :=
  entries = [] ∨ faults.entry 0 = some (.write 0) ∨
    faults.entry 0 = some (.rotate .createTemp) ∧ sw.segmentSize ≤ sw.active.size

theorem ready_room {opened : SegmentedWAL} (sized : 0 < sw.segmentSize) (prepared : ready sw = .ok opened) :
    ¬ opened.active.size ≥ opened.segmentSize := by
  unfold ready at prepared
  split at prepared
  · obtain ⟨_, _, _, rfl⟩ := SegmentedWAL.rotate_inv prepared
    exact Nat.not_le.mpr sized
  · rename_i room
    cases prepared
    exact room

/-- A write of no bytes after the preparation makes no difference for the next attempt. -/
theorem appendEntry_again {opened : SegmentedWAL} (sized : 0 < sw.segmentSize) (prepared : ready sw = .ok opened)
    (be : BufferedEntry) : (withBytes opened []).appendEntry be = sw.appendEntry be := by
  have again : ready (withBytes opened []) = .ok (withBytes opened []) := if_neg (ready_room sized prepared)
  rw [appendEntry_of_ready again, appendEntry_of_ready prepared]
  simp only [withEntry, withBytes, List.append_nil, FinMap.get_set_self, Option.getD_some, FinMap.set_set]

/-- What a harmless failure leaves takes the batch as the log before it does. -/
theorem Harmless.left {be : BufferedEntry} {rest : List BufferedEntry} {faults : Faults}
    (harmless : Harmless sw (be :: rest) faults) (sized : 0 < sw.segmentSize) {next : SegmentedWAL}
    (possible : sw.appendEntry be = .ok next) :
    ∃ again, (⟨sw, false⟩ : FallibleWAL).appendEntry (faults.entry 0) be = .error ⟨.failed, ⟨again, false⟩⟩ ∧
      again.appendEntry be = .ok next := by
  rcases harmless with none | unwritten | ⟨uncreated, full⟩
  · cases none
  · obtain ⟨opened, prepared, _⟩ := ready_of_appendEntry possible
    refine ⟨withBytes opened [], ?_, (appendEntry_again sized prepared be).trans possible⟩
    unfold FallibleWAL.appendEntry
    rw [unwritten, show rotateFault (some (.write 0)) = none from rfl, prepare_plain prepared]
    exact write_fails opened 0 be
  · refine ⟨sw, ?_, possible⟩
    unfold FallibleWAL.appendEntry prepare
    rw [uncreated, if_pos full]
    rfl

/-- After a harmless failure the batch can be passed again, to the same effect as
if nothing had failed. -/
theorem Harmless.retry {entries : List BufferedEntry} {faults : Faults} (harmless : Harmless sw entries faults)
    (sized : 0 < sw.segmentSize) (possible : sw.appendBatch entries = .ok sw')
    (failed : (⟨sw, false⟩ : FallibleWAL).appendBatch entries faults = .error failure) :
    failure.left.appendBatch entries {} = .ok ⟨sw', false⟩ := by
  cases entries with
  | nil =>
    rcases appendBatch_error possible failed with ⟨k, be, _, _, found, _⟩ | synced
    · cases found
    · rw [synced]
      cases possible
      rfl
  | cons be rest =>
    rw [SegmentedWAL.appendBatch_cons] at possible
    obtain ⟨next, first, others⟩ := bind_ok possible
    obtain ⟨again, stopped, same⟩ := harmless.left sized first
    cases (appendBatch_cons_error stopped rest).symm.trans failed
    refine appendBatch_plain ?_
    rw [SegmentedWAL.appendBatch_cons, same]
    exact others

end FallibleWAL

/-! ### What the log holds after a failure -/

open FallibleWAL

/-- A batch that is appended tidily is so up to every entry. -/
theorem SegmentedWAL.AppendsTidily.upTo {codec : Codec} {sw middle : SegmentedWAL} {batch : List Entry} {k : Nat}
    {entry : Entry} (tidy : sw.AppendsTidily codec batch) (found : batch[k]? = some entry)
    (before : sw.appendBatch ((batch.take k).map (buffered codec)) = .ok middle) :
    sw.AppendsTidily codec (batch.take k) ∧ (middle.segmentSize ≤ middle.active.size → middle.Sealable codec) := by
  induction k generalizing sw batch with
  | zero =>
    cases batch with
    | nil => cases found
    | cons first rest =>
      cases before
      exact ⟨trivial, tidy.1⟩
  | succ k ih =>
    cases batch with
    | nil => cases found
    | cons first rest =>
      rw [List.take_succ_cons, List.map_cons, SegmentedWAL.appendBatch_cons] at before
      obtain ⟨next, appended, others⟩ := bind_ok before
      obtain ⟨here, later⟩ := tidy
      rw [appended] at later
      obtain ⟨front, sealable⟩ := ih later found others
      refine ⟨⟨here, ?_⟩, sealable⟩
      rw [appended]
      exact front

namespace Listed

variable {codec : Codec} {sw sw' opened : SegmentedWAL} {layout : Layout} {entry : Entry}

theorem ready (listed : Listed codec sw layout) (lawful : codec.Lawful)
    (tidy : sw.segmentSize ≤ sw.active.size → sw.Sealable codec) (prepared : FallibleWAL.ready sw = .ok opened) :
    ∃ layout', Listed codec opened layout' ∧ layout'.entries = layout.entries := by
  unfold FallibleWAL.ready at prepared
  split at prepared
  · rename_i full
    obtain ⟨rotated, layout', ok, listed', same, _⟩ := listed.rotate lawful (tidy full)
    cases ok.symm.trans prepared
    exact ⟨layout', listed', same⟩
  · cases prepared
    exact ⟨layout, listed, rfl⟩

theorem activeBytes (listed : Listed codec sw layout) :
    (sw.dir.get sw.active.path).getD [] = records codec layout.active := by
  rw [listed.stored.activePath, listed.stored.activeFile]
  rfl

theorem withBytes_nil (listed : Listed codec sw layout) : Listed codec (withBytes sw []) layout where
  stored := by
    refine ⟨listed.stored.shaped, fun name => ?_, listed.stored.sealed, listed.stored.covered, listed.stored.isActive,
      listed.stored.short⟩
    simp only [withBytes, List.append_nil, FinMap.get_set, listed.stored.activePath]
    split
    · rename_i here
      rw [here, ← listed.stored.files, listed.stored.activeFile]
      rfl
    · exact listed.stored.files name
  ranges := listed.ranges
  positive := listed.positive

theorem withBytes_record (listed : Listed codec sw layout) (encodable : (codec.marshal entry).isSome)
    (short : (records codec layout.active ++ record codec entry).length < maxOffset) :
    Listed codec (withBytes sw (record codec entry)) (layout.appended entry) where
  stored := by
    have wrote := listed.stored.write_spec encodable short sw.active.size sw.nextIndex
    rw [← listed.activeBytes] at wrote
    exact wrote
  ranges := listed.ranges
  positive := listed.positive

end Listed

/-- No write fails in the middle of a record. -/
def Untorn (entries : List BufferedEntry) (faults : Faults) : Prop :=
  ∀ k be n, entries[k]? = some be → faults.entry k = some (.write n) → n = 0 ∨ be.data.length ≤ n

namespace Listed

variable {codec : Codec} {sw whole : SegmentedWAL} {layout : Layout} {batch : List Entry}

/-- The entries in front of the one that fails are behind all that was there. -/
theorem upTo (listed : Listed codec sw layout) (lawful : codec.Lawful) (encodable : Encodable codec batch) {k : Nat}
    (tidy : sw.AppendsTidily codec (batch.take k)) {middle : SegmentedWAL}
    (before : sw.appendBatch ((batch.take k).map (buffered codec)) = .ok middle) :
    ∃ between, Listed codec middle between ∧ between.entries = layout.entries ++ batch.take k := by
  rcases listed.appendBatch lawful (fun entry member => encodable entry (List.mem_of_mem_take member)) tidy with
    tooBig | ⟨sw', between, ok, listed', grown, _⟩
  · cases tooBig.symm.trans before
  · cases ok.symm.trans before
    exact ⟨between, listed', grown⟩

/-- What an entry that fails leaves, if it is not stuck: the log without it, or with
all of it. -/
theorem entryLeft (listed : Listed codec sw layout) (lawful : codec.Lawful) {entry : Entry} {next : SegmentedWAL}
    {fault : Option EntryFault} {s : FallibleWAL} (encodable : (codec.marshal entry).isSome)
    (tidy : sw.segmentSize ≤ sw.active.size → sw.Sealable codec)
    (possible : sw.appendEntry (buffered codec entry) = .ok next)
    (untorn : ∀ n, fault = some (.write n) → n = 0 ∨ (buffered codec entry).data.length ≤ n)
    (left : EntryLeft sw (buffered codec entry) fault s) :
    s.Stuck ∨ ∃ wal layout', s = ⟨wal, false⟩ ∧ Listed codec wal layout' ∧
      (layout'.entries = layout.entries ++ [entry] ∨ layout'.entries = layout.entries ∧
        (fault = some (.write 0) ∨ fault = some (.rotate .createTemp) ∧ sw.segmentSize ≤ sw.active.size)) := by
  cases left with
  | stuck stuck => exact .inl stuck
  | untouched full => exact .inr ⟨sw, layout, rfl, listed, .inr ⟨rfl, .inr ⟨rfl, full⟩⟩⟩
  | @written n opened prepared =>
    obtain ⟨layout', listed', same⟩ := listed.ready lawful tidy prepared
    rcases untorn n rfl with rfl | all
    · exact .inr ⟨withBytes opened [], layout', rfl, listed'.withBytes_nil, .inr ⟨same, .inl rfl⟩⟩
    · -- the record is there, though the call failed
      obtain ⟨_, again, short⟩ := ready_of_appendEntry possible
      cases again.symm.trans prepared
      rw [listed'.activeBytes] at short
      rw [List.take_of_length_le all]
      refine .inr ⟨_, layout'.appended entry, rfl, listed'.withBytes_record encodable short, .inl ?_⟩
      rw [Layout.entries_appended, same]

/-- What a failed attempt leaves holds the entries that were written, if it is not
stuck; if there are none, the failure was harmless. -/
theorem left {faults : Faults} {failure : AppendFailure} (listed : Listed codec sw layout) (lawful : codec.Lawful)
    (encodable : Encodable codec batch) (tidy : sw.AppendsTidily codec batch)
    (possible : sw.appendBatch (batch.map (buffered codec)) = .ok whole)
    (failed : (⟨sw, false⟩ : FallibleWAL).appendBatch (batch.map (buffered codec)) faults = .error failure)
    (untorn : Untorn (batch.map (buffered codec)) faults) :
    failure.left.Stuck ∨ ∃ j wal layout', failure.left = ⟨wal, false⟩ ∧ Listed codec wal layout' ∧
      layout'.entries = layout.entries ++ batch.take j ∧ (j = 0 → Harmless sw (batch.map (buffered codec)) faults) := by
  rcases appendBatch_error possible failed with ⟨k, be, middle, next, found, before, further, left⟩ | synced
  · have uncut := untorn k be
    rw [List.getElem?_map] at found
    obtain ⟨entry, located, rfl⟩ := Option.map_eq_some_iff.mp found
    rw [← List.map_take] at before
    obtain ⟨front, sealable⟩ := tidy.upTo located before
    obtain ⟨between, listed', grown⟩ := listed.upTo lawful encodable front before
    have known := encodable entry (List.mem_of_getElem? located)
    have unbroken := fun n => uncut n (by rw [List.getElem?_map]; exact found)
    refine (listed'.entryLeft lawful known sealable further unbroken left).imp_right ?_
    rintro ⟨wal, layout', same, listed'', written | ⟨unwritten, cause⟩⟩
    · refine ⟨k + 1, wal, layout', same, listed'', ?_, by omega⟩
      rw [written, grown, List.append_assoc, List.take_add_one, located]
      rfl
    · refine ⟨k, wal, layout', same, listed'', unwritten.trans grown, ?_⟩
      rintro rfl
      cases before
      exact .inr cause
  · rcases listed.appendBatch lawful encodable tidy with tooBig | ⟨sw', layout', ok, listed', grown, _⟩
    · cases tooBig.symm.trans possible
    · cases ok.symm.trans possible
      refine .inr ⟨batch.length, whole, layout', synced, listed', by rw [grown, List.take_length], ?_⟩
      intro none
      exact .inl (by rw [List.length_eq_zero_iff.mp none]; rfl)

end Listed

/-! ### The size of a segment -/

namespace SegmentedWAL

variable {sw sw' : SegmentedWAL}

theorem rotate_segmentSize (ok : sw.rotate = .ok sw') : sw'.segmentSize = sw.segmentSize := by
  obtain ⟨_, _, _, rfl⟩ := rotate_inv ok
  rfl

theorem appendEntry_segmentSize {be : BufferedEntry} (ok : sw.appendEntry be = .ok sw') :
    sw'.segmentSize = sw.segmentSize := by
  unfold appendEntry at ok
  split at ok
  · cases ok
  · rename_i opened prepared
    have same : opened.segmentSize = sw.segmentSize := by
      split at prepared
      · exact rotate_segmentSize prepared
      · cases prepared
        rfl
    dsimp only at ok
    split at ok
    · cases ok
    · cases ok
      exact same

theorem appendBatch_segmentSize {entries : List BufferedEntry} (ok : sw.appendBatch entries = .ok sw') :
    sw'.segmentSize = sw.segmentSize := by
  induction entries generalizing sw with
  | nil =>
    cases ok
    rfl
  | cons be rest ih =>
    rw [appendBatch_cons] at ok
    obtain ⟨middle, first, others⟩ := bind_ok ok
    exact (ih others).trans (appendEntry_segmentSize first)

theorem truncate_segmentSize {upToIndex : Nat} (ok : sw.truncate upToIndex = .ok sw') :
    sw'.segmentSize = sw.segmentSize := by
  unfold truncate at ok
  dsimp only at ok
  split at ok
  · split at ok
    · cases ok
    · split at ok <;> cases ok <;> rfl
  · cases ok
    rfl

end SegmentedWAL

theorem sized_step {codec : Codec} {history history' : WalHistory} {op : WalOp} (sized : 0 < history.wal.segmentSize)
    (stepped : history.step codec op = some history') : 0 < history'.wal.segmentSize := by
  cases op with
  | append entries =>
    obtain ⟨_, wal, ok, rfl⟩ := WalHistory.step_append stepped
    exact (SegmentedWAL.appendBatch_segmentSize ok).symm ▸ sized
  | truncate upToIndex =>
    unfold WalHistory.step at stepped
    dsimp only at stepped
    split at stepped
    · cases stepped
    · rename_i ok
      cases stepped
      exact (SegmentedWAL.truncate_segmentSize ok).symm ▸ sized
  | reopen segmentSize =>
    unfold WalHistory.step at stepped
    dsimp only at stepped
    split at stepped
    · cases stepped
    · rename_i ok
      cases stepped
      exact newSegmentedWal_positive ok

theorem TidyRun.sized {codec : Codec} {first : SegmentedWAL} {size : Nat} {ops : List WalOp} {history : WalHistory}
    (opened : newSegmentedWal .empty size = .ok first) (run : TidyRun codec first ops history) :
    0 < history.wal.segmentSize :=
  run.invariant (fun _ history => 0 < history.wal.segmentSize) (newSegmentedWal_positive opened)
    fun _ _ _ _ sized _ stepped => sized_step sized stepped

/-! ### Retrying -/

/-- What `Recover` hands over of these entries. -/
def above (snapshotIndex : Nat) (entries : List Entry) : List Entry :=
  entries.filter fun entry => snapshotIndex < entry.index.toNat

/-- A batch that is passed again after a harmless failure is stored as if nothing
had failed. After any other failure that tears no record it is not: the retry fails
as well, or it delivers entries twice. -/
theorem failed_append_retried {codec : Codec} {first : SegmentedWAL} {size : Nat} {ops : List WalOp}
    {history history' : WalHistory} {batch : List Entry} {faults : Faults} {failure : AppendFailure}
    (lawful : codec.Lawful) (opened : newSegmentedWal .empty size = .ok first) (run : TidyRun codec first ops history)
    (tidy : history.Tidy codec (.append batch)) (possible : history.step codec (.append batch) = some history')
    (failed : (⟨history.wal, false⟩ : FallibleWAL).appendBatch (batch.map (buffered codec)) faults = .error failure) :
    ∃ entries, history.wal.contents codec = .ok entries ∧
      (Harmless history.wal (batch.map (buffered codec)) faults →
        ∃ wal, failure.left.appendBatch (batch.map (buffered codec)) {} = .ok ⟨wal, false⟩ ∧
          ∀ snapshotIndex, wal.recover codec snapshotIndex = .ok (above snapshotIndex (entries ++ batch))) ∧
      (¬ Harmless history.wal (batch.map (buffered codec)) faults → Untorn (batch.map (buffered codec)) faults →
        (∀ entry ∈ batch, 0 < entry.index.toNat) → failure.left.wal.AppendsTidily codec batch →
        ∀ s, failure.left.appendBatch (batch.map (buffered codec)) {} = .ok s →
          s.wal.recover codec 0 ≠ .ok (above 0 (entries ++ batch))) := by
  obtain ⟨layout, listed, _⟩ := run.arranged lawful opened
  obtain ⟨encodable, whole, ok, _⟩ := WalHistory.step_append possible
  refine ⟨layout.entries, listed.contents_eq lawful, fun harmless => ?_,
    fun harmful untorn positive again s retried => ?_⟩
  · refine ⟨whole, harmless.retry (run.sized opened) ok failed, fun snapshotIndex => ?_⟩
    rcases listed.appendBatch lawful encodable tidy.2 with tooBig | ⟨wal, layout', appended, listed', grown, _⟩
    · cases tooBig.symm.trans ok
    · cases appended.symm.trans ok
      rw [listed'.stored.recover_spec lawful listed'.ranges, grown]
      rfl
  · have some : batch.map (buffered codec) ≠ [] := fun none => harmful (.inl none)
    rcases listed.left lawful encodable tidy.2 ok failed untorn with
      stuck | ⟨j, wal, layout', left, listed', held, unharmed⟩
    · obtain ⟨_, stops, _⟩ := stuck.appendBatch some {}
      cases stops.symm.trans retried
    · rw [left] at retried again
      obtain ⟨plain, _⟩ := appendBatch_ok rfl retried
      rcases listed'.appendBatch lawful encodable again with tooBig | ⟨twice, layout'', appended, listed'', grown, _⟩
      · cases tooBig.symm.trans plain
      · cases appended.symm.trans plain
        rw [listed''.stored.recover_spec lawful listed''.ranges, grown, held]
        intro same
        -- the entries left by the failed attempt are there once more
        have extra : above 0 (batch.take j) = batch.take j := List.filter_eq_self.mpr fun entry member => by
          simpa using positive entry (List.mem_of_mem_take member)
        have count := congrArg List.length (Except.ok.inj same)
        have lengths : (batch.take j).length = 0 := by
          unfold above at count extra
          simp only [List.filter_append, List.length_append, extra] at count
          omega
        rw [List.length_take] at lengths
        have nonempty : batch.length ≠ 0 := fun none => some (by rw [List.length_eq_zero_iff.mp none]; rfl)
        exact harmful (unharmed (by omega))

/-! ### Given failures -/

private def numbered (index : UInt64) : Entry := ⟨1, index, .normal, none⟩

private def inBuffer (entries : List Entry) : List BufferedEntry := entries.map (buffered (wireCodec []))

/-- A new log in which every record fills a file. -/
private def tightWal : SegmentedWAL := ⟨FinMap.empty.set (.active 1) [], [], ⟨1, 0, 0, true⟩, 1, 1⟩

private def looseWal : SegmentedWAL := { tightWal with segmentSize := 1000 }

/-- The call for the `k`-th entry fails. -/
private def failsAt (k : Nat) (fault : EntryFault) : Faults := { entry := fun i => if i = k then some fault else none }

private theorem first_executes : ([WalOp.append [numbered 1]].foldlM (fun (history : WalHistory) op =>
    if history.Tidy (wireCodec []) op then history.step (wireCodec []) op else none) ⟨tightWal, [], []⟩).isSome = true :=
  rfl

/-- The active file is sealed, then nothing can be written. -/
theorem retried_after_rotation : ∃ history failure wal, TidyRun (wireCodec []) tightWal [.append [numbered 1]] history ∧
    (⟨history.wal, false⟩ : FallibleWAL).appendBatch (inBuffer [numbered 2, numbered 3]) (failsAt 0 (.write 0)) =
      .error failure ∧
    failure.left.appendBatch (inBuffer [numbered 2, numbered 3]) {} = .ok ⟨wal, false⟩ ∧
    wal.recover (wireCodec []) 0 = .ok [numbered 1, numbered 2, numbered 3] := by
  have run : TidyRun (wireCodec []) tightWal [.append [numbered 1]] (Option.get _ first_executes) :=
    Run.of_guarded (Option.some_get _).symm
  obtain ⟨failure, failed⟩ : ∃ failure, (⟨(Option.get _ first_executes).wal, false⟩ : FallibleWAL).appendBatch
      (inBuffer [numbered 2, numbered 3]) (failsAt 0 (.write 0)) = .error failure := ⟨_, rfl⟩
  have tidy : (Option.get _ first_executes).Tidy (wireCodec []) (.append [numbered 2, numbered 3]) := by decide
  obtain ⟨entries, held, retried, _⟩ :=
    failed_append_retried (wireCodec_lawful []) (newSegmentedWal_empty 1) run tidy rfl failed
  obtain ⟨wal, ok, delivered⟩ := retried (.inr (.inl rfl))
  cases held
  exact ⟨_, failure, wal, run, failed, ok, delivered 0⟩

/-- The second of two writes fails, and the retry delivers the first entry twice; a
write fails within a record, and after the retry nothing can be read; and a rotation
fails anywhere behind its first call, and no attempt ever succeeds again. -/
theorem failed_append_not_undone : newSegmentedWal .empty 1000 = .ok looseWal ∧
    (∃ failure s, (⟨looseWal, false⟩ : FallibleWAL).appendBatch (inBuffer [numbered 1, numbered 2])
        (failsAt 1 (.write 0)) = .error failure ∧
      failure.left.appendBatch (inBuffer [numbered 1, numbered 2]) {} = .ok s ∧
      s.wal.recover (wireCodec []) 0 = .ok [numbered 1, numbered 1, numbered 2]) ∧
    (∃ failure s, (⟨looseWal, false⟩ : FallibleWAL).appendBatch (inBuffer [numbered 1]) (failsAt 0 (.write 9)) =
        .error failure ∧
      failure.left.appendBatch (inBuffer [numbered 1]) {} = .ok s ∧
      s.wal.recover (wireCodec []) 0 = .error .badEntry) ∧
    ∃ history, TidyRun (wireCodec []) tightWal [.append [numbered 1]] history ∧
      ∀ call ≠ RotateCall.createTemp, ∃ failure, (⟨history.wal, false⟩ : FallibleWAL).appendBatch
          (inBuffer [numbered 2]) (failsAt 0 (.rotate call)) = .error failure ∧ failure.left.Stuck ∧
        ∀ faults, ∃ again, failure.left.appendBatch (inBuffer [numbered 2]) faults = .error again ∧
          again.left.Stuck := by
  refine ⟨rfl, ⟨_, _, rfl, rfl, rfl⟩, ⟨_, _, rfl, rfl, rfl⟩, Option.get _ first_executes,
    Run.of_guarded (Option.some_get _).symm, fun call late => ?_⟩
  have stops : ∃ failure, (⟨(Option.get _ first_executes).wal, false⟩ : FallibleWAL).appendBatch
      (inBuffer [numbered 2]) (failsAt 0 (.rotate call)) = .error failure ∧ failure.left.Stuck := by
    cases call with
    | createTemp => exact absurd rfl late
    | syncTemp | syncOld => exact ⟨_, rfl, by decide, .inl rfl⟩
    | closeOld | renameSealed | syncSealed | openSealed | closeTemp | promote | syncPromoted | openActive =>
      exact ⟨_, rfl, by decide, .inr rfl⟩
  obtain ⟨failure, failed, stuck⟩ := stops
  exact ⟨failure, failed, stuck, fun faults => stuck.appendBatch (List.cons_ne_nil _ _) faults⟩

end Cue.Cluster
