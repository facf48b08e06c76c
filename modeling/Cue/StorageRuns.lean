import Cue.StorageWal

/-! One step of the storage, seen from outside: it advances the log, or it is a
compaction that cuts it. Every invariant of a run follows from these two. -/
namespace Cue.Cluster
open Cue.Lib Cue.Model

/-- What a state of a run does not show: where the log was cut last, what the
files hold, and the two bounds of the write-ahead log. -/
structure Trace where
  cut : Nat
  layout : Layout
  written : Nat
  floor : Nat

structure Sound (codec : Codec) (first : Nat) (log : Log) (trace : Trace) : Prop where
  memory : Memory first trace.cut log
  logged : Logged codec log.committed log.core.wal log.core.writeBuffer trace.layout trace.written trace.floor
  floorLe : trace.floor ≤ trace.cut

/-- The storage opened on empty directories. -/
def freshCore (flushThreshold segmentSize : Nat) : StorageCore where
  entries := .empty
  hardState := {}
  confState := {}
  snapshotMeta := {}
  firstIndex := 1
  lastIndex := 0
  wal := {
    dir := FinMap.empty.set (.active 1) []
    segments := []
    active := ⟨1, 0, 0, true⟩
    nextIndex := 1
    segmentSize := if segmentSize > 0 then segmentSize else defaultSegmentSize }
  writeBuffer := []
  flushThreshold := flushThreshold
  jobIndex := .empty
  snapshotFile := none

theorem newRaftStorage_empty (codec : Codec) (flushThreshold segmentSize : Nat) :
    newRaftStorage codec .empty flushThreshold segmentSize = .ok (freshCore flushThreshold segmentSize) := rfl

namespace Sound

variable {codec : Codec} {first : Nat} {log log' : Log} {trace trace' : Trace} {op : LogOp}

theorem start {core : StorageCore} {flushThreshold segmentSize : Nat} (positive : 0 < first)
    (opened : newRaftStorage codec .empty flushThreshold segmentSize = .ok core) :
    Sound codec first ⟨core, [], 0⟩ ⟨1, Layout.empty, 0, 0⟩ := by
  obtain ⟨wal, created, holds⟩ := @new_holds codec segmentSize
  rw [newSegmentedWal_empty] at created
  cases created
  rw [newRaftStorage_empty] at opened
  cases opened
  refine ⟨⟨positive, trivial, Nat.le_refl _, ?_, Nat.one_pos, Nat.le_refl _, positive, Or.inr (by simp), ?_, rfl,
    rfl, ?_⟩, ⟨holds, Nat.le_refl _, rfl, ?_, ?_⟩, Nat.zero_le _⟩
  · simp [freshCore]
  · show 1 ≤ first + 0
    omega
  · intro id state found
    cases found
  · intro entry member
    cases member
  · rintro entry (⟨range, member, _⟩ | member) <;> cases member

theorem committed_consecutive (sound : Sound codec first log trace) : Consecutive first log.committed := by
  have consecutive := sound.memory.consecutive
  rw [← List.take_append_drop log.count log.appended, Consecutive.append_iff] at consecutive
  exact consecutive.1

theorem committed_ascending (sound : Sound codec first log trace) : Ascending log.committed :=
  .of_consecutive sound.memory.positive sound.committed_consecutive

theorem committed_length (sound : Sound codec first log trace) : log.committed.length = log.count := by
  simp [Log.committed, sound.memory.counted]

/-- A step that cuts nothing: at most one entry is committed, and the entries
behind the cut that are written stay in the files. -/
structure Advanced (codec : Codec) (log : Log) (trace : Trace) (log' : Log) (trace' : Trace) : Prop where
  cut : trace'.cut = trace.cut
  jobs : log'.committed = log.committed ∧ log'.core.jobIndex = log.core.jobIndex ∨
    ∃ entry, log'.committed = log.committed ++ [entry] ∧
      log'.core.jobIndex = indexEntry codec true log.core.jobIndex entry ∧
      trace.cut ≤ entry.index.toNat ∧ entry ∉ log.committed
  stored : ∀ entry ∈ log'.committed.take trace'.written, trace.cut ≤ entry.index.toNat →
    (entry ∈ log.committed.take trace.written → trace.layout.Stores entry) → trace'.layout.Stores entry

/-- A compaction that cuts the log. -/
structure CutBack (codec : Codec) (log : Log) (trace : Trace) (log' : Log) (trace' : Trace) : Prop where
  cuts : log.core.firstIndex < log.core.findFirstIndexToKeep
  cut : trace'.cut = log.core.findFirstIndexToKeep
  later : trace.cut ≤ trace'.cut
  committed : log'.committed = log.committed
  written : trace'.written = trace.written
  indices : Memory.Cut log.core trace.cut log.core.findFirstIndexToKeep log'.core.wal log'.core
  truncated : ∃ last, SegmentedWAL.Holds.Truncated codec log.core.wal trace.layout last trace.floor
    log.core.findFirstIndexToKeep log'.core.wal trace'.layout trace'.floor

theorem flushed (sound : Sound codec first log trace) {core : StorageCore} (ok : log.core.flushBuffer = .ok core) :
    ∃ trace', Sound codec first { log with core := core } trace' ∧
      Advanced codec log trace { log with core := core } trace' ∧ core.jobIndex = log.core.jobIndex ∧
      core.writeBuffer = [] := by
  unfold StorageCore.flushBuffer at ok
  split at ok
  · rename_i empty
    cases ok
    exact ⟨trace, sound, ⟨rfl, Or.inl ⟨rfl, rfl⟩, fun entry member _ was => was member⟩, rfl, empty⟩
  · split at ok
    · cases ok
    · rename_i wal written
      cases ok
      obtain ⟨layout, logged, kept⟩ := sound.logged.flush sound.committed_ascending written
      refine ⟨⟨trace.cut, layout, log.committed.length, trace.floor⟩,
        ⟨sound.memory.flush wal [], logged, sound.floorLe⟩, ⟨rfl, Or.inl ⟨rfl, rfl⟩, ?_⟩, rfl, rfl⟩
      intro entry member late was
      have inside : entry ∈ log.committed.take trace.written ++ log.committed.drop trace.written := by
        rw [List.take_append_drop]
        exact List.mem_of_mem_take member
      have floorLe := sound.floorLe
      have source : trace.layout.Stores entry ∨ entry ∈ log.committed.drop trace.written := by
        rcases List.mem_append.mp inside with old | new
        · exact Or.inl (was old)
        · exact Or.inr new
      rcases kept entry source with stores | low
      · exact stores
      · omega

theorem appended (sound : Sound codec first log trace) {entries : List Entry}
    (consecutive : Consecutive (first + log.appended.length) entries) :
    let log' : Log := { log with core := log.core.appendEntries entries, appended := log.appended ++ entries }
    Sound codec first log' trace ∧ Advanced codec log trace log' trace := by
  have committed : { log with appended := log.appended ++ entries }.committed = log.committed :=
    List.take_append_of_le_length sound.memory.counted
  obtain ⟨_, _, _, same⟩ := log.core.appendEntries_eq entries
  refine ⟨⟨sound.memory.append consecutive, ?_, sound.floorLe⟩, rfl, Or.inl ⟨committed, ?_⟩, ?_⟩
  · show Logged codec { log with appended := log.appended ++ entries }.committed _ _ _ _ _
    rw [committed, same]
    exact sound.logged
  · rw [same]
  · intro entry member _ was
    apply was
    rw [← committed]
    exact member

theorem noted (sound : Sound codec first log trace) {entry : Entry} (next : log.appended[log.count]? = some entry)
    (encodable : (codec.marshal entry).isSome) :
    let log' : Log := { log with core := log.core.noted codec entry, count := log.count + 1 }
    Sound codec first log' trace ∧ Advanced codec log trace log' trace := by
  have committed : { log with count := log.count + 1 }.committed = log.committed ++ [entry] := by
    simp [Log.committed, List.take_add_one, next]
  have index := sound.memory.index_next next
  have reach := sound.memory.reach
  refine ⟨⟨sound.memory.commit next, ?_, sound.floorLe⟩, rfl, Or.inr ⟨entry, committed, rfl, by omega, ?_⟩, ?_⟩
  · show Logged codec { log with count := log.count + 1 }.committed _ _ _ _ _
    rw [committed]
    exact sound.logged.note encodable
  · intro member
    have := sound.committed_consecutive.bounds member
    rw [sound.committed_length] at this
    omega
  · intro old member _ was
    apply was
    rw [← List.take_append_of_le_length sound.logged.progress, ← committed]
    exact member

theorem compacted (sound : Sound codec first log trace) (lawful : codec.Lawful)
    (cuts : log.core.firstIndex < log.core.findFirstIndexToKeep) :
    ∃ core trace', log.core.compact = .ok core ∧ Sound codec first { log with core := core } trace' ∧
      CutBack codec log trace { log with core := core } trace' := by
  obtain ⟨wal, layout, floor, truncated, effect, logged⟩ :=
    sound.logged.truncate lawful log.core.findFirstIndexToKeep
  obtain ⟨core, ok, memory, indices⟩ := sound.memory.compact_cuts cuts truncated
  have later := (sound.memory.cut_bounds cuts).1
  have floorLe : floor ≤ log.core.findFirstIndexToKeep := by
    have := sound.floorLe
    rcases effect.raised with same | raised <;> omega
  have same := indices.wal
  subst same
  refine ⟨core, ⟨log.core.findFirstIndexToKeep, layout, trace.written, floor⟩, ok, ⟨memory, ?_, floorLe⟩,
    cuts, rfl, later, rfl, rfl, indices, _, effect⟩
  show Logged codec log.committed _ _ _ _ _
  rw [indices.buffer]
  exact logged

/-- A step followed by a flush. -/
theorem Advanced.trans {middle : Log} {between : Trace} (before : Advanced codec log trace middle between)
    (after : Advanced codec middle between log' trace') (committed : log'.committed = middle.committed)
    (jobIndex : log'.core.jobIndex = middle.core.jobIndex) : Advanced codec log trace log' trace' := by
  refine ⟨after.cut.trans before.cut, ?_, ?_⟩
  · rw [committed, jobIndex]
    exact before.jobs
  · intro entry member late was
    exact after.stored entry member (before.cut ▸ late) fun inMiddle => before.stored entry inMiddle late was

/-- The two kinds of steps. -/
theorem step_cases (sound : Sound codec first log trace) (lawful : codec.Lawful)
    (stepped : log.step codec first op = some log') :
    ∃ trace', Sound codec first log' trace' ∧
      (Advanced codec log trace log' trace' ∨ op = .compact ∧ CutBack codec log trace log' trace') := by
  cases op with
  | append entries =>
    simp only [Log.step] at stepped
    split at stepped
    · rename_i consecutive
      cases stepped
      obtain ⟨after, advanced⟩ := sound.appended consecutive
      exact ⟨trace, after, Or.inl advanced⟩
    · cases stepped
  | commit =>
    simp only [Log.step] at stepped
    split at stepped
    · cases stepped
    · rename_i entry next
      split at stepped
      · cases stepped
      · rename_i core ok
        cases stepped
        obtain ⟨encodable, unflushed | flushes⟩ := StorageCore.appendCommitted_spec ok
        · subst unflushed
          obtain ⟨after, advanced⟩ := sound.noted next encodable
          exact ⟨trace, after, Or.inl advanced⟩
        · obtain ⟨middle, noted⟩ := sound.noted next encodable
          obtain ⟨trace', after, flushed, jobIndex, _⟩ := middle.flushed flushes
          exact ⟨trace', after, Or.inl (noted.trans flushed rfl jobIndex)⟩
  | flush =>
    simp only [Log.step] at stepped
    split at stepped
    · cases stepped
    · rename_i core ok
      cases stepped
      obtain ⟨trace', after, advanced, _, _⟩ := sound.flushed ok
      exact ⟨trace', after, Or.inl advanced⟩
  | compact =>
    simp only [Log.step] at stepped
    split at stepped
    · cases stepped
    · rename_i core ok
      cases stepped
      by_cases cuts : log.core.firstIndex < log.core.findFirstIndexToKeep
      · obtain ⟨core', trace', ok', after, back⟩ := sound.compacted lawful cuts
        cases ok.symm.trans ok'
        exact ⟨trace', after, Or.inr ⟨rfl, back⟩⟩
      · rw [Memory.compact_idle (Nat.not_lt.mp cuts)] at ok
        cases ok
        exact ⟨trace, sound, Or.inl ⟨rfl, Or.inl ⟨rfl, rfl⟩, fun entry member _ was => was member⟩⟩

end Sound
end Cue.Cluster
