import Cue.Cluster.EntryCodec
import Cue.Lib.Threads
import Cue.StorageRuns

/-! Threads that call `appendCommitted` and `flushBuffer` at the same time. The
sections that a lock protects are the steps, and any thread can take the next
one. A flush copies the buffer, writes the copy without the lock and cuts it off
the buffer afterwards; the compare-and-swap on `flushing` keeps other flushes
out meanwhile, and appending threads only add behind what was copied. -/
namespace Cue.Cluster
open Cue.Lib Cue.Model

namespace Flush

/-- What the threads share. The last two fields are bookkeeping that no step
reads: the entries in the order of their sections, and the batches that were
written. -/
structure Shared where
  core : StorageCore
  flushing : Bool
  entries : List Entry
  written : List (List BufferedEntry)
  deriving DecidableEq

/-- Where a thread stands between two sections. -/
inductive Phase where
  | idle
  /-- `appendCommitted` has unlocked and not yet looked at the threshold -/
  | appended
  /-- `flushBuffer` before its compare-and-swap -/
  | called
  /-- the swap succeeded, nothing is copied yet -/
  | entered
  | copied (batch : List BufferedEntry)
  | wrote (flushCount : Nat)
  /-- the deferred `flushing.Store(0)` is left -/
  | leaving
  deriving DecidableEq

/-- The section that is taken next. The threshold is compared with a length that
was read without the lock, so any value may have been seen. -/
inductive Section where
  | append (entry : Entry)
  | threshold (seen : Nat)
  | flush
  | swap
  | copy
  | write
  | clear
  | release
  deriving DecidableEq

/-- One section. An entry that cannot be encoded and a batch that cannot be
written are not part of the runs considered. -/
def act (codec : Codec) (s : Shared) : Phase → Section → Option (Shared × Phase)
  | .idle, .append entry =>
    match encodeBufferedEntry codec entry with
    | none => none
    | some bufferedEntry =>
      let core := { s.core with
        writeBuffer := s.core.writeBuffer ++ [bufferedEntry]
        jobIndex := indexEntry codec true s.core.jobIndex entry }
      some ({ s with core := core, entries := s.entries ++ [entry] }, .appended)
  | .appended, .threshold seen => some (s, if seen ≥ s.core.flushThreshold then .called else .idle)
  | .idle, .flush => some (s, .called)
  | .called, .swap => some (if s.flushing then (s, .idle) else ({ s with flushing := true }, .entered))
  | .entered, .copy =>
    if s.core.writeBuffer = [] then some (s, .leaving) else some (s, .copied s.core.writeBuffer)
  | .copied batch, .write =>
    match s.core.wal.appendBatch batch with
    | .error _ => none
    | .ok wal =>
      some ({ s with core := { s.core with wal := wal }, written := s.written ++ [batch] }, .wrote batch.length)
  | .wrote flushCount, .clear =>
    let rest := if s.core.writeBuffer.length ≥ flushCount then s.core.writeBuffer.drop flushCount else []
    some ({ s with core := { s.core with writeBuffer := rest } }, .leaving)
  | .leaving, .release => some ({ s with flushing := false }, .idle)
  | _, _ => none

abbrev Run (T : Type) [DecidableEq T] (codec : Codec) (core : StorageCore) :
    List (T × Section) → Threads T Shared Phase → Prop :=
  Lib.Run (fun threads op threads' => threads.step (act codec) op = some threads') (fun _ _ _ => True)
    ⟨⟨core, false, [], []⟩, fun _ => .idle⟩

/-- Between a successful compare-and-swap and the store that undoes it. -/
def Phase.Inside : Phase → Prop
  | .entered | .copied _ | .wrote _ | .leaving => True
  | .idle | .appended | .called => False

/-- No flush is between its `AppendBatch` and its clearing step. -/
def Calm {T : Type} (locals : T → Phase) : Prop := ∀ t flushCount, locals t ≠ .wrote flushCount

/-- The entries that were appended, encoded, behind what `core` had buffered. -/
def committed (codec : Codec) (core : StorageCore) (s : Shared) : List BufferedEntry :=
  core.writeBuffer ++ s.entries.map (buffered codec)

/-- What a thread that stands at a phase can rely on. One that wrote its batch
and has not cut it off yet finds it at the front of the buffer. -/
def Fits (codec : Codec) (core : StorageCore) (s : Shared) : Phase → Prop
  | .idle | .appended | .called => True
  | .entered | .leaving => s.flushing = true
  | .copied batch => s.flushing = true ∧ batch <+: s.core.writeBuffer
  | .wrote flushCount => s.flushing = true ∧ flushCount ≤ s.core.writeBuffer.length ∧
      s.written.flatten ++ s.core.writeBuffer.drop flushCount = committed codec core s

section Invariant

variable {codec : Codec} {core : StorageCore} {s : Shared} {phase : Phase}

theorem fits_outside (outside : ¬ phase.Inside) : Fits codec core s phase := by
  cases phase with
  | idle | appended | called => exact trivial
  | entered | copied _ | wrote _ | leaving => exact absurd trivial outside

theorem Fits.guarded (fits : Fits codec core s phase) (inside : phase.Inside) : s.flushing = true := by
  cases phase with
  | idle | appended | called => exact inside.elim
  | entered | leaving => exact fits
  | copied _ | wrote _ => exact fits.1

/-- An entry added behind the buffer changes nothing for a thread that copied it. -/
theorem Fits.append (fits : Fits codec core s phase) (entry : Entry) (jobIndex : JobIndex) :
    Fits codec core { s with
      core := { s.core with writeBuffer := s.core.writeBuffer ++ [buffered codec entry], jobIndex := jobIndex }
      entries := s.entries ++ [entry] } phase := by
  cases phase with
  | idle | appended | called | entered | leaving => exact fits
  | copied batch => exact ⟨fits.1, fits.2.trans (List.prefix_append _ _)⟩
  | wrote flushCount =>
    obtain ⟨guarded, within, balance⟩ := fits
    refine ⟨guarded, within.trans (by simp), ?_⟩
    simp only [committed, List.map_append, List.map_cons, List.map_nil] at balance ⊢
    rw [List.drop_append_of_le_length within, ← List.append_assoc, balance, List.append_assoc]

variable {T : Type}

/-- What holds between any two sections. -/
structure Sound (codec : Codec) (core : StorageCore) (threads : Threads T Shared Phase) : Prop where
  alone : Alone Phase.Inside threads.locals
  fits : ∀ t, Fits codec core threads.shared (threads.locals t)
  kept : Calm threads.locals →
    threads.shared.written.flatten ++ threads.shared.core.writeBuffer = committed codec core threads.shared
  files : threads.shared.written.foldlM SegmentedWAL.appendBatch core.wal = .ok threads.shared.core.wal

theorem Sound.start (codec : Codec) (core : StorageCore) :
    Sound codec core (⟨⟨core, false, [], []⟩, fun _ => .idle⟩ : Threads T Shared Phase) := by
  refine ⟨?_, fun _ => trivial, ?_, rfl⟩
  · intro t u inside
    exact inside.elim
  · intro _
    simp [committed]

/-- The entries of a run in the order of their sections. -/
def appends (ops : List (T × Section)) : List Entry :=
  ops.filterMap fun op => match op.2 with
    | .append entry => some entry
    | _ => none

theorem act_entries {s' : Shared} {phase' : Phase} {taken : Section} (t : T)
    (acted : act codec s phase taken = some (s', phase')) : s'.entries = s.entries ++ appends [(t, taken)] := by
  unfold act at acted
  split at acted
  · split at acted
    · cases acted
    · cases acted
      rfl
  · cases acted
    simp [appends]
  · cases acted
    simp [appends]
  · split at acted <;> cases acted <;> simp [appends]
  · split at acted <;> cases acted <;> simp [appends]
  · split at acted
    · cases acted
    · cases acted
      simp [appends]
  · cases acted
    simp [appends]
  · cases acted
    simp [appends]
  · cases acted

variable [DecidableEq T] {locals : T → Phase} {t : T} {place : Phase}

/-- A thread that has written nothing leaves behind a state as calm as it finds. -/
theorem calm_of_update (quiet : ∀ n, locals t ≠ .wrote n) (calm : Calm (Function.update locals t place)) :
    Calm locals := by
  intro u flushCount there
  by_cases here : u = t
  · exact quiet flushCount (here ▸ there)
  · exact calm u flushCount (by rw [Function.update_of_ne here, there])

namespace Sound

variable (sound : Sound codec core ⟨s, locals⟩)
include sound

/-- A thread that moves on outside, or to where it can rely on as much. -/
theorem move (outside : ¬ place.Inside) (quiet : ∀ n, locals t ≠ .wrote n) :
    Sound codec core ⟨s, Function.update locals t place⟩ := by
  refine ⟨sound.alone.leave outside, ?_, fun calm => sound.kept (calm_of_update quiet calm), sound.files⟩
  exact (Function.forall_update_iff locals fun _ phase => Fits codec core s phase).mpr
    ⟨fits_outside outside, fun u _ => sound.fits u⟩

theorem append {entry : Entry} {jobIndex : JobIndex} (here : locals t = .idle) :
    Sound codec core ⟨{ s with
      core := { s.core with writeBuffer := s.core.writeBuffer ++ [buffered codec entry], jobIndex := jobIndex }
      entries := s.entries ++ [entry] }, Function.update locals t .appended⟩ := by
  have quiet : ∀ n, locals t ≠ .wrote n := by
    intro n there
    rw [here] at there
    cases there
  refine ⟨sound.alone.leave id, ?_, ?_, sound.files⟩
  · exact (Function.forall_update_iff locals fun _ phase => Fits codec core _ phase).mpr
      ⟨trivial, fun u _ => (sound.fits u).append entry jobIndex⟩
  · intro calm
    have balance := sound.kept (calm_of_update quiet calm)
    simp only [committed, List.map_append, List.map_cons, List.map_nil] at balance ⊢
    rw [← List.append_assoc, balance, List.append_assoc]

/-- Nobody is inside when the swap finds zero. -/
theorem enter (free : s.flushing = false) (here : locals t = .called) :
    Sound codec core ⟨{ s with flushing := true }, Function.update locals t .entered⟩ := by
  have outside : ∀ u, ¬ (locals u).Inside := by
    intro u inside
    have busy := (sound.fits u).guarded inside
    rw [free] at busy
    cases busy
  have quiet : ∀ n, locals t ≠ .wrote n := by
    intro n there
    rw [here] at there
    cases there
  refine ⟨Alone.occupy fun u _ => outside u, ?_, fun calm => sound.kept (calm_of_update quiet calm), sound.files⟩
  exact (Function.forall_update_iff locals fun _ phase => Fits codec core _ phase).mpr
    ⟨rfl, fun u _ => fits_outside (outside u)⟩

/-- A thread inside goes on; the others, all outside, rely on nothing. -/
theorem proceed {s' : Shared} (inside : (locals t).Inside) (fits : Fits codec core s' place)
    (kept : Calm (Function.update locals t place) →
      s'.written.flatten ++ s'.core.writeBuffer = committed codec core s')
    (files : s'.written.foldlM SegmentedWAL.appendBatch core.wal = .ok s'.core.wal) :
    Sound codec core ⟨s', Function.update locals t place⟩ := by
  have others : ∀ u, u ≠ t → ¬ (locals u).Inside := fun u other => sound.alone.others inside other
  refine ⟨Alone.occupy others, ?_, kept, files⟩
  exact (Function.forall_update_iff locals fun _ phase => Fits codec core s' phase).mpr
    ⟨fits, fun u other => fits_outside (others u other)⟩

end Sound

/-- While one thread is inside without a written batch, no thread has one. -/
theorem Sound.calm (sound : Sound codec core ⟨s, locals⟩) (inside : (locals t).Inside)
    (quiet : ∀ n, locals t ≠ .wrote n) : Calm locals := by
  intro u flushCount there
  by_cases here : u = t
  · exact quiet flushCount (here ▸ there)
  · apply sound.alone.others inside here
    dsimp only
    rw [there]
    exact trivial

/-- A batch at the front of the buffer is written and not cut off yet. -/
theorem Sound.write {batch : List BufferedEntry} {wal : SegmentedWAL} (sound : Sound codec core ⟨s, locals⟩)
    (here : locals t = .copied batch) (ok : s.core.wal.appendBatch batch = .ok wal) :
    Sound codec core ⟨{ s with core := { s.core with wal := wal }, written := s.written ++ [batch] },
      Function.update locals t (.wrote batch.length)⟩ := by
  have inside : (locals t).Inside := by rw [here]; exact trivial
  have balance := sound.kept (sound.calm inside (by simp [here]))
  have fits := sound.fits t
  dsimp only at fits
  rw [here] at fits
  obtain ⟨guarded, rest, behind⟩ := fits
  refine sound.proceed inside ⟨guarded, ?_, ?_⟩ ?_ ?_
  · simp [← behind]
  · dsimp only [committed] at balance ⊢
    rw [← balance, ← behind, List.drop_left]
    simp
  · intro calm
    exact absurd (Function.update_self ..) (calm t batch.length)
  · have files := sound.files
    dsimp only at files ⊢
    rw [List.foldlM_append, files]
    show List.foldlM _ _ _ = _
    rw [List.foldlM_cons, ok]
    rfl

theorem Sound.step {threads threads' : Threads T Shared Phase} {op : T × Section}
    (sound : Sound codec core threads) (stepped : threads.step (act codec) op = some threads') :
    Sound codec core threads' := by
  obtain ⟨shared, place, acted, rfl⟩ := Threads.step_eq_some.mp stepped
  obtain ⟨s, locals⟩ := threads
  obtain ⟨t, taken⟩ := op
  dsimp only at acted ⊢
  have fits := sound.fits t
  dsimp only at fits
  cases here : locals t with
  | idle =>
    have quiet : ∀ n, locals t ≠ .wrote n := by simp [here]
    rw [here] at acted
    cases taken with
    | append entry =>
      simp only [act] at acted
      split at acted
      · cases acted
      · rename_i encoded
        obtain ⟨rfl, _⟩ := encodeBufferedEntry_some encoded
        cases acted
        exact sound.append here
    | flush =>
      cases acted
      exact sound.move id quiet
    | _ => cases acted
  | appended =>
    have quiet : ∀ n, locals t ≠ .wrote n := by simp [here]
    rw [here] at acted
    cases taken with
    | threshold seen =>
      cases acted
      refine sound.move ?_ quiet
      split <;> exact id
    | _ => cases acted
  | called =>
    have quiet : ∀ n, locals t ≠ .wrote n := by simp [here]
    rw [here] at acted
    cases taken with
    | swap =>
      simp only [act] at acted
      split at acted
      · cases acted
        exact sound.move id quiet
      · rename_i free
        cases acted
        exact sound.enter (by simpa using free) here
    | _ => cases acted
  | entered =>
    have inside : (locals t).Inside := by rw [here]; exact trivial
    have balance := sound.kept (sound.calm inside (by simp [here]))
    rw [here] at acted fits
    cases taken with
    | copy =>
      simp only [act] at acted
      split at acted
      · cases acted
        exact sound.proceed inside fits (fun _ => balance) sound.files
      · cases acted
        exact sound.proceed inside ⟨fits, List.prefix_refl _⟩ (fun _ => balance) sound.files
    | _ => cases acted
  | copied batch =>
    rw [here] at acted
    cases taken with
    | write =>
      simp only [act] at acted
      split at acted
      · cases acted
      · rename_i ok
        cases acted
        exact sound.write here ok
    | _ => cases acted
  | wrote flushCount =>
    have inside : (locals t).Inside := by rw [here]; exact trivial
    rw [here] at acted fits
    obtain ⟨guarded, within, balance⟩ := fits
    cases taken with
    | clear =>
      cases acted
      rw [if_pos within]
      exact sound.proceed inside guarded (fun _ => balance) sound.files
    | _ => cases acted
  | leaving =>
    have inside : (locals t).Inside := by rw [here]; exact trivial
    have balance := sound.kept (sound.calm inside (by simp [here]))
    rw [here] at acted
    cases taken with
    | release =>
      cases acted
      exact sound.proceed inside trivial (fun _ => balance) sound.files
    | _ => cases acted

theorem Run.sound {ops : List (T × Section)} {threads : Threads T Shared Phase} (run : Run T codec core ops threads) :
    Sound codec core threads :=
  Lib.Run.invariant (fun _ threads => Sound codec core threads) (.start codec core)
    (fun _ _ _ _ sound _ stepped => sound.step stepped) run

theorem Run.entries_eq {ops : List (T × Section)} {threads : Threads T Shared Phase}
    (run : Run T codec core ops threads) : threads.shared.entries = appends ops := by
  refine Lib.Run.invariant (fun ops threads => threads.shared.entries = appends ops) rfl ?_ run
  intro ops threads op threads' before _ stepped
  obtain ⟨shared, place, acted, rfl⟩ := Threads.step_eq_some.mp stepped
  rw [act_entries op.1 acted, before]
  simp [appends]

end Invariant

/-! ### One thread on its own -/

section Solo

variable {codec : Codec} {s : Shared}

/-- The sections of one thread, with no other thread between them. -/
def solo (codec : Codec) (sections : List Section) (at' : Shared × Phase) : Option (Shared × Phase) :=
  sections.foldlM (fun (place : Shared × Phase) taken => act codec place.1 place.2 taken) at'

@[simp] theorem solo_nil (place : Shared × Phase) : solo codec [] place = some place := rfl

@[simp] theorem solo_cons (taken : Section) (sections : List Section) (place : Shared × Phase) :
    solo codec (taken :: sections) place = (act codec place.1 place.2 taken).bind (solo codec sections) := rfl

theorem solo_append (first second : List Section) (place : Shared × Phase) :
    solo codec (first ++ second) place = (solo codec first place).bind (solo codec second) := by
  unfold solo
  rw [List.foldlM_append]
  rfl

/-- A flush that nothing disturbs is `flushBuffer`. -/
theorem solo_flush {core' : StorageCore} (free : s.flushing = false) (flushed : s.core.flushBuffer = .ok core') :
    ∃ sections written, solo codec sections (s, .called) =
      some ({ s with core := core', written := written }, .idle) := by
  obtain ⟨core, flushing, entries, written⟩ := s
  cases free
  unfold StorageCore.flushBuffer at flushed
  split at flushed
  · rename_i empty
    dsimp only at empty
    cases flushed
    refine ⟨[.swap, .copy, .release], written, ?_⟩
    simp [act, empty]
  · rename_i filled
    dsimp only at filled
    split at flushed
    · cases flushed
    · rename_i wal ok
      cases flushed
      refine ⟨[.swap, .copy, .write, .clear, .release], written ++ [core.writeBuffer], ?_⟩
      simp [act, filled, ok]

/-- A call that nothing disturbs is `appendCommitted`. -/
theorem solo_appendCommitted {core' : StorageCore} {entry : Entry} (free : s.flushing = false)
    (appended : s.core.appendCommitted codec entry = .ok core') :
    ∃ sections written, solo codec sections (s, .idle) =
      some ({ s with core := core', written := written, entries := s.entries ++ [entry] }, .idle) := by
  unfold StorageCore.appendCommitted at appended
  split at appended
  · cases appended
  · rename_i bufferedEntry encoded
    dsimp only at appended
    have locked (seen : Nat) : solo codec [.append entry, .threshold seen] (s, .idle) = some
        ({ s with
          core := { s.core with
            writeBuffer := s.core.writeBuffer ++ [bufferedEntry]
            jobIndex := indexEntry codec true s.core.jobIndex entry }
          entries := s.entries ++ [entry] }, if seen ≥ s.core.flushThreshold then .called else .idle) := by
      simp [act, encoded]
    split at appended
    · rename_i reached
      obtain ⟨sections, written, flushed⟩ := @solo_flush codec { s with
        core := { s.core with
          writeBuffer := s.core.writeBuffer ++ [bufferedEntry]
          jobIndex := indexEntry codec true s.core.jobIndex entry }
        entries := s.entries ++ [entry] } _ free appended
      refine ⟨[.append entry, .threshold (s.core.writeBuffer ++ [bufferedEntry]).length] ++ sections, written, ?_⟩
      rw [solo_append, locked, if_pos reached, Option.bind_some, flushed]
    · rename_i below
      cases appended
      refine ⟨[.append entry, .threshold (s.core.writeBuffer ++ [bufferedEntry]).length], s.written, ?_⟩
      rw [locked, if_neg below]

end Solo

/-- Whenever no flush is between writing its batch and cutting it off, the
written batches followed by the buffer are the entries in the order in which
they were appended, and the log is what these batches made it. -/
theorem flushing_keeps_every_entry {T : Type} [DecidableEq T] {codec : Codec} {core : StorageCore}
    {ops : List (T × Section)} {threads : Threads T Shared Phase} (run : Run T codec core ops threads)
    (calm : Calm threads.locals) :
    threads.shared.written.flatten ++ threads.shared.core.writeBuffer =
        core.writeBuffer ++ (appends ops).map (buffered codec) ∧
      threads.shared.written.foldlM SegmentedWAL.appendBatch core.wal = .ok threads.shared.core.wal := by
  have sound := run.sound
  have balance := sound.kept calm
  rw [committed, run.entries_eq] at balance
  exact ⟨balance, sound.files⟩

private def racedEntry (index : UInt64) : Entry := ⟨1, index, .normal, some [7]⟩

/-- Two threads with a threshold of two. The second one appends while the first
has its copy, and finds the flush taken. -/
private def racedOps : List (Bool × Section) :=
  [(false, .append (racedEntry 1)), (true, .append (racedEntry 2)), (false, .threshold 2), (false, .swap),
    (true, .threshold 2), (false, .copy), (true, .swap), (true, .append (racedEntry 3)), (false, .write),
    (false, .clear), (false, .release)]

private def racedStart : Threads Bool Shared Phase := ⟨⟨freshCore 2 1, false, [], []⟩, fun _ => .idle⟩

-- the run below is evaluated
set_option maxRecDepth 4000

private theorem raced_executes :
    (racedOps.foldlM (Threads.step (act (wireCodec []))) racedStart).isSome = true := rfl

private theorem raced_ends :
    ((racedOps.foldlM (Threads.step (act (wireCodec []))) racedStart).get raced_executes).locals =
    fun t => if t then .appended else .idle := by
  funext t
  cases t <;> rfl

theorem raced_entries_kept : ∃ threads, Run Bool (wireCodec []) (freshCore 2 1) racedOps threads ∧
    Calm threads.locals ∧ threads.shared.core.writeBuffer ≠ [] ∧
    threads.shared.written.flatten ++ threads.shared.core.writeBuffer =
      [racedEntry 1, racedEntry 2, racedEntry 3].map (buffered (wireCodec [])) := by
  have run : Run Bool (wireCodec []) (freshCore 2 1) racedOps (Option.get _ raced_executes) :=
    Lib.Run.of_execute (fun _ _ _ _ taken => ⟨trivial, taken⟩) (Option.some_get _).symm
  have calm : Calm (Option.get _ raced_executes).locals := by
    intro t flushCount
    rw [raced_ends]
    cases t <;> simp
  exact ⟨_, run, calm, by decide, (flushing_keeps_every_entry run calm).1⟩

end Flush
end Cue.Cluster
