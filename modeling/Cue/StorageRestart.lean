import Cue.Cluster.EntryCodec
import Cue.StorageReopen

/-! What a storage answers after it was closed and opened again. Entries come
back from the write-ahead log and the snapshot's metadata from its file; the hard
state is written nowhere, and the configuration is written but not read back.

- `Restored` is that every answer is the one from before.
- `restored_iff` says for which runs that is so.
- `restart_forgets_vote` is a run of two steps for which it is not. -/
namespace Cue.Cluster
open Cue.Lib Cue.Model

/-- A storage with what was done to it. -/
structure StorageHistory where
  core : StorageCore
  appended : List Entry := []
  committed : List Entry := []
  /-- the last one that was set -/
  hardState : HardState := {}
  /-- the last one that was set -/
  confState : ConfState := {}
  deriving DecidableEq

inductive StorageOp where
  | append (entries : List Entry)
  | appendCommitted (entry : Entry)
  | setHardState (hs : HardState)
  | setConfState (cs : ConfState)
  | installSnapshot (snapshotMeta : SnapshotMetadata)

namespace StorageHistory

def step (codec : Codec) (history : StorageHistory) : StorageOp → Option StorageHistory
  | .append entries => some { history with
      core := history.core.appendEntries entries
      appended := history.appended ++ entries }
  | .appendCommitted entry =>
    match history.core.appendCommitted codec entry with
    | .error _ => none
    | .ok core => some { history with core := core, committed := history.committed ++ [entry] }
  | .setHardState hs => some { history with core := history.core.setHardState hs, hardState := hs }
  | .setConfState cs => some { history with core := history.core.setConfState cs, confState := cs }
  | .installSnapshot snapshotMeta => some { history with core := history.core.installSnapshot snapshotMeta }

/-- The answers of the storage that was opened again: what was set last, and for
the log the same as before, above the snapshot. -/
structure Restored (size : Entry → Nat) (history : StorageHistory) (reopened : StorageCore) : Prop where
  initialState : reopened.initialState = (history.hardState, history.confState)
  firstIndex : reopened.firstIndex = history.core.firstIndex
  lastIndex : reopened.lastIndex = history.core.lastIndex
  term : ∀ idx, history.core.snapshotMeta.index < idx → reopened.term idx = history.core.term idx
  entries : ∀ lo hi maxSize, history.core.snapshotMeta.index < lo →
    reopened.entriesBetween size lo hi maxSize = history.core.entriesBetween size lo hi maxSize

/-- All committed entries are in memory, and they begin at index 1. -/
def Held (history : StorageHistory) : Prop :=
  (∀ entry ∈ history.committed, history.core.entries.get entry.index.toNat = some entry) ∧
    ∀ entry ∈ history.committed.head?, entry.index.toNat = 1

end StorageHistory

/-! ### The log in memory -/

/-- What the log in memory keeps of the entries appended to it, in whatever order
they came. -/
structure Remembers (appended : List Entry) (core : StorageCore) : Prop where
  present : ∀ index entry, core.entries.get index = some entry → entry ∈ appended ∧ entry.index.toNat = index
  first : (∀ entry ∈ appended, 0 < entry.index.toNat) → core.firstIndex = 1
  bound : ∀ entry ∈ appended, entry.index.toNat ≤ core.lastIndex
  reached : core.lastIndex = 0 ∨ ∃ entry ∈ appended, entry.index.toNat = core.lastIndex

namespace Remembers

variable {appended : List Entry} {core : StorageCore}

theorem fresh (flushThreshold segmentSize : Nat) : Remembers [] (freshCore flushThreshold segmentSize) :=
  ⟨nofun, fun _ => rfl, nofun, Or.inl rfl⟩

private theorem appendOne (remembers : Remembers appended core) (entry : Entry) :
    Remembers (appended ++ [entry]) (core.appendOne entry) where
  present index other found := by
    simp only [StorageCore.appendOne, FinMap.get_set] at found
    split at found
    · cases found
      exact ⟨by simp, by symm; assumption⟩
    · -- a removed tail only takes entries away
      have old : core.entries.get index = some other := by
        split at found
        · exact (FinMap.get_filter_some.mp found).1
        · exact found
      obtain ⟨member, same⟩ := remembers.present index other old
      exact ⟨List.mem_append_left _ member, same⟩
  first positive := by
    have before := remembers.first fun other member => positive other (List.mem_append_left _ member)
    have here := positive entry (by simp)
    simp only [StorageCore.appendOne, before]
    rw [if_neg (by omega)]
  bound other member := by
    simp only [StorageCore.appendOne]
    rcases List.mem_append.mp member with old | new
    · have := remembers.bound other old
      split <;> omega
    · rw [List.mem_singleton.mp new]
      split <;> omega
  reached := by
    simp only [StorageCore.appendOne]
    split
    · exact Or.inr ⟨entry, by simp, rfl⟩
    · refine remembers.reached.imp_right ?_
      rintro ⟨other, member, same⟩
      exact ⟨other, List.mem_append_left _ member, same⟩

theorem appendEntries (remembers : Remembers appended core) (entries : List Entry) :
    Remembers (appended ++ entries) (core.appendEntries entries) := by
  induction entries generalizing appended core with
  | nil => simpa [StorageCore.appendEntries] using remembers
  | cons entry entries ih =>
    have after := ih (remembers.appendOne entry)
    rwa [List.append_assoc] at after

end Remembers

/-! ### Runs -/

/-- What holds of a storage during a run. -/
structure Recorded (codec : Codec) (history : StorageHistory) : Prop where
  hardState : history.core.hardState = history.hardState
  confState : history.core.confState = history.confState
  saved : history.core.snapshotFile.getD {} = history.core.snapshotMeta
  remembers : Remembers history.appended history.core
  journaled : Ascending history.committed →
    ∃ written layout floor, Journaled codec history.committed history.core written layout floor

namespace Recorded

variable {codec : Codec} {history history' : StorageHistory} {op : StorageOp}

theorem start (codec : Codec) (flushThreshold segmentSize : Nat) :
    Recorded codec { core := freshCore flushThreshold segmentSize } :=
  ⟨rfl, rfl, rfl, .fresh _ _, fun _ => ⟨_, _, _, .start (newRaftStorage_empty _ _ _)⟩⟩

/-- A step that leaves the log alone, in memory and in the files. -/
private theorem frame (recorded : Recorded codec history) (core : StorageCore)
    (log : core.entries = history.core.entries ∧ core.firstIndex = history.core.firstIndex ∧
      core.lastIndex = history.core.lastIndex)
    (files : core.wal = history.core.wal ∧ core.writeBuffer = history.core.writeBuffer) :
    Remembers history.appended core ∧ (Ascending history.committed →
      ∃ written layout floor, Journaled codec history.committed core written layout floor) := by
  obtain ⟨present, first, bound, reached⟩ := recorded.remembers
  rw [← log.1] at present
  rw [← log.2.1] at first
  rw [← log.2.2] at bound reached
  refine ⟨⟨present, first, bound, reached⟩, fun ascending => ?_⟩
  obtain ⟨written, layout, floor, journaled⟩ := recorded.journaled ascending
  exact ⟨written, layout, floor, files.1 ▸ journaled.faithful, journaled.progress, files.2 ▸ journaled.buffer,
    journaled.encodable⟩

theorem step (recorded : Recorded codec history) (stepped : history.step codec op = some history') :
    Recorded codec history' := by
  cases op with
  | append entries =>
    cases stepped
    have remembers := recorded.remembers.appendEntries entries
    obtain ⟨entries', firstIndex, lastIndex, same⟩ := history.core.appendEntries_eq entries
    rw [same] at remembers
    simp only [same]
    refine ⟨recorded.hardState, recorded.confState, recorded.saved, remembers, fun ascending => ?_⟩
    obtain ⟨written, layout, floor, journaled⟩ := recorded.journaled ascending
    exact ⟨written, layout, floor, journaled.faithful, journaled.progress, journaled.buffer, journaled.encodable⟩
  | appendCommitted entry =>
    simp only [StorageHistory.step] at stepped
    split at stepped
    · cases stepped
    · rename_i core ok
      cases stepped
      obtain ⟨wal, writeBuffer, rfl⟩ := StorageCore.appendCommitted_frame ok
      obtain ⟨present, first, bound, reached⟩ := recorded.remembers
      refine ⟨recorded.hardState, recorded.confState, recorded.saved, ⟨present, first, bound, reached⟩, ?_⟩
      intro ascending
      obtain ⟨written, layout, floor, journaled⟩ := recorded.journaled (Ascending.snoc_iff.mp ascending).1
      obtain ⟨⟨written', layout', after⟩, _⟩ := journaled.appendCommitted ascending ok
      exact ⟨written', layout', floor, after⟩
  | setHardState hs =>
    cases stepped
    obtain ⟨remembers, journaled⟩ := recorded.frame (history.core.setHardState hs) ⟨rfl, rfl, rfl⟩ ⟨rfl, rfl⟩
    exact ⟨rfl, recorded.confState, recorded.saved, remembers, journaled⟩
  | setConfState cs =>
    cases stepped
    obtain ⟨remembers, journaled⟩ := recorded.frame (history.core.setConfState cs) ⟨rfl, rfl, rfl⟩ ⟨rfl, rfl⟩
    exact ⟨recorded.hardState, rfl, rfl, remembers, journaled⟩
  | installSnapshot snapshotMeta =>
    cases stepped
    obtain ⟨remembers, journaled⟩ := recorded.frame (history.core.installSnapshot snapshotMeta)
      ⟨rfl, rfl, rfl⟩ ⟨rfl, rfl⟩
    exact ⟨recorded.hardState, recorded.confState, rfl, remembers, journaled⟩

end Recorded

/-! ### The log that is read back -/

private theorem foldl_store_origin (entries : List Entry) (known : FinMap Nat Entry) {index : Nat} {entry : Entry}
    (found : (entries.foldl StorageCore.storeEntry known).get index = some entry) :
    (entry ∈ entries ∧ entry.index.toNat = index) ∨ known.get index = some entry := by
  induction entries generalizing known with
  | nil => exact Or.inr found
  | cons head entries ih =>
    rcases ih _ found with ⟨member, same⟩ | earlier
    · exact Or.inl ⟨List.mem_cons_of_mem _ member, same⟩
    · rw [StorageCore.storeEntry, FinMap.get_set] at earlier
      split at earlier
      · cases earlier
        exact Or.inl ⟨List.mem_cons_self, by symm; assumption⟩
      · exact Or.inr earlier

namespace Journaled.Reread

variable {codec : Codec} {recovered : List Entry} {snapshotMeta : SnapshotMetadata} {core : StorageCore}

theorem get_iff (reread : Reread codec recovered snapshotMeta core) (ascending : Ascending recovered) (index : Nat)
    (entry : Entry) : core.entries.get index = some entry ↔ entry ∈ recovered ∧ entry.index.toNat = index := by
  rw [reread.entries]
  constructor
  · intro found
    exact (foldl_store_origin recovered .empty found).resolve_right nofun
  · rintro ⟨member, rfl⟩
    refine get_foldl_store recovered .empty (fun other inside same => ?_) (Or.inl member)
    exact ascending.injective inside member same

theorem window_nil (reread : Reread codec [] snapshotMeta core) :
    core.firstIndex = snapshotMeta.index + 1 ∧ core.lastIndex = snapshotMeta.index := by
  have indices := StorageCore.updateIndices_empty (c := core) (by rw [reread.entries]; exact fun _ => rfl)
  rw [reread.indices, reread.snapshotMeta] at indices
  rw [indices]
  exact ⟨rfl, rfl⟩

theorem window_cons {head : Entry} {tail : List Entry} (reread : Reread codec (head :: tail) snapshotMeta core)
    (ascending : Ascending (head :: tail)) :
    core.firstIndex = head.index.toNat ∧ (∃ entry ∈ head :: tail, entry.index.toNat = core.lastIndex) ∧
      ∀ entry ∈ head :: tail, entry.index.toNat ≤ core.lastIndex := by
  have least : ∀ entry ∈ head :: tail, head.index.toNat ≤ entry.index.toNat := by
    intro entry member
    rcases List.mem_cons.mp member with rfl | later
    · exact Nat.le_refl _
    · have behind := (List.pairwise_cons.mp (List.pairwise_cons.mp ascending).2).1
      exact Nat.le_of_lt (behind _ (List.mem_map_of_mem later))
  obtain ⟨final, reached, most⟩ : ∃ final ∈ head :: tail, ∀ entry ∈ head :: tail,
      entry.index.toNat ≤ final.index.toNat := by
    rcases List.eq_nil_or_concat' (head :: tail) with none | ⟨init, final, split⟩
    · cases none
    · rw [split] at ascending ⊢
      refine ⟨final, by simp, fun entry member => ?_⟩
      rcases List.mem_append.mp member with early | last
      · exact Nat.le_of_lt ((Ascending.snoc_iff.mp ascending).2.2 entry early)
      · rw [List.mem_singleton.mp last]
  have held : ∀ entry ∈ head :: tail, core.entries.get entry.index.toNat = some entry := fun entry member =>
    (reread.get_iff ascending _ _).mpr ⟨member, rfl⟩
  have indices := StorageCore.updateIndices_between (c := core)
    (fun index entry found => by
      have member := ((reread.get_iff ascending index entry).mp found).1
      exact ⟨least entry member, most entry member⟩)
    ⟨_, head, held head List.mem_cons_self, rfl⟩ ⟨_, final, held final reached, rfl⟩
  rw [reread.indices] at indices
  rw [indices]
  exact ⟨rfl, ⟨final, reached, rfl⟩, most⟩

end Journaled.Reread

/-! ### The answers -/

/-- The answers about the log are read from the entries, the two indices and the
snapshot's metadata. -/
theorem StorageCore.answers_congr {c c' : StorageCore} (entries : ∀ index, c'.entries.get index = c.entries.get index)
    (firstIndex : c'.firstIndex = c.firstIndex) (lastIndex : c'.lastIndex = c.lastIndex)
    (snapshotMeta : c'.snapshotMeta = c.snapshotMeta) :
    (∀ idx, c'.term idx = c.term idx) ∧
      ∀ size lo hi maxSize, c'.entriesBetween size lo hi maxSize = c.entriesBetween size lo hi maxSize := by
  have collected : ∀ size maxSize left idx total,
      c'.collectEntries size maxSize idx left total = c.collectEntries size maxSize idx left total := by
    intro size maxSize left
    induction left with
    | zero => exact fun _ _ => rfl
    | succ left ih =>
      intro idx total
      simp only [StorageCore.collectEntries, entries, ih]
  constructor
  · intro idx
    simp only [StorageCore.term, entries, firstIndex, lastIndex, snapshotMeta]
  · intro size lo hi maxSize
    simp only [StorageCore.entriesBetween, firstIndex, lastIndex, collected]

/-- Above the snapshot there is a term exactly for what is held between the two indices. -/
theorem StorageCore.term_ok_iff {c : StorageCore} {idx : Nat} (above : c.snapshotMeta.index < idx) :
    (∃ term, c.term idx = .ok term) ↔
      c.firstIndex ≤ idx ∧ idx ≤ c.lastIndex ∧ ∃ entry, c.entries.get idx = some entry := by
  unfold StorageCore.term
  rw [if_neg (by omega), if_neg (by omega)]
  by_cases low : idx < c.firstIndex
  · rw [if_pos low]
    simp [low]
  · rw [if_neg low]
    by_cases high : idx > c.lastIndex
    · rw [if_pos high]
      simp [high]
    · rw [if_neg high]
      cases c.entries.get idx with
      | none => simp
      | some entry => simp [Nat.le_of_not_lt low, Nat.le_of_not_lt high]

section Restart

variable {codec : Codec} {history : StorageHistory} {reopened : StorageCore} {size : Entry → Nat}

/-- The entries that are read back. -/
private def readBack (history : StorageHistory) : List Entry :=
  history.committed.filter fun entry => history.core.snapshotMeta.index < entry.index.toNat

private theorem readBack_all (ascending : Ascending history.committed)
    (unsnapped : history.core.snapshotMeta.index = 0) : readBack history = history.committed :=
  List.filter_eq_self.mpr fun entry member => by simpa [unsnapped] using ascending.positive member

/-- The first index that is read back is above the snapshot. -/
private theorem snapshot_lt_first (ascending : Ascending history.committed)
    (reread : Journaled.Reread codec (readBack history) history.core.snapshotMeta reopened) :
    history.core.snapshotMeta.index < reopened.firstIndex := by
  have sorted : Ascending (readBack history) := ascending.sublist List.filter_sublist
  cases known : readBack history with
  | nil =>
    rw [known] at reread
    rw [reread.window_nil.1]
    exact Nat.lt_succ_self _
  | cons head tail =>
    have behind : head ∈ readBack history := known ▸ List.mem_cons_self
    rw [known] at reread sorted
    rw [(reread.window_cons sorted).1]
    simpa using (List.mem_filter.mp behind).2

/-- What is in memory is what was committed under that index. -/
private theorem committed_of_present (recorded : Recorded codec history)
    (all : ∀ entry ∈ history.appended, entry ∈ history.committed) {index : Nat} {entry : Entry}
    (present : history.core.entries.get index = some entry) :
    entry ∈ history.committed ∧ entry.index.toNat = index := by
  obtain ⟨member, same⟩ := recorded.remembers.present index entry present
  exact ⟨all entry member, same⟩

private theorem held_of_restored (recorded : Recorded codec history) (ascending : Ascending history.committed)
    (all : ∀ entry ∈ history.appended, entry ∈ history.committed)
    (reread : Journaled.Reread codec (readBack history) history.core.snapshotMeta reopened)
    (restored : history.Restored size reopened) : history.core.snapshotMeta.index = 0 ∧ history.Held := by
  have one : history.core.firstIndex = 1 :=
    recorded.remembers.first fun entry member => ascending.positive (all entry member)
  have first := restored.firstIndex
  have unsnapped : history.core.snapshotMeta.index = 0 := by
    have above := snapshot_lt_first ascending reread
    omega
  rw [readBack_all ascending unsnapped] at reread
  refine ⟨unsnapped, fun entry member => ?_, ?_⟩
  · have positive := ascending.positive member
    have window : reopened.firstIndex ≤ entry.index.toNat ∧ entry.index.toNat ≤ reopened.lastIndex := by
      refine ⟨by omega, ?_⟩
      cases known : history.committed with
      | nil => simp [known] at member
      | cons head tail =>
        rw [known] at reread ascending member
        exact (reread.window_cons ascending).2.2 entry member
    -- the term is known afterwards, so it was known before
    obtain ⟨term, answered⟩ := (StorageCore.term_ok_iff (by rw [reread.snapshotMeta]; omega)).mpr
      ⟨window.1, window.2, entry, (reread.get_iff ascending _ _).mpr ⟨member, rfl⟩⟩
    rw [restored.term _ (by omega)] at answered
    obtain ⟨_, _, other, present⟩ := (StorageCore.term_ok_iff (by omega)).mp ⟨term, answered⟩
    obtain ⟨inside, same⟩ := committed_of_present recorded all present
    rw [present, ascending.injective inside member same]
  · intro head here
    cases known : history.committed with
    | nil => simp [known] at here
    | cons front tail =>
      rw [known] at reread ascending here
      cases here
      rw [← (reread.window_cons ascending).1, first, one]

private theorem restored_of_held (recorded : Recorded codec history) (ascending : Ascending history.committed)
    (all : ∀ entry ∈ history.appended, entry ∈ history.committed)
    (reread : Journaled.Reread codec (readBack history) history.core.snapshotMeta reopened)
    (hardState : history.hardState = {}) (confState : history.confState = {})
    (unsnapped : history.core.snapshotMeta.index = 0) (held : history.Held) : history.Restored size reopened := by
  rw [readBack_all ascending unsnapped] at reread
  have one : history.core.firstIndex = 1 :=
    recorded.remembers.first fun entry member => ascending.positive (all entry member)
  have entries : ∀ index, reopened.entries.get index = history.core.entries.get index := by
    intro index
    refine Option.ext fun entry => ?_
    rw [reread.get_iff ascending]
    constructor
    · rintro ⟨member, rfl⟩
      exact held.1 entry member
    · exact committed_of_present recorded all
  have appended : ∀ entry ∈ history.committed, entry ∈ history.appended := fun entry member =>
    (recorded.remembers.present _ entry (held.1 entry member)).1
  have window : reopened.firstIndex = history.core.firstIndex ∧ reopened.lastIndex = history.core.lastIndex := by
    have reached := recorded.remembers.reached
    cases known : history.committed with
    | nil =>
      rw [known] at reread all
      obtain ⟨first, last⟩ := reread.window_nil
      rcases reached with zero | ⟨entry, member, _⟩
      · omega
      · exact nomatch all entry member
    | cons head tail =>
      have start := held.2 head (by rw [known]; rfl)
      rw [known] at reread ascending all appended
      obtain ⟨first, ⟨final, inside, last⟩, most⟩ := reread.window_cons ascending
      have upper := recorded.remembers.bound final (appended final inside)
      refine ⟨by omega, Nat.le_antisymm (by omega) ?_⟩
      rcases reached with zero | ⟨entry, member, same⟩
      · omega
      · rw [← same]
        exact most entry (all entry member)
  obtain ⟨term, between⟩ := StorageCore.answers_congr entries window.1 window.2 reread.snapshotMeta
  refine ⟨?_, window.1, window.2, fun idx _ => term idx, fun lo hi maxSize _ => between size lo hi maxSize⟩
  rw [StorageCore.initialState, reread.hardState, reread.confState, hardState, confState]

end Restart

/-- A storage is opened on empty directories and run in any way in which indices
are committed in ascending order and all appended entries are committed; it is
closed and opened again. It answers as before exactly when nothing but the empty
hard state and configuration were set last, the snapshot is at index 0, and the
committed entries begin at 1 and are all still in memory. -/
theorem restored_iff {codec : Codec} {first : StorageCore} {flushThreshold segmentSize : Nat} {ops : List StorageOp}
    {history : StorageHistory} {disk : Disk} (lawful : codec.Lawful)
    (opened : newRaftStorage codec .empty flushThreshold segmentSize = .ok first)
    (run : Run (fun history op history' => history.step codec op = some history') (fun _ _ _ => True)
      { core := first } ops history)
    (ascending : Ascending history.committed) (all : ∀ entry ∈ history.appended, entry ∈ history.committed)
    (closed : history.core.close = .ok disk) (size : Entry → Nat) (flushThreshold' segmentSize' : Nat) :
    ∃ reopened, newRaftStorage codec disk flushThreshold' segmentSize' = .ok reopened ∧
      (history.Restored size reopened ↔
        history.hardState = {} ∧ history.confState = {} ∧ history.core.snapshotMeta.index = 0 ∧ history.Held) := by
  have recorded : Recorded codec history := by
    rw [newRaftStorage_empty] at opened
    cases opened
    refine run.invariant (fun _ history => Recorded codec history) (.start codec _ _) ?_
    intro _ _ _ _ recorded _ stepped
    exact recorded.step stepped
  obtain ⟨written, layout, floor, journaled⟩ := recorded.journaled ascending
  unfold StorageCore.close at closed
  split at closed
  · cases closed
  · rename_i flushed ok
    cases closed
    obtain ⟨⟨layout', whole⟩, wal, rfl⟩ := journaled.flushed ascending ok
    obtain ⟨reopened, again, reread⟩ := whole.reopened ascending lawful history.core.snapshotFile flushThreshold'
      segmentSize'
    rw [recorded.saved] at reread
    refine ⟨reopened, again, fun restored => ?_, ?_⟩
    · have state := restored.initialState
      rw [StorageCore.initialState, reread.hardState, reread.confState] at state
      obtain ⟨hard, conf⟩ := Prod.mk.inj state
      obtain ⟨unsnapped, held⟩ := held_of_restored recorded ascending all reread restored
      exact ⟨hard.symm, conf.symm, unsnapped, held⟩
    · rintro ⟨hardState, confState, unsnapped, held⟩
      exact restored_of_held recorded ascending all reread hardState confState unsnapped held

/-! Two entries are appended and committed; then the node may set its state. -/

private def twoEntries : List Entry := [⟨1, 1, .normal, some [7]⟩, ⟨1, 2, .normal, some [8]⟩]

private def logOps : List StorageOp := .append twoEntries :: twoEntries.map .appendCommitted

private def runOps (ops : List StorageOp) : Option StorageHistory :=
  ops.foldlM (StorageHistory.step (wireCodec [])) { core := freshCore 1 0 }

private theorem runOps_run {ops : List StorageOp} (executes : (runOps ops).isSome = true) :
    Run (fun history op history' => history.step (wireCodec []) op = some history') (fun _ _ _ => True)
      { core := freshCore 1 0 } ops (Option.get _ executes) :=
  Run.of_execute (fun _ _ _ _ taken => ⟨trivial, taken⟩) (Option.some_get executes).symm

private theorem voted_executes :
    (runOps (logOps ++ [.setHardState ⟨1, 1, 2⟩, .setConfState ⟨[1], []⟩])).isSome = true := rfl

private theorem voted_closes : (Option.get _ voted_executes).core.close.toOption.isSome = true := rfl

private theorem voted_reopens :
    (newRaftStorage (wireCodec []) (Option.get _ voted_closes) 1 0).toOption.isSome = true := rfl

/-- A node votes in term 1 and learns who is in the cluster. After a restart it
has not voted and knows no voters. -/
theorem restart_forgets_vote : ∃ ops history disk reopened,
    newRaftStorage (wireCodec []) .empty 1 0 = .ok (freshCore 1 0) ∧
    Run (fun (history : StorageHistory) op history' => history.step (wireCodec []) op = some history')
      (fun _ _ _ => True) { core := freshCore 1 0 } ops history ∧
    Ascending history.committed ∧ (∀ entry ∈ history.appended, entry ∈ history.committed) ∧
    history.core.close = .ok disk ∧ newRaftStorage (wireCodec []) disk 1 0 = .ok reopened ∧
    (history.hardState, history.confState) = (⟨1, 1, 2⟩, ⟨[1], []⟩) ∧ reopened.initialState = ({}, {}) ∧
    ¬ history.Restored (fun _ => 0) reopened := by
  have forgotten : (Option.get _ voted_reopens).initialState = ({}, {}) := by decide
  have set : ((Option.get _ voted_executes).hardState, (Option.get _ voted_executes).confState) =
      (⟨1, 1, 2⟩, ⟨[1], []⟩) := by
    decide
  refine ⟨_, _, _, _, newRaftStorage_empty _ _ _, runOps_run voted_executes, by decide, by decide,
    ok_of_toOption voted_closes, ok_of_toOption voted_reopens, set, forgotten, fun restored => ?_⟩
  have same := restored.initialState
  rw [forgotten, set] at same
  cases same

private theorem logged_executes : (runOps logOps).isSome = true := rfl

private theorem logged_closes : (Option.get _ logged_executes).core.close.toOption.isSome = true := rfl

/-- A node that never voted finds its log again. -/
theorem restart_keeps_log : ∃ reopened, newRaftStorage (wireCodec []) (Option.get _ logged_closes) 1 0 = .ok reopened ∧
    (Option.get _ logged_executes).Restored (fun _ => 0) reopened := by
  obtain ⟨reopened, ok, restored⟩ := restored_iff (wireCodec_lawful []) (newRaftStorage_empty _ 1 0)
    (runOps_run logged_executes) (by decide) (by decide) (ok_of_toOption logged_closes) (fun _ => 0) 1 0
  refine ⟨reopened, ok, restored.mpr ⟨by decide, by decide, by decide, ?_⟩⟩
  unfold StorageHistory.Held
  decide

end Cue.Cluster
