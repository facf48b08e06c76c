import Cue.WalFidelity

/-! The write-ahead log when indices come in any order: old ones are written
again, and the log is cut behind what is still to be written. The names of the
files and the test before a cut go by the next index and by the index of the last
record, and nothing else is known of what a file holds.

A run is tidy if a file is sealed only under a range that is not empty and covers
its records, and if the last record of an active file that is cut away is not
behind a greater one that has to stay. -/
namespace Cue.Cluster
open Cue.Lib Cue.Model

namespace SegmentedWAL

/-- All that the files hold, in their order. -/
def contents (codec : Codec) (sw : SegmentedWAL) : Except WalError (List Entry) :=
  match (sw.segments ++ [sw.active]).mapM (readSegment codec sw.dir) with
  | .error err => .error err
  | .ok files => .ok files.flatten

/-- What the active file holds. -/
def activeEntries (codec : Codec) (sw : SegmentedWAL) : List Entry :=
  (readSegment codec sw.dir sw.active).toOption.getD []

/-- The range under which the active file would be sealed is not empty and covers its records. -/
def Sealable (codec : Codec) (sw : SegmentedWAL) : Prop :=
  sw.active.startIndex < sw.nextIndex ∧ ∀ entry ∈ sw.activeEntries codec, entry.index.toNat < sw.nextIndex

instance (codec : Codec) (sw : SegmentedWAL) : Decidable (sw.Sealable codec) :=
  inferInstanceAs (Decidable (_ ∧ _))

/-- Whenever the active file is full before an entry, it can be sealed. -/
def AppendsTidily (codec : Codec) : SegmentedWAL → List Entry → Prop
  | _, [] => True
  | sw, entry :: entries => (sw.segmentSize ≤ sw.active.size → sw.Sealable codec) ∧
    match sw.appendEntry (buffered codec entry) with
    | .error _ => True
    | .ok sw => AppendsTidily codec sw entries

instance decidableAppendsTidily (codec : Codec) : ∀ sw entries, Decidable (AppendsTidily codec sw entries)
  | _, [] => isTrue trivial
  | sw, entry :: entries =>
    have : Decidable (match sw.appendEntry (buffered codec entry) with
        | .error _ => True
        | .ok sw => AppendsTidily codec sw entries) :=
      match sw.appendEntry (buffered codec entry) with
      | .error _ => isTrue trivial
      | .ok sw => decidableAppendsTidily codec sw entries
    inferInstanceAs (Decidable (_ ∧ _))

/-- An active file that is cut away up to an index holds nothing behind it. -/
def CutsTidily (codec : Codec) (sw : SegmentedWAL) (upToIndex : Nat) : Prop :=
  sw.active.startIndex ≤ upToIndex → lastIndexOr 0 (sw.activeEntries codec) ≤ upToIndex →
    ∀ entry ∈ sw.activeEntries codec, entry.index.toNat ≤ upToIndex

instance (codec : Codec) (sw : SegmentedWAL) (upToIndex : Nat) : Decidable (sw.CutsTidily codec upToIndex) :=
  inferInstanceAs (Decidable (_ → _))

end SegmentedWAL

/-- The indices leave room for the one behind them. -/
def WalHistory.Tidy (codec : Codec) (history : WalHistory) : WalOp → Prop
  | .append entries =>
    (∀ entry ∈ entries, entry.index.toNat ≤ 2 ^ 64 - 2) ∧ history.wal.AppendsTidily codec entries
  | .truncate upToIndex => upToIndex ≤ 2 ^ 64 - 2 ∧ history.wal.CutsTidily codec upToIndex
  | .reopen _ => True

instance (codec : Codec) (history : WalHistory) : ∀ op, Decidable (history.Tidy codec op)
  | .append _ => inferInstanceAs (Decidable (_ ∧ _))
  | .truncate _ => inferInstanceAs (Decidable (_ ∧ _))
  | .reopen _ => isTrue trivial

/-! ### One operation -/

/-- The memory lists the files of the layout in their order. -/
structure Listed (codec : Codec) (sw : SegmentedWAL) (layout : Layout) : Prop where
  stored : sw.Stored codec layout
  ranges : sw.segments.map Segment.range = layout.ranges
  positive : 0 < sw.nextIndex

/-- Every sealed file has a range that covers its records. -/
def Layout.Covers (layout : Layout) : Prop :=
  ∀ range ∈ layout.ranges, ∀ entry ∈ layout.contents range, entry.index.toNat ≤ range.2

/-- Leaving out what contributes nothing. -/
theorem flatMap_filter_empty {A B : Type} {f : A → List B} {keep : A → Bool} {items : List A}
    (empty : ∀ item ∈ items, keep item = false → f item = []) : (items.filter keep).flatMap f = items.flatMap f := by
  induction items with
  | nil => rfl
  | cons item items ih =>
    have rest := ih fun other member => empty other (List.mem_cons_of_mem _ member)
    cases kept : keep item with
    | true => rw [List.filter_cons_of_pos kept, List.flatMap_cons, List.flatMap_cons, rest]
    | false =>
      rw [List.filter_cons_of_neg (by simp [kept]), List.flatMap_cons, rest, empty item List.mem_cons_self kept,
        List.nil_append]

namespace Listed

variable {codec : Codec} {sw sw' : SegmentedWAL} {layout : Layout} {entry : Entry}

theorem contents_eq (listed : Listed codec sw layout) (lawful : codec.Lawful) :
    sw.contents codec = .ok layout.entries := by
  unfold SegmentedWAL.contents
  rw [listed.stored.read_spec lawful listed.ranges]
  simp [Layout.entries, List.flatMap]

theorem activeEntries_eq (listed : Listed codec sw layout) (lawful : codec.Lawful) :
    sw.activeEntries codec = layout.active := by
  unfold SegmentedWAL.activeEntries
  rw [listed.stored.read_active lawful]
  rfl

/-- Sealing under a new range moves the entries of the active file, and loses none. -/
theorem rotate (listed : Listed codec sw layout) (lawful : codec.Lawful) (sealable : sw.Sealable codec) :
    ∃ sw' layout', sw.rotate = .ok sw' ∧ Listed codec sw' layout' ∧ layout'.entries = layout.entries ∧
      (layout.Covers → layout'.Covers) := by
  obtain ⟨proper, covered⟩ := sealable
  rw [listed.activeEntries_eq lawful] at covered
  have fresh : (sw.active.startIndex, sw.nextIndex - 1) ∉ layout.ranges := by
    intro again
    have bound := listed.stored.shaped.bounded again
    simp only at bound
    omega
  obtain ⟨dir, rotated, after⟩ := listed.stored.rotate_spec proper.le listed.positive
  refine ⟨_, _, rotated, ⟨after, ?_, listed.positive⟩, Layout.entries_rotated fresh, ?_⟩
  · simp [Layout.rotated, fresh, listed.ranges, Segment.range]
  · intro covers range member entry inside
    by_cases here : range = (sw.active.startIndex, sw.nextIndex - 1)
    · subst here
      simp only [Layout.rotated, Function.update_self] at inside
      have below := covered entry inside
      simp only
      omega
    · simp only [Layout.rotated, Function.update_of_ne here] at inside
      exact covers range ((Layout.mem_rotated.mp member).resolve_right here) entry inside

/-- An entry goes behind all that is there, and only the length of a file can prevent it. -/
theorem appendEntry (listed : Listed codec sw layout) (lawful : codec.Lawful)
    (encodable : (codec.marshal entry).isSome) (tidy : sw.segmentSize ≤ sw.active.size → sw.Sealable codec) :
    sw.appendEntry (buffered codec entry) = .error .fileTooBig ∨
      ∃ sw' layout', sw.appendEntry (buffered codec entry) = .ok sw' ∧ Listed codec sw' layout' ∧
        layout'.entries = layout.entries ++ [entry] ∧ (layout.Covers → layout'.Covers) := by
  have ready : ∃ ready layout', (if sw.active.size ≥ sw.segmentSize then sw.rotate else .ok sw) = .ok ready ∧
      Listed codec ready layout' ∧ layout'.entries = layout.entries ∧ (layout.Covers → layout'.Covers) := by
    by_cases full : sw.active.size ≥ sw.segmentSize
    · rw [if_pos full]
      exact listed.rotate lawful (tidy full)
    · rw [if_neg full]
      exact ⟨sw, layout, rfl, listed, rfl, id⟩
  obtain ⟨ready, layout', opened, listed', same, covers⟩ := ready
  have file : ready.dir.get ready.active.path = some (records codec layout'.active) := by
    rw [listed'.stored.activePath, listed'.stored.activeFile]
  unfold SegmentedWAL.appendEntry
  simp only [opened, file, Option.getD_some]
  split
  · exact Or.inl rfl
  · rename_i short
    refine Or.inr ⟨_, layout'.appended entry, rfl,
      ⟨listed'.stored.write_spec encodable (Nat.not_le.mp short) _ _, listed'.ranges, ?_⟩, ?_, covers⟩
    · dsimp only
      split
      · exact Nat.succ_pos _
      · exact listed'.positive
    · rw [Layout.entries_appended, same]

theorem appendBatch (listed : Listed codec sw layout) (lawful : codec.Lawful) {entries : List Entry}
    (encodable : Encodable codec entries) (tidy : sw.AppendsTidily codec entries) :
    sw.appendBatch (entries.map (buffered codec)) = .error .fileTooBig ∨
      ∃ sw' layout', sw.appendBatch (entries.map (buffered codec)) = .ok sw' ∧ Listed codec sw' layout' ∧
        layout'.entries = layout.entries ++ entries ∧ (layout.Covers → layout'.Covers) := by
  induction entries generalizing sw layout with
  | nil => exact Or.inr ⟨sw, layout, rfl, listed, (List.append_nil _).symm, id⟩
  | cons entry entries ih =>
    obtain ⟨here, later⟩ := tidy
    rw [List.map_cons, SegmentedWAL.appendBatch_cons]
    rcases listed.appendEntry lawful (encodable entry List.mem_cons_self) here with
      failed | ⟨middle, between, appended, listed', first, covers⟩
    · rw [failed]
      exact Or.inl rfl
    · rw [appended] at later ⊢
      rcases ih listed' (fun other member => encodable other (List.mem_cons_of_mem _ member)) later with
        failed | ⟨sw', layout', rest, listed'', grown, covers'⟩
      · exact Or.inl failed
      · refine Or.inr ⟨sw', layout', rest, listed'', ?_, fun before => covers' (covers before)⟩
        rw [grown, first, List.append_assoc, List.singleton_append]

/-- A cut never fails, and all that is behind it stays. -/
theorem truncate (listed : Listed codec sw layout) (lawful : codec.Lawful) (covers : layout.Covers) {upToIndex : Nat}
    (tidy : sw.CutsTidily codec upToIndex) :
    ∃ sw' layout', sw.truncate upToIndex = .ok sw' ∧ Listed codec sw' layout' ∧ layout'.Covers ∧
      layout'.entries.Sublist layout.entries ∧
      layout'.entries.filter (fun entry => upToIndex < entry.index.toNat) =
        layout.entries.filter (fun entry => upToIndex < entry.index.toNat) := by
  unfold SegmentedWAL.CutsTidily at tidy
  rw [listed.activeEntries_eq lawful] at tidy
  obtain ⟨sw', layout', ok, after, segments, size, cut⟩ := listed.stored.truncate_cases lawful upToIndex
  rcases cut with ⟨rfl, active, next⟩ | ⟨rfl, active, next, alone, early, past⟩
  · refine ⟨sw', _, ok, ⟨after, ?_, ?_⟩, ?_, Layout.entries_truncated upToIndex, ?_⟩
    · rw [segments, Layout.truncated, ← listed.ranges, List.filter_map]
      rfl
    · rw [next]
      exact listed.positive
    · intro range member
      exact covers range (Layout.mem_truncated.mp member).1
    · simp only [Layout.entries, Layout.truncated, List.filter_append, List.filter_flatMap]
      rw [flatMap_filter_empty]
      intro range member ended
      apply List.filter_eq_nil_iff.mpr
      intro entry inside
      have within := covers range member entry inside
      simp only [decide_eq_false_iff_not, not_not] at ended
      simp only [decide_eq_true_eq]
      omega
  · refine ⟨sw', _, ok, ⟨after, ?_, ?_⟩, ?_, List.nil_sublist _, ?_⟩
    · rw [alone]
      rfl
    · rw [next]
      exact Nat.succ_pos _
    · intro range member
      cases member
    · have low : ∀ entry ∈ layout.entries, entry.index.toNat ≤ upToIndex := by
        intro entry member
        rcases Layout.mem_entries.mp member with ⟨range, inRanges, inside⟩ | inActive
        · have within := covers range inRanges entry inside
          have bound := listed.stored.shaped.bounded inRanges
          omega
        · exact tidy early past entry inActive
      symm
      apply List.filter_eq_nil_iff.mpr
      intro entry member
      simpa using low entry member

theorem reopen (listed : Listed codec sw layout) (lawful : codec.Lawful) (segmentSize : Nat) :
    ∃ sw', newSegmentedWal sw.dir segmentSize = .ok sw' ∧ Listed codec sw' layout := by
  obtain ⟨sw', ok, reopened⟩ := listed.stored.reopen_spec lawful segmentSize
  refine ⟨sw', ok, reopened.stored listed.stored, reopened.ranges, ?_⟩
  rw [reopened.nextIndex]
  exact Nat.succ_pos _

/-- A batch that was taken is behind all that the log held before. -/
theorem step_append {history history' : WalHistory} {entries : List Entry} (listed : Listed codec history.wal layout)
    (lawful : codec.Lawful) (tidy : history.Tidy codec (.append entries))
    (stepped : history.step codec (.append entries) = some history') :
    history'.appended = history.appended ++ entries ∧
      ∃ layout', Listed codec history'.wal layout' ∧ layout'.entries = layout.entries ++ entries ∧
        (layout.Covers → layout'.Covers) := by
  obtain ⟨encodable, wal, ok, rfl⟩ := WalHistory.step_append stepped
  rcases listed.appendBatch lawful encodable tidy.2 with failed | ⟨sw', layout', appended, after⟩
  · cases failed.symm.trans ok
  · cases appended.symm.trans ok
    exact ⟨rfl, layout', after⟩

/-- A log that was reopened holds what it held before. -/
theorem step_reopen {history history' : WalHistory} {segmentSize : Nat} (listed : Listed codec history.wal layout)
    (lawful : codec.Lawful) (stepped : history.step codec (.reopen segmentSize) = some history') :
    history'.appended = history.appended ∧ Listed codec history'.wal layout := by
  obtain ⟨sw', ok, listed'⟩ := listed.reopen lawful segmentSize
  simp only [WalHistory.step, ok, Option.some.injEq] at stepped
  subst stepped
  exact ⟨rfl, listed'⟩

end Listed

/-! ### Runs -/

abbrev TidyRun (codec : Codec) (first : SegmentedWAL) : List WalOp → WalHistory → Prop :=
  Run (fun history op history' => history.step codec op = some history') (fun _ => WalHistory.Tidy codec) ⟨first, [], []⟩

/-- The log lists its files, and every sealed one has a range that covers its records. -/
def Arranged (codec : Codec) (history : WalHistory) : Prop :=
  ∃ layout, Listed codec history.wal layout ∧ layout.Covers

theorem Arranged.start {codec : Codec} {first : SegmentedWAL} {size : Nat}
    (opened : newSegmentedWal .empty size = .ok first) : Arranged codec ⟨first, [], []⟩ := by
  obtain ⟨sw, ok, holds⟩ := @new_holds codec size
  cases opened.symm.trans ok
  refine ⟨Layout.empty, ⟨holds.stored, ?_, ?_⟩, fun range member => by cases member⟩
  · rw [newSegmentedWal_empty] at opened
    cases opened
    rfl
  · rw [holds.next]
    exact Nat.succ_pos _

theorem Arranged.step {codec : Codec} {history history' : WalHistory} {op : WalOp} (arranged : Arranged codec history)
    (lawful : codec.Lawful) (tidy : history.Tidy codec op) (stepped : history.step codec op = some history') :
    Arranged codec history' := by
  obtain ⟨layout, listed, covers⟩ := arranged
  cases op with
  | append entries =>
    obtain ⟨_, layout', listed', _, covers'⟩ := listed.step_append lawful tidy stepped
    exact ⟨layout', listed', covers' covers⟩
  | truncate upToIndex =>
    obtain ⟨sw', layout', ok, listed', covers', _⟩ := listed.truncate lawful covers tidy.2
    simp only [WalHistory.step, ok, Option.some.injEq] at stepped
    subst stepped
    exact ⟨layout', listed', covers'⟩
  | reopen segmentSize =>
    exact ⟨layout, (listed.step_reopen lawful stepped).2, covers⟩

theorem TidyRun.arranged {codec : Codec} {first : SegmentedWAL} {size : Nat} {ops : List WalOp} {history : WalHistory}
    (lawful : codec.Lawful) (opened : newSegmentedWal .empty size = .ok first) (run : TidyRun codec first ops history) :
    Arranged codec history := by
  refine run.invariant (fun _ => Arranged codec) (.start opened) ?_
  intro _ _ _ _ arranged tidy stepped
  exact arranged.step lawful tidy stepped

/-- A log with indices in any order, after any tidy run. It can be opened again
with all that it holds, a batch that is appended tidily goes behind that unless a
file gets too long, and a tidy cut removes nothing behind it. -/
theorem wal_usable_in_tidy_run {codec : Codec} {first : SegmentedWAL} {size : Nat} {ops : List WalOp}
    {history : WalHistory} (lawful : codec.Lawful) (opened : newSegmentedWal .empty size = .ok first)
    (run : TidyRun codec first ops history) :
    ∃ entries, history.wal.contents codec = .ok entries ∧
      (∀ segmentSize, ∃ wal, newSegmentedWal history.wal.dir segmentSize = .ok wal ∧
        wal.contents codec = .ok entries) ∧
      (∀ new batch, history.Tidy codec (.append new) → new.mapM (encodeBufferedEntry codec) = some batch →
        history.wal.appendBatch batch = .error .fileTooBig ∨
          ∃ wal, history.wal.appendBatch batch = .ok wal ∧ wal.contents codec = .ok (entries ++ new)) ∧
      ∀ upToIndex, history.Tidy codec (.truncate upToIndex) →
        ∃ wal kept, history.wal.truncate upToIndex = .ok wal ∧ wal.contents codec = .ok kept ∧
          kept.Sublist entries ∧ kept.filter (fun entry => upToIndex < entry.index.toNat) =
            entries.filter (fun entry => upToIndex < entry.index.toNat) := by
  obtain ⟨layout, listed, covers⟩ := run.arranged lawful opened
  refine ⟨layout.entries, listed.contents_eq lawful, ?_, ?_, ?_⟩
  · intro segmentSize
    obtain ⟨wal, ok, after⟩ := listed.reopen lawful segmentSize
    exact ⟨wal, ok, after.contents_eq lawful⟩
  · intro new batch tidy encoded
    obtain ⟨rfl, encodable⟩ := mapM_encodeBufferedEntry encoded
    rcases listed.appendBatch lawful encodable tidy.2 with failed | ⟨wal, layout', ok, after, grown, _⟩
    · exact Or.inl failed
    · exact Or.inr ⟨wal, ok, grown ▸ after.contents_eq lawful⟩
  · intro upToIndex tidy
    obtain ⟨wal, layout', ok, after, _, fewer, behind⟩ := listed.truncate lawful covers tidy.2
    exact ⟨wal, layout'.entries, ok, after.contents_eq lawful, fewer, behind⟩

/-! ### Given runs -/

/-- Entries that differ in their term. -/
private def entryAt (term index : UInt64) : Entry := ⟨term, index, .normal, some [7]⟩

/-- A new log in which every record fills a file. -/
private def narrowWal : SegmentedWAL := ⟨FinMap.empty.set (.active 1) [], [], ⟨1, 0, 0, true⟩, 1, 1⟩

private def wideWal : SegmentedWAL := { narrowWal with segmentSize := 1000 }

private def walStep (history : WalHistory) (op : WalOp) : Option WalHistory := history.step (wireCodec []) op

-- the runs below are evaluated
set_option maxRecDepth 4000

/-- An old index is written again behind a newer one, then the log is reopened. -/
private def rewrittenOps : List WalOp :=
  [.append [entryAt 1 1, entryAt 1 2], .append [entryAt 2 1, entryAt 2 3], .truncate 2, .reopen 1000]

private theorem rewritten_executes : (rewrittenOps.foldlM (fun (history : WalHistory) op =>
    if history.Tidy (wireCodec []) op then walStep history op else none) ⟨wideWal, [], []⟩).isSome = true := rfl

theorem rewritten_log_reopens : ∃ history wal, TidyRun (wireCodec []) wideWal rewrittenOps history ∧
    newSegmentedWal history.wal.dir 1000 = .ok wal ∧
      wal.contents (wireCodec []) = .ok [entryAt 1 1, entryAt 1 2, entryAt 2 1, entryAt 2 3] := by
  have run : TidyRun (wireCodec []) wideWal rewrittenOps (Option.get _ rewritten_executes) :=
    Run.of_guarded (Option.some_get _).symm
  obtain ⟨entries, held, reopens, _⟩ := wal_usable_in_tidy_run (wireCodec_lawful []) (newSegmentedWal_empty 1000) run
  obtain ⟨wal, ok, same⟩ := reopens 1000
  exact ⟨_, wal, run, ok, same.trans (held.symm.trans rfl)⟩

/-- The index 1 is written four times. -/
private def repeatedOps : List WalOp :=
  [.append [entryAt 1 1], .append [entryAt 2 1], .append [entryAt 3 1], .append [entryAt 4 1]]

/-- A greater index is written before a smaller one. -/
private def reversedOps : List WalOp := [.append [entryAt 1 5, entryAt 1 3]]

/-- The log is cut behind its end and reopened before an old index is written. -/
private def overcutOps : List WalOp :=
  [.append [entryAt 1 1], .truncate 10, .reopen 1, .append [entryAt 1 3], .append [entryAt 1 4]]

private theorem repeated_executes : (repeatedOps.foldlM walStep ⟨narrowWal, [], []⟩).isSome = true := rfl

private theorem reversed_executes : (reversedOps.foldlM walStep ⟨wideWal, [], []⟩).isSome = true := rfl

private theorem overcut_executes : (overcutOps.foldlM walStep ⟨narrowWal, [], []⟩).isSome = true := rfl

abbrev AnyRun (codec : Codec) (first : SegmentedWAL) : List WalOp → WalHistory → Prop :=
  Run (fun history op history' => history.step codec op = some history') (fun _ _ _ => True) ⟨first, [], []⟩

private theorem anyRun_of_executes {first : SegmentedWAL} {ops : List WalOp}
    (executes : (ops.foldlM walStep ⟨first, [], []⟩).isSome = true) :
    AnyRun (wireCodec []) first ops (Option.get _ executes) :=
  Run.of_execute (fun _ _ _ _ taken => ⟨trivial, taken⟩) (Option.some_get _).symm

/-- A batch replaces a sealed file, so that the second of four entries is gone; a
cut up to 3 removes the entry 5; and a log does not open again. -/
theorem reordered_log_breaks :
    newSegmentedWal .empty 1 = .ok narrowWal ∧ newSegmentedWal .empty 1000 = .ok wideWal ∧
    (∃ history entries, AnyRun (wireCodec []) narrowWal repeatedOps history ∧
      history.wal.contents (wireCodec []) = .ok entries ∧ entryAt 2 1 ∈ history.appended ∧ history.cuts = [] ∧
      entryAt 2 1 ∉ entries) ∧
    (∃ history wal, AnyRun (wireCodec []) wideWal reversedOps history ∧
      history.wal.contents (wireCodec []) = .ok [entryAt 1 5, entryAt 1 3] ∧ history.wal.truncate 3 = .ok wal ∧
      wal.contents (wireCodec []) = .ok []) ∧
    ∃ history, AnyRun (wireCodec []) narrowWal overcutOps history ∧
      newSegmentedWal history.wal.dir 1 = .error .gap :=
  ⟨rfl, rfl, ⟨_, _, anyRun_of_executes repeated_executes, rfl, by decide, rfl, by decide⟩,
    ⟨_, _, anyRun_of_executes reversed_executes, rfl, rfl, rfl⟩, _, anyRun_of_executes overcut_executes, rfl⟩

end Cue.Cluster
