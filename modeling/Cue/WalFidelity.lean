import Cue.Cluster.EntryCodec
import Cue.StorageWal
import Mathlib.Data.List.Flatten

/-! The write-ahead log past whole runs: batches with increasing indices are
appended, the log is truncated up to an index that was appended, and it is
closed and opened again, in any order.

`Faithful` ties the log to all that was appended so far. A log that was reopened
on an empty active file has forgotten the number of its next entry, and nothing
depends on it until the file is written to. -/
namespace Cue.Cluster
open Cue.Lib Cue.Model

/-- A log, the entries appended to it so far and the indices it was truncated to. -/
structure WalHistory where
  wal : SegmentedWAL
  appended : List Entry
  cuts : List Nat
  deriving DecidableEq

inductive WalOp where
  | append (entries : List Entry)
  | truncate (upToIndex : Nat)
  /-- `Close`, then `NewSegmentedWal` on the same directory -/
  | reopen (segmentSize : Nat)
  deriving DecidableEq

namespace WalHistory

def last (history : WalHistory) : Nat := lastIndexOr 0 history.appended

def Admits (history : WalHistory) : WalOp → Prop
  | .append entries =>
    Ascending (history.appended ++ entries) ∧ ∀ entry ∈ entries, entry.index.toNat ≤ 2 ^ 64 - 2
  | .truncate upToIndex => upToIndex ≤ history.last
  | .reopen segmentSize => 0 < segmentSize

instance (history : WalHistory) (op : WalOp) : Decidable (history.Admits op) := by
  cases op <;> unfold Admits <;> infer_instance

/-- An operation that fails ends the run. -/
def step (codec : Codec) (history : WalHistory) : WalOp → Option WalHistory
  | .append entries =>
    match entries.mapM (encodeBufferedEntry codec) with
    | none => none
    | some batch =>
      match history.wal.appendBatch batch with
      | .error _ => none
      | .ok wal => some { history with wal := wal, appended := history.appended ++ entries }
  | .truncate upToIndex =>
    match history.wal.truncate upToIndex with
    | .error _ => none
    | .ok wal => some { history with wal := wal, cuts := upToIndex :: history.cuts }
  | .reopen segmentSize =>
    match newSegmentedWal history.wal.dir segmentSize with
    | .error _ => none
    | .ok wal => some { history with wal := wal }

end WalHistory

abbrev WalRun (codec : Codec) (first : SegmentedWAL) : List WalOp → WalHistory → Prop :=
  Run (fun history op history' => history.step codec op = some history') (fun _ => WalHistory.Admits) ⟨first, [], []⟩

/-! ### The entries of a layout -/

namespace Layout

variable {layout : Layout} {range : Nat × Nat} {entry : Entry}

theorem entries_appended : (layout.appended entry).entries = layout.entries ++ [entry] := by
  simp [entries, appended]

theorem entries_rotated (fresh : range ∉ layout.ranges) : (layout.rotated range).entries = layout.entries := by
  have others : layout.ranges.flatMap (Function.update layout.contents range layout.active) =
      layout.ranges.flatMap layout.contents := by
    apply List.flatMap_congr
    intro other member
    have apart : other ≠ range := fun same => fresh (same ▸ member)
    exact Function.update_of_ne apart _ _
  simp [entries, rotated, fresh, others]

theorem entries_truncated (upTo : Nat) : (layout.truncated upTo).entries.Sublist layout.entries := by
  apply List.Sublist.append_right
  exact List.filter_sublist.flatMap _

end Layout

/-! ### What does not depend on the next index -/

namespace SegmentedWAL

variable {sw sw' : SegmentedWAL}

theorem appendBatch_cons (be : BufferedEntry) (rest : List BufferedEntry) :
    sw.appendBatch (be :: rest) = sw.appendEntry be >>= fun sw => sw.appendBatch rest := List.foldlM_cons

/-- What a rotation that succeeds found and did. -/
theorem rotate_inv (ok : sw.rotate = .ok sw') : sw.dir.contains (.tmp sw.nextIndex) = false ∧
    ∃ file, sw.dir.get sw.active.path = some file ∧
      let sealed : Segment := ⟨sw.active.startIndex, sw.nextIndex - 1, sw.active.size, false⟩
      let active : Segment := ⟨sw.nextIndex, 0, 0, true⟩
      sw' = { sw with
        dir := ((sw.dir.delete sw.active.path).set sealed.path file).set active.path []
        segments := sw.segments ++ [sealed]
        active := active } := by
  unfold rotate at ok
  dsimp only at ok
  split at ok
  · cases ok
  · rename_i absent
    split at ok
    · cases ok
    · rename_i file found
      cases ok
      exact ⟨by simpa using absent, file, found, rfl⟩

theorem rotate_segments (ok : sw.rotate = .ok sw') :
    sw'.segments = sw.segments ++ [⟨sw.active.startIndex, sw.nextIndex - 1, sw.active.size, false⟩] := by
  obtain ⟨_, _, _, rfl⟩ := rotate_inv ok
  rfl

/-- Truncation replaces the next index or leaves it alone. -/
theorem truncate_nextIndex {next upToIndex : Nat}
    (ok : { sw with nextIndex := next }.truncate upToIndex = .ok sw') :
    sw.truncate upToIndex = .ok sw' ∨
      ∃ cut, sw.truncate upToIndex = .ok cut ∧ cut.nextIndex = sw.nextIndex ∧ sw' = { cut with nextIndex := next } := by
  unfold truncate at ok ⊢
  dsimp only at ok ⊢
  split at ok
  · rename_i early
    rw [if_pos early]
    split at ok
    · cases ok
    · split at ok
      · rename_i past
        cases ok
        rw [if_pos past]
        exact Or.inl rfl
      · rename_i past
        cases ok
        rw [if_neg past]
        exact Or.inr ⟨_, rfl, rfl, rfl⟩
  · rename_i late
    cases ok
    rw [if_neg late]
    exact Or.inr ⟨_, rfl, rfl, rfl⟩

end SegmentedWAL

theorem newSegmentedWal_positive {dir : Directory} {size : Nat} {sw : SegmentedWAL}
    (ok : newSegmentedWal dir size = .ok sw) : 0 < sw.segmentSize := by
  have positive : 0 < if size > 0 then size else defaultSegmentSize := by
    simp only [defaultSegmentSize]
    split <;> omega
  unfold newSegmentedWal at ok
  dsimp only at ok
  split at ok
  · cases ok
  · split at ok
    · split at ok
      · cases ok
      · cases ok
        exact positive
    · cases ok
      exact positive
    · cases ok

/-! ### What one operation does -/

/-- The log holds what was appended behind the cuts, in order. -/
structure Faithful (codec : Codec) (history : WalHistory) (layout : Layout) (floor : Nat) : Prop where
  holds : SegmentedWAL.Holds codec { history.wal with nextIndex := history.last + 1 } layout history.last floor
  next : history.wal.nextIndex ≤ history.last + 1
  filled : layout.active ≠ [] → history.wal.nextIndex = history.last + 1 ∧ floor < history.last
  low : floor ≤ history.last
  segments : history.wal.segments.map Segment.range = layout.ranges
  proper : ∀ range ∈ layout.ranges, range.1 ≤ range.2
  ascending : Ascending layout.entries
  origin : ∀ entry ∈ layout.entries, entry ∈ history.appended
  stored : ∀ entry ∈ history.appended, (∀ upToIndex ∈ history.cuts, upToIndex < entry.index.toNat) →
    entry ∈ layout.entries

namespace Faithful

variable {codec : Codec} {history : WalHistory} {layout : Layout} {floor : Nat} {wal : SegmentedWAL} {entry : Entry}

theorem start {segmentSize : Nat} (opened : newSegmentedWal .empty segmentSize = .ok wal) :
    Faithful codec ⟨wal, [], []⟩ Layout.empty 0 := by
  obtain ⟨created, ok, holds⟩ := @new_holds codec segmentSize
  cases opened.symm.trans ok
  rw [newSegmentedWal_empty] at opened
  cases opened
  refine ⟨holds, Nat.le_refl _, fun filled => absurd rfl filled, Nat.le_refl _, rfl, nofun, ?_, ?_, ?_⟩
  · exact List.pairwise_singleton _ _
  · intro entry member
    cases member
  · intro entry member
    cases member

/-- With entries in the active file the next index is the one behind the last entry. -/
theorem settled_of_filled (faithful : Faithful codec history layout floor) (filled : layout.active ≠ []) :
    { history.wal with nextIndex := history.last + 1 } = history.wal := by
  rw [← (faithful.filled filled).1]

theorem settled_next (faithful : Faithful codec history layout floor) :
    max history.last floor + 1 = history.last + 1 := by
  have := faithful.low
  omega

/-- The first entry of an active file sets the next index, whatever it was. -/
theorem appendEntry_settled (faithful : Faithful codec history layout floor)
    (greater : history.last < entry.index.toNat) :
    SegmentedWAL.appendEntry { history.wal with nextIndex := history.last + 1 } (buffered codec entry) =
      history.wal.appendEntry (buffered codec entry) := by
  by_cases filled : layout.active ≠ []
  · rw [faithful.settled_of_filled filled]
  · have size : history.wal.active.size = 0 := by
      rw [faithful.holds.size, not_not.mp filled]
      rfl
    have room : ¬ history.wal.active.size ≥ history.wal.segmentSize := by
      have : 0 < history.wal.segmentSize := faithful.holds.positive
      omega
    have next := faithful.next
    have later : (buffered codec entry).index + 1 > history.last + 1 := by
      simp only [buffered]
      omega
    have later' : (buffered codec entry).index + 1 > history.wal.nextIndex := by omega
    unfold SegmentedWAL.appendEntry
    simp only [if_neg room, if_pos later, if_pos later']

theorem last_append (history : WalHistory) (wal : SegmentedWAL) (entry : Entry) :
    WalHistory.last { history with wal := wal, appended := history.appended ++ [entry] } = entry.index.toNat := by
  rw [WalHistory.last, lastIndexOr_append]
  rfl

theorem appendEntry (faithful : Faithful codec history layout floor) (encodable : (codec.marshal entry).isSome)
    (greater : history.last < entry.index.toNat)
    (ok : history.wal.appendEntry (buffered codec entry) = .ok wal) :
    ∃ layout', Faithful codec { history with wal := wal, appended := history.appended ++ [entry] } layout' floor := by
  rw [← faithful.appendEntry_settled greater] at ok
  obtain ⟨ready, layout', opened, holds, sealed⟩ := faithful.holds.ready_cases
  have next : ready.nextIndex = history.last + 1 := holds.next.trans faithful.settled_next
  -- sealing the active file changes neither the entries nor their order
  obtain ⟨entries, segments, proper⟩ : layout'.entries = layout.entries ∧
      ready.segments.map Segment.range = layout'.ranges ∧ ∀ range ∈ layout'.ranges, range.1 ≤ range.2 := by
    rcases sealed with ⟨rfl, rfl⟩ | ⟨filled, rotated, rfl⟩
    · exact ⟨rfl, faithful.segments, faithful.proper⟩
    · have started := (faithful.holds.behind filled).resolve_right (by have := (faithful.filled filled).2; omega)
      have fresh : (history.wal.active.startIndex, history.last + 1 - 1) ∉ layout.ranges := by
        intro again
        have bound := faithful.holds.wf.shaped.bounded again
        simp only at bound started
        omega
      refine ⟨Layout.entries_rotated fresh, ?_, ?_⟩
      · rw [SegmentedWAL.rotate_segments rotated, List.map_append]
        show history.wal.segments.map Segment.range ++ _ = _
        rw [faithful.segments]
        simp only [Layout.rotated, if_neg fresh]
        rfl
      · intro range member
        rcases Layout.mem_rotated.mp member with old | rfl
        · exact faithful.proper range old
        · simp only at started ⊢
          omega
  have later : (buffered codec entry).index + 1 > ready.nextIndex := by
    rw [next]
    exact Nat.succ_lt_succ greater
  have file : ready.dir.get ready.active.path = some (records codec layout'.active) := by
    rw [holds.stored.activePath, holds.stored.activeFile]
  unfold SegmentedWAL.appendEntry at ok
  simp only [opened, file, Option.getD_some, if_pos later] at ok
  split at ok
  · cases ok
  · rename_i short
    cases ok
    have written := holds.write_spec encodable greater (Nat.not_le.mp short)
    rw [if_pos (show entry.index.toNat + 1 > ready.nextIndex from later)] at written
    have low := faithful.low
    refine ⟨layout'.appended entry, ?_, ?_, ?_, ?_, segments, proper, ?_, ?_, ?_⟩
    · rw [last_append]
      exact written
    · rw [last_append]
      exact Nat.le_refl _
    · intro _
      rw [last_append]
      exact ⟨rfl, by omega⟩
    · rw [last_append]
      omega
    · rw [Layout.entries_appended, entries]
      refine Ascending.snoc_iff.mpr ⟨faithful.ascending, by omega, fun old member => ?_⟩
      exact (faithful.holds.wf.written old (Layout.mem_entries.mp member)).trans_lt greater
    · intro old member
      rw [Layout.entries_appended, entries] at member
      rcases List.mem_append.mp member with before | new
      · exact List.mem_append_left _ (faithful.origin old before)
      · exact List.mem_append_right _ new
    · intro old member behind
      rw [Layout.entries_appended, entries]
      rcases List.mem_append.mp member with before | new
      · exact List.mem_append_left _ (faithful.stored old before behind)
      · exact List.mem_append_right _ new

theorem appendBatch {entries : List Entry} (faithful : Faithful codec history layout floor)
    (encodable : Encodable codec entries) (ascending : Ascending (history.appended ++ entries))
    (ok : history.wal.appendBatch (entries.map (buffered codec)) = .ok wal) :
    ∃ layout', Faithful codec { history with wal := wal, appended := history.appended ++ entries } layout' floor := by
  induction entries generalizing history layout with
  | nil =>
    cases ok
    rw [List.append_nil]
    exact ⟨layout, faithful⟩
  | cons entry entries ih =>
    have greater := ascending.next
    rw [List.map_cons, SegmentedWAL.appendBatch_cons] at ok
    obtain ⟨middle, appended, others⟩ := bind_ok ok
    obtain ⟨between, first⟩ := faithful.appendEntry (encodable entry List.mem_cons_self) greater appended
    have rest := @ih _ between first (fun other member => encodable other (List.mem_cons_of_mem _ member))
    simp only [List.append_assoc, List.singleton_append] at rest
    exact rest ascending others

theorem truncate (faithful : Faithful codec history layout floor) (lawful : codec.Lawful) {upToIndex : Nat}
    (appended : upToIndex ≤ history.last) :
    ∃ wal layout' floor', history.wal.truncate upToIndex = .ok wal ∧
      Faithful codec { history with wal := wal, cuts := upToIndex :: history.cuts } layout' floor' := by
  obtain ⟨settled, layout', floor', truncated, holds, cut⟩ := faithful.holds.truncate_cases lawful upToIndex
  have low : floor' ≤ history.last := by
    have := faithful.low
    rcases cut with ⟨_, rfl, _⟩ | ⟨_, rfl, _⟩ <;> omega
  have next : settled.nextIndex = history.last + 1 := by
    have := holds.next
    omega
  obtain ⟨wal, ok, same, kept⟩ : ∃ wal, history.wal.truncate upToIndex = .ok wal ∧
      { wal with nextIndex := history.last + 1 } = settled ∧
      (wal.nextIndex = history.wal.nextIndex ∨ wal.nextIndex = history.last + 1) := by
    rcases SegmentedWAL.truncate_nextIndex truncated with ok | ⟨wal, ok, kept, rfl⟩
    · exact ⟨settled, ok, by rw [← next], Or.inr next⟩
    · exact ⟨wal, ok, rfl, Or.inl kept⟩
  have segments : wal.segments = settled.segments := by rw [← same]
  refine ⟨wal, layout', floor', ok, ?_, ?_, ?_, low, ?_, ?_, ?_, ?_, ?_⟩
  · show SegmentedWAL.Holds codec { wal with nextIndex := history.last + 1 } layout' history.last floor'
    rw [same]
    exact holds
  · show wal.nextIndex ≤ history.last + 1
    have := faithful.next
    omega
  · intro filled
    rcases cut with ⟨rfl, rfl, _⟩ | ⟨rfl, _⟩
    · obtain ⟨behind, above⟩ := faithful.filled filled
      refine ⟨?_, above⟩
      show wal.nextIndex = history.last + 1
      omega
    · exact absurd rfl filled
  · show wal.segments.map Segment.range = layout'.ranges
    rw [segments]
    rcases cut with ⟨rfl, _, _, left⟩ | ⟨rfl, _, _, none, _⟩
    · rw [left]
      simp only [Layout.truncated, ← faithful.segments, List.filter_map]
      rfl
    · rw [none]
      rfl
  · intro range member
    rcases cut with ⟨rfl, _⟩ | ⟨rfl, _⟩
    · exact faithful.proper range (Layout.mem_truncated.mp member).1
    · cases member
  · rcases cut with ⟨rfl, _⟩ | ⟨rfl, _⟩
    · exact faithful.ascending.sublist (Layout.entries_truncated upToIndex)
    · exact List.pairwise_singleton _ _
  · intro entry member
    rcases cut with ⟨rfl, _⟩ | ⟨rfl, _⟩
    · exact faithful.origin entry ((Layout.entries_truncated upToIndex).subset member)
    · cases member
  · intro entry member behind
    have here := behind upToIndex List.mem_cons_self
    have stores := Layout.mem_entries.mp
      (faithful.stored entry member fun old inside => behind old (List.mem_cons_of_mem _ inside))
    rcases cut with ⟨rfl, _⟩ | ⟨rfl, _, _, _, all, _⟩
    · apply Layout.mem_entries.mpr
      rcases stores with ⟨range, inRanges, inside⟩ | inActive
      · have within := faithful.holds.wf.within range inRanges entry inside
        exact Or.inl ⟨range, Layout.mem_truncated.mpr ⟨inRanges, by omega⟩, inside⟩
      · exact Or.inr inActive
    · have := faithful.holds.wf.written entry stores
      omega

theorem reopen (faithful : Faithful codec history layout floor) (lawful : codec.Lawful) (segmentSize : Nat) :
    ∃ wal, newSegmentedWal history.wal.dir segmentSize = .ok wal ∧
      Faithful codec { history with wal := wal } layout floor := by
  have holds := faithful.holds
  obtain ⟨wal, ok, reopened⟩ := holds.stored.reopen_spec lawful segmentSize
  have start : wal.active.startIndex = history.wal.active.startIndex := by rw [reopened.active]; rfl
  have next : wal.nextIndex = lastIndexOr 0 layout.active + 1 := reopened.nextIndex
  have positive : 0 < wal.segmentSize := newSegmentedWal_positive ok
  refine ⟨wal, ok, ?_, ?_, ?_, faithful.low, reopened.ranges, faithful.proper, faithful.ascending,
    faithful.origin, faithful.stored⟩
  · have stored := reopened.stored holds.stored
    show SegmentedWAL.Holds codec { wal with nextIndex := history.last + 1 } layout history.last floor
    refine ⟨?_, stored.files, stored.sealed, stored.covered, stored.isActive, ?_, holds.short, holds.next, ?_, ?_, ?_,
      positive⟩
    · simpa only [start] using holds.wf
    · simp only [reopened.active]
      rfl
    · simpa only [start] using holds.started
    · simpa only [start] using holds.idle
    · simpa only [start] using holds.behind
  · show wal.nextIndex ≤ history.last + 1
    by_cases filled : layout.active = []
    · rw [next, filled]
      exact Nat.succ_le_succ (Nat.zero_le _)
    · rw [next, holds.wf.newest filled]
  · intro filled
    refine ⟨?_, (faithful.filled filled).2⟩
    show wal.nextIndex = history.last + 1
    rw [next, holds.wf.newest filled]

/-- However the directory is listed, its segments sorted by where they start are
those that opening finds: no two start at the same index. -/
theorem sorted_listing (faithful : Faithful codec history layout floor) {names : List FileName}
    (listed : names.Perm history.wal.dir.keys) {sorted : List Segment}
    (same : sorted.Perm (names.filterMap (parseSegment history.wal.dir)))
    (ordered : sorted.Pairwise fun a b => a.startIndex ≤ b.startIndex) :
    sorted = SegmentedWAL.Holds.parsedSegments codec layout history.wal.active.startIndex := by
  have holds := faithful.holds
  have parsed : (names.filterMap (parseSegment history.wal.dir)).Perm
      (SegmentedWAL.Holds.parsedSegments codec layout history.wal.active.startIndex) := by
    have keys := (List.perm_ext_iff_of_nodup history.wal.dir.nodup holds.wf.shaped.names_nodup).mpr holds.stored.mem_dir
    rw [← holds.stored.parse_eq fun _ => rfl, ← parse_names]
    exact (listed.trans keys).filterMap _
  have increasing : (SegmentedWAL.Holds.parsedSegments codec layout history.wal.active.startIndex).Pairwise
      fun a b => a.startIndex < b.startIndex := by
    unfold SegmentedWAL.Holds.parsedSegments
    rw [List.pairwise_append, List.pairwise_map]
    refine ⟨holds.wf.shaped.ordered.imp_of_mem ?_, List.pairwise_singleton _ _, ?_⟩
    · intro before after inside _ follows
      have := faithful.proper before inside
      simp only [SegmentedWAL.Holds.segmentAt]
      omega
    · intro before member after final
      obtain ⟨range, inside, rfl⟩ := List.mem_map.mp member
      rw [List.mem_singleton] at final
      subst final
      have := faithful.proper range inside
      have := holds.wf.shaped.bounded inside
      simp only [SegmentedWAL.Holds.segmentAt, SegmentedWAL.Holds.activeAt] at this ⊢
      omega
  refine List.Perm.eq_of_pairwise ?_ ordered (increasing.imp fun less => less.le) (same.trans parsed)
  intro before after inside member forth back
  have inParsed := (same.trans parsed).subset inside
  have distinct : ((SegmentedWAL.Holds.parsedSegments codec layout history.wal.active.startIndex).map
      Segment.startIndex).Nodup := List.pairwise_map.mpr (increasing.imp fun less => Nat.ne_of_lt less)
  exact List.inj_on_of_nodup_map distinct inParsed member (Nat.le_antisymm forth back)

theorem recover (faithful : Faithful codec history layout floor) (lawful : codec.Lawful) (snapshotIndex : Nat) :
    history.wal.recover codec snapshotIndex =
      .ok (layout.entries.filter fun entry => snapshotIndex < entry.index.toNat) :=
  faithful.holds.stored.recover_spec lawful faithful.segments snapshotIndex

/-- Only the length of a file limits what can be appended. -/
theorem appendBatch_error {entries : List Entry} {err : WalError} (faithful : Faithful codec history layout floor)
    (encodable : Encodable codec entries) (ascending : Ascending (history.appended ++ entries))
    (failed : history.wal.appendBatch (entries.map (buffered codec)) = .error err) : err = .fileTooBig := by
  induction entries generalizing history layout with
  | nil => cases failed
  | cons entry entries ih =>
    have greater := ascending.next
    rw [List.map_cons, SegmentedWAL.appendBatch_cons] at failed
    rcases bind_error failed with appended | ⟨middle, appended, others⟩
    · rw [← faithful.appendEntry_settled greater] at appended
      obtain ⟨ready, _, opened, _⟩ := faithful.holds.ready_cases
      unfold SegmentedWAL.appendEntry at appended
      simp only [opened] at appended
      split at appended
      · cases appended
        rfl
      · cases appended
    · obtain ⟨between, first⟩ := faithful.appendEntry (encodable entry List.mem_cons_self) greater appended
      have rest := @ih _ between first (fun other member => encodable other (List.mem_cons_of_mem _ member))
      simp only [List.append_assoc, List.singleton_append] at rest
      exact rest ascending others

end Faithful

/-! ### Runs -/

theorem mapM_encodeBufferedEntry {codec : Codec} {entries : List Entry} {batch : List BufferedEntry}
    (encoded : entries.mapM (encodeBufferedEntry codec) = some batch) :
    batch = entries.map (buffered codec) ∧ Encodable codec entries := by
  induction entries generalizing batch with
  | nil =>
    cases encoded
    exact ⟨rfl, by simp [Encodable]⟩
  | cons entry entries ih =>
    rw [List.mapM_cons] at encoded
    obtain ⟨first, here, rest⟩ := Option.bind_eq_some_iff.mp encoded
    obtain ⟨others, later, same⟩ := Option.bind_eq_some_iff.mp rest
    cases same
    obtain ⟨rfl, encodable⟩ := encodeBufferedEntry_some here
    obtain ⟨rfl, all⟩ := ih later
    refine ⟨rfl, ?_⟩
    intro other member
    rcases List.mem_cons.mp member with rfl | member
    · exact encodable
    · exact all other member

/-- A batch that was taken could be encoded, and the log took it. -/
theorem WalHistory.step_append {codec : Codec} {history history' : WalHistory} {entries : List Entry}
    (stepped : history.step codec (.append entries) = some history') :
    Encodable codec entries ∧ ∃ wal, history.wal.appendBatch (entries.map (buffered codec)) = .ok wal ∧
      history' = { history with wal := wal, appended := history.appended ++ entries } := by
  simp only [WalHistory.step] at stepped
  split at stepped
  · cases stepped
  · rename_i batch encoded
    obtain ⟨rfl, encodable⟩ := mapM_encodeBufferedEntry encoded
    split at stepped
    · cases stepped
    · rename_i wal ok
      cases stepped
      exact ⟨encodable, wal, ok, rfl⟩

theorem Faithful.step {codec : Codec} {history history' : WalHistory} {layout : Layout} {floor : Nat} {op : WalOp}
    (faithful : Faithful codec history layout floor) (lawful : codec.Lawful) (admitted : history.Admits op)
    (stepped : history.step codec op = some history') :
    ∃ layout' floor', Faithful codec history' layout' floor' := by
  cases op with
  | append entries =>
    obtain ⟨encodable, wal, ok, rfl⟩ := WalHistory.step_append stepped
    obtain ⟨layout', after⟩ := faithful.appendBatch encodable admitted.1 ok
    exact ⟨layout', floor, after⟩
  | truncate upToIndex =>
    obtain ⟨wal, layout', floor', ok, after⟩ := faithful.truncate lawful admitted
    simp only [WalHistory.step, ok, Option.some.injEq] at stepped
    exact ⟨layout', floor', stepped ▸ after⟩
  | reopen segmentSize =>
    obtain ⟨wal, ok, after⟩ := faithful.reopen lawful segmentSize
    simp only [WalHistory.step, ok, Option.some.injEq] at stepped
    exact ⟨layout, floor, stepped ▸ after⟩

theorem WalRun.faithful {codec : Codec} {first : SegmentedWAL} {size : Nat} {ops : List WalOp} {history : WalHistory}
    (lawful : codec.Lawful) (opened : newSegmentedWal .empty size = .ok first) (run : WalRun codec first ops history) :
    ∃ layout floor, Faithful codec history layout floor := by
  refine Run.invariant (fun _ history => ∃ layout floor, Faithful codec history layout floor) ?_ ?_ run
  · exact ⟨_, _, .start opened⟩
  · intro _ _ _ _ before admitted stepped
    obtain ⟨_, _, faithful⟩ := before
    exact faithful.step lawful admitted stepped

/-- A log that was appended to, truncated and reopened in any order. It can
always be opened again, no truncation fails, an append only if a file gets too
long, and recovery delivers in order entries that were appended, among them all
that are behind the snapshot and behind every truncation. -/
theorem wal_is_faithful {codec : Codec} {first : SegmentedWAL} {size : Nat} {ops : List WalOp}
    {history : WalHistory} (lawful : codec.Lawful) (opened : newSegmentedWal .empty size = .ok first)
    (run : WalRun codec first ops history) :
    (∀ segmentSize, 0 < segmentSize → ∃ wal, newSegmentedWal history.wal.dir segmentSize = .ok wal) ∧
      (∀ upToIndex ≤ history.last, ∃ wal, history.wal.truncate upToIndex = .ok wal) ∧
      (∀ entries batch err, history.Admits (.append entries) →
        entries.mapM (encodeBufferedEntry codec) = some batch →
        history.wal.appendBatch batch = .error err → err = .fileTooBig) ∧
      ∀ snapshotIndex, ∃ delivered, history.wal.recover codec snapshotIndex = .ok delivered ∧
        Ascending delivered ∧ (∀ entry ∈ delivered, entry ∈ history.appended) ∧
        ∀ entry ∈ history.appended, snapshotIndex < entry.index.toNat →
          (∀ upToIndex ∈ history.cuts, upToIndex < entry.index.toNat) → entry ∈ delivered := by
  obtain ⟨layout, floor, faithful⟩ := run.faithful lawful opened
  refine ⟨?_, ?_, ?_, ?_⟩
  · intro segmentSize _
    obtain ⟨wal, ok, _⟩ := faithful.reopen lawful segmentSize
    exact ⟨wal, ok⟩
  · intro upToIndex appended
    obtain ⟨wal, _, _, ok, _⟩ := faithful.truncate lawful appended
    exact ⟨wal, ok⟩
  · intro entries batch err admitted encoded failed
    obtain ⟨rfl, encodable⟩ := mapM_encodeBufferedEntry encoded
    exact faithful.appendBatch_error encodable admitted.1 failed
  · intro snapshotIndex
    refine ⟨_, faithful.recover lawful snapshotIndex, faithful.ascending.sublist List.filter_sublist, ?_, ?_⟩
    · intro entry member
      exact faithful.origin entry (List.mem_filter.mp member).1
    · intro entry member behind uncut
      exact List.mem_filter.mpr ⟨faithful.stored entry member uncut, by simpa using behind⟩

private def sampleEntry (index : UInt64) : Entry := ⟨1, index, .normal, some [7]⟩

/-- Every entry fills a file; the log is reopened after its active file was cut away. -/
private def sampleOps : List WalOp :=
  [.append [sampleEntry 2, sampleEntry 3, sampleEntry 5], .truncate 2, .reopen 1, .append [sampleEntry 6],
    .truncate 6, .reopen 1, .append [sampleEntry 18446744073709551614]]

private def sampleWal : SegmentedWAL := ⟨FinMap.empty.set (.active 1) [], [], ⟨1, 0, 0, true⟩, 1, 1⟩

-- the runs below are evaluated
set_option maxRecDepth 4000

private theorem sample_executes : (sampleOps.foldlM (fun (history : WalHistory) op =>
    if history.Admits op then history.step (wireCodec []) op else none) ⟨sampleWal, [], []⟩).isSome = true := rfl

theorem wal_is_faithful_sample : ∃ history delivered, WalRun (wireCodec []) sampleWal sampleOps history ∧
    history.wal.recover (wireCodec []) 0 = .ok delivered ∧ sampleEntry 18446744073709551614 ∈ delivered := by
  have run : WalRun (wireCodec []) sampleWal sampleOps (Option.get _ sample_executes) :=
    Run.of_guarded (Option.some_get _).symm
  obtain ⟨_, _, _, recovers⟩ := wal_is_faithful (wireCodec_lawful []) (newSegmentedWal_empty 1) run
  obtain ⟨delivered, ok, _, _, all⟩ := recovers 0
  exact ⟨_, delivered, run, ok, all _ (by decide) (by decide) (by decide)⟩

end Cue.Cluster
