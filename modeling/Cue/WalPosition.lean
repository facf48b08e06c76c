import Cue.WalFidelity

/-! What a log knows of its position when it is closed and opened again. The next
index is not stored: it is read off the active file. So it comes back unless the
last truncation left that file empty, or went past all that was appended since;
the sealed ranges come back unless such a truncation let two files be sealed
under one name. -/
namespace Cue.Cluster
open Cue.Lib Cue.Model

/-- Indices increase along all that is appended. Truncation may go to any index. -/
def WalHistory.Grows (history : WalHistory) : WalOp → Prop
  | .append entries => ((history.appended ++ entries).map fun entry => entry.index.toNat).Pairwise (· < ·) ∧
    ∀ entry ∈ entries, entry.index.toNat ≤ 2 ^ 64 - 2
  | .truncate upToIndex => upToIndex ≤ 2 ^ 64 - 2
  | .reopen _ => False

instance (history : WalHistory) : ∀ op, Decidable (history.Grows op)
  | .append _ => inferInstanceAs (Decidable (_ ∧ _))
  | .truncate _ => inferInstanceAs (Decidable (_ ≤ _))
  | .reopen _ => isFalse id

abbrev GrowingRun (codec : Codec) (first : SegmentedWAL) : List WalOp → WalHistory → Prop :=
  Run (fun history op history' => history.step codec op = some history') (fun _ => WalHistory.Grows) ⟨first, [], []⟩

/-- What the position of a log says of its history; `floor` is the index of the
last truncation that left the active file empty. -/
structure Positioned (codec : Codec) (history : WalHistory) (layout : Layout) (floor : Nat) : Prop where
  stored : history.wal.Stored codec layout
  next : history.wal.nextIndex = max history.last floor + 1
  started : history.wal.active.startIndex ≤ history.wal.nextIndex
  idle : layout.active = [] → history.wal.active.startIndex = history.wal.nextIndex
  newest : layout.active ≠ [] → lastIndexOr 0 layout.active = history.last
  above : floor ≤ history.wal.active.startIndex
  listed : layout.ranges.Sublist (history.wal.segments.map Segment.range)
  cut : floor = 0 ∨ floor ∈ history.cuts
  bounded : ∀ upToIndex ∈ history.cuts, upToIndex ≤ max history.last floor

namespace Positioned

variable {codec : Codec} {history history' : WalHistory} {layout : Layout} {floor : Nat} {wal : SegmentedWAL}
  {entry : Entry}

theorem start {segmentSize : Nat} (opened : newSegmentedWal .empty segmentSize = .ok wal) :
    Positioned codec ⟨wal, [], []⟩ Layout.empty 0 := by
  obtain ⟨created, ok, holds⟩ := @new_holds codec segmentSize
  cases opened.symm.trans ok
  exact ⟨holds.stored, holds.next, holds.started, holds.idle, fun filled => absurd rfl filled, Nat.zero_le _,
    List.nil_sublist _, .inl rfl, fun _ member => by cases member⟩

/-- Sealing the active file leaves an empty one at the next index. -/
theorem rotate (positioned : Positioned codec history layout floor) (ok : history.wal.rotate = .ok wal) :
    ∃ layout', Positioned codec { history with wal := wal } layout' floor := by
  have started := positioned.started
  obtain ⟨dir, rotated, after⟩ := positioned.stored.rotate_spec started (by rw [positioned.next]; omega)
  cases rotated.symm.trans ok
  refine ⟨_, after, positioned.next, Nat.le_refl _, fun _ => rfl, fun filled => absurd rfl filled,
    positioned.above.trans started, ?_, positioned.cut, positioned.bounded⟩
  rw [List.map_append]
  unfold Layout.rotated
  dsimp only
  split
  · exact positioned.listed.trans (List.sublist_append_left _ _)
  · exact positioned.listed.append (List.Sublist.refl _)

theorem ready (positioned : Positioned codec history layout floor)
    (ok : (if history.wal.active.size ≥ history.wal.segmentSize then history.wal.rotate else .ok history.wal) =
      .ok wal) :
    ∃ layout', Positioned codec { history with wal := wal } layout' floor := by
  split at ok
  · exact positioned.rotate ok
  · cases ok
    exact ⟨layout, positioned⟩

theorem appendEntry (positioned : Positioned codec history layout floor) (encodable : (codec.marshal entry).isSome)
    (greater : history.last ≤ entry.index.toNat) (ok : history.wal.appendEntry (buffered codec entry) = .ok wal) :
    ∃ layout', Positioned codec { history with wal := wal, appended := history.appended ++ [entry] } layout' floor := by
  unfold SegmentedWAL.appendEntry at ok
  split at ok
  · cases ok
  rename_i ready opened
  obtain ⟨layout', ready'⟩ := positioned.ready opened
  have file := ready'.stored.activeFile
  rw [← ready'.stored.activePath] at file
  simp only [file, Option.getD_some] at ok
  split at ok
  · cases ok
  rename_i short
  have next : ready.nextIndex = max history.last floor + 1 := ready'.next
  have grown : (if (buffered codec entry).index + 1 > ready.nextIndex then (buffered codec entry).index + 1
      else ready.nextIndex) = max entry.index.toNat floor + 1 := by
    have index : (buffered codec entry).index = entry.index.toNat := rfl
    split <;> omega
  rw [grown] at ok
  cases ok
  have last := Faithful.last_append history ready entry
  have started : ready.active.startIndex ≤ max history.last floor + 1 := next ▸ ready'.started
  refine ⟨layout'.appended entry, ready'.stored.write_spec encodable (Nat.not_le.mp short) _ _, ?_, ?_, ?_, ?_,
    ready'.above, ready'.listed, ready'.cut, fun upToIndex member => ?_⟩
  · exact congrArg (max · floor + 1) last.symm
  · show ready.active.startIndex ≤ max entry.index.toNat floor + 1
    omega
  · exact fun empty => absurd empty (by simp [Layout.appended])
  · intro _
    refine (?_ : _ = entry.index.toNat).trans last.symm
    simp [Layout.appended, lastIndexOr]
  · have bound := positioned.bounded upToIndex member
    refine (?_ : _ ≤ max entry.index.toNat floor).trans_eq (congrArg (max · floor) last.symm)
    omega

/-- In an increasing list the entry behind others is not below the last of them. -/
private theorem last_le {entries more : List Entry}
    (ascending : ((entries ++ entry :: more).map fun entry => entry.index.toNat).Pairwise (· < ·)) :
    lastIndexOr 0 entries ≤ entry.index.toNat := by
  rcases List.eq_nil_or_concat entries with rfl | ⟨others, final, rfl⟩
  · exact Nat.zero_le _
  · rw [List.concat_eq_append, List.map_append, List.pairwise_append] at ascending
    rw [List.concat_eq_append, lastIndexOr_append]
    exact (ascending.2.2 final.index.toNat (by simp) entry.index.toNat (by simp)).le

theorem appendBatch {entries : List Entry} (positioned : Positioned codec history layout floor)
    (encodable : Encodable codec entries)
    (ascending : ((history.appended ++ entries).map fun entry => entry.index.toNat).Pairwise (· < ·))
    (ok : history.wal.appendBatch (entries.map (buffered codec)) = .ok wal) :
    ∃ layout', Positioned codec { history with wal := wal, appended := history.appended ++ entries } layout' floor := by
  induction entries generalizing history layout with
  | nil =>
    cases ok
    exact ⟨layout, by simpa using positioned⟩
  | cons entry entries ih =>
    rw [List.map_cons, SegmentedWAL.appendBatch_cons] at ok
    obtain ⟨middle, appended, others⟩ := bind_ok ok
    obtain ⟨between, first⟩ := positioned.appendEntry (encodable entry List.mem_cons_self) (last_le ascending) appended
    have rest := ih first fun other member => encodable other (List.mem_cons_of_mem _ member)
    simp only [List.append_assoc, List.singleton_append] at rest
    exact rest ascending others

theorem truncate (positioned : Positioned codec history layout floor) (lawful : codec.Lawful) {upToIndex : Nat} :
    ∃ wal layout' floor', history.wal.truncate upToIndex = .ok wal ∧
      Positioned codec { history with wal := wal, cuts := upToIndex :: history.cuts } layout' floor' := by
  obtain ⟨wal, layout', ok, after, segments, -, kept⟩ := positioned.stored.truncate_exact lawful upToIndex
  have next := positioned.next
  have started := positioned.started
  have above := positioned.above
  rcases kept with ⟨rfl, active, sameNext, behind⟩ | ⟨rfl, active, newNext, alone, early, past⟩
  · refine ⟨wal, _, floor, ok, after, sameNext.trans next, ?_, ?_, positioned.newest, ?_, ?_,
      positioned.cut.imp_right (List.mem_cons_of_mem _), ?_⟩
    · rw [active, sameNext]
      exact started
    · rw [active, sameNext]
      exact positioned.idle
    · rw [active]
      exact above
    · rw [segments]
      have fewer := positioned.listed.filter fun range => ¬ range.2 ≤ upToIndex
      rwa [List.filter_map] at fewer
    · -- a file that was not emptied starts behind the cut, or ends behind it
      intro other member
      rcases List.mem_cons.mp member with rfl | member
      · show other ≤ max history.last floor
        rcases behind with low | low
        · omega
        · by_cases filled : layout.active = []
          · rw [filled] at low
            exact absurd low (Nat.not_lt_zero _)
          · rw [positioned.newest filled] at low
            omega
      · exact positioned.bounded other member
  · have lower : history.last ≤ upToIndex := by
      by_cases filled : layout.active = []
      · have idle := positioned.idle filled
        omega
      · rw [← positioned.newest filled]
        exact past
    refine ⟨wal, _, upToIndex, ok, after, ?_, ?_, ?_, fun filled => absurd rfl filled, ?_, List.nil_sublist _,
      .inr List.mem_cons_self, ?_⟩
    · rw [newNext]
      exact congrArg (· + 1) (Nat.max_eq_right lower).symm
    · rw [newNext, active]
    · intro _
      rw [newNext, active]
    · rw [active]
      exact Nat.le_succ _
    · intro other member
      show other ≤ max history.last upToIndex
      rcases List.mem_cons.mp member with rfl | member
      · omega
      · have bound := positioned.bounded other member
        omega

theorem step {op : WalOp} (positioned : Positioned codec history layout floor) (lawful : codec.Lawful)
    (admitted : history.Grows op) (stepped : history.step codec op = some history') :
    ∃ layout' floor', Positioned codec history' layout' floor' := by
  cases op with
  | append entries =>
    obtain ⟨encodable, wal, ok, rfl⟩ := WalHistory.step_append stepped
    obtain ⟨layout', after⟩ := positioned.appendBatch encodable admitted.1 ok
    exact ⟨layout', floor, after⟩
  | truncate upToIndex =>
    obtain ⟨wal, layout', floor', ok, after⟩ := @truncate _ _ _ _ positioned lawful upToIndex
    simp only [WalHistory.step, ok, Option.some.injEq] at stepped
    exact ⟨layout', floor', stepped ▸ after⟩
  | reopen segmentSize => exact admitted.elim

/-- The next index is read off the active file again. -/
theorem nextIndex_iff (positioned : Positioned codec history layout floor) :
    lastIndexOr 0 layout.active + 1 = history.wal.nextIndex ↔
      (∀ upToIndex ∈ history.cuts, upToIndex ≤ history.last) ∧
        (history.wal.dir.get history.wal.active.path = some [] → history.last = 0) := by
  have file : history.wal.dir.get history.wal.active.path = some [] ↔ layout.active = [] := by
    rw [positioned.stored.activePath, positioned.stored.activeFile, Option.some.injEq]
    refine ⟨fun empty => ?_, fun empty => by rw [empty]; rfl⟩
    have few := length_le_records codec layout.active
    rw [empty] at few
    exact List.length_eq_zero_iff.mp (Nat.le_zero.mp few)
  have cuts : (∀ upToIndex ∈ history.cuts, upToIndex ≤ history.last) ↔ floor ≤ history.last := by
    refine ⟨fun low => ?_, fun low upToIndex member => ?_⟩
    · rcases positioned.cut with rfl | member
      · exact Nat.zero_le _
      · exact low floor member
    · exact (positioned.bounded upToIndex member).trans_eq (Nat.max_eq_left low)
  rw [file, cuts, positioned.next]
  by_cases filled : layout.active = []
  · simp only [filled, lastIndexOr_nil, forall_const]
    omega
  · rw [positioned.newest filled]
    simp only [filled, false_implies, and_true]
    omega

/-- Reopening lists every range once. -/
theorem ranges_iff (positioned : Positioned codec history layout floor) :
    layout.ranges = history.wal.segments.map Segment.range ↔ (history.wal.segments.map Segment.range).Nodup := by
  refine ⟨fun same => same ▸ positioned.stored.shaped.distinct, fun distinct => ?_⟩
  apply positioned.listed.eq_of_length_le
  apply List.Subperm.length_le
  apply List.subperm_of_subset distinct
  intro range member
  obtain ⟨seg, inSegments, rfl⟩ := List.mem_map.mp member
  exact (positioned.stored.sealed seg inSegments).2

end Positioned

theorem GrowingRun.positioned {codec : Codec} {first : SegmentedWAL} {size : Nat} {ops : List WalOp}
    {history : WalHistory} (lawful : codec.Lawful) (opened : newSegmentedWal .empty size = .ok first)
    (run : GrowingRun codec first ops history) : ∃ layout floor, Positioned codec history layout floor := by
  refine Run.invariant (fun _ history => ∃ layout floor, Positioned codec history layout floor) ?_ ?_ run
  · exact ⟨_, _, .start opened⟩
  · intro _ _ _ _ before admitted stepped
    obtain ⟨_, _, positioned⟩ := before
    exact positioned.step lawful admitted stepped

/-- A log that was appended to in increasing order and truncated anywhere opens
again with the active file where it was. The next index is the same exactly if
no truncation went past all that was appended and the active file is not empty
behind something that was; the sealed ranges are the same exactly if none was
used twice, and so they are if every truncation stayed within what was appended. -/
theorem reopening_restores_iff {codec : Codec} {first : SegmentedWAL} {size : Nat} {ops : List WalOp}
    {history : WalHistory} (lawful : codec.Lawful) (opened : newSegmentedWal .empty size = .ok first)
    (run : GrowingRun codec first ops history) (segmentSize : Nat) :
    ∃ wal, newSegmentedWal history.wal.dir segmentSize = .ok wal ∧
      wal.active.startIndex = history.wal.active.startIndex ∧
      (wal.nextIndex = history.wal.nextIndex ↔
        (∀ upToIndex ∈ history.cuts, upToIndex ≤ history.last) ∧
          (history.wal.dir.get history.wal.active.path = some [] → history.last = 0)) ∧
      (wal.segments.map Segment.range = history.wal.segments.map Segment.range ↔
        (history.wal.segments.map Segment.range).Nodup) ∧
      (WalRun codec first ops history → wal.segments.map Segment.range = history.wal.segments.map Segment.range) := by
  obtain ⟨layout, floor, positioned⟩ := run.positioned lawful opened
  obtain ⟨wal, ok, reopened⟩ := positioned.stored.reopen_spec lawful segmentSize
  refine ⟨wal, ok, by rw [reopened.active]; rfl, ?_, ?_, fun within => ?_⟩
  · rw [reopened.nextIndex]
    exact positioned.nextIndex_iff
  · rw [reopened.ranges]
    exact positioned.ranges_iff
  · obtain ⟨layout', floor', faithful⟩ := within.faithful lawful opened
    rw [reopened.ranges, positioned.ranges_iff, faithful.segments]
    exact faithful.holds.wf.distinct

private def plainEntry (index : UInt64) : Entry := ⟨1, index, .normal, none⟩

/-- Every entry fills a file. -/
private def smallWal : SegmentedWAL := ⟨FinMap.empty.set (.active 1) [], [], ⟨1, 0, 0, true⟩, 1, 1⟩

private def growth (ops : List WalOp) : Option WalHistory :=
  ops.foldlM (fun history op => if history.Grows op then history.step (wireCodec []) op else none) ⟨smallWal, [], []⟩

private def withinOps : List WalOp :=
  [.append [plainEntry 1, plainEntry 2, plainEntry 3], .truncate 1, .append [plainEntry 5]]

private theorem within_executes : (growth withinOps).isSome = true := rfl

theorem position_restored : ∃ history wal, GrowingRun (wireCodec []) smallWal withinOps history ∧
    newSegmentedWal history.wal.dir 1 = .ok wal ∧ wal.nextIndex = history.wal.nextIndex ∧
    wal.segments.map Segment.range = history.wal.segments.map Segment.range ∧
    wal.segments.map Segment.range = [(2, 2), (3, 3)] := by
  have run : GrowingRun (wireCodec []) smallWal withinOps (Option.get _ within_executes) :=
    Run.of_guarded (Option.some_get _).symm
  obtain ⟨wal, ok, -, next, ranges, -⟩ :=
    reopening_restores_iff (wireCodec_lawful []) (newSegmentedWal_empty 1) run 1
  have same := ranges.mpr (show [(2, 2), (3, 3)].Nodup by simp)
  refine ⟨_, wal, run, ok, next.mpr ⟨fun upToIndex member => ?_, fun empty => ?_⟩, same, same⟩
  · obtain rfl : upToIndex = 1 := List.mem_singleton.mp member
    exact Nat.le_of_ble_eq_true rfl
  · cases empty

/-- The active file is cut away with all that was appended. -/
private def emptyingOps : List WalOp := [.append [plainEntry 1, plainEntry 2], .truncate 2]

/-- Entries from below the cut are appended after it. -/
private def pastOps : List WalOp := [.truncate 10, .append [plainEntry 5, plainEntry 6, plainEntry 7]]

private theorem emptying_executes : (growth emptyingOps).isSome = true := rfl

private theorem past_executes : (growth pastOps).isSome = true := rfl

/-- Reopened on an empty active file, the log starts again at index 1; and of
two files sealed under one name only one is found again. -/
theorem position_forgotten :
    (∃ history wal, GrowingRun (wireCodec []) smallWal emptyingOps history ∧ history.wal.nextIndex = 3 ∧
      newSegmentedWal history.wal.dir 1 = .ok wal ∧ wal.nextIndex = 1) ∧
    ∃ history wal, GrowingRun (wireCodec []) smallWal pastOps history ∧
      history.wal.segments.map Segment.range = [(11, 10), (11, 10)] ∧
      newSegmentedWal history.wal.dir 1 = .ok wal ∧ wal.segments.map Segment.range = [(11, 10)] :=
  ⟨⟨Option.get _ emptying_executes, _, Run.of_guarded (Option.some_get _).symm, rfl, rfl, rfl⟩,
    Option.get _ past_executes, _, Run.of_guarded (Option.some_get _).symm, rfl, rfl, rfl⟩

end Cue.Cluster
