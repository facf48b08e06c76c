import Cue.WalProofs

/-! Opening a directory. An empty one becomes an empty log; one that a log left
behind is read back into the same segments, and recovery finds the entries of
its layout. -/
namespace Cue.Cluster
open Cue.Lib Cue.Model

variable {codec : Codec} {sw sw' : SegmentedWAL} {layout : Layout} {last floor : Nat}

theorem newSegmentedWal_empty (size : Nat) : newSegmentedWal .empty size = .ok {
    dir := FinMap.empty.set (.active 1) []
    segments := []
    active := ⟨1, 0, 0, true⟩
    nextIndex := 1
    segmentSize := if size > 0 then size else defaultSegmentSize } := rfl

theorem new_holds (size : Nat) :
    ∃ sw, newSegmentedWal .empty size = .ok sw ∧ sw.Holds codec Layout.empty 0 0 := by
  refine ⟨_, newSegmentedWal_empty size, Layout.WellFormed.empty, ?_, by simp, by simp [Layout.empty], rfl, rfl,
    ?_, rfl, Nat.le_refl _, fun _ => rfl, fun filled => absurd rfl filled, ?_⟩
  · intro name
    cases name with
    | wal first stop => simp [Layout.file, Layout.empty, FinMap.get_set]
    | active first => simp [Layout.file, Layout.empty, FinMap.get_set]
    | tmp first => simp [Layout.file, FinMap.get_set]
  · simp [Layout.empty, maxOffset]
  · simp only [defaultSegmentSize]
    split <;> omega

/-! ### The order of the names -/

theorem upTo_total (left right : FileName) : left.upTo right ∨ right.upTo left := by
  unfold FileName.upTo
  omega

theorem upTo_trans {left middle right : FileName} (first : left.upTo middle) (second : middle.upTo right) :
    left.upTo right := by
  unfold FileName.upTo at *
  omega

theorem upTo_antisymm {left right : FileName} (forth : left.upTo right) (back : right.upTo left) :
    left = right := by
  cases left <;> cases right <;> simp only [FileName.upTo, FileName.rank] at forth back
  · rw [FileName.wal.injEq]
    omega
  · omega
  · omega
  · omega
  · rw [FileName.active.injEq]
    omega
  · omega
  · omega
  · omega
  · rw [FileName.tmp.injEq]
    omega

/-- The names of the layout's files in their order. -/
def Layout.names (layout : Layout) (start : Nat) : List FileName :=
  layout.ranges.map (fun range => .wal range.1 range.2) ++ [.active start]

theorem Layout.Shaped.names_sorted {start : Nat} (shaped : layout.Shaped codec start) :
    (layout.names start).Pairwise FileName.upTo := by
  unfold Layout.names
  rw [List.pairwise_append]
  refine ⟨?_, List.pairwise_singleton _ _, ?_⟩
  · rw [List.pairwise_map]
    refine shaped.ordered.imp_of_mem ?_
    intro before after inside member follows
    have := shaped.forward before inside
    have := shaped.forward after member
    simp only [FileName.upTo, FileName.rank, true_and]
    omega
  · intro before member after same
    obtain ⟨range, inside, rfl⟩ := List.mem_map.mp member
    rw [List.mem_singleton] at same
    subst same
    have := shaped.forward range inside
    have := shaped.bounded inside
    simp only [FileName.upTo, FileName.rank]
    omega

theorem Layout.Shaped.names_nodup {start : Nat} (shaped : layout.Shaped codec start) :
    (layout.names start).Nodup := by
  unfold Layout.names
  rw [List.nodup_append]
  refine ⟨shaped.distinct.map ?_, List.nodup_singleton _, ?_⟩
  · intro before after same
    injection same with first stop
    exact Prod.ext first stop
  · intro before member after same equal
    obtain ⟨range, inside, rfl⟩ := List.mem_map.mp member
    rw [List.mem_singleton] at same
    subst same
    cases equal

namespace SegmentedWAL.Holds

/-- A sealed segment as `parseSegment` reads it. -/
def segmentAt (codec : Codec) (layout : Layout) (range : Nat × Nat) : Segment :=
  ⟨range.1, range.2, (records codec (layout.contents range)).length, false⟩

/-- The active segment as `parseSegment` reads it. -/
def activeAt (codec : Codec) (layout : Layout) (start : Nat) : Segment :=
  ⟨start, 0, (records codec layout.active).length, true⟩

def parsedSegments (codec : Codec) (layout : Layout) (start : Nat) : List Segment :=
  layout.ranges.map (segmentAt codec layout) ++ [activeAt codec layout start]

/-- What opening the directory of a log gives. -/
structure Reopened (codec : Codec) (layout : Layout) (sw sw' : SegmentedWAL) : Prop where
  dir : ∀ name, sw'.dir.get name = sw.dir.get name
  segments : sw'.segments = layout.ranges.map (segmentAt codec layout)
  active : sw'.active = activeAt codec layout sw.active.startIndex
  nextIndex : sw'.nextIndex = lastIndexOr 0 layout.active + 1

end SegmentedWAL.Holds

/-! ### Opening -/

/-- Nothing is removed from a directory without temporary files. -/
theorem get_plain {dir : Directory} (noTmp : ∀ start, dir.get (.tmp start) = none) (name : FileName) :
    (dir.filter fun name _ => !name.isTmp).get name = dir.get name := by
  rw [FinMap.get_filter]
  cases name with
  | wal first stop => cases dir.get (.wal first stop) <;> rfl
  | active first => cases dir.get (.active first) <;> rfl
  | tmp first => rw [noTmp, Option.filter_none]

/-- A sealed segment as `parseSegment` finds it. -/
def sealedIn (dir : Directory) (range : Nat × Nat) : Segment :=
  ⟨range.1, range.2, fileSize dir (.wal range.1 range.2), false⟩

/-- The active segment as `parseSegment` finds it. -/
def activeIn (dir : Directory) (start : Nat) : Segment := ⟨start, 0, fileSize dir (.active start), true⟩

theorem parseSegment_start {dir : Directory} {name : FileName} {seg : Segment}
    (parsed : parseSegment dir name = some seg) : seg.startIndex = name.rank.1 := by
  cases name <;> cases parsed <;> rfl

theorem parse_names (layout : Layout) (dir : Directory) (start : Nat) :
    (layout.names start).filterMap (parseSegment dir) = layout.ranges.map (sealedIn dir) ++ [activeIn dir start] := by
  unfold Layout.names
  rw [List.filterMap_append, List.filterMap_map, ← List.filterMap_eq_map]
  rfl

namespace Layout.Shaped

variable {start : Nat} {dir : Directory}

theorem readDir_eq (shaped : layout.Shaped codec start)
    (named : ∀ name, name ∈ dir.keys ↔ name ∈ layout.names start) : readDir dir = layout.names start := by
  have total : Std.Total FileName.upTo := ⟨upTo_total⟩
  have trans : IsTrans FileName FileName.upTo := ⟨fun _ _ _ => upTo_trans⟩
  have same : dir.keys.Perm (layout.names start) :=
    (List.perm_ext_iff_of_nodup dir.nodup shaped.names_nodup).mpr named
  refine List.Perm.eq_of_pairwise (fun _ _ _ _ => upTo_antisymm) (List.pairwise_insertionSort _ _)
    shaped.names_sorted ?_
  exact (List.perm_insertionSort _ _).trans same

private theorem parsed_sorted (shaped : layout.Shaped codec start) :
    (layout.ranges.map (sealedIn dir) ++ [activeIn dir start]).Pairwise fun a b => a.startIndex ≤ b.startIndex := by
  rw [← parse_names]
  refine shaped.names_sorted.filterMap (parseSegment dir) ?_
  intro before after upTo first parsed second parsed'
  rw [parseSegment_start parsed, parseSegment_start parsed']
  unfold FileName.upTo at upTo
  omega

private theorem continuous_ranges {ranges : List (Nat × Nat)} (chain : List.IsChain Follows (ranges ++ [(start, 0)])) :
    continuous (ranges.map (sealedIn dir) ++ [activeIn dir start]) = true := by
  induction ranges with
  | nil => rfl
  | cons range ranges ih =>
    have rest := ih chain.tail
    cases ranges with
    | nil =>
      have first : range.2 + 1 = start := by simpa [Follows] using chain
      simp [continuous, sealedIn, activeIn, first]
    | cons second ranges =>
      have first : range.2 + 1 = second.1 := (List.isChain_cons_cons.mp chain).1
      simp only [List.map_cons, List.cons_append] at rest ⊢
      simp only [continuous, sealedIn, first, true_and, decide_eq_true_eq]
      exact rest

/-- A directory with the files of a layout opens if the active one can be scanned,
whatever is in the files. -/
theorem open_spec (shaped : layout.Shaped codec start)
    (named : ∀ name, name ∈ dir.keys ↔ name ∈ layout.names start) (size : Nat) :
    let plain := dir.filter fun name _ => !name.isTmp
    (∀ err, scanLastIndex plain (activeIn plain start) = .error err → newSegmentedWal dir size = .error err) ∧
      ∀ last, scanLastIndex plain (activeIn plain start) = .ok last → newSegmentedWal dir size = .ok {
        dir := plain
        segments := layout.ranges.map (sealedIn plain)
        active := activeIn plain start
        nextIndex := last + 1
        segmentSize := if size > 0 then size else defaultSegmentSize } := by
  intro plain
  have sealed : (layout.ranges.map (sealedIn plain) ++ [activeIn plain start]).filter (fun seg => !seg.active) =
      layout.ranges.map (sealedIn plain) := by
    have all : (layout.ranges.map (sealedIn plain)).filter (fun seg => !seg.active) =
        layout.ranges.map (sealedIn plain) := by
      simp [List.filter_map, Function.comp_def, sealedIn]
    simp [List.filter_append, all, activeIn]
  have active : (layout.ranges.map (sealedIn plain) ++ [activeIn plain start]).filter Segment.active =
      [activeIn plain start] := by
    have none : (layout.ranges.map (sealedIn plain)).filter Segment.active = [] := by
      simp [List.filter_map, Function.comp_def, sealedIn]
    simp [List.filter_append, none, activeIn]
  unfold newSegmentedWal
  simp only [shaped.readDir_eq named, parse_names, (shaped.parsed_sorted).insertionSort_eq,
    continuous_ranges shaped.chain, Bool.true_eq_false, ↓reduceIte]
  rw [sealed, active]
  refine ⟨fun err failed => ?_, fun last scanned => ?_⟩
  · dsimp only
    rw [failed]
  · dsimp only
    rw [scanned]

end Layout.Shaped

namespace SegmentedWAL.Stored
open Holds

theorem mem_dir (stored : sw.Stored codec layout) (name : FileName) :
    name ∈ sw.dir.keys ↔ name ∈ layout.names sw.active.startIndex := by
  rw [FinMap.mem_keys]
  simp only [stored.files, Layout.names, List.mem_append, List.mem_map, List.mem_singleton]
  cases name with
  | wal first stop =>
    simp only [Layout.file, FileName.wal.injEq, reduceCtorEq, or_false]
    constructor
    · rintro ⟨file, found⟩
      split at found
      · exact ⟨_, ‹_›, rfl, rfl⟩
      · cases found
    · rintro ⟨range, member, rfl, rfl⟩
      exact ⟨_, if_pos member⟩
  | active first => simp [Layout.file]
  | tmp first => simp [Layout.file]

theorem parse_eq (stored : sw.Stored codec layout) {dir : Directory}
    (same : ∀ name, dir.get name = sw.dir.get name) :
    layout.ranges.map (sealedIn dir) ++ [activeIn dir sw.active.startIndex] =
      parsedSegments codec layout sw.active.startIndex := by
  unfold parsedSegments
  congr 1
  · apply List.map_congr_left
    intro range member
    simp [sealedIn, fileSize, same, stored.files, Layout.file, member, segmentAt]
  · simp [activeIn, fileSize, same, stored.files, Layout.file, activeAt]

theorem reopen_spec (stored : sw.Stored codec layout) (lawful : codec.Lawful) (size : Nat) :
    ∃ sw', newSegmentedWal sw.dir size = .ok sw' ∧ Reopened codec layout sw sw' := by
  have same := get_plain fun start => stored.files (.tmp start)
  have scanned : scanLastIndex (sw.dir.filter fun name _ => !name.isTmp)
      (activeIn (sw.dir.filter fun name _ => !name.isTmp) sw.active.startIndex) =
        .ok (lastIndexOr 0 layout.active) := by
    unfold scanLastIndex
    simp only [activeIn, Segment.path, ↓reduceIte, same, stored.activeFile]
    exact scanLast_records lawful stored.shaped.activeEncodable stored.short
  obtain ⟨sealed, active⟩ := List.append_inj' (stored.parse_eq same) rfl
  refine ⟨_, (stored.shaped.open_spec stored.mem_dir size).2 _ scanned, same, sealed, ?_, rfl⟩
  exact List.singleton_inj.mp active

end SegmentedWAL.Stored

/-! ### Recovery -/

def Segment.range (seg : Segment) : Nat × Nat := (seg.startIndex, seg.endIndex)

namespace SegmentedWAL
section Recover

variable {dir : Directory} (encodable : ∀ entry, layout.Stores entry → (codec.marshal entry).isSome)
  (files : ∀ range ∈ layout.ranges,
    dir.get (.wal range.1 range.2) = some (records codec (layout.contents range)))
  (lawful : codec.Lawful)
include encodable files lawful

private theorem read_sealed {seg : Segment} (path : seg.path = .wal seg.startIndex seg.endIndex)
    (member : seg.range ∈ layout.ranges) : readSegment codec dir seg = .ok (layout.contents seg.range) := by
  have found : dir.get seg.path = some (records codec (layout.contents seg.range)) := by
    rw [path]
    exact files _ member
  unfold readSegment
  rw [found]
  exact readFile_records lawful fun entry inside => encodable entry (Or.inl ⟨_, member, inside⟩)

/-- The sealed files are read in the order of the segments, then the active one. -/
theorem read_segments {segments : List Segment} (active : Segment)
    (paths : ∀ seg ∈ segments, seg.path = .wal seg.startIndex seg.endIndex)
    (known : ∀ seg ∈ segments, seg.range ∈ layout.ranges) :
    (segments ++ [active]).mapM (readSegment codec dir) =
      (readSegment codec dir active).map (segments.map (fun seg => layout.contents seg.range) ++ [·]) := by
  induction segments with
  | nil =>
    rw [List.nil_append, List.mapM_cons]
    cases readSegment codec dir active <;> rfl
  | cons seg segments ih =>
    have first := read_sealed encodable files lawful (paths seg List.mem_cons_self) (known seg List.mem_cons_self)
    have rest := ih (fun other member => paths other (List.mem_cons_of_mem _ member))
      fun other member => known other (List.mem_cons_of_mem _ member)
    rw [List.cons_append, List.mapM_cons, first, rest]
    cases readSegment codec dir active <;> rfl

end Recover

namespace Stored

theorem sealedFile (stored : sw.Stored codec layout) {range : Nat × Nat} (member : range ∈ layout.ranges) :
    sw.dir.get (.wal range.1 range.2) = some (records codec (layout.contents range)) := by
  rw [stored.files]
  exact if_pos member

theorem read_active (stored : sw.Stored codec layout) (lawful : codec.Lawful) :
    readSegment codec sw.dir sw.active = .ok layout.active := by
  unfold readSegment
  rw [stored.activePath, stored.activeFile]
  exact readFile_records lawful stored.shaped.activeEncodable

theorem read_spec (stored : sw.Stored codec layout) (lawful : codec.Lawful)
    (ranges : sw.segments.map Segment.range = layout.ranges) :
    (sw.segments ++ [sw.active]).mapM (readSegment codec sw.dir) =
      .ok (layout.ranges.map layout.contents ++ [layout.active]) := by
  have known : ∀ seg ∈ sw.segments, seg.range ∈ layout.ranges := fun seg member =>
    ranges ▸ List.mem_map_of_mem member
  have contents : sw.segments.map (fun seg => layout.contents seg.range) = layout.ranges.map layout.contents := by
    rw [← ranges, List.map_map]
    rfl
  rw [read_segments stored.shaped.encodable (fun _ => stored.sealedFile) lawful sw.active
    (fun _ => stored.sealedPath) known, contents, stored.read_active lawful]
  rfl

theorem recover_spec (stored : sw.Stored codec layout) (lawful : codec.Lawful)
    (ranges : sw.segments.map Segment.range = layout.ranges) (snapshotIndex : Nat) :
    sw.recover codec snapshotIndex =
      .ok (layout.entries.filter fun entry => snapshotIndex < entry.index.toNat) := by
  unfold recover
  rw [stored.read_spec lawful ranges]
  simp [Layout.entries, List.flatMap]

end Stored

theorem Holds.Reopened.ranges (reopened : Holds.Reopened codec layout sw sw') :
    sw'.segments.map Segment.range = layout.ranges := by
  rw [reopened.segments, List.map_map]
  exact List.map_id _

/-- The log that was opened has the same files. -/
theorem Holds.Reopened.stored (reopened : Holds.Reopened codec layout sw sw') (stored : sw.Stored codec layout) :
    sw'.Stored codec layout := by
  have start : sw'.active.startIndex = sw.active.startIndex := by rw [reopened.active]; rfl
  refine ⟨?_, ?_, ?_, ?_, ?_, stored.short⟩
  · rw [start]
    exact stored.shaped
  · intro name
    rw [start, reopened.dir]
    exact stored.files name
  · intro seg member
    rw [reopened.segments] at member
    obtain ⟨range, inside, rfl⟩ := List.mem_map.mp member
    exact ⟨rfl, inside⟩
  · intro range member
    rw [reopened.segments]
    exact ⟨_, List.mem_map_of_mem member, rfl⟩
  · rw [reopened.active]
    rfl

end SegmentedWAL
end Cue.Cluster
