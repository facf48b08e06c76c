import Cue.Lib.Run
import Cue.WalLayout

/-! A segmented log and the layout it holds. `Holds` ties the log in memory and
its directory to a layout, and each operation is given by what it does to the
layout.

Two numbers come along: `last`, the greatest index written, and `floor`, the
index up to which the active file was last truncated. Entries that were still
buffered then are written later, into files whose range says nothing of them;
when a range is sealed twice, the second file replaces the first. Only entries
below `floor` are lost so. -/
namespace Cue.Cluster
open Cue.Lib Cue.Model

/-- The directory holds the files of the layout, and the memory lists them. -/
structure SegmentedWAL.Stored (codec : Codec) (sw : SegmentedWAL) (layout : Layout) : Prop where
  shaped : layout.Shaped codec sw.active.startIndex
  files : ∀ name, sw.dir.get name = layout.file codec sw.active.startIndex name
  sealed : ∀ seg ∈ sw.segments, seg.active = false ∧ (seg.startIndex, seg.endIndex) ∈ layout.ranges
  covered : ∀ range ∈ layout.ranges, ∃ seg ∈ sw.segments, (seg.startIndex, seg.endIndex) = range
  isActive : sw.active.active = true
  short : (records codec layout.active).length < maxOffset

/-- The directory holds the files of the layout and the memory agrees with it. -/
structure SegmentedWAL.Holds (codec : Codec) (sw : SegmentedWAL) (layout : Layout) (last floor : Nat) :
    Prop where
  wf : layout.WellFormed codec sw.active.startIndex last
  files : ∀ name, sw.dir.get name = layout.file codec sw.active.startIndex name
  sealed : ∀ seg ∈ sw.segments, seg.active = false ∧ (seg.startIndex, seg.endIndex) ∈ layout.ranges
  covered : ∀ range ∈ layout.ranges, ∃ seg ∈ sw.segments, (seg.startIndex, seg.endIndex) = range
  isActive : sw.active.active = true
  size : sw.active.size = (records codec layout.active).length
  short : (records codec layout.active).length < maxOffset
  next : sw.nextIndex = max last floor + 1
  started : sw.active.startIndex ≤ sw.nextIndex
  idle : layout.active = [] → sw.active.startIndex = sw.nextIndex
  behind : layout.active ≠ [] → sw.active.startIndex < sw.nextIndex ∨ last ≤ floor
  positive : 0 < sw.segmentSize

namespace SegmentedWAL

/-- The log without the sealed segments that end at `upTo` or before. -/
private def withoutSealed (sw : SegmentedWAL) (upTo : Nat) : SegmentedWAL := { sw with
  dir := (sw.segments.filter fun seg => seg.endIndex ≤ upTo).foldl (fun dir seg => dir.delete seg.path) sw.dir
  segments := sw.segments.filter fun seg => ¬ seg.endIndex ≤ upTo }

/-- The log with a new active file behind `upTo` in place of its own. -/
private def restarted (sw : SegmentedWAL) (upTo : Nat) : SegmentedWAL := { sw with
  dir := (createActiveSegment (sw.dir.delete sw.active.path) (upTo + 1)).1
  active := (createActiveSegment (sw.dir.delete sw.active.path) (upTo + 1)).2
  nextIndex := upTo + 1 }

private theorem truncate_eq (sw : SegmentedWAL) (upTo : Nat) : sw.truncate upTo =
    if sw.active.startIndex ≤ upTo then
      match scanLastIndex (withoutSealed sw upTo).dir sw.active with
      | .error err => .error err
      | .ok final =>
        if final ≤ upTo then .ok (restarted (withoutSealed sw upTo) upTo) else .ok (withoutSealed sw upTo)
    else .ok (withoutSealed sw upTo) := rfl

/-! ### The files -/

namespace Stored

variable {codec : Codec} {sw sw' : SegmentedWAL} {layout : Layout}

theorem activePath (stored : sw.Stored codec layout) : sw.active.path = .active sw.active.startIndex := by
  simp [Segment.path, stored.isActive]

theorem activeFile (stored : sw.Stored codec layout) :
    sw.dir.get (.active sw.active.startIndex) = some (records codec layout.active) := by
  simp [stored.files, Layout.file]

theorem sealedPath (stored : sw.Stored codec layout) {seg : Segment} (member : seg ∈ sw.segments) :
    seg.path = .wal seg.startIndex seg.endIndex := by
  simp [Segment.path, (stored.sealed seg member).1]

theorem rotate_spec (stored : sw.Stored codec layout) (started : sw.active.startIndex ≤ sw.nextIndex)
    (positive : 0 < sw.nextIndex) : ∃ dir,
    let sw' := { sw with
      dir := dir
      segments := sw.segments ++ [⟨sw.active.startIndex, sw.nextIndex - 1, sw.active.size, false⟩]
      active := ⟨sw.nextIndex, 0, 0, true⟩ }
    sw.rotate = .ok sw' ∧ sw'.Stored codec (layout.rotated (sw.active.startIndex, sw.nextIndex - 1)) := by
  have noTmp : sw.dir.contains (.tmp sw.nextIndex) = false := by
    simp [FinMap.contains, stored.files, Layout.file]
  unfold rotate
  simp only [noTmp, Bool.false_eq_true, ↓reduceIte, stored.activePath, stored.activeFile]
  refine ⟨_, rfl, stored.shaped.rotate started positive, ?_, ?_, ?_, rfl, ?_⟩
  · intro name
    simp only [Segment.path, ↓reduceIte, Bool.false_eq_true, FinMap.get_set, FinMap.get_delete]
    cases name with
    | wal first stop =>
      by_cases here : (first, stop) = (sw.active.startIndex, sw.nextIndex - 1)
      · obtain ⟨rfl, rfl⟩ := Prod.mk.inj here
        have member := (@Layout.mem_rotated layout _ _).mpr (Or.inr here)
        simp only [reduceCtorEq, ↓reduceIte, Layout.file, member]
        simp [Layout.rotated]
      · have apart : ¬ (first = sw.active.startIndex ∧ stop = sw.nextIndex - 1) := fun both =>
          here (Prod.ext both.1 both.2)
        have member : (first, stop) ∈ (layout.rotated (sw.active.startIndex, sw.nextIndex - 1)).ranges ↔
            (first, stop) ∈ layout.ranges := by
          rw [Layout.mem_rotated]
          simp [here]
        simp only [FileName.wal.injEq, apart, reduceCtorEq, ↓reduceIte, stored.files, Layout.file, member]
        simp [Layout.rotated, Function.update_of_ne here]
    | active first =>
      by_cases here : first = sw.nextIndex
      · simp [here, Layout.file, Layout.rotated]
      · by_cases old : first = sw.active.startIndex
        · simp only [FileName.active.injEq, old, reduceCtorEq, ↓reduceIte, Layout.file]
          rw [if_neg (old ▸ here), if_neg (old ▸ here)]
        · simp [here, old, Layout.file, stored.files]
    | tmp first => simp [Layout.file, stored.files]
  · intro seg member
    rcases List.mem_append.mp member with old | new
    · obtain ⟨flag, range⟩ := stored.sealed seg old
      exact ⟨flag, Layout.mem_rotated.mpr (Or.inl range)⟩
    · rw [List.mem_singleton] at new
      subst new
      exact ⟨rfl, Layout.mem_rotated.mpr (Or.inr rfl)⟩
  · intro range member
    rcases Layout.mem_rotated.mp member with old | rfl
    · obtain ⟨seg, inSegments, same⟩ := stored.covered range old
      exact ⟨seg, List.mem_append_left _ inSegments, same⟩
    · exact ⟨_, List.mem_append_right _ (List.mem_singleton_self _), rfl⟩
  · simp [Layout.rotated, maxOffset]

/-- An entry is written behind the active file. -/
theorem write_spec (stored : sw.Stored codec layout) {entry : Entry} (encodable : (codec.marshal entry).isSome)
    (short : (records codec layout.active ++ record codec entry).length < maxOffset) (size next : Nat) :
    Stored codec { sw with
      dir := sw.dir.set sw.active.path (records codec layout.active ++ record codec entry)
      active := { sw.active with size := size }
      nextIndex := next } (layout.appended entry) := by
  refine ⟨stored.shaped.append encodable, ?_, stored.sealed, stored.covered, stored.isActive, ?_⟩
  · intro name
    simp only [FinMap.get_set, stored.activePath]
    split
    · rename_i here
      simp [here, Layout.file, Layout.appended]
    · rename_i other
      rw [stored.files]
      cases name with
      | wal first stop => rfl
      | active first =>
        have apart : ¬ first = sw.active.startIndex := fun same => other (by rw [same])
        simp [Layout.file, apart]
      | tmp first => rfl
  · simpa [Layout.appended] using short

/-- What the scan of the active file finds. -/
theorem scanLastIndex_active (stored : sw.Stored codec layout) (lawful : codec.Lawful) :
    scanLastIndex sw.dir sw.active = .ok (lastIndexOr 0 layout.active) := by
  unfold scanLastIndex
  simp only [stored.activePath, stored.activeFile]
  exact scanLast_records lawful stored.shaped.activeEncodable stored.short

private theorem withoutSealed_stored (stored : sw.Stored codec layout) (upTo : Nat) :
    (withoutSealed sw upTo).Stored codec (layout.truncated upTo) := by
  refine ⟨stored.shaped.truncate upTo, ?_, ?_, ?_, stored.isActive, stored.short⟩
  · intro name
    simp only [withoutSealed, FinMap.get_foldl_delete, stored.files]
    have removed : name ∈ (sw.segments.filter fun seg => seg.endIndex ≤ upTo).map Segment.path ↔
        ∃ range ∈ layout.ranges, range.2 ≤ upTo ∧ name = .wal range.1 range.2 := by
      simp only [List.mem_map, List.mem_filter, decide_eq_true_eq]
      constructor
      · rintro ⟨seg, ⟨member, early⟩, rfl⟩
        exact ⟨_, (stored.sealed seg member).2, early, stored.sealedPath member⟩
      · rintro ⟨range, member, early, rfl⟩
        obtain ⟨seg, inSegments, rfl⟩ := stored.covered range member
        exact ⟨seg, ⟨inSegments, early⟩, stored.sealedPath inSegments⟩
    simp only [removed]
    cases name with
    | wal first stop =>
      simp only [Layout.file, Layout.mem_truncated]
      by_cases member : (first, stop) ∈ layout.ranges
      · by_cases early : stop ≤ upTo
        · rw [if_pos ⟨_, member, early, rfl⟩, if_neg (by omega)]
        · rw [if_neg, if_pos member, if_pos ⟨member, by omega⟩]
          · rfl
          · rintro ⟨range, _, low, same⟩
            cases same
            exact early low
      · rw [if_neg, if_neg member, if_neg (fun both => member both.1)]
        rintro ⟨range, inside, _, same⟩
        cases same
        exact member inside
    | active first =>
      rw [if_neg (by rintro ⟨_, _, _, impossible⟩; cases impossible)]
      rfl
    | tmp first =>
      rw [if_neg (by rintro ⟨_, _, _, impossible⟩; cases impossible)]
      rfl
  · intro seg member
    obtain ⟨inSegments, late⟩ := List.mem_filter.mp member
    obtain ⟨flag, range⟩ := stored.sealed seg inSegments
    simp only [decide_eq_true_eq, not_le] at late
    exact ⟨flag, Layout.mem_truncated.mpr ⟨range, late⟩⟩
  · intro range member
    obtain ⟨inRanges, late⟩ := Layout.mem_truncated.mp member
    obtain ⟨seg, inSegments, rfl⟩ := stored.covered range inRanges
    exact ⟨seg, List.mem_filter.mpr ⟨inSegments, by simpa using late⟩, rfl⟩

private theorem restarted_stored (stored : sw.Stored codec layout) {upTo : Nat} (alone : sw.segments = []) :
    (restarted sw upTo).Stored codec Layout.empty ∧ (restarted sw upTo).active = ⟨upTo + 1, 0, 0, true⟩ := by
  have noRanges : layout.ranges = [] := by
    apply List.eq_nil_iff_forall_not_mem.mpr
    intro range member
    obtain ⟨seg, inSegments, _⟩ := stored.covered range member
    rw [alone] at inSegments
    cases inSegments
  have gone : ∀ name, (sw.dir.delete sw.active.path).get name = none := by
    intro name
    rw [FinMap.get_delete, stored.activePath, stored.files]
    cases name with
    | wal first stop => simp [Layout.file, noRanges]
    | active first => by_cases here : first = sw.active.startIndex <;> simp [Layout.file, here]
    | tmp first => simp [Layout.file]
  have created : createActiveSegment (sw.dir.delete sw.active.path) (upTo + 1) =
      ((sw.dir.delete sw.active.path).set (.active (upTo + 1)) [], ⟨upTo + 1, 0, 0, true⟩) := by
    simp [createActiveSegment, FinMap.contains, gone]
  unfold restarted
  rw [created, alone]
  refine ⟨⟨Layout.Shaped.empty, ?_, by simp, by simp [Layout.empty], rfl, ?_⟩, rfl⟩
  · intro name
    rw [FinMap.get_set, gone]
    cases name with
    | wal first stop => simp [Layout.file, Layout.empty]
    | active first => simp [Layout.file, Layout.empty]
    | tmp first => simp [Layout.file]
  · simp [Layout.empty, maxOffset]

/-- Truncation removes sealed files. It removes the active one too, exactly if that
starts at `upTo` or before and its last index is not behind `upTo`; then nothing is left. -/
theorem truncate_exact (stored : sw.Stored codec layout) (lawful : codec.Lawful) (upTo : Nat) :
    ∃ sw' layout', sw.truncate upTo = .ok sw' ∧ sw'.Stored codec layout' ∧
      sw'.segments = sw.segments.filter (fun seg => ¬ seg.endIndex ≤ upTo) ∧ sw'.segmentSize = sw.segmentSize ∧
      (layout' = layout.truncated upTo ∧ sw'.active = sw.active ∧ sw'.nextIndex = sw.nextIndex ∧
          (upTo < sw.active.startIndex ∨ upTo < lastIndexOr 0 layout.active) ∨
        layout' = Layout.empty ∧ sw'.active = ⟨upTo + 1, 0, 0, true⟩ ∧ sw'.nextIndex = upTo + 1 ∧
          sw'.segments = [] ∧ sw.active.startIndex ≤ upTo ∧ lastIndexOr 0 layout.active ≤ upTo) := by
  have middle := withoutSealed_stored stored upTo
  have scanned : scanLastIndex (withoutSealed sw upTo).dir sw.active = .ok (lastIndexOr 0 layout.active) :=
    middle.scanLastIndex_active lawful
  rw [truncate_eq, scanned]
  by_cases early : sw.active.startIndex ≤ upTo
  · rw [if_pos early]
    by_cases past : lastIndexOr 0 layout.active ≤ upTo
    · simp only [if_pos past]
      have alone : (withoutSealed sw upTo).segments = [] := by
        apply List.filter_eq_nil_iff.mpr
        intro seg member
        have bound := stored.shaped.bounded (stored.sealed seg member).2
        simp only at bound
        simp only [decide_eq_true_eq]
        omega
      obtain ⟨after, active⟩ := @restarted_stored _ _ _ middle upTo alone
      exact ⟨_, Layout.empty, rfl, after, rfl, rfl, Or.inr ⟨rfl, active, rfl, alone, early, past⟩⟩
    · simp only [if_neg past]
      exact ⟨_, _, rfl, middle, rfl, rfl, Or.inl ⟨rfl, rfl, rfl, Or.inr (Nat.not_le.mp past)⟩⟩
  · rw [if_neg early]
    exact ⟨_, _, rfl, middle, rfl, rfl, Or.inl ⟨rfl, rfl, rfl, Or.inl (Nat.not_le.mp early)⟩⟩

/-- What truncation leaves, without when it removes the active file. -/
theorem truncate_cases (stored : sw.Stored codec layout) (lawful : codec.Lawful) (upTo : Nat) :
    ∃ sw' layout', sw.truncate upTo = .ok sw' ∧ sw'.Stored codec layout' ∧
      sw'.segments = sw.segments.filter (fun seg => ¬ seg.endIndex ≤ upTo) ∧ sw'.segmentSize = sw.segmentSize ∧
      (layout' = layout.truncated upTo ∧ sw'.active = sw.active ∧ sw'.nextIndex = sw.nextIndex ∨
        layout' = Layout.empty ∧ sw'.active = ⟨upTo + 1, 0, 0, true⟩ ∧ sw'.nextIndex = upTo + 1 ∧
          sw'.segments = [] ∧ sw.active.startIndex ≤ upTo ∧ lastIndexOr 0 layout.active ≤ upTo) := by
  obtain ⟨sw', layout', ok, after, segments, size, cut⟩ := stored.truncate_exact lawful upTo
  refine ⟨sw', layout', ok, after, segments, size, cut.imp_left ?_⟩
  exact fun ⟨same, active, next, _⟩ => ⟨same, active, next⟩

end Stored
end SegmentedWAL

namespace SegmentedWAL.Holds

variable {codec : Codec} {sw sw' : SegmentedWAL} {layout : Layout} {last floor : Nat}

theorem stored (holds : sw.Holds codec layout last floor) : sw.Stored codec layout :=
  ⟨holds.wf.shaped, holds.files, holds.sealed, holds.covered, holds.isActive, holds.short⟩

/-! ### Writing -/

theorem rotate_spec (holds : sw.Holds codec layout last floor) (filled : layout.active ≠ []) :
    ∃ sw', sw.rotate = .ok sw' ∧
      sw'.Holds codec (layout.rotated (sw.active.startIndex, sw.nextIndex - 1)) last floor ∧
      ∀ entry, layout.Stores entry →
        (layout.rotated (sw.active.startIndex, sw.nextIndex - 1)).Stores entry ∨ entry.index.toNat < floor := by
  have next := holds.next
  have started := holds.started
  obtain ⟨dir, rotated, after⟩ := holds.stored.rotate_spec started (by omega)
  refine ⟨_, rotated, ⟨holds.wf.rotate started (by omega), after.files, after.sealed, after.covered, rfl, rfl,
    after.short, next, Nat.le_refl _, fun _ => rfl, fun impossible => absurd rfl impossible, holds.positive⟩, ?_⟩
  intro entry stores
  rcases Layout.rotated_stores stores with kept | ⟨again, inside⟩
  · exact Or.inl kept
  · -- the file sealed under this name before holds entries from below the floor only
    right
    have bound := holds.wf.shaped.bounded again
    simp only at bound
    obtain ⟨newer, inActive⟩ := List.exists_mem_of_ne_nil _ filled
    have less := holds.wf.above _ again entry inside newer inActive
    have written := holds.wf.written newer (Or.inr inActive)
    rcases holds.behind filled with earlier | old <;> omega

/-- An entry greater than all before it goes behind the active file. -/
theorem write_spec (holds : sw.Holds codec layout last floor) {entry : Entry}
    (encodable : (codec.marshal entry).isSome) (greater : last < entry.index.toNat)
    (short : (records codec layout.active ++ record codec entry).length < maxOffset) :
    Holds codec { sw with
      dir := sw.dir.set sw.active.path (records codec layout.active ++ record codec entry)
      active := { sw.active with size := sw.active.size + (record codec entry).length }
      nextIndex := if entry.index.toNat + 1 > sw.nextIndex then entry.index.toNat + 1 else sw.nextIndex }
      (layout.appended entry) entry.index.toNat floor := by
  have next := holds.next
  have started := holds.started
  have newNext : (if entry.index.toNat + 1 > sw.nextIndex then entry.index.toNat + 1 else sw.nextIndex) =
      max entry.index.toNat floor + 1 := by
    split <;> omega
  rw [newNext]
  have after := holds.stored.write_spec encodable short (sw.active.size + (record codec entry).length)
    (max entry.index.toNat floor + 1)
  refine ⟨holds.wf.append encodable greater, after.files, holds.sealed, holds.covered, holds.isActive, ?_,
    after.short, rfl, ?_, ?_, ?_, holds.positive⟩
  · simp [Layout.appended, holds.size]
  · simp only
    omega
  · intro empty
    simp [Layout.appended] at empty
  · intro _
    simp only
    by_cases filled : layout.active = []
    · have idle := holds.idle filled
      omega
    · rcases holds.behind filled with earlier | old <;> omega

/-- Before an entry is written a full active file is sealed. -/
theorem ready_cases (holds : sw.Holds codec layout last floor) : ∃ ready layout',
    (if sw.active.size ≥ sw.segmentSize then sw.rotate else .ok sw) = .ok ready ∧
      Holds codec ready layout' last floor ∧
      (ready = sw ∧ layout' = layout ∨ layout.active ≠ [] ∧ sw.rotate = .ok ready ∧
        layout' = layout.rotated (sw.active.startIndex, sw.nextIndex - 1)) := by
  by_cases full : sw.active.size ≥ sw.segmentSize
  · have filled : layout.active ≠ [] := by
      rintro empty
      have size := holds.size
      have positive := holds.positive
      rw [empty] at size
      simp at size
      omega
    obtain ⟨ready, rotated, after, _⟩ := holds.rotate_spec filled
    exact ⟨ready, _, by rw [if_pos full, rotated], after, Or.inr ⟨filled, rotated, rfl⟩⟩
  · exact ⟨sw, layout, by rw [if_neg full], holds, Or.inl ⟨rfl, rfl⟩⟩

/-- What appending an entry does: it is stored, and only entries below the
floor can be lost. -/
structure Appended (codec : Codec) (layout : Layout) (floor : Nat) (entry : Entry) (sw' : SegmentedWAL)
    (layout' : Layout) : Prop where
  holds : sw'.Holds codec layout' entry.index.toNat floor
  stored : layout'.Stores entry
  kept : ∀ old, layout.Stores old → layout'.Stores old ∨ old.index.toNat < floor
  origin : ∀ old, layout'.Stores old → layout.Stores old ∨ old = entry

theorem appendEntry_spec (holds : sw.Holds codec layout last floor) {entry : Entry}
    (encodable : (codec.marshal entry).isSome) (greater : last < entry.index.toNat)
    (ok : sw.appendEntry (buffered codec entry) = .ok sw') :
    ∃ layout', Appended codec layout floor entry sw' layout' := by
  obtain ⟨ready, layout', opened, holds', sealed⟩ := holds.ready_cases
  have kept : ∀ old, layout.Stores old → layout'.Stores old ∨ old.index.toNat < floor := by
    intro old stores
    rcases sealed with ⟨_, rfl⟩ | ⟨filled, _, rfl⟩
    · exact Or.inl stores
    · obtain ⟨_, _, _, kept⟩ := holds.rotate_spec filled
      exact kept old stores
  have origin : ∀ old, layout'.Stores old → layout.Stores old := by
    intro old stores
    rcases sealed with ⟨_, rfl⟩ | ⟨_, _, rfl⟩
    · exact stores
    · exact Layout.stores_rotated stores
  unfold appendEntry at ok
  simp only [opened, buffered] at ok
  have file : ready.dir.get ready.active.path = some (records codec layout'.active) := by
    rw [holds'.stored.activePath, holds'.stored.activeFile]
  simp only [file, Option.getD_some] at ok
  split at ok
  · cases ok
  · rename_i short
    cases ok
    refine ⟨layout'.appended entry, holds'.write_spec encodable greater (by omega), ?_, ?_, ?_⟩
    · exact Layout.stores_appended.mpr (Or.inr rfl)
    · intro old stores
      rcases kept old stores with still | low
      · exact Or.inl (Layout.stores_appended.mpr (Or.inl still))
      · exact Or.inr low
    · intro old stores
      rcases Layout.stores_appended.mp stores with before | same
      · exact Or.inl (origin old before)
      · exact Or.inr same

/-- What flushing a batch does. -/
structure Batched (codec : Codec) (layout : Layout) (last floor : Nat) (entries : List Entry)
    (sw' : SegmentedWAL) (layout' : Layout) : Prop where
  holds : sw'.Holds codec layout' (lastIndexOr last entries) floor
  stored : ∀ entry ∈ entries, layout'.Stores entry ∨ entry.index.toNat < floor
  kept : ∀ old, layout.Stores old → layout'.Stores old ∨ old.index.toNat < floor
  origin : ∀ old, layout'.Stores old → layout.Stores old ∨ old ∈ entries

theorem appendBatch_spec (holds : sw.Holds codec layout last floor) {entries : List Entry}
    (encodable : Encodable codec entries)
    (ascending : List.IsChain (· < ·) (last :: entries.map fun entry => entry.index.toNat))
    (ok : sw.appendBatch (entries.map (buffered codec)) = .ok sw') :
    ∃ layout', Batched codec layout last floor entries sw' layout' := by
  induction entries generalizing sw layout last with
  | nil =>
    cases ok
    exact ⟨layout, holds, by simp, fun _ => Or.inl, fun _ => Or.inl⟩
  | cons entry entries ih =>
    obtain ⟨greater, ascending⟩ := List.isChain_cons_cons.mp ascending
    rw [appendBatch, List.map_cons, List.foldlM_cons] at ok
    obtain ⟨middle, appended, others⟩ := bind_ok ok
    obtain ⟨between, first⟩ := holds.appendEntry_spec (encodable entry List.mem_cons_self) greater appended
    obtain ⟨layout', rest⟩ := ih first.holds (fun other member => encodable other (List.mem_cons_of_mem _ member))
      ascending others
    refine ⟨layout', lastIndexOr_cons last entry entries ▸ rest.holds, ?_, ?_, ?_⟩
    · intro other member
      rcases List.mem_cons.mp member with rfl | member
      · exact rest.kept other first.stored
      · exact rest.stored other member
    · intro old stores
      rcases first.kept old stores with still | low
      · exact rest.kept old still
      · exact Or.inr low
    · intro old stores
      rcases rest.origin old stores with before | member
      · rcases first.origin old before with earlier | rfl
        · exact Or.inl earlier
        · exact Or.inr List.mem_cons_self
      · exact Or.inr (List.mem_cons_of_mem _ member)

/-! ### Truncation -/

/-- Truncation removes sealed files, and the active one too if all that was
written is at `upTo` or before. -/
theorem truncate_cases (holds : sw.Holds codec layout last floor) (lawful : codec.Lawful) (upTo : Nat) :
    ∃ sw' layout' floor', sw.truncate upTo = .ok sw' ∧ sw'.Holds codec layout' last floor' ∧
      (layout' = layout.truncated upTo ∧ floor' = floor ∧ sw'.nextIndex = sw.nextIndex ∧
          sw'.segments = sw.segments.filter (fun seg => ¬ seg.endIndex ≤ upTo) ∨
        layout' = Layout.empty ∧ floor' = upTo ∧ sw'.nextIndex = upTo + 1 ∧ sw'.segments = [] ∧
          last ≤ upTo ∧ sw.active.startIndex ≤ upTo ∧ lastIndexOr 0 layout.active ≤ upTo) := by
  obtain ⟨sw', layout', ok, after, segments, size, cut⟩ := holds.stored.truncate_cases lawful upTo
  rcases cut with ⟨rfl, active, next⟩ | ⟨rfl, active, next, alone, early, past⟩
  · refine ⟨sw', _, floor, ok, ?_, Or.inl ⟨rfl, rfl, next, segments⟩⟩
    refine ⟨?_, after.files, after.sealed, after.covered, after.isActive, ?_, after.short, ?_, ?_, ?_, ?_, ?_⟩
    · rw [active]
      exact holds.wf.truncate upTo
    · rw [active]
      exact holds.size
    · rw [next]
      exact holds.next
    · rw [active, next]
      exact holds.started
    · rw [active, next]
      exact holds.idle
    · rw [active, next]
      exact holds.behind
    · rw [size]
      exact holds.positive
  · have all : last ≤ upTo := by
      by_cases filled : layout.active = []
      · have idle := holds.idle filled
        have next := holds.next
        omega
      · rw [← holds.wf.newest filled]
        exact past
    refine ⟨sw', _, upTo, ok, ?_, Or.inr ⟨rfl, rfl, next, alone, all, early, past⟩⟩
    refine ⟨Layout.WellFormed.empty, after.files, after.sealed, after.covered, after.isActive, ?_, after.short, ?_,
      ?_, ?_, fun filled => absurd rfl filled, ?_⟩
    · rw [active]
      rfl
    · rw [next]
      omega
    · rw [active, next]
    · rw [active, next]
      exact fun _ => rfl
    · rw [size]
      exact holds.positive

/-- What truncation does: the entries lost are those of sealed files that end at
`upTo` or before, and those of the active file if the scan finds nothing later. -/
structure Truncated (codec : Codec) (sw : SegmentedWAL) (layout : Layout) (last floor upTo : Nat)
    (sw' : SegmentedWAL) (layout' : Layout) (floor' : Nat) : Prop where
  holds : sw'.Holds codec layout' last floor'
  raised : floor' = floor ∨ floor' = upTo
  kept : ∀ old, layout.Stores old → layout'.Stores old ∨
    (∃ seg ∈ sw.segments, seg.endIndex ≤ upTo ∧ old.index.toNat ≤ seg.endIndex) ∨
    ∃ final ≤ upTo, sw.active.startIndex ≤ upTo ∧ scanLastIndex sw.dir sw.active = .ok final ∧
      old.index.toNat ≤ final
  origin : ∀ old, layout'.Stores old → layout.Stores old

theorem truncate_spec (holds : sw.Holds codec layout last floor) (lawful : codec.Lawful) (upTo : Nat) :
    ∃ sw' layout' floor', sw.truncate upTo = .ok sw' ∧
      Truncated codec sw layout last floor upTo sw' layout' floor' := by
  obtain ⟨sw', layout', floor', ok, after, cut⟩ := holds.truncate_cases lawful upTo
  refine ⟨sw', layout', floor', ok, after, ?_, ?_, ?_⟩
  · rcases cut with ⟨_, same, _⟩ | ⟨_, same, _⟩
    · exact Or.inl same
    · exact Or.inr same
  · rcases cut with ⟨rfl, _⟩ | ⟨rfl, _, _, _, _, early, past⟩
    · rintro old (⟨range, member, inside⟩ | inActive)
      · by_cases late : upTo < range.2
        · exact Or.inl (Or.inl ⟨range, Layout.mem_truncated.mpr ⟨member, late⟩, inside⟩)
        · obtain ⟨seg, inSegments, rfl⟩ := holds.covered range member
          exact Or.inr (Or.inl ⟨seg, inSegments, by simpa using late, holds.wf.within _ member old inside⟩)
      · exact Or.inl (Or.inr inActive)
    · intro old stores
      right
      rcases stores with ⟨range, member, inside⟩ | inActive
      · obtain ⟨seg, inSegments, rfl⟩ := holds.covered range member
        have bound := holds.wf.shaped.bounded member
        simp only at bound
        exact Or.inl ⟨seg, inSegments, by omega, holds.wf.within _ member old inside⟩
      · refine Or.inr ⟨_, past, early, holds.stored.scanLastIndex_active lawful, ?_⟩
        rw [holds.wf.newest (List.ne_nil_of_mem inActive)]
        exact holds.wf.written old (Or.inr inActive)
  · rcases cut with ⟨rfl, _⟩ | ⟨rfl, _⟩
    · exact fun old => Layout.stores_truncated
    · rintro old (⟨range, member, _⟩ | member) <;> cases member

end SegmentedWAL.Holds
end Cue.Cluster
