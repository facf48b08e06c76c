import Cue.WalRecords
import Mathlib.Data.List.Chain
import Mathlib.Data.List.NodupEquivFin
import Mathlib.Logic.Function.Basic

/-! What a segmented log holds: the ranges of the sealed files in order, the
entries of each, and those of the active file. -/
namespace Cue.Cluster
open Cue.Lib Cue.Model

structure Layout where
  ranges : List (Nat × Nat)
  contents : Nat × Nat → List Entry
  active : List Entry

def Follows (before after : Nat × Nat) : Prop := before.2 + 1 = after.1

/-! ### Ranges -/

/-- Ranges that follow one another up to `start` are in order. -/
theorem ranges_ordered {ranges : List (Nat × Nat)} {start : Nat}
    (chain : List.IsChain Follows (ranges ++ [(start, 0)]))
    (forward : ∀ range ∈ ranges, range.1 ≤ range.2 + 1) :
    ranges.Pairwise (fun a b => a.2 + 1 ≤ b.1) ∧ ∀ range ∈ ranges, range.2 + 1 ≤ start := by
  induction ranges with
  | nil => simp
  | cons range ranges ih =>
    obtain ⟨ordered, bounded⟩ := ih chain.tail fun other member => forward other (List.mem_cons_of_mem _ member)
    cases ranges with
    | nil =>
      have first : range.2 + 1 = start := by simpa [Follows] using chain
      refine ⟨List.pairwise_singleton _ _, fun other member => ?_⟩
      rw [List.mem_singleton.mp member]
      exact Nat.le_of_eq first
    | cons second ranges =>
      have first : range.2 + 1 = second.1 := (List.isChain_cons_cons.mp chain).1
      have step := forward second (by simp)
      have within := bounded second (by simp)
      have later := (List.pairwise_cons.mp ordered).1
      refine ⟨List.pairwise_cons.mpr ⟨?_, ordered⟩, ?_⟩
      · intro other member
        rcases List.mem_cons.mp member with rfl | member
        · omega
        · have := later other member
          omega
      · intro other member
        rcases List.mem_cons.mp member with rfl | member
        · omega
        · exact bounded other member

/-- Dropping the ranges that end early drops a prefix. -/
theorem ranges_suffix {ranges : List (Nat × Nat)} (upTo : Nat)
    (ordered : ranges.Pairwise (fun a b => a.2 + 1 ≤ b.1))
    (forward : ∀ range ∈ ranges, range.1 ≤ range.2 + 1) :
    ranges.filter (fun range => ¬ range.2 ≤ upTo) <:+ ranges := by
  induction ranges with
  | nil => exact List.nil_suffix
  | cons range ranges ih =>
    obtain ⟨later, ordered⟩ := List.pairwise_cons.mp ordered
    have rest := ih ordered fun other member => forward other (List.mem_cons_of_mem _ member)
    by_cases early : range.2 ≤ upTo
    · rw [List.filter_cons_of_neg (by simpa using early)]
      exact rest.trans (List.suffix_cons _ _)
    · have all : (range :: ranges).filter (fun range => ¬ range.2 ≤ upTo) = range :: ranges := by
        apply List.filter_eq_self.mpr
        intro other member
        rcases List.mem_cons.mp member with rfl | member
        · simpa using early
        · have := later other member
          have := forward other (List.mem_cons_of_mem _ member)
          simp only [decide_eq_true_eq]
          omega
      exact ⟨[], by rw [List.nil_append, all]⟩

namespace Layout

/-- The file under a name, given where the active segment starts. -/
def file (codec : Codec) (layout : Layout) (start : Nat) : FileName → Option Bytes
  | .wal first stop =>
    if (first, stop) ∈ layout.ranges then some (records codec (layout.contents (first, stop))) else none
  | .active first => if first = start then some (records codec layout.active) else none
  | .tmp _ => none

def Stores (layout : Layout) (entry : Entry) : Prop :=
  (∃ range ∈ layout.ranges, entry ∈ layout.contents range) ∨ entry ∈ layout.active

/-- The ranges follow one another up to the active file, whatever is in the files. -/
structure Shaped (codec : Codec) (layout : Layout) (start : Nat) : Prop where
  encodable : ∀ entry, layout.Stores entry → (codec.marshal entry).isSome
  chain : List.IsChain Follows (layout.ranges ++ [(start, 0)])
  forward : ∀ range ∈ layout.ranges, range.1 ≤ range.2 + 1
  distinct : layout.ranges.Nodup

/-- The ranges follow one another up to the active file, no index is written
after a greater one, and none is greater than `last`. -/
structure WellFormed (codec : Codec) (layout : Layout) (start last : Nat) : Prop where
  encodable : ∀ entry, layout.Stores entry → (codec.marshal entry).isSome
  chain : List.IsChain Follows (layout.ranges ++ [(start, 0)])
  forward : ∀ range ∈ layout.ranges, range.1 ≤ range.2 + 1
  distinct : layout.ranges.Nodup
  within : ∀ range ∈ layout.ranges, ∀ entry ∈ layout.contents range, entry.index.toNat ≤ range.2
  written : ∀ entry, layout.Stores entry → entry.index.toNat ≤ last
  newest : layout.active ≠ [] → lastIndexOr 0 layout.active = last
  above : ∀ range ∈ layout.ranges, ∀ entry ∈ layout.contents range, ∀ newer ∈ layout.active,
    entry.index.toNat < newer.index.toNat

/-- The active file sealed under its range. -/
def rotated (layout : Layout) (range : Nat × Nat) : Layout where
  ranges := if range ∈ layout.ranges then layout.ranges else layout.ranges ++ [range]
  contents := Function.update layout.contents range layout.active
  active := []

/-- An entry written to the active file. -/
def appended (layout : Layout) (entry : Entry) : Layout :=
  { layout with active := layout.active ++ [entry] }

/-- The sealed files that end at `upTo` or before removed. -/
def truncated (layout : Layout) (upTo : Nat) : Layout :=
  { layout with ranges := layout.ranges.filter fun range => ¬ range.2 ≤ upTo }

def empty : Layout := ⟨[], fun _ => [], []⟩

/-- The entries in the order of the files. -/
def entries (layout : Layout) : List Entry := layout.ranges.flatMap layout.contents ++ layout.active

variable {codec : Codec} {layout : Layout} {start last : Nat} {range other : Nat × Nat} {entry new : Entry}

theorem mem_entries : entry ∈ layout.entries ↔ layout.Stores entry := by
  simp [entries, Stores]

theorem mem_rotated : other ∈ (layout.rotated range).ranges ↔ other ∈ layout.ranges ∨ other = range := by
  unfold rotated
  dsimp only
  split
  · rename_i member
    constructor
    · exact Or.inl
    · rintro (old | rfl)
      · exact old
      · exact member
  · simp

theorem mem_truncated {upTo : Nat} :
    other ∈ (layout.truncated upTo).ranges ↔ other ∈ layout.ranges ∧ upTo < other.2 := by
  simp [truncated]

theorem stores_rotated (stores : (layout.rotated range).Stores entry) : layout.Stores entry := by
  rcases stores with ⟨other, member, inside⟩ | nothing
  · by_cases here : other = range
    · subst here
      simp only [rotated, Function.update_self] at inside
      exact Or.inr inside
    · simp only [rotated, Function.update_of_ne here] at inside
      exact Or.inl ⟨other, (mem_rotated.mp member).resolve_right here, inside⟩
  · cases nothing

/-- Sealing loses only the entries of a file that had the same range. -/
theorem rotated_stores (stores : layout.Stores entry) :
    (layout.rotated range).Stores entry ∨ range ∈ layout.ranges ∧ entry ∈ layout.contents range := by
  rcases stores with ⟨other, member, inside⟩ | inActive
  · by_cases here : other = range
    · subst here
      exact Or.inr ⟨member, inside⟩
    · refine Or.inl (Or.inl ⟨other, mem_rotated.mpr (Or.inl member), ?_⟩)
      simpa only [rotated, Function.update_of_ne here] using inside
  · refine Or.inl (Or.inl ⟨range, mem_rotated.mpr (Or.inr rfl), ?_⟩)
    simpa only [rotated, Function.update_self] using inActive

theorem stores_truncated {upTo : Nat} (stores : (layout.truncated upTo).Stores entry) : layout.Stores entry := by
  rcases stores with ⟨range, member, inside⟩ | inActive
  · exact Or.inl ⟨range, (mem_truncated.mp member).1, inside⟩
  · exact Or.inr inActive

theorem stores_appended : (layout.appended new).Stores entry ↔ layout.Stores entry ∨ entry = new := by
  simp only [Stores, appended, List.mem_append, List.mem_singleton, or_assoc]

namespace Shaped

theorem ordered (shaped : layout.Shaped codec start) : layout.ranges.Pairwise fun a b => a.2 + 1 ≤ b.1 :=
  (ranges_ordered shaped.chain shaped.forward).1

theorem bounded (shaped : layout.Shaped codec start) (member : range ∈ layout.ranges) : range.2 + 1 ≤ start :=
  (ranges_ordered shaped.chain shaped.forward).2 range member

theorem activeEncodable (shaped : layout.Shaped codec start) : Encodable codec layout.active :=
  fun entry member => shaped.encodable entry (Or.inr member)

theorem empty : Layout.empty.Shaped codec start := by
  constructor <;> simp [Layout.empty, Stores]

theorem rotate (shaped : layout.Shaped codec start) {next : Nat} (started : start ≤ next) (positive : 0 < next) :
    (layout.rotated (start, next - 1)).Shaped codec next := by
  have positive : next - 1 + 1 = next := by omega
  refine ⟨fun entry stores => shaped.encodable entry (stores_rotated stores), ?_, ?_, ?_⟩
  · unfold rotated
    dsimp only
    split
    · rename_i again
      have bound := shaped.bounded again
      have same : start = next := by
        simp only at bound
        omega
      rw [← same]
      exact shaped.chain
    · have chain := shaped.chain
      rw [List.isChain_append] at chain
      rw [List.append_assoc, List.isChain_append]
      refine ⟨chain.1, ?_, ?_⟩
      · simpa [Follows] using positive
      · intro before inLast after inHead
        have link := chain.2.2 before inLast (start, 0) (by simp)
        simp only [List.cons_append, List.nil_append, List.head?_cons, Option.mem_def, Option.some.injEq]
          at inHead
        subst inHead
        exact link
  · intro other member
    rcases mem_rotated.mp member with old | rfl
    · exact shaped.forward other old
    · simp only
      omega
  · unfold rotated
    dsimp only
    split
    · exact shaped.distinct
    · rename_i fresh
      rw [List.nodup_append]
      refine ⟨shaped.distinct, List.nodup_singleton _, ?_⟩
      rintro other old _ new rfl
      rw [List.mem_singleton] at new
      exact fresh (new ▸ old)

theorem append (shaped : layout.Shaped codec start) (encodable : (codec.marshal new).isSome) :
    (layout.appended new).Shaped codec start := by
  refine ⟨fun entry stores => ?_, shaped.chain, shaped.forward, shaped.distinct⟩
  rcases stores_appended.mp stores with old | rfl
  · exact shaped.encodable entry old
  · exact encodable

theorem truncate (shaped : layout.Shaped codec start) (upTo : Nat) : (layout.truncated upTo).Shaped codec start := by
  refine ⟨fun entry stored => shaped.encodable entry (stores_truncated stored), ?_,
    fun range member => shaped.forward range (mem_truncated.mp member).1, shaped.distinct.filter _⟩
  obtain ⟨dropped, split⟩ := ranges_suffix upTo shaped.ordered shaped.forward
  have chain := shaped.chain
  rw [← split, List.append_assoc] at chain
  exact chain.right_of_append

end Shaped

namespace WellFormed

theorem shaped (wf : layout.WellFormed codec start last) : layout.Shaped codec start :=
  ⟨wf.encodable, wf.chain, wf.forward, wf.distinct⟩

theorem empty : Layout.empty.WellFormed codec start last := by
  constructor <;> simp [Layout.empty, Stores]

theorem rotate (wf : layout.WellFormed codec start last) {next : Nat} (started : start ≤ next)
    (greater : last < next) : (layout.rotated (start, next - 1)).WellFormed codec next last := by
  have shaped := wf.shaped.rotate started (Nat.zero_lt_of_lt greater)
  refine ⟨shaped.encodable, shaped.chain, shaped.forward, shaped.distinct, ?_,
    fun entry stores => wf.written entry (stores_rotated stores), fun filled => absurd rfl filled, ?_⟩
  · intro other member entry inside
    by_cases here : other = (start, next - 1)
    · subst here
      simp only [rotated, Function.update_self] at inside
      have := wf.written entry (Or.inr inside)
      simp only
      omega
    · simp only [rotated, Function.update_of_ne here] at inside
      exact wf.within other ((mem_rotated.mp member).resolve_right here) entry inside
  · intro other member entry inside newer impossible
    cases impossible

theorem append (wf : layout.WellFormed codec start last) (encodable : (codec.marshal new).isSome)
    (greater : last < new.index.toNat) :
    (layout.appended new).WellFormed codec start new.index.toNat := by
  refine ⟨(wf.shaped.append encodable).encodable, wf.chain, wf.forward, wf.distinct, wf.within, ?_, ?_, ?_⟩
  · intro entry stores
    rcases stores_appended.mp stores with old | rfl
    · exact (wf.written entry old).trans greater.le
    · exact Nat.le_refl _
  · intro _
    simp [appended, lastIndexOr]
  · intro range member entry inside newer inActive
    rcases List.mem_append.mp inActive with old | same
    · exact wf.above range member entry inside newer old
    · rw [List.mem_singleton] at same
      subst same
      exact (wf.written entry (Or.inl ⟨range, member, inside⟩)).trans_lt greater

theorem truncate (wf : layout.WellFormed codec start last) (upTo : Nat) :
    (layout.truncated upTo).WellFormed codec start last := by
  have fewer : ∀ range ∈ (layout.truncated upTo).ranges, range ∈ layout.ranges := fun range member =>
    (mem_truncated.mp member).1
  have shaped := wf.shaped.truncate upTo
  exact ⟨shaped.encodable, shaped.chain, shaped.forward, shaped.distinct,
    fun range member => wf.within range (fewer range member),
    fun entry stored => wf.written entry (stores_truncated stored), wf.newest,
    fun range member => wf.above range (fewer range member)⟩

end WellFormed
end Layout
end Cue.Cluster
