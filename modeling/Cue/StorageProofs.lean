import Cue.JobIndexProofs
import Cue.Lib.Run
import Cue.WalReopen

/-! Runs of the raft storage: entries with consecutive indices are appended,
committed in order, flushed, and the log is compacted at any time. `Memory` is
what holds of the log in memory and of the job index all along. -/
namespace Cue.Cluster
open Cue.Lib Cue.Model

/-! ### Consecutive entries -/

/-- The entries have the indices `first`, `first + 1` and so on. -/
def Consecutive (first : Nat) : List Entry → Prop
  | [] => True
  | entry :: entries => entry.index.toNat = first ∧ Consecutive (first + 1) entries

instance decidableConsecutive : (first : Nat) → (entries : List Entry) → Decidable (Consecutive first entries)
  | _, [] => isTrue trivial
  | first, entry :: entries =>
    have := decidableConsecutive (first + 1) entries
    inferInstanceAs (Decidable (entry.index.toNat = first ∧ Consecutive (first + 1) entries))

namespace Consecutive

variable {first last : Nat} {entries more : List Entry} {entry other : Entry}

theorem append_iff : Consecutive first (entries ++ more) ↔
    Consecutive first entries ∧ Consecutive (first + entries.length) more := by
  induction entries generalizing first with
  | nil => simp [Consecutive]
  | cons entry entries ih =>
    simp only [List.cons_append, Consecutive, ih, List.length_cons, and_assoc]
    rw [show first + 1 + entries.length = first + (entries.length + 1) by omega]

theorem bounds (consecutive : Consecutive first entries) (member : entry ∈ entries) :
    first ≤ entry.index.toNat ∧ entry.index.toNat < first + entries.length := by
  induction entries generalizing first with
  | nil => cases member
  | cons head entries ih =>
    obtain ⟨here, rest⟩ := consecutive
    rcases List.mem_cons.mp member with rfl | member
    · simp only [List.length_cons]
      omega
    · have := ih rest member
      simp only [List.length_cons]
      omega

theorem exists_mem (consecutive : Consecutive first entries) {index : Nat} (low : first ≤ index)
    (high : index < first + entries.length) : ∃ entry ∈ entries, entry.index.toNat = index := by
  induction entries generalizing first with
  | nil =>
    simp only [List.length_nil] at high
    omega
  | cons head entries ih =>
    obtain ⟨here, rest⟩ := consecutive
    by_cases same : index = first
    · exact ⟨head, List.mem_cons_self, here.trans same.symm⟩
    · simp only [List.length_cons] at high
      obtain ⟨entry, member, found⟩ := ih rest (by omega) (by omega)
      exact ⟨entry, List.mem_cons_of_mem _ member, found⟩

theorem index_getElem? (consecutive : Consecutive first entries) {k : Nat} (found : entries[k]? = some entry) :
    entry.index.toNat = first + k := by
  induction entries generalizing first k with
  | nil => cases found
  | cons head entries ih =>
    obtain ⟨here, rest⟩ := consecutive
    cases k with
    | zero =>
      cases found
      exact here
    | succ k =>
      have later := ih rest found
      omega

theorem index_getLast (consecutive : Consecutive first entries) (nonempty : entries ≠ []) :
    (entries.getLast nonempty).index.toNat + 1 = first + entries.length := by
  have counted : entries.length = entries.dropLast.length + 1 := by
    have positive := List.length_pos_of_ne_nil nonempty
    rw [List.length_dropLast]
    omega
  rw [← List.dropLast_append_getLast nonempty, append_iff] at consecutive
  have here := consecutive.2.1
  omega

theorem ascending (consecutive : Consecutive first entries) (greater : last < first) :
    List.IsChain (· < ·) (last :: entries.map fun entry => entry.index.toNat) := by
  induction entries generalizing first last with
  | nil => exact List.isChain_singleton _
  | cons head entries ih =>
    obtain ⟨here, rest⟩ := consecutive
    have chain := ih rest (show head.index.toNat < first + 1 by omega)
    have less : last < head.index.toNat := by omega
    exact List.isChain_cons_cons.mpr ⟨less, chain⟩

theorem indices_nodup (consecutive : Consecutive first entries) :
    (entries.map fun entry => entry.index.toNat).Nodup := by
  induction entries generalizing first with
  | nil => exact List.nodup_nil
  | cons entry entries ih =>
    obtain ⟨here, rest⟩ := consecutive
    rw [List.map_cons, List.nodup_cons]
    refine ⟨fun member => ?_, ih rest⟩
    obtain ⟨other, inside, same⟩ := List.mem_map.mp member
    have bounds := rest.bounds inside
    omega

end Consecutive

/-! ### Runs -/

/-- A storage with the entries given to `Append` so far and how many of them
were given to `AppendCommitted`. -/
structure Log where
  core : StorageCore
  appended : List Entry
  count : Nat
  deriving DecidableEq

def Log.committed (log : Log) : List Entry := log.appended.take log.count

inductive LogOp where
  | append (entries : List Entry)
  | commit
  | flush
  | compact
  deriving DecidableEq

/-- A step on a log whose indices start at `first`. An operation that fails ends the run. -/
def Log.step (codec : Codec) (first : Nat) (log : Log) : LogOp → Option Log
  | .append entries =>
    if Consecutive (first + log.appended.length) entries then
      some { log with core := log.core.appendEntries entries, appended := log.appended ++ entries }
    else none
  | .commit =>
    match log.appended[log.count]? with
    | none => none
    | some entry =>
      match log.core.appendCommitted codec entry with
      | .error _ => none
      | .ok core => some { log with core := core, count := log.count + 1 }
  | .flush =>
    match log.core.flushBuffer with
    | .error _ => none
    | .ok core => some { log with core := core }
  | .compact =>
    match log.core.compact with
    | .error _ => none
    | .ok core => some { log with core := core }

abbrev LogRun (codec : Codec) (first : Nat) (admits : Log → LogOp → Prop) : Log → List LogOp → Log → Prop :=
  fun start => Run (fun log op log' => log.step codec first op = some log') (fun _ => admits) start

/-! ### The first and the last index -/

namespace StorageCore

variable {c : StorageCore}

theorem updateIndices_empty (none : ∀ index, c.entries.get index = none) :
    c.updateIndices = { c with firstIndex := c.snapshotMeta.index + 1, lastIndex := c.snapshotMeta.index } := by
  have empty : c.entries.pairs = [] := by
    apply List.eq_nil_iff_forall_not_mem.mpr
    rintro ⟨index, entry⟩ member
    rw [FinMap.mem_pairs, none] at member
    cases member
  simp [updateIndices, empty]

theorem updateIndices_between {lo hi : Nat}
    (bounds : ∀ index entry, c.entries.get index = some entry → lo ≤ entry.index.toNat ∧ entry.index.toNat ≤ hi)
    (low : ∃ index entry, c.entries.get index = some entry ∧ entry.index.toNat = lo)
    (high : ∃ index entry, c.entries.get index = some entry ∧ entry.index.toNat = hi) :
    c.updateIndices = { c with firstIndex := lo, lastIndex := hi } := by
  have mem : ∀ x, x ∈ (c.entries.pairs.map fun (pair : Nat × Entry) => pair.2.index.toNat) ↔
      ∃ index entry, c.entries.get index = some entry ∧ entry.index.toNat = x := by
    intro x
    simp [FinMap.mem_pairs]
  have within : ∀ x ∈ (c.entries.pairs.map fun (pair : Nat × Entry) => pair.2.index.toNat), lo ≤ x ∧ x ≤ hi := by
    intro x member
    obtain ⟨index, entry, found, rfl⟩ := (mem x).mp member
    exact bounds index entry found
  have small : lo ≤ 2 ^ 64 - 1 := by
    obtain ⟨index, entry, _, rfl⟩ := low
    have := entry.index.toNat_lt
    omega
  unfold updateIndices
  simp only
  rw [if_neg (List.ne_nil_of_mem ((mem lo).mpr low)), List.foldl_min, List.foldl_max,
    List.min?_eq_some_iff.mpr ⟨(mem lo).mpr low, fun x member => (within x member).1⟩,
    List.max?_eq_some_iff.mpr ⟨(mem hi).mpr high, fun x member => (within x member).2⟩]
  simp only [Option.getD_some, Nat.min_eq_right small, Nat.zero_max]

/-- Only the two indices change. -/
theorem updateIndices_eq (c : StorageCore) : c.updateIndices =
    { c with firstIndex := c.updateIndices.firstIndex, lastIndex := c.updateIndices.lastIndex } := by
  unfold updateIndices
  dsimp only
  split <;> rfl

@[simp] theorem updateIndices_entries : c.updateIndices.entries = c.entries := by rw [updateIndices_eq]

@[simp] theorem updateIndices_jobIndex : c.updateIndices.jobIndex = c.jobIndex := by rw [updateIndices_eq]

@[simp] theorem updateIndices_wal : c.updateIndices.wal = c.wal := by rw [updateIndices_eq]

@[simp] theorem updateIndices_writeBuffer : c.updateIndices.writeBuffer = c.writeBuffer := by rw [updateIndices_eq]

@[simp] theorem updateIndices_confState : c.updateIndices.confState = c.confState := by rw [updateIndices_eq]

@[simp] theorem updateIndices_hardState : c.updateIndices.hardState = c.hardState := by rw [updateIndices_eq]

@[simp] theorem updateIndices_snapshotMeta : c.updateIndices.snapshotMeta = c.snapshotMeta := by rw [updateIndices_eq]

theorem updateIndices_idem : c.updateIndices.updateIndices = c.updateIndices := by
  rw [updateIndices.eq_1 c.updateIndices, updateIndices_entries, updateIndices_snapshotMeta]
  unfold updateIndices
  dsimp only
  split <;> rfl

/-- A job that is waiting holds the cut back to its own entry. -/
theorem keep_le_waiting {id : String} {state : JobState} (found : c.jobIndex.get id = some state)
    (waits : state.Waits) : c.findFirstIndexToKeep ≤ state.addIndex := by
  obtain ⟨nonzero, least⟩ := minPending_le found waits
  rw [findFirstIndexToKeep, if_pos nonzero]
  exact least

/-- Appending touches the log in memory only. -/
theorem appendEntries_eq (c : StorageCore) (entries : List Entry) :
    ∃ entries' firstIndex lastIndex, c.appendEntries entries =
      { c with entries := entries', firstIndex := firstIndex, lastIndex := lastIndex } := by
  induction entries generalizing c with
  | nil => exact ⟨_, _, _, rfl⟩
  | cons entry entries ih =>
    obtain ⟨entries', firstIndex, lastIndex, same⟩ := ih (c.appendOne entry)
    exact ⟨entries', firstIndex, lastIndex, same⟩

/-- The core with an entry put into the buffer and the job index. -/
def noted (codec : Codec) (c : StorageCore) (entry : Entry) : StorageCore := { c with
  writeBuffer := c.writeBuffer ++ [buffered codec entry]
  jobIndex := indexEntry codec true c.jobIndex entry }

theorem appendCommitted_spec {codec : Codec} {entry : Entry} {c' : StorageCore}
    (ok : c.appendCommitted codec entry = .ok c') : (codec.marshal entry).isSome ∧
      (c' = c.noted codec entry ∨ (c.noted codec entry).flushBuffer = .ok c') := by
  unfold appendCommitted at ok
  split at ok
  · cases ok
  · rename_i be encoded
    obtain ⟨rfl, encodable⟩ := encodeBufferedEntry_some encoded
    refine ⟨encodable, ?_⟩
    dsimp only at ok
    split at ok
    · exact Or.inr ok
    · cases ok
      exact Or.inl rfl

theorem flushBuffer_frame {c' : StorageCore} (ok : c.flushBuffer = .ok c') :
    ∃ wal writeBuffer, c' = { c with wal := wal, writeBuffer := writeBuffer } := by
  unfold flushBuffer at ok
  split at ok
  · cases ok
    exact ⟨_, _, rfl⟩
  · split at ok
    · cases ok
    · cases ok
      exact ⟨_, _, rfl⟩

/-- Committing an entry leaves the log in memory and the metadata alone. -/
theorem appendCommitted_frame {codec : Codec} {entry : Entry} {c' : StorageCore}
    (ok : c.appendCommitted codec entry = .ok c') : ∃ wal writeBuffer, c' = { c with
      wal := wal, writeBuffer := writeBuffer, jobIndex := indexEntry codec true c.jobIndex entry } := by
  rcases (appendCommitted_spec ok).2 with rfl | flushes
  · exact ⟨_, _, rfl⟩
  · obtain ⟨wal, writeBuffer, rfl⟩ := flushBuffer_frame flushes
    exact ⟨wal, writeBuffer, rfl⟩

end StorageCore

/-! ### The log in memory -/

/-- An index of a committed entry that has not been cut off, or none. -/
def Recent (first cut count index : Nat) : Prop :=
  index = 0 ∨ cut ≤ index ∧ first ≤ index ∧ index < first + count

/-- The log in memory holds the appended entries from `cut` on. -/
structure Memory (first cut : Nat) (log : Log) : Prop where
  positive : 0 < first
  consecutive : Consecutive first log.appended
  counted : log.count ≤ log.appended.length
  present : ∀ index entry, log.core.entries.get index = some entry ↔
    entry ∈ log.appended ∧ entry.index.toNat = index ∧ cut ≤ index
  firstPositive : 0 < log.core.firstIndex
  firstLe : log.core.firstIndex ≤ cut
  lastLt : log.core.lastIndex < first + log.appended.length
  /-- the last index is right, unless the whole log has been cut off -/
  tail : log.core.lastIndex + 1 = first + log.appended.length ∨
    ∀ entry ∈ log.appended, entry.index.toNat < cut
  reach : cut ≤ first + log.count
  snapshot : log.core.snapshotMeta.index + 1 = cut
  saved : (log.core.snapshotFile.getD {}).index + 1 = cut
  indexed : ∀ id state, log.core.jobIndex.get id = some state →
    Recent first cut log.count state.addIndex ∧ Recent first cut log.count state.completeIndex

namespace Memory

variable {codec : Codec} {first cut : Nat} {log : Log}

/-- The next entry of a consecutive log. -/
private theorem appendOne (memory : Memory first cut log) {entry : Entry}
    (next : entry.index.toNat = first + log.appended.length) :
    Memory first cut { log with core := log.core.appendOne entry, appended := log.appended ++ [entry] } := by
  have beyond : ¬ entry.index.toNat ≤ log.core.lastIndex := by
    have := memory.lastLt
    omega
  have reach := memory.reach
  have counted := memory.counted
  have firstLe := memory.firstLe
  have keeps : ¬ (log.core.firstIndex = 0 ∨ entry.index.toNat < log.core.firstIndex) := by
    have := memory.firstPositive
    omega
  have same : log.core.appendOne entry = { log.core with
      entries := log.core.entries.set entry.index.toNat entry
      lastIndex := entry.index.toNat } := by
    simp only [StorageCore.appendOne, if_neg beyond, if_neg keeps, if_pos (Nat.lt_of_not_le beyond)]
  rw [same]
  refine ⟨memory.positive, ?_, ?_, ?_, memory.firstPositive, memory.firstLe, ?_, Or.inl ?_, memory.reach,
    memory.snapshot, memory.saved, memory.indexed⟩
  · exact Consecutive.append_iff.mpr ⟨memory.consecutive, next, trivial⟩
  · simp only [List.length_append, List.length_singleton]
    omega
  · intro index other
    rw [FinMap.get_set]
    by_cases here : index = entry.index.toNat
    · rw [if_pos here]
      constructor
      · intro found
        cases found
        exact ⟨by simp, here.symm, by omega⟩
      · rintro ⟨member, same, _⟩
        rcases List.mem_append.mp member with old | new
        · have := memory.consecutive.bounds old
          omega
        · rw [List.mem_singleton] at new
          rw [new]
    · rw [if_neg here, memory.present]
      constructor
      · rintro ⟨member, rest⟩
        exact ⟨List.mem_append_left _ member, rest⟩
      · rintro ⟨member, same, late⟩
        rcases List.mem_append.mp member with old | new
        · exact ⟨old, same, late⟩
        · rw [List.mem_singleton] at new
          exact absurd (new ▸ same.symm) here
  · simp only [List.length_append, List.length_singleton]
    omega
  · simp only [List.length_append, List.length_singleton]
    omega

theorem append (memory : Memory first cut log) {entries : List Entry}
    (consecutive : Consecutive (first + log.appended.length) entries) :
    Memory first cut
      { log with core := log.core.appendEntries entries, appended := log.appended ++ entries } := by
  induction entries generalizing log with
  | nil => simpa [StorageCore.appendEntries] using memory
  | cons entry entries ih =>
    obtain ⟨here, rest⟩ := consecutive
    have after := ih (memory.appendOne here) (by simpa [Nat.add_assoc] using rest)
    simpa [StorageCore.appendEntries] using after

theorem recent_commit {count index : Nat} (recent : Recent first cut count index) :
    Recent first cut (count + 1) index := by
  unfold Recent at *
  omega

theorem index_next (memory : Memory first cut log) {entry : Entry} (next : log.appended[log.count]? = some entry) :
    entry.index.toNat = first + log.count := by
  obtain ⟨inside, found⟩ := List.getElem?_eq_some_iff.mp next
  have split := List.take_append_drop log.count log.appended
  rw [List.drop_eq_getElem_cons inside, found] at split
  have consecutive := memory.consecutive
  rw [← split, Consecutive.append_iff, List.length_take, Nat.min_eq_left memory.counted] at consecutive
  exact consecutive.2.1

theorem commit (memory : Memory first cut log) {entry : Entry} (next : log.appended[log.count]? = some entry) :
    Memory first cut { log with core := log.core.noted codec entry, count := log.count + 1 } := by
  have index := memory.index_next next
  obtain ⟨inside, _⟩ := List.getElem?_eq_some_iff.mp next
  have reach := memory.reach
  have positive := memory.positive
  have fresh : Recent first cut (log.count + 1) entry.index.toNat := by
    unfold Recent
    omega
  refine ⟨memory.positive, memory.consecutive, by simp only; omega, memory.present, memory.firstPositive,
    memory.firstLe, memory.lastLt, memory.tail, by simp only; omega, memory.snapshot, memory.saved, ?_⟩
  intro id state found
  have old : Recent first cut (log.count + 1) ((log.core.jobIndex.get id).getD {}).addIndex ∧
      Recent first cut (log.count + 1) ((log.core.jobIndex.get id).getD {}).completeIndex := by
    cases known : log.core.jobIndex.get id with
    | none => exact ⟨Or.inl rfl, Or.inl rfl⟩
    | some before =>
      obtain ⟨added, completed⟩ := memory.indexed id before known
      exact ⟨recent_commit added, recent_commit completed⟩
  obtain ⟨added, completed⟩ := indexEntry_indices found
  constructor
  · rcases added with new | same
    · exact new ▸ fresh
    · exact same ▸ old.1
  · rcases completed with new | same
    · exact new ▸ fresh
    · exact same ▸ old.2

/-- Only the write-ahead log and the buffer change. -/
theorem flush (memory : Memory first cut log) (wal : SegmentedWAL) (writeBuffer : List BufferedEntry) :
    Memory first cut { log with core := { log.core with wal := wal, writeBuffer := writeBuffer } } :=
  ⟨memory.positive, memory.consecutive, memory.counted, memory.present, memory.firstPositive, memory.firstLe,
    memory.lastLt, memory.tail, memory.reach, memory.snapshot, memory.saved, memory.indexed⟩

/-! ### Compaction in memory -/

/-- Where compaction cuts: at a committed entry that is still there, or behind the last one. -/
theorem cut_bounds (memory : Memory first cut log) (cuts : log.core.firstIndex < log.core.findFirstIndexToKeep) :
    cut ≤ log.core.findFirstIndexToKeep ∧ first ≤ log.core.findFirstIndexToKeep ∧
      log.core.findFirstIndexToKeep ≤ first + log.count ∧
      log.core.lastIndex + 1 = first + log.appended.length ∧ cut < first + log.appended.length := by
  have counted := memory.counted
  -- the bound comes from a state whose index is a committed entry's
  have source : ∃ index, cut ≤ index ∧ first ≤ index ∧ index < first + log.count ∧
      (log.core.findFirstIndexToKeep = index ∨ log.core.findFirstIndexToKeep = index + 1) := by
    unfold StorageCore.findFirstIndexToKeep at cuts ⊢
    split
    · rename_i some
      obtain ⟨id, state, found, waits, same⟩ := minPending_source some
      rcases (memory.indexed id state found).1 with zero | ⟨late, low, high⟩
      · exact absurd (same.trans zero) some
      · exact ⟨state.addIndex, late, low, high, Or.inl same⟩
    · rename_i none
      rw [if_neg none] at cuts
      split
      · rename_i some
        obtain ⟨id, state, found, same⟩ := maxComplete_source (Nat.ne_of_gt some)
        rcases (memory.indexed id state found).2 with zero | ⟨late, low, high⟩
        · omega
        · exact ⟨state.completeIndex, late, low, high, Or.inr (by rw [same])⟩
      · rename_i none'
        rw [if_neg none'] at cuts
        exact absurd cuts (Nat.lt_irrefl _)
  obtain ⟨index, late, low, high, same⟩ := source
  have right : log.core.lastIndex + 1 = first + log.appended.length := by
    rcases memory.tail with right | gone
    · exact right
    · obtain ⟨entry, member, found⟩ := memory.consecutive.exists_mem low (by omega)
      have := gone entry member
      omega
  omega

/-- What a compaction that cuts at `upTo` does, given the truncated log. -/
structure Cut (core : StorageCore) (cut upTo : Nat) (wal : SegmentedWAL) (core' : StorageCore) : Prop where
  wal : core'.wal = wal
  buffer : core'.writeBuffer = core.writeBuffer
  jobs : ∀ id state, core'.jobIndex.get id = some state ↔ core.jobIndex.get id = some state ∧
    ¬ (0 < state.completeIndex ∧ state.completeIndex < upTo) ∧ upTo ≤ state.addIndex
  snapshot : core'.snapshotMeta.index + 1 = upTo
  inside : upTo ≤ core.lastIndex → core'.firstIndex = upTo ∧ core'.lastIndex = core.lastIndex
  beyond : core.lastIndex < upTo → core'.firstIndex = cut ∧ core'.lastIndex + 1 = cut

theorem compact_idle (idle : log.core.findFirstIndexToKeep ≤ log.core.firstIndex) :
    log.core.compact = .ok log.core := by
  unfold StorageCore.compact
  simp only [if_pos idle]

/-- The entries that are left, and the indices computed from them. -/
private theorem kept_indices (memory : Memory first cut log) {upTo : Nat} (low : first ≤ upTo)
    (right : log.core.lastIndex + 1 = first + log.appended.length)
    (kept : StorageCore) (snapshot : kept.snapshotMeta = log.core.snapshotMeta)
    (present : ∀ index entry, kept.entries.get index = some entry ↔
      entry ∈ log.appended ∧ entry.index.toNat = index ∧ upTo ≤ index) :
    ∃ lo hi, kept.updateIndices = { kept with firstIndex := lo, lastIndex := hi } ∧
      (upTo ≤ log.core.lastIndex → lo = upTo ∧ hi = log.core.lastIndex) ∧
      (log.core.lastIndex < upTo → lo = cut ∧ hi + 1 = cut) := by
  by_cases inside : upTo ≤ log.core.lastIndex
  · refine ⟨upTo, log.core.lastIndex, ?_, fun _ => ⟨rfl, rfl⟩, fun beyond => absurd inside (by omega)⟩
    have at_ : ∀ index, upTo ≤ index → index ≤ log.core.lastIndex →
        ∃ index' entry, kept.entries.get index' = some entry ∧ entry.index.toNat = index := by
      intro index above below
      obtain ⟨entry, member, found⟩ := memory.consecutive.exists_mem (show first ≤ index by omega) (by omega)
      exact ⟨index, entry, (present index entry).mpr ⟨member, found, above⟩, found⟩
    apply StorageCore.updateIndices_between
    · intro index entry found
      obtain ⟨member, same, above⟩ := (present index entry).mp found
      have := memory.consecutive.bounds member
      omega
    · exact at_ upTo (Nat.le_refl _) inside
    · exact at_ log.core.lastIndex inside (Nat.le_refl _)
  · refine ⟨log.core.snapshotMeta.index + 1, log.core.snapshotMeta.index, ?_, fun holds => absurd holds inside,
      fun _ => ⟨memory.snapshot, memory.snapshot⟩⟩
    have none : ∀ index, kept.entries.get index = none := by
      intro index
      apply Option.eq_none_iff_forall_ne_some.mpr
      intro entry found
      obtain ⟨member, same, above⟩ := (present index entry).mp found
      have := memory.consecutive.bounds member
      omega
    rw [StorageCore.updateIndices_empty none, snapshot]

theorem compact_cuts (memory : Memory first cut log) (cuts : log.core.firstIndex < log.core.findFirstIndexToKeep)
    {wal : SegmentedWAL} (truncated : log.core.wal.truncate log.core.findFirstIndexToKeep = .ok wal) :
    ∃ core, log.core.compact = .ok core ∧ Memory first log.core.findFirstIndexToKeep { log with core := core } ∧
      Cut log.core cut log.core.findFirstIndexToKeep wal core := by
  obtain ⟨later, low, high, right, remains⟩ := memory.cut_bounds cuts
  have counted := memory.counted
  have positive := memory.positive
  generalize upToIs : log.core.findFirstIndexToKeep = upTo at *
  have ended : upTo - 1 + 1 = upTo := by omega
  have present : ∀ index entry,
      (log.core.entries.filter fun _ entry => ¬ entry.index.toNat < upTo).get index = some entry ↔
        entry ∈ log.appended ∧ entry.index.toNat = index ∧ upTo ≤ index := by
    intro index entry
    rw [FinMap.get_filter_some, memory.present]
    simp only [decide_eq_true_eq]
    constructor
    · rintro ⟨⟨member, same, _⟩, above⟩
      exact ⟨member, same, by omega⟩
    · rintro ⟨member, same, above⟩
      exact ⟨⟨member, same, by omega⟩, by omega⟩
  obtain ⟨lo, hi, indices, inside, beyond⟩ := memory.kept_indices low right
    { log.core with entries := log.core.entries.filter fun _ entry => ¬ entry.index.toNat < upTo } rfl present
  have jobs : ∀ id state, ((log.core.jobIndex.filter fun _ state =>
        ¬ (state.completeIndex > 0 ∧ state.completeIndex < upTo)).filter fun _ state =>
        ¬ state.addIndex < upTo).get id = some state ↔ log.core.jobIndex.get id = some state ∧
      ¬ (0 < state.completeIndex ∧ state.completeIndex < upTo) ∧ upTo ≤ state.addIndex := by
    intro id state
    simp only [FinMap.get_filter_some, decide_eq_true_eq, not_lt, gt_iff_lt, and_assoc]
  unfold StorageCore.compact
  simp only [upToIs, if_neg (Nat.not_le.mpr cuts), indices, truncated]
  have firstPositive := memory.firstPositive
  have firstLe := memory.firstLe
  have ends : (lo = upTo ∧ hi = log.core.lastIndex) ∨ (lo = cut ∧ hi + 1 = cut ∧ log.core.lastIndex < upTo) := by
    rcases Nat.lt_or_ge log.core.lastIndex upTo with past | within
    · exact Or.inr ⟨(beyond past).1, (beyond past).2, past⟩
    · exact Or.inl (inside within)
  refine ⟨_, rfl, ⟨positive, memory.consecutive, counted, present, ?_, ?_, ?_, ?_, high, ended, ended, ?_⟩,
    rfl, rfl, jobs, ended, inside, beyond⟩
  · show 0 < lo
    omega
  · show lo ≤ upTo
    omega
  · show hi < first + log.appended.length
    omega
  · show hi + 1 = first + log.appended.length ∨ ∀ entry ∈ log.appended, entry.index.toNat < upTo
    rcases ends with within | past
    · exact Or.inl (by omega)
    · right
      intro entry member
      have := memory.consecutive.bounds member
      omega
  · intro id state found
    obtain ⟨old, notPruned, added⟩ := (jobs id state).mp found
    obtain ⟨addRecent, completeRecent⟩ := memory.indexed id state old
    show Recent first upTo log.count state.addIndex ∧ Recent first upTo log.count state.completeIndex
    unfold Recent at *
    omega

end Memory
end Cue.Cluster
