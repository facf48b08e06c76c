import Cue.WalAnyOrder

/-! A crash cuts the active file at any byte. What is left is whole records and,
behind them, the beginning of one more. Opening skips from header to header and
does not miss the bodies; recovery reads them and takes the end of the file right
behind a header for the end of the log.

If the file ends between two records and keeps one of them, or nothing was sealed
before, the log goes on as if the rest had never been written. -/
namespace Cue.Cluster
open Cue.Lib Cue.Model

/-- The entries whose records lie within the first `size` bytes. -/
def survivors (codec : Codec) : List Entry → Nat → List Entry
  | [], _ => []
  | entry :: entries, size =>
    if (record codec entry).length ≤ size then
      entry :: survivors codec entries (size - (record codec entry).length)
    else []

/-- The directory after a crash that leaves so many bytes of the active file. -/
def SegmentedWAL.tornAt (sw : SegmentedWAL) (size : Nat) : Directory :=
  sw.dir.set sw.active.path (((sw.dir.get sw.active.path).getD []).take size)

variable {codec : Codec} {sw sw' : SegmentedWAL} {layout : Layout} {entries delivered : List Entry} {size : Nat}

/-! ### The file -/

theorem survivors_subset (codec : Codec) (entries : List Entry) (size : Nat) :
    survivors codec entries size ⊆ entries := by
  induction entries generalizing size with
  | nil => exact List.nil_subset _
  | cons entry entries ih =>
    unfold survivors
    split
    · exact List.cons_subset_cons entry (ih _)
    · exact List.nil_subset _

/-- The beginning of a record, and not all of it. -/
def TornRecord (codec : Codec) (entry : Entry) (tail : Bytes) : Prop :=
  tail <+: record codec entry ∧ tail.length < (record codec entry).length

theorem take_records (codec : Codec) (entries : List Entry) (size : Nat) :
    ∃ tail, (records codec entries).take size = records codec (survivors codec entries size) ++ tail ∧
      (tail = [] ∨ ∃ next rest, entries = survivors codec entries size ++ next :: rest ∧
        TornRecord codec next tail) := by
  induction entries generalizing size with
  | nil => exact ⟨[], by simp [survivors], Or.inl rfl⟩
  | cons entry entries ih =>
    unfold survivors
    split
    · rename_i fits
      obtain ⟨tail, shape, torn⟩ := ih (size - (record codec entry).length)
      refine ⟨tail, ?_, torn.imp id ?_⟩
      · rw [records_cons, List.take_append, List.take_of_length_le fits, shape, records_cons, List.append_assoc]
      · rintro ⟨next, rest, split, torn⟩
        exact ⟨next, rest, congrArg (entry :: ·) split, torn⟩
    · rename_i short
      have within : size < (record codec entry).length := Nat.not_le.mp short
      refine ⟨(record codec entry).take size, ?_, Or.inr ⟨entry, entries, rfl, List.take_prefix _ _, ?_⟩⟩
      · rw [records_cons, List.take_append_of_le_length within.le]
        rfl
      · rw [List.length_take]
        omega

theorem readFull_short {before tail : Bytes} {count : Nat} (short : tail.length < count) :
    ∃ err, readFull (before ++ tail) before.length count = .error err := by
  have positive : count ≠ 0 := by omega
  by_cases nothing : tail = []
  · exact ⟨.eof, by simp [readFull, positive, nothing]⟩
  · exact ⟨.unexpectedEOF, by simp [readFull, positive, nothing, short]⟩

/-- If the header of the record is whole, some of the body is missing. -/
theorem TornRecord.body {tail : Bytes} {entry : Entry} (torn : TornRecord codec entry tail) (lawful : codec.Lawful)
    (encodable : (codec.marshal entry).isSome) (whole : ¬ tail.length < 16) : ∃ data body : Bytes,
      (record codec entry).length = 16 + data.length ∧ data.length < 2 ^ 31 ∧ body.length < data.length ∧
      tail = littleEndian 8 (16 + data.length) ++ littleEndian 8 entry.index.toNat ++ body := by
  obtain ⟨beginning, short⟩ := torn
  obtain ⟨data, same, _, bounded⟩ := marshal_record lawful encodable
  rw [same] at beginning short
  have header : littleEndian 8 (16 + data.length) ++ littleEndian 8 entry.index.toNat <+: tail :=
    List.prefix_of_prefix_length_le (List.prefix_append _ data) beginning (by simpa using Nat.not_lt.mp whole)
  obtain ⟨body, rfl⟩ := header
  simp only [List.length_append, length_littleEndian, length_frame] at short
  exact ⟨data, body, by rw [same, length_frame], bounded, by omega, rfl⟩

/-- A record of which only the beginning is left cannot be read. -/
theorem readEntry_torn {before tail : Bytes} {entry : Entry} (lawful : codec.Lawful)
    (encodable : (codec.marshal entry).isSome) (torn : TornRecord codec entry tail) :
    ∃ err, readEntry codec (before ++ tail) before.length = .error err := by
  unfold readEntry
  by_cases cut : tail.length < 16
  · obtain ⟨err, failed⟩ := @readFull_short before tail 16 cut
    exact ⟨err, by rw [readHeader, failed]⟩
  · obtain ⟨data, body, _, bounded, missing, rfl⟩ := torn.body lawful encodable cut
    have room := lawful.room
    have sane : ¬ (16 + data.length < 16 ∨ 16 + data.length > maxAlloc + 16) := by
      unfold maxAlloc
      omega
    rw [readHeader_header (by omega) entry.index.toNat_lt]
    simp only [if_neg sane, if_neg (show ¬ 16 + data.length > codec.memory + 16 by omega), Nat.add_sub_cancel_left]
    have position : before.length + 16 =
        (before ++ (littleEndian 8 (16 + data.length) ++ littleEndian 8 entry.index.toNat)).length := by
      simp
    obtain ⟨err, failed⟩ := @readFull_short
      (before ++ (littleEndian 8 (16 + data.length) ++ littleEndian 8 entry.index.toNat)) body _ missing
    rw [position, ← List.append_assoc, failed]
    exact ⟨err, rfl⟩

/-- The scan fails within the header of a torn record, or takes its index for that of the last one. -/
theorem scanLast_torn {tail : Bytes} {entry : Entry} {last : Nat} (lawful : codec.Lawful)
    (encodable : Encodable codec (entries ++ [entry])) (torn : TornRecord codec entry tail) (some : tail ≠ [])
    (fits : (records codec (entries ++ [entry])).length < maxOffset)
    (scanned : scanLast (records codec entries ++ tail) = .ok last) : last = entry.index.toNat := by
  rw [records_append, List.length_append, records_cons, records_nil, List.append_nil] at fits
  obtain ⟨fuel, split⟩ := scanLast_append tail lawful (fun other member => encodable other (by simp [member]))
    (by omega : (records codec entries).length < maxOffset)
  rw [split, scanFrom] at scanned
  by_cases cut : tail.length < 16
  · have failed : readHeader (records codec entries ++ tail) (records codec entries).length =
        .error .unexpectedEOF := by
      simp [readHeader, readFull, some, cut]
    rw [failed] at scanned
    cases scanned
  · obtain ⟨data, body, whole, bounded, missing, rfl⟩ := torn.body lawful (encodable entry (by simp)) cut
    have skipped : skipRecord (records codec entries).length (16 + data.length) =
        .ok ((records codec entries).length + (16 + data.length)) := by
      unfold skipRecord
      rw [if_pos (by omega), if_pos (by omega)]
    rw [readHeader_header (by omega) entry.index.toNat_lt] at scanned
    simp only [skipped] at scanned
    rw [scanFrom, readHeader_beyond] at scanned
    · exact (Except.ok.inj scanned).symm
    · simp only [List.length_append, length_littleEndian]
      omega

/-- What is read of a file that was cut is what lies within it. -/
theorem readFile_torn {read : List Entry} (lawful : codec.Lawful) (encodable : Encodable codec entries)
    (ok : readFile codec ((records codec entries).take size) = .ok read) : read = survivors codec entries size := by
  obtain ⟨tail, shape, torn⟩ := take_records codec entries size
  have kept : Encodable codec (survivors codec entries size) := fun entry member =>
    encodable entry (survivors_subset codec entries size member)
  obtain ⟨fuel, split⟩ := readFile_append tail lawful kept
  have ends : ∃ err, readEntry codec (records codec (survivors codec entries size) ++ tail)
      (records codec (survivors codec entries size)).length = .error err := by
    rcases torn with rfl | ⟨next, rest, parts, torn⟩
    · refine ⟨.eof, ?_⟩
      rw [List.append_nil, readEntry, readHeader_end]
    · exact readEntry_torn lawful (encodable next (parts ▸ by simp)) torn
  obtain ⟨err, ended⟩ := ends
  rw [shape, split, readEntries, ended] at ok
  cases err with
  | eof => exact (Except.ok.inj ok).symm.trans (List.append_nil _)
  | _ => cases ok

/-! ### The log -/

namespace SegmentedWAL.Stored

/-- Only the active file changes. -/
theorem tornAt_get (stored : sw.Stored codec layout) (size : Nat) (name : FileName) :
    (sw.tornAt size).get name =
      if name = .active sw.active.startIndex then some ((records codec layout.active).take size)
      else sw.dir.get name := by
  unfold tornAt
  rw [FinMap.get_set, stored.activePath, stored.activeFile]
  rfl

theorem tornAt_named (stored : sw.Stored codec layout) (size : Nat) (name : FileName) :
    name ∈ (sw.tornAt size).keys ↔ name ∈ layout.names sw.active.startIndex := by
  rw [← stored.mem_dir, FinMap.mem_keys, FinMap.mem_keys, stored.tornAt_get]
  split
  · rename_i here
    simp [here, stored.activeFile]
  · rfl

theorem tornAt_plain (stored : sw.Stored codec layout) (size : Nat) (name : FileName) :
    ((sw.tornAt size).filter fun name _ => !name.isTmp).get name = (sw.tornAt size).get name := by
  refine get_plain (fun start => ?_) name
  rw [stored.tornAt_get, stored.files]
  rfl

/-- Opening after a crash finds the files of the layout, and scans the active one. -/
theorem open_torn (stored : sw.Stored codec layout) {segmentSize : Nat}
    (opened : newSegmentedWal (sw.tornAt size) segmentSize = .ok sw') :
    ∃ dir last, (∀ name, dir.get name = (sw.tornAt size).get name) ∧
      scanLast ((records codec layout.active).take size) = .ok last ∧
      sw' = ⟨dir, layout.ranges.map (sealedIn dir), activeIn dir sw.active.startIndex, last + 1,
        if segmentSize > 0 then segmentSize else defaultSegmentSize⟩ := by
  obtain ⟨fails, opens⟩ := stored.shaped.open_spec (stored.tornAt_named size) segmentSize
  have plain := stored.tornAt_plain size
  revert fails opens
  generalize (sw.tornAt size).filter (fun name _ => !name.isTmp) = dir at plain
  intro fails opens
  cases scanned : scanLastIndex dir (activeIn dir sw.active.startIndex) with
  | error err => cases (fails err scanned).symm.trans opened
  | ok last =>
    refine ⟨dir, last, plain, ?_, Except.ok.inj (opened.symm.trans (opens last scanned))⟩
    unfold scanLastIndex at scanned
    rw [show (activeIn dir sw.active.startIndex).path = .active sw.active.startIndex from rfl, plain,
      stored.tornAt_get, if_pos rfl] at scanned
    exact scanned

/-- Recovery after a crash delivers what lies within the files. -/
theorem recover_torn (stored : sw.Stored codec layout) (lawful : codec.Lawful) {segmentSize snapshotIndex : Nat}
    (opened : newSegmentedWal (sw.tornAt size) segmentSize = .ok sw')
    (recovered : sw'.recover codec snapshotIndex = .ok delivered) :
    delivered = (layout.ranges.flatMap layout.contents ++ survivors codec layout.active size).filter
      fun entry => snapshotIndex < entry.index.toNat := by
  obtain ⟨dir, last, plain, _, rfl⟩ := stored.open_torn opened
  have sealedFiles : ∀ range ∈ layout.ranges,
      dir.get (.wal range.1 range.2) = some (records codec (layout.contents range)) := by
    intro range member
    rw [plain, stored.tornAt_get, if_neg (by simp), stored.sealedFile member]
  have activeFile : dir.get (activeIn dir sw.active.startIndex).path =
      some ((records codec layout.active).take size) := by
    show dir.get (.active sw.active.startIndex) = _
    rw [plain, stored.tornAt_get, if_pos rfl]
  unfold recover at recovered
  dsimp only at recovered
  have parsed : ∀ seg ∈ layout.ranges.map (sealedIn dir),
      seg.path = .wal seg.startIndex seg.endIndex ∧ seg.range ∈ layout.ranges := by
    intro seg member
    obtain ⟨range, inside, rfl⟩ := List.mem_map.mp member
    exact ⟨rfl, inside⟩
  rw [read_segments stored.shaped.encodable sealedFiles lawful _ (fun seg member => (parsed seg member).1)
    fun seg member => (parsed seg member).2] at recovered
  cases read : readSegment codec dir (activeIn dir sw.active.startIndex) with
  | error err =>
    rw [read] at recovered
    cases recovered
  | ok found =>
    rw [read] at recovered
    cases recovered
    unfold readSegment at read
    rw [activeFile] at read
    cases readFile_torn lawful stored.shaped.activeEncodable read
    simp [List.flatMap, Function.comp_def, sealedIn, Segment.range]

/-- A file that ends between two records is one in which the others were never written. -/
theorem torn_stored (stored : sw.Stored codec layout)
    (boundary : (records codec layout.active).take size = records codec (survivors codec layout.active size)) :
    Stored codec { sw with dir := sw.tornAt size } { layout with active := survivors codec layout.active size } := by
  have fewer := survivors_subset codec layout.active size
  refine ⟨⟨?_, stored.shaped.chain, stored.shaped.forward, stored.shaped.distinct⟩, ?_, stored.sealed, stored.covered,
    stored.isActive, ?_⟩
  · rintro entry (inSealed | inActive)
    · exact stored.shaped.encodable entry (Or.inl inSealed)
    · exact stored.shaped.encodable entry (Or.inr (fewer inActive))
  · intro name
    dsimp only
    rw [stored.tornAt_get, stored.files, boundary]
    cases name with
    | wal first stop => rfl
    | active first => by_cases here : first = sw.active.startIndex <;> simp [Layout.file, here]
    | tmp first => rfl
  · dsimp only
    rw [← boundary, List.length_take]
    exact (Nat.min_le_right _ _).trans_lt stored.short

end SegmentedWAL.Stored

/-! ### Going on -/

/-- What is left of the file ends with a record. -/
def BetweenRecords (codec : Codec) (layout : Layout) (size : Nat) : Prop :=
  (records codec layout.active).take size = records codec (survivors codec layout.active size)

/-- The file ends between two records; one of them is left, or nothing was sealed
before; and indices count from one. -/
structure CleanCut (codec : Codec) (layout : Layout) (size : Nat) : Prop where
  boundary : BetweenRecords codec layout size
  remaining : survivors codec layout.active size = [] → layout.ranges.flatMap layout.contents = []
  counted : ∀ entry, layout.Stores entry → 0 < entry.index.toNat

/-- Indices count up, from one on. -/
def Layout.Ascending (layout : Layout) : Prop :=
  (0 :: layout.entries.map fun entry => entry.index.toNat).Pairwise (· < ·)

theorem Layout.Ascending.counted (ascending : layout.Ascending) (entry : Entry) (stores : layout.Stores entry) :
    0 < entry.index.toNat :=
  List.rel_of_pairwise_cons ascending (List.mem_map_of_mem (Layout.mem_entries.mpr stores))

theorem lastIndexOr_lt {last : Nat} {kept rest : List Entry} {next : Entry}
    (ascending : (last :: (kept ++ next :: rest).map fun entry => entry.index.toNat).Pairwise (· < ·)) :
    lastIndexOr last kept < next.index.toNat := by
  induction kept generalizing last with
  | nil => exact List.rel_of_pairwise_cons ascending (by simp)
  | cons entry kept ih =>
    rw [lastIndexOr_cons]
    exact ih ascending.of_cons

section Cut

variable {segmentSize : Nat} (lawful : codec.Lawful) (stored : sw.Stored codec layout)
  (opened : newSegmentedWal (sw.tornAt size) segmentSize = .ok sw') (recovered : sw'.recover codec 0 = .ok delivered)
include lawful stored opened recovered

theorem delivered_all (counted : ∀ entry, layout.Stores entry → 0 < entry.index.toNat) :
    delivered = layout.ranges.flatMap layout.contents ++ survivors codec layout.active size := by
  rw [stored.recover_torn lawful opened recovered]
  apply List.filter_eq_self.mpr
  intro entry member
  simp only [decide_eq_true_eq]
  refine counted entry (Layout.mem_entries.mp ?_)
  rcases List.mem_append.mp member with inSealed | inActive
  · exact List.mem_append_left _ inSealed
  · exact List.mem_append_right _ (survivors_subset codec layout.active size inActive)

theorem CleanCut.nextIndex (clean : CleanCut codec layout size) :
    sw'.nextIndex = lastIndexOr 0 delivered + 1 := by
  obtain ⟨_, ok, spec⟩ := (stored.torn_stored clean.boundary).reopen_spec lawful segmentSize
  cases ok.symm.trans opened
  rw [spec.nextIndex, delivered_all lawful stored opened recovered clean.counted, lastIndexOr_append]
  by_cases nothing : survivors codec layout.active size = []
  · rw [nothing, clean.remaining nothing]
    rfl
  · obtain ⟨final, last⟩ := Option.isSome_iff_exists.mp (List.getLast?_isSome.mpr nothing)
    simp [lastIndexOr, last]

/-- In a log whose indices count up, a torn record that is taken for the last one leads
to a next index that is too large. -/
theorem betweenRecords_of_nextIndex (ascending : layout.Ascending)
    (right : sw'.nextIndex = lastIndexOr 0 delivered + 1) : BetweenRecords codec layout size := by
  rw [delivered_all lawful stored opened recovered ascending.counted] at right
  obtain ⟨dir, last, _, scanned, rfl⟩ := stored.open_torn opened
  obtain rfl : last = _ := Nat.succ.inj right
  obtain ⟨tail, shape, torn⟩ := take_records codec layout.active size
  suffices whole : tail = [] by rwa [whole, List.append_nil] at shape
  by_contra some
  obtain ⟨next, rest, parts, torn⟩ := torn.resolve_left some
  have inside : Encodable codec (survivors codec layout.active size ++ [next]) := fun entry member =>
    stored.shaped.activeEncodable entry (parts ▸ by
      rcases List.mem_append.mp member with kept | last
      · exact List.mem_append_left _ kept
      · exact List.mem_append_right _ (List.mem_singleton.mp last ▸ List.mem_cons_self))
  have fits : (records codec (survivors codec layout.active size ++ [next])).length < maxOffset := by
    refine Nat.lt_of_le_of_lt ?_ stored.short
    nth_rewrite 2 [parts]
    simp only [records_append, records_cons, records_nil, List.length_append, List.length_nil]
    omega
  rw [shape] at scanned
  have taken := scanLast_torn lawful inside torn some fits scanned
  have listed : layout.entries = (layout.ranges.flatMap layout.contents ++
      survivors codec layout.active size) ++ next :: rest := by
    rw [List.append_assoc, ← parts]
    rfl
  rw [Layout.Ascending, listed] at ascending
  have below := lastIndexOr_lt ascending
  omega

/-- No cut but a clean one leads to the right next index: with nothing left in the
active file it is one, and the last record is in a sealed file. -/
theorem cleanCut_of_nextIndex (ascending : layout.Ascending)
    (right : sw'.nextIndex = lastIndexOr 0 delivered + 1) : CleanCut codec layout size := by
  have boundary := betweenRecords_of_nextIndex lawful stored opened recovered ascending right
  refine ⟨boundary, fun nothing => ?_, ascending.counted⟩
  rw [delivered_all lawful stored opened recovered ascending.counted, nothing, List.append_nil] at right
  obtain ⟨dir, last, _, scanned, rfl⟩ := stored.open_torn opened
  obtain rfl : last = _ := Nat.succ.inj right
  rw [show (records codec layout.active).take size = _ from boundary, nothing] at scanned
  by_contra some
  obtain ⟨final, last⟩ := Option.isSome_iff_exists.mp (List.getLast?_isSome.mpr some)
  have positive := ascending.counted final (Layout.mem_entries.mp
    (List.mem_append_left _ (List.mem_of_getLast? last)))
  have zero : (0 : Nat) = _ := Except.ok.inj scanned
  simp [lastIndexOr, last] at zero
  omega

end Cut

/-- Batches are appended tidily, and the log may be reopened. -/
def WalHistory.Continues (codec : Codec) (history : WalHistory) : WalOp → Prop
  | .append entries => history.Tidy codec (.append entries)
  | .truncate _ => False
  | .reopen segmentSize => history.Tidy codec (.reopen segmentSize)

instance (codec : Codec) (history : WalHistory) : ∀ op, Decidable (history.Continues codec op)
  | .append entries => inferInstanceAs (Decidable (history.Tidy codec (.append entries)))
  | .truncate _ => isFalse id
  | .reopen segmentSize => inferInstanceAs (Decidable (history.Tidy codec (.reopen segmentSize)))

abbrev ContinuedRun (codec : Codec) (first : SegmentedWAL) : List WalOp → WalHistory → Prop :=
  Run (fun history op history' => history.step codec op = some history') (fun _ => WalHistory.Continues codec)
    ⟨first, [], []⟩

/-- The log holds what it held at first, and all that was appended since. -/
theorem ContinuedRun.listed {ops : List WalOp} {history : WalHistory} (lawful : codec.Lawful)
    (listed : Listed codec sw layout) (run : ContinuedRun codec sw ops history) :
    ∃ layout', Listed codec history.wal layout' ∧ layout'.entries = layout.entries ++ history.appended := by
  refine run.invariant (fun _ history => ∃ layout', Listed codec history.wal layout' ∧
    layout'.entries = layout.entries ++ history.appended) ⟨layout, listed, (List.append_nil _).symm⟩ ?_
  rintro _ history op history' ⟨between, listed, held⟩ continues stepped
  cases op with
  | append entries =>
    obtain ⟨appended, layout', listed', grown, _⟩ := listed.step_append lawful continues stepped
    refine ⟨layout', listed', ?_⟩
    rw [grown, held, appended, List.append_assoc]
  | truncate upToIndex => exact continues.elim
  | reopen segmentSize =>
    obtain ⟨same, listed'⟩ := listed.step_reopen lawful stepped
    exact ⟨between, listed', same ▸ held⟩

/-- After a crash that cut the active file anywhere, if the log opens and recovers,
recovery delivers the entries whose records are whole. If the cut is between two
records, whatever is appended from then on is delivered behind them, in order, by every
later recovery. If it is clean, the next index is the one behind the last of them, and
if the indices count up, it is that one after no other cut. -/
theorem torn_tail_is_safe_if_clean {segmentSize : Nat} (lawful : codec.Lawful) (stored : sw.Stored codec layout)
    (opened : newSegmentedWal (sw.tornAt size) segmentSize = .ok sw')
    (recovered : sw'.recover codec 0 = .ok delivered) :
    (delivered = (layout.ranges.flatMap layout.contents ++ survivors codec layout.active size).filter
      fun entry => 0 < entry.index.toNat) ∧
    (CleanCut codec layout size → ∀ final ∈ delivered.getLast?, sw'.nextIndex = final.index.toNat + 1) ∧
    (BetweenRecords codec layout size → ∀ ops history, ContinuedRun codec sw' ops history →
      history.wal.recover codec 0 =
        .ok (delivered ++ history.appended.filter fun entry => 0 < entry.index.toNat)) ∧
    (layout.Ascending → (CleanCut codec layout size ↔ sw'.nextIndex = lastIndexOr 0 delivered + 1)) := by
  have exactly := stored.recover_torn lawful opened recovered
  refine ⟨exactly, fun clean final last => ?_, fun boundary ops history run => ?_, fun ascending =>
    ⟨CleanCut.nextIndex lawful stored opened recovered, cleanCut_of_nextIndex lawful stored opened recovered ascending⟩⟩
  · rw [clean.nextIndex lawful stored opened recovered]
    simp [lastIndexOr, Option.mem_def.mp last]
  · have torn := stored.torn_stored boundary
    obtain ⟨_, ok, spec⟩ := torn.reopen_spec lawful segmentSize
    cases ok.symm.trans opened
    have listed : Listed codec sw' { layout with active := survivors codec layout.active size } := by
      refine ⟨spec.stored torn, spec.ranges, ?_⟩
      rw [spec.nextIndex]
      exact Nat.succ_pos _
    obtain ⟨layout', listed', held⟩ := run.listed lawful listed
    rw [listed'.stored.recover_spec lawful listed'.ranges, held, List.filter_append, exactly]
    rfl

/-! ### Given cuts -/

private def tornEntry (term index : UInt64) : Entry := ⟨term, index, .normal, some [7]⟩

/-- A log with the entries 1 and 2 in one file. -/
private def oneFile : SegmentedWAL where
  dir := FinMap.empty.set (.active 1) (records (wireCodec []) [tornEntry 1 1, tornEntry 1 2])
  segments := []
  active := ⟨1, 0, 2 * (record (wireCodec []) (tornEntry 1 1)).length, true⟩
  nextIndex := 3
  segmentSize := 1000

private def oneFileLayout : Layout := ⟨[], fun _ => [], [tornEntry 1 1, tornEntry 1 2]⟩

-- the logs below are evaluated
set_option maxRecDepth 4000

private theorem oneFile_stored : oneFile.Stored (wireCodec []) oneFileLayout := by
  refine ⟨⟨?_, ?_, ?_, ?_⟩, ?_, ?_, ?_, rfl, ?_⟩
  · rintro entry (⟨_, member, _⟩ | member)
    · cases member
    · simp only [oneFileLayout, List.mem_cons, List.not_mem_nil, or_false] at member
      rcases member with rfl | rfl <;> rfl
  · exact List.isChain_singleton _
  · intro _ member
    cases member
  · exact List.nodup_nil
  · intro name
    cases name with
    | wal first stop => rfl
    | active first => by_cases here : first = 1 <;> simp [oneFile, oneFileLayout, Layout.file, FinMap.get_set, here]
    | tmp first => rfl
  · intro _ member
    cases member
  · intro _ member
    cases member
  · decide

/-- The length of the first record. -/
private def firstLength : Nat := (record (wireCodec []) (tornEntry 1 1)).length

private theorem clean_opens : (newSegmentedWal (oneFile.tornAt firstLength) 1000).toOption.isSome = true := rfl

/-- The second entry is written again, in a new term. -/
private def continuingOps : List WalOp := [.append [tornEntry 2 2], .reopen 1000]

private theorem continuing_executes : (continuingOps.foldlM (fun (history : WalHistory) op =>
    if history.Continues (wireCodec []) op then history.step (wireCodec []) op else none)
      ⟨Option.get _ clean_opens, [], []⟩).isSome = true := rfl

/-- The file is cut behind its first record. -/
theorem clean_tail_goes_on : ∃ sw' history, newSegmentedWal (oneFile.tornAt firstLength) 1000 = .ok sw' ∧
    sw'.nextIndex = 2 ∧ ContinuedRun (wireCodec []) sw' continuingOps history ∧
      history.wal.recover (wireCodec []) 0 = .ok [tornEntry 1 1, tornEntry 2 2] := by
  have run : ContinuedRun (wireCodec []) _ continuingOps (Option.get _ continuing_executes) :=
    Run.of_guarded (Option.some_get _).symm
  have clean : CleanCut (wireCodec []) oneFileLayout firstLength := by
    refine ⟨rfl, fun _ => rfl, fun entry stores => ?_⟩
    have member : entry ∈ [tornEntry 1 1, tornEntry 1 2] := Layout.mem_entries.mpr stores
    simp only [List.mem_cons, List.not_mem_nil, or_false] at member
    rcases member with rfl | rfl <;> decide
  have recovered : (Option.get _ clean_opens).recover (wireCodec []) 0 = .ok [tornEntry 1 1] := rfl
  obtain ⟨_, next, later, _⟩ :=
    torn_tail_is_safe_if_clean (wireCodec_lawful []) oneFile_stored (ok_of_toOption clean_opens) recovered
  exact ⟨_, _, ok_of_toOption clean_opens, next clean _ rfl, run, later clean.boundary _ _ run⟩

private def batchOf (entries : List Entry) : List BufferedEntry := entries.map (buffered (wireCodec []))

/-- The file is cut behind the second header. The log opens and recovers the first
entry, but it expects the entry 3 next, and what is appended then cannot be recovered.
A log of which the file behind a sealed one is cut away expects the entry 1. -/
theorem torn_header_breaks_log :
    (∃ first sw sw' sw'', newSegmentedWal .empty 1000 = .ok first ∧
      first.appendBatch (batchOf [tornEntry 1 1, tornEntry 1 2]) = .ok sw ∧
      newSegmentedWal (sw.tornAt (firstLength + 16)) 1000 = .ok sw' ∧
      sw'.recover (wireCodec []) 0 = .ok [tornEntry 1 1] ∧ sw'.nextIndex = 3 ∧
      sw'.appendBatch (batchOf [tornEntry 2 2]) = .ok sw'' ∧
      ∃ err, sw''.recover (wireCodec []) 0 = .error err) ∧
    ∃ first sw sw', newSegmentedWal .empty 1 = .ok first ∧
      first.appendBatch (batchOf [tornEntry 1 1, tornEntry 1 2]) = .ok sw ∧
      newSegmentedWal (sw.tornAt 0) 1 = .ok sw' ∧
      sw'.recover (wireCodec []) 0 = .ok [tornEntry 1 1] ∧ sw'.nextIndex = 1 :=
  ⟨⟨_, _, _, _, rfl, rfl, rfl, rfl, rfl, rfl, _, rfl⟩, _, _, _, rfl, rfl, rfl, rfl, rfl⟩

end Cue.Cluster
