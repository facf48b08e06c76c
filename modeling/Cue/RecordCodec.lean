import Cue.Cluster.EntryCodec
import Cue.WalFidelity

/-! The writer, the reader and the scanner of a segment file agree on where a
record ends. The reader gives back what was written and then reports the end;
the scanner goes from header to header along the offsets the reader stops at. -/
namespace Cue.Cluster
open Cue.Lib Cue.Model

/-- What successive calls of `ReadEntry` return, up to the first error. -/
def readCalls (codec : Codec) (file : Bytes) : Nat → Nat → List (Except WalError Entry)
  | 0, _ => []
  | calls + 1, pos =>
    match readEntry codec file pos with
    | .error err => [.error err]
    | .ok (entry, pos) => .ok entry :: readCalls codec file calls pos

/-- `ReadEntry` goes through these entries from one offset to another. -/
inductive Reads (codec : Codec) (file : Bytes) : Nat → List Entry → Nat → Prop where
  | done {pos : Nat} : Reads codec file pos [] pos
  | next {pos mid stop : Nat} {entry : Entry} {entries : List Entry} :
      readEntry codec file pos = .ok (entry, mid) → Reads codec file mid entries stop →
      Reads codec file pos (entry :: entries) stop

variable {codec : Codec} {file : Bytes} {pos stop : Nat} {entries : List Entry}

/-- The end of the file is where the next header would be. -/
theorem readCalls_of_reads (reads : Reads codec file pos entries stop)
    (ended : readHeader file stop = .error .eof) {calls : Nat} (enough : entries.length < calls) :
    readCalls codec file calls pos = entries.map .ok ++ [.error .eof] := by
  induction reads generalizing calls with
  | @done pos =>
    obtain ⟨calls, rfl⟩ := Nat.exists_eq_add_of_lt enough
    have last : readEntry codec file pos = .error .eof := by rw [readEntry, ended]
    rw [List.length_nil, Nat.zero_add, readCalls, last]
    rfl
  | @next pos mid stop entry entries read _ ih =>
    obtain ⟨calls, rfl⟩ : ∃ n, calls = n + 1 := ⟨calls - 1, by omega⟩
    rw [readCalls, read]
    exact congrArg (.ok entry :: ·) (ih ended (Nat.lt_of_succ_lt_succ enough))

/-- An entry that is read ends where its header says. -/
theorem readHeader_of_readEntry {entry : Entry} {mid : Nat} (read : readEntry codec file pos = .ok (entry, mid)) :
    ∃ size, readHeader file pos = .ok (entry.index.toNat, size) ∧ mid = pos + size := by
  unfold readEntry at read
  cases header : readHeader file pos with
  | error err => rw [header] at read; cases read
  | ok pair =>
    obtain ⟨idx, size⟩ := pair
    rw [header] at read
    dsimp only at read
    split at read
    · cases read
    split at read
    · cases read
    split at read
    · cases read
    split at read
    · cases read
    split at read
    · cases read
    rename_i matching
    cases read
    exact ⟨size, by rw [not_not.mp matching], rfl⟩

theorem Reads.le (reads : Reads codec file pos entries stop) : pos ≤ stop := by
  induction reads with
  | done => exact Nat.le_refl _
  | next read _ ih =>
    obtain ⟨size, _, rfl⟩ := readHeader_of_readEntry read
    omega

/-- The scanner follows the reader. -/
theorem scanFrom_of_reads (reads : Reads codec file pos entries stop)
    (ended : readHeader file stop = .error .eof) (fits : stop < maxOffset) {fuel last : Nat}
    (enough : entries.length < fuel) : scanFrom file fuel pos last = .ok (lastIndexOr last entries) := by
  induction reads generalizing fuel last with
  | done =>
    obtain ⟨fuel, rfl⟩ := Nat.exists_eq_add_of_lt enough
    rw [List.length_nil, Nat.zero_add, scanFrom, ended]
    rfl
  | @next pos mid stop entry entries read rest ih =>
    obtain ⟨fuel, rfl⟩ : ∃ n, fuel = n + 1 := ⟨fuel - 1, by omega⟩
    obtain ⟨size, header, rfl⟩ := readHeader_of_readEntry read
    have inside := rest.le
    have skipped : skipRecord pos size = .ok (pos + size) := by
      unfold skipRecord
      rw [if_pos (by omega), if_pos (by omega)]
    rw [scanFrom, header]
    simp only [skipped, lastIndexOr_cons]
    exact ih ended fits (Nat.lt_of_succ_lt_succ enough)

/-- Records that could be allocated are read one after the other. -/
theorem reads_records (roundTrip : ∀ entry bytes, codec.marshal entry = some bytes → codec.unmarshal bytes = some entry)
    (before : Bytes) (encodable : Encodable codec entries)
    (allocated : ∀ entry ∈ entries, (record codec entry).length ≤ min maxAlloc codec.memory) :
    Reads codec (before ++ records codec entries) before.length entries (before ++ records codec entries).length := by
  induction entries generalizing before with
  | nil =>
    rw [records_nil, List.append_nil]
    exact .done
  | cons entry entries ih =>
    obtain ⟨data, marshalled⟩ := Option.isSome_iff_exists.mp (encodable entry List.mem_cons_self)
    have same : record codec entry = frame entry.index.toNat data := by simp only [record, marshalled, Option.getD_some]
    have short := allocated entry List.mem_cons_self
    rw [same, length_frame] at short
    have rest := ih (before ++ record codec entry) (fun other member => encodable other (List.mem_cons_of_mem _ member))
      (fun other member => allocated other (List.mem_cons_of_mem _ member))
    rw [List.append_assoc] at rest
    rw [records_cons]
    refine .next ?_ rest
    rw [same]
    exact readEntry_frame (roundTrip entry data marshalled) (by omega) (by omega)

/-- The bytes of encoded entries, one record behind the other. Each record was
allocated by the writer, and together they are a file. Then the calls of the
reader return the entries and `io.EOF`, and the scanner returns the index of the
last entry. -/
theorem record_codec (roundTrip : ∀ entry bytes, codec.marshal entry = some bytes → codec.unmarshal bytes = some entry)
    {batch : List BufferedEntry} (encoded : entries.mapM (encodeBufferedEntry codec) = some batch)
    (allocated : ∀ be ∈ batch, be.data.length ≤ min maxAlloc codec.memory)
    (isFile : (batch.flatMap BufferedEntry.data).length < maxOffset) :
    (∀ calls, entries.length < calls →
      readCalls codec (batch.flatMap BufferedEntry.data) calls 0 = entries.map .ok ++ [.error .eof]) ∧
    scanLast (batch.flatMap BufferedEntry.data) =
      .ok ((entries.getLast?.map fun entry => entry.index.toNat).getD 0) := by
  obtain ⟨rfl, encodable⟩ := mapM_encodeBufferedEntry encoded
  have file : (entries.map (buffered codec)).flatMap BufferedEntry.data = records codec entries := by
    rw [List.flatMap_map]
    rfl
  rw [file] at isFile ⊢
  have few := length_le_records codec entries
  have reads := reads_records roundTrip [] encodable fun entry member =>
    allocated (buffered codec entry) (List.mem_map_of_mem member)
  rw [List.nil_append] at reads
  have ended := readHeader_end (records codec entries)
  exact ⟨fun calls enough => readCalls_of_reads reads ended enough, scanFrom_of_reads reads ended isFile (by omega)⟩

/-- An entry without data and one with a byte of it. -/
private def sampleEntries : List Entry := [⟨1, 7, .normal, none⟩, ⟨2, 9, .normal, some [5]⟩]

private def sampleRecords : List BufferedEntry := sampleEntries.map (buffered (wireCodec []))

theorem two_records_read_back :
    readCalls (wireCodec []) (sampleRecords.flatMap BufferedEntry.data) 3 0 = sampleEntries.map .ok ++ [.error .eof] ∧
      scanLast (sampleRecords.flatMap BufferedEntry.data) = .ok 9 := by
  have encoded : sampleEntries.mapM (encodeBufferedEntry (wireCodec [])) = some sampleRecords := rfl
  obtain ⟨read, scanned⟩ := record_codec (wireCodec_lawful []).roundTrip encoded (by decide) (by decide)
  exact ⟨read 3 (Nat.lt_succ_self 2), scanned⟩

end Cue.Cluster
