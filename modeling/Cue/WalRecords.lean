import Cue.Cluster.RaftSegment

/-! A segment file that holds whole records reads back as the entries they
encode, and scanning its headers finds the index of the last one. -/
namespace Cue.Cluster
open Cue.Lib Cue.Model

section Shape

variable (codec : Codec)

/-- The bytes of an entry's record. -/
def record (entry : Entry) : Bytes :=
  frame entry.index.toNat ((codec.marshal entry).getD [])

/-- The entry as the write buffer holds it. -/
def buffered (entry : Entry) : BufferedEntry := ⟨entry.index.toNat, record codec entry⟩

def records (entries : List Entry) : Bytes := entries.flatMap (record codec)

/-- Every entry of the list can be encoded. -/
def Encodable (entries : List Entry) : Prop := ∀ entry ∈ entries, (codec.marshal entry).isSome

@[simp] theorem records_nil : records codec [] = [] := rfl

@[simp] theorem records_cons (entry : Entry) (entries : List Entry) :
    records codec (entry :: entries) = record codec entry ++ records codec entries := rfl

@[simp] theorem records_append (first second : List Entry) :
    records codec (first ++ second) = records codec first ++ records codec second := by
  simp [records]

@[simp] theorem length_frame (index : Nat) (data : Bytes) : (frame index data).length = 16 + data.length := by
  simp [frame]
  omega

theorem length_record (entry : Entry) : 16 ≤ (record codec entry).length := by
  simp [record]

/-- A file has fewer records than bytes. -/
theorem length_le_records (entries : List Entry) : entries.length ≤ (records codec entries).length := by
  induction entries with
  | nil => rfl
  | cons entry entries ih =>
    have wide := length_record codec entry
    simp only [records_cons, List.length_cons, List.length_append]
    omega

end Shape

variable {codec : Codec}

theorem encodeBufferedEntry_some {entry : Entry} {be : BufferedEntry}
    (encoded : encodeBufferedEntry codec entry = some be) :
    be = buffered codec entry ∧ (codec.marshal entry).isSome := by
  unfold encodeBufferedEntry at encoded
  obtain ⟨data, marshalled, rfl⟩ := Option.map_eq_some_iff.mp encoded
  simp [buffered, record, marshalled]

/-! ### Reading one record -/

theorem readFull_at {before wanted after : Bytes} {n : Nat} (width : wanted.length = n) :
    readFull (before ++ (wanted ++ after)) before.length n = .ok wanted := by
  unfold readFull
  subst width
  by_cases nothing : wanted.length = 0
  · rw [if_pos nothing, List.length_eq_zero_iff.mp nothing]
  · rw [if_neg nothing]
    have some : wanted ++ after ≠ [] := by
      intro empty
      exact nothing (by rw [(List.append_eq_nil_iff.mp empty).1]; rfl)
    simp [some]

theorem readFull_error {file : Bytes} {pos n : Nat} {err : WalError} (failed : readFull file pos n = .error err) :
    err = .eof ∨ err = .unexpectedEOF := by
  dsimp only [readFull] at failed
  split at failed
  · cases failed
  · split at failed
    · exact .inl (Except.error.inj failed).symm
    · split at failed
      · exact .inr (Except.error.inj failed).symm
      · cases failed

theorem readHeader_error {file : Bytes} {pos : Nat} {err : WalError} (failed : readHeader file pos = .error err) :
    err = .eof ∨ err = .unexpectedEOF := by
  unfold readHeader at failed
  cases read : readFull file pos 16 with
  | error other =>
    rw [read] at failed
    obtain rfl := Except.error.inj failed
    exact readFull_error read
  | ok header => simp [read] at failed

theorem readHeader_inside {file : Bytes} {pos : Nat} {header : Nat × Nat} (read : readHeader file pos = .ok header) :
    pos < file.length := by
  by_contra beyond
  have nothing : file.drop pos = [] := List.drop_eq_nil_of_le (Nat.le_of_not_lt beyond)
  simp [readHeader, readFull, nothing] at read

theorem readHeader_header {before rest : Bytes} {total index : Nat} (wide : total < 2 ^ 64) (small : index < 2 ^ 64) :
    readHeader (before ++ (littleEndian 8 total ++ littleEndian 8 index ++ rest)) before.length =
      .ok (index, total) := by
  unfold readHeader
  rw [readFull_at (by simp)]
  have totalFits : total % 256 ^ 8 = total := Nat.mod_eq_of_lt (by omega)
  have indexFits : index % 256 ^ 8 = index := Nat.mod_eq_of_lt (by omega)
  dsimp only
  rw [List.drop_left' (length_littleEndian _ _), List.take_left' (length_littleEndian _ _),
    fromLittleEndian_littleEndian, fromLittleEndian_littleEndian, totalFits, indexFits]

theorem readHeader_at {before data after : Bytes} {index : Nat} (small : index < 2 ^ 64)
    (short : 16 + data.length < 2 ^ 64) :
    readHeader (before ++ (frame index data ++ after)) before.length = .ok (index, 16 + data.length) := by
  have split : frame index data ++ after =
      littleEndian 8 (16 + data.length) ++ littleEndian 8 index ++ (data ++ after) := by
    simp [frame]
  rw [split]
  exact readHeader_header short small

theorem readHeader_beyond {file : Bytes} {pos : Nat} (beyond : file.length ≤ pos) :
    readHeader file pos = .error .eof := by
  simp [readHeader, readFull, List.drop_eq_nil_of_le beyond]

theorem readHeader_end (file : Bytes) : readHeader file file.length = .error .eof :=
  readHeader_beyond (Nat.le_refl _)

theorem marshal_record {entry : Entry} (lawful : codec.Lawful) (encodable : (codec.marshal entry).isSome) :
    ∃ data, record codec entry = frame entry.index.toNat data ∧ codec.unmarshal data = some entry ∧
      data.length < 2 ^ 31 := by
  obtain ⟨data, marshalled⟩ := Option.isSome_iff_exists.mp encodable
  exact ⟨data, by simp [record, marshalled], lawful.roundTrip entry data marshalled,
    lawful.bounded entry data marshalled⟩

/-- A record whose payload can be allocated is read back as what its payload decodes to. -/
theorem readEntry_frame {before data after : Bytes} {entry : Entry} (decoded : codec.unmarshal data = some entry)
    (short : 16 + data.length ≤ maxAlloc) (room : data.length ≤ codec.memory) :
    readEntry codec (before ++ (frame entry.index.toNat data ++ after)) before.length =
      .ok (entry, (before ++ frame entry.index.toNat data).length) := by
  have small : entry.index.toNat < 2 ^ 64 := entry.index.toNat_lt
  have limit : maxAlloc < 2 ^ 64 := by
    unfold maxAlloc
    omega
  unfold readEntry
  rw [readHeader_at small (by omega)]
  have sane : ¬ (16 + data.length < 16 ∨ 16 + data.length > maxAlloc + 16) := by omega
  have fits : ¬ 16 + data.length > codec.memory + 16 := by omega
  simp only [if_neg sane, if_neg fits, Nat.add_sub_cancel_left]
  have position : before.length + 16 =
      (before ++ (littleEndian 8 (16 + data.length) ++ littleEndian 8 entry.index.toNat)).length := by
    simp
  have shape : before ++ (frame entry.index.toNat data ++ after) =
      (before ++ (littleEndian 8 (16 + data.length) ++ littleEndian 8 entry.index.toNat)) ++ (data ++ after) := by
    simp [frame]
  rw [position, shape, readFull_at rfl]
  simp [decoded, frame]
  omega

theorem readEntry_at {before after : Bytes} {entry : Entry} (lawful : codec.Lawful)
    (encodable : (codec.marshal entry).isSome) :
    readEntry codec (before ++ (record codec entry ++ after)) before.length =
      .ok (entry, (before ++ record codec entry).length) := by
  obtain ⟨data, same, decoded, short⟩ := marshal_record lawful encodable
  rw [same]
  have room := lawful.room
  refine readEntry_frame decoded ?_ (by omega)
  unfold maxAlloc
  omega

/-! ### Whole files -/

/-- Whole records are read one after the other, whatever follows them. -/
theorem readEntries_append (before after : Bytes) {entries : List Entry} (fuel : Nat) (lawful : codec.Lawful)
    (encodable : Encodable codec entries) :
    readEntries codec (before ++ (records codec entries ++ after)) (entries.length + fuel) before.length =
      (readEntries codec (before ++ (records codec entries ++ after)) fuel
        (before ++ records codec entries).length).map (entries ++ ·) := by
  induction entries generalizing before with
  | nil =>
    simp only [records_nil, List.append_nil, List.length_nil, Nat.zero_add, List.nil_append]
    cases readEntries codec (before ++ after) fuel before.length <;> rfl
  | cons entry entries ih =>
    have rest := ih (before ++ record codec entry) fun other member => encodable other (List.mem_cons_of_mem _ member)
    simp only [List.append_assoc] at rest
    rw [List.length_cons, Nat.add_right_comm, readEntries, records_cons, List.append_assoc,
      readEntry_at lawful (encodable entry List.mem_cons_self)]
    simp only [rest]
    cases readEntries codec (before ++ (record codec entry ++ (records codec entries ++ after))) fuel
      (before ++ (record codec entry ++ records codec entries)).length <;> rfl

theorem readFile_append (after : Bytes) {entries : List Entry} (lawful : codec.Lawful)
    (encodable : Encodable codec entries) : ∃ fuel,
    readFile codec (records codec entries ++ after) =
      (readEntries codec (records codec entries ++ after) (fuel + 1) (records codec entries).length).map
        (entries ++ ·) := by
  have few := length_le_records codec entries
  have enough : (records codec entries ++ after).length + 1 = entries.length +
      ((records codec entries ++ after).length - entries.length + 1) := by
    simp only [List.length_append]
    omega
  refine ⟨(records codec entries ++ after).length - entries.length, ?_⟩
  unfold readFile
  rw [enough]
  exact readEntries_append [] after _ lawful encodable

theorem readFile_records {entries : List Entry} (lawful : codec.Lawful) (encodable : Encodable codec entries) :
    readFile codec (records codec entries) = .ok entries := by
  obtain ⟨fuel, read⟩ := readFile_append [] lawful encodable
  rw [List.append_nil] at read
  have finished := readHeader_end (records codec entries)
  rw [read, readEntries, readEntry, finished]
  exact congrArg Except.ok (List.append_nil entries)

/-- The index of the last entry, or `last` if there is none. -/
def lastIndexOr (last : Nat) (entries : List Entry) : Nat :=
  (entries.getLast?.map fun entry => entry.index.toNat).getD last

@[simp] theorem lastIndexOr_nil (last : Nat) : lastIndexOr last [] = last := rfl

@[simp] theorem lastIndexOr_cons (last : Nat) (entry : Entry) (entries : List Entry) :
    lastIndexOr last (entry :: entries) = lastIndexOr entry.index.toNat entries := by
  cases entries with
  | nil => rfl
  | cons next entries =>
    obtain ⟨final, here⟩ : ∃ final, (next :: entries).getLast? = some final :=
      ⟨_, List.getLast?_eq_getLast_of_ne_nil (List.cons_ne_nil _ _)⟩
    simp only [lastIndexOr, List.getLast?_cons_cons, here, Option.map_some, Option.getD_some]

theorem lastIndexOr_append (last : Nat) (entries more : List Entry) :
    lastIndexOr last (entries ++ more) = lastIndexOr (lastIndexOr last entries) more := by
  induction entries generalizing last with
  | nil => rfl
  | cons entry entries ih => rw [List.cons_append, lastIndexOr_cons, lastIndexOr_cons, ih]

/-- Whole records are skipped one after the other, whatever follows them. -/
theorem scanFrom_append (before after : Bytes) {entries : List Entry} (fuel last : Nat) (lawful : codec.Lawful)
    (encodable : Encodable codec entries) (fits : (before ++ records codec entries).length < maxOffset) :
    scanFrom (before ++ (records codec entries ++ after)) (entries.length + fuel) before.length last =
      scanFrom (before ++ (records codec entries ++ after)) fuel (before ++ records codec entries).length
        (lastIndexOr last entries) := by
  induction entries generalizing before last with
  | nil => simp
  | cons entry entries ih =>
    obtain ⟨data, same, _, short⟩ := marshal_record lawful (encodable entry List.mem_cons_self)
    simp only [records_cons, ← List.append_assoc] at fits
    have rest := ih (before ++ record codec entry) entry.index.toNat
      (fun other member => encodable other (List.mem_cons_of_mem _ member)) fits
    simp only [List.append_assoc] at rest
    simp only [List.length_append, same, length_frame] at fits
    have header : readHeader (before ++ (record codec entry ++ (records codec entries ++ after))) before.length =
        .ok (entry.index.toNat, 16 + data.length) := by
      rw [same]
      exact readHeader_at entry.index.toNat_lt (by omega)
    have target : skipRecord before.length (16 + data.length) = .ok (before ++ record codec entry).length := by
      simp only [skipRecord, same, List.length_append, length_frame]
      rw [if_pos (by omega), if_pos (by omega)]
    rw [List.length_cons, Nat.add_right_comm, scanFrom, records_cons, List.append_assoc, header]
    simp only [target, rest, lastIndexOr_cons]

theorem scanLast_append (after : Bytes) {entries : List Entry} (lawful : codec.Lawful)
    (encodable : Encodable codec entries) (fits : (records codec entries).length < maxOffset) : ∃ fuel,
    scanLast (records codec entries ++ after) = scanFrom (records codec entries ++ after) (fuel + 2)
      (records codec entries).length (lastIndexOr 0 entries) := by
  have few := length_le_records codec entries
  have enough : (records codec entries ++ after).length + 2 = entries.length +
      ((records codec entries ++ after).length - entries.length + 2) := by
    simp only [List.length_append]
    omega
  refine ⟨(records codec entries ++ after).length - entries.length, ?_⟩
  unfold scanLast
  rw [enough]
  exact scanFrom_append [] after _ 0 lawful encodable fits

theorem scanLast_records {entries : List Entry} (lawful : codec.Lawful) (encodable : Encodable codec entries)
    (fits : (records codec entries).length < maxOffset) :
    scanLast (records codec entries) = .ok (lastIndexOr 0 entries) := by
  obtain ⟨fuel, scanned⟩ := scanLast_append [] lawful encodable fits
  rw [List.append_nil] at scanned
  rw [scanned, scanFrom, readHeader_end]

end Cue.Cluster
