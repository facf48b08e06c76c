import Cue.Cluster.RaftSegment

/-! `raftpb.Entry` on the wire: the fields in the order of their numbers, each
behind its tag. It meets what is assumed of the encodings, and runs on given
entries are computed with it. Reading takes the fields in the order in which
they are written only. -/
namespace Cue.Cluster
open Cue.Lib Cue.Model

def EntryType.number : EntryType → Nat
  | .normal => 0
  | .confChange => 1
  | .confChangeV2 => 2
  | .other n => n

def EntryType.ofNumber : Nat → EntryType
  | 0 => .normal
  | 1 => .confChange
  | 2 => .confChangeV2
  | n => .other n

/-- Tag and value of a field of type varint. -/
def varintField (tag : UInt8) (n : Nat) : Bytes := tag :: varint 10 n

def dataField : Option Bytes → Bytes
  | none => []
  | some data => 0x22 :: (varint 10 data.length ++ data)

def wireBytes (entry : Entry) : Bytes :=
  varintField 0x08 entry.type.number ++ varintField 0x10 entry.term.toNat ++
    varintField 0x18 entry.index.toNat ++ dataField entry.data

/-- An entry type out of its range or a message of 2 GiB is refused. -/
def marshalEntry (entry : Entry) : Option Bytes :=
  if EntryType.ofNumber entry.type.number = entry.type ∧ entry.type.number < 2 ^ 31 ∧
      (wireBytes entry).length < 2 ^ 31 then some (wireBytes entry) else none

def readVarintField (tag : UInt8) : Bytes → Option (Nat × Bytes)
  | [] => none
  | byte :: bytes => if byte = tag then readVarint 10 bytes else none

def readDataField : Bytes → Option (Option Bytes)
  | [] => some none
  | byte :: bytes =>
    if byte = 0x22 then
      match readVarint 10 bytes with
      | some (size, data) => if data.length = size then some (some data) else none
      | none => none
    else none

def unmarshalEntry (bytes : Bytes) : Option Entry := do
  let (type, bytes) ← readVarintField 0x08 bytes
  let (term, bytes) ← readVarintField 0x10 bytes
  let (index, bytes) ← readVarintField 0x18 bytes
  let data ← readDataField bytes
  some ⟨UInt64.ofNat term, UInt64.ofNat index, EntryType.ofNumber type, data⟩

/-- The codec with a table in place of the encoding of commands, and 4 GiB. -/
def wireCodec (commands : List (Bytes × Command)) : Codec where
  marshal := marshalEntry
  unmarshal := unmarshalEntry
  command bytes := (commands.find? fun pair => pair.1 = bytes).map Prod.snd
  marshalCommand cmd :=
    match commands.find? fun pair => some pair.2 = cmd.onWire with
    | some pair => .ok pair.1
    | none => .error "not in the table"
  memory := 2 ^ 32

private theorem readVarintField_field (tag : UInt8) {n : Nat} (fits : n < 2 ^ 64) (rest : Bytes) :
    readVarintField tag (varintField tag n ++ rest) = some (n, rest) := by
  have wide : n < 128 ^ 10 := fits.trans (by decide)
  simp only [varintField, List.cons_append, readVarintField, ↓reduceIte]
  exact readVarint_varint (by decide) wide rest

private theorem readDataField_field {data : Option Bytes} (short : (dataField data).length < 2 ^ 31) :
    readDataField (dataField data) = some data := by
  cases data with
  | none => rfl
  | some data =>
    have wide : data.length < 128 ^ 10 := by
      simp only [dataField, List.length_cons, List.length_append] at short
      have : (2 : Nat) ^ 31 < 128 ^ 10 := by decide
      omega
    simp [dataField, readDataField, readVarint_varint (by decide) wide]

theorem unmarshal_marshal {entry : Entry} {bytes : Bytes} (marshalled : marshalEntry entry = some bytes) :
    unmarshalEntry bytes = some entry := by
  unfold marshalEntry at marshalled
  split at marshalled
  · rename_i sane
    obtain ⟨canonical, small, short⟩ := sane
    cases marshalled
    have type : entry.type.number < 2 ^ 64 := small.trans (by decide)
    have data : (dataField entry.data).length < 2 ^ 31 := by
      simp only [wireBytes, List.length_append] at short
      omega
    simp only [unmarshalEntry, wireBytes, List.append_assoc, readVarintField_field _ type,
      readVarintField_field _ entry.term.toNat_lt, readVarintField_field _ entry.index.toNat_lt,
      readDataField_field data, Option.bind_eq_bind, Option.bind_some]
    simp [canonical]
  · cases marshalled

theorem wireCodec_lawful (commands : List (Bytes × Command)) : (wireCodec commands).Lawful := by
  refine ⟨fun entry bytes => unmarshal_marshal, ?_, (by decide : 2 ^ 31 ≤ 2 ^ 32)⟩
  intro entry bytes marshalled
  simp only [wireCodec, marshalEntry] at marshalled
  split at marshalled
  · rename_i sane
    cases marshalled
    exact sane.2.2
  · cases marshalled

/-- A table in which no message occurs twice reads its commands back. -/
theorem wireCodec_lawfulCommands {commands : List (Bytes × Command)} (distinct : (commands.map Prod.fst).Nodup) :
    (wireCodec commands).LawfulCommands := by
  refine ⟨fun cmd bytes marshalled => ?_⟩
  simp only [wireCodec] at marshalled
  split at marshalled
  case h_2 => cases marshalled
  rename_i pair found
  cases marshalled
  have wire : some pair.2 = cmd.onWire := by simpa using List.find?_some found
  refine ⟨pair.2, wire.symm, ?_⟩
  have member := List.mem_of_find?_eq_some found
  cases located : commands.find? fun other => other.1 = pair.1 with
  | none => simpa using List.find?_eq_none.mp located pair member
  | some other =>
    have same : other.1 = pair.1 := by simpa using List.find?_some located
    have unique := List.inj_on_of_nodup_map distinct (List.mem_of_find?_eq_some located) member same
    simp [wireCodec, located, unique]

/-! ### Commands on given jobs -/

/-- `[Type, ProposeID, ` in `msgpack`. -/
def messageHeader (type proposeID : UInt8) : Bytes := [0x93, 0xcc, type, 0xcf, 0, 0, 0, 0, 0, 0, 0, proposeID]

/-- `"topic"` and a name of one letter. -/
def topicField (letter : UInt8) : Bytes := [0xa5, 0x74, 0x6f, 0x70, 0x69, 0x63, 0xa1, letter]

/-- A text of one letter, with its byte. -/
structure Letter where
  text : String
  byte : UInt8

def Letter.a : Letter := ⟨"a", 0x61⟩
def Letter.b : Letter := ⟨"b", 0x62⟩
def Letter.c : Letter := ⟨"c", 0x63⟩
def Letter.t : Letter := ⟨"t", 0x74⟩

/-- An `AddJobs` command for one job without data, and its encoding. -/
def addMessage (proposeID : UInt8) (topic id : Letter) : Bytes × Command :=
  (messageHeader 4 proposeID ++ [0x82] ++ topicField topic.byte ++ [0xa4, 0x6a, 0x6f, 0x62, 0x73, 0x91, 0x83] ++
    [0xa2, 0x69, 0x64, 0xa1, id.byte] ++ topicField topic.byte ++ [0xa4, 0x64, 0x61, 0x74, 0x61, 0xc0],
  { type := .addJobs, proposeID := proposeID.toUInt64,
    addJobs := some ⟨topic.text, [⟨id.text, topic.text, [], false, 0⟩]⟩ })

/-- A `Done` command for one job, and its encoding. -/
def doneMessage (proposeID : UInt8) (topic id : Letter) : Bytes × Command :=
  (messageHeader 5 proposeID ++ [0x82] ++ topicField topic.byte ++
    [0xa7, 0x6a, 0x6f, 0x62, 0x5f, 0x69, 0x64, 0x73, 0x91, 0xa1, id.byte],
  { type := .done, proposeID := proposeID.toUInt64, done := some ⟨topic.text, [id.text]⟩ })

/-- The messages as the normal entries of a log that starts at `first`. -/
def messageEntries (first : Nat) (messages : List (Bytes × Command)) : List Entry :=
  messages.mapIdx fun i message => ⟨1, UInt64.ofNat (first + i), .normal, some message.1⟩

/-- A result that was evaluated. -/
theorem ok_of_toOption {E A : Type} {result : Except E A} (present : result.toOption.isSome = true) :
    result = .ok (Option.get _ present) := by
  cases result with
  | error err => cases present
  | ok value => rfl

end Cue.Cluster
