import Cue.Lib.Machine

/-! A self-describing encoding, as far as hand-written codecs of tagged unions
use it: numbers, `nil`, and arrays of elements that are encoded or decoded one by
one. How a structure is encoded is a `Format` of its own. -/
namespace Cue.Lib

/-- `Marshal` and `Unmarshal` for the values of one type. -/
structure Format (A : Type) where
  marshal : A → Except String (List UInt8)
  unmarshal : List UInt8 → Except String A

namespace Format

variable {A : Type}

/-- The encoding of what a pointer points to. -/
def present (format : Format A) (missing : String) : Option A → Except String (List UInt8)
  | none => .error missing
  | some a => format.marshal a

theorem isSome_of_present {format : Format A} {missing : String} {field : Option A} {bytes : List UInt8}
    (written : format.present missing field = .ok bytes) : field.isSome = true := by
  cases field with
  | none => cases written
  | some a => rfl

/-- Decoding with an error that says what was decoded. -/
def read (format : Format A) (context : String) (raw : List UInt8) : Except String A :=
  match format.unmarshal raw with
  | .error err => .error (context ++ ": " ++ err)
  | .ok a => .ok a

theorem read_eq_ok {format : Format A} {context : String} {raw : List UInt8} {a : A} :
    format.read context raw = .ok a ↔ format.unmarshal raw = .ok a := by
  unfold read
  cases format.unmarshal raw <;> simp

theorem map_read_eq_ok {B : Type} {format : Format A} {context : String} {raw : List UInt8} {build : A → B} {b : B} :
    (format.read context raw).map build = .ok b ↔ ∃ a, format.unmarshal raw = .ok a ∧ build a = b := by
  unfold read
  cases format.unmarshal raw <;> simp [Except.map]

/-- The values in a table, each with its encoding. -/
def table [DecidableEq A] (rows : List (A × List UInt8)) : Format A where
  marshal a :=
    match rows.find? fun row => row.1 = a with
    | some row => .ok row.2
    | none => .error "not in the table"
  unmarshal raw :=
    match rows.find? fun row => row.2 = raw with
    | some row => .ok row.1
    | none => .error "not in the table"

end Format

structure Msgpack where
  /-- the encoding of one whole value -/
  IsValue : List UInt8 → Prop
  uint8 : Format UInt8
  uint64 : Format UInt64
  nil : List UInt8
  /-- an array of values that are encoded already -/
  array : List (List UInt8) → List UInt8
  /-- the elements of an array that has at most so many -/
  unmarshalArray : Nat → List UInt8 → Except String (List (List UInt8))
  /-- the first value, whatever follows it -/
  first : List UInt8 → Except String (List UInt8)

namespace Msgpack

variable {A : Type} {mp : Msgpack}

/-- Encoding `a` succeeds and gives one value, which is decoded to `b`. -/
def RoundTrips (mp : Msgpack) (format : Format A) (a b : A) : Prop :=
  ∃ bytes, format.marshal a = .ok bytes ∧ mp.IsValue bytes ∧ format.unmarshal bytes = .ok b

/-- Numbers, and the elements of a short array, are decoded as they were encoded. -/
structure Lawful (mp : Msgpack) : Prop where
  uint8 : ∀ n, mp.RoundTrips mp.uint8 n n
  uint64 : ∀ n, mp.RoundTrips mp.uint64 n n
  nil : mp.IsValue mp.nil
  array : ∀ elems, elems.length < 16 → (∀ elem ∈ elems, mp.IsValue elem) → mp.IsValue (mp.array elems)
  elements : ∀ elems, elems.length < 16 → (∀ elem ∈ elems, mp.IsValue elem) →
    mp.unmarshalArray elems.length (mp.array elems) = .ok elems
  first : ∀ value, mp.IsValue value → mp.first value = .ok value

/-- `Marshal` of an array, which fails with the first element that does. -/
def marshalArray (mp : Msgpack) (elems : List (Except String (List UInt8))) : Except String (List UInt8) :=
  match elems.mapM id with
  | .error err => .error err
  | .ok elems => .ok (mp.array elems)

theorem marshalArray_ok (mp : Msgpack) (elems : List (List UInt8)) :
    mp.marshalArray (elems.map .ok) = .ok (mp.array elems) := by
  have all : (elems.map Except.ok).mapM id = (.ok elems : Except String _) := by
    induction elems with
    | nil => rfl
    | cons elem elems ih =>
      rw [List.map_cons, List.mapM_cons, ih]
      rfl
  rw [marshalArray, all]

/-- One case of an encoder and a decoder that switch over a tag: the payload of the
case is written if it is there, and read into the result that `build` makes of it. -/
theorem present_read {B : Type} {format : Format A} {missing context : String} {field : Option A} {read : A → A}
    {build : A → B} (carries : ∀ payload ∈ field, mp.RoundTrips format payload (read payload))
    (there : field.isSome = true) :
    ∃ raw payload, field = some payload ∧ format.present missing field = .ok raw ∧ mp.IsValue raw ∧
      (format.read context raw).map build = .ok (build (read payload)) := by
  obtain ⟨payload, rfl⟩ := Option.isSome_iff_exists.mp there
  obtain ⟨raw, written, value, decoded⟩ := carries payload rfl
  refine ⟨raw, payload, rfl, written, value, ?_⟩
  rw [Format.read_eq_ok.mpr decoded]
  rfl

/-! ### Unions -/

/-- A union is an array of its tag and the payload that the tag selects. -/
def marshalUnion (mp : Msgpack) (tag : UInt8) (payload : Except String (List UInt8)) : Except String (List UInt8) :=
  match payload with
  | .error err => .error err
  | .ok payload => mp.marshalArray [mp.uint8.marshal tag, .ok payload]

/-- An element that the array does not have is empty. -/
def unmarshalUnion {B : Type} (mp : Msgpack) (data : List UInt8) (decode : UInt8 → List UInt8 → Except String B) :
    Except String B :=
  match mp.unmarshalArray 2 data with
  | .error err => .error ("unmarshal array: " ++ err)
  | .ok arr =>
    match mp.uint8.read "unmarshal type" (arr.getD 0 []) with
    | .error err => .error err
    | .ok tag => decode tag (arr.getD 1 [])

theorem unmarshalUnion_ok {B : Type} {data : List UInt8} {decode : UInt8 → List UInt8 → Except String B} {b : B}
    (decoded : mp.unmarshalUnion data decode = .ok b) : ∃ tag payload, decode tag payload = .ok b := by
  unfold unmarshalUnion at decoded
  split at decoded
  · cases decoded
  · split at decoded
    · cases decoded
    · exact ⟨_, _, decoded⟩

theorem marshalUnion_ok {B : Type} (lawful : mp.Lawful) (tag : UInt8) {payload : List UInt8}
    (value : mp.IsValue payload) :
    ∃ data, mp.marshalUnion tag (.ok payload) = .ok data ∧ mp.IsValue data ∧
      ∀ decode : UInt8 → List UInt8 → Except String B, mp.unmarshalUnion data decode = decode tag payload := by
  obtain ⟨type, written, typeValue, decoded⟩ := lawful.uint8 tag
  have values : ∀ elem ∈ [type, payload], mp.IsValue elem := by simp [typeValue, value]
  refine ⟨mp.array [type, payload], ?_, lawful.array _ (by simp) values, fun decode => ?_⟩
  · rw [marshalUnion, written]
    exact mp.marshalArray_ok [type, payload]
  · have elements : mp.unmarshalArray 2 (mp.array [type, payload]) = .ok [type, payload] :=
      lawful.elements _ (by simp) values
    have first : mp.uint8.read "unmarshal type" type = .ok tag := Format.read_eq_ok.mpr decoded
    simp only [unmarshalUnion, elements, List.getD_cons_zero, List.getD_cons_succ, first]

/-! ### The encoding -/

/-- What follows the first byte of a value: so many values, so many bytes, and whether a
byte with the number of bytes comes before them. Wider numbers, and strings and arrays
whose length needs more, are left out. -/
def header (code : UInt8) : Option (Nat × Nat × Bool) :=
  if code < 0x80 then some (0, 0, false)
  else if code < 0x90 then some (2 * (code - 0x80).toNat, 0, false)
  else if code < 0xa0 then some ((code - 0x90).toNat, 0, false)
  else if code < 0xc0 then some (0, (code - 0xa0).toNat, false)
  else if code = 0xc0 ∨ code = 0xc2 ∨ code = 0xc3 ∨ 0xe0 ≤ code then some (0, 0, false)
  else if code = 0xc4 ∨ code = 0xd9 then some (0, 0, true)
  else if code = 0xcc then some (0, 1, false)
  else if code = 0xcf then some (0, 8, false)
  else none

/-- What is left behind so many bytes, with or without the number of them, and so many
values. -/
def skip : Nat → Nat → Bool → List UInt8 → Option (List UInt8)
  | 0, 0, false, bytes => some bytes
  | _, _, _, [] => none
  | values, raw + 1, counted, _ :: bytes => skip values raw counted bytes
  | values, 0, true, count :: bytes => skip values count.toNat false bytes
  | values + 1, 0, false, code :: bytes =>
    match header code with
    | none => none
    | some (more, raw, counted) => skip (values + more) raw counted bytes

theorem skip_append {values raw : Nat} {counted : Bool} {bytes : List UInt8}
    (whole : skip values raw counted bytes = some []) (others : Nat) (rest : List UInt8) :
    skip (values + others) raw counted (bytes ++ rest) = skip others 0 false rest := by
  fun_induction skip values raw counted bytes with
  | case1 bytes =>
    cases whole
    simp
  | case2 => cases whole
  | case3 values raw counted byte bytes ih => simpa [skip] using ih whole
  | case4 values count bytes ih => simpa [skip] using ih whole
  | case5 values code bytes unknown => cases whole
  | case6 values code bytes more raw counted known ih =>
    rw [Nat.add_right_comm values 1 others, List.cons_append, skip, known, ← ih whole, Nat.add_right_comm]

theorem skip_raw (bytes : List UInt8) : skip 0 bytes.length false bytes = some [] := by
  induction bytes with
  | nil => rfl
  | cons byte bytes ih => simpa [skip] using ih

theorem skip_values (elems : List (List UInt8)) (values : ∀ elem ∈ elems, skip 1 0 false elem = some []) :
    skip elems.length 0 false elems.flatten = some [] := by
  induction elems with
  | nil => rfl
  | cons elem elems ih =>
    rw [List.length_cons, Nat.add_comm, List.flatten_cons, skip_append (values elem (by simp))]
    exact ih fun other member => values other (List.mem_cons_of_mem elem member)

def takeValue (bytes : List UInt8) : Except String (List UInt8) :=
  match skip 1 0 false bytes with
  | none => .error "EOF"
  | some rest => .ok (bytes.take (bytes.length - rest.length))

theorem takeValue_append {value : List UInt8} (whole : skip 1 0 false value = some []) (rest : List UInt8) :
    takeValue (value ++ rest) = .ok value := by
  have left : skip 1 0 false (value ++ rest) = some rest := by
    rw [show 1 = 1 + 0 from rfl, skip_append whole]
    simp [skip]
  simp [takeValue, left]

def takeValues : Nat → List UInt8 → Except String (List (List UInt8))
  | 0, _ => .ok []
  | n + 1, bytes =>
    match takeValue bytes with
    | .error err => .error err
    | .ok value => (takeValues n (bytes.drop value.length)).map (value :: ·)

theorem takeValues_flatten (elems : List (List UInt8)) (values : ∀ elem ∈ elems, skip 1 0 false elem = some []) :
    takeValues elems.length elems.flatten = .ok elems := by
  induction elems with
  | nil => rfl
  | cons elem elems ih =>
    rw [List.length_cons, List.flatten_cons, takeValues, takeValue_append (values elem (by simp))]
    simp [ih fun other member => values other (List.mem_cons_of_mem elem member), Except.map]

theorem array_code : ∀ n < 16, header (UInt8.ofNat (0x90 + n)) = some (n, 0, false) ∧
    UInt8.ofNat (0x90 + n) ≠ 0xc0 ∧ ¬ (UInt8.ofNat (0x90 + n) < 0x90 ∨ 0xa0 ≤ UInt8.ofNat (0x90 + n)) ∧
    (UInt8.ofNat (0x90 + n) - 0x90).toNat = n := by
  decide

/-- Numbers of one byte are read in both their forms. -/
def takeUint8 : List UInt8 → Except String UInt8
  | [0xcc, n] => .ok n
  | [n] => if n < 0x80 then .ok n else .error "invalid code"
  | _ => .error "invalid code"

def takeUint64 : List UInt8 → Except String UInt64
  | 0xcf :: bytes => if bytes.length = 8 then .ok (.ofNat (fromLittleEndian bytes.reverse)) else .error "EOF"
  | [n] => if n < 0x80 then .ok n.toUInt64 else .error "invalid code"
  | _ => .error "invalid code"

def takeArray (most : Nat) : List UInt8 → Except String (List (List UInt8))
  | [] => .error "EOF"
  | code :: bytes =>
    if code = 0xc0 then .ok []
    else if code < 0x90 ∨ 0xa0 ≤ code then .error "invalid code"
    else if most < (code - 0x90).toNat then .error "array too long"
    else takeValues (code - 0x90).toNat bytes

/-- The encoding, as far as it is used here. -/
def compact : Msgpack where
  IsValue bytes := skip 1 0 false bytes = some []
  uint8 := ⟨fun n => .ok [0xcc, n], takeUint8⟩
  uint64 := ⟨fun n => .ok (0xcf :: (littleEndian 8 n.toNat).reverse), takeUint64⟩
  nil := [0xc0]
  array elems := UInt8.ofNat (0x90 + elems.length) :: elems.flatten
  unmarshalArray := takeArray
  first := takeValue

theorem compact_lawful : compact.Lawful where
  uint8 n := ⟨_, rfl, rfl, rfl⟩
  uint64 n := by
    have small : n.toNat % 256 ^ 8 = n.toNat := Nat.mod_eq_of_lt n.toNat_lt
    refine ⟨_, rfl, ?_, ?_⟩
    · have raw := skip_raw (littleEndian 8 n.toNat).reverse
      rwa [List.length_reverse, length_littleEndian] at raw
    · show takeUint64 (0xcf :: (littleEndian 8 n.toNat).reverse) = .ok n
      simp only [takeUint64, List.length_reverse, length_littleEndian, List.reverse_reverse,
        fromLittleEndian_littleEndian, small, UInt64.ofNat_toNat, ↓reduceIte]
  nil := rfl
  array elems short values := by
    show skip 1 0 false (UInt8.ofNat (0x90 + elems.length) :: elems.flatten) = some []
    rw [skip, (array_code elems.length short).1]
    simpa using skip_values elems values
  elements elems short values := by
    obtain ⟨-, notNil, inside, count⟩ := array_code elems.length short
    show takeArray elems.length (UInt8.ofNat (0x90 + elems.length) :: elems.flatten) = .ok elems
    simp only [takeArray, notNil, inside, count, ↓reduceIte, Nat.lt_irrefl]
    exact takeValues_flatten elems values
  first value whole := by
    have taken := takeValue_append whole []
    rwa [List.append_nil] at taken

end Msgpack
end Cue.Lib
