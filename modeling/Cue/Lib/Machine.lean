import Mathlib.Algebra.Group.Int.Defs
import Mathlib.Algebra.Group.Nat.Defs

/-! Fixed-width integers over `Nat` and `Int`: wrap-around, bytes in
little-endian order, and numbers in groups of seven bits. -/
namespace Cue.Lib

/-- Wrap-around of a non-negative number in 32 bits. -/
def uint32 (n : Nat) : Nat := n % 2 ^ 32

/-- Two's complement wrap-around in 64 bits. -/
def int64 (n : Int) : Int := n.bmod (2 ^ 64)

/-- The lowest `width` bytes, lowest first. -/
def littleEndian : Nat → Nat → List UInt8
  | 0, _ => []
  | width + 1, n => UInt8.ofNat n :: littleEndian width (n / 256)

def fromLittleEndian : List UInt8 → Nat
  | [] => 0
  | byte :: bytes => byte.toNat + 256 * fromLittleEndian bytes

@[simp] theorem length_littleEndian (width n : Nat) : (littleEndian width n).length = width := by
  induction width generalizing n with
  | zero => rfl
  | succ width ih => simp [littleEndian, ih]

theorem fromLittleEndian_littleEndian (width n : Nat) :
    fromLittleEndian (littleEndian width n) = n % 256 ^ width := by
  induction width generalizing n with
  | zero => simp [littleEndian, fromLittleEndian, Nat.mod_one]
  | succ width ih =>
    have byte : (UInt8.ofNat n).toNat = n % 256 := UInt8.toNat_ofNat'
    rw [littleEndian, fromLittleEndian, ih, byte, Nat.pow_succ', Nat.mod_mul]

/-- At most `width` groups of seven bits, lowest first; all but the last have the top bit set. -/
def varint : Nat → Nat → List UInt8
  | 0, _ => []
  | width + 1, n => if n < 128 then [UInt8.ofNat n] else UInt8.ofNat (n % 128 + 128) :: varint width (n / 128)

/-- The number that the groups at the front stand for, and what follows them. -/
def readVarint : Nat → List UInt8 → Option (Nat × List UInt8)
  | 0, _ => none
  | _ + 1, [] => none
  | width + 1, byte :: bytes =>
    if byte.toNat < 128 then some (byte.toNat, bytes)
    else (readVarint width bytes).map fun (high, rest) => (byte.toNat - 128 + 128 * high, rest)

theorem readVarint_varint {width n : Nat} (positive : 0 < width) (fits : n < 128 ^ width) (rest : List UInt8) :
    readVarint width (varint width n ++ rest) = some (n, rest) := by
  induction width generalizing n with
  | zero => exact absurd positive (Nat.lt_irrefl 0)
  | succ width ih =>
    rw [varint]
    by_cases single : n < 128
    · have byte : (UInt8.ofNat n).toNat = n := by
        rw [UInt8.toNat_ofNat']
        omega
      simp [readVarint, byte, single]
    · have byte : (UInt8.ofNat (n % 128 + 128)).toNat = n % 128 + 128 := by
        rw [UInt8.toNat_ofNat']
        omega
      have high : n / 128 < 128 ^ width := by
        rw [Nat.pow_succ'] at fits
        omega
      have more : 0 < width := by
        rcases Nat.eq_zero_or_pos width with rfl | positive
        · rw [Nat.zero_add, Nat.pow_one] at fits
          exact absurd fits single
        · exact positive
      have many : ¬ n % 128 + 128 < 128 := by omega
      rw [if_neg single, List.cons_append, readVarint, byte, if_neg many, ih more high]
      simp only [Option.map_some, Option.some.injEq, Prod.mk.injEq, and_true]
      omega

end Cue.Lib
