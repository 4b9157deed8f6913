import MerkleBatch.Bytes
import MerkleBatch.Scalar

/-!
# The bytes of a scalar

A scalar in bytes is its representative, in 32 bytes with the least significant one first. Bytes
that stand for no representative are refused, not reduced.

* `Scalar.toBytes`, `Scalar.ofBytes?`: writing and reading.
* `bit_eq_byte`: the bits of a scalar are those of its bytes.
-/

namespace MerkleBatch.Scalar

/-- The number of bytes of a representative. -/
def byteLength : Nat := 32

/-- The bytes of a scalar, least significant first. -/
def toBytes (a : Scalar) : List UInt8 := Bytes.littleEndian byteLength a.val

/-- The scalar that bytes stand for. -/
def ofBytes? (bytes : List UInt8) : Option Scalar :=
  let value := Bytes.ofLittleEndian bytes
  if h : value < modulus then some ⟨value, h⟩ else none

@[simp]
theorem length_toBytes (a : Scalar) : a.toBytes.length = byteLength :=
  Bytes.length_littleEndian _ _

/-- A bit of a scalar stands in one of its bytes; it is not set beyond the last one. -/
theorem bit_eq_byte (a : Scalar) (j : Nat) :
    a.bit j = (a.toBytes[j / 8]?).any fun byte => byte.toNat.testBit (j % 8) := by
  by_cases hj : j / 8 < byteLength
  · rw [toBytes, Bytes.getElem?_littleEndian hj, Option.any_some, UInt8.toNat_ofNat',
      Nat.testBit_mod_two_pow, Nat.testBit_shiftRight, decide_eq_true (Nat.mod_lt j (by decide)),
      Bool.true_and, Nat.div_add_mod, bit]
  · have hbits : 255 ≤ j := by
      simp only [byteLength] at hj
      omega
    have hmodulus : modulus < 2 ^ 255 := Nat.one_shiftLeft 255 ▸ modulus_lt_shiftLeft_255
    have hlt : a.val < 2 ^ j := Nat.lt_of_lt_of_le (Nat.lt_trans a.val_lt hmodulus)
      (Nat.pow_le_pow_right (by decide) hbits)
    have hnone : a.toBytes[j / 8]? = none :=
      List.getElem?_eq_none (by rw [length_toBytes]; exact Nat.not_lt.mp hj)
    rw [hnone, bit, Nat.testBit_lt_two_pow hlt, Option.any_none]

end MerkleBatch.Scalar
