/-!
# Leaf indices

A leaf of a tree is named by its index, a word of 64 bits; its bits, least significant first, say
at each level of the path to the root on which side the path comes in. A shift of a word by 64
places or more has no result: the computation that asks for it stops.

* `Overflow`: the two directions of such a shift.
* `Index.bits`, `Index.ofBits`: an index as bits and back.
* `Index.fits`: whether a tree of some depth has a leaf with an index.
* `length_bits`, `getElem_bits`: how many bits there are, and which.
-/

namespace MerkleBatch

/-- The number of bits of an index. -/
def wordBits : Nat := 64

/-- A shift of a word by at least its own width. -/
inductive Overflow where
  | shiftLeft
  | shiftRight
deriving DecidableEq, Inhabited

namespace Overflow

/-- The wording of the two. -/
def message : Overflow → String
  | shiftLeft => "attempt to shift left with overflow"
  | shiftRight => "attempt to shift right with overflow"

end Overflow

namespace Index

/-- The lowest `depth` bits of an index, least significant first. -/
def bits (index : UInt64) (depth : Nat) : List Bool :=
  (List.range depth).map fun j => index.toNat.testBit j

/-- The number whose bits are given, least significant first. -/
def value : List Bool → Nat
  | [] => 0
  | b :: rest => b.toNat + 2 * value rest

/-- The index whose bits are given, least significant first. A set bit that no word has stops the
computation. -/
def ofBits (bs : List Bool) : Except Overflow UInt64 :=
  if (bs.drop wordBits).any id then .error .shiftLeft else .ok (UInt64.ofNat (value bs))

/-- Whether a tree of the given depth has a leaf with this index. From depth 64 on every word is
one. -/
def fits (index depth : Nat) : Bool := wordBits ≤ depth || index < 1 <<< depth

@[simp]
theorem length_bits (index : UInt64) (depth : Nat) : (bits index depth).length = depth := by
  simp [bits]

theorem getElem_bits {index : UInt64} {depth j : Nat} (h : j < (bits index depth).length) :
    (bits index depth)[j] = index.toNat.testBit j := by
  simp [bits]

theorem fits_iff {index depth : Nat} (h : index < 1 <<< wordBits) :
    fits index depth = true ↔ index < 1 <<< depth := by
  simp only [fits, Bool.or_eq_true, decide_eq_true_eq, or_iff_right_iff_imp]
  intro hd
  rw [Nat.one_shiftLeft] at h ⊢
  exact Nat.lt_of_lt_of_le h (Nat.pow_le_pow_right (by decide) hd)

end Index

end MerkleBatch
