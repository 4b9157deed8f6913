import MerkleBatch.Index
import Mathlib.Algebra.Group.Nat.Defs
import Mathlib.Data.Nat.Bitwise

/-!
# Numbers and their bits

The bits of a number, least significant first, by halving it again and again; a path from a leaf
halves its position in the same way.

* `value_lowBits`: the lowest bits of a number stand for its remainder.
* `lowBits_value`: bits are the lowest bits of the number that they stand for.
* `bits_eq_lowBits`: the bits of an index are those of its number.
* `ofBits_bits`: the lowest bits of an index are the index of its remainder.
* `PartAt`: the highest bit in which two numbers differ; their paths part there.
-/

namespace MerkleBatch.Index

theorem div_two_pow_div_two (n level : Nat) : n / 2 ^ level / 2 = n / 2 ^ (level + 1) := by
  rw [Nat.pow_succ, Nat.div_div_eq_div_mul]

theorem div_two_div_two_pow (n level : Nat) : n / 2 / 2 ^ level = n / 2 ^ (level + 1) := by
  rw [Nat.pow_succ', Nat.div_div_eq_div_mul]

/-- The lowest `count` bits of a number, least significant first. -/
def lowBits (n : Nat) : Nat → List Bool
  | 0 => []
  | count + 1 => n.testBit 0 :: lowBits (n / 2) count

private theorem toNat_testBit_zero (n : Nat) : (n.testBit 0).toNat = n % 2 := by
  rw [Nat.testBit_zero]
  rcases Nat.mod_two_eq_zero_or_one n with h | h <;> simp [h]

theorem value_lowBits (n count : Nat) : value (lowBits n count) = n % 2 ^ count := by
  induction count generalizing n with
  | zero => simp [lowBits, value, Nat.mod_one]
  | succ count ih =>
    rw [lowBits, value, ih, toNat_testBit_zero, Nat.pow_succ', Nat.mod_mul]

theorem value_lt (bs : List Bool) : value bs < 2 ^ bs.length := by
  induction bs with
  | nil => simp [value]
  | cons b rest ih =>
    have hb : b.toNat ≤ 1 := Bool.toNat_le b
    rw [value, List.length_cons, Nat.pow_succ']
    omega

theorem lowBits_value (bs : List Bool) : lowBits (value bs) bs.length = bs := by
  induction bs with
  | nil => rfl
  | cons b rest ih =>
    have hbit : (value (b :: rest)).testBit 0 = b := by
      rw [value, Nat.testBit_zero]
      cases b <;> simp
    have hhalf : value (b :: rest) / 2 = value rest := by
      have hb : b.toNat ≤ 1 := Bool.toNat_le b
      rw [value]
      omega
    rw [List.length_cons, lowBits, hbit, hhalf, ih]

/-- Bits that stand for a number are its lowest bits. -/
theorem eq_lowBits_of_value_eq {bs : List Bool} {n : Nat} (h : value bs = n) :
    bs = lowBits n bs.length := by
  rw [← h, lowBits_value]

theorem lowBits_eq_map (n count : Nat) :
    lowBits n count = (List.range count).map fun j => n.testBit j := by
  induction count generalizing n with
  | zero => rfl
  | succ count ih =>
    rw [lowBits, ih, List.range_succ_eq_map, List.map_cons, List.map_map]
    congr 2
    funext j
    simp [Nat.testBit_succ]

theorem bits_eq_lowBits (index : UInt64) (depth : Nat) :
    bits index depth = lowBits index.toNat depth := (lowBits_eq_map _ _).symm

/-- The lowest bits of an index, however many, make an index again. -/
theorem ofBits_bits (index : UInt64) (depth : Nat) :
    ofBits (bits index depth) = .ok (UInt64.ofNat (index.toNat % 2 ^ depth)) := by
  have hword : ((bits index depth).drop wordBits).any id = false := by
    rw [List.any_eq_false]
    intro b hb
    obtain ⟨j, hj, rfl⟩ := List.mem_iff_getElem.mp hb
    have hpow : 2 ^ wordBits ≤ 2 ^ (wordBits + j) :=
      Nat.pow_le_pow_right (by decide) (Nat.le_add_right _ _)
    rw [List.getElem_drop, getElem_bits, id_eq,
      Nat.testBit_lt_two_pow (Nat.lt_of_lt_of_le index.toNat_lt hpow)]
    exact Bool.false_ne_true
  rw [ofBits, hword, if_neg Bool.false_ne_true, bits_eq_lowBits, value_lowBits]

/-- In a tree that is not too deep, the leaves are the numbers with no further bits. -/
theorem fits_iff_lt {index depth : Nat} (hd : depth < wordBits) :
    fits index depth = true ↔ index < 2 ^ depth := by
  rw [fits, Bool.or_eq_true, decide_eq_true_eq, decide_eq_true_eq, Nat.one_shiftLeft]
  exact or_iff_right (Nat.not_le.mpr hd)

/-- Up to a leaf of the tree, every index is one. -/
theorem fits_mono {index index' depth : Nat} (hle : index ≤ index')
    (h : fits index' depth = true) : fits index depth = true := by
  rw [fits, Bool.or_eq_true, decide_eq_true_eq, decide_eq_true_eq] at h ⊢
  exact h.imp_right (Nat.lt_of_le_of_lt hle)

/-! ## Where numbers part -/

/-- The highest bit in which two numbers differ. -/
structure PartAt (a b level : Nat) : Prop where
  bit_ne : a.testBit level ≠ b.testBit level
  bit_eq : ∀ above, level < above → a.testBit above = b.testBit above

section

variable {a b level : Nat}

theorem exists_partAt (h : a ≠ b) : ∃ level, PartAt a b level := by
  obtain ⟨level, hbit, habove⟩ := Nat.exists_most_significant_bit (Nat.xor_ne_zero_iff.mpr h)
  refine ⟨level, ⟨?_, fun above hlt => ?_⟩⟩
  · rwa [Nat.testBit_xor, bne_iff_ne] at hbit
  · simpa [Nat.testBit_xor] using habove above hlt

/-- Numbers below a power of two part below its exponent. -/
theorem PartAt.lt {depth : Nat} (h : PartAt a b level) (ha : a < 2 ^ depth) (hb : b < 2 ^ depth) :
    level < depth := by
  by_contra hdepth
  have hpow : 2 ^ depth ≤ 2 ^ level := Nat.pow_le_pow_right (by decide) (Nat.not_lt.mp hdepth)
  refine h.bit_ne ?_
  rw [Nat.testBit_lt_two_pow (Nat.lt_of_lt_of_le ha hpow),
    Nat.testBit_lt_two_pow (Nat.lt_of_lt_of_le hb hpow)]

/-- Halved again and again, two numbers become the same right above the bit at which they part. -/
theorem PartAt.div_eq_iff (h : PartAt a b level) (count : Nat) :
    a / 2 ^ count = b / 2 ^ count ↔ level < count := by
  constructor
  · intro hsame
    by_contra hle
    have hsplit : level - count + count = level := Nat.sub_add_cancel (Nat.not_lt.mp hle)
    have hbit := congrArg (·.testBit (level - count)) hsame
    simp only [Nat.testBit_div_two_pow, hsplit] at hbit
    exact h.bit_ne hbit
  · intro hlt
    refine Nat.eq_of_testBit_eq fun i => ?_
    rw [Nat.testBit_div_two_pow, Nat.testBit_div_two_pow]
    exact h.bit_eq (i + count) (by omega)

end

end MerkleBatch.Index
