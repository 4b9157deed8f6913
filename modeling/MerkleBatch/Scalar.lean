/-!
# Scalars

The prime field in which leaves, hashes and circuit values live: the scalar field of the Pallas
curve, with `modulus` elements. A `Scalar` is its least non-negative representative.

* `Scalar.ext`: two scalars with the same representative are equal.
* `Scalar.val_add`: the representatives are added, and the sum is reduced by the modulus.
* `Scalar.val_ofNat_of_lt`: a natural number below the modulus is its own representative.
-/

namespace MerkleBatch

/-- The order of the field, a prime of 255 bits just above `2 ^ 254`. -/
def modulus : Nat := 0x40000000000000000000000000000000224698fc0994a8dd8c46eb2100000001

theorem modulus_pos : 0 < modulus := by decide

/-- Every number of 254 bits is a representative. -/
theorem shiftLeft_254_lt_modulus : 1 <<< 254 < modulus := by decide

/-- No representative has more than 255 bits. -/
theorem modulus_lt_shiftLeft_255 : modulus < 1 <<< 255 := by decide

/-- An element of the field, as its least non-negative representative. -/
structure Scalar where
  /-- The representative. -/
  val : Nat
  val_lt : val < modulus
deriving DecidableEq

namespace Scalar

@[ext]
theorem ext {a b : Scalar} (h : a.val = b.val) : a = b := by
  cases a
  cases b
  simp_all

/-- The class of a natural number. -/
def ofNat (n : Nat) : Scalar := ⟨n % modulus, Nat.mod_lt n modulus_pos⟩

instance (n : Nat) : OfNat Scalar n := ⟨ofNat n⟩

instance : Inhabited Scalar := ⟨0⟩

instance : Add Scalar := ⟨fun a b => ofNat (a.val + b.val)⟩

instance : Mul Scalar := ⟨fun a b => ofNat (a.val * b.val)⟩

instance : Neg Scalar := ⟨fun a => ofNat (modulus - a.val)⟩

instance : Sub Scalar := ⟨fun a b => ofNat (a.val + (modulus - b.val))⟩

/-- `a` multiplied by itself `n` times, by squaring. -/
def pow (a : Scalar) (n : Nat) : Scalar :=
  if n = 0 then 1
  else
    let half := pow (a * a) (n / 2)
    if n % 2 = 1 then a * half else half
termination_by n
decreasing_by omega

instance : Pow Scalar Nat := ⟨pow⟩

/-- The inverse of a non-zero element: its power with exponent `modulus - 2`. -/
def inverse (a : Scalar) : Scalar := a ^ (modulus - 2)

/-! ## Representatives -/

theorem val_ofNat_of_lt {n : Nat} (h : n < modulus) : (ofNat n).val = n :=
  Nat.mod_eq_of_lt h

@[simp]
theorem ofNat_val (a : Scalar) : ofNat a.val = a :=
  ext (Nat.mod_eq_of_lt a.val_lt)

theorem val_add (a b : Scalar) : (a + b).val = (a.val + b.val) % modulus := rfl

/-- The bit of the representative at position `j`, least significant first. -/
def bit (a : Scalar) (j : Nat) : Bool := a.val.testBit j

/-- A condition as a field value: 1 when it holds, 0 otherwise. -/
def ofBool (b : Bool) : Scalar := if b then 1 else 0

@[simp]
theorem ofBool_true : ofBool true = 1 := rfl

@[simp]
theorem ofBool_false : ofBool false = 0 := rfl

end Scalar

end MerkleBatch
