import Mathlib.Algebra.Field.ZMod
import Mathlib.Algebra.Ring.InjSurj
import MerkleBatch.Proofs.Scalar.Prime

/-!
# Scalars as a field

The operations on representatives are those of the integers modulo a prime, so scalars are a
commutative ring without zero divisors, and their equations can be solved as such.

* `toZMod`: the class of a scalar, an injective homomorphism.
* `val_add_ofNat`: a sum that stays below the modulus is the sum of the representatives.
-/

namespace MerkleBatch.Scalar

instance fact_modulus_prime : Fact modulus.Prime := ⟨modulus_prime⟩

/-- The class of a scalar among the integers modulo the order of the field. -/
def toZMod (a : Scalar) : ZMod modulus := a.val

theorem toZMod_injective : Function.Injective toZMod := by
  intro a b h
  have hmod := (ZMod.natCast_eq_natCast_iff' a.val b.val modulus).mp h
  rw [Nat.mod_eq_of_lt a.val_lt, Nat.mod_eq_of_lt b.val_lt] at hmod
  exact ext hmod

theorem toZMod_ofNat (n : ℕ) : (ofNat n).toZMod = n := ZMod.natCast_mod n modulus

instance : Zero Scalar := ⟨0⟩

instance : One Scalar := ⟨1⟩

instance : NatCast Scalar := ⟨ofNat⟩

instance : IntCast Scalar := ⟨fun n => ofNat (n % modulus).toNat⟩

instance : SMul ℕ Scalar := ⟨fun n a => ofNat n * a⟩

instance : SMul ℤ Scalar := ⟨fun n a => ofNat (n % modulus).toNat * a⟩

theorem toZMod_zero : (0 : Scalar).toZMod = 0 := Nat.cast_zero

theorem toZMod_one : (1 : Scalar).toZMod = 1 := Nat.cast_one

theorem toZMod_add (a b : Scalar) : (a + b).toZMod = a.toZMod + b.toZMod := by
  rw [toZMod, toZMod, toZMod, ← Nat.cast_add]
  exact ZMod.natCast_mod (a.val + b.val) modulus

theorem toZMod_mul (a b : Scalar) : (a * b).toZMod = a.toZMod * b.toZMod := by
  rw [toZMod, toZMod, toZMod, ← Nat.cast_mul]
  exact ZMod.natCast_mod (a.val * b.val) modulus

theorem toZMod_neg (a : Scalar) : (-a).toZMod = -a.toZMod := by
  have hval : (-a).toZMod = ((modulus - a.val : ℕ) : ZMod modulus) := ZMod.natCast_mod _ modulus
  rw [hval, Nat.cast_sub (Nat.le_of_lt a.val_lt), ZMod.natCast_self, zero_sub, toZMod]

theorem toZMod_sub (a b : Scalar) : (a - b).toZMod = a.toZMod - b.toZMod := by
  have hval : (a - b).toZMod = ((a.val + (modulus - b.val) : ℕ) : ZMod modulus) :=
    ZMod.natCast_mod _ modulus
  rw [hval, Nat.cast_add, Nat.cast_sub (Nat.le_of_lt b.val_lt), ZMod.natCast_self, zero_sub,
    ← sub_eq_add_neg, toZMod, toZMod]

theorem toZMod_pow (a : Scalar) (n : ℕ) : (a ^ n).toZMod = a.toZMod ^ n := by
  show (pow a n).toZMod = _
  induction n using Nat.strong_induction_on generalizing a with
  | _ n ih =>
    rw [pow]
    split
    · next hn => rw [hn, pow_zero, toZMod_one]
    · next hn =>
      have hhalf := ih (n / 2) (by omega) (a * a)
      rw [toZMod_mul, ← pow_two, ← pow_mul] at hhalf
      split
      · next hodd =>
        rw [toZMod_mul, hhalf, ← pow_succ']
        congr 1
        omega
      · next heven =>
        rw [hhalf]
        congr 1
        omega

theorem toZMod_intCast (n : ℤ) : (n : Scalar).toZMod = n := by
  show (ofNat (n % modulus).toNat).toZMod = n
  have hnonneg : 0 ≤ n % (modulus : ℤ) := Int.emod_nonneg n (by decide)
  rw [toZMod_ofNat, ← Int.cast_natCast, Int.toNat_of_nonneg hnonneg]
  exact ZMod.intCast_mod n modulus

instance : CommRing Scalar :=
  toZMod_injective.commRing toZMod toZMod_zero toZMod_one toZMod_add toZMod_mul toZMod_neg
    toZMod_sub
    (fun n a => by rw [nsmul_eq_mul, ← toZMod_ofNat, ← toZMod_mul]; rfl)
    (fun n a => by rw [zsmul_eq_mul, ← toZMod_intCast, ← toZMod_mul]; rfl)
    toZMod_pow toZMod_ofNat toZMod_intCast

/-- `toZMod` as a homomorphism. -/
def zmodHom : Scalar →+* ZMod modulus where
  toFun := toZMod
  map_one' := toZMod_one
  map_mul' := toZMod_mul
  map_zero' := toZMod_zero
  map_add' := toZMod_add

instance : IsDomain Scalar := Function.Injective.isDomain zmodHom toZMod_injective

/-- A sum that stays below the modulus does not wrap around. -/
theorem val_add_ofNat {a : Scalar} {n : ℕ} (h : a.val + n < modulus) :
    (a + ofNat n).val = a.val + n := by
  rw [val_add, val_ofNat_of_lt (by omega), Nat.mod_eq_of_lt h]

theorem ofNat_add (m n : ℕ) : ofNat (m + n) = ofNat m + ofNat n := Nat.cast_add m n

theorem ofNat_mul (m n : ℕ) : ofNat (m * n) = ofNat m * ofNat n := Nat.cast_mul m n

/-- The two solutions of the equation that makes a variable a bit. -/
theorem boolean_iff (a : Scalar) : (1 - a) * a = 0 ↔ a = ofBool false ∨ a = ofBool true := by
  rw [mul_eq_zero, sub_eq_zero, ofBool_false, ofBool_true, or_comm, eq_comm (a := 1)]

end MerkleBatch.Scalar
