/-!
# Numbers in bytes

Natural numbers as byte strings of fixed length, in either order of the bytes.

* `Bytes.littleEndian`, `Bytes.ofLittleEndian`: the least significant byte comes first.
* `Bytes.bigEndian`, `Bytes.ofBigEndian`: it comes last.
* `getElem?_littleEndian`: which byte stands where.
* `ofLittleEndian_lt`: what bytes stand for fits them.
* `ofLittleEndian_littleEndian`, `ofBigEndian_bigEndian`: a number that fits reads back.
* `littleEndian_ofLittleEndian`: bytes are the lowest ones of what they stand for.
-/

namespace MerkleBatch.Bytes

/-- The lowest `size` bytes of a number, least significant first. -/
def littleEndian (size n : Nat) : List UInt8 :=
  match size with
  | 0 => []
  | size + 1 => UInt8.ofNat n :: littleEndian size (n / 256)

/-- The number that bytes stand for, least significant first. -/
def ofLittleEndian : List UInt8 → Nat
  | [] => 0
  | byte :: rest => byte.toNat + 256 * ofLittleEndian rest

/-- The lowest `size` bytes of a number, most significant first. -/
def bigEndian (size n : Nat) : List UInt8 := (littleEndian size n).reverse

/-- The number that bytes stand for, most significant first. -/
def ofBigEndian (bytes : List UInt8) : Nat := ofLittleEndian bytes.reverse

@[simp]
theorem length_littleEndian (size n : Nat) : (littleEndian size n).length = size := by
  induction size generalizing n with
  | zero => rfl
  | succ size ih => simp [littleEndian, ih]

/-- The byte at a place is that of the number without the bytes before it. -/
theorem getElem?_littleEndian {size n k : Nat} (h : k < size) :
    (littleEndian size n)[k]? = some (UInt8.ofNat (n >>> (8 * k))) := by
  induction size generalizing n k with
  | zero => exact absurd h (Nat.not_lt_zero k)
  | succ size ih =>
    cases k with
    | zero => rfl
    | succ k =>
      have hbyte : n / 256 = n >>> 8 := (Nat.shiftRight_eq_div_pow n 8).symm
      rw [littleEndian, List.getElem?_cons_succ, ih (Nat.lt_of_succ_lt_succ h), hbyte,
        ← Nat.shiftRight_add, Nat.mul_succ, Nat.add_comm]

/-- Bytes stand for a number that as many bytes hold. -/
theorem ofLittleEndian_lt (bytes : List UInt8) :
    ofLittleEndian bytes < 1 <<< (8 * bytes.length) := by
  induction bytes with
  | nil => decide
  | cons byte rest ih =>
    have hlt := byte.toNat_lt
    rw [Nat.one_shiftLeft] at ih ⊢
    rw [ofLittleEndian, List.length_cons, Nat.mul_succ, Nat.pow_add]
    omega

theorem ofLittleEndian_littleEndian {size n : Nat} (h : n < 1 <<< (8 * size)) :
    ofLittleEndian (littleEndian size n) = n := by
  induction size generalizing n with
  | zero =>
    have : n = 0 := by simpa using h
    rw [this]
    rfl
  | succ size ih =>
    have hn : n / 256 < 1 <<< (8 * size) := by
      rw [Nat.one_shiftLeft] at h ⊢
      rw [Nat.mul_succ, Nat.pow_add] at h
      omega
    rw [littleEndian, ofLittleEndian, ih hn, UInt8.toNat_ofNat']
    omega

theorem littleEndian_ofLittleEndian {size : Nat} {bytes : List UInt8} (h : bytes.length = size) :
    littleEndian size (ofLittleEndian bytes) = bytes := by
  subst h
  induction bytes with
  | nil => rfl
  | cons byte rest ih =>
    have hlt := byte.toNat_lt
    have hbyte : UInt8.ofNat (byte.toNat + 256 * ofLittleEndian rest) = byte := by
      rw [← UInt8.toNat_inj, UInt8.toNat_ofNat']
      omega
    have hrest : (byte.toNat + 256 * ofLittleEndian rest) / 256 = ofLittleEndian rest := by
      omega
    rw [ofLittleEndian, List.length_cons, littleEndian, hbyte, hrest, ih]

theorem ofBigEndian_bigEndian {size n : Nat} (h : n < 1 <<< (8 * size)) :
    ofBigEndian (bigEndian size n) = n := by
  rw [ofBigEndian, bigEndian, List.reverse_reverse, ofLittleEndian_littleEndian h]

end MerkleBatch.Bytes
