import Mathlib.Data.List.Induction
import MerkleBatch.Bytes

/-!
# Digits and bytes

Numbers are folded out of their digits and bytes, most significant first, in the same way.

* `exists_digits`: the written digits of a number, as numbers.
* `toDigits_ofDigits`: digits are those of the number they stand for, if there is no zero in front.
* `ofDigits_dropWhile`: a zero in front does not matter.
* `map_digitChar_dropWhile`: without the zeros in front, digits are the written ones.
* `ofBigEndian_eq_foldl`: the number that bytes stand for.
-/

namespace MerkleBatch

/-- The number that digits stand for in a base, most significant first. -/
def ofDigits (base : Nat) (ds : List Nat) : Nat := ds.foldl (fun n d => base * n + d) 0

/-- Zeros in front of digits do not matter. -/
theorem ofDigits_zeros (base count : Nat) (ds : List Nat) :
    ofDigits base (List.replicate count 0 ++ ds) = ofDigits base ds := by
  induction count with
  | zero => rfl
  | succ count ih => rwa [List.replicate_succ, List.cons_append, ofDigits, List.foldl_cons]

/-- So they may be left out. -/
theorem ofDigits_dropWhile (base : Nat) (ds : List Nat) :
    ofDigits base (ds.dropWhile (· = 0)) = ofDigits base ds := by
  induction ds with
  | nil => rfl
  | cons d rest ih =>
    by_cases hd : d = 0
    · rw [List.dropWhile_cons_of_pos (by simpa using hd), ih, hd]
      exact (ofDigits_zeros base 1 rest).symm
    · rw [List.dropWhile_cons_of_neg (by simpa using hd)]

/-- Digits of which the first is not zero do not stand for zero. -/
theorem ofDigits_pos {base : Nat} (hb : 0 < base) {ds : List Nat} (hne : ds ≠ [])
    (hhead : ds.head? ≠ some 0) : 0 < ofDigits base ds := by
  obtain ⟨d, rest, rfl⟩ := List.exists_cons_of_ne_nil hne
  have hd : 0 < d := Nat.pos_of_ne_zero fun h => hhead (by rw [h]; rfl)
  have hfold (rest : List Nat) {n : Nat} (hn : 0 < n) :
      0 < rest.foldl (fun n d => base * n + d) n := by
    induction rest generalizing n with
    | nil => exact hn
    | cons d rest ih => exact ih (Nat.add_pos_left (Nat.mul_pos hb hn) d)
  exact hfold rest (Nat.add_pos_right _ hd)

/-- A number that digits stand for is written with them, if the first is not zero. -/
theorem toDigits_ofDigits {base : Nat} (hb : 1 < base) {ds : List Nat} (hne : ds ≠ [])
    (hsmall : ∀ d ∈ ds, d < base) (hhead : ds.head? ≠ some 0) :
    Nat.toDigits base (ofDigits base ds) = ds.map Nat.digitChar := by
  induction ds using List.reverseRecOn with
  | nil => exact absurd rfl hne
  | append_singleton front d ih =>
    have hd : d < base := hsmall d (by simp)
    have hvalue : ofDigits base (front ++ [d]) = base * ofDigits base front + d := by
      rw [ofDigits, List.foldl_append, ← ofDigits]
      rfl
    rw [hvalue]
    by_cases hfront : front = []
    · rw [hfront]
      simpa [ofDigits] using Nat.toDigits_of_lt_base hd
    · have hfirst : front.head? ≠ some 0 := fun h => hhead (by rw [List.head?_append, h]; rfl)
      have hpos := ofDigits_pos (Nat.lt_of_succ_lt hb) hfront hfirst
      have hle : base ≤ base * ofDigits base front + d :=
        Nat.le_add_right_of_le (Nat.le_mul_of_pos_right base hpos)
      rw [Nat.toDigits_of_base_le hb hle, Nat.mul_add_div (Nat.lt_of_succ_lt hb),
        Nat.div_eq_of_lt hd, Nat.add_zero, Nat.mul_add_mod, Nat.mod_eq_of_lt hd,
        ih hfront (fun e he => hsmall e (List.mem_append_left _ he)) hfirst, List.map_append]
      rfl

/-- Of digits in any base the ones behind the zeros in front are those that the number is written
with; of zero none is left. -/
theorem map_digitChar_dropWhile {base : Nat} (hb : 1 < base) {ds : List Nat}
    (hsmall : ∀ d ∈ ds, d < base) :
    (ds.dropWhile (· = 0)).map Nat.digitChar =
      if ofDigits base ds = 0 then [] else Nat.toDigits base (ofDigits base ds) := by
  have hhead : (ds.dropWhile (· = 0)).head? ≠ some 0 := by
    intro h
    have := List.head?_dropWhile_not (· = 0) ds
    rw [h] at this
    cases this
  rw [← ofDigits_dropWhile]
  by_cases hnil : ds.dropWhile (· = 0) = []
  · rw [hnil]
    rfl
  · have hpos := ofDigits_pos (Nat.lt_of_succ_lt hb) hnil hhead
    rw [if_neg (Nat.ne_of_gt hpos), toDigits_ofDigits hb hnil ?_ hhead]
    exact fun d hd => hsmall d (List.dropWhile_subset _ hd)

/-- The digits that a number is written with; the first one is zero for zero only. -/
theorem exists_digits {base : Nat} (hb : 1 < base) (n : Nat) :
    ∃ ds, Nat.toDigits base n = ds.map Nat.digitChar ∧ (∀ d ∈ ds, d < base) ∧
      ofDigits base ds = n ∧ (ds.head? = some 0 → n = 0) := by
  induction n using Nat.strongRecOn with
  | ind n ih =>
    by_cases hlt : n < base
    · refine ⟨[n], Nat.toDigits_of_lt_base hlt, by simpa using hlt, ?_, Option.some.inj⟩
      simp [ofDigits]
    · have hle := Nat.le_of_not_lt hlt
      obtain ⟨ds, hdigits, hsmall, hvalue, hhead⟩ :=
        ih (n / base) (Nat.div_lt_self (Nat.lt_of_lt_of_le (Nat.lt_of_succ_lt hb) hle) hb)
      refine ⟨ds ++ [n % base], ?_, ?_, ?_, ?_⟩
      · rw [Nat.toDigits_of_base_le hb hle, hdigits, List.map_append, List.map_singleton]
      · intro d hd
        rcases List.mem_append.mp hd with hd | hd
        · exact hsmall d hd
        · rw [List.mem_singleton.mp hd]
          exact Nat.mod_lt n (Nat.lt_of_succ_lt hb)
      · rw [ofDigits, List.foldl_append, ← ofDigits, hvalue]
        exact Nat.div_add_mod n base
      · intro h
        have hne : ds ≠ [] := fun hnil => Nat.toDigits_ne_nil (by rw [hdigits, hnil]; rfl)
        obtain ⟨d, rest, rfl⟩ := List.exists_cons_of_ne_nil hne
        have := Nat.div_eq_zero_iff.mp (hhead h)
        omega

namespace Bytes

theorem ofBigEndian_eq_foldl (bytes : List UInt8) :
    ofBigEndian bytes = bytes.foldl (fun n byte => 256 * n + byte.toNat) 0 := by
  have hfoldr : ∀ bs : List UInt8,
      ofLittleEndian bs = bs.foldr (fun byte n => 256 * n + byte.toNat) 0 := by
    intro bs
    induction bs with
    | nil => rfl
    | cons b rest ih => rw [ofLittleEndian, ih, List.foldr_cons, Nat.add_comm]
  rw [ofBigEndian, hfoldr, List.foldr_reverse]

end Bytes

end MerkleBatch
