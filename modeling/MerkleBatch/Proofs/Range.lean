import MerkleBatch.Proofs.Circuit.Decomposition
import MerkleBatch.Proofs.Tree.Refinement

/-!
# The range of indices

Whether an index is that of a leaf is decided in four places, each time in another way: by a
comparison with a shifted word, by the capacity of a tree, by taking bits and putting them together
again, and by a circuit that adds bits up in the field. All four draw the line at the same index.

* `Index.ofBits_bits_eq_iff`: an index of which no bits are lost.
* `SparseTree.exists_proof_iff`, `SparseTree.exists_update_iff`: an index that a tree answers for.
* `Circuit.satisfies_decomposeIndex_iff`: an index whose bits satisfy the circuit.
* `range_checks_agree`: the four together, at every depth up to 64.
-/

namespace MerkleBatch

/-- An index is that of its lowest bits exactly if it has no other ones. -/
theorem Index.ofBits_bits_eq_iff {index : UInt64} {depth : Nat} :
    ofBits (bits index depth) = .ok index ↔ index.toNat < 2 ^ depth := by
  have hword : index.toNat % 2 ^ depth < 2 ^ 64 :=
    Nat.lt_of_le_of_lt (Nat.mod_le _ _) index.toNat_lt
  rw [ofBits_bits, Except.ok.injEq, ← UInt64.toNat_inj, UInt64.toNat_ofNat', Nat.mod_eq_of_lt hword]
  exact Nat.mod_eq_iff_lt (Nat.two_pow_pos depth).ne'

namespace SparseTree

variable {t : SparseTree} {index : UInt64}

/-- Whatever is stored in a tree, it has proofs for the indices of its leaves. -/
theorem exists_proof_iff : (∃ path, t.proof index = .ok path) ↔ index.toNat < 2 ^ t.depth := by
  rw [← has_iff, proof]
  cases t.has index <;> simp

theorem exists_update_iff (leaf : Scalar) :
    (∃ result, t.update index leaf = .ok result) ↔ index.toNat < 2 ^ t.depth := by
  rw [← exists_proof_iff, SparseTree.update, SparseTree.set]
  cases t.proof index <;> simp

end SparseTree

namespace Circuit

/-- A circuit in which some variable holds an index, with the values of all variables so far, goes
on with the bits of the index exactly if there are enough of them. -/
theorem satisfies_decomposeIndex_iff {values : Array Scalar} {v : Var} {index : UInt64}
    {depth : Nat} (scope : Label) (hd : depth ≤ maxIndexBits) (hv : v.number < values.size)
    (hindex : ofValues values v = Scalar.ofNat index.toNat) :
    ∃ r, decomposeIndex v depth scope ⟨values.size⟩ = .ok r ∧
      (Satisfies (ofValues (fillFrom values r.steps)) r.steps ↔ index.toNat < 2 ^ depth) := by
  have hmodulus : index.toNat < modulus := Nat.lt_trans index.toNat_lt (by decide)
  obtain ⟨r, hr, hsat⟩ := satisfies_fillFrom_iff scope hd hv
  rw [hindex, Scalar.val_ofNat_of_lt hmodulus] at hsat
  exact ⟨r, hr, hsat⟩

end Circuit

open Circuit in
/-- At every depth up to the width of a word, four checks of an index come to the same: whether it
fits the depth, whether a tree answers for it, whatever was written to that tree before, whether its
bits give it back, and whether the honest assignment meets the demands on its bits. -/
theorem range_checks_agree {depth : Nat} (hd : depth ≤ wordBits) (index : UInt64) :
    (Index.fits index.toNat depth = true ↔ index.toNat < 2 ^ depth) ∧
    (∃ empty, SparseTree.empty? depth = .ok empty ∧ ∀ writes : List (UInt64 × Scalar),
      ((∃ path, (empty.writeAll writes).proof index = .ok path) ↔ index.toNat < 2 ^ depth) ∧
      ∀ leaf, (∃ result, (empty.writeAll writes).update index leaf = .ok result) ↔
        index.toNat < 2 ^ depth) ∧
    (Index.ofBits (Index.bits index depth) = .ok index ↔ index.toNat < 2 ^ depth) ∧
    ∀ (values : Array Scalar) (v : Var) (scope : Label), v.number < values.size →
      ofValues values v = Scalar.ofNat index.toNat →
        ∃ r, decomposeIndex v depth scope ⟨values.size⟩ = .ok r ∧
          (Satisfies (ofValues (fillFrom values r.steps)) r.steps ↔ index.toNat < 2 ^ depth) := by
  refine ⟨?_, ?_, Index.ofBits_bits_eq_iff, fun values v scope hv hindex => ?_⟩
  · rw [Index.fits_iff (index.toNat_lt.trans_eq (Nat.one_shiftLeft _).symm), Nat.one_shiftLeft]
  · obtain ⟨empty, hempty⟩ := SparseTree.exists_empty hd
    refine ⟨empty, hempty, fun writes => ?_⟩
    rw [← (SparseTree.represents_writeAll hempty writes).1]
    exact ⟨SparseTree.exists_proof_iff, SparseTree.exists_update_iff⟩
  · have hbits : depth ≤ maxIndexBits := hd.trans (by decide)
    exact satisfies_decomposeIndex_iff scope hbits hv hindex

open Circuit in
/-- A tree of eight leaves has no leaf 9, and no check takes it for leaf 1, which has the same three
bits. In the deepest tree the greatest word is a leaf, for every check. -/
theorem range_checks_agree_pastEnd :
    (3 ≤ wordBits ∧ wordBits ≤ wordBits) ∧
    Index.fits 9 3 = false ∧ Index.bits 9 3 = Index.bits 1 3 ∧
    Index.ofBits (Index.bits 9 3) ≠ .ok 9 ∧
    (∃ empty, SparseTree.empty? 3 = .ok empty ∧
      ¬ ∃ path, (empty.writeAll [(1, 5)]).proof 9 = .ok path) ∧
    (∃ r, decomposeIndex ⟨0⟩ 3 ["index_bits"] ⟨1⟩ = .ok r ∧
      ¬ Satisfies (ofValues (fillFrom #[Scalar.ofNat 9] r.steps)) r.steps) ∧
    (∃ empty, SparseTree.empty? wordBits = .ok empty ∧
      ∃ result, (empty.writeAll [(1, 5)]).update 0xffffffffffffffff 6 = .ok result) ∧
    ∃ r, decomposeIndex ⟨0⟩ wordBits ["index_bits"] ⟨1⟩ = .ok r ∧
      Satisfies (ofValues (fillFrom #[Scalar.ofNat 0xffffffffffffffff] r.steps)) r.steps := by
  have hthree : 3 ≤ wordBits := by decide
  have hpast : ¬ (9 : UInt64).toNat < 2 ^ 3 := by decide
  have hlast : (0xffffffffffffffff : UInt64).toNat < 2 ^ wordBits := by decide
  obtain ⟨hfits, ⟨empty, hempty, htree⟩, hbits, hcircuit⟩ := range_checks_agree hthree 9
  obtain ⟨r, hr, hsat⟩ := hcircuit #[Scalar.ofNat 9] ⟨0⟩ ["index_bits"] Nat.zero_lt_one rfl
  obtain ⟨-, ⟨deep, hdeep, hdeepTree⟩, -, hdeepCircuit⟩ :=
    range_checks_agree (Nat.le_refl wordBits) 0xffffffffffffffff
  obtain ⟨q, hq, hdeepSat⟩ :=
    hdeepCircuit #[Scalar.ofNat 0xffffffffffffffff] ⟨0⟩ ["index_bits"] Nat.zero_lt_one rfl
  exact ⟨⟨hthree, Nat.le_refl _⟩, eq_false_of_ne_true (hfits.not.mpr hpast), rfl,
    hbits.not.mpr hpast, ⟨empty, hempty, (htree [(1, 5)]).1.not.mpr hpast⟩,
    ⟨r, hr, hsat.not.mpr hpast⟩, ⟨deep, hdeep, ((hdeepTree [(1, 5)]).2 6).mpr hlast⟩,
    q, hq, hdeepSat.mpr hlast⟩

end MerkleBatch
