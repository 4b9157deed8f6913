import MerkleBatch.Proofs.Tree.Refinement

/-!
# What a write does to proofs

No sibling of a leaf depends on that leaf. So the siblings that a write yields prove the leaf before
and the leaf after, each under its root. Any other path meets the changed nodes beside it at a
single level, that of the highest bit in which the two indices differ, and the node it finds there
is the one to which the new leaf and its first siblings lead. Whoever holds a proof can renew it
from what a write yields.

* `Dense.beside_eq_iff_of_partAt`: the level at which one path is beside another.
* `Dense.siblings_update_of_partAt`: the one sibling of a path that a leaf off the path changes.
* `SparseTree.Proves`: the leaf that a tree proves at an index.
* `update_proves_both`: the siblings that a write yields.
* `update_changes_one_sibling`: the proofs of all other leaves.
-/

namespace MerkleBatch

namespace Dense

open SparseTree (beside)

variable {leaves : Nat → Scalar} {leaf : Scalar} {index other level count : Nat}

theorem beside_eq_iff {position position' : Nat} :
    beside position = position' ↔ position / 2 = position' / 2 ∧ position ≠ position' := by
  unfold SparseTree.beside
  split <;> omega

/-- One path is beside another one where the two part, and nowhere else. -/
theorem beside_eq_iff_of_partAt (h : Index.PartAt index other level) (step : Nat) :
    beside (other / 2 ^ step) = index / 2 ^ step ↔ step = level := by
  have hhere := h.div_eq_iff step
  have habove := h.div_eq_iff (step + 1)
  rw [beside_eq_iff, Index.div_two_pow_div_two, Index.div_two_pow_div_two]
  omega

/-- A written leaf changes one sibling of any other leaf: the node where their paths part, to which
the written leaf and its first siblings lead. -/
theorem siblings_update_of_partAt (h : Index.PartAt index other level) (hlevel : level < count) :
    siblings (Function.update leaves index leaf) 0 other count =
      (siblings leaves 0 other count).set level
        (Path.root leaf index ((siblings leaves 0 index count).take level)) := by
  refine List.ext_getElem? fun step => ?_
  rw [List.getElem?_set, length_siblings, take_siblings (Nat.le_of_lt hlevel),
    root_siblings_update]
  by_cases hstep : step < count
  · rw [getElem?_siblings hstep, getElem?_siblings hstep, Nat.zero_add]
    by_cases hsame : level = step
    · subst hsame
      rw [if_pos rfl, if_pos hlevel, (beside_eq_iff_of_partAt h level).mpr rfl]
    · have hoff := mt (beside_eq_iff_of_partAt h step).mp (Ne.symm hsame)
      rw [if_neg hsame, node_update_of_ne hoff]
  · have hne : level ≠ step := by omega
    simp [hne, hstep]

end Dense

namespace SparseTree

variable {t : SparseTree} {leaves : Nat → Scalar} {index other : UInt64} {leaf : Scalar}
  {level depth : Nat}

/-! ## What is proven under a root -/

/-- The tree proves the leaf at the index by the siblings it has for it. Whatever else is accepted
there, under the same root and with as many siblings, collides with that path. -/
def Proves (t : SparseTree) (index : UInt64) (leaf : Scalar) : Prop :=
  ∃ path, t.proof index = .ok path ∧ Path.verify? t.root leaf index path = .ok true ∧
    ∀ leaf' path', path'.length = path.length → Path.verify? t.root leaf' index path' = .ok true →
      (leaf' = leaf ∧ path' = path) ∨ Path.Collide index.toNat leaf' leaf path' path

/-- The siblings of a leaf fit into a path of words. -/
theorem root?_siblings (leaf : Scalar) (index : UInt64) :
    Path.root? leaf index (Dense.siblings leaves 0 index.toNat t.depth) =
      .ok (Path.root leaf index.toNat (Dense.siblings leaves 0 index.toNat t.depth)) := by
  apply Path.root?_of_length_le
  rw [Dense.length_siblings]
  exact t.depth_le

/-- The siblings of a leaf lead from it to the root. -/
theorem Represents.root?_leaf (h : t.Represents leaves) (hindex : index.toNat < 2 ^ t.depth) :
    Path.root? (leaves index.toNat) index (Dense.siblings leaves 0 index.toNat t.depth) =
      .ok t.root := by
  rw [root?_siblings, Dense.root_siblings_leaf hindex, h.root_eq]

/-- The leaves of a tree are what it proves. -/
theorem Represents.proves (h : t.Represents leaves) (hindex : index.toNat < 2 ^ t.depth) :
    t.Proves index (leaves index.toNat) := by
  have haccepted : Path.verify? t.root (leaves index.toNat) index
      (Dense.siblings leaves 0 index.toNat t.depth) = .ok true := by
    simp [Path.verify?, h.root?_leaf hindex]
  refine ⟨_, h.proof_eq hindex, haccepted, fun leaf' path' hlen h' => ?_⟩
  obtain ⟨-, hroot⟩ := Path.verify?_eq_true_iff.mp haccepted
  obtain ⟨-, hroot'⟩ := Path.verify?_eq_true_iff.mp h'
  exact Path.eq_or_collide hlen (hroot'.trans hroot.symm)

/-! ## Writes -/

/-- A write yields the siblings of its leaf before and after it; they lead from the old leaf to the
old root and from the new one to the new root. -/
theorem Represents.update_proves (h : t.Represents leaves) (leaf : Scalar)
    (hindex : index.toNat < 2 ^ t.depth) :
    ∃ siblings after, t.update index leaf = .ok (siblings, after) ∧
      t.proof index = .ok siblings ∧ after.proof index = .ok siblings ∧
      Path.root? (leaves index.toNat) index siblings = .ok t.root ∧
      Path.root? leaf index siblings = .ok after.root := by
  obtain ⟨after, hupdate, hdepth, hafter⟩ := h.update leaf hindex
  have hindex' : index.toNat < 2 ^ after.depth := by rwa [hdepth]
  have hproof := hafter.proof_eq hindex'
  have hroot := hafter.root?_leaf hindex'
  rw [hdepth, Dense.siblings_update_self] at hproof hroot
  rw [Function.update_self] at hroot
  exact ⟨_, after, hupdate, h.proof_eq hindex, hproof, h.root?_leaf hindex, hroot⟩

/-- After a write, the proof of another leaf differs at the level where the two indices part. There
it has the node to which the written leaf and its first siblings lead. -/
theorem Represents.update_renews (h : t.Represents leaves) (leaf : Scalar)
    (hindex : index.toNat < 2 ^ t.depth) (hother : other.toNat < 2 ^ t.depth)
    (hpart : Index.PartAt index.toNat other.toNat level) :
    ∃ siblings after before renewed, t.update index leaf = .ok (siblings, after) ∧
      t.proof other = .ok before ∧ level < before.length ∧
      Path.root? leaf index (siblings.take level) = .ok renewed ∧
      after.proof other = .ok (before.set level renewed) ∧
      t.Proves other (leaves other.toNat) ∧ after.Proves other (leaves other.toNat) := by
  obtain ⟨after, hupdate, hdepth, hafter⟩ := h.update leaf hindex
  have hother' : other.toNat < 2 ^ after.depth := by rwa [hdepth]
  have hlevel := hpart.lt hindex hother
  have hne : other.toNat ≠ index.toNat := fun hsame => hpart.bit_ne (by rw [hsame])
  have hproof := hafter.proof_eq hother'
  have hproves := hafter.proves hother'
  rw [hdepth, Dense.siblings_update_of_partAt hpart hlevel] at hproof
  rw [Function.update_of_ne hne] at hproves
  refine ⟨_, after, _, _, hupdate, h.proof_eq hother, ?_, ?_, hproof, h.proves hother, hproves⟩
  · rwa [Dense.length_siblings]
  · apply Path.root?_of_length_le
    have hdeep := t.depth_le
    rw [List.length_take, Dense.length_siblings]
    omega

/-! ## Any tree -/

/-- In a tree after any writes, another write yields siblings that belong to its leaf before and
after it. They lead from the leaf that was written there last, or zero, to the root before, and from
the new leaf to the root after. -/
theorem update_proves_both (hd : depth ≤ wordBits) :
    ∃ empty, empty? depth = .ok empty ∧
      ∀ (writes : List (UInt64 × Scalar)) (index : UInt64) (leaf : Scalar),
        index.toNat < 2 ^ depth →
        let t := empty.writeAll writes
        ∃ siblings after, t.update index leaf = .ok (siblings, after) ∧
          t.proof index = .ok siblings ∧ after.proof index = .ok siblings ∧
          Path.root? (lastWritten depth writes index.toNat) index siblings = .ok t.root ∧
          Path.root? leaf index siblings = .ok after.root := by
  obtain ⟨empty, hempty⟩ := exists_empty hd
  refine ⟨empty, hempty, fun writes index leaf hindex => ?_⟩
  obtain ⟨hdepth, htree⟩ := represents_writeAll hempty writes
  rw [← hdepth] at hindex
  exact htree.update_proves leaf hindex

/-- The last leaf of the deepest tree is cleared. -/
theorem update_proves_both_lastLeaf :
    64 ≤ wordBits ∧ (18446744073709551615 : UInt64).toNat < 2 ^ 64 ∧
      ∃ empty, empty? 64 = .ok empty ∧
        let t := empty.writeAll [(18446744073709551615, 5), (0, 7)]
        ∃ siblings after, t.update 18446744073709551615 0 = .ok (siblings, after) ∧
          after.proof 18446744073709551615 = .ok siblings ∧
          Path.root? 5 18446744073709551615 siblings = .ok t.root ∧
          Path.root? 0 18446744073709551615 siblings = .ok after.root := by
  have hd : 64 ≤ wordBits := by decide
  have hindex : (18446744073709551615 : UInt64).toNat < 2 ^ 64 := by decide
  obtain ⟨empty, hempty, hwrite⟩ := update_proves_both hd
  obtain ⟨siblings, after, hupdate, -, hproof, hbefore, hafter⟩ :=
    hwrite [(18446744073709551615, 5), (0, 7)] _ 0 hindex
  exact ⟨hd, hindex, empty, hempty, siblings, after, hupdate, hproof, hbefore, hafter⟩

/-- In a tree after any writes, another write changes the proof of any other leaf at one level only,
that of the highest bit in which the two indices differ. There it now has the node to which the
written leaf and its first siblings lead, and it proves the same leaf as before. -/
theorem update_changes_one_sibling (hd : depth ≤ wordBits) :
    ∃ empty, empty? depth = .ok empty ∧
      ∀ (writes : List (UInt64 × Scalar)) (index other : UInt64) (leaf : Scalar),
        index.toNat < 2 ^ depth → other.toNat < 2 ^ depth → index ≠ other →
        let t := empty.writeAll writes
        ∃ level siblings after before renewed, Index.PartAt index.toNat other.toNat level ∧
          t.update index leaf = .ok (siblings, after) ∧
          t.proof other = .ok before ∧ level < before.length ∧
          Path.root? leaf index (siblings.take level) = .ok renewed ∧
          after.proof other = .ok (before.set level renewed) ∧
          t.Proves other (lastWritten depth writes other.toNat) ∧
          after.Proves other (lastWritten depth writes other.toNat) := by
  obtain ⟨empty, hempty⟩ := exists_empty hd
  refine ⟨empty, hempty, fun writes index other leaf hindex hother hne => ?_⟩
  obtain ⟨hdepth, htree⟩ := represents_writeAll hempty writes
  rw [← hdepth] at hindex hother
  obtain ⟨level, hpart⟩ := Index.exists_partAt (mt UInt64.toNat_inj.mp hne)
  obtain ⟨siblings, after, before, renewed, hrest⟩ := htree.update_renews leaf hindex hother hpart
  exact ⟨level, siblings, after, before, renewed, hpart, hrest⟩

/-- The indices 6 and 4 differ in bit 1, so the proof of one is renewed there when the other is
written. -/
theorem update_changes_one_sibling_neighbour :
    (3 ≤ wordBits ∧ (6 : UInt64).toNat < 2 ^ 3 ∧ (4 : UInt64).toNat < 2 ^ 3 ∧
      (6 : UInt64) ≠ 4) ∧
    ∃ empty, empty? 3 = .ok empty ∧
      let t := empty.writeAll [(4, 8), (6, 5)]
      ∃ siblings after before renewed, t.update 6 9 = .ok (siblings, after) ∧
        t.proof 4 = .ok before ∧ Path.root? 9 6 (siblings.take 1) = .ok renewed ∧
        after.proof 4 = .ok (before.set 1 renewed) ∧ t.Proves 4 8 ∧ after.Proves 4 8 := by
  have hhyps : 3 ≤ wordBits ∧ (6 : UInt64).toNat < 2 ^ 3 ∧ (4 : UInt64).toNat < 2 ^ 3 ∧
      (6 : UInt64) ≠ 4 := by decide
  obtain ⟨hd, hindex, hother, hne⟩ := hhyps
  obtain ⟨empty, hempty, hwrite⟩ := update_changes_one_sibling hd
  obtain ⟨level, siblings, after, before, renewed, hpart, hupdate, hbefore, -, hrest⟩ :=
    hwrite [(4, 8), (6, 5)] 6 4 9 hindex hother hne
  have hlevel : level = 1 := by
    have hhere : ¬ level < 1 := mt (hpart.div_eq_iff 1).mpr (by decide)
    have habove : level < 2 := (hpart.div_eq_iff 2).mp (by decide)
    omega
  subst hlevel
  exact ⟨⟨hd, hindex, hother, hne⟩, empty, hempty, siblings, after, before, renewed, hupdate,
    hbefore, hrest⟩

end SparseTree

end MerkleBatch
