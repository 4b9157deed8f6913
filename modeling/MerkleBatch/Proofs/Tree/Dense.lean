import MerkleBatch.Proofs.Index
import MerkleBatch.Proofs.Path
import MerkleBatch.Tree.Sparse
import Mathlib.Logic.Function.Basic

/-!
# Dense trees

The Merkle tree over a leaf for every position, hashed level by level without any shortcut. It is
what roots and paths are about.

* `Dense.node`, `Dense.root`: the tree over leaves.
* `Dense.siblings`, `getElem?_siblings`: the siblings of a path, level by level.
* `pair_eq_children`, `root_siblings`: each is a child of the next node, so they lead to the nodes
  above.
* `node_congr`: a node depends on the leaves below it only.
* `node_update_of_ne`, `root_siblings_update`: a written leaf changes the nodes above it only, and
  they are those that its path leads to.
* `root_siblings_write`, `root_siblings_leaf`: so the siblings of a leaf lead to the root before and
  after it is written.
* `Dense.overwrite`: leaves written at consecutive positions.
-/

namespace MerkleBatch

namespace Dense

open SparseTree (beside)

/-- The node at a level and position. -/
def node (leaves : Nat → Scalar) : Nat → Nat → Scalar
  | 0, position => leaves position
  | level + 1, position =>
    hashNode (node leaves level (2 * position)) (node leaves level (2 * position + 1))

/-- The root of the tree of some depth. -/
def root (depth : Nat) (leaves : Nat → Scalar) : Scalar := node leaves depth 0

/-- The children of the node one level above `level`. -/
def children (leaves : Nat → Scalar) (level position : Nat) : Scalar × Scalar :=
  (node leaves level (2 * position), node leaves level (2 * position + 1))

/-- The siblings of the path from `position` at `level` up, through `count` levels. -/
def siblings (leaves : Nat → Scalar) (level position : Nat) : Nat → List Scalar
  | 0 => []
  | count + 1 =>
    node leaves level (beside position) :: siblings leaves (level + 1) (position / 2) count

variable {leaves : Nat → Scalar} {level position count index : Nat} {leaf : Scalar}

@[simp]
theorem length_siblings : (siblings leaves level position count).length = count := by
  induction count generalizing level position with
  | zero => rfl
  | succ count ih => rw [siblings, List.length_cons, ih]

/-- Halving a position leads to its path, level by level; the siblings stand beside it. -/
theorem getElem?_siblings {step : Nat} (h : step < count) :
    (siblings leaves level position count)[step]? =
      some (node leaves (level + step) (beside (position / 2 ^ step))) := by
  induction count generalizing level position step with
  | zero => exact absurd h (Nat.not_lt_zero step)
  | succ count ih =>
    rw [siblings]
    cases step with
    | zero => rw [List.getElem?_cons_zero, Nat.pow_zero, Nat.div_one, Nat.add_zero]
    | succ step =>
      rw [List.getElem?_cons_succ, ih (Nat.lt_of_succ_lt_succ h), Index.div_two_div_two_pow,
        Nat.add_assoc, Nat.add_comm 1]

theorem take_siblings {first : Nat} (h : first ≤ count) :
    (siblings leaves level position count).take first = siblings leaves level position first := by
  induction first generalizing level position count with
  | zero => rfl
  | succ first ih =>
    obtain ⟨count, rfl⟩ := Nat.exists_eq_add_of_lt h
    rw [siblings, List.take_succ_cons, ih (Nat.le_add_right _ _), siblings]

/-- A node and the one beside it are the children of the node above. -/
theorem pair_eq_children :
    (if position % 2 = 1 then (node leaves level (beside position), node leaves level position)
      else (node leaves level position, node leaves level (beside position))) =
        children leaves level (position / 2) := by
  rcases Nat.mod_two_eq_zero_or_one position with h | h
  · have heven : 2 * (position / 2) = position := by omega
    rw [if_neg (by omega), beside, if_pos h, children, heven]
  · have hodd : 2 * (position / 2) + 1 = position := by omega
    have hbefore : 2 * (position / 2) = position - 1 := by omega
    rw [if_pos h, beside, if_neg (by omega), children, hodd, hbefore]

/-- A node beside another one has the same parent. -/
theorem parent_node :
    Path.parent position (node leaves level position) (node leaves level (beside position)) =
      node leaves (level + 1) (position / 2) := by
  rw [Path.parent_eq, pair_eq_children, children, node]

/-- The siblings of a path lead from its first node to its last one. -/
theorem root_siblings :
    Path.root (node leaves level position) position (siblings leaves level position count) =
      node leaves (level + count) (position / 2 ^ count) := by
  induction count generalizing level position with
  | zero => rw [siblings, Path.root_nil, Nat.pow_zero, Nat.div_one, Nat.add_zero]
  | succ count ih =>
    rw [siblings, Path.root_cons, parent_node, ih, Index.div_two_div_two_pow, Nat.add_assoc,
      Nat.add_comm 1]

/-! ## Writing leaves -/

/-- A node depends on the leaves below it only. -/
theorem node_congr {leaves' : Nat → Scalar}
    (h : ∀ index, index / 2 ^ level = position → leaves index = leaves' index) :
    node leaves level position = node leaves' level position := by
  induction level generalizing position with
  | zero => exact h position (by rw [Nat.pow_zero, Nat.div_one])
  | succ level ih =>
    have hchild : ∀ child, child / 2 = position →
        node leaves level child = node leaves' level child := by
      intro child hparent
      refine ih fun index hindex => h index ?_
      rw [← Index.div_two_pow_div_two, hindex, hparent]
    rw [node, node, hchild (2 * position) (by omega), hchild (2 * position + 1) (by omega)]

/-- A node that is not above a leaf does not depend on it. -/
theorem node_update_of_ne (h : position ≠ index / 2 ^ level) :
    node (Function.update leaves index leaf) level position = node leaves level position := by
  refine node_congr fun other hother => Function.update_of_ne ?_ leaf leaves
  rintro rfl
  exact h hother.symm

theorem beside_ne (position : Nat) : beside position ≠ position := by
  rw [beside]
  split <;> omega

/-- The siblings of a leaf do not depend on it. -/
theorem siblings_update :
    siblings (Function.update leaves index leaf) level (index / 2 ^ level) count =
      siblings leaves level (index / 2 ^ level) count := by
  induction count generalizing level with
  | zero => rfl
  | succ count ih =>
    rw [siblings, siblings, node_update_of_ne (beside_ne _), Index.div_two_pow_div_two, ih]

theorem siblings_update_self :
    siblings (Function.update leaves index leaf) 0 index count = siblings leaves 0 index count := by
  have h : siblings (Function.update leaves index leaf) 0 (index / 2 ^ 0) count =
      siblings leaves 0 (index / 2 ^ 0) count := siblings_update
  rwa [Nat.pow_zero, Nat.div_one] at h

/-- The siblings of a leaf lead from another leaf in its place to the nodes above that one. -/
theorem root_siblings_update :
    Path.root leaf index (siblings leaves 0 index count) =
      node (Function.update leaves index leaf) count (index / 2 ^ count) := by
  have h : Path.root (node (Function.update leaves index leaf) 0 index) index
      (siblings (Function.update leaves index leaf) 0 index count) =
        node (Function.update leaves index leaf) (0 + count) (index / 2 ^ count) := root_siblings
  rwa [siblings_update_self, node, Function.update_self, Nat.zero_add] at h

/-- The siblings of a leaf lead from another leaf in its place to the root of the tree in which that
one is written. -/
theorem root_siblings_write {depth : Nat} (hindex : index < 2 ^ depth) :
    Path.root leaf index (siblings leaves 0 index depth) =
      root depth (Function.update leaves index leaf) := by
  rw [root_siblings_update, Nat.div_eq_of_lt hindex, root]

/-- And from the leaf itself to the root of the tree. -/
theorem root_siblings_leaf {depth : Nat} (hindex : index < 2 ^ depth) :
    Path.root (leaves index) index (siblings leaves 0 index depth) = root depth leaves := by
  rw [root_siblings_write hindex, Function.update_eq_self]

/-- The leaves after writing some at consecutive positions from `start` on. -/
def overwrite (leaves : Nat → Scalar) (start : Nat) (written : List Scalar) : Nat → Scalar :=
  fun position =>
    if position < start then leaves position else written.getD (position - start) (leaves position)

@[simp]
theorem overwrite_nil (leaves : Nat → Scalar) (start : Nat) :
    overwrite leaves start [] = leaves := by
  funext position
  simp [overwrite]

/-- The first leaf may be written before the others. -/
theorem overwrite_cons (leaves : Nat → Scalar) (start : Nat) (leaf : Scalar)
    (rest : List Scalar) :
    overwrite leaves start (leaf :: rest) =
      overwrite (Function.update leaves start leaf) (start + 1) rest := by
  funext position
  rcases Nat.lt_trichotomy position start with h | rfl | h
  · simp [overwrite, h, Nat.lt_succ_of_lt h, Function.update_of_ne (Nat.ne_of_lt h)]
  · simp [overwrite]
  · have hsub : position - start = position - (start + 1) + 1 := by omega
    rw [overwrite, overwrite, if_neg (by omega), if_neg (by omega), hsub, List.getD_cons_succ,
      Function.update_of_ne (Nat.ne_of_gt h)]

end Dense

end MerkleBatch
