import MerkleBatch.Path
import Std.Data.HashMap

/-!
# Sparse trees

A Merkle tree of fixed depth in which almost all leaves are zero. Only nodes that differ from the
node of an empty subtree are stored, by level and position; level 0 holds the leaves.

* `emptyHash`, `emptyHashes`: the nodes of empty subtrees.
* `SparseTree.root`, `proof`: what can be read from a tree.
* `SparseTree.set`, `update`: writing a leaf; it yields the siblings of the written path, which prove
  the old leaf under the old root and the new one under the new root.
-/

namespace MerkleBatch

/-- The node above two equal children. -/
def hashTwin (child : Scalar) : Scalar := hashNode child child

/-- The root of a tree of the given depth without any non-zero leaf. -/
def emptyHash : Nat → Scalar
  | 0 => 0
  | level + 1 => hashTwin (emptyHash level)

/-- The hashes above `below` in an empty tree, `levels` of them. -/
def emptyHashesAbove (below : Scalar) : Nat → List Scalar
  | 0 => []
  | levels + 1 =>
    let next := hashTwin below
    next :: emptyHashesAbove next levels

/-- The nodes of empty subtrees of the depths `0` to `depth`. -/
def emptyHashes (depth : Nat) : List Scalar := 0 :: emptyHashesAbove 0 depth

theorem getElem?_emptyHashesAbove {level levels j : Nat} (h : j < levels) :
    (emptyHashesAbove (emptyHash level) levels)[j]? = some (emptyHash (level + 1 + j)) := by
  induction levels generalizing level j with
  | zero => omega
  | succ levels ih =>
    rw [emptyHashesAbove]
    cases j with
    | zero => rfl
    | succ j =>
      rw [List.getElem?_cons_succ]
      have := @ih (level + 1) j (by omega)
      rwa [Nat.add_right_comm, Nat.add_assoc (level + 1)] at this

/-- The list holds the root of the empty tree of every depth. -/
theorem getElem?_emptyHashes {depth level : Nat} (h : level ≤ depth) :
    (emptyHashes depth)[level]? = some (emptyHash level) := by
  cases level with
  | zero => rfl
  | succ level =>
    rw [emptyHashes, List.getElem?_cons_succ]
    have := @getElem?_emptyHashesAbove 0 depth level (by omega)
    rwa [Nat.zero_add, Nat.add_comm] at this

/-- Why a tree does not answer. -/
inductive TreeError where
  | tooDeep (depth : Nat)
  | outOfRange (index : UInt64) (depth : Nat)
deriving DecidableEq

namespace TreeError

/-- The wording of an error. -/
def message : TreeError → String
  | tooDeep depth => s!"sparse tree depth {depth} exceeds the 64-bit index space"
  | outOfRange index depth => s!"leaf index {index} out of range for tree depth {depth}"

end TreeError

/-- A tree of some depth, by its nodes that are not those of empty subtrees. -/
structure SparseTree where
  depth : Nat
  /-- The nodes of empty subtrees, by level. -/
  zeros : Array Scalar
  nodes : Std.HashMap (Nat × Nat) Scalar
  depth_le : depth ≤ wordBits
  zeros_eq : zeros = (emptyHashes depth).toArray

instance : Hashable Scalar := ⟨fun a => hash a.val⟩

namespace SparseTree

/-- The tree of a depth in which every leaf is zero. -/
def empty? (depth : Nat) : Except TreeError SparseTree :=
  if h : depth ≤ wordBits then .ok ⟨depth, (emptyHashes depth).toArray, ∅, h, rfl⟩
  else .error (.tooDeep depth)

/-- The number of leaves, or the greatest word where no word holds that number. -/
def capacity (t : SparseTree) : UInt64 :=
  if t.depth < wordBits then UInt64.ofNat (1 <<< t.depth) else UInt64.ofNat ((1 <<< wordBits) - 1)

/-- The node of an empty subtree at a level. -/
def zero (t : SparseTree) (level : Nat) : Scalar := t.zeros.getD level 0

/-- The node at a level and position. -/
def node (t : SparseTree) (level position : Nat) : Scalar :=
  t.nodes.getD (level, position) (t.zero level)

/-- The root. -/
def root (t : SparseTree) : Scalar := t.node t.depth 0

/-- The position beside a position. -/
def beside (position : Nat) : Nat := if position % 2 = 0 then position + 1 else position - 1

/-- The siblings of the path from `position` at `level` up, through `count` levels. -/
def siblings (t : SparseTree) (level position : Nat) : Nat → List Scalar
  | 0 => []
  | count + 1 => t.node level (beside position) :: t.siblings (level + 1) (position / 2) count

/-- Whether the tree has a leaf with this index. -/
def has (t : SparseTree) (index : UInt64) : Bool := wordBits ≤ t.depth || index < t.capacity

/-- The siblings of a leaf, from the leaf upwards. -/
def proof (t : SparseTree) (index : UInt64) : Except TreeError (List Scalar) :=
  if t.has index then .ok (t.siblings 0 index.toNat t.depth)
  else .error (.outOfRange index t.depth)

/-- Stores a node, or forgets it where it is the node of an empty subtree. -/
def setNode (t : SparseTree) (level position : Nat) (value : Scalar) : SparseTree :=
  if value = t.zero level then { t with nodes := t.nodes.erase (level, position) }
  else { t with nodes := t.nodes.insert (level, position) value }

/-- Stores `current` and the hashes above it that the siblings lead to. -/
def write (t : SparseTree) (level position : Nat) (current : Scalar) : List Scalar → SparseTree
  | [] => t.setNode level position current
  | sibling :: rest =>
    (t.setNode level position current).write (level + 1) (position / 2)
      (Path.parent position current sibling) rest

/-- Writes a leaf: its siblings, or why there are none, and the tree from now on. -/
def set (t : SparseTree) (index : UInt64) (leaf : Scalar) :
    Except TreeError (List Scalar) × SparseTree :=
  match t.proof index with
  | .error error => (.error error, t)
  | .ok siblings => (.ok siblings, t.write 0 index.toNat leaf siblings)

/-- The siblings of a leaf, and the tree in which that leaf has the given value. -/
def update (t : SparseTree) (index : UInt64) (leaf : Scalar) :
    Except TreeError (List Scalar × SparseTree) :=
  match t.set index leaf with
  | (.error error, _) => .error error
  | (.ok siblings, after) => .ok (siblings, after)

end SparseTree

end MerkleBatch
