import MerkleBatch.Batch
import MerkleBatch.Tree.Sparse

/-!
# Recording a batch

A batch is made by carrying its insertions out on a tree: the root before, the siblings that each
insertion yields, and the root after.

* `SparseTree.insertAll`: writing leaves at consecutive indices.
* `Batch.ofTree`: the batch that inserts leaves into a tree.
* `Batch.sample`: a batch for the empty tree of a shape.
-/

namespace MerkleBatch

namespace SparseTree

/-- Writes leaves at consecutive indices from `index` on: the siblings that each write yields, and
the tree after all of them. -/
def insertAll (t : SparseTree) (index : Nat) :
    List Scalar → Except TreeError (List (List Scalar) × SparseTree)
  | [] => .ok ([], t)
  | leaf :: rest =>
    match t.update (UInt64.ofNat index) leaf with
    | .error error => .error error
    | .ok (siblings, t) =>
      match insertAll t (index + 1) rest with
      | .error error => .error error
      | .ok (proofs, t) => .ok (siblings :: proofs, t)

end SparseTree

/-- Why there is no sample batch of a shape. -/
inductive SampleError where
  | shape (error : ShapeError)
  /-- The tree has fewer leaves than the batch. -/
  | noRoom (shape : Shape)
  | tree (error : TreeError)
deriving DecidableEq

namespace SampleError

/-- The wording of an error. -/
def message : SampleError → String
  | shape error => error.message
  | noRoom ⟨depth, size⟩ => s!"a depth {depth} tree cannot hold {size} insertions"
  | tree error => "Witness error: " ++ error.message

end SampleError

namespace Batch

/-- The batch that inserts leaves into a tree, without an expected input hash. -/
def ofTree (t : SparseTree) (start : UInt32) (leaves : List Scalar) : Except TreeError Batch :=
  match t.insertAll start.toNat leaves with
  | .error error => .error error
  | .ok (proofs, after) => .ok ⟨none, start, t.root, after.root, leaves, proofs⟩

/-- The batch with its input hash as the expected one. -/
def withInputHash (b : Batch) : Batch := { b with claimedHash := some b.inputHash }

/-- The leaves `1` to `size`. -/
def sampleLeaves (size : Nat) : List Scalar :=
  (List.range size).map fun i => Scalar.ofNat (i + 1)

/-- The batch of a shape that fills an empty tree from the left. -/
def sample (s : Shape) : Except SampleError Batch :=
  match s.validate with
  | .error error => .error (.shape error)
  | .ok () =>
    let depth := s.treeDepth.toNat
    let size := s.batchSize.toNat
    if !Index.fits (size - 1) depth then .error (.noRoom s)
    else
      match SparseTree.empty? depth with
      | .error error => .error (.tree error)
      | .ok t => ((ofTree t 0 (sampleLeaves size)).map withInputHash).mapError .tree

end Batch

end MerkleBatch
