import MerkleBatch.Hash
import MerkleBatch.Index
import MerkleBatch.Shape

/-!
# Batches

A batch says that inserting some leaves, one after another from a start index on, turns a tree with
one root into a tree with another. Each inserted leaf comes with the siblings of its path at the
time of its insertion.

* `Batch.inputHash`: the value that binds everything public in a batch.
* `Shape.accepts`: whether a batch has the numbers of parts that a shape prescribes.
-/

namespace MerkleBatch

/-- One batch of insertions, as a client asks for it. -/
structure Batch where
  /-- The input hash the client expects, if it names one. -/
  claimedHash : Option Scalar
  /-- The index of the first inserted leaf; the others follow it. -/
  startIndex : UInt32
  preRoot : Scalar
  postRoot : Scalar
  /-- The inserted leaves in order. -/
  commitments : List Scalar
  /-- For each insertion the siblings of its path, from the leaf upwards. -/
  proofs : List (List Scalar)
deriving DecidableEq

namespace Batch

/-- The hash of all public values. -/
def inputHash (b : Batch) : Scalar :=
  MerkleBatch.inputHash b.startIndex.toUInt64 b.preRoot b.postRoot b.commitments

end Batch

namespace Shape

/-- The first proof that is not as long as the tree is deep, with `number` for the first one. -/
def checkLengths (depth number : Nat) : List (List Scalar) → Except ShapeError Unit
  | [] => .ok ()
  | siblings :: rest =>
    if siblings.length = depth then checkLengths depth (number + 1) rest
    else .error (.proofLength number siblings.length depth)

/-- Whether a batch has this shape and all its indices are leaves. The first fault is reported: the
number of commitments, the number of proofs, the length of each proof, and the last index. -/
def accepts (s : Shape) (b : Batch) : Except ShapeError Unit :=
  let size := s.batchSize.toNat
  let depth := s.treeDepth.toNat
  if b.commitments.length ≠ size then .error (.commitmentCount b.commitments.length size)
  else if b.proofs.length ≠ size then .error (.proofCount b.proofs.length size)
  else
    match checkLengths depth 0 b.proofs with
    | .error error => .error error
    | .ok () =>
      if Index.fits (b.startIndex.toNat + (size - 1)) depth then .ok ()
      else .error (.indexOverflow b.startIndex.toUInt64 s)

end Shape

end MerkleBatch
