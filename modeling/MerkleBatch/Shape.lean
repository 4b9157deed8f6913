/-!
# Shapes

The dimensions of a batch proof: how deep the tree is and how many leaves one proof inserts. A
proving system serves one shape.

* `Shape.validate`: the dimensions that are supported.
* `ShapeError`: every way in which something has another shape than it should.
-/

namespace MerkleBatch

/-- Tree depth and batch size. -/
structure Shape where
  treeDepth : UInt32
  batchSize : UInt32
deriving DecidableEq, Inhabited

/-- The deepest supported tree. -/
def maxTreeDepth : UInt32 := 32

/-- The largest supported batch. -/
def maxBatchSize : UInt32 := 4096

/-- Something has another shape than it should. -/
inductive ShapeError where
  | commitmentCount (got expected : Nat)
  | proofCount (got expected : Nat)
  /-- The proof with this number has another length than the tree is deep. -/
  | proofLength (index got expected : Nat)
  /-- The last index of the batch is no leaf of the tree. -/
  | indexOverflow (startIndex : UInt64) (shape : Shape)
  | invalidTreeDepth (depth : UInt32)
  | invalidBatchSize (size : UInt32)
  /-- A proof comes from a system of another shape. -/
  | proofShapeMismatch (proof system : Shape)
  /-- A constraint system is not the one of its shape. -/
  | paramsMismatch (shape : Shape)
  /-- Keys belong to another constraint system. -/
  | keysMismatch (shape : Shape)
deriving DecidableEq

namespace ShapeError

/-- The wording of an error. -/
def message : ShapeError → String
  | commitmentCount got expected =>
    s!"wrong number of identity commitments: got {got}, expected {expected}"
  | proofCount got expected => s!"wrong number of merkle proofs: got {got}, expected {expected}"
  | proofLength index got expected =>
    s!"wrong size of merkle proof for proof {index}: got {got}, expected {expected}"
  | indexOverflow startIndex ⟨depth, size⟩ =>
    s!"insertion indices overflow the tree: start index {startIndex} with batch size {size} " ++
      s!"exceeds 2^{depth} leaves"
  | invalidTreeDepth depth => s!"invalid tree depth {depth} (must be > 0 and <= {maxTreeDepth})"
  | invalidBatchSize size => s!"invalid batch size {size} (must be > 0 and <= {maxBatchSize})"
  | proofShapeMismatch ⟨proofDepth, proofSize⟩ ⟨depth, size⟩ =>
    s!"proof shape mismatch: proof is for depth {proofDepth} batch {proofSize}, " ++
      s!"system is depth {depth} batch {size}"
  | paramsMismatch ⟨depth, size⟩ =>
    s!"constraint system does not match the depth {depth} batch {size} circuit"
  | keysMismatch ⟨depth, size⟩ =>
    s!"keys were not generated for the depth {depth} batch {size} circuit"

end ShapeError

namespace Shape

/-- Whether the shape is supported; a bad depth is reported before a bad size. -/
def validate (s : Shape) : Except ShapeError Unit :=
  if s.treeDepth = 0 ∨ maxTreeDepth < s.treeDepth then .error (.invalidTreeDepth s.treeDepth)
  else if s.batchSize = 0 ∨ maxBatchSize < s.batchSize then .error (.invalidBatchSize s.batchSize)
  else .ok ()

theorem validate_eq_ok_iff {s : Shape} :
    s.validate = .ok () ↔
      (0 < s.treeDepth.toNat ∧ s.treeDepth.toNat ≤ 32) ∧
        (0 < s.batchSize.toNat ∧ s.batchSize.toNat ≤ 4096) := by
  have depthBad : (s.treeDepth = 0 ∨ maxTreeDepth < s.treeDepth) ↔
      (s.treeDepth.toNat = 0 ∨ 32 < s.treeDepth.toNat) :=
    or_congr UInt32.toNat_inj.symm UInt32.lt_iff_toNat_lt
  have sizeBad : (s.batchSize = 0 ∨ maxBatchSize < s.batchSize) ↔
      (s.batchSize.toNat = 0 ∨ 4096 < s.batchSize.toNat) :=
    or_congr UInt32.toNat_inj.symm UInt32.lt_iff_toNat_lt
  simp only [validate, depthBad, sizeBad]
  split
  · simp only [reduceCtorEq, false_iff]
    omega
  · split
    · simp only [reduceCtorEq, false_iff]
      omega
    · simp only [true_iff]
      omega

end Shape

end MerkleBatch
