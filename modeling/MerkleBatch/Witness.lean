import MerkleBatch.Scalar
import MerkleBatch.Shape

/-!
# Witnesses

What the circuit of a batch is filled with. The numbers of commitments and siblings fix which
constraints the circuit has, so a blank witness of a shape stands for every batch of that shape
when keys are made.

* `Witness.blank`: the all-zero witness of a shape.
* `Witness.hasShape`: whether a witness fits a circuit.
-/

namespace MerkleBatch

/-- The private values of one batch of insertions. -/
structure Witness where
  /-- The index of the first inserted leaf. -/
  startIndex : UInt64
  preRoot : Scalar
  postRoot : Scalar
  /-- The inserted leaves in order. -/
  commitments : List Scalar
  /-- For each insertion the siblings of its path, from the leaf upwards. -/
  proofs : List (List Scalar)
deriving DecidableEq

namespace Witness

/-- The witness of zeros for `size` insertions into a tree of depth `depth`. -/
def blank (depth size : Nat) : Witness :=
  ⟨0, 0, 0, List.replicate size 0, List.replicate size (List.replicate depth 0)⟩

/-- The number of insertions. -/
def batchSize (w : Witness) : Nat := w.commitments.length

/-- Whether there are `size` commitments and `size` paths, each of length `depth`. -/
def hasShape (w : Witness) (depth size : Nat) : Bool :=
  w.commitments.length = size && w.proofs.length = size &&
    w.proofs.all fun siblings => siblings.length = depth

theorem hasShape_iff {w : Witness} {depth size : Nat} :
    w.hasShape depth size = true ↔
      w.commitments.length = size ∧ w.proofs.length = size ∧
        ∀ siblings ∈ w.proofs, siblings.length = depth := by
  simp [hasShape, and_assoc]

@[simp]
theorem hasShape_blank (depth size : Nat) : (blank depth size).hasShape depth size = true := by
  rw [hasShape_iff]
  refine ⟨by simp [blank], by simp [blank], fun siblings h => ?_⟩
  rw [List.eq_of_mem_replicate h, List.length_replicate]

end Witness

end MerkleBatch
