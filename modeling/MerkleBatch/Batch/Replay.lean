import MerkleBatch.Batch
import MerkleBatch.Error
import MerkleBatch.Path
import MerkleBatch.Witness

/-!
# Replaying a batch

Before a batch is proven it is carried out on the roots alone: each insertion has to find an empty
leaf under the current root and leads to the next one. With the shape, which is checked first, these
are all checks that come before the proof backend.

* `insertLeaf`: one insertion.
* `insertAll`: the insertions of a batch, in order.
* `Batch.replay`: all checks of a batch; on success the witness and the input hash.
* `ReplayError`: the first fault that is found.
* `Shape.examine`: the batch as the backend receives it, or why it is turned away.
-/

namespace MerkleBatch

/-- Why a batch cannot be carried out. -/
inductive ReplayError where
  /-- The index of an insertion is no leaf of the tree. -/
  | outOfRange (insertion index depth : Nat)
  /-- The siblings of an insertion do not lead from an empty leaf to the current root. -/
  | staleProof (insertion index : Nat)
  /-- The last root is not the one the batch names. -/
  | postRoot
  /-- The input hash the client expects is another one. -/
  | claimedHash
  /-- An insertion has more siblings than an index has bits. -/
  | stopped (overflow : Overflow)
deriving DecidableEq

/-- The root after inserting a leaf under `current`, for the insertion with this number. -/
def insertLeaf (depth insertion index : Nat) (current leaf : Scalar) (siblings : List Scalar) :
    Except ReplayError Scalar :=
  if !Index.fits index depth then .error (.outOfRange insertion index depth)
  else if wordBits < siblings.length then .error (.stopped .shiftRight)
  else if Path.root 0 index siblings ≠ current then .error (.staleProof insertion index)
  else .ok (Path.root leaf index siblings)

/-- The root after inserting leaves at consecutive indices from `start` on, the first of them with
the number `insertion`. -/
def insertAll (depth start insertion : Nat) (current : Scalar) :
    List (Scalar × List Scalar) → Except ReplayError Scalar
  | [] => .ok current
  | (leaf, siblings) :: rest =>
    match insertLeaf depth insertion (start + insertion) current leaf siblings with
    | .error error => .error error
    | .ok next => insertAll depth start (insertion + 1) next rest

namespace Batch

/-- The insertions of a batch; a commitment without a proof, or the other way round, is none. -/
def insertions (b : Batch) : List (Scalar × List Scalar) := b.commitments.zip b.proofs

/-- The private values of a batch. -/
def witness (b : Batch) : Witness :=
  ⟨b.startIndex.toUInt64, b.preRoot, b.postRoot, b.commitments, b.proofs⟩

/-- Carries a batch out in a tree of the given depth. -/
def replay (b : Batch) (depth : Nat) : Except ReplayError (Witness × Scalar) :=
  match insertAll depth b.startIndex.toNat 0 b.preRoot b.insertions with
  | .error error => .error error
  | .ok last =>
    if last ≠ b.postRoot then .error .postRoot
    else
      let computed := b.inputHash
      if b.claimedHash.any (· ≠ computed) then .error .claimedHash
      else .ok (b.witness, computed)

end Batch

/-! ## Admission -/

namespace ReplayError

/-- The failure that an error of the replay is reported as. -/
def toFailure : ReplayError → Failure
  | outOfRange insertion index depth =>
    .error <| .witness
      s!"insertion {insertion}: index {index} does not fit in a depth-{depth} tree"
  | staleProof insertion index =>
    .error <| .witness
      s!"insertion {insertion}: merkle proof for index {index} does not match the current root"
  | postRoot => .error <| .witness "post-root does not match the root after the last insertion"
  | claimedHash => .error <| .witness "input hash does not match the batch"
  | stopped overflow => .stopped overflow

end ReplayError

/-- A batch that passed every check: what the circuit is filled with, and its public input. -/
structure Admitted where
  witness : Witness
  inputHash : Scalar
deriving DecidableEq

/-- Checks a batch for a proving system of the given shape. -/
def Shape.examine (s : Shape) (b : Batch) : Except Failure Admitted :=
  match s.accepts b with
  | .error error => .error (.error (.shape error))
  | .ok () =>
    match b.replay s.treeDepth.toNat with
    | .error error => .error error.toFailure
    | .ok (witness, inputHash) => .ok ⟨witness, inputHash⟩

end MerkleBatch
