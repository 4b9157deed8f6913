import MerkleBatch.Circuit.Gadget
import MerkleBatch.Witness

/-!
# The circuit of a batch

Its one public input is the input hash. Everything else is private and bound to it: the circuit
hashes the start index, the roots and the commitments itself, and leads the root before the batch
through all insertions to the root after it. An insertion shows that the path of its index leads
from an empty leaf to the current root; the same path from the new leaf leads to the next root.

* `insertOne`, `insertBatch`: the insertions.
* `transition`: the whole circuit on its input.
* `circuit`, `circuitOfShape`: the circuit together with its input, and the blank one of a shape.
-/

namespace MerkleBatch.Circuit

open Builder

/-- A leaf that is held to zero. -/
def emptyLeaf : Builder Var := do
  let v ← given "value" 0
  enforce "is_zero" v 1 0
  pure v

/-- The insertion with the number `offset`: the root after it. -/
def insertOne (depth : Nat) (empty start current : Var) (offset : Nat) (leaf : Var)
    (siblings : List Var) : Builder Var := do
  let index ← number "index" fun ρ => ρ start + Scalar.ofNat offset
  enforce "index_is_start_plus_offset" (start + LinComb.ofScalar (Scalar.ofNat offset)) 1 index
  let directions ← within "index_bits" (decomposeIndex index depth)
  let found ← within "empty_path" (merklePath empty siblings directions)
  enforceEqual "empty_path_matches_current_root" found current
  within "inserted_path" (merklePath leaf siblings directions)

/-- The insertions from the number `offset` on: the root after the last one. -/
def insertFrom (depth : Nat) (empty start current : Var) (offset : Nat) :
    List (Var × List Var) → Builder Var
  | [] => pure current
  | (leaf, siblings) :: rest => do
    let next ← within s!"insertion_{offset}" <|
      insertOne depth empty start current offset leaf siblings
    insertFrom depth empty start next (offset + 1) rest

/-- The root after inserting all commitments, each with the siblings of its path. -/
def insertBatch (preRoot start : Var) (commitments : List Var) (proofs : List (List Var))
    (depth : Nat) : Builder Var :=
  if commitments.length ≠ proofs.length || proofs.any (fun siblings => siblings.length ≠ depth) then
    fail .unsatisfiable
  else do
    let empty ← within "empty_leaf" emptyLeaf
    insertFrom depth empty start preRoot 0 (commitments.zip proofs)

/-- The siblings of the proofs with the numbers from `first` on. -/
def givenProofs (label : Nat → Nat → String) (first : Nat) :
    List (List Scalar) → Builder (List (List Var))
  | [] => pure []
  | siblings :: rest => do
    let vs ← givenList (label first) 0 siblings
    let vss ← givenProofs label (first + 1) rest
    pure (vs :: vss)

/-- The circuit on its inputs `z`, filled with a witness; it yields its one input again. -/
def transition (depth size : Nat) (w : Witness) (z : List Var) : Builder (List Var) :=
  match z with
  | [publicHash] =>
    if !w.hasShape depth size then fail .unsatisfiable
    else do
      let start ← given "start_index" (Scalar.ofNat w.startIndex.toNat)
      let preRoot ← given "pre_root" w.preRoot
      let postRoot ← given "post_root" w.postRoot
      let commitments ← givenList (fun i => s!"commitment_{i}") 0 w.commitments
      let proofs ← givenProofs (fun i j => s!"proof_{i}_sibling_{j}") 0 w.proofs
      let bound ← within "input_hash" (inputHash start preRoot postRoot commitments)
      enforceEqual "input_hash_matches_public" bound publicHash
      let final ← within "batch" (insertBatch preRoot start commitments proofs depth)
      enforceEqual "final_root_matches_post_root" final postRoot
      pure [publicHash]
  | _ => fail .unsatisfiable

/-- The number of inputs the circuit is made for. -/
def arity : Nat := 1

/-- The circuit with the given inputs, which are its first variables. -/
def circuit (depth size : Nat) (w : Witness) (inputs : List Scalar) : Builder (List Var) := do
  let z ← givenList (fun i => s!"z{i}") 0 inputs
  transition depth size w z

/-- The circuit of a shape, as keys are made for it. -/
def circuitOfShape (s : Shape) : Builder (List Var) :=
  let depth := s.treeDepth.toNat
  let size := s.batchSize.toNat
  circuit depth size (Witness.blank depth size) [0]

end MerkleBatch.Circuit
