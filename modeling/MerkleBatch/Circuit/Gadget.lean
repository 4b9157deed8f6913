import MerkleBatch.Circuit.Builder

/-!
# Gadgets

The parts of which the circuit is put together: numbers and bits, hashes, and the way from a leaf to
the root. A selection is arithmetic, so that a circuit has the same constraints whatever its bits
are. The tag of a hash is a variable that is held to its constant.

* `number`, `bit`: a variable of either kind, in a scope of its own.
* `Condition`: a bit, a negated bit or a constant, as a linear combination.
* `conditionalSelect`, `orderedPair`: choosing between two numbers, and putting them in order.
* `hashTagged`, `inputHash`: one hash, and the chain that binds the public values of a batch.
* `decomposeIndex`: the bits of an index; an index with more bits has none.
* `pathRound`, `merklePath`: one level of a path, and all of them.
-/

namespace MerkleBatch.Circuit

open Builder

/-- A number. -/
def number (name : String) (fill : Assignment → Scalar) : Builder Var :=
  within name (alloc "num" fill)

/-- A number whose value is known from the start. -/
def given (name : String) (value : Scalar) : Builder Var := number name fun _ => value

/-- The numbers with given values, named by `label` from the number `first` on. -/
def givenList (label : Nat → String) (first : Nat) : List Scalar → Builder (List Var)
  | [] => pure []
  | value :: rest => do
    let v ← given (label first) value
    let vs ← givenList label (first + 1) rest
    pure (v :: vs)

/-- A variable that is 0 or 1, by the demand `(1 - v) * v = 0`. -/
def bit (name : String) (fill : Assignment → Bool) : Builder Var :=
  within name do
    let v ← alloc "boolean" fun ρ => Scalar.ofBool (fill ρ)
    enforce "boolean constraint" (1 - v) v 0
    pure v

/-- Demands that two numbers are equal. -/
def enforceEqual (name : String) (a b : Var) : Builder Unit := within name (enforce "equal" a 1 b)

/-! ## Selection -/

/-- What a selection depends on. -/
inductive Condition where
  | bit (v : Var)
  | negated (v : Var)
  | const (b : Bool)

namespace Condition

/-- The condition as a number that is 1 when it holds and 0 otherwise. -/
def comb : Condition → LinComb
  | bit v => v
  | negated v => 1 - v
  | const true => 1
  | const false => 0

/-- Whether the condition holds under an assignment of 0 or 1 to its bit. -/
def holds (ρ : Assignment) : Condition → Bool
  | bit v => ρ v == 1
  | negated v => ρ v != 1
  | const b => b

end Condition

/-- The number `ifTrue` where the condition holds and `ifFalse` otherwise, by the demand
`condition * (ifTrue - ifFalse) = result - ifFalse`. -/
def conditionalSelect (condition : Condition) (ifFalse ifTrue : Var) : Builder Var := do
  let result ← number "select_result" fun ρ =>
    if condition.holds ρ then ρ ifTrue else ρ ifFalse
  enforce "select_constraint" condition.comb (ifTrue - ifFalse) (result - ifFalse)
  pure result

/-- The running hash and its sibling as left and right child: exchanged where `swap` holds. -/
def orderedPair (swap : Condition) (current sibling : Var) : Builder (Var × Var) := do
  let left ← within "left" (conditionalSelect swap current sibling)
  let right ← within "right" (conditionalSelect swap sibling current)
  pure (left, right)

/-! ## Hashes -/

/-- The hash of two numbers under a tag. -/
def hashTagged (tag : Scalar) (x y : Var) : Builder Var :=
  within "hash_tag_x_y" do
    let tagVar ← given "tag" tag
    enforce "tag_is_constant" tagVar 1 (LinComb.ofScalar tag)
    let out ← number "allocate for Elt::Num" fun ρ =>
      MerkleBatch.hashTagged (ρ tagVar) (ρ x) (ρ y)
    sponge "*" tagVar x y out
    pure out

/-- Folds numbers into what was bound so far, with the scope of each named after its place. -/
def bindList (bound : Var) (place : Nat) : List Var → Builder Var
  | [] => pure bound
  | value :: rest => do
    let next ← within s!"commitment_{place}" (hashTagged inputTag bound value)
    bindList next (place + 1) rest

/-- The hash that binds the start index, the roots before and after, and the commitments. -/
def inputHash (start preRoot postRoot : Var) (commitments : List Var) : Builder Var := do
  let bound ← within "start_pre" (hashTagged inputTag start preRoot)
  let bound ← within "post" (hashTagged inputTag bound postRoot)
  bindList bound 0 commitments

/-! ## Membership -/

/-- The bits of a number from position `first` on, `count` of them. -/
def bitsFrom (number : Var) (first : Nat) : Nat → Builder (List Var)
  | 0 => pure []
  | count + 1 => do
    let b ← bit s!"bit_{first}" fun ρ => (ρ number).bit first
    let bs ← bitsFrom number (first + 1) count
    pure (b :: bs)

/-- The sum of variables with weights that double from one to the next. -/
def weighted (weight : Scalar) : List Var → LinComb
  | [] => 0
  | v :: rest => ⟨0, [(weight, v)]⟩ + weighted (weight + weight) rest

/-- The bits of an index, least significant first, by the demand that they add up to it. -/
def decomposeIndex (index : Var) (depth : Nat) : Builder (List Condition) := do
  let bs ← bitsFrom index 0 depth
  enforce "recompose_index" (weighted 1 bs) 1 index
  pure (bs.map Condition.bit)

/-- The hash one level up; where the direction holds, the running hash is the right child. -/
def pathRound (direction : Condition) (current sibling : Var) : Builder Var := do
  let (left, right) ← within "order" (orderedPair direction current sibling)
  within "hash_nodes" (hashTagged nodeTag left right)

/-- The rounds from the given level upwards. -/
def pathFrom (level : Nat) (current : Var) : List (Var × Condition) → Builder Var
  | [] => pure current
  | (sibling, direction) :: rest => do
    let next ← within s!"level_{level}" (pathRound direction current sibling)
    pathFrom (level + 1) next rest

/-- The root that a leaf leads to; there has to be a direction for every sibling. -/
def merklePath (leaf : Var) (siblings : List Var) (directions : List Condition) : Builder Var :=
  if siblings.length ≠ directions.length then fail .unsatisfiable
  else pathFrom 0 leaf (siblings.zip directions)

end MerkleBatch.Circuit
