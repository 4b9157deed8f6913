import MerkleBatch.Hash

/-!
# Constraint systems

A circuit is a list of steps: a step makes a variable, demands that a product of two linear
combinations equals a third one, or runs a sponge. The wires inside a sponge are not listed; it
counts as many variables and constraints as its two permutations and its output take.

* `LinComb.eval`, `Step.Holds`, `Satisfies`: what the constraints demand of an assignment.
* `honest`: the assignment in which every variable has the value that its step computes from the
  variables before it.
* `variableCount`, `constraintCount`: the size of a circuit.
-/

namespace MerkleBatch.Circuit

/-- A variable, by the number of variables made before it. -/
structure Var where
  number : Nat
deriving DecidableEq, Inhabited

/-- Values for all variables. -/
abbrev Assignment := Var → Scalar

/-! ## Linear combinations -/

/-- A constant and multiples of variables, to be added up. -/
structure LinComb where
  constant : Scalar
  terms : List (Scalar × Var)

namespace LinComb

instance : Zero LinComb := ⟨⟨0, []⟩⟩

instance : One LinComb := ⟨⟨1, []⟩⟩

/-- A constant. -/
def ofScalar (c : Scalar) : LinComb := ⟨c, []⟩

/-- A single variable. -/
def ofVar (v : Var) : LinComb := ⟨0, [(1, v)]⟩

instance : Coe Var LinComb := ⟨ofVar⟩

instance : Add LinComb := ⟨fun l r => ⟨l.constant + r.constant, l.terms ++ r.terms⟩⟩

instance : Neg LinComb := ⟨fun l => ⟨-l.constant, l.terms.map fun t => (-t.1, t.2)⟩⟩

instance : Sub LinComb := ⟨fun l r => l + -r⟩

/-- The value under an assignment. -/
def eval (ρ : Assignment) (l : LinComb) : Scalar :=
  l.terms.foldr (fun t sum => t.1 * ρ t.2 + sum) l.constant

end LinComb

/-! ## Steps -/

/-- The name of a variable or constraint within the names of its scopes, innermost first. -/
abbrev Label := List String

namespace Label

/-- The names from the outermost one on. -/
def text (l : Label) : String := "/".intercalate l.reverse

end Label

/-- One step of a circuit. -/
inductive Step where
  /-- A new variable, and how its value follows from those of earlier ones. -/
  | alloc (label : Label) (fill : Assignment → Scalar)
  /-- The demand that the product of the first two combinations is the third. -/
  | enforce (label : Label) (a b c : LinComb)
  /-- The demand that `out` is the hash of `x` and `y` under `tag`, by a sponge of its own. -/
  | sponge (label : Label) (tag x y out : Var)

/-- The number of wires inside a sponge: three for each of the boxes of two permutations. -/
def spongeWires : Nat := 2 * (3 * (3 * Poseidon.fullRounds + Poseidon.partialRounds))

namespace Step

/-- The number of variables of a step. -/
def variableCount : Step → Nat
  | alloc _ _ => 1
  | enforce _ _ _ _ => 0
  | sponge _ _ _ _ _ => spongeWires

/-- The number of constraints of a step: one per wire of a sponge, and one for its output. -/
def constraintCount : Step → Nat
  | alloc _ _ => 0
  | enforce _ _ _ _ => 1
  | sponge _ _ _ _ _ => spongeWires + 1

/-- What a step demands of an assignment. The wires inside sponges have the values that belong to
the assignment `inner`, so a sponge also demands that its inputs still are what they were there. -/
def Holds (inner ρ : Assignment) : Step → Prop
  | alloc _ _ => True
  | enforce _ a b c => a.eval ρ * b.eval ρ = c.eval ρ
  | sponge _ tag x y out =>
    (inner tag = ρ tag ∧ inner x = ρ x ∧ inner y = ρ y) ∧
      ρ out = hashTagged (ρ tag) (ρ x) (ρ y)

instance decidableHolds (inner ρ : Assignment) : (s : Step) → Decidable (s.Holds inner ρ)
  | alloc _ _ => inferInstanceAs (Decidable True)
  | enforce _ a b c => inferInstanceAs (Decidable (a.eval ρ * b.eval ρ = c.eval ρ))
  | sponge _ tag x y out =>
    inferInstanceAs (Decidable ((inner tag = ρ tag ∧ inner x = ρ x ∧ inner y = ρ y) ∧
      ρ out = hashTagged (ρ tag) (ρ x) (ρ y)))

end Step

/-- Whether an assignment, with sponge wires of its own, meets every demand. -/
def Satisfies (ρ : Assignment) (steps : List Step) : Prop := ∀ s ∈ steps, s.Holds ρ ρ

/-- The number of variables of a circuit. -/
def variableCount (steps : List Step) : Nat :=
  steps.foldl (fun n s => n + s.variableCount) 0

/-- The number of constraints of a circuit. -/
def constraintCount (steps : List Step) : Nat :=
  steps.foldl (fun n s => n + s.constraintCount) 0

/-! ## The honest assignment -/

/-- The assignment with the given values of the first variables, and zero for all others. -/
def ofValues (values : Array Scalar) : Assignment := fun v => values.getD v.number 0

/-- The values of all variables, where `values` are those of the variables before the steps. -/
def fillFrom (values : Array Scalar) : List Step → Array Scalar
  | [] => values
  | .alloc _ fill :: rest => fillFrom (values.push (fill (ofValues values))) rest
  | .enforce _ _ _ _ :: rest => fillFrom values rest
  | .sponge _ _ _ _ _ :: rest => fillFrom values rest

/-- The values that the steps compute for their variables. -/
def honest (steps : List Step) : Array Scalar := fillFrom #[] steps

end MerkleBatch.Circuit
