import MerkleBatch.Circuit.Builder

/-!
# Reports on a circuit

What can be said about a circuit and an assignment: which variables and constraints there are, and
which constraints do not hold. To see that a constraint matters, values of an honest assignment can
be overwritten; the wires inside sponges keep what they had.

* `variableLabels`, `equations`: what a circuit consists of.
* `LinComb.collect`: a combination with each variable at most once.
* `overwrite`, `violations`: an assignment with a few other values, and the demands it misses.
-/

namespace MerkleBatch.Circuit

/-! ## Listing a circuit -/

/-- The labels of the variables, in order. -/
def variableLabels (steps : List Step) : List Label :=
  steps.filterMap fun s =>
    match s with
    | .alloc label _ => some label
    | .enforce _ _ _ _ | .sponge _ _ _ _ _ => none

/-- A demand `a * b = c` by its label. -/
structure Equation where
  label : Label
  a : LinComb
  b : LinComb
  c : LinComb

/-- The demands outside sponges, in order. -/
def equations (steps : List Step) : List Equation :=
  steps.filterMap fun s =>
    match s with
    | .enforce label a b c => some ⟨label, a, b, c⟩
    | .alloc _ _ | .sponge _ _ _ _ _ => none

namespace LinComb

/-- Adds a multiple of a variable to multiples of others, which stand in order. -/
def addTerm (coefficient : Scalar) (v : Var) : List (Scalar × Var) → List (Scalar × Var)
  | [] => [(coefficient, v)]
  | (c, w) :: rest =>
    if v = w then (coefficient + c, v) :: rest
    else if v.number < w.number then (coefficient, v) :: (c, w) :: rest
    else (c, w) :: addTerm coefficient v rest

/-- The non-zero multiples of the variables, in their order; `none` in front stands for 1. -/
def collect (l : LinComb) : List (Scalar × Option Var) :=
  let terms := l.terms.foldr (fun t terms => addTerm t.1 t.2 terms) []
  ((l.constant, none) :: terms.map fun t => (t.1, some t.2)).filter fun t => t.1 ≠ 0

end LinComb

/-! ## Assignments under test -/

/-- Gives the variables of some names other values; a name of no variable changes nothing. -/
def overwrite (labels : List Label) (changes : List (String × Scalar)) (values : Array Scalar) :
    Array Scalar :=
  let names := labels.map Label.text
  changes.foldl
    (fun values change =>
      match names.findIdx? (· == change.1) with
      | some i => values.setIfInBounds i change.2
      | none => values)
    values

/-- The labels of the demands that do not hold under `values`, where the wires inside sponges have
the values that belong to `inner`. -/
def violations (inner values : Array Scalar) (steps : List Step) : List Label :=
  steps.filterMap fun s =>
    match s with
    | .alloc _ _ => none
    | .enforce label _ _ _ | .sponge label _ _ _ _ =>
      if s.Holds (ofValues inner) (ofValues values) then none else some label

end MerkleBatch.Circuit
