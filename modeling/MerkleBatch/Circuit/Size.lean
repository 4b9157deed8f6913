import MerkleBatch.Circuit.Transition

/-!
# Sizes of circuits

How many constraints and variables the circuit of a shape has. They tell shapes apart, so a
constraint system is recognised by its size.

* `Circuit.Size`: a number of constraints and one of variables, which add up.
* `Shape.circuitSize`: the size of the circuit that keys are made for.
-/

namespace MerkleBatch

/-- The size of a circuit. -/
@[ext]
structure Circuit.Size where
  constraintCount : Nat
  variableCount : Nat
deriving DecidableEq

namespace Circuit.Size

/-- The size of two parts together. -/
instance : Add Size :=
  ⟨fun a b => ⟨a.constraintCount + b.constraintCount, a.variableCount + b.variableCount⟩⟩

/-- What is left of a size without a part; neither number falls below zero. -/
instance : Sub Size :=
  ⟨fun a b => ⟨a.constraintCount - b.constraintCount, a.variableCount - b.variableCount⟩⟩

@[simp]
theorem constraintCount_add (a b : Size) :
    (a + b).constraintCount = a.constraintCount + b.constraintCount := rfl

@[simp]
theorem variableCount_add (a b : Size) :
    (a + b).variableCount = a.variableCount + b.variableCount := rfl

@[simp]
theorem constraintCount_sub (a b : Size) :
    (a - b).constraintCount = a.constraintCount - b.constraintCount := rfl

@[simp]
theorem variableCount_sub (a b : Size) :
    (a - b).variableCount = a.variableCount - b.variableCount := rfl

/-- The size of a list of steps. -/
def ofSteps (steps : List Step) : Size :=
  ⟨Circuit.constraintCount steps, Circuit.variableCount steps⟩

end Circuit.Size

/-- The size of the circuit of a shape. -/
def Shape.circuitSize (s : Shape) : Except Circuit.SynthesisError Circuit.Size :=
  match (Circuit.circuitOfShape s).build with
  | .error error => .error error
  | .ok built => .ok (.ofSteps built.steps)

end MerkleBatch
