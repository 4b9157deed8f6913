import MerkleBatch.Circuit.Constraint

/-!
# Building circuits

A circuit is put together from gadgets. A gadget runs in a scope, which names its steps, and yields
a value and the steps it adds. Where its inputs do not fit each other it fails: it yields an error
in place of the value, and the steps that it added before stay.

* `Builder`: gadgets, as a monad.
* `alloc`, `enforce`, `sponge`: the gadgets of one step.
* `within`: a gadget in a scope of its own.
* `build`: a circuit, of which nothing is left where a gadget fails.
-/

namespace MerkleBatch.Circuit

/-- Why there is no circuit. -/
inductive SynthesisError where
  /-- The parts that the circuit is made for do not fit each other. -/
  | unsatisfiable
deriving DecidableEq

namespace SynthesisError

/-- The wording of an error. -/
def message : SynthesisError → String
  | unsatisfiable => "unsatisfiable constraint system"

end SynthesisError

/-- What a gadget leaves behind. -/
structure Built (α : Type) where
  value : α
  /-- The first variable that is not yet made. -/
  next : Var
  /-- The steps that were added. -/
  steps : List Step

namespace Built

variable {α β : Type}

/-- What two gadgets leave behind that run one after another. -/
def andThen (first : Built α) (second : Built β) : Built β :=
  ⟨second.value, second.next, first.steps ++ second.steps⟩

@[simp]
theorem value_andThen (first : Built α) (second : Built β) :
    (first.andThen second).value = second.value := rfl

@[simp]
theorem steps_andThen (first : Built α) (second : Built β) :
    (first.andThen second).steps = first.steps ++ second.steps := rfl

end Built

/-- A gadget: it receives its scope and the first free variable. -/
def Builder (α : Type) : Type := Label → Var → Except (Built SynthesisError) (Built α)

namespace Builder

/-- The gadget without steps. -/
protected def pure {α : Type} (a : α) : Builder α := fun _ next => .ok ⟨a, next, []⟩

/-- A gadget after another one, in the same scope. -/
protected def bind {α β : Type} (b : Builder α) (f : α → Builder β) : Builder β := fun scope next =>
  match b scope next with
  | .error failed => .error failed
  | .ok first =>
    match f first.value scope first.next with
    | .error failed => .error (first.andThen failed)
    | .ok second => .ok (first.andThen second)

instance : Monad Builder where
  pure := Builder.pure
  bind := Builder.bind

/-- The gadget for inputs that do not fit each other. -/
def fail {α : Type} (error : SynthesisError) : Builder α := fun _ next => .error ⟨error, next, []⟩

/-- A gadget in the scope `name` of the current one. -/
def within {α : Type} (name : String) (b : Builder α) : Builder α := fun scope next =>
  b (name :: scope) next

/-- Makes a variable. -/
def alloc (name : String) (fill : Assignment → Scalar) : Builder Var := fun scope next =>
  .ok ⟨next, ⟨next.number + 1⟩, [.alloc (name :: scope) fill]⟩

/-- Demands `a * b = c`. -/
def enforce (name : String) (a b c : LinComb) : Builder Unit := fun scope next =>
  .ok ⟨(), next, [.enforce (name :: scope) a b c]⟩

/-- Demands that `out` is the hash of `x` and `y` under `tag`. -/
def sponge (name : String) (tag x y out : Var) : Builder Unit := fun scope next =>
  .ok ⟨(), next, [.sponge (name :: scope) tag x y out]⟩

/-- The gadget as a circuit of its own. -/
def build {α : Type} (b : Builder α) : Except SynthesisError (Built α) :=
  (b [] ⟨0⟩).mapError Built.value

/-! ## Running gadgets -/

theorem run_bind {α β : Type} (b : Builder α) (f : α → Builder β) (scope : Label) (next : Var) :
    (b >>= f) scope next =
      match b scope next with
      | .error failed => .error failed
      | .ok first =>
        match f first.value scope first.next with
        | .error failed => .error (first.andThen failed)
        | .ok second => .ok (first.andThen second) := rfl

theorem build_eq_ok_iff {α : Type} {b : Builder α} {r : Built α} :
    b.build = .ok r ↔ b [] ⟨0⟩ = .ok r := by
  rw [build]
  cases b [] ⟨0⟩ with
  | error failed => constructor <;> intro h <;> cases h
  | ok built => constructor <;> intro h <;> cases h <;> rfl

end Builder

end MerkleBatch.Circuit
