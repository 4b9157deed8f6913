import MerkleBatch.Error
import MerkleBatch.Proof
import MerkleBatch.Prover.Keys

/-!
# Provers

A prover serves one shape: it holds the compiled circuit, which is known by its size, and the keys
that belong to it. Keys from elsewhere are taken only if they are those of the circuit.

* `Prover.setup`: a prover with keys of its own.
* `Prover.importKeys`: a prover with given keys.
* `Prover.checkSize`: whether a compiled circuit is as large as the one of a shape.
* `Prover.Fault`: what is wrong with keys and artifacts.
-/

namespace MerkleBatch

/-- A compiled circuit and its keys. -/
structure Prover where
  shape : Shape
  /-- The compiled circuit, by its size. -/
  circuit : Circuit.Size
  keys : Keys
deriving DecidableEq

namespace Prover

/-- The size of the bare circuit of a shape. -/
def stepSize (s : Shape) : Except Error Circuit.Size :=
  match s.validate with
  | .error error => .error (.shape error)
  | .ok () => s.circuitSize.mapError fun error => .prover .compile error.message

/-- The compiled circuit of a shape. Compiling adds nothing to the bare one here. -/
def compile (s : Shape) : Except Error Circuit.Size := stepSize s

/-- The shape on which it is measured what compiling adds to a circuit. -/
def smallest : Shape := ⟨1, 1⟩

/-- What a compiler adds to any circuit, measured on the smallest shape. -/
def overhead (compiler : Shape → Except Error Circuit.Size) : Except Error Circuit.Size :=
  match compiler smallest with
  | .error error => .error error
  | .ok reference =>
    match stepSize smallest with
    | .error error => .error error
    | .ok step => .ok (reference - step)

/-- Refuses a compiled circuit that is not as large as the compiler would make that of the shape.
The shape's own circuit is not compiled for this. -/
def checkSize (compiler : Shape → Except Error Circuit.Size) (s : Shape) (circuit : Circuit.Size) :
    Except Error Unit :=
  match overhead compiler with
  | .error error => .error error
  | .ok added =>
    match stepSize s with
    | .error error => .error error
    | .ok step => if circuit = added + step then .ok () else .error (.shape (.paramsMismatch s))

/-- The prover of a shape. -/
def setup (s : Shape) : Except Error Prover :=
  match compile s with
  | .error error => .error error
  | .ok circuit => .ok ⟨s, circuit, Keys.ofSize circuit⟩

/-- Refuses keys that are not those of the circuit. -/
def checkKeys (s : Shape) (circuit : Circuit.Size) (keys : Keys) : Except Error Unit :=
  if keys = Keys.ofSize circuit then .ok () else .error (.shape (.keysMismatch s))

/-- What keys are called in messages. -/
inductive Part where
  | provingKey
  | verifyingKey
  | constraintSystem
deriving DecidableEq

namespace Part

/-- The name of a part. -/
def name : Part → String
  | provingKey => "proving key"
  | verifyingKey => "verifying key"
  | constraintSystem => "constraint system"

end Part

/-- The blocks of a key that is all of a byte string. -/
def decodeKey (bytes : List UInt8) (blocks : Nat) : Except DecodeFault (List (List UInt8)) :=
  match Blocks.take? bytes blocks with
  | none => .error .endOfData
  | some (key, []) => .ok key
  | some (_, _ :: _) => .error .remaining

/-- The error of a key that is not read. -/
def keyError (part : Part) (fault : DecodeFault) : Error :=
  .serialization s!"Failed to deserialize {part.name}: {fault.message}"

/-- The keys in two byte strings. -/
def decodeKeys (proving verifying : List UInt8) : Except Error Keys :=
  match decodeKey proving Keys.provingBlocks with
  | .error fault => .error (keyError .provingKey fault)
  | .ok pk =>
    match decodeKey verifying Keys.verifyingBlocks with
    | .error fault => .error (keyError .verifyingKey fault)
    | .ok vk => .ok ⟨pk, vk⟩

/-- The prover of a shape with given keys. -/
def importKeys (s : Shape) (proving verifying : List UInt8) : Except Error Prover :=
  match s.validate with
  | .error error => .error (.shape error)
  | .ok () =>
    match decodeKeys proving verifying with
    | .error error => .error error
    | .ok keys =>
      match compile s with
      | .error error => .error error
      | .ok circuit =>
        match checkKeys s circuit keys with
        | .error error => .error error
        | .ok () => .ok ⟨s, circuit, keys⟩

end Prover

end MerkleBatch
