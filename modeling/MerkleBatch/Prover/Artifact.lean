import MerkleBatch.Prover

/-!
# Artifacts

A prover in one file: its shape, two words of 32 bits with the most significant byte first, and then
the proving key, the verifying key and the compiled circuit. What is read is checked against the
shape, and the keys against the circuit, before it is used. The bytes of keys and circuit stand in
for those of the proof system.

* `Prover.toBytes`: writing.
* `Artifact.read`: reading from the front of a byte string.
* `Prover.ofBytes?`: reading from a byte string that holds nothing else.
-/

namespace MerkleBatch

namespace Artifact

/-- The number of bytes of the shape. -/
def headerSize : Nat := 8

/-- The hash constants at the start of a compiled circuit. -/
def constants : List UInt8 :=
  Poseidon.rounds.flatMap fun r =>
    [r.constants.first, r.constants.second, r.constants.third].flatMap fun a =>
      Bytes.littleEndian Scalar.byteLength a.val

/-- The bytes of a compiled circuit. -/
def circuitBytes (circuit : Circuit.Size) : List UInt8 :=
  constants ++ Bytes.littleEndian 8 circuit.constraintCount ++
    Bytes.littleEndian 8 circuit.variableCount

/-- The compiled circuit in front of a byte string; `none` where the bytes end too early. -/
def takeCircuit? (bytes : List UInt8) : Option (Circuit.Size × List UInt8) :=
  let rest := bytes.drop constants.length
  if bytes.length < constants.length + 16 then none
  else
    let constraintCount := Bytes.ofLittleEndian (rest.take 8)
    let variableCount := Bytes.ofLittleEndian ((rest.drop 8).take 8)
    some (⟨constraintCount, variableCount⟩, rest.drop 16)

/-- The error of a header that cannot be read. -/
def headerError (reason : String) : Error :=
  .serialization ("Failed to read artifact header: " ++ reason)

/-- The error of a part that is cut short. -/
def partError (part : Prover.Part) : Error :=
  .serialization s!"Failed to read {part.name}: io error: failed to fill whole buffer"

/-- What follows an artifact's header, unchecked, and what follows the artifact. -/
def takeParts (bytes : List UInt8) : Except Error ((Keys × Circuit.Size) × List UInt8) :=
  match Blocks.take? bytes Keys.provingBlocks with
  | none => .error (partError .provingKey)
  | some (pk, rest) =>
    match Blocks.take? rest Keys.verifyingBlocks with
    | none => .error (partError .verifyingKey)
    | some (vk, rest) =>
      match takeCircuit? rest with
      | none => .error (partError .constraintSystem)
      | some (circuit, rest) => .ok ((⟨pk, vk⟩, circuit), rest)

/-- Refuses a circuit that is not the one of the shape. -/
def checkCircuit (s : Shape) (circuit : Circuit.Size) : Except Error Unit :=
  Prover.checkSize Prover.compile s circuit

/-- The prover in front of a byte string, and what follows it. -/
def read (bytes : List UInt8) : Except Error (Prover × List UInt8) :=
  if bytes.length < headerSize then
    .error (headerError "failed to fill whole buffer")
  else
    let depth := Bytes.ofBigEndian (bytes.take 4)
    let size := Bytes.ofBigEndian ((bytes.drop 4).take 4)
    let shape : Shape := ⟨UInt32.ofNat depth, UInt32.ofNat size⟩
    match shape.validate with
    | .error error => .error (.shape error)
    | .ok () =>
      match takeParts (bytes.drop headerSize) with
      | .error error => .error error
      | .ok ((keys, circuit), rest) =>
        match checkCircuit shape circuit with
        | .error error => .error error
        | .ok () =>
          match Prover.checkKeys shape circuit keys with
          | .error error => .error error
          | .ok () => .ok (⟨shape, circuit, keys⟩, rest)

end Artifact

namespace Prover

/-- The artifact of a prover. -/
def toBytes (p : Prover) : List UInt8 :=
  Bytes.bigEndian 4 p.shape.treeDepth.toNat ++ Bytes.bigEndian 4 p.shape.batchSize.toNat ++
    p.keys.provingBytes ++ p.keys.verifyingBytes ++ Artifact.circuitBytes p.circuit

/-- The prover in an artifact. -/
def ofBytes? (bytes : List UInt8) : Except Error Prover :=
  match Artifact.read bytes with
  | .error error => .error error
  | .ok (p, []) => .ok p
  | .ok (_, rest) => .error (.serialization s!"Artifact contains {rest.length} trailing bytes")

end Prover

end MerkleBatch
