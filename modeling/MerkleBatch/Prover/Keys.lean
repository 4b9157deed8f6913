import MerkleBatch.Bytes
import MerkleBatch.Circuit.Size

/-!
# Keys

The keys of a proving system are made from its constraint system alone, so there is one pair of
keys for each circuit. What keys consist of is up to the proof system, which is not part of this
library. The keys here stand in for its own: a key is a fixed number of blocks, the first of which
names the circuit; as bytes, each block stands behind its length, a word with the least significant
byte first.

* `Keys.ofSize`: the keys of the circuit of a size.
* `Blocks.encode`, `Blocks.take?`: blocks as bytes.
-/

namespace MerkleBatch

namespace Blocks

/-- The bytes of blocks. -/
def encode (blocks : List (List UInt8)) : List UInt8 :=
  blocks.flatMap fun block => Bytes.littleEndian 8 block.length ++ block

/-- The blocks in front of a byte string, `count` of them, and what follows; `none` where the bytes
end too early. -/
def take? (bytes : List UInt8) : Nat → Option (List (List UInt8) × List UInt8)
  | 0 => some ([], bytes)
  | count + 1 =>
    let length := Bytes.ofLittleEndian (bytes.take 8)
    let rest := bytes.drop 8
    if bytes.length < 8 ∨ rest.length < length then none
    else (take? (rest.drop length) count).map fun (blocks, after) =>
      (rest.take length :: blocks, after)

end Blocks

/-- The keys of a proving system. -/
structure Keys where
  proving : List (List UInt8)
  verifying : List (List UInt8)
deriving DecidableEq

namespace Keys

/-- The number of blocks of a proving key. -/
def provingBlocks : Nat := 18

/-- The number of blocks of a verifying key. -/
def verifyingBlocks : Nat := 87

/-- A key that names its circuit in the first block, and leaves the others empty. -/
def named (size : Circuit.Size) (blocks : Nat) : List (List UInt8) :=
  (Bytes.littleEndian 8 size.constraintCount ++ Bytes.littleEndian 8 size.variableCount) ::
    List.replicate (blocks - 1) []

/-- The keys of the circuit of a size. -/
def ofSize (size : Circuit.Size) : Keys := ⟨named size provingBlocks, named size verifyingBlocks⟩

/-- The bytes of the proving key. -/
def provingBytes (k : Keys) : List UInt8 := Blocks.encode k.proving

/-- The bytes of the verifying key. -/
def verifyingBytes (k : Keys) : List UInt8 := Blocks.encode k.verifying

end Keys

end MerkleBatch
