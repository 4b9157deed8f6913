import MerkleBatch.Poseidon.Permutation

/-!
# Hashes

One sponge absorbs a tag and two scalars and yields one scalar; the tag keeps the uses of the
hash apart. Tree nodes are hashed from their two children, and a batch is bound to its input hash
by folding its public values in, one after another.

* `hashTagged`: the sponge.
* `hashNode`: the hash of an inner node.
* `inputHash`: the value that binds start index, both roots and the commitments.
-/

namespace MerkleBatch

namespace Poseidon

/-- The first element of a fresh state, which names the pattern "absorb 3, squeeze 1". -/
def patternTag : Scalar := 0xffffffffffffffffffffffb0800060e4

end Poseidon

open Poseidon in
/-- The hash of `x` and `y` under a tag: tag and `x` fill the state, `y` is added between two
permutations, and the second element is the result. Irreducible, so that no proof step runs it. -/
@[irreducible]
def hashTagged (tag x y : Scalar) : Scalar :=
  let s := permute ⟨patternTag, tag, x⟩
  (permute ⟨s.first, s.second + y, s.third⟩).second

/-- The tag of inner nodes. -/
def nodeTag : Scalar := 2

/-- The tag of the input hash. -/
def inputTag : Scalar := 11

/-- The hash of an inner node with the given children. -/
def hashNode (left right : Scalar) : Scalar := hashTagged nodeTag left right

/-- One step of the input hash: `value` is folded into what was bound so far. -/
def bindInput (bound value : Scalar) : Scalar := hashTagged inputTag bound value

/-- The hash that binds the start index, the roots before and after, and the commitments. -/
def inputHash (start : UInt64) (preRoot postRoot : Scalar) (commitments : List Scalar) : Scalar :=
  (preRoot :: postRoot :: commitments).foldl bindInput (Scalar.ofNat start.toNat)

end MerkleBatch
