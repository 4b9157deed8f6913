import MerkleBatch.Hash
import MerkleBatch.Index

/-!
# Paths

The way from a leaf to the root. At every level the running hash meets its sibling; the bit of the
index for that level says on which side: a set bit puts the running hash on the right.

* `Path.parent`: the hash one level up.
* `Path.root`: the root that a leaf, its index and its siblings lead to.
* `Path.root?`: the same on words, which have no bit for a level beyond the 64th.
-/

namespace MerkleBatch.Path

/-- The hash above `current`, which stands at `position` of its level, beside `sibling`. -/
def parent (position : Nat) (current sibling : Scalar) : Scalar :=
  if position % 2 = 1 then hashNode sibling current else hashNode current sibling

/-- The root above `current` at `position`, with the siblings from this level upwards. -/
def root (current : Scalar) (position : Nat) : List Scalar → Scalar
  | [] => current
  | sibling :: rest => root (parent position current sibling) (position / 2) rest

/-- The root above a leaf; a sibling beyond the 64th stops the computation. -/
def root? (leaf : Scalar) (index : UInt64) (siblings : List Scalar) : Except Overflow Scalar :=
  if siblings.length ≤ wordBits then .ok (root leaf index.toNat siblings) else .error .shiftRight

/-- Whether a leaf is at an index of the tree with the given root. -/
def verify? (expected leaf : Scalar) (index : UInt64) (siblings : List Scalar) :
    Except Overflow Bool :=
  match root? leaf index siblings with
  | .error overflow => .error overflow
  | .ok computed => .ok (computed == expected)

@[simp]
theorem root_nil (current : Scalar) (position : Nat) : root current position [] = current := rfl

@[simp]
theorem root_cons (current : Scalar) (position : Nat) (sibling : Scalar) (rest : List Scalar) :
    root current position (sibling :: rest) =
      root (parent position current sibling) (position / 2) rest := rfl

theorem root?_of_length_le {siblings : List Scalar} (h : siblings.length ≤ wordBits)
    (leaf : Scalar) (index : UInt64) :
    root? leaf index siblings = .ok (root leaf index.toNat siblings) :=
  if_pos h

end MerkleBatch.Path
