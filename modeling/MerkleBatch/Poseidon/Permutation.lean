import MerkleBatch.Poseidon.Grain

/-!
# The permutation

The Poseidon permutation of three scalars. A round adds its constants, puts the elements through
the S-box `x ^ 5` (all three in a full round, the first in a partial one), and multiplies by the
matrix whose entry in row `i` and column `j` is the inverse of `i + j + 3`.

* `rounds`: the 63 rounds with their constants.
* `permute`: all of them in order.
-/

namespace MerkleBatch.Poseidon

/-- The three scalars that a round acts on. -/
structure State where
  first : Scalar
  second : Scalar
  third : Scalar
deriving DecidableEq

/-- A round: what it adds, and whether every element goes through the S-box. -/
structure Round where
  constants : State
  full : Bool

/-- The rounds of a list of constants, three to a round, numbered from `number` on. -/
def Round.ofConstants (number : Nat) : List Scalar → List Round
  | a :: b :: c :: rest =>
    let full := number < fullRounds / 2 || fullRounds / 2 + partialRounds ≤ number
    ⟨⟨a, b, c⟩, full⟩ :: ofConstants (number + 1) rest
  | _ => []

/-- The rounds of the permutation. -/
def rounds : List Round :=
  Round.ofConstants 0 (Grain.start.scalars (width * (fullRounds + partialRounds)))

/-- The S-box. -/
def sbox (x : Scalar) : Scalar :=
  let square := x * x
  square * square * x

/-- The entry of the matrix in a row and a column whose numbers add up to `n`. -/
def entry (n : Nat) : Scalar := (Scalar.ofNat (n + 3)).inverse

/-- The distinct entries of the matrix, computed once. -/
def entries : Scalar × Scalar × Scalar × Scalar × Scalar :=
  (entry 0, entry 1, entry 2, entry 3, entry 4)

namespace State

/-- `a * first + b * second + c * third`, reduced once. -/
def dot (s : State) (a b c : Scalar) : Scalar :=
  Scalar.ofNat (a.val * s.first.val + b.val * s.second.val + c.val * s.third.val)

/-- The product with the matrix. -/
def mix (s : State) : State :=
  match entries with
  | (m0, m1, m2, m3, m4) => ⟨s.dot m0 m1 m2, s.dot m1 m2 m3, s.dot m2 m3 m4⟩

/-- One round. -/
def apply (s : State) (r : Round) : State :=
  let a := sbox (s.first + r.constants.first)
  let b := s.second + r.constants.second
  let c := s.third + r.constants.third
  mix (if r.full then ⟨a, sbox b, sbox c⟩ else ⟨a, b, c⟩)

end State

/-- All rounds in order. -/
def permute (s : State) : State := rounds.foldl State.apply s

end MerkleBatch.Poseidon
