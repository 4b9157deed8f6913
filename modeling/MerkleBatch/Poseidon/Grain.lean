import MerkleBatch.Scalar

/-!
# Round constants

The constants of the permutation come from a shift register of 80 bits in self-shrinking mode: of
each pair of bits the register produces, the second is kept if the first is set. A constant is 255
kept bits, most significant first; numbers that are no representative are passed over.

* `Grain.start`: the register of the permutation, from its parameters.
* `Grain.scalars`: the first constants.
-/

namespace MerkleBatch.Poseidon

/-- The width of the state. -/
def width : Nat := 3

/-- Rounds that treat every element of the state alike; half of them come first, half last. -/
def fullRounds : Nat := 8

/-- Rounds in which only the first element goes through the S-box. -/
def partialRounds : Nat := 55

/-- The number of bits of a constant before it is compared with the modulus. -/
def scalarBits : Nat := 255

/-- A shift register: its 40 oldest bits and its 40 newest, the oldest bit least significant. -/
structure Grain where
  older : Nat
  newer : Nat
deriving DecidableEq

namespace Grain

/-- Half the length of the register. -/
def half : Nat := 40

/-- The bits of `n` in a field of the given width, most significant first. -/
def field (bits n : Nat) : List Bool :=
  (List.range bits).map fun i => n.testBit (bits - 1 - i)

/-- The bits that describe the permutation: a prime field, the S-box `x ^ 5`, the size of the
field, the width and the numbers of rounds, filled up with ones. -/
def seed : List Bool :=
  field 2 1 ++ field 4 1 ++ field 12 scalarBits ++ field 12 width ++ field 10 fullRounds ++
    field 10 partialRounds ++ List.replicate 30 true

/-- The number whose bits are given, least significant first. -/
def pack (bits : List Bool) : Nat := bits.foldr (fun b n => 2 * n + b.toNat) 0

/-- The register that holds 80 bits, the oldest first. -/
def ofBits (bits : List Bool) : Grain := ⟨pack (bits.take half), pack (bits.drop half)⟩

/-- The feedback bit, and the register with that bit shifted in. -/
def step (g : Grain) : Bool × Grain :=
  let b := (g.newer.testBit 22 != g.newer.testBit 11) !=
    ((g.older.testBit 38 != g.older.testBit 23) != (g.older.testBit 13 != g.older.testBit 0))
  (b, ⟨g.older / 2 + (g.newer % 2) <<< (half - 1), g.newer / 2 + b.toNat <<< (half - 1)⟩)

/-- The register after `n` bits. -/
def skip : Nat → Grain → Grain
  | 0, g => g
  | n + 1, g => skip n g.step.2

/-- The register before the first constant: 160 bits of the seeded register are passed over. -/
def start : Grain := skip 160 (ofBits seed)

/-- The next kept bit, within `fuel` pairs. -/
def keptBit : Nat → Grain → Bool × Grain
  | 0, g => (false, g)
  | fuel + 1, g =>
    let (first, g) := g.step
    let (second, g) := g.step
    if first then (second, g) else keptBit fuel g

/-- The bound on the pairs and on the numbers that are passed over one after another. -/
def patience : Nat := 256

/-- The number of `bits` kept bits behind the number `n`. -/
def number (n : Nat) : Nat → Grain → Nat × Grain
  | 0, g => (n, g)
  | bits + 1, g =>
    let (b, g) := keptBit patience g
    number (2 * n + b.toNat) bits g

/-- The next number that is a representative, within `fuel` numbers. -/
def scalar : Nat → Grain → Scalar × Grain
  | 0, g => (0, g)
  | fuel + 1, g =>
    let (n, g) := number 0 scalarBits g
    if h : n < modulus then (⟨n, h⟩, g) else scalar fuel g

/-- The next `count` constants. -/
def scalars : Nat → Grain → List Scalar
  | 0, _ => []
  | count + 1, g =>
    let (c, g) := scalar patience g
    c :: scalars count g

end Grain

end MerkleBatch.Poseidon
