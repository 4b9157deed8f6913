/-!
# Decimal texts of doubles

A finite double is `± m * 2 ^ e`. It is taken apart, and its magnitude is a quotient of natural
numbers, in which the printers compute without rounding.

With a given number of decimal places a non-negative double is rounded from its exact value; a value
half-way between two candidates goes to the even one.

The shortest text of a double has the fewest digits that read back as it. The reals that read back
as a double form an interval around it, whose ends belong to it when the mantissa is even. For each
number of digits the two neighbours of the value on that decimal grid are tried; the first grid
that has one in the interval wins, and of two the nearer one.

* `Dyadic.ofFloat`, `Dyadic.ratio`: the parts of a finite double, and its magnitude as a quotient.
* `fixed`: the text with a number of decimal places.
* `shortestDigits`: the fewest digits, with the decimal exponent of the first.
* `Layout.render`: digits and exponent as text, positional or with an exponent.
* `shortest`: the shortest text.
-/

namespace MerkleBatch.Decimal

/-- A finite double, taken apart. -/
structure Dyadic where
  negative : Bool
  mantissa : Nat
  exponent : Int
deriving DecidableEq

namespace Dyadic

/-- The exponent of the last place of the smallest doubles. -/
def leastExponent : Int := -1074

/-- The parts of a finite double. The mantissa of a normal one has its leading bit restored. -/
def ofFloat (x : Float) : Dyadic :=
  let bits : Nat := x.toBits.toNat
  let fraction : Nat := bits % (1 <<< 52)
  let biased : Nat := (bits >>> 52) % (1 <<< 11)
  if biased = 0 then ⟨bits.testBit 63, fraction, leastExponent⟩
  else ⟨bits.testBit 63, fraction + (1 <<< 52), (biased : Int) - 1 + leastExponent⟩

/-- `n * 2 ^ e` as a quotient. -/
def scaled (n : Nat) (e : Int) : Nat × Nat := (n <<< e.toNat, 1 <<< (-e).toNat)

/-- The magnitude as a quotient. -/
def ratio (x : Dyadic) : Nat × Nat := scaled x.mantissa x.exponent

end Dyadic

/-! ## Fixed places -/

/-- The natural number nearest to `num / den`, the even one of two. -/
def roundHalfEven (num den : Nat) : Nat :=
  let q := num / den
  let twice := 2 * (num % den)
  if twice < den then q
  else if den < twice then q + 1
  else if q % 2 = 0 then q else q + 1

/-- The decimal digits of `n`, at least `width` of them. -/
def digitsOfWidth (width n : Nat) : List Char :=
  let digits := Nat.toDigits 10 n
  List.replicate (width - digits.length) '0' ++ digits

/-- The text of the magnitude of a finite double with `places` decimal places. -/
def fixed (places : Nat) (x : Float) : String :=
  let (num, den) := (Dyadic.ofFloat x).ratio
  let unit := Nat.pow 10 places
  let n := roundHalfEven (num * unit) den
  if places = 0 then toString n
  else toString (n / unit) ++ "." ++ String.ofList (digitsOfWidth places (n % unit))

/-! ## Shortest text -/

/-- The greatest `d` with `10 ^ d ≤ num / den`, for `num / den` below `10 ^ start`. -/
def leadingExponent (num den : Nat) (start : Int) : Nat → Int
  | 0 => start
  | fuel + 1 =>
    let d := start - 1
    if den * Nat.pow 10 d.toNat ≤ num * Nat.pow 10 (-d).toNat then d
    else leadingExponent num den d fuel

/-- Every double is below this power of ten. -/
def greatestExponent : Int := 310

/-- The number of decimal exponents that doubles have. -/
def exponentCount : Nat := 650

/-- The interval of reals that read back as a double, in units of a quarter of its last place:
the value and the distances to both ends. -/
structure Neighbourhood where
  value : Nat
  below : Nat
  above : Nat
  /-- Whether the ends belong to the interval. -/
  closed : Bool

/-- Below a power of two the neighbouring double is half as far away. -/
def Neighbourhood.of (x : Dyadic) : Neighbourhood :=
  let atPower := x.mantissa = 1 <<< 52 ∧ Dyadic.leastExponent < x.exponent
  { value := 4 * x.mantissa
    below := if atPower then 1 else 2
    above := 2
    closed := x.mantissa % 2 = 0 }

/-- Whether `candidate * unitNum / unitDen` quarters of the last place lie in the interval. -/
def Neighbourhood.holds (n : Neighbourhood) (candidate unitNum unitDen : Nat) : Bool :=
  let c := candidate * unitNum
  let lo := (n.value - n.below) * unitDen
  let hi := (n.value + n.above) * unitDen
  if n.closed then lo ≤ c && c ≤ hi else lo < c && c < hi

/-- The digits of the shortest decimal on a grid with at most `fuel` more digits than `count`,
and the exponent of the first digit. -/
def searchGrids (n : Neighbourhood) (quarter : Int) (first : Int) :
    Nat → Nat → List Char × Int
  | 0, _ => (['0'], 0)
  | fuel + 1, count =>
    let unit := first - (count : Int) + 1
    -- One unit of the grid, in quarters of the last place.
    let unitNum := Nat.pow 10 unit.toNat <<< (-quarter).toNat
    let unitDen := Nat.pow 10 (-unit).toNat <<< quarter.toNat
    let low := n.value * unitDen / unitNum
    let rest := n.value * unitDen % unitNum
    let lowHolds := n.holds low unitNum unitDen
    let highHolds := n.holds (low + 1) unitNum unitDen
    if lowHolds || highHolds then
      let takeLow := lowHolds &&
        (!highHolds || 2 * rest < unitNum || (2 * rest = unitNum && low % 2 = 0))
      let digits := Nat.toDigits 10 (if takeLow then low else low + 1)
      -- The upper neighbour may have one digit more.
      (digits, first + ((digits.length : Int) - count))
    else searchGrids n quarter first fuel (count + 1)

/-- Seventeen digits tell any two doubles apart. -/
def maxDigits : Nat := 17

/-- Without the zeros at the end, but never empty. -/
def dropTrailingZeros (digits : List Char) : List Char :=
  match (digits.reverse.dropWhile (· = '0')).reverse with
  | [] => ['0']
  | kept => kept

/-- The fewest digits that read back as a positive double, and the decimal exponent of the first. -/
def shortestDigits (x : Dyadic) : List Char × Int :=
  let (num, den) := x.ratio
  let first := leadingExponent num den greatestExponent exponentCount
  let (digits, exponent) := searchGrids (.of x) (x.exponent - 2) first maxDigits 1
  (dropTrailingZeros digits, exponent)

/-- Which decimal exponents are written positionally. -/
structure Layout where
  least : Int
  /-- Exponents from here on are written out. -/
  bound : Int

/-- The text of digits with the exponent of the first: positional with at least one decimal, or
with one digit in front of the point and a signed exponent. -/
def Layout.render (l : Layout) (digits : List Char) (exponent : Int) : String :=
  let text : List Char :=
    if l.least ≤ exponent ∧ exponent < l.bound then
      if exponent < 0 then
        ['0', '.'] ++ List.replicate (-exponent - 1).toNat '0' ++ digits
      else
        let whole := exponent.toNat + 1
        let front := digits.take whole ++ List.replicate (whole - digits.length) '0'
        match digits.drop whole with
        | [] => front ++ ['.', '0']
        | decimals => front ++ '.' :: decimals
    else
      let mantissa :=
        match digits with
        | [] => ['0']
        | [d] => [d]
        | d :: rest => d :: '.' :: rest
      mantissa ++ ['e', if exponent < 0 then '-' else '+'] ++ Nat.toDigits 10 exponent.natAbs
  String.ofList text

/-- Numbers from `10 ^ -5` up to `10 ^ 16` are written positionally. -/
def plainLayout : Layout := ⟨-5, 16⟩

/-- The shortest text of a finite double. -/
def shortest (x : Float) : String :=
  let d := Dyadic.ofFloat x
  let magnitude :=
    if d.mantissa = 0 then "0.0"
    else
      let (digits, exponent) := shortestDigits d
      plainLayout.render digits exponent
  if d.negative then "-" ++ magnitude else magnitude

end MerkleBatch.Decimal
