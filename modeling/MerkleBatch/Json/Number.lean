import MerkleBatch.Decimal

/-!
# Numbers in JSON

A number is written as an optional minus, a whole part without superfluous zeros, and optionally a
fraction and an exponent. A whole number that fits a signed or an unsigned word is read exactly;
any other number is read as a double, which is formed from as many leading digits as fit a word.

* `Literal`: the parts of a written number.
* `Literal.scan?`: the number at the start of a text.
* `Literal.number`: what it stands for.
-/

namespace MerkleBatch.Json

/-- Whether a character is a decimal digit. -/
def isDigit (c : Char) : Bool := '0' ≤ c && c ≤ '9'

/-- The value of a decimal digit. -/
def digitValue (c : Char) : Nat := c.toNat - 48

/-- The parts of a written number. -/
structure Literal where
  negative : Bool
  /-- The digits before the point. -/
  whole : List Char
  /-- The digits behind the point, none if there is no point. -/
  fraction : List Char
  /-- Whether the exponent is negative, and its digits. -/
  exponent : Option (Bool × List Char)
deriving DecidableEq

/-- What a number stands for. -/
inductive Number where
  | integer (n : Int)
  /-- A double, by its shortest decimal form. -/
  | floating (shown : String)
  /-- A number beyond all doubles. -/
  | outOfRange
deriving DecidableEq

namespace Literal

/-- Whether an exponent is negative, and what follows its sign. -/
def exponentSign : List Char → Bool × List Char
  | '+' :: rest => (false, rest)
  | '-' :: rest => (true, rest)
  | text => (false, text)

/-- The number in front of a text, from behind its fraction on; an exponent needs a digit. -/
def scanExponent? (negative : Bool) (whole fraction : List Char) :
    List Char → Option (Literal × List Char)
  | [] => some (⟨negative, whole, fraction, none⟩, [])
  | c :: rest =>
    if c = 'e' ∨ c = 'E' then
      let (down, rest) := exponentSign rest
      let digits := rest.takeWhile isDigit
      if digits = [] then none
      else some (⟨negative, whole, fraction, some (down, digits)⟩, rest.dropWhile isDigit)
    else some (⟨negative, whole, fraction, none⟩, c :: rest)

/-- The number in front of a text, from behind its whole part on; a point needs a digit. -/
def scanFraction? (negative : Bool) (whole : List Char) : List Char → Option (Literal × List Char)
  | [] => scanExponent? negative whole [] []
  | c :: rest =>
    if c = '.' then
      let digits := rest.takeWhile isDigit
      if digits = [] then none else scanExponent? negative whole digits (rest.dropWhile isDigit)
    else scanExponent? negative whole [] (c :: rest)

/-- The number in front of a text, from behind its sign on; a zero in front of other digits makes
it none. -/
def scanWhole? (negative : Bool) : List Char → Option (Literal × List Char)
  | [] => none
  | c :: rest =>
    if !isDigit c then none
    else
      let more := rest.takeWhile isDigit
      if c = '0' ∧ more ≠ [] then none
      else scanFraction? negative (c :: more) (rest.dropWhile isDigit)

/-- The number in front of a text, and what follows it. -/
def scan? : List Char → Option (Literal × List Char)
  | [] => none
  | c :: rest => if c = '-' then scanWhole? true rest else scanWhole? false (c :: rest)

theorem length_dropWhile_isDigit (text : List Char) :
    (text.dropWhile isDigit).length ≤ text.length :=
  (List.dropWhile_suffix isDigit).length_le

theorem length_exponentSign (text : List Char) : (exponentSign text).2.length ≤ text.length := by
  unfold exponentSign
  split <;> simp

theorem length_of_scanExponent? {negative : Bool} {whole fraction text rest : List Char}
    {l : Literal} (h : scanExponent? negative whole fraction text = some (l, rest)) :
    rest.length ≤ text.length := by
  cases text with
  | nil =>
    cases h
    exact Nat.le_refl _
  | cons c text =>
    simp only [scanExponent?] at h
    split at h
    · split at h
      · cases h
      · cases h
        have := length_dropWhile_isDigit (exponentSign text).2
        have := length_exponentSign text
        simp only [List.length_cons]
        omega
    · cases h
      exact Nat.le_refl _

theorem length_of_scanFraction? {negative : Bool} {whole text rest : List Char} {l : Literal}
    (h : scanFraction? negative whole text = some (l, rest)) : rest.length ≤ text.length := by
  cases text with
  | nil => exact length_of_scanExponent? h
  | cons c text =>
    simp only [scanFraction?] at h
    split at h
    · split at h
      · cases h
      · have := length_of_scanExponent? h
        have := length_dropWhile_isDigit text
        simp only [List.length_cons]
        omega
    · exact length_of_scanExponent? h

theorem length_of_scanWhole? {negative : Bool} {text rest : List Char} {l : Literal}
    (h : scanWhole? negative text = some (l, rest)) : rest.length < text.length := by
  cases text with
  | nil => cases h
  | cons c text =>
    simp only [scanWhole?] at h
    split at h
    · cases h
    · split at h
      · cases h
      · have := length_of_scanFraction? h
        have := length_dropWhile_isDigit text
        simp only [List.length_cons]
        omega

/-- A number takes up at least one character. -/
theorem length_of_scan? {text rest : List Char} {l : Literal}
    (h : scan? text = some (l, rest)) : rest.length < text.length := by
  cases text with
  | nil => cases h
  | cons c text =>
    simp only [scan?] at h
    split at h
    · exact Nat.lt_succ_of_lt (length_of_scanWhole? h)
    · exact length_of_scanWhole? h

/-! ## Values -/

/-- The greatest number of an unsigned word. -/
def maxWord : Nat := 0xFFFFFFFFFFFFFFFF

/-- Reads digits onto `n` while a word holds the result; what is left begins with the first digit
that has no place. -/
def absorb (n : Nat) : List Char → Nat × List Char
  | [] => (n, [])
  | c :: rest =>
    let next := 10 * n + digitValue c
    if next ≤ maxWord then absorb next rest else (n, c :: rest)

/-- An exponent from which on every number but zero is beyond all doubles, or below them. -/
def maxExponent : Nat := 0x80000000

/-- The number that the digits of an exponent stand for, or `maxExponent` if it is greater. -/
def exponentValue (digits : List Char) : Nat :=
  digits.foldl (fun n c => min maxExponent (10 * n + digitValue c)) 0

/-- The greatest power of ten that is applied in one operation. -/
def maxPower : Nat := 308

/-- The double nearest to a power of ten. -/
def powerOfTen (e : Nat) : Float := Float.ofScientific 1 false e

/-- Scales `x` by a power of ten, in steps of at most `maxPower` downwards; a result beyond all
doubles is none. -/
def scale? (x : Float) (exponent : Int) : Option Float :=
  if exponent.natAbs ≤ maxPower then
    if 0 ≤ exponent then
      let scaled := x * powerOfTen exponent.natAbs
      if scaled.isInf then none else some scaled
    else some (x / powerOfTen exponent.natAbs)
  else if x == 0 then some x
  else if 0 ≤ exponent then none
  else scale? (x / powerOfTen maxPower) (exponent + maxPower)
termination_by exponent.natAbs
decreasing_by
  simp only [maxPower] at *
  omega

/-- The double nearest to a number that a word holds. -/
def ofWord (n : Nat) : Float := (UInt64.ofNat n).toFloat

/-- The double of a sign and a magnitude. -/
def signed (negative : Bool) : Option Float → Number
  | none => .outOfRange
  | some x => .floating (Decimal.shortest (if negative then -x else x))

/-- What a written number stands for. Digits of the whole part that no word holds count as powers
of ten, those of the fraction are dropped. -/
def number (l : Literal) : Number :=
  let (significand, beyond) := absorb 0 l.whole
  if l.fraction = [] ∧ l.exponent = none ∧ beyond = [] then
    if !l.negative then .integer significand
    else if 0 < significand ∧ significand ≤ 0x8000000000000000 then .integer (-significand)
    else signed true (some (ofWord significand))
  else
    let (significand, dropped) := absorb significand l.fraction
    let places : Int := beyond.length - (l.fraction.length - dropped.length)
    let exponent : Int := match l.exponent with
      | none => 0
      | some (true, digits) => -exponentValue digits
      | some (false, digits) => exponentValue digits
    signed l.negative (scale? (ofWord significand) (places + exponent))

end Literal

end MerkleBatch.Json
