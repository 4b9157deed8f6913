/-!
# Hexadecimal text

Byte strings written with two digits per byte. Reading takes digits of either case and works on
the bytes of the text, so that a character outside ASCII is refused at its first byte; writing uses
lower case.

* `Hex.decode`, `Hex.decodeExactly`: reading any number of bytes, or a given one.
* `Hex.encodeString`: writing.
-/

namespace MerkleBatch.Hex

/-- Why a text is not the hexadecimal form of a byte string. -/
inductive Fault where
  /-- The text has an odd number of bytes. -/
  | oddLength
  /-- The text has an even number of bytes, but another one than was asked for. -/
  | wrongLength
  /-- The byte at this place of the text is no digit. -/
  | badDigit (byte : UInt8) (position : Nat)
deriving DecidableEq

/-- The value of a digit of either case, given as a byte of the text. -/
def digitValue? (byte : UInt8) : Option Nat :=
  let n := byte.toNat
  if 48 ≤ n ∧ n ≤ 57 then some (n - 48)
  else if 65 ≤ n ∧ n ≤ 70 then some (n - 55)
  else if 97 ≤ n ∧ n ≤ 102 then some (n - 87)
  else none

/-- The lower-case digit of a value below 16, as a byte of the text. -/
def digitOf (n : Nat) : UInt8 := UInt8.ofNat (if n < 10 then n + 48 else n + 87)

/-- Reads pairs of digits from the place `position` on; the first byte that is no digit decides. -/
def decodePairs (position : Nat) : List UInt8 → Except Fault (List UInt8)
  | [] => .ok []
  | [_] => .error .oddLength
  | high :: low :: rest =>
    match digitValue? high, digitValue? low with
    | none, _ => .error (.badDigit high position)
    | some _, none => .error (.badDigit low (position + 1))
    | some h, some l =>
      match decodePairs (position + 2) rest with
      | .error fault => .error fault
      | .ok bytes => .ok (UInt8.ofNat (16 * h + l) :: bytes)

/-- The byte string that a text of digits stands for. -/
def decode (text : List UInt8) : Except Fault (List UInt8) :=
  if text.length % 2 = 1 then .error .oddLength else decodePairs 0 text

/-- The byte string of `size` bytes that a text of digits stands for. -/
def decodeExactly (size : Nat) (text : List UInt8) : Except Fault (List UInt8) :=
  if text.length % 2 = 1 then .error .oddLength
  else if text.length ≠ 2 * size then .error .wrongLength
  else decodePairs 0 text

/-- The digits of a byte string, as bytes of a text. -/
def encode : List UInt8 → List UInt8
  | [] => []
  | byte :: rest => digitOf (byte.toNat / 16) :: digitOf (byte.toNat % 16) :: encode rest

/-- The digits of a byte string. -/
def encodeString (bytes : List UInt8) : String :=
  String.ofList ((encode bytes).map fun byte => Char.ofNat byte.toNat)

end MerkleBatch.Hex
