import MerkleBatch.Scalar.Bytes
import MerkleBatch.Text.Hex
import MerkleBatch.Text.Quoted

/-!
# The written form of a scalar

A scalar is written as `0x` and its hexadecimal digits, most significant first, in lower case and
without leading zeros. It is read from 1 to 64 digits of either case behind `0x` or `0X`, leading
zeros allowed; a number that is no representative is refused, not reduced.

* `Scalar.ofHex?`: reading.
* `Scalar.toHex`: writing.
* `HexError`: the four ways in which a text is no scalar, each with the text itself.
-/

namespace MerkleBatch

/-- Why a text is not the written form of a scalar. -/
inductive HexError where
  | missingPrefix (text : String)
  /-- No digit, or more than 64 bytes, behind the prefix. -/
  | badLength (text : String)
  | badDigits (text : String) (fault : Hex.Fault)
  /-- The digits stand for a number that is not below the modulus. -/
  | tooLarge (text : String)
deriving DecidableEq

/-- The wording of a fault in hexadecimal digits; a byte is shown as the character of its number. -/
def Hex.Fault.message : Hex.Fault → String
  | oddLength => "Odd number of digits"
  | wrongLength => "Invalid string length"
  | badDigit byte position =>
    let shown := Quoted.char (Char.ofNat byte.toNat)
    s!"Invalid character {shown} at position {position}"

namespace HexError

/-- The wording of an error; the text is shown quoted. -/
def message : HexError → String
  | missingPrefix text => "missing 0x prefix: " ++ Quoted.string text
  | badLength text => "invalid hex length for field element: " ++ Quoted.string text
  | badDigits text fault => "invalid hex " ++ Quoted.string text ++ ": " ++ fault.message
  | tooLarge text => "value exceeds field modulus: " ++ Quoted.string text

end HexError

namespace Scalar

/-- What stands behind the prefix of a written scalar. -/
def digits? : List Char → Option (List Char)
  | '0' :: 'x' :: rest => some rest
  | '0' :: 'X' :: rest => some rest
  | _ => none

/-- The bytes that encode a list of characters. -/
def utf8 (text : List Char) : List UInt8 := text.flatMap String.utf8EncodeChar

/-- Zeros in front of the digits, up to as many characters as a representative has digits. -/
def pad (digits : List Char) : List Char :=
  List.replicate (2 * byteLength - digits.length) '0' ++ digits

/-- The scalar that a text denotes, or what is wrong with the text. -/
def ofHex? (text : String) : Except HexError Scalar :=
  match digits? text.toList with
  | none => .error (.missingPrefix text)
  | some digits =>
    if digits = [] ∨ 2 * byteLength < (utf8 digits).length then .error (.badLength text)
    else
      match Hex.decodeExactly byteLength (utf8 (pad digits)) with
      | .error fault => .error (.badDigits text fault)
      | .ok bytes =>
        let value := Bytes.ofBigEndian bytes
        if h : value < modulus then .ok ⟨value, h⟩ else .error (.tooLarge text)

/-- The written form of a scalar: the digits of its bytes without the zeros in front, of which one is
kept where nothing else is left. -/
def toHex (a : Scalar) : String :=
  let digits := (Hex.encodeString (Bytes.bigEndian byteLength a.val)).toList
  match digits.dropWhile (· = '0') with
  | [] => "0x0"
  | c :: rest => "0x" ++ String.ofList (c :: rest)

end Scalar

end MerkleBatch
