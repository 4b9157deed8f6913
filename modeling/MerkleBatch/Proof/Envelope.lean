import MerkleBatch.Bytes
import MerkleBatch.Scalar.Hex

/-!
# Envelopes

A proof travels in an envelope: four magic bytes, the version of the format and the length of the
body, both with the least significant byte first, and then the body and nothing else. As text the
envelope is written in hexadecimal digits behind `0x`.

* `Envelope.wrap?`, `Envelope.body?`: putting a body in, and taking it out.
* `Envelope.ofText?`, `Envelope.toText`: the form as text.
* `body?_wrap`: a body that is not too long comes out again.
-/

namespace MerkleBatch.Envelope

/-- The bytes at the start of every envelope: the letters `MBUP`. -/
def magic : List UInt8 := [0x4D, 0x42, 0x55, 0x50]

/-- The version of the format. -/
def version : Nat := 1

/-- The number of bytes in front of the body. -/
def headerSize : Nat := 10

/-- What is wrong with an envelope; the first that applies is reported. -/
inductive Fault where
  | noHeader
  | wrongMagic
  | wrongVersion (found : Nat)
  | truncated
  | trailing
deriving DecidableEq

namespace Fault

/-- The wording of a fault. -/
def message : Fault → String
  | noHeader => "Proof bytes too short for header"
  | wrongMagic => "Invalid magic bytes in proof"
  | wrongVersion found => s!"Unsupported proof format version: {found}"
  | truncated => "Proof bytes truncated"
  | trailing => "Proof bytes contain trailing data"

end Fault

/-- The envelope around a body. -/
def wrap (body : List UInt8) : List UInt8 :=
  magic ++ Bytes.littleEndian 2 version ++ Bytes.littleEndian 4 body.length ++ body

/-- The envelope around a body, unless no header can hold the length of the body. -/
def wrap? (body : List UInt8) : Except String (List UInt8) :=
  if body.length < 0x100000000 then .ok (wrap body) else .error "Proof too large for envelope"

/-- The version that an envelope names. -/
def versionOf (bytes : List UInt8) : Nat := Bytes.ofLittleEndian ((bytes.drop 4).take 2)

/-- The length of the body that an envelope names. -/
def lengthOf (bytes : List UInt8) : Nat := Bytes.ofLittleEndian ((bytes.drop 6).take 4)

/-- The body in an envelope. -/
def body? (bytes : List UInt8) : Except Fault (List UInt8) :=
  if bytes.length < headerSize then .error .noHeader
  else if bytes.take 4 ≠ magic then .error .wrongMagic
  else if versionOf bytes ≠ version then .error (.wrongVersion (versionOf bytes))
  else if bytes.length < headerSize + lengthOf bytes then .error .truncated
  else if headerSize + lengthOf bytes < bytes.length then .error .trailing
  else .ok (bytes.drop headerSize)

theorem length_wrap (body : List UInt8) : (wrap body).length = headerSize + body.length := by
  simp [wrap, magic, headerSize]
  omega

theorem body?_wrap {body : List UInt8} (h : body.length < 0x100000000) :
    body? (wrap body) = .ok body := by
  have hmagic : (wrap body).take 4 = magic := rfl
  have hversion : versionOf (wrap body) = version := rfl
  have hlength : lengthOf (wrap body) = body.length := by
    have : ((wrap body).drop 6).take 4 = Bytes.littleEndian 4 body.length := by
      simp [wrap, magic, Bytes.littleEndian]
    rw [lengthOf, this, Bytes.ofLittleEndian_littleEndian h]
  have hbody : (wrap body).drop headerSize = body := by
    simp [wrap, magic, headerSize, Bytes.littleEndian]
  simp [body?, hmagic, hversion, hlength, hbody, length_wrap]

/-! ## As text -/

/-- The digits in the text of an envelope, as bytes of the text. -/
def textDigits? (text : String) : Option (List UInt8) :=
  match text.toList with
  | '0' :: 'x' :: rest => some (Scalar.utf8 rest)
  | _ => none

/-- Why a text is not that of a byte string. -/
inductive TextFault where
  | missingPrefix
  | badDigits (fault : Hex.Fault)
deriving DecidableEq

namespace TextFault

/-- The wording of a fault. -/
def message : TextFault → String
  | missingPrefix => "proof is missing 0x prefix"
  | badDigits fault => "invalid proof hex: " ++ fault.message

end TextFault

/-- The bytes of an envelope from its text. -/
def ofText? (text : String) : Except TextFault (List UInt8) :=
  match textDigits? text with
  | none => .error .missingPrefix
  | some digits => (Hex.decode digits).mapError .badDigits

/-- The text of an envelope. -/
def toText (bytes : List UInt8) : String := "0x" ++ Hex.encodeString bytes

end MerkleBatch.Envelope
