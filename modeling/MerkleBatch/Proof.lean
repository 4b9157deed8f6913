import MerkleBatch.Error
import MerkleBatch.Json.Reader
import MerkleBatch.Json.Value
import MerkleBatch.Proof.Envelope

/-!
# Proofs

A proof names the shape of the system that made it. Then come the transcript, by which the verifier
is convinced, and the output of the circuit, which is the input hash again. What a transcript is and
how a body lists its parts is up to the proof system, which is not part of this library; the one
here stands in for it, with transcripts of a fixed length.

* `Proof.encode`, `Proof.decode?`: the body of an envelope.
* `Proof.toBytes`, `Proof.ofBytes?`: a proof in its envelope.
* `Proof.toText`, `Proof.ofText?`: the envelope as text.
* `Proof.toJson`, `Proof.ofJson?`: a record whose one member is that text.
* `wrap?_encode`: a proof always has an envelope.
-/

namespace MerkleBatch

/-- The number of bytes of a transcript, here the same for all shapes. -/
def Proof.transcriptSize : Nat := 0x2840

/-- A proof. -/
structure Proof where
  shape : Shape
  transcript : List UInt8
  output : Scalar
  length_transcript : transcript.length = Proof.transcriptSize
deriving DecidableEq

/-- Why bytes hold no value of some kind. -/
inductive DecodeFault where
  | endOfData
  /-- The bytes of a scalar stand for no representative. -/
  | noScalar
  | remaining
deriving DecidableEq

namespace DecodeFault

/-- The wording of a fault. -/
def message : DecodeFault → String
  | endOfData => "io error: unexpected end of file"
  | noScalar => "deserialized bytes don't encode a valid field element"
  | remaining => "Slice had bytes remaining after deserialization"

end DecodeFault

namespace Proof

/-- The number of bytes of a body. -/
def bodySize : Nat := 8 + transcriptSize + Scalar.byteLength

/-- The body of a proof. -/
def encode (p : Proof) : List UInt8 :=
  Bytes.littleEndian 4 p.shape.treeDepth.toNat ++ Bytes.littleEndian 4 p.shape.batchSize.toNat ++
    p.transcript ++ p.output.toBytes

theorem length_encode (p : Proof) : p.encode.length = bodySize := by
  simp [encode, p.length_transcript, bodySize]
  omega

theorem length_transcript_of_body {body : List UInt8} (h : ¬ body.length < bodySize) :
    ((body.drop 8).take transcriptSize).length = transcriptSize := by
  rw [bodySize] at h
  rw [List.length_take, List.length_drop]
  omega

/-- The proof in front of a body; what follows it is looked at last. -/
def decode? (body : List UInt8) : Except DecodeFault Proof :=
  if h : body.length < bodySize then .error .endOfData
  else
    let depth := Bytes.ofLittleEndian (body.take 4)
    let size := Bytes.ofLittleEndian ((body.drop 4).take 4)
    let rest := body.drop 8
    match Scalar.ofBytes? ((rest.drop transcriptSize).take Scalar.byteLength) with
    | none => .error .noScalar
    | some output =>
      if bodySize < body.length then .error .remaining
      else
        .ok ⟨⟨UInt32.ofNat depth, UInt32.ofNat size⟩, rest.take transcriptSize, output,
          length_transcript_of_body h⟩

/-- The envelope of a proof. -/
def toBytes (p : Proof) : List UInt8 := Envelope.wrap p.encode

/-- Bodies have a fixed length, which a header can hold. -/
theorem wrap?_encode (p : Proof) : Envelope.wrap? p.encode = .ok p.toBytes := by
  rw [Envelope.wrap?, p.length_encode, if_pos (by decide), toBytes]

/-- The proof in an envelope. -/
def ofBytes? (bytes : List UInt8) : Except Error Proof :=
  match Envelope.body? bytes with
  | .error fault => .error (.serialization fault.message)
  | .ok body =>
    match decode? body with
    | .error fault => .error (.serialization ("Failed to deserialize proof: " ++ fault.message))
    | .ok p => .ok p

/-- The envelope of a proof as text. -/
def toText (p : Proof) : String := Envelope.toText p.toBytes

/-- The proof in the text of an envelope. -/
def ofText? (text : String) : Except Error Proof :=
  match Envelope.ofText? text with
  | .error fault => .error (.parse fault.message)
  | .ok bytes => ofBytes? bytes

/-! ## As a record -/

open Json

/-- Records with the text of a proof. -/
def record : Record (Option String) String where
  name := "struct ProofJson"
  members := [
    { name := "proof"
      optional := false
      isSet := Option.isSome
      reader := Reader.string.map fun v _ => some v }]
  blank := none
  complete := required "proof"

/-- The error of a text that holds no such record. -/
def jsonError : Fault → Error
  | .malformed => .malformed
  | fault => .parse fault.message

/-- The proof in a text. -/
def ofJson? (text : String) : Except Error Proof :=
  match decode record.reader pure text with
  | .error fault => .error (jsonError fault)
  | .ok proof => ofText? proof

/-- The text of a proof's record, on one line. -/
def toJson (p : Proof) : String :=
  String.ofList (['{'] ++ quote "proof" ++ [':'] ++ quote p.toText ++ ['}'])

end Proof

end MerkleBatch
