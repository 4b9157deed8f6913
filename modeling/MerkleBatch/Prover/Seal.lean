import MerkleBatch.Batch.Replay
import MerkleBatch.Prover

/-!
# Seals

The proof system is not part of this library, and an ideal one stands in for it: the transcript of a
proof is a seal of shape and input hash, which the prover puts on a batch only after every check, and
which the verifier recomputes. What callers can observe of a sound proof system, apart from its
bytes, they observe of this one. Nothing that is said of other proof systems rests on it: the
handling of requests is the same for any of them (`Backend`), and so is the reading of envelopes.

* `Prover.prove`: the proof of a batch, or why there is none.
* `Prover.verify`: whether a proof shows an input hash.
-/

namespace MerkleBatch

/-- The tag of seals. -/
def sealTag : Scalar := 13

/-- The seal of an input hash under a shape. -/
def sealOf (s : Shape) (inputHash : Scalar) : Scalar :=
  let shape := (s.treeDepth.toNat <<< 32) + s.batchSize.toNat
  hashTagged sealTag (Scalar.ofNat shape) inputHash

/-- The transcript that holds the seal of an input hash. -/
def sealedTranscript (s : Shape) (inputHash : Scalar) : List UInt8 :=
  (sealOf s inputHash).toBytes ++ List.replicate (Proof.transcriptSize - Scalar.byteLength) 0

theorem length_sealedTranscript (s : Shape) (inputHash : Scalar) :
    (sealedTranscript s inputHash).length = Proof.transcriptSize := by
  rw [sealedTranscript, List.length_append, List.length_replicate, Scalar.length_toBytes]
  decide

namespace Prover

/-- The proof of an input hash. -/
def sealBatch (p : Prover) (inputHash : Scalar) : Proof :=
  ⟨p.shape, sealedTranscript p.shape inputHash, inputHash,
    length_sealedTranscript p.shape inputHash⟩

/-- Proves a batch. -/
def prove (p : Prover) (b : Batch) : Except Failure Proof :=
  match p.shape.examine b with
  | .error failure => .error failure
  | .ok admitted => .ok (p.sealBatch admitted.inputHash)

/-- Refuses a proof of another shape. -/
def checkProofShape (s proof : Shape) : Except Error Unit :=
  if proof = s then .ok () else .error (.shape (.proofShapeMismatch proof s))

/-- Checks that a proof shows an input hash. -/
def verify (p : Prover) (inputHash : Scalar) (proof : Proof) : Except Error Unit :=
  match checkProofShape p.shape proof.shape with
  | .error error => .error error
  | .ok () =>
    if proof.transcript = sealedTranscript p.shape inputHash ∧ proof.output = inputHash then
      .ok ()
    else .error .verificationFailed

end Prover

end MerkleBatch
