import MerkleBatch.Decimal
import MerkleBatch.Metrics

/-!
# Summaries

One line about a proof that was made, and one about a proof that was checked. Seconds and kilobytes
have one decimal place, milliseconds none.

* `ProofSummary.text`, `VerificationSummary.text`: the lines.
-/

namespace MerkleBatch

/-- What there is to say about a proof that was made. -/
structure ProofSummary where
  duration : Duration
  /-- The number of bytes of the proof. -/
  size : UInt64
  treeDepth : UInt32
  batchSize : UInt32

namespace ProofSummary

/-- The size in units of 1024 bytes. -/
def kilobytes (s : ProofSummary) : Float := s.size.toFloat / 1024

/-- The line. -/
def text (s : ProofSummary) : String :=
  let seconds := Decimal.fixed 1 s.duration.seconds
  let kilobytes := Decimal.fixed 1 s.kilobytes
  s!"Proved {s.batchSize} insertions (depth {s.treeDepth}) in {seconds}s, " ++
    s!"proof size {kilobytes} KB"

end ProofSummary

/-- What there is to say about a proof that was checked. -/
structure VerificationSummary where
  duration : Duration
  valid : Bool

namespace VerificationSummary

/-- The line. -/
def text (s : VerificationSummary) : String :=
  let outcome := if s.valid then "valid" else "invalid"
  let milliseconds := Decimal.fixed 0 (s.duration.seconds * 1000)
  s!"Proof {outcome} (checked in {milliseconds}ms)"

end VerificationSummary

end MerkleBatch
