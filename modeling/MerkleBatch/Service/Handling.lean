import MerkleBatch.Batch.Replay
import MerkleBatch.Batch.Json
import MerkleBatch.Metrics
import MerkleBatch.Proof.Envelope
import MerkleBatch.Text.Utf8

/-!
# Handling proof requests

A request for a proof holds a batch as text. It is counted when it comes in, and once more when its
outcome is known. Only a batch that passes every check reaches the proof backend, which may prove
it, fail or stop.

* `readBatch`, `admitBody`: the checks of a request's body.
* `Backend.prove`: the proof of a batch behind the checks, with the errors that it may end in.
* `handle`: the outcome of a request, for any backend.
* `Outcome.events`: what is counted.
-/

namespace MerkleBatch

/-- A proof system, by what it makes of a batch: a fold, the compressed fold, and that one as bytes.
Its errors are given as they show. -/
structure Backend (Folded Compressed : Type) where
  fold : Admitted → Except String Folded
  compress : Folded → Except String Compressed
  encode : Compressed → Except String (List UInt8)

namespace Backend

variable {Folded Compressed : Type}

/-- The error of a proof that cannot be written as bytes. -/
def encodeError (shown : String) : Error := .serialization ("Failed to serialize proof: " ++ shown)

/-- The text of the proof of a batch, or why there is none. -/
def prove (b : Backend Folded Compressed) (a : Admitted) : Except Error String := do
  let folded ← (b.fold a).mapError (.prover .prove)
  let proof ← (b.compress folded).mapError (.prover .prove)
  let body ← (b.encode proof).mapError encodeError
  let bytes ← (Envelope.wrap? body).mapError .serialization
  return Envelope.toText bytes

end Backend

/-- What becomes of a batch that passed every check. -/
inductive Attempt where
  /-- A proof in its envelope as text, and how long it took. -/
  | proven (proof : String) (elapsed : Duration)
  | failed (error : Error)
  /-- The computation stopped. -/
  | stopped

/-- What becomes of a batch with a proof system that does not stop. -/
def Backend.attempt {Folded Compressed : Type} (b : Backend Folded Compressed)
    (elapsed : Admitted → Duration) (a : Admitted) : Attempt :=
  match b.prove a with
  | .error error => .failed error
  | .ok proof => .proven proof (elapsed a)

/-- How a request for a proof ends. -/
inductive Outcome where
  | proven (proof : String) (elapsed : Duration)
  /-- The body holds no batch. -/
  | malformed (error : Error)
  /-- The batch is turned away, or the backend failed. -/
  | failed (error : Error)
  /-- The computation stopped. -/
  | stopped

namespace Outcome

/-- What is counted when the outcome is known. -/
def event : Outcome → Event
  | proven _ elapsed => .proof elapsed.milliseconds
  | malformed error => .ofError error
  | failed error => .ofError error
  | stopped => .backendFailure

/-- Everything that is counted for a request. -/
def events (o : Outcome) : List Event := [.request, o.event]

/-- The outcome of an attempt to prove. -/
def ofAttempt : Attempt → Outcome
  | .proven proof elapsed => proven proof elapsed
  | .failed error => failed error
  | .stopped => stopped

/-- The outcome of a batch that fails a check. -/
def ofFailure : Failure → Outcome
  | .error cause => failed cause
  | .stopped _ => stopped

end Outcome

/-- The batch in the body of a request. -/
def readBatch (body : ByteArray) : Except Error Batch :=
  match Utf8.decode body with
  | .error fault => .error (.parse ("request body is not valid UTF-8: " ++ fault.message))
  | .ok text => Batch.ofJson? text

/-- The batch in the body of a request as the backend receives it, or the outcome without it. -/
def admitBody (s : Shape) (body : ByteArray) : Except Outcome Admitted :=
  match readBatch body with
  | .error error => .error (.malformed error)
  | .ok b => (s.examine b).mapError Outcome.ofFailure

/-- The outcome of a request with the given body. -/
def handle (s : Shape) (backend : Admitted → Attempt) (body : ByteArray) : Outcome :=
  match admitBody s body with
  | .error outcome => outcome
  | .ok admitted => .ofAttempt (backend admitted)

end MerkleBatch
