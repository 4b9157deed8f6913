import MerkleBatch.Error
import MerkleBatch.Json.Value

/-!
# Metrics

Counters of a running service, and the measured times that go into them. Counters are words and wrap
around. Each is added to on its own, so other handlers may add to theirs between two updates of one
event.

* `Duration`: a measured time, as milliseconds or as seconds.
* `Event`: what is counted; `Event.ofError` is the event of a request that ends in an error.
* `Update`, `Event.updates`: what an event adds to one counter at a time.
* `Metrics.record`: the counters after an event.
-/

namespace MerkleBatch

/-- The number of nanoseconds in a second. -/
def nanosPerSecond : Nat := 1000000000

/-- A length of time: whole seconds, and nanoseconds below one second. -/
structure Duration where
  secs : UInt64
  nanos : Nat
  nanos_lt : nanos < nanosPerSecond
deriving DecidableEq

namespace Duration

/-- The duration of so many seconds and nanoseconds; there is none where a word cannot hold its
seconds. -/
def ofParts? (secs nanos : Nat) : Option Duration :=
  let total := secs + nanos / nanosPerSecond
  if total < 1 <<< 64 then
    some ⟨UInt64.ofNat total, nanos % nanosPerSecond, Nat.mod_lt _ (by decide)⟩
  else none

/-- No time. -/
def zero : Duration := ⟨0, 0, by decide⟩

/-- The whole milliseconds; the count wraps around at the end of a word. -/
def milliseconds (d : Duration) : UInt64 :=
  UInt64.ofNat (d.secs.toNat * 1000 + d.nanos / 1000000)

/-- The seconds as a double. -/
def seconds (d : Duration) : Float := d.secs.toFloat + (UInt64.ofNat d.nanos).toFloat / 1e9

end Duration

/-- The counters of a service. -/
structure Metrics where
  requestsTotal : UInt64
  proofsGenerated : UInt64
  malformedRequests : UInt64
  rejectedBatches : UInt64
  backendFailures : UInt64
  provingTimeTotal : UInt64
deriving DecidableEq

/-- What a service counts. -/
inductive Event where
  /-- A request has come in. -/
  | request
  /-- A proof is ready, after so many milliseconds. -/
  | proof (milliseconds : UInt64)
  /-- A request held no batch. -/
  | malformed
  /-- A batch was turned away. -/
  | rejected
  /-- The proof backend failed. -/
  | backendFailure
deriving DecidableEq

/-- What is added to a counter in one go. -/
inductive Update where
  | request
  | proof
  | provingTime (milliseconds : UInt64)
  | malformed
  | rejected
  | backendFailure
deriving DecidableEq

namespace Event

/-- How an error is counted. -/
def ofError : Error → Event
  | .parse _ | .malformed => malformed
  | .shape _ | .witness _ => rejected
  | .prover _ _ | .verificationFailed | .serialization _ | .io _ => backendFailure

/-- The updates of an event, in their order. -/
def updates : Event → List Update
  | request => [.request]
  | proof milliseconds => [.proof, .provingTime milliseconds]
  | malformed => [.malformed]
  | rejected => [.rejected]
  | backendFailure => [.backendFailure]

end Event

namespace Metrics

/-- The counters at the start. -/
def zero : Metrics := ⟨0, 0, 0, 0, 0, 0⟩

/-- The counters after one update. -/
def add (m : Metrics) : Update → Metrics
  | .request => { m with requestsTotal := m.requestsTotal + 1 }
  | .proof => { m with proofsGenerated := m.proofsGenerated + 1 }
  | .provingTime milliseconds =>
    { m with provingTimeTotal := m.provingTimeTotal + milliseconds }
  | .malformed => { m with malformedRequests := m.malformedRequests + 1 }
  | .rejected => { m with rejectedBatches := m.rejectedBatches + 1 }
  | .backendFailure => { m with backendFailures := m.backendFailures + 1 }

/-- The counters after an event. -/
def record (m : Metrics) (e : Event) : Metrics := e.updates.foldl add m

/-- The counters after some events. -/
def recordAll (m : Metrics) (events : List Event) : Metrics := events.foldl record m

theorem recordAll_eq_foldl (m : Metrics) (events : List Event) :
    m.recordAll events = (events.flatMap Event.updates).foldl add m :=
  (List.foldl_flatMap ..).symm

/-- The counters as a record. -/
def toValue (m : Metrics) : Json.Value :=
  let count (n : UInt64) : Json.Value := .number (.ofNat n.toNat)
  .record [("requests_total", count m.requestsTotal),
    ("proofs_generated", count m.proofsGenerated),
    ("malformed_requests", count m.malformedRequests),
    ("rejected_batches", count m.rejectedBatches),
    ("backend_failures", count m.backendFailures),
    ("proving_time_ms_total", count m.provingTimeTotal)]

end Metrics

end MerkleBatch
