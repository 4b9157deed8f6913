import MerkleBatch.Service.Handling

/-!
# The service

Two endpoints share the counters: one answers `POST /prove`, the other `GET /metrics`. A path has to
match exactly; a query behind it is ignored.

A request is sent to a path, or to a whole address with a scheme and a host in front of the path. A
query may follow, and a fragment, which nobody sees. An address without a path has the path of the
root; a target that is neither a path nor a whole address has none.

* `Target.path`: the path in what a request is sent to.
* `Service.respond`: the answer to a request, and the counters after it.
* `Response.ofOutcome`: the answer to a request for a proof.
-/

namespace MerkleBatch

namespace Target

/-- Whether a character ends a path. -/
def endsPath (c : Char) : Bool := c = '?' || c = '#'

/-- Whether a character ends a host. -/
def endsHost (c : Char) : Bool := c = '/' || endsPath c

/-- What follows the scheme of a whole address. -/
def afterScheme? (target : List Char) : Option (List Char) :=
  match target.dropWhile (· ≠ ':') with
  | ':' :: '/' :: '/' :: rest => some rest
  | _ => none

/-- The path of a target. -/
def path (target : List Char) : List Char :=
  if target.head? = some '/' then target.takeWhile (!endsPath ·)
  else
    match afterScheme? target with
    | none => []
    | some rest =>
      match (rest.dropWhile (!endsHost ·)).takeWhile (!endsPath ·) with
      | [] => ['/']
      | c :: more => c :: more

end Target

/-- The endpoints of a service. -/
inductive Endpoint where
  | prover
  | metrics
deriving DecidableEq

/-- A request. -/
structure Request where
  endpoint : Endpoint
  method : String
  /-- What the request is sent to. -/
  target : String
  body : ByteArray

/-- What an answer holds. -/
inductive Content where
  | empty
  | plain (text : String)
  | json (value : Json.Value)
  /-- No value, but the type of one. -/
  | jsonHead

/-- An answer. -/
structure Response where
  status : Nat
  /-- The methods that the path knows, where the request has another one. -/
  allow : Option String
  content : Content

namespace Content

/-- The media type of an answer. -/
def mediaType : Content → Option String
  | empty => none
  | plain _ => some "text/plain; charset=utf-8"
  | json _ | jsonHead => some "application/json"

end Content

namespace Response

/-- An answer with a value. -/
def json (status : Nat) (value : Json.Value) : Response := ⟨status, none, .json value⟩

/-- An answer that names an error. -/
def error (status : Nat) (code message : String) : Response :=
  json status (.record [("code", .text code), ("message", .text message)])

/-- The answer for a path that nobody knows. -/
def notFound : Response := ⟨404, none, .empty⟩

/-- The answer for a method that the path does not know. -/
def notAllowed (methods : String) : Response := ⟨405, some methods, .empty⟩

/-- The answer for a body that is too long. -/
def tooLarge : Response :=
  ⟨413, none, .plain "Failed to buffer the request body: length limit exceeded"⟩

/-- The status of an error: 400 for the input's fault, 500 for the prover's. -/
def errorStatus (e : Error) : Nat := if e.isInputError then 400 else 500

/-- The answer to a request for a proof. -/
def ofOutcome : Outcome → Response
  | .proven proof _ => json 200 (.record [("proof", .text proof)])
  | .malformed e => error 400 "malformed_body" e.display
  | .failed e => error (errorStatus e) "proving_error" e.display
  | .stopped => error 500 "unexpected_error" "proving task failed"

end Response

namespace Request

/-- The greatest number of bytes of a body: 64 MiB. -/
def maxBody : Nat := 64 * 1024 * 1024

/-- The path that is asked for. -/
def path (r : Request) : List Char := Target.path r.target.toList

/-- The body of a request for a proof; none for any other request. -/
def proofBody? (r : Request) : Option ByteArray :=
  if r.endpoint = .prover ∧ r.path = "/prove".toList ∧ r.method = "POST" ∧
      r.body.size ≤ maxBody then
    some r.body
  else none

end Request

namespace Service

/-- The answer to a request for anything but a proof. -/
def respondPlain (m : Metrics) (r : Request) : Response :=
  match r.endpoint with
  | .prover =>
    if r.path ≠ "/prove".toList then .notFound
    else if r.method ≠ "POST" then .notAllowed "POST"
    else .tooLarge
  | .metrics =>
    if r.path ≠ "/metrics".toList then .notFound
    else if r.method = "GET" then .json 200 m.toValue
    else if r.method = "HEAD" then ⟨200, none, .jsonHead⟩
    else .notAllowed "GET,HEAD"

/-- The answer to a request for a proof, once its outcome is known, and the counters after it. -/
def settle (m : Metrics) (outcome : Outcome) : Response × Metrics :=
  (.ofOutcome outcome, m.recordAll outcome.events)

/-- The answer to a request, and the counters after it. -/
def respond (s : Shape) (backend : Admitted → Attempt) (m : Metrics) (r : Request) :
    Response × Metrics :=
  match r.proofBody? with
  | none => (respondPlain m r, m)
  | some body => settle m (handle s backend body)

end Service

end MerkleBatch
