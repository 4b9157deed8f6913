import MerkleBatch.Json.Reader

/-!
# Where a service listens

A service has two socket addresses, one for proofs and one for metrics. Each is a host and a number
with a colon between them.

* `Config`: the addresses, and reading them.
* `Config.check`: whether a service can listen there, as far as the addresses themselves tell.
-/

namespace MerkleBatch

/-- What is wrong with an address. -/
inductive AddressFault where
  | noNumber
  | badNumber
deriving DecidableEq

namespace AddressFault

/-- The wording of a fault. -/
def message : AddressFault → String
  | noNumber => "invalid socket address"
  | badNumber => "invalid port value"

end AddressFault

namespace Address

/-- Whether a text is the number of an address: digits, optionally behind a plus, of a number of 16
bits. -/
def isSocketNumber (text : List Char) : Bool :=
  let digits := match text with
    | '+' :: rest => rest
    | _ => text
  digits ≠ [] && digits.all Json.isDigit &&
    digits.foldl (fun n c => min 0x10000 (10 * n + Json.digitValue c)) 0 < 0x10000

/-- Checks the number of an address, which stands behind its last colon. -/
def check (address : String) : Except AddressFault Unit :=
  let reversed := address.toList.reverse
  let number := (reversed.takeWhile (· ≠ ':')).reverse
  if !reversed.contains ':' then .error .noNumber
  else if !isSocketNumber number then .error .badNumber
  else .ok ()

end Address

/-- The addresses of a service. -/
structure Config where
  proverAddress : String
  metricsAddress : String
deriving DecidableEq

/-- A service cannot listen. -/
inductive BindError where
  | prover (address : String) (fault : AddressFault)
  | metrics (address : String) (fault : AddressFault)
deriving DecidableEq

namespace BindError

/-- The error and its cause, outermost first. -/
def chain : BindError → List String
  | prover address fault => [s!"binding prover address {address}", fault.message]
  | metrics address fault => [s!"binding metrics address {address}", fault.message]

end BindError

namespace Config

/-- The addresses of a service that is not told others. -/
def default : Config := ⟨"localhost:3001", "localhost:9998"⟩

/-- Checks both addresses, that for proofs first. -/
def check (c : Config) : Except BindError Unit :=
  match Address.check c.proverAddress with
  | .error fault => .error (.prover c.proverAddress fault)
  | .ok () => (Address.check c.metricsAddress).mapError (.metrics c.metricsAddress)

/-- The members of a configuration that were read so far. -/
structure Draft where
  proverAddress : Option String
  metricsAddress : Option String
deriving DecidableEq

open Json

/-- Configurations as records. -/
def record : Record Draft Config where
  name := "struct Config"
  members := [
    { name := "prover_address"
      optional := false
      isSet := (·.proverAddress.isSome)
      reader := Reader.string.map fun v d => { d with proverAddress := some v } },
    { name := "metrics_address"
      optional := false
      isSet := (·.metricsAddress.isSome)
      reader := Reader.string.map fun v d => { d with metricsAddress := some v } }]
  blank := ⟨none, none⟩
  complete d := do
    let proverAddress ← required "prover_address" d.proverAddress
    let metricsAddress ← required "metrics_address" d.metricsAddress
    pure ⟨proverAddress, metricsAddress⟩

/-- The configuration in a text. -/
def ofJson? (text : String) : Except Fault Config := decode record.reader pure text

end Config

end MerkleBatch
