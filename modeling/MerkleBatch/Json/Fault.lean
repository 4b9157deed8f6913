import MerkleBatch.Json.Token
import MerkleBatch.Text.Quoted

/-!
# Faults in JSON

Reading stops at the first fault in the order of the text. A text that is no JSON up to that place
is malformed, whatever is wrong with it; otherwise the fault says what was found and what should
have been there.

* `Fault`, `Fault.message`: the faults and their wording.
* `Token.mismatch`: the fault of a token in the place of a value of another kind.
-/

namespace MerkleBatch.Json

/-- What stands where a value of another kind is expected. -/
inductive Found where
  | null
  | boolean (b : Bool)
  | integer (n : Int)
  | floating (shown : String)
  | text (s : String)
  | list
  | record
deriving DecidableEq

namespace Found

/-- How a message calls it. -/
def describe : Found → String
  | null => "null"
  | boolean true => "boolean `true`"
  | boolean false => "boolean `false`"
  | integer n => s!"integer `{n}`"
  | floating shown => s!"floating point `{shown}`"
  | text s => "string " ++ Quoted.string s
  | list => "sequence"
  | record => "map"

end Found

/-- What is wrong with a text. -/
inductive Fault where
  /-- The text is no JSON. -/
  | malformed
  | wrongKind (found : Found) (expected : String)
  /-- A whole number that is not among the expected ones. -/
  | wrongValue (n : Int) (expected : String)
  /-- A list with too few elements. -/
  | wrongLength (n : Nat) (expected : String)
  | missingField (name : String)
  | duplicateField (name : String)
  /-- The values have the right kinds, but are refused, with these words. -/
  | refused (message : String)
deriving DecidableEq

namespace Fault

/-- The wording of a fault. -/
def message : Fault → String
  | malformed => "malformed JSON"
  | wrongKind found expected => s!"invalid type: {found.describe}, expected {expected}"
  | wrongValue n expected => s!"invalid value: integer `{n}`, expected {expected}"
  | wrongLength n expected => s!"invalid length {n}, expected {expected}"
  | missingField name => s!"missing field `{name}`"
  | duplicateField name => s!"duplicate field `{name}`"
  | refused message => message

end Fault

namespace Token

/-- What a token that begins a value shows itself to be; no other token is a value, and neither is
a number beyond all doubles or a broken string. -/
def found? : Token → Option Found
  | null => some .null
  | boolean b => some (.boolean b)
  | number (.integer n) => some (.integer n)
  | number (.floating shown) => some (.floating shown)
  | text s => some (.text s)
  | openList => some .list
  | openRecord => some .record
  | number .outOfRange | brokenText | closeList | closeRecord | colon | comma | bad => none

/-- The fault of a token where something else is expected. -/
def mismatch (t : Token) (expected : String) : Fault :=
  match t.found? with
  | some found => .wrongKind found expected
  | none => .malformed

end Token

end MerkleBatch.Json
