import MerkleBatch.Json.Token

/-!
# Skipping values

A value that nobody asks for is passed over. It has to be well-formed, but may be nested to any
depth, and its strings and numbers need not be representable.

* `skip?`: the tokens behind a value.
-/

namespace MerkleBatch.Json

/-- A list or record that is still open. -/
inductive Bracket where
  | list
  | record
deriving DecidableEq

/-- What has to come next. -/
inductive Awaited where
  /-- A value, or the end of a list that has just begun. -/
  | value (orEnd : Bool)
  /-- A key, or the end of a record that has just begun. -/
  | key (orEnd : Bool)
  | colon
  /-- A comma, or the end of the innermost list or record. -/
  | separator
deriving DecidableEq

/-- Whether a token is a whole value. -/
def Token.isAtom : Token → Bool
  | null | boolean _ | number _ | text _ | brokenText => true
  | openList | closeList | openRecord | closeRecord | colon | comma | bad => false

/-- Whether a token is a key. -/
def Token.isKey : Token → Bool
  | text _ | brokenText => true
  | _ => false

/-- One token within a value: the open brackets, innermost first, and what has to come next. The
value is complete when no bracket is open and a separator would have to come. -/
def skipToken? (brackets : List Bracket) (awaited : Awaited) (t : Token) :
    Option (List Bracket × Awaited) :=
  match awaited with
  | .value orEnd =>
    if t.isAtom then some (brackets, .separator)
    else if t = .openList then some (.list :: brackets, .value true)
    else if t = .openRecord then some (.record :: brackets, .key true)
    else if orEnd ∧ t = .closeList then some (brackets.tail, .separator)
    else none
  | .key orEnd =>
    if t.isKey then some (brackets, .colon)
    else if orEnd ∧ t = .closeRecord then some (brackets.tail, .separator)
    else none
  | .colon => if t = .colon then some (brackets, .value false) else none
  | .separator =>
    match brackets with
    | [] => none
    | .list :: outer =>
      if t = .comma then some (brackets, .value false)
      else if t = .closeList then some (outer, .separator)
      else none
    | .record :: outer =>
      if t = .comma then some (brackets, .key false)
      else if t = .closeRecord then some (outer, .separator)
      else none

/-- The tokens behind a value of which some tokens came before. -/
def skipFrom? (brackets : List Bracket) (awaited : Awaited) : List Token → Option (List Token)
  | [] => none
  | t :: rest =>
    match skipToken? brackets awaited t with
    | none => none
    | some ([], .separator) => some rest
    | some (brackets, awaited) => skipFrom? brackets awaited rest

/-- The tokens behind the value in front; `none` where there is no value. -/
def skip? (tokens : List Token) : Option (List Token) := skipFrom? [] (.value false) tokens

theorem length_of_skipFrom? {brackets : List Bracket} {awaited : Awaited}
    {tokens rest : List Token} (h : skipFrom? brackets awaited tokens = some rest) :
    rest.length < tokens.length := by
  induction tokens generalizing brackets awaited with
  | nil => cases h
  | cons t tokens ih =>
    rw [skipFrom?] at h
    split at h
    · cases h
    · cases h
      exact Nat.lt_succ_self _
    · exact Nat.lt_succ_of_lt (ih h)

/-- A value has at least one token. -/
theorem length_of_skip? {tokens rest : List Token} (h : skip? tokens = some rest) :
    rest.length < tokens.length :=
  length_of_skipFrom? h

end MerkleBatch.Json
