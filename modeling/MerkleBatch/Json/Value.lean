import MerkleBatch.Json.Number

/-!
# Values of JSON

A value as a tree, and its laid-out text: every element and every member stands on a line of its
own, two spaces deeper than the bracket around it; an empty list or record takes no line.

* `Value.pretty`: the text.
* `quote`: a string between quotes, with escapes only where they are needed.
-/

namespace MerkleBatch.Json

/-- A value. Members keep their order and may repeat. -/
inductive Value where
  | null
  | boolean (b : Bool)
  | number (l : Literal)
  | text (s : String)
  | list (items : List Value)
  | record (members : List (String × Value))

namespace Literal

/-- The number as it is written. -/
def chars (l : Literal) : List Char :=
  (if l.negative then ['-'] else []) ++ l.whole ++
    (if l.fraction = [] then [] else '.' :: l.fraction) ++
    match l.exponent with
    | none => []
    | some (down, digits) => 'e' :: (if down then '-' :: digits else digits)

/-- The decimal digits of a natural number. -/
def ofNat (n : Nat) : Literal := ⟨false, Nat.toDigits 10 n, [], none⟩

end Literal

/-- A character of a string: quote, backslash and control characters are escaped. -/
def escapeChar (c : Char) : List Char :=
  if c = '"' then ['\\', '"']
  else if c = '\\' then ['\\', '\\']
  else if c = '\n' then ['\\', 'n']
  else if c = '\r' then ['\\', 'r']
  else if c = '\t' then ['\\', 't']
  else if c.toNat = 8 then ['\\', 'b']
  else if c.toNat = 12 then ['\\', 'f']
  else if c.toNat < 32 then
    ['\\', 'u', '0', '0', Nat.digitChar (c.toNat / 16), Nat.digitChar (c.toNat % 16)]
  else [c]

/-- A string between quotes. -/
def quote (s : String) : List Char := '"' :: s.toList.flatMap escapeChar ++ ['"']

/-- The end of a line, and the indentation of the next one. -/
def newline (depth : Nat) : List Char := '\n' :: List.replicate (2 * depth) ' '

namespace Value

mutual

/-- The laid-out text of a value whose brackets stand at the given depth. -/
def pretty (depth : Nat) : Value → List Char
  | null => ['n', 'u', 'l', 'l']
  | boolean true => ['t', 'r', 'u', 'e']
  | boolean false => ['f', 'a', 'l', 's', 'e']
  | number l => l.chars
  | text s => quote s
  | list [] => ['[', ']']
  | list (v :: vs) =>
    '[' :: (newline (depth + 1) ++ pretty (depth + 1) v) ++ prettyItems (depth + 1) vs ++
      newline depth ++ [']']
  | record [] => ['{', '}']
  | record ((name, v) :: rest) =>
    '{' :: (newline (depth + 1) ++ quote name ++ [':', ' '] ++ pretty (depth + 1) v) ++
      prettyMembers (depth + 1) rest ++ newline depth ++ ['}']

/-- The elements of a list behind the first one. -/
def prettyItems (depth : Nat) : List Value → List Char
  | [] => []
  | v :: rest => ',' :: (newline depth ++ pretty depth v) ++ prettyItems depth rest

/-- The members of a record behind the first one. -/
def prettyMembers (depth : Nat) : List (String × Value) → List Char
  | [] => []
  | (name, v) :: rest =>
    ',' :: (newline depth ++ quote name ++ [':', ' '] ++ pretty depth v) ++
      prettyMembers depth rest

end

end Value

end MerkleBatch.Json
