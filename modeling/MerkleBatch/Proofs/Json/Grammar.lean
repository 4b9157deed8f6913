import MerkleBatch.Json.Value

/-!
# The grammar of JSON

What a text of JSON is, said without the scanner and the readers. A document is written as a
sequence of lexemes, which it determines; each lexeme has its spellings, and blanks may stand
anywhere between lexemes.

* `Document`: the values. A string is a list of UTF-16 code units, since an escape writes a unit
  and not a character; the list may be that of no text.
* `Document.lexemes`: the lexemes of a value, in order.
* `Lexeme.Spelled`: the spellings of a lexeme.
* `Document.Written`: the texts of a value.
-/

namespace MerkleBatch.Json

/-! ## Values -/

/-- The code units of a character. -/
def unitsOf (c : Char) : List UInt16 :=
  if c.toNat < 0x10000 then [.ofNat c.toNat]
  else [.ofNat (0xD800 + (c.toNat - 0x10000) / 1024), .ofNat (0xDC00 + (c.toNat - 0x10000) % 1024)]

/-- The code units of a text. -/
def units (s : String) : List UInt16 := s.toList.flatMap unitsOf

/-- A value as some text may write it. Members keep their order and may repeat. -/
inductive Document where
  | null
  | boolean (b : Bool)
  | number (l : Literal)
  | text (us : List UInt16)
  | list (items : List Document)
  | record (members : List (List UInt16 × Document))

/-- The record whose members have these texts as their names. -/
def Document.ofMembers (members : List (String × Document)) : Document :=
  .record (members.map fun (name, v) => (units name, v))

/-! ## Lexemes -/

/-- What blanks may stand between. -/
inductive Lexeme where
  | openList
  | closeList
  | openRecord
  | closeRecord
  | colon
  | comma
  | null
  | boolean (b : Bool)
  | number (l : Literal)
  | text (us : List UInt16)

namespace Document

mutual

/-- The lexemes of a value. -/
def lexemes : Document → List Lexeme
  | null => [.null]
  | boolean b => [.boolean b]
  | number l => [.number l]
  | text us => [.text us]
  | list [] => [.openList, .closeList]
  | list (v :: vs) => .openList :: (v.lexemes ++ lexemesOfItems vs ++ [.closeList])
  | record [] => [.openRecord, .closeRecord]
  | record ((name, v) :: rest) =>
    .openRecord :: (.text name :: .colon :: v.lexemes ++ lexemesOfMembers rest ++ [.closeRecord])

/-- The lexemes of the elements of a list behind the first one. -/
def lexemesOfItems : List Document → List Lexeme
  | [] => []
  | v :: rest => .comma :: (v.lexemes ++ lexemesOfItems rest)

/-- The lexemes of the members of a record behind the first one. -/
def lexemesOfMembers : List (List UInt16 × Document) → List Lexeme
  | [] => []
  | (name, v) :: rest => .comma :: (.text name :: .colon :: v.lexemes ++ lexemesOfMembers rest)

end

end Document

/-! ## Spellings -/

/-- Some digits, at least one. -/
def Digits (ds : List Char) : Prop := ds ≠ [] ∧ ∀ c ∈ ds, isDigit c = true

/-- The spellings of a fraction; without digits there is no point either. -/
inductive FractionSpelled : List Char → List Char → Prop where
  | none : FractionSpelled [] []
  | some {ds : List Char} (h : Digits ds) : FractionSpelled ds ('.' :: ds)

/-- The signs that an exponent may have. -/
def exponentSigns (down : Bool) : List (List Char) := if down then [['-']] else [[], ['+']]

/-- The spellings of an exponent. -/
inductive ExponentSpelled : Option (Bool × List Char) → List Char → Prop where
  | none : ExponentSpelled none []
  | some {e : Char} {down : Bool} {sign ds : List Char} (he : e ∈ ['e', 'E'])
    (hsign : sign ∈ exponentSigns down) (h : Digits ds) :
    ExponentSpelled (some (down, ds)) (e :: (sign ++ ds))

/-- The spellings of a number. Its whole part has no superfluous zero. -/
inductive NumberSpelled : Literal → List Char → Prop where
  | intro {negative : Bool} {whole fraction fractionText exponentText : List Char}
    {exponent : Option (Bool × List Char)} (hwhole : Digits whole)
    (hzero : whole.head? = some '0' → whole = ['0'])
    (hfraction : FractionSpelled fraction fractionText)
    (hexponent : ExponentSpelled exponent exponentText) :
    NumberSpelled ⟨negative, whole, fraction, exponent⟩
      ((if negative then ['-'] else []) ++ (whole ++ (fractionText ++ exponentText)))

/-- The letter behind a backslash, and the character that both stand for. -/
def shortEscapes : List (Char × Char) := [
  ('"', '"'), ('\\', '\\'), ('/', '/'), ('b', Char.ofNat 8), ('f', Char.ofNat 12), ('n', '\n'),
  ('r', '\r'), ('t', '\t')]

/-- A hexadecimal digit of either case. -/
def HexDigit (c : Char) (d : Nat) : Prop :=
  d < 16 ∧ (c = Nat.digitChar d ∨ c = (Nat.digitChar d).toUpper)

/-- The spellings of code units between the quotes of a string. -/
inductive UnitsSpelled : List UInt16 → List Char → Prop where
  | nil : UnitsSpelled [] []
  | plain {c : Char} {us : List UInt16} {cs : List Char} (hc : 32 ≤ c.toNat) (hquote : c ≠ '"')
    (hslash : c ≠ '\\') (h : UnitsSpelled us cs) : UnitsSpelled (unitsOf c ++ us) (c :: cs)
  | short {e c : Char} {us : List UInt16} {cs : List Char} (he : (e, c) ∈ shortEscapes)
    (h : UnitsSpelled us cs) : UnitsSpelled (unitsOf c ++ us) ('\\' :: e :: cs)
  | unit {a b c d : Char} {w x y z : Nat} {us : List UInt16} {cs : List Char} (ha : HexDigit a w)
    (hb : HexDigit b x) (hc : HexDigit c y) (hd : HexDigit d z) (h : UnitsSpelled us cs) :
    UnitsSpelled (.ofNat (4096 * w + 256 * x + 16 * y + z) :: us)
      ('\\' :: 'u' :: a :: b :: c :: d :: cs)

/-- The spellings of a lexeme. -/
inductive Lexeme.Spelled : Lexeme → List Char → Prop where
  | openList : Spelled openList ['[']
  | closeList : Spelled closeList [']']
  | openRecord : Spelled openRecord ['{']
  | closeRecord : Spelled closeRecord ['}']
  | colon : Spelled colon [':']
  | comma : Spelled comma [',']
  | null : Spelled null ['n', 'u', 'l', 'l']
  | trueName : Spelled (boolean true) ['t', 'r', 'u', 'e']
  | falseName : Spelled (boolean false) ['f', 'a', 'l', 's', 'e']
  | number {l : Literal} {cs : List Char} (h : NumberSpelled l cs) : Spelled (number l) cs
  | text {us : List UInt16} {cs : List Char} (h : UnitsSpelled us cs) :
    Spelled (text us) ('"' :: (cs ++ ['"']))

/-- Some characters that may stand between lexemes. -/
def Blanks (cs : List Char) : Prop := ∀ c ∈ cs, c ∈ [' ', '\t', '\n', '\r']

/-- The texts of some lexemes, with blanks in front of each and behind the last. -/
inductive Spaced : List Lexeme → List Char → Prop where
  | nil {blanks : List Char} (h : Blanks blanks) : Spaced [] blanks
  | cons {l : Lexeme} {ls : List Lexeme} {blanks cs rest : List Char} (hblanks : Blanks blanks)
    (hl : l.Spelled cs) (h : Spaced ls rest) : Spaced (l :: ls) (blanks ++ (cs ++ rest))

/-- The text writes the value, in any of the ways there are. -/
def Document.Written (v : Document) (text : String) : Prop := Spaced v.lexemes text.toList

end MerkleBatch.Json
