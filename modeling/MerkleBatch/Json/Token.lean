import MerkleBatch.Json.Number

/-!
# Tokens of JSON

A text is cut into tokens before anything is read from it: brackets, colons and commas, the three
names, numbers and strings. Blanks between tokens do not matter. Where the text goes on with
something that is no token, a last token stands for the rest.

* `Token.scan`: the tokens of a text.
* `scanPieces?`, `join?`: a string. An escape may stand for half of a character beyond the basic
  plane; a string in which such a half has no partner is no text, but still a token.
-/

namespace MerkleBatch.Json

/-- A token. -/
inductive Token where
  | openList
  | closeList
  | openRecord
  | closeRecord
  | colon
  | comma
  | null
  | boolean (b : Bool)
  | number (n : Number)
  | text (s : String)
  /-- A string with half of a character. -/
  | brokenText
  /-- A place at which no token begins. -/
  | bad
deriving DecidableEq

/-! ## Strings -/

/-- The value of a hexadecimal digit of either case. -/
def hexDigit? (c : Char) : Option Nat :=
  let n := c.toNat
  if 48 ≤ n ∧ n ≤ 57 then some (n - 48)
  else if 65 ≤ n ∧ n ≤ 70 then some (n - 55)
  else if 97 ≤ n ∧ n ≤ 102 then some (n - 87)
  else none

/-- The number that four hexadecimal digits stand for. -/
def codeUnit? (a b c d : Char) : Option Nat :=
  match hexDigit? a, hexDigit? b, hexDigit? c, hexDigit? d with
  | some a, some b, some c, some d => some (4096 * a + 256 * b + 16 * c + d)
  | _, _, _, _ => none

/-- What a place in a string is written for: a character, or a code unit by its number. -/
inductive Piece where
  | char (c : Char)
  | unit (u : Nat)
deriving DecidableEq

/-- The character that a backslash and this one stand for. -/
def shortEscape? (c : Char) : Option Char :=
  if c = '"' then some '"'
  else if c = '\\' then some '\\'
  else if c = '/' then some '/'
  else if c = 'b' then some (Char.ofNat 8)
  else if c = 'f' then some (Char.ofNat 12)
  else if c = 'n' then some '\n'
  else if c = 'r' then some '\r'
  else if c = 't' then some '\t'
  else none

/-- What an escape stands for, from behind its backslash on, and what follows it. -/
def escape? : List Char → Option (Piece × List Char)
  | [] => none
  | 'u' :: a :: b :: c :: d :: rest => (codeUnit? a b c d).map fun u => (.unit u, rest)
  | c :: rest => (shortEscape? c).map fun e => (.char e, rest)

theorem length_of_escape? {text rest : List Char} {piece : Piece}
    (h : escape? text = some (piece, rest)) : rest.length < text.length := by
  unfold escape? at h
  split at h
  · cases h
  · obtain ⟨_, _, e⟩ := Option.map_eq_some_iff.1 h
    cases e
    simp only [List.length_cons]
    omega
  · obtain ⟨_, _, e⟩ := Option.map_eq_some_iff.1 h
    cases e
    simp

/-- The rest of a string up to its quote, behind the pieces `read`, which stand in reverse, and
what follows it. A string that does not end, or holds a control character, is none. -/
def scanPieces? (read : List Piece) : List Char → Option (List Piece × List Char)
  | [] => none
  | c :: rest =>
    if c = '"' then some (read.reverse, rest)
    else if c = '\\' then
      match _h : escape? rest with
      | some (piece, rest') => scanPieces? (piece :: read) rest'
      | none => none
    else if c.toNat < 32 then none
    else scanPieces? (.char c :: read) rest
termination_by text => text.length
decreasing_by
  · have := length_of_escape? _h
    simp only [List.length_cons]
    omega
  · simp

theorem length_of_scanPieces? {read pieces : List Piece} {text rest : List Char}
    (h : scanPieces? read text = some (pieces, rest)) : rest.length < text.length := by
  fun_induction scanPieces? read text with
  | case1 => cases h
  | case2 =>
    cases h
    simp
  | case3 read rest' piece next hnext _ ih =>
    have := length_of_escape? hnext
    have := ih h
    simp only [List.length_cons]
    omega
  | case4 => cases h
  | case5 => cases h
  | case6 read c rest' _ _ _ ih =>
    have := ih h
    simp only [List.length_cons]
    omega

/-- Whether a code unit is the first half of a character. -/
def isHighHalf (u : Nat) : Bool := 0xD800 ≤ u && u < 0xDC00

/-- Whether a code unit is the second half of a character. -/
def isLowHalf (u : Nat) : Bool := 0xDC00 ≤ u && u < 0xE000

/-- The character of two halves. -/
def joinHalves (high low : Nat) : Char :=
  Char.ofNat (0x10000 + 1024 * (high - 0xD800) + (low - 0xDC00))

/-- The string that pieces make up, behind the characters `read`, which stand in reverse; a half
without its partner makes it none. -/
def join? (read : List Char) : List Piece → Option String
  | [] => some (String.ofList read.reverse)
  | .char c :: rest => join? (c :: read) rest
  | .unit high :: .unit low :: rest =>
    if isHighHalf high then
      if isLowHalf low then join? (joinHalves high low :: read) rest else none
    else if isLowHalf high then none
    else join? (Char.ofNat high :: read) (.unit low :: rest)
  | .unit u :: rest =>
    if isHighHalf u || isLowHalf u then none else join? (Char.ofNat u :: read) rest

/-- The token of a string. -/
def ofPieces (pieces : List Piece) : Token :=
  match join? [] pieces with
  | some s => .text s
  | none => .brokenText

/-! ## Texts -/

/-- Whether a character may stand between tokens. -/
def isBlank (c : Char) : Bool := c = ' ' || c = '\t' || c = '\n' || c = '\r'

/-- The token of one character. -/
def punctuation? (c : Char) : Option Token :=
  if c = '[' then some .openList
  else if c = ']' then some .closeList
  else if c = '{' then some .openRecord
  else if c = '}' then some .closeRecord
  else if c = ':' then some .colon
  else if c = ',' then some .comma
  else none

/-- The name in front of a text, and what follows it. -/
def name? : List Char → Option (Token × List Char)
  | 'n' :: 'u' :: 'l' :: 'l' :: rest => some (.null, rest)
  | 't' :: 'r' :: 'u' :: 'e' :: rest => some (.boolean true, rest)
  | 'f' :: 'a' :: 'l' :: 's' :: 'e' :: rest => some (.boolean false, rest)
  | _ => none

/-- The token that begins with a character, and what follows it. -/
def token? (c : Char) (rest : List Char) : Option (Token × List Char) :=
  match punctuation? c with
  | some t => some (t, rest)
  | none =>
    if c = '"' then
      (scanPieces? [] rest).map fun (pieces, rest) => (ofPieces pieces, rest)
    else if c = '-' ∨ isDigit c then
      (Literal.scan? (c :: rest)).map fun (l, rest) => (.number l.number, rest)
    else name? (c :: rest)

theorem length_of_name? {text rest : List Char} {t : Token} (h : name? text = some (t, rest)) :
    rest.length < text.length := by
  unfold name? at h
  split at h <;> cases h <;> simp only [List.length_cons] <;> omega

theorem length_of_token? {c : Char} {rest rest' : List Char} {t : Token}
    (h : token? c rest = some (t, rest')) : rest'.length < rest.length + 1 := by
  unfold token? at h
  split at h
  · cases h
    exact Nat.lt_succ_self _
  · split at h
    · obtain ⟨⟨pieces, rest''⟩, hp, e⟩ := Option.map_eq_some_iff.1 h
      cases e
      exact Nat.lt_succ_of_lt (length_of_scanPieces? hp)
    · split at h
      · obtain ⟨⟨l, rest''⟩, hl, e⟩ := Option.map_eq_some_iff.1 h
        cases e
        exact Literal.length_of_scan? hl
      · exact length_of_name? h

namespace Token

/-- The tokens of a text, behind the tokens `read`, which stand in reverse. -/
def scanOnto (read : List Token) : List Char → List Token
  | [] => read.reverse
  | c :: rest =>
    if isBlank c then scanOnto read rest
    else
      match _h : token? c rest with
      | some (t, rest') => scanOnto (t :: read) rest'
      | none => (bad :: read).reverse
termination_by text => text.length
decreasing_by
  · simp
  · have := length_of_token? _h
    simp only [List.length_cons]
    omega

/-- The tokens of a text. -/
def scan (text : List Char) : List Token := scanOnto [] text

end Token

end MerkleBatch.Json
