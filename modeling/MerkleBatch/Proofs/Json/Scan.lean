import MerkleBatch.Proofs.Json.Units
import Mathlib.Data.List.Chain

/-!
# Every text of a value is read as its tokens

The scanner finds the lexemes of a text again, however they are spelled and whatever blanks stand
between them. Only behind a number does it matter what comes next; no value has two numbers side
by side.

* `Lexeme.token?_spelled`: a spelling of a lexeme is read as its token.
* `Lexeme.scanOnto_spaced`: lexemes with blanks between them.
* `Document.scan_written`: the tokens of a text of a value.
-/

namespace MerkleBatch.Json

open Token (scanOnto)

variable {read : List Token} {text rest rest' : List Char} {c : Char} {t : Token}

theorem scanOnto_blank (h : isBlank c = true) : scanOnto read (c :: text) = scanOnto read text := by
  rw [scanOnto, if_pos h]

theorem scanOnto_token (hc : isBlank c = false) (h : token? c text = some (t, rest)) :
    scanOnto read (c :: text) = scanOnto (t :: read) rest := by
  rw [scanOnto, if_neg (by simp [hc])]
  split
  · rename_i heq
    rw [h] at heq
    cases heq
    rfl
  · rename_i heq
    rw [h] at heq
    cases heq

theorem isBlank_of_mem (h : c ∈ [' ', '\t', '\n', '\r']) : isBlank c = true := by
  simpa [isBlank, or_assoc] using h

/-- Blanks are passed over. -/
theorem scanOnto_blanks {blanks : List Char} (h : Blanks blanks) :
    scanOnto read (blanks ++ text) = scanOnto read text := by
  induction blanks with
  | nil => rfl
  | cons c blanks ih =>
    obtain ⟨hc, hblanks⟩ := List.forall_mem_cons.mp h
    rw [List.cons_append, scanOnto_blank (isBlank_of_mem hc), ih hblanks]

/-! ## Strings -/

theorem hexDigit?_of_hexDigit {d : Nat} (h : HexDigit c d) : hexDigit? c = some d := by
  have hdigits := (by decide : ∀ n : Fin 16, hexDigit? (Nat.digitChar n.val) = some n.val ∧
    hexDigit? (Nat.digitChar n.val).toUpper = some n.val) ⟨d, h.1⟩
  rcases h.2 with rfl | rfl
  · exact hdigits.1
  · exact hdigits.2

private theorem scanPieces?_escape {pieces : List Piece} {piece : Piece}
    (h : escape? text = some (piece, rest)) :
    scanPieces? pieces ('\\' :: text) = scanPieces? (piece :: pieces) rest := by
  rw [scanPieces?, if_neg (by decide), if_pos rfl]
  split
  · rename_i heq
    rw [h] at heq
    cases heq
    rfl
  · rename_i heq
    rw [h] at heq
    cases heq

theorem escape?_short {e : Char} (h : (e, c) ∈ shortEscapes) :
    escape? (e :: text) = some (.char c, text) := by
  have hshort : shortEscape? e = some c := by
    simp only [shortEscapes, List.mem_cons, Prod.mk.injEq, List.not_mem_nil, or_false] at h
    rcases h with ⟨rfl, rfl⟩ | ⟨rfl, rfl⟩ | ⟨rfl, rfl⟩ | ⟨rfl, rfl⟩ | ⟨rfl, rfl⟩ | ⟨rfl, rfl⟩ |
      ⟨rfl, rfl⟩ | ⟨rfl, rfl⟩ <;> rfl
  rw [escape?, hshort]
  · rfl
  · intro _ _ _ _ _ heq
    rw [heq] at hshort
    cases hshort

/-- A spelling of code units is read as pieces that stand for them. -/
theorem scanPieces?_spelled {us : List UInt16} {cs : List Char} (h : UnitsSpelled us cs)
    (before : List Piece) (rest : List Char) :
    ∃ pieces, scanPieces? before (cs ++ '"' :: rest) = some (before.reverse ++ pieces, rest) ∧
      (∀ u, Piece.unit u ∈ pieces → u < 0x10000) ∧ pieces.flatMap Piece.units = us := by
  induction h generalizing before with
  | nil => exact ⟨[], by simp [scanPieces?], by simp, rfl⟩
  | @plain c us cs hc hquote hslash h ih =>
    obtain ⟨pieces, hscan, hbound, hunits⟩ := ih (.char c :: before)
    refine ⟨.char c :: pieces, ?_, by simpa using hbound, ?_⟩
    · rw [List.cons_append, scanPieces?, if_neg hquote, if_neg hslash,
        if_neg (Nat.not_lt.mpr hc), hscan]
      simp
    · rw [List.flatMap_cons, hunits, Piece.units]
  | @short e c us cs he h ih =>
    obtain ⟨pieces, hscan, hbound, hunits⟩ := ih (.char c :: before)
    refine ⟨.char c :: pieces, ?_, by simpa using hbound, ?_⟩
    · rw [List.cons_append, List.cons_append, scanPieces?_escape (escape?_short he), hscan]
      simp
    · rw [List.flatMap_cons, hunits, Piece.units]
  | @unit a b c d w x y z us cs ha hb hc hd h ih =>
    obtain ⟨pieces, hscan, hbound, hunits⟩ := ih (.unit (4096 * w + 256 * x + 16 * y + z) :: before)
    have hlt : 4096 * w + 256 * x + 16 * y + z < 0x10000 := by
      have := ha.1
      have := hb.1
      have := hc.1
      have := hd.1
      omega
    have hescape : escape? ('u' :: a :: b :: c :: d :: (cs ++ '"' :: rest)) =
        some (.unit (4096 * w + 256 * x + 16 * y + z), cs ++ '"' :: rest) := by
      rw [escape?, codeUnit?, hexDigit?_of_hexDigit ha, hexDigit?_of_hexDigit hb,
        hexDigit?_of_hexDigit hc, hexDigit?_of_hexDigit hd]
      rfl
    refine ⟨.unit (4096 * w + 256 * x + 16 * y + z) :: pieces, ?_, ?_, ?_⟩
    · simp only [List.cons_append]
      rw [scanPieces?_escape hescape, hscan]
      simp
    · intro u hu
      rcases List.mem_cons.mp hu with heq | hu
      · cases heq
        exact hlt
      · exact hbound u hu
    · rw [List.flatMap_cons, hunits, Piece.units]
      rfl

/-! ## Numbers -/

/-- The text does not begin with a digit. -/
def NoDigit (text : List Char) : Prop := ∀ c ∈ text.head?, isDigit c = false

/-- Nothing, or a character that does not go on with a number. -/
def Delimited (text : List Char) : Prop :=
  ∀ c ∈ text.head?, isDigit c = false ∧ c ≠ '.' ∧ c ≠ 'e' ∧ c ≠ 'E'

theorem Delimited.noDigit (h : Delimited text) : NoDigit text := fun c hc => (h c hc).1

theorem takeWhile_digits {ds : List Char} (hds : ∀ c ∈ ds, isDigit c = true)
    (hrest : NoDigit rest) :
    (ds ++ rest).takeWhile isDigit = ds ∧ (ds ++ rest).dropWhile isDigit = rest := by
  rw [List.takeWhile_append_of_pos hds, List.dropWhile_append_of_pos hds]
  cases rest with
  | nil => simp
  | cons c rest =>
    have hc : isDigit c = false := hrest c rfl
    simp [hc]

namespace Literal

theorem exponentSign_spelled {down : Bool} {sign ds : List Char}
    (hsign : sign ∈ exponentSigns down) (h : Digits ds) :
    exponentSign (sign ++ (ds ++ rest)) = (down, ds ++ rest) := by
  obtain ⟨d, ds, rfl⟩ := List.exists_cons_of_ne_nil h.1
  have hd : isDigit d = true := h.2 d (by simp)
  have hplus : d ≠ '+' := fun heq => by rw [heq] at hd; cases hd
  have hminus : d ≠ '-' := fun heq => by rw [heq] at hd; cases hd
  cases down with
  | true =>
    obtain rfl : sign = ['-'] := by simpa [exponentSigns] using hsign
    rfl
  | false =>
    rcases (by simpa [exponentSigns] using hsign : sign = [] ∨ sign = ['+']) with rfl | rfl
    · rw [List.nil_append, List.cons_append, exponentSign]
      · exact fun _ heq => hplus (List.cons.inj heq).1
      · exact fun _ heq => hminus (List.cons.inj heq).1
    · rfl

theorem scanExponent?_spelled {negative : Bool} {whole fraction cs : List Char}
    {exponent : Option (Bool × List Char)} (h : ExponentSpelled exponent cs)
    (hrest : Delimited rest) :
    scanExponent? negative whole fraction (cs ++ rest) =
      some (⟨negative, whole, fraction, exponent⟩, rest) := by
  cases h with
  | none =>
    cases rest with
    | nil => rfl
    | cons c rest =>
      obtain ⟨-, -, he, hE⟩ := hrest c rfl
      rw [List.nil_append, scanExponent?, if_neg (by simp [he, hE])]
  | @some e down sign ds he hsign hds =>
    obtain ⟨htake, hdrop⟩ := takeWhile_digits hds.2 hrest.noDigit
    have hletter : e = 'e' ∨ e = 'E' := by simpa using he
    rw [List.cons_append, List.append_assoc, scanExponent?, if_pos hletter,
      exponentSign_spelled hsign hds]
    simp only [htake, hdrop, if_neg hds.1]

/-- An exponent does not go on with digits. -/
theorem noDigit_exponent {cs : List Char} {exponent : Option (Bool × List Char)}
    (h : ExponentSpelled exponent cs) (hrest : Delimited rest) : NoDigit (cs ++ rest) := by
  cases h with
  | none => exact hrest.noDigit
  | some he hsign hds =>
    intro c hc
    cases hc
    simp only [List.mem_cons, List.not_mem_nil, or_false] at he
    rcases he with rfl | rfl <;> rfl

theorem scanFraction?_spelled {negative : Bool} {whole fraction fractionText cs : List Char}
    {exponent : Option (Bool × List Char)} (hfraction : FractionSpelled fraction fractionText)
    (h : ExponentSpelled exponent cs) (hrest : Delimited rest) :
    scanFraction? negative whole (fractionText ++ (cs ++ rest)) =
      some (⟨negative, whole, fraction, exponent⟩, rest) := by
  cases hfraction with
  | none =>
    rw [List.nil_append, ← scanExponent?_spelled h hrest]
    cases htext : cs ++ rest with
    | nil => rfl
    | cons c more =>
      have hpoint : c ≠ '.' := by
        cases h with
        | none => exact (hrest c (by rw [List.nil_append] at htext; rw [htext]; rfl)).2.1
        | some he hsign hds =>
          obtain rfl := (List.cons.inj htext).1
          rintro rfl
          simp at he
      rw [scanFraction?, if_neg hpoint]
  | some hds =>
    obtain ⟨htake, hdrop⟩ := takeWhile_digits hds.2 (noDigit_exponent h hrest)
    rw [List.cons_append, scanFraction?, if_pos rfl]
    simp only [htake, hdrop, if_neg hds.1]
    exact scanExponent?_spelled h hrest

/-- Neither a fraction nor an exponent goes on with digits. -/
theorem noDigit_fraction {fraction fractionText cs : List Char}
    {exponent : Option (Bool × List Char)} (hfraction : FractionSpelled fraction fractionText)
    (h : ExponentSpelled exponent cs) (hrest : Delimited rest) :
    NoDigit (fractionText ++ (cs ++ rest)) := by
  cases hfraction with
  | none =>
    rw [List.nil_append]
    exact noDigit_exponent h hrest
  | some hds =>
    intro c hc
    cases hc
    rfl

theorem scan?_spelled {l : Literal} {cs : List Char} (h : NumberSpelled l cs)
    (hrest : Delimited rest) : scan? (cs ++ rest) = some (l, rest) := by
  obtain @⟨negative, whole, fraction, fractionText, exponentText, exponent, hwhole, hzero,
    hfraction, hexponent⟩ := h
  obtain ⟨d, more, rfl⟩ := List.exists_cons_of_ne_nil hwhole.1
  obtain ⟨hd, hmore⟩ := List.forall_mem_cons.mp hwhole.2
  obtain ⟨htake, hdrop⟩ := takeWhile_digits hmore (noDigit_fraction hfraction hexponent hrest)
  have hlead : ¬ (d = '0' ∧ more ≠ []) := by
    rintro ⟨rfl, hne⟩
    exact hne (List.cons.inj (hzero rfl)).2
  have hminus : d ≠ '-' := fun heq => by rw [heq] at hd; cases hd
  have hscan : scanWhole? negative (d :: (more ++ (fractionText ++ (exponentText ++ rest)))) =
      some (⟨negative, d :: more, fraction, exponent⟩, rest) := by
    rw [scanWhole?, hd]
    simp only [Bool.not_true, Bool.false_eq_true, if_false, htake, hdrop, if_neg hlead]
    exact scanFraction?_spelled hfraction hexponent hrest
  cases negative with
  | true => simpa [scan?] using hscan
  | false => simpa [scan?, hminus] using hscan

end Literal

/-! ## Lexemes -/

namespace Lexeme

/-- What a lexeme is read as. -/
def token : Lexeme → Token
  | .openList => .openList
  | .closeList => .closeList
  | .openRecord => .openRecord
  | .closeRecord => .closeRecord
  | .colon => .colon
  | .comma => .comma
  | .null => .null
  | .boolean b => .boolean b
  | .number l => .number l.number
  | .text us => unitsToken us

/-- Whether characters behind a lexeme could be taken for more of it. -/
def isNumber : Lexeme → Bool
  | .number _ => true
  | _ => false

/-- A number begins with a sign or a digit, which begin nothing else. -/
theorem begins_number {c : Char} (h : c = '-' ∨ isDigit c = true) :
    isBlank c = false ∧ punctuation? c = none ∧ c ≠ '"' := by
  have hne : ∀ d, ¬ (d = '-' ∨ isDigit d = true) → c ≠ d := fun d hd heq => hd (heq ▸ h)
  refine ⟨?_, ?_, hne _ (by decide)⟩
  · simp [isBlank, hne ' ' (by decide), hne '\t' (by decide), hne '\n' (by decide),
      hne '\r' (by decide)]
  · simp [punctuation?, hne '[' (by decide), hne ']' (by decide), hne '{' (by decide),
      hne '}' (by decide), hne ':' (by decide), hne ',' (by decide)]

/-- A lexeme is read as its token, unless it is a number and the text goes on with it. -/
theorem token?_spelled {l : Lexeme} {cs : List Char} (h : l.Spelled cs)
    (hrest : l.isNumber = true → Delimited rest) :
    ∃ c more, cs = c :: more ∧ isBlank c = false ∧
      token? c (more ++ rest) = some (l.token, rest) := by
  cases h with
  | openList | closeList | openRecord | closeRecord | colon | comma | null | trueName
  | falseName => exact ⟨_, _, rfl, rfl, rfl⟩
  | @number l cs h =>
    have hscan := Literal.scan?_spelled h (hrest rfl)
    obtain ⟨c, more, rfl, hc⟩ : ∃ c more, cs = c :: more ∧ (c = '-' ∨ isDigit c = true) := by
      obtain @⟨negative, whole, -, -, -, -, hwhole, -, -, -⟩ := h
      obtain ⟨d, ds, rfl⟩ := List.exists_cons_of_ne_nil hwhole.1
      cases negative with
      | true => exact ⟨_, _, rfl, .inl rfl⟩
      | false => exact ⟨_, _, rfl, .inr (hwhole.2 d (by simp))⟩
    obtain ⟨hblank, hpunctuation, hquote⟩ := begins_number hc
    refine ⟨_, _, rfl, hblank, ?_⟩
    rw [token?, hpunctuation]
    simp only [if_neg hquote, if_pos hc]
    rw [← List.cons_append, hscan]
    rfl
  | @text us cs h =>
    obtain ⟨pieces, hscan, hbound, hunits⟩ := scanPieces?_spelled h [] rest
    refine ⟨_, _, rfl, rfl, ?_⟩
    rw [token?, show punctuation? '"' = none from rfl]
    simp only [if_true, List.append_assoc, List.singleton_append, hscan, Option.map_some,
      List.reverse_nil, List.nil_append]
    rw [ofPieces_eq_unitsToken hbound, hunits, token]

/-- The first character of a lexeme that is no number does not go on with one. -/
theorem delimited_spelled {l : Lexeme} {cs : List Char} (h : l.Spelled cs)
    (hl : l.isNumber = false) (rest : List Char) : Delimited (cs ++ rest) := by
  cases h with
  | number => cases hl
  | _ =>
    intro c hc
    cases hc
    decide

/-- The two may stand side by side without a blank between them. -/
def Apart (l l' : Lexeme) : Prop := l.isNumber = true → l'.isNumber = false

/-- Where no number comes first, a text does not go on with one. -/
theorem delimited_spaced {ls : List Lexeme} (h : Spaced ls text)
    (hfirst : ∀ l ∈ ls.head?, l.isNumber = false) : Delimited text := by
  have hblanks : ∀ {blanks rest : List Char}, Blanks blanks → Delimited rest →
      Delimited (blanks ++ rest) := by
    intro blanks rest hblanks hrest
    cases blanks with
    | nil => exact hrest
    | cons c more =>
      intro c' hc'
      cases hc'
      have hc := hblanks c (by simp)
      simp only [List.mem_cons, List.not_mem_nil, or_false] at hc
      rcases hc with rfl | rfl | rfl | rfl <;> decide
  cases h with
  | nil h =>
    have hnone : Delimited [] := by simp [Delimited]
    have := hblanks h hnone
    rwa [List.append_nil] at this
  | cons hb hl h => exact hblanks hb (delimited_spelled hl (hfirst _ rfl) _)

/-- A text is read as the tokens of its lexemes. -/
theorem scanOnto_spaced {ls : List Lexeme} (h : Spaced ls text) (hls : ls.IsChain Apart)
    (read : List Token) : scanOnto read text = read.reverse ++ ls.map token := by
  induction h generalizing read with
  | @nil blanks h =>
    rw [← List.append_nil blanks, scanOnto_blanks h, scanOnto, List.map_nil, List.append_nil]
  | @cons l ls blanks cs rest hblanks hl h ih =>
    obtain ⟨hnext, hrest⟩ := List.isChain_cons.mp hls
    obtain ⟨c, more, rfl, hc, htoken⟩ := token?_spelled hl fun hnumber =>
      delimited_spaced h fun l' hl' => hnext l' hl' hnumber
    rw [scanOnto_blanks hblanks, List.cons_append, scanOnto_token hc htoken, ih hrest,
      List.reverse_cons, List.append_assoc]
    rfl

end Lexeme

namespace Document

open Lexeme

/-- No lexeme of these is followed by one that it could be taken for more of. -/
def Separate (ls : List Lexeme) : Prop :=
  ls.IsChain Apart ∧ ∀ l ∈ ls.head?, l.isNumber = false

theorem separate_cons {l : Lexeme} {ls : List Lexeme} (hl : l.isNumber = false)
    (h : ls.IsChain Apart) : Separate (l :: ls) := by
  refine ⟨List.isChain_cons.mpr ⟨fun _ _ hnumber => ?_, h⟩, ?_⟩
  · rw [hl] at hnumber
    cases hnumber
  · simpa using hl

mutual

theorem isChain_lexemes : ∀ (v : Document) {ls : List Lexeme}, Separate ls →
    (v.lexemes ++ ls).IsChain Apart
  | null, _, h | boolean _, _, h | text _, _, h => (separate_cons rfl h.1).1
  | number _, _, h => List.isChain_cons.mpr ⟨fun l hl _ => h.2 l hl, h.1⟩
  | list [], _, h => (separate_cons rfl (separate_cons rfl h.1).1).1
  | list (v :: vs), ls, h => by
    have hitems := separate_items vs (separate_cons (l := .closeList) rfl h.1)
    have := separate_cons (l := .openList) rfl (isChain_lexemes v hitems)
    simpa [lexemes] using this.1
  | record [], _, h => (separate_cons rfl (separate_cons rfl h.1).1).1
  | record ((name, v) :: rest), ls, h => by
    have hmembers := separate_members rest (separate_cons (l := .closeRecord) rfl h.1)
    have := separate_cons (l := .openRecord) rfl <| (separate_cons (l := .text name) rfl <|
      (separate_cons (l := .colon) rfl (isChain_lexemes v hmembers)).1).1
    simpa [lexemes] using this.1

theorem separate_items : ∀ (vs : List Document) {ls : List Lexeme}, Separate ls →
    Separate (lexemesOfItems vs ++ ls)
  | [], _, h => h
  | v :: vs, ls, h => by
    have := separate_cons (l := .comma) rfl (isChain_lexemes v (separate_items vs h))
    simpa [lexemesOfItems] using this

theorem separate_members : ∀ (members : List (List UInt16 × Document)) {ls : List Lexeme},
    Separate ls → Separate (lexemesOfMembers members ++ ls)
  | [], _, h => h
  | (name, v) :: rest, ls, h => by
    have := separate_cons (l := .comma) rfl <| (separate_cons (l := .text name) rfl <|
      (separate_cons (l := .colon) rfl (isChain_lexemes v (separate_members rest h))).1).1
    simpa [lexemesOfMembers] using this

end

/-- The tokens of a value. -/
def tokens (v : Document) : List Token := v.lexemes.map token

/-- Every text of a value is read as its tokens. -/
theorem scan_written {v : Document} {text : String} (h : v.Written text) :
    Token.scan text.toList = v.tokens := by
  have hnone : Separate [] := ⟨List.isChain_nil, by simp⟩
  have hchain := isChain_lexemes v hnone
  rw [List.append_nil] at hchain
  exact scanOnto_spaced h hchain []

/-! ## Tokens of values -/

/-- The tokens of the elements of a list behind the first one. -/
def tokensOfItems (vs : List Document) : List Token := (lexemesOfItems vs).map Lexeme.token

/-- The tokens of the members of a record behind the first one. -/
def tokensOfMembers (members : List (List UInt16 × Document)) : List Token :=
  (lexemesOfMembers members).map Lexeme.token

theorem tokens_list_cons (v : Document) (vs : List Document) :
    (list (v :: vs)).tokens = .openList :: (v.tokens ++ tokensOfItems vs ++ [.closeList]) := by
  simp [tokens, lexemes, tokensOfItems, Lexeme.token]

theorem tokens_record_cons (name : List UInt16) (v : Document)
    (members : List (List UInt16 × Document)) :
    (record ((name, v) :: members)).tokens =
      .openRecord :: (unitsToken name :: .colon :: v.tokens ++ tokensOfMembers members ++
        [.closeRecord]) := by
  simp [tokens, lexemes, tokensOfMembers, Lexeme.token]

@[simp]
theorem tokensOfItems_cons (v : Document) (vs : List Document) :
    tokensOfItems (v :: vs) = .comma :: (v.tokens ++ tokensOfItems vs) := by
  simp [tokensOfItems, lexemesOfItems, tokens, Lexeme.token]

@[simp]
theorem tokensOfMembers_cons (name : List UInt16) (v : Document)
    (members : List (List UInt16 × Document)) :
    tokensOfMembers ((name, v) :: members) =
      .comma :: (unitsToken name :: .colon :: v.tokens ++ tokensOfMembers members) := by
  simp [tokensOfMembers, lexemesOfMembers, tokens, Lexeme.token]

@[simp]
theorem tokensOfItems_nil : tokensOfItems [] = [] := rfl

@[simp]
theorem tokensOfMembers_nil : tokensOfMembers [] = [] := rfl

/-- The token that a value begins with: it ends nothing, and is null or opens a list only where
the value does. -/
theorem exists_tokens (v : Document) : ∃ t more, v.tokens = t :: more ∧
    t ≠ .closeList ∧ t ≠ .closeRecord ∧ (t = .null → v = .null) ∧
      (t = .openList → ∃ vs, v = .list vs) := by
  cases v with
  | text us =>
    refine ⟨_, _, rfl, ?_⟩
    rw [Lexeme.token]
    rcases unitsToken_cases us with ⟨s, h⟩ | h <;> rw [h] <;> exact ⟨nofun, nofun, nofun, nofun⟩
  | null => exact ⟨_, _, rfl, nofun, nofun, fun _ => rfl, nofun⟩
  | boolean b => exact ⟨_, _, rfl, nofun, nofun, nofun, nofun⟩
  | number l => exact ⟨_, _, rfl, nofun, nofun, nofun, nofun⟩
  | list vs =>
    cases vs with
    | nil => exact ⟨_, _, rfl, nofun, nofun, nofun, fun _ => ⟨_, rfl⟩⟩
    | cons v vs => exact ⟨_, _, tokens_list_cons v vs, nofun, nofun, nofun, fun _ => ⟨_, rfl⟩⟩
  | record members =>
    cases members with
    | nil => exact ⟨_, _, rfl, nofun, nofun, nofun, nofun⟩
    | cons member members =>
      exact ⟨_, _, tokens_record_cons _ _ members, nofun, nofun, nofun, nofun⟩

end Document

end MerkleBatch.Json
