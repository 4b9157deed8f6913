import MerkleBatch.Proofs.Json.Scan
import MerkleBatch.Proofs.Text.Digits
import Mathlib.Data.List.Forall2

/-!
# A laid-out value is a text of it

The laid-out text of a value is one of the many that write it: its breaks and indentations are
blanks, and its escapes are among the spellings of a string.

* `LaysOut`: the laid-out text of a value writes a document.
* `laysOut_text`, `laysOut_number`, `laysOut_list`, `laysOut_record`: the values.
-/

namespace MerkleBatch.Json

variable {ls : List Lexeme} {text : List Char}

/-! ## Lexemes -/

theorem Spaced.lexeme {l : Lexeme} {cs : List Char} (hl : l.Spelled cs) (h : Spaced ls text) :
    Spaced (l :: ls) (cs ++ text) := by
  have hnone : Blanks [] := by simp [Blanks]
  exact .cons hnone hl h

/-- More blanks in front do not matter. -/
theorem Spaced.blanks {blanks : List Char} (hblanks : Blanks blanks) (h : Spaced ls text) :
    Spaced ls (blanks ++ text) := by
  cases h with
  | nil h =>
    refine .nil fun c hc => ?_
    rcases List.mem_append.mp hc with hc | hc
    · exact hblanks c hc
    · exact h c hc
  | @cons l ls more cs rest hmore hl h =>
    have hboth : Blanks (blanks ++ more) := by
      intro c hc
      rcases List.mem_append.mp hc with hc | hc
      · exact hblanks c hc
      · exact hmore c hc
    rw [← List.append_assoc]
    exact .cons hboth hl h

/-- A line break and an indentation are blanks. -/
theorem blanks_newline (depth : Nat) : Blanks (newline depth) := by
  intro c hc
  rw [newline, List.mem_cons] at hc
  rcases hc with rfl | hc
  · decide
  · rw [List.eq_of_mem_replicate hc]
    decide

theorem unitsSpelled_escapeChar (c : Char) {us : List UInt16} (h : UnitsSpelled us text) :
    UnitsSpelled (unitsOf c ++ us) (escapeChar c ++ text) := by
  have hshort : ∀ {e : Char}, (e, c) ∈ shortEscapes → escapeChar c = ['\\', e] →
      UnitsSpelled (unitsOf c ++ us) (escapeChar c ++ text) := by
    intro e he hescape
    rw [hescape]
    exact .short he h
  by_cases hquote : c = '"'
  · exact hshort (e := '"') (by rw [hquote]; decide) (by rw [hquote]; rfl)
  by_cases hslash : c = '\\'
  · exact hshort (e := '\\') (by rw [hslash]; decide) (by rw [hslash]; rfl)
  by_cases hline : c = '\n'
  · exact hshort (e := 'n') (by rw [hline]; decide) (by rw [hline]; rfl)
  by_cases hreturn : c = '\r'
  · exact hshort (e := 'r') (by rw [hreturn]; decide) (by rw [hreturn]; rfl)
  by_cases htab : c = '\t'
  · exact hshort (e := 't') (by rw [htab]; decide) (by rw [htab]; rfl)
  by_cases hback : c.toNat = 8
  · obtain rfl : c = Char.ofNat 8 := by rw [← hback, Char.ofNat_toNat]
    exact hshort (e := 'b') (by decide) rfl
  by_cases hfeed : c.toNat = 12
  · obtain rfl : c = Char.ofNat 12 := by rw [← hfeed, Char.ofNat_toNat]
    exact hshort (e := 'f') (by decide) rfl
  rw [escapeChar, if_neg hquote, if_neg hslash, if_neg hline, if_neg hreturn, if_neg htab,
    if_neg hback, if_neg hfeed]
  by_cases hcontrol : c.toNat < 32
  · have hdigit : ∀ {d : Nat}, d < 16 → HexDigit (Nat.digitChar d) d := fun hd => ⟨hd, .inl rfl⟩
    have hunits : unitsOf c =
        [.ofNat (4096 * 0 + 256 * 0 + 16 * (c.toNat / 16) + c.toNat % 16)] := by
      rw [unitsOf, if_pos (by omega)]
      congr 2
      omega
    rw [if_pos hcontrol, hunits]
    exact .unit (hdigit (by decide)) (hdigit (by decide)) (hdigit (by omega)) (hdigit (by omega)) h
  · rw [if_neg hcontrol]
    exact .plain (Nat.le_of_not_lt hcontrol) hquote hslash h

theorem spelled_quote (s : String) : (Lexeme.text (units s)).Spelled (quote s) := by
  refine .text ?_
  rw [units]
  induction s.toList with
  | nil => exact .nil
  | cons c rest ih =>
    rw [List.flatMap_cons, List.flatMap_cons]
    exact unitsSpelled_escapeChar c ih

/-- The digits of a number write it. -/
theorem spelled_ofNat (n : Nat) : (Lexeme.number (.ofNat n)).Spelled (Literal.ofNat n).chars := by
  obtain ⟨ds, hdigits, hsmall, -, hhead⟩ := exists_digits (by decide : 1 < 10) n
  have hisDigit : ∀ c ∈ Nat.toDigits 10 n, isDigit c = true := by
    rw [hdigits]
    intro c hc
    obtain ⟨d, hd, rfl⟩ := List.mem_map.mp hc
    exact (by decide : ∀ d : Fin 10, isDigit (Nat.digitChar d.val) = true) ⟨d, hsmall d hd⟩
  have hzero : (Nat.toDigits 10 n).head? = some '0' → Nat.toDigits 10 n = ['0'] := by
    intro h
    suffices hn : n = 0 by rw [hn, Nat.toDigits_zero]
    refine hhead ?_
    rw [hdigits, List.head?_map] at h
    obtain ⟨d, hd, hdigit⟩ := Option.map_eq_some_iff.mp h
    have hnone : d = 0 := (by decide : ∀ d : Fin 10, Nat.digitChar d.val = '0' → d.val = 0)
      ⟨d, hsmall d (List.mem_of_head? hd)⟩ hdigit
    rw [hd, hnone]
  have hspelled : NumberSpelled (.ofNat n) ([] ++ (Nat.toDigits 10 n ++ ([] ++ []))) :=
    .intro ⟨Nat.toDigits_ne_nil, hisDigit⟩ hzero .none .none
  refine .number ?_
  simpa [Literal.ofNat, Literal.chars] using hspelled

/-! ## Values -/

/-- The laid-out text of the value writes the document, whatever its depth and whatever follows. -/
def LaysOut (v : Value) (d : Document) : Prop :=
  ∀ (depth : Nat) (ls : List Lexeme) (rest : List Char), Spaced ls rest →
    Spaced (d.lexemes ++ ls) (v.pretty depth ++ rest)

theorem laysOut_null : LaysOut .null .null := fun _ _ _ h => .lexeme .null h

theorem laysOut_text (s : String) : LaysOut (.text s) (.text (units s)) :=
  fun _ _ _ h => .lexeme (spelled_quote s) h

theorem laysOut_number (n : Nat) : LaysOut (.number (.ofNat n)) (.number (.ofNat n)) :=
  fun _ _ _ h => .lexeme (spelled_ofNat n) h

theorem spaced_items {vs : List Value} {ds : List Document} (h : List.Forall₂ LaysOut vs ds)
    (depth : Nat) (hrest : Spaced ls text) :
    Spaced (Document.lexemesOfItems ds ++ ls) (Value.prettyItems depth vs ++ text) := by
  induction h with
  | nil => exact hrest
  | @cons v d vs ds hv _ ih =>
    have := Spaced.lexeme .comma ((hv depth _ _ ih).blanks (blanks_newline depth))
    simpa [Document.lexemesOfItems, Value.prettyItems] using this

theorem laysOut_list {vs : List Value} {ds : List Document} (h : List.Forall₂ LaysOut vs ds) :
    LaysOut (.list vs) (.list ds) := by
  intro depth ls rest hrest
  cases h with
  | nil =>
    have := Spaced.lexeme .openList (.lexeme .closeList hrest)
    simpa [Document.lexemes, Value.pretty] using this
  | @cons v d vs ds hv hvs =>
    have hclose := (Spaced.lexeme .closeList hrest).blanks (blanks_newline depth)
    have hfirst := hv (depth + 1) _ _ (spaced_items hvs (depth + 1) hclose)
    have := Spaced.lexeme .openList (hfirst.blanks (blanks_newline (depth + 1)))
    simpa [Document.lexemes, Value.pretty] using this

/-- The laid-out text of a member writes a member of a document. -/
def LaysOutMember (member : String × Value) (found : String × Document) : Prop :=
  member.1 = found.1 ∧ LaysOut member.2 found.2

theorem LaysOut.member {v : Value} {d : Document} (h : LaysOut v d) (name : String) :
    LaysOutMember (name, v) (name, d) := ⟨rfl, h⟩

/-- The name of a member, the colon behind it and its value. -/
theorem LaysOutMember.spaced {name : String} {v : Value} {found : String × Document}
    (h : LaysOutMember (name, v) found) (depth : Nat) (hrest : Spaced ls text) :
    Spaced (.text (units found.1) :: .colon :: (found.2.lexemes ++ ls))
      (quote name ++ (':' :: ' ' :: (v.pretty depth ++ text))) := by
  obtain ⟨rfl, hv⟩ := h
  have hspace : Blanks [' '] := by simp [Blanks]
  exact .lexeme (spelled_quote found.1) (.lexeme .colon ((hv depth _ _ hrest).blanks hspace))

theorem spaced_members {members : List (String × Value)} {found : List (String × Document)}
    (h : List.Forall₂ LaysOutMember members found) (depth : Nat) (hrest : Spaced ls text) :
    Spaced (Document.lexemesOfMembers (found.map fun (name, d) => (units name, d)) ++ ls)
      (Value.prettyMembers depth members ++ text) := by
  induction h with
  | nil => exact hrest
  | @cons member d members found hmember _ ih =>
    have := Spaced.lexeme .comma ((hmember.spaced depth ih).blanks (blanks_newline depth))
    simpa [Document.lexemesOfMembers, Value.prettyMembers] using this

theorem laysOut_record {members : List (String × Value)} {found : List (String × Document)}
    (h : List.Forall₂ LaysOutMember members found) :
    LaysOut (.record members) (.ofMembers found) := by
  intro depth ls rest hrest
  cases h with
  | nil =>
    have := Spaced.lexeme .openRecord (.lexeme .closeRecord hrest)
    simpa [Document.ofMembers, Document.lexemes, Value.pretty] using this
  | @cons member d members found hmember hmembers =>
    have hclose := (Spaced.lexeme .closeRecord hrest).blanks (blanks_newline depth)
    have hfirst := hmember.spaced (depth + 1) (spaced_members hmembers (depth + 1) hclose)
    have := Spaced.lexeme .openRecord (hfirst.blanks (blanks_newline (depth + 1)))
    simpa [Document.ofMembers, Document.lexemes, Value.pretty] using this

/-- The laid-out text of a value is a text of what it lays out. -/
theorem LaysOut.written {v : Value} {d : Document} (h : LaysOut v d) (depth : Nat) :
    d.Written (String.ofList (v.pretty depth)) := by
  have hnone : Spaced [] [] := .nil (by simp [Blanks])
  have := h depth [] [] hnone
  rw [List.append_nil, List.append_nil] at this
  rwa [Document.Written, String.toList_ofList]

end MerkleBatch.Json
