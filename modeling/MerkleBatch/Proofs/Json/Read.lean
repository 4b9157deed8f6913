import MerkleBatch.Json.Reader
import MerkleBatch.Proofs.Json.Scan
import MerkleBatch.Proofs.Text.Digits
import Mathlib.Data.List.Forall2

/-!
# Readers and the values they read

A reader of some kind stands for a relation between values and what they denote: on the tokens of
a value it gives what the value denotes and leaves what is behind, and otherwise it refuses.

* `Accepts`: a reader reads exactly the values that denote something.
* `Reads`: what a reader makes of a value on its own.
* `IsText`, `IsWord`, `IsOptional`, `IsList`: what values of the simple kinds denote.
* `accepts_string`, `accepts_word`, `Accepts.optional`, `Accepts.list`: their readers.
* `Accepts.decode`: the texts that are decoded.
-/

namespace MerkleBatch.Json

open Document Reader

/-! ## Simple kinds -/

/-- The reader reads exactly the values that denote something, as what they denote, and nothing
behind them. -/
def Accepts {α : Type} (r : Reader α) (Denotes : Document → α → Prop) : Prop :=
  ∀ (v : Document) (rest : List Token) (a : α) (rest' : List Token),
    r.run (v.tokens ++ rest) = .ok (a, rest') ↔ Denotes v a ∧ rest' = rest

/-- The value is this text. -/
def IsText (v : Document) (s : String) : Prop := v = .text (units s)

/-- The number that digits stand for. -/
def Literal.decimal (ds : List Char) : Nat := ofDigits 10 (ds.map digitValue)

/-- The value is a whole number without a sign, a point or an exponent, and stands for this word. -/
def IsWord (v : Document) (n : UInt32) : Prop :=
  ∃ digits, v = .number ⟨false, digits, [], none⟩ ∧ Literal.decimal digits = n.toNat

/-- The value is a list of values that denote these. -/
def IsList {α : Type} (Denotes : Document → α → Prop) (v : Document) (as : List α) : Prop :=
  ∃ vs, v = .list vs ∧ List.Forall₂ Denotes vs as

/-- The value is null, or it denotes something. -/
def IsOptional {α : Type} (Denotes : Document → α → Prop) (v : Document) (o : Option α) : Prop :=
  v = .null ∧ o = none ∨ v ≠ .null ∧ ∃ a, Denotes v a ∧ o = some a

variable {α β : Type} {r : Reader α} {Denotes : Document → α → Prop} {rest : List Token}

theorem run_single (read : Token → Except Fault α) (t : Token) (rest : List Token) (a : α)
    (rest' : List Token) :
    (single read).run (t :: rest) = .ok (a, rest') ↔ read t = .ok a ∧ rest' = rest := by
  simp only [single]
  cases read t with
  | error fault => simp
  | ok b => simp [eq_comm]

/-- A reader of one token refuses lists and records, if it refuses the brackets they begin with. -/
theorem run_single_bracket {read : Token → Except Fault α} {v : Document} {a : α}
    {rest' : List Token} (hlist : ∀ a, read .openList ≠ .ok a)
    (hrecord : ∀ a, read .openRecord ≠ .ok a)
    (h : (∃ vs, v = .list vs) ∨ ∃ members, v = .record members) :
    ¬ (single read).run (v.tokens ++ rest) = .ok (a, rest') := by
  obtain ⟨t, more, htokens, ht⟩ : ∃ t more, v.tokens = t :: more ∧
      (t = .openList ∨ t = .openRecord) := by
    rcases h with ⟨vs, rfl⟩ | ⟨members, rfl⟩
    · cases vs with
      | nil => exact ⟨_, _, rfl, .inl rfl⟩
      | cons v vs => exact ⟨_, _, tokens_list_cons v vs, .inl rfl⟩
    · cases members with
      | nil => exact ⟨_, _, rfl, .inr rfl⟩
      | cons member members => exact ⟨_, _, tokens_record_cons _ _ members, .inr rfl⟩
  rw [htokens, List.cons_append, run_single]
  rintro ⟨hread, -⟩
  rcases ht with rfl | rfl
  · exact hlist a hread
  · exact hrecord a hread

theorem accepts_string : Accepts Reader.string IsText := by
  intro v rest s rest'
  cases v with
  | text us =>
    rw [show (Document.text us).tokens = [unitsToken us] from rfl, List.singleton_append, string,
      run_single, IsText, Document.text.injEq, ← unitsToken_eq_text_iff]
    refine and_congr_left fun _ => ?_
    rcases unitsToken_cases us with ⟨s', h⟩ | h <;> simp [h]
  | list vs =>
    exact iff_of_false (run_single_bracket nofun nofun (.inl ⟨_, rfl⟩)) nofun
  | record members =>
    exact iff_of_false (run_single_bracket nofun nofun (.inr ⟨_, rfl⟩)) nofun
  | null => exact iff_of_false nofun nofun
  | boolean b => exact iff_of_false nofun nofun
  | number l => exact iff_of_false nofun nofun

namespace Literal

/-- All digits find a place exactly if a word holds their number. -/
theorem absorb_eq_iff {n : Nat} (hn : n ≤ maxWord) (ds : List Char) (m : Nat) :
    absorb n ds = (m, []) ↔
      (ds.map digitValue).foldl (fun n d => 10 * n + d) n = m ∧ m ≤ maxWord := by
  induction ds generalizing n with
  | nil =>
    simp only [absorb, Prod.mk.injEq, and_true, List.map_nil, List.foldl_nil]
    exact ⟨fun h => ⟨h, h ▸ hn⟩, fun h => h.1⟩
  | cons c ds ih =>
    simp only [absorb, List.map_cons, List.foldl_cons]
    by_cases hnext : 10 * n + digitValue c ≤ maxWord
    · rw [if_pos hnext]
      exact ih hnext
    · have hgrow : ∀ (ds : List Nat) (m : Nat), m ≤ ds.foldl (fun n d => 10 * n + d) m := by
        intro ds
        induction ds with
        | nil => exact Nat.le_refl
        | cons d rest ih => exact fun m => Nat.le_trans (by omega) (ih (10 * m + d))
      have := hgrow (ds.map digitValue) (10 * n + digitValue c)
      rw [if_neg hnext]
      simp only [Prod.mk.injEq, reduceCtorEq, and_false, false_iff]
      omega

theorem signed_ne_integer (negative : Bool) (x : Option Float) (i : Int) :
    signed negative x ≠ .integer i := by
  cases x <;> exact nofun

/-- A number is read as a natural number exactly if it is written as one that a word holds. -/
theorem number_eq_natCast_iff (l : Literal) (n : Nat) :
    l.number = .integer n ↔
      (l.negative = false ∧ l.fraction = [] ∧ l.exponent = none) ∧ decimal l.whole = n ∧
        n ≤ maxWord := by
  have hwhole := absorb_eq_iff (Nat.zero_le maxWord) l.whole
  rw [← ofDigits, ← decimal] at hwhole
  cases habsorb : absorb 0 l.whole with
  | mk significand beyond =>
    rw [number]
    simp only [habsorb]
    by_cases hplain : l.fraction = [] ∧ l.exponent = none ∧ beyond = []
    · obtain ⟨hfraction, hexponent, rfl⟩ := hplain
      obtain ⟨hvalue, hle⟩ := (hwhole significand).mp habsorb
      cases hnegative : l.negative with
      | false =>
        simp only [hfraction, hexponent, hvalue, and_self, if_true, Bool.not_false,
          Number.integer.injEq, Int.natCast_inj, true_and]
        exact ⟨fun h => ⟨h, h ▸ hle⟩, And.left⟩
      | true =>
        simp only [hfraction, hexponent, and_self, if_true, Bool.not_true, Bool.false_eq_true,
          if_false, reduceCtorEq, false_and, iff_false]
        split
        · simp only [Number.integer.injEq]
          omega
        · exact signed_ne_integer _ _ _
    · rw [if_neg hplain]
      refine iff_of_false (signed_ne_integer _ _ _) ?_
      rintro ⟨⟨-, hfraction, hexponent⟩, hn⟩
      have hread := (hwhole n).mpr hn
      rw [habsorb] at hread
      exact hplain ⟨hfraction, hexponent, (Prod.mk.inj hread).2⟩

end Literal

theorem isWord_number_iff {l : Literal} {n : UInt32} :
    IsWord (.number l) n ↔ l.number = .integer n.toNat := by
  rw [IsWord, Literal.number_eq_natCast_iff]
  constructor
  · rintro ⟨digits, hl, hvalue⟩
    obtain rfl := Document.number.inj hl
    exact ⟨⟨rfl, rfl, rfl⟩, hvalue, Nat.le_of_lt (Nat.lt_trans n.toNat_lt (by decide))⟩
  · obtain ⟨negative, whole, fraction, exponent⟩ := l
    rintro ⟨⟨rfl, rfl, rfl⟩, hvalue, -⟩
    exact ⟨whole, rfl, hvalue⟩

/-- The decimal digits of a word denote it. -/
theorem isWord_ofNat (n : UInt32) : IsWord (.number (.ofNat n.toNat)) n := by
  obtain ⟨ds, hdigits, hsmall, hvalue, -⟩ := exists_digits (by decide : 1 < 10) n.toNat
  refine ⟨_, rfl, ?_⟩
  have hread : (ds.map Nat.digitChar).map digitValue = ds := by
    rw [List.map_map, List.map_congr_left (g := id), List.map_id]
    intro d hd
    exact (by decide : ∀ d : Fin 10, digitValue (Nat.digitChar d.val) = d.val) ⟨d, hsmall d hd⟩
  rw [Literal.decimal, hdigits, hread, hvalue]

theorem accepts_word : Accepts Reader.word IsWord := by
  intro v rest n rest'
  cases v with
  | number l =>
    rw [show (Document.number l).tokens = [.number l.number] from rfl, List.singleton_append, word,
      run_single, isWord_number_iff]
    refine and_congr_left fun _ => ?_
    cases l.number with
    | integer i =>
      have hlt := n.toNat_lt
      simp only [Number.integer.injEq]
      split
      · rename_i hi
        have hsize : i.toNat < UInt32.size := by
          rw [UInt32.size]
          omega
        rw [Except.ok.injEq, ← UInt32.toNat_inj, UInt32.toNat_ofNat_of_lt' hsize]
        omega
      · simp only [reduceCtorEq, false_iff]
        omega
    | floating shown => exact iff_of_false nofun nofun
    | outOfRange => exact iff_of_false nofun nofun
  | list vs =>
    exact iff_of_false (run_single_bracket nofun nofun (.inl ⟨_, rfl⟩)) nofun
  | record members =>
    exact iff_of_false (run_single_bracket nofun nofun (.inr ⟨_, rfl⟩)) nofun
  | text us =>
    rw [show (Document.text us).tokens = [unitsToken us] from rfl, List.singleton_append, word,
      run_single]
    rcases unitsToken_cases us with ⟨s', h⟩ | h <;> exact iff_of_false (by simp [h]) nofun
  | null => exact iff_of_false nofun nofun
  | boolean b => exact iff_of_false nofun nofun

/-- A value denotes one thing at most. -/
theorem Accepts.unique (h : Accepts r Denotes) {v : Document} {a a' : α} (ha : Denotes v a)
    (ha' : Denotes v a') : a = a' := by
  have hrun := (h v [] a []).mpr ⟨ha, rfl⟩
  rw [(h v [] a' []).mpr ⟨ha', rfl⟩] at hrun
  cases hrun
  rfl

/-- A value that denotes something is read, any other one is refused. -/
theorem Accepts.run_cases (h : Accepts r Denotes) (v : Document) (rest : List Token) :
    (∃ a, Denotes v a ∧ r.run (v.tokens ++ rest) = .ok (a, rest)) ∨
      (∃ fault, r.run (v.tokens ++ rest) = .error fault) ∧ ∀ a, ¬ Denotes v a := by
  cases hrun : r.run (v.tokens ++ rest) with
  | error fault =>
    refine .inr ⟨⟨fault, rfl⟩, fun a ha => ?_⟩
    rw [(h v rest a rest).mpr ⟨ha, rfl⟩] at hrun
    cases hrun
  | ok result =>
    obtain ⟨a, more⟩ := result
    obtain ⟨ha, rfl⟩ := (h v rest a more).mp hrun
    exact .inl ⟨a, ha, rfl⟩

/-- The reader reads the value on its own, as this. -/
def Reads (r : Reader α) (v : Document) (a : α) : Prop := r.run v.tokens = .ok (a, [])

theorem Accepts.reads_iff (h : Accepts r Denotes) (v : Document) (a : α) :
    Reads r v a ↔ Denotes v a := by
  have hrun := h v [] a []
  rwa [List.append_nil, and_iff_left rfl] at hrun

theorem Accepts.reads (h : Accepts r Denotes) : Accepts r (Reads r) := by
  intro v rest a rest'
  rw [h v rest a rest', h.reads_iff v a]

theorem Accepts.map (h : Accepts r Denotes) (f : α → β) :
    Accepts (r.map f) fun v b => ∃ a, Denotes v a ∧ b = f a := by
  intro v rest b rest'
  simp only [Reader.map]
  rcases h.run_cases v rest with ⟨a, ha, hrun⟩ | ⟨⟨fault, hrun⟩, hnone⟩
  · simp only [hrun, Except.ok.injEq, Prod.mk.injEq]
    constructor
    · rintro ⟨rfl, rfl⟩
      exact ⟨⟨a, ha, rfl⟩, rfl⟩
    · rintro ⟨⟨a', ha', rfl⟩, rfl⟩
      rw [h.unique ha ha']
      exact ⟨rfl, rfl⟩
  · simp [hrun, hnone]

theorem Accepts.optional (h : Accepts r Denotes) : Accepts r.optional (IsOptional Denotes) := by
  intro v rest o rest'
  by_cases hv : v = .null
  · subst hv
    simp only [Reader.optional, IsOptional, show Document.null.tokens = [.null] from rfl,
      List.singleton_append]
    simp [eq_comm]
  · obtain ⟨t, more, htokens, -, -, hnull, -⟩ := v.exists_tokens
    have hrun : r.optional.run (v.tokens ++ rest) = (r.map some).run (v.tokens ++ rest) := by
      rw [htokens, List.cons_append]
      simp only [Reader.optional]
      split
      · rename_i heq
        exact absurd (hnull (List.cons.inj heq).1) hv
      · rfl
    rw [hrun, h.map some v rest o rest', IsOptional]
    simp [hv]

/-! ## Lists -/

theorem elements_comma {read : List α} {a : α} {tokens : List Token}
    (h : r.run tokens = .ok (a, .comma :: rest)) :
    elements r read tokens = elements r (a :: read) rest := by
  rw [elements]
  split
  · rename_i heq
    rw [h] at heq
    cases heq
  · rename_i heq
    rw [h] at heq
    cases heq
    rfl
  · rename_i heq
    rw [h] at heq
    cases heq
  · rename_i hcomma _ heq
    rw [h] at heq
    cases heq
    exact absurd rfl (hcomma _ _)

theorem elements_close {read : List α} {a : α} {tokens : List Token}
    (h : r.run tokens = .ok (a, .closeList :: rest)) :
    elements r read tokens = .ok ((a :: read).reverse, rest) := by
  rw [elements]
  split
  · rename_i heq
    rw [h] at heq
    cases heq
  · rename_i heq
    rw [h] at heq
    cases heq
  · rename_i heq
    rw [h] at heq
    cases heq
    rfl
  · rename_i _ hclose heq
    rw [h] at heq
    cases heq
    exact absurd rfl (hclose _ _)

theorem elements_error {read : List α} {tokens : List Token} {fault : Fault}
    (h : r.run tokens = .error fault) : elements r read tokens = .error fault := by
  rw [elements]
  split
  · rename_i heq
    rw [h] at heq
    cases heq
    rfl
  all_goals
    rename_i heq
    rw [h] at heq
    cases heq

theorem not_exists_forall₂_cons {v : Document} (hnone : ∀ a, ¬ Denotes v a) (vs : List Document)
    (p : List α → Prop) : ¬ ∃ found, List.Forall₂ Denotes (v :: vs) found ∧ p found := by
  rintro ⟨found, hfound, -⟩
  obtain ⟨a, -, ha, -, -⟩ := List.forall₂_cons_left_iff.mp hfound
  exact hnone a ha

/-- The elements of a list are read one after another. -/
theorem elements_eq_ok_iff (h : Accepts r Denotes) (v : Document) (vs : List Document)
    (read : List α) (rest : List Token) (as : List α) (rest' : List Token) :
    elements r read (v.tokens ++ (tokensOfItems vs ++ .closeList :: rest)) = .ok (as, rest') ↔
      (∃ found, List.Forall₂ Denotes (v :: vs) found ∧ as = read.reverse ++ found) ∧
        rest' = rest := by
  induction vs generalizing v read with
  | nil =>
    rw [tokensOfItems_nil, List.nil_append]
    rcases h.run_cases v (.closeList :: rest) with ⟨a, ha, hrun⟩ | ⟨⟨fault, hrun⟩, hnone⟩
    · rw [elements_close hrun, Except.ok.injEq, Prod.mk.injEq, List.reverse_cons]
      constructor
      · rintro ⟨rfl, rfl⟩
        exact ⟨⟨[a], .cons ha .nil, rfl⟩, rfl⟩
      · rintro ⟨⟨found, hfound, rfl⟩, rfl⟩
        obtain ⟨a', more, ha', hmore, rfl⟩ := List.forall₂_cons_left_iff.mp hfound
        cases hmore
        rw [h.unique ha ha']
        exact ⟨rfl, rfl⟩
    · rw [elements_error hrun]
      exact iff_of_false nofun fun hfound => not_exists_forall₂_cons hnone _ _ hfound.1
  | cons v' vs ih =>
    rw [tokensOfItems_cons, List.cons_append, List.append_assoc]
    rcases h.run_cases v (.comma :: (v'.tokens ++ (tokensOfItems vs ++ .closeList :: rest))) with
      ⟨a, ha, hrun⟩ | ⟨⟨fault, hrun⟩, hnone⟩
    · rw [elements_comma hrun, ih v' (a :: read), List.reverse_cons]
      refine and_congr_left fun _ => ?_
      constructor
      · rintro ⟨found, hfound, rfl⟩
        exact ⟨a :: found, .cons ha hfound, by simp⟩
      · rintro ⟨found, hfound, rfl⟩
        obtain ⟨a', more, ha', hmore, rfl⟩ := List.forall₂_cons_left_iff.mp hfound
        rw [h.unique ha ha']
        exact ⟨more, hmore, by simp⟩
    · rw [elements_error hrun]
      exact iff_of_false nofun fun hfound => not_exists_forall₂_cons hnone _ _ hfound.1

theorem run_list_cons (v : Document) (vs : List Document) (rest : List Token) :
    (Reader.list r).run ((Document.list (v :: vs)).tokens ++ rest) =
      elements r [] (v.tokens ++ (tokensOfItems vs ++ .closeList :: rest)) := by
  obtain ⟨t, more, htokens, hclose, -⟩ := v.exists_tokens
  rw [tokens_list_cons, htokens]
  simp only [List.cons_append, List.append_assoc, List.nil_append, Reader.list]
  split
  · rename_i heq
    exact absurd (List.cons.inj (List.cons.inj heq).2).1 hclose
  · rename_i heq
    rw [(List.cons.inj heq).2]
  · rename_i hopen heq
    exact absurd (List.cons.inj heq).1.symm hopen
  · rename_i heq
    cases heq

theorem Accepts.list (h : Accepts r Denotes) : Accepts (Reader.list r) (IsList Denotes) := by
  intro v rest as rest'
  by_cases hv : ∃ vs, v = .list vs
  · obtain ⟨vs, rfl⟩ := hv
    cases vs with
    | nil =>
      simp only [IsList, Document.list.injEq, exists_eq_left', List.forall₂_nil_left_iff]
      simp [show (Document.list []).tokens = [.openList, .closeList] from rfl, Reader.list, eq_comm]
    | cons v vs =>
      rw [run_list_cons, elements_eq_ok_iff h]
      simp [IsList]
  · obtain ⟨t, more, htokens, -, -, -, hopen⟩ := v.exists_tokens
    refine iff_of_false ?_ fun hlist => hv (hlist.1.imp fun _ => And.left)
    have hne : t ≠ .openList := fun heq => hv (hopen heq)
    rw [htokens, List.cons_append]
    simp only [Reader.list]
    split
    · rename_i heq
      exact absurd (List.cons.inj heq).1 hne
    · rename_i heq
      exact absurd (List.cons.inj heq).1 hne
    · simp
    · simp

/-! ## Whole texts -/

/-- Any text of a value is decoded to what the value denotes, unless that is refused. -/
theorem Accepts.decode (h : Accepts r Denotes) (accept : α → Except Fault β) {v : Document}
    {text : String} (hv : v.Written text) (b : β) :
    decode r accept text = .ok b ↔ ∃ a, Denotes v a ∧ accept a = .ok b := by
  rw [Json.decode, scan_written hv, ← List.append_nil v.tokens]
  rcases h.run_cases v [] with ⟨a, ha, hrun⟩ | ⟨⟨fault, hrun⟩, hnone⟩
  · have hdenoted : (∃ a, Denotes v a ∧ accept a = .ok b) ↔ accept a = .ok b := by
      refine ⟨?_, fun hb => ⟨a, ha, hb⟩⟩
      rintro ⟨a', ha', hb⟩
      rwa [h.unique ha ha']
    rw [hrun, hdenoted]
    cases haccept : accept a <;> simp [haccept]
  · rw [hrun]
    exact iff_of_false (by simp) fun hdenoted => hnone _ hdenoted.choose_spec.1

end MerkleBatch.Json
