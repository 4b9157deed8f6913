import MerkleBatch.Proofs.Json.Read
import MerkleBatch.Proofs.Json.Skip

/-!
# Records and the values they read

A record is read member by member, each making something of what was read before. In braces the
names say which member a value is for; in brackets the values come in the order of the members.

* `MembersRun`, `ValuesRun`: what members in braces, and values in brackets, make of what was read
  before.
* `Record.accepts`: the values that the reader of a record reads.
-/

namespace MerkleBatch.Json

open Document Record

variable {σ : Type} {members : List (Member σ)} {name : String} {s s' : σ}
  {rest rest' : List Token}

/-! ## Members in braces -/

/-- What a member makes of what was read before: a member with a known name must be the first one
with it, any other one does not matter. -/
def MemberStep (members : List (Member σ)) (s : σ) (name : String) (v : Document) (s' : σ) :
    Prop :=
  match members.find? (·.name = name) with
  | none => s' = s
  | some member => member.isSet s = false ∧ ∃ take, Reads member.reader v take ∧ s' = take s

/-- What the members of a record make of what was read before them. -/
def MembersRun (members : List (Member σ)) : σ → List (String × Document) → σ → Prop
  | s, [], s' => s' = s
  | s, (name, v) :: rest, s' =>
    ∃ next, MemberStep members s name v next ∧ MembersRun members next rest s'

/-- A member with a known name, whose reader takes in what a value denotes. -/
theorem membersRun_known_iff {α : Type} {r : Reader α} {Denotes : Document → α → Prop}
    {member : Member σ} {take : α → σ → σ} (hfind : members.find? (·.name = name) = some member)
    (hreader : member.reader = r.map take) (h : Accepts r Denotes) (v : Document)
    (found : List (String × Document)) :
    MembersRun members s ((name, v) :: found) s' ↔
      member.isSet s = false ∧ ∃ a, Denotes v a ∧ MembersRun members (take a s) found s' := by
  simp only [MembersRun, MemberStep, hfind, hreader, (h.map take).reads_iff]
  constructor
  · rintro ⟨_, ⟨hset, _, ⟨a, ha, rfl⟩, rfl⟩, hrun⟩
    exact ⟨hset, a, ha, hrun⟩
  · rintro ⟨hset, a, ha, hrun⟩
    exact ⟨_, ⟨hset, _, ⟨a, ha, rfl⟩, rfl⟩, hrun⟩

theorem membersRun_unknown_iff (hfind : members.find? (·.name = name) = none) (v : Document)
    (found : List (String × Document)) :
    MembersRun members s ((name, v) :: found) s' ↔ MembersRun members s found s' := by
  simp [MembersRun, MemberStep, hfind]

theorem readMember_eq_ok_iff (h : ∀ m ∈ members, Accepts m.reader (Reads m.reader))
    (name : String) (v : Document) (s s' : σ) (rest rest' : List Token) :
    readMember members name s (.colon :: (v.tokens ++ rest)) = .ok (s', rest') ↔
      MemberStep members s name v s' ∧ rest' = rest := by
  rw [readMember, MemberStep]
  cases hfind : members.find? (·.name = name) with
  | none => simp [skip?_tokens, eq_comm]
  | some member =>
    have haccepts := h member (List.mem_of_find?_eq_some hfind)
    cases hset : member.isSet s with
    | true => simp [hset]
    | false =>
      simp only [hset, Bool.false_eq_true, if_false, true_and]
      rcases haccepts.run_cases v rest with ⟨take, htake, hrun⟩ | ⟨⟨fault, hrun⟩, hnone⟩
      · simp only [hrun, Except.ok.injEq, Prod.mk.injEq]
        constructor
        · rintro ⟨rfl, rfl⟩
          exact ⟨⟨take, htake, rfl⟩, rfl⟩
        · rintro ⟨⟨take', htake', rfl⟩, rfl⟩
          rw [haccepts.unique htake htake']
          exact ⟨rfl, rfl⟩
      · simp [hrun, hnone]

/-- A member is taken in with what is behind it left, or refused. -/
theorem readMember_cases (h : ∀ m ∈ members, Accepts m.reader (Reads m.reader)) (name : String)
    (v : Document) (s : σ) (rest : List Token) :
    (∃ next, MemberStep members s name v next ∧
        readMember members name s (.colon :: (v.tokens ++ rest)) = .ok (next, rest)) ∨
      (∃ fault, readMember members name s (.colon :: (v.tokens ++ rest)) = .error fault) ∧
        ∀ next, ¬ MemberStep members s name v next := by
  cases hread : readMember members name s (.colon :: (v.tokens ++ rest)) with
  | error fault =>
    refine .inr ⟨⟨fault, rfl⟩, fun next hnext => ?_⟩
    rw [(readMember_eq_ok_iff h name v s next rest rest).mpr ⟨hnext, rfl⟩] at hread
    cases hread
  | ok result =>
    obtain ⟨next, more⟩ := result
    obtain ⟨hnext, rfl⟩ := (readMember_eq_ok_iff h name v s next rest more).mp hread
    exact .inl ⟨next, hnext, rfl⟩

/-- A member makes one thing at most of what was read before. -/
theorem exists_step_iff (h : ∀ m ∈ members, Accepts m.reader (Reads m.reader)) {v : Document}
    {next : σ} (hnext : MemberStep members s name v next) (p : σ → Prop) :
    (∃ next, MemberStep members s name v next ∧ p next) ↔ p next := by
  refine ⟨?_, fun hp => ⟨next, hnext, hp⟩⟩
  rintro ⟨next', hnext', hp⟩
  have hread := (readMember_eq_ok_iff h name v s next [] []).mpr ⟨hnext, rfl⟩
  rw [(readMember_eq_ok_iff h name v s next' [] []).mpr ⟨hnext', rfl⟩] at hread
  cases hread
  exact hp

/-- What is behind a member decides how it goes on. -/
theorem readMembers_text (members : List (Member σ)) (s : σ) (name : String)
    (tokens : List Token) :
    readMembers members s (.text name :: tokens) =
      match readMember members name s tokens with
      | .error fault => .error fault
      | .ok (s, .comma :: rest) => readMembers members s rest
      | .ok (s, .closeRecord :: rest) => .ok (s, rest)
      | .ok _ => .error .malformed := by
  rw [readMembers]
  split
  all_goals simp_all only

theorem exists_ofMembers_cons_iff {v : Document} {ms : List (List UInt16 × Document)} :
    (∃ found, .record ((units name, v) :: ms) = ofMembers found ∧ MembersRun members s found s') ↔
      ∃ next, MemberStep members s name v next ∧
        ∃ found, .record ms = ofMembers found ∧ MembersRun members next found s' := by
  constructor
  · rintro ⟨found, heq, hrun⟩
    cases found with
    | nil => cases heq
    | cons member more =>
      obtain ⟨name', v'⟩ := member
      obtain ⟨hmember, rfl⟩ := List.cons.inj (record.inj heq)
      obtain ⟨hname, rfl⟩ := Prod.mk.inj hmember
      obtain rfl := units_injective hname
      obtain ⟨next, hstep, hmore⟩ := hrun
      exact ⟨next, hstep, more, rfl, hmore⟩
  · rintro ⟨next, hstep, found, heq, hrun⟩
    obtain rfl := record.inj heq
    exact ⟨(name, v) :: found, rfl, next, hstep, hrun⟩

/-- Without members there is nothing to take in. -/
theorem exists_ofMembers_nil_iff :
    (∃ found, .record [] = ofMembers found ∧ MembersRun members s found s') ↔ s' = s := by
  refine ⟨?_, fun heq => ⟨[], rfl, heq⟩⟩
  rintro ⟨found, heq, hrun⟩
  cases found with
  | nil => exact hrun
  | cons member more => cases heq

/-- The first member is taken in, or it is refused, as one whose name is no text. -/
theorem readMembers_cases (h : ∀ m ∈ members, Accepts m.reader (Reads m.reader)) (us : List UInt16)
    (v : Document) (s : σ) (rest : List Token) :
    (∃ name next, us = units name ∧ MemberStep members s name v next ∧
        readMember members name s (.colon :: (v.tokens ++ rest)) = .ok (next, rest)) ∨
      (∃ fault,
        readMembers members s (unitsToken us :: .colon :: (v.tokens ++ rest)) = .error fault) ∧
        ∀ ms s', ¬ ∃ found, .record ((us, v) :: ms) = ofMembers found ∧
          MembersRun members s found s' := by
  rcases unitsToken_cases us with ⟨name, hus⟩ | hus
  · obtain rfl := unitsToken_eq_text_iff.mp hus
    rcases readMember_cases h name v s rest with ⟨next, hnext, hread⟩ | ⟨⟨fault, hread⟩, hnone⟩
    · exact .inl ⟨name, next, rfl, hnext, hread⟩
    · refine .inr ⟨⟨fault, by rw [hus, readMembers_text, hread]⟩, fun ms s' hfound => ?_⟩
      obtain ⟨next, hnext, -⟩ := exists_ofMembers_cons_iff.mp hfound
      exact hnone next hnext
  · refine .inr ⟨⟨.malformed, by rw [hus, readMembers]; simp⟩, ?_⟩
    rintro ms s' ⟨found, heq, -⟩
    cases found with
    | nil => cases heq
    | cons member more =>
      rw [(Prod.mk.inj (List.cons.inj (record.inj heq)).1).1, unitsToken_units] at hus
      cases hus

/-- The members of a record are read one after another. -/
theorem readMembers_eq_ok_iff (h : ∀ m ∈ members, Accepts m.reader (Reads m.reader))
    (us : List UInt16) (v : Document) (ms : List (List UInt16 × Document)) (s s' : σ)
    (rest rest' : List Token) :
    readMembers members s
        (unitsToken us :: .colon :: (v.tokens ++ (tokensOfMembers ms ++ .closeRecord :: rest))) =
          .ok (s', rest') ↔
      (∃ found, .record ((us, v) :: ms) = ofMembers found ∧ MembersRun members s found s') ∧
        rest' = rest := by
  induction ms generalizing us v s with
  | nil =>
    rw [tokensOfMembers_nil, List.nil_append]
    rcases readMembers_cases h us v s (.closeRecord :: rest) with
      ⟨name, next, rfl, hnext, hread⟩ | ⟨⟨fault, hread⟩, hnone⟩
    · rw [unitsToken_units, readMembers_text, hread, exists_ofMembers_cons_iff,
        exists_step_iff h hnext, exists_ofMembers_nil_iff, Except.ok.injEq, Prod.mk.injEq, eq_comm,
        eq_comm (a := rest)]
    · rw [hread]
      exact iff_of_false (by simp) fun hfound => hnone _ _ hfound.1
  | cons member ms ih =>
    obtain ⟨us', v'⟩ := member
    rw [tokensOfMembers_cons]
    simp only [List.cons_append, List.append_assoc]
    rcases readMembers_cases h us v s (.comma :: unitsToken us' :: .colon ::
      (v'.tokens ++ (tokensOfMembers ms ++ .closeRecord :: rest))) with
      ⟨name, next, rfl, hnext, hread⟩ | ⟨⟨fault, hread⟩, hnone⟩
    · rw [unitsToken_units, readMembers_text, hread, ih, exists_ofMembers_cons_iff,
        exists_step_iff h hnext]
    · rw [hread]
      exact iff_of_false (by simp) fun hfound => hnone _ _ hfound.1

/-! ## Values in brackets -/

/-- What the values of a list make of what was read before them, taken for the members in turn. -/
def ValuesRun : List (Member σ) → σ → List Document → σ → Prop
  | members, s, [], s' => (∀ m ∈ members, m.optional = true) ∧ s' = s
  | [], _, _ :: _, _ => False
  | member :: members, s, v :: vs, s' =>
    ∃ take, Reads member.reader v take ∧ ValuesRun members (take s) vs s'

/-- A value in brackets does what it does in braces under the name of its member. -/
theorem valuesRun_cons_iff {α : Type} {all : List (Member σ)} {r : Reader α}
    {Denotes : Document → α → Prop} {member : Member σ} {take : α → σ → σ} {v : Document}
    {vs : List Document} {found : List (String × Document)}
    (hfind : all.find? (·.name = name) = some member) (hreader : member.reader = r.map take)
    (h : Accepts r Denotes) (hset : member.isSet s = false)
    (hrest : ∀ a, ValuesRun members (take a s) vs s' ↔ MembersRun all (take a s) found s') :
    ValuesRun (member :: members) s (v :: vs) s' ↔
      MembersRun all s ((name, v) :: found) s' := by
  rw [membersRun_known_iff hfind hreader h, ValuesRun, and_iff_right hset]
  simp only [hreader, (h.map take).reads_iff, ← hrest]
  constructor
  · rintro ⟨_, ⟨a, ha, rfl⟩, hrun⟩
    exact ⟨a, ha, hrun⟩
  · rintro ⟨a, ha, hrun⟩
    exact ⟨_, ⟨a, ha, rfl⟩, hrun⟩

/-- The tokens of some values behind a bracket, or behind another value. -/
def tokensOfValues (first : Bool) : List Document → List Token
  | [] => []
  | v :: vs => if first then v.tokens ++ tokensOfItems vs else tokensOfItems (v :: vs)

theorem tokensOfValues_false (vs : List Document) : tokensOfValues false vs = tokensOfItems vs := by
  cases vs with
  | nil => rfl
  | cons v vs => rfl

/-- Some tokens of values begin with none that ends a list. -/
theorem tokensOfValues_cons (first : Bool) (v : Document) (vs : List Document) (rest : List Token) :
    ∃ t more, tokensOfValues first (v :: vs) ++ rest = t :: more ∧ t ≠ .closeList ∧
      nextValue? first (t :: more) = some (v.tokens ++ (tokensOfItems vs ++ rest)) := by
  cases first with
  | true =>
    obtain ⟨t, more, htokens, hclose, -⟩ := v.exists_tokens
    refine ⟨t, more ++ (tokensOfItems vs ++ rest), ?_, hclose, ?_⟩
    · simp [tokensOfValues, htokens]
    · simp [nextValue?, htokens]
  | false =>
    refine ⟨.comma, v.tokens ++ (tokensOfItems vs ++ rest), ?_, by simp, rfl⟩
    simp [tokensOfValues]

/-- A value is read for the next member. -/
theorem readValues_cons (member : Member σ) (expected : String) (count : Nat) (first : Bool) (s : σ)
    (v : Document) (vs : List Document) (rest : List Token) :
    readValues expected count first s (member :: members) (tokensOfValues first (v :: vs) ++ rest) =
      (member.reader.run (v.tokens ++ (tokensOfValues false vs ++ rest))).bind fun (take, rest) =>
        readValues expected (count + 1) false (take s) members rest := by
  obtain ⟨t, more, htokens, hclose, hnext⟩ := tokensOfValues_cons first v vs rest
  rw [htokens, tokensOfValues_false, readValues]
  · simp only [hnext]
    cases member.reader.run (v.tokens ++ (tokensOfItems vs ++ rest)) with
    | error fault => rfl
    | ok result => rfl
  · exact fun _ heq => hclose (List.cons.inj heq).1

/-- No value may be left when all members have theirs. -/
theorem readValues_beyond (expected : String) (count : Nat) (first : Bool) (s : σ) (v : Document)
    (vs : List Document) (rest : List Token) :
    readValues expected count first s [] (tokensOfValues first (v :: vs) ++ rest) =
      .error .malformed := by
  obtain ⟨t, more, htokens, hclose, -⟩ := tokensOfValues_cons first v vs rest
  rw [htokens, readValues]
  exact fun _ heq => hclose (List.cons.inj heq).1

/-- Where no value is left, every member that is must be one that may be missing. -/
theorem readValues_nil (expected : String) (count : Nat) (first : Bool) (s s' : σ)
    (rest rest' : List Token) :
    readValues expected count first s members (.closeList :: rest) = .ok (s', rest') ↔
      ((∀ m ∈ members, m.optional = true) ∧ s' = s) ∧ rest' = rest := by
  induction members generalizing count with
  | nil => simp [readValues, eq_comm (a := s), eq_comm (a := rest)]
  | cons member members ih =>
    rw [readValues, List.forall_mem_cons]
    cases hoptional : member.optional with
    | true => simp only [if_true, ih, true_and]
    | false => simp

theorem readValues_eq_ok_iff (h : ∀ m ∈ members, Accepts m.reader (Reads m.reader))
    (expected : String) (count : Nat) (first : Bool) (vs : List Document) (s s' : σ)
    (rest rest' : List Token) :
    readValues expected count first s members (tokensOfValues first vs ++ .closeList :: rest) =
        .ok (s', rest') ↔
      ValuesRun members s vs s' ∧ rest' = rest := by
  induction vs generalizing members count first s with
  | nil => rw [tokensOfValues, List.nil_append, readValues_nil, ValuesRun]
  | cons v vs ih =>
    cases members with
    | nil =>
      rw [readValues_beyond]
      exact iff_of_false (by simp) fun hvalues => hvalues.1
    | cons member members =>
      obtain ⟨hmember, hmembers⟩ := List.forall_mem_cons.mp h
      rw [readValues_cons, ValuesRun]
      rcases hmember.run_cases v (tokensOfValues false vs ++ .closeList :: rest) with
        ⟨take, htake, hrun⟩ | ⟨⟨fault, hrun⟩, hnone⟩
      · rw [hrun, Except.bind, ih hmembers]
        refine and_congr_left fun _ => ⟨fun hvalues => ⟨take, htake, hvalues⟩, ?_⟩
        rintro ⟨take', htake', hvalues⟩
        rwa [hmember.unique htake htake']
      · rw [hrun]
        exact iff_of_false (by simp [Except.bind]) fun hvalues => hnone _ hvalues.1.choose_spec.1

/-! ## Records in either form -/

/-- The values read so far that a value is read as, by its members in braces or its values in
brackets. -/
def Record.Drafts {α : Type} (record : Record σ α) (v : Document) (s : σ) : Prop :=
  (∃ found, v = .ofMembers found ∧ MembersRun record.members record.blank found s) ∨
    ∃ vs, v = .list vs ∧ ValuesRun record.members record.blank vs s

theorem readAll_eq_ok_iff {α : Type} {record : Record σ α}
    (h : ∀ m ∈ record.members, Accepts m.reader (Reads m.reader)) (v : Document) (s : σ)
    (rest rest' : List Token) :
    record.readAll (v.tokens ++ rest) = .ok (s, rest') ↔ record.Drafts v s ∧ rest' = rest := by
  rw [Record.Drafts]
  cases v with
  | record members =>
    have hlist : ¬ ∃ vs, Document.record members = .list vs ∧
        ValuesRun record.members record.blank vs s := by simp
    rw [or_iff_left hlist]
    cases members with
    | nil =>
      rw [exists_ofMembers_nil_iff]
      simp [show (Document.record []).tokens = [.openRecord, .closeRecord] from rfl, readAll,
        eq_comm (a := s), eq_comm (a := rest)]
    | cons member members =>
      obtain ⟨us, v⟩ := member
      rw [← readMembers_eq_ok_iff h, tokens_record_cons]
      simp only [List.cons_append, List.append_assoc, List.nil_append]
      rw [readAll]
      rcases unitsToken_cases us with ⟨name, hus⟩ | hus <;> rw [hus] <;> simp
  | list vs =>
    have hrecord : ¬ ∃ found, Document.list vs = .ofMembers found ∧
        MembersRun record.members record.blank found s := by
      simp [Document.ofMembers]
    have htokens : (Document.list vs).tokens ++ rest =
        .openList :: (tokensOfValues true vs ++ .closeList :: rest) := by
      cases vs with
      | nil => rfl
      | cons v vs => simp [tokens_list_cons, tokensOfValues]
    rw [or_iff_right hrecord, htokens, readAll, readValues_eq_ok_iff h]
    simp
  | text us =>
    refine iff_of_false ?_ (by simp [Document.ofMembers])
    rw [show (Document.text us).tokens = [unitsToken us] from rfl]
    rcases unitsToken_cases us with ⟨name, hus⟩ | hus <;> rw [hus] <;> simp [readAll]
  | null | boolean b | number l => exact iff_of_false (by rintro ⟨⟩) (by simp [Document.ofMembers])

theorem Record.accepts {α : Type} {record : Record σ α}
    (h : ∀ m ∈ record.members, Accepts m.reader (Reads m.reader)) :
    Accepts record.reader fun v a => ∃ s, record.Drafts v s ∧ record.complete s = .ok a := by
  intro v rest a rest'
  simp only [Record.reader]
  cases hall : record.readAll (v.tokens ++ rest) with
  | error fault =>
    refine iff_of_false (by simp) ?_
    rintro ⟨⟨s, hs, -⟩, -⟩
    rw [(readAll_eq_ok_iff h v s rest rest).mpr ⟨hs, rfl⟩] at hall
    cases hall
  | ok result =>
    obtain ⟨s, more⟩ := result
    obtain ⟨hs, rfl⟩ := (readAll_eq_ok_iff h v s rest more).mp hall
    have hunique : ∀ s', record.Drafts v s' → s' = s := by
      intro s' hs'
      have hall' := (readAll_eq_ok_iff h v s' more more).mpr ⟨hs', rfl⟩
      rw [hall] at hall'
      cases hall'
      rfl
    have hcomplete : (∃ s', record.Drafts v s' ∧ record.complete s' = .ok a) ↔
        record.complete s = .ok a := by
      refine ⟨?_, fun ha => ⟨s, hs, ha⟩⟩
      rintro ⟨s', hs', ha⟩
      rwa [← hunique s' hs']
    rw [hcomplete]
    cases hmade : record.complete s with
    | error fault => simp [hmade]
    | ok b => simp [hmade, eq_comm (a := more)]

end MerkleBatch.Json
