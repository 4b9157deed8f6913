import MerkleBatch.Json.Skip
import MerkleBatch.Proofs.Json.Scan

/-!
# Every value is skipped

* `skip?_tokens`: the tokens of a value are passed over, whatever kind it is of and however deep.
-/

namespace MerkleBatch.Json

open Document

/-- What is left to skip when a value is complete within some brackets. -/
def skipBehind (brackets : List Bracket) (rest : List Token) : Option (List Token) :=
  if brackets = [] then some rest else skipFrom? brackets .separator rest

theorem skipFrom?_complete {brackets brackets' : List Bracket} {awaited : Awaited} {t : Token}
    (h : skipToken? brackets awaited t = some (brackets', .separator)) (rest : List Token) :
    skipFrom? brackets awaited (t :: rest) = skipBehind brackets' rest := by
  rw [skipFrom?, h]
  cases brackets' <;> rfl

theorem skipBehind_cons (b : Bracket) (outer : List Bracket) (rest : List Token) :
    skipBehind (b :: outer) rest = skipFrom? (b :: outer) .separator rest := rfl

theorem skipFrom?_go_on {brackets b : List Bracket} {awaited a : Awaited} {t : Token}
    (h : skipToken? brackets awaited t = some (b, a)) (hne : a ≠ .separator) (rest : List Token) :
    skipFrom? brackets awaited (t :: rest) = skipFrom? b a rest := by
  rw [skipFrom?, h]
  cases a with
  | separator => exact absurd rfl hne
  | value | key | colon => cases b <;> rfl

theorem skipToken?_units (brackets : List Bracket) (us : List UInt16) (orEnd : Bool) :
    skipToken? brackets (.value orEnd) (unitsToken us) = some (brackets, .separator) ∧
      skipToken? brackets (.key orEnd) (unitsToken us) = some (brackets, .colon) := by
  rcases unitsToken_cases us with ⟨s, h⟩ | h <;> rw [h] <;> exact ⟨rfl, rfl⟩

/-- A key of any form is passed over with the colon behind it. -/
theorem skipFrom?_key (brackets : List Bracket) (us : List UInt16) (orEnd : Bool)
    (rest : List Token) :
    skipFrom? brackets (.key orEnd) (unitsToken us :: .colon :: rest) =
      skipFrom? brackets (.value false) rest := by
  rw [skipFrom?_go_on (skipToken?_units brackets us orEnd).2 nofun]
  exact skipFrom?_go_on (a := .value false) rfl nofun rest

mutual

/-- A value is skipped as a whole, whatever the brackets around it are. -/
theorem skipFrom?_value : ∀ (v : Document) (brackets : List Bracket) (orEnd : Bool)
    (rest : List Token),
    skipFrom? brackets (.value orEnd) (v.tokens ++ rest) = skipBehind brackets rest
  | .null, _, _, _ | .boolean _, _, _, _ | .number _, _, _, _ => skipFrom?_complete rfl _
  | .text us, brackets, orEnd, _ => skipFrom?_complete (skipToken?_units brackets us orEnd).1 _
  | .list [], brackets, _, rest =>
    (skipFrom?_go_on (b := .list :: brackets) (a := .value true) rfl nofun _).trans
      (skipFrom?_complete rfl rest)
  | .list (v :: vs), brackets, orEnd, rest => by
    have hopen : skipToken? brackets (.value orEnd) .openList =
        some (.list :: brackets, .value true) := rfl
    rw [tokens_list_cons, List.cons_append, skipFrom?_go_on hopen nofun, List.append_assoc,
      List.append_assoc, skipFrom?_value v, skipBehind_cons, skipFrom?_items vs]
    exact skipFrom?_complete rfl rest
  | .record [], brackets, _, rest =>
    (skipFrom?_go_on (b := .record :: brackets) (a := .key true) rfl nofun _).trans
      (skipFrom?_complete rfl rest)
  | .record ((name, v) :: members), brackets, orEnd, rest => by
    have hopen : skipToken? brackets (.value orEnd) .openRecord =
        some (.record :: brackets, .key true) := rfl
    rw [tokens_record_cons, List.cons_append, skipFrom?_go_on hopen nofun, List.append_assoc,
      List.append_assoc, List.cons_append, List.cons_append, skipFrom?_key, skipFrom?_value v,
      skipBehind_cons, skipFrom?_members members]
    exact skipFrom?_complete rfl rest

theorem skipFrom?_items : ∀ (vs : List Document) (outer : List Bracket) (rest : List Token),
    skipFrom? (.list :: outer) .separator (tokensOfItems vs ++ rest) =
      skipFrom? (.list :: outer) .separator rest
  | [], _, _ => rfl
  | v :: vs, outer, rest => by
    have hcomma : skipToken? (.list :: outer) .separator .comma =
        some (.list :: outer, .value false) := rfl
    rw [tokensOfItems_cons, List.cons_append, List.append_assoc, skipFrom?_go_on hcomma nofun,
      skipFrom?_value v, skipBehind_cons, skipFrom?_items vs]

theorem skipFrom?_members : ∀ (members : List (List UInt16 × Document)) (outer : List Bracket)
    (rest : List Token),
    skipFrom? (.record :: outer) .separator (tokensOfMembers members ++ rest) =
      skipFrom? (.record :: outer) .separator rest
  | [], _, _ => rfl
  | (name, v) :: members, outer, rest => by
    have hcomma : skipToken? (.record :: outer) .separator .comma =
        some (.record :: outer, .key false) := rfl
    rw [tokensOfMembers_cons, List.cons_append, skipFrom?_go_on hcomma nofun, List.append_assoc,
      List.cons_append, List.cons_append, skipFrom?_key, skipFrom?_value v, skipBehind_cons,
      skipFrom?_members members]

end

/-- A value of any form is passed over. -/
theorem skip?_tokens (v : Document) (rest : List Token) : skip? (v.tokens ++ rest) = some rest :=
  skipFrom?_value v [] false rest

end MerkleBatch.Json
