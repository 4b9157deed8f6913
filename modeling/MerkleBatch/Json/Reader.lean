import MerkleBatch.Json.Fault
import MerkleBatch.Json.Skip

/-!
# Reading values

A reader turns the tokens of one value of some kind into a result. It stops at the first fault in
the order of the tokens.

* `Reader`: readers; what they leave is shorter than what they got.
* `Reader.string`, `word`, `optional`, `list`: the readers of simple kinds.
* `Record.reader`: records with named members in any order, each at most once, among others that
  are skipped. A record may also be written as the list of its members' values.
* `decode`: a text that holds one value.
-/

namespace MerkleBatch.Json

/-- Reads a value off the front of a list of tokens. -/
structure Reader (α : Type) where
  run : List Token → Except Fault (α × List Token)
  length_lt : ∀ {tokens rest : List Token} {a : α}, run tokens = .ok (a, rest) →
    rest.length < tokens.length

namespace Reader

/-- A reader of one token. -/
def single {α : Type} (read : Token → Except Fault α) : Reader α where
  run
    | [] => .error .malformed
    | t :: rest =>
      match read t with
      | .error fault => .error fault
      | .ok a => .ok (a, rest)
  length_lt := by
    intro tokens rest a h
    cases tokens with
    | nil => cases h
    | cons t tokens =>
      simp only at h
      split at h
      · cases h
      · cases h
        exact Nat.lt_succ_self _

/-- A string. -/
def string : Reader String :=
  single fun t =>
    match t with
    | .text s => .ok s
    | _ => .error (t.mismatch "a string")

/-- A whole number of 32 bits. -/
def word : Reader UInt32 :=
  single fun t =>
    match t with
    | .number (.integer n) =>
      if 0 ≤ n ∧ n < 0x100000000 then .ok (UInt32.ofNat n.toNat) else .error (.wrongValue n "u32")
    | _ => .error (t.mismatch "u32")

/-- The results of a reader, changed by a function. -/
def map {α β : Type} (f : α → β) (r : Reader α) : Reader β where
  run tokens :=
    match r.run tokens with
    | .error fault => .error fault
    | .ok (a, rest) => .ok (f a, rest)
  length_lt := by
    intro tokens rest b h
    split at h
    · cases h
    · rename_i hr
      cases h
      exact r.length_lt hr

/-- A value or null. -/
def optional {α : Type} (r : Reader α) : Reader (Option α) where
  run
    | .null :: rest => .ok (none, rest)
    | tokens => (r.map some).run tokens
  length_lt := by
    intro tokens rest a h
    split at h
    · cases h
      exact Nat.lt_succ_self _
    · exact (r.map some).length_lt h

/-! ## Lists -/

/-- The elements of a list from an element on, behind those `read` before, which stand in
reverse. -/
def elements {α : Type} (r : Reader α) (read : List α) (tokens : List Token) :
    Except Fault (List α × List Token) :=
  match _h : r.run tokens with
  | .error fault => .error fault
  | .ok (a, .comma :: rest) => elements r (a :: read) rest
  | .ok (a, .closeList :: rest) => .ok ((a :: read).reverse, rest)
  | .ok _ => .error .malformed
termination_by tokens.length
decreasing_by
  have := r.length_lt _h
  simp only [List.length_cons] at this
  omega

theorem length_of_elements {α : Type} {r : Reader α} {read as : List α}
    {tokens rest : List Token} (h : r.elements read tokens = .ok (as, rest)) :
    rest.length < tokens.length := by
  fun_induction elements r read tokens with
  | case1 => cases h
  | case2 read tokens a next hr ih =>
    have := r.length_lt hr
    have := ih h
    simp only [List.length_cons] at *
    omega
  | case3 read tokens a next hr =>
    cases h
    have := r.length_lt hr
    simp only [List.length_cons] at this
    omega
  | case4 => cases h

/-- A list of values of one kind. -/
def list {α : Type} (r : Reader α) : Reader (List α) where
  run
    | .openList :: .closeList :: rest => .ok ([], rest)
    | .openList :: rest => elements r [] rest
    | t :: _ => .error (t.mismatch "a sequence")
    | [] => .error .malformed
  length_lt := by
    intro tokens rest as h
    split at h
    · cases h
      simp only [List.length_cons]
      omega
    · exact Nat.lt_succ_of_lt (length_of_elements h)
    · cases h
    · cases h

end Reader

/-! ## Records -/

/-- A named member of a record, of which the values read so far are a `σ`. -/
structure Member (σ : Type) where
  name : String
  /-- Whether the member may be missing at the end of a record written as a list. -/
  optional : Bool
  /-- Whether the member was read before. -/
  isSet : σ → Bool
  /-- Reads the value and says how to take it in. -/
  reader : Reader (σ → σ)

/-- A kind of record. -/
structure Record (σ α : Type) where
  /-- How a message calls it. -/
  name : String
  /-- The members in the order of their values where the record is written as a list. -/
  members : List (Member σ)
  /-- Nothing read yet. -/
  blank : σ
  /-- The record, unless a member is missing. -/
  complete : σ → Except Fault α

namespace Record

variable {σ α : Type}

/-- The value of the member with a name; a value of any other member is skipped. -/
def readMember (members : List (Member σ)) (name : String) (s : σ) (tokens : List Token) :
    Except Fault (σ × List Token) :=
  match members.find? (·.name = name) with
  | none =>
    match tokens with
    | .colon :: rest =>
      match skip? rest with
      | none => .error .malformed
      | some rest => .ok (s, rest)
    | _ => .error .malformed
  | some member =>
    if member.isSet s then .error (.duplicateField name)
    else
      match tokens with
      | .colon :: rest =>
        match member.reader.run rest with
        | .error fault => .error fault
        | .ok (take, rest) => .ok (take s, rest)
      | _ => .error .malformed

theorem length_of_readMember {members : List (Member σ)} {name : String} {s s' : σ}
    {tokens rest : List Token} (h : readMember members name s tokens = .ok (s', rest)) :
    rest.length < tokens.length := by
  unfold readMember at h
  split at h
  · split at h
    · split at h
      · cases h
      · rename_i hs
        cases h
        exact Nat.lt_succ_of_lt (length_of_skip? hs)
    · cases h
  · split at h
    · cases h
    · split at h
      · split at h
        · cases h
        · rename_i hr
          cases h
          exact Nat.lt_succ_of_lt (Member.reader _ |>.length_lt hr)
      · cases h

/-- The members of a record from a key on. -/
def readMembers (members : List (Member σ)) (s : σ) :
    List Token → Except Fault (σ × List Token)
  | .text name :: rest =>
    match _h : readMember members name s rest with
    | .error fault => .error fault
    | .ok (s, .comma :: rest) => readMembers members s rest
    | .ok (s, .closeRecord :: rest) => .ok (s, rest)
    | .ok _ => .error .malformed
  | _ => .error .malformed
termination_by tokens => tokens.length
decreasing_by
  have := length_of_readMember _h
  simp only [List.length_cons] at *
  omega

theorem length_of_readMembers {members : List (Member σ)} {s s' : σ}
    {tokens rest : List Token} (h : readMembers members s tokens = .ok (s', rest)) :
    rest.length < tokens.length := by
  fun_induction readMembers members s tokens with
  | case1 => cases h
  | case2 s name next s₁ rest₁ hr ih =>
    have := length_of_readMember hr
    have := ih h
    simp only [List.length_cons] at *
    omega
  | case3 s name next s₁ rest₁ hr =>
    cases h
    have := length_of_readMember hr
    simp only [List.length_cons] at *
    omega
  | case4 => cases h
  | case5 => cases h

/-- The first value of a list, or one behind a comma. -/
def nextValue? (first : Bool) (tokens : List Token) : Option (List Token) :=
  if first then some tokens
  else
    match tokens with
    | .comma :: rest => some rest
    | _ => none

theorem length_of_nextValue? {first : Bool} {tokens rest : List Token}
    (h : nextValue? first tokens = some rest) : rest.length ≤ tokens.length := by
  unfold nextValue? at h
  split at h
  · cases h
    exact Nat.le_refl _
  · split at h
    · cases h
      exact Nat.le_succ _
    · cases h

/-- The values of members written as a list, up to its end, where `count` members came before; a
list that ends too early has another length than `expected`. -/
def readValues (expected : String) (count : Nat) (first : Bool) (s : σ) :
    List (Member σ) → List Token → Except Fault (σ × List Token)
  | [], .closeList :: rest => .ok (s, rest)
  | [], _ => .error .malformed
  | member :: members, .closeList :: rest =>
    if member.optional then readValues expected (count + 1) first s members (.closeList :: rest)
    else .error (.wrongLength count expected)
  | member :: members, tokens =>
    match nextValue? first tokens with
    | none => .error .malformed
    | some tokens =>
      match member.reader.run tokens with
      | .error fault => .error fault
      | .ok (take, rest) => readValues expected (count + 1) false (take s) members rest

theorem length_of_readValues {expected : String} {count : Nat} {first : Bool} {s s' : σ}
    {members : List (Member σ)} {tokens rest : List Token}
    (h : readValues expected count first s members tokens = .ok (s', rest)) :
    rest.length < tokens.length := by
  fun_induction readValues expected count first s members tokens with
  | case1 =>
    cases h
    exact Nat.lt_succ_self _
  | case2 => cases h
  | case3 count first s member members rest _ ih => exact ih h
  | case4 => cases h
  | case5 => cases h
  | case6 => cases h
  | case7 count first s member members tokens _ next hnext take after hr ih =>
    have := length_of_nextValue? hnext
    have := member.reader.length_lt hr
    have := ih h
    omega

/-- What a record with all its members is called where a list is too short for it. -/
def lengthName (r : Record σ α) : String := s!"{r.name} with {r.members.length} elements"

/-- The values of the members, in either form of the record. -/
def readAll (r : Record σ α) : List Token → Except Fault (σ × List Token)
  | .openRecord :: .closeRecord :: rest => .ok (r.blank, rest)
  | .openRecord :: rest => readMembers r.members r.blank rest
  | .openList :: rest => readValues r.lengthName 0 true r.blank r.members rest
  | t :: _ => .error (t.mismatch r.name)
  | [] => .error .malformed

theorem length_of_readAll {r : Record σ α} {s : σ} {tokens rest : List Token}
    (h : r.readAll tokens = .ok (s, rest)) : rest.length < tokens.length := by
  unfold readAll at h
  split at h
  · cases h
    simp only [List.length_cons]
    omega
  · exact Nat.lt_succ_of_lt (length_of_readMembers h)
  · exact Nat.lt_succ_of_lt (length_of_readValues h)
  · cases h
  · cases h

/-- A record of this kind. -/
def reader (r : Record σ α) : Reader α where
  run tokens :=
    match r.readAll tokens with
    | .error fault => .error fault
    | .ok (s, rest) =>
      match r.complete s with
      | .error fault => .error fault
      | .ok a => .ok (a, rest)
  length_lt := by
    intro tokens rest a h
    split at h
    · cases h
    · rename_i hs
      split at h
      · cases h
      · cases h
        exact length_of_readAll hs

end Record

/-- The value of a member that a record cannot do without. -/
def required {β : Type} (name : String) : Option β → Except Fault β
  | some b => .ok b
  | none => .error (.missingField name)

/-- The value of a whole text, taken on by `accept`, which may refuse it; only then the text has to
end. -/
def decode {α β : Type} (r : Reader α) (accept : α → Except Fault β) (text : String) :
    Except Fault β :=
  match r.run (Token.scan text.toList) with
  | .error fault => .error fault
  | .ok (a, rest) =>
    match accept a with
    | .error fault => .error fault
    | .ok b => if rest = [] then .ok b else .error .malformed

end MerkleBatch.Json
