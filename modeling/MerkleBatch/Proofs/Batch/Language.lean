import MerkleBatch.Batch.Json
import MerkleBatch.Proofs.Json.Layout
import MerkleBatch.Proofs.Json.Record
import MerkleBatch.Proofs.Scalar.Hex

/-!
# The texts that are batches

A batch is read from an object with the five members that it needs once each and an expected input
hash once at most, in any order, among any other members; or from the list of the six values. What
it is depends on the values of these members only.

* `Batch.DenotedBy`: the members of an object denote a batch.
* `Batch.ofJson?_eq_ok_iff`: the batch that is read from a text is the one its members denote.
-/

namespace MerkleBatch

open Json

/-! ## Scalars in texts -/

/-- The value is a text that denotes this scalar. -/
def IsScalar (v : Document) (a : Scalar) : Prop := ∃ s, IsText v s ∧ Scalar.ofHex? s = .ok a

section Except

variable {ε α β : Type}

theorem bind_eq_ok_iff {x : Except ε α} {f : α → Except ε β} {b : β} :
    x >>= f = .ok b ↔ ∃ a, x = .ok a ∧ f a = .ok b := by
  cases x with
  | error e => exact iff_of_false nofun nofun
  | ok a => exact ⟨fun h => ⟨a, rfl, h⟩, fun ⟨_, ha, h⟩ => by cases ha; exact h⟩

theorem mapM_eq_ok_iff {f : α → Except ε β} {as : List α} {bs : List β} :
    as.mapM f = .ok bs ↔ List.Forall₂ (fun a b => f a = .ok b) as bs := by
  induction as generalizing bs with
  | nil =>
    rw [List.mapM_nil, List.forall₂_nil_left_iff, eq_comm]
    exact ⟨fun h => Except.ok.inj h, fun h => congrArg _ h⟩
  | cons a as ih =>
    rw [List.mapM_cons, bind_eq_ok_iff, List.forall₂_cons_left_iff]
    simp only [bind_eq_ok_iff, ih]
    constructor
    · rintro ⟨b, hb, more, hmore, heq⟩
      cases heq
      exact ⟨b, more, hb, hmore, rfl⟩
    · rintro ⟨b, more, hb, hmore, rfl⟩
      exact ⟨b, hb, more, hmore, rfl⟩

end Except

variable {α β : Type} {Denotes : Document → α → Prop} {f : α → Except HexError β}

/-- The texts of a list and what they denote, in one. -/
theorem isList_mapM_iff {v : Document} {bs : List β} :
    (∃ as, IsList Denotes v as ∧ as.mapM f = .ok bs) ↔
      IsList (fun v b => ∃ a, Denotes v a ∧ f a = .ok b) v bs := by
  have hcomp : ∀ vs, (∃ as, List.Forall₂ Denotes vs as ∧ as.mapM f = .ok bs) ↔
      List.Forall₂ (fun v b => ∃ a, Denotes v a ∧ f a = .ok b) vs bs := by
    intro vs
    simp only [mapM_eq_ok_iff]
    induction vs generalizing bs with
    | nil => simp
    | cons v vs ih =>
      rw [List.forall₂_cons_left_iff]
      simp only [← ih, List.forall₂_cons_left_iff]
      constructor
      · rintro ⟨_, ⟨a, as, ha, has, rfl⟩, hbs⟩
        obtain ⟨b, more, hb, hmore, rfl⟩ := List.forall₂_cons_left_iff.mp hbs
        exact ⟨b, more, ⟨a, ha, hb⟩, ⟨as, has, hmore⟩, rfl⟩
      · rintro ⟨b, bs, ⟨a, ha, hb⟩, ⟨as, has, hbs⟩, rfl⟩
        exact ⟨a :: as, ⟨a, as, ha, has, rfl⟩, .cons hb hbs⟩
  constructor
  · rintro ⟨as, ⟨vs, rfl, has⟩, hbs⟩
    exact ⟨vs, rfl, (hcomp vs).mp ⟨as, has, hbs⟩⟩
  · rintro ⟨vs, rfl, hbs⟩
    obtain ⟨as, has, hbs⟩ := (hcomp vs).mpr hbs
    exact ⟨as, ⟨vs, rfl, has⟩, hbs⟩

/-- An optional text and what it denotes, in one. -/
theorem isOptional_mapM_iff {v : Document} {o : Option β} :
    (∃ o', IsOptional Denotes v o' ∧ o'.mapM f = .ok o) ↔
      IsOptional (fun v b => ∃ a, Denotes v a ∧ f a = .ok b) v o := by
  simp only [IsOptional]
  constructor
  · rintro ⟨_, ⟨hv, rfl⟩ | ⟨hv, a, ha, rfl⟩, ho⟩
    · cases ho
      exact .inl ⟨hv, rfl⟩
    · cases hb : f a with
      | error e =>
        rw [Option.mapM_some, hb] at ho
        cases ho
      | ok b =>
        rw [Option.mapM_some, hb] at ho
        cases ho
        exact .inr ⟨hv, b, ⟨a, ha, hb⟩, rfl⟩
  · rintro (⟨hv, rfl⟩ | ⟨hv, b, ⟨a, ha, hb⟩, rfl⟩)
    · exact ⟨none, .inl ⟨hv, rfl⟩, rfl⟩
    · refine ⟨some a, .inr ⟨hv, a, ha, rfl⟩, ?_⟩
      rw [Option.mapM_some, hb]
      rfl

/-! ## Members -/

/-- The values of the members with a name, in their order. -/
def valuesOf (name : String) (members : List (String × Document)) : List Document :=
  (members.filter (·.1 = name)).map Prod.snd

@[simp]
theorem valuesOf_nil (name : String) : valuesOf name [] = [] := rfl

theorem valuesOf_cons (name : String) (member : String × Document)
    (members : List (String × Document)) :
    valuesOf name (member :: members) =
      if member.1 = name then member.2 :: valuesOf name members else valuesOf name members := by
  by_cases h : member.1 = name <;> simp [valuesOf, h]

/-- What the values of one member make of what was read for it before: nothing, or there was
nothing and is one value, which denotes something. -/
def Gathers (Denotes : Document → α → Prop) (vs : List Document) (before after : Option α) : Prop :=
  vs = [] ∧ after = before ∨
    before = none ∧ ∃ v a, vs = [v] ∧ Denotes v a ∧ after = some a

theorem gathers_nil {before after : Option α} :
    Gathers Denotes [] before after ↔ after = before := by
  simp [Gathers]

theorem gathers_cons {v : Document} {vs : List Document} {before after : Option α} :
    Gathers Denotes (v :: vs) before after ↔
      before = none ∧ ∃ a, Denotes v a ∧ Gathers Denotes vs (some a) after := by
  simp [Gathers, and_left_comm]

namespace WrittenBatch

variable {d d' : Draft} {v : Document} {found : List (String × Document)}

theorem accepts_members : ∀ m ∈ members, Accepts m.reader (Reads m.reader) := by
  simp only [members, List.forall_mem_cons]
  exact ⟨(accepts_string.optional.map _).reads, (accepts_word.map _).reads,
    (accepts_string.map _).reads, (accepts_string.map _).reads, (accepts_string.list.map _).reads,
    (accepts_string.list.list.map _).reads, nofun⟩

theorem run_claimedHash :
    MembersRun members d (("inputHash", v) :: found) d' ↔
      d.claimedHash = none ∧ ∃ o, IsOptional IsText v o ∧
        MembersRun members { d with claimedHash := some o } found d' := by
  rw [membersRun_known_iff rfl rfl accepts_string.optional]
  simp

theorem run_startIndex :
    MembersRun members d (("startIndex", v) :: found) d' ↔
      d.startIndex = none ∧ ∃ n, IsWord v n ∧
        MembersRun members { d with startIndex := some n } found d' := by
  rw [membersRun_known_iff rfl rfl accepts_word]
  simp

theorem run_preRoot :
    MembersRun members d (("preRoot", v) :: found) d' ↔
      d.preRoot = none ∧ ∃ s, IsText v s ∧
        MembersRun members { d with preRoot := some s } found d' := by
  rw [membersRun_known_iff rfl rfl accepts_string]
  simp

theorem run_postRoot :
    MembersRun members d (("postRoot", v) :: found) d' ↔
      d.postRoot = none ∧ ∃ s, IsText v s ∧
        MembersRun members { d with postRoot := some s } found d' := by
  rw [membersRun_known_iff rfl rfl accepts_string]
  simp

theorem run_commitments :
    MembersRun members d (("identityCommitments", v) :: found) d' ↔
      d.commitments = none ∧ ∃ ss, IsList IsText v ss ∧
        MembersRun members { d with commitments := some ss } found d' := by
  rw [membersRun_known_iff rfl rfl accepts_string.list]
  simp

theorem run_proofs :
    MembersRun members d (("merkleProofs", v) :: found) d' ↔
      d.proofs = none ∧ ∃ sss, IsList (IsList IsText) v sss ∧
        MembersRun members { d with proofs := some sss } found d' := by
  rw [membersRun_known_iff rfl rfl accepts_string.list.list]
  simp

/-- The names that a batch knows. -/
def knownNames : List String := members.map Member.name

theorem knownNames_eq : knownNames = ["inputHash", "startIndex", "preRoot", "postRoot",
    "identityCommitments", "merkleProofs"] := rfl

theorem run_unknown {name : String} (h : name ∉ knownNames) :
    MembersRun members d ((name, v) :: found) d' ↔ MembersRun members d found d' := by
  refine membersRun_unknown_iff ?_ v found
  rw [List.find?_eq_none]
  intro member hmember heq
  exact h (List.mem_map.mpr ⟨member, hmember, of_decide_eq_true heq⟩)

/-- What members with the same names make of a draft, name by name. -/
theorem membersRun_iff (found : List (String × Document)) :
    MembersRun members d found d' ↔
      Gathers (IsOptional IsText) (valuesOf "inputHash" found) d.claimedHash d'.claimedHash ∧
      Gathers IsWord (valuesOf "startIndex" found) d.startIndex d'.startIndex ∧
      Gathers IsText (valuesOf "preRoot" found) d.preRoot d'.preRoot ∧
      Gathers IsText (valuesOf "postRoot" found) d.postRoot d'.postRoot ∧
      Gathers (IsList IsText) (valuesOf "identityCommitments" found) d.commitments
        d'.commitments ∧
      Gathers (IsList (IsList IsText)) (valuesOf "merkleProofs" found) d.proofs d'.proofs := by
  induction found generalizing d with
  | nil =>
    simp only [MembersRun, valuesOf_nil, gathers_nil]
    obtain ⟨_, _, _, _, _, _⟩ := d
    obtain ⟨_, _, _, _, _, _⟩ := d'
    simp
  | cons member found ih =>
    obtain ⟨name, v⟩ := member
    simp only [valuesOf_cons]
    by_cases hknown : name ∈ knownNames
    · simp only [knownNames_eq, List.mem_cons, List.not_mem_nil, or_false] at hknown
      rcases hknown with rfl | rfl | rfl | rfl | rfl | rfl
      all_goals
        simp only [run_claimedHash, run_startIndex, run_preRoot, run_postRoot, run_commitments,
          run_proofs, ih, String.reduceEq, if_true, if_false, gathers_cons]
        grind
    · rw [run_unknown hknown, ih]
      simp only [knownNames_eq, List.mem_cons, List.not_mem_nil, or_false, not_or] at hknown
      simp only [hknown, if_false]

/-- Values in brackets are those of the members in their order, all six of them. -/
theorem valuesRun_iff (vs : List Document) :
    ValuesRun members record.blank vs d' ↔
      vs.length = knownNames.length ∧ MembersRun members record.blank (knownNames.zip vs) d' := by
  match vs with
  | [hash, start, pre, post, cs, ps] =>
    have hlength : [hash, start, pre, post, cs, ps].length = knownNames.length := rfl
    rw [and_iff_right hlength]
    refine valuesRun_cons_iff rfl rfl accepts_string.optional rfl fun o => ?_
    refine valuesRun_cons_iff rfl rfl accepts_word rfl fun n => ?_
    refine valuesRun_cons_iff rfl rfl accepts_string rfl fun s => ?_
    refine valuesRun_cons_iff rfl rfl accepts_string rfl fun s => ?_
    refine valuesRun_cons_iff rfl rfl accepts_string.list rfl fun ss => ?_
    refine valuesRun_cons_iff rfl rfl accepts_string.list.list rfl fun sss => ?_
    simp [ValuesRun, MembersRun]
  | [] | [_] | [_, _] | [_, _, _] | [_, _, _, _] | [_, _, _, _, _] =>
    simp [ValuesRun, members, knownNames]
  | _ :: _ :: _ :: _ :: _ :: _ :: _ :: _ =>
    simp [ValuesRun, members, knownNames]

theorem required_eq_ok_iff {name : String} {o : Option α} {a : α} :
    required name o = .ok a ↔ o = some a := by
  cases o <;> simp [required]

theorem ofDraft_eq_ok_iff {w : WrittenBatch} :
    ofDraft d = .ok w ↔
      d.claimedHash.join = w.claimedHash ∧ d.startIndex = some w.startIndex ∧
        d.preRoot = some w.preRoot ∧ d.postRoot = some w.postRoot ∧
        d.commitments = some w.commitments ∧ d.proofs = some w.proofs := by
  simp only [ofDraft, bind_eq_ok_iff, required_eq_ok_iff]
  constructor
  · rintro ⟨n, hn, pre, hpre, post, hpost, cs, hcs, ps, hps, heq⟩
    cases heq
    exact ⟨rfl, hn, hpre, hpost, hcs, hps⟩
  · rintro ⟨hhash, hn, hpre, hpost, hcs, hps⟩
    refine ⟨_, hn, _, hpre, _, hpost, _, hcs, _, hps, ?_⟩
    rw [hhash]
    rfl

theorem toBatch_eq_ok_iff {w : WrittenBatch} {b : Batch} :
    w.toBatch = .ok b ↔
      w.claimedHash.mapM Scalar.ofHex? = .ok b.claimedHash ∧ w.startIndex = b.startIndex ∧
        Scalar.ofHex? w.preRoot = .ok b.preRoot ∧ Scalar.ofHex? w.postRoot = .ok b.postRoot ∧
        w.commitments.mapM Scalar.ofHex? = .ok b.commitments ∧
        w.proofs.mapM (fun siblings => siblings.mapM Scalar.ofHex?) = .ok b.proofs := by
  simp only [toBatch, bind_eq_ok_iff]
  constructor
  · rintro ⟨hash, hhash, pre, hpre, post, hpost, cs, hcs, ps, hps, heq⟩
    cases heq
    exact ⟨hhash, rfl, hpre, hpost, hcs, hps⟩
  · rintro ⟨hhash, hstart, hpre, hpost, hcs, hps⟩
    refine ⟨_, hhash, _, hpre, _, hpost, _, hcs, _, hps, ?_⟩
    rw [hstart]
    rfl

end WrittenBatch

/-! ## Batches -/

/-- The member with this name is there once, and its value denotes this. -/
def Once (Denotes : Document → α → Prop) (name : String) (members : List (String × Document))
    (a : α) : Prop :=
  ∃ v, valuesOf name members = [v] ∧ Denotes v a

section Once

variable {name : String} {found : List (String × Document)}

theorem gathers_once {a : α} :
    Gathers Denotes (valuesOf name found) none (some a) ↔ Once Denotes name found a := by
  simp [Gathers, Once]

theorem once_comp {b : β} :
    (∃ a, Once Denotes name found a ∧ f a = .ok b) ↔
      Once (fun v b => ∃ a, Denotes v a ∧ f a = .ok b) name found b := by
  constructor
  · rintro ⟨a, ⟨v, hv, ha⟩, hb⟩
    exact ⟨v, hv, a, ha, hb⟩
  · rintro ⟨v, hv, a, ha, hb⟩
    exact ⟨a, ⟨v, hv, ha⟩, hb⟩

theorem once_scalar {a : Scalar} :
    (∃ s, Once IsText name found s ∧ Scalar.ofHex? s = .ok a) ↔ Once IsScalar name found a :=
  once_comp

theorem once_scalars {as : List Scalar} :
    (∃ ss, Once (IsList IsText) name found ss ∧ ss.mapM Scalar.ofHex? = .ok as) ↔
      Once (IsList IsScalar) name found as := by
  rw [once_comp]
  simp only [isList_mapM_iff]
  exact Iff.rfl

theorem once_paths {ass : List (List Scalar)} :
    (∃ sss, Once (IsList (IsList IsText)) name found sss ∧
        sss.mapM (fun siblings => siblings.mapM Scalar.ofHex?) = .ok ass) ↔
      Once (IsList (IsList IsScalar)) name found ass := by
  rw [once_comp]
  simp only [isList_mapM_iff]
  exact Iff.rfl

/-- An expected hash may be missing, and null is as good as missing. -/
theorem gathers_claimedHash {o : Option Scalar} :
    (∃ s, Gathers (IsOptional IsText) (valuesOf name found) none s ∧
        s.join.mapM Scalar.ofHex? = .ok o) ↔
      valuesOf name found = [] ∧ o = none ∨ Once (IsOptional IsScalar) name found o := by
  constructor
  · rintro ⟨s, ⟨hnone, rfl⟩ | ⟨-, v, text, hv, htext, rfl⟩, ho⟩
    · cases ho
      exact .inl ⟨hnone, rfl⟩
    · exact .inr ⟨v, hv, isOptional_mapM_iff.mp ⟨text, htext, ho⟩⟩
  · rintro (⟨hnone, rfl⟩ | ⟨v, hv, ho⟩)
    · exact ⟨none, .inl ⟨hnone, rfl⟩, rfl⟩
    · obtain ⟨text, htext, ho⟩ := isOptional_mapM_iff.mpr ho
      exact ⟨some text, .inr ⟨rfl, v, text, hv, htext, rfl⟩, ho⟩

end Once

/-- The members of an object denote this batch: the known ones are there once each, of which the
expected input hash may be missing or null, and others do not matter. -/
structure Batch.DenotedBy (b : Batch) (members : List (String × Document)) : Prop where
  claimedHash : valuesOf "inputHash" members = [] ∧ b.claimedHash = none ∨
    Once (IsOptional IsScalar) "inputHash" members b.claimedHash
  startIndex : Once IsWord "startIndex" members b.startIndex
  preRoot : Once IsScalar "preRoot" members b.preRoot
  postRoot : Once IsScalar "postRoot" members b.postRoot
  commitments : Once (IsList IsScalar) "identityCommitments" members b.commitments
  proofs : Once (IsList (IsList IsScalar)) "merkleProofs" members b.proofs

namespace Batch

open WrittenBatch

/-- The batch that a record is read as is the one that its members denote. -/
theorem denotedBy_iff {b : Batch} {found : List (String × Document)} :
    b.DenotedBy found ↔ ∃ d, MembersRun members record.blank found d ∧
      ∃ w, ofDraft d = .ok w ∧ w.toBatch = .ok b := by
  simp only [membersRun_iff, ofDraft_eq_ok_iff, toBatch_eq_ok_iff]
  constructor
  · rintro ⟨hhash, hstart, hpre, hpost, hcs, hps⟩
    obtain ⟨hash, hhash, hhash'⟩ := gathers_claimedHash.mpr hhash
    obtain ⟨pre, hpre, hpre'⟩ := once_scalar.mpr hpre
    obtain ⟨post, hpost, hpost'⟩ := once_scalar.mpr hpost
    obtain ⟨cs, hcs, hcs'⟩ := once_scalars.mpr hcs
    obtain ⟨ps, hps, hps'⟩ := once_paths.mpr hps
    exact ⟨⟨hash, some b.startIndex, some pre, some post, some cs, some ps⟩,
      ⟨hhash, gathers_once.mpr hstart, gathers_once.mpr hpre, gathers_once.mpr hpost,
        gathers_once.mpr hcs, gathers_once.mpr hps⟩,
      ⟨hash.join, b.startIndex, pre, post, cs, ps⟩, ⟨rfl, rfl, rfl, rfl, rfl, rfl⟩,
      ⟨hhash', rfl, hpre', hpost', hcs', hps'⟩⟩
  · rintro ⟨d, ⟨hhash, hstart, hpre, hpost, hcs, hps⟩, w,
      ⟨dhash, dstart, dpre, dpost, dcs, dps⟩, ⟨whash, wstart, wpre, wpost, wcs, wps⟩⟩
    rw [dstart] at hstart
    rw [dpre] at hpre
    rw [dpost] at hpost
    rw [dcs] at hcs
    rw [dps] at hps
    exact {
      claimedHash := gathers_claimedHash.mp ⟨_, hhash, dhash ▸ whash⟩
      startIndex := wstart ▸ gathers_once.mp hstart
      preRoot := once_scalar.mp ⟨_, gathers_once.mp hpre, wpre⟩
      postRoot := once_scalar.mp ⟨_, gathers_once.mp hpost, wpost⟩
      commitments := once_scalars.mp ⟨_, gathers_once.mp hcs, wcs⟩
      proofs := once_paths.mp ⟨_, gathers_once.mp hps, wps⟩ }

/-- The value denotes this batch: an object by its members, and a list of six values by those of
the members in their order. -/
def Denoted (b : Batch) (v : Document) : Prop :=
  (∃ found, v = .ofMembers found ∧ b.DenotedBy found) ∨
    ∃ vs, v = .list vs ∧ vs.length = knownNames.length ∧ b.DenotedBy (knownNames.zip vs)

theorem mapError_eq_ok_iff {ε ε' : Type} {x : Except ε α} {g : ε → ε'} {a : α} :
    x.mapError g = .ok a ↔ x = .ok a := by
  cases x <;> simp [Except.mapError]

/-- The batch that is read from a text is the one that its value denotes. -/
theorem ofJson?_eq_ok_iff {v : Document} {text : String} (h : v.Written text) (b : Batch) :
    ofJson? text = .ok b ↔ b.Denoted v := by
  have haccepts : Accepts record.reader _ := Record.accepts accepts_members
  rw [ofJson?, mapError_eq_ok_iff, haccepts.decode _ h, Denoted]
  simp only [mapError_eq_ok_iff, denotedBy_iff]
  constructor
  · rintro ⟨w, ⟨d, ⟨found, rfl, hrun⟩ | ⟨vs, rfl, hrun⟩, hw⟩, hb⟩
    · exact .inl ⟨found, rfl, d, hrun, w, hw, hb⟩
    · obtain ⟨hlength, hrun⟩ := (valuesRun_iff vs).mp hrun
      exact .inr ⟨vs, rfl, hlength, d, hrun, w, hw, hb⟩
  · rintro (⟨found, rfl, d, hrun, w, hw, hb⟩ | ⟨vs, rfl, hlength, d, hrun, w, hw, hb⟩)
    · exact ⟨w, ⟨d, .inl ⟨found, rfl, hrun⟩, hw⟩, hb⟩
    · exact ⟨w, ⟨d, .inr ⟨vs, rfl, (valuesRun_iff vs).mpr ⟨hlength, hrun⟩⟩, hw⟩, hb⟩

/-! ## Members in any order -/

/-- The members that a batch knows. -/
def known (found : List (String × Document)) : List (String × Document) :=
  found.filter fun member => member.1 ∈ knownNames

theorem ofMembers_injective : Function.Injective Document.ofMembers := by
  intro found found' h
  refine List.map_injective_iff.mpr ?_ (Document.record.inj h)
  rintro ⟨name, v⟩ ⟨name', v'⟩ heq
  obtain ⟨hname, rfl⟩ := Prod.mk.inj heq
  rw [units_injective hname]

theorem denoted_ofMembers {b : Batch} {found : List (String × Document)} :
    b.Denoted (.ofMembers found) ↔ b.DenotedBy found := by
  constructor
  · rintro (⟨found', heq, h⟩ | ⟨vs, heq, -⟩)
    · rwa [ofMembers_injective heq]
    · cases heq
  · exact fun h => .inl ⟨found, rfl, h⟩

/-- Of the members with a known name all are known. -/
theorem valuesOf_known {name : String} (h : name ∈ knownNames) (found : List (String × Document)) :
    valuesOf name (known found) = valuesOf name found := by
  rw [valuesOf, known, List.filter_filter, valuesOf]
  congr 1
  refine List.filter_congr fun member _ => ?_
  by_cases hname : member.1 = name
  · simp [hname, h]
  · simp [hname]

/-- Members that are the same but for their order have the same value where there is one. -/
theorem once_perm {name : String} {found found' : List (String × Document)}
    (h : (valuesOf name found).Perm (valuesOf name found')) (a : α) :
    Once Denotes name found a ↔ Once Denotes name found' a := by
  refine exists_congr fun v => and_congr_left fun _ => ?_
  exact ⟨fun hv => List.perm_singleton.mp (hv ▸ h.symm), fun hv => List.perm_singleton.mp (hv ▸ h)⟩

theorem DenotedBy.perm {b : Batch} {found found' : List (String × Document)}
    (h : (known found).Perm (known found')) (hb : b.DenotedBy found) : b.DenotedBy found' := by
  have hvalues : ∀ name ∈ knownNames, (valuesOf name found).Perm (valuesOf name found') := by
    intro name hname
    rw [← valuesOf_known hname found, ← valuesOf_known hname found']
    exact (h.filter _).map _
  simp only [knownNames_eq, List.forall_mem_cons] at hvalues
  obtain ⟨hhash, hstart, hpre, hpost, hcs, hps, -⟩ := hvalues
  have hmissing : valuesOf "inputHash" found = [] → valuesOf "inputHash" found' = [] := fun hnone =>
    List.perm_nil.mp (hnone ▸ hhash.symm)
  exact {
    claimedHash := hb.claimedHash.imp (And.imp_left hmissing) (once_perm hhash _).mp
    startIndex := (once_perm hstart _).mp hb.startIndex
    preRoot := (once_perm hpre _).mp hb.preRoot
    postRoot := (once_perm hpost _).mp hb.postRoot
    commitments := (once_perm hcs _).mp hb.commitments
    proofs := (once_perm hps _).mp hb.proofs }

/-- The members that a batch knows, with these values. -/
def namedValues (hash : Option Document) (start pre post cs ps : Document) :
    List (String × Document) :=
  hash.toList.map ("inputHash", ·) ++
    [("startIndex", start), ("preRoot", pre), ("postRoot", post), ("identityCommitments", cs),
      ("merkleProofs", ps)]

theorem known_namedValues (hash : Option Document) (start pre post cs ps : Document) :
    known (namedValues hash start pre post cs ps) = namedValues hash start pre post cs ps := by
  cases hash <;> simp [known, namedValues, knownNames_eq]

/-- A missing hash is as good as null. -/
theorem denotedBy_getD {b : Batch} (hash : Option Document) (start pre post cs ps : Document) :
    b.DenotedBy (namedValues (some (hash.getD .null)) start pre post cs ps) ↔
      b.DenotedBy (namedValues hash start pre post cs ps) := by
  cases hash with
  | some v => exact Iff.rfl
  | none =>
    constructor
    all_goals
      rintro ⟨hhash, hstart, hpre, hpost, hcs, hps⟩
      refine ⟨?_, hstart, hpre, hpost, hcs, hps⟩
      simpa [Once, valuesOf, namedValues, IsOptional] using hhash

/-- The list of six values denotes what their members denote. -/
theorem denoted_values {b : Batch} (hash start pre post cs ps : Document) :
    b.Denoted (.list [hash, start, pre, post, cs, ps]) ↔
      b.DenotedBy (namedValues (some hash) start pre post cs ps) := by
  constructor
  · rintro (⟨found, heq, -⟩ | ⟨vs, heq, -, h⟩)
    · cases heq
    · rw [← Document.list.inj heq] at h
      exact h
  · exact fun h => .inr ⟨_, rfl, rfl, h⟩

/-- A batch is read from exactly the texts that denote one. It depends on the known members only,
in any order, and is the one that the list of their values denotes. -/
theorem ofJson?_language {found : List (String × Document)} {text : String}
    (h : (Document.ofMembers found).Written text) :
    (∀ b, ofJson? text = .ok b ↔ b.DenotedBy found) ∧
      (∀ found' text', (Document.ofMembers found').Written text' →
        (known found).Perm (known found') → ∀ b, ofJson? text' = .ok b ↔ ofJson? text = .ok b) ∧
      ∀ hash start pre post cs ps text',
        (Document.list [hash.getD .null, start, pre, post, cs, ps]).Written text' →
        (known found).Perm (namedValues hash start pre post cs ps) →
        ∀ b, ofJson? text' = .ok b ↔ ofJson? text = .ok b := by
  have hread : ∀ b, ofJson? text = .ok b ↔ b.DenotedBy found := fun b =>
    (ofJson?_eq_ok_iff h b).trans denoted_ofMembers
  refine ⟨hread, ?_, ?_⟩
  · intro found' text' h' hperm b
    rw [hread, ofJson?_eq_ok_iff h', denoted_ofMembers]
    exact ⟨.perm hperm.symm, .perm hperm⟩
  · intro hash start pre post cs ps text' h' hperm b
    rw [← known_namedValues] at hperm
    rw [hread, ofJson?_eq_ok_iff h', denoted_values, denotedBy_getD]
    exact ⟨.perm hperm.symm, .perm hperm⟩

theorem ofJson?_language_reversed :
    ∃ text, (Document.ofMembers [("note", .list [.text (units "preRoot")]),
      ("merkleProofs", .list [.list []]), ("identityCommitments", .list []),
      ("postRoot", .text (units (Scalar.toHex 1))), ("preRoot", .text (units (Scalar.toHex 0))),
      ("startIndex", .number (.ofNat 7))]).Written text ∧
      ofJson? text = .ok ⟨none, 7, 0, 1, [], [[]]⟩ := by
  have hlaid := laysOut_record <|
    .cons ((laysOut_list (.cons (laysOut_text "preRoot") .nil)).member "note") <|
    .cons ((laysOut_list (.cons (laysOut_list .nil) .nil)).member "merkleProofs") <|
    .cons ((laysOut_list .nil).member "identityCommitments") <|
    .cons ((laysOut_text (Scalar.toHex 1)).member "postRoot") <|
    .cons ((laysOut_text (Scalar.toHex 0)).member "preRoot") <|
    .cons ((laysOut_number 7).member "startIndex") .nil
  refine ⟨_, hlaid.written 0, ((ofJson?_language (hlaid.written 0)).1 _).mpr ?_⟩
  have hscalar : ∀ a : Scalar, IsScalar (.text (units a.toHex)) a := fun a =>
    ⟨_, rfl, Scalar.ofHex?_toHex a⟩
  exact {
    claimedHash := .inl ⟨rfl, rfl⟩
    startIndex := ⟨_, rfl, isWord_ofNat 7⟩
    preRoot := ⟨_, rfl, hscalar 0⟩
    postRoot := ⟨_, rfl, hscalar 1⟩
    commitments := ⟨_, rfl, [], rfl, .nil⟩
    proofs := ⟨_, rfl, [.list []], rfl, .cons ⟨[], rfl, .nil⟩ .nil⟩ }

end Batch

end MerkleBatch
