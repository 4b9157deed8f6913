import MerkleBatch.Proofs.Batch.Language

/-!
# Batches as texts and back

* `ofJson?_toJson`: the text of a batch is read as that batch.
* `normalize`: the text of the batch in a text.
* `json_roundTrip`: it is the same for all texts of a batch, and its own.
-/

namespace MerkleBatch.Batch

open Json

/-! ## The text of a batch -/

/-- The written form of a scalar as a value. -/
def scalarDocument (a : Scalar) : Document := .text (units a.toHex)

theorem isScalar_document (a : Scalar) : IsScalar (scalarDocument a) a :=
  ⟨a.toHex, rfl, Scalar.ofHex?_toHex a⟩

/-- Scalars as a value. -/
def listDocument (as : List Scalar) : Document := .list (as.map scalarDocument)

theorem laysOut_listValue (as : List Scalar) : LaysOut (listValue as) (listDocument as) := by
  refine laysOut_list ?_
  rw [List.forall₂_map_left_iff, List.forall₂_map_right_iff, List.forall₂_same]
  exact fun a _ => laysOut_text a.toHex

theorem isList_listDocument (as : List Scalar) : IsList IsScalar (listDocument as) as := by
  refine ⟨_, rfl, ?_⟩
  rw [List.forall₂_map_left_iff, List.forall₂_same]
  exact fun a _ => isScalar_document a

/-- The members of a batch as values. -/
def documents (b : Batch) : List (String × Document) :=
  namedValues (b.claimedHash.map scalarDocument) (.number (.ofNat b.startIndex.toNat))
    (scalarDocument b.preRoot) (scalarDocument b.postRoot) (listDocument b.commitments)
    (.list (b.proofs.map listDocument))

theorem laysOut_toValue (b : Batch) : LaysOut b.toValue (.ofMembers b.documents) := by
  refine laysOut_record (List.rel_append ?_ ?_)
  · cases b.claimedHash with
    | none => exact .nil
    | some a => exact .cons ((laysOut_text a.toHex).member "inputHash") .nil
  · have hproofs : LaysOut (.list (b.proofs.map listValue))
        (.list (b.proofs.map listDocument)) := by
      refine laysOut_list ?_
      rw [List.forall₂_map_left_iff, List.forall₂_map_right_iff, List.forall₂_same]
      exact fun siblings _ => laysOut_listValue siblings
    exact .cons ((laysOut_number _).member "startIndex") <|
      .cons ((laysOut_text _).member "preRoot") <|
      .cons ((laysOut_text _).member "postRoot") <|
      .cons ((laysOut_listValue _).member "identityCommitments") <|
      .cons (hproofs.member "merkleProofs") .nil

theorem denotedBy_documents (b : Batch) : b.DenotedBy b.documents := by
  have hproofs : IsList (IsList IsScalar) (.list (b.proofs.map listDocument)) b.proofs := by
    refine ⟨_, rfl, ?_⟩
    rw [List.forall₂_map_left_iff, List.forall₂_same]
    exact fun siblings _ => isList_listDocument siblings
  refine (denotedBy_getD _ _ _ _ _ _).mp {
    claimedHash := .inr ⟨_, rfl, ?_⟩
    startIndex := ⟨_, rfl, isWord_ofNat b.startIndex⟩
    preRoot := ⟨_, rfl, isScalar_document b.preRoot⟩
    postRoot := ⟨_, rfl, isScalar_document b.postRoot⟩
    commitments := ⟨_, rfl, isList_listDocument b.commitments⟩
    proofs := ⟨_, rfl, hproofs⟩ }
  cases b.claimedHash with
  | none => exact .inl ⟨rfl, rfl⟩
  | some a => exact .inr ⟨nofun, a, isScalar_document a, rfl⟩

/-- A batch that is sent as text arrives as it was. -/
theorem ofJson?_toJson (b : Batch) : ofJson? b.toJson = .ok b :=
  (ofJson?_eq_ok_iff (b.laysOut_toValue.written 0) b).mpr
    (denoted_ofMembers.mpr b.denotedBy_documents)

/-! ## Texts of one batch -/

/-- The text that the batch in a text is written as. -/
def normalize (text : String) : Except Error String := (ofJson? text).map toJson

/-- Every batch has a text of its own, and all texts of a batch come to that one. -/
theorem json_roundTrip (b : Batch) :
    ofJson? b.toJson = .ok b ∧
      ∀ text, ofJson? text = .ok b →
        normalize text = .ok b.toJson ∧ normalize b.toJson = .ok b.toJson := by
  have hnormal : ∀ {text}, ofJson? text = .ok b → normalize text = .ok b.toJson := by
    intro text h
    rw [normalize, h]
    rfl
  exact ⟨ofJson?_toJson b, fun text h => ⟨hnormal h, hnormal (ofJson?_toJson b)⟩⟩

/-- A list of six values is a text of a batch that is written as an object. -/
theorem json_roundTrip_list :
    ∃ text, text ≠ toJson ⟨none, 7, 0, 1, [], [[]]⟩ ∧
      normalize text = .ok (toJson ⟨none, 7, 0, 1, [], [[]]⟩) := by
  have hlaid := laysOut_list <|
    .cons laysOut_null <| .cons (laysOut_number 7) <|
    .cons (laysOut_text (Scalar.toHex 0)) <| .cons (laysOut_text (Scalar.toHex 1)) <|
    .cons (laysOut_list .nil) <| .cons (laysOut_list (.cons (laysOut_list .nil) .nil)) .nil
  have hread := (ofJson?_eq_ok_iff (hlaid.written 0) ⟨none, 7, 0, 1, [], [[]]⟩).mpr <|
    (denoted_values _ _ _ _ _ _).mpr <|
    (denotedBy_getD none _ _ _ _ _).mpr (denotedBy_documents ⟨none, 7, 0, 1, [], [[]]⟩)
  refine ⟨_, fun heq => ?_, ((json_roundTrip _).2 _ hread).1⟩
  -- The one begins with a bracket, the other with a brace.
  have hhead := congrArg (fun s : String => s.toList.head?) heq
  simp [toJson, toValue, Value.pretty] at hhead

end MerkleBatch.Batch
