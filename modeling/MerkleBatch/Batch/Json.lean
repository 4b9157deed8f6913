import MerkleBatch.Batch
import MerkleBatch.Error
import MerkleBatch.Json.Reader
import MerkleBatch.Json.Value
import MerkleBatch.Scalar.Hex

/-!
# Batches in JSON

A batch is a record of written scalars and a start index. Only the expected input hash may be
missing. Scalars are looked at when the whole record is read, in the order of the members.

* `Batch.ofJson?`: reading.
* `Batch.toJson`: writing, with the members in their order and an absent hash left out.
-/

namespace MerkleBatch

/-- A batch whose scalars are still texts. -/
structure WrittenBatch where
  claimedHash : Option String
  startIndex : UInt32
  preRoot : String
  postRoot : String
  commitments : List String
  proofs : List (List String)
deriving DecidableEq

namespace WrittenBatch

/-- The members of a written batch that were read so far. -/
structure Draft where
  claimedHash : Option (Option String)
  startIndex : Option UInt32
  preRoot : Option String
  postRoot : Option String
  commitments : Option (List String)
  proofs : Option (List (List String))
deriving DecidableEq

open Json

/-- The members in their order. -/
def members : List (Member Draft) := [
  { name := "inputHash"
    optional := true
    isSet := (·.claimedHash.isSome)
    reader := (Reader.optional Reader.string).map fun v d => { d with claimedHash := some v } },
  { name := "startIndex"
    optional := false
    isSet := (·.startIndex.isSome)
    reader := Reader.word.map fun v d => { d with startIndex := some v } },
  { name := "preRoot"
    optional := false
    isSet := (·.preRoot.isSome)
    reader := Reader.string.map fun v d => { d with preRoot := some v } },
  { name := "postRoot"
    optional := false
    isSet := (·.postRoot.isSome)
    reader := Reader.string.map fun v d => { d with postRoot := some v } },
  { name := "identityCommitments"
    optional := false
    isSet := (·.commitments.isSome)
    reader := (Reader.list Reader.string).map fun v d => { d with commitments := some v } },
  { name := "merkleProofs"
    optional := false
    isSet := (·.proofs.isSome)
    reader := (Reader.list (Reader.list Reader.string)).map fun v d =>
      { d with proofs := some v } }]

/-- The written batch of a draft. -/
def ofDraft (d : Draft) : Except Fault WrittenBatch := do
  let startIndex ← required "startIndex" d.startIndex
  let preRoot ← required "preRoot" d.preRoot
  let postRoot ← required "postRoot" d.postRoot
  let commitments ← required "identityCommitments" d.commitments
  let proofs ← required "merkleProofs" d.proofs
  pure ⟨d.claimedHash.join, startIndex, preRoot, postRoot, commitments, proofs⟩

/-- Written batches as records. -/
def record : Record Draft WrittenBatch where
  name := "struct InsertionParametersJson"
  members := members
  blank := ⟨none, none, none, none, none, none⟩
  complete := ofDraft

/-- The batch that the texts denote; the first that is no scalar decides. -/
def toBatch (w : WrittenBatch) : Except HexError Batch := do
  let claimedHash ← w.claimedHash.mapM Scalar.ofHex?
  let preRoot ← Scalar.ofHex? w.preRoot
  let postRoot ← Scalar.ofHex? w.postRoot
  let commitments ← w.commitments.mapM Scalar.ofHex?
  let proofs ← w.proofs.mapM fun siblings => siblings.mapM Scalar.ofHex?
  pure ⟨claimedHash, w.startIndex, preRoot, postRoot, commitments, proofs⟩

end WrittenBatch

namespace Error

/-- The error of a text that is not read. -/
def ofFault : Json.Fault → Error
  | .malformed => malformed
  | fault => parse fault.message

end Error

namespace Batch

/-- The fault of a scalar in a batch; its words are those of the error on its own. -/
def refuse (e : HexError) : Json.Fault := .refused (Error.parse e.message).display

/-- The batch in a text. -/
def ofJson? (text : String) : Except Error Batch :=
  let accept (w : WrittenBatch) := w.toBatch.mapError refuse
  (Json.decode WrittenBatch.record.reader accept text).mapError Error.ofFault

/-- Scalars as a value. -/
def listValue (as : List Scalar) : Json.Value := .list (as.map fun a => .text a.toHex)

/-- The batch as a value. -/
def toValue (b : Batch) : Json.Value :=
  .record <|
    (b.claimedHash.toList.map fun a => ("inputHash", .text a.toHex)) ++
    [("startIndex", .number (.ofNat b.startIndex.toNat)),
      ("preRoot", .text b.preRoot.toHex),
      ("postRoot", .text b.postRoot.toHex),
      ("identityCommitments", listValue b.commitments),
      ("merkleProofs", .list (b.proofs.map listValue))]

/-- The text of a batch. -/
def toJson (b : Batch) : String := String.ofList (b.toValue.pretty 0)

end Batch

end MerkleBatch
