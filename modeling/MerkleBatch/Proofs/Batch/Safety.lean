import MerkleBatch.Proofs.Batch.Admission
import MerkleBatch.Proofs.Circuit.Size

/-!
# Batches of a shape are safe

The shape of a batch is checked once, with a bound on its last index alone, and everything behind
that check relies on it: the replay halves indices as often as there are siblings and runs through
two lists side by side, and the circuit is put together from lists that have to fit each other. For
a batch of a supported shape none of this goes wrong. The replay can still refuse the batch for what
it says about the tree; otherwise it hands on the whole batch, and there is a circuit for it.

* `accepted_safe`: what can still happen to such a batch.
-/

namespace MerkleBatch.Shape

variable {s : Shape} {b : Batch}

/-- The replay of a batch of a supported shape fails at an insertion whose path does not lead to the
root before it, at the last root or at the input hash, and there the batch is wrong indeed. Where it
succeeds, the witness is the batch itself, and its circuit is built, wherever it stands and whatever
its one input is. -/
theorem accepted_safe (hs : s.validate = .ok ()) (hb : s.accepts b = .ok ()) :
    let depth := s.treeDepth.toNat
    let size := s.batchSize.toNat
    (∀ error, b.replay depth = .error error →
      (∃ i path, b.proofs[i]? = some path ∧ error = .staleProof i (b.startIndex.toNat + i) ∧
        Path.root 0 (b.startIndex.toNat + i) path ≠ b.rootAfter i) ∨
      (error = .postRoot ∧ b.rootAfter size ≠ b.postRoot) ∨
      (error = .claimedHash ∧ ∃ h ∈ b.claimedHash, h ≠ b.inputHash)) ∧
    ∀ w z, b.replay depth = .ok (w, z) →
      w = ⟨b.startIndex.toUInt64, b.preRoot, b.postRoot, b.commitments, b.proofs⟩ ∧
      w.batchSize = size ∧ w.hasShape depth size = true ∧
      ∀ (input : Circuit.Var) scope first, ∃ built,
        Circuit.transition depth w.batchSize w [input] scope first = .ok built := by
  intro depth size
  refine ⟨fun error => replay_error_cases hs hb, fun w z hreplay => ?_⟩
  obtain ⟨-, -, hresult⟩ := Batch.replay_eq_ok_iff.mp hreplay
  obtain ⟨rfl, -⟩ := Prod.mk.inj hresult
  have hsize : b.witness.batchSize = size := (accepts_eq_ok_iff.mp hb).1
  have hshape := hasShape_witness hb
  refine ⟨rfl, hsize, hshape, fun input scope first => ?_⟩
  rw [hsize]
  obtain ⟨built, hbuilt, -⟩ := Circuit.costs_transition hshape (z := [input]) rfl scope first
  exact ⟨built, hbuilt⟩

/-- Two leaves of a tree of depth 2, with their circuit after one input and in no scope. -/
theorem accepted_safe_twoLeaves :
    (validate ⟨2, 2⟩ = .ok () ∧ accepts ⟨2, 2⟩ twoLeaves = .ok () ∧
      twoLeaves.replay 2 = .ok (twoLeaves.witness, twoLeaves.inputHash)) ∧
    twoLeaves.witness =
        ⟨1, twoLeaves.preRoot, twoLeaves.postRoot, [7, 8], twoLeaves.proofs⟩ ∧
      twoLeaves.witness.batchSize = 2 ∧ twoLeaves.witness.hasShape 2 2 = true ∧
      ∃ built, Circuit.transition 2 2 twoLeaves.witness [⟨0⟩] [] ⟨1⟩ = .ok built := by
  have hs : validate ⟨2, 2⟩ = .ok () := rfl
  have hb : accepts ⟨2, 2⟩ twoLeaves = .ok () := rfl
  obtain ⟨-, hok⟩ := accepted_safe hs hb
  obtain ⟨hwitness, hsize, hshape, hbuild⟩ := hok _ _ replay_twoLeaves
  exact ⟨⟨hs, hb, replay_twoLeaves⟩, hwitness, hsize, hshape, hbuild ⟨0⟩ [] ⟨1⟩⟩

end MerkleBatch.Shape
