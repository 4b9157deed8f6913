import MerkleBatch.Batch.Replay
import MerkleBatch.Proofs.Batch.Replay
import MerkleBatch.Proofs.Batch.Split

/-!
# Admitted and refused batches

A batch is refused for its shape or in the replay. In the replay of a batch of a supported shape no
shift runs over its word, since the siblings are few enough, and no insertion beyond the last leaf.

* `Shape.hasShape_witness`: the witness of a batch of a shape has that shape.
* `Shape.replay_error_cases`: what a batch of a supported shape can still fail for.
* `Shape.examine_eq_ok_iff`: what an admitted batch has passed.
* `Shape.examine_refused`: the errors that other batches are refused with.
-/

namespace MerkleBatch

/-- An error of the replay is one of the batch, unless the replay stopped. -/
theorem ReplayError.toFailure_cases (e : ReplayError) :
    (∃ message, e.toFailure = .error (.witness message)) ∨ ∃ overflow, e = .stopped overflow := by
  cases e with
  | outOfRange insertion index depth => exact .inl ⟨_, rfl⟩
  | staleProof insertion index => exact .inl ⟨_, rfl⟩
  | postRoot => exact .inl ⟨_, rfl⟩
  | claimedHash => exact .inl ⟨_, rfl⟩
  | stopped overflow => exact .inr ⟨overflow, rfl⟩

namespace Shape

variable {s : Shape} {b : Batch}

/-- The witness of a batch fits the circuit of its shape. -/
theorem hasShape_witness (hb : s.accepts b = .ok ()) :
    b.witness.hasShape s.treeDepth.toNat s.batchSize.toNat = true := by
  obtain ⟨hcommitments, hproofs, hlengths, -⟩ := accepts_eq_ok_iff.mp hb
  exact Witness.hasShape_iff.mpr ⟨hcommitments, hproofs, hlengths⟩

/-- A batch of a supported shape inserts at leaves of the tree, with no more siblings at any of them
than a word has bits. So it can only fail for a path that does not lead to the root that the
insertions before it left behind, for its last root, or for the input hash it expects. -/
theorem replay_error_cases (hs : s.validate = .ok ()) (hb : s.accepts b = .ok ())
    {error : ReplayError} (h : b.replay s.treeDepth.toNat = .error error) :
    (∃ i path, b.proofs[i]? = some path ∧ error = .staleProof i (b.startIndex.toNat + i) ∧
        Path.root 0 (b.startIndex.toNat + i) path ≠ b.rootAfter i) ∨
      (error = .postRoot ∧ b.rootAfter s.batchSize.toNat ≠ b.postRoot) ∨
      (error = .claimedHash ∧ ∃ h ∈ b.claimedHash, h ≠ b.inputHash) := by
  obtain ⟨hcommitments, -, hlengths, hlast⟩ := accepts_eq_ok_iff.mp hb
  have hcount : b.insertions.length ≤ s.batchSize.toNat := hcommitments ▸ b.length_insertions_le
  rcases Batch.replay_eq_error h with hall | ⟨last, hall, hpost, rfl⟩ | ⟨hclaimed, rfl⟩
  · obtain ⟨i, hi, root, hbefore, herror⟩ := exists_insertLeaf_error hall
    obtain rfl : root = b.rootAfter i := eq_lastRoot hbefore
    have hpath := Batch.getElem?_proofs hi
    rw [Nat.zero_add] at herror
    rcases insertLeaf_eq_error_iff.mp herror with
      ⟨hfits, -⟩ | ⟨-, hlong, -⟩ | ⟨-, -, hstale, rfl⟩
    · have hle : b.startIndex.toNat + i ≤ b.startIndex.toNat + (s.batchSize.toNat - 1) := by
        omega
      exact absurd (Index.fits_mono hle hlast) (Bool.eq_false_iff.mp hfits)
    · have hdepth := hlengths _ (List.mem_of_getElem? hpath)
      exact absurd (hdepth ▸ hlong) (Nat.lt_asymm (depth_lt_wordBits hs))
    · exact .inl ⟨i, _, hpath, rfl, hstale⟩
  · refine .inr (.inl ⟨rfl, ?_⟩)
    rw [Batch.rootAfter, List.take_of_length_le hcount]
    exact eq_lastRoot hall ▸ hpost
  · exact .inr (.inr ⟨rfl, hclaimed⟩)

theorem replay_ne_stopped (hs : s.validate = .ok ()) (hb : s.accepts b = .ok ())
    (overflow : Overflow) : b.replay s.treeDepth.toNat ≠ .error (.stopped overflow) := by
  intro h
  rcases replay_error_cases hs hb h with ⟨_, _, -, hne, -⟩ | ⟨hne, -⟩ | ⟨hne, -⟩ <;> cases hne

theorem examine_eq_ok_iff {a : Admitted} :
    s.examine b = .ok a ↔
      s.accepts b = .ok () ∧ b.replay s.treeDepth.toNat = .ok (a.witness, a.inputHash) := by
  rw [examine]
  cases haccepts : s.accepts b with
  | error e => simp
  | ok u =>
    cases hreplay : b.replay s.treeDepth.toNat with
    | error e => simp
    | ok result =>
      obtain ⟨w, h⟩ := result
      obtain ⟨w', h'⟩ := a
      simp

/-- A batch that is not admitted fails for its shape, or for what it says about the tree, unless
the replay stopped. -/
theorem examine_error {f : Failure} (h : s.examine b = .error f) :
    (∃ e, f = .error (.shape e)) ∨ (∃ message, f = .error (.witness message)) ∨
      s.accepts b = .ok () ∧ ∃ overflow,
        b.replay s.treeDepth.toNat = .error (.stopped overflow) ∧ f = .stopped overflow := by
  rw [examine] at h
  cases haccepts : s.accepts b with
  | error e =>
    rw [haccepts] at h
    exact .inl ⟨e, (Except.error.inj h).symm⟩
  | ok u =>
    rw [haccepts] at h
    cases hreplay : b.replay s.treeDepth.toNat with
    | error e =>
      rw [hreplay] at h
      have hf : e.toFailure = f := Except.error.inj h
      rcases e.toFailure_cases with ⟨message, hmessage⟩ | ⟨overflow, rfl⟩
      · exact .inr (.inl ⟨message, hf.symm.trans hmessage⟩)
      · exact .inr (.inr ⟨rfl, overflow, rfl, hf.symm⟩)
    | ok result =>
      rw [hreplay] at h
      cases h

/-- The replay of a batch of a supported shape does not stop. -/
theorem examine_refused (hs : s.validate = .ok ()) {f : Failure} (h : s.examine b = .error f) :
    (∃ e, f = .error (.shape e)) ∨ ∃ message, f = .error (.witness message) := by
  rcases examine_error h with hshape | hwitness | ⟨haccepts, overflow, hstopped, -⟩
  · exact .inl hshape
  · exact .inr hwitness
  · exact absurd hstopped (replay_ne_stopped hs haccepts overflow)

end Shape

end MerkleBatch
