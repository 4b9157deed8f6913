import MerkleBatch.Batch.Replay
import MerkleBatch.Proofs.Index
import Mathlib.Tactic.SplitIfs

/-!
# Successful replays

What it takes for a batch to be carried out: it has the parts that its shape prescribes, and each
insertion finds its index in the tree and leads from an empty leaf to the root that the one before
it left behind. Otherwise one insertion fails.

* `Shape.accepts_eq_ok_iff`: what a batch of a shape consists of.
* `insertLeaf_eq_ok_iff`, `insertAll_cons_eq_ok_iff`: one insertion, and the first one of many.
* `insertLeaf_eq_error_iff`, `exists_insertLeaf_error`: why an insertion fails, and which one of
  many does.
* `exists_roots`: the roots between the insertions.
* `Batch.replay_eq_ok_iff`: all checks of a batch.
-/

namespace MerkleBatch

namespace Shape

theorem depth_lt_wordBits {s : Shape} (hs : s.validate = .ok ()) :
    s.treeDepth.toNat < wordBits :=
  Nat.lt_of_le_of_lt (validate_eq_ok_iff.mp hs).1.2 (by decide)

theorem checkLengths_eq_ok_iff {depth number : Nat} {proofs : List (List Scalar)} :
    checkLengths depth number proofs = .ok () ↔ ∀ siblings ∈ proofs, siblings.length = depth := by
  induction proofs generalizing number with
  | nil => simp [checkLengths]
  | cons siblings rest ih =>
    rw [checkLengths, List.forall_mem_cons]
    by_cases h : siblings.length = depth
    · rw [if_pos h, ih]
      exact (and_iff_right h).symm
    · simp [h]

theorem accepts_eq_ok_iff {s : Shape} {b : Batch} :
    s.accepts b = .ok () ↔
      b.commitments.length = s.batchSize.toNat ∧ b.proofs.length = s.batchSize.toNat ∧
        (∀ siblings ∈ b.proofs, siblings.length = s.treeDepth.toNat) ∧
        Index.fits (b.startIndex.toNat + (s.batchSize.toNat - 1)) s.treeDepth.toNat = true := by
  rw [accepts]
  by_cases hc : b.commitments.length = s.batchSize.toNat
  · by_cases hp : b.proofs.length = s.batchSize.toNat
    · have hl : checkLengths s.treeDepth.toNat 0 b.proofs = .ok () ↔
          ∀ siblings ∈ b.proofs, siblings.length = s.treeDepth.toNat := checkLengths_eq_ok_iff
      rw [← hl]
      cases checkLengths s.treeDepth.toNat 0 b.proofs with
      | error error => simp [hc, hp]
      | ok u => simp [hc, hp]
    · simp [hc, hp]
  · simp [hc]

end Shape

/-! ## Insertions -/

variable {depth index start insertion : Nat} {current leaf next last : Scalar}
  {siblings : List Scalar} {rest insertions : List (Scalar × List Scalar)}

theorem insertLeaf_eq_ok_iff :
    insertLeaf depth insertion index current leaf siblings = .ok next ↔
      Index.fits index depth = true ∧ siblings.length ≤ wordBits ∧
        Path.root 0 index siblings = current ∧ Path.root leaf index siblings = next := by
  rw [insertLeaf]
  by_cases hfits : Index.fits index depth = true
  · by_cases hlen : siblings.length ≤ wordBits
    · by_cases hroot : Path.root 0 index siblings = current
      · simp [hfits, hlen, hroot, Nat.not_lt.mpr hlen]
      · simp [hfits, hroot, Nat.not_lt.mpr hlen]
    · simp [hfits, hlen, Nat.not_le.mp hlen]
  · simp [hfits]

theorem insertAll_cons_eq_ok_iff :
    insertAll depth start insertion current ((leaf, siblings) :: rest) = .ok last ↔
      (Index.fits (start + insertion) depth = true ∧ siblings.length ≤ wordBits ∧
        Path.root 0 (start + insertion) siblings = current) ∧
      insertAll depth start (insertion + 1) (Path.root leaf (start + insertion) siblings) rest =
        .ok last := by
  rw [insertAll]
  cases h : insertLeaf depth insertion (start + insertion) current leaf siblings with
  | error error =>
    simp only [reduceCtorEq, false_iff]
    rintro ⟨⟨hfits, hlen, hroot⟩, -⟩
    rw [insertLeaf_eq_ok_iff.mpr ⟨hfits, hlen, hroot, rfl⟩] at h
    cases h
  | ok next =>
    obtain ⟨hfits, hlen, hroot, rfl⟩ := insertLeaf_eq_ok_iff.mp h
    exact (and_iff_right ⟨hfits, hlen, hroot⟩).symm

/-- An insertion fails for its index, for the number of its siblings or for where they lead, and the
first of these is reported. -/
theorem insertLeaf_eq_error_iff {error : ReplayError} :
    insertLeaf depth insertion index current leaf siblings = .error error ↔
      (Index.fits index depth = false ∧ error = .outOfRange insertion index depth) ∨
      (Index.fits index depth = true ∧ wordBits < siblings.length ∧
        error = .stopped .shiftRight) ∨
      (Index.fits index depth = true ∧ siblings.length ≤ wordBits ∧
        Path.root 0 index siblings ≠ current ∧ error = .staleProof insertion index) := by
  unfold insertLeaf
  by_cases hfits : Index.fits index depth = true
  · by_cases hlen : siblings.length ≤ wordBits
    · by_cases hroot : Path.root 0 index siblings = current
      · simp [hfits, hlen, hroot, Nat.not_lt.mpr hlen]
      · simp [hfits, hlen, hroot, Nat.not_lt.mpr hlen, eq_comm]
    · simp [hfits, hlen, Nat.not_le.mp hlen, eq_comm]
  · simp [hfits, eq_comm]

/-- Insertions fail in one of them, under the root that those before it lead to. -/
theorem exists_insertLeaf_error {error : ReplayError}
    (h : insertAll depth start insertion current insertions = .error error) :
    ∃ i, ∃ hi : i < insertions.length, ∃ root,
      insertAll depth start insertion current (insertions.take i) = .ok root ∧
      insertLeaf depth (insertion + i) (start + (insertion + i)) root insertions[i].1
        insertions[i].2 = .error error := by
  induction insertions generalizing insertion current with
  | nil => cases h
  | cons first rest ih =>
    obtain ⟨leaf, siblings⟩ := first
    rw [insertAll] at h
    cases hfirst : insertLeaf depth insertion (start + insertion) current leaf siblings with
    | error e =>
      rw [hfirst] at h
      exact ⟨0, Nat.succ_pos _, current, rfl, hfirst.trans h⟩
    | ok next =>
      rw [hfirst] at h
      obtain ⟨i, hi, root, hbefore, herror⟩ := ih h
      refine ⟨i + 1, Nat.succ_lt_succ hi, root, ?_, ?_⟩
      · rw [List.take_succ_cons, insertAll, hfirst]
        exact hbefore
      · rw [Nat.add_assoc, Nat.add_comm 1] at herror
        exact herror

/-- The error names the index of its insertion, counted from `start`, and the depth of the tree. -/
def ReplayError.Names (start depth : Nat) : ReplayError → Prop
  | .outOfRange i index d => index = start + i ∧ d = depth
  | .staleProof i index => index = start + i
  | .postRoot | .claimedHash | .stopped _ => True

theorem insertAll_names {error : ReplayError}
    (h : insertAll depth start insertion current insertions = .error error) :
    error.Names start depth := by
  obtain ⟨i, hi, root, -, herror⟩ := exists_insertLeaf_error h
  rcases insertLeaf_eq_error_iff.mp herror with ⟨-, rfl⟩ | ⟨-, -, rfl⟩ | ⟨-, -, -, rfl⟩
  · exact ⟨rfl, rfl⟩
  · trivial
  · rfl

/-- Between successful insertions are roots, from the first one to the last. -/
theorem exists_roots (h : insertAll depth start insertion current insertions = .ok last) :
    ∃ r : Nat → Scalar, r 0 = current ∧ r insertions.length = last ∧
      ∀ i (hi : i < insertions.length),
        Index.fits (start + (insertion + i)) depth = true ∧
          Path.root 0 (start + (insertion + i)) insertions[i].2 = r i ∧
          Path.root insertions[i].1 (start + (insertion + i)) insertions[i].2 = r (i + 1) := by
  induction insertions generalizing insertion current with
  | nil =>
    obtain rfl : current = last := by simpa [insertAll] using h
    exact ⟨fun _ => current, rfl, rfl, fun i hi => absurd hi (Nat.not_lt_zero i)⟩
  | cons first rest ih =>
    obtain ⟨leaf, siblings⟩ := first
    obtain ⟨⟨hfits, -, hroot⟩, hrest⟩ := insertAll_cons_eq_ok_iff.mp h
    obtain ⟨r, hfirst, hlast, hr⟩ := ih hrest
    refine ⟨fun i => if i = 0 then current else r (i - 1), rfl, hlast, fun i hi => ?_⟩
    cases i with
    | zero => exact ⟨hfits, hroot, hfirst.symm⟩
    | succ i =>
      have hstep := hr i (Nat.lt_of_succ_lt_succ hi)
      rw [Nat.add_assoc insertion, Nat.add_comm 1] at hstep
      exact hstep

namespace Batch

theorem length_insertions_le (b : Batch) : b.insertions.length ≤ b.commitments.length := by
  rw [insertions, List.length_zip]
  exact Nat.min_le_left _ _

theorem map_fst_insertions {b : Batch} (h : b.commitments.length = b.proofs.length) :
    b.insertions.map Prod.fst = b.commitments :=
  List.map_fst_zip (Nat.le_of_eq h)

theorem map_snd_insertions {b : Batch} (h : b.commitments.length = b.proofs.length) :
    b.insertions.map Prod.snd = b.proofs :=
  List.map_snd_zip (Nat.le_of_eq h.symm)

theorem getElem?_proofs {b : Batch} {i : Nat} (hi : i < b.insertions.length) :
    b.proofs[i]? = some b.insertions[i].2 := by
  have hproof : i < b.proofs.length := by
    rw [insertions, List.length_zip] at hi
    omega
  rw [List.getElem?_eq_getElem hproof]
  simp [insertions]

theorem replay_eq_ok_iff {b : Batch} {result : Witness × Scalar} :
    b.replay depth = .ok result ↔
      insertAll depth b.startIndex.toNat 0 b.preRoot b.insertions = .ok b.postRoot ∧
        (∀ h ∈ b.claimedHash, h = b.inputHash) ∧ (b.witness, b.inputHash) = result := by
  rw [replay]
  cases insertAll depth b.startIndex.toNat 0 b.preRoot b.insertions with
  | error error => simp
  | ok last =>
    by_cases hlast : last = b.postRoot
    · cases hclaim : b.claimedHash with
      | none => simp [hlast]
      | some h => by_cases heq : h = b.inputHash <;> simp [hlast, heq]
    · simp [hlast]

/-- Where a replay fails: in an insertion, at the last root or at the expected input hash. -/
theorem replay_eq_error {b : Batch} {error : ReplayError} (h : b.replay depth = .error error) :
    insertAll depth b.startIndex.toNat 0 b.preRoot b.insertions = .error error ∨
      (∃ last, insertAll depth b.startIndex.toNat 0 b.preRoot b.insertions = .ok last ∧
        last ≠ b.postRoot ∧ error = .postRoot) ∨
      (∃ h ∈ b.claimedHash, h ≠ b.inputHash) ∧ error = .claimedHash := by
  rw [replay] at h
  cases hall : insertAll depth b.startIndex.toNat 0 b.preRoot b.insertions with
  | error e =>
    rw [hall] at h
    exact .inl (congrArg _ (Except.error.inj h))
  | ok last =>
    simp only [hall] at h
    split_ifs at h with hlast hclaim
    · exact .inr (.inl ⟨last, rfl, hlast, (Except.error.inj h).symm⟩)
    · refine .inr (.inr ⟨?_, (Except.error.inj h).symm⟩)
      simpa [Option.any_eq_true] using hclaim

theorem replay_names {b : Batch} {error : ReplayError} (h : b.replay depth = .error error) :
    error.Names b.startIndex.toNat depth := by
  rcases replay_eq_error h with hall | ⟨last, -, -, rfl⟩ | ⟨-, rfl⟩
  · exact insertAll_names hall
  · trivial
  · trivial

end Batch

/-- The batch that inserts two leaves into the middle of the empty tree of depth 2. The first one is
below a sibling of the second one's path. -/
def twoLeaves : Batch :=
  let empty := hashNode 0 0
  let first := hashNode 0 7
  ⟨none, 1, hashNode empty empty, hashNode first (hashNode 8 0), [7, 8], [[0, empty], [0, first]]⟩

private theorem root_second (leaf sibling upper : Scalar) :
    Path.root leaf (1 + 0) [sibling, upper] = hashNode (hashNode sibling leaf) upper := by
  simp [Path.parent]

private theorem root_third (leaf sibling upper : Scalar) :
    Path.root leaf (1 + (0 + 1)) [sibling, upper] = hashNode upper (hashNode leaf sibling) := by
  simp [Path.parent]

theorem replay_twoLeaves : twoLeaves.replay 2 = .ok (twoLeaves.witness, twoLeaves.inputHash) := by
  refine Batch.replay_eq_ok_iff.mpr ⟨?_, by simp [twoLeaves], rfl⟩
  refine insertAll_cons_eq_ok_iff.mpr ⟨⟨by decide, by decide, root_second ..⟩, ?_⟩
  -- the second path starts from the root that the first leaf leads to
  refine insertAll_cons_eq_ok_iff.mpr ⟨⟨by decide, by decide, ?_⟩, ?_⟩
  · exact (root_third ..).trans (root_second ..).symm
  · exact congrArg Except.ok (root_third ..)

end MerkleBatch
