import MerkleBatch.Proofs.Batch.Replay
import MerkleBatch.Proofs.Circuit.Transition

/-!
# Replay and circuit

Where no index runs over the modulus, the replay and the circuit go through the insertions of a
batch in step: the replay stops at the first demand that the honest assignment misses.

* `faultOf`: the demand that an error of the replay stands for.
* `batchFaults_of_ok`, `batchFaults_of_error`: the insertions of a batch.
* `replay_agrees`: the replay succeeds exactly if no demand is missed, and otherwise its error
  stands for the first demand that is.
-/

namespace MerkleBatch.Circuit

/-- The demand that an error of the replay stands for. A path that is too long has no circuit. -/
def faultOf : ReplayError → Option Label
  | .outOfRange insertion _ _ =>
    some ["recompose_index", "index_bits", s!"insertion_{insertion}", "batch"]
  | .staleProof insertion _ =>
    some ["equal", "empty_path_matches_current_root", s!"insertion_{insertion}", "batch"]
  | .postRoot => some ["equal", "final_root_matches_post_root"]
  | .claimedHash => some ["equal", "input_hash_matches_public"]
  | .stopped _ => none

private theorem insertionName_inj {i j : Nat} (h : s!"insertion_{i}" = s!"insertion_{j}") :
    i = j := by
  have hrepr : i.repr = j.repr := (String.append_right_inj "insertion_").mp h
  have hdigits : Nat.toDigits 10 i = Nat.toDigits 10 j := by
    rw [← Nat.toList_repr, hrepr, Nat.toList_repr]
  rw [← Nat.ofDigitChars_toDigits (b := 10) (by decide) (by decide) (n := i), hdigits,
    Nat.ofDigitChars_toDigits (by decide) (by decide)]

/-- Errors that stand for the same demand are the same. -/
theorem faultOf_inj {start depth : Nat} {error error' : ReplayError} {label : Label}
    (h : error.Names start depth) (h' : error'.Names start depth)
    (hlabel : faultOf error = some label) (hlabel' : faultOf error' = some label) :
    error = error' := by
  rw [← hlabel'] at hlabel
  cases error <;> cases error' <;>
    simp only [faultOf, Option.some.injEq, List.cons.injEq, String.reduceEq, reduceCtorEq,
      true_and, false_and, and_true] at hlabel hlabel'
  case outOfRange.outOfRange i _ _ j _ _ =>
    obtain rfl := insertionName_inj hlabel
    obtain ⟨⟨rfl, rfl⟩, rfl, rfl⟩ := And.intro h h'
    rfl
  case staleProof.staleProof i _ j _ =>
    obtain rfl := insertionName_inj hlabel
    rw [show _ = _ from h, show _ = _ from h']
  all_goals rfl

section

variable {depth offset : Nat} {scope : Label} {start index current last : Scalar}
  {siblings : List Scalar} {insertions : List (Scalar × List Scalar)} {error : ReplayError}

theorem insertionFaults_eq_nil_iff :
    insertionFaults depth scope index current siblings = [] ↔
      index.val < 2 ^ depth ∧ Path.root 0 index.val siblings = current := by
  by_cases hrange : index.val < 2 ^ depth <;>
    by_cases hroot : Path.root 0 index.val siblings = current <;>
      simp [insertionFaults, hrange, hroot]

/-- Insertions that the replay carries out miss no demand. -/
theorem batchFaults_of_ok (scope : Label) (hd : depth < wordBits)
    (hlt : start.val + offset + insertions.length < modulus)
    (h : insertAll depth start.val offset current insertions = .ok last) :
    batchFaults depth scope start offset current insertions = [] ∧
      rootAfter start offset current insertions = last := by
  induction insertions generalizing offset current with
  | nil => exact ⟨rfl, Except.ok.inj h⟩
  | cons insertion rest ih =>
    obtain ⟨leaf, siblings⟩ := insertion
    obtain ⟨⟨hfits, -, hroot⟩, hrest⟩ := insertAll_cons_eq_ok_iff.mp h
    rw [List.length_cons] at hlt
    have hindex : (start + Scalar.ofNat offset).val = start.val + offset :=
      Scalar.val_add_ofNat (by omega)
    rw [Index.fits_iff_lt hd, ← hindex] at hfits
    rw [← hindex] at hroot hrest
    obtain ⟨hfaults, hlast⟩ := ih (by omega) hrest
    refine ⟨?_, hlast⟩
    rw [batchFaults, insertionFaults_eq_nil_iff.mpr ⟨hfits, hroot⟩]
    exact hfaults

/-- The first demand that insertions miss is the one that the error of the replay stands for. -/
theorem batchFaults_of_error (hd : depth < wordBits)
    (hlen : ∀ i ∈ insertions, i.2.length = depth)
    (hlt : start.val + offset + insertions.length < modulus)
    (h : insertAll depth start.val offset current insertions = .error error) :
    ∃ label, faultOf error = some label ∧
      (batchFaults depth ["batch"] start offset current insertions).head? = some label := by
  induction insertions generalizing offset current with
  | nil => cases h
  | cons insertion rest ih =>
    obtain ⟨leaf, siblings⟩ := insertion
    obtain ⟨hfirst, hrest⟩ := List.forall_mem_cons.mp hlen
    rw [List.length_cons] at hlt
    have hindex : (start + Scalar.ofNat offset).val = start.val + offset :=
      Scalar.val_add_ofNat (by omega)
    rw [insertAll] at h
    rw [batchFaults, insertionFaults, hindex]
    cases hleaf : insertLeaf depth offset (start.val + offset) current leaf siblings with
    | ok next =>
      obtain ⟨hfits, -, hroot, rfl⟩ := insertLeaf_eq_ok_iff.mp hleaf
      rw [hleaf] at h
      rw [if_pos ((Index.fits_iff_lt hd).mp hfits), if_pos hroot]
      exact ih hrest (by omega) h
    | error e =>
      rw [hleaf] at h
      obtain rfl : e = error := Except.error.inj h
      rcases insertLeaf_eq_error_iff.mp hleaf with
        ⟨hfits, rfl⟩ | ⟨-, hlong, -⟩ | ⟨hfits, -, hroot, rfl⟩
      · have hrange := mt (Index.fits_iff_lt hd).mpr (Bool.eq_false_iff.mp hfits)
        refine ⟨_, rfl, ?_⟩
        rw [if_neg hrange]
        rfl
      · exact absurd (hfirst ▸ hlong) (Nat.lt_asymm hd)
      · refine ⟨_, rfl, ?_⟩
        rw [if_pos ((Index.fits_iff_lt hd).mp hfits), if_neg hroot]
        rfl

end

/-! ## The whole batch -/

section

variable {depth : Nat} {b : Batch} {z : Scalar}

/-- The demands that the circuit of a batch misses with the public input `z`. -/
def missedBy (b : Batch) (depth : Nat) (z : Scalar) : List Label :=
  transitionFaults depth z (Scalar.ofNat b.startIndex.toNat) b.preRoot b.postRoot b.commitments
    b.proofs

/-- No index of the batch runs over the modulus. -/
theorem start_add_lt (hsize : b.commitments.length ≤ maxBatchSize.toNat) :
    (Scalar.ofNat b.startIndex.toNat).val = b.startIndex.toNat ∧
      (Scalar.ofNat b.startIndex.toNat).val + 0 + b.insertions.length < modulus := by
  have hstart : b.startIndex.toNat < 2 ^ 32 := b.startIndex.toNat_lt
  have hmodulus : 2 ^ 32 + 4096 < modulus := by decide
  have hlen := b.length_insertions_le
  have hmax : maxBatchSize.toNat = 4096 := rfl
  have hval : (Scalar.ofNat b.startIndex.toNat).val = b.startIndex.toNat :=
    Scalar.val_ofNat_of_lt (by omega)
  exact ⟨hval, by omega⟩

theorem missedBy_eq_nil_iff (hd : depth < wordBits)
    (hsize : b.commitments.length ≤ maxBatchSize.toNat)
    (hlen : ∀ siblings ∈ b.proofs, siblings.length = depth) :
    missedBy b depth z = [] ↔
      b.inputHash = z ∧
        insertAll depth b.startIndex.toNat 0 b.preRoot b.insertions = .ok b.postRoot := by
  obtain ⟨hval, hlt⟩ := start_add_lt hsize
  rw [missedBy, transitionFaults_eq_nil_iff]
  refine and_congr_right' ?_
  cases hall : insertAll depth b.startIndex.toNat 0 b.preRoot b.insertions with
  | ok last =>
    rw [← hval] at hall
    obtain ⟨hfaults, hlast⟩ := batchFaults_of_ok ["batch"] hd hlt hall
    rw [Except.ok.injEq, ← hlast]
    exact and_iff_right hfaults
  | error error =>
    rw [← hval] at hall
    obtain ⟨label, -, hhead⟩ := batchFaults_of_error hd
      (fun i hi => hlen _ (List.of_mem_zip hi).2) hlt hall
    simp only [reduceCtorEq, iff_false, not_and]
    intro hfaults
    rw [hfaults] at hhead
    cases hhead

/-- The replay succeeds exactly if no demand is missed. -/
theorem exists_replay_iff (hd : depth < wordBits)
    (hsize : b.commitments.length ≤ maxBatchSize.toNat)
    (hlen : ∀ siblings ∈ b.proofs, siblings.length = depth)
    (hz : z = b.claimedHash.getD b.inputHash) :
    (∃ result, b.replay depth = .ok result) ↔ missedBy b depth z = [] := by
  have hclaim : (∀ h ∈ b.claimedHash, h = b.inputHash) ↔ b.inputHash = z := by
    rw [hz]
    cases b.claimedHash with
    | none => simp
    | some h => simp [eq_comm]
  simp only [Batch.replay_eq_ok_iff, missedBy_eq_nil_iff hd hsize hlen, hclaim]
  constructor
  · rintro ⟨_, hall, hhash, -⟩
    exact ⟨hhash, hall⟩
  · rintro ⟨hhash, hall⟩
    exact ⟨_, hall, hhash, rfl⟩

/-- The first demand that is missed is the one that the error of the replay stands for. -/
theorem head?_missedBy (hd : depth < wordBits)
    (hsize : b.commitments.length ≤ maxBatchSize.toNat)
    (hlen : ∀ siblings ∈ b.proofs, siblings.length = depth)
    (hclaim : ∀ h ∈ b.claimedHash, h = b.inputHash) {error : ReplayError}
    (h : b.replay depth = .error error) :
    ∃ label, faultOf error = some label ∧ (missedBy b depth b.inputHash).head? = some label := by
  obtain ⟨hval, hlt⟩ := start_add_lt hsize
  have hhash : (b.preRoot :: b.postRoot :: b.commitments).foldl bindInput
      (Scalar.ofNat b.startIndex.toNat) = b.inputHash := rfl
  rw [missedBy, transitionFaults, if_pos hhash, List.nil_append]
  rcases Batch.replay_eq_error h with hall | ⟨last, hall, hlast, rfl⟩ | ⟨⟨h, hmem, hne⟩, -⟩
  · rw [← hval] at hall
    obtain ⟨label, hlabel, hhead⟩ := batchFaults_of_error hd
      (fun i hi => hlen _ (List.of_mem_zip hi).2) hlt hall
    refine ⟨label, hlabel, ?_⟩
    rw [List.head?_append, hhead]
    rfl
  · rw [← hval] at hall
    obtain ⟨hfaults, rfl⟩ := batchFaults_of_ok ["batch"] hd hlt hall
    refine ⟨_, rfl, ?_⟩
    rw [show b.commitments.zip b.proofs = b.insertions from rfl, hfaults, if_neg hlast]
    rfl
  · exact absurd (hclaim h hmem) hne

/-! ## The first demand that is missed -/

/-- The demands that the honest assignment of a circuit misses, in their order. -/
def honestViolations (steps : List Step) : List Label :=
  violations (honest steps) (honest steps) steps

/-- The honest assignment of a batch that is carried out satisfies its circuit. -/
theorem honest_of_replay (size : Nat) (hd : depth < wordBits) (hsize : size ≤ maxBatchSize.toNat)
    (hb : b.witness.hasShape depth size) {result : Witness × Scalar}
    (h : b.replay depth = .ok result) :
    ∃ built, (circuit depth size b.witness [b.inputHash]).build = .ok built ∧
      honestViolations built.steps = [] := by
  obtain ⟨hc, -, hl⟩ := Witness.hasShape_iff.mp hb
  obtain ⟨hall, -, -⟩ := Batch.replay_eq_ok_iff.mp h
  obtain ⟨built, hbuild, hmissed⟩ := missed_honest
    (Nat.le_of_lt (Nat.lt_trans hd (by decide))) hb b.inputHash
  refine ⟨built, hbuild, ?_⟩
  rw [honestViolations, violations_self, hmissed]
  exact (missedBy_eq_nil_iff hd (hc.trans_le hsize) hl).mpr ⟨rfl, hall⟩

end

/-- The replay goes on exactly as long as the circuit has no demand that the honest assignment
misses. Where the public input is the hash of the batch, its error tells the first one. -/
theorem replay_agrees {s : Shape} (hs : s.validate = .ok ()) {b : Batch}
    (hc : b.commitments.length = s.batchSize.toNat) (hp : b.proofs.length = s.batchSize.toNat)
    (hl : ∀ siblings ∈ b.proofs, siblings.length = s.treeDepth.toNat) :
    let depth := s.treeDepth.toNat
    let z := b.claimedHash.getD b.inputHash
    ∃ built, (circuit depth s.batchSize.toNat b.witness [z]).build = .ok built ∧
      ((∃ result, b.replay depth = .ok result) ↔ honestViolations built.steps = []) ∧
      (z = b.inputHash →
        (∀ i, b.replay depth = .error (.outOfRange i (b.startIndex.toNat + i) depth) ↔
          (honestViolations built.steps).head? =
            some ["recompose_index", "index_bits", s!"insertion_{i}", "batch"]) ∧
        (∀ i, b.replay depth = .error (.staleProof i (b.startIndex.toNat + i)) ↔
          (honestViolations built.steps).head? =
            some ["equal", "empty_path_matches_current_root", s!"insertion_{i}", "batch"]) ∧
        (b.replay depth = .error .postRoot ↔
          (honestViolations built.steps).head? =
            some ["equal", "final_root_matches_post_root"])) := by
  intro depth z
  obtain ⟨⟨-, hdepth⟩, -, hbatch⟩ := Shape.validate_eq_ok_iff.mp hs
  have hd : depth < wordBits := Shape.depth_lt_wordBits hs
  have hsize : b.commitments.length ≤ maxBatchSize.toNat := hc.trans_le hbatch
  have hshape : b.witness.hasShape depth s.batchSize.toNat = true :=
    Witness.hasShape_iff.mpr ⟨hc, hp, hl⟩
  obtain ⟨built, hbuild, hmissed⟩ := missed_honest (hdepth.trans (by decide)) hshape z
  have hviolations : honestViolations built.steps = missedBy b depth z := by
    rw [honestViolations, violations_self]
    exact hmissed
  refine ⟨built, hbuild, ?_, fun hz => ?_⟩
  · rw [hviolations]
    exact exists_replay_iff hd hsize hl rfl
  · have hclaim : ∀ h ∈ b.claimedHash, h = b.inputHash := by
      intro h hmem
      rw [← hz]
      exact (Option.getD_eq_iff.mpr (.inl hmem)).symm
    -- no two errors stand for the same label, so the first label tells the error
    have hfirst : ∀ {error : ReplayError} {label : Label}, error.Names b.startIndex.toNat depth →
        faultOf error = some label →
        (b.replay depth = .error error ↔ (honestViolations built.steps).head? = some label) := by
      intro error label hnames hlabel
      rw [hviolations, hz]
      constructor
      · intro h
        obtain ⟨label', hlabel', hhead⟩ := head?_missedBy hd hsize hl hclaim h
        rw [hhead, ← hlabel', hlabel]
      · intro hhead
        cases h : b.replay depth with
        | ok result =>
          have hnil : missedBy b depth z = [] :=
            (exists_replay_iff hd hsize hl rfl).mp ⟨result, h⟩
          rw [← hz, hnil] at hhead
          cases hhead
        | error error' =>
          obtain ⟨label', hlabel', hhead'⟩ := head?_missedBy hd hsize hl hclaim h
          obtain rfl : label = label' := Option.some.inj (hhead.symm.trans hhead')
          rw [faultOf_inj hnames (Batch.replay_names h) hlabel hlabel']
    exact ⟨fun i => hfirst ⟨rfl, rfl⟩ rfl, fun i => hfirst rfl rfl, hfirst trivial rfl⟩

/-- A batch whose one index is past the end of a tree of depth 1. -/
def pastEnd : Batch := ⟨none, 5, 0, 0, [0], [[0]]⟩

/-- The circuit of that batch first misses that its index has no bits. -/
theorem replay_agrees_pastEnd :
    ∃ built, (circuit 1 1 pastEnd.witness [pastEnd.inputHash]).build = .ok built ∧
      (honestViolations built.steps).head? =
        some ["recompose_index", "index_bits", s!"insertion_{0}", "batch"] := by
  have hz : pastEnd.claimedHash.getD pastEnd.inputHash = pastEnd.inputHash := Option.getD_none
  have hreplay : pastEnd.replay 1 = .error (.outOfRange 0 5 1) := rfl
  obtain ⟨built, hbuild, -, hfirst⟩ := replay_agrees (s := ⟨1, 1⟩) (b := pastEnd) (by decide)
    (by decide) (by decide) (by decide)
  simp only [hz] at hbuild hfirst
  exact ⟨built, hbuild, ((hfirst trivial).1 0).mp hreplay⟩

end MerkleBatch.Circuit
