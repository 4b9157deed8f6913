import MerkleBatch.Proofs.Circuit.Agreement

/-!
# Soundness

Whoever fills the circuit may choose every value. An assignment that satisfies the constraints is
nevertheless the honest one of a batch that the replay carries out: the batch is read off the
variables of the witness, and it leaves no other variable a choice.

* `Layout.Named`: the labels of the variables of a batch.
* `Layout.batch`: the batch that an assignment gives to these variables.
* `satisfies_sound`: what an assignment that satisfies the circuit amounts to.
-/

namespace MerkleBatch.Circuit

namespace Layout

/-- The variables of a batch have these labels in a circuit. -/
structure Named (depth size : Nat) (names : List Label) : Prop where
  publicHash_eq : names[publicHash.number]? = some ["num", "z0"]
  start_eq : names[start.number]? = some ["num", "start_index"]
  preRoot_eq : names[preRoot.number]? = some ["num", "pre_root"]
  postRoot_eq : names[postRoot.number]? = some ["num", "post_root"]
  commitment_eq : ∀ i < size, names[(commitment i).number]? = some ["num", s!"commitment_{i}"]
  sibling_eq : ∀ i < size, ∀ j < depth,
    names[(sibling depth size i j).number]? = some ["num", s!"proof_{i}_sibling_{j}"]

/-- Rows of the same length stand one after another. -/
theorem getElem?_flatMap_range {α : Type} {row : Nat → List α} {depth size i j : Nat}
    (hrow : ∀ i, (row i).length = depth) (hi : i < size) (hj : j < depth) :
    ((List.range size).flatMap row)[i * depth + j]? = (row i)[j]? := by
  have hlength : ∀ n, ((List.range n).flatMap row).length = n * depth := fun n => by
    simp [List.length_flatMap, hrow]
  induction size with
  | zero => exact absurd hi (Nat.not_lt_zero i)
  | succ size ih =>
    rw [List.range_succ, List.flatMap_append, List.flatMap_singleton]
    rcases Nat.lt_succ_iff_lt_or_eq.mp hi with hlt | rfl
    · have hrows : (i + 1) * depth ≤ size * depth := Nat.mul_le_mul_right depth hlt
      rw [Nat.succ_mul] at hrows
      rw [List.getElem?_append_left (by rw [hlength]; omega), ih hlt]
    · rw [List.getElem?_append_right (by rw [hlength]; omega), hlength, Nat.add_sub_cancel_left]

private theorem getElem?_append_add {α : Type} {l t : List α} {n : Nat} (h : l.length = n)
    (i : Nat) : (l ++ t)[n + i]? = t[i]? := by
  rw [List.getElem?_append_right (by omega), h, Nat.add_sub_cancel_left]

theorem named_labels (depth size : Nat) (rest : List Label) :
    Named depth size (labels depth size ++ rest) := by
  have hassoc : labels depth size ++ rest =
      [["num", "z0"], ["num", "start_index"], ["num", "pre_root"], ["num", "post_root"]] ++
        (((List.range size).map fun i => ["num", s!"commitment_{i}"]) ++
          (((List.range size).flatMap fun i =>
            (List.range depth).map fun j => ["num", s!"proof_{i}_sibling_{j}"]) ++ rest)) := by
    simp only [labels, List.append_assoc]
  rw [hassoc]
  refine ⟨rfl, rfl, rfl, rfl, fun i hi => ?_, fun i hi j hj => ?_⟩
  · rw [commitment, getElem?_append_add (n := 4) rfl, List.getElem?_append_left (by simpa using hi),
      List.getElem?_map, List.getElem?_range hi]
    rfl
  · have hrows : (i + 1) * depth ≤ size * depth := Nat.mul_le_mul_right depth hi
    rw [Nat.succ_mul] at hrows
    rw [sibling, Nat.add_assoc, Nat.add_assoc, getElem?_append_add (n := 4) rfl,
      getElem?_append_add (by simp), List.getElem?_append_left (by simp; omega),
      getElem?_flatMap_range (fun i => by simp) hi hj, List.getElem?_map, List.getElem?_range hj]
    rfl

/-- The batch that an assignment gives to the variables of a witness. -/
def batch (depth size : Nat) (ρ : Assignment) : Batch where
  claimedHash := none
  startIndex := UInt32.ofNat (ρ start).val
  preRoot := ρ preRoot
  postRoot := ρ postRoot
  commitments := (commitments size).map ρ
  proofs := (proofs depth size).map fun vs => vs.map ρ

theorem hasShape_batch (depth size : Nat) (ρ : Assignment) :
    (batch depth size ρ).witness.hasShape depth size = true := by
  rw [Witness.hasShape_iff]
  simp [batch, Batch.witness, commitments, proofs, siblings]

theorem toNat_startIndex {depth size : Nat} {ρ : Assignment} (h : (ρ start).val < 2 ^ 32) :
    (batch depth size ρ).startIndex.toNat = (ρ start).val := by
  show (UInt32.ofNat _).toNat = _
  rw [UInt32.toNat_ofNat', Nat.mod_eq_of_lt h]

/-- An assignment has the values of the batch that it gives. -/
theorem reads_batch {depth size : Nat} {ρ : Assignment} (h : (ρ start).val < 2 ^ 32) :
    Reads depth size (batch depth size ρ).witness (ρ publicHash) ρ := by
  refine ⟨rfl, ?_, rfl, rfl, rfl, rfl⟩
  show _ = Scalar.ofNat (batch depth size ρ).startIndex.toUInt64.toNat
  rw [UInt32.toNat_toUInt64, toNat_startIndex h, Scalar.ofNat_val]

end Layout

/-- A circuit is built for witnesses of its shape only. -/
theorem hasShape_of_build {depth size : Nat} {w : Witness} {z : Scalar} {built : Built (List Var)}
    (h : (circuit depth size w [z]).build = .ok built) : w.hasShape depth size = true := by
  by_contra hw
  have hfail : transition depth size w [Layout.publicHash] = Builder.fail .unsatisfiable := by
    rw [transition, if_pos (by simpa using hw)]
  have hz : givenList (fun i => s!"z{i}") 0 [z] [] ⟨0⟩ =
      .ok ⟨[Layout.publicHash], Layout.start, [.alloc ["num", "z0"] fun _ => z]⟩ := rfl
  rw [Builder.build_eq_ok_iff, circuit, Builder.run_bind, hz] at h
  simp only [hfail] at h
  cases h

section

variable {depth size : Nat} {ρ : Assignment}

open Layout

/-- The first insertion bounds the start index. -/
theorem start_lt_of_faults {scope : Label} {start current : Scalar}
    {insertions : List (Scalar × List Scalar)} (hne : insertions ≠ [])
    (h : batchFaults depth scope start 0 current insertions = []) : start.val < 2 ^ depth := by
  obtain ⟨⟨leaf, siblings⟩, rest, rfl⟩ := List.exists_cons_of_ne_nil hne
  rw [batchFaults, List.append_eq_nil_iff, insertionFaults_eq_nil_iff] at h
  have hzero : start + Scalar.ofNat 0 = start := add_zero start
  rw [hzero] at h
  exact h.1.1

/-- An assignment that misses no demand gives a batch that the replay carries out. -/
theorem replay_batch (hd : depth ≤ maxTreeDepth.toNat) (hpos : 0 < size)
    (hsize : size ≤ maxBatchSize.toNat)
    (h : transitionFaults depth (ρ publicHash) (ρ start) (ρ preRoot) (ρ postRoot)
      ((commitments size).map ρ) ((proofs depth size).map fun vs => vs.map ρ) = []) :
    (ρ start).val < 2 ^ 32 ∧
      (batch depth size ρ).replay depth = .ok ((batch depth size ρ).witness, ρ publicHash) := by
  have hlen : (batch depth size ρ).insertions.length = size := by
    simp [Batch.insertions, batch, commitments, proofs]
  have hstart : (ρ start).val < 2 ^ 32 := by
    have hfirst := start_lt_of_faults (List.ne_nil_of_length_pos (hlen.symm ▸ hpos))
      (transitionFaults_eq_nil_iff.mp h).2.1
    exact Nat.lt_of_lt_of_le hfirst (Nat.pow_le_pow_right (by decide) hd)
  have hmissed : missedBy (batch depth size ρ) depth (ρ publicHash) = [] := by
    rw [missedBy, toNat_startIndex hstart, Scalar.ofNat_val]
    exact h
  obtain ⟨hhash, hall⟩ := (missedBy_eq_nil_iff (Nat.lt_of_le_of_lt hd (by decide))
    (by simpa [batch, commitments] using hsize)
    (by simp [batch, proofs, siblings])).mp hmissed
  exact ⟨hstart, Batch.replay_eq_ok_iff.mpr ⟨hall, by simp [batch], by rw [hhash]⟩⟩

/-- The roots between the insertions of the batch. -/
theorem roots_batch {result : Witness × Scalar} (hd : depth ≤ maxTreeDepth.toNat)
    (hstart : (ρ start).val < 2 ^ 32) (h : (batch depth size ρ).replay depth = .ok result) :
    ∃ r : Nat → Scalar, r 0 = ρ preRoot ∧ r size = ρ postRoot ∧ ∀ i < size,
      (ρ start).val + i < 2 ^ depth ∧
        Path.root 0 ((ρ start).val + i) ((siblings depth size i).map ρ) = r i ∧
        Path.root (ρ (commitment i)) ((ρ start).val + i) ((siblings depth size i).map ρ) =
          r (i + 1) := by
  have hlen : (batch depth size ρ).insertions.length = size := by
    simp [Batch.insertions, batch, commitments, proofs]
  obtain ⟨r, hfirst, hlast, hr⟩ := exists_roots (Batch.replay_eq_ok_iff.mp h).1
  rw [toNat_startIndex hstart] at hr
  refine ⟨r, hfirst, hlen ▸ hlast, fun i hi => ?_⟩
  obtain ⟨hfits, hempty, hnext⟩ := hr i (hlen.symm ▸ hi)
  rw [Nat.zero_add, Index.fits_iff_lt (Nat.lt_of_le_of_lt hd (by decide))] at hfits
  simp only [Batch.insertions, batch, commitments, proofs, List.getElem_zip, List.getElem_map,
    List.getElem_range, Nat.zero_add] at hempty hnext
  exact ⟨hfits, hempty, hnext⟩

/-- An assignment that satisfies the circuit is the honest one of the batch that it gives. The
variables of that batch are the labelled ones; its input hash is the public input, its indices are
leaves of the tree, its roots chain from the first to the last, and the replay carries it out. -/
theorem satisfies_sound {s : Shape} (hs : s.validate = .ok ()) {w : Witness} {z : Scalar}
    {built : Built (List Var)}
    (hbuilt : (circuit s.treeDepth.toNat s.batchSize.toNat w [z]).build = .ok built)
    {ρ : Assignment} (hρ : Satisfies ρ built.steps) :
    let depth := s.treeDepth.toNat
    let size := s.batchSize.toNat
    let n := (ρ start).val
    let b := batch depth size ρ
    Named depth size (variableLabels built.steps) ∧
    ρ publicHash =
      MerkleBatch.inputHash (UInt64.ofNat n) (ρ preRoot) (ρ postRoot) ((commitments size).map ρ) ∧
    (∀ i < size, n + i < 2 ^ depth) ∧
    (∃ r : Nat → Scalar, r 0 = ρ preRoot ∧ r size = ρ postRoot ∧ ∀ i < size,
      Path.root? 0 (UInt64.ofNat (n + i)) ((siblings depth size i).map ρ) = .ok (r i) ∧
      Path.root? (ρ (commitment i)) (UInt64.ofNat (n + i)) ((siblings depth size i).map ρ) =
        .ok (r (i + 1))) ∧
    b.replay depth = .ok (b.witness, ρ publicHash) ∧
    ∃ built', (circuit depth size b.witness [ρ publicHash]).build = .ok built' ∧
      variableLabels built'.steps = variableLabels built.steps ∧
      ∀ v : Var, v.number < (variableLabels built.steps).length →
        ρ v = ofValues (honest built'.steps) v := by
  intro depth size n b
  obtain ⟨⟨-, hdepth⟩, hpos, hsize⟩ := Shape.validate_eq_ok_iff.mp hs
  obtain ⟨core, hcore, hmeets, hgiven⟩ := runs_circuit depth size (hdepth.trans (by decide))
  obtain ⟨given, hbuild, hgives⟩ := hgiven w z (hasShape_of_build hbuilt)
  obtain rfl := Except.ok.inj (hbuilt.symm.trans hbuild)
  obtain ⟨hfilled, hfaults⟩ := (hmeets ρ).satisfies_iff.mp (satisfies_append.mp hρ).2
  -- the first index has bits, so that the start index is a word and gives a batch at all
  obtain ⟨hstart, hreplay⟩ := replay_batch hdepth hpos hsize hfaults
  obtain ⟨r, hfirst, hlast, hroots⟩ := roots_batch hdepth hstart hreplay
  have hlabels : ∀ {given : List Step} {w z},
      Gives ⟨0⟩ (last depth size) given (labels depth size) (Reads depth size w z) →
      variableLabels (given ++ core.steps) = labels depth size ++ variableLabels core.steps := by
    intro given w z h
    rw [← h.labels_eq]
    exact List.filterMap_append
  refine ⟨?_, ?_, fun i hi => (hroots i hi).1, ⟨r, hfirst, hlast, fun i hi => ?_⟩, hreplay, ?_⟩
  · rw [hlabels hgives]
    exact named_labels depth size _
  · have hword : (UInt32.ofNat n).toUInt64 = UInt64.ofNat n := by
      rw [← UInt64.toNat_inj, UInt32.toNat_toUInt64, UInt32.toNat_ofNat', UInt64.toNat_ofNat',
        Nat.mod_eq_of_lt hstart, Nat.mod_eq_of_lt (by omega)]
    rw [← hword]
    exact (Prod.ext_iff.mp (Batch.replay_eq_ok_iff.mp hreplay).2.2).2.symm
  · have hword : (UInt64.ofNat (n + i)).toNat = n + i := by
      rw [UInt64.toNat_ofNat', Nat.mod_eq_of_lt]
      omega
    have hlen : ((siblings depth size i).map ρ).length ≤ wordBits := by
      simpa [siblings] using hdepth.trans (by decide)
    obtain ⟨-, hempty, hnext⟩ := hroots i hi
    rw [Path.root?_of_length_le hlen, Path.root?_of_length_le hlen, hword]
    exact ⟨congrArg _ hempty, congrArg _ hnext⟩
  · obtain ⟨given', hbuild', hgives'⟩ := hgiven b.witness (ρ publicHash) (hasShape_batch _ _ ρ)
    have hnumber := hgives'.next_eq
    rw [hnumber] at hfilled
    have hall : Filled ρ 0 (given' ++ core.steps) :=
      filled_append.mpr ⟨(hgives'.filled_iff ρ).mpr (reads_batch hstart), hfilled⟩
    refine ⟨_, hbuild', (hlabels hgives').trans (hlabels hgives).symm, fun v hv => ?_⟩
    rw [hlabels hgives, ← hlabels hgives'] at hv
    exact eq_honest_of_filled (hgives'.toMakes.append hcore).causal hall hv

/-- The honest assignment of two leaves in a tree of depth 2 satisfies their circuit, and gives a
batch again. -/
theorem satisfies_sound_twoLeaves :
    ∃ built ρ, (circuit 2 2 twoLeaves.witness [twoLeaves.inputHash]).build = .ok built ∧
      Satisfies ρ built.steps ∧
      (batch 2 2 ρ).replay 2 = .ok ((batch 2 2 ρ).witness, ρ publicHash) := by
  obtain ⟨built, hbuilt, hnone⟩ := honest_of_replay 2 (by decide) (by decide) (by decide)
    replay_twoLeaves
  have hρ : Satisfies (ofValues (honest built.steps)) built.steps := missed_eq_nil_iff.mp hnone
  have h := satisfies_sound (s := ⟨2, 2⟩) (by decide) hbuilt hρ
  exact ⟨built, _, hbuilt, hρ, h.2.2.2.2.1⟩

end

end MerkleBatch.Circuit
