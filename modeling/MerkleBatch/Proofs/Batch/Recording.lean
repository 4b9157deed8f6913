import MerkleBatch.Batch.Recording
import MerkleBatch.Proofs.Batch.Admission
import MerkleBatch.Proofs.Batch.Json
import MerkleBatch.Proofs.Circuit.Agreement
import MerkleBatch.Proofs.Tree.Refinement

/-!
# Recorded batches pass

A batch that is recorded from a tree with room for it passes every check before the backend.

* `Represents.insertLeaf`: a written leaf is one step of the replay, from the root before to the
  root after.
* `Represents.insertAll`: so are all leaves of a batch, whose siblings change from write to write.
* `Batch.Records`: what a batch that is recorded from a tree consists of.
* `Batch.Passes`: what is checked of a batch before the backend proves it.
* `Batch.ofTree_passes`: from a tree with room for it a batch is recorded, and it passes, whatever
  was written to the tree before.
-/

namespace MerkleBatch

namespace SparseTree

variable {t : SparseTree} {leaves : Nat → Scalar} {index start insertion : Nat}

/-- Writing an empty leaf yields siblings that lead from zero to the root before, and from the new
leaf to the root after. -/
theorem Represents.insertLeaf (h : t.Represents leaves) (hd : t.depth < wordBits)
    (hindex : index < 2 ^ t.depth) (hempty : leaves index = 0) (leaf : Scalar) (insertion : Nat) :
    ∃ siblings after, t.update (UInt64.ofNat index) leaf = .ok (siblings, after) ∧
      after.depth = t.depth ∧ after.Represents (Function.update leaves index leaf) ∧
      siblings.length = t.depth ∧
      MerkleBatch.insertLeaf t.depth insertion index t.root leaf siblings = .ok after.root := by
  have hword : (UInt64.ofNat index).toNat = index :=
    UInt64.toNat_ofNat_of_lt' (hindex.trans (Nat.pow_lt_pow_right (by decide) hd))
  obtain ⟨after, hupdate, hdepth, hafter⟩ :=
    h.update leaf (show (UInt64.ofNat index).toNat < 2 ^ t.depth by rwa [hword])
  rw [hword] at hupdate hafter
  have hroot : Path.root 0 index (Dense.siblings leaves 0 index t.depth) = t.root := by
    rw [← hempty, Dense.root_siblings_leaf hindex, h.root_eq]
  refine ⟨_, after, hupdate, hdepth, hafter, Dense.length_siblings, ?_⟩
  refine insertLeaf_eq_ok_iff.mpr ⟨(Index.fits_iff_lt hd).mpr hindex, ?_, hroot, ?_⟩
  · rw [Dense.length_siblings]
    exact t.depth_le
  · rw [Dense.root_siblings_write hindex, hafter.root_eq, hdepth]

/-- Writing empty leaves in a row yields the paths with which the same leaves are inserted under the
root before, one after another, up to the root after. -/
theorem Represents.insertAll {written : List Scalar} (h : t.Represents leaves)
    (hd : t.depth < wordBits) (hroom : start + insertion + written.length ≤ 2 ^ t.depth)
    (hempty : ∀ i < written.length, leaves (start + insertion + i) = 0) :
    ∃ proofs after, t.insertAll (start + insertion) written = .ok (proofs, after) ∧
      proofs.length = written.length ∧ (∀ siblings ∈ proofs, siblings.length = t.depth) ∧
      MerkleBatch.insertAll t.depth start insertion t.root (written.zip proofs) =
        .ok after.root := by
  induction written generalizing t leaves insertion with
  | nil => exact ⟨[], t, rfl, rfl, by simp, rfl⟩
  | cons leaf rest ih =>
    rw [List.length_cons] at hroom hempty
    obtain ⟨siblings, next, hupdate, hdepth, hnext, hlen, hleaf⟩ :=
      h.insertLeaf hd (show start + insertion < 2 ^ t.depth by omega) (hempty 0 (Nat.succ_pos _))
        leaf insertion
    -- the leaves behind the written one are as they were
    have hrest : ∀ i < rest.length,
        Function.update leaves (start + insertion) leaf (start + (insertion + 1) + i) = 0 := by
      intro i hi
      have hbehind := hempty (i + 1) (Nat.succ_lt_succ hi)
      rw [show start + insertion + (i + 1) = start + (insertion + 1) + i by omega] at hbehind
      rw [Function.update_of_ne (by omega), hbehind]
    obtain ⟨proofs, after, hall, hcount, hproofs, hreplay⟩ :=
      ih hnext (hdepth ▸ hd) (by rw [hdepth]; omega) hrest
    rw [hdepth] at hproofs hreplay
    refine ⟨siblings :: proofs, after, ?_, by simp [hcount], ?_, ?_⟩
    · rw [SparseTree.insertAll, hupdate]
      simp only [Nat.add_assoc start insertion 1, hall]
    · exact List.forall_mem_cons.mpr ⟨hlen, hproofs⟩
    · rw [List.zip_cons_cons, MerkleBatch.insertAll, hleaf]
      exact hreplay

/-- The writes of leaves at consecutive indices. -/
def writesFrom (index : Nat) : List Scalar → List (UInt64 × Scalar)
  | [] => []
  | leaf :: rest => (UInt64.ofNat index, leaf) :: writesFrom (index + 1) rest

/-- What writing leaves in a row yields: the tree after all writes, and for each leaf the siblings
that its own write yields in the tree after the writes before it. -/
theorem of_insertAll {after : SparseTree} {written : List Scalar} {proofs : List (List Scalar)}
    (h : t.insertAll index written = .ok (proofs, after)) :
    after = t.writeAll (writesFrom index written) ∧ proofs.length = written.length ∧
      ∀ i leaf, written[i]? = some leaf → ∃ siblings, proofs[i]? = some siblings ∧
        (t.writeAll ((writesFrom index written).take i)).update (UInt64.ofNat (index + i)) leaf =
          .ok (siblings, t.writeAll ((writesFrom index written).take (i + 1))) := by
  induction written generalizing t index proofs with
  | nil =>
    cases h
    exact ⟨rfl, rfl, fun i leaf hi => by simp at hi⟩
  | cons first rest ih =>
    rw [SparseTree.insertAll] at h
    rcases hupdate : t.update (UInt64.ofNat index) first with _ | ⟨siblings, next⟩ <;>
      simp only [hupdate, reduceCtorEq] at h
    rcases hrest : next.insertAll (index + 1) rest with _ | ⟨others, last⟩ <;>
      simp only [hrest, reduceCtorEq] at h
    cases h
    obtain ⟨hafter, hcount, heach⟩ := ih hrest
    refine ⟨?_, by simp [hcount], fun i leaf hi => ?_⟩
    · rw [writesFrom, writeAll_cons_of_update hupdate, hafter]
    · cases i with
      | zero =>
        cases hi
        refine ⟨siblings, rfl, ?_⟩
        rw [writesFrom, List.take_succ_cons, writeAll_cons_of_update hupdate]
        exact hupdate
      | succ i =>
        obtain ⟨path, hpath, hwrite⟩ := heach i leaf hi
        refine ⟨path, hpath, ?_⟩
        rw [show index + (i + 1) = index + 1 + i by omega, writesFrom, List.take_succ_cons,
          List.take_succ_cons, writeAll_cons_of_update hupdate, writeAll_cons_of_update hupdate]
        exact hwrite

end SparseTree

namespace Batch

open Circuit (circuit honestViolations)
open SparseTree (writesFrom)

/-- What is recorded of leaves that are inserted into a tree from an index on: the leaves, the roots
before and after, and the siblings that each write yields in the tree after the writes before. -/
structure Records (t : SparseTree) (start : UInt32) (leaves : List Scalar) (b : Batch) : Prop where
  startIndex : b.startIndex = start
  commitments : b.commitments = leaves
  preRoot : b.preRoot = t.root
  postRoot : b.postRoot = (t.writeAll (writesFrom start.toNat leaves)).root
  length_proofs : b.proofs.length = leaves.length
  proofs : ∀ i leaf, leaves[i]? = some leaf → ∃ siblings, b.proofs[i]? = some siblings ∧
    (t.writeAll ((writesFrom start.toNat leaves).take i)).update (UInt64.ofNat (start.toNat + i))
      leaf = .ok (siblings, t.writeAll ((writesFrom start.toNat leaves).take (i + 1)))

theorem records_of_insertAll {t after : SparseTree} {start : UInt32} {leaves : List Scalar}
    {proofs : List (List Scalar)} (h : t.insertAll start.toNat leaves = .ok (proofs, after))
    (claimedHash : Option Scalar) :
    Records t start leaves ⟨claimedHash, start, t.root, after.root, leaves, proofs⟩ := by
  obtain ⟨rfl, hcount, heach⟩ := SparseTree.of_insertAll h
  exact ⟨rfl, rfl, rfl, rfl, hcount, heach⟩

/-- Every check of a batch before the backend: its shape, its replay, the shape of the witness, and
the demands of the circuit that is filled with it. -/
structure Passes (s : Shape) (b : Batch) : Prop where
  accepts : s.accepts b = .ok ()
  replay : ∃ w z, b.replay s.treeDepth.toNat = .ok (w, z) ∧
    w.hasShape s.treeDepth.toNat s.batchSize.toNat = true ∧
    ∃ built, (circuit s.treeDepth.toNat s.batchSize.toNat w [z]).build = .ok built ∧
      honestViolations built.steps = []

/-- A batch of a shape passes if its insertions are replayed. -/
theorem passes_of_insertAll {s : Shape} (hs : s.validate = .ok ()) {b : Batch}
    (haccepts : s.accepts b = .ok ())
    (hall : insertAll s.treeDepth.toNat b.startIndex.toNat 0 b.preRoot b.insertions =
      .ok b.postRoot)
    (hclaimed : ∀ h ∈ b.claimedHash, h = b.inputHash) : b.Passes s := by
  obtain ⟨-, -, hsize⟩ := Shape.validate_eq_ok_iff.mp hs
  have hshape := Shape.hasShape_witness haccepts
  have hreplay : b.replay s.treeDepth.toNat = .ok (b.witness, b.inputHash) :=
    replay_eq_ok_iff.mpr ⟨hall, hclaimed, rfl⟩
  have hd := Shape.depth_lt_wordBits hs
  exact ⟨haccepts, b.witness, b.inputHash, hreplay, hshape,
    Circuit.honest_of_replay _ hd hsize hshape hreplay⟩

/-- Leaves are recorded where a tree is still empty, whatever its past. The batch holds the leaves,
the roots before and after, and the siblings of each write. It passes and survives being sent as
text, whether it names its input hash or not. -/
theorem ofTree_passes {s : Shape} (hs : s.validate = .ok ()) {empty : SparseTree}
    (hempty : SparseTree.empty? s.treeDepth.toNat = .ok empty)
    (writes : List (UInt64 × Scalar)) {start : UInt32} {leaves : List Scalar}
    (hlen : leaves.length = s.batchSize.toNat)
    (hroom : start.toNat + s.batchSize.toNat ≤ 2 ^ s.treeDepth.toNat)
    (hfree : ∀ i < s.batchSize.toNat, (empty.writeAll writes).node 0 (start.toNat + i) = 0) :
    ∃ recorded, ofTree (empty.writeAll writes) start leaves = .ok recorded ∧
      recorded.claimedHash = none ∧
      recorded.withInputHash.claimedHash = some recorded.inputHash ∧
      ∀ b ∈ [recorded, recorded.withInputHash],
        Records (empty.writeAll writes) start leaves b ∧ b.Passes s ∧ ofJson? b.toJson = .ok b := by
  obtain ⟨-, hpos, -⟩ := Shape.validate_eq_ok_iff.mp hs
  obtain ⟨hsame, hzero⟩ := SparseTree.represents_empty hempty
  obtain ⟨hkept, htree⟩ := hzero.writeAll writes
  have ht : (empty.writeAll writes).depth = s.treeDepth.toNat := hkept.trans hsame
  generalize empty.writeAll writes = t at hfree htree ht ⊢
  generalize SparseTree.writtenLeaves empty.depth (fun _ => 0) writes = before at htree
  have hd := Shape.depth_lt_wordBits hs
  have hfits : start.toNat + 0 + leaves.length ≤ 2 ^ t.depth := by
    rwa [ht, hlen]
  have hzeros : ∀ i < leaves.length, before (start.toNat + 0 + i) = 0 := by
    intro i hi
    rw [← htree.leaf_eq]
    exact hfree i (hlen ▸ hi)
  obtain ⟨proofs, after, hrecord, hcount, hproofs, hall⟩ :=
    htree.insertAll (by rwa [ht]) hfits hzeros
  rw [Nat.add_zero] at hrecord
  rw [ht] at hproofs hall
  have haccepts : s.accepts ⟨none, start, t.root, after.root, leaves, proofs⟩ = .ok () :=
    Shape.accepts_eq_ok_iff.mpr
      ⟨hlen, hcount.trans hlen, hproofs, (Index.fits_iff_lt hd).mpr (by dsimp only; omega)⟩
  refine ⟨⟨none, start, t.root, after.root, leaves, proofs⟩, ?_, rfl, rfl, ?_⟩
  · rw [ofTree, hrecord]
  · simp only [List.forall_mem_cons, List.not_mem_nil, false_implies, implies_true, and_true]
    refine ⟨⟨records_of_insertAll hrecord _, ?_, ofJson?_toJson _⟩,
      ⟨records_of_insertAll hrecord _, ?_, ofJson?_toJson _⟩⟩
    · exact passes_of_insertAll hs haccepts hall (by simp)
    · refine passes_of_insertAll hs haccepts hall ?_
      rintro h ⟨⟩
      rfl

/-- A leaf that was cleared again is free for a batch, in which a commitment may be zero. The second
leaf is recorded with its siblings in the tree that has the first. -/
theorem ofTree_passes_cleared :
    ∃ empty recorded first second,
      let t := empty.writeAll [(1, 5), (3, 9), (1, 0)]
      SparseTree.empty? 2 = .ok empty ∧ ofTree t 1 [7, 0] = .ok recorded ∧
      recorded.startIndex = 1 ∧ recorded.commitments = [7, 0] ∧ recorded.preRoot = t.root ∧
      recorded.postRoot = (t.writeAll [(1, 7), (2, 0)]).root ∧ recorded.proofs = [first, second] ∧
      t.update 1 7 = .ok (first, t.writeAll [(1, 7)]) ∧
      (t.writeAll [(1, 7)]).update 2 0 = .ok (second, t.writeAll [(1, 7), (2, 0)]) ∧
      recorded.Passes ⟨2, 2⟩ ∧ recorded.withInputHash.Passes ⟨2, 2⟩ ∧
      ofJson? recorded.withInputHash.toJson = .ok recorded.withInputHash := by
  obtain ⟨empty, hempty⟩ : ∃ t, SparseTree.empty? 2 = .ok t := ⟨_, dif_pos (by decide)⟩
  obtain ⟨hdepth, hzero⟩ := SparseTree.represents_empty hempty
  have htree := (hzero.writeAll [(1, 5), (3, 9), (1, 0)]).2
  rw [hdepth] at htree
  have hfree : ∀ i < 2, (empty.writeAll [(1, 5), (3, 9), (1, 0)]).node 0 (1 + i) = 0 := by
    intro i hi
    rw [htree.leaf_eq]
    rcases (by omega : i = 0 ∨ i = 1) with rfl | rfl <;> rfl
  have hcount : ([7, 0] : List Scalar).length = 2 := rfl
  have hroom : (1 : UInt32).toNat + 2 ≤ 2 ^ 2 := by decide
  obtain ⟨recorded, hrecorded, -, -, hboth⟩ :=
    ofTree_passes (s := ⟨2, 2⟩) rfl hempty [(1, 5), (3, 9), (1, 0)] hcount hroom hfree
  obtain ⟨hrecords, hpasses, -⟩ := hboth recorded (by simp)
  obtain ⟨-, hpassesHash, htext⟩ := hboth recorded.withInputHash (by simp)
  obtain ⟨first, hfirst, hwriteFirst⟩ := hrecords.proofs 0 7 rfl
  obtain ⟨second, hsecond, hwriteSecond⟩ := hrecords.proofs 1 0 rfl
  obtain ⟨p, q, hproofs⟩ := List.length_eq_two.mp hrecords.length_proofs
  rw [hproofs] at hfirst hsecond
  cases hfirst
  cases hsecond
  exact ⟨empty, recorded, _, _, hempty, hrecorded, hrecords.startIndex, hrecords.commitments,
    hrecords.preRoot, hrecords.postRoot, hproofs, hwriteFirst, hwriteSecond, hpasses, hpassesHash,
    htext⟩

end Batch

end MerkleBatch
