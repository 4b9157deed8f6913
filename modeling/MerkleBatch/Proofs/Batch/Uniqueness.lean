import MerkleBatch.Batch.Recording
import MerkleBatch.Proofs.Batch.Replay
import MerkleBatch.Proofs.Path

/-!
# The paths of a batch are determined

A client chooses the siblings of every insertion. The start index, the first root and the
commitments nevertheless leave no choice: each insertion has to find an empty leaf under the current
root, so its path is the only one, and with it the next root. All this up to two paths of one
insertion that hash different children to the same value.

* `insertAll_unique`: two runs of the replay with the same leaves from the same root.
* `Batch.accepted_unique`: two accepted batches with the same public part.
-/

namespace MerkleBatch

/-- Insertions of the same leaves under the same root have the same paths and lead to the same root,
or two paths of one of them collide. -/
theorem insertAll_unique {depth start insertion : Nat} {current last last' : Scalar}
    {first second : List (Scalar × List Scalar)}
    (hleaves : first.map Prod.fst = second.map Prod.fst)
    (hlen : ∀ i ∈ first, i.2.length = depth) (hlen' : ∀ i ∈ second, i.2.length = depth)
    (h : insertAll depth start insertion current first = .ok last)
    (h' : insertAll depth start insertion current second = .ok last') :
    (first = second ∧ last = last') ∨
      ∃ k path path', (first.map Prod.snd)[k]? = some path ∧
        (second.map Prod.snd)[k]? = some path' ∧
        Path.Collide (start + insertion + k) 0 0 path path' := by
  induction first generalizing second insertion current with
  | nil =>
    obtain rfl : second = [] := List.map_eq_nil_iff.mp hleaves.symm
    exact .inl ⟨rfl, Except.ok.inj (h.symm.trans h')⟩
  | cons i rest ih =>
    obtain ⟨leaf, path⟩ := i
    obtain ⟨⟨leaf', path'⟩, rest', rfl, hleaf, hrest⟩ := List.map_eq_cons_iff.mp hleaves.symm
    obtain rfl : leaf' = leaf := hleaf
    obtain ⟨hpath, hpaths⟩ := List.forall_mem_cons.mp hlen
    obtain ⟨hpath', hpaths'⟩ := List.forall_mem_cons.mp hlen'
    obtain ⟨⟨-, -, hroot⟩, hnext⟩ := insertAll_cons_eq_ok_iff.mp h
    obtain ⟨⟨-, -, hroot'⟩, hnext'⟩ := insertAll_cons_eq_ok_iff.mp h'
    -- both paths lead from the empty leaf to the current root
    rcases Path.eq_or_collide (hpath.trans hpath'.symm) (hroot.trans hroot'.symm) with
      ⟨-, rfl⟩ | hcollide
    · rcases ih hrest.symm hpaths hpaths' hnext hnext' with ⟨rfl, hlast⟩ | ⟨k, hk⟩
      · exact .inl ⟨rfl, hlast⟩
      · have hindex : start + (insertion + 1) + k = start + insertion + (k + 1) := by omega
        exact .inr ⟨k + 1, hindex ▸ hk⟩
    · exact .inr ⟨0, path, path', rfl, rfl, hcollide⟩

namespace Batch

/-- Two accepted batches of a shape with the same start index, first root and commitments have the
same proofs and the same last root. Otherwise the paths of one insertion, both from the empty leaf,
hash different children to the same value. -/
theorem accepted_unique {s : Shape} {b b' : Batch} (ha : s.accepts b = .ok ())
    (ha' : s.accepts b' = .ok ()) {result result' : Witness × Scalar}
    (hr : b.replay s.treeDepth.toNat = .ok result) (hr' : b'.replay s.treeDepth.toNat = .ok result')
    (hstart : b.startIndex = b'.startIndex) (hroot : b.preRoot = b'.preRoot)
    (hleaves : b.commitments = b'.commitments) :
    (b.proofs = b'.proofs ∧ b.postRoot = b'.postRoot) ∨
      ∃ i < s.batchSize.toNat, ∃ path path', b.proofs[i]? = some path ∧
        b'.proofs[i]? = some path' ∧
        Path.Collide (b.startIndex.toNat + i) 0 0 path path' := by
  obtain ⟨hc, hp, hl, -⟩ := Shape.accepts_eq_ok_iff.mp ha
  obtain ⟨hc', hp', hl', -⟩ := Shape.accepts_eq_ok_iff.mp ha'
  have hall := (replay_eq_ok_iff.mp hr).1
  have hall' := (replay_eq_ok_iff.mp hr').1
  rw [← hstart, ← hroot] at hall'
  have hcount := hc.trans hp.symm
  have hcount' := hc'.trans hp'.symm
  have hsame : b.insertions.map Prod.fst = b'.insertions.map Prod.fst := by
    rw [map_fst_insertions hcount, map_fst_insertions hcount', hleaves]
  rcases insertAll_unique hsame (fun i hi => hl _ (List.of_mem_zip hi).2)
    (fun i hi => hl' _ (List.of_mem_zip hi).2) hall hall' with
    ⟨hinsertions, hlast⟩ | ⟨i, path, path', hpath, hpath', hcollide⟩
  · refine .inl ⟨?_, hlast⟩
    rw [← map_snd_insertions hcount, ← map_snd_insertions hcount', hinsertions]
  · rw [map_snd_insertions hcount] at hpath
    rw [map_snd_insertions hcount'] at hpath'
    have hi : i < b.proofs.length := (List.getElem?_eq_some_iff.mp hpath).1
    exact .inr ⟨i, hp ▸ hi, path, path', hpath, hpath', hcollide⟩

/-- The same insertions with and without their input hash: the proofs are the same, or collide. -/
theorem accepted_unique_twoLeaves :
    (Shape.accepts ⟨2, 2⟩ twoLeaves = .ok () ∧
      Shape.accepts ⟨2, 2⟩ twoLeaves.withInputHash = .ok ()) ∧
    (twoLeaves.replay 2 = .ok (twoLeaves.witness, twoLeaves.inputHash) ∧
      twoLeaves.withInputHash.replay 2 = .ok (twoLeaves.witness, twoLeaves.inputHash)) ∧
    ((twoLeaves.proofs = twoLeaves.withInputHash.proofs ∧
        twoLeaves.postRoot = twoLeaves.withInputHash.postRoot) ∨
      ∃ i < 2, ∃ path path', twoLeaves.proofs[i]? = some path ∧
        twoLeaves.withInputHash.proofs[i]? = some path' ∧ Path.Collide (1 + i) 0 0 path path') := by
  have hr : twoLeaves.withInputHash.replay 2 = .ok (twoLeaves.witness, twoLeaves.inputHash) := by
    refine replay_eq_ok_iff.mpr ⟨(replay_eq_ok_iff.mp replay_twoLeaves).1, ?_, rfl⟩
    rintro h ⟨⟩
    rfl
  exact ⟨⟨rfl, rfl⟩, ⟨replay_twoLeaves, hr⟩,
    accepted_unique (s := ⟨2, 2⟩) rfl rfl replay_twoLeaves hr rfl rfl rfl⟩

end Batch

end MerkleBatch
