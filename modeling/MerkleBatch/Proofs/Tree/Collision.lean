import MerkleBatch.Proofs.Batch.Replay
import MerkleBatch.Proofs.Tree.Dense

/-!
# Collisions

The replay sees roots and siblings only. Where such a path ends in the root of a tree, it follows
that tree from the root down, as long as no node of the tree and no step of the path hash different
children to the same value.

* `Dense.Collides`: a path and a tree hash different children to the same value.
* `eq_siblings_or_collides`: a path to the root of a tree is one of the tree, or collides.
* `insertAll_overwrites`: insertions write leaves into the tree, or one of them collides.
-/

namespace MerkleBatch

namespace Dense

open SparseTree (beside)

/-- At some level the path from `current` hashes other children than the tree has there, to the
same value. -/
def Collides (leaves : Nat → Scalar) (level : Nat) (current : Scalar) (position : Nat)
    (path : List Scalar) : Prop :=
  ∃ step pair, (Path.pairs current position path)[step]? = some pair ∧
    pair ≠ children leaves (level + step) (position / 2 ^ (step + 1)) ∧
    hashNode pair.1 pair.2 =
      hashNode (children leaves (level + step) (position / 2 ^ (step + 1))).1
        (children leaves (level + step) (position / 2 ^ (step + 1))).2

variable {leaves : Nat → Scalar} {level position : Nat} {current : Scalar} {path : List Scalar}

/-- The path of the tree hashes the children that the tree has. -/
theorem eq_children_of_pairs {count step : Nat} {pair : Scalar × Scalar}
    (h : (Path.pairs (node leaves level position) position
      (siblings leaves level position count))[step]? = some pair) :
    pair = children leaves (level + step) (position / 2 ^ (step + 1)) := by
  induction count generalizing level position step with
  | zero => cases h
  | succ count ih =>
    rw [siblings, Path.pairs, parent_node, pair_eq_children] at h
    cases step with
    | zero => exact (Option.some.inj h).symm
    | succ step =>
      have hlevel : level + 1 + step = level + (step + 1) := by omega
      have habove := ih h
      rwa [hlevel, Index.div_two_div_two_pow] at habove

/-- A path to a node of the tree is the one of the tree, or collides with it. -/
theorem eq_siblings_or_collides
    (h : Path.root current position path =
      node leaves (level + path.length) (position / 2 ^ path.length)) :
    (current = node leaves level position ∧ path = siblings leaves level position path.length) ∨
      Collides leaves level current position path := by
  rw [← root_siblings] at h
  rcases Path.eq_or_collide length_siblings.symm h with hsame | hcollide
  · exact .inl hsame
  · obtain ⟨step, pair, pair', hpair, hpair', hne, heq⟩ := hcollide
    obtain rfl := eq_children_of_pairs hpair'
    exact .inr ⟨step, pair, hpair, hne, heq⟩

/-! ## Insertions -/

/-- A path from an empty leaf to the root of a tree leads from another leaf to the root of the tree
in which that one is written, or collides. -/
theorem insertLeaf_writes {depth index : Nat} {leaf : Scalar} (hlen : path.length = depth)
    (hindex : index < 2 ^ depth) (h : Path.root 0 index path = root depth leaves) :
    (leaves index = 0 ∧
        Path.root leaf index path = root depth (Function.update leaves index leaf)) ∨
      Collides leaves 0 0 index path := by
  have htop : index / 2 ^ depth = 0 := Nat.div_eq_of_lt hindex
  have hnode : Path.root 0 index path =
      node leaves (0 + path.length) (index / 2 ^ path.length) := by
    rw [h, hlen, htop, Nat.zero_add, root]
  rcases eq_siblings_or_collides hnode with ⟨hleaf, hpath⟩ | hcollides
  · refine .inl ⟨hleaf.symm, ?_⟩
    rw [hpath, hlen, root_siblings_write hindex]
  · exact .inr hcollides

theorem insertAll_overwrites {depth start insertion : Nat} {last : Scalar}
    {insertions : List (Scalar × List Scalar)} (hd : depth < wordBits)
    (hlen : ∀ i ∈ insertions, i.2.length = depth)
    (h : insertAll depth start insertion (root depth leaves) insertions = .ok last) :
    ((∀ k < insertions.length, leaves (start + insertion + k) = 0) ∧
        last = root depth (overwrite leaves (start + insertion) (insertions.map Prod.fst))) ∨
      ∃ k, ∃ hk : k < insertions.length,
        Collides (overwrite leaves (start + insertion) ((insertions.map Prod.fst).take k)) 0 0
          (start + insertion + k) insertions[k].2 := by
  induction insertions generalizing insertion leaves with
  | nil =>
    refine .inl ⟨fun k hk => absurd hk (Nat.not_lt_zero k), ?_⟩
    rw [List.map_nil, overwrite_nil]
    exact (Except.ok.inj h).symm
  | cons first rest ih =>
    obtain ⟨leaf, path⟩ := first
    obtain ⟨hpath, hrest⟩ := List.forall_mem_cons.mp hlen
    obtain ⟨⟨hfits, -, hroot⟩, hnext⟩ := insertAll_cons_eq_ok_iff.mp h
    rcases insertLeaf_writes hpath ((Index.fits_iff_lt hd).mp hfits) hroot with
      ⟨hzero, hwritten⟩ | hcollides
    · rw [hwritten] at hnext
      have hindex : ∀ k, start + (insertion + 1) + k = start + insertion + (k + 1) := by omega
      rcases ih hrest hnext with ⟨hzeros, hlast⟩ | ⟨k, hk, hcollides⟩
      · refine .inl ⟨fun k hk => ?_, ?_⟩
        · cases k with
          | zero => exact hzero
          | succ k =>
            have hk := hzeros k (Nat.lt_of_succ_lt_succ hk)
            rwa [hindex, Function.update_of_ne (by omega)] at hk
        · rw [hlast, List.map_cons, overwrite_cons]
          rfl
      · refine .inr ⟨k + 1, Nat.succ_lt_succ hk, ?_⟩
        rw [List.map_cons, List.take_succ_cons, overwrite_cons]
        exact hindex k ▸ hcollides
    · exact .inr ⟨0, Nat.succ_pos _, by rwa [List.take_zero, overwrite_nil]⟩

/-- An accepted batch writes its commitments to empty leaves of any tree with its first root, and
its last root is the one of the tree with these leaves, all others unchanged. Otherwise an insertion
and the tree before it hash different children to the same value. -/
theorem accepted_overwrites {s : Shape} (hs : s.validate = .ok ()) {b : Batch}
    (ha : s.accepts b = .ok ()) {result : Witness × Scalar}
    (hr : b.replay s.treeDepth.toNat = .ok result)
    (hroot : root s.treeDepth.toNat leaves = b.preRoot) :
    let start := b.startIndex.toNat
    ((∀ i < s.batchSize.toNat, leaves (start + i) = 0) ∧
        b.postRoot = root s.treeDepth.toNat (overwrite leaves start b.commitments)) ∨
      ∃ k < s.batchSize.toNat, ∃ path, b.proofs[k]? = some path ∧
        Collides (overwrite leaves start (b.commitments.take k)) 0 0 (start + k) path := by
  intro start
  obtain ⟨hc, hp, hl, -⟩ := Shape.accepts_eq_ok_iff.mp ha
  have hfst : b.insertions.map Prod.fst = b.commitments :=
    List.map_fst_zip (Nat.le_of_eq (hc.trans hp.symm))
  have hlen : b.insertions.length = s.batchSize.toNat := by
    rw [← hc, ← hfst, List.length_map]
  have hpaths : ∀ i ∈ b.insertions, i.2.length = s.treeDepth.toNat :=
    fun i hi => hl _ (List.of_mem_zip hi).2
  have hall := (Batch.replay_eq_ok_iff.mp hr).1
  rw [← hroot] at hall
  have h := insertAll_overwrites (Shape.depth_lt_wordBits hs) hpaths hall
  rw [hfst, Nat.add_zero] at h
  rcases h with ⟨hzeros, hlast⟩ | ⟨k, hk, hcollides⟩
  · exact .inl ⟨fun i hi => hzeros i (hlen ▸ hi), hlast⟩
  · refine .inr ⟨k, hlen ▸ hk, _, ?_, hcollides⟩
    have hkp : k < b.proofs.length := by omega
    rw [List.getElem?_eq_getElem hkp]
    simp [Batch.insertions]

/-- Two leaves are written to the middle of an empty tree, or one of their paths collides with the
tree before it. -/
theorem accepted_overwrites_twoLeaves :
    (Shape.validate ⟨2, 2⟩ = .ok () ∧ Shape.accepts ⟨2, 2⟩ twoLeaves = .ok () ∧
      root 2 (fun _ => 0) = twoLeaves.preRoot) ∧
    ((∀ i < 2, (fun _ => 0 : Nat → Scalar) (1 + i) = 0) ∧
        twoLeaves.postRoot = root 2 (overwrite (fun _ => 0) 1 [7, 8]) ∨
      ∃ k < 2, ∃ path, twoLeaves.proofs[k]? = some path ∧
        Collides (overwrite (fun _ => 0) 1 ([7, 8].take k)) 0 0 (1 + k) path) := by
  have hs : Shape.validate ⟨2, 2⟩ = .ok () := rfl
  have ha : Shape.accepts ⟨2, 2⟩ twoLeaves = .ok () := rfl
  have hroot : root 2 (fun _ => 0) = twoLeaves.preRoot := by
    simp only [root, node, twoLeaves]
  exact ⟨⟨hs, ha, hroot⟩, accepted_overwrites hs ha replay_twoLeaves hroot⟩

end Dense

end MerkleBatch
