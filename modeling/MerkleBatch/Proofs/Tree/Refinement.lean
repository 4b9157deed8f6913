import MerkleBatch.Proofs.Tree.Dense

/-!
# Sparse trees are dense trees

A sparse tree stores only the nodes that differ from those of empty subtrees, and each write changes
only the nodes above a leaf. Its nodes are nevertheless those of the dense tree over its leaves.

* `getElem?_setNode`, `node_setNode`: the one entry and the one node that a store changes.
* `Represents`: the nodes of a sparse tree are those of the dense one over some leaves.
* `represents_empty`, `Represents.update`: the empty tree, and what writing a leaf preserves;
  `set_eq_error`: a write that fails.
* `writeAll`, `Represents.writeAll`: a tree after any writes, and its leaves.
* `lastWritten`, `represents_writeAll`: those leaves are the ones written last.
* `refines_dense`: all that can be read from the tree is what the dense one has.
-/

namespace MerkleBatch.SparseTree

variable {t : SparseTree} {level position : Nat} {value : Scalar}

/-! ## Storing nodes -/

@[simp]
theorem depth_setNode : (t.setNode level position value).depth = t.depth := by
  rw [setNode]
  split <;> rfl

@[simp]
theorem zero_setNode (l : Nat) : (t.setNode level position value).zero l = t.zero l := by
  rw [setNode]
  split <;> rfl

/-- A store changes one entry, whether the value is stored or stands for an empty subtree. -/
theorem getElem?_setNode (l p : Nat) :
    (t.setNode level position value).nodes[(l, p)]? =
      if (level, position) = (l, p) then (if value = t.zero level then none else some value)
      else t.nodes[(l, p)]? := by
  unfold setNode
  by_cases hzero : value = t.zero level
  · simp [hzero, Std.HashMap.getElem?_erase]
  · simp [hzero, Std.HashMap.getElem?_insert]

theorem node_eq (t : SparseTree) (level position : Nat) :
    t.node level position = (t.nodes[(level, position)]?).getD (t.zero level) :=
  Std.HashMap.getD_eq_getD_getElem?

/-- So it changes one node. -/
theorem node_setNode (l p : Nat) :
    (t.setNode level position value).node l p =
      if (level, position) = (l, p) then value else t.node l p := by
  rw [node_eq, zero_setNode, getElem?_setNode, node_eq]
  by_cases hkey : (level, position) = (l, p)
  · obtain ⟨rfl, rfl⟩ := Prod.mk.inj hkey
    rw [if_pos rfl, if_pos rfl]
    by_cases hzero : value = t.zero level
    · rw [if_pos hzero, Option.getD_none, hzero]
    · rw [if_neg hzero, Option.getD_some]
  · rw [if_neg hkey, if_neg hkey]

theorem node_setNode_self : (t.setNode level position value).node level position = value := by
  rw [node_setNode, if_pos rfl]

theorem node_setNode_of_ne {l p : Nat} (h : (level, position) ≠ (l, p)) :
    (t.setNode level position value).node l p = t.node l p := by
  rw [node_setNode, if_neg h]

@[simp]
theorem depth_write (path : List Scalar) : (t.write level position value path).depth = t.depth := by
  induction path generalizing t level position value with
  | nil => exact depth_setNode
  | cons sibling rest ih => rw [write, ih, depth_setNode]

/-! ## Representation -/

/-- The nodes of the tree are those of the dense tree over these leaves. -/
def Represents (t : SparseTree) (leaves : Nat → Scalar) : Prop :=
  ∀ level ≤ t.depth, ∀ position, t.node level position = Dense.node leaves level position

variable {leaves : Nat → Scalar} {index : Nat} {leaf : Scalar}

theorem Represents.root_eq (h : t.Represents leaves) : t.root = Dense.root t.depth leaves :=
  h t.depth (Nat.le_refl _) 0

theorem Represents.leaf_eq (h : t.Represents leaves) (position : Nat) :
    t.node 0 position = leaves position := h 0 (Nat.zero_le _) position

/-- The siblings of a path are those in the dense tree. -/
theorem Represents.siblings_eq (h : t.Represents leaves) {count : Nat}
    (hcount : level + count ≤ t.depth) :
    t.siblings level position count = Dense.siblings leaves level position count := by
  induction count generalizing level position with
  | zero => rfl
  | succ count ih =>
    rw [siblings, Dense.siblings, h level (by omega), ih (by omega)]

theorem node_dense_zero (level position : Nat) :
    Dense.node (fun _ => 0) level position = emptyHash level := by
  induction level generalizing position with
  | zero => rfl
  | succ level ih => rw [Dense.node, ih, ih, emptyHash, hashTwin]

theorem zero_eq_emptyHash (h : level ≤ t.depth) : t.zero level = emptyHash level := by
  simp [zero, t.zeros_eq, Array.getD_eq_getD_getElem?, getElem?_emptyHashes h]

theorem exists_empty {depth : Nat} (hd : depth ≤ wordBits) : ∃ t, empty? depth = .ok t :=
  ⟨_, dif_pos hd⟩

/-- The tree without stored nodes has no leaf but zero. -/
theorem represents_empty {depth : Nat} (h : empty? depth = .ok t) :
    t.depth = depth ∧ t.Represents fun _ => 0 := by
  rw [empty?] at h
  split at h
  · cases h
    refine ⟨rfl, fun level hlevel position => ?_⟩
    rw [node_dense_zero, ← zero_eq_emptyHash hlevel]
    simp [node]
  · cases h

/-- Below and at `level` the tree is the one in which the leaf is written, above it is the one
before. -/
def Partial (t : SparseTree) (leaves : Nat → Scalar) (index : Nat) (leaf : Scalar) (level : Nat) :
    Prop :=
  (∀ l < level, ∀ p, t.node l p = Dense.node (Function.update leaves index leaf) l p) ∧
    ∀ l ≤ t.depth, level ≤ l → ∀ p, t.node l p = Dense.node leaves l p

/-- One more node above the leaf is stored. -/
theorem Partial.setNode (h : t.Partial leaves index leaf level) (hlevel : level ≤ t.depth) :
    (t.setNode level (index / 2 ^ level)
      (Dense.node (Function.update leaves index leaf) level (index / 2 ^ level))).Partial leaves
        index leaf (level + 1) := by
  obtain ⟨hbelow, habove⟩ := h
  refine ⟨fun l hl p => ?_, fun l hl hlt p => ?_⟩
  · by_cases hkey : (level, index / 2 ^ level) = (l, p)
    · obtain ⟨rfl, rfl⟩ := Prod.mk.inj hkey
      exact node_setNode_self
    · rw [node_setNode_of_ne hkey]
      -- at the level itself, the other nodes are not above the leaf
      rcases Nat.lt_succ_iff_lt_or_eq.mp hl with hlt | rfl
      · exact hbelow l hlt p
      · have hne : p ≠ index / 2 ^ l := fun h => hkey (by rw [h])
        rw [habove l hlevel (Nat.le_refl l), Dense.node_update_of_ne hne]
  · have hkey : (level, index / 2 ^ level) ≠ (l, p) := fun h => by
      have := (Prod.mk.inj h).1
      omega
    rw [depth_setNode] at hl
    rw [node_setNode_of_ne hkey]
    exact habove l hl (Nat.le_of_succ_le hlt) p

/-- The path above a leaf is stored level by level. -/
theorem Partial.write (count : Nat) (h : t.Partial leaves index leaf level)
    (hcount : level + count ≤ t.depth) :
    (t.write level (index / 2 ^ level)
      (Dense.node (Function.update leaves index leaf) level (index / 2 ^ level))
      (Dense.siblings leaves level (index / 2 ^ level) count)).Partial leaves index leaf
        (level + count + 1) := by
  induction count generalizing t level with
  | zero => exact h.setNode hcount
  | succ count ih =>
    have hhalf := Index.div_two_pow_div_two index level
    have hparent : Path.parent (index / 2 ^ level)
        (Dense.node (Function.update leaves index leaf) level (index / 2 ^ level))
        (Dense.node leaves level (beside (index / 2 ^ level))) =
          Dense.node (Function.update leaves index leaf) (level + 1) (index / 2 ^ (level + 1)) := by
      rw [← hhalf, ← Dense.parent_node, Dense.node_update_of_ne (Dense.beside_ne _)]
    have hnext := ih (h.setNode (by omega)) (by rw [depth_setNode]; omega)
    have hlevel : level + 1 + count = level + (count + 1) := by omega
    rw [Dense.siblings, SparseTree.write, hparent, hhalf]
    rwa [hlevel] at hnext

/-! ## Writing leaves -/

theorem has_iff {index : UInt64} : t.has index = true ↔ index.toNat < 2 ^ t.depth := by
  have hdepth := t.depth_le
  have hword := index.toNat_lt
  rw [wordBits] at hdepth
  rw [has, capacity]
  by_cases h : t.depth < wordBits
  · have hpow : 2 ^ t.depth < 2 ^ 64 := Nat.pow_lt_pow_right (by decide) h
    simp only [if_pos h, Nat.not_le.mpr h, decide_false, Bool.false_or, decide_eq_true_eq,
      UInt64.lt_iff_toNat_lt, UInt64.toNat_ofNat', Nat.one_shiftLeft, Nat.mod_eq_of_lt hpow]
  · have hfull : t.depth = 64 := by
      rw [wordBits] at h
      omega
    simp [hfull, wordBits, hword]

theorem proof_eq_error {index : UInt64} (h : 2 ^ t.depth ≤ index.toNat) :
    t.proof index = .error (.outOfRange index t.depth) := by
  rw [proof, if_neg (mt has_iff.mp (Nat.not_lt.mpr h))]

theorem update_eq_ok_iff {index : UInt64} {path : List Scalar} {after : SparseTree} :
    t.update index leaf = .ok (path, after) ↔ t.set index leaf = (.ok path, after) := by
  rw [SparseTree.update]
  rcases t.set index leaf with ⟨⟨error⟩ | ⟨siblings⟩, rest⟩ <;> simp

/-- An index that is no leaf leaves the tree as it is. -/
theorem set_eq_error {index : UInt64} (h : 2 ^ t.depth ≤ index.toNat) (leaf : Scalar) :
    t.set index leaf = (.error (.outOfRange index t.depth), t) := by
  rw [SparseTree.set, proof_eq_error h]

theorem update_eq_error {index : UInt64} (h : 2 ^ t.depth ≤ index.toNat) (leaf : Scalar) :
    t.update index leaf = .error (.outOfRange index t.depth) := by
  rw [SparseTree.update, set_eq_error h]

theorem Represents.proof_eq {index : UInt64} (h : t.Represents leaves)
    (hindex : index.toNat < 2 ^ t.depth) :
    t.proof index = .ok (Dense.siblings leaves 0 index.toNat t.depth) := by
  rw [proof, if_pos (has_iff.mpr hindex), h.siblings_eq (by omega)]

/-- Writing a leaf that the tree has yields the siblings of its path, and the tree in which it is
written. -/
theorem Represents.update {index : UInt64} (h : t.Represents leaves) (leaf : Scalar)
    (hindex : index.toNat < 2 ^ t.depth) :
    ∃ after, t.update index leaf = .ok (Dense.siblings leaves 0 index.toNat t.depth, after) ∧
      after.depth = t.depth ∧
      after.Represents (Function.update leaves index.toNat leaf) := by
  have hstart : t.Partial leaves index.toNat leaf 0 :=
    ⟨fun l hl => absurd hl (Nat.not_lt_zero l), fun l hl _ => h l hl⟩
  have hwritten := hstart.write t.depth (by omega)
  rw [Nat.pow_zero, Nat.div_one, Dense.node, Function.update_self] at hwritten
  refine ⟨t.write 0 index.toNat leaf (Dense.siblings leaves 0 index.toNat t.depth), ?_,
    depth_write _, fun level hlevel position => ?_⟩
  · rw [update_eq_ok_iff, SparseTree.set, h.proof_eq hindex]
  · rw [depth_write] at hlevel
    exact hwritten.1 level (by omega) position

/-- A tree after writing leaves, some of which may fail. -/
def writeAll (t : SparseTree) : List (UInt64 × Scalar) → SparseTree
  | [] => t
  | (index, leaf) :: rest => (t.set index leaf).2.writeAll rest

theorem writeAll_cons_of_update {index : UInt64} {path : List Scalar} {after : SparseTree}
    (h : t.update index leaf = .ok (path, after)) (rest : List (UInt64 × Scalar)) :
    t.writeAll ((index, leaf) :: rest) = after.writeAll rest := by
  rw [writeAll, update_eq_ok_iff.mp h]

/-- The leaves of a tree of some depth after writing some; an index that is no leaf is none. -/
def writtenLeaves (depth : Nat) (leaves : Nat → Scalar) : List (UInt64 × Scalar) → Nat → Scalar
  | [] => leaves
  | (index, leaf) :: rest =>
    writtenLeaves depth
      (if index.toNat < 2 ^ depth then Function.update leaves index.toNat leaf else leaves) rest

/-- Whatever was written to a tree, it is the dense one over the leaves written last. -/
theorem Represents.writeAll (h : t.Represents leaves) (writes : List (UInt64 × Scalar)) :
    (t.writeAll writes).depth = t.depth ∧
      (t.writeAll writes).Represents (writtenLeaves t.depth leaves writes) := by
  induction writes generalizing t leaves with
  | nil => exact ⟨rfl, h⟩
  | cons write rest ih =>
    obtain ⟨index, leaf⟩ := write
    rw [writtenLeaves]
    by_cases hindex : index.toNat < 2 ^ t.depth
    · obtain ⟨after, hupdate, hdepth, hafter⟩ := h.update leaf hindex
      rw [writeAll_cons_of_update hupdate, if_pos hindex, ← hdepth]
      exact ih hafter
    · rw [SparseTree.writeAll, set_eq_error (Nat.not_lt.mp hindex), if_neg hindex]
      exact ih h

/-! ## The last write -/

theorem writeAll_append (front back : List (UInt64 × Scalar)) :
    t.writeAll (front ++ back) = (t.writeAll front).writeAll back := by
  induction front generalizing t with
  | nil => rfl
  | cons write rest ih => exact ih

/-- The leaves that were written to a position, in order. -/
def writtenTo (depth : Nat) (writes : List (UInt64 × Scalar)) (position : Nat) : List Scalar :=
  (writes.filter fun w => w.1.toNat < 2 ^ depth && w.1.toNat = position).map Prod.snd

/-- The leaf that was written to a position last; zero where none was. -/
def lastWritten (depth : Nat) (writes : List (UInt64 × Scalar)) (position : Nat) : Scalar :=
  (writtenTo depth writes position).getLastD 0

theorem writtenTo_cons (depth : Nat) (index : UInt64) (leaf : Scalar)
    (rest : List (UInt64 × Scalar)) :
    writtenTo depth ((index, leaf) :: rest) position =
      if index.toNat < 2 ^ depth ∧ index.toNat = position then
        leaf :: writtenTo depth rest position
      else writtenTo depth rest position := by
  by_cases h : index.toNat < 2 ^ depth ∧ index.toNat = position
  · rw [if_pos h, writtenTo, List.filter_cons_of_pos (by simpa using h), List.map_cons, writtenTo]
  · rw [if_neg h, writtenTo, List.filter_cons_of_neg (by simpa using h), writtenTo]

theorem writtenLeaves_eq (depth : Nat) (writes : List (UInt64 × Scalar)) :
    writtenLeaves depth leaves writes position =
      (writtenTo depth writes position).getLastD (leaves position) := by
  induction writes generalizing leaves with
  | nil => rfl
  | cons write rest ih =>
    obtain ⟨index, leaf⟩ := write
    rw [writtenLeaves, ih, writtenTo_cons]
    by_cases hindex : index.toNat < 2 ^ depth
    · by_cases hposition : index.toNat = position
      · rw [if_pos hindex, if_pos ⟨hindex, hposition⟩, List.getLastD_cons, ← hposition,
          Function.update_self]
      · rw [if_pos hindex, if_neg fun h => hposition h.2,
          Function.update_of_ne (Ne.symm hposition)]
    · rw [if_neg hindex, if_neg fun h => hindex h.1]

theorem writtenLeaves_zero (depth : Nat) (writes : List (UInt64 × Scalar)) :
    writtenLeaves depth (fun _ => 0) writes = lastWritten depth writes :=
  funext fun _ => writtenLeaves_eq depth writes

/-- The empty tree after any writes is the dense one over the leaves written last. -/
theorem represents_writeAll {depth : Nat} (h : empty? depth = .ok t)
    (writes : List (UInt64 × Scalar)) :
    (t.writeAll writes).depth = depth ∧
      (t.writeAll writes).Represents (lastWritten depth writes) := by
  obtain ⟨rfl, hzero⟩ := represents_empty h
  rw [← writtenLeaves_zero]
  exact hzero.writeAll writes

/-- After any writes to the empty tree, its root and its proofs are those of the dense tree over the
leaves written last. Exactly the indices of its leaves can be read and written; any other one is
named as out of range and leaves the tree as it is. -/
theorem refines_dense {depth : Nat} (hd : depth ≤ wordBits) :
    ∃ empty, empty? depth = .ok empty ∧ ∀ writes : List (UInt64 × Scalar),
      let t := empty.writeAll writes
      let leaves := lastWritten depth writes
      t.root = Dense.root depth leaves ∧
      ∀ index : UInt64,
        (index.toNat < 2 ^ depth →
          t.proof index = .ok (Dense.siblings leaves 0 index.toNat depth) ∧
          ∀ leaf, t.update index leaf =
            .ok (Dense.siblings leaves 0 index.toNat depth,
              empty.writeAll (writes ++ [(index, leaf)]))) ∧
        (2 ^ depth ≤ index.toNat →
          t.proof index = .error (.outOfRange index depth) ∧
          ∀ leaf, t.update index leaf = .error (.outOfRange index depth) ∧
            t.set index leaf = (.error (.outOfRange index depth), t) ∧
            empty.writeAll (writes ++ [(index, leaf)]) = t) := by
  obtain ⟨empty, hempty⟩ : ∃ t, empty? depth = .ok t := ⟨_, dif_pos hd⟩
  obtain ⟨rfl, hzero⟩ := represents_empty hempty
  refine ⟨empty, hempty, fun writes => ?_⟩
  obtain ⟨hdepth, htree⟩ := hzero.writeAll writes
  rw [writtenLeaves_zero] at htree
  simp only [writeAll_append]
  generalize empty.writeAll writes = t at hdepth htree ⊢
  rw [← hdepth] at htree ⊢
  refine ⟨htree.root_eq, fun index => ⟨fun hindex => ⟨htree.proof_eq hindex, fun leaf => ?_⟩,
    fun hindex => ⟨proof_eq_error hindex, fun leaf =>
      ⟨update_eq_error hindex leaf, set_eq_error hindex leaf, ?_⟩⟩⟩⟩
  · obtain ⟨after, hupdate, -, -⟩ := htree.update leaf hindex
    rw [writeAll_cons_of_update hupdate, hupdate]
    rfl
  · rw [SparseTree.writeAll, set_eq_error hindex leaf]
    rfl

/-- A leaf that was cleared again is zero, and a write beyond the last leaf is none. -/
theorem refines_dense_cleared :
    2 ≤ wordBits ∧ ∃ empty, empty? 2 = .ok empty ∧
      (empty.writeAll [(1, 5), (7, 9), (3, 8), (1, 0)]).root =
        Dense.root 2 (lastWritten 2 [(1, 5), (7, 9), (3, 8), (1, 0)]) ∧
      lastWritten 2 [(1, 5), (7, 9), (3, 8), (1, 0)] 1 = 0 ∧
      lastWritten 2 [(1, 5), (7, 9), (3, 8), (1, 0)] 3 = 8 ∧
      (empty.writeAll [(1, 5), (7, 9), (3, 8), (1, 0)]).update 4 6 = .error (.outOfRange 4 2) ∧
      (empty.writeAll [(1, 5), (7, 9), (3, 8), (1, 0)]).set 4 6 =
        (.error (.outOfRange 4 2), empty.writeAll [(1, 5), (7, 9), (3, 8), (1, 0)]) := by
  have hd : 2 ≤ wordBits := by decide
  obtain ⟨empty, hempty, hrun⟩ := refines_dense hd
  obtain ⟨hroot, hindex⟩ := hrun [(1, 5), (7, 9), (3, 8), (1, 0)]
  obtain ⟨-, hwrite⟩ := (hindex 4).2 (by decide)
  exact ⟨hd, empty, hempty, hroot, rfl, rfl, (hwrite 6).1, (hwrite 6).2.1⟩

end MerkleBatch.SparseTree
