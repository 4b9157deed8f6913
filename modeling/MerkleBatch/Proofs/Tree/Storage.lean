import MerkleBatch.Proofs.Tree.Refinement
import Std.Data.HashMap.Lemmas

/-!
# What a sparse tree stores

A write stores or forgets one node per level, as the new hash differs from the node of an empty
subtree or not. No history leaves a superfluous node behind: the stored nodes are those of the dense
tree that differ from empty subtrees, so they depend on the current leaves alone.

* `Reduced`: no stored node is that of an empty subtree, or above the root.
* `Reduced.setNode`, `Reduced.set`, `Reduced.writeAll`: what a store, a write and any number of
  writes preserve.
* `Reduced.getElem?_nodes_eq_some_iff`: the stored nodes are those that differ from empty subtrees.
* `nodes_equiv`: two reduced trees over the same leaves store the same.
* `storage_canonical`: so the storage is determined by the leaves written last.
-/

namespace MerkleBatch.SparseTree

variable {t t' : SparseTree} {level position depth : Nat} {value : Scalar}
  {path : List Scalar} {leaves : Nat → Scalar}

/-- A node beyond the last leaf is that of an empty subtree. -/
theorem node_dense_beyond (h : ∀ index, 2 ^ depth ≤ index → leaves index = 0)
    (hlevel : level ≤ depth) (hposition : 2 ^ (depth - level) ≤ position) :
    Dense.node leaves level position = emptyHash level := by
  rw [← node_dense_zero level position]
  refine Dense.node_congr fun index hindex => h index ?_
  have hsplit : 2 ^ depth = 2 ^ (depth - level) * 2 ^ level := by
    rw [← Nat.pow_add, Nat.sub_add_cancel hlevel]
  rw [hsplit]
  rw [← hindex] at hposition
  exact Nat.le_trans (Nat.mul_le_mul_right _ hposition) (Nat.div_mul_le_self index _)

/-! ## Reduced trees -/

/-- Every stored node is at a level of the tree and is not that of an empty subtree. -/
def Reduced (t : SparseTree) : Prop :=
  ∀ (level position : Nat) (value : Scalar), t.nodes[(level, position)]? = some value →
    level ≤ t.depth ∧ value ≠ t.zero level

theorem reduced_empty (h : empty? depth = .ok t) : t.Reduced := by
  unfold empty? at h
  split at h
  · cases h
    intro level position value hvalue
    simp at hvalue
  · cases h

theorem Reduced.setNode (h : t.Reduced) (hlevel : level ≤ t.depth) :
    (t.setNode level position value).Reduced := by
  intro l p v hv
  rw [getElem?_setNode] at hv
  rw [depth_setNode, zero_setNode]
  by_cases hkey : (level, position) = (l, p)
  · obtain ⟨rfl, rfl⟩ := Prod.mk.inj hkey
    rw [if_pos rfl] at hv
    split at hv
    · cases hv
    · obtain rfl := Option.some.inj hv
      exact ⟨hlevel, by assumption⟩
  · rw [if_neg hkey] at hv
    exact h l p v hv

theorem Reduced.write (h : t.Reduced) (hpath : level + path.length ≤ t.depth) :
    (t.write level position value path).Reduced := by
  induction path generalizing t level position value with
  | nil => exact h.setNode hpath
  | cons sibling rest ih =>
    rw [List.length_cons] at hpath
    refine ih (h.setNode (by omega)) ?_
    rw [depth_setNode]
    omega

theorem length_siblings (level position count : Nat) :
    (t.siblings level position count).length = count := by
  induction count generalizing level position with
  | zero => rfl
  | succ count ih => rw [siblings, List.length_cons, ih]

theorem Reduced.set (h : t.Reduced) (index : UInt64) (leaf : Scalar) :
    (t.set index leaf).2.Reduced := by
  unfold SparseTree.set proof
  by_cases hindex : t.has index
  · rw [if_pos hindex]
    refine h.write (Nat.le_of_eq ?_)
    rw [length_siblings, Nat.zero_add]
  · rw [if_neg hindex]
    exact h

theorem Reduced.writeAll (h : t.Reduced) (writes : List (UInt64 × Scalar)) :
    (t.writeAll writes).Reduced := by
  induction writes generalizing t with
  | nil => exact h
  | cons write rest ih => exact ih (h.set write.1 write.2)

/-- A reduced tree stores exactly the nodes that differ from those of empty subtrees. -/
theorem Reduced.getElem?_nodes_eq_some_iff (h : t.Reduced) :
    t.nodes[(level, position)]? = some value ↔
      level ≤ t.depth ∧ t.node level position ≠ t.zero level ∧ value = t.node level position := by
  have hnode := node_eq t level position
  constructor
  · intro hvalue
    obtain ⟨hlevel, hne⟩ := h level position value hvalue
    rw [hvalue, Option.getD_some] at hnode
    rw [hnode]
    exact ⟨hlevel, hne, rfl⟩
  · rintro ⟨-, hne, rfl⟩
    cases hstored : t.nodes[(level, position)]? with
    | none =>
      rw [hstored, Option.getD_none] at hnode
      exact absurd hnode hne
    | some stored =>
      rw [hstored, Option.getD_some] at hnode
      rw [hnode]

/-- Two reduced trees of one depth over the same leaves store the same nodes. -/
theorem nodes_equiv (h : t.Reduced) (h' : t'.Reduced) (hleaves : t.Represents leaves)
    (hleaves' : t'.Represents leaves) (hdepth : t.depth = t'.depth) : t.nodes.Equiv t'.nodes := by
  refine Std.HashMap.Equiv.of_forall_getElem?_eq fun ⟨level, position⟩ => Option.ext fun value => ?_
  rw [h.getElem?_nodes_eq_some_iff, h'.getElem?_nodes_eq_some_iff, ← hdepth]
  refine and_congr_right fun hlevel => ?_
  have hlevel' : level ≤ t'.depth := hdepth ▸ hlevel
  rw [hleaves level hlevel, hleaves' level hlevel', zero_eq_emptyHash hlevel,
    zero_eq_emptyHash hlevel']

/-- A reduced tree without any leaf but zero stores nothing. -/
theorem Reduced.isEmpty_nodes (h : t.Reduced) (hleaves : t.Represents fun _ => 0) :
    t.nodes.isEmpty := by
  rw [Std.HashMap.isEmpty_iff_forall_not_mem]
  rintro ⟨level, position⟩ hmem
  have hsome := Std.HashMap.mem_iff_isSome_getElem?.mp hmem
  obtain ⟨value, hvalue⟩ := Option.isSome_iff_exists.mp hsome
  obtain ⟨hlevel, hne, -⟩ := h.getElem?_nodes_eq_some_iff.mp hvalue
  rw [hleaves level hlevel, node_dense_zero, zero_eq_emptyHash hlevel] at hne
  exact hne rfl

/-! ## After any writes -/

theorem lastWritten_eq_zero (writes : List (UInt64 × Scalar)) (h : 2 ^ depth ≤ position) :
    lastWritten depth writes position = 0 := by
  have hnone : writtenTo depth writes position = [] := by
    unfold writtenTo
    simp
    omega
  rw [lastWritten, hnone]
  rfl

/-- No position beyond the last leaf is written, so the leaves of the tree tell all of them. -/
theorem lastWritten_ext {writes : List (UInt64 × Scalar)}
    (hbeyond : ∀ position, 2 ^ depth ≤ position → leaves position = 0)
    (h : ∀ position < 2 ^ depth, lastWritten depth writes position = leaves position) :
    lastWritten depth writes = leaves := by
  funext position
  by_cases hposition : position < 2 ^ depth
  · exact h position hposition
  · have hbound := Nat.not_lt.mp hposition
    rw [lastWritten_eq_zero writes hbound, hbeyond position hbound]

/-- The empty tree after any writes. -/
theorem writeAll_empty (h : empty? depth = .ok t) (writes : List (UInt64 × Scalar)) :
    (t.writeAll writes).depth = depth ∧ (t.writeAll writes).Reduced ∧
      (t.writeAll writes).Represents (lastWritten depth writes) := by
  obtain ⟨hdepth, hleaves⟩ := represents_writeAll h writes
  exact ⟨hdepth, (reduced_empty h).writeAll writes, hleaves⟩

/-- After any writes to the empty tree, the stored nodes are those of the dense tree over the leaves
written last that differ from the nodes of empty subtrees. So two histories that leave the same
leaves store the same, and one that leaves none but zero stores nothing. -/
theorem storage_canonical (hd : depth ≤ wordBits) :
    ∃ empty, empty? depth = .ok empty ∧
      (∀ (writes : List (UInt64 × Scalar)) (level position : Nat) (value : Scalar),
        let t := empty.writeAll writes
        let hash := Dense.node (lastWritten depth writes) level position
        t.nodes[(level, position)]? = some value ↔
          level ≤ depth ∧ position < 2 ^ (depth - level) ∧ hash ≠ t.zero level ∧ value = hash) ∧
      (∀ writes writes' : List (UInt64 × Scalar),
        (∀ position < 2 ^ depth,
          lastWritten depth writes position = lastWritten depth writes' position) →
        (empty.writeAll writes).nodes.Equiv (empty.writeAll writes').nodes) ∧
      ∀ writes : List (UInt64 × Scalar),
        (∀ position < 2 ^ depth, lastWritten depth writes position = 0) →
        (empty.writeAll writes).nodes.isEmpty := by
  obtain ⟨empty, hempty⟩ : ∃ t, empty? depth = .ok t := ⟨_, dif_pos hd⟩
  refine ⟨empty, hempty, ?_, ?_, ?_⟩
  · intro writes level position value t hash
    obtain ⟨hdepth, hreduced, hleaves⟩ := writeAll_empty hempty writes
    rw [hreduced.getElem?_nodes_eq_some_iff, hdepth]
    refine and_congr_right fun hlevel => ?_
    have hwithin : level ≤ t.depth := hdepth.symm ▸ hlevel
    rw [hleaves level hwithin position]
    constructor
    · rintro ⟨hne, hvalue⟩
      refine ⟨Nat.lt_of_not_le fun hposition => hne ?_, hne, hvalue⟩
      rw [zero_eq_emptyHash hwithin]
      exact node_dense_beyond (fun _ => lastWritten_eq_zero writes) hlevel hposition
    · rintro ⟨-, hne, hvalue⟩
      exact ⟨hne, hvalue⟩
  · intro writes writes' hsame
    obtain ⟨hdepth, hreduced, hleaves⟩ := writeAll_empty hempty writes
    obtain ⟨hdepth', hreduced', hleaves'⟩ := writeAll_empty hempty writes'
    rw [lastWritten_ext (fun _ => lastWritten_eq_zero writes') hsame] at hleaves
    exact nodes_equiv hreduced hreduced' hleaves hleaves' (hdepth.trans hdepth'.symm)
  · intro writes hclear
    obtain ⟨-, hreduced, hleaves⟩ := writeAll_empty hempty writes
    rw [lastWritten_ext (fun _ _ => rfl) hclear] at hleaves
    exact hreduced.isEmpty_nodes hleaves

/-- A leaf that is written and cleared again leaves no trace, beside another leaf or alone. -/
theorem storage_canonical_cleared :
    2 ≤ wordBits ∧ ∃ empty, empty? 2 = .ok empty ∧
      (empty.writeAll [(1, 5), (3, 8), (7, 9), (1, 0)]).nodes[(0, 3)]? = some 8 ∧
      (empty.writeAll [(1, 5), (3, 8), (7, 9), (1, 0)]).nodes.Equiv
        (empty.writeAll [(3, 6), (3, 8)]).nodes ∧
      (empty.writeAll [(1, 5), (1, 7), (1, 0)]).nodes.isEmpty := by
  have hd : 2 ≤ wordBits := by decide
  obtain ⟨empty, hempty, hentry, hsame, hclear⟩ := storage_canonical hd
  refine ⟨hd, empty, hempty, ?_, hsame _ _ (by decide), hclear _ (by decide)⟩
  refine (hentry _ 0 3 8).mpr ⟨by decide, by decide, ?_, rfl⟩
  rw [zero_eq_emptyHash (Nat.zero_le _)]
  decide

end MerkleBatch.SparseTree
