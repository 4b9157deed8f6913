import MerkleBatch.Path

/-!
# Paths to one root

Whoever hands in a path chooses all of its siblings. Two paths that lead from one position to one
root are nevertheless the same, unless at some level they hash different children to one value: the
root gives away the last children, and so on down to the leaf.

* `Path.pairs`: what a path hashes, level by level.
* `Path.Collide`: two paths hash different children to the same value.
* `eq_or_collide`: two paths from one position to one root are the same, or collide.
* `verify?_eq_true_iff`: the paths that are accepted for a root.
* `accepted_binds`: a root and an index leave no choice of the leaf and of its siblings.
-/

namespace MerkleBatch.Path

/-- The children that a path hashes at each level, from the leaf upwards. -/
def pairs (current : Scalar) (position : Nat) : List Scalar → List (Scalar × Scalar)
  | [] => []
  | sibling :: rest =>
    (if position % 2 = 1 then (sibling, current) else (current, sibling)) ::
      pairs (parent position current sibling) (position / 2) rest

theorem length_pairs (current : Scalar) (position : Nat) (path : List Scalar) :
    (pairs current position path).length = path.length := by
  induction path generalizing current position with
  | nil => rfl
  | cons sibling rest ih => rw [pairs, List.length_cons, ih, List.length_cons]

/-- The hash one level up is that of the first pair of a path. -/
theorem parent_eq (position : Nat) (current sibling : Scalar) :
    parent position current sibling =
      hashNode (if position % 2 = 1 then (sibling, current) else (current, sibling)).1
        (if position % 2 = 1 then (sibling, current) else (current, sibling)).2 := by
  rw [parent]
  split <;> rfl

/-- At some level the paths from `current` and from `current'`, both at `position`, hash different
children to the same value. -/
def Collide (position : Nat) (current current' : Scalar) (path path' : List Scalar) : Prop :=
  ∃ (level : Nat) (pair pair' : Scalar × Scalar),
    (pairs current position path)[level]? = some pair ∧
    (pairs current' position path')[level]? = some pair' ∧ pair ≠ pair' ∧
    hashNode pair.1 pair.2 = hashNode pair'.1 pair'.2

variable {position : Nat} {current current' sibling sibling' : Scalar} {path path' : List Scalar}

/-- A collision further up is one of the whole paths. -/
theorem Collide.cons
    (h : Collide (position / 2) (parent position current sibling)
      (parent position current' sibling') path path') :
    Collide position current current' (sibling :: path) (sibling' :: path') := by
  obtain ⟨level, pair, pair', hpair, hpair', hne, heq⟩ := h
  exact ⟨level + 1, pair, pair', hpair, hpair', hne, heq⟩

/-- The first steps of two paths to one node are the same, or collide. -/
theorem eq_or_collide_first (path path' : List Scalar)
    (h : parent position current sibling = parent position current' sibling') :
    (current = current' ∧ sibling = sibling') ∨
      Collide position current current' (sibling :: path) (sibling' :: path') := by
  by_cases hsame : current = current' ∧ sibling = sibling'
  · exact .inl hsame
  · refine .inr ⟨0, _, _, rfl, rfl, ?_, ?_⟩
    · split
      · exact fun hpair => hsame ⟨(Prod.mk.inj hpair).2, (Prod.mk.inj hpair).1⟩
      · exact fun hpair => hsame (Prod.mk.inj hpair)
    · exact (parent_eq position current sibling).symm.trans
        (h.trans (parent_eq position current' sibling'))

/-- Two paths of the same length from one position to one root are the same, or collide. -/
theorem eq_or_collide (hlen : path.length = path'.length)
    (h : root current position path = root current' position path') :
    (current = current' ∧ path = path') ∨ Collide position current current' path path' := by
  induction path generalizing position current current' path' with
  | nil =>
    obtain rfl : path' = [] := List.length_eq_zero_iff.mp hlen.symm
    exact .inl ⟨h, rfl⟩
  | cons sibling rest ih =>
    obtain ⟨sibling', rest', rfl⟩ := List.exists_cons_of_length_eq_add_one hlen.symm
    -- the paths are followed down from the root, so the part above comes first
    rcases ih (Nat.succ.inj hlen) h with ⟨hparent, rfl⟩ | hcollide
    · rcases eq_or_collide_first rest rest hparent with ⟨rfl, rfl⟩ | hcollide
      · exact .inl ⟨rfl, rfl⟩
      · exact .inr hcollide
    · exact .inr hcollide.cons

/-! ## Accepted paths -/

variable {expected leaf leaf' : Scalar} {index : UInt64} {siblings siblings' : List Scalar}

theorem verify?_eq_true_iff :
    verify? expected leaf index siblings = .ok true ↔
      siblings.length ≤ wordBits ∧ root leaf index.toNat siblings = expected := by
  unfold verify? root?
  by_cases hlen : siblings.length ≤ wordBits
  · simp [hlen]
  · simp [hlen]

/-- Whoever has two leaves, or two lists of siblings, that are accepted at one index of one root has
two pairs of children that are hashed to the same value, and the level at which this happens. -/
theorem accepted_binds (hlen : siblings.length = siblings'.length)
    (h : verify? expected leaf index siblings = .ok true)
    (h' : verify? expected leaf' index siblings' = .ok true) :
    (leaf = leaf' ∧ siblings = siblings') ∨
      ∃ level < siblings.length, ∃ pair pair',
        (pairs leaf index.toNat siblings)[level]? = some pair ∧
        (pairs leaf' index.toNat siblings')[level]? = some pair' ∧ pair ≠ pair' ∧
        hashNode pair.1 pair.2 = hashNode pair'.1 pair'.2 := by
  obtain ⟨-, hroot⟩ := verify?_eq_true_iff.mp h
  obtain ⟨-, hroot'⟩ := verify?_eq_true_iff.mp h'
  rcases eq_or_collide hlen (hroot.trans hroot'.symm) with
    hsame | ⟨level, pair, pair', hpair, hrest⟩
  · exact .inl hsame
  · refine .inr ⟨level, ?_, pair, pair', hpair, hrest⟩
    rw [← length_pairs leaf index.toNat siblings]
    exact (List.getElem?_eq_some_iff.mp hpair).1

/-- The last leaf of a tree of depth 2, with its two siblings to the left of its path. -/
theorem accepted_binds_lastLeaf :
    verify? (hashNode 3 (hashNode 9 7)) 7 3 [9, 3] = .ok true ∧
    ((7 = (7 : Scalar) ∧ [9, 3] = [(9 : Scalar), 3]) ∨
      ∃ level < 2, ∃ pair pair',
        (pairs 7 3 [9, 3])[level]? = some pair ∧ (pairs 7 3 [9, 3])[level]? = some pair' ∧
        pair ≠ pair' ∧ hashNode pair.1 pair.2 = hashNode pair'.1 pair'.2) := by
  have haccepted : verify? (hashNode 3 (hashNode 9 7)) 7 3 [9, 3] = .ok true := by
    refine verify?_eq_true_iff.mpr ⟨by decide, ?_⟩
    show root 7 3 [9, 3] = _
    rw [root_cons, root_cons, root_nil, parent, parent, if_pos (by decide), if_pos (by decide)]
  exact ⟨haccepted, accepted_binds rfl haccepted haccepted⟩

end MerkleBatch.Path
