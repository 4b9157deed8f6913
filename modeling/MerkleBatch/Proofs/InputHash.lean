import MerkleBatch.Hash
import Mathlib.Data.List.Basic
import Mathlib.Data.List.Induction

/-!
# What the input hash binds

The input hash folds the public values of a batch in, one after another, and says nowhere how many
there are. Two chains of hashes with one result are followed from the back: as long as the pairs
hashed last are the same, so are the results before them. Chains of the same length end at both
their starts. Where one is longer, the start of the other one is a hash inside it, which for start
indices is a hash below `2 ^ 64`.

* `Chain.pairs`, `Chain.getElem?_pairs`: what a chain hashes, step by step.
* `Chain.Collide`: counted from the back, two chains hash different pairs to the same value.
* `Chain.StartsInside`: a chain starts with a hash inside a longer one.
* `Chain.eq_or_collide`: two chains with one result are the same, or one of these happens.
* `inputHash_binds`: so the input hash binds the start index, both roots and all commitments.
-/

namespace MerkleBatch

namespace Chain

/-- What each step of a chain hashes: what was bound so far, and the value that is folded in. -/
def pairs (bound : Scalar) : List Scalar → List (Scalar × Scalar)
  | [] => []
  | value :: rest => (bound, value) :: pairs (bindInput bound value) rest

/-- A step hashes the result of the steps before it. -/
theorem getElem?_pairs {bound : Scalar} {step : Nat} {values : List Scalar}
    (h : step < values.length) :
    (pairs bound values)[step]? =
      some ((values.take step).foldl bindInput bound, values[step]) := by
  induction values generalizing bound step with
  | nil => exact absurd h (Nat.not_lt_zero step)
  | cons value rest ih =>
    cases step with
    | zero => rfl
    | succ step =>
      rw [pairs, List.getElem?_cons_succ, ih (Nat.lt_of_succ_lt_succ h)]
      rfl

@[simp]
theorem length_pairs (bound : Scalar) (values : List Scalar) :
    (pairs bound values).length = values.length := by
  induction values generalizing bound with
  | nil => rfl
  | cons value rest ih => rw [pairs, List.length_cons, ih, List.length_cons]

theorem pairs_append (bound : Scalar) (values rest : List Scalar) :
    pairs bound (values ++ rest) =
      pairs bound values ++ pairs (values.foldl bindInput bound) rest := by
  induction values generalizing bound with
  | nil => rfl
  | cons value values ih =>
    rw [List.cons_append, pairs, pairs, ih, List.cons_append, List.foldl_cons]

/-- `back` steps before their last one, the chains from `bound` and from `bound'` hash different
pairs to the same value. -/
def Collide (bound bound' : Scalar) (values values' : List Scalar) : Prop :=
  ∃ (back : Nat) (pair pair' : Scalar × Scalar),
    (pairs bound values).reverse[back]? = some pair ∧
    (pairs bound' values').reverse[back]? = some pair' ∧ pair ≠ pair' ∧
    bindInput pair.1 pair.2 = bindInput pair'.1 pair'.2

/-- The chain from `bound` starts with a hash inside the longer chain from `bound'`: with the one
after which this chain, too, has as many values left as the first one has in all. -/
def StartsInside (bound bound' : Scalar) (values values' : List Scalar) : Prop :=
  ∃ (step : Nat) (pair : Scalar × Scalar), step + 1 + values.length = values'.length ∧
    (pairs bound' values')[step]? = some pair ∧ bound = bindInput pair.1 pair.2

section

variable {bound bound' value value' : Scalar} {values values' : List Scalar}

theorem reverse_pairs_append (bound value : Scalar) (values : List Scalar) :
    (pairs bound (values ++ [value])).reverse =
      (values.foldl bindInput bound, value) :: (pairs bound values).reverse := by
  rw [pairs_append, List.reverse_append]
  rfl

theorem Collide.append (h : Collide bound bound' values values') :
    Collide bound bound' (values ++ [value]) (values' ++ [value']) := by
  obtain ⟨back, pair, pair', hpair, hpair', hne, heq⟩ := h
  refine ⟨back + 1, pair, pair', ?_, ?_, hne, heq⟩
  · rw [reverse_pairs_append, List.getElem?_cons_succ, hpair]
  · rw [reverse_pairs_append, List.getElem?_cons_succ, hpair']

theorem StartsInside.append (h : StartsInside bound bound' values values') :
    StartsInside bound bound' (values ++ [value]) (values' ++ [value']) := by
  obtain ⟨step, pair, hlen, hpair, heq⟩ := h
  refine ⟨step, pair, ?_, ?_, heq⟩
  · simp only [List.length_append, List.length_singleton]
    omega
  · rw [pairs_append, List.getElem?_append_left, hpair]
    rw [length_pairs]
    omega

theorem StartsInside.length_lt (h : StartsInside bound bound' values values') :
    values.length < values'.length := by
  obtain ⟨step, -, hlen, -⟩ := h
  omega

/-- A chain without values starts with its result. -/
theorem startsInside_nil (h : bound = (values' ++ [value']).foldl bindInput bound') :
    StartsInside bound bound' [] (values' ++ [value']) := by
  refine ⟨values'.length, (values'.foldl bindInput bound', value'), by simp, ?_, ?_⟩
  · rw [getElem?_pairs (by simp)]
    simp
  · rw [h, List.foldl_concat]

/-- The last steps of two chains with one result hash the same, or collide. -/
theorem eq_or_collide_last
    (h : (values ++ [value]).foldl bindInput bound = (values' ++ [value']).foldl bindInput bound') :
    (values.foldl bindInput bound = values'.foldl bindInput bound' ∧ value = value') ∨
      Collide bound bound' (values ++ [value]) (values' ++ [value']) := by
  rw [List.foldl_concat, List.foldl_concat] at h
  by_cases hsame : values.foldl bindInput bound = values'.foldl bindInput bound' ∧ value = value'
  · exact .inl hsame
  · refine .inr ⟨0, (_, value), (_, value'), ?_, ?_, fun hpair => hsame (Prod.mk.inj hpair), h⟩
    · rw [reverse_pairs_append, List.getElem?_cons_zero]
    · rw [reverse_pairs_append, List.getElem?_cons_zero]

/-- Two chains with one result are the same, or collide, or one starts inside the other. -/
theorem eq_or_collide (h : values.foldl bindInput bound = values'.foldl bindInput bound') :
    (bound = bound' ∧ values = values') ∨ Collide bound bound' values values' ∨
      StartsInside bound bound' values values' ∨ StartsInside bound' bound values' values := by
  -- both chains are followed from their last steps back, until one of them has none left
  induction values using List.reverseRecOn generalizing values' with
  | nil =>
    rcases List.eq_nil_or_concat' values' with rfl | ⟨values', value', rfl⟩
    · exact .inl ⟨h, rfl⟩
    · exact .inr (.inr (.inl (startsInside_nil h)))
  | append_singleton values value ih =>
    rcases List.eq_nil_or_concat' values' with rfl | ⟨values', value', rfl⟩
    · exact .inr (.inr (.inr (startsInside_nil h.symm)))
    · rcases eq_or_collide_last h with ⟨hbefore, rfl⟩ | hcollide
      · rcases ih hbefore with ⟨rfl, rfl⟩ | hcollide | hinside | hinside
        · exact .inl ⟨rfl, rfl⟩
        · exact .inr (.inl hcollide.append)
        · exact .inr (.inr (.inl hinside.append))
        · exact .inr (.inr (.inr hinside.append))
      · exact .inr (.inl hcollide)

end

end Chain

section

variable {start start' : UInt64} {preRoot preRoot' postRoot postRoot' : Scalar}
  {commitments commitments' : List Scalar}

/-- Start indices are below the modulus, so no two of them are one scalar. -/
theorem startIndex_injective (h : Scalar.ofNat start.toNat = Scalar.ofNat start'.toNat) :
    start = start' := by
  have hval : ∀ n : UInt64, (Scalar.ofNat n.toNat).val = n.toNat := by
    intro n
    have hword : n.toNat < 1 <<< 254 := Nat.lt_trans n.toNat_lt (by decide)
    exact Scalar.val_ofNat_of_lt (Nat.lt_trans hword shiftLeft_254_lt_modulus)
  rw [← UInt64.toNat_inj, ← hval, h, hval]

/-- Two batches of any sizes with one input hash are the same in all that is hashed, or their hash
chains collide, or they differ in size and the start index of the smaller one is a hash inside the
chain of the larger one. -/
theorem inputHash_binds
    (h : inputHash start preRoot postRoot commitments =
      inputHash start' preRoot' postRoot' commitments') :
    let bound := Scalar.ofNat start.toNat
    let bound' := Scalar.ofNat start'.toNat
    let values := preRoot :: postRoot :: commitments
    let values' := preRoot' :: postRoot' :: commitments'
    (start = start' ∧ preRoot = preRoot' ∧ postRoot = postRoot' ∧ commitments = commitments') ∨
      Chain.Collide bound bound' values values' ∨
      (commitments.length < commitments'.length ∧ Chain.StartsInside bound bound' values values') ∨
      (commitments'.length < commitments.length ∧
        Chain.StartsInside bound' bound values' values) := by
  intro bound bound' values values'
  rcases Chain.eq_or_collide h with ⟨hbound, hvalues⟩ | hcollide | hinside | hinside
  · obtain ⟨hpre, hrest⟩ := List.cons.inj hvalues
    obtain ⟨hpost, hcommitments⟩ := List.cons.inj hrest
    exact .inl ⟨startIndex_injective hbound, hpre, hpost, hcommitments⟩
  · exact .inr (.inl hcollide)
  · have hlt := hinside.length_lt
    simp only [List.length_cons] at hlt
    exact .inr (.inr (.inl ⟨by omega, hinside⟩))
  · have hlt := hinside.length_lt
    simp only [List.length_cons] at hlt
    exact .inr (.inr (.inr ⟨by omega, hinside⟩))

/-- Two insertions from index 5 on have one input hash, however their values are written down. -/
theorem inputHash_binds_two :
    inputHash 5 0 1 [4, 7] = inputHash (2 + 3) 0 1 ([4] ++ [7]) ∧
      let bound := Scalar.ofNat (5 : UInt64).toNat
      let bound' := Scalar.ofNat (2 + 3 : UInt64).toNat
      let values : List Scalar := [0, 1, 4, 7]
      let values' : List Scalar := 0 :: 1 :: ([4] ++ [7])
      ((5 : UInt64) = 2 + 3 ∧ (0 : Scalar) = 0 ∧ (1 : Scalar) = 1 ∧
          ([4, 7] : List Scalar) = [4] ++ [7]) ∨
        Chain.Collide bound bound' values values' ∨
        (2 < 2 ∧ Chain.StartsInside bound bound' values values') ∨
        (2 < 2 ∧ Chain.StartsInside bound' bound values' values) := by
  have h : inputHash 5 0 1 [4, 7] = inputHash (2 + 3) 0 1 ([4] ++ [7]) := by
    have hstart : (5 : UInt64) = 2 + 3 := by decide
    rw [hstart, List.singleton_append]
  exact ⟨h, inputHash_binds h⟩

end

end MerkleBatch
