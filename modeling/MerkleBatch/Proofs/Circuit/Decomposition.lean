import MerkleBatch.Proofs.Circuit.Gadget

/-!
# Decomposition of indices

The bits of an index are pinned by two kinds of demands: each is 0 or 1, and they add up to the
index. Up to 254 bits the sum stays below the modulus, so only the bits of the representative add
up to it, and they do so exactly if the representative has no further bits.

* `runs_bitsFrom`: bits by themselves.
* `runs_decomposeIndex`: the bits of an index; the one fault is an index that is too great.
* `satisfies_fillFrom_iff`: the indices whose bits can be filled in.
-/

namespace MerkleBatch.Circuit

/-- The greatest number of bits whose sums all stay below the modulus. -/
def maxIndexBits : Nat := 254

theorem two_pow_maxIndexBits_lt : 2 ^ maxIndexBits < modulus := by decide

section

variable {first : Var} (scope : Label)

/-- The value of a weighted sum of bits. -/
theorem eval_weighted {ρ : Assignment} (weight : Scalar) {vs : List Var} {bs : List Bool}
    (h : vs.map ρ = bs.map Scalar.ofBool) :
    (weighted weight vs).eval ρ = weight * Scalar.ofNat (Index.value bs) := by
  induction vs generalizing weight bs with
  | nil =>
    obtain rfl : bs = [] := by simpa using h.symm
    show 0 = weight * 0
    ring
  | cons v rest ih =>
    cases bs with
    | nil => cases h
    | cons b bs =>
      rw [List.map_cons, List.map_cons, List.cons.injEq] at h
      have hb : Scalar.ofBool b = Scalar.ofNat b.toNat := by cases b <;> rfl
      have htwo : Scalar.ofNat 2 = 1 + 1 := rfl
      have hterm : LinComb.eval ρ ⟨0, [(weight, v)]⟩ = weight * ρ v + 0 := rfl
      rw [weighted, LinComb.eval_add, ih _ h.2, hterm, h.1, hb, Index.value, Scalar.ofNat_add,
        Scalar.ofNat_mul, htwo]
      ring

/-- A bit by itself may have either value, and is filled with its own. -/
theorem runs_bit (name : String) (fill : Assignment → Bool)
    (hfill : DependsBelow first.number fill) :
    ∃ r, Runs (bit name fill) scope first r ∧ r.value.Before r.next ∧
      ∀ ρ, (Satisfies ρ r.steps ↔ ∃ b, ρ r.value = Scalar.ofBool b) ∧
        (Filled ρ first.number r.steps ↔ ρ r.value = Scalar.ofBool (fill ρ)) := by
  refine ⟨⟨first, ⟨first.number + 1⟩,
    [.alloc ("boolean" :: name :: scope) fun ρ => Scalar.ofBool (fill ρ),
      .enforce ("boolean constraint" :: name :: scope) (1 - LinComb.ofVar first) first 0]⟩,
    ⟨rfl, .define fun ρ σ h => ?_⟩, Nat.lt_succ_self _, fun ρ => ⟨?_, ?_⟩⟩
  · rw [hfill ρ σ h]
  · have hdemand : (1 - ρ first) * ρ first = 0 ↔ ∃ b, ρ first = Scalar.ofBool b := by
      rw [Scalar.boolean_iff, Bool.exists_bool]
    rw [← hdemand]
    simp [Satisfies, Step.Holds]
  · simp [Filled]

theorem runs_bitsFrom (number : Var) (position count : Nat) (hn : number.Before first) :
    ∃ r, Runs (bitsFrom number position count) scope first r ∧ r.value.length = count ∧
      (∀ v ∈ r.value, v.Before r.next) ∧
      ∀ ρ, (Satisfies ρ r.steps ↔ ∀ v ∈ r.value, ∃ b, ρ v = Scalar.ofBool b) ∧
        (Filled ρ first.number r.steps ↔
          r.value.map ρ =
            (Index.lowBits ((ρ number).val >>> position) count).map Scalar.ofBool) := by
  induction count generalizing position first with
  | zero =>
    refine ⟨_, .pure [], rfl, by simp, fun ρ => ⟨?_, ?_⟩⟩
    · simp [Satisfies]
    · simp [Filled, Index.lowBits]
  | succ count ih =>
    obtain ⟨a, ha, hab, ham⟩ := runs_bit scope s!"bit_{position}"
      (fun ρ => (ρ number).bit position) fun ρ σ h => by
        simp only [h number hn]
    obtain ⟨r, hr, hlen, hb, hm⟩ := ih (position + 1) (ha.before hn)
    refine ⟨_, ha.bind (hr.bind (.pure (a.value :: r.value))), ?_, ?_, fun ρ => ⟨?_, ?_⟩⟩
    · exact congrArg Nat.succ hlen
    · intro v hv
      rcases List.mem_cons.mp hv with rfl | hv
      · exact hr.before hab
      · exact hb v hv
    · simp only [Built.andThen, List.append_nil, satisfies_append, (ham ρ).1, (hm ρ).1,
        List.forall_mem_cons]
    · have hhead : (ρ number).bit position = ((ρ number).val >>> position).testBit 0 := by
        rw [Scalar.bit, Nat.testBit_shiftRight, Nat.add_zero]
      have htail : (ρ number).val >>> (position + 1) = (ρ number).val >>> position / 2 := rfl
      simp only [Built.andThen, List.append_nil, filled_append, ← ha.makes.next_eq, (ham ρ).2,
        (hm ρ).2, Index.lowBits, List.map_cons, List.cons.injEq, hhead, htail]

/-- The bits of a number add up to it exactly if there are enough of them. -/
theorem eval_weighted_eq_iff {ρ : Assignment} {index : Var} {vs : List Var} {depth : Nat}
    (hd : depth ≤ maxIndexBits)
    (h : vs.map ρ = (Index.lowBits (ρ index).val depth).map Scalar.ofBool) :
    (weighted 1 vs).eval ρ = ρ index ↔ (ρ index).val < 2 ^ depth := by
  have hpow : 2 ^ depth < modulus :=
    Nat.lt_of_le_of_lt (Nat.pow_le_pow_right (by decide) hd) two_pow_maxIndexBits_lt
  have hlt : (ρ index).val % 2 ^ depth < modulus :=
    Nat.lt_trans (Nat.mod_lt _ (Nat.two_pow_pos _)) hpow
  rw [eval_weighted 1 h, one_mul, Index.value_lowBits, Scalar.ext_iff, Scalar.val_ofNat_of_lt hlt]
  exact Nat.mod_eq_iff_lt (Nat.two_pow_pos depth).ne'

/-- Variables with the values of bits are 0 or 1. -/
theorem bool_of_map {ρ : Assignment} {vs : List Var} {bs : List Bool}
    (h : vs.map ρ = bs.map Scalar.ofBool) : ∀ v ∈ vs, ∃ b, ρ v = Scalar.ofBool b := by
  intro v hv
  have hmem : ρ v ∈ bs.map Scalar.ofBool := h ▸ List.mem_map_of_mem hv
  obtain ⟨b, -, hb⟩ := List.mem_map.mp hmem
  exact ⟨b, hb.symm⟩

/-- The conditions on variables with the values of bits hold where the bits are set. -/
theorem map_holds_bit {ρ : Assignment} {vs : List Var} {bs : List Bool}
    (h : vs.map ρ = bs.map Scalar.ofBool) :
    (vs.map Condition.bit).map (fun c => c.holds ρ) = bs := by
  have hholds : (vs.map Condition.bit).map (fun c => c.holds ρ) =
      (vs.map ρ).map fun a => a == 1 := by
    rw [List.map_map, List.map_map]
    rfl
  rw [hholds, h, List.map_map]
  exact (List.map_congr_left fun b _ => Condition.ofBool_beq_one b).trans (List.map_id' bs)

/-- Whatever bits add up to a number are its lowest bits. -/
theorem map_eq_lowBits {ρ : Assignment} {index : Var} {vs : List Var}
    (hd : vs.length ≤ maxIndexBits) (hbits : ∀ v ∈ vs, ∃ b, ρ v = Scalar.ofBool b)
    (hsum : (weighted 1 vs).eval ρ = ρ index) :
    vs.map ρ = (Index.lowBits (ρ index).val vs.length).map Scalar.ofBool := by
  have hmap : vs.map ρ = (vs.map fun v => ρ v == 1).map Scalar.ofBool := by
    rw [List.map_map]
    refine List.map_congr_left fun v hv => ?_
    obtain ⟨b, hb⟩ := hbits v hv
    rw [Function.comp_apply, hb, Condition.ofBool_beq_one]
  have hlt := Index.value_lt (vs.map fun v => ρ v == 1)
  rw [List.length_map] at hlt
  have hpow : 2 ^ vs.length < modulus :=
    Nat.lt_of_le_of_lt (Nat.pow_le_pow_right (by decide) hd) two_pow_maxIndexBits_lt
  rw [eval_weighted 1 hmap, one_mul] at hsum
  have hvalue : Index.value (vs.map fun v => ρ v == 1) = (ρ index).val := by
    rw [← hsum, Scalar.val_ofNat_of_lt (Nat.lt_trans hlt hpow)]
  rw [hmap, Index.eq_lowBits_of_value_eq hvalue, List.length_map]

theorem runs_decomposeIndex {index : Var} {depth : Nat} (hd : depth ≤ maxIndexBits)
    (hi : index.Before first) :
    ∃ r, Runs (decomposeIndex index depth) scope first r ∧ r.value.length = depth ∧
      (∀ c ∈ r.value, c.Before r.next) ∧
      ∀ ρ, Meets ρ first r.steps
        (if (ρ index).val < 2 ^ depth then [] else ["recompose_index" :: scope])
        ((∀ c ∈ r.value, c.IsBit ρ) ∧
          r.value.map (fun c => c.holds ρ) = Index.lowBits (ρ index).val depth) := by
  obtain ⟨r, hr, hlen, hb, hm⟩ := runs_bitsFrom scope index 0 depth hi
  have hsum : Runs (Builder.enforce "recompose_index" (weighted 1 r.value) 1 index) scope r.next
      ⟨(), r.next, _⟩ := ⟨rfl, .enforce r.next⟩
  refine ⟨_, hr.bind (hsum.bind (.pure (r.value.map Condition.bit))), ?_, ?_, fun ρ => ?_⟩
  · exact (List.length_map _).trans hlen
  · intro c hc
    obtain ⟨v, hv, rfl⟩ := List.mem_map.mp hc
    exact hb v hv
  · obtain ⟨hsat, hfilled⟩ := hm ρ
    rw [Nat.shiftRight_zero] at hfilled
    have hcheck : Meets ρ r.next _ _ True :=
      .check ("recompose_index" :: scope) (weighted 1 r.value) 1 index
    rw [LinComb.eval_one, LinComb.eval_ofVar, mul_one] at hcheck
    constructor
    -- the bits may have any values by themselves: it is their sum that pins them
    · intro h
      obtain ⟨hbool, hrest⟩ := satisfies_append.mp h
      have heq : (weighted 1 r.value).eval ρ * 1 = LinComb.eval ρ index :=
        hrest (.enforce ("recompose_index" :: scope) _ 1 index) (List.mem_singleton_self _)
      rw [mul_one, LinComb.eval_ofVar] at heq
      have hmap := map_eq_lowBits (hlen.trans_le hd) (hsat.mp hbool) heq
      rw [hlen] at hmap
      exact filled_append.mpr ⟨hfilled.mpr hmap, trivial⟩
    · intro h
      have hmap := hfilled.mp (filled_append.mp h).1
      have hbool : missed ρ r.steps = [] :=
        missed_eq_nil_iff.mpr (hsat.mpr (bool_of_map hmap))
      show missed ρ (r.steps ++ [_]) = _
      rw [missed_append, hbool, hcheck.missed_eq trivial, List.nil_append]
      simp only [eval_weighted_eq_iff hd hmap]
    · intro h
      have hmap := hfilled.mp (filled_append.mp h).1
      refine ⟨fun c hc => ?_, ?_⟩
      · obtain ⟨v, hv, rfl⟩ := List.mem_map.mp hc
        obtain ⟨b, hb⟩ := bool_of_map hmap v hv
        exact Condition.isBit_bit hb
      · exact map_holds_bit hmap

/-- Filled in from the values of older variables, the bits of an index satisfy the demands on them
exactly if there are enough of them. -/
theorem satisfies_fillFrom_iff {values : Array Scalar} {index : Var} {depth : Nat}
    (hd : depth ≤ maxIndexBits) (hi : index.number < values.size) :
    ∃ r, decomposeIndex index depth scope ⟨values.size⟩ = .ok r ∧
      (Satisfies (ofValues (fillFrom values r.steps)) r.steps ↔
        (ofValues values index).val < 2 ^ depth) := by
  have hbefore : index.Before ⟨values.size⟩ := hi
  obtain ⟨r, hr, -, -, hm⟩ := runs_decomposeIndex scope hd hbefore
  obtain ⟨hfilled, hagree⟩ := filled_fillFrom values hr.makes.causal
  refine ⟨r, hr.run_eq, ?_⟩
  rw [(hm _).satisfies_iff, hagree index hi]
  constructor
  · rintro ⟨-, hfaults⟩
    by_contra hge
    rw [if_neg hge] at hfaults
    cases hfaults
  · exact fun hlt => ⟨hfilled, if_pos hlt⟩

end

end MerkleBatch.Circuit
