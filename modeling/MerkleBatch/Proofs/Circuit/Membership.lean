import MerkleBatch.Proofs.Circuit.Decomposition
import MerkleBatch.Scalar.Bytes

/-!
# The membership gadgets by themselves

A proof of membership takes two gadgets: one makes the bits of an index, the other one climbs from a
leaf to the root as directions say. Here each is on its own, behind variables with any values, and
in the hands of whoever fills it in.

* `digits_of_filled`: what the bits of an index are filled with.
* `decomposeIndex_unique`: which numbers have so many bits in the field, and that each has them in
  one way only.
* `Condition.Demanded`: the demand on the bit of a direction.
* `merklePath_computes_root`: the root of a climb, whatever its directions are made of.
-/

namespace MerkleBatch.Circuit

open Builder

/-! ## The bits of an index -/

section Bits

variable {values : Array Scalar} {bits : List Scalar} {index first : Var} {depth : Nat}
  {scope : Label}

/-- Bits are made one after another. -/
theorem bitsFrom_ok {position : Nat} {r : Built (List Var)}
    (h : bitsFrom index position depth scope first = .ok r) :
    r.value = (List.range depth).map (fun j => ⟨first.number + j⟩) ∧ made r.steps = depth := by
  induction depth generalizing position first r with
  | zero =>
    obtain rfl := Except.ok.inj h
    exact ⟨rfl, rfl⟩
  | succ depth ih =>
    obtain ⟨a, c, ha, hc, rfl⟩ := bind_ok h
    obtain ⟨b, d, hb, hd, rfl⟩ := bind_ok hc
    obtain rfl := Except.ok.inj ha
    obtain rfl := Except.ok.inj hd
    obtain ⟨hvalue, hmade⟩ := ih hb
    refine ⟨?_, by simp [hmade]⟩
    show first :: b.value = _
    rw [hvalue, List.range_succ_eq_map, List.map_cons, List.map_map]
    refine congrArg _ (List.map_congr_left fun j _ => congrArg Var.mk ?_)
    show first.number + 1 + j = first.number + (j + 1)
    omega

/-- The directions of an index are the bits that are made for it, and nothing else is made. -/
theorem decomposeIndex_ok {r : Built (List Condition)}
    (h : decomposeIndex index depth scope first = .ok r) :
    r.value = (List.range depth).map (fun j => Condition.bit ⟨first.number + j⟩) ∧
      made r.steps = depth := by
  obtain ⟨bits, c, hbits, hc, rfl⟩ := bind_ok h
  obtain ⟨hvalue, hmade⟩ := bitsFrom_ok hbits
  obtain rfl := Except.ok.inj hc
  refine ⟨?_, by simp [hmade]⟩
  show bits.value.map Condition.bit = _
  rw [hvalue, List.map_map]
  rfl

/-- The bits of an index are filled with the binary digits of its representative. -/
theorem digits_of_filled {r : Built (List Condition)} (hd : depth ≤ maxIndexBits)
    (hi : index.number < values.size) (h : decomposeIndex index depth scope ⟨values.size⟩ = .ok r)
    (hlen : bits.length = depth)
    (hf : Filled (ofValues (values ++ bits.toArray)) values.size r.steps) :
    bits = (List.range depth).map fun j =>
      Scalar.ofBool ((ofValues values index).val.testBit j) := by
  have hbefore : index.Before ⟨values.size⟩ := hi
  obtain ⟨r', hr, -, -, hm⟩ := runs_decomposeIndex scope hd hbefore
  obtain rfl := hr.eq_of_ok h
  obtain ⟨hbits, hlow⟩ := (hm _).post hf
  rw [agreeBelow_append values bits index hi, Index.lowBits_eq_map] at hlow
  generalize hρ : ofValues (values ++ bits.toArray) = ρ at hbits hlow
  calc bits = r'.value.map fun c => c.comb.eval ρ := by
        rw [(decomposeIndex_ok h).1, List.map_map, ← hlen, ← hρ]
        simp only [Function.comp_def, Condition.comb, LinComb.eval_ofVar, map_ofValues_append]
    _ = (r'.value.map fun c => c.holds ρ).map Scalar.ofBool := by
        rw [List.map_map]
        exact List.map_congr_left hbits
    _ = _ := by
        rw [hlow, List.map_map]
        rfl

/-- Whatever number a variable has, as many bits are made for it as are asked for, and filled with
those that stand in the bytes of its representative. Values that meet the demands on these bits
exist exactly if the representative has no further ones. They are its binary digits and no others,
and the ones that are filled in. -/
theorem decomposeIndex_unique (scope : Label) (hd : depth ≤ maxIndexBits)
    (hi : index.number < values.size) :
    ∃ r, decomposeIndex index depth scope ⟨values.size⟩ = .ok r ∧
      (r.value = (List.range depth).map (fun j => Condition.bit ⟨values.size + j⟩) ∧
        fillFrom values r.steps = values ++ ((List.range depth).map fun j => Scalar.ofBool
          (((ofValues values index).toBytes[j / 8]?).any fun byte =>
            byte.toNat.testBit (j % 8))).toArray) ∧
      ((∃ bits : List Scalar, bits.length = depth ∧
          Satisfies (ofValues (values ++ bits.toArray)) r.steps) ↔
        (ofValues values index).val < 2 ^ depth) ∧
      ∀ bits : List Scalar, bits.length = depth →
        Satisfies (ofValues (values ++ bits.toArray)) r.steps →
        bits = (List.range depth).map (fun j =>
          Scalar.ofBool ((ofValues values index).val.testBit j)) ∧
        values ++ bits.toArray = fillFrom values r.steps := by
  have hbefore : index.Before ⟨values.size⟩ := hi
  obtain ⟨r, hr, -, -, hm⟩ := runs_decomposeIndex scope hd hbefore
  obtain ⟨hvalue, hmade⟩ := decomposeIndex_ok hr.run_eq
  obtain ⟨r', hr', hfits⟩ := satisfies_fillFrom_iff scope hd hi
  obtain rfl := hr.eq_of_ok hr'
  obtain ⟨own, hown, hfill⟩ := exists_fillFrom_eq_append values r.steps
  have hfilled := (filled_fillFrom values hr.makes.causal).1
  rw [hfill] at hfilled
  have hunique : ∀ bits : List Scalar, bits.length = depth →
      Satisfies (ofValues (values ++ bits.toArray)) r.steps →
      values ++ bits.toArray = fillFrom values r.steps := fun bits hlen hsat =>
    append_eq_fillFrom hr.makes.causal (hlen.trans hmade.symm) ((hm _).pinned hsat)
  refine ⟨r, hr.run_eq, ⟨hvalue, ?_⟩, ⟨?_, fun hlt => ?_⟩, fun bits hlen hsat => ⟨?_, ?_⟩⟩
  · rw [hfill, digits_of_filled hd hi hr.run_eq (hown.trans hmade) hfilled]
    simp only [← Scalar.bit_eq_byte, Scalar.bit]
  · rintro ⟨bits, hlen, hsat⟩
    rw [hunique bits hlen hsat] at hsat
    exact hfits.mp hsat
  · refine ⟨own, hown.trans hmade, ?_⟩
    rw [← hfill]
    exact hfits.mpr hlt
  · exact digits_of_filled hd hi hr.run_eq hlen ((hm _).pinned hsat)
  · exact hunique bits hlen hsat

/-- Four bits for the number 6 can have one list of values. Those for the greatest scalar, 254 of
its 255, can have none. -/
theorem decomposeIndex_unique_six :
    (∃ r, decomposeIndex ⟨0⟩ 4 ["bits"] ⟨1⟩ = .ok r ∧ ∀ bits : List Scalar, bits.length = 4 →
      (Satisfies (ofValues (#[6] ++ bits.toArray)) r.steps ↔ bits = [0, 1, 1, 0])) ∧
    ∃ r, decomposeIndex ⟨0⟩ 254 ["bits"] ⟨1⟩ = .ok r ∧ ¬ ∃ bits : List Scalar, bits.length = 254 ∧
      Satisfies (ofValues (#[-1] ++ bits.toArray)) r.steps := by
  have hsix : (⟨0⟩ : Var).number < #[(6 : Scalar)].size := Nat.zero_lt_one
  have hlast : (⟨0⟩ : Var).number < #[(-1 : Scalar)].size := Nat.zero_lt_one
  have hfour : 4 ≤ maxIndexBits := by decide
  have hmax : 254 ≤ maxIndexBits := by decide
  obtain ⟨r, hr, -, hexists, hunique⟩ := decomposeIndex_unique ["bits"] hfour hsix
  obtain ⟨q, hq, -, hnone, -⟩ := decomposeIndex_unique ["bits"] hmax hlast
  refine ⟨⟨r, hr, fun bits hlen => ⟨fun hsat => (hunique bits hlen hsat).1, fun heq => ?_⟩⟩,
    q, hq, hnone.not.mpr (by decide)⟩
  obtain ⟨own, hown, hsat⟩ := hexists.mpr (by decide)
  have hdigits : own = [0, 1, 1, 0] := (hunique own hown hsat).1
  rwa [heq, ← hdigits]

end Bits

/-! ## Paths -/

section Paths

namespace Condition

/-- The demand that was made of the bit of a condition when it was made; a constant has no bit. -/
def Demanded (ρ : Assignment) : Condition → Prop
  | bit v | negated v => LinComb.eval ρ (1 - v) * LinComb.eval ρ v = LinComb.eval ρ 0
  | const _ => True

variable {ρ σ : Assignment} {first v : Var} {c : Condition}

theorem demanded_bit_iff : (bit v).Demanded ρ ↔ ∃ b, ρ v = Scalar.ofBool b := by
  unfold Demanded
  simp only [LinComb.eval_sub, LinComb.eval_one, LinComb.eval_ofVar, LinComb.eval_zero]
  rw [Scalar.boolean_iff, Bool.exists_bool]

/-- The bit that is made for a condition meets its constraints exactly if it meets this demand. -/
theorem satisfies_bit_iff {name : String} {fill : Assignment → Bool} {scope : Label}
    {r : Built Var} (h : Circuit.bit name fill scope first = .ok r) :
    Satisfies ρ r.steps ↔ (bit r.value).Demanded ρ := by
  obtain rfl := Except.ok.inj h
  simp [Satisfies, Step.Holds, Demanded]

theorem isBit_of_demanded (h : c.Demanded ρ) : c.IsBit ρ := by
  cases c with
  | bit v =>
    obtain ⟨b, hb⟩ := demanded_bit_iff.mp h
    exact isBit_bit hb
  | negated v =>
    obtain ⟨b, hb⟩ := demanded_bit_iff.mp h
    exact isBit_negated hb
  | const b => exact isBit_const b

/-- The demand on the bit of a condition looks at that bit only. -/
theorem Demanded.congr (h : c.Demanded ρ) (hc : c.Before first)
    (hagree : AgreeBelow first.number ρ σ) : c.Demanded σ := by
  have hbit : ∀ {v : Var}, v.Before first → (bit v).Demanded ρ → (bit v).Demanded σ :=
    fun {v} hv hdemand => by
      rw [demanded_bit_iff] at hdemand ⊢
      rwa [← hagree v hv]
  cases c with
  | bit v => exact hbit hc h
  | negated v => exact hbit hc h
  | const b => trivial

end Condition

/-- The climb from a leaf, with directions that are bits, negated bits or constants. If there are
more directions than siblings, or fewer, the gadget fails, and leaves no variable and no step behind.
Otherwise the directions are sides under every assignment that satisfies it, and the result is the
hash that the leaf and the siblings lead to on these sides, whatever else the assignment does: the
root of the path, if they are the bits of an index. The values that the gadget fills in satisfy
it. -/
theorem merklePath_computes_root (scope : Label) {first leaf : Var} {siblings : List Var}
    {directions : List Condition} (hleaf : leaf.Before first)
    (hsiblings : ∀ v ∈ siblings, v.Before first) (hdirections : ∀ c ∈ directions, c.Before first) :
    (siblings.length ≠ directions.length →
      merklePath leaf siblings directions scope first = .error ⟨.unsatisfiable, first, []⟩) ∧
    (siblings.length = directions.length →
      ∃ r, merklePath leaf siblings directions scope first = .ok r ∧
        (∀ ρ, (∀ c ∈ directions, c.Demanded ρ) → Satisfies ρ r.steps →
          ∃ sides, directions.map (fun c => c.comb.eval ρ) = sides.map Scalar.ofBool ∧
            ρ r.value = Path.climb (ρ leaf) ((siblings.map ρ).zip sides) ∧
            ∀ index : UInt64, siblings.length ≤ wordBits →
              sides = Index.bits index siblings.length →
              Path.root? (ρ leaf) index (siblings.map ρ) = .ok (ρ r.value)) ∧
        ∀ values : Array Scalar, values.size = first.number →
          (∀ c ∈ directions, c.Demanded (ofValues values)) →
          AgreeBelow first.number (ofValues values) (ofValues (fillFrom values r.steps)) ∧
            Satisfies (ofValues (fillFrom values r.steps)) r.steps) := by
  refine ⟨fun hlen => ?_, fun hlen => ?_⟩
  · rw [merklePath, if_pos hlen]
    rfl
  obtain ⟨r, hr, -, hm⟩ := runs_merklePath scope hlen hleaf hsiblings hdirections
  refine ⟨r, hr.run_eq, fun ρ hdemanded hsat => ?_, fun values hsize hdemanded => ?_⟩
  · have hbits : ∀ c ∈ directions, c.IsBit ρ := fun c hc =>
      Condition.isBit_of_demanded (hdemanded c hc)
    have hroot := (hm ρ hbits).post_of_satisfies hsat
    refine ⟨directions.map fun c => c.holds ρ, ?_, hroot, fun index hword hsides => ?_⟩
    · rw [List.map_map]
      exact List.map_congr_left hbits
    · rw [Path.root?_of_length_le (by rwa [List.length_map]), hroot, hsides, Path.root_eq_climb,
        Index.bits_eq_lowBits, List.length_map]
  · have hcausal := hr.makes.causal
    rw [← hsize] at hcausal
    obtain ⟨hfilled, hagree⟩ := filled_fillFrom values hcausal
    rw [hsize] at hfilled hagree
    refine ⟨hagree, (hm _ fun c hc => ?_).satisfies_iff.mpr ⟨hfilled, rfl⟩⟩
    exact Condition.isBit_of_demanded ((hdemanded c hc).congr (hdirections c hc) hagree)

/-- A leaf and three siblings, with a bit, its negation and a constant for directions. Whoever fills
in the circuit chooses the bit and nothing else: the root is that of the path at 5 or at 6. -/
theorem merklePath_computes_root_threeKinds :
    merklePath ⟨0⟩ [⟨1⟩, ⟨2⟩, ⟨3⟩] [.bit ⟨4⟩, .const true] ["path"] ⟨5⟩ =
      .error ⟨.unsatisfiable, ⟨5⟩, []⟩ ∧
    ∃ direction r, bit "direction" (fun _ => true) [] ⟨4⟩ = .ok direction ∧
      merklePath ⟨0⟩ [⟨1⟩, ⟨2⟩, ⟨3⟩] [.bit direction.value, .negated direction.value, .const true]
        ["path"] direction.next = .ok r ∧
      Satisfies (ofValues (fillFrom #[7, 8, 9, 10, 1] r.steps)) r.steps ∧
      ∀ ρ, ρ ⟨0⟩ = 7 ∧ ρ ⟨1⟩ = 8 ∧ ρ ⟨2⟩ = 9 ∧ ρ ⟨3⟩ = 10 → Satisfies ρ direction.steps →
        Satisfies ρ r.steps →
        Path.root? 7 5 [8, 9, 10] = .ok (ρ r.value) ∨
          Path.root? 7 6 [8, 9, 10] = .ok (ρ r.value) := by
  have hleaf : (⟨0⟩ : Var).Before ⟨5⟩ := Nat.zero_lt_succ 4
  have hsiblings : ∀ v ∈ [(⟨1⟩ : Var), ⟨2⟩, ⟨3⟩], v.Before ⟨5⟩ := by simp [Var.Before]
  have hfewer : ∀ c ∈ [Condition.bit ⟨4⟩, .const true], c.Before ⟨5⟩ := by
    simp [Condition.Before, Var.Before]
  have hdirections : ∀ c ∈ [Condition.bit ⟨4⟩, .negated ⟨4⟩, .const true], c.Before ⟨5⟩ := by
    simp [Condition.Before, Var.Before]
  have hdemanded : ∀ {ρ : Assignment}, (Condition.bit ⟨4⟩).Demanded ρ →
      ∀ c ∈ [Condition.bit ⟨4⟩, .negated ⟨4⟩, .const true], c.Demanded ρ := fun h => by
    simp only [List.forall_mem_cons]
    exact ⟨h, h, trivial, by simp⟩
  have hset : (Condition.bit ⟨4⟩).Demanded (ofValues #[7, 8, 9, 10, 1]) :=
    Condition.demanded_bit_iff.mpr ⟨true, rfl⟩
  have hinj : Function.Injective Scalar.ofBool := by decide
  obtain ⟨hnone, -⟩ := merklePath_computes_root ["path"] hleaf hsiblings hfewer
  obtain ⟨-, hsome⟩ := merklePath_computes_root ["path"] hleaf hsiblings hdirections
  obtain ⟨r, hr, hsound, hhonest⟩ := hsome rfl
  refine ⟨hnone (by decide), _, r, rfl, hr, (hhonest _ rfl (hdemanded hset)).2,
    fun ρ hinputs hmade hsat => ?_⟩
  obtain ⟨h0, h1, h2, h3⟩ := hinputs
  have hbit : (Condition.bit ⟨4⟩).Demanded ρ := (Condition.satisfies_bit_iff rfl).mp hmade
  obtain ⟨sides, hsides, -, hroot⟩ := hsound ρ (hdemanded hbit) hsat
  obtain ⟨b, hb⟩ := Condition.demanded_bit_iff.mp hbit
  simp only [List.map_cons, List.map_nil, h0, h1, h2, h3] at hroot
  have hsides' : sides = [b, !b, true] := by
    refine List.map_injective_iff.mpr hinj (hsides.symm.trans ?_)
    cases b <;> simp [Condition.comb, hb]
  cases b with
  | true => exact .inl (hroot 5 (by decide) hsides')
  | false => exact .inr (hroot 6 (by decide) hsides')

end Paths

end MerkleBatch.Circuit
