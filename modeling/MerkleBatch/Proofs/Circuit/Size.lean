import MerkleBatch.Proofs.Circuit.Transition
import MerkleBatch.Prover
import Mathlib.Tactic.Ring

/-!
# The size of a circuit

A compiled circuit is recognised by its numbers of constraints and variables alone. They are
counted gadget by gadget, and the two counts of the whole circuit determine its depth and its batch
size, so no circuit passes for one of another shape.

* `Costs b size property`: the gadget runs wherever it stands, its value has the property, and its
  steps have this size. `Costs.bind` adds up two gadgets.
* `costs_hashTagged`, `costs_merklePath`, `costs_insertOne`: the gadgets that make up the counts.
* `costs_circuit`: the whole circuit, filled with any witness of its shape.
* `shapeSize_injective`: the counts tell shapes apart.
* `size_identifies_shape`: and so does the comparison of sizes, whatever compiling adds to them.
-/

namespace MerkleBatch.Circuit

open Builder

/-! ## Sizes of steps -/

namespace Size

/-- Counting up, step by step, comes to a sum. -/
theorem foldl_add_eq_sum (count : Step → Nat) (steps : List Step) :
    steps.foldl (fun n s => n + count s) 0 = (steps.map count).sum := by
  rw [List.sum_eq_foldl, List.foldl_map]

theorem ofSteps_append (s t : List Step) : ofSteps (s ++ t) = ofSteps s + ofSteps t := by
  unfold ofSteps Circuit.constraintCount Circuit.variableCount
  ext
  · simp only [foldl_add_eq_sum, List.map_append, List.sum_append, constraintCount_add]
  · simp only [foldl_add_eq_sum, List.map_append, List.sum_append, variableCount_add]

end Size

/-! ## Counting -/

/-- The gadget runs in every scope and from every variable on; its value has the property, and its
steps have this size. -/
def Costs {α : Type} (b : Builder α) (size : Size) (property : α → Prop) : Prop :=
  ∀ scope first, ∃ r, b scope first = .ok r ∧ property r.value ∧ Size.ofSteps r.steps = size

namespace Costs

variable {α β : Type} {b : Builder α} {f : α → Builder β} {s t : Size} {p : α → Prop}
  {q : β → Prop}

theorem pure {a : α} (h : p a) : Costs (Pure.pure a : Builder α) ⟨0, 0⟩ p := by
  intro scope first
  exact ⟨⟨a, first, []⟩, rfl, h, rfl⟩

theorem alloc (name : String) (fill : Assignment → Scalar) :
    Costs (Builder.alloc name fill) ⟨0, 1⟩ fun _ => True := by
  intro scope first
  exact ⟨_, rfl, trivial, rfl⟩

theorem enforce (name : String) (a b c : LinComb) :
    Costs (Builder.enforce name a b c) ⟨1, 0⟩ fun _ => True := by
  intro scope first
  exact ⟨_, rfl, trivial, rfl⟩

theorem sponge (name : String) (tag x y out : Var) :
    Costs (Builder.sponge name tag x y out) ⟨475, 474⟩ fun _ => True := by
  intro scope first
  exact ⟨_, rfl, trivial, rfl⟩

theorem within (name : String) (h : Costs b s p) : Costs (Builder.within name b) s p := by
  intro scope first
  exact h (name :: scope) first

/-- The steps of two gadgets add up; the second one may rely on the value of the first. -/
theorem bind (hb : Costs b s p) (hf : ∀ a, p a → Costs (f a) t q) :
    Costs (b >>= f) (s + t) q := by
  intro scope first
  obtain ⟨r, hr, hvalue, hsize⟩ := hb scope first
  obtain ⟨r', hr', hvalue', hsize'⟩ := hf r.value hvalue scope r.next
  refine ⟨r.andThen r', ?_, hvalue', ?_⟩
  · rw [run_bind, hr]
    simp only [hr']
  · rw [Built.andThen, Size.ofSteps_append, hsize, hsize']

/-- The same size in other words. -/
theorem of_eq (h : Costs b s p) (hs : s = t) : Costs b t p := hs ▸ h

end Costs

/-! ## Elementary gadgets -/

theorem costs_number (name : String) (fill : Assignment → Scalar) :
    Costs (number name fill) ⟨0, 1⟩ fun _ => True := (Costs.alloc "num" fill).within name

theorem costs_given (name : String) (value : Scalar) :
    Costs (given name value) ⟨0, 1⟩ fun _ => True := costs_number name fun _ => value

theorem costs_enforceEqual (name : String) (a b : Var) :
    Costs (enforceEqual name a b) ⟨1, 0⟩ fun _ => True := (Costs.enforce "equal" a 1 b).within name

theorem costs_bit (name : String) (fill : Assignment → Bool) :
    Costs (bit name fill) ⟨1, 1⟩ fun _ => True := by
  unfold bit
  refine .within name ?_
  exact ((Costs.alloc _ _).bind fun v _ =>
    (Costs.enforce _ _ _ _).bind fun _ _ => .pure trivial).of_eq rfl

theorem costs_conditionalSelect (condition : Condition) (ifFalse ifTrue : Var) :
    Costs (conditionalSelect condition ifFalse ifTrue) ⟨1, 1⟩ fun _ => True := by
  unfold conditionalSelect
  exact ((costs_number _ _).bind fun result _ =>
    (Costs.enforce _ _ _ _).bind fun _ _ => .pure trivial).of_eq rfl

theorem costs_orderedPair (swap : Condition) (current sibling : Var) :
    Costs (orderedPair swap current sibling) ⟨2, 2⟩ fun _ => True := by
  unfold orderedPair
  exact (((costs_conditionalSelect _ _ _).within _).bind fun left _ =>
    ((costs_conditionalSelect _ _ _).within _).bind fun right _ => .pure trivial).of_eq rfl

/-! ## Hashes -/

/-- A hash is a tag that is held to its constant, an output, and a sponge between them. -/
theorem costs_hashTagged (tag : Scalar) (x y : Var) :
    Costs (hashTagged tag x y) ⟨476, 476⟩ fun _ => True := by
  unfold hashTagged
  refine .within _ ?_
  exact ((costs_given _ _).bind fun tagVar _ =>
    (Costs.enforce _ _ _ _).bind fun _ _ =>
    (costs_number _ _).bind fun out _ =>
    (Costs.sponge _ _ _ _ _).bind fun _ _ => .pure trivial).of_eq rfl

theorem costs_bindList (bound : Var) (place : Nat) (values : List Var) :
    Costs (bindList bound place values) ⟨476 * values.length, 476 * values.length⟩
      fun _ => True := by
  induction values generalizing bound place with
  | nil => exact .pure trivial
  | cons value rest ih =>
    refine (((costs_hashTagged _ _ _).within _).bind fun next _ => ih next _).of_eq ?_
    ext <;> simp <;> omega

theorem costs_inputHash (start preRoot postRoot : Var) (commitments : List Var) :
    Costs (inputHash start preRoot postRoot commitments)
      ⟨476 * (commitments.length + 2), 476 * (commitments.length + 2)⟩ fun _ => True := by
  unfold inputHash
  refine Costs.of_eq (((costs_hashTagged _ _ _).within _).bind fun first _ =>
    ((costs_hashTagged _ _ _).within _).bind fun second _ => costs_bindList second 0 _) ?_
  ext <;> simp <;> omega

/-! ## Paths -/

theorem costs_bitsFrom (number : Var) (position count : Nat) :
    Costs (bitsFrom number position count) ⟨count, count⟩ fun vs => vs.length = count := by
  induction count generalizing position with
  | zero => exact .pure rfl
  | succ count ih =>
    refine ((costs_bit _ _).bind fun b _ => (ih _).bind fun bs hbs => .pure ?_).of_eq ?_
    · rw [List.length_cons, hbs]
    · ext <;> simp <;> omega

theorem costs_decomposeIndex (index : Var) (depth : Nat) :
    Costs (decomposeIndex index depth) ⟨depth + 1, depth⟩ fun cs => cs.length = depth := by
  unfold decomposeIndex
  refine ((costs_bitsFrom index 0 depth).bind fun bs hbs =>
    (Costs.enforce _ _ _ _).bind fun _ _ => .pure ?_).of_eq rfl
  rw [List.length_map, hbs]

theorem costs_pathRound (direction : Condition) (current sibling : Var) :
    Costs (pathRound direction current sibling) ⟨478, 478⟩ fun _ => True := by
  unfold pathRound
  exact (((costs_orderedPair _ _ _).within _).bind fun _ _ =>
    (costs_hashTagged _ _ _).within _).of_eq rfl

theorem costs_pathFrom (level : Nat) (current : Var) (rounds : List (Var × Condition)) :
    Costs (pathFrom level current rounds) ⟨478 * rounds.length, 478 * rounds.length⟩
      fun _ => True := by
  induction rounds generalizing level current with
  | nil => exact .pure trivial
  | cons round rest ih =>
    refine (((costs_pathRound _ _ _).within _).bind fun next _ => ih _ next).of_eq ?_
    ext <;> simp <;> omega

theorem costs_merklePath (leaf : Var) {siblings : List Var} {directions : List Condition}
    (h : siblings.length = directions.length) :
    Costs (merklePath leaf siblings directions) ⟨478 * siblings.length, 478 * siblings.length⟩
      fun _ => True := by
  unfold merklePath
  rw [if_neg (not_not_intro h)]
  refine (costs_pathFrom 0 leaf (siblings.zip directions)).of_eq ?_
  simp [h]

/-! ## Insertions -/

theorem costs_emptyLeaf : Costs emptyLeaf ⟨1, 1⟩ fun _ => True := by
  unfold emptyLeaf
  exact ((costs_given _ _).bind fun v _ =>
    (Costs.enforce _ _ _ _).bind fun _ _ => .pure trivial).of_eq rfl

/-- An insertion climbs its path twice; besides that it has an index and the bits of the index. -/
theorem costs_insertOne (empty start current : Var) (offset : Nat) (leaf : Var)
    (siblings : List Var) :
    Costs (insertOne siblings.length empty start current offset leaf siblings)
      ⟨957 * siblings.length + 3, 957 * siblings.length + 1⟩ fun _ => True := by
  unfold insertOne
  refine Costs.of_eq ((costs_number _ _).bind fun index _ =>
    (Costs.enforce _ _ _ _).bind fun _ _ =>
    ((costs_decomposeIndex index siblings.length).within _).bind fun directions hdirections =>
    ((costs_merklePath empty hdirections.symm).within _).bind fun found _ =>
    (costs_enforceEqual _ _ _).bind fun _ _ =>
    (costs_merklePath leaf hdirections.symm).within _) ?_
  ext <;> simp <;> omega

theorem costs_insertFrom {depth : Nat} (empty start current : Var) (offset : Nat)
    {insertions : List (Var × List Var)} (h : ∀ i ∈ insertions, i.2.length = depth) :
    Costs (insertFrom depth empty start current offset insertions)
      ⟨insertions.length * (957 * depth + 3), insertions.length * (957 * depth + 1)⟩
      fun _ => True := by
  induction insertions generalizing current offset with
  | nil => exact (Costs.pure trivial).of_eq (by simp)
  | cons insertion rest ih =>
    obtain ⟨rfl, hrest⟩ := List.forall_mem_cons.mp h
    refine (((costs_insertOne _ _ _ _ _ _).within _).bind fun next _ => ih next _ hrest).of_eq ?_
    ext <;> simp <;> ring

theorem costs_insertBatch (preRoot start : Var) {depth : Nat} {commitments : List Var}
    {proofs : List (List Var)} (hlen : commitments.length = proofs.length)
    (hp : ∀ siblings ∈ proofs, siblings.length = depth) :
    Costs (insertBatch preRoot start commitments proofs depth)
      ⟨commitments.length * (957 * depth + 3) + 1, commitments.length * (957 * depth + 1) + 1⟩
      fun _ => True := by
  have hfits : ¬ (decide (commitments.length ≠ proofs.length) ||
      proofs.any fun siblings => decide (siblings.length ≠ depth)) = true := by
    simpa [hlen] using hp
  unfold insertBatch
  rw [if_neg hfits]
  have hinsertions : ∀ i ∈ commitments.zip proofs, i.2.length = depth := by
    intro i hi
    exact hp _ (List.of_mem_zip hi).2
  refine ((costs_emptyLeaf.within _).bind fun empty _ =>
    costs_insertFrom empty start preRoot 0 hinsertions).of_eq ?_
  ext <;> simp [hlen] <;> omega

/-! ## The circuit -/

theorem costs_givenList (label : Nat → String) (first : Nat) (values : List Scalar) :
    Costs (givenList label first values) ⟨0, values.length⟩
      fun vs => vs.length = values.length := by
  induction values generalizing first with
  | nil => exact .pure rfl
  | cons value rest ih =>
    refine ((costs_given _ _).bind fun v _ => (ih _).bind fun vs hvs => .pure ?_).of_eq ?_
    · rw [List.length_cons, hvs, List.length_cons]
    · ext
      · simp
      · simp
        omega

theorem costs_givenProofs (label : Nat → Nat → String) (first : Nat) {depth : Nat}
    {proofs : List (List Scalar)} (h : ∀ siblings ∈ proofs, siblings.length = depth) :
    Costs (givenProofs label first proofs) ⟨0, proofs.length * depth⟩
      fun vss => vss.length = proofs.length ∧ ∀ vs ∈ vss, vs.length = depth := by
  induction proofs generalizing first with
  | nil => exact (Costs.pure ⟨rfl, by simp⟩).of_eq (by simp)
  | cons siblings rest ih =>
    obtain ⟨hsiblings, hrest⟩ := List.forall_mem_cons.mp h
    refine ((costs_givenList _ 0 siblings).bind fun vs hvs =>
      (ih _ hrest).bind fun vss hvss => .pure ?_).of_eq ?_
    · exact ⟨by simp [hvss.1], List.forall_mem_cons.mpr ⟨hvs.trans hsiblings, hvss.2⟩⟩
    · ext
      · simp
      · simp [hsiblings]
        ring

/-- The demands of the circuit: the input hash, the insertions, and an equality for each. -/
theorem costs_demands {depth size : Nat} (publicHash start preRoot postRoot : Var)
    {commitments : List Var} {proofs : List (List Var)} (hc : commitments.length = size)
    (hp : proofs.length = size) (hl : ∀ siblings ∈ proofs, siblings.length = depth) :
    Costs (demands depth publicHash start preRoot postRoot commitments proofs)
      ⟨955 + size * (957 * depth + 479), 953 + size * (957 * depth + 477)⟩ fun _ => True := by
  unfold demands
  refine Costs.of_eq (((costs_inputHash start preRoot postRoot commitments).within _).bind
    fun bound _ => (costs_enforceEqual _ bound publicHash).bind fun _ _ =>
    ((costs_insertBatch preRoot start (hc.trans hp.symm) hl).within _).bind fun final _ =>
    (costs_enforceEqual _ final postRoot).bind fun _ _ => .pure trivial) ?_
  rw [hc]
  ext <;> simp <;> ring

theorem costs_transition {depth size : Nat} {w : Witness} (hw : w.hasShape depth size)
    {z : List Var} (hz : z.length = 1) :
    Costs (transition depth size w z)
      ⟨955 + size * (957 * depth + 479), 956 + size * (958 * depth + 478)⟩ fun _ => True := by
  obtain ⟨publicHash, rfl⟩ := List.length_eq_one_iff.mp hz
  obtain ⟨hcommitments, hproofs, hlengths⟩ := Witness.hasShape_iff.mp hw
  rw [transition, if_neg (by simp [hw])]
  refine Costs.of_eq ((costs_given _ _).bind fun start _ =>
    (costs_given _ _).bind fun preRoot _ =>
    (costs_given _ _).bind fun postRoot _ =>
    (costs_givenList _ 0 w.commitments).bind fun commitments hc =>
    (costs_givenProofs _ 0 hlengths).bind fun proofs hp =>
    costs_demands publicHash start preRoot postRoot (hc.trans hcommitments)
      (hp.1.trans hproofs) hp.2) ?_
  rw [hcommitments, hproofs]
  ext
  · simp
  · simp
    ring

/-- The size of the circuit for `size` insertions into a tree of depth `depth`. -/
def shapeSize (depth size : Nat) : Size :=
  ⟨955 + size * (957 * depth + 479), 957 + size * (958 * depth + 478)⟩

/-- The circuit is built for every witness of its shape, and is always of the same size. -/
theorem costs_circuit {depth size : Nat} {w : Witness} (hw : w.hasShape depth size) (z : Scalar) :
    Costs (circuit depth size w [z]) (shapeSize depth size) fun _ => True := by
  unfold circuit
  refine ((costs_givenList _ 0 [z]).bind fun zs hzs => costs_transition hw hzs).of_eq ?_
  ext
  · simp [shapeSize]
  · simp [shapeSize]
    omega

/-! ## Telling shapes apart -/

/-- The two counts are linear in the batch size and in the number of levels that it climbs, with
coefficients that are not proportional. -/
theorem shapeSize_injective {depth size depth' size' : Nat} (hsize : 1 ≤ size)
    (h : shapeSize depth size = shapeSize depth' size') : depth = depth' ∧ size = size' := by
  obtain ⟨hconstraints, hvariables⟩ := Size.mk.inj h
  have hc : ∀ n d : Nat, n * (957 * d + 479) = 957 * (n * d) + 479 * n := by
    intro n d
    ring
  have hv : ∀ n d : Nat, n * (958 * d + 478) = 958 * (n * d) + 478 * n := by
    intro n d
    ring
  rw [hc, hc] at hconstraints
  rw [hv, hv] at hvariables
  have hsizes : size = size' := by omega
  subst hsizes
  have hlevels : size * depth = size * depth' := by omega
  exact ⟨Nat.eq_of_mul_eq_mul_left hsize hlevels, rfl⟩

section

variable {s s' : Shape} {size extra compiled : Size} {compiler : Shape → Except Error Size}

theorem stepSize_eq_ok_iff :
    Prover.stepSize s = .ok size ↔
      s.validate = .ok () ∧ size = shapeSize s.treeDepth.toNat s.batchSize.toNat := by
  obtain ⟨built, hbuilt, -, hsize⟩ :=
    costs_circuit (Witness.hasShape_blank s.treeDepth.toNat s.batchSize.toNat) 0 [] ⟨0⟩
  have hcircuit : s.circuitSize = .ok (shapeSize s.treeDepth.toNat s.batchSize.toNat) := by
    unfold Shape.circuitSize
    have hrun : (circuitOfShape s).build = .ok built := build_eq_ok_iff.mpr hbuilt
    simp only [hrun, hsize]
  unfold Prover.stepSize
  cases hs : s.validate with
  | error error => simp
  | ok _ => simp [hcircuit, Except.mapError, eq_comm]

/-- Where compiling adds the same to every circuit, this is what the smallest shape shows. -/
theorem overhead_eq (h : ∀ s, compiler s = (Prover.stepSize s).map (· + extra)) :
    Prover.overhead compiler = .ok extra := by
  have hstep : Prover.stepSize Prover.smallest = .ok (shapeSize 1 1) :=
    stepSize_eq_ok_iff.mpr ⟨rfl, rfl⟩
  have hcompiled : compiler Prover.smallest = .ok (shapeSize 1 1 + extra) := by
    rw [h, hstep]
    rfl
  have hrest : shapeSize 1 1 + extra - shapeSize 1 1 = extra := by
    ext <;> simp
  unfold Prover.overhead
  simp only [hcompiled, hstep, hrest]

/-- A compiled circuit passes for that of a shape exactly if it was compiled for this shape. -/
theorem checkSize_eq_ok_iff (h : ∀ s, compiler s = (Prover.stepSize s).map (· + extra))
    (hs : compiler s = .ok compiled) :
    Prover.checkSize compiler s' compiled = .ok () ↔ s' = s := by
  obtain ⟨step, hstep, hadded⟩ : ∃ step, Prover.stepSize s = .ok step ∧
      compiled = extra + step := by
    rw [h] at hs
    cases hstep : Prover.stepSize s with
    | error error =>
      rw [hstep] at hs
      cases hs
    | ok step =>
      rw [hstep] at hs
      obtain rfl := Except.ok.inj hs
      refine ⟨step, rfl, ?_⟩
      ext <;> simp [Nat.add_comm]
  obtain ⟨hvalid, hsize⟩ := stepSize_eq_ok_iff.mp hstep
  unfold Prover.checkSize
  simp only [overhead_eq h]
  constructor
  · intro hcheck
    cases hstep' : Prover.stepSize s' with
    | error error =>
      rw [hstep'] at hcheck
      cases hcheck
    | ok step' =>
      obtain ⟨-, hsize'⟩ := stepSize_eq_ok_iff.mp hstep'
      rw [hstep'] at hcheck
      by_cases hsame : compiled = extra + step'
      · -- the same was added to both circuits, so the bare ones have the same size
        have hbare : shapeSize s.treeDepth.toNat s.batchSize.toNat =
            shapeSize s'.treeDepth.toNat s'.batchSize.toNat := by
          rw [← hsize, ← hsize']
          rw [hadded, Size.ext_iff] at hsame
          ext
          · simpa using hsame.1
          · simpa using hsame.2
        have hpos := (Shape.validate_eq_ok_iff.mp hvalid).2.1
        obtain ⟨hdepth, hbatch⟩ := shapeSize_injective hpos hbare
        cases s
        cases s'
        simp_all [UInt32.toNat_inj]
      · simp only [if_neg hsame] at hcheck
        cases hcheck
  · rintro rfl
    rw [hstep]
    simp only [if_pos hadded]

/-- The blank circuit of every depth and batch size has these counts, and no circuit with another
depth or batch size has both of them. So whatever a compiler adds, as long as it adds the same to
every circuit, what it compiles for one shape is never taken for the circuit of another one. -/
theorem size_identifies_shape :
    (∀ depth size, ∃ built, (circuit depth size (Witness.blank depth size) [0]).build = .ok built ∧
      Size.ofSteps built.steps =
        ⟨955 + size * (957 * depth + 479), 957 + size * (958 * depth + 478)⟩) ∧
    (∀ s, s.validate = .ok () →
      Prover.stepSize s = .ok (shapeSize s.treeDepth.toNat s.batchSize.toNat)) ∧
    (∀ depth size depth' size' built built', 1 ≤ size → 1 ≤ size' →
      (circuit depth size (Witness.blank depth size) [0]).build = .ok built →
      (circuit depth' size' (Witness.blank depth' size') [0]).build = .ok built' →
      Size.ofSteps built.steps = Size.ofSteps built'.steps → depth = depth' ∧ size = size') ∧
    ∀ (compiler : Shape → Except Error Size) (extra : Size),
      (∀ s, compiler s = (Prover.stepSize s).map (· + extra)) →
      ∀ s s' compiled, compiler s = .ok compiled →
        (Prover.checkSize compiler s' compiled = .ok () ↔ s' = s) := by
  have hcost : ∀ depth size, ∃ built,
      (circuit depth size (Witness.blank depth size) [0]).build = .ok built ∧
      Size.ofSteps built.steps = shapeSize depth size := by
    intro depth size
    obtain ⟨built, hbuilt, -, hsize⟩ := costs_circuit (Witness.hasShape_blank depth size) 0 [] ⟨0⟩
    exact ⟨built, build_eq_ok_iff.mpr hbuilt, hsize⟩
  refine ⟨hcost, fun s hs => stepSize_eq_ok_iff.mpr ⟨hs, rfl⟩, ?_,
    fun _ _ h s s' compiled => checkSize_eq_ok_iff h⟩
  intro depth size depth' size' built built' hsize _ hbuilt hbuilt' heq
  obtain ⟨_, hrun, hcount⟩ := hcost depth size
  obtain ⟨_, hrun', hcount'⟩ := hcost depth' size'
  obtain rfl := Except.ok.inj (hbuilt.symm.trans hrun)
  obtain rfl := Except.ok.inj (hbuilt'.symm.trans hrun')
  exact shapeSize_injective hsize (hcount.symm.trans (heq.trans hcount'))

/-- With ten thousand constraints and variables added to every circuit, the one of two insertions
into a tree of depth 1 passes for its own shape, but not for that of one insertion into a tree of
depth 2. -/
theorem size_identifies_shape_folded :
    let compiler := fun s => (Prover.stepSize s).map (· + ⟨10000, 10001⟩)
    compiler ⟨1, 2⟩ = .ok ⟨13827, 13830⟩ ∧
      Prover.checkSize compiler ⟨1, 2⟩ ⟨13827, 13830⟩ = .ok () ∧
      Prover.checkSize compiler ⟨2, 1⟩ ⟨13827, 13830⟩ ≠ .ok () := by
  intro compiler
  have hcompiled : compiler ⟨1, 2⟩ = .ok ⟨13827, 13830⟩ := by
    have hstep : Prover.stepSize ⟨1, 2⟩ = .ok ⟨3827, 3829⟩ := stepSize_eq_ok_iff.mpr ⟨rfl, rfl⟩
    simp only [compiler, hstep]
    rfl
  obtain ⟨-, -, -, hadd⟩ := size_identifies_shape
  have hcheck := hadd compiler ⟨10000, 10001⟩ fun _ => rfl
  exact ⟨hcompiled, (hcheck _ _ _ hcompiled).mpr rfl, mt (hcheck _ _ _ hcompiled).mp (by decide)⟩

end

end MerkleBatch.Circuit
