import MerkleBatch.Circuit.Gadget
import MerkleBatch.Path
import MerkleBatch.Proofs.Circuit.Logic
import MerkleBatch.Proofs.Index

/-!
# What gadgets compute

A gadget that demands nothing of older variables pins every variable that it makes: an assignment
satisfies its constraints exactly if it is filled for them, and then the gadget's result is the
native function of its inputs.

* `runs_conditionalSelect`, `runs_orderedPair`: selection, for a condition that is a bit.
* `runs_hashTagged`, `runs_bindList`, `runs_inputHash`: hashes.
* `runs_pathRound`, `runs_merklePath`: the climb from a leaf, `Path.climb`.
-/

namespace MerkleBatch

namespace Path

/-- The hash that `current` leads to, with a sibling and a side for every level; `true` puts the
running hash on the right. -/
def climb (current : Scalar) : List (Scalar × Bool) → Scalar
  | [] => current
  | (sibling, right) :: rest =>
    climb (if right then hashNode sibling current else hashNode current sibling) rest

/-- The root of a path is the climb directed by the lowest bits of the position. -/
theorem root_eq_climb (current : Scalar) (position : Nat) (siblings : List Scalar) :
    root current position siblings =
      climb current (siblings.zip (Index.lowBits position siblings.length)) := by
  induction siblings generalizing current position with
  | nil => rfl
  | cons sibling rest ih =>
    rw [root_cons, ih, List.length_cons, Index.lowBits, List.zip_cons_cons, climb, parent,
      Nat.testBit_zero]
    simp only [decide_eq_true_eq]

end Path

namespace Circuit

/-! ## Conditions -/

namespace Condition

/-- The variable of the condition was made before `next`. -/
def Before (next : Var) : Condition → Prop
  | bit v | negated v => v.Before next
  | const _ => True

/-- The condition's combination is 1 or 0 under the assignment, according to whether it holds. -/
def IsBit (ρ : Assignment) (c : Condition) : Prop := c.comb.eval ρ = Scalar.ofBool (c.holds ρ)

variable {ρ : Assignment} {first next v : Var} {c : Condition}

theorem before_of_makes {steps : List Step} (h : Makes first next steps) (hc : c.Before first) :
    c.Before next := by
  cases c with
  | bit v => exact h.before hc
  | negated v => exact h.before hc
  | const b => trivial

theorem dependsBelow_holds (hc : c.Before first) :
    DependsBelow first.number fun ρ => c.holds ρ := by
  intro ρ σ h
  cases c with
  | bit v => simp only [holds, h v hc]
  | negated v => simp only [holds, h v hc]
  | const b => rfl

/-- A variable that is 0 or 1 is 1 exactly where its bit is set. -/
theorem ofBool_beq_one (b : Bool) : (Scalar.ofBool b == 1) = b := by
  cases b with
  | false => exact beq_false_of_ne zero_ne_one
  | true => exact beq_self_eq_true 1

theorem holds_bit {b : Bool} (h : ρ v = Scalar.ofBool b) : (bit v).holds ρ = b := by
  rw [holds, h, ofBool_beq_one]

theorem isBit_bit {b : Bool} (h : ρ v = Scalar.ofBool b) : (bit v).IsBit ρ := by
  rw [IsBit, holds_bit h, ← h]
  exact LinComb.eval_ofVar ρ v

theorem isBit_negated {b : Bool} (h : ρ v = Scalar.ofBool b) : (negated v).IsBit ρ := by
  have hcomb : (negated v).comb.eval ρ = 1 - Scalar.ofBool b := by
    rw [← h]
    simp [comb]
  rw [IsBit, hcomb, holds, bne, h, ofBool_beq_one]
  cases b
  · exact sub_zero 1
  · exact sub_self 1

theorem isBit_const (b : Bool) : (const b).IsBit ρ := by
  cases b <;> rfl

end Condition

/-! ## Selection -/

section Selection

variable {first : Var} (scope : Label)

theorem run_conditionalSelect (first : Var) (condition : Condition) (ifFalse ifTrue : Var) :
    conditionalSelect condition ifFalse ifTrue scope first = .ok ⟨first, ⟨first.number + 1⟩,
      [.alloc ("num" :: "select_result" :: scope) fun ρ =>
          if condition.holds ρ then ρ ifTrue else ρ ifFalse,
        .enforce ("select_constraint" :: scope) condition.comb (ifTrue - ifFalse)
          (first - ifFalse)]⟩ := rfl

/-- The demand of a selection, for a condition that is a bit. -/
theorem eval_select_iff {ρ : Assignment} {condition : Condition} {ifFalse ifTrue result : Var}
    (hbit : condition.IsBit ρ) :
    condition.comb.eval ρ * LinComb.eval ρ (ifTrue - ifFalse) = LinComb.eval ρ (result - ifFalse) ↔
      ρ result = if condition.holds ρ then ρ ifTrue else ρ ifFalse := by
  rw [Condition.IsBit] at hbit
  simp only [hbit, LinComb.eval_sub, LinComb.eval_ofVar]
  cases condition.holds ρ
  · simp [sub_eq_zero, eq_comm]
  · simp [sub_left_inj, eq_comm]

theorem runs_conditionalSelect {condition : Condition} {ifFalse ifTrue : Var}
    (hc : condition.Before first) (hf : ifFalse.Before first) (ht : ifTrue.Before first) :
    ∃ r, Runs (conditionalSelect condition ifFalse ifTrue) scope first r ∧
      r.value.Before r.next ∧
      ∀ ρ, condition.IsBit ρ →
        Meets ρ first r.steps []
          (ρ r.value = if condition.holds ρ then ρ ifTrue else ρ ifFalse) := by
  refine ⟨_, ⟨run_conditionalSelect scope first condition ifFalse ifTrue,
    Makes.define fun ρ σ h => ?_⟩, Nat.lt_succ_self _,
    fun ρ hbit => Meets.define (eval_select_iff hbit)⟩
  simp only [condition.dependsBelow_holds hc ρ σ h, h ifTrue ht, h ifFalse hf]

theorem runs_orderedPair {swap : Condition} {current sibling : Var} (hs : swap.Before first)
    (hc : current.Before first) (hb : sibling.Before first) :
    ∃ r, Runs (orderedPair swap current sibling) scope first r ∧
      (r.value.1.Before r.next ∧ r.value.2.Before r.next) ∧
      ∀ ρ, swap.IsBit ρ →
        Meets ρ first r.steps []
          (ρ r.value.1 = (if swap.holds ρ then ρ sibling else ρ current) ∧
            ρ r.value.2 = (if swap.holds ρ then ρ current else ρ sibling)) := by
  obtain ⟨l, hl, hlb, hlm⟩ := runs_conditionalSelect ("left" :: scope) hs hc hb
  obtain ⟨r, hr, hrb, hrm⟩ := runs_conditionalSelect ("right" :: scope)
    (swap.before_of_makes hl.makes hs) (hl.before hb) (hl.before hc)
  refine ⟨_, hl.within.bind (hr.within.bind (.pure (l.value, r.value))), ⟨?_, ?_⟩, fun ρ hbit => ?_⟩
  · exact hr.before hlb
  · exact hrb
  · refine ((hlm ρ hbit).append hl.makes fun _ =>
      (hrm ρ hbit).append hr.makes fun _ => .nil ρ _).imp ?_
    rintro ⟨hleft, hright, -⟩
    exact ⟨hleft, hright⟩

end Selection

/-! ## Hashes -/

section Hashing

variable {first : Var} (scope : Label)

theorem run_hashTagged (first : Var) (tag : Scalar) (x y : Var) :
    hashTagged tag x y scope first = .ok ⟨⟨first.number + 1⟩, ⟨first.number + 2⟩,
      [.alloc ("num" :: "tag" :: "hash_tag_x_y" :: scope) fun _ => tag,
        .enforce ("tag_is_constant" :: "hash_tag_x_y" :: scope) first 1 (.ofScalar tag),
        .alloc ("num" :: "allocate for Elt::Num" :: "hash_tag_x_y" :: scope) fun ρ =>
          MerkleBatch.hashTagged (ρ first) (ρ x) (ρ y),
        .sponge ("*" :: "hash_tag_x_y" :: scope) first x y ⟨first.number + 1⟩]⟩ := rfl

theorem runs_hashTagged (tag : Scalar) {x y : Var} (hx : x.Before first) (hy : y.Before first) :
    ∃ r, Runs (hashTagged tag x y) scope first r ∧ r.value.Before r.next ∧
      ∀ ρ, Meets ρ first r.steps [] (ρ r.value = MerkleBatch.hashTagged tag (ρ x) (ρ y)) := by
  have htag : Makes first ⟨first.number + 1⟩
      [.alloc ("num" :: "tag" :: "hash_tag_x_y" :: scope) fun _ => tag,
        .enforce ("tag_is_constant" :: "hash_tag_x_y" :: scope) first 1 (.ofScalar tag)] :=
    .define fun _ _ _ => rfl
  have hout : Makes ⟨first.number + 1⟩ ⟨first.number + 2⟩
      [.alloc ("num" :: "allocate for Elt::Num" :: "hash_tag_x_y" :: scope) fun ρ =>
          MerkleBatch.hashTagged (ρ first) (ρ x) (ρ y),
        .sponge ("*" :: "hash_tag_x_y" :: scope) first x y ⟨first.number + 1⟩] :=
    .sponge (Nat.lt_succ_self _) (htag.before hx) (htag.before hy)
  refine ⟨_, ⟨run_hashTagged scope first tag x y, htag.append hout⟩,
    Nat.lt_succ_self _, fun ρ => ?_⟩
  refine (Meets.append htag (.define ?_) fun _ => .sponge).imp ?_
  · simp
  · rintro ⟨hconst, hhash⟩
    rw [hhash, hconst]

theorem runs_bindList {bound : Var} (place : Nat) {values : List Var} (hb : bound.Before first)
    (hv : ∀ v ∈ values, v.Before first) :
    ∃ r, Runs (bindList bound place values) scope first r ∧ r.value.Before r.next ∧
      ∀ ρ, Meets ρ first r.steps [] (ρ r.value = (values.map ρ).foldl bindInput (ρ bound)) := by
  induction values generalizing bound place first with
  | nil => exact ⟨_, .pure bound, hb, fun ρ => (Meets.nil ρ first).imp fun _ => rfl⟩
  | cons value rest ih =>
    obtain ⟨hvalue, hrest⟩ := List.forall_mem_cons.mp hv
    obtain ⟨h, hh, hhb, hhm⟩ :=
      runs_hashTagged (s!"commitment_{place}" :: scope) inputTag hb hvalue
    obtain ⟨r, hr, hrb, hrm⟩ := ih (place + 1) hhb fun v hmem => hh.before (hrest v hmem)
    refine ⟨_, hh.within.bind hr, hrb, fun ρ => ?_⟩
    refine ((hhm ρ).append hh.makes fun _ => hrm ρ).imp ?_
    rintro ⟨hnext, hlast⟩
    rw [Built.value_andThen, hlast, hnext]
    rfl

theorem runs_inputHash {start preRoot postRoot : Var} {commitments : List Var}
    (hs : start.Before first) (hpre : preRoot.Before first) (hpost : postRoot.Before first)
    (hc : ∀ v ∈ commitments, v.Before first) :
    ∃ r, Runs (inputHash start preRoot postRoot commitments) scope first r ∧
      r.value.Before r.next ∧
      ∀ ρ, Meets ρ first r.steps []
        (ρ r.value =
          (ρ preRoot :: ρ postRoot :: commitments.map ρ).foldl bindInput (ρ start)) := by
  obtain ⟨a, ha, hab, ham⟩ := runs_hashTagged ("start_pre" :: scope) inputTag hs hpre
  obtain ⟨b, hb, hbb, hbm⟩ := runs_hashTagged ("post" :: scope) inputTag hab (ha.before hpost)
  obtain ⟨r, hr, hrb, hrm⟩ := runs_bindList scope 0 hbb fun v hmem =>
    hb.before (ha.before (hc v hmem))
  refine ⟨_, ha.within.bind (hb.within.bind hr), hrb, fun ρ => ?_⟩
  refine ((ham ρ).append ha.makes fun _ => (hbm ρ).append hb.makes fun _ => hrm ρ).imp ?_
  rintro ⟨hstart, hpost, hlast⟩
  rw [Built.value_andThen, Built.value_andThen, hlast, hpost, hstart]
  rfl

end Hashing

/-! ## Paths -/

section Paths

variable {first : Var} (scope : Label)

theorem runs_pathRound {direction : Condition} {current sibling : Var}
    (hd : direction.Before first) (hc : current.Before first) (hs : sibling.Before first) :
    ∃ r, Runs (pathRound direction current sibling) scope first r ∧ r.value.Before r.next ∧
      ∀ ρ, direction.IsBit ρ →
        Meets ρ first r.steps []
          (ρ r.value = if direction.holds ρ then hashNode (ρ sibling) (ρ current)
            else hashNode (ρ current) (ρ sibling)) := by
  obtain ⟨p, hp, ⟨hpl, hpr⟩, hpm⟩ := runs_orderedPair ("order" :: scope) hd hc hs
  obtain ⟨r, hr, hrb, hrm⟩ := runs_hashTagged ("hash_nodes" :: scope) nodeTag hpl hpr
  refine ⟨_, hp.within.bind hr.within, hrb, fun ρ hbit => ?_⟩
  refine ((hpm ρ hbit).append hp.makes fun _ => hrm ρ).imp ?_
  rintro ⟨⟨hleft, hright⟩, hhash⟩
  rw [Built.value_andThen, hhash, hleft, hright]
  by_cases h : direction.holds ρ = true
  · rw [if_pos h, if_pos h, if_pos h, hashNode]
  · rw [if_neg h, if_neg h, if_neg h, hashNode]

theorem runs_pathFrom (level : Nat) {current : Var} {rounds : List (Var × Condition)}
    (hc : current.Before first) (hr : ∀ p ∈ rounds, p.1.Before first ∧ p.2.Before first) :
    ∃ r, Runs (pathFrom level current rounds) scope first r ∧ r.value.Before r.next ∧
      ∀ ρ, (∀ p ∈ rounds, p.2.IsBit ρ) →
        Meets ρ first r.steps []
          (ρ r.value = Path.climb (ρ current) (rounds.map fun p => (ρ p.1, p.2.holds ρ))) := by
  induction rounds generalizing level current first with
  | nil => exact ⟨_, .pure current, hc, fun ρ _ => (Meets.nil ρ first).imp fun _ => rfl⟩
  | cons round rest ih =>
    obtain ⟨hround, hrest⟩ := List.forall_mem_cons.mp hr
    obtain ⟨a, ha, hab, ham⟩ :=
      runs_pathRound (s!"level_{level}" :: scope) hround.2 hc hround.1
    obtain ⟨r, hr, hrb, hrm⟩ := ih (level + 1) hab fun p hmem =>
      ⟨ha.before (hrest p hmem).1, p.2.before_of_makes ha.makes (hrest p hmem).2⟩
    refine ⟨_, ha.within.bind hr, hrb, fun ρ hbits => ?_⟩
    obtain ⟨hbit, hbits⟩ := List.forall_mem_cons.mp hbits
    refine ((ham ρ hbit).append ha.makes fun _ => hrm ρ hbits).imp ?_
    rintro ⟨hnext, hlast⟩
    rw [Built.value_andThen, hlast, hnext]
    rfl

/-- The path gadget climbs from the leaf to the root, whatever its directions are, as long as they
are bits. -/
theorem runs_merklePath {leaf : Var} {siblings : List Var} {directions : List Condition}
    (hlen : siblings.length = directions.length) (hl : leaf.Before first)
    (hs : ∀ v ∈ siblings, v.Before first) (hd : ∀ c ∈ directions, c.Before first) :
    ∃ r, Runs (merklePath leaf siblings directions) scope first r ∧ r.value.Before r.next ∧
      ∀ ρ, (∀ c ∈ directions, c.IsBit ρ) →
        Meets ρ first r.steps []
          (ρ r.value =
            Path.climb (ρ leaf) ((siblings.map ρ).zip (directions.map fun c => c.holds ρ))) := by
  have hrounds : ∀ p ∈ siblings.zip directions, p.1.Before first ∧ p.2.Before first :=
    fun p hmem => ⟨hs _ (List.of_mem_zip hmem).1, hd _ (List.of_mem_zip hmem).2⟩
  obtain ⟨r, hr, hrb, hrm⟩ := runs_pathFrom scope 0 hl hrounds
  refine ⟨r, ?_, hrb, fun ρ hbits => ?_⟩
  · rw [merklePath, if_neg (not_not_intro hlen)]
    exact hr
  · refine (hrm ρ fun p hmem => hbits _ (List.of_mem_zip hmem).2).imp fun h => ?_
    rw [h, List.zip_map]
    rfl

end Paths

end Circuit

end MerkleBatch
