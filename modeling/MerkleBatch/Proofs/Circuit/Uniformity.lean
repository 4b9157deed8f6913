import MerkleBatch.Proofs.Circuit.Agreement
import MerkleBatch.Proofs.Circuit.Size

/-!
# One constraint system for all batches of a shape

Keys are made once for a shape, from a blank witness. They fit every batch because the values of a
witness only enter the rules by which variables are filled. What is left of a circuit without these
rules is its outline, and it is the same for every witness of the shape.

* `Step.Form`, `Built.outline`, `Builder.outline`: a step, a run and a gadget without filling rules.
* `outline_bind`: the outlines of two gadgets give that of one after the other.
* `satisfies_iff_of_outline_eq`: the outline decides which assignments satisfy a circuit.
* `outline_circuit`: the circuits of two witnesses of one shape have the same outline.
* `circuit_uniform`: both are built, and so is the one that keys are made for.
-/

namespace MerkleBatch.Circuit

open Builder

/-! ## Outlines -/

/-- A step without the rule by which its variable is filled. -/
inductive Step.Form where
  | alloc (label : Label)
  | enforce (label : Label) (a b c : LinComb)
  | sponge (label : Label) (tag x y out : Var)

/-- What is left of a step without its filling rule. -/
def Step.form : Step → Step.Form
  | .alloc label _ => .alloc label
  | .enforce label a b c => .enforce label a b c
  | .sponge label tag x y out => .sponge label tag x y out

/-- What a run leaves behind, but for the rules by which its variables are filled. -/
structure Outline (α : Type) where
  value : α
  /-- The first variable that is not yet made. -/
  next : Var
  /-- The variables and demands under their labels, in the order in which they were added. -/
  forms : List Step.Form

/-- The outline of a run. -/
def Built.outline {α : Type} (r : Built α) : Outline α := ⟨r.value, r.next, r.steps.map Step.form⟩

/-- The outlines of the runs of a gadget; it still fails where it failed. -/
def Builder.outline {α : Type} (b : Builder α) (scope : Label) (first : Var) :
    Except (Outline SynthesisError) (Outline α) :=
  ((b scope first).map Built.outline).mapError Built.outline

section

variable {α β : Type} {b b' : Builder α} {f f' : α → Builder β} {r r' : Built α}

/-- What follows a gadget depends on its value and its next variable only, so on its outline. -/
theorem outline_bind (b : Builder α) (f : α → Builder β) (scope : Label) (first : Var) :
    (b >>= f).outline scope first =
      match b.outline scope first with
      | .error failed => .error failed
      | .ok r =>
        match (f r.value).outline scope r.next with
        | .error failed => .error ⟨failed.value, failed.next, r.forms ++ failed.forms⟩
        | .ok r' => .ok ⟨r'.value, r'.next, r.forms ++ r'.forms⟩ := by
  unfold Builder.outline
  rw [run_bind]
  cases b scope first with
  | error failed => rfl
  | ok r =>
    simp only [Except.map, Except.mapError, Built.outline]
    cases f r.value scope r.next <;> simp [Built.andThen]

/-- Gadgets of the same outline, one after another. -/
theorem outline_bind_congr (hb : b.outline = b'.outline)
    (hf : ∀ a, (f a).outline = (f' a).outline) : (b >>= f).outline = (b' >>= f').outline := by
  funext scope first
  simp only [outline_bind, hb, hf]

/-- The demand of a step does not depend on how variables are filled. -/
theorem Step.holds_iff_of_form_eq {inner ρ : Assignment} {s t : Step} (h : s.form = t.form) :
    s.Holds inner ρ ↔ t.Holds inner ρ := by
  cases s <;> cases t <;> cases h <;> rfl

theorem satisfies_iff_of_forms_eq {steps steps' : List Step}
    (h : steps.map Step.form = steps'.map Step.form) (ρ : Assignment) :
    Satisfies ρ steps ↔ Satisfies ρ steps' := by
  unfold Satisfies
  induction steps generalizing steps' with
  | nil =>
    obtain rfl : steps' = [] := List.map_eq_nil_iff.mp h.symm
    rfl
  | cons step rest ih =>
    obtain ⟨step', rest', rfl, hstep, hrest⟩ := List.map_eq_cons_iff.mp h.symm
    rw [List.forall_mem_cons, List.forall_mem_cons, ih hrest.symm,
      Step.holds_iff_of_form_eq hstep.symm]

/-- Two circuits of one outline are satisfied by the same assignments. -/
theorem satisfies_iff_of_outline_eq (h : r.outline = r'.outline) (ρ : Assignment) :
    Satisfies ρ r.steps ↔ Satisfies ρ r'.steps :=
  satisfies_iff_of_forms_eq (congrArg Outline.forms h) ρ

end

/-! ## Gadgets that are given values -/

theorem outline_given (name : String) (value value' : Scalar) :
    (given name value).outline = (given name value').outline := rfl

/-- How many values there are fixes the variables for them. -/
theorem outline_givenList (label : Nat → String) (first : Nat) {values values' : List Scalar}
    (h : values.length = values'.length) :
    (givenList label first values).outline = (givenList label first values').outline := by
  induction values generalizing first values' with
  | nil =>
    obtain rfl : values' = [] := List.length_eq_zero_iff.mp h.symm
    rfl
  | cons value rest ih =>
    obtain ⟨value', rest', rfl⟩ := List.exists_cons_of_length_eq_add_one h.symm
    unfold givenList
    refine outline_bind_congr (outline_given _ value value') fun v => ?_
    exact outline_bind_congr (ih _ (Nat.succ.inj h)) fun vs => rfl

/-- So do the number of rows and their common length. -/
theorem outline_givenProofs (label : Nat → Nat → String) (first : Nat) {depth : Nat}
    {proofs proofs' : List (List Scalar)} (h : proofs.length = proofs'.length)
    (hp : ∀ siblings ∈ proofs, siblings.length = depth)
    (hp' : ∀ siblings ∈ proofs', siblings.length = depth) :
    (givenProofs label first proofs).outline = (givenProofs label first proofs').outline := by
  induction proofs generalizing first proofs' with
  | nil =>
    obtain rfl : proofs' = [] := List.length_eq_zero_iff.mp h.symm
    rfl
  | cons siblings rest ih =>
    obtain ⟨siblings', rest', rfl⟩ := List.exists_cons_of_length_eq_add_one h.symm
    obtain ⟨hsiblings, hrest⟩ := List.forall_mem_cons.mp hp
    obtain ⟨hsiblings', hrest'⟩ := List.forall_mem_cons.mp hp'
    unfold givenProofs
    refine outline_bind_congr (outline_givenList _ 0 (hsiblings.trans hsiblings'.symm)) fun vs => ?_
    exact outline_bind_congr (ih _ (Nat.succ.inj h) hrest hrest') fun vss => rfl

/-! ## The circuit -/

section

variable {depth size : Nat} {w w' : Witness}

/-- The demands are made on variables and never see a value of the witness. -/
theorem outline_transition (hw : w.hasShape depth size) (hw' : w'.hasShape depth size)
    (z : List Var) :
    (transition depth size w z).outline = (transition depth size w' z).outline := by
  obtain ⟨hc, hp, hl⟩ := Witness.hasShape_iff.mp hw
  obtain ⟨hc', hp', hl'⟩ := Witness.hasShape_iff.mp hw'
  unfold transition
  split
  · rw [if_neg (by simp [hw]), if_neg (by simp [hw'])]
    refine outline_bind_congr (outline_given _ _ _) fun start => ?_
    refine outline_bind_congr (outline_given _ _ _) fun preRoot => ?_
    refine outline_bind_congr (outline_given _ _ _) fun postRoot => ?_
    refine outline_bind_congr (outline_givenList _ 0 (hc.trans hc'.symm)) fun commitments => ?_
    exact outline_bind_congr (outline_givenProofs _ 0 (hp.trans hp'.symm) hl hl') fun proofs => rfl
  · rfl

theorem outline_circuit (hw : w.hasShape depth size) (hw' : w'.hasShape depth size)
    (z z' : Scalar) :
    (circuit depth size w [z]).outline = (circuit depth size w' [z']).outline := by
  unfold circuit
  exact outline_bind_congr (outline_givenList _ 0 rfl) fun zs => outline_transition hw hw' zs

/-- Whatever two witnesses of one shape contain, and whatever the public inputs are, their circuits
are built and only differ in the values of variables: they have the same variables and the same
demands under the same labels in the same order. These are the ones that keys are made for, so the
three circuits are satisfied by the same assignments. -/
theorem circuit_uniform (hw : w.hasShape depth size) (hw' : w'.hasShape depth size)
    (z z' : Scalar) :
    ∃ built built' keys, (circuit depth size w [z]).build = .ok built ∧
      (circuit depth size w' [z']).build = .ok built' ∧
      (circuit depth size (Witness.blank depth size) [0]).build = .ok keys ∧
      (built.outline = built'.outline ∧ built.outline = keys.outline) ∧
      ∀ ρ, (Satisfies ρ built.steps ↔ Satisfies ρ built'.steps) ∧
        (Satisfies ρ built.steps ↔ Satisfies ρ keys.steps) := by
  have hblank := Witness.hasShape_blank depth size
  obtain ⟨built, hbuilt, -⟩ := costs_circuit hw z [] ⟨0⟩
  obtain ⟨built', hbuilt', -⟩ := costs_circuit hw' z' [] ⟨0⟩
  obtain ⟨keys, hkeys, -⟩ := costs_circuit hblank 0 [] ⟨0⟩
  have houtline : ∀ {w' : Witness} {z' : Scalar} {r : Built (List Var)},
      w'.hasShape depth size → circuit depth size w' [z'] [] ⟨0⟩ = .ok r →
      built.outline = r.outline := by
    intro w' z' r hw' hr
    have hsame := congrFun₂ (outline_circuit hw hw' z z') [] ⟨0⟩
    unfold Builder.outline at hsame
    rw [hbuilt, hr] at hsame
    exact Except.ok.inj hsame
  have hsame := houtline hw' hbuilt'
  have hsameKeys := houtline hblank hkeys
  exact ⟨built, built', keys, build_eq_ok_iff.mpr hbuilt, build_eq_ok_iff.mpr hbuilt',
    build_eq_ok_iff.mpr hkeys, ⟨hsame, hsameKeys⟩,
    fun ρ => ⟨satisfies_iff_of_outline_eq hsame ρ, satisfies_iff_of_outline_eq hsameKeys ρ⟩⟩

/-- The circuit of a batch that is replayed has the outline of that of a batch which is not, and is
satisfied by the same assignments. -/
theorem circuit_uniform_wrongRoot :
    let wrong : Witness := { twoLeaves.witness with postRoot := 0 }
    ∃ built built', (circuit 2 2 twoLeaves.witness [twoLeaves.inputHash]).build = .ok built ∧
      (circuit 2 2 wrong [0]).build = .ok built' ∧ built.outline = built'.outline ∧
      ∀ ρ, Satisfies ρ built.steps ↔ Satisfies ρ built'.steps := by
  intro wrong
  have hright : twoLeaves.witness.hasShape 2 2 := by decide
  have hwrong : wrong.hasShape 2 2 := by decide
  obtain ⟨built, built', _, hbuilt, hbuilt', -, ⟨houtline, -⟩, hsatisfies⟩ :=
    circuit_uniform hright hwrong twoLeaves.inputHash 0
  exact ⟨built, built', hbuilt, hbuilt', houtline, fun ρ => (hsatisfies ρ).1⟩

end

end MerkleBatch.Circuit
