import MerkleBatch.Circuit.Report

/-!
# Filled assignments

An assignment is filled for some steps if each variable that they make has the value that its step
computes from the assignment. Where the steps are causal, that is, look only at variables made
before, filled assignments differ in earlier variables only: the honest one is the only one.

* `Filled`, `Causal`: the two notions, for steps whose first variable has a given number.
* `filled_honest`, `eq_honest_of_filled`: the honest assignment is filled, and every filled one is
  the honest one on the variables of the circuit.
* `exists_fillFrom_eq_append`, `append_eq_fillFrom`: the same for steps that go on from given
  values.
* `missed`: the labels of the demands that an assignment does not meet, in order;
  `missed_eq_nil_iff`: there are none exactly if the assignment satisfies the steps.
-/

namespace MerkleBatch.Circuit

/-- The number of variables that steps make, not counting the wires inside sponges. -/
def made (steps : List Step) : Nat := (variableLabels steps).length

/-- Each variable has the value that its step computes, where the first one has the number `n`. -/
def Filled (ρ : Assignment) (n : Nat) : List Step → Prop
  | [] => True
  | .alloc _ fill :: rest => ρ ⟨n⟩ = fill ρ ∧ Filled ρ (n + 1) rest
  | .enforce _ _ _ _ :: rest => Filled ρ n rest
  | .sponge _ _ _ _ _ :: rest => Filled ρ n rest

/-- Two assignments give the variables before the `n`-th one the same values. -/
def AgreeBelow (n : Nat) (ρ σ : Assignment) : Prop := ∀ v : Var, v.number < n → ρ v = σ v

/-- A value that depends on the variables before the `n`-th one only. -/
def DependsBelow {α : Type} (n : Nat) (f : Assignment → α) : Prop :=
  ∀ ρ σ, AgreeBelow n ρ σ → f ρ = f σ

/-- Each step computes its value from variables made before, where the first one that the steps
make has the number `n`. -/
def Causal (n : Nat) : List Step → Prop
  | [] => True
  | .alloc _ fill :: rest => DependsBelow n fill ∧ Causal (n + 1) rest
  | .enforce _ _ _ _ :: rest => Causal n rest
  | .sponge _ _ _ _ _ :: rest => Causal n rest

/-- The labels of the demands that an assignment does not meet, in order. -/
def missed (ρ : Assignment) (steps : List Step) : List Label :=
  steps.filterMap fun s =>
    match s with
    | .alloc _ _ => none
    | .enforce label _ _ _ | .sponge label _ _ _ _ => if s.Holds ρ ρ then none else some label

/-! ## Steps one after another -/

section Append

variable {ρ : Assignment} {n : Nat} {s t : List Step}

@[simp]
theorem made_nil : made [] = 0 := rfl

@[simp]
theorem made_alloc (label : Label) (fill : Assignment → Scalar) :
    made (.alloc label fill :: s) = made s + 1 := rfl

@[simp]
theorem made_enforce (label : Label) (a b c : LinComb) :
    made (.enforce label a b c :: s) = made s := rfl

@[simp]
theorem made_sponge (label : Label) (tag x y out : Var) :
    made (.sponge label tag x y out :: s) = made s := rfl

@[simp]
theorem made_append : made (s ++ t) = made s + made t := by
  simp [made, variableLabels]

theorem filled_append : Filled ρ n (s ++ t) ↔ Filled ρ n s ∧ Filled ρ (n + made s) t := by
  induction s generalizing n with
  | nil => simp [Filled, made_nil]
  | cons step rest ih =>
    cases step with
    | alloc label fill =>
      rw [List.cons_append, Filled, Filled, ih, made_alloc, and_assoc, Nat.add_right_comm,
        Nat.add_assoc]
    | enforce label a b c => exact ih
    | sponge label tag x y out => exact ih

theorem causal_append : Causal n (s ++ t) ↔ Causal n s ∧ Causal (n + made s) t := by
  induction s generalizing n with
  | nil => simp [Causal, made_nil]
  | cons step rest ih =>
    cases step with
    | alloc label fill =>
      rw [List.cons_append, Causal, Causal, ih, made_alloc, and_assoc, Nat.add_right_comm,
        Nat.add_assoc]
    | enforce label a b c => exact ih
    | sponge label tag x y out => exact ih

theorem satisfies_append : Satisfies ρ (s ++ t) ↔ Satisfies ρ s ∧ Satisfies ρ t := by
  simp only [Satisfies, List.mem_append, or_imp, forall_and]

theorem missed_append : missed ρ (s ++ t) = missed ρ s ++ missed ρ t := List.filterMap_append

theorem missed_eq_nil_iff : missed ρ s = [] ↔ Satisfies ρ s := by
  rw [missed, List.filterMap_eq_nil_iff]
  refine forall₂_congr fun step _ => ?_
  cases step with
  | alloc label fill => simp [Step.Holds]
  | enforce label a b c => exact ite_eq_left_iff.trans (by simp)
  | sponge label tag x y out => exact ite_eq_left_iff.trans (by simp)

end Append

/-! ## The honest assignment -/

section Honest

variable {ρ σ : Assignment} {n : Nat} {steps : List Step}

theorem AgreeBelow.trans {τ : Assignment} (h : AgreeBelow n ρ σ) (h' : AgreeBelow n σ τ) :
    AgreeBelow n ρ τ := fun v hv => (h v hv).trans (h' v hv)

theorem AgreeBelow.mono {m : Nat} (h : AgreeBelow n ρ σ) (hm : m ≤ n) : AgreeBelow m ρ σ :=
  fun v hv => h v (Nat.lt_of_lt_of_le hv hm)

theorem agreeBelow_push (values : Array Scalar) (a : Scalar) :
    AgreeBelow values.size (ofValues values) (ofValues (values.push a)) := by
  intro v hv
  simp [ofValues, Array.getD_eq_getD_getElem?, Array.getElem?_push, Nat.ne_of_lt hv]

theorem ofValues_push_size (values : Array Scalar) (a : Scalar) :
    ofValues (values.push a) ⟨values.size⟩ = a := by
  simp [ofValues, Array.getD_eq_getD_getElem?]

/-- Filling goes on from the values before, and gives each variable the value of its step. -/
theorem filled_fillFrom (values : Array Scalar) (hc : Causal values.size steps) :
    Filled (ofValues (fillFrom values steps)) values.size steps ∧
      AgreeBelow values.size (ofValues values) (ofValues (fillFrom values steps)) := by
  induction steps generalizing values with
  | nil => exact ⟨trivial, fun _ _ => rfl⟩
  | cons step rest ih =>
    cases step with
    | alloc label fill =>
      obtain ⟨hfill, hrest⟩ := hc
      have hsize : (values.push (fill (ofValues values))).size = values.size + 1 :=
        Array.size_push _
      rw [← hsize] at hrest
      obtain ⟨hfilled, hagree⟩ := ih _ hrest
      rw [hsize] at hfilled hagree
      have hbelow := (agreeBelow_push values (fill (ofValues values))).trans
        (hagree.mono (Nat.le_succ _))
      refine ⟨⟨?_, hfilled⟩, hbelow⟩
      rw [fillFrom, ← hagree ⟨values.size⟩ (Nat.lt_succ_self _), ofValues_push_size]
      exact hfill _ _ hbelow
    | enforce label a b c => exact ih values hc
    | sponge label tag x y out => exact ih values hc

/-- The honest assignment is filled. -/
theorem filled_honest (hc : Causal 0 steps) : Filled (ofValues (honest steps)) 0 steps :=
  (filled_fillFrom #[] hc).1

/-- Assignments that are filled for the same steps and agree before them agree on all variables
that the steps make. -/
theorem agreeBelow_of_filled (hc : Causal n steps) (hρ : Filled ρ n steps)
    (hσ : Filled σ n steps) (h : AgreeBelow n ρ σ) : AgreeBelow (n + made steps) ρ σ := by
  induction steps generalizing n with
  | nil => exact h
  | cons step rest ih =>
    cases step with
    | alloc label fill =>
      -- the step reads variables before `n` only, on which the assignments agree
      have hvalue : ρ ⟨n⟩ = σ ⟨n⟩ := by rw [hρ.1, hσ.1, hc.1 _ _ h]
      have hnext : AgreeBelow (n + 1) ρ σ := by
        intro v hv
        rcases Nat.lt_succ_iff_lt_or_eq.mp hv with hlt | rfl
        · exact h v hlt
        · exact hvalue
      rw [made_alloc, Nat.add_comm (made rest), ← Nat.add_assoc]
      exact ih hc.2 hρ.2 hσ.2 hnext
    | enforce label a b c => exact ih hc hρ hσ h
    | sponge label tag x y out => exact ih hc hρ hσ h

/-- A filled assignment is the honest one on the variables of the circuit. -/
theorem eq_honest_of_filled (hc : Causal 0 steps) (hρ : Filled ρ 0 steps) {v : Var}
    (hv : v.number < made steps) : ρ v = ofValues (honest steps) v :=
  agreeBelow_of_filled hc hρ (filled_honest hc) (fun _ h => absurd h (Nat.not_lt_zero _)) v
    (by rwa [Nat.zero_add])

/-! ### Values appended -/

section Appended

variable {values : Array Scalar} {new : List Scalar}

theorem agreeBelow_append (values : Array Scalar) (new : List Scalar) :
    AgreeBelow values.size (ofValues (values ++ new.toArray)) (ofValues values) := by
  intro v hv
  simp [ofValues, Array.getD_eq_getD_getElem?, Array.getElem?_append_left hv]

theorem map_ofValues_append (values : Array Scalar) (new : List Scalar) :
    (List.range new.length).map (fun j => ofValues (values ++ new.toArray) ⟨values.size + j⟩) =
      new := by
  refine List.ext_getElem (by simp) fun j hj hj' => ?_
  simp [ofValues, Array.getD_eq_getD_getElem?, Array.getElem?_append_right, hj']

/-- Filling appends one value for each variable that the steps make. -/
theorem exists_fillFrom_eq_append (values : Array Scalar) (steps : List Step) :
    ∃ new : List Scalar, new.length = made steps ∧
      fillFrom values steps = values ++ new.toArray := by
  induction steps generalizing values with
  | nil => exact ⟨[], rfl, by simp [fillFrom]⟩
  | cons step rest ih =>
    cases step with
    | alloc label fill =>
      obtain ⟨new, hlen, hfill⟩ := ih (values.push (fill (ofValues values)))
      refine ⟨fill (ofValues values) :: new, congrArg (· + 1) hlen, ?_⟩
      rw [fillFrom, hfill]
      simp
    | enforce label a b c => exact ih values
    | sponge label tag x y out => exact ih values

/-- Appended values with which the steps are filled are those that filling appends. -/
theorem append_eq_fillFrom (hc : Causal values.size steps) (hlen : new.length = made steps)
    (hf : Filled (ofValues (values ++ new.toArray)) values.size steps) :
    values ++ new.toArray = fillFrom values steps := by
  obtain ⟨honest, hhonest, hfill⟩ := exists_fillFrom_eq_append values steps
  obtain ⟨hfilled, hbelow⟩ := filled_fillFrom values hc
  have hagree := agreeBelow_of_filled hc hf hfilled ((agreeBelow_append values new).trans hbelow)
  rw [hfill] at hagree ⊢
  refine Array.ext (by simp [hlen, hhonest]) fun i hi hi' => ?_
  have hvalue := hagree ⟨i⟩ (by simpa [hlen] using hi)
  simpa [ofValues, Array.getD_eq_getD_getElem?, Array.getElem?_eq_getElem hi,
    Array.getElem?_eq_getElem hi'] using hvalue

end Appended

/-- What a report on an honest assignment lists. -/
theorem violations_self (values : Array Scalar) :
    violations values values steps = missed (ofValues values) steps := rfl

end Honest

end MerkleBatch.Circuit
