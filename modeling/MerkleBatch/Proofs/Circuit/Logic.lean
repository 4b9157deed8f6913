import MerkleBatch.Circuit.Gadget
import MerkleBatch.Proofs.Circuit.Filled
import MerkleBatch.Proofs.Scalar.Ring

/-!
# A logic of gadgets

What is proven of a gadget is said of the steps that it adds, for one assignment to all variables,
which need not be the honest one.

* `Runs b scope first r`: the gadget runs in this scope from the variable `first` on, with the
  result `r`, and its steps are causal.
* `Meets ρ first steps faults post`: if `ρ` satisfies the steps, then it is filled for them; and
  where it is filled for them, `faults` are the labels of the demands it misses, and `post` holds.
  The first part is what binds a prover, the second one says what an honest assignment comes to.
* `Runs.bind`, `Meets.append`: gadgets one after another; `Builder.bind_ok`: a run of both taken
  apart.
* `Meets.define`, `Meets.sponge`, `Meets.check`: a variable that a demand pins to its value, a hash,
  and a demand on older variables.
-/

namespace MerkleBatch.Circuit

/-! ## Values of linear combinations -/

namespace LinComb

variable (ρ : Assignment)

private theorem foldr_terms (terms : List (Scalar × Var)) (c : Scalar) :
    terms.foldr (fun t sum => t.1 * ρ t.2 + sum) c =
      terms.foldr (fun t sum => t.1 * ρ t.2 + sum) 0 + c := by
  induction terms with
  | nil => simp
  | cons t rest ih =>
    rw [List.foldr_cons, ih, List.foldr_cons, add_assoc]

@[simp]
theorem eval_zero : eval ρ 0 = 0 := rfl

@[simp]
theorem eval_one : eval ρ 1 = 1 := rfl

@[simp]
theorem eval_ofScalar (c : Scalar) : eval ρ (ofScalar c) = c := rfl

@[simp]
theorem eval_ofVar (v : Var) : eval ρ (ofVar v) = ρ v := by
  simp [eval, ofVar]

@[simp]
theorem eval_add (l r : LinComb) : eval ρ (l + r) = eval ρ l + eval ρ r := by
  show (l.terms ++ r.terms).foldr _ (l.constant + r.constant) = _
  rw [List.foldr_append, foldr_terms ρ r.terms, foldr_terms ρ l.terms, eval, eval,
    foldr_terms ρ l.terms l.constant, foldr_terms ρ r.terms r.constant]
  ring

@[simp]
theorem eval_neg (l : LinComb) : eval ρ (-l) = -eval ρ l := by
  show (l.terms.map fun t => (-t.1, t.2)).foldr _ (-l.constant) = _
  rw [List.foldr_map, eval]
  induction l.terms with
  | nil => rfl
  | cons t rest ih =>
    rw [List.foldr_cons, ih, List.foldr_cons]
    ring

@[simp]
theorem eval_sub (l r : LinComb) : eval ρ (l - r) = eval ρ l - eval ρ r := by
  show eval ρ (l + -r) = _
  rw [eval_add, eval_neg, sub_eq_add_neg]

end LinComb

/-! ## Running gadgets -/

/-- The variable was made before `next`. -/
def Var.Before (v next : Var) : Prop := v.number < next.number

/-- The steps are causal, and `next` is the first variable after those that they make. -/
structure Makes (first next : Var) (steps : List Step) : Prop where
  causal : Causal first.number steps
  next_eq : next.number = first.number + made steps

/-- The gadget runs in this scope from the variable `first` on, with this result. -/
structure Runs {α : Type} (b : Builder α) (scope : Label) (first : Var) (r : Built α) : Prop where
  run_eq : b scope first = .ok r
  makes : Makes first r.next r.steps

section Makes

variable {first next last v : Var} {s t : List Step}

theorem Makes.nil (v : Var) : Makes v v [] := ⟨trivial, rfl⟩

theorem Makes.append (hs : Makes first next s) (ht : Makes next last t) :
    Makes first last (s ++ t) := by
  refine ⟨causal_append.mpr ⟨hs.causal, ?_⟩, ?_⟩
  · rw [← hs.next_eq]
    exact ht.causal
  · rw [ht.next_eq, hs.next_eq, made_append, Nat.add_assoc]

theorem Makes.before (h : Makes first next s) (hv : v.Before first) : v.Before next := by
  have := h.next_eq
  simp only [Var.Before] at *
  omega

theorem Makes.alloc {label : Label} {fill : Assignment → Scalar}
    (h : DependsBelow first.number fill) : Makes first ⟨first.number + 1⟩ [.alloc label fill] :=
  ⟨⟨h, trivial⟩, rfl⟩

theorem Makes.enforce (first : Var) {label : Label} {a b c : LinComb} :
    Makes first first [.enforce label a b c] := ⟨trivial, rfl⟩

/-- A new variable with a demand on it. -/
theorem Makes.define {label label' : Label} {fill : Assignment → Scalar} {a b c : LinComb}
    (h : DependsBelow first.number fill) :
    Makes first ⟨first.number + 1⟩ [.alloc label fill, .enforce label' a b c] :=
  ⟨⟨h, trivial⟩, rfl⟩

/-- A new variable for a hash. -/
theorem Makes.sponge {label label' : Label} {tag x y : Var} (htag : tag.Before first)
    (hx : x.Before first) (hy : y.Before first) :
    Makes first ⟨first.number + 1⟩
      [.alloc label (fun ρ => MerkleBatch.hashTagged (ρ tag) (ρ x) (ρ y)),
        .sponge label' tag x y first] :=
  ⟨⟨fun ρ σ h => by simp only [h tag htag, h x hx, h y hy], trivial⟩, rfl⟩

end Makes

/-- A run of two gadgets one after another consists of a run of each. -/
theorem Builder.bind_ok {α β : Type} {b : Builder α} {f : α → Builder β} {scope : Label}
    {first : Var} {r : Built β} (h : (b >>= f) scope first = .ok r) :
    ∃ a c, b scope first = .ok a ∧ f a.value scope a.next = .ok c ∧ r = a.andThen c := by
  rw [run_bind] at h
  cases ha : b scope first with
  | error error =>
    rw [ha] at h
    cases h
  | ok a =>
    rw [ha] at h
    cases hc : f a.value scope a.next with
    | error error =>
      simp only [hc] at h
      cases h
    | ok c =>
      simp only [hc] at h
      exact ⟨a, c, rfl, hc, (Except.ok.inj h).symm⟩

namespace Runs

variable {α β : Type} {scope : Label} {first : Var}

theorem pure (a : α) : Runs (Pure.pure a : Builder α) scope first ⟨a, first, []⟩ :=
  ⟨rfl, .nil first⟩

theorem within {name : String} {b : Builder α} {r : Built α} (h : Runs b (name :: scope) first r) :
    Runs (Builder.within name b) scope first r := ⟨h.run_eq, h.makes⟩

theorem bind {b : Builder α} {f : α → Builder β} {r : Built α} {r' : Built β}
    (h : Runs b scope first r) (h' : Runs (f r.value) scope r.next r') :
    Runs (b >>= f) scope first (r.andThen r') := by
  refine ⟨?_, h.makes.append h'.makes⟩
  rw [Builder.run_bind, h.run_eq]
  simp only [h'.run_eq]

theorem before {b : Builder α} {r : Built α} {v : Var} (h : Runs b scope first r)
    (hv : v.Before first) : v.Before r.next := h.makes.before hv

/-- A gadget has one result. -/
theorem eq_of_ok {b : Builder α} {r r' : Built α} (h : Runs b scope first r)
    (h' : b scope first = .ok r') : r = r' := Except.ok.inj (h.run_eq.symm.trans h')

end Runs

/-! ## Meeting demands -/

/-- What steps come to under an assignment. -/
structure Meets (ρ : Assignment) (first : Var) (steps : List Step) (faults : List Label)
    (post : Prop) : Prop where
  pinned : Satisfies ρ steps → Filled ρ first.number steps
  missed_eq : Filled ρ first.number steps → missed ρ steps = faults
  post : Filled ρ first.number steps → post

namespace Meets

variable {ρ : Assignment} {first next : Var} {s t : List Step} {faults faults' : List Label}
  {p q : Prop}

/-- An assignment satisfies the steps exactly if it is filled and misses nothing. -/
theorem satisfies_iff (h : Meets ρ first s faults p) :
    Satisfies ρ s ↔ Filled ρ first.number s ∧ faults = [] := by
  constructor
  · intro hs
    have hfilled := h.pinned hs
    refine ⟨hfilled, ?_⟩
    rw [← h.missed_eq hfilled]
    exact missed_eq_nil_iff.mpr hs
  · rintro ⟨hfilled, rfl⟩
    exact missed_eq_nil_iff.mp (h.missed_eq hfilled)

/-- An assignment that satisfies the steps of a gadget has its postcondition. -/
theorem post_of_satisfies (h : Meets ρ first s faults p) (hs : Satisfies ρ s) : p :=
  h.post (h.pinned hs)

theorem imp (h : Meets ρ first s faults p) (hpq : p → q) : Meets ρ first s faults q :=
  ⟨h.pinned, h.missed_eq, fun hs => hpq (h.post hs)⟩

/-- The faults may be said in other words where the postcondition holds. -/
theorem congr_faults (h : Meets ρ first s faults p) (hfaults : p → faults = faults') :
    Meets ρ first s faults' p :=
  ⟨h.pinned, fun hs => (h.missed_eq hs).trans (hfaults (h.post hs)), h.post⟩

theorem nil (ρ : Assignment) (v : Var) : Meets ρ v [] [] True :=
  ⟨fun _ => trivial, fun _ => rfl, fun _ => trivial⟩

theorem append (hm : Makes first next s) (hs : Meets ρ first s faults p)
    (ht : p → Meets ρ next t faults' q) :
    Meets ρ first (s ++ t) (faults ++ faults') (p ∧ q) := by
  constructor
  · intro h
    obtain ⟨h₁, h₂⟩ := satisfies_append.mp h
    have hfilled := hs.pinned h₁
    refine filled_append.mpr ⟨hfilled, ?_⟩
    rw [← hm.next_eq]
    exact (ht (hs.post hfilled)).pinned h₂
  · intro h
    obtain ⟨h₁, h₂⟩ := filled_append.mp h
    rw [← hm.next_eq] at h₂
    rw [missed_append, hs.missed_eq h₁, (ht (hs.post h₁)).missed_eq h₂]
  · intro h
    obtain ⟨h₁, h₂⟩ := filled_append.mp h
    rw [← hm.next_eq] at h₂
    exact ⟨hs.post h₁, (ht (hs.post h₁)).post h₂⟩

/-- A new variable that a demand pins to its value. -/
theorem define {label label' : Label} {fill : Assignment → Scalar} {a b c : LinComb}
    (h : a.eval ρ * b.eval ρ = c.eval ρ ↔ ρ first = fill ρ) :
    Meets ρ first [.alloc label fill, .enforce label' a b c] [] (ρ first = fill ρ) := by
  constructor
  · intro hs
    exact ⟨h.mp (hs (.enforce label' a b c) (by simp)), trivial⟩
  · rintro ⟨hfill, -⟩
    refine missed_eq_nil_iff.mpr fun step hstep => ?_
    simp only [List.mem_cons, List.not_mem_nil, or_false] at hstep
    rcases hstep with rfl | rfl
    · trivial
    · exact h.mpr hfill
  · exact fun hs => hs.1

/-- A new variable that a sponge pins to a hash. -/
theorem sponge {label label' : Label} {tag x y : Var} :
    Meets ρ first
      [.alloc label (fun ρ => MerkleBatch.hashTagged (ρ tag) (ρ x) (ρ y)),
        .sponge label' tag x y first]
      [] (ρ first = MerkleBatch.hashTagged (ρ tag) (ρ x) (ρ y)) := by
  constructor
  · intro hs
    exact ⟨(hs (.sponge label' tag x y first) (by simp)).2, trivial⟩
  · rintro ⟨hfill, -⟩
    refine missed_eq_nil_iff.mpr fun step hstep => ?_
    simp only [List.mem_cons, List.not_mem_nil, or_false] at hstep
    rcases hstep with rfl | rfl
    · trivial
    · exact ⟨⟨rfl, rfl, rfl⟩, hfill⟩
  · exact fun hs => hs.1

/-- A demand on older variables. -/
theorem check (label : Label) (a b c : LinComb) :
    Meets ρ first [.enforce label a b c]
      (if a.eval ρ * b.eval ρ = c.eval ρ then [] else [label]) True := by
  refine ⟨fun _ => trivial, fun _ => ?_, fun _ => trivial⟩
  by_cases h : a.eval ρ * b.eval ρ = c.eval ρ
  · rw [if_pos h]
    refine missed_eq_nil_iff.mpr fun step hstep => ?_
    rw [List.mem_singleton.mp hstep]
    exact h
  · have hlabel : (if (Step.enforce label a b c).Holds ρ ρ then none else some label) =
        some label := if_neg h
    rw [if_neg h]
    exact List.filterMap_cons_some hlabel

end Meets

end MerkleBatch.Circuit
