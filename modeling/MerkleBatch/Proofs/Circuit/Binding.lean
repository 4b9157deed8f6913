import MerkleBatch.Proofs.Circuit.Soundness

/-!
# What the public input binds

Two assignments that satisfy one circuit may come from two provers. Where they have the same public
input, they agree on every variable, or at some sponge they have different inputs with the same
output. Agreement goes from outputs to inputs, against the order in which the circuit computes: from
the input hash to what is folded into it, and from the root of each empty path to its siblings. The
bits of an index are pinned by the index, so that both assignments have the sibling on the same side
of each hash.

* `Collide`: the two assignments collide at a sponge of the steps.
* `CollisionFree`: two assignments that satisfy the steps and do not collide.
* `hashTagged_agree_iff`, `inputHash_agree_iff`, `merklePath_agree_iff`: outputs agree exactly if
  the inputs do.
* `insertOne_agree`, `demands_agree`: an insertion, and the demands of the whole circuit.
* `publicHash_binds`: the circuit of a shape.
-/

namespace MerkleBatch.Circuit

open Builder

/-- At some sponge of the steps, the two assignments have different inputs under the same tag, but
the same output. -/
def Collide (ρ σ : Assignment) (steps : List Step) : Prop :=
  ∃ label tag x y out, Step.sponge label tag x y out ∈ steps ∧
    ρ tag = σ tag ∧ (ρ x, ρ y) ≠ (σ x, σ y) ∧ ρ out = σ out

/-- Two assignments that satisfy the steps and do not collide in them. -/
structure CollisionFree (ρ σ : Assignment) (steps : List Step) : Prop where
  left : Satisfies ρ steps
  right : Satisfies σ steps
  apart : ¬ Collide ρ σ steps

section

variable {ρ σ : Assignment} {s t : List Step}

theorem Collide.mono (h : Collide ρ σ s) (hsub : s ⊆ t) : Collide ρ σ t := by
  obtain ⟨label, tag, x, y, out, hmem, hrest⟩ := h
  exact ⟨label, tag, x, y, out, hsub hmem, hrest⟩

theorem CollisionFree.of_append (h : CollisionFree ρ σ (s ++ t)) :
    CollisionFree ρ σ s ∧ CollisionFree ρ σ t := by
  obtain ⟨hs, ht⟩ := satisfies_append.mp h.left
  obtain ⟨hs', ht'⟩ := satisfies_append.mp h.right
  exact ⟨⟨hs, hs', fun hc => h.apart (hc.mono (List.subset_append_left s t))⟩,
    ⟨ht, ht', fun hc => h.apart (hc.mono (List.subset_append_right s t))⟩⟩

end

section

variable {ρ σ : Assignment} {scope : Label} {first : Var}

/-! ## Hashes -/

section Hashing

/-- The sponge of a hash gadget has a tag that is held to its constant. -/
theorem exists_sponge {tag : Scalar} {x y : Var} {r : Built Var}
    (h : hashTagged tag x y scope first = .ok r) :
    ∃ label tagVar, Step.sponge label tagVar x y r.value ∈ r.steps ∧
      ∀ τ, Satisfies τ r.steps → τ tagVar = tag := by
  rw [run_hashTagged] at h
  obtain rfl := Except.ok.inj h
  refine ⟨_, first, List.mem_of_getElem? (i := 3) rfl, fun τ hτ => ?_⟩
  have htag := hτ _ (List.mem_of_getElem? (i := 1) rfl)
  simpa only [Step.Holds, LinComb.eval_ofVar, LinComb.eval_one, LinComb.eval_ofScalar,
    mul_one] using htag

/-- A hash agrees exactly if what is hashed does. -/
theorem hashTagged_agree_iff {tag : Scalar} {x y : Var} {r : Built Var}
    (h : hashTagged tag x y scope first = .ok r) (hfree : CollisionFree ρ σ r.steps) :
    ρ r.value = σ r.value ↔ ρ x = σ x ∧ ρ y = σ y := by
  obtain ⟨label, tagVar, hmem, htag⟩ := exists_sponge h
  have htags : ρ tagVar = σ tagVar := (htag ρ hfree.left).trans (htag σ hfree.right).symm
  constructor
  · intro hvalue
    by_contra hne
    exact hfree.apart ⟨label, tagVar, x, y, r.value, hmem, htags, mt Prod.mk.inj hne, hvalue⟩
  · rintro ⟨hx, hy⟩
    rw [(hfree.left _ hmem).2, (hfree.right _ hmem).2, htags, hx, hy]

theorem bindList_agree_iff {bound : Var} {place : Nat} {values : List Var} {r : Built Var}
    (h : bindList bound place values scope first = .ok r) (hfree : CollisionFree ρ σ r.steps) :
    ρ r.value = σ r.value ↔ ρ bound = σ bound ∧ ∀ v ∈ values, ρ v = σ v := by
  induction values generalizing bound place first r with
  | nil =>
    obtain rfl := Except.ok.inj h
    simp
  | cons value rest ih =>
    obtain ⟨a, c, ha, hc, rfl⟩ := bind_ok h
    obtain ⟨hafree, hcfree⟩ := hfree.of_append
    rw [List.forall_mem_cons, ← and_assoc, ← hashTagged_agree_iff ha hafree, Built.value_andThen]
    exact ih hc hcfree

theorem inputHash_agree_iff {start preRoot postRoot : Var} {commitments : List Var} {r : Built Var}
    (h : inputHash start preRoot postRoot commitments scope first = .ok r)
    (hfree : CollisionFree ρ σ r.steps) :
    ρ r.value = σ r.value ↔
      ((ρ start = σ start ∧ ρ preRoot = σ preRoot) ∧ ρ postRoot = σ postRoot) ∧
        ∀ v ∈ commitments, ρ v = σ v := by
  obtain ⟨a, c, ha, hc, rfl⟩ := bind_ok h
  obtain ⟨b, d, hb, hd, rfl⟩ := bind_ok hc
  obtain ⟨hafree, hcfree⟩ := hfree.of_append
  obtain ⟨hbfree, hdfree⟩ := hcfree.of_append
  rw [← hashTagged_agree_iff ha hafree, ← hashTagged_agree_iff hb hbfree, Built.value_andThen,
    Built.value_andThen]
  exact bindList_agree_iff hd hdfree

end Hashing

/-! ## Paths -/

section Paths

/-- The condition is a bit, and the same one, under both assignments. -/
structure Condition.Same (ρ σ : Assignment) (c : Condition) : Prop where
  left : c.IsBit ρ
  right : c.IsBit σ
  holds_eq : c.holds ρ = c.holds σ

theorem conditionalSelect_value {condition : Condition} {ifFalse ifTrue : Var} {r : Built Var}
    (h : conditionalSelect condition ifFalse ifTrue scope first = .ok r)
    (hρ : Satisfies ρ r.steps) (hbit : condition.IsBit ρ) :
    ρ r.value = if condition.holds ρ then ρ ifTrue else ρ ifFalse := by
  rw [run_conditionalSelect] at h
  obtain rfl := Except.ok.inj h
  exact (eval_select_iff hbit).mp (hρ _ (List.mem_of_getElem? (i := 1) rfl))

/-- A pair agrees exactly if its parts do, whichever is on the left. -/
theorem orderedPair_agree_iff {swap : Condition} {current sibling : Var} {r : Built (Var × Var)}
    (h : orderedPair swap current sibling scope first = .ok r)
    (hρ : Satisfies ρ r.steps) (hσ : Satisfies σ r.steps) (hswap : swap.Same ρ σ) :
    ρ r.value.1 = σ r.value.1 ∧ ρ r.value.2 = σ r.value.2 ↔
      ρ current = σ current ∧ ρ sibling = σ sibling := by
  obtain ⟨left, c, hleft, hc, rfl⟩ := bind_ok h
  obtain ⟨right, d, hright, hd, rfl⟩ := bind_ok hc
  obtain rfl := Except.ok.inj hd
  have hvalues : ∀ {τ : Assignment}, swap.IsBit τ →
      Satisfies τ (left.steps ++ (right.steps ++ [])) →
      τ left.value = (if swap.holds τ then τ sibling else τ current) ∧
        τ right.value = (if swap.holds τ then τ current else τ sibling) := fun hbit hτ => by
    obtain ⟨hl, hr⟩ := satisfies_append.mp hτ
    exact ⟨conditionalSelect_value hleft hl hbit,
      conditionalSelect_value hright (satisfies_append.mp hr).1 hbit⟩
  obtain ⟨hl, hr⟩ := hvalues hswap.left hρ
  obtain ⟨hl', hr'⟩ := hvalues hswap.right hσ
  show ρ left.value = σ left.value ∧ ρ right.value = σ right.value ↔ _
  rw [hl, hr, hl', hr', hswap.holds_eq]
  split
  · exact and_comm
  · exact Iff.rfl

theorem pathRound_agree_iff {direction : Condition} {current sibling : Var} {r : Built Var}
    (h : pathRound direction current sibling scope first = .ok r)
    (hfree : CollisionFree ρ σ r.steps) (hdir : direction.Same ρ σ) :
    ρ r.value = σ r.value ↔ ρ current = σ current ∧ ρ sibling = σ sibling := by
  obtain ⟨⟨⟨left, right⟩, next, steps⟩, c, hp, hc, rfl⟩ := bind_ok h
  obtain ⟨hpfree, hcfree⟩ := hfree.of_append
  rw [← orderedPair_agree_iff hp hpfree.left hpfree.right hdir, Built.value_andThen]
  exact hashTagged_agree_iff hc hcfree

theorem pathFrom_agree_iff {level : Nat} {current : Var} {rounds : List (Var × Condition)}
    {r : Built Var} (h : pathFrom level current rounds scope first = .ok r)
    (hfree : CollisionFree ρ σ r.steps) (hdir : ∀ p ∈ rounds, p.2.Same ρ σ) :
    ρ r.value = σ r.value ↔ ρ current = σ current ∧ ∀ p ∈ rounds, ρ p.1 = σ p.1 := by
  induction rounds generalizing level current first r with
  | nil =>
    obtain rfl := Except.ok.inj h
    simp
  | cons round rest ih =>
    obtain ⟨a, c, ha, hc, rfl⟩ := bind_ok h
    obtain ⟨hafree, hcfree⟩ := hfree.of_append
    obtain ⟨hround, hrest⟩ := List.forall_mem_cons.mp hdir
    rw [List.forall_mem_cons, ← and_assoc, ← pathRound_agree_iff ha hafree hround,
      Built.value_andThen]
    exact ih hc hcfree hrest

/-- The root of a path agrees exactly if the leaf and all siblings do. -/
theorem merklePath_agree_iff {leaf : Var} {siblings : List Var} {directions : List Condition}
    {r : Built Var} (h : merklePath leaf siblings directions scope first = .ok r)
    (hfree : CollisionFree ρ σ r.steps) (hdir : ∀ c ∈ directions, c.Same ρ σ) :
    ρ r.value = σ r.value ↔ ρ leaf = σ leaf ∧ ∀ v ∈ siblings, ρ v = σ v := by
  rw [merklePath] at h
  split at h
  · cases h
  · rename_i hlen
    have hfst : (siblings.zip directions).map Prod.fst = siblings :=
      List.map_fst_zip (Nat.le_of_eq (not_not.mp hlen))
    have hmem := List.forall_mem_map (f := Prod.fst) (l := siblings.zip directions)
      (P := fun v => ρ v = σ v)
    rw [hfst] at hmem
    rw [hmem]
    exact pathFrom_agree_iff h hfree fun p hp => hdir _ (List.of_mem_zip hp).2

end Paths

/-! ## Insertions -/

section Insertions

theorem enforceEqual_ok {name : String} {a b : Var} {r : Built Unit}
    (h : enforceEqual name a b scope first = .ok r) (hρ : Satisfies ρ r.steps) : ρ a = ρ b := by
  obtain ⟨r', hr', -, hm⟩ := runs_enforceEqual scope first name a b
  obtain rfl := hr'.eq_of_ok h
  have hfaults := ((hm ρ).satisfies_iff.mp hρ).2
  by_contra hne
  rw [if_neg hne] at hfaults
  cases hfaults

/-- The directions of an index are the same bits wherever the index agrees. -/
theorem decomposeIndex_same {index : Var} {depth : Nat} {r : Built (List Condition)}
    (h : decomposeIndex index depth scope first = .ok r) (hd : depth ≤ maxIndexBits)
    (hi : index.Before first) (hfree : CollisionFree ρ σ r.steps) (hindex : ρ index = σ index) :
    ∀ c ∈ r.value, c.Same ρ σ := by
  obtain ⟨r', hr', -, -, hm⟩ := runs_decomposeIndex scope hd hi
  obtain rfl := hr'.eq_of_ok h
  obtain ⟨hbits, hlow⟩ := (hm ρ).post_of_satisfies hfree.left
  obtain ⟨hbits', hlow'⟩ := (hm σ).post_of_satisfies hfree.right
  have hholds : r'.value.map (fun c => c.holds ρ) = r'.value.map fun c => c.holds σ := by
    rw [hlow, hlow', hindex]
  exact fun c hc => ⟨hbits c hc, hbits' c hc, List.map_inj_left.mp hholds c hc⟩

/-- The current root binds the siblings of an insertion; the leaf then binds the next root. -/
theorem insertOne_agree {depth offset : Nat} {empty start current leaf : Var} {siblings : List Var}
    {r : Built Var}
    (h : insertOne depth empty start current offset leaf siblings scope first = .ok r)
    (hd : depth ≤ maxIndexBits) (hfree : CollisionFree ρ σ r.steps)
    (hstart : ρ start = σ start) (hcurrent : ρ current = σ current) :
    (∀ v ∈ siblings, ρ v = σ v) ∧ (ρ leaf = σ leaf → ρ r.value = σ r.value) := by
  obtain ⟨index, c₁, hindex, h₁, rfl⟩ := bind_ok h
  obtain ⟨define, c₂, hdefine, h₂, rfl⟩ := bind_ok h₁
  obtain ⟨bits, c₃, hbits, h₃, rfl⟩ := bind_ok h₂
  obtain ⟨found, c₄, hfound, h₄, rfl⟩ := bind_ok h₃
  obtain ⟨equal, next, hequal, hnext, rfl⟩ := bind_ok h₄
  obtain ⟨-, hfree₁⟩ := hfree.of_append
  obtain ⟨hdefineFree, hfree₂⟩ := hfree₁.of_append
  obtain ⟨hbitsFree, hfree₃⟩ := hfree₂.of_append
  obtain ⟨hfoundFree, hfree₄⟩ := hfree₃.of_append
  obtain ⟨hequalFree, hnextFree⟩ := hfree₄.of_append
  obtain rfl := Except.ok.inj hindex
  obtain rfl := Except.ok.inj hdefine
  have hvalue : ∀ τ, Satisfies τ [.enforce ("index_is_start_plus_offset" :: scope)
      (start + LinComb.ofScalar (Scalar.ofNat offset)) 1 first] →
      τ first = τ start + Scalar.ofNat offset := fun τ hτ => by
    have hdemand := hτ _ (List.mem_singleton_self _)
    simpa [Step.Holds] using hdemand.symm
  have hindex : ρ first = σ first := by
    rw [hvalue ρ hdefineFree.left, hvalue σ hdefineFree.right, hstart]
  have hsame := decomposeIndex_same hbits hd (Nat.lt_succ_self _) hbitsFree hindex
  -- the empty path ends in the current root, and the inserted one has the same siblings
  have hroots : ρ found.value = σ found.value := by
    rw [enforceEqual_ok hequal hequalFree.left, enforceEqual_ok hequal hequalFree.right, hcurrent]
  obtain ⟨-, hsiblings⟩ := (merklePath_agree_iff hfound hfoundFree hsame).mp hroots
  exact ⟨hsiblings, fun hleaf =>
    (merklePath_agree_iff hnext hnextFree hsame).mpr ⟨hleaf, hsiblings⟩⟩

/-- Each insertion binds its siblings and, with its leaf, the root that the next one starts from. -/
theorem insertFrom_agree {depth offset : Nat} {empty start current : Var}
    {insertions : List (Var × List Var)} {r : Built Var}
    (h : insertFrom depth empty start current offset insertions scope first = .ok r)
    (hd : depth ≤ maxIndexBits) (hfree : CollisionFree ρ σ r.steps)
    (hstart : ρ start = σ start) (hcurrent : ρ current = σ current)
    (hleaves : ∀ i ∈ insertions, ρ i.1 = σ i.1) : ∀ i ∈ insertions, ∀ v ∈ i.2, ρ v = σ v := by
  induction insertions generalizing current offset first r with
  | nil => exact fun i hi => absurd hi List.not_mem_nil
  | cons insertion rest ih =>
    obtain ⟨a, c, ha, hc, rfl⟩ := bind_ok h
    obtain ⟨hafree, hcfree⟩ := hfree.of_append
    obtain ⟨hleaf, hrest⟩ := List.forall_mem_cons.mp hleaves
    obtain ⟨hsiblings, hnext⟩ := insertOne_agree ha hd hafree hstart hcurrent
    exact List.forall_mem_cons.mpr ⟨hsiblings, ih hc hcfree (hnext hleaf) hrest⟩

/-- The start index, the first root and the leaves bind the siblings of all insertions. -/
theorem insertBatch_agree {depth : Nat} {preRoot start : Var} {commitments : List Var}
    {proofs : List (List Var)} {r : Built Var}
    (h : insertBatch preRoot start commitments proofs depth scope first = .ok r)
    (hd : depth ≤ maxIndexBits) (hfree : CollisionFree ρ σ r.steps)
    (hstart : ρ start = σ start) (hpre : ρ preRoot = σ preRoot)
    (hleaves : ∀ v ∈ commitments, ρ v = σ v) : ∀ vs ∈ proofs, ∀ v ∈ vs, ρ v = σ v := by
  rw [insertBatch] at h
  split at h
  · cases h
  · rename_i hfits
    have hlen : commitments.length = proofs.length := by
      by_contra hne
      exact hfits (by simp [hne])
    obtain ⟨e, c, -, hc, rfl⟩ := bind_ok h
    obtain ⟨-, hcfree⟩ := hfree.of_append
    have hsiblings := insertFrom_agree hc hd hcfree hstart hpre
      fun i hi => hleaves _ (List.of_mem_zip hi).1
    have hsnd : (commitments.zip proofs).map Prod.snd = proofs :=
      List.map_snd_zip (Nat.le_of_eq hlen.symm)
    rw [← hsnd]
    exact List.forall_mem_map.mpr hsiblings

end Insertions

/-! ## The circuit -/

/-- The public input binds the start index, the roots and the commitments, and these the
siblings. -/
theorem demands_agree {depth : Nat} {publicHash start preRoot postRoot : Var}
    {commitments : List Var} {proofs : List (List Var)} {r : Built (List Var)}
    (h : demands depth publicHash start preRoot postRoot commitments proofs scope first = .ok r)
    (hd : depth ≤ maxIndexBits) (hfree : CollisionFree ρ σ r.steps)
    (hhash : ρ publicHash = σ publicHash) :
    ((ρ start = σ start ∧ ρ preRoot = σ preRoot) ∧ ρ postRoot = σ postRoot) ∧
      (∀ v ∈ commitments, ρ v = σ v) ∧ ∀ vs ∈ proofs, ∀ v ∈ vs, ρ v = σ v := by
  obtain ⟨bound, c₁, hbound, h₁, rfl⟩ := bind_ok h
  obtain ⟨equal, c₂, hequal, h₂, rfl⟩ := bind_ok h₁
  obtain ⟨final, c₃, hfinal, -, rfl⟩ := bind_ok h₂
  obtain ⟨hboundFree, hfree₁⟩ := hfree.of_append
  obtain ⟨hequalFree, hfree₂⟩ := hfree₁.of_append
  obtain ⟨hfinalFree, -⟩ := hfree₂.of_append
  have hvalue : ρ bound.value = σ bound.value := by
    rw [enforceEqual_ok hequal hequalFree.left, enforceEqual_ok hequal hequalFree.right, hhash]
  obtain ⟨hnumbers, hleaves⟩ := (inputHash_agree_iff hbound hboundFree).mp hvalue
  exact ⟨hnumbers, hleaves,
    insertBatch_agree hfinal hd hfinalFree hnumbers.1.1 hnumbers.1.2 hleaves⟩

end

section

variable {depth size : Nat}

open Layout

/-- A variable before the demands is the input or one of the variables of the witness. -/
theorem mem_of_before_last {v : Var} (h : v.Before (last depth size)) :
    v ∈ [publicHash, start, preRoot, postRoot] ∨ v ∈ commitments size ∨
      ∃ vs ∈ proofs depth size, v ∈ vs := by
  obtain ⟨n⟩ := v
  replace h : n < 4 + size + size * depth := h
  by_cases hfixed : n < 4
  · left
    interval_cases n <;> simp [publicHash, start, preRoot, postRoot]
  by_cases hcommitment : n < 4 + size
  · exact .inr (.inl (List.mem_map.mpr ⟨n - 4, List.mem_range.mpr (by omega),
      congrArg Var.mk (by omega)⟩))
  · -- the rows of siblings have the same length, so division finds the row and the place in it
    obtain ⟨k, rfl⟩ := Nat.exists_eq_add_of_le (Nat.not_lt.mp hcommitment)
    have hk : k < size * depth := by omega
    have hdepth : 0 < depth := Nat.pos_of_mul_pos_left (Nat.zero_lt_of_lt hk)
    have hdiv : k / depth * depth + k % depth = k := Nat.div_add_mod' k depth
    refine .inr (.inr ⟨siblings depth size (k / depth), List.mem_map_of_mem
      (List.mem_range.mpr (Nat.div_lt_of_lt_mul (by rwa [Nat.mul_comm]))),
      List.mem_map.mpr ⟨k % depth, List.mem_range.mpr (Nat.mod_lt k hdepth), ?_⟩⟩)
    exact congrArg Var.mk (by omega)

theorem agreeBelow_last {ρ σ : Assignment} (hhash : ρ publicHash = σ publicHash)
    (hstart : ρ start = σ start) (hpre : ρ preRoot = σ preRoot) (hpost : ρ postRoot = σ postRoot)
    (hleaves : ∀ v ∈ commitments size, ρ v = σ v)
    (hsiblings : ∀ vs ∈ proofs depth size, ∀ v ∈ vs, ρ v = σ v) :
    AgreeBelow (last depth size).number ρ σ := by
  intro v hv
  rcases mem_of_before_last hv with hfixed | hleaf | ⟨vs, hvs, hmem⟩
  · simp only [List.mem_cons, List.not_mem_nil, or_false] at hfixed
    rcases hfixed with rfl | rfl | rfl | rfl
    · exact hhash
    · exact hstart
    · exact hpre
    · exact hpost
  · exact hleaves v hleaf
  · exact hsiblings vs hvs v hmem

/-- Two provers may build the circuit of a shape for witnesses of their own, and satisfy it with
assignments of their own choice. If these have the same public input, they agree on all variables of
the circuit, or some hash gadget of it has different inputs under them, but the same output. -/
theorem publicHash_binds (hd : depth ≤ maxIndexBits) {w w' : Witness}
    (hw : w.hasShape depth size) (hw' : w'.hasShape depth size) (z z' : Scalar) :
    ∃ built built', (circuit depth size w [z]).build = .ok built ∧
      (circuit depth size w' [z']).build = .ok built' ∧
      variableLabels built'.steps = variableLabels built.steps ∧
      Named depth size (variableLabels built.steps) ∧
      ∀ ρ σ, Satisfies ρ built.steps → Satisfies σ built'.steps → ρ publicHash = σ publicHash →
        (∀ v : Var, v.number < (variableLabels built.steps).length → ρ v = σ v) ∨
          Collide ρ σ built.steps := by
  obtain ⟨core, hcore, hmeets⟩ := runs_core depth size hd
  obtain ⟨given, hbuild, hgives⟩ := build_circuit hcore hw z
  obtain ⟨given', hbuild', hgives'⟩ := build_circuit hcore hw' z'
  refine ⟨_, _, hbuild, hbuild', ?_, ?_, fun ρ σ hρ hσ hhash => ?_⟩
  · rw [hgives.variableLabels_append, hgives'.variableLabels_append]
  · rw [hgives.variableLabels_append]
    exact named_labels depth size _
  · obtain ⟨-, hρ⟩ := satisfies_append.mp hρ
    obtain ⟨-, hσ⟩ := satisfies_append.mp hσ
    by_cases hcollide : Collide ρ σ core.steps
    · exact .inr (hcollide.mono (List.subset_append_right given core.steps))
    · obtain ⟨⟨⟨hstart, hpre⟩, hpost⟩, hleaves, hsiblings⟩ :=
        demands_agree hcore.run_eq hd ⟨hρ, hσ, hcollide⟩ hhash
      -- the circuit computes all other variables from those that the public input binds
      have hall := agreeBelow_of_filled hcore.makes.causal ((hmeets ρ).pinned hρ)
        ((hmeets σ).pinned hσ) (agreeBelow_last hhash hstart hpre hpost hleaves hsiblings)
      refine .inl fun v hv => hall v ?_
      rwa [hgives.next_eq, Nat.zero_add, ← made_append]

/-- The circuit of two leaves in a tree of depth 2 has a satisfying assignment, and every other one
with its public input agrees with it or collides with it. -/
theorem publicHash_binds_twoLeaves :
    ∃ built ρ, (circuit 2 2 twoLeaves.witness [twoLeaves.inputHash]).build = .ok built ∧
      Satisfies ρ built.steps ∧ ∀ σ, Satisfies σ built.steps → ρ publicHash = σ publicHash →
        (∀ v : Var, v.number < (variableLabels built.steps).length → ρ v = σ v) ∨
          Collide ρ σ built.steps := by
  obtain ⟨built, hbuilt, hnone⟩ := honest_of_replay 2 (by decide) (by decide) (by decide)
    replay_twoLeaves
  have hρ : Satisfies (ofValues (honest built.steps)) built.steps := missed_eq_nil_iff.mp hnone
  have hshape : twoLeaves.witness.hasShape 2 2 = true := by decide
  obtain ⟨first, second, hfirst, hsecond, -, -, hbinds⟩ :=
    publicHash_binds (by decide) hshape hshape twoLeaves.inputHash twoLeaves.inputHash
  obtain rfl := Except.ok.inj (hbuilt.symm.trans hfirst)
  obtain rfl := Except.ok.inj (hbuilt.symm.trans hsecond)
  exact ⟨built, _, hbuilt, hρ, fun σ hσ => hbinds _ σ hρ hσ⟩

end

end MerkleBatch.Circuit
