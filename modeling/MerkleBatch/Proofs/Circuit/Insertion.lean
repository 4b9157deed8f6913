import MerkleBatch.Circuit.Transition
import MerkleBatch.Proofs.Circuit.Decomposition

/-!
# Insertions

An insertion makes two demands that an assignment can miss: its index has to have bits, and the
empty leaf has to lead to the current root. Everything else in it is pinned.

* `insertionFaults`, `batchFaults`: the demands that insertions miss, as a function of the values
  they are made for.
* `rootAfter`: the root that the insertions of a batch lead to.
* `runs_insertOne`, `runs_insertBatch`: the gadgets miss these demands and have that result.
-/

namespace MerkleBatch.Circuit

open Builder

/-- The demands that one insertion misses. -/
def insertionFaults (depth : Nat) (scope : Label) (index current : Scalar)
    (siblings : List Scalar) : List Label :=
  (if index.val < 2 ^ depth then [] else ["recompose_index" :: "index_bits" :: scope]) ++
    if Path.root 0 index.val siblings = current then []
    else ["equal" :: "empty_path_matches_current_root" :: scope]

/-- The demands that insertions miss, where the first one has the number `offset`. -/
def batchFaults (depth : Nat) (scope : Label) (start : Scalar) (offset : Nat) (current : Scalar) :
    List (Scalar × List Scalar) → List Label
  | [] => []
  | (leaf, siblings) :: rest =>
    let index := start + Scalar.ofNat offset
    insertionFaults depth (s!"insertion_{offset}" :: scope) index current siblings ++
      batchFaults depth scope start (offset + 1) (Path.root leaf index.val siblings) rest

/-- The root after insertions, where the first one has the number `offset`. -/
def rootAfter (start : Scalar) (offset : Nat) (current : Scalar) :
    List (Scalar × List Scalar) → Scalar
  | [] => current
  | (leaf, siblings) :: rest =>
    rootAfter start (offset + 1) (Path.root leaf (start + Scalar.ofNat offset).val siblings) rest

section

variable {first : Var} (scope : Label)

/-- An equality is missed where the two numbers differ. -/
theorem runs_enforceEqual (first : Var) (name : String) (a b : Var) :
    ∃ r, Runs (enforceEqual name a b) scope first r ∧ r.next = first ∧
      ∀ ρ, Meets ρ first r.steps (if ρ a = ρ b then [] else ["equal" :: name :: scope]) True := by
  refine ⟨⟨(), first, [.enforce ("equal" :: name :: scope) a 1 b]⟩, ⟨rfl, .enforce first⟩, rfl,
    fun ρ => ?_⟩
  have hcheck : Meets ρ first _ _ True := .check ("equal" :: name :: scope) a 1 b
  rwa [LinComb.eval_one, LinComb.eval_ofVar, LinComb.eval_ofVar, mul_one] at hcheck

theorem runs_emptyLeaf (first : Var) :
    ∃ r, Runs emptyLeaf scope first r ∧ r.value.Before r.next ∧
      ∀ ρ, Meets ρ first r.steps [] (ρ r.value = 0) := by
  refine ⟨⟨first, ⟨first.number + 1⟩, [.alloc ("num" :: "value" :: scope) fun _ => 0,
    .enforce ("is_zero" :: scope) first 1 0]⟩, ⟨rfl, .define fun _ _ _ => rfl⟩,
    Nat.lt_succ_self _, fun ρ => .define ?_⟩
  simp

/-- A path that the bits of an index direct. -/
theorem runs_pathAt {leaf : Var} {siblings : List Var} {directions : List Condition}
    (hlen : directions.length = siblings.length) (hl : leaf.Before first)
    (hs : ∀ v ∈ siblings, v.Before first) (hd : ∀ c ∈ directions, c.Before first) :
    ∃ r, Runs (merklePath leaf siblings directions) scope first r ∧ r.value.Before r.next ∧
      ∀ ρ n, (∀ c ∈ directions, c.IsBit ρ) →
        directions.map (fun c => c.holds ρ) = Index.lowBits n siblings.length →
        Meets ρ first r.steps [] (ρ r.value = Path.root (ρ leaf) n (siblings.map ρ)) := by
  obtain ⟨r, hr, hb, hm⟩ := runs_merklePath scope hlen.symm hl hs hd
  refine ⟨r, hr, hb, fun ρ n hbits hlow => (hm ρ hbits).imp fun h => ?_⟩
  rw [h, hlow, Path.root_eq_climb, List.length_map]

/-- An insertion misses the demands of its values, and leads to the root of its path. -/
theorem runs_insertOne {depth : Nat} {empty start leaf : Var} {siblings : List Var} (current : Var)
    (offset : Nat) (hd : depth ≤ maxIndexBits) (hlen : siblings.length = depth)
    (he : empty.Before first) (hs : start.Before first) (hl : leaf.Before first)
    (hsib : ∀ v ∈ siblings, v.Before first) :
    ∃ r, Runs (insertOne depth empty start current offset leaf siblings) scope first r ∧
      r.value.Before r.next ∧
      ∀ ρ, ρ empty = 0 →
        Meets ρ first r.steps
          (insertionFaults depth scope (ρ start + Scalar.ofNat offset) (ρ current)
            (siblings.map ρ))
          (ρ r.value =
            Path.root (ρ leaf) (ρ start + Scalar.ofNat offset).val (siblings.map ρ)) := by
  have hnumber : Runs (number "index" fun ρ => ρ start + Scalar.ofNat offset) scope first
      ⟨first, ⟨first.number + 1⟩,
        [.alloc ("num" :: "index" :: scope) fun ρ => ρ start + Scalar.ofNat offset]⟩ :=
    ⟨rfl, .alloc fun ρ σ h => by simp only [h start hs]⟩
  have hdefine : Runs (enforce "index_is_start_plus_offset"
      (start + LinComb.ofScalar (Scalar.ofNat offset)) 1 first) scope ⟨first.number + 1⟩
      ⟨(), ⟨first.number + 1⟩, [.enforce ("index_is_start_plus_offset" :: scope)
        (start + LinComb.ofScalar (Scalar.ofNat offset)) 1 first]⟩ :=
    ⟨rfl, .enforce _⟩
  have hmade := hnumber.makes.append hdefine.makes
  have hindexBefore : first.Before ⟨first.number + 1⟩ := Nat.lt_succ_self _
  obtain ⟨bits, hbits, hbitsLen, hbitsBefore, hbitsMeets⟩ :=
    runs_decomposeIndex ("index_bits" :: scope) hd hindexBefore
  have hdirections := hbitsLen.trans hlen.symm
  have old : ∀ {v : Var}, v.Before first → v.Before bits.next := fun hv =>
    hbits.before (hmade.before hv)
  obtain ⟨found, hfound, hfoundBefore, hfoundMeets⟩ := runs_pathAt ("empty_path" :: scope)
    hdirections (old he) (fun v hv => old (hsib v hv)) hbitsBefore
  obtain ⟨eq, heq, heqNext, heqMeets⟩ := runs_enforceEqual scope found.next
    "empty_path_matches_current_root" found.value current
  obtain ⟨last, hlast, hlastBefore, hlastMeets⟩ := runs_pathAt ("inserted_path" :: scope)
    hdirections (hfound.before (old hl)) (fun v hv => hfound.before (old (hsib v hv)))
    (fun c hc => c.before_of_makes hfound.makes (hbitsBefore c hc))
  rw [← heqNext] at hlast
  refine ⟨_, hnumber.bind (hdefine.bind (hbits.within.bind (hfound.within.bind
    (heq.bind hlast.within)))), hlastBefore, fun ρ hempty => ?_⟩
  have hindex : Meets ρ first [.alloc ("num" :: "index" :: scope)
      fun ρ => ρ start + Scalar.ofNat offset, .enforce ("index_is_start_plus_offset" :: scope)
      (start + LinComb.ofScalar (Scalar.ofNat offset)) 1 first] []
      (ρ first = ρ start + Scalar.ofNat offset) :=
    .define (by simp [eq_comm])
  -- both paths take their directions from the same bits
  have htail := fun (hfirst : ρ first = ρ start + Scalar.ofNat offset)
      (hb : (∀ c ∈ bits.value, c.IsBit ρ) ∧
        bits.value.map (fun c => c.holds ρ) = Index.lowBits (ρ first).val depth) =>
    have hlow : bits.value.map (fun c => c.holds ρ) =
        Index.lowBits (ρ start + Scalar.ofNat offset).val siblings.length := by
      rw [hb.2, hfirst, hlen]
    (hfoundMeets ρ _ hb.1 hlow).append hfound.makes fun _ =>
      (heqMeets ρ).append heq.makes fun _ => (heqNext ▸ hlastMeets ρ _ hb.1 hlow)
  refine ((hindex.append hmade fun hfirst =>
    (hbitsMeets ρ).append hbits.makes fun hb => htail hfirst hb).congr_faults ?_).imp ?_
  · rintro ⟨hfirst, -, hroot, -⟩
    rw [hfirst, hroot, hempty]
    simp only [insertionFaults, List.nil_append, List.append_nil]
  · rintro ⟨-, -, -, -, hvalue⟩
    exact hvalue

/-- The variables of insertions under an assignment. -/
def insertionValues (ρ : Assignment) (insertions : List (Var × List Var)) :
    List (Scalar × List Scalar) :=
  insertions.map fun i => (ρ i.1, i.2.map ρ)

theorem runs_insertFrom {depth : Nat} {empty start current : Var} (offset : Nat)
    (insertions : List (Var × List Var)) (hd : depth ≤ maxIndexBits)
    (he : empty.Before first) (hs : start.Before first) (hc : current.Before first)
    (hi : ∀ i ∈ insertions, i.2.length = depth ∧ i.1.Before first ∧ ∀ v ∈ i.2, v.Before first) :
    ∃ r, Runs (insertFrom depth empty start current offset insertions) scope first r ∧
      r.value.Before r.next ∧
      ∀ ρ, ρ empty = 0 →
        Meets ρ first r.steps
          (batchFaults depth scope (ρ start) offset (ρ current) (insertionValues ρ insertions))
          (ρ r.value =
            rootAfter (ρ start) offset (ρ current) (insertionValues ρ insertions)) := by
  induction insertions generalizing first current offset with
  | nil => exact ⟨_, .pure current, hc, fun ρ _ => (Meets.nil ρ first).imp fun _ => rfl⟩
  | cons insertion rest ih =>
    obtain ⟨⟨hlen, hl, hsib⟩, hrest⟩ := List.forall_mem_cons.mp hi
    obtain ⟨a, ha, hab, ham⟩ := runs_insertOne (s!"insertion_{offset}" :: scope) current
      offset hd hlen he hs hl hsib
    obtain ⟨r, hr, hrb, hrm⟩ := ih (offset + 1) (ha.before he) (ha.before hs) hab
      fun i hmem => by
        obtain ⟨hlen, hl, hsib⟩ := hrest i hmem
        exact ⟨hlen, ha.before hl, fun v hv => ha.before (hsib v hv)⟩
    refine ⟨_, ha.within.bind hr, hrb, fun ρ hempty => ?_⟩
    refine (((ham ρ hempty).append ha.makes fun _ => hrm ρ hempty).congr_faults ?_).imp ?_
    · rintro ⟨hnext, -⟩
      rw [hnext]
      rfl
    · rintro ⟨hnext, hlast⟩
      rw [Built.value_andThen, hlast, hnext]
      rfl

/-- The insertions of a batch miss the demands of their values, and lead to its last root. -/
theorem runs_insertBatch {depth : Nat} {preRoot start : Var} {commitments : List Var}
    {proofs : List (List Var)} (hd : depth ≤ maxIndexBits)
    (hlen : commitments.length = proofs.length) (hp : ∀ vs ∈ proofs, vs.length = depth)
    (hpre : preRoot.Before first) (hs : start.Before first)
    (hc : ∀ v ∈ commitments, v.Before first) (hv : ∀ vs ∈ proofs, ∀ v ∈ vs, v.Before first) :
    ∃ r, Runs (insertBatch preRoot start commitments proofs depth) scope first r ∧
      r.value.Before r.next ∧
      ∀ ρ, Meets ρ first r.steps
        (batchFaults depth scope (ρ start) 0 (ρ preRoot)
          ((commitments.map ρ).zip (proofs.map fun vs => vs.map ρ)))
        (ρ r.value = rootAfter (ρ start) 0 (ρ preRoot)
          ((commitments.map ρ).zip (proofs.map fun vs => vs.map ρ))) := by
  obtain ⟨e, he, heb, hem⟩ := runs_emptyLeaf ("empty_leaf" :: scope) first
  obtain ⟨r, hr, hrb, hrm⟩ := runs_insertFrom scope 0 (commitments.zip proofs) hd
    heb (he.before hs) (he.before hpre) fun i hmem => by
      obtain ⟨hmc, hmp⟩ := List.of_mem_zip hmem
      exact ⟨hp _ hmp, he.before (hc _ hmc), fun v hvs => he.before (hv _ hmp v hvs)⟩
  have hrun := he.within.bind
    (f := fun empty => insertFrom depth empty start preRoot 0 (commitments.zip proofs)) hr
  refine ⟨_, ⟨?_, hrun.makes⟩, hrb, fun ρ => ?_⟩
  · have hfits : ¬ (decide (commitments.length ≠ proofs.length) ||
        proofs.any fun siblings => decide (siblings.length ≠ depth)) = true := by
      simpa [hlen] using hp
    rw [insertBatch, if_neg hfits]
    exact hrun.run_eq
  · have hvalues : insertionValues ρ (commitments.zip proofs) =
        (commitments.map ρ).zip (proofs.map fun vs => vs.map ρ) := List.zip_map.symm
    have hmeets := (hem ρ).append he.makes fun hzero => hrm ρ hzero
    rw [hvalues] at hmeets
    exact hmeets.imp fun h => h.2

end

end MerkleBatch.Circuit
