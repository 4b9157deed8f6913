import MerkleBatch.Proofs.Circuit.Insertion

/-!
# The whole circuit

The circuit first gives the values of its input and of its witness to variables, which may have any
values, and then makes its demands. Those depend on the shape alone.

* `Layout`: which variables stand for which values of a batch.
* `transitionFaults`: the demands that an assignment misses which is filled for the circuit.
* `runs_circuit`: the circuit of a shape and of any witness of that shape.
-/

namespace MerkleBatch.Circuit

open Builder

/-! ## Given values -/

/-- Steps that only give values, to variables with these labels; the assignments filled for them
are those with the property. -/
structure Gives (first next : Var) (steps : List Step) (labels : List Label)
    (property : Assignment → Prop) : Prop extends Makes first next steps where
  labels_eq : variableLabels steps = labels
  satisfied : ∀ ρ, Satisfies ρ steps
  filled_iff : ∀ ρ, Filled ρ first.number steps ↔ property ρ

namespace Gives

variable {first next last : Var} {s t : List Step} {labels labels' : List Label}
  {p q : Assignment → Prop}

theorem number_eq (h : Gives first next s labels p) :
    next.number = first.number + labels.length := by
  rw [h.next_eq, ← h.labels_eq, made]

theorem variableLabels_append (h : Gives first next s labels p) :
    variableLabels (s ++ t) = labels ++ variableLabels t := by
  rw [← h.labels_eq]
  exact List.filterMap_append

theorem nil (v : Var) : Gives v v [] [] fun _ => True :=
  ⟨.nil v, rfl, fun _ => missed_eq_nil_iff.mp rfl, fun _ => Iff.rfl⟩

theorem append (hs : Gives first next s labels p) (ht : Gives next last t labels' q) :
    Gives first last (s ++ t) (labels ++ labels') fun ρ => p ρ ∧ q ρ := by
  refine ⟨hs.toMakes.append ht.toMakes, ?_, fun ρ => ?_, fun ρ => ?_⟩
  · rw [hs.variableLabels_append, ht.labels_eq]
  · exact satisfies_append.mpr ⟨hs.satisfied ρ, ht.satisfied ρ⟩
  · rw [← hs.filled_iff, ← ht.filled_iff, hs.next_eq]
    exact filled_append

theorem congr (h : Gives first next s labels p) (hlabels : labels = labels')
    (hpq : ∀ ρ, p ρ ↔ q ρ) : Gives first next s labels' q :=
  ⟨h.toMakes, h.labels_eq.trans hlabels, h.satisfied, fun ρ => (h.filled_iff ρ).trans (hpq ρ)⟩

end Gives

section

variable {first : Var} (scope : Label)

/-- A variable with a given value. -/
def givenAt (v : Var) (label : Label) (value : Scalar) : Built Var :=
  ⟨v, ⟨v.number + 1⟩, [.alloc label fun _ => value]⟩

theorem gives_givenAt (v : Var) (label : Label) (value : Scalar) :
    Gives v ⟨v.number + 1⟩ (givenAt v label value).steps [label] fun ρ => ρ v = value :=
  ⟨.alloc fun _ _ _ => rfl, rfl, fun _ => missed_eq_nil_iff.mp rfl,
    fun _ => by simp [Filled, givenAt]⟩

theorem runs_given (name : String) (value : Scalar) :
    Runs (given name value) scope first (givenAt first ("num" :: name :: scope) value) :=
  ⟨rfl, (gives_givenAt first _ value).toMakes⟩

/-- Values in a row, where the variable of the value with the number 0 would be `base`. -/
theorem runs_givenList (label : Nat → String) {base k : Nat} (hfirst : first.number = base + k)
    (values : List Scalar) :
    ∃ r, Runs (givenList label k values) scope first r ∧
      r.value = ((List.range' k values.length).map fun i => ⟨base + i⟩) ∧
      Gives first r.next r.steps
        ((List.range' k values.length).map fun i => "num" :: label i :: scope)
        fun ρ => r.value.map ρ = values := by
  induction values generalizing k first with
  | nil => exact ⟨_, .pure [], rfl, (Gives.nil first).congr rfl fun ρ => by simp⟩
  | cons value rest ih =>
    have hnext : (⟨first.number + 1⟩ : Var).number = base + (k + 1) := congrArg Nat.succ hfirst
    obtain ⟨r, hr, hvalue, hgives⟩ := ih hnext
    refine ⟨_, (runs_given scope (label k) value).bind (hr.bind (.pure (first :: r.value))), ?_,
      ((gives_givenAt first _ value).append (hgives.append (.nil _))).congr ?_ fun ρ => ?_⟩
    · show first :: r.value = ⟨base + k⟩ :: _
      rw [hvalue, ← hfirst]
    · rw [List.append_nil]
      rfl
    · rw [and_true]
      exact (List.cons_eq_cons (l := r.value.map ρ)).symm

/-- Rows of values, where the variable of the first value with the number 0 would be `base`. -/
theorem runs_givenProofs (label : Nat → Nat → String) {depth base k : Nat}
    (hfirst : first.number = base + k * depth) {proofs : List (List Scalar)}
    (h : ∀ siblings ∈ proofs, siblings.length = depth) :
    ∃ r, Runs (givenProofs label k proofs) scope first r ∧
      (r.value = (List.range' k proofs.length).map fun i =>
        (List.range depth).map fun j => ⟨base + i * depth + j⟩) ∧
      Gives first r.next r.steps
        ((List.range' k proofs.length).flatMap fun i =>
          (List.range depth).map fun j => "num" :: label i j :: scope)
        fun ρ => r.value.map (fun vs => vs.map ρ) = proofs := by
  induction proofs generalizing k first with
  | nil => exact ⟨_, .pure [], rfl, (Gives.nil first).congr rfl fun ρ => by simp⟩
  | cons siblings rest ih =>
    obtain ⟨hlen, hrest⟩ := List.forall_mem_cons.mp h
    obtain ⟨a, ha, havalue, hagives⟩ := runs_givenList (k := 0) scope (label k) hfirst siblings
    rw [hlen, ← List.range_eq_range'] at havalue hagives
    have hnext : a.next.number = base + (k + 1) * depth := by
      rw [hagives.number_eq, hfirst, List.length_map, List.length_range, Nat.succ_mul,
        Nat.add_assoc]
    obtain ⟨r, hr, hvalue, hgives⟩ := ih hnext hrest
    refine ⟨_, ha.bind (hr.bind (.pure (a.value :: r.value))), ?_,
      (hagives.append (hgives.append (.nil _))).congr ?_ fun ρ => ?_⟩
    · show a.value :: r.value = _
      rw [hvalue, havalue]
      rfl
    · rw [List.append_nil]
      rfl
    · rw [and_true]
      exact (List.cons_eq_cons (l := r.value.map fun vs => vs.map ρ)).symm

end

/-!
## The variables of a batch

The input comes first, then the values of the witness, one after another. There are `size`
commitments, and as many rows of `depth` siblings.
-/

namespace Layout

def publicHash : Var := ⟨0⟩

def start : Var := ⟨1⟩

def preRoot : Var := ⟨2⟩

def postRoot : Var := ⟨3⟩

def commitment (i : Nat) : Var := ⟨4 + i⟩

def sibling (depth size i j : Nat) : Var := ⟨4 + size + i * depth + j⟩

def commitments (size : Nat) : List Var := (List.range size).map commitment

def siblings (depth size i : Nat) : List Var := (List.range depth).map (sibling depth size i)

def proofs (depth size : Nat) : List (List Var) := (List.range size).map (siblings depth size)

/-- The first variable after those. -/
def last (depth size : Nat) : Var := ⟨4 + size + size * depth⟩

/-- The labels of those variables. -/
def labels (depth size : Nat) : List Label :=
  [["num", "z0"], ["num", "start_index"], ["num", "pre_root"], ["num", "post_root"]] ++
    ((List.range size).map fun i => ["num", s!"commitment_{i}"]) ++
    (List.range size).flatMap fun i =>
      (List.range depth).map fun j => ["num", s!"proof_{i}_sibling_{j}"]

/-- The assignment has the public input `z` and the values of the witness. -/
structure Reads (depth size : Nat) (w : Witness) (z : Scalar) (ρ : Assignment) : Prop where
  publicHash_eq : ρ publicHash = z
  start_eq : ρ start = Scalar.ofNat w.startIndex.toNat
  preRoot_eq : ρ preRoot = w.preRoot
  postRoot_eq : ρ postRoot = w.postRoot
  commitments_eq : (commitments size).map ρ = w.commitments
  proofs_eq : (proofs depth size).map (fun vs => vs.map ρ) = w.proofs

end Layout

/-! ## Demands -/

/-- The demands of the circuit on given variables. -/
def demands (depth : Nat) (publicHash start preRoot postRoot : Var) (commitments : List Var)
    (proofs : List (List Var)) : Builder (List Var) := do
  let bound ← within "input_hash" (inputHash start preRoot postRoot commitments)
  enforceEqual "input_hash_matches_public" bound publicHash
  let final ← within "batch" (insertBatch preRoot start commitments proofs depth)
  enforceEqual "final_root_matches_post_root" final postRoot
  pure [publicHash]

/-- The demands that the values of a batch miss. -/
def transitionFaults (depth : Nat) (publicHash start preRoot postRoot : Scalar)
    (commitments : List Scalar) (proofs : List (List Scalar)) : List Label :=
  (if (preRoot :: postRoot :: commitments).foldl bindInput start = publicHash then []
    else [["equal", "input_hash_matches_public"]]) ++
  batchFaults depth ["batch"] start 0 preRoot (commitments.zip proofs) ++
  if rootAfter start 0 preRoot (commitments.zip proofs) = postRoot then []
    else [["equal", "final_root_matches_post_root"]]

theorem transitionFaults_eq_nil_iff {depth : Nat} {publicHash start preRoot postRoot : Scalar}
    {commitments : List Scalar} {proofs : List (List Scalar)} :
    transitionFaults depth publicHash start preRoot postRoot commitments proofs = [] ↔
      (preRoot :: postRoot :: commitments).foldl bindInput start = publicHash ∧
        batchFaults depth ["batch"] start 0 preRoot (commitments.zip proofs) = [] ∧
        rootAfter start 0 preRoot (commitments.zip proofs) = postRoot := by
  simp only [transitionFaults, List.append_eq_nil_iff, ite_eq_left_iff, List.cons_ne_nil,
    imp_false, not_not, and_assoc]

theorem runs_demands {depth : Nat} (publicHash : Var) {first start preRoot postRoot : Var}
    {commitments : List Var} {proofs : List (List Var)} (hd : depth ≤ maxIndexBits)
    (hlen : commitments.length = proofs.length) (hp : ∀ vs ∈ proofs, vs.length = depth)
    (hs : start.Before first) (hpre : preRoot.Before first) (hpost : postRoot.Before first)
    (hc : ∀ v ∈ commitments, v.Before first) (hv : ∀ vs ∈ proofs, ∀ v ∈ vs, v.Before first) :
    ∃ r, Runs (demands depth publicHash start preRoot postRoot commitments proofs) [] first r ∧
      ∀ ρ, Meets ρ first r.steps
        (transitionFaults depth (ρ publicHash) (ρ start) (ρ preRoot) (ρ postRoot)
          (commitments.map ρ) (proofs.map fun vs => vs.map ρ)) True := by
  obtain ⟨a, ha, -, ham⟩ := runs_inputHash ["input_hash"] hs hpre hpost hc
  obtain ⟨b, hb, -, hbm⟩ := runs_enforceEqual [] a.next "input_hash_matches_public"
    a.value publicHash
  have old : ∀ {v : Var}, v.Before first → v.Before b.next := fun h => hb.before (ha.before h)
  obtain ⟨r, hr, -, hrm⟩ := runs_insertBatch ["batch"] hd hlen hp (old hpre) (old hs)
    (fun v hmem => old (hc v hmem)) fun vs hvs v hmem => old (hv vs hvs v hmem)
  obtain ⟨e, he, -, hem⟩ := runs_enforceEqual [] r.next "final_root_matches_post_root"
    r.value postRoot
  refine ⟨_, ha.within.bind (hb.bind (hr.within.bind (he.bind (.pure [publicHash])))),
    fun ρ => ?_⟩
  refine (((ham ρ).append ha.makes fun _ => (hbm ρ).append hb.makes fun _ =>
    (hrm ρ).append hr.makes fun _ => (hem ρ).append he.makes fun _ => .nil ρ _).congr_faults
      ?_).imp fun _ => trivial
  rintro ⟨hbound, -, hlast, -⟩
  rw [hbound, hlast, transitionFaults]
  simp only [List.nil_append, List.append_nil, List.append_assoc]

/-! ## The circuit -/

section

variable {depth size : Nat}

open Layout

theorem fixed_before {n : Nat} (h : n < 4) : Var.Before ⟨n⟩ (last depth size) := by
  show n < 4 + size + size * depth
  omega

theorem commitment_before {v : Var} (h : v ∈ commitments size) : v.Before (last depth size) := by
  obtain ⟨i, hi, rfl⟩ := List.mem_map.mp h
  have := List.mem_range.mp hi
  show 4 + i < 4 + size + size * depth
  omega

theorem sibling_before {vs : List Var} (h : vs ∈ proofs depth size) :
    ∀ v ∈ vs, v.Before (last depth size) := by
  obtain ⟨i, hi, rfl⟩ := List.mem_map.mp h
  intro v hv
  obtain ⟨j, hj, rfl⟩ := List.mem_map.mp hv
  have hi := List.mem_range.mp hi
  have hj := List.mem_range.mp hj
  have hrow : (i + 1) * depth ≤ size * depth := Nat.mul_le_mul_right depth hi
  rw [Nat.succ_mul] at hrow
  show 4 + size + i * depth + j < 4 + size + size * depth
  omega

/-- The values of the commitments, and then those of the paths. -/
theorem runs_givenInsertions {w : Witness} (hw : w.hasShape depth size) :
    ∃ c p, Runs (givenList (fun i => s!"commitment_{i}") 0 w.commitments) [] (commitment 0) c ∧
      Runs (givenProofs (fun i j => s!"proof_{i}_sibling_{j}") 0 w.proofs) [] c.next p ∧
      c.value = commitments size ∧ p.value = proofs depth size ∧ p.next = last depth size ∧
      Gives (commitment 0) (last depth size) (c.steps ++ p.steps)
        (((List.range size).map fun i => ["num", s!"commitment_{i}"]) ++
          (List.range size).flatMap fun i =>
            (List.range depth).map fun j => ["num", s!"proof_{i}_sibling_{j}"])
        fun ρ => (commitments size).map ρ = w.commitments ∧
          (proofs depth size).map (fun vs => vs.map ρ) = w.proofs := by
  obtain ⟨hcount, hproofs, hlen⟩ := Witness.hasShape_iff.mp hw
  obtain ⟨c, hc, hcvalue, hcgives⟩ := runs_givenList []
    (fun i => s!"commitment_{i}") (show (commitment 0).number = 4 + 0 from rfl) w.commitments
  rw [hcount, ← List.range_eq_range'] at hcvalue hcgives
  have hrows : c.next.number = 4 + size + 0 * depth := by
    rw [hcgives.number_eq]
    simp [commitment]
  obtain ⟨p, hp, hpvalue, hpgives⟩ :=
    runs_givenProofs [] (fun i j => s!"proof_{i}_sibling_{j}") hrows hlen
  rw [hproofs, ← List.range_eq_range'] at hpvalue hpgives
  have hnext : p.next = last depth size := by
    refine congrArg Var.mk (hpgives.number_eq.trans ?_)
    rw [hcgives.number_eq]
    simp [commitment]
  replace hcvalue : c.value = commitments size := hcvalue
  replace hpvalue : p.value = proofs depth size := hpvalue
  have hgives := hcgives.append hpgives
  rw [hnext, hcvalue, hpvalue] at hgives
  exact ⟨c, p, hc, hp, hcvalue, hpvalue, hnext, hgives⟩

/-- The demands of the circuit of a shape on the variables of a batch. -/
theorem runs_core (depth size : Nat) (hd : depth ≤ maxIndexBits) :
    ∃ core, Runs (demands depth publicHash start preRoot postRoot (commitments size)
        (proofs depth size)) [] (last depth size) core ∧
      ∀ ρ, Meets ρ (last depth size) core.steps
        (transitionFaults depth (ρ publicHash) (ρ start) (ρ preRoot) (ρ postRoot)
          ((commitments size).map ρ) ((proofs depth size).map fun vs => vs.map ρ)) True := by
  have hpairs : (commitments size).length = (proofs depth size).length := by
    simp [commitments, proofs]
  have hdepths : ∀ vs ∈ proofs depth size, vs.length = depth := by
    simp [proofs, siblings]
  have hstart : start.Before (last depth size) := fixed_before (by decide)
  have hpre : preRoot.Before (last depth size) := fixed_before (by decide)
  have hpost : postRoot.Before (last depth size) := fixed_before (by decide)
  exact runs_demands publicHash hd hpairs hdepths hstart hpre hpost
    (fun v => commitment_before) (fun vs => sibling_before)

/-- The circuit of a witness first gives the values of the witness and of the input, and then makes
its demands. -/
theorem build_circuit {core : Built (List Var)}
    (hcore : Runs (demands depth publicHash start preRoot postRoot (commitments size)
      (proofs depth size)) [] (last depth size) core)
    {w : Witness} (hw : w.hasShape depth size) (z : Scalar) :
    ∃ given, (circuit depth size w [z]).build =
        .ok ⟨core.value, core.next, given ++ core.steps⟩ ∧
      Gives ⟨0⟩ (last depth size) given (labels depth size) (Reads depth size w z) := by
  have hz : Runs (givenList (fun i => s!"z{i}") 0 [z]) [] ⟨0⟩
      ⟨[publicHash], start, [.alloc ["num", "z0"] fun _ => z]⟩ := ⟨rfl, .alloc fun _ _ _ => rfl⟩
  obtain ⟨c, p, hc, hp, hcvalue, hpvalue, hnext, hinsertions⟩ := runs_givenInsertions hw
  have htail : Runs (do
      let vs ← givenList (fun i => s!"commitment_{i}") 0 w.commitments
      let vss ← givenProofs (fun i j => s!"proof_{i}_sibling_{j}") 0 w.proofs
      demands depth publicHash start preRoot postRoot vs vss) [] (commitment 0)
      (c.andThen (p.andThen core)) := by
    refine hc.bind (hp.bind ?_)
    rw [hnext, hcvalue, hpvalue]
    exact hcore
  have hrun : Runs (transition depth size w [publicHash]) [] start
      ((givenAt start ["num", "start_index"] (Scalar.ofNat w.startIndex.toNat)).andThen
        ((givenAt preRoot ["num", "pre_root"] w.preRoot).andThen
          ((givenAt postRoot ["num", "post_root"] w.postRoot).andThen
            (c.andThen (p.andThen core))))) := by
    rw [transition, if_neg (by simp [hw])]
    refine (runs_given [] "start_index" _).bind ?_
    refine (runs_given [] "pre_root" _).bind ?_
    exact (runs_given [] "post_root" _).bind htail
  have hgives := (gives_givenAt publicHash ["num", "z0"] z).append <|
    (gives_givenAt start ["num", "start_index"] (Scalar.ofNat w.startIndex.toNat)).append <|
    (gives_givenAt preRoot ["num", "pre_root"] w.preRoot).append <|
    (gives_givenAt postRoot ["num", "post_root"] w.postRoot).append <|
    hinsertions
  refine ⟨_, ?_, hgives.congr ?_ fun ρ => ?_⟩
  · refine build_eq_ok_iff.mpr ((hz.bind hrun).run_eq.trans ?_)
    simp only [Built.andThen, List.append_assoc]
    rfl
  · simp only [labels, List.append_assoc]
    rfl
  · constructor
    · rintro ⟨hz, hstart, hpre, hpost, hcommitments, hproofs⟩
      exact ⟨hz, hstart, hpre, hpost, hcommitments, hproofs⟩
    · rintro ⟨hz, hstart, hpre, hpost, hcommitments, hproofs⟩
      exact ⟨hz, hstart, hpre, hpost, hcommitments, hproofs⟩

/-- The circuit of a shape gives the values of the witness and of the input, and then makes demands
that depend on the shape alone. -/
theorem runs_circuit (depth size : Nat) (hd : depth ≤ maxIndexBits) :
    ∃ core : Built (List Var), Makes (last depth size) core.next core.steps ∧
      (∀ ρ, Meets ρ (last depth size) core.steps
        (transitionFaults depth (ρ publicHash) (ρ start) (ρ preRoot) (ρ postRoot)
          ((commitments size).map ρ) ((proofs depth size).map fun vs => vs.map ρ)) True) ∧
      ∀ w z, w.hasShape depth size →
        ∃ given, (circuit depth size w [z]).build =
            .ok ⟨core.value, core.next, given ++ core.steps⟩ ∧
          Gives ⟨0⟩ (last depth size) given (labels depth size) (Reads depth size w z) := by
  obtain ⟨core, hcore, hmeets⟩ := runs_core depth size hd
  exact ⟨core, hcore.makes, hmeets, fun w z hw => build_circuit hcore hw z⟩

/-- What the honest assignment of a circuit misses. -/
theorem missed_honest (hd : depth ≤ maxIndexBits) {w : Witness} (hw : w.hasShape depth size)
    (z : Scalar) :
    ∃ built, (circuit depth size w [z]).build = .ok built ∧
      missed (ofValues (honest built.steps)) built.steps =
        transitionFaults depth z (Scalar.ofNat w.startIndex.toNat) w.preRoot w.postRoot
          w.commitments w.proofs := by
  obtain ⟨core, hcore, hmeets, hgiven⟩ := runs_circuit depth size hd
  obtain ⟨given, hbuild, hgives⟩ := hgiven w z hw
  refine ⟨_, hbuild, ?_⟩
  have hfilled := filled_honest (hgives.toMakes.append hcore).causal
  obtain ⟨hreads, hrest⟩ := filled_append.mp hfilled
  rw [← hgives.next_eq] at hrest
  have h := (hgives.filled_iff _).mp hreads
  rw [missed_append, missed_eq_nil_iff.mpr (hgives.satisfied _), (hmeets _).missed_eq hrest,
    h.publicHash_eq, h.start_eq, h.preRoot_eq, h.postRoot_eq, h.commitments_eq, h.proofs_eq,
    List.nil_append]

end

end MerkleBatch.Circuit
