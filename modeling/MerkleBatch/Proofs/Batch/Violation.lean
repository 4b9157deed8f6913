import Mathlib.Data.Prod.Lex
import Mathlib.Order.Nat
import MerkleBatch.Proofs.Batch.Replay
import MerkleBatch.Proofs.Index

/-!
# The first violation of a shape

A batch can fail to be of a shape in several ways at once. Each way is said by itself, without
regard to the others; of those that hold, the least one in a fixed order is reported. Nothing here
asks for the shape to be supported.

* `FirstBy`, `eq_error_iff_firstBy`: the fault that comes first of those that an input has, by some
  rank, and the checks that report it.
* `Violates`: the ways in which a batch is not of a shape.
* `ShapeError.rank`: the order in which they are looked for.
* `checkLengths_eq_error`: the proof of wrong length that is found.
* `accepts_first_violation`: what is accepted, and what is reported otherwise.
-/

namespace MerkleBatch

section FirstBy

variable {ε κ α : Type} [PartialOrder κ] {rank : ε → κ} {applies : ε → Prop}

/-- Whether a fault is the first, by its rank, of those that apply. -/
def FirstBy (rank : ε → κ) (applies : ε → Prop) (fault : ε) : Prop :=
  applies fault ∧ ∀ other, applies other → rank fault ≤ rank other

/-- A check that passes only what has no fault, and otherwise reports a first one, reports exactly
the first one if the rank tells apart the faults that apply. -/
theorem eq_error_iff_firstBy {check : Except ε α}
    (hok : ∀ a, check = .ok a → ∀ fault, ¬ applies fault)
    (herror : ∀ fault, check = .error fault → FirstBy rank applies fault)
    (hrank : ∀ fault other, applies fault → applies other → rank fault = rank other → fault = other)
    {fault : ε} : check = .error fault ↔ FirstBy rank applies fault := by
  refine ⟨herror fault, fun h => ?_⟩
  cases hcheck : check with
  | ok a => exact absurd h.1 (hok a hcheck fault)
  | error other =>
    have hother := herror other hcheck
    have hsame : rank other = rank fault := le_antisymm (hother.2 _ h.1) (h.2 _ hother.1)
    rw [hrank other fault hother.1 h.1 hsame]

end FirstBy

/-- The place of an error in the order in which the parts of a batch are checked. Proofs of wrong
length come in the order of the proofs. -/
def ShapeError.rank : ShapeError → Nat ×ₗ Nat
  | .commitmentCount .. => toLex (0, 0)
  | .proofCount .. => toLex (1, 0)
  | .proofLength index .. => toLex (2, index)
  | _ => toLex (3, 0)

namespace Shape

open ShapeError (rank)

/-- The ways in which a batch is not of a shape, whatever other ones there are, each with the error
that describes it. -/
inductive Violates (s : Shape) (b : Batch) : ShapeError → Prop where
  | commitmentCount (h : b.commitments.length ≠ s.batchSize.toNat) :
    Violates s b (.commitmentCount b.commitments.length s.batchSize.toNat)
  | proofCount (h : b.proofs.length ≠ s.batchSize.toNat) :
    Violates s b (.proofCount b.proofs.length s.batchSize.toNat)
  | proofLength {index : Nat} {siblings : List Scalar} (hindex : b.proofs[index]? = some siblings)
    (h : siblings.length ≠ s.treeDepth.toNat) :
    Violates s b (.proofLength index siblings.length s.treeDepth.toNat)
  | indexOverflow
    (h : 2 ^ s.treeDepth.toNat ≤ b.startIndex.toNat + max ((s.batchSize.toNat : Int) - 1) 0) :
    Violates s b (.indexOverflow b.startIndex.toUInt64 s)

/-- Whether an error describes the first violation. -/
def FirstViolation (s : Shape) (b : Batch) (error : ShapeError) : Prop :=
  FirstBy rank (s.Violates b) error

theorem Violates.eq_of_rank_eq {s : Shape} {b : Batch} {error other : ShapeError}
    (h : s.Violates b error) (h' : s.Violates b other) (hrank : error.rank = other.rank) :
    error = other := by
  cases h <;> cases h' <;> simp_all [rank]

/-! ## The last index -/

/-- The index of the last insertion, as words of 64 bits add it up. -/
def lastIndex (s : Shape) (b : Batch) : UInt64 :=
  b.startIndex.toUInt64 + if s.batchSize = 0 then 0 else (s.batchSize - 1).toUInt64

/-- The sum does not leave the words. -/
theorem toNat_lastIndex (s : Shape) (b : Batch) :
    (s.lastIndex b).toNat = b.startIndex.toNat + (s.batchSize.toNat - 1) := by
  have hstart := b.startIndex.toNat_lt
  have hsize := s.batchSize.toNat_lt
  rw [lastIndex, UInt64.toNat_add, UInt32.toNat_toUInt64]
  split
  next h =>
    rw [h, UInt64.toNat_zero, UInt32.toNat_zero]
    omega
  next h =>
    have hpos : 1 ≤ s.batchSize.toNat := Nat.pos_of_ne_zero fun h0 => h (UInt32.toNat_inj.mp h0)
    have hone : (1 : UInt32) ≤ s.batchSize := UInt32.le_iff_toNat_le.mpr hpos
    rw [UInt32.toNat_toUInt64, UInt32.toNat_sub_of_le _ _ hone, UInt32.toNat_one]
    omega

theorem fits_lastIndex_iff {s : Shape} {b : Batch} :
    Index.fits (b.startIndex.toNat + (s.batchSize.toNat - 1)) s.treeDepth.toNat = true ↔
      b.startIndex.toNat + max ((s.batchSize.toNat : Int) - 1) 0 < 2 ^ s.treeDepth.toNat := by
  have hword : b.startIndex.toNat + (s.batchSize.toNat - 1) < 1 <<< wordBits := by
    rw [← toNat_lastIndex]
    exact (s.lastIndex b).toNat_lt
  have hcast : (b.startIndex.toNat : Int) + max ((s.batchSize.toNat : Int) - 1) 0 =
      (b.startIndex.toNat + (s.batchSize.toNat - 1) : Nat) := by
    omega
  rw [Index.fits_iff hword, Nat.one_shiftLeft, hcast]
  exact_mod_cast Iff.rfl

/-- The check of the last index, with words of 64 bits. -/
def lastIndexFits (s : Shape) (b : Batch) : Bool :=
  64 ≤ s.treeDepth || s.lastIndex b < (1 : UInt64) <<< s.treeDepth.toUInt64

/-- The shift stays within the words too: with a larger width it is not asked for. -/
theorem lastIndexFits_iff {s : Shape} {b : Batch} :
    s.lastIndexFits b = true ↔
      b.startIndex.toNat + max ((s.batchSize.toNat : Int) - 1) 0 < 2 ^ s.treeDepth.toNat := by
  rw [← fits_lastIndex_iff, ← toNat_lastIndex, lastIndexFits, Index.fits]
  simp only [Bool.or_eq_true, decide_eq_true_eq, UInt32.le_iff_toNat_le, UInt64.lt_iff_toNat_lt]
  refine or_congr_right' fun hdepth => ?_
  have hlt : s.treeDepth.toNat < 64 := Nat.not_le.mp hdepth
  have hpow : 2 ^ s.treeDepth.toNat < 2 ^ 64 := Nat.pow_lt_pow_right (by decide) hlt
  rw [UInt64.toNat_shiftLeft, UInt32.toNat_toUInt64, UInt64.toNat_one, Nat.mod_eq_of_lt hlt,
    Nat.one_shiftLeft, Nat.mod_eq_of_lt hpow]

/-! ## Proofs of wrong length -/

/-- Of the proofs of wrong length the first one is found. -/
theorem checkLengths_eq_error {depth number : Nat} {proofs : List (List Scalar)}
    {error : ShapeError} (h : checkLengths depth number proofs = .error error) :
    ∃ index siblings, proofs[index]? = some siblings ∧ siblings.length ≠ depth ∧
      error = .proofLength (number + index) siblings.length depth ∧
      ∀ index' siblings', proofs[index']? = some siblings' → siblings'.length ≠ depth →
        index ≤ index' := by
  induction proofs generalizing number with
  | nil => cases h
  | cons siblings rest ih =>
    rw [checkLengths] at h
    split at h
    next hlength =>
      obtain ⟨index, found, hfound, hne, rfl, hleast⟩ := ih h
      refine ⟨index + 1, found, hfound, hne, by rw [Nat.add_right_comm, Nat.add_assoc], ?_⟩
      intro index' siblings' hindex' hne'
      cases index' with
      | zero =>
        cases hindex'
        exact absurd hlength hne'
      | succ index' => exact Nat.succ_le_succ (hleast index' siblings' hindex' hne')
    next hlength =>
      cases h
      exact ⟨0, siblings, rfl, hlength, rfl, fun _ _ _ _ => Nat.zero_le _⟩

/-! ## What is reported -/

/-- What is accepted violates nothing. -/
theorem not_violates_of_ok {s : Shape} {b : Batch} (h : s.accepts b = .ok ()) (error : ShapeError) :
    ¬ s.Violates b error := by
  obtain ⟨hcommitments, hproofs, hlengths, hlast⟩ := accepts_eq_ok_iff.mp h
  rintro (hne | hne | ⟨hindex, hne⟩ | hle)
  · exact hne hcommitments
  · exact hne hproofs
  · exact hne (hlengths _ (List.mem_of_getElem? hindex))
  · exact absurd (fits_lastIndex_iff.mp hlast) (not_lt.mpr hle)

/-- What comes before the reported error in the order does not hold. -/
theorem firstViolation_of_error {s : Shape} {b : Batch} {error : ShapeError}
    (h : s.accepts b = .error error) : s.FirstViolation b error := by
  rw [accepts] at h
  split at h
  next hcommitments =>
    cases h
    refine ⟨.commitmentCount hcommitments, fun other hother => ?_⟩
    cases hother <;> simp [rank, Prod.Lex.toLex_le_toLex]
  next hcommitments =>
  split at h
  next hproofs =>
    cases h
    refine ⟨.proofCount hproofs, fun other hother => ?_⟩
    cases hother with
    | commitmentCount hne => exact absurd hne hcommitments
    | _ => simp [rank, Prod.Lex.toLex_le_toLex]
  next hproofs =>
  split at h
  next found hcheck =>
    cases h
    obtain ⟨index, siblings, hindex, hne, rfl, hleast⟩ := checkLengths_eq_error hcheck
    rw [Nat.zero_add]
    refine ⟨.proofLength hindex hne, fun other hother => ?_⟩
    cases hother with
    | commitmentCount hne => exact absurd hne hcommitments
    | proofCount hne => exact absurd hne hproofs
    | proofLength hindex' hne' => simp [rank, Prod.Lex.toLex_le_toLex, hleast _ _ hindex' hne']
    | indexOverflow => simp [rank, Prod.Lex.toLex_le_toLex]
  next hcheck =>
  split at h
  · cases h
  next hlast =>
    cases h
    have hle := not_lt.mp (fits_lastIndex_iff.not.mp hlast)
    refine ⟨.indexOverflow hle, fun other hother => ?_⟩
    cases hother with
    | commitmentCount hne => exact absurd hne hcommitments
    | proofCount hne => exact absurd hne hproofs
    | proofLength hindex hne =>
      exact absurd (checkLengths_eq_ok_iff.mp hcheck _ (List.mem_of_getElem? hindex)) hne
    | indexOverflow => exact le_rfl

theorem accepts_eq_error_iff {s : Shape} {b : Batch} {error : ShapeError} :
    s.accepts b = .error error ↔ s.FirstViolation b error :=
  eq_error_iff_firstBy (fun _ => not_violates_of_ok) (fun _ => firstViolation_of_error)
    fun _ _ => Violates.eq_of_rank_eq

/-- For every shape, supported or not: a batch is accepted exactly if it has as many commitments and
proofs as the shape says, proofs of the right length and a last index that is a leaf; otherwise the
error describes the first violation. Computing the last index and comparing it in words of 64 bits
gives the same as with integers. -/
theorem accepts_first_violation (s : Shape) (b : Batch) :
    (s.accepts b = .ok () ↔
      b.commitments.length = s.batchSize.toNat ∧ b.proofs.length = s.batchSize.toNat ∧
        (∀ siblings ∈ b.proofs, siblings.length = s.treeDepth.toNat) ∧
        b.startIndex.toNat + max ((s.batchSize.toNat : Int) - 1) 0 < 2 ^ s.treeDepth.toNat) ∧
    (∀ error, s.accepts b = .error error ↔ s.FirstViolation b error) ∧
    (s.lastIndex b).toNat = b.startIndex.toNat + max ((s.batchSize.toNat : Int) - 1) 0 ∧
    (s.lastIndexFits b = true ↔
      b.startIndex.toNat + max ((s.batchSize.toNat : Int) - 1) 0 < 2 ^ s.treeDepth.toNat) := by
  refine ⟨?_, fun _ => accepts_eq_error_iff, ?_, lastIndexFits_iff⟩
  · rw [accepts_eq_ok_iff, fits_lastIndex_iff]
  · rw [toNat_lastIndex]
    omega

/-- The second of two proofs is too short and the batch runs past the last leaf: the proof is
reported. No batch is too long for the words of a tree that is deeper than they are wide. -/
theorem accepts_first_violation_ragged :
    let s : Shape := ⟨2, 2⟩
    let b : Batch := ⟨none, 0xffffffff, 0, 0, [1, 2], [[0, 0], [0]]⟩
    let deep : Shape := ⟨70, 1⟩
    let single : Batch := ⟨none, 0xffffffff, 0, 0, [1], [List.replicate 70 0]⟩
    (s.accepts b = .error (.proofLength 1 1 2) ∧ s.Violates b (.indexOverflow 0xffffffff s)) ∧
      s.FirstViolation b (.proofLength 1 1 2) ∧ deep.accepts single = .ok () ∧
      deep.lastIndexFits single = true := by
  intro s b deep single
  have hb : s.accepts b = .error (.proofLength 1 1 2) := rfl
  have hlast : single.startIndex.toNat + max ((deep.batchSize.toNat : Int) - 1) 0 <
      2 ^ deep.treeDepth.toNat := by decide
  have hlengths : ∀ siblings ∈ single.proofs, siblings.length = deep.treeDepth.toNat := by decide
  obtain ⟨hok, -, -, hwords⟩ := accepts_first_violation deep single
  exact ⟨⟨hb, .indexOverflow (by decide)⟩, ((accepts_first_violation s b).2.1 _).mp hb,
    hok.mpr ⟨rfl, rfl, hlengths, hlast⟩, hwords.mpr hlast⟩

end Shape

end MerkleBatch
