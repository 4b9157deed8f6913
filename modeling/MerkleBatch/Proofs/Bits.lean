import MerkleBatch.Proofs.Index

/-!
# Indices and their bits

An index gives as many bits as it is asked for; beyond its own 64 none is set. Bits give an index by
being set in a word one after another, which stops at one that is set beyond the 64th. Each way
undoes the other one, the first as far as the bits that were asked for.

* `setBits`, `ofBits_eq_setBits`: setting bits one after another, and that their index comes of it.
* `ofBits_eq_error_iff`: the bits of no index.
* `bits_ofBits`: the bits of the index that bits give.
* `bits_mutually_inverse`: both ways, for all indices, depths and bits.
-/

namespace MerkleBatch.Index

/-! ## Setting bits -/

/-- A word with the bit at `place` set; a place that no word has stops the computation. -/
def setBit (word : UInt64) (place : Nat) : Except Overflow UInt64 :=
  if place < wordBits then .ok (word ||| 1 <<< UInt64.ofNat place) else .error .shiftLeft

/-- Sets in a word those of the bits that are set, one after another; the first one stands at
`place`. -/
def setBits (word : UInt64) (place : Nat) (bs : List Bool) : Except Overflow UInt64 :=
  ((bs.zipIdx place).filter fun b => b.1).foldlM (fun word b => setBit word b.2) word

theorem setBits_false (word : UInt64) (place : Nat) (rest : List Bool) :
    setBits word place (false :: rest) = setBits word (place + 1) rest := rfl

theorem setBits_true (word : UInt64) (place : Nat) (rest : List Bool) :
    setBits word place (true :: rest) =
      (setBit word place).bind fun next => setBits next (place + 1) rest := by
  rw [setBits, List.zipIdx_cons, List.filter_cons_of_pos rfl, List.foldlM_cons]
  rfl

/-- A bit above all those of a word adds its power of two. -/
theorem setBit_eq_ok {word : UInt64} {place : Nat} (hplace : place < wordBits)
    (hword : word.toNat < 2 ^ place) :
    ∃ next, setBit word place = .ok next ∧ next.toNat = word.toNat + 2 ^ place := by
  refine ⟨_, if_pos hplace, ?_⟩
  have hlt : place < 64 := hplace
  have hpow : 2 ^ place < 2 ^ 64 := Nat.pow_lt_pow_right (by decide) hlt
  have hbit : ((1 : UInt64) <<< UInt64.ofNat place).toNat = 2 ^ place := by
    rw [UInt64.toNat_shiftLeft, UInt64.toNat_ofNat', UInt64.toNat_one, Nat.one_shiftLeft,
      Nat.mod_eq_of_lt (by omega : place < 2 ^ 64), Nat.mod_eq_of_lt hlt, Nat.mod_eq_of_lt hpow]
  have hor := Nat.two_pow_add_eq_or_of_lt hword 1
  rw [Nat.mul_one] at hor
  rw [UInt64.toNat_or, hbit, Nat.or_comm, ← hor, Nat.add_comm]

/-- The bits that no word has, with one more bit in front of all. -/
private theorem any_drop_cons (place : Nat) (b : Bool) (rest : List Bool) :
    ((b :: rest).drop (wordBits - place)).any id =
      (decide (wordBits ≤ place) && b || (rest.drop (wordBits - (place + 1))).any id) := by
  by_cases hplace : wordBits ≤ place
  · have hnone : wordBits - place = 0 := by omega
    have hnone' : wordBits - (place + 1) = 0 := by omega
    simp [hplace, hnone, hnone']
  · have hsome : wordBits - place = wordBits - (place + 1) + 1 := by omega
    simp [hplace, hsome]

/-- Bits above all those of a word add the number that they stand for, wherever they begin; one that
no word has stops the computation. -/
theorem setBits_eq (bs : List Bool) {word : UInt64} {place : Nat} (hword : word.toNat < 2 ^ place) :
    setBits word place bs =
      if (bs.drop (wordBits - place)).any id then .error .shiftLeft
      else .ok (UInt64.ofNat (word.toNat + 2 ^ place * value bs)) := by
  induction bs generalizing word place with
  | nil =>
    rw [List.drop_nil, value, Nat.mul_zero, Nat.add_zero, UInt64.ofNat_toNat]
    rfl
  | cons b rest ih =>
    have hnext : 2 ^ (place + 1) = 2 ^ place * 2 := Nat.pow_succ 2 place
    rw [any_drop_cons]
    cases b with
    | false =>
      rw [setBits_false, ih (by omega), Bool.and_false, Bool.false_or, value, hnext, Nat.mul_assoc,
        Bool.toNat_false, Nat.zero_add]
    | true =>
      rw [setBits_true]
      by_cases hplace : place < wordBits
      · obtain ⟨next, hset, hvalue⟩ := setBit_eq_ok hplace hword
        have hsum : next.toNat + 2 ^ (place + 1) * value rest =
            word.toNat + 2 ^ place * value (true :: rest) := by
          rw [hvalue, hnext, value, Bool.toNat_true, Nat.mul_add, Nat.mul_one, Nat.mul_assoc,
            Nat.add_assoc]
        rw [hset, Except.bind, ih (by omega), hsum, decide_eq_false (Nat.not_le.mpr hplace)]
        rfl
      · rw [setBit, if_neg hplace, decide_eq_true (Nat.not_lt.mp hplace)]
        rfl

/-- The index of bits is what comes of setting them one after another. -/
theorem ofBits_eq_setBits (bs : List Bool) : ofBits bs = setBits 0 0 bs := by
  rw [setBits_eq bs (by decide), ofBits]
  simp

/-! ## Both ways -/

theorem any_drop_iff {bs : List Bool} {count : Nat} :
    (bs.drop count).any id = true ↔ ∃ place, count ≤ place ∧ bs[place]? = some true := by
  simp only [List.any_eq_true, id_eq, exists_eq_right, List.mem_iff_getElem?, List.getElem?_drop]
  constructor
  · rintro ⟨i, hi⟩
    exact ⟨count + i, Nat.le_add_right _ _, hi⟩
  · rintro ⟨place, hplace, hbit⟩
    refine ⟨place - count, ?_⟩
    rwa [Nat.add_sub_cancel' hplace]

/-- Bits are those of no index exactly if one of them is set that no word has. -/
theorem ofBits_eq_error_iff {bs : List Bool} {overflow : Overflow} :
    ofBits bs = .error overflow ↔
      (∃ place, wordBits ≤ place ∧ bs[place]? = some true) ∧ overflow = .shiftLeft := by
  rw [← any_drop_iff, ofBits]
  by_cases hword : (bs.drop wordBits).any id = true
  · rw [if_pos hword, and_iff_right hword, Except.error.injEq, eq_comm]
  · rw [if_neg hword]
    simp [hword]

/-- Without bits from `count` on, a number has no more than `count` bits. -/
theorem value_lt_of_drop {bs : List Bool} {count : Nat} (h : (bs.drop count).any id = false) :
    value bs < 2 ^ count := by
  induction bs generalizing count with
  | nil => exact Nat.two_pow_pos count
  | cons b rest ih =>
    cases count with
    | zero =>
      simp only [List.drop_zero, List.any_cons, id_eq, Bool.or_eq_false_iff] at h
      have hrest : value rest < 2 ^ 0 := ih h.2
      simp only [value, h.1, Bool.toNat_false]
      omega
    | succ count =>
      have hrest := ih h
      have hb : b.toNat ≤ 1 := Bool.toNat_le b
      rw [value, Nat.pow_succ']
      omega

/-- The index of bits has them as its bits. -/
theorem bits_ofBits {bs : List Bool} {index : UInt64} (h : ofBits bs = .ok index) :
    bits index bs.length = bs := by
  rw [ofBits] at h
  split at h
  · cases h
  · next hword =>
    obtain rfl := Except.ok.inj h
    have hlt : value bs < 2 ^ 64 := value_lt_of_drop (eq_false_of_ne_true hword)
    rw [bits_eq_lowBits, UInt64.toNat_ofNat', Nat.mod_eq_of_lt hlt, lowBits_value]

/-- An index gives as many bits as it is asked for, and they give the index back, as far as they go.
Bits give an index, which has them as its bits, unless one of them is set that no word has; the
index is what comes of setting them one after another. -/
theorem bits_mutually_inverse :
    (∀ (index : UInt64) (depth : Nat), (bits index depth).length = depth ∧
      ∃ low, ofBits (bits index depth) = .ok low ∧ low.toNat = index.toNat % 2 ^ depth ∧
        (wordBits ≤ depth → low = index)) ∧
    ∀ bs : List Bool, ofBits bs = setBits 0 0 bs ∧
      ((∃ overflow, ofBits bs = .error overflow) ↔
        ∃ place, wordBits ≤ place ∧ bs[place]? = some true) ∧
      ((¬ ∃ place, wordBits ≤ place ∧ bs[place]? = some true) →
        ∃ index, ofBits bs = .ok index ∧ bits index bs.length = bs) := by
  refine ⟨fun index depth => ⟨length_bits index depth, _, ofBits_bits index depth, ?_, ?_⟩,
    fun bs => ⟨ofBits_eq_setBits bs, ?_, fun hword => ?_⟩⟩
  · have hlt : index.toNat % 2 ^ depth < 2 ^ 64 :=
      Nat.lt_of_le_of_lt (Nat.mod_le _ _) index.toNat_lt
    rw [UInt64.toNat_ofNat', Nat.mod_eq_of_lt hlt]
  · intro hdepth
    have hpow : 2 ^ wordBits ≤ 2 ^ depth := Nat.pow_le_pow_right (by decide) hdepth
    rw [Nat.mod_eq_of_lt (Nat.lt_of_lt_of_le index.toNat_lt hpow), UInt64.ofNat_toNat]
  · simp only [ofBits_eq_error_iff, exists_and_left, exists_eq, and_true]
  · cases hresult : ofBits bs with
    | error overflow => exact absurd (ofBits_eq_error_iff.mp hresult).1 hword
    | ok index => exact ⟨index, rfl, bits_ofBits hresult⟩

/-- Of 66 bits the index 9 has the first and the fourth set, and they give it back; asked for three
bits only, it gives those of 1. Bits up to the 65th give no index if that one is set, and otherwise
the index without it. -/
theorem bits_mutually_inverse_wide :
    (bits 9 66).length = 66 ∧ ofBits (bits 9 66) = .ok 9 ∧
    (∃ low, ofBits (bits 9 3) = .ok low ∧ low.toNat = 1) ∧
    (∃ overflow, ofBits (List.replicate 64 false ++ [true]) = .error overflow) ∧
    ∃ index, ofBits (true :: List.replicate 64 false) = .ok index ∧
      bits index 65 = true :: List.replicate 64 false := by
  obtain ⟨hindex, hbits⟩ := bits_mutually_inverse
  obtain ⟨hlength, low, hlow, -, hwhole⟩ := hindex 9 66
  obtain ⟨-, one, hone, hvalue, -⟩ := hindex 9 3
  obtain ⟨-, herror, -⟩ := hbits (List.replicate 64 false ++ [true])
  obtain ⟨-, -, hok⟩ := hbits (true :: List.replicate 64 false)
  refine ⟨hlength, ?_, ⟨one, hone, hvalue⟩, herror.mpr ⟨64, Nat.le_refl _, rfl⟩, hok ?_⟩
  · rw [hlow, hwhole (by decide)]
  · rintro ⟨place, hplace, hbit⟩
    cases place with
    | zero => exact absurd hplace (by decide)
    | succ place =>
      rw [List.getElem?_cons_succ] at hbit
      cases List.eq_of_mem_replicate (List.mem_of_getElem? hbit)

end MerkleBatch.Index
