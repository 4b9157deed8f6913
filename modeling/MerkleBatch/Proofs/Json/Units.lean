import MerkleBatch.Json.Token
import MerkleBatch.Proofs.Json.Grammar

/-!
# Strings by their code units

A string is read piece by piece, and an escape may be half of a character. What the pieces make up
depends on their UTF-16 code units only.

* `unitsToken`: the token of a string with these code units.
* `ofPieces_eq_unitsToken`: pieces make up the string that their code units make up.
* `unitsToken_eq_text_iff`: the code units of a text make up that text, no others do.
-/

namespace MerkleBatch.Json

/-- The code units that a place in a string stands for. -/
def Piece.units : Piece → List UInt16
  | char c => unitsOf c
  | unit u => [.ofNat u]

/-- A place in a string that is written for a code unit. -/
def Piece.ofUnit (u : UInt16) : Piece := .unit u.toNat

variable {before : List Char} {pieces : List Piece} {us : List UInt16} {u : Nat} {c : Char}
  {s : String}

theorem units_ofUnit (u : UInt16) : (Piece.ofUnit u).units = [u] := by
  rw [Piece.ofUnit, Piece.units, UInt16.ofNat_toNat]

/-- No character is half of another one. -/
theorem isHalf_toNat (c : Char) : isHighHalf c.toNat = false ∧ isLowHalf c.toNat = false := by
  have hvalid : c.toNat < 0xD800 ∨ 0xDFFF < c.toNat ∧ c.toNat < 0x110000 := c.valid
  simp only [isHighHalf, isLowHalf, Bool.and_eq_false_iff, decide_eq_false_iff_not]
  omega

/-- A code unit that is no half stands for a character. -/
theorem join?_unit (hhigh : isHighHalf u = false) (hlow : isLowHalf u = false) :
    join? before (.unit u :: pieces) = join? (Char.ofNat u :: before) pieces := by
  match pieces with
  | [] | .char _ :: _ | .unit _ :: _ => simp [join?, hhigh, hlow]

theorem join?_halves {high low : Nat} (hhigh : isHighHalf high = true)
    (hlow : isLowHalf low = true) :
    join? before (.unit high :: .unit low :: pieces) =
      join? (joinHalves high low :: before) pieces := by
  simp [join?, hhigh, hlow]

/-- A second half without a first one stands for nothing. -/
theorem join?_low (hlow : isLowHalf u = true) : join? before (.unit u :: pieces) = none := by
  have hhigh : isHighHalf u = false := by
    simp only [isHighHalf, isLowHalf, Bool.and_eq_true, Bool.and_eq_false_iff, decide_eq_true_eq,
      decide_eq_false_iff_not] at *
    omega
  match pieces with
  | [] | .char _ :: _ | .unit _ :: _ => simp [join?, hhigh, hlow]

/-- A character of the basic plane is one unit, any other one has two halves. -/
theorem unitsOf_cases (c : Char) :
    (c.toNat < 0x10000 ∧ (unitsOf c).map Piece.ofUnit = [.unit c.toNat]) ∨
      ∃ high low, isHighHalf high = true ∧ isLowHalf low = true ∧ joinHalves high low = c ∧
        (unitsOf c).map Piece.ofUnit = [.unit high, .unit low] := by
  by_cases h : c.toNat < 0x10000
  · refine .inl ⟨h, ?_⟩
    rw [unitsOf, if_pos h, List.map_singleton, Piece.ofUnit, UInt16.toNat_ofNat_of_lt' h]
  · have hvalid : c.toNat < 0xD800 ∨ 0xDFFF < c.toNat ∧ c.toNat < 0x110000 := c.valid
    refine .inr ⟨0xD800 + (c.toNat - 0x10000) / 1024, 0xDC00 + (c.toNat - 0x10000) % 1024,
      ?_, ?_, ?_, ?_⟩
    · simp only [isHighHalf, Bool.and_eq_true, decide_eq_true_eq]
      omega
    · simp only [isLowHalf, Bool.and_eq_true, decide_eq_true_eq]
      omega
    · have hvalue : 0x10000 + 1024 * (0xD800 + (c.toNat - 0x10000) / 1024 - 0xD800) +
          (0xDC00 + (c.toNat - 0x10000) % 1024 - 0xDC00) = c.toNat := by omega
      rw [joinHalves, hvalue, Char.ofNat_toNat]
    · have hhigh : 0xD800 + (c.toNat - 0x10000) / 1024 < UInt16.size := by
        rw [UInt16.size]
        omega
      have hlow : 0xDC00 + (c.toNat - 0x10000) % 1024 < UInt16.size := by
        rw [UInt16.size]
        omega
      rw [unitsOf, if_neg h, List.map_cons, List.map_singleton, Piece.ofUnit, Piece.ofUnit,
        UInt16.toNat_ofNat_of_lt' hhigh, UInt16.toNat_ofNat_of_lt' hlow]

/-- The units of a character stand for it. -/
theorem join?_unitsOf (c : Char) (before : List Char) (pieces : List Piece) :
    join? before ((unitsOf c).map Piece.ofUnit ++ pieces) = join? (c :: before) pieces := by
  rcases unitsOf_cases c with ⟨-, hunits⟩ | ⟨high, low, hhigh, hlow, hjoin, hunits⟩
  · obtain ⟨hhigh, hlow⟩ := isHalf_toNat c
    rw [hunits, List.singleton_append, join?_unit hhigh hlow, Char.ofNat_toNat]
  · rw [hunits, List.cons_append, List.singleton_append, join?_halves hhigh hlow, hjoin]

/-- The first unit of a character is not the second half of another one. -/
theorem join?_high_unitsOf {high : Nat} (hhigh : isHighHalf high = true) (c : Char)
    (pieces : List Piece) :
    join? before (.unit high :: ((unitsOf c).map Piece.ofUnit ++ pieces)) = none := by
  rcases unitsOf_cases c with ⟨-, hunits⟩ | ⟨first, second, hfirst, -, -, hunits⟩
  · simp [hunits, join?, hhigh, (isHalf_toNat c).2]
  · have hlow : isLowHalf first = false := by
      simp only [isHighHalf, isLowHalf, Bool.and_eq_true, Bool.and_eq_false_iff,
        decide_eq_true_eq, decide_eq_false_iff_not] at *
      omega
    simp [hunits, join?, hhigh, hlow]

/-- What a string makes up depends on its code units only. -/
theorem join?_eq_ofUnit (h : ∀ u, Piece.unit u ∈ pieces → u < 0x10000) :
    join? before pieces = join? before ((pieces.flatMap Piece.units).map Piece.ofUnit) := by
  have hunit : ∀ {u : Nat} {ps : List Piece}, u < 0x10000 →
      ((Piece.unit u :: ps).flatMap Piece.units).map Piece.ofUnit =
        .unit u :: (ps.flatMap Piece.units).map Piece.ofUnit := by
    intro u ps hu
    simp [Piece.units, Piece.ofUnit, UInt16.toNat_ofNat_of_lt' hu]
  fun_induction join? before pieces with
  | case1 => rfl
  | case2 before c rest ih =>
    rw [List.flatMap_cons, List.map_append, Piece.units, join?_unitsOf]
    exact ih fun u hu => h u (List.mem_cons_of_mem _ hu)
  | case3 before high low rest hhigh hlow ih =>
    rw [hunit (h high (by simp)), hunit (h low (by simp)), join?_halves hhigh hlow]
    exact ih fun u hu => h u (by simp [hu])
  | case4 before high low rest hhigh hlow =>
    rw [hunit (h high (by simp)), hunit (h low (by simp))]
    simp [join?, hhigh, hlow]
  | case5 before high low rest hhigh hlow =>
    rw [hunit (h high (by simp)), hunit (h low (by simp))]
    simp [join?, hhigh, hlow]
  | case6 before high low rest hhigh hlow ih =>
    rw [hunit (h high (by simp))]
    refine (ih fun u hu => h u (List.mem_cons_of_mem _ hu)).trans (join?_unit ?_ ?_).symm
    · simpa using hhigh
    · simpa using hlow
  | case7 before u rest hnext hhalf =>
    rw [hunit (h u (by simp))]
    rcases Bool.or_eq_true_iff.mp hhalf with hhigh | hlow
    · match rest with
      | [] => simp [join?, hhigh]
      | .char c :: rest =>
        rw [List.flatMap_cons, List.map_append]
        exact (join?_high_unitsOf hhigh c _).symm
      | .unit low :: rest => exact absurd rfl (hnext low rest)
    · exact (join?_low hlow).symm
  | case8 before u rest hnext hhalf ih =>
    obtain ⟨hhigh, hlow⟩ : isHighHalf u = false ∧ isLowHalf u = false := by simpa using hhalf
    rw [hunit (h u (by simp)), join?_unit hhigh hlow]
    exact ih fun u hu => h u (List.mem_cons_of_mem _ hu)

theorem flatMap_units_ofUnit (us : List UInt16) :
    (us.map Piece.ofUnit).flatMap Piece.units = us := by
  rw [List.flatMap_map]
  simp [units_ofUnit]

theorem toNat_charOfNat (h : u.isValidChar) : (Char.ofNat u).toNat = u := by
  rw [Char.ofNat, dif_pos h]
  rfl

theorem unitsOf_ofNat (hu : u < 0x10000) (hhigh : isHighHalf u = false)
    (hlow : isLowHalf u = false) : unitsOf (Char.ofNat u) = [.ofNat u] := by
  have hvalid : u.isValidChar := by
    simp only [isHighHalf, isLowHalf, Bool.and_eq_false_iff, decide_eq_false_iff_not] at hhigh hlow
    rw [Nat.isValidChar]
    omega
  rw [unitsOf, toNat_charOfNat hvalid, if_pos hu]

theorem unitsOf_joinHalves {high low : Nat} (hhigh : isHighHalf high = true)
    (hlow : isLowHalf low = true) : unitsOf (joinHalves high low) = [.ofNat high, .ofNat low] := by
  simp only [isHighHalf, isLowHalf, Bool.and_eq_true, decide_eq_true_eq] at hhigh hlow
  generalize hn : 0x10000 + 1024 * (high - 0xD800) + (low - 0xDC00) = n
  have hvalid : n.isValidChar := by
    rw [Nat.isValidChar]
    omega
  have hfirst : 0xD800 + (n - 0x10000) / 1024 = high := by omega
  have hsecond : 0xDC00 + (n - 0x10000) % 1024 = low := by omega
  rw [joinHalves, hn, unitsOf, toNat_charOfNat hvalid, if_neg (by omega), hfirst, hsecond]

/-- Pieces that make up a string have its code units. -/
theorem flatMap_units_of_join? (hbound : ∀ u, Piece.unit u ∈ pieces → u < 0x10000)
    (h : join? before pieces = some s) :
    ∃ cs, s = String.ofList (before.reverse ++ cs) ∧
      pieces.flatMap Piece.units = cs.flatMap unitsOf := by
  fun_induction join? before pieces with
  | case1 before =>
    cases h
    exact ⟨[], by rw [List.append_nil], rfl⟩
  | case2 before c rest ih =>
    obtain ⟨cs, hs, hunits⟩ := ih (fun u hu => hbound u (List.mem_cons_of_mem _ hu)) h
    refine ⟨c :: cs, by simpa using hs, ?_⟩
    rw [List.flatMap_cons, List.flatMap_cons, hunits, Piece.units]
  | case3 before high low rest hhigh hlow ih =>
    obtain ⟨cs, hs, hunits⟩ := ih (fun u hu => hbound u (by simp [hu])) h
    refine ⟨joinHalves high low :: cs, by simpa using hs, ?_⟩
    rw [List.flatMap_cons, List.flatMap_cons, List.flatMap_cons, hunits,
      unitsOf_joinHalves hhigh hlow]
    rfl
  | case4 => cases h
  | case5 => cases h
  | case6 before high low rest hhigh hlow ih =>
    obtain ⟨cs, hs, hunits⟩ := ih (fun u hu => hbound u (List.mem_cons_of_mem _ hu)) h
    refine ⟨Char.ofNat high :: cs, by simpa using hs, ?_⟩
    rw [List.flatMap_cons, hunits, List.flatMap_cons,
      unitsOf_ofNat (hbound high (by simp)) (by simpa using hhigh) (by simpa using hlow),
      Piece.units]
  | case7 => cases h
  | case8 before u rest hnext hhalf ih =>
    obtain ⟨hhigh, hlow⟩ : isHighHalf u = false ∧ isLowHalf u = false := by simpa using hhalf
    obtain ⟨cs, hs, hunits⟩ := ih (fun u hu => hbound u (List.mem_cons_of_mem _ hu)) h
    refine ⟨Char.ofNat u :: cs, by simpa using hs, ?_⟩
    rw [List.flatMap_cons, hunits, List.flatMap_cons, unitsOf_ofNat (hbound u (by simp)) hhigh hlow,
      Piece.units]

/-- The token of some code units. -/
def unitsToken (us : List UInt16) : Token := ofPieces (us.map Piece.ofUnit)

theorem ofPieces_eq_unitsToken (h : ∀ u, Piece.unit u ∈ pieces → u < 0x10000) :
    ofPieces pieces = unitsToken (pieces.flatMap Piece.units) := by
  rw [unitsToken, ofPieces, ofPieces, join?_eq_ofUnit h]

theorem unitsToken_units (s : String) : unitsToken (units s) = .text s := by
  have hjoin : ∀ (cs before : List Char),
      join? before ((cs.flatMap unitsOf).map Piece.ofUnit) =
        some (String.ofList (before.reverse ++ cs)) := by
    intro cs
    induction cs with
    | nil => intro before; rw [List.append_nil]; rfl
    | cons c cs ih =>
      intro before
      rw [List.flatMap_cons, List.map_append, join?_unitsOf, ih, List.reverse_cons,
        List.append_assoc]
      rfl
  rw [unitsToken, units, ofPieces, hjoin]
  simp

/-- Only the code units of a text are read as that text. -/
theorem unitsToken_eq_text_iff : unitsToken us = .text s ↔ us = units s := by
  refine ⟨fun h => ?_, fun h => h ▸ unitsToken_units s⟩
  rw [unitsToken, ofPieces] at h
  split at h
  · rename_i s' hjoin
    cases h
    have hbound : ∀ u, Piece.unit u ∈ us.map Piece.ofUnit → u < 0x10000 := by
      intro u hu
      obtain ⟨v, -, hv⟩ := List.mem_map.mp hu
      cases hv
      exact v.toNat_lt
    obtain ⟨cs, rfl, hunits⟩ := flatMap_units_of_join? hbound hjoin
    rw [flatMap_units_ofUnit] at hunits
    rw [hunits, units]
    simp
  · cases h

/-- Texts with the same code units are the same. -/
theorem units_injective : Function.Injective units := by
  intro s s' h
  have htoken := unitsToken_units s
  rw [h, unitsToken_units] at htoken
  exact (Token.text.inj htoken).symm

/-- Code units are read as some text or as a broken one. -/
theorem unitsToken_cases (us : List UInt16) :
    (∃ s, unitsToken us = .text s) ∨ unitsToken us = .brokenText := by
  rw [unitsToken, ofPieces]
  split
  · exact .inl ⟨_, rfl⟩
  · exact .inr rfl

end MerkleBatch.Json
