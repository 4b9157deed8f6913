import Mathlib.Data.List.Forall2
import MerkleBatch.Proofs.Json.Grammar
import MerkleBatch.Proofs.Text.Digits
import MerkleBatch.Scalar.Hex

/-!
# What hexadecimal text stands for

Text is read byte by byte, but what may be read is said of its characters: they are the digits, of
either case, of the halves of the bytes that the text stands for. A character outside ASCII is no
digit, and neither is any of its bytes.

* `nibbles`: the halves of bytes, in order.
* `decode_utf8_eq_ok_iff`, `decodeExactly_utf8_eq_ok_iff`: the texts of a byte string.
* `ofDigits_nibbles`: bytes and their halves stand for the same number.
* `toList_encodeString`: the text with which a byte string is written.
* `exists_nibbles`: digits, if even in number, are the halves of bytes.
-/

namespace MerkleBatch.Hex

open Json (HexDigit)
open Scalar (utf8)

/-! ## Digits -/

/-- What holds of the sixteen digits in either case holds of every digit. -/
theorem of_hexDigit {P : Char → Nat → Prop}
    (h : ∀ n : Fin 16, P (Nat.digitChar n) n ∧ P (Nat.digitChar n).toUpper n) {c : Char} {d : Nat} :
    HexDigit c d → P c d := by
  rintro ⟨hd, rfl | rfl⟩
  · exact (h ⟨d, hd⟩).1
  · exact (h ⟨d, hd⟩).2

theorem hexDigits_lt {cs : List Char} {ds : List Nat} (h : List.Forall₂ HexDigit cs ds) :
    ∀ d ∈ ds, d < 16 := by
  induction h with
  | nil => simp
  | cons hd _ ih => exact List.forall_mem_cons.mpr ⟨hd.1, ih⟩

theorem exists_hexDigits_iff {cs : List Char} :
    (∃ ds, List.Forall₂ HexDigit cs ds) ↔ ∀ c ∈ cs, ∃ d, HexDigit c d := by
  induction cs with
  | nil => simp
  | cons c cs ih => simp [List.forall₂_cons_left_iff, ← ih]

theorem forall₂_map_digitChar {ds : List Nat} (h : ∀ d ∈ ds, d < 16) :
    List.Forall₂ HexDigit (ds.map Nat.digitChar) ds := by
  rw [List.forall₂_map_left_iff, List.forall₂_same]
  exact fun d hd => ⟨h d hd, .inl rfl⟩

/-! ## Characters and bytes -/

theorem digitValue?_bounds {byte : UInt8} {d : Nat} (h : digitValue? byte = some d) :
    d < 16 ∧ byte.toNat < 128 := by
  simp only [digitValue?] at h
  split at h
  · cases h; omega
  · split at h
    · cases h; omega
    · split at h
      · cases h; omega
      · cases h

/-- A digit is written in one byte. -/
theorem utf8EncodeChar_of_hexDigit {c : Char} {d : Nat} (h : HexDigit c d) :
    ∃ byte, String.utf8EncodeChar c = [byte] ∧ digitValue? byte = some d := by
  have hdigit : String.utf8EncodeChar c = [UInt8.ofNat c.toNat] ∧
      digitValue? (UInt8.ofNat c.toNat) = some d :=
    of_hexDigit (P := fun c d => String.utf8EncodeChar c = [UInt8.ofNat c.toNat] ∧
      digitValue? (UInt8.ofNat c.toNat) = some d) (by decide) h
  exact ⟨_, hdigit⟩

/-- Of the characters only those of ASCII begin with a byte below 128. -/
theorem toNat_of_utf8EncodeChar {c : Char} {byte : UInt8} {more : List UInt8}
    (h : String.utf8EncodeChar c = byte :: more) (hbyte : byte.toNat < 128) :
    c.toNat = byte.toNat ∧ more = [] := by
  have hc : c.val.toNat = c.toNat := rfl
  simp only [String.utf8EncodeChar, hc] at h
  split_ifs at h
  all_goals
    obtain ⟨rfl, rfl⟩ := List.cons.inj h
    rw [UInt8.toNat_ofNat'] at hbyte ⊢
  · exact ⟨by omega, rfl⟩
  -- the other characters begin with a byte that has the two highest bits set
  all_goals omega

theorem hexDigit_of_utf8EncodeChar {c : Char} {byte : UInt8} {more : List UInt8} {d : Nat}
    (h : String.utf8EncodeChar c = byte :: more) (hd : digitValue? byte = some d) :
    HexDigit c d ∧ more = [] := by
  obtain ⟨hlt, hbyte⟩ := digitValue?_bounds hd
  obtain ⟨hc, hmore⟩ := toNat_of_utf8EncodeChar h hbyte
  have hascii := (by decide +kernel : ∀ n : Fin 128, ∀ d : Fin 16,
    digitValue? (UInt8.ofNat n.val) = some d.val →
      Char.ofNat n.val = Nat.digitChar d ∨ Char.ofNat n.val = (Nat.digitChar d).toUpper)
    ⟨byte.toNat, hbyte⟩ ⟨d, hlt⟩ (by simpa using hd)
  simp only [← hc, Char.ofNat_toNat] at hascii
  exact ⟨⟨hlt, hascii⟩, hmore⟩

/-- The bytes of a text are digits exactly if its characters are, with the same values. -/
theorem forall₂_utf8_iff {cs : List Char} {ds : List Nat} :
    List.Forall₂ (fun byte d => digitValue? byte = some d) (utf8 cs) ds ↔
      List.Forall₂ HexDigit cs ds := by
  induction cs generalizing ds with
  | nil => simp [utf8]
  | cons c rest ih =>
    have hutf8 : utf8 (c :: rest) = String.utf8EncodeChar c ++ utf8 rest := List.flatMap_cons
    rw [hutf8]
    constructor
    · intro h
      obtain ⟨byte, more, hc⟩ := List.exists_cons_of_ne_nil (String.utf8EncodeChar_ne_nil (c := c))
      rw [hc, List.cons_append] at h
      obtain ⟨d, ds, hd, hds, rfl⟩ := List.forall₂_cons_left_iff.mp h
      obtain ⟨hdigit, rfl⟩ := hexDigit_of_utf8EncodeChar hc hd
      exact .cons hdigit (ih.mp hds)
    · intro h
      obtain ⟨d, ds, hd, hds, rfl⟩ := List.forall₂_cons_left_iff.mp h
      obtain ⟨byte, hc, hbyte⟩ := utf8EncodeChar_of_hexDigit hd
      rw [hc]
      exact .cons hbyte (ih.mpr hds)

/-! ## Bytes and their halves -/

/-- The halves of bytes, the high one of each first. -/
def nibbles (bytes : List UInt8) : List Nat :=
  bytes.flatMap fun byte => [byte.toNat / 16, byte.toNat % 16]

@[simp]
theorem nibbles_nil : nibbles [] = [] := rfl

@[simp]
theorem nibbles_cons (byte : UInt8) (bytes : List UInt8) :
    nibbles (byte :: bytes) = byte.toNat / 16 :: byte.toNat % 16 :: nibbles bytes := rfl

@[simp]
theorem length_nibbles (bytes : List UInt8) : (nibbles bytes).length = 2 * bytes.length := by
  induction bytes with
  | nil => rfl
  | cons byte rest ih => simp only [nibbles_cons, List.length_cons, ih]; omega

theorem nibbles_lt {bytes : List UInt8} {d : Nat} (h : d ∈ nibbles bytes) : d < 16 := by
  obtain ⟨byte, -, hd⟩ := List.mem_flatMap.mp h
  have := byte.toNat_lt
  simp only [List.mem_cons, List.not_mem_nil, or_false] at hd
  omega

/-- Digits, if even in number, are the halves of bytes. -/
theorem exists_nibbles : ∀ {ds : List Nat}, ds.length % 2 = 0 → (∀ d ∈ ds, d < 16) →
    ∃ bytes, nibbles bytes = ds
  | [], _, _ => ⟨[], rfl⟩
  | [_], heven, _ => by simp at heven
  | high :: low :: rest, heven, hsmall => by
    simp only [List.forall_mem_cons] at hsmall
    obtain ⟨hhigh, hlow, hrest⟩ := hsmall
    simp only [List.length_cons] at heven
    obtain ⟨bytes, hbytes⟩ := exists_nibbles (by omega) hrest
    have hbyte : (UInt8.ofNat (16 * high + low)).toNat = 16 * high + low := by
      rw [UInt8.toNat_ofNat', Nat.mod_eq_of_lt (by omega)]
    refine ⟨UInt8.ofNat (16 * high + low) :: bytes, ?_⟩
    rw [nibbles_cons, hbytes, hbyte]
    congr 2 <;> omega

/-- Bytes and their halves stand for the same number. -/
theorem ofDigits_nibbles (bytes : List UInt8) :
    ofDigits 16 (nibbles bytes) = Bytes.ofBigEndian bytes := by
  rw [Bytes.ofBigEndian_eq_foldl, ofDigits]
  generalize 0 = n
  induction bytes generalizing n with
  | nil => rfl
  | cons byte rest ih =>
    have hbyte : 16 * (16 * n + byte.toNat / 16) + byte.toNat % 16 = 256 * n + byte.toNat := by
      omega
    rw [nibbles_cons, List.foldl_cons, List.foldl_cons, List.foldl_cons, ih, hbyte]

/-! ## Reading -/

/-- Pairs of digits are read as the bytes of which they are the halves. -/
theorem decodePairs_eq_ok_iff {position : Nat} {text bytes : List UInt8} :
    decodePairs position text = .ok bytes ↔
      List.Forall₂ (fun byte d => digitValue? byte = some d) text (nibbles bytes) := by
  fun_induction decodePairs position text generalizing bytes with
  | case1 position => cases bytes <;> simp
  | case2 position byte => cases bytes <;> simp
  | case3 position high low rest hhigh => cases bytes <;> simp [hhigh]
  | case4 position high low rest h hlow hhigh => cases bytes <;> simp [hhigh, hlow]
  | case5 position high low rest h l hlow hhigh fault hrest ih =>
    cases bytes with
    | nil => simp
    | cons byte bytes =>
      rw [nibbles_cons, List.forall₂_cons, List.forall₂_cons, ← ih, hrest]
      simp
  | case6 position high low rest h l hlow hhigh out hrest ih =>
    obtain ⟨hh, -⟩ := digitValue?_bounds hhigh
    obtain ⟨hl, -⟩ := digitValue?_bounds hlow
    cases bytes with
    | nil => simp
    | cons byte bytes =>
      have hpair : UInt8.ofNat (16 * h + l) = byte ↔ h = byte.toNat / 16 ∧ l = byte.toNat % 16 := by
        rw [← UInt8.toNat_inj, UInt8.toNat_ofNat']
        omega
      rw [nibbles_cons, List.forall₂_cons, List.forall₂_cons, hhigh, hlow, ← ih, hrest]
      simp only [Except.ok.injEq, List.cons.injEq, Option.some.injEq, hpair, and_assoc]

theorem length_of_decodePairs {position : Nat} {text bytes : List UInt8}
    (h : decodePairs position text = .ok bytes) : text.length = 2 * bytes.length := by
  rw [(decodePairs_eq_ok_iff.mp h).length_eq, length_nibbles]

/-- The texts of a byte string are those whose characters are the digits of its halves. -/
theorem decode_utf8_eq_ok_iff {cs : List Char} {bytes : List UInt8} :
    decode (utf8 cs) = .ok bytes ↔ List.Forall₂ HexDigit cs (nibbles bytes) := by
  rw [← forall₂_utf8_iff, ← @decodePairs_eq_ok_iff 0, decode]
  split
  · refine iff_of_false (by simp) fun h => ?_
    have := length_of_decodePairs h
    omega
  · exact Iff.rfl

/-- The same for byte strings of a length. -/
theorem decodeExactly_utf8_eq_ok_iff {size : Nat} {cs : List Char} {bytes : List UInt8} :
    decodeExactly size (utf8 cs) = .ok bytes ↔
      bytes.length = size ∧ List.Forall₂ HexDigit cs (nibbles bytes) := by
  rw [← forall₂_utf8_iff, ← @decodePairs_eq_ok_iff 0, decodeExactly]
  split
  · refine iff_of_false (by simp) fun ⟨_, h⟩ => ?_
    have := length_of_decodePairs h
    omega
  · split
    · refine iff_of_false (by simp) fun ⟨_, h⟩ => ?_
      have := length_of_decodePairs h
      omega
    · refine ⟨fun h => ⟨?_, h⟩, And.right⟩
      have := length_of_decodePairs h
      omega

/-! ## Writing -/

/-- Bytes are written with the digits of their halves. -/
theorem toList_encodeString (bytes : List UInt8) :
    (encodeString bytes).toList = (nibbles bytes).map Nat.digitChar := by
  have hdigit {n : Nat} (h : n < 16) : Char.ofNat (digitOf n).toNat = Nat.digitChar n :=
    (by decide : ∀ n : Fin 16, Char.ofNat (digitOf n).toNat = Nat.digitChar n) ⟨n, h⟩
  rw [encodeString, String.toList_ofList]
  induction bytes with
  | nil => rfl
  | cons byte rest ih =>
    have hlt := byte.toNat_lt
    simp only [encode, nibbles_cons, List.map_cons, hdigit (by omega : byte.toNat / 16 < 16),
      hdigit (by omega : byte.toNat % 16 < 16), ih]

end MerkleBatch.Hex
