import MerkleBatch.Proofs.Text.Hex

/-!
# Written scalars

A scalar has many texts: either prefix, digits of either case, and zeros in front of them up to 64
digits in all. One of them is the form in which it is written.

* `Spells`: a text consists of a prefix and digits with these values.
* `ofHex?_eq_ok_iff`: the texts of a scalar.
* `toHex_eq`, `ofHex?_toHex`: the digits with which a scalar is written, and that they denote it.
* `normalForm`: the form of a text without what does not matter in it.
* `hex_exact`: reading, writing and the normal form together.
-/

namespace MerkleBatch

/-- The text that an error is about. -/
def HexError.text : HexError → String
  | missingPrefix text | badLength text | badDigits text _ | tooLarge text => text

namespace Scalar

open Json (HexDigit)

/-! ## The texts of a scalar -/

/-- The text is a prefix in front of 1 to 64 digits of either case, and these are their values. -/
def Spells (text : String) (ds : List Nat) : Prop :=
  ∃ x ∈ ['x', 'X'], ∃ cs, text.toList = '0' :: x :: cs ∧ List.Forall₂ HexDigit cs ds ∧
    1 ≤ ds.length ∧ ds.length ≤ 64

theorem digits?_eq_some_iff {text digits : List Char} :
    digits? text = some digits ↔ ∃ x ∈ ['x', 'X'], text = '0' :: x :: digits := by
  unfold digits?
  split <;> simp_all [eq_comm]

theorem hexDigit_zero_iff {d : Nat} : HexDigit '0' d ↔ d = 0 := by
  constructor
  · exact fun h => Hex.of_hexDigit (P := fun c d => c = '0' → d = 0) (by decide) h rfl
  · rintro rfl
    exact ⟨by decide, .inl rfl⟩

/-- Zeros in front of digits have the value zero. -/
theorem forall₂_zeros_iff {count : Nat} {cs : List Char} {all : List Nat} :
    List.Forall₂ HexDigit (List.replicate count '0' ++ cs) all ↔
      ∃ ds, all = List.replicate count 0 ++ ds ∧ List.Forall₂ HexDigit cs ds := by
  induction count generalizing all with
  | zero => simp
  | succ count ih =>
    simp only [List.replicate_succ, List.cons_append, List.forall₂_cons_left_iff, ih,
      hexDigit_zero_iff]
    grind

/-- A number is read from digits that may be padded exactly if they stand for it. -/
theorem decode_pad_iff {digits : List Char} {n : Nat} :
    (∃ bytes, Hex.decodeExactly byteLength (utf8 (pad digits)) = .ok bytes ∧
        Bytes.ofBigEndian bytes = n) ↔
      ∃ ds, List.Forall₂ HexDigit digits ds ∧ ds.length ≤ 2 * byteLength ∧ ofDigits 16 ds = n := by
  constructor
  · rintro ⟨bytes, hdecode, hvalue⟩
    obtain ⟨hsize, hall⟩ := Hex.decodeExactly_utf8_eq_ok_iff.mp hdecode
    obtain ⟨ds, hnibbles, hds⟩ := forall₂_zeros_iff.mp hall
    have hcount := congrArg List.length hnibbles
    rw [Hex.length_nibbles, hsize, List.length_append] at hcount
    refine ⟨ds, hds, by omega, ?_⟩
    rw [← ofDigits_zeros, ← hnibbles, Hex.ofDigits_nibbles, hvalue]
  · rintro ⟨ds, hds, hle, hvalue⟩
    have hcount : (List.replicate (2 * byteLength - digits.length) 0 ++ ds).length =
        2 * byteLength := by
      rw [List.length_append, List.length_replicate, hds.length_eq]
      omega
    have hsmall : ∀ d ∈ List.replicate (2 * byteLength - digits.length) 0 ++ ds, d < 16 :=
      Hex.hexDigits_lt (forall₂_zeros_iff.mpr ⟨ds, rfl, hds⟩)
    obtain ⟨bytes, hbytes⟩ := Hex.exists_nibbles (by rw [hcount]; rfl) hsmall
    have hsize : bytes.length = byteLength := by
      rw [← hbytes, Hex.length_nibbles] at hcount
      omega
    refine ⟨bytes, Hex.decodeExactly_utf8_eq_ok_iff.mpr ⟨hsize, ?_⟩, ?_⟩
    · exact forall₂_zeros_iff.mpr ⟨ds, hbytes, hds⟩
    · rw [← Hex.ofDigits_nibbles, hbytes, ofDigits_zeros, hvalue]

/-- A scalar is read behind a prefix, from not too many bytes, by padding them. -/
theorem ofHex?_eq_ok_iff_decode {text : String} {a : Scalar} :
    ofHex? text = .ok a ↔ ∃ digits, digits? text.toList = some digits ∧
      (digits ≠ [] ∧ (utf8 digits).length ≤ 2 * byteLength) ∧
      ∃ bytes, Hex.decodeExactly byteLength (utf8 (pad digits)) = .ok bytes ∧
        Bytes.ofBigEndian bytes = a.val := by
  constructor
  · intro h
    simp only [ofHex?] at h
    split at h
    · cases h
    next digits hdigits =>
    split at h
    · cases h
    next hlength =>
    obtain ⟨hne, hle⟩ := not_or.mp hlength
    split at h
    · cases h
    next bytes hdecode =>
    split at h
    · cases h
      exact ⟨digits, hdigits, ⟨hne, Nat.not_lt.mp hle⟩, bytes, hdecode, rfl⟩
    · cases h
  · rintro ⟨digits, hdigits, ⟨hne, hle⟩, bytes, hdecode, hvalue⟩
    simp only [ofHex?, hdigits, hne, Nat.not_lt.mpr hle, hdecode, hvalue, a.val_lt, or_self,
      if_false, dite_true]

/-- A text is read as the scalar that its digits stand for. -/
theorem ofHex?_eq_ok_iff {text : String} {a : Scalar} :
    ofHex? text = .ok a ↔ ∃ ds, Spells text ds ∧ ofDigits 16 ds = a.val := by
  simp only [ofHex?_eq_ok_iff_decode, decode_pad_iff, digits?_eq_some_iff]
  constructor
  · rintro ⟨digits, ⟨x, hx, htext⟩, ⟨hne, -⟩, ds, hds, hle, hvalue⟩
    have hpos : 0 < ds.length := by
      rw [← hds.length_eq]
      exact List.length_pos_of_ne_nil hne
    exact ⟨ds, ⟨x, hx, digits, htext, hds, hpos, hle⟩, hvalue⟩
  · rintro ⟨ds, ⟨x, hx, digits, htext, hds, hpos, hle⟩, hvalue⟩
    -- the digits have one byte each, so that there are not too many bytes either
    have hbytes : (utf8 digits).length = ds.length := (Hex.forall₂_utf8_iff.mpr hds).length_eq
    have hcount := hds.length_eq
    have hne : digits ≠ [] := List.ne_nil_of_length_pos (by omega)
    exact ⟨digits, ⟨x, hx, htext⟩, ⟨hne, by rwa [hbytes]⟩, ds, hds, hle, hvalue⟩

/-- An error shows the text that it is about. -/
theorem text_of_error {text : String} {error : HexError} (h : ofHex? text = .error error) :
    error.text = text := by
  simp only [ofHex?] at h
  split at h
  · cases h; rfl
  · split at h
    · cases h; rfl
    · split at h
      · cases h; rfl
      · split at h
        · cases h
        · cases h; rfl

/-! ## The written form -/

theorem eq_digitChar_comp :
    ((fun c : Char => decide (c = '0')) ∘ Nat.digitChar) = fun d => decide (d = 0) := by
  funext d
  simp

/-- A scalar is written with the digits of its representative. -/
theorem toHex_eq (a : Scalar) : a.toHex = "0x" ++ String.ofList (Nat.toDigits 16 a.val) := by
  have hlt : a.val < 1 <<< (8 * byteLength) :=
    Nat.lt_trans (Nat.lt_trans a.val_lt modulus_lt_shiftLeft_255) (by decide)
  have hdigits := map_digitChar_dropWhile (by decide : 1 < 16)
    fun d (hd : d ∈ Hex.nibbles (Bytes.bigEndian byteLength a.val)) => Hex.nibbles_lt hd
  rw [Hex.ofDigits_nibbles, Bytes.ofBigEndian_bigEndian hlt] at hdigits
  rw [toHex, Hex.toList_encodeString, List.dropWhile_map, eq_digitChar_comp, hdigits]
  by_cases ha : a.val = 0
  · rw [if_pos ha, ha]
    rfl
  · rw [if_neg ha]
    obtain ⟨c, rest, hc⟩ := List.exists_cons_of_ne_nil (@Nat.toDigits_ne_nil a.val 16)
    rw [hc]

theorem toList_toHex (a : Scalar) : a.toHex.toList = '0' :: 'x' :: Nat.toDigits 16 a.val := by
  rw [toHex_eq, String.toList_append, String.toList_ofList (l := Nat.toDigits 16 a.val)]
  rfl

/-- A representative has at most as many digits as two for each of its bytes. -/
theorem length_toDigits (a : Scalar) : (Nat.toDigits 16 a.val).length ≤ 2 * byteLength := by
  rw [Nat.length_toDigits_le_iff (by decide) (by decide)]
  exact Nat.lt_trans a.val_lt (by decide)

/-- The written form of a scalar denotes it. -/
theorem ofHex?_toHex (a : Scalar) : ofHex? a.toHex = .ok a := by
  obtain ⟨ds, hdigits, hsmall, hvalue, -⟩ := exists_digits (by decide : 1 < 16) a.val
  have hcount : (Nat.toDigits 16 a.val).length = ds.length := by rw [hdigits, List.length_map]
  refine ofHex?_eq_ok_iff.mpr ⟨ds, ⟨'x', by simp, _, a.toList_toHex, ?_, ?_, ?_⟩, hvalue⟩
  · rw [hdigits]
    exact Hex.forall₂_map_digitChar hsmall
  · rw [← hcount]
    exact List.length_pos_of_ne_nil Nat.toDigits_ne_nil
  · rw [← hcount]
    exact a.length_toDigits

/-- The digits that numbers are written with. -/
def lowerDigits : List Char :=
  ['0', '1', '2', '3', '4', '5', '6', '7', '8', '9', 'a', 'b', 'c', 'd', 'e', 'f']

theorem toHex_zero : toHex 0 = "0x0" := rfl

/-- Any other scalar is written in lower case and without leading zeros. -/
theorem toHex_of_ne_zero {a : Scalar} (ha : a ≠ 0) :
    ∃ c cs, a.toHex.toList = '0' :: 'x' :: c :: cs ∧ c ≠ '0' ∧ ∀ b ∈ c :: cs, b ∈ lowerDigits := by
  obtain ⟨ds, hdigits, hsmall, -, hhead⟩ := exists_digits (by decide : 1 < 16) a.val
  have hne : ds ≠ [] := fun h => Nat.toDigits_ne_nil (by rw [hdigits, h]; rfl)
  obtain ⟨d, rest, rfl⟩ := List.exists_cons_of_ne_nil hne
  refine ⟨d.digitChar, rest.map Nat.digitChar, ?_, ?_, ?_⟩
  · rw [toList_toHex, hdigits, List.map_cons]
  · intro h
    refine ha (ext (hhead ?_))
    rw [List.head?_cons, Nat.digitChar_eq_zero.mp h]
  · intro b hb
    obtain ⟨e, he, rfl⟩ := List.mem_map.mp (List.map_cons ▸ hb)
    exact (by decide : ∀ n : Fin 16, Nat.digitChar n ∈ lowerDigits) ⟨e, hsmall e he⟩

/-! ## The normal form -/

/-- The digits of a text in lower case, without zeros in front. -/
def significant (text : String) : List Char :=
  ((text.toList.drop 2).map Char.toLower).dropWhile (· = '0')

/-- What a text comes to if its prefix and its digits are put in lower case and the zeros in front
are left out; of a text of zeros one is kept. -/
def normalForm (text : String) : String :=
  "0x" ++ if significant text = [] then "0" else String.ofList (significant text)

theorem map_toLower {cs : List Char} {ds : List Nat} (h : List.Forall₂ HexDigit cs ds) :
    cs.map Char.toLower = ds.map Nat.digitChar := by
  induction h with
  | nil => rfl
  | @cons c d cs ds hd _ ih =>
    have hlower : c.toLower = Nat.digitChar d :=
      Hex.of_hexDigit (P := fun c d => c.toLower = Nat.digitChar d) (by decide) hd
    rw [List.map_cons, List.map_cons, ih, hlower]

/-- What matters of a text of a scalar is the digits with which the scalar is written. -/
theorem significant_of_ok {text : String} {a : Scalar} (h : ofHex? text = .ok a) :
    significant text = if a.val = 0 then [] else Nat.toDigits 16 a.val := by
  obtain ⟨ds, ⟨x, -, cs, htext, hds, -, -⟩, hvalue⟩ := ofHex?_eq_ok_iff.mp h
  rw [significant, htext, List.drop_succ_cons, List.drop_succ_cons, List.drop_zero,
    map_toLower hds, List.dropWhile_map, eq_digitChar_comp,
    map_digitChar_dropWhile (by decide) (Hex.hexDigits_lt hds), hvalue]

theorem normalForm_of_ok {text : String} {a : Scalar} (h : ofHex? text = .ok a) :
    normalForm text = a.toHex := by
  rw [normalForm, significant_of_ok h, toHex_eq]
  by_cases ha : a.val = 0
  · rw [if_pos ha, if_pos rfl, ha]
    rfl
  · rw [if_neg ha, if_neg Nat.toDigits_ne_nil]

/-- A text is read exactly if it is a prefix in front of 1 to 64 digits of either case that stand
for a number below the modulus, as that number; any other one is refused, with an error that shows
it. Two texts denote the same scalar exactly if their digits are the same but for their case and the
zeros in front. A scalar is written in one of its texts, in lower case and without such zeros but
for zero itself, and that is the normal form of all its texts. -/
theorem hex_exact :
    (∀ text,
      (∀ a, ofHex? text = .ok a ↔
        ∃ ds, Spells text ds ∧ ∃ h : ofDigits 16 ds < modulus, a = ⟨ofDigits 16 ds, h⟩) ∧
      ∀ error, ofHex? text = .error error → error.text = text) ∧
    (∀ text text' a a', ofHex? text = .ok a → ofHex? text' = .ok a' →
      (a = a' ↔ significant text = significant text')) ∧
    toHex 0 = "0x0" ∧
    (∀ a : Scalar, a ≠ 0 → ∃ c cs, a.toHex.toList = '0' :: 'x' :: c :: cs ∧ c ≠ '0' ∧
      ∀ b ∈ c :: cs, b ∈ lowerDigits) ∧
    (∀ a, ofHex? a.toHex = .ok a) ∧
    ∀ text a, ofHex? text = .ok a → a.toHex = normalForm text := by
  refine ⟨fun text => ⟨fun a => ?_, fun error => text_of_error⟩, fun text text' a a' h h' => ?_,
    toHex_zero, fun a => toHex_of_ne_zero, ofHex?_toHex, fun text a h => (normalForm_of_ok h).symm⟩
  · rw [ofHex?_eq_ok_iff]
    refine exists_congr fun ds => and_congr_right fun _ => ⟨fun hvalue => ?_, ?_⟩
    · exact ⟨hvalue ▸ a.val_lt, ext hvalue.symm⟩
    · rintro ⟨-, rfl⟩
      rfl
  · constructor
    · rintro rfl
      rw [significant_of_ok h, significant_of_ok h']
    · intro hsame
      have hwritten : a.toHex = a'.toHex := by
        rw [← normalForm_of_ok h, ← normalForm_of_ok h', normalForm, normalForm, hsame]
      have hread := ofHex?_toHex a
      rw [hwritten, ofHex?_toHex] at hread
      exact (Except.ok.inj hread).symm

/-- Two texts of the same scalar, in mixed case and with zeros in front, and its written form. A
digit outside ASCII is refused. -/
theorem hex_exact_mixed :
    (ofHex? "0X00aBcD" = .ok 0xabcd ∧ ofHex? "0xABCd" = .ok 0xabcd ∧ (0xabcd : Scalar) ≠ 0 ∧
      ofHex? "0x1é" = .error (.badDigits "0x1é" .oddLength)) ∧
    significant "0X00aBcD" = significant "0xABCd" ∧ toHex 0xabcd = normalForm "0X00aBcD" ∧
    (HexError.badDigits "0x1é" .oddLength).text = "0x1é" ∧
    ∃ c cs, (toHex 0xabcd).toList = '0' :: 'x' :: c :: cs ∧ c ≠ '0' := by
  have h : ofHex? "0X00aBcD" = .ok 0xabcd := by rfl
  have h' : ofHex? "0xABCd" = .ok 0xabcd := by rfl
  have hne : (0xabcd : Scalar) ≠ 0 := by decide
  have herror : ofHex? "0x1é" = .error (.badDigits "0x1é" .oddLength) := by rfl
  obtain ⟨hread, hsame, -, hwritten, -, hnormal⟩ := hex_exact
  obtain ⟨c, cs, htext, hc, -⟩ := hwritten _ hne
  exact ⟨⟨h, h', hne, herror⟩, (hsame _ _ _ _ h h').mp rfl, hnormal _ _ h,
    (hread _).2 _ herror, c, cs, htext, hc⟩

end Scalar

end MerkleBatch
