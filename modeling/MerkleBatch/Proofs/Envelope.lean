import MerkleBatch.Proof
import MerkleBatch.Proofs.Batch.Violation
import MerkleBatch.Proofs.Text.Hex

/-!
# What an envelope lets through

Reading a proof takes its envelope off and leaves the rest to a reader of bodies. That reader is
arbitrary here: what an envelope lets through does not depend on what bodies mean. A body reaches
it exactly if it lies in an envelope of its own, and every other byte string is refused for the
first of its faults.

* `Frames`: the envelope of a body, byte by byte; `body?_eq_ok_iff`.
* `Fault.Applies`, `Fault.First`: the faults of a byte string, and the one that is reported;
  `body?_eq_error_iff`.
* `body?_append`, `body?_of_append`: nothing can be put behind an envelope or taken from its end.
* `Writes`: the texts of a byte string; `ofText?_eq_ok_iff`.
* `Proof.framing_exact`: all of this for the reading of proofs, from bytes and from text.
-/

namespace MerkleBatch

namespace Envelope

open Json (HexDigit)

/-! ## Faults -/

namespace Fault

/-- Whether a byte string has a fault, whatever other ones it has. -/
def Applies (bytes : List UInt8) : Fault → Prop
  | noHeader => bytes.length < headerSize
  | wrongMagic => bytes.take 4 ≠ magic
  | wrongVersion found => versionOf bytes = found ∧ found ≠ version
  | truncated => bytes.length < headerSize + lengthOf bytes
  | trailing => headerSize + lengthOf bytes < bytes.length

/-- The place of a fault in the order in which faults are looked for. -/
def rank : Fault → Nat
  | noHeader => 0
  | wrongMagic => 1
  | wrongVersion _ => 2
  | truncated => 3
  | trailing => 4

/-- Whether a fault is the first one of a byte string. -/
def First (bytes : List UInt8) (fault : Fault) : Prop := FirstBy rank (Applies bytes) fault

theorem eq_of_rank_eq {bytes : List UInt8} {fault other : Fault} (h : fault.Applies bytes)
    (h' : other.Applies bytes) (hrank : fault.rank = other.rank) : fault = other := by
  cases fault <;> cases other <;> grind [rank, Applies]

end Fault

/-- What the header says of a byte string that has a body. -/
theorem header_of_ok {bytes body : List UInt8} (h : body? bytes = .ok body) :
    headerSize ≤ bytes.length ∧ bytes.take 4 = magic ∧ versionOf bytes = version ∧
      bytes.length = headerSize + lengthOf bytes ∧ body = bytes.drop headerSize := by
  simp only [body?] at h
  split_ifs at h with hheader hmagic hversion htruncated htrailing
  cases h
  exact ⟨Nat.not_lt.mp hheader, not_not.mp hmagic, not_not.mp hversion, by omega, rfl⟩

theorem not_applies_of_ok {bytes body : List UInt8} (h : body? bytes = .ok body) (fault : Fault) :
    ¬ fault.Applies bytes := by
  obtain ⟨hheader, hmagic, hversion, hlength, -⟩ := header_of_ok h
  cases fault <;> grind [Fault.Applies]

/-- The tests that come before that of the reported fault have failed. -/
theorem first_of_error {bytes : List UInt8} {fault : Fault} (h : body? bytes = .error fault) :
    fault.First bytes := by
  simp only [body?] at h
  split_ifs at h
  all_goals
    cases h
    refine ⟨by grind [Fault.Applies], fun other happlies => ?_⟩
    cases other <;> grind [Fault.Applies, Fault.rank]

/-- A byte string is refused exactly for its first fault. -/
theorem body?_eq_error_iff {bytes : List UInt8} {fault : Fault} :
    body? bytes = .error fault ↔ fault.First bytes :=
  eq_error_iff_firstBy (fun _ => not_applies_of_ok) (fun _ => first_of_error)
    fun _ _ => Fault.eq_of_rank_eq

/-! ## Framing -/

/-- The envelope of a body, byte by byte: the letters `MBUP`, the version 1 in two bytes, the length
of the body in four, and the body. -/
def Frames (bytes body : List UInt8) : Prop :=
  body.length < 0x100000000 ∧
    bytes = [0x4D, 0x42, 0x55, 0x50] ++ [1, 0] ++ Bytes.littleEndian 4 body.length ++ body

/-- A byte string is made up of the parts of its header and of what follows. -/
theorem eq_header_append {bytes : List UInt8} (h : headerSize ≤ bytes.length) :
    bytes = bytes.take 4 ++ Bytes.littleEndian 2 (versionOf bytes) ++
      Bytes.littleEndian 4 (lengthOf bytes) ++ bytes.drop headerSize := by
  rw [headerSize] at h
  have hpart {start size : Nat} (hle : start + size ≤ bytes.length) :
      Bytes.littleEndian size (Bytes.ofLittleEndian ((bytes.drop start).take size)) =
        (bytes.drop start).take size := by
    refine Bytes.littleEndian_ofLittleEndian ?_
    rw [List.length_take, List.length_drop]
    omega
  have hsix : (bytes.drop 6).take 4 ++ bytes.drop headerSize = bytes.drop 6 := by
    rw [headerSize, ← List.drop_drop (i := 4) (j := 6), List.take_append_drop]
  have hfour : (bytes.drop 4).take 2 ++ bytes.drop 6 = bytes.drop 4 := by
    rw [← List.drop_drop (i := 2) (j := 4), List.take_append_drop]
  rw [versionOf, hpart (by omega), lengthOf, hpart (by omega), List.append_assoc, hsix,
    List.append_assoc, hfour, List.take_append_drop]

/-- A byte string has a body exactly if it is the envelope of that body. -/
theorem body?_eq_ok_iff {bytes body : List UInt8} : body? bytes = .ok body ↔ Frames bytes body := by
  constructor
  · intro h
    obtain ⟨hheader, hmagic, hversion, hlength, hbody⟩ := header_of_ok h
    have hsize : body.length = lengthOf bytes := by
      rw [hbody, List.length_drop]
      omega
    have hbound : lengthOf bytes < 0x100000000 := by
      refine Nat.lt_of_lt_of_le (Bytes.ofLittleEndian_lt _) (Nat.one_shiftLeft _ ▸ ?_)
      exact Nat.pow_le_pow_right (by decide) (Nat.mul_le_mul_left 8 (List.length_take_le 4 _))
    refine ⟨hsize ▸ hbound, ?_⟩
    rw [hsize, hbody]
    conv_lhs => rw [eq_header_append hheader, hmagic, hversion]
    rfl
  · rintro ⟨hbound, rfl⟩
    exact body?_wrap hbound

theorem frames_wrap {body : List UInt8} (h : body.length < 0x100000000) : Frames (wrap body) body :=
  body?_eq_ok_iff.mp (body?_wrap h)

/-- A byte string is an envelope or has a first fault. -/
theorem frames_or_first (bytes : List UInt8) :
    (∃ body, Frames bytes body) ∨ ∃ fault : Fault, fault.First bytes := by
  cases h : body? bytes with
  | error fault => exact .inr ⟨fault, body?_eq_error_iff.mp h⟩
  | ok body => exact .inl ⟨body, body?_eq_ok_iff.mp h⟩

/-- What follows a header does not change it. -/
theorem header_append {front : List UInt8} (h : headerSize ≤ front.length) (tail : List UInt8) :
    (front ++ tail).take 4 = front.take 4 ∧ versionOf (front ++ tail) = versionOf front ∧
      lengthOf (front ++ tail) = lengthOf front := by
  rw [headerSize] at h
  have hpart (start size : Nat) (hle : start + size ≤ front.length) :
      ((front ++ tail).drop start).take size = (front.drop start).take size := by
    rw [List.drop_append_of_le_length (by omega),
      List.take_append_of_le_length (by rw [List.length_drop]; omega)]
  refine ⟨hpart 0 4 (by omega), ?_, ?_⟩
  · rw [versionOf, hpart 4 2 (by omega), versionOf]
  · rw [lengthOf, hpart 6 4 (by omega), lengthOf]

/-- Nothing can be put behind an envelope. -/
theorem body?_append {bytes body tail : List UInt8} (h : body? bytes = .ok body)
    (htail : tail ≠ []) : body? (bytes ++ tail) = .error .trailing := by
  obtain ⟨hheader, hmagic, hversion, hlength, -⟩ := header_of_ok h
  obtain ⟨hmagic', hversion', hlength'⟩ := header_append hheader tail
  have hpos := List.length_pos_of_ne_nil htail
  rw [body?, hmagic', hversion', hlength', List.length_append, if_neg (by omega),
    if_neg (not_not.mpr hmagic), if_neg (not_not.mpr hversion), if_neg (by omega),
    if_pos (by omega)]

/-- Nothing can be taken from the end of an envelope. -/
theorem body?_of_append {front tail body : List UInt8} (h : body? (front ++ tail) = .ok body)
    (htail : tail ≠ []) :
    body? front = .error (if front.length < headerSize then .noHeader else .truncated) := by
  obtain ⟨-, hmagic, hversion, hlength, -⟩ := header_of_ok h
  have hpos := List.length_pos_of_ne_nil htail
  rw [body?]
  split
  · rfl
  next hheader =>
    obtain ⟨hmagic', hversion', hlength'⟩ := header_append (Nat.not_lt.mp hheader) tail
    rw [hmagic'] at hmagic
    rw [hversion'] at hversion
    rw [hlength', List.length_append] at hlength
    rw [if_neg (not_not.mpr hmagic), if_neg (not_not.mpr hversion), if_pos (by omega)]

/-! ## As text -/

/-- Whether a text is one of a byte string: a prefix in front of the digits, each of either case, of
the halves of the bytes. -/
def Writes (text : String) (bytes : List UInt8) : Prop :=
  ∃ cs, text.toList = '0' :: 'x' :: cs ∧ List.Forall₂ HexDigit cs (Hex.nibbles bytes)

theorem textDigits?_eq_some_iff {text : String} {digits : List UInt8} :
    textDigits? text = some digits ↔
      ∃ cs, text.toList = '0' :: 'x' :: cs ∧ Scalar.utf8 cs = digits := by
  rw [textDigits?]
  split <;> simp_all

theorem ofText?_eq_ok_iff {text : String} {bytes : List UInt8} :
    ofText? text = .ok bytes ↔ Writes text bytes := by
  have hdigits : ofText? text = .ok bytes ↔
      ∃ digits, textDigits? text = some digits ∧ Hex.decode digits = .ok bytes := by
    rw [ofText?]
    cases textDigits? text with
    | none => simp
    | some digits => cases h : Hex.decode digits <;> simp [Except.mapError, h]
  simp only [hdigits, textDigits?_eq_some_iff, Writes, ← Hex.decode_utf8_eq_ok_iff]
  grind

/-- The texts of byte strings are those with an even number of digits. -/
theorem exists_writes_iff {text : String} :
    (∃ bytes, Writes text bytes) ↔ ∃ cs, text.toList = '0' :: 'x' :: cs ∧ cs.length % 2 = 0 ∧
      ∀ c ∈ cs, ∃ d, HexDigit c d := by
  constructor
  · rintro ⟨bytes, cs, htext, hcs⟩
    refine ⟨cs, htext, ?_, Hex.exists_hexDigits_iff.mp ⟨_, hcs⟩⟩
    rw [hcs.length_eq, Hex.length_nibbles, Nat.mul_mod_right]
  · rintro ⟨cs, htext, heven, hcs⟩
    obtain ⟨ds, hds⟩ := Hex.exists_hexDigits_iff.mpr hcs
    obtain ⟨bytes, rfl⟩ := Hex.exists_nibbles (hds.length_eq ▸ heven) (Hex.hexDigits_lt hds)
    exact ⟨bytes, cs, htext, hds⟩

/-- A byte string is written in one of its texts. -/
theorem writes_toText (bytes : List UInt8) : Writes (toText bytes) bytes := by
  refine ⟨(Hex.nibbles bytes).map Nat.digitChar, ?_, ?_⟩
  · rw [toText, String.toList_append, Hex.toList_encodeString]
    rfl
  · exact Hex.forall₂_map_digitChar fun d => Hex.nibbles_lt

end Envelope

namespace Proof

open Envelope (Frames Fault Writes)
open Json (HexDigit)

/-! ## Reading with any reader of bodies -/

variable {α : Type}

/-- What is made of a body that has reached the reader of bodies. -/
def ofBody? (decode : List UInt8 → Except String α) (body : List UInt8) : Except Error α :=
  (decode body).mapError fun message =>
    .serialization ("Failed to deserialize proof: " ++ message)

/-- The value in an envelope whose body is read by `decode`. -/
def readWith (decode : List UInt8 → Except String α) (bytes : List UInt8) : Except Error α :=
  match Envelope.body? bytes with
  | .error fault => .error (.serialization fault.message)
  | .ok body => ofBody? decode body

/-- The value in the text of an envelope whose body is read by `decode`. -/
def readTextWith (decode : List UInt8 → Except String α) (text : String) : Except Error α :=
  match Envelope.ofText? text with
  | .error fault => .error (.parse fault.message)
  | .ok bytes => readWith decode bytes

/-- The reader of the bodies of proofs. -/
def readBody (body : List UInt8) : Except String Proof :=
  (decode? body).mapError DecodeFault.message

theorem ofBytes?_eq_readWith (bytes : List UInt8) : ofBytes? bytes = readWith readBody bytes := by
  rw [ofBytes?, readWith]
  cases Envelope.body? bytes with
  | error fault => rfl
  | ok body =>
    simp only [ofBody?, readBody]
    cases decode? body <;> rfl

theorem ofText?_eq_readTextWith (text : String) : ofText? text = readTextWith readBody text := by
  rw [ofText?, readTextWith]
  cases Envelope.ofText? text with
  | error fault => rfl
  | ok bytes => exact ofBytes?_eq_readWith bytes

theorem readWith_of_error {bytes : List UInt8} {fault : Fault}
    (h : Envelope.body? bytes = .error fault) (decode : List UInt8 → Except String α) :
    readWith decode bytes = .error (.serialization fault.message) := by
  rw [readWith, h]

theorem readTextWith_of_ok {text : String} {bytes : List UInt8}
    (h : Envelope.ofText? text = .ok bytes) (decode : List UInt8 → Except String α) :
    readTextWith decode text = readWith decode bytes := by
  rw [readTextWith, h]

/-! ## What reaches the reader of bodies -/

/-- Whether a byte string hands a body over: whatever reads bodies, the outcome is what that one
makes of this body. -/
def HandsOver (bytes body : List UInt8) : Prop :=
  ∀ (α : Type) (decode : List UInt8 → Except String α), readWith decode bytes = ofBody? decode body

/-- The same for a text. -/
def TextHandsOver (text : String) (body : List UInt8) : Prop :=
  ∀ (α : Type) (decode : List UInt8 → Except String α),
    readTextWith decode text = ofBody? decode body

/-- A body is handed over exactly by its envelope. -/
theorem handsOver_iff {bytes body : List UInt8} : HandsOver bytes body ↔ Frames bytes body := by
  rw [← Envelope.body?_eq_ok_iff]
  constructor
  · intro h
    -- the reader that returns the bodies themselves shows which one it is
    have hread := h (List UInt8) .ok
    rw [readWith] at hread
    cases hbody : Envelope.body? bytes with
    | error fault => rw [hbody] at hread; cases hread
    | ok other => rw [hbody] at hread; cases hread; rfl
  · intro h α decode
    rw [readWith, h]

theorem textHandsOver_iff {text : String} {body : List UInt8} :
    TextHandsOver text body ↔ ∃ bytes, Writes text bytes ∧ Frames bytes body := by
  simp only [← Envelope.ofText?_eq_ok_iff, ← handsOver_iff]
  constructor
  · intro h
    cases htext : Envelope.ofText? text with
    | error fault =>
      have hread := h (List UInt8) .ok
      rw [readTextWith, htext] at hread
      cases hread
    | ok bytes =>
      refine ⟨bytes, rfl, fun α decode => ?_⟩
      rw [← h α decode, readTextWith_of_ok htext]
  · rintro ⟨bytes, htext, h⟩ α decode
    rw [readTextWith_of_ok htext, h α decode]

/-- Reading is the same whatever reads the bodies: a byte string hands a body over exactly if it is
the envelope of that body, and otherwise it is refused for the first of its faults. What is put into
an envelope comes out again, and only what is too long cannot be put into one; nothing can be put behind an envelope, and nothing taken from its end.
A text hands over what the bytes do that it writes, and the texts that write bytes are those with an
even number of digits of either case; `toText` writes one of them. -/
theorem framing_exact :
    ((∀ bytes, ofBytes? bytes = readWith readBody bytes) ∧
      ∀ text, ofText? text = readTextWith readBody text) ∧
    (∀ bytes body, HandsOver bytes body ↔ Frames bytes body) ∧
    (∀ bytes, (∃ body, Frames bytes body) ∨ ∃ fault : Fault, fault.First bytes) ∧
    (∀ bytes (fault : Fault), fault.First bytes →
      ∀ (α : Type) (decode : List UInt8 → Except String α),
        readWith decode bytes = .error (.serialization fault.message)) ∧
    (∀ body : List UInt8, body.length < 0x100000000 →
      Envelope.wrap? body = .ok (Envelope.wrap body) ∧ HandsOver (Envelope.wrap body) body) ∧
    (∀ body : List UInt8, 0x100000000 ≤ body.length →
      Envelope.wrap? body = .error "Proof too large for envelope") ∧
    (∀ p : Proof, Envelope.wrap? p.encode = .ok p.toBytes ∧ HandsOver p.toBytes p.encode ∧
      TextHandsOver p.toText p.encode) ∧
    (∀ bytes body tail, Frames bytes body → tail ≠ [] →
      ∀ (α : Type) (decode : List UInt8 → Except String α),
        readWith decode (bytes ++ tail) = .error (.serialization Fault.trailing.message)) ∧
    (∀ front tail body, Frames (front ++ tail) body → tail ≠ [] →
      ∀ (α : Type) (decode : List UInt8 → Except String α), readWith decode front =
        .error (.serialization
          (if front.length < Envelope.headerSize then Fault.noHeader else .truncated).message)) ∧
    (∀ text body, TextHandsOver text body ↔ ∃ bytes, Writes text bytes ∧ Frames bytes body) ∧
    (∀ text, (∃ bytes, Writes text bytes) ↔ ∃ cs, text.toList = '0' :: 'x' :: cs ∧
      cs.length % 2 = 0 ∧ ∀ c ∈ cs, ∃ d, HexDigit c d) ∧
    ∀ bytes (α : Type) (decode : List UInt8 → Except String α),
      readTextWith decode (Envelope.toText bytes) = readWith decode bytes := by
  refine ⟨⟨ofBytes?_eq_readWith, ofText?_eq_readTextWith⟩, fun _ _ => handsOver_iff,
    Envelope.frames_or_first, fun bytes fault h => ?_, fun body h => ?_, fun body h => ?_,
    fun p => ?_, fun bytes body tail h htail => ?_, fun front tail body h htail => ?_,
    fun _ _ => textHandsOver_iff, fun _ => Envelope.exists_writes_iff, fun bytes _ => ?_⟩
  · exact fun _ => readWith_of_error (Envelope.body?_eq_error_iff.mpr h)
  · exact ⟨if_pos h, handsOver_iff.mpr (Envelope.frames_wrap h)⟩
  · exact if_neg (Nat.not_lt.mpr h)
  · have hframes : Frames p.toBytes p.encode :=
      Envelope.frames_wrap (by rw [p.length_encode]; decide)
    exact ⟨p.wrap?_encode, handsOver_iff.mpr hframes,
      textHandsOver_iff.mpr ⟨_, Envelope.writes_toText p.toBytes, hframes⟩⟩
  · have hbody := Envelope.body?_append (Envelope.body?_eq_ok_iff.mpr h) htail
    exact fun _ => readWith_of_error hbody
  · have hbody := Envelope.body?_of_append (Envelope.body?_eq_ok_iff.mpr h) htail
    exact fun _ => readWith_of_error hbody
  · exact readTextWith_of_ok (Envelope.ofText?_eq_ok_iff.mpr (Envelope.writes_toText bytes))

/-- A body of two bytes, handed over by its envelope and by a text of it in mixed case. With a byte
more or less there is no body, and of a wrong version and a missing body the version is reported. -/
theorem framing_exact_twoBytes :
    let envelope : List UInt8 := [0x4D, 0x42, 0x55, 0x50, 1, 0, 2, 0, 0, 0, 0xAB, 7]
    let other : List UInt8 := [0x4D, 0x42, 0x55, 0x50, 2, 0, 2, 0, 0, 0]
    (Frames envelope [0xAB, 7] ∧ (Fault.wrongVersion 2).First other ∧
        Fault.truncated.Applies other) ∧
      HandsOver envelope [0xAB, 7] ∧ HandsOver (Envelope.wrap [0xAB, 7]) [0xAB, 7] ∧
      TextHandsOver "0x4D425550010002000000aB07" [0xAB, 7] ∧
      readWith readBody other =
        .error (.serialization "Unsupported proof format version: 2") ∧
      readWith readBody (envelope ++ [0]) =
        .error (.serialization "Proof bytes contain trailing data") ∧
      readWith readBody (envelope.take 11) = .error (.serialization "Proof bytes truncated") := by
  intro envelope other
  obtain ⟨-, hbytes, -, hfirst, hwrap, -, -, hmore, hless, htext, -⟩ := framing_exact
  have henvelope : Frames envelope [0xAB, 7] := ⟨by decide, rfl⟩
  have hother : (Fault.wrongVersion 2).First other := Envelope.body?_eq_error_iff.mp rfl
  have hshort : other.length < Envelope.headerSize + Envelope.lengthOf other := by decide
  have hwrites : Writes "0x4D425550010002000000aB07" envelope :=
    Envelope.ofText?_eq_ok_iff.mp rfl
  exact ⟨⟨henvelope, hother, hshort⟩, (hbytes _ _).mpr henvelope, (hwrap _ (by decide)).2,
    (htext _ _).mpr ⟨_, hwrites, henvelope⟩, hfirst _ _ hother _ _,
    hmore _ _ _ henvelope (by decide) _ _, hless (envelope.take 11) [7] _ henvelope (by decide) _ _⟩

end Proof

end MerkleBatch
