/-!
# Text in bytes

Reading a byte string as UTF-8. Where it is none, the fault names the first place at which the
bytes cannot be the start of a longer text.

* `Utf8.decode`: the text, or the fault.
* `Utf8.Fault`: a sequence that no text holds, or one that the end of the bytes cuts short.
-/

namespace MerkleBatch.Utf8

/-- Why a byte string is no text. The bytes before `start` are one. -/
inductive Fault where
  /-- The `length` bytes from `start` on begin no character. -/
  | invalid (length start : Nat)
  /-- The bytes from `start` on are the beginning of a character and nothing follows them. -/
  | incomplete (start : Nat)
deriving DecidableEq

namespace Fault

/-- The wording of a fault. -/
def message : Fault → String
  | invalid length start => s!"invalid utf-8 sequence of {length} bytes from index {start}"
  | incomplete start => s!"incomplete utf-8 byte sequence from index {start}"

end Fault

/-- How many bytes follow a first byte, and the bounds of the one that comes next. -/
def lead? (first : Nat) : Option (Nat × Nat × Nat) :=
  if 0xC2 ≤ first ∧ first ≤ 0xDF then some (1, 0x80, 0xBF)
  else if first = 0xE0 then some (2, 0xA0, 0xBF)
  else if first = 0xED then some (2, 0x80, 0x9F)
  else if 0xE1 ≤ first ∧ first ≤ 0xEF then some (2, 0x80, 0xBF)
  else if first = 0xF0 then some (3, 0x90, 0xBF)
  else if first = 0xF4 then some (3, 0x80, 0x8F)
  else if 0xF1 ≤ first ∧ first ≤ 0xF3 then some (3, 0x80, 0xBF)
  else none

/-- The fault of a character that began at `start`, of which `seen` bytes were read, the next one
has to lie between `low` and `high`, and `owed` bytes are missing in all; `none` if it is whole. -/
def faultInside (bytes : ByteArray) (start seen : Nat) (low high : Nat) : Nat → Option Fault
  | 0 => none
  | owed + 1 =>
    match bytes[start + seen]? with
    | none => some (.incomplete start)
    | some byte =>
      if low ≤ byte.toNat ∧ byte.toNat ≤ high then
        faultInside bytes start (seen + 1) 0x80 0xBF owed
      else some (.invalid seen start)

/-- The first fault at or after the place `start`, where a character begins. -/
def faultFrom (bytes : ByteArray) (start : Nat) : Option Fault :=
  if h : start < bytes.size then
    if bytes[start].toNat < 0x80 then faultFrom bytes (start + 1)
    else
      match lead? bytes[start].toNat with
      | none => some (.invalid 1 start)
      | some (owed, low, high) =>
        match faultInside bytes start 1 low high owed with
        | some fault => some fault
        | none => faultFrom bytes (start + (owed + 1))
  else none
termination_by bytes.size - start
decreasing_by all_goals omega

/-- The text that a byte string encodes, or its first fault. -/
def decode (bytes : ByteArray) : Except Fault String :=
  match String.fromUTF8? bytes with
  | some text => .ok text
  | none => .error ((faultFrom bytes 0).getD (.incomplete bytes.size))

end MerkleBatch.Utf8
