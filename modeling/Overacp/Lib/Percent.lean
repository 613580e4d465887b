import Mathlib.Data.List.Basic
import Overacp.Lib.Hex
import Overacp.Lib.Utf8

/-!
# Percent-encoding

A percent sign and two hexadecimal digits stand for a byte. A text without percent signs stands for itself.
-/

namespace Percent

def digit (b : UInt8) : Option Nat := Hex.digitValue (Char.ofNat b.toNat)

/-- A percent sign that no two digits follow stands for itself. -/
def decodeBytes : List UInt8 → List UInt8
  | [] => []
  | b :: hi :: lo :: bytes =>
      if b = 0x25 then
        match digit hi, digit lo with
        | some high, some low => .ofNat (16 * high + low) :: decodeBytes bytes
        | _, _ => b :: decodeBytes (hi :: lo :: bytes)
      else b :: decodeBytes (hi :: lo :: bytes)
  | b :: bytes => b :: decodeBytes bytes

/-- The text that is left is not always one: the bytes may not be UTF-8. -/
def decode (text : List Char) : Option (List Char) := Utf8.decode (decodeBytes (Utf8.encode text))

theorem decodeBytes_of_notMem {bytes : List UInt8} (h : 0x25 ∉ bytes) : decodeBytes bytes = bytes := by
  induction bytes with
  | nil => rfl
  | cons b bytes ih =>
      obtain ⟨hb, hbytes⟩ := List.ne_and_not_mem_of_not_mem_cons h
      have hrest := ih hbytes
      match bytes with
      | [] => rfl
      | [hi] => exact congrArg (b :: ·) hrest
      | hi :: lo :: bytes =>
          rw [decodeBytes, if_neg (Ne.symm hb)]
          exact congrArg (b :: ·) hrest

/-- Of the characters, only the percent sign is encoded with its byte. -/
theorem percent_mem_encodeChar {c : Char} (h : 0x25 ∈ Utf8.encodeChar c) : c = '%' :=
  Char.toNat_inj.mp (Utf8.toNat_of_mem_encodeChar h (by decide))

theorem decode_of_notMem {text : List Char} (h : '%' ∉ text) : decode text = some text := by
  have hbytes : 0x25 ∉ Utf8.encode text := by
    intro hmem
    obtain ⟨c, hc, hbyte⟩ := List.mem_flatMap.mp hmem
    rw [percent_mem_encodeChar hbyte] at hc
    exact h hc
  rw [decode, decodeBytes_of_notMem hbytes, Utf8.decode_encode]

end Percent
