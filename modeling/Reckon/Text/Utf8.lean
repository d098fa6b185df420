import Reckon.Text.Bytes

/-!
# UTF-8

A byte text falls into units: encoded code points, and stray bytes that belong
to none. Overlong forms, surrogates and code points above U+10FFFF are not
encodings, so each of their bytes is stray. The units concatenate to the text
(`flatMap_bytes_units`), and a text is UTF-8 when no unit is stray.
-/

namespace Reckon

namespace Utf8

/-- What the first byte of an encoding announces: how many bytes follow, the
bits it carries itself, and the range of the byte right after it. -/
structure Lead where
  tails : Nat
  payload : Nat
  low : UInt8
  high : UInt8
  deriving Repr, DecidableEq

/-- The announcement of a first byte, if the byte can be one. -/
def lead? (b : UInt8) : Option Lead :=
  if b < 0x80 then some ⟨0, b.toNat, 0x80, 0xBF⟩
  else if b < 0xC2 then none
  else if b < 0xE0 then some ⟨1, b.toNat - 0xC0, 0x80, 0xBF⟩
  else if b = 0xE0 then some ⟨2, 0, 0xA0, 0xBF⟩
  else if b = 0xED then some ⟨2, 0xD, 0x80, 0x9F⟩
  else if b < 0xF0 then some ⟨2, b.toNat - 0xE0, 0x80, 0xBF⟩
  else if b = 0xF0 then some ⟨3, 0, 0x90, 0xBF⟩
  else if b < 0xF4 then some ⟨3, b.toNat - 0xF0, 0x80, 0xBF⟩
  else if b = 0xF4 then some ⟨3, 4, 0x80, 0x8F⟩
  else none

/-- Whether a byte continues an encoding. -/
def isTail (b : UInt8) : Bool := 0x80 ≤ b && b ≤ 0xBF

/-- Whether the bytes after a first byte are the ones it announces. -/
def Lead.admits (l : Lead) (tails : Bytes) : Bool :=
  tails.length == l.tails && tails.all isTail &&
    (match tails with
    | [] => true
    | t :: _ => l.low ≤ t && t ≤ l.high)

/-- The code point that a first byte and its continuation encode. -/
def Lead.code (l : Lead) (tails : Bytes) : Nat :=
  tails.foldl (fun n t => 64 * n + (t.toNat - 0x80)) l.payload

end Utf8

/-- A unit of byte text: an encoded code point, or a byte that is part of no
encoding. -/
inductive TextUnit
  | scalar (code : Nat) (bytes : Bytes)
  | stray (byte : UInt8)
  deriving Repr, DecidableEq

namespace TextUnit

/-- The bytes that a unit stands for. -/
def bytes : TextUnit → Bytes
  | .scalar _ bytes => bytes
  | .stray b => [b]

/-- Whether a unit is an encoded code point. -/
def isScalar : TextUnit → Bool
  | .scalar .. => true
  | .stray _ => false

end TextUnit

namespace Utf8

/-- The units of a byte text, in order. -/
def units : Bytes → List TextUnit
  | [] => []
  | b :: rest =>
    match lead? b with
    | none => .stray b :: units rest
    | some l =>
      let tails := rest.take l.tails
      if l.admits tails then
        .scalar (l.code tails) (b :: tails) :: units (rest.drop l.tails)
      else .stray b :: units rest
termination_by s => s.length
decreasing_by all_goals simp only [List.length_cons, List.length_drop]; omega

/-- Whether a byte text is UTF-8. -/
def isValid (text : Bytes) : Bool := (units text).all TextUnit.isScalar

/-- The encoding of a code point. -/
def encode (code : Nat) : Bytes :=
  if code < 0x80 then [code.toUInt8]
  else if code < 0x800 then [(0xC0 + code / 64).toUInt8, (0x80 + code % 64).toUInt8]
  else if code < 0x10000 then
    [(0xE0 + code / 4096).toUInt8, (0x80 + code / 64 % 64).toUInt8, (0x80 + code % 64).toUInt8]
  else
    [(0xF0 + code / 262144).toUInt8, (0x80 + code / 4096 % 64).toUInt8,
      (0x80 + code / 64 % 64).toUInt8, (0x80 + code % 64).toUInt8]

/-- Cutting a text into units loses nothing. -/
theorem flatMap_bytes_units (text : Bytes) : (units text).flatMap TextUnit.bytes = text := by
  fun_induction units text with
  | case1 => rfl
  | case2 b rest _ ih => simp [TextUnit.bytes, ih]
  | case3 b rest l _ tails _ ih =>
    simp only [List.flatMap_cons, TextUnit.bytes, ih, List.cons_append, tails,
      List.take_append_drop]
  | case4 b rest l _ tails _ ih => simp [TextUnit.bytes, ih]

end Utf8

end Reckon
