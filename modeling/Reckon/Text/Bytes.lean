import Reckon.Text.Ascii

/-!
# Byte text

Everything the calculator reads and writes is a sequence of bytes, which need
not be UTF-8. This module fixes the type, the way fixed wordings enter it, and
the decimal writing of numbers. The decimal writing of a natural number is its
digits, most significant first, without leading zeros (`digits_of_lt`,
`digits_of_le`).
-/

namespace Reckon

/-- Text as bytes, not necessarily UTF-8. -/
abbrev Bytes := List UInt8

namespace Bytes

/-- The bytes of a fixed wording. -/
def ofString (s : String) : Bytes := s.toUTF8.data.toList

/-- The byte that writes a digit below ten. -/
def digit (d : Nat) : UInt8 := Ascii.zero + d.toUInt8

/-- Whether a byte is a decimal digit. -/
def isDigit (b : UInt8) : Bool := Ascii.zero ≤ b && b ≤ Ascii.nine

/-- The decimal digits of a number, most significant first. -/
def digits (n : Nat) : Bytes :=
  if n < 10 then [digit n] else digits (n / 10) ++ [digit (n % 10)]
termination_by n
decreasing_by omega

/-- The number that a run of digits writes. -/
def readDigits (text : Bytes) : Nat :=
  text.foldl (fun n b => 10 * n + (b.toNat - Ascii.zero.toNat)) 0

/-- The decimal writing of an integer. -/
def ofInt (n : Int) : Bytes :=
  if n < 0 then Ascii.minus :: digits n.natAbs else digits n.natAbs

/-- The text between double quotes, nothing escaped. -/
def inQuotes (text : Bytes) : Bytes := Ascii.quote :: text ++ [Ascii.quote]

/-- The number of line ends in a text. -/
def lineEnds (text : Bytes) : Nat := text.count Ascii.newline

/-- The texts with `separator` between neighbours. -/
def join (separator : Bytes) : List Bytes → Bytes
  | [] => []
  | [t] => t
  | t :: u :: rest => t ++ separator ++ join separator (u :: rest)

/-- A text as a line of its own. -/
def line (text : Bytes) : Bytes := text ++ [Ascii.newline]

/-- The text as a `String`; bytes that are no UTF-8 give none. -/
def toString? (text : Bytes) : Option String := String.fromUTF8? ⟨text.toArray⟩

/-- The bytewise order of texts. -/
def le : Bytes → Bytes → Bool
  | [], _ => true
  | _ :: _, [] => false
  | a :: s, b :: t => a < b || (a == b && le s t)

/-! ## Small laws -/

theorem digits_of_lt {n : Nat} (h : n < 10) : digits n = [digit n] := by
  rw [digits, if_pos h]

theorem digits_of_le {n : Nat} (h : 10 ≤ n) :
    digits n = digits (n / 10) ++ [digit (n % 10)] := by
  rw [digits, if_neg (by omega)]

@[simp] theorem lineEnds_append (s t : Bytes) :
    lineEnds (s ++ t) = lineEnds s + lineEnds t := by
  simp [lineEnds]

@[simp] theorem join_singleton (separator t : Bytes) : join separator [t] = t := rfl

end Bytes

end Reckon
