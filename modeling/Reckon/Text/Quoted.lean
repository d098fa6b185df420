import Reckon.Text.CharClass
import Reckon.Text.Utf8

/-!
# Quoted text

The quoted form of a byte text stands between double quotes. Visible
characters stand for themselves, a quote and a backslash get a backslash, the
seven classic controls have letters, and everything else is written in
hexadecimal: bytes with two digits, code points with four or eight. The quoted
form is built unit by unit, so it is decided by the units of the text alone.
-/

namespace Reckon

namespace Quoted

/-- The lower-case hexadecimal digit of a number below sixteen. -/
def hexDigit (d : Nat) : UInt8 :=
  if d < 10 then Bytes.digit d else Ascii.smallA + (d - 10).toUInt8

/-- The last `width` hexadecimal digits of a number. -/
def hex : (width : Nat) → Nat → Bytes
  | 0, _ => []
  | width + 1, n => hex width (n / 16) ++ [hexDigit (n % 16)]

/-- The classic controls and the letters that write them after a backslash. -/
def controlLetters : List (Nat × UInt8) :=
  [(7, 'a'.toUInt8), (8, 'b'.toUInt8), (9, 't'.toUInt8), (10, 'n'.toUInt8), (11, 'v'.toUInt8),
    (12, 'f'.toUInt8), (13, 'r'.toUInt8)]

/-- A byte as a backslash, an `x` and two digits. -/
def byteEscape (n : Nat) : Bytes := Ascii.backslash :: Ascii.smallX :: hex 2 n

/-- The quoted form of one unit. -/
def unit : TextUnit → Bytes
  | .stray b => byteEscape b.toNat
  | .scalar code bytes =>
    if code = Ascii.quote.toNat ∨ code = Ascii.backslash.toNat then Ascii.backslash :: bytes
    else if CharClass.isVisible code then bytes
    else
      match controlLetters.lookup code with
      | some letter => [Ascii.backslash, letter]
      | none =>
        if code < 32 ∨ code = 127 then byteEscape code
        else if code < 0x10000 then Ascii.backslash :: Ascii.smallU :: hex 4 code
        else Ascii.backslash :: Ascii.capitalU :: hex 8 code

end Quoted

/-- The quoted form of a byte text. -/
def Bytes.quoted (text : Bytes) : Bytes :=
  Bytes.inQuotes ((Utf8.units text).flatMap Quoted.unit)

end Reckon
