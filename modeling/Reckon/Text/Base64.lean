import Reckon.Text.Bytes

/-!
# Base 64

Bytes written with 64 digits of six bits each, four digits for three bytes. A last
group for fewer bytes is filled up with equals signs. Line ends may stand anywhere.
-/

namespace Reckon

namespace Base64

/-- The value of a digit. -/
def digit? (b : UInt8) : Option Nat :=
  if Ascii.capitalA ≤ b ∧ b ≤ Ascii.capitalZ then some (b - Ascii.capitalA).toNat
  else if Ascii.smallA ≤ b ∧ b ≤ Ascii.smallZ then some ((b - Ascii.smallA).toNat + 26)
  else if Bytes.isDigit b then some ((b - Ascii.zero).toNat + 52)
  else if b = Ascii.plus then some 62
  else if b = Ascii.slash then some 63
  else none

/-- The number that digits write. -/
def number? (digits : Bytes) : Option Nat :=
  digits.foldlM (fun n b => (digit? b).map (64 * n + ·)) 0

/-- The bytes that digits without line ends write. -/
def groups? : Bytes → Option Bytes
  | [] => some []
  | a :: b :: c :: d :: rest =>
    if d = Ascii.equals then
      if !rest.isEmpty then none
      else if c = Ascii.equals then (number? [a, b]).map fun n => [(n / 16).toUInt8]
      else (number? [a, b, c]).map fun n => [(n / 1024).toUInt8, (n / 4).toUInt8]
    else do
      let n ← number? [a, b, c, d]
      return (n / 65536).toUInt8 :: (n / 256).toUInt8 :: n.toUInt8 :: (← groups? rest)
  | _ => none

/-- The bytes that a text writes. -/
def decode? (text : Bytes) : Option Bytes :=
  groups? (text.filter fun b => b != Ascii.newline && b != Ascii.carriageReturn)

end Base64

end Reckon
