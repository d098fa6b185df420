import Reckon.Number.Decimal

/-!
# Layouts of doubles

How the digits of a double are set out. Two layouts are in use: values and
printed expressions always write plain decimals and keep a fraction, so that
doubles differ from integers; token descriptions turn to the exponent form for
large and small numbers and drop a fraction of zero.
-/

namespace Reckon

/-- The choices in writing a double. -/
structure Layout where
  /-- The powers of ten of the leading digit that are written plainly: from the
  first up to but not including the second. All are, when there is no range. -/
  plainRange : Option (Int × Int)
  /-- Whether a whole number ends in `.0`. -/
  keepsFraction : Bool
  deriving DecidableEq, Repr

namespace Layout

/-- Values are plain decimals with a fraction. -/
def value : Layout := ⟨none, true⟩

/-- Payloads in token descriptions are plain from `0.0001` to below a million. -/
def payload : Layout := ⟨some (-4, 6), false⟩

/-- The power of ten of the leading digit. -/
def leadingPower (d : Decimal) : Int := (Bytes.digits d.significand).length - 1 + d.exponent

/-- A decimal written with a point and no exponent. -/
def plain (layout : Layout) (d : Decimal) : Bytes :=
  let digits := Bytes.digits d.significand
  let places := d.exponent.natAbs
  if d.exponent < 0 then
    let padded := List.replicate (places + 1 - digits.length) Ascii.zero ++ digits
    padded.take (padded.length - places) ++ Ascii.point :: padded.drop (padded.length - places)
  else
    digits ++ List.replicate places Ascii.zero
      ++ (if layout.keepsFraction then [Ascii.point, Ascii.zero] else [])

/-- A decimal written with its leading digit before the point and an exponent of
at least two digits. -/
def scientific (d : Decimal) : Bytes :=
  let digits := Bytes.digits d.significand
  let power := leadingPower d
  let powerDigits := Bytes.digits power.natAbs
  digits.take 1 ++ (if 1 < digits.length then Ascii.point :: digits.drop 1 else [])
    ++ Ascii.smallE :: (if power < 0 then Ascii.minus else Ascii.plus)
    :: List.replicate (2 - powerDigits.length) Ascii.zero ++ powerDigits

/-- A decimal in a layout. -/
def decimal (layout : Layout) (d : Decimal) : Bytes :=
  match layout.plainRange with
  | none => layout.plain d
  | some (low, high) =>
    if low ≤ leadingPower d ∧ leadingPower d < high then layout.plain d else scientific d

end Layout

/-- The text of a double in a layout. -/
def Double.text (layout : Layout) : Double → Bytes
  | .nan => Bytes.ofString "NaN"
  | .infinite negative => (if negative then Ascii.minus else Ascii.plus) :: Bytes.ofString "Inf"
  | .finite negative rank =>
    (if negative then [Ascii.minus] else [])
      ++ layout.decimal (if rank.val = 0 then ⟨0, 0⟩ else Decimal.shortest rank.val)

end Reckon
