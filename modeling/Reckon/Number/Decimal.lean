import Reckon.Number.Double

/-!
# Decimal numbers

A decimal is a whole significand times a power of ten. Reading a decimal takes
it to the nearest double. Writing a double picks the decimal with the fewest
digits that reads back to it: for one digit, two digits and so on, the two
neighbours of the number on the grid of that many digits are read back; the
first grid with a hit wins, of two hits the nearer one, and a tie goes to the
even significand. The number's exact expansion stands behind the search, so
the chosen decimal always reads back.
-/

namespace Reckon

/-- The number `significand * 10 ^ exponent`. -/
structure Decimal where
  significand : Nat
  exponent : Int
  deriving DecidableEq, Repr

namespace Decimal

/-- The rank of the magnitude nearest to a decimal. -/
def rank (d : Decimal) : Nat :=
  if d.exponent < 0 then
    nearest (d.significand * quantaPerOne) (Nat.pow 10 d.exponent.natAbs)
  else nearest (d.significand * Nat.pow 10 d.exponent.natAbs * quantaPerOne) 1

/-- The double nearest to a decimal with the given sign. -/
def toDouble (negative : Bool) (d : Decimal) : Double := Double.ofRank negative d.rank

/-- The same number without trailing zeros in its significand; zero has the
exponent zero. -/
def trim (d : Decimal) : Decimal :=
  if d.significand = 0 then ⟨0, 0⟩
  else if d.significand % 10 = 0 then trim ⟨d.significand / 10, d.exponent + 1⟩
  else d
termination_by d.significand
decreasing_by exact Nat.div_lt_self (by omega) (by omega)

/-- The decimal written by digits before and after a point. -/
def ofNumeral (whole fraction : Bytes) : Decimal :=
  ⟨Bytes.readDigits (whole ++ fraction), -(fraction.length : Int)⟩

/-! ## The shortest decimal of a magnitude -/

/-- How many digits the magnitude of a positive rank has before the point; a
magnitude below one counts the zeros after its point negatively. -/
def magnitudeDigits (rank : Nat) : Int :=
  let v := quanta rank
  if quantaPerOne ≤ v then (Bytes.digits (v / quantaPerOne)).length
  else 1 - ((Bytes.digits ((quantaPerOne - 1) / v)).length : Int)

/-- The magnitude of a rank divided by `10 ^ exponent`, as a fraction. -/
def onGrid (rank : Nat) (exponent : Int) : Nat × Nat :=
  if exponent < 0 then (quanta rank * Nat.pow 10 exponent.natAbs, quantaPerOne)
  else (quanta rank, quantaPerOne * Nat.pow 10 exponent.natAbs)

/-- The neighbour of a magnitude on the grid of `10 ^ exponent` that reads back
to it, if one does. -/
def gridHit? (rank : Nat) (exponent : Int) : Option Decimal :=
  let (num, den) := onGrid rank exponent
  let below : Decimal := ⟨num / den, exponent⟩
  let above : Decimal := ⟨num / den + 1, exponent⟩
  match decide (below.rank = rank), decide (above.rank = rank) with
  -- Both read back, so the nearer one is taken.
  | true, true => some ⟨roundQuotient num den, exponent⟩
  | true, false => some below
  | false, true => some above
  | false, false => none

/-- The exact expansion of a magnitude. -/
def exact (rank : Nat) : Decimal := ⟨quanta rank * Nat.pow 5 1074, -1074⟩

/-- The decimal with the fewest digits that reads back to a positive rank. -/
def shortest (rank : Nat) : Decimal :=
  let hit := (List.range 17).findSome? fun n : Nat =>
    gridHit? rank (magnitudeDigits rank - (n + 1 : Nat))
  (hit.getD (exact rank)).trim

end Decimal

end Reckon
