import Reckon.Text.Bytes

/-!
# Double-precision numbers

A finite double is a sign and the rank of its magnitude among the non-negative
finite doubles in increasing order: rank 0 is zero, rank 1 the least positive
magnitude. Ranks are also the bit patterns without the sign, so order, storage
and arithmetic all speak of one natural number.

Every magnitude is a whole number of quanta of `2 ^ -1074` (`quanta`), and
`nearest` gives the rank closest to a quotient of quanta, a tie going to the
even rank. Sums, products and quotients are computed exactly and then taken to
the nearest rank, so each operation has one rounding and one place where it
happens. All results that are no number are one value, `nan`.
-/

namespace Reckon

/-- The number of ranks whose magnitudes share a scale: significands have 52 bits
beside the leading one. -/
def binade : Nat := 0x10000000000000

/-- The number of ranks of finite magnitudes; ranks from here on overflow. -/
def rankBound : Nat := 0x7FF0000000000000

/-- The number of quanta in one. -/
def quantaPerOne : Nat := Nat.pow 2 1074

/-- A double-precision number. -/
inductive Double
  /-- The result of an operation without a value. -/
  | nan
  /-- An infinity of either sign. -/
  | infinite (negative : Bool)
  /-- A finite number, given by its sign and the rank of its magnitude. -/
  | finite (negative : Bool) (rank : Fin rankBound)
  deriving DecidableEq, Repr

/-! ## Ranks and quanta -/

/-- The power of two by which the significand of a rank is scaled. -/
def rankScale (rank : Nat) : Nat := rank / binade - 1

/-- The magnitude of a rank, counted in quanta. -/
def quanta (rank : Nat) : Nat :=
  (rank - rankScale rank * binade) * Nat.pow 2 (rankScale rank)

/-- The quotient rounded to the nearest whole number, a tie to the even one. -/
def roundQuotient (num den : Nat) : Nat :=
  let low := num / den
  let excess := 2 * (num % den)
  if excess < den ∨ (excess = den ∧ low % 2 = 0) then low else low + 1

/-- The rank nearest to `num / den` quanta. Significands have 53 bits, so the
quotient is first scaled down until its whole part has no more. -/
def nearest (num den : Nat) : Nat :=
  let scale := (num / den).log2 - 52
  -- A significand that rounds up to the next power of two carries into the next
  -- scale by itself, because ranks are consecutive.
  scale * binade + roundQuotient num (den * Nat.pow 2 scale)

namespace Double

/-- The double of a sign and a rank; ranks past the finite ones are infinite. -/
def ofRank (negative : Bool) (rank : Nat) : Double :=
  if h : rank < rankBound then .finite negative ⟨rank, h⟩ else .infinite negative

/-- The double nearest to `num / den` quanta with the given sign. -/
def ofQuanta (negative : Bool) (num den : Nat) : Double := ofRank negative (nearest num den)

/-- The double nearest to an integer. -/
def ofInt (n : Int) : Double := ofQuanta (n < 0) (n.natAbs * quantaPerOne) 1

/-! ## Storage -/

/-- The weight of the sign in a bit pattern. -/
def signWeight : Nat := 0x8000000000000000

/-- The double with a given bit pattern. -/
def ofBits (bits : UInt64) : Double :=
  let negative := decide (signWeight ≤ bits.toNat)
  let rank := bits.toNat % signWeight
  if rank ≤ rankBound then ofRank negative rank else .nan

/-- The bit pattern of a double; `nan` has one pattern. -/
def toBits : Double → UInt64
  | .nan => 0x7FF8000000000000
  | .infinite negative => ((if negative then signWeight else 0) + rankBound).toUInt64
  | .finite negative rank => ((if negative then signWeight else 0) + rank.val).toUInt64

/-! ## Order -/

/-- The position of a number on the line, the two zeros at one place; `nan` has
none. -/
def position? : Double → Option Int
  | .nan => none
  | .infinite negative => some (if negative then -(rankBound : Int) else rankBound)
  | .finite negative rank => some (if negative then -(rank.val : Int) else rank.val)

/-- Whether a relation of positions holds; it never holds of `nan`. -/
def related (r : Int → Int → Bool) (a b : Double) : Bool :=
  match a.position?, b.position? with
  | some x, some y => r x y
  | _, _ => false

/-- Numeric equality: the zeros are equal, `nan` equals nothing. -/
def equal (a b : Double) : Bool := related (fun x y => x == y) a b

/-- The strict order of numbers. -/
def less (a b : Double) : Bool := related (fun x y => x < y) a b

/-- The weak order of numbers. -/
def lessEq (a b : Double) : Bool := related (fun x y => x ≤ y) a b

/-! ## Arithmetic -/

/-- The number with its sign flipped. -/
def neg : Double → Double
  | .nan => .nan
  | .infinite negative => .infinite !negative
  | .finite negative rank => .finite (!negative) rank

/-- A finite magnitude with its sign, counted in quanta. -/
def signedQuanta (negative : Bool) (rank : Nat) : Int :=
  if negative then -(quanta rank : Int) else quanta rank

/-- The sum. A sum of zero is negative only if both terms are. -/
def add : Double → Double → Double
  | .nan, _ | _, .nan => .nan
  | .infinite s, .infinite t => if s = t then .infinite s else .nan
  | .infinite s, .finite .. => .infinite s
  | .finite .., .infinite t => .infinite t
  | .finite s a, .finite t b =>
    let sum := signedQuanta s a.val + signedQuanta t b.val
    if sum = 0 then ofRank (s && t) 0 else ofQuanta (sum < 0) sum.natAbs 1

/-- The difference. -/
def sub (a b : Double) : Double := add a b.neg

/-- The product. Zero times infinity has no value. -/
def mul : Double → Double → Double
  | .nan, _ | _, .nan => .nan
  | .infinite s, .infinite t => .infinite (s != t)
  | .infinite s, .finite t b => if b.val = 0 then .nan else .infinite (s != t)
  | .finite s a, .infinite t => if a.val = 0 then .nan else .infinite (s != t)
  | .finite s a, .finite t b => ofQuanta (s != t) (quanta a.val * quanta b.val) quantaPerOne

/-- The quotient. Zero by zero and infinity by infinity have no value. -/
def div : Double → Double → Double
  | .nan, _ | _, .nan => .nan
  | .infinite _, .infinite _ => .nan
  | .infinite s, .finite t _ => .infinite (s != t)
  | .finite s _, .infinite t => ofRank (s != t) 0
  | .finite s a, .finite t b =>
    if b.val = 0 then if a.val = 0 then .nan else .infinite (s != t)
    else ofQuanta (s != t) (quanta a.val * quantaPerOne) (quanta b.val)

end Double

end Reckon
