import Mathlib.Data.Int.ModEq
import Mathlib.Data.Option.NAry
import Reckon.Proofs.Failing
import Reckon.Proofs.Rounding

/-!
# Integers

Integers have 32 bits. Sums, differences and products wrap at every node of a tree,
and comparisons and the test for a zero divisor go through doubles. Neither shows in
the results:

* **wrapping** — integers of 32 bits are the integers modulo `2 ^ 32`, so the value of
  a tree is its exact value, wrapped once (`eval_wraps_exact`);
* **widening** — every integer below `2 ^ 53` is a double (`exists_quanta`), and
  doubles are ordered as the numbers they stand for (`signedQuanta_lt_iff`). So
  integers are compared as integers, and divided exactly when the divisor is not
  zero (`integers_decided_exactly`).
-/

namespace Reckon

/-- An operator that needs both operands is applied to their values. -/
theorem Expr.eval_applied {l r : Expr} {op : BinaryOp} {v w : Value} (left : l.eval = .ok v)
    (right : r.eval = .ok w) (strict : op.decidedBy? = none) :
    (Expr.binary l op r).eval = op.apply v w := by
  rw [Expr.eval, left, right, strict]
  rfl

/-! ## Wrapping -/

/-- `Wraps x v`: of the integers that fit into 32 bits, `v` and no other is congruent
to `x` modulo `2 ^ 32`. -/
def Wraps (x : Int) (v : Int32) : Prop :=
  ∀ y : Int, (-2 ^ 31 ≤ y ∧ y < 2 ^ 31 ∧ y ≡ x [ZMOD 2 ^ 32]) ↔ y = v.toInt

theorem wraps_ofInt (x : Int) : Wraps x (Int32.ofInt x) := by
  have wrapped : (Int32.ofInt x).toInt = x.bmod (2 ^ 32) := Int32.toInt_ofInt
  intro y
  constructor
  · rintro ⟨low, high, same⟩
    have fits : y.bmod (2 ^ 32) = y := Int.bmod_eq_of_le (by omega) (by omega)
    have residues : y % ((2 ^ 32 : Nat) : Int) = x % ((2 ^ 32 : Nat) : Int) := same
    rw [wrapped, ← Int.emod_bmod, ← residues, Int.emod_bmod, fits]
  · rintro rfl
    refine ⟨Int32.le_toInt _, Int32.toInt_lt _, ?_⟩
    rw [wrapped]
    exact Int.bmod_emod

/-- The exact value of a tree of integers, groupings, negations, sums, differences and
products. Other trees have none. -/
def Expr.exact? : Expr → Option Int
  | .literal (.int n) => some n.toInt
  | .grouping e => e.exact?
  | .unary .negative e => e.exact?.map (fun x => -x)
  | .binary l .add r => Option.map₂ (fun x y => x + y) l.exact? r.exact?
  | .binary l .subtract r => Option.map₂ (fun x y => x - y) l.exact? r.exact?
  | .binary l .multiply r => Option.map₂ (fun x y => x * y) l.exact? r.exact?
  | _ => none

/-- Wrapping commutes with every operation, so it can be put off to the end. -/
theorem Expr.eval_of_exact {e : Expr} {x : Int} (h : e.exact? = some x) :
    e.eval = .ok (.int (Int32.ofInt x)) := by
  fun_induction Expr.exact? e generalizing x with
  | case1 n =>
      cases h
      rw [Expr.eval, Int32.ofInt_toInt]
  | case2 e ih => exact ih h
  | case3 e ih =>
      obtain ⟨y, inner, rfl⟩ := Option.map_eq_some_iff.mp h
      rw [Expr.eval, ih inner, Int32.ofInt_neg]
      rfl
  | case4 l r ihl ihr =>
      obtain ⟨y, z, left, right, rfl⟩ := Option.map₂_eq_some_iff.mp h
      rw [Expr.eval_applied (ihl left) (ihr right) rfl, Int32.ofInt_add]
      rfl
  | case5 l r ihl ihr =>
      obtain ⟨y, z, left, right, rfl⟩ := Option.map₂_eq_some_iff.mp h
      rw [Expr.eval_applied (ihl left) (ihr right) rfl, Int32.ofInt_sub]
      rfl
  | case6 l r ihl ihr =>
      obtain ⟨y, z, left, right, rfl⟩ := Option.map₂_eq_some_iff.mp h
      rw [Expr.eval_applied (ihl left) (ihr right) rfl, Int32.ofInt_mul]
      rfl
  | case7 => cases h

/-- **Integer arithmetic is exact modulo `2 ^ 32`.** A tree of integers, groupings,
negations, sums, differences and products, however deep, comes to the integer of 32
bits that is congruent to its exact value. -/
theorem eval_wraps_exact (e : Expr) (x : Int) (exact : e.exact? = some x) :
    ∃ v, e.eval = .ok (.int v) ∧ Wraps x v :=
  ⟨Int32.ofInt x, Expr.eval_of_exact exact, wraps_ofInt x⟩

/-- A difference below the least integer, times a product of 62 bits, negated. -/
theorem eval_wraps_exact_sample :
    let least : Expr := .literal (.int (-2147483648))
    let greatest : Expr := .literal (.int 2147483647)
    let below : Expr := .grouping (.binary least .subtract (.literal (.int 1)))
    let e : Expr := .unary .negative (.binary below .multiply (.binary greatest .multiply greatest))
    let x : Int := 2147483649 * (2147483647 * 2147483647)
    e.exact? = some x ∧ e.eval = .ok (.int (-2147483647)) ∧
      ∃ v, e.eval = .ok (.int v) ∧ Wraps x v := by
  intro least greatest below e x
  have exact : e.exact? = some x := by decide
  exact ⟨exact, rfl, eval_wraps_exact e x exact⟩

/-! ## Widening -/

theorem quanta_zero : quanta 0 = 0 := by simp [quanta]

/-- Shifted up until it has 53 bits, a number is a significand. -/
theorem exists_shift {m : Nat} (positive : m ≠ 0) (small : m < 2 ^ 53) :
    ∃ k ≤ 52, binade ≤ m * 2 ^ k ∧ m * 2 ^ k < 2 * binade := by
  have bits : m.log2 < 53 := (Nat.log2_lt positive).mpr small
  obtain ⟨k, room⟩ : ∃ k, m.log2 + k = 52 := ⟨52 - m.log2, by omega⟩
  refine ⟨k, by omega, ?_, ?_⟩
  · calc binade = 2 ^ m.log2 * 2 ^ k := by rw [← Nat.pow_add, room]; rfl
      _ ≤ m * 2 ^ k := Nat.mul_le_mul_right _ (Nat.log2_self_le positive)
  · calc m * 2 ^ k < 2 ^ (m.log2 + 1) * 2 ^ k :=
          (Nat.mul_lt_mul_right (Nat.two_pow_pos k)).mpr Nat.lt_log2_self
      _ = 2 * binade := by rw [← Nat.pow_add, Nat.add_right_comm, room]; rfl

/-- A whole number of 53 bits, scaled by a power of two that leaves room for its
significand, is the magnitude of a rank. -/
theorem exists_quanta_scaled {m s : Nat} (small : m < 2 ^ 53) (low : 52 ≤ s) (high : s ≤ 1074) :
    ∃ rank < rankBound, quanta rank = m * Nat.pow 2 s := by
  by_cases zero : m = 0
  · exact ⟨0, by decide, by rw [zero, Nat.zero_mul, quanta_zero]⟩
  obtain ⟨k, room, least, most⟩ := exists_shift zero small
  obtain ⟨scale, split⟩ : ∃ scale, s = k + scale := ⟨s - k, by omega⟩
  have scales : scale * binade ≤ 1074 * binade := Nat.mul_le_mul_right _ (by omega)
  have finite : 1076 * binade ≤ rankBound := by decide
  refine ⟨scale * binade + m * 2 ^ k, by omega, ?_⟩
  rw [quanta_add (.inr least) most, Nat.mul_assoc, ← Nat.pow_add, ← split]
  rfl

theorem exists_quanta {m : Nat} (small : m < 2 ^ 53) :
    ∃ rank < rankBound, quanta rank = m * quantaPerOne :=
  exists_quanta_scaled small (by simp) (Nat.le_refl 1074)

namespace Double

/-- Widening a whole number of 53 bits changes nothing about it. -/
theorem ofInt_exact {n : Int} (small : n.natAbs < 2 ^ 53) :
    ∃ rank : Fin rankBound, ofInt n = .finite (n < 0) rank ∧
      signedQuanta (n < 0) rank = n * quantaPerOne := by
  obtain ⟨rank, finite, magnitude⟩ := exists_quanta small
  refine ⟨⟨rank, finite⟩, ?_, ?_⟩
  · rw [ofInt, ofQuanta, ← magnitude, nearest_quanta, ofRank, dif_pos finite]
  · rw [signedQuanta, magnitude, Int.natCast_mul]
    generalize (quantaPerOne : Int) = one
    by_cases negative : n < 0
    · have sign : (n.natAbs : Int) = -n := by omega
      simp [negative, sign]
    · have sign : (n.natAbs : Int) = n := by omega
      simp [negative, sign]

/-- Positions on the line are in the order of the numbers. -/
theorem signedQuanta_lt_iff (s t : Bool) (a b : Nat) :
    signedQuanta s a < signedQuanta t b ↔
      (if s then -(a : Int) else a) < (if t then -(b : Int) else b) := by
  have positive (r : Nat) : 0 < quanta r ↔ 0 < r := by
    have order := quanta_strictMono.lt_iff_lt (a := 0) (b := r)
    rwa [quanta_zero] at order
  have above := quanta_strictMono.lt_iff_lt (a := a) (b := b)
  have below := quanta_strictMono.lt_iff_lt (a := b) (b := a)
  have left := positive a
  have right := positive b
  cases s <;> cases t <;> simp only [signedQuanta, if_true, if_false, Bool.false_eq_true] <;> omega

/-- Widened integers stand on the line in the order of the integers. -/
theorem position?_ofInt {n m : Int} (small : n.natAbs < 2 ^ 53) (small' : m.natAbs < 2 ^ 53) :
    ∃ p q, (ofInt n).position? = some p ∧ (ofInt m).position? = some q ∧ (p < q ↔ n < m) := by
  obtain ⟨a, widened, exact⟩ := ofInt_exact small
  obtain ⟨b, widened', exact'⟩ := ofInt_exact small'
  have one : (0 : Int) < quantaPerOne := Int.natCast_pos.mpr (by decide +kernel)
  refine ⟨_, _, congrArg position? widened, congrArg position? widened', ?_⟩
  rw [← signedQuanta_lt_iff, exact, exact']
  exact Int.mul_lt_mul_right one

theorem related_of_position? {a b : Double} {p q : Int} (left : a.position? = some p)
    (right : b.position? = some q) (r : Int → Int → Bool) : related r a b = r p q := by
  rw [related, left, right]

theorem less_ofInt {n m : Int} (small : n.natAbs < 2 ^ 53) (small' : m.natAbs < 2 ^ 53) :
    (ofInt n).less (ofInt m) = decide (n < m) := by
  obtain ⟨p, q, left, right, order⟩ := position?_ofInt small small'
  exact (related_of_position? left right _).trans (decide_eq_decide.mpr order)

theorem lessEq_ofInt {n m : Int} (small : n.natAbs < 2 ^ 53) (small' : m.natAbs < 2 ^ 53) :
    (ofInt n).lessEq (ofInt m) = decide (n ≤ m) := by
  obtain ⟨q, p, right, left, order⟩ := position?_ofInt small' small
  have weak : p ≤ q ↔ n ≤ m := by omega
  exact (related_of_position? left right _).trans (decide_eq_decide.mpr weak)

end Double

/-! ## Decisions about integers -/

theorem natAbs_toInt_lt (a : Int32) : a.toInt.natAbs < 2 ^ 53 := by
  have low := Int32.le_toInt a
  have high := Int32.toInt_lt a
  omega

theorem Value.isZero_int {b : Int32} : (Value.int b).isZero = true ↔ b = 0 := by
  rw [Value.isZero_iff]
  constructor
  · rintro ⟨⟩
    rfl
  · rintro rfl
    exact .int

/-- The quotient of integers is the truncated one, wrapped. -/
theorem wraps_div (a b : Int32) : Wraps (a.toInt.tdiv b.toInt) (a / b) := by
  have wrapped : Int32.ofInt (a.toInt.tdiv b.toInt) = a / b := by
    rw [Int32.ofInt_eq_iff_bmod_eq_toInt, Int32.toInt_div]
  rw [← wrapped]
  exact wraps_ofInt _

section Operands

variable {l r : Expr} {a b : Int32} (left : l.eval = .ok (.int a)) (right : r.eval = .ok (.int b))
include left right

theorem eval_compared {op : BinaryOp} {rel : Double → Double → Bool}
    (strict : op.decidedBy? = none)
    (compares : ∀ v w, op.apply v w = charge op.token (Value.compare rel v w)) :
    (Expr.binary l op r).eval =
      .ok (.bool (rel (Double.ofInt a.toInt) (Double.ofInt b.toInt))) := by
  rw [Expr.eval_applied left right strict, compares]
  rfl

theorem eval_divided (nonzero : b ≠ 0) : (Expr.binary l .divide r).eval = .ok (.int (a / b)) := by
  have divisor : (Value.int b).isZero ≠ true := by
    rw [ne_eq, Value.isZero_int]
    exact nonzero
  rw [Expr.eval_applied left right rfl, BinaryOp.apply, Value.quotient, if_neg divisor]
  rfl

theorem eval_divided_by_zero (zero : b = 0) : (Expr.binary l .divide r).eval =
    .error (.runtime ⟨Token.synthetic .slash (Bytes.ofString "/"),
      Bytes.ofString "Cannot divide by zero"⟩) := by
  rw [Expr.eval_applied left right rfl, BinaryOp.apply, Value.quotient,
    if_pos (Value.isZero_int.mpr zero)]
  rfl

end Operands

/-- **Decisions about integers are exact.** Let two operands come to integers. They are
compared as integers. Their quotient is refused exactly if the divisor is zero, and
otherwise it is the quotient truncated toward zero, wrapped; so the least integer
divided by `-1` gives itself. -/
theorem integers_decided_exactly (l r : Expr) (a b : Int32) (left : l.eval = .ok (.int a))
    (right : r.eval = .ok (.int b)) :
    (Expr.binary l .less r).eval = .ok (.bool (a.toInt < b.toInt)) ∧
    (Expr.binary l .greater r).eval = .ok (.bool (a.toInt > b.toInt)) ∧
    (Expr.binary l .lessEq r).eval = .ok (.bool (a.toInt ≤ b.toInt)) ∧
    (Expr.binary l .greaterEq r).eval = .ok (.bool (a.toInt ≥ b.toInt)) ∧
    ((Expr.binary l .divide r).eval =
      .error (.runtime ⟨Token.synthetic .slash (Bytes.ofString "/"),
        Bytes.ofString "Cannot divide by zero"⟩) ↔ b = 0) ∧
    (b ≠ 0 → ∃ v, (Expr.binary l .divide r).eval = .ok (.int v) ∧
      Wraps (a.toInt.tdiv b.toInt) v) ∧
    (a.toInt = -2 ^ 31 → b.toInt = -1 → (Expr.binary l .divide r).eval = .ok (.int a)) := by
  have smallA := natAbs_toInt_lt a
  have smallB := natAbs_toInt_lt b
  refine ⟨?_, ?_, ?_, ?_, ⟨?_, ?_⟩, ?_, ?_⟩
  · rw [eval_compared left right rfl (fun _ _ => rfl), Double.less_ofInt smallA smallB]
  · rw [eval_compared left right rfl (fun _ _ => rfl), Double.less_ofInt smallB smallA]
  · rw [eval_compared left right rfl (fun _ _ => rfl), Double.lessEq_ofInt smallA smallB]
  · rw [eval_compared left right rfl (fun _ _ => rfl), Double.lessEq_ofInt smallB smallA]
  · intro refused
    by_contra nonzero
    rw [eval_divided left right nonzero] at refused
    cases refused
  · exact eval_divided_by_zero left right
  · intro nonzero
    exact ⟨a / b, eval_divided left right nonzero, wraps_div a b⟩
  · intro least minusOne
    have nonzero : b ≠ 0 := by
      rintro rfl
      exact absurd minusOne (by decide)
    -- the exact quotient `2 ^ 31` is one too large, and congruent to its negative
    have quotient : a.toInt.tdiv b.toInt = 2 ^ 31 := by rw [least, minusOne]; rfl
    have wrapped := wraps_div a b
    rw [quotient] at wrapped
    have same : -2 ^ 31 = (a / b).toInt := (wrapped (-2 ^ 31)).mp ⟨by simp, by simp, rfl⟩
    rw [eval_divided left right nonzero, Int32.toInt_inj.mp (same.symm.trans least.symm)]

/-- The least integer, compared with `-1` and divided by it. -/
theorem integers_decided_exactly_sample :
    let l : Expr := .literal (.int (-2147483648))
    let r : Expr := .unary .negative (.literal (.int 1))
    l.eval = .ok (.int (-2147483648)) ∧ r.eval = .ok (.int (-1)) ∧
      (Expr.binary l .less r).eval = .ok (.bool true) ∧
      (Expr.binary l .greaterEq r).eval = .ok (.bool false) ∧
      (Expr.binary l .divide r).eval = .ok (.int (-2147483648)) := by
  intro l r
  have left : l.eval = .ok (.int (-2147483648)) := rfl
  have right : r.eval = .ok (.int (-1)) := rfl
  obtain ⟨less, _, _, greaterEq, _, _, quotient⟩ :=
    integers_decided_exactly l r (-2147483648) (-1) left right
  exact ⟨left, right, less, greaterEq, quotient rfl rfl⟩

end Reckon
