import Mathlib.Algebra.Group.Nat.Defs
import Reckon.Number.Layout

/-!
# Written numbers read back

Reading takes a decimal to the rank nearest to its magnitude, and writing a rank
looks for a short decimal that reads back to it. These facts carry the round
trip:

* the nearest rank depends on a quotient only, not on how it is written
  (`nearest_congr`), so moving zeros between significand and exponent changes
  nothing (`Decimal.rank_shift`);
* a whole number of quanta that a rank stands for is nearest to that rank
  (`nearest_quanta`), so the exact expansion reads back (`Decimal.rank_exact`);
* what the search for a short decimal finds, it has read back itself
  (`Decimal.rank_of_gridHit`), so what is written reads back
  (`Decimal.rank_shortest`);
* digits read as the number they write (`Bytes.readDigits_digits`), and a value
  is written as digits, a point and digits (`Double.exists_numeral`).
-/

namespace Reckon

/-! ## Rounded quotients -/

theorem roundQuotient_mul (num den : Nat) {c : Nat} (positive : 0 < c) :
    roundQuotient (num * c) (den * c) = roundQuotient num den := by
  have less : 2 * (num % den * c) < den * c ↔ 2 * (num % den) < den := by
    rw [← Nat.mul_assoc]
    exact Nat.mul_lt_mul_right positive
  have tie : 2 * (num % den * c) = den * c ↔ 2 * (num % den) = den := by
    rw [← Nat.mul_assoc]
    exact Nat.mul_left_inj (Nat.ne_of_gt positive)
  simp only [roundQuotient, Nat.mul_div_mul_right _ _ positive, Nat.mul_mod_mul_right, less, tie]

/-- A quotient without remainder is not changed. -/
theorem roundQuotient_exact (q den : Nat) (positive : 0 < den) :
    roundQuotient (q * den) den = q := by
  simp [roundQuotient, Nat.mul_div_cancel _ positive, Nat.mul_mod_left, positive]

/-- Rounding goes to a neighbour. -/
theorem roundQuotient_eq_or (num den : Nat) :
    roundQuotient num den = num / den ∨ roundQuotient num den = num / den + 1 := by
  unfold roundQuotient
  dsimp only
  split
  · exact .inl rfl
  · exact .inr rfl

/-! ## The nearest rank -/

theorem nearest_mul (num den : Nat) {c : Nat} (positive : 0 < c) :
    nearest (num * c) (den * c) = nearest num den := by
  simp only [nearest, Nat.mul_div_mul_right _ _ positive]
  rw [Nat.mul_right_comm den c, roundQuotient_mul _ _ positive]

/-- Equal quotients have the same nearest rank. -/
theorem nearest_congr {num den num' den' : Nat} (positive : 0 < den) (positive' : 0 < den')
    (same : num * den' = num' * den) : nearest num den = nearest num' den' := by
  rw [← nearest_mul num den positive', same, Nat.mul_comm den den', nearest_mul _ _ positive]

/-- A significand of 53 bits, scaled, has the scale as its excess of bits. -/
theorem log2_scaled {m : Nat} (s : Nat) (low : binade ≤ m) (high : m < 2 * binade) :
    (m * 2 ^ s).log2 = 52 + s := by
  have nonzero : m * 2 ^ s ≠ 0 := by
    have : 0 < m := Nat.lt_of_lt_of_le (by decide) low
    exact Nat.ne_of_gt (Nat.mul_pos this (Nat.two_pow_pos s))
  rw [Nat.log2_eq_iff nonzero]
  have bits : binade = 2 ^ 52 := by decide
  rw [bits] at low high
  constructor
  · rw [Nat.pow_add]
    exact Nat.mul_le_mul_right _ low
  · calc m * 2 ^ s < 2 ^ 53 * 2 ^ s := (Nat.mul_lt_mul_right (Nat.two_pow_pos s)).mpr high
      _ = 2 ^ (52 + s + 1) := by rw [← Nat.pow_add, Nat.add_right_comm]

/-- The magnitude of a rank is nearest to that rank. -/
theorem nearest_quanta (rank : Nat) : nearest (quanta rank) 1 = rank := by
  have positive : 0 < binade := by decide
  by_cases small : rank < 2 * binade
  · -- the two lowest binades count quanta one by one
    have scale : rankScale rank = 0 := by
      have := Nat.div_lt_of_lt_mul (Nat.mul_comm 2 binade ▸ small)
      rw [rankScale]
      omega
    have plain : quanta rank = rank := by simp [quanta, scale]
    have bits : rank.log2 < 53 := by
      by_cases zero : rank = 0
      · rw [zero]
        decide
      · exact (Nat.log2_lt zero).mpr small
    rw [plain, nearest, Nat.div_one, show rank.log2 - 52 = 0 by omega]
    have exact := roundQuotient_exact rank 1 (by decide)
    simpa using exact
  · have large : 2 * binade ≤ rank := Nat.le_of_not_lt small
    have two : 2 ≤ rank / binade := (Nat.le_div_iff_mul_le positive).mpr large
    have parts := Nat.div_add_mod rank binade
    have below := Nat.mod_lt rank positive
    obtain ⟨s, scale⟩ : ∃ s, rank / binade = s + 1 :=
      ⟨rank / binade - 1, by omega⟩
    have scaled : rankScale rank = s := by rw [rankScale, scale, Nat.add_sub_cancel]
    have whole : rank = s * binade + (binade + rank % binade) := by
      rw [scale, Nat.mul_comm, Nat.succ_mul] at parts
      omega
    have magnitude : quanta rank = (binade + rank % binade) * 2 ^ s := by
      have significand : rank - s * binade = binade + rank % binade := by omega
      rw [quanta, scaled, significand]
      rfl
    have excess := log2_scaled s (Nat.le_add_right binade (rank % binade)) (by omega)
    rw [magnitude, nearest, Nat.div_one, excess, Nat.add_sub_cancel_left, Nat.one_mul]
    rw [show Nat.pow 2 s = 2 ^ s from rfl, roundQuotient_exact _ _ (Nat.two_pow_pos s), ← whole]

namespace Decimal

/-! ## Reading decimals -/

/-- Both kinds of exponent as one quotient. -/
theorem rank_eq (d : Decimal) :
    d.rank = nearest (d.significand * 10 ^ d.exponent.toNat * quantaPerOne)
      (10 ^ (-d.exponent).toNat) := by
  unfold rank
  split
  · next negative =>
    have up : d.exponent.toNat = 0 := by omega
    have down : d.exponent.natAbs = (-d.exponent).toNat := by omega
    rw [up, down, Nat.pow_zero, Nat.mul_one]
    rfl
  · next positive =>
    have up : d.exponent.natAbs = d.exponent.toNat := by omega
    have down : (-d.exponent).toNat = 0 := by omega
    rw [up, down, Nat.pow_zero]
    rfl

/-- Zeros can be moved between the significand and the exponent. -/
theorem rank_shift (significand : Nat) (exponent : Int) (k : Nat) :
    rank ⟨significand * 10 ^ k, exponent⟩ = rank ⟨significand, exponent + k⟩ := by
  rw [rank_eq, rank_eq]
  refine nearest_congr (Nat.pow_pos (by decide)) (Nat.pow_pos (by decide)) ?_
  have exponents : k + exponent.toNat + (-(exponent + k)).toNat
      = (exponent + k).toNat + (-exponent).toNat := by omega
  have powers := congrArg (10 ^ ·) exponents
  simp only [Nat.pow_add] at powers
  -- the number of quanta in one is no numeral to compute with here
  generalize quantaPerOne = one
  calc significand * 10 ^ k * 10 ^ exponent.toNat * one * 10 ^ (-(exponent + k)).toNat
      = significand * one * (10 ^ k * 10 ^ exponent.toNat * 10 ^ (-(exponent + k)).toNat) := by
        ac_rfl
    _ = significand * one * (10 ^ (exponent + k).toNat * 10 ^ (-exponent).toNat) := by
        rw [powers]
    _ = significand * 10 ^ (exponent + k).toNat * one * 10 ^ (-exponent).toNat := by
        ac_rfl

theorem rank_zero (exponent : Int) : rank ⟨0, exponent⟩ = 0 := by
  rw [rank_eq, Nat.zero_mul, Nat.zero_mul, nearest, Nat.zero_div]
  simp [roundQuotient]

/-- Trailing zeros do not matter. -/
theorem rank_trim (d : Decimal) : d.trim.rank = d.rank := by
  fun_induction trim d with
  | case1 d zero =>
      obtain ⟨significand, exponent⟩ := d
      cases zero
      rw [rank_zero, rank_zero]
  | case2 d _ divides ih =>
      obtain ⟨significand, exponent⟩ := d
      have whole : significand / 10 * 10 ^ 1 = significand :=
        Nat.div_mul_cancel (Nat.dvd_of_mod_eq_zero divides)
      have shifted := rank_shift (significand / 10) exponent 1
      rw [whole] at shifted
      exact ih.trans shifted.symm
  | case3 => rfl

/-! ## Writing ranks -/

/-- The expansion of a whole number of quanta reads as that number. -/
theorem nearest_expansion (num k : Nat) :
    nearest (num * Nat.pow 5 k * Nat.pow 2 k) (Nat.pow 10 k) = nearest num 1 := by
  refine nearest_congr (Nat.pow_pos (by decide)) (by decide) ?_
  rw [Nat.mul_one, Nat.mul_assoc]
  exact congrArg (num * ·) (Nat.mul_pow 5 2 k).symm

theorem rank_exact (r : Nat) : (exact r).rank = r :=
  (nearest_expansion (quanta r) 1074).trans (nearest_quanta r)

theorem rank_of_gridHit {r : Nat} {exponent : Int} {d : Decimal}
    (hit : gridHit? r exponent = some d) : d.rank = r := by
  unfold gridHit? at hit
  dsimp only at hit
  split at hit
  · next below above =>
    cases hit
    rcases roundQuotient_eq_or (onGrid r exponent).1 (onGrid r exponent).2 with low | high
    · rw [low]
      exact of_decide_eq_true below
    · rw [high]
      exact of_decide_eq_true above
  · next below _ =>
    cases hit
    exact of_decide_eq_true below
  · next _ above =>
    cases hit
    exact of_decide_eq_true above
  · cases hit

/-- The decimal chosen to write a rank reads back to it. -/
theorem rank_shortest (r : Nat) : (shortest r).rank = r := by
  rw [shortest, rank_trim]
  cases found : (List.range 17).findSome? fun n : Nat =>
      gridHit? r (magnitudeDigits r - (n + 1 : Nat)) with
  | none => exact rank_exact r
  | some d =>
      obtain ⟨n, _, hit⟩ := List.exists_of_findSome?_eq_some found
      exact rank_of_gridHit hit

end Decimal

namespace Bytes

/-! ## Digits -/

/-- One digit or more, and nothing else. -/
def DigitRun (text : Bytes) : Prop := text ≠ [] ∧ ∀ b ∈ text, isDigit b = true

theorem digit_spec : ∀ d < 10,
    isDigit (digit d) = true ∧ (digit d).toNat - Ascii.zero.toNat = d := by
  decide

theorem readDigits_append_singleton (text : Bytes) (b : UInt8) :
    readDigits (text ++ [b]) = 10 * readDigits text + (b.toNat - Ascii.zero.toNat) := by
  simp [readDigits]

/-- Digits read as the number they write. -/
theorem readDigits_digits (n : Nat) : readDigits (digits n) = n := by
  fun_induction digits n with
  | case1 n small =>
      rw [readDigits, List.foldl_cons, List.foldl_nil, (digit_spec n small).2, Nat.mul_zero,
        Nat.zero_add]
  | case2 n _ ih =>
      have last := digit_spec (n % 10) (Nat.mod_lt n (by decide))
      rw [readDigits_append_singleton, ih, last.2]
      exact Nat.div_add_mod n 10

theorem digitRun_digits (n : Nat) : DigitRun (digits n) := by
  fun_induction digits n with
  | case1 n small =>
      refine ⟨List.cons_ne_nil _ _, fun b member => ?_⟩
      rw [List.mem_singleton.mp member]
      exact (digit_spec n small).1
  | case2 n _ ih =>
      refine ⟨by simp, fun b member => ?_⟩
      rcases List.mem_append.mp member with front | last
      · exact ih.2 b front
      · rw [List.mem_singleton.mp last]
        exact (digit_spec (n % 10) (Nat.mod_lt n (by decide))).1

/-- Zeros in front do not change a number. -/
theorem readDigits_zeros_append (k : Nat) (text : Bytes) :
    readDigits (List.replicate k Ascii.zero ++ text) = readDigits text := by
  induction k with
  | zero => rfl
  | succ k ih => exact ih

/-- Each zero behind a number multiplies it by ten. -/
theorem readDigits_append_zeros (text : Bytes) (k : Nat) :
    readDigits (text ++ List.replicate k Ascii.zero) = readDigits text * 10 ^ k := by
  induction k with
  | zero => simp
  | succ k ih =>
      rw [List.replicate_succ', ← List.append_assoc, readDigits_append_singleton, ih, Nat.pow_succ]
      simp only [Nat.sub_self, Nat.add_zero]
      ac_rfl

theorem DigitRun.append {s t : Bytes} (hs : ∀ b ∈ s, isDigit b = true) (ht : DigitRun t) :
    DigitRun (s ++ t) := by
  refine ⟨by simp [ht.1], fun b member => ?_⟩
  rcases List.mem_append.mp member with left | right
  · exact hs b left
  · exact ht.2 b right

theorem isDigit_of_mem_zeros {k : Nat} {b : UInt8} (member : b ∈ List.replicate k Ascii.zero) :
    isDigit b = true := by
  rw [(List.mem_replicate.mp member).2]
  decide

end Bytes

/-! ## Written values -/

open Bytes (DigitRun)

/-- A run of digits can be cut at a point that leaves digits on both sides. -/
theorem Bytes.DigitRun.cut {padded : Bytes} (run : DigitRun padded) {places : Nat}
    (positive : 0 < places) (long : places < padded.length) :
    DigitRun (padded.take (padded.length - places)) ∧
      DigitRun (padded.drop (padded.length - places)) ∧
      (padded.drop (padded.length - places)).length = places := by
  have fraction : (padded.drop (padded.length - places)).length = places := by
    rw [List.length_drop]
    omega
  refine ⟨⟨?_, fun b member => run.2 b (List.mem_of_mem_take member)⟩,
    ⟨?_, fun b member => run.2 b (List.mem_of_mem_drop member)⟩, fraction⟩
  · refine List.ne_nil_of_length_pos ?_
    rw [List.length_take]
    omega
  · refine List.ne_nil_of_length_pos ?_
    omega

/-- A decimal is written as two runs of digits that read back to its rank. -/
theorem Layout.exists_numeral_plain (d : Decimal) :
    ∃ whole fraction, Layout.value.plain d = whole ++ Ascii.point :: fraction ∧
      DigitRun whole ∧ DigitRun fraction ∧ (Decimal.ofNumeral whole fraction).rank = d.rank := by
  obtain ⟨significand, exponent⟩ := d
  have run := Bytes.digitRun_digits significand
  unfold Layout.plain
  dsimp only
  split
  · -- the point falls among the digits, after as many zeros as it needs
    next negative =>
    generalize zeros : exponent.natAbs + 1 - (Bytes.digits significand).length = k
    have padded : DigitRun (List.replicate k Ascii.zero ++ Bytes.digits significand) :=
      .append (fun _ member => Bytes.isDigit_of_mem_zeros member) run
    have long : exponent.natAbs
        < (List.replicate k Ascii.zero ++ Bytes.digits significand).length := by
      rw [List.length_append, List.length_replicate]
      omega
    obtain ⟨whole, fraction, places⟩ := padded.cut (by omega) long
    refine ⟨_, _, rfl, whole, fraction, ?_⟩
    rw [Decimal.ofNumeral, List.take_append_drop, Bytes.readDigits_zeros_append,
      Bytes.readDigits_digits, places]
    congr 2
    omega
  · -- zeros stand before the point, and one behind it
    next positive =>
    refine ⟨Bytes.digits significand ++ List.replicate exponent.natAbs Ascii.zero, [Ascii.zero],
      rfl, ⟨by simp [run.1], fun b member => ?_⟩,
      ⟨by simp, fun b member => Bytes.isDigit_of_mem_zeros (k := 1) member⟩, ?_⟩
    · rcases List.mem_append.mp member with front | back
      · exact run.2 b front
      · exact Bytes.isDigit_of_mem_zeros back
    · have one : [Ascii.zero] = List.replicate 1 Ascii.zero := rfl
      rw [Decimal.ofNumeral, one, Bytes.readDigits_append_zeros, Bytes.readDigits_append_zeros,
        Bytes.readDigits_digits, Nat.mul_assoc, ← Nat.pow_add, Decimal.rank_shift]
      congr 2
      simp only [List.length_replicate]
      omega

/-- The sign that a double is written with. -/
def Double.signText (negative : Bool) : Bytes := if negative then [Ascii.minus] else []

/-- A finite double is written as its sign, digits, a point and digits, and the
digits read back to its magnitude. -/
theorem Double.exists_numeral (rank : Fin rankBound) :
    ∃ whole fraction, DigitRun whole ∧ DigitRun fraction ∧
      (Decimal.ofNumeral whole fraction).toDouble false = .finite false rank ∧
      ∀ negative, (Double.finite negative rank).text .value
        = Double.signText negative ++ (whole ++ Ascii.point :: fraction) := by
  obtain ⟨whole, fraction, written, runs, runs', reads⟩ := Layout.exists_numeral_plain
    (if rank.val = 0 then ⟨0, 0⟩ else Decimal.shortest rank.val)
  have rank_eq : (Decimal.ofNumeral whole fraction).rank = rank.val := by
    rw [reads]
    split
    · next zero => rw [zero, Decimal.rank_zero]
    · exact Decimal.rank_shortest rank.val
  refine ⟨whole, fraction, runs, runs', ?_, fun negative => congrArg _ written⟩
  rw [Decimal.toDouble, rank_eq, Double.ofRank, dif_pos rank.isLt]

end Reckon
