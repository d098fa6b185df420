import Mathlib.Data.Nat.Dist
import Mathlib.Order.Monotone.Basic
import Reckon.Proofs.Numerals

/-!
# Rounding to the nearest double

`nearest` is defined by scaling a quotient down to 53 bits and rounding what is
left. Here is what that comes to:

* magnitudes grow with their ranks, each by the power of two that scales its
  significand (`quanta_succ`, `quanta_strictMono`);
* no rank is closer to the quotient than the one that `nearest` gives, and of two
  that are equally close it gives the even one (`isNearest_nearest`);
* only one rank is like that (`IsNearest.unique`).

So a numeral is read as the one double nearest to the number it writes
(`nearestDouble_iff`).
-/

namespace Reckon

/-- `IsNearest num den rank`: no rank is closer to `num / den` quanta, and of two
equally close ones `rank` is the even one. -/
structure IsNearest (num den rank : Nat) : Prop where
  closest : ∀ r, Nat.dist (quanta rank * den) num ≤ Nat.dist (quanta r * den) num
  even : ∀ r, r ≠ rank → Nat.dist (quanta r * den) num = Nat.dist (quanta rank * den) num →
    rank % 2 = 0

/-! ## Magnitudes in order -/

theorem rankScale_add {s m : Nat} (low : s = 0 ∨ binade ≤ m) (high : m < 2 * binade) :
    rankScale (s * binade + m) = s := by
  have positive : 0 < binade := by decide
  have top : m / binade < 2 := Nat.div_lt_of_lt_mul (by omega)
  rw [rankScale, Nat.add_comm, Nat.add_mul_div_right _ _ positive]
  rcases low with zero | low
  · omega
  · have one : 1 ≤ m / binade := (Nat.one_le_div_iff positive).mpr low
    omega

/-- The magnitude of a significand at a scale. -/
theorem quanta_add {s m : Nat} (low : s = 0 ∨ binade ≤ m) (high : m < 2 * binade) :
    quanta (s * binade + m) = m * 2 ^ s := by
  rw [quanta, rankScale_add low high, Nat.add_sub_cancel_left]
  rfl

theorem exists_significand (rank : Nat) :
    ∃ s m, rank = s * binade + m ∧ (s = 0 ∨ binade ≤ m) ∧ m < 2 * binade := by
  have positive : 0 < binade := by decide
  have parts := Nat.div_add_mod' rank binade
  have below := Nat.mod_lt rank positive
  cases count : rank / binade with
  | zero =>
      rw [count] at parts
      exact ⟨0, rank % binade, by omega, .inl rfl, by omega⟩
  | succ s =>
      -- the leading bit belongs to the significand
      rw [count, Nat.succ_mul] at parts
      exact ⟨s, binade + rank % binade, by omega, .inr (by omega), by omega⟩

/-- A magnitude and the next one are a power of two apart. -/
theorem quanta_succ (rank : Nat) : quanta (rank + 1) = quanta rank + 2 ^ rankScale rank := by
  obtain ⟨s, m, rfl, low, high⟩ := exists_significand rank
  rw [quanta_add low high, rankScale_add low high]
  by_cases inside : m + 1 < 2 * binade
  · rw [Nat.add_assoc, quanta_add (by omega) inside, Nat.succ_mul]
  · -- the next significand is a power of two, written at the next scale
    have carry : s * binade + m + 1 = (s + 1) * binade + binade := by
      rw [Nat.succ_mul]
      omega
    have double : m + 1 = binade * 2 := by omega
    rw [carry, quanta_add (.inr (Nat.le_refl _)) (by omega), ← Nat.succ_mul, Nat.succ_eq_add_one,
      double, Nat.pow_succ, Nat.mul_assoc, Nat.mul_comm 2]

theorem quanta_strictMono : StrictMono quanta := by
  apply strictMono_nat_of_lt_succ
  intro rank
  rw [quanta_succ]
  exact Nat.lt_add_of_pos_right (Nat.two_pow_pos _)

theorem quanta_mul_lt {r r' den : Nat} (h : r < r') (positive : 0 < den) :
    quanta r * den < quanta r' * den :=
  (Nat.mul_lt_mul_right positive).mpr (quanta_strictMono h)

/-! ## The nearest rank is nearest -/

/-- Every other rank is further out than two neighbouring ones. -/
theorem outside_neighbours (low r : Nat) {den : Nat} (positive : 0 < den) :
    r = low ∨ r = low + 1 ∨ quanta r * den < quanta low * den ∨
      quanta (low + 1) * den < quanta r * den := by
  rcases Nat.lt_trichotomy r low with below | rfl | above
  · exact .inr (.inr (.inl (quanta_mul_lt below positive)))
  · exact .inl rfl
  · by_cases next : r = low + 1
    · exact .inr (.inl next)
    · have further : low + 1 < r := by omega
      exact .inr (.inr (.inr (quanta_mul_lt further positive)))

/-- Between two neighbouring magnitudes, the lower one is nearest up to the middle
and the upper one from there on; the middle itself goes to the even one. -/
theorem isNearest_between {num den low : Nat} (positive : 0 < den)
    (below : quanta low * den ≤ num) (above : num < quanta (low + 1) * den) :
    IsNearest num den
      (if 2 * (num - quanta low * den) < quanta (low + 1) * den - quanta low * den ∨
          (2 * (num - quanta low * den) = quanta (low + 1) * den - quanta low * den ∧ low % 2 = 0)
        then low else low + 1) := by
  -- on either side of the middle, the choice of the neighbour settles every comparison
  split
  all_goals
    constructor
    · intro r
      simp only [Nat.dist]
      rcases outside_neighbours low r positive with rfl | rfl | lower | upper <;> omega
    · intro r differs tie
      simp only [Nat.dist] at tie
      rcases outside_neighbours low r positive with rfl | rfl | lower | upper <;> omega

/-- Scaled down, a quotient has 53 bits at most, and exactly 53 if it was scaled at
all. -/
theorem significand_bounds (q : Nat) :
    (q.log2 - 52 = 0 ∨ binade ≤ q / 2 ^ (q.log2 - 52)) ∧ q / 2 ^ (q.log2 - 52) < 2 * binade := by
  have bits : binade = 2 ^ 52 := by decide
  by_cases zero : q = 0
  · subst zero
    exact ⟨.inl rfl, by decide⟩
  have low := Nat.log2_self_le zero
  have high : q < 2 ^ (q.log2 + 1) := Nat.lt_log2_self
  by_cases small : q.log2 ≤ 52
  · have unscaled : q.log2 - 52 = 0 := by omega
    refine ⟨.inl unscaled, ?_⟩
    rw [unscaled, Nat.pow_zero, Nat.div_one]
    calc q < 2 ^ (q.log2 + 1) := high
      _ ≤ 2 ^ 53 := Nat.pow_le_pow_right (by decide) (by omega)
      _ = 2 * binade := by decide
  · obtain ⟨s, scale⟩ : ∃ s, q.log2 = 52 + s := ⟨q.log2 - 52, by omega⟩
    rw [scale, Nat.add_sub_cancel_left]
    rw [scale] at low high
    refine ⟨.inr ?_, ?_⟩
    · rw [Nat.le_div_iff_mul_le (Nat.two_pow_pos s), bits, ← Nat.pow_add]
      exact low
    · rw [Nat.div_lt_iff_lt_mul (Nat.two_pow_pos s), bits]
      calc q < 2 ^ (52 + s + 1) := high
        _ = 2 * 2 ^ 52 * 2 ^ s := by rw [Nat.pow_succ, Nat.pow_add]; omega

/-- **Rounding is to nearest, ties to even.** -/
theorem isNearest_nearest (num : Nat) {den : Nat} (positive : 0 < den) :
    IsNearest num den (nearest num den) := by
  obtain ⟨low, high⟩ := significand_bounds (num / den)
  unfold nearest
  generalize (num / den).log2 - 52 = s at low high ⊢
  -- the step between neighbours at this scale, as the rounded quotient counts it
  have step : den * Nat.pow 2 s = 2 ^ s * den := Nat.mul_comm _ _
  have stepPositive : 0 < 2 ^ s * den := Nat.mul_pos (Nat.two_pow_pos s) positive
  rw [Nat.div_div_eq_div_mul, Nat.mul_comm den] at low high
  simp only [step, roundQuotient]
  have parts := Nat.div_add_mod' num (2 ^ s * den)
  have excess := Nat.mod_lt num stepPositive
  generalize num / (2 ^ s * den) = m at low high parts ⊢
  have lower : quanta (s * binade + m) * den = m * (2 ^ s * den) := by
    rw [quanta_add low high, Nat.mul_assoc]
  have upper : quanta (s * binade + m + 1) * den = m * (2 ^ s * den) + 2 ^ s * den := by
    rw [quanta_succ, rankScale_add low high, Nat.add_mul, lower]
  have parity : (s * binade + m) % 2 = m % 2 := by
    have even : (s * binade) % 2 = 0 := by
      rw [Nat.mul_mod, show binade % 2 = 0 by decide, Nat.mul_zero, Nat.zero_mod]
    omega
  have below : quanta (s * binade + m) * den ≤ num := by omega
  have above : num < quanta (s * binade + m + 1) * den := by omega
  have rounded := isNearest_between positive below above
  rw [lower, upper, parity, Nat.add_sub_cancel_left,
    show num - m * (2 ^ s * den) = num % (2 ^ s * den) by omega] at rounded
  split at rounded
  · next choice =>
    rw [if_pos choice]
    exact rounded
  · next choice =>
    rw [if_neg choice, ← Nat.add_assoc]
    exact rounded

/-- Between two even ranks there is another one, which is closer than both. -/
theorem IsNearest.le {num den a b : Nat} (positive : 0 < den) (ha : IsNearest num den a)
    (hb : IsNearest num den b) : b ≤ a := by
  by_contra less
  have same : Nat.dist (quanta a * den) num = Nat.dist (quanta b * den) num :=
    Nat.le_antisymm (ha.closest b) (hb.closest a)
  have evenA := ha.even b (by omega) same.symm
  have evenB := hb.even a (by omega) same
  have inner := ha.closest (a + 1)
  have lower := quanta_mul_lt (show a < a + 1 by omega) positive
  have upper := quanta_mul_lt (show a + 1 < b by omega) positive
  simp only [Nat.dist] at same inner
  omega

theorem IsNearest.unique {num den a b : Nat} (positive : 0 < den) (ha : IsNearest num den a)
    (hb : IsNearest num den b) : a = b :=
  Nat.le_antisymm (hb.le positive ha) (ha.le positive hb)

/-! ## Numerals -/

/-- `NearestDouble whole fraction d`: `d` is the double nearest to the number that
is written by digits before and after a point, infinite past the finite ones. -/
def NearestDouble (whole fraction : Bytes) (d : Double) : Prop :=
  ∃ rank, IsNearest (Bytes.readDigits (whole ++ fraction) * quantaPerOne)
    (10 ^ fraction.length) rank ∧ d = Double.ofRank false rank

theorem Decimal.rank_ofNumeral (whole fraction : Bytes) :
    (Decimal.ofNumeral whole fraction).rank =
      nearest (Bytes.readDigits (whole ++ fraction) * quantaPerOne) (10 ^ fraction.length) := by
  have up : (-(fraction.length : Int)).toNat = 0 := by omega
  rw [Decimal.rank_eq, Decimal.ofNumeral, up, Nat.pow_zero, Nat.mul_one, Int.neg_neg,
    Int.toNat_natCast]

/-- A numeral is read as the double nearest to it, and as no other. -/
theorem nearestDouble_iff {whole fraction : Bytes} {d : Double} :
    NearestDouble whole fraction d ↔
      d = (Decimal.ofNumeral whole fraction).toDouble false := by
  have positive : 0 < 10 ^ fraction.length := Nat.pow_pos (by decide)
  have read := isNearest_nearest (Bytes.readDigits (whole ++ fraction) * quantaPerOne) positive
  rw [← Decimal.rank_ofNumeral] at read
  constructor
  · rintro ⟨rank, nearest, rfl⟩
    rw [nearest.unique positive read]
    rfl
  · intro same
    exact ⟨_, read, same⟩

end Reckon
