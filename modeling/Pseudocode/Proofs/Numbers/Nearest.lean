import Mathlib.Algebra.Order.Field.Power
import Mathlib.Data.Rat.Cast.Order
import Mathlib.Tactic.FieldSimp
import Mathlib.Tactic.Linarith
import Mathlib.Tactic.Positivity
import Mathlib.Tactic.Ring
import Pseudocode.Double

/-! # The nearest number

A quotient of natural numbers is scaled by a power of two, so that fifty-three bits are in front of
the point, and rounded there. What comes out is the number nearest to the quotient.

* `Rounds`: a natural number is nearest to a rational, and even on a tie.
* `exponentFor_bounds`: the power of two leaves the right number of bits.
* `size_of_bits`: which value a significand and an exponent have in the bits of a number.
* `Placed`: a rational is rounded with an exponent. No number is nearer (`Placed.near`), since those
  that are not on the grid of the exponent are below all that is rounded with it.
* `nearest_ofRatio`, `nearest_ofDecimal`: the numbers that are made from quotients and digits.
-/

namespace Pseudocode.Double

/-! ## Natural numbers -/

/-- The natural number is the one nearest to the rational, and the even one on a tie. -/
structure Rounds (s : ℚ) (m : ℕ) : Prop where
  near : |(m : ℚ) - s| ≤ 1 / 2
  even : |(m : ℚ) - s| = 1 / 2 → m % 2 = 0

section Rounds

variable {s : ℚ} {m : ℕ}

theorem one_le_abs_sub {k : ℕ} (other : k ≠ m) : (1 : ℚ) ≤ |(k : ℚ) - m| := by
  have apart : (1 : ℤ) ≤ |(k : ℤ) - m| :=
    Int.one_le_abs (sub_ne_zero.mpr (Nat.cast_injective.ne other))
  exact_mod_cast apart

theorem Rounds.of_lt (near : |(m : ℚ) - s| < 1 / 2) : Rounds s m where
  near := near.le
  even tie := absurd tie near.ne

theorem Rounds.of_even (near : |(m : ℚ) - s| ≤ 1 / 2) (even : m % 2 = 0) : Rounds s m where
  near := near
  even _ := even

theorem Rounds.le (rounds : Rounds s m) (k : ℕ) : |(m : ℚ) - s| ≤ |(k : ℚ) - s| := by
  by_cases same : k = m
  · rw [same]
  · have apart := one_le_abs_sub same
    have around := abs_sub_le (k : ℚ) s m
    rw [abs_sub_comm s] at around
    have near := rounds.near
    linarith

theorem Rounds.even_of_tie (rounds : Rounds s m) {k : ℕ} (other : k ≠ m)
    (tie : |(k : ℚ) - s| = |(m : ℚ) - s|) : m % 2 = 0 := by
  refine rounds.even (le_antisymm rounds.near ?_)
  have apart := one_le_abs_sub other
  have around := abs_sub_le (k : ℚ) s m
  rw [abs_sub_comm s] at around
  linarith

/-- Rounding stays between natural numbers. -/
theorem Rounds.le_of_le (rounds : Rounds s m) {k : ℕ} (above : s ≤ k) : m ≤ k := by
  by_contra less
  have far : (k : ℚ) + 1 ≤ m := by exact_mod_cast Nat.lt_of_not_le less
  have near := (abs_le.mp rounds.near).2
  linarith

theorem Rounds.le_of_ge (rounds : Rounds s m) {k : ℕ} (below : k ≤ s) : k ≤ m := by
  by_contra less
  have far : (m : ℚ) + 1 ≤ k := by exact_mod_cast Nat.lt_of_not_le less
  have near := (abs_le.mp rounds.near).1
  linarith

end Rounds

theorem rounds_roundQuotient (n : ℕ) {d : ℕ} (positive : 0 < d) :
    Rounds (n / d) (roundQuotient n d) := by
  have d_pos : (0 : ℚ) < d := Nat.cast_pos.mpr positive
  obtain ⟨f, fraction⟩ : ∃ f : ℚ, f = (n % d : ℕ) / d := ⟨_, rfl⟩
  have split : (n : ℚ) / d = (n / d : ℕ) + f := by
    have whole : ((d * (n / d) + n % d : ℕ) : ℚ) = n := congrArg _ (Nat.div_add_mod n d)
    push_cast at whole
    rw [fraction]
    field_simp
    linarith
  have below : f < 1 / 2 ↔ 2 * (n % d) < d := by
    rw [fraction, div_lt_div_iff₀ d_pos two_pos, one_mul, mul_comm]
    exact_mod_cast Iff.rfl
  have above : 1 / 2 < f ↔ d < 2 * (n % d) := by
    rw [fraction, div_lt_div_iff₀ two_pos d_pos, one_mul, mul_comm]
    exact_mod_cast Iff.rfl
  have low : 0 ≤ f := fraction ▸ by positivity
  have high : f < 1 := by
    rw [fraction, div_lt_one d_pos]
    exact_mod_cast Nat.mod_lt n positive
  rw [split]
  unfold roundQuotient
  simp only
  split_ifs with less more even
  · have := below.mpr less
    exact .of_lt (abs_lt.mpr ⟨by linarith, by linarith⟩)
  · have := above.mpr more
    exact .of_lt (abs_lt.mpr ⟨by push_cast; linarith, by push_cast; linarith⟩)
  · have := not_lt.mp (mt above.mp more)
    exact .of_even (abs_le.mpr ⟨by linarith, by linarith⟩) even
  · have := not_lt.mp (mt below.mp less)
    exact .of_even (abs_le.mpr ⟨by push_cast; linarith, by push_cast; linarith⟩) (by omega)

/-! ## Scaling -/

theorem scaled_eq (n d : ℕ) (q : ℤ) :
    ((n * exp2 (-q).toNat : ℕ) : ℚ) / (d * exp2 q.toNat : ℕ) = n / d / 2 ^ q := by
  obtain ⟨k, rfl | rfl⟩ := q.eq_nat_or_neg
  · push_cast
    simp [exp2, div_div]
  · push_cast
    simp [exp2, mul_div_right_comm]

theorem rounds_roundScaled (n : ℕ) {d : ℕ} (positive : 0 < d) (q : ℤ) :
    Rounds (n / d / 2 ^ q) (roundScaled n d q) := by
  rw [← scaled_eq]
  exact rounds_roundQuotient _ (Nat.mul_pos positive (Nat.two_pow_pos _))

/-- The test for one more bit in front of the point. -/
theorem le_scaled_iff {n d : ℕ} (positive : 0 < d) (q : ℤ) :
    d * exp2 (53 + q.toNat) ≤ n * exp2 (-q).toNat ↔ (2 : ℚ) ^ 53 * 2 ^ q ≤ n / d := by
  have scaled_pos : (0 : ℚ) < (d * exp2 q.toNat : ℕ) :=
    Nat.cast_pos.mpr (Nat.mul_pos positive (Nat.two_pow_pos _))
  rw [← le_div_iff₀ (zpow_pos two_pos q), ← scaled_eq, le_div_iff₀ scaled_pos,
    show exp2 (53 + q.toNat) = 2 ^ 53 * exp2 q.toNat from Nat.pow_add ..]
  rw [← mul_assoc, mul_comm d, mul_assoc]
  exact_mod_cast Iff.rfl

/-- The logarithms tell how many bits the quotient has in front of the point, up to one. -/
theorem quotient_bounds {n d : ℕ} (some : n ≠ 0) (positive : 0 < d) {p : ℤ}
    (exponent : p = (n.log2 : ℤ) - d.log2 - 53) :
    (2 : ℚ) ^ 52 * 2 ^ p ≤ n / d ∧ (n : ℚ) / d < 2 ^ 54 * 2 ^ p := by
  have d_pos : (0 : ℚ) < d := Nat.cast_pos.mpr positive
  have power : (2 : ℚ) ^ p = 2 ^ n.log2 / 2 ^ d.log2 / 2 ^ 53 := by
    rw [exponent, zpow_sub₀ two_ne_zero, zpow_sub₀ two_ne_zero, zpow_natCast, zpow_natCast]
    rfl
  have n_low : (2 : ℚ) ^ n.log2 ≤ n := by exact_mod_cast Nat.log2_self_le some
  have n_high : (n : ℚ) < 2 ^ n.log2 * 2 := by exact_mod_cast Nat.lt_log2_self
  have d_low : (2 : ℚ) ^ d.log2 ≤ d := by exact_mod_cast Nat.log2_self_le positive.ne'
  have d_high : (d : ℚ) < 2 ^ d.log2 * 2 := by exact_mod_cast Nat.lt_log2_self
  rw [power]
  constructor
  · refine le_of_eq_of_le ?_ (div_le_div₀ n.cast_nonneg n_low d_pos d_high.le)
    field_simp
  · refine lt_of_lt_of_eq (div_lt_div₀ n_high d_low (by positivity) (by positivity)) ?_
    field_simp

/-- The quotient has at most fifty-three bits in front of the point, and no fewer unless the
    exponent is the least there is. -/
theorem exponentFor_bounds {n d : ℕ} (some : n ≠ 0) (positive : 0 < d) :
    -1074 ≤ exponentFor n d ∧ (n : ℚ) / d < 2 ^ 53 * 2 ^ exponentFor n d ∧
      (exponentFor n d = -1074 ∨ (2 : ℚ) ^ 52 * 2 ^ exponentFor n d ≤ n / d) := by
  obtain ⟨p, exponent⟩ : ∃ p : ℤ, p = (n.log2 : ℤ) - d.log2 - 53 := ⟨_, rfl⟩
  obtain ⟨low, high⟩ := quotient_bounds some positive exponent
  obtain ⟨r, chosen⟩ :
      ∃ r : ℤ, r = if d * exp2 (53 + p.toNat) ≤ n * exp2 (-p).toNat then p + 1 else p :=
    ⟨_, rfl⟩
  have fits : (n : ℚ) / d < 2 ^ 53 * 2 ^ r ∧ (2 : ℚ) ^ 52 * 2 ^ r ≤ n / d := by
    by_cases more : (2 : ℚ) ^ 53 * 2 ^ p ≤ n / d
    · rw [chosen, if_pos ((le_scaled_iff positive p).mpr more), zpow_add_one₀ two_ne_zero]
      exact ⟨by linarith, by linarith⟩
    · rw [chosen, if_neg (mt (le_scaled_iff positive p).mp more)]
      exact ⟨not_le.mp more, low⟩
  have whole : exponentFor n d = max r (-1074) := by
    rw [exponentFor, chosen, exponent]
  rw [whole]
  obtain least | above := le_total r (-1074)
  · rw [max_eq_right least]
    have scale : (2 : ℚ) ^ r ≤ 2 ^ (-1074 : ℤ) := zpow_le_zpow_right₀ one_le_two least
    exact ⟨le_rfl, by linarith [fits.1], .inl rfl⟩
  · rw [max_eq_left above]
    exact ⟨above, fits.1, .inr fits.2⟩

/-! ## Values -/

/-- The value without its sign. An infinite number stands for the power of two behind the largest
    finite number. -/
def size (x : Double) : ℚ := x.magnitude.1 * 2 ^ x.magnitude.2

def value (x : Double) : ℚ := if x.isNegative then -x.size else x.size

theorem exponentField_eq (x : Double) : x.exponentField = x.bits.toNat / 2 ^ 52 % 2 ^ 11 := rfl

theorem fractionField_eq (x : Double) : x.fractionField = x.bits.toNat % 2 ^ 52 := rfl

theorem magnitude_of_zero {x : Double} (zero : x.exponentField = 0) :
    x.magnitude = (x.fractionField, -1074) := if_pos zero

theorem magnitude_of_ne_zero {x : Double} (other : x.exponentField ≠ 0) :
    x.magnitude = (2 ^ 52 + x.fractionField, (x.exponentField : ℤ) - 1075) := if_neg other

theorem magnitude_bounds (x : Double) : x.magnitude.1 < 2 ^ 53 ∧ -1074 ≤ x.magnitude.2 ∧
    (x.magnitude.2 = -1074 ∨ 2 ^ 52 ≤ x.magnitude.1) := by
  have fraction : x.fractionField < 2 ^ 52 := Nat.mod_lt _ (Nat.two_pow_pos 52)
  by_cases zero : x.exponentField = 0
  · rw [magnitude_of_zero zero]
    exact ⟨by simp only; omega, le_rfl, .inl rfl⟩
  · rw [magnitude_of_ne_zero zero]
    exact ⟨by simp only; omega, by simp only; omega, .inr (Nat.le_add_right _ _)⟩

/-- How a significand and its exponent are read from the bits that hold them. -/
theorem size_of_bits {x : Double} {e m : ℕ} (bits : x.bits.toNat = e * 2 ^ 52 + m)
    (full : e = 0 ∨ 2 ^ 52 ≤ m) (most : m ≤ 2 ^ 53) (small : x.bits.toNat < 2 ^ 63) :
    x.size = m * 2 ^ ((e : ℤ) - 1074) := by
  have exponent := x.exponentField_eq
  have fraction := x.fractionField_eq
  rw [bits] at small exponent fraction
  obtain below | full := Nat.lt_or_ge m (2 ^ 52)
  · obtain rfl : e = 0 := by omega
    have same : x.fractionField = m := by omega
    rw [size, magnitude_of_zero (by omega), same]
    rfl
  · have other : x.exponentField ≠ 0 := by omega
    rw [size, magnitude_of_ne_zero other]
    obtain within | rfl := Nat.lt_or_eq_of_le most
    · have same : 2 ^ 52 + x.fractionField = m := by omega
      have power : (x.exponentField : ℤ) - 1075 = e - 1074 := by omega
      rw [same, power]
    · have same : 2 ^ 52 + x.fractionField = 2 ^ 52 := by omega
      have power : (x.exponentField : ℤ) - 1075 = e - 1074 + 1 := by omega
      rw [same, power, zpow_add_one₀ two_ne_zero]
      push_cast
      ring

/-! ## Rounding -/

/-- The rational is rounded with this exponent to the significand. -/
structure Placed (t : ℚ) (q : ℤ) (m : ℕ) : Prop where
  least : -1074 ≤ q
  high : t < 2 ^ 53 * 2 ^ q
  low : q = -1074 ∨ 2 ^ 52 * 2 ^ q ≤ t
  rounds : Rounds (t / 2 ^ q) m

namespace Placed

variable {t : ℚ} {q : ℤ} {m : ℕ}

theorem abs_sub_eq (s : ℚ) : |s * 2 ^ q - t| = |s - t / 2 ^ q| * 2 ^ q := by
  have unit : (0 : ℚ) < 2 ^ q := zpow_pos two_pos q
  rw [← abs_of_pos unit, ← abs_mul, abs_of_pos unit, sub_mul, div_mul_cancel₀ _ unit.ne']

variable (placed : Placed t q m)

include placed

theorem most : m ≤ 2 ^ 53 := by
  have unit : (0 : ℚ) < 2 ^ q := zpow_pos two_pos q
  refine placed.rounds.le_of_le ((div_le_iff₀ unit).mpr ?_)
  push_cast
  exact placed.high.le

theorem full : q = -1074 ∨ 2 ^ 52 ≤ m := by
  have unit : (0 : ℚ) < 2 ^ q := zpow_pos two_pos q
  refine placed.low.imp_right fun low => placed.rounds.le_of_ge ((le_div_iff₀ unit).mpr ?_)
  push_cast
  exact low

/-- A number lies on the grid of the exponent, or it is farther away than what is rounded to. -/
theorem grid_or_farther (y : Double) :
    (∃ k : ℕ, y.size = k * 2 ^ q) ∨ |(m : ℚ) * 2 ^ q - t| < |y.size - t| := by
  obtain ⟨bound, least, -⟩ := y.magnitude_bounds
  obtain below | above := lt_or_ge y.magnitude.2 q
  · right
    have low := placed.low.resolve_left (by omega)
    have less : y.size < 2 ^ 52 * 2 ^ q := by
      have unit : (0 : ℚ) < 2 ^ y.magnitude.2 := zpow_pos two_pos _
      have cast : (y.magnitude.1 : ℚ) < 2 ^ 53 := by exact_mod_cast bound
      have next : (2 : ℚ) ^ (y.magnitude.2 + 1) ≤ 2 ^ q := zpow_le_zpow_right₀ one_le_two below
      calc y.size < 2 ^ 53 * 2 ^ y.magnitude.2 := mul_lt_mul_of_pos_right cast unit
        _ = 2 ^ 52 * 2 ^ (y.magnitude.2 + 1) := by rw [zpow_add_one₀ two_ne_zero]; ring
        _ ≤ 2 ^ 52 * 2 ^ q := by gcongr
    have near := placed.rounds.le (2 ^ 52)
    rw [Nat.cast_pow, Nat.cast_ofNat] at near
    have whole := mul_le_mul_of_nonneg_right near (zpow_nonneg zero_le_two q)
    rw [← abs_sub_eq, ← abs_sub_eq, abs_of_nonpos (sub_nonpos.mpr low)] at whole
    rw [abs_of_nonpos (sub_nonpos.mpr (less.le.trans low))]
    linarith
  · left
    obtain ⟨k, more⟩ := Int.le.dest above
    refine ⟨y.magnitude.1 * 2 ^ k, ?_⟩
    rw [size, ← more, zpow_add₀ two_ne_zero, zpow_natCast]
    push_cast
    ring

/-- No number is nearer than what is rounded to. -/
theorem near (y : Double) : |(m : ℚ) * 2 ^ q - t| ≤ |y.size - t| := by
  obtain ⟨k, grid⟩ | farther := placed.grid_or_farther y
  · rw [grid, abs_sub_eq, abs_sub_eq]
    exact mul_le_mul_of_nonneg_right (placed.rounds.le k) (zpow_nonneg zero_le_two q)
  · exact farther.le

/-- Of two numbers that are equally near, the one that is rounded to is even. -/
theorem even_of_tie {y : Double} (other : y.size ≠ m * 2 ^ q)
    (tie : |y.size - t| = |(m : ℚ) * 2 ^ q - t|) : m % 2 = 0 := by
  obtain ⟨k, grid⟩ | farther := placed.grid_or_farther y
  · rw [grid, abs_sub_eq, abs_sub_eq] at tie
    refine placed.rounds.even_of_tie (fun same => other (same ▸ grid)) ?_
    exact mul_right_cancel₀ (zpow_pos two_pos q).ne' tie
  · exact absurd tie farther.ne'

/-- The significand is below the next power of two if and only if less than half a unit is missing
    to that power. -/
theorem lt_two_pow_iff : m < 2 ^ 53 ↔ t / 2 ^ q < 2 ^ 53 - 1 / 2 := by
  have near := abs_le.mp placed.rounds.near
  have most := placed.most
  constructor
  · intro less
    have cast : (m : ℚ) + 1 ≤ 2 ^ 53 := by exact_mod_cast less
    refine lt_of_le_of_ne (by linarith [near.1]) fun tie => ?_
    have last : (m : ℚ) = 2 ^ 53 - 1 := by linarith [near.1]
    have odd : m = 2 ^ 53 - 1 := by
      rw [eq_sub_iff_add_eq] at last
      exact Nat.eq_sub_of_add_eq (by exact_mod_cast last)
    have even := placed.rounds.even (by rw [last, tie]; norm_num)
    omega
  · intro less
    by_contra full
    obtain rfl : m = 2 ^ 53 := by omega
    push_cast at near
    linarith [near.2]

/-- The bits are those of a finite number as long as less than half a unit is missing to the
    power of two behind the largest one. -/
theorem bits_lt_iff : (q + 1074).toNat * 2 ^ 52 + m < 2047 * 2 ^ 52 ↔
    t < (2 ^ 54 - 1) * 2 ^ (970 : ℤ) := by
  have most := placed.most
  have least := placed.least
  have unit : (0 : ℚ) < 2 ^ (970 : ℤ) := zpow_pos two_pos _
  obtain below | rfl | above := lt_trichotomy q 971
  · have power : (2 : ℚ) ^ q ≤ 2 ^ (970 : ℤ) := zpow_le_zpow_right₀ one_le_two (by omega)
    have high := placed.high
    generalize (2 : ℚ) ^ (970 : ℤ) = u at power unit ⊢
    exact iff_of_true (by omega) (by linarith)
  · have power : (2 : ℚ) ^ (971 : ℤ) = 2 ^ (970 : ℤ) * 2 := zpow_add_one₀ two_ne_zero 970
    have significand : ((971 : ℤ) + 1074).toNat * 2 ^ 52 + m < 2047 * 2 ^ 52 ↔ m < 2 ^ 53 := by
      omega
    rw [significand, placed.lt_two_pow_iff, div_lt_iff₀ (zpow_pos two_pos _), power]
    constructor <;> intro less <;> linarith
  · have power : (2 : ℚ) ^ (970 : ℤ) * 4 ≤ 2 ^ q := by
      have : (2 : ℚ) ^ (972 : ℤ) ≤ 2 ^ q := zpow_le_zpow_right₀ one_le_two above
      rwa [show (972 : ℤ) = 970 + 1 + 1 from rfl, zpow_add_one₀ two_ne_zero,
        zpow_add_one₀ two_ne_zero, mul_assoc, show (2 : ℚ) * 2 = 4 by norm_num] at this
    have full := placed.full.resolve_left (by omega)
    have low := placed.low.resolve_left (by omega)
    generalize (2 : ℚ) ^ (970 : ℤ) = u at power unit ⊢
    exact iff_of_false (by omega) (by linarith)

end Placed

/-! ## The nearest number -/

theorem placed_ofRatio {n d : ℕ} (some : n ≠ 0) (positive : 0 < d) :
    Placed (n / d) (exponentFor n d) (roundScaled n d (exponentFor n d)) := by
  obtain ⟨least, high, low⟩ := exponentFor_bounds some positive
  exact ⟨least, high, low, rounds_roundScaled n positive _⟩

theorem bits_ofRatio {n d : ℕ} (some : n ≠ 0) : (ofRatio n d).bits.toNat =
    min ((exponentFor n d + 1074).toNat * 2 ^ 52 + roundScaled n d (exponentFor n d))
      (2047 * 2 ^ 52) := by
  rw [ofRatio, if_neg some]
  exact UInt64.toNat_ofNat_of_lt' (Nat.lt_of_le_of_lt (Nat.min_le_right _ _) (by decide))

theorem isFinite_iff {x : Double} (positive : x.bits.toNat < 2 ^ 63) :
    x.isFinite ↔ x.bits.toNat < 2047 * 2 ^ 52 := by
  have exponent := x.exponentField_eq
  have finite : x.isFinite ↔ x.exponentField ≠ 2047 := by
    rw [isFinite, decide_eq_true_eq]
    rfl
  rw [finite]
  omega

/-- Numbers that are not infinite are below the largest power of two. -/
theorem size_of_isNaN_eq_false {x : Double} (number : x.isNaN = false) :
    x.size = 2 ^ 54 * 2 ^ (970 : ℤ) ∨ x.size ≤ (2 ^ 54 - 2) * 2 ^ (970 : ℤ) := by
  have unit : (0 : ℚ) < 2 ^ (970 : ℤ) := zpow_pos two_pos _
  have power : (2 : ℚ) ^ (971 : ℤ) = 2 ^ (970 : ℤ) * 2 := zpow_add_one₀ two_ne_zero 970
  have exponent : x.exponentField < 2048 := Nat.mod_lt _ (by decide)
  by_cases last : x.exponentField = 2047
  · left
    have fraction : x.fractionField = 0 := by
      have infinite : x.isFinite = false := decide_eq_false (not_not.mpr last)
      simpa [isNaN, infinite] using number
    rw [size, magnitude_of_ne_zero (by omega), fraction, last,
      show ((2047 : ℕ) : ℤ) - 1075 = 971 + 1 by rfl, zpow_add_one₀ two_ne_zero, power]
    generalize (2 : ℚ) ^ (970 : ℤ) = u
    push_cast
    ring
  · right
    obtain ⟨bound, -, -⟩ := x.magnitude_bounds
    have small : x.magnitude.2 ≤ 971 := by
      by_cases zero : x.exponentField = 0
      · rw [magnitude_of_zero zero]
        exact (by decide : (-1074 : ℤ) ≤ 971)
      · rw [magnitude_of_ne_zero zero]
        simp only
        omega
    have cast : (x.magnitude.1 : ℚ) ≤ 2 ^ 53 - 1 := by
      have : (x.magnitude.1 : ℚ) + 1 ≤ 2 ^ 53 := by exact_mod_cast bound
      linarith
    calc x.size ≤ (2 ^ 53 - 1) * 2 ^ (971 : ℤ) :=
          mul_le_mul cast (zpow_le_zpow_right₀ one_le_two small) (by positivity) (by norm_num)
      _ = (2 ^ 54 - 2) * 2 ^ (970 : ℤ) := by
          rw [power]
          generalize (2 : ℚ) ^ (970 : ℤ) = u
          ring

theorem size_nonneg (x : Double) : 0 ≤ x.size := by
  rw [size]
  positivity

theorem value_cases (x : Double) : x.value = x.size ∨ x.value = -x.size := by
  rw [value]
  split
  · exact .inr rfl
  · exact .inl rfl

/-- A number is no farther without its sign, and nearer unless one of the two is zero. -/
theorem abs_size_sub_le (x : Double) {t : ℚ} (positive : 0 ≤ t) : |x.size - t| ≤ |x.value - t| := by
  have size := x.size_nonneg
  obtain same | same := x.value_cases
  · rw [same]
  · rw [same, abs_of_nonpos (by linarith : -x.size - t ≤ 0)]
    exact abs_le.mpr ⟨by linarith, by linarith⟩

theorem value_eq_size {x : Double} {t : ℚ} (positive : 0 < t)
    (same : |x.size - t| = |x.value - t|) : x.value = x.size := by
  have size := x.size_nonneg
  obtain equal | opposite := x.value_cases
  · exact equal
  · rw [opposite, abs_of_nonpos (by linarith : -x.size - t ≤ 0)] at same
    have zero : x.size = 0 := by
      obtain near | near := (abs_eq (by linarith)).mp same <;> linarith
    rw [opposite, zero, neg_zero]

/-- The number is the one nearest to the rational. Of two that are equally near it is the even one,
    and it is infinite if the rational is too large, where infinity stands for the power of two
    behind the largest finite number. -/
structure Nearest (t : ℚ) (x : Double) : Prop where
  near : ∀ y : Double, y.isNaN = false → |x.value - t| ≤ |y.value - t|
  even : ∀ y : Double, y.isNaN = false → y.value ≠ x.value → |y.value - t| = |x.value - t| →
    x.bits.toNat % 2 = 0
  finite : x.isFinite ↔ t < (2 ^ 54 - 1) * 2 ^ (970 : ℤ)

theorem value_of_small {x : Double} (positive : x.bits.toNat < 2 ^ 63) : x.value = x.size := by
  have sign : x.isNegative = false := decide_eq_false (Nat.not_le.mpr positive)
  rw [value, sign]
  rfl

/-- The significand with its exponent is nearest as long as it is that of a finite number. -/
theorem Placed.nearest {t : ℚ} {q : ℤ} {m : ℕ} (placed : Placed t q m) (positive : 0 < t)
    {x : Double} (bits : x.bits.toNat = (q + 1074).toNat * 2 ^ 52 + m)
    (finite : x.bits.toNat < 2047 * 2 ^ 52) : Nearest t x := by
  have small : x.bits.toNat < 2 ^ 63 := by omega
  have same : x.value = m * 2 ^ q := by
    have power : (((q + 1074).toNat : ℕ) : ℤ) - 1074 = q := by
      have := placed.least
      omega
    rw [value_of_small small, size_of_bits bits (placed.full.imp_left (by omega)) placed.most small,
      power]
  refine ⟨fun y _ => ?_, fun y _ other tie => ?_, ?_⟩
  · rw [same]
    exact (placed.near y).trans (y.abs_size_sub_le positive.le)
  · rw [same] at other tie
    have between := y.abs_size_sub_le positive.le
    have unsigned : |y.size - t| = |(m : ℚ) * 2 ^ q - t| :=
      le_antisymm (tie ▸ between) (placed.near y)
    have even := placed.even_of_tie
      (fun equal => other ((value_eq_size positive (unsigned.trans tie.symm)).trans equal)) unsigned
    omega
  · rw [isFinite_iff small, bits]
    exact placed.bits_lt_iff

/-- What is too large is nearest to infinity. -/
theorem nearest_infinity {t : ℚ} (large : (2 ^ 54 - 1) * 2 ^ (970 : ℤ) ≤ t) {x : Double}
    (bits : x.bits.toNat = 2047 * 2 ^ 52) : Nearest t x := by
  have small : x.bits.toNat < 2 ^ 63 := by omega
  have power : (2 : ℚ) ^ ((2046 : ℕ) - 1074 : ℤ) = 2 ^ (970 : ℤ) * 2 * 2 := by
    rw [show ((2046 : ℕ) : ℤ) - 1074 = 970 + 1 + 1 by rfl, zpow_add_one₀ two_ne_zero,
      zpow_add_one₀ two_ne_zero]
  have most : x.value = 2 ^ 54 * 2 ^ (970 : ℤ) := by
    rw [value_of_small small, size_of_bits (e := 2046) (m := 2 ^ 52) (by omega) (.inr le_rfl)
      (by decide) small, power]
    generalize (2 : ℚ) ^ (970 : ℤ) = u
    push_cast
    ring
  refine ⟨fun y number => ?_, fun _ _ _ _ => by omega, ?_⟩
  · have unit : (0 : ℚ) < 2 ^ (970 : ℤ) := zpow_pos two_pos _
    have positive : 0 ≤ t := le_trans (mul_nonneg (by norm_num) unit.le) large
    refine le_trans ?_ (y.abs_size_sub_le positive)
    rw [most]
    obtain infinite | finite := size_of_isNaN_eq_false number
    · rw [infinite]
    · generalize (2 : ℚ) ^ (970 : ℤ) = u at *
      rw [abs_of_nonpos (by linarith : y.size - t ≤ 0)]
      exact abs_le.mpr ⟨by linarith, by linarith⟩
  · rw [isFinite_iff small]
    exact iff_of_false (by omega) (not_lt.mpr large)

theorem nearest_zero : Nearest 0 zero := by
  have bits : zero.bits.toNat = 0 * 2 ^ 52 + 0 := rfl
  have none : zero.value = 0 := by
    rw [value_of_small (by decide), size_of_bits bits (.inl rfl) (by decide) (by decide),
      Nat.cast_zero, zero_mul]
  refine ⟨fun y _ => ?_, fun _ _ _ _ => rfl, iff_of_true (by decide) ?_⟩
  · rw [none, sub_zero, abs_zero]
    exact abs_nonneg _
  · exact mul_pos (by norm_num) (zpow_pos two_pos _)

theorem nearest_ofRatio (n : ℕ) {d : ℕ} (positive : 0 < d) : Nearest (n / d) (ofRatio n d) := by
  by_cases none : n = 0
  · rw [none, Nat.cast_zero, zero_div]
    exact nearest_zero
  · have placed := placed_ofRatio none positive
    have bits := bits_ofRatio none (d := d)
    have quotient : (0 : ℚ) < n / d :=
      div_pos (Nat.cast_pos.mpr (Nat.pos_of_ne_zero none)) (Nat.cast_pos.mpr positive)
    by_cases finite : (n : ℚ) / d < (2 ^ 54 - 1) * 2 ^ (970 : ℤ)
    · have less := placed.bits_lt_iff.mpr finite
      rw [Nat.min_eq_left less.le] at bits
      exact placed.nearest quotient bits (bits ▸ less)
    · have more := mt placed.bits_lt_iff.mp finite
      rw [Nat.min_eq_right (Nat.le_of_not_lt more)] at bits
      exact nearest_infinity (not_lt.mp finite) bits

theorem nearest_ofDecimal (digits places : ℕ) :
    Nearest (digits / 10 ^ places) (ofDecimal digits places) := by
  have nearest := nearest_ofRatio digits (Nat.pow_pos (n := places) (show 0 < 10 by decide))
  rwa [Nat.cast_pow] at nearest

end Pseudocode.Double
