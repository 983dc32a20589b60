import IrlEngine.Lib.Float64
import Mathlib.Algebra.Order.Floor.Semiring
import Mathlib.Data.Rat.Floor
import Mathlib.Tactic.Linarith
import Mathlib.Tactic.NormNum
import Mathlib.Tactic.Ring

/-!
# The shortest decimal of a binary64 number

What the search of `F64.shortest` finds, for the layouts that are made of it: the decimal
lies within half a unit in the last place of the number (`F64.shortest_close`), so it is an
integer exactly when the number is (`F64.shortest_exponent_nonneg_iff`), and the place of its
decimal point can be read off a comparison of the number with a power of ten
(`F64.point_le_iff`).
-/

namespace F64

/-! ## Powers of ten -/

theorem pow10_eq_zpow (p : ℤ) : pow10 p = (10 : ℚ) ^ p := by
  unfold pow10
  split
  · rename_i hp
    conv_rhs => rw [← Int.toNat_of_nonneg hp]
    rw [zpow_natCast]
  · rename_i hp
    have hneg : -((-p).toNat : ℤ) = p := by omega
    conv_rhs => rw [← hneg]
    rw [zpow_neg, zpow_natCast, one_div]

theorem pow10_pos (p : ℤ) : 0 < pow10 p := by
  rw [pow10_eq_zpow]
  exact zpow_pos (by norm_num) p

theorem pow10_add (p q : ℤ) : pow10 (p + q) = pow10 p * pow10 q := by
  simp only [pow10_eq_zpow]
  exact zpow_add₀ (by norm_num) p q

theorem pow10_natCast (n : ℕ) : pow10 n = 10 ^ n := by
  rw [pow10_eq_zpow, zpow_natCast]

theorem pow10_le_pow10 {p q : ℤ} (h : p ≤ q) : pow10 p ≤ pow10 q := by
  simp only [pow10_eq_zpow]
  exact zpow_le_zpow_right₀ (by norm_num) h

theorem lt_of_pow10_lt {p q : ℤ} (h : pow10 p < pow10 q) : p < q := by
  by_contra hle
  exact absurd (pow10_le_pow10 (not_lt.1 hle)) (not_le.2 h)

/-! ## Units in the last place -/

/-- The distance between neighbouring numbers. -/
def unit (f : F64) : ℚ := mkRat (2 ^ f.scale) denominator

theorem denominator_pos : (0 : ℚ) < denominator := by
  rw [denominator_eq]
  positivity

theorem unit_eq (f : F64) : f.unit = 2 ^ f.scale / denominator := by
  unfold unit
  rw [Rat.mkRat_eq_div, Int.cast_pow, Int.cast_ofNat]

/-- The units of the numbers from `2 ^ 52` on are powers of two. -/
theorem unit_of_scale {f : F64} {k : ℕ} (h : f.scale = 1074 + k) : f.unit = 2 ^ k := by
  rw [unit_eq, denominator_eq, h, pow_add, mul_comm, mul_div_assoc,
    div_self (pow_ne_zero _ two_ne_zero), mul_one]

theorem unit_pos (f : F64) : 0 < f.unit := by
  rw [unit_eq]
  exact div_pos (by positivity) denominator_pos

theorem magnitude_eq (f : F64) : f.magnitude = f.significand * f.unit := by
  rw [unit_eq, magnitude, Rat.mkRat_eq_div]
  push_cast
  ring

theorem significand_lt (f : F64) : f.significand < 2 ^ 53 := by
  unfold significand
  have := f.fraction.isLt
  split <;> omega

theorem magnitude_lt (f : F64) : f.magnitude < 2 ^ 53 * f.unit := by
  rw [magnitude_eq]
  have hsig : (f.significand : ℚ) < 2 ^ 53 := by exact_mod_cast f.significand_lt
  exact mul_lt_mul_of_pos_right hsig f.unit_pos

/-- Below the number, the distance to the edge of the rounding interval. -/
def lowerGap (f : F64) : ℚ :=
  if f.fraction.val = 0 ∧ 1 < f.exponent.val then f.unit / 4 else f.unit / 2

theorem lowerGap_pos (f : F64) : 0 < f.lowerGap := by
  have := f.unit_pos
  unfold lowerGap
  split <;> linarith

theorem lowerGap_le (f : F64) : f.lowerGap ≤ f.unit / 2 := by
  have := f.unit_pos
  unfold lowerGap
  split <;> linarith

theorem roundsTo_eq (f : F64) (x : ℚ) : roundsTo f x =
    if f.significand % 2 = 0 then
      decide (f.magnitude - f.lowerGap ≤ x ∧ x ≤ f.magnitude + f.unit / 2)
    else decide (f.magnitude - f.lowerGap < x ∧ x < f.magnitude + f.unit / 2) := rfl

/-- A decimal that rounds to a number lies within half a unit of it. -/
theorem roundsTo_close {f : F64} {x : ℚ} (h : roundsTo f x = true) :
    |x - f.magnitude| ≤ f.unit / 2 := by
  have hgap := f.lowerGap_le
  rw [roundsTo_eq] at h
  rw [abs_le]
  split at h
  · obtain ⟨hlow, hhigh⟩ := of_decide_eq_true h
    constructor <;> linarith
  · obtain ⟨hlow, hhigh⟩ := of_decide_eq_true h
    constructor <;> linarith

/-- A number rounds to itself. -/
theorem roundsTo_self (f : F64) : roundsTo f f.magnitude = true := by
  have hunit := f.unit_pos
  have hgap := f.lowerGap_pos
  rw [roundsTo_eq]
  split
  · exact decide_eq_true ⟨by linarith, by linarith⟩
  · exact decide_eq_true ⟨by linarith, by linarith⟩

/-! ## The search -/

/-- Rounding to the nearest integer is off by at most a half. -/
theorem roundHalfEven_close {q : ℚ} (hq : 0 ≤ q) : |(roundHalfEven q : ℚ) - q| ≤ 1 / 2 := by
  have hfloor : (0 : ℤ) ≤ q.floor := Rat.le_floor_iff.2 (by exact_mod_cast hq)
  have hn : ((q.floor.toNat : ℕ) : ℚ) = (q.floor : ℚ) := by
    exact_mod_cast Int.toNat_of_nonneg hfloor
  have hle : (q.floor : ℚ) ≤ q := Rat.floor_le q
  have hlt : q < q.floor + 1 := by exact_mod_cast Rat.lt_floor_add_one q
  unfold roundHalfEven
  dsimp only
  rw [hn, abs_le]
  split_ifs with h₁ h₂ h₃
  · rw [hn]; constructor <;> linarith
  · push_cast; rw [hn]; constructor <;> linarith
  · rw [hn]; constructor <;> linarith
  · push_cast; rw [hn]; constructor <;> linarith

theorem roundHalfEven_natCast (m : ℕ) : roundHalfEven (m : ℚ) = m := by
  unfold roundHalfEven
  have hfloor : (m : ℚ).floor.toNat = m := by
    have hint : (m : ℚ).floor = (m : ℤ) := by exact_mod_cast Rat.floor_intCast (m : ℤ)
    rw [hint, Int.toNat_natCast]
  simp [hfloor]

/-- The search for the decimal exponent finds the power of ten above a number, if it lies in the
range that is searched. -/
theorem decimalExponent_spec {q : ℚ} : ∀ (fuel : ℕ) (k : ℤ), pow10 (k - 1) ≤ q →
    q < pow10 (k + fuel) →
    pow10 (decimalExponent q fuel k - 1) ≤ q ∧ q < pow10 (decimalExponent q fuel k) := by
  intro fuel
  induction fuel with
  | zero =>
    intro k hlow hhigh
    rw [decimalExponent]
    exact ⟨hlow, by simpa using hhigh⟩
  | succ fuel ih =>
    intro k hlow hhigh
    rw [decimalExponent]
    split
    · rename_i hlt
      exact ⟨hlow, hlt⟩
    · rename_i hlt
      refine ih (k + 1) ?_ ?_
      · rw [add_sub_cancel_right]
        exact not_lt.1 hlt
      · rwa [add_assoc, add_comm 1 (fuel : ℤ)]

/-- The least unit is not below the first power of ten that is tried: `2 ^ 13 ≤ 10 ^ 4`. -/
theorem pow10_mul_denominator_le : pow10 (-330 - 1) * denominator ≤ 1 := by
  have hnat : 2 ^ 1074 ≤ 10 ^ 331 :=
    calc 2 ^ 1074 = (2 ^ 13) ^ 82 * 2 ^ 8 := by rw [← pow_mul, ← pow_add]
      _ ≤ (10 ^ 4) ^ 82 * 10 ^ 3 :=
        Nat.mul_le_mul (Nat.pow_le_pow_left (by norm_num) 82) (by norm_num)
      _ = 10 ^ 331 := by rw [← pow_mul, ← pow_add]
  have hpow : pow10 (-330 - 1) = 1 / 10 ^ 331 := by
    rw [pow10, if_neg (by norm_num)]
    rfl
  rw [hpow, denominator_eq, one_div_mul_eq_div, div_le_one (by positivity)]
  exact_mod_cast hnat

/-- The largest magnitude is below the last power of ten that is tried. -/
theorem le_pow10_mul_denominator :
    (2 : ℚ) ^ 53 * 2 ^ 2045 ≤ pow10 (-330 + (650 : ℕ)) * denominator := by
  have hnat : 2 ^ 1024 ≤ 10 ^ 320 :=
    calc 2 ^ 1024 = (2 ^ 13) ^ 78 * 2 ^ 10 := by rw [← pow_mul, ← pow_add]
      _ ≤ (10 ^ 4) ^ 78 * 10 ^ 8 :=
        Nat.mul_le_mul (Nat.pow_le_pow_left (by norm_num) 78) (by norm_num)
      _ = 10 ^ 320 := by rw [← pow_mul, ← pow_add]
  have hpow : pow10 (-330 + (650 : ℕ)) = 10 ^ 320 := by
    rw [pow10, if_pos (by norm_num)]
    rfl
  have hsplit : (2 : ℚ) ^ 53 * 2 ^ 2045 = 2 ^ 1024 * 2 ^ 1074 := by
    rw [← pow_add, ← pow_add]
  rw [hpow, denominator_eq, hsplit]
  exact mul_le_mul_of_nonneg_right (by exact_mod_cast hnat) (by positivity)

/-- The magnitudes of the non-zero numbers lie in the range that is searched. -/
theorem decimalExponent_magnitude {f : F64} (h : f.significand ≠ 0) :
    pow10 (decimalExponent f.magnitude 650 (-330) - 1) ≤ f.magnitude ∧
      f.magnitude < pow10 (decimalExponent f.magnitude 650 (-330)) := by
  have hunit : pow10 (-330 - 1) ≤ f.unit := by
    rw [unit_eq, le_div_iff₀ denominator_pos]
    exact pow10_mul_denominator_le.trans (one_le_pow₀ (by norm_num))
  have hscale : f.scale ≤ 2045 := by
    unfold scale
    have := f.exponent.isLt
    omega
  refine decimalExponent_spec 650 (-330) ?_ ?_
  · rw [magnitude_eq]
    have hsig : (1 : ℚ) ≤ f.significand := by
      exact_mod_cast Nat.one_le_iff_ne_zero.2 h
    nlinarith [f.unit_pos]
  · have hpow : (2 : ℚ) ^ f.scale ≤ 2 ^ 2045 := pow_le_pow_right₀ (by norm_num) hscale
    refine f.magnitude_lt.trans_le ?_
    rw [unit_eq, mul_div_assoc', div_le_iff₀ denominator_pos]
    exact (mul_le_mul_of_nonneg_left hpow (by positivity)).trans le_pow10_mul_denominator

/-- Every candidate of the search lies within half a unit of the number. -/
theorem shortestFrom_close {f : F64} {k : ℤ} (hk : pow10 (k - 1) ≤ f.magnitude) :
    ∀ fuel n, fuel + n = 17 →
      |((shortestFrom f k fuel n).1 : ℚ) * pow10 (shortestFrom f k fuel n).2 - f.magnitude|
        ≤ f.unit / 2 := by
  intro fuel
  induction fuel with
  | zero =>
    intro n hn
    -- seventeen digits: half a step of the decimal is less than half a unit
    have hstep : pow10 (k - n) ≤ f.unit := by
      have hsplit : pow10 (k - 1) = pow10 (k - n) * 10 ^ 16 := by
        have hexp : k - 1 = k - n + (16 : ℕ) := by omega
        rw [hexp, pow10_add, pow10_natCast]
      have hlt := f.magnitude_lt
      have hnum : (2 : ℚ) ^ 53 ≤ 10 ^ 16 := by norm_num
      nlinarith [f.unit_pos]
    have hpos := pow10_pos (k - n)
    have hquot : 0 ≤ f.magnitude / pow10 (k - n) := div_nonneg f.magnitude_nonneg hpos.le
    have hround := roundHalfEven_close hquot
    have heq : (roundHalfEven (f.magnitude / pow10 (k - n)) : ℚ) * pow10 (k - n) - f.magnitude
        = (roundHalfEven (f.magnitude / pow10 (k - n)) - f.magnitude / pow10 (k - n))
          * pow10 (k - n) := by
      field_simp
    simp only [shortestFrom]
    rw [heq, abs_mul, abs_of_pos hpos]
    nlinarith
  | succ fuel ih =>
    intro n hn
    simp only [shortestFrom]
    split
    · rename_i h
      exact roundsTo_close h
    · split
      · rename_i h
        exact roundsTo_close h
      · exact ih (n + 1) (by omega)

/-- An integer below `10 ^ k` is found by the time `k` digits are tried. -/
theorem shortestFrom_exponent_nonneg {f : F64} {m : ℕ} (hm : f.magnitude = m) (k : ℤ) :
    ∀ fuel (n : ℕ), (n : ℤ) ≤ k → 0 ≤ (shortestFrom f k fuel n).2 := by
  intro fuel
  induction fuel with
  | zero =>
    intro n hn
    simp only [shortestFrom]
    omega
  | succ fuel ih =>
    intro n hn
    simp only [shortestFrom]
    split
    · exact sub_nonneg.2 hn
    · rename_i hnear
      split
      · exact sub_nonneg.2 hn
      · -- with all its digits the integer itself is a candidate
        refine ih (n + 1) ?_
        rcases hn.lt_or_eq with hlt | heq
        · push_cast
          omega
        · refine absurd ?_ hnear
          have hone : pow10 (k - n) = 1 := by rw [heq, sub_self, pow10_eq_zpow, zpow_zero]
          rw [hone, div_one, mul_one, hm, roundHalfEven_natCast, ← hm]
          exact roundsTo_self f

theorem dropZeros_spec : ∀ (fuel d : ℕ) (p : ℤ),
    ((dropZeros fuel d p).1 : ℚ) * pow10 (dropZeros fuel d p).2 = d * pow10 p ∧
      p ≤ (dropZeros fuel d p).2 := by
  intro fuel
  induction fuel with
  | zero => intro d p; exact ⟨rfl, le_rfl⟩
  | succ fuel ih =>
    intro d p
    rw [dropZeros]
    split
    · rename_i hd
      obtain ⟨hvalue, hle⟩ := ih (d / 10) (p + 1)
      refine ⟨?_, by omega⟩
      have hten : pow10 1 = 10 := by rw [pow10_eq_zpow, zpow_one]
      have hdiv : (d : ℚ) = 10 * (d / 10 : ℕ) := by
        exact_mod_cast (Nat.mul_div_cancel' (Nat.dvd_of_mod_eq_zero hd)).symm
      rw [hvalue, pow10_add, hten, hdiv]
      ring
    · exact ⟨rfl, le_rfl⟩

/-! ## The shortest decimal -/

/-- The value of the shortest decimal. -/
def decimal (f : F64) : ℚ := f.shortest.1 * pow10 f.shortest.2

theorem decimal_eq (f : F64) : f.decimal =
    (shortestFrom f (decimalExponent f.magnitude 650 (-330)) 16 1).1
      * pow10 (shortestFrom f (decimalExponent f.magnitude 650 (-330)) 16 1).2 :=
  (dropZeros_spec 17 _ _).1

/-- **The shortest decimal lies within half a unit of the number.** -/
theorem shortest_close {f : F64} (h : f.significand ≠ 0) :
    |f.decimal - f.magnitude| ≤ f.unit / 2 := by
  rw [decimal_eq]
  exact shortestFrom_close (decimalExponent_magnitude h).1 16 1 rfl

theorem decimal_pos {f : F64} (h : f.significand ≠ 0) : 0 < f.decimal := by
  have hclose := (abs_le.1 (shortest_close h)).1
  have hsig : (1 : ℚ) ≤ f.significand := by exact_mod_cast Nat.one_le_iff_ne_zero.2 h
  have hunit := f.unit_pos
  have hmag := f.magnitude_eq
  nlinarith

theorem shortest_digits_pos {f : F64} (h : f.significand ≠ 0) : 0 < f.shortest.1 := by
  rcases Nat.eq_zero_or_pos f.shortest.1 with hzero | hpos
  · have hdecimal := decimal_pos h
    rw [decimal, hzero, Nat.cast_zero, zero_mul] at hdecimal
    exact absurd hdecimal (lt_irrefl 0)
  · exact hpos

/-- The place of the decimal point, counted from the first digit. -/
def point (f : F64) : ℤ := (Nat.toDigits 10 f.shortest.1).length + f.shortest.2

theorem point_spec {f : F64} (h : f.significand ≠ 0) :
    pow10 (f.point - 1) ≤ f.decimal ∧ f.decimal < pow10 f.point := by
  have hd := shortest_digits_pos h
  obtain ⟨n, hn⟩ : ∃ n, (Nat.toDigits 10 f.shortest.1).length = n + 1 :=
    ⟨_, (Nat.succ_pred_eq_of_pos Nat.length_toDigits_pos).symm⟩
  have hhigh : f.shortest.1 < 10 ^ (n + 1) :=
    (Nat.length_toDigits_le_iff (by norm_num) (Nat.succ_pos n)).1 hn.le
  have hlow : 10 ^ n ≤ f.shortest.1 := by
    rcases Nat.eq_zero_or_pos n with rfl | hpos
    · rwa [pow_zero]
    · by_contra hlt
      have := (Nat.length_toDigits_le_iff (by norm_num) hpos).2 (not_le.1 hlt)
      omega
  have hscale := pow10_pos f.shortest.2
  have hbefore : f.point - 1 = (n : ℤ) + f.shortest.2 := by
    unfold point
    rw [hn]
    push_cast
    ring
  have hpoint : f.point = ((n + 1 : ℕ) : ℤ) + f.shortest.2 := by
    unfold point
    rw [hn]
  constructor
  · rw [hbefore, pow10_add, pow10_natCast, decimal]
    exact mul_le_mul_of_nonneg_right (by exact_mod_cast hlow) hscale.le
  · rw [hpoint, pow10_add, pow10_natCast, decimal]
    exact mul_lt_mul_of_pos_right (by exact_mod_cast hhigh) hscale

theorem point_le_iff_decimal {f : F64} (h : f.significand ≠ 0) (j : ℤ) :
    f.point ≤ j ↔ f.decimal < pow10 j := by
  obtain ⟨hlow, hhigh⟩ := point_spec h
  constructor
  · intro hle
    exact hhigh.trans_le (pow10_le_pow10 hle)
  · intro hlt
    have := lt_of_pow10_lt (hlow.trans_lt hlt)
    omega

/-! ## Integers -/

/-- The number is an integer. -/
def IsInteger (f : F64) : Prop := ∃ n : ℕ, f.magnitude = n

/-- A number whose unit is not a fraction is an integer. -/
theorem isInteger_of_scale {f : F64} (h : 1074 ≤ f.scale) : f.IsInteger := by
  refine ⟨f.significand * 2 ^ (f.scale - 1074), ?_⟩
  have hpow : (2 : ℚ) ^ f.scale = 2 ^ (f.scale - 1074) * denominator := by
    unfold denominator
    rw [Nat.cast_pow, Nat.cast_ofNat, ← pow_add, Nat.sub_add_cancel h]
  rw [magnitude_eq, unit_eq, hpow, mul_div_assoc, div_self denominator_pos.ne', mul_one]
  push_cast
  rfl

/-- A number that is not an integer lies below `2 ^ 52`, with fractional units. -/
theorem unit_le_half {f : F64} (h : ¬ f.IsInteger) : f.unit ≤ 1 / 2 := by
  have hscale : f.scale + 1 ≤ 1074 := by
    by_contra hlt
    exact h (isInteger_of_scale (by omega))
  rw [unit_eq, div_le_iff₀ denominator_pos]
  have hpow : (2 : ℚ) ^ (f.scale + 1) ≤ denominator := by
    unfold denominator
    rw [Nat.cast_pow, Nat.cast_ofNat]
    exact pow_le_pow_right₀ (by norm_num) hscale
  rw [pow_succ] at hpow
  linarith

/-- An integer within half a unit of a number with fractional units is the number. -/
theorem eq_of_integer_close {f : F64} (h : f.unit ≤ 1) {n : ℕ}
    (hclose : |(n : ℚ) - f.magnitude| ≤ f.unit / 2) : f.magnitude = n := by
  -- in units, both are integers
  have hscale : f.scale ≤ 1074 := by
    by_contra hlt
    rw [unit_eq, div_le_iff₀ denominator_pos, one_mul] at h
    have hpow : (denominator : ℚ) < 2 ^ f.scale := by
      unfold denominator
      rw [Nat.cast_pow, Nat.cast_ofNat]
      exact pow_lt_pow_right₀ (by norm_num) (by omega)
    exact absurd h (not_le.2 hpow)
  have hone : (2 : ℚ) ^ (1074 - f.scale) * f.unit = 1 := by
    have hpow : (denominator : ℚ) = 2 ^ (1074 - f.scale) * 2 ^ f.scale := by
      unfold denominator
      rw [Nat.cast_pow, Nat.cast_ofNat, ← pow_add, Nat.sub_add_cancel hscale]
    rw [unit_eq, ← mul_div_assoc, ← hpow, div_self denominator_pos.ne']
  have hunit := f.unit_pos
  have hdiff : (n : ℚ) - f.magnitude
      = (n * 2 ^ (1074 - f.scale) - f.significand) * f.unit := by
    rw [sub_mul, mul_assoc, hone, mul_one, magnitude_eq]
  rw [hdiff, abs_mul, abs_of_pos hunit, div_eq_mul_inv, mul_comm f.unit] at hclose
  have hsmall := le_of_mul_le_mul_right hclose hunit
  have hcast : ((n * 2 ^ (1074 - f.scale) : ℕ) : ℤ) = f.significand := by
    have hint : |((n * 2 ^ (1074 - f.scale) : ℕ) : ℤ) - f.significand| < 1 := by
      have : |((n : ℚ) * 2 ^ (1074 - f.scale) - f.significand)| < 1 := by
        refine hsmall.trans_lt (by norm_num)
      exact_mod_cast this
    exact sub_eq_zero.1 (Int.abs_lt_one_iff.1 hint)
  have hsig : (f.significand : ℚ) = n * 2 ^ (1074 - f.scale) := by exact_mod_cast hcast.symm
  rw [magnitude_eq, hsig, mul_assoc, hone, mul_one]

theorem decimal_of_exponent_nonneg {f : F64} (h : 0 ≤ f.shortest.2) :
    f.decimal = ((f.shortest.1 * 10 ^ f.shortest.2.toNat : ℕ) : ℚ) := by
  unfold decimal
  conv_lhs => rw [← Int.toNat_of_nonneg h]
  rw [pow10_natCast]
  push_cast
  rfl

/-- **The shortest decimal is an integer exactly when the number is.** -/
theorem shortest_exponent_nonneg_iff {f : F64} (h : f.significand ≠ 0) :
    0 ≤ f.shortest.2 ↔ f.IsInteger := by
  constructor
  · intro hexp
    by_contra hint
    have hunit := unit_le_half hint
    have hclose := shortest_close h
    rw [decimal_of_exponent_nonneg hexp] at hclose
    exact hint ⟨_, eq_of_integer_close (by linarith) hclose⟩
  · rintro ⟨m, hm⟩
    have hspec := decimalExponent_magnitude h
    have hpos : 0 < decimalExponent f.magnitude 650 (-330) := by
      refine lt_of_pow10_lt (lt_of_le_of_lt ?_ hspec.2)
      have hm1 : 1 ≤ m := by
        rcases Nat.eq_zero_or_pos m with rfl | hpos
        · rw [Nat.cast_zero, magnitude_eq] at hm
          have := mul_pos (Nat.cast_pos.2 (Nat.pos_of_ne_zero h)) f.unit_pos
          rw [hm] at this
          exact absurd this (lt_irrefl 0)
        · exact hpos
      rw [pow10_eq_zpow, zpow_zero, hm]
      exact_mod_cast hm1
    have hfrom := shortestFrom_exponent_nonneg hm _ 16 1 hpos
    exact hfrom.trans (dropZeros_spec 17 _ _).2

theorem point_le_of_not_isInteger {f : F64} (h : f.significand ≠ 0) (hint : ¬ f.IsInteger) :
    f.point ≤ 16 := by
  rw [point_le_iff_decimal h]
  have hunit := unit_le_half hint
  have hpos := f.unit_pos
  have hclose := (abs_le.1 (shortest_close h)).2
  have hmag := f.magnitude_lt
  have hten : pow10 16 = 10 ^ 16 := pow10_natCast 16
  rw [hten]
  nlinarith

/-! ## Comparison with a power of ten -/

/-- `c` is the number nearest to `10 ^ j`, and is printed as that power. -/
structure PowerOfTen (c : F64) (j : ℤ) : Prop where
  above : 2 ^ 52 < c.significand
  below : c.significand + 1 < 2 ^ 53
  nearest : |pow10 j - c.magnitude| < c.unit / 2
  point : c.point = j + 1

instance (c : F64) (j : ℤ) : Decidable (PowerOfTen c j) :=
  decidable_of_iff
    (2 ^ 52 < c.significand ∧ c.significand + 1 < 2 ^ 53 ∧
      |pow10 j - c.magnitude| < c.unit / 2 ∧ c.point = j + 1)
    ⟨fun h => ⟨h.1, h.2.1, h.2.2.1, h.2.2.2⟩, fun h => ⟨h.above, h.below, h.nearest, h.point⟩⟩

theorem unit_of_scale_lt {f g : F64} (h : f.scale < g.scale) : 2 * f.unit ≤ g.unit := by
  rw [unit_eq, unit_eq, ← mul_div_assoc, ← pow_succ']
  refine div_le_div_of_nonneg_right ?_ denominator_pos.le
  exact pow_le_pow_right₀ (by norm_num) h

theorem significand_ge_of_scale_pos {f : F64} (h : 0 < f.scale) : 2 ^ 52 ≤ f.significand := by
  unfold scale at h
  unfold significand
  rw [if_neg (by omega)]
  omega

/-- Numbers of one scale and significand differ in their signs only. -/
theorem eq_of_scale_of_significand {f c : F64} (hc : 2 ^ 52 < c.significand)
    (hscale : f.scale = c.scale) (hsig : f.significand = c.significand) :
    f = { c with negative := f.negative } := by
  obtain ⟨nf, ef, ff⟩ := f
  obtain ⟨nc, ec, fc⟩ := c
  simp only [significand, scale] at hc hscale hsig
  have hff := ff.isLt
  have hfc := fc.isLt
  have hexp : ef.val = ec.val := by
    split at hsig <;> split at hsig <;> split at hc <;> omega
  have hfrac : ff.val = fc.val := by
    split at hsig <;> split at hsig <;> split at hc <;> omega
  rw [Fin.ext hexp, Fin.ext hfrac]

/-- The search for digits does not read the sign. -/
theorem shortestFrom_sign (f : F64) (b : Bool) (k : ℤ) (fuel n : ℕ) :
    shortestFrom { f with negative := b } k fuel n = shortestFrom f k fuel n := by
  induction fuel generalizing n with
  | zero => rfl
  | succ fuel ih =>
    rw [shortestFrom, shortestFrom, ih]
    rfl

theorem magnitude_sign (f : F64) (b : Bool) :
    F64.magnitude { f with negative := b } = f.magnitude := rfl

theorem shortest_sign (f : F64) (b : Bool) :
    F64.shortest { f with negative := b } = f.shortest := by
  rw [shortest, shortest, shortestFrom_sign, magnitude_sign]

/-- The decimal point does not depend on the sign. -/
theorem point_sign (f : F64) (b : Bool) : F64.point { f with negative := b } = f.point := by
  rw [point, point, shortest_sign]

/-- Zero lies below every power of ten. -/
theorem PowerOfTen.magnitude_lt_of_zero {c f : F64} {j : ℤ} (hc : PowerOfTen c j)
    (h : f.significand = 0) : f.magnitude < c.magnitude := by
  have hsig : (0 : ℚ) < c.significand := Nat.cast_pos.2 ((Nat.two_pow_pos 52).trans hc.above)
  rw [f.magnitude_eq, c.magnitude_eq, h, Nat.cast_zero, zero_mul]
  exact mul_pos hsig c.unit_pos

/-- **The decimal point, by a comparison**: it stands no later than `10 ^ j` demands exactly
below the number nearest to that power. -/
theorem PowerOfTen.point_le_iff {c f : F64} {j : ℤ} (hc : PowerOfTen c j) (h : f.significand ≠ 0) :
    f.point ≤ j ↔ f.magnitude < c.magnitude := by
  obtain ⟨hlow, hhigh⟩ := abs_lt.1 hc.nearest
  obtain ⟨hclose₁, hclose₂⟩ := abs_le.1 (shortest_close h)
  have hu := c.unit_pos
  have huf := f.unit_pos
  have hmc := c.magnitude_eq
  have hmf := f.magnitude_eq
  have habove : (2 : ℚ) ^ 52 + 1 ≤ c.significand := by exact_mod_cast hc.above
  have hbelow : (c.significand : ℚ) + 2 ≤ 2 ^ 53 := by exact_mod_cast hc.below
  have hcAbove := mul_le_mul_of_nonneg_right habove hu.le
  have hcBelow := mul_le_mul_of_nonneg_right hbelow hu.le
  rcases lt_trichotomy f.scale c.scale with hscale | hscale | hscale
  · -- the units of `f` are finer: it lies below
    have hunit := unit_of_scale_lt hscale
    have hsig : (f.significand : ℚ) + 1 ≤ 2 ^ 53 := by exact_mod_cast f.significand_lt
    have hf := mul_le_mul_of_nonneg_right hsig huf.le
    rw [point_le_iff_decimal h]
    refine iff_of_true ?_ ?_ <;> linarith
  · have hunit : f.unit = c.unit := by rw [unit_eq, unit_eq, hscale]
    rw [hunit] at hmf hclose₁ hclose₂
    rcases lt_trichotomy f.significand c.significand with hsig | hsig | hsig
    · have hcast : (f.significand : ℚ) + 1 ≤ c.significand := by exact_mod_cast hsig
      have hf := mul_le_mul_of_nonneg_right hcast hu.le
      rw [point_le_iff_decimal h]
      refine iff_of_true ?_ ?_ <;> linarith
    · -- the same number up to its sign
      have heq := eq_of_scale_of_significand hc.above hscale hsig
      refine iff_of_false ?_ ?_
      · rw [heq, point_sign, hc.point]
        omega
      · rw [hmf, hmc, hsig]
        exact lt_irrefl _
    · have hcast : (c.significand : ℚ) + 1 ≤ f.significand := by exact_mod_cast hsig
      have hf := mul_le_mul_of_nonneg_right hcast hu.le
      rw [point_le_iff_decimal h]
      refine iff_of_false (not_lt.2 ?_) (not_lt.2 ?_) <;> linarith
  · -- the units of `f` are coarser: it lies above
    have hunit := unit_of_scale_lt hscale
    have hsig : (2 : ℚ) ^ 52 ≤ f.significand := by
      exact_mod_cast significand_ge_of_scale_pos (by omega)
    have hf := mul_le_mul_of_nonneg_right hsig huf.le
    rw [point_le_iff_decimal h]
    refine iff_of_false (not_lt.2 ?_) (not_lt.2 ?_) <;> linarith

end F64
