import Mathlib.Data.Rat.Lemmas
import Mathlib.Algebra.Order.Ring.Rat
import Mathlib.Tactic.Positivity
import Mathlib.Tactic.FieldSimp

/-!
# Finite binary64 numbers, read as exact rationals

A finite `f64` is its three bit fields (`F64`), so that an infinity or a NaN
cannot be built and `-0.0` stays different from `0.0`.  Comparisons and sums are
made on its exact value `F64.toRat`; `F64.toBits` is the bit pattern that a
digest reads.

`F64.display` is the text that Rust's `Display` gives: the shortest decimal that
lies in the rounding interval of the number, without an exponent.
-/

/-- A finite binary64 number: sign, biased exponent (2047 is excluded) and
fraction field. -/
structure F64 where
  negative : Bool
  exponent : Fin 2047
  fraction : Fin (2 ^ 52)
  deriving DecidableEq, Repr

namespace F64

/-- The integral significand, with the implicit leading bit of a normal number. -/
def significand (f : F64) : ℕ :=
  if f.exponent.val = 0 then f.fraction.val else f.fraction.val + 2 ^ 52

/-- The power of two, shifted by 1074, that the significand is scaled by. -/
def scale (f : F64) : ℕ := f.exponent.val - 1

/-- Every finite number is an integral multiple of one over this. -/
def denominator : ℕ := 2 ^ 1074

/-- The magnitude, as an exact rational. -/
def magnitude (f : F64) : ℚ := mkRat (f.significand * 2 ^ f.scale) denominator

/-- The exact value. -/
def toRat (f : F64) : ℚ := if f.negative then -f.magnitude else f.magnitude

/-- The 64-bit pattern, sign bit first. -/
def toBits (f : F64) : UInt64 :=
  UInt64.ofNat ((if f.negative then 2 ^ 63 else 0) + f.exponent.val * 2 ^ 52 + f.fraction.val)

/-- The sign, the exponent and the fraction have bits of their own. -/
theorem toBits_injective : Function.Injective toBits := by
  intro f g h
  obtain ⟨s, e, m⟩ := f
  obtain ⟨s', e', m'⟩ := g
  have hnat := congrArg UInt64.toNat h
  simp only [toBits, UInt64.toNat_ofNat'] at hnat
  have he := e.isLt
  have he' := e'.isLt
  have hm := m.isLt
  have hm' := m'.isLt
  cases s <;> cases s' <;> simp only [Bool.false_eq_true, if_false, if_true] at hnat
  · have hparts : e.val = e'.val ∧ m.val = m'.val := by omega
    rw [Fin.ext hparts.1, Fin.ext hparts.2]
  · omega
  · omega
  · have hparts : e.val = e'.val ∧ m.val = m'.val := by omega
    rw [Fin.ext hparts.1, Fin.ext hparts.2]

/-- The number with the opposite sign bit. -/
def neg (f : F64) : F64 := { f with negative := !f.negative }

/-- Positive zero. -/
def zero : F64 := ⟨false, 0, 0⟩

/-- The float 1. -/
def one : F64 := ⟨false, 1023, 0⟩

/-- The float 2. -/
def two : F64 := ⟨false, 1024, 0⟩

/-- The float 0.25. -/
def quarter : F64 := ⟨false, 1021, 0⟩

/-- The float 4. -/
def four : F64 := ⟨false, 1025, 0⟩

/-- The float 1000000. -/
def million : F64 := ⟨false, 1042, 4086334964629504⟩

/-- The number nearest to `0.3`. -/
def threeTenths : F64 := ⟨false, 1021, 900719925474099⟩

/-- The float 0.75. -/
def threeQuarters : F64 := ⟨false, 1022, 2251799813685248⟩

/-- The number nearest to `0.000001`, a little below it. -/
def millionth : F64 := ⟨false, 1003, 218766855499149⟩

/-- The number nearest to `0.00001`. -/
def hundredThousandth : F64 := ⟨false, 1006, 1399358476216561⟩

/-- `1e16`. -/
def tenQuadrillion : F64 := ⟨false, 1076, 496400372629504⟩

/-- `1e21`. -/
def sextillion : F64 := ⟨false, 1092, 3125794903879504⟩

/-- The largest finite number. -/
def largest : F64 := ⟨false, 2046, 4503599627370495⟩

instance : Inhabited F64 := ⟨zero⟩

theorem magnitude_nonneg (f : F64) : 0 ≤ f.magnitude := by
  rw [magnitude, Rat.mkRat_eq_div]
  positivity

@[simp] theorem toRat_neg (f : F64) : f.neg.toRat = -f.toRat := by
  unfold toRat neg
  have hmag : magnitude { f with negative := !f.negative } = f.magnitude := rfl
  rw [hmag]
  cases f.negative <;> simp

@[simp] theorem toRat_zero : zero.toRat = 0 := by
  have hsig : zero.significand = 0 := rfl
  have hmag : zero.magnitude = 0 := by simp [magnitude, hsig]
  simp [toRat, hmag]

theorem denominator_eq : (denominator : ℚ) = 2 ^ 1074 := by
  rw [denominator, Nat.cast_pow, Nat.cast_ofNat]

/-- The value of a power of two. -/
theorem toRat_of_power {f : F64} {k : ℕ} (hneg : f.negative = false)
    (hsig : f.significand = 2 ^ 52) (hscale : f.scale = 1022 + k) : f.toRat = 2 ^ k := by
  have hnum : (2 : ℚ) ^ 52 * 2 ^ (1022 + k) = 2 ^ k * 2 ^ 1074 := by
    rw [← pow_add, ← pow_add]
    congr 1
    omega
  rw [toRat, hneg, if_neg Bool.false_ne_true, magnitude, Rat.mkRat_eq_div, denominator_eq,
    hsig, hscale, Int.cast_mul, Int.cast_natCast, Nat.cast_pow, Nat.cast_ofNat, Int.cast_pow,
    Int.cast_ofNat, hnum, mul_div_assoc, div_self (pow_ne_zero _ two_ne_zero), mul_one]

@[simp] theorem toRat_one : one.toRat = 1 := by
  rw [toRat_of_power (k := 0) rfl rfl rfl, pow_zero]

@[simp] theorem toRat_two : two.toRat = 2 := by
  rw [toRat_of_power (k := 1) rfl rfl rfl, pow_one]

theorem toRat_one_le_two : one.toRat ≤ two.toRat := by
  rw [toRat_one, toRat_two]
  exact one_le_two

/-- The number with a cleared sign bit. -/
def abs (f : F64) : F64 := { f with negative := false }

theorem abs_toRat (f : F64) : |f.toRat| = f.magnitude := by
  rw [toRat]
  split
  · rw [abs_neg, abs_of_nonneg f.magnitude_nonneg]
  · rw [abs_of_nonneg f.magnitude_nonneg]

theorem toRat_abs (f : F64) : f.abs.toRat = |f.toRat| := by
  have hmag : f.abs.magnitude = f.magnitude := rfl
  rw [abs_toRat, toRat, hmag, if_neg]
  exact Bool.false_ne_true

theorem toRat_largest : largest.toRat = largest.magnitude := by
  rw [toRat, if_neg]
  exact Bool.false_ne_true

/-- No magnitude exceeds that of the largest number. -/
theorem magnitude_le_largest (f : F64) : f.magnitude ≤ largest.magnitude := by
  have hsignificand : f.significand ≤ largest.significand := by
    have hfraction := f.fraction.isLt
    have hlargest : largest.significand = 2 ^ 53 - 1 := by decide
    unfold significand at hlargest ⊢
    split <;> omega
  have hscale : f.scale ≤ largest.scale := by
    have hexponent := f.exponent.isLt
    unfold scale
    exact Nat.sub_le_sub_right (Nat.le_of_lt_succ hexponent) 1
  have hnat : f.significand * 2 ^ f.scale ≤ largest.significand * 2 ^ largest.scale :=
    Nat.mul_le_mul hsignificand (Nat.pow_le_pow_right (by decide) hscale)
  rw [magnitude, magnitude, Rat.mkRat_eq_div, Rat.mkRat_eq_div]
  refine div_le_div_of_nonneg_right ?_ (Nat.cast_nonneg _)
  exact_mod_cast hnat

theorem abs_toRat_le_largest (f : F64) : |f.toRat| ≤ largest.toRat := by
  rw [abs_toRat, toRat_largest]
  exact f.magnitude_le_largest

-- the lemmas above are all that is needed of the value, which is costly to unfold
attribute [irreducible] toRat

/-! ## The shortest decimal text -/

/-- The nearest integer to a non-negative rational, ties to even. -/
def roundHalfEven (q : ℚ) : ℕ :=
  let n := q.floor.toNat
  let r := q - n
  if r < 1 / 2 then n else if 1 / 2 < r then n + 1 else if n % 2 = 0 then n else n + 1

/-- The number nearest to a natural number below `2 ^ 64`, ties to even. -/
def ofNat (n : ℕ) : F64 :=
  if n = 0 then zero
  else if n.log2 ≤ 52 then
    ⟨false, Fin.ofNat 2047 (1023 + n.log2), Fin.ofNat (2 ^ 52) (n * 2 ^ (52 - n.log2) - 2 ^ 52)⟩
  else
    let q := roundHalfEven ((n : ℚ) / 2 ^ (n.log2 - 52))
    if q = 2 ^ 53 then ⟨false, Fin.ofNat 2047 (1024 + n.log2), 0⟩
    else ⟨false, Fin.ofNat 2047 (1023 + n.log2), Fin.ofNat (2 ^ 52) (q - 2 ^ 52)⟩

/-- `10 ^ p` for an integer exponent. -/
def pow10 (p : ℤ) : ℚ := if 0 ≤ p then (10 : ℚ) ^ p.toNat else 1 / (10 : ℚ) ^ (-p).toNat

/-- Does a decimal round to `f`?  The interval is closed when the significand is
even, and its lower half is shorter at a power of two. -/
def roundsTo (f : F64) (d : ℚ) : Bool :=
  let unit : ℚ := mkRat (2 ^ f.scale) denominator
  let low := f.magnitude - (if f.fraction.val = 0 ∧ 1 < f.exponent.val then unit / 4 else unit / 2)
  let high := f.magnitude + unit / 2
  if f.significand % 2 = 0 then decide (low ≤ d ∧ d ≤ high) else decide (low < d ∧ d < high)

/-- The least `k` with `q < 10 ^ k`, searched upwards from `-330`. -/
def decimalExponent (q : ℚ) : ℕ → ℤ → ℤ
  | 0, k => k
  | fuel + 1, k => if q < pow10 k then k else decimalExponent q fuel (k + 1)

/-- The shortest digits `d` and exponent `p` with `d * 10 ^ p` rounding to `f`,
trying one digit more each time; seventeen always suffice.  Of two candidates of one
length the nearer is taken, and the one above where only that rounds to `f`. -/
def shortestFrom (f : F64) (k : ℤ) : ℕ → ℕ → ℕ × ℤ
  | 0, n => (roundHalfEven (f.magnitude / pow10 (k - n)), k - n)
  | fuel + 1, n =>
      let p := k - n
      let d := roundHalfEven (f.magnitude / pow10 p)
      let up := (f.magnitude / pow10 p).floor.toNat + 1
      if roundsTo f (d * pow10 p) then (d, p)
      else if roundsTo f (up * pow10 p) then (up, p)
      else shortestFrom f k fuel (n + 1)

/-- Drop up to `fuel` trailing zeros of `d * 10 ^ p`. -/
def dropZeros : ℕ → ℕ → ℤ → ℕ × ℤ
  | 0, d, p => (d, p)
  | fuel + 1, d, p => if d % 10 = 0 then dropZeros fuel (d / 10) (p + 1) else (d, p)

/-- The shortest decimal of the magnitude: digits without trailing zeros, and an exponent. -/
def shortest (f : F64) : ℕ × ℤ :=
  let (d, p) := shortestFrom f (decimalExponent f.magnitude 650 (-330)) 16 1
  dropZeros 17 d p

/-- Digits `d` scaled by `10 ^ p`, in positional notation. -/
def positional (d : ℕ) (p : ℤ) : List Char :=
  let digits := Nat.toDigits 10 d
  if 0 ≤ p then digits ++ List.replicate p.toNat '0'
  else
    let places := (-p).toNat
    let padded := List.replicate (places + 1 - digits.length) '0' ++ digits
    padded.take (padded.length - places) ++ '.' :: padded.drop (padded.length - places)

/-- The text of `format!("{f}")`. -/
def display (f : F64) : String :=
  let body :=
    if f.significand = 0 then ['0']
    else positional f.shortest.1 f.shortest.2
  String.ofList (if f.negative then '-' :: body else body)

/-- The shortest digits, after the zeros of a small exponent. -/
example : millionth.display = "0.000001" := by decide +kernel

end F64
