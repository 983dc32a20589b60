import IrlEngine.Lib.Decimal
import IrlEngine.Lib.Json

/-!
# Three layouts of the shortest decimal

The texts that `serde_json`, ECMAScript and Python make of a float.  All three print the
digits of `F64.shortest`; they differ in where positional notation ends, in the text of an
integer and in the text of an exponent.

* `F64.serdeText_eq_ecmaText_iff` — `serde_json` writes the ECMAScript text of the numbers in
  `F64.EcmaForm` only: not of integers, and not of those from `1e-6` to `1e-5`;
* `F64.serdeText_eq_pythonText_iff` — for integral floats the Python text is also that of
  `serde_json`, up to the sign of an exponent.
-/

namespace F64

/-! ## Layouts -/

/-- The digits with a point after the first, and an exponent. -/
def scientific (d : ℕ) (exponent : List Char) : List Char :=
  match Nat.toDigits 10 d with
  | [] => []
  | c :: cs => c :: ((if cs = [] then [] else '.' :: cs) ++ 'e' :: exponent)

/-- An exponent; `plus` is written before one that is not negative. -/
def exponentText (plus : List Char) (e : ℤ) : List Char :=
  (if e < 0 then ['-'] else plus) ++ Nat.toDigits 10 e.natAbs

/-- An exponent with its sign and at least two digits. -/
def paddedExponent (e : ℤ) : List Char :=
  (if e < 0 then '-' else '+') :: List.replicate (2 - (Nat.toDigits 10 e.natAbs).length) '0'
    ++ Nat.toDigits 10 e.natAbs

/-- A text with the sign of its number. -/
def signed (negative : Bool) (body : List Char) : List Char :=
  if negative then '-' :: body else body

/-- The positional text of a float: an integer is followed by `.0`. -/
def floatPositional (f : F64) : List Char :=
  positional f.shortest.1 f.shortest.2 ++ if 0 ≤ f.shortest.2 then ['.', '0'] else []

/-- The text of `serde_json`.  What it writes before a non-negative exponent depends on the
printer it is built with: nothing (`ryu`, `1e16`) or a plus sign (`zmij`, `1e+16`). -/
def serdeText (plus : List Char) (f : F64) : List Char :=
  signed f.negative
    (if f.significand = 0 then ['0', '.', '0']
    else if -5 < f.point ∧ f.point ≤ 16 then f.floatPositional
    else scientific f.shortest.1 (exponentText plus (f.point - 1)))

/-- `Number::toString` of ECMAScript, which JCS prescribes; both zeros are `0`. -/
def ecmaText (f : F64) : List Char :=
  if f.significand = 0 then ['0']
  else signed f.negative
    (if -6 < f.point ∧ f.point ≤ 21 then positional f.shortest.1 f.shortest.2
    else scientific f.shortest.1 (exponentText ['+'] (f.point - 1)))

/-- `float.__repr__` of Python. -/
def pythonText (f : F64) : List Char :=
  signed f.negative
    (if f.significand = 0 then ['0', '.', '0']
    else if -4 < f.point ∧ f.point ≤ 16 then f.floatPositional
    else scientific f.shortest.1 (paddedExponent (f.point - 1)))

/-! ## Characters -/

theorem mem_positional {d : ℕ} {p : ℤ} {c : Char} (h : c ∈ positional d p) :
    c.isDigit = true ∨ c = '.' := by
  have hzero : ('0' : Char).isDigit = true := by decide
  unfold positional at h
  dsimp only at h
  split at h
  · rcases List.mem_append.1 h with h | h
    · exact Or.inl (isDigit_of_mem_toDigits h)
    · rw [List.eq_of_mem_replicate h]
      exact Or.inl hzero
  · have hpadded : ∀ n, c ∈ List.replicate n '0' ++ Nat.toDigits 10 d → c.isDigit = true := by
      intro n hc
      rcases List.mem_append.1 hc with hc | hc
      · rw [List.eq_of_mem_replicate hc]
        exact hzero
      · exact isDigit_of_mem_toDigits hc
    rcases List.mem_append.1 h with h | h
    · exact Or.inl (hpadded _ (List.mem_of_mem_take h))
    · rcases List.mem_cons.1 h with h | h
      · exact Or.inr h
      · exact Or.inl (hpadded _ (List.mem_of_mem_drop h))

/-- Rust's `Display` writes digits, a point and a sign. -/
theorem mem_display {f : F64} {c : Char} (h : c ∈ f.display.toList) :
    c.isDigit = true ∨ c = '.' ∨ c = '-' := by
  have hbody : ∀ {c : Char}, c ∈ (if f.significand = 0 then ['0']
      else positional f.shortest.1 f.shortest.2) → c.isDigit = true ∨ c = '.' ∨ c = '-' := by
    intro c hc
    split at hc
    · rw [List.mem_singleton.1 hc]
      exact Or.inl (by decide)
    · exact (mem_positional hc).imp id Or.inl
  unfold display at h
  dsimp only at h
  rw [String.toList_ofList] at h
  split at h
  · rcases List.mem_cons.1 h with h | h
    · exact Or.inr (Or.inr h)
    · exact hbody h
  · exact hbody h

theorem e_not_mem_positional (d : ℕ) (p : ℤ) : 'e' ∉ positional d p := by
  intro h
  rcases mem_positional h with h | h
  · exact absurd h (by decide)
  · exact absurd h (by decide)

theorem scientific_eq (d : ℕ) : ∃ c cs, Nat.toDigits 10 d = c :: cs ∧ ∀ exponent,
    scientific d exponent = c :: ((if cs = [] then [] else '.' :: cs) ++ 'e' :: exponent) := by
  cases hd : Nat.toDigits 10 d with
  | nil => exact absurd hd Nat.toDigits_ne_nil
  | cons c cs =>
    refine ⟨c, cs, rfl, fun exponent => ?_⟩
    unfold scientific
    rw [hd]

theorem e_mem_scientific (d : ℕ) (exponent : List Char) : 'e' ∈ scientific d exponent := by
  obtain ⟨c, cs, -, heq⟩ := scientific_eq d
  rw [heq]
  simp

/-- Only the exponent tells two texts in scientific notation of the same digits apart. -/
theorem scientific_inj {d : ℕ} {x y : List Char} : scientific d x = scientific d y ↔ x = y := by
  obtain ⟨c, cs, -, heq⟩ := scientific_eq d
  rw [heq, heq]
  simp

/-! All three texts are made of number characters. -/

theorem numberChar_of_isDigit {c : Char} (h : c.isDigit = true) : numberChar c = true := by
  simp [numberChar, h]

theorem numberChar_of_mem_positional {d : ℕ} {p : ℤ} {c : Char} (h : c ∈ positional d p) :
    numberChar c = true := by
  rcases mem_positional h with h | rfl
  · exact numberChar_of_isDigit h
  · decide

theorem numberChar_of_mem_scientific {d : ℕ} {exponent : List Char}
    (hexp : ∀ c ∈ exponent, numberChar c = true) {c : Char} (h : c ∈ scientific d exponent) :
    numberChar c = true := by
  obtain ⟨a, cs, hd, heq⟩ := scientific_eq d
  have hdigit : ∀ c ∈ a :: cs, numberChar c = true := by
    intro c hc
    rw [← hd] at hc
    exact numberChar_of_isDigit (isDigit_of_mem_toDigits hc)
  rw [heq] at h
  rcases List.mem_cons.1 h with h | h
  · exact hdigit c (by simp [h])
  · rcases List.mem_append.1 h with h | h
    · split at h
      · exact absurd h (by simp)
      · rcases List.mem_cons.1 h with rfl | h
        · decide
        · exact hdigit c (by simp [h])
    · rcases List.mem_cons.1 h with rfl | h
      · decide
      · exact hexp c h

theorem numberChar_of_mem_exponentText {plus : List Char} (hplus : ∀ c ∈ plus, numberChar c = true)
    {e : ℤ} {c : Char} (h : c ∈ exponentText plus e) : numberChar c = true := by
  unfold exponentText at h
  rcases List.mem_append.1 h with h | h
  · split at h
    · rw [List.mem_singleton.1 h]
      decide
    · exact hplus c h
  · exact numberChar_of_isDigit (isDigit_of_mem_toDigits h)

theorem numberChar_of_mem_paddedExponent {e : ℤ} {c : Char} (h : c ∈ paddedExponent e) :
    numberChar c = true := by
  unfold paddedExponent at h
  rcases List.mem_append.1 h with h | h
  · rcases List.mem_cons.1 h with h | h
    · rw [h]
      split <;> decide
    · rw [List.eq_of_mem_replicate h]
      decide
  · exact numberChar_of_isDigit (isDigit_of_mem_toDigits h)

theorem numberChar_of_mem_floatPositional {f : F64} {c : Char} (h : c ∈ f.floatPositional) :
    numberChar c = true := by
  unfold floatPositional at h
  rcases List.mem_append.1 h with h | h
  · exact numberChar_of_mem_positional h
  · split at h
    · rcases List.mem_pair.1 h with rfl | rfl <;> decide
    · exact absurd h (by simp)

theorem numberChar_of_mem_signed {b : Bool} {body : List Char}
    (hbody : ∀ c ∈ body, numberChar c = true) {c : Char} (h : c ∈ signed b body) :
    numberChar c = true := by
  unfold signed at h
  split at h
  · rcases List.mem_cons.1 h with rfl | h
    · decide
    · exact hbody c h
  · exact hbody c h

theorem numberChar_of_mem_zero {c : Char} (h : c ∈ ['0', '.', '0']) : numberChar c = true := by
  have hall : ['0', '.', '0'].all numberChar = true := by decide
  exact List.all_eq_true.1 hall c h

theorem numberChar_of_mem_plus {c : Char} (h : c ∈ ['+']) : numberChar c = true := by
  rw [List.mem_singleton.1 h]
  decide

theorem numberChar_of_mem_serdeText {plus : List Char} (hplus : ∀ c ∈ plus, numberChar c = true)
    {f : F64} {c : Char} (h : c ∈ serdeText plus f) : numberChar c = true := by
  refine numberChar_of_mem_signed (fun d hd => ?_) h
  split_ifs at hd
  · exact numberChar_of_mem_zero hd
  · exact numberChar_of_mem_floatPositional hd
  · exact numberChar_of_mem_scientific (fun e he => numberChar_of_mem_exponentText hplus he) hd

theorem numberChar_of_mem_pythonText {f : F64} {c : Char} (h : c ∈ pythonText f) :
    numberChar c = true := by
  refine numberChar_of_mem_signed (fun d hd => ?_) h
  split_ifs at hd
  · exact numberChar_of_mem_zero hd
  · exact numberChar_of_mem_floatPositional hd
  · exact numberChar_of_mem_scientific (fun e he => numberChar_of_mem_paddedExponent he) hd

theorem numberChar_of_mem_ecmaText {f : F64} {c : Char} (h : c ∈ ecmaText f) :
    numberChar c = true := by
  unfold ecmaText at h
  split at h
  · rw [List.mem_singleton.1 h]
    decide
  · refine numberChar_of_mem_signed (fun d hd => ?_) h
    split_ifs at hd
    · exact numberChar_of_mem_positional hd
    · refine numberChar_of_mem_scientific (fun e he => ?_) hd
      exact numberChar_of_mem_exponentText (fun c hc => numberChar_of_mem_plus hc) he

theorem positional_ne_nil (d : ℕ) (p : ℤ) : positional d p ≠ [] := by
  unfold positional
  dsimp only
  split
  · exact List.append_ne_nil_of_left_ne_nil Nat.toDigits_ne_nil _
  · simp

theorem signed_ne_nil {b : Bool} {body : List Char} (h : body ≠ []) : signed b body ≠ [] := by
  unfold signed
  split
  · simp
  · exact h

theorem scientific_ne_nil (d : ℕ) (exponent : List Char) : scientific d exponent ≠ [] :=
  List.ne_nil_of_mem (e_mem_scientific d exponent)

theorem floatPositional_ne_nil (f : F64) : f.floatPositional ≠ [] :=
  List.append_ne_nil_of_left_ne_nil (positional_ne_nil _ _) _

theorem serdeText_ne_nil (plus : List Char) (f : F64) : serdeText plus f ≠ [] := by
  refine signed_ne_nil ?_
  split_ifs
  · simp
  · exact f.floatPositional_ne_nil
  · exact scientific_ne_nil _ _

theorem pythonText_ne_nil (f : F64) : pythonText f ≠ [] := by
  refine signed_ne_nil ?_
  split_ifs
  · simp
  · exact f.floatPositional_ne_nil
  · exact scientific_ne_nil _ _

theorem ecmaText_ne_nil (f : F64) : ecmaText f ≠ [] := by
  unfold ecmaText
  split
  · simp
  · refine signed_ne_nil ?_
    split_ifs
    · exact positional_ne_nil _ _
    · exact scientific_ne_nil _ _

theorem signed_inj {b : Bool} {x y : List Char} : signed b x = signed b y ↔ x = y := by
  cases b <;> simp [signed]

/-! ## `serde_json` and ECMAScript -/

/-- The powers of ten at which the layouts change. -/
theorem powerOfTen_thresholds :
    (PowerOfTen millionth (-6) ∧ PowerOfTen hundredThousandth (-5)) ∧
      PowerOfTen tenQuadrillion 16 ∧ PowerOfTen sextillion 21 := by
  decide +kernel

theorem powerOfTen_millionth : PowerOfTen millionth (-6) := powerOfTen_thresholds.1.1

theorem powerOfTen_hundredThousandth : PowerOfTen hundredThousandth (-5) :=
  powerOfTen_thresholds.1.2

theorem powerOfTen_tenQuadrillion : PowerOfTen tenQuadrillion 16 := powerOfTen_thresholds.2.1

theorem powerOfTen_sextillion : PowerOfTen sextillion 21 := powerOfTen_thresholds.2.2

/-- The floats that `serde_json` writes as ECMAScript does: those with a fraction, unless they
lie between `1e-6` and `1e-5`, and those from `1e21` on when exponents are signed. -/
def EcmaForm (plus : List Char) (f : F64) : Prop :=
  (¬ f.IsInteger ∧
    (f.magnitude < millionth.magnitude ∨ hundredThousandth.magnitude ≤ f.magnitude)) ∨
  (sextillion.magnitude ≤ f.magnitude ∧ plus = ['+'])

theorem exponentText_eq_iff {plus : List Char} {e : ℤ} (he : 0 ≤ e) :
    exponentText plus e = exponentText ['+'] e ↔ plus = ['+'] := by
  unfold exponentText
  rw [if_neg (not_lt.2 he), if_neg (not_lt.2 he)]
  exact List.append_left_inj _

theorem exponentText_of_neg {plus plus' : List Char} {e : ℤ} (he : e < 0) :
    exponentText plus e = exponentText plus' e := by
  unfold exponentText
  rw [if_pos he, if_pos he]

theorem isInteger_of_zero {f : F64} (h : f.significand = 0) : f.IsInteger := by
  refine ⟨0, ?_⟩
  rw [magnitude_eq, h, Nat.cast_zero, zero_mul]

/-- **Where `serde_json` writes the ECMAScript text of a float.** -/
theorem serdeText_eq_ecmaText_iff (plus : List Char) (f : F64) :
    serdeText plus f = ecmaText f ↔ f.EcmaForm plus := by
  unfold serdeText ecmaText EcmaForm
  by_cases hsig : f.significand = 0
  · -- zero is an integer: `0.0` against `0`
    rw [if_pos hsig, if_pos hsig]
    refine iff_of_false (by cases f.negative <;> decide) ?_
    rintro (h | ⟨h, -⟩)
    · exact h.1 (isInteger_of_zero hsig)
    · exact absurd (powerOfTen_sextillion.magnitude_lt_of_zero hsig) (not_lt.2 h)
  rw [if_neg hsig, if_neg hsig, signed_inj]
  have hsix := powerOfTen_millionth.point_le_iff hsig
  have hfive : hundredThousandth.magnitude ≤ f.magnitude ↔ -5 < f.point := by
    rw [← not_lt, ← powerOfTen_hundredThousandth.point_le_iff hsig, not_le]
  have htop : sextillion.magnitude ≤ f.magnitude ↔ 21 < f.point := by
    rw [← not_lt, ← powerOfTen_sextillion.point_le_iff hsig, not_le]
  rw [← hsix, hfive, htop]
  have hinteger := shortest_exponent_nonneg_iff hsig
  rw [← hinteger]
  unfold floatPositional
  by_cases hint : 0 ≤ f.shortest.2
  · rw [if_pos hint]
    have hone : 1 ≤ f.point := by
      have := Nat.length_toDigits_pos (b := 10) (n := f.shortest.1)
      unfold point
      omega
    by_cases hpos : f.point ≤ 16
    · rw [if_pos ⟨by omega, hpos⟩, if_pos ⟨by omega, by omega⟩]
      refine iff_of_false (by simp) ?_
      rintro (h | h)
      · exact h.1 hint
      · omega
    · rw [if_neg (by omega)]
      by_cases hecma : f.point ≤ 21
      · -- an exponent against digits
        rw [if_pos ⟨by omega, hecma⟩]
        refine iff_of_false ?_ ?_
        · intro h
          exact e_not_mem_positional _ _ (h ▸ e_mem_scientific _ _)
        · rintro (h | h)
          · exact h.1 hint
          · omega
      · rw [if_neg (by omega), scientific_inj, exponentText_eq_iff (by omega)]
        constructor
        · exact fun h => Or.inr ⟨not_le.1 hecma, h⟩
        · rintro (h | h)
          · exact absurd hint h.1
          · exact h.2
  · have hpoint : f.point ≤ 16 := point_le_of_not_isInteger hsig (mt hinteger.2 hint)
    rw [if_neg hint, List.append_nil]
    by_cases hserde : -5 < f.point
    · rw [if_pos ⟨hserde, hpoint⟩, if_pos ⟨by omega, by omega⟩]
      exact iff_of_true rfl (Or.inl ⟨hint, Or.inr (by omega)⟩)
    · rw [if_neg (by omega)]
      by_cases hecma : -6 < f.point
      · -- the first digit stands in the sixth place after the point
        rw [if_pos ⟨hecma, by omega⟩]
        refine iff_of_false ?_ ?_
        · intro h
          exact e_not_mem_positional _ _ (h ▸ e_mem_scientific _ _)
        · rintro (h | h)
          · omega
          · omega
      · rw [if_neg (by omega), exponentText_of_neg (by omega)]
        exact iff_of_true rfl (Or.inl ⟨hint, Or.inl (by omega)⟩)

/-! ## `serde_json` and Python -/

theorem paddedExponent_eq {e : ℤ} (he : 10 ≤ e) : paddedExponent e = exponentText ['+'] e := by
  have hlen : 2 ≤ (Nat.toDigits 10 e.natAbs).length := by
    by_contra hlt
    have := (Nat.length_toDigits_le_iff (b := 10) (n := e.natAbs) (k := 1) (by norm_num)
      (by norm_num)).1 (by omega)
    omega
  unfold paddedExponent exponentText
  rw [if_neg (by omega), if_neg (by omega), Nat.sub_eq_zero_of_le hlen]
  rfl

/-- **Where `serde_json` writes the Python text of an integral float.** -/
theorem serdeText_eq_pythonText_iff (plus : List Char) {f : F64} (hint : f.IsInteger) :
    serdeText plus f = pythonText f ↔
      f.magnitude < tenQuadrillion.magnitude ∨ plus = ['+'] := by
  unfold serdeText pythonText
  rw [signed_inj]
  by_cases hsig : f.significand = 0
  · rw [if_pos hsig, if_pos hsig]
    exact iff_of_true rfl (Or.inl (powerOfTen_tenQuadrillion.magnitude_lt_of_zero hsig))
  rw [if_neg hsig, if_neg hsig, ← powerOfTen_tenQuadrillion.point_le_iff hsig]
  have hone : 1 ≤ f.point := by
    have hexp := (shortest_exponent_nonneg_iff hsig).2 hint
    have := Nat.length_toDigits_pos (b := 10) (n := f.shortest.1)
    unfold point
    omega
  by_cases hpoint : f.point ≤ 16
  · rw [if_pos ⟨by omega, hpoint⟩, if_pos ⟨by omega, hpoint⟩]
    exact iff_of_true rfl (Or.inl hpoint)
  · rw [if_neg (by omega), if_neg (by omega), scientific_inj, paddedExponent_eq (by omega),
      exponentText_eq_iff (by omega), or_iff_right hpoint]

/-! ## Integers as floats -/

theorem negative_ofNat (n : ℕ) : (ofNat n).negative = false := by
  unfold ofNat
  dsimp only
  split_ifs <;> rfl

/-- Up to 53 bits the number is the natural number itself. -/
theorem magnitude_ofNat {n : ℕ} (hn : n ≠ 0) (h : n.log2 ≤ 52) :
    (ofNat n).magnitude = n ∧ (ofNat n).unit ≤ 1 := by
  have hlow : 2 ^ n.log2 ≤ n := Nat.log2_self_le hn
  have hhigh : n < 2 ^ (n.log2 + 1) := Nat.lt_log2_self
  have hpow : 2 ^ n.log2 * 2 ^ (52 - n.log2) = 2 ^ 52 := by rw [← pow_add, Nat.add_sub_cancel' h]
  have hm₁ : 2 ^ 52 ≤ n * 2 ^ (52 - n.log2) := by
    rw [← hpow]
    exact Nat.mul_le_mul_right _ hlow
  have hm₂ : n * 2 ^ (52 - n.log2) < 2 ^ 53 := by
    have : n * 2 ^ (52 - n.log2) < 2 ^ (n.log2 + 1) * 2 ^ (52 - n.log2) :=
      Nat.mul_lt_mul_of_pos_right hhigh (Nat.two_pow_pos _)
    rw [pow_succ, mul_right_comm, hpow] at this
    omega
  have hsig : (ofNat n).significand = n * 2 ^ (52 - n.log2) := by
    unfold ofNat
    rw [if_neg hn, if_pos h]
    unfold significand
    simp only [Fin.val_ofNat]
    rw [if_neg (by omega)]
    omega
  have hscale : (ofNat n).scale = 1022 + n.log2 := by
    unfold ofNat
    rw [if_neg hn, if_pos h]
    unfold scale
    simp only [Fin.val_ofNat]
    omega
  have hunit : (2 : ℚ) ^ (52 - n.log2) * (ofNat n).unit = 1 := by
    rw [unit_eq, hscale, ← mul_div_assoc, ← pow_add]
    have hexp : 52 - n.log2 + (1022 + n.log2) = 1074 := by omega
    rw [hexp]
    have hden : (2 : ℚ) ^ 1074 = denominator := by
      unfold denominator
      rw [Nat.cast_pow, Nat.cast_ofNat]
    rw [hden, div_self denominator_pos.ne']
  constructor
  · rw [magnitude_eq, hsig, Nat.cast_mul, Nat.cast_pow, Nat.cast_ofNat, mul_assoc, hunit, mul_one]
  · have hone : (1 : ℚ) ≤ 2 ^ (52 - n.log2) := one_le_pow₀ (by norm_num)
    have hpos := (ofNat n).unit_pos
    nlinarith

/-- Beyond 53 bits the units are no fractions. -/
theorem scale_ofNat {n : ℕ} (h : ¬ n.log2 ≤ 52) (hn : n < 2 ^ 64) :
    1074 ≤ (ofNat n).scale ∧ (ofNat n).scale ≤ 1086 := by
  have hlog : n.log2 < 64 := by
    by_cases hzero : n = 0
    · subst hzero
      exact absurd (by decide : Nat.log2 0 ≤ 52) h
    · exact (Nat.log2_lt hzero).2 hn
  have hne : n ≠ 0 := by
    rintro rfl
    exact h (by decide)
  unfold ofNat
  rw [if_neg hne, if_neg h]
  dsimp only
  split
  · unfold scale
    simp only [Fin.val_ofNat]
    omega
  · unfold scale
    simp only [Fin.val_ofNat]
    omega

/-- The numbers nearest to integers below `2 ^ 64` are integers below `1e21`. -/
theorem ofNat_spec {n : ℕ} (hne : n ≠ 0) (hn : n < 2 ^ 64) :
    (ofNat n).significand ≠ 0 ∧ (ofNat n).IsInteger ∧
      (ofNat n).magnitude < sextillion.magnitude := by
  have htop : (2 : ℚ) ^ 66 < sextillion.magnitude := by
    have hsig : ((2 ^ 52 : ℕ) : ℚ) < sextillion.significand :=
      Nat.cast_lt.2 powerOfTen_sextillion.above
    rw [magnitude_eq, unit_of_scale (f := sextillion) (k := 17) rfl]
    rw [Nat.cast_pow, Nat.cast_ofNat] at hsig
    linarith
  by_cases h : n.log2 ≤ 52
  · obtain ⟨hmag, -⟩ := magnitude_ofNat hne h
    refine ⟨?_, ⟨n, hmag⟩, ?_⟩
    · intro hzero
      rw [magnitude_eq, hzero, Nat.cast_zero, zero_mul] at hmag
      exact hne (by exact_mod_cast hmag.symm)
    · rw [hmag]
      refine lt_trans ?_ htop
      exact_mod_cast hn.trans (by norm_num)
  · obtain ⟨hlow, hhigh⟩ := scale_ofNat h hn
    have hsig := significand_ge_of_scale_pos (f := ofNat n) (by omega)
    refine ⟨by omega, isInteger_of_scale hlow, ?_⟩
    have hunit : (ofNat n).unit ≤ 2 ^ 12 := by
      rw [unit_eq, div_le_iff₀ denominator_pos]
      have hden : (2 : ℚ) ^ 12 * denominator = 2 ^ 1086 := by
        unfold denominator
        rw [Nat.cast_pow, Nat.cast_ofNat, ← pow_add]
      rw [hden]
      exact pow_le_pow_right₀ (by norm_num) hhigh
    have hmag := (ofNat n).magnitude_lt
    nlinarith [(ofNat n).unit_pos]

/-- Trailing zeros in positional notation. -/
theorem positional_of_nonneg {d : ℕ} (hd : 0 < d) {p : ℤ} (hp : 0 ≤ p) :
    positional d p = Nat.toDigits 10 (d * 10 ^ p.toNat) := by
  have hzeros : ∀ k : ℕ,
      Nat.toDigits 10 d ++ List.replicate k '0' = Nat.toDigits 10 (d * 10 ^ k) := by
    intro k
    induction k with
    | zero => simp
    | succ k ih =>
      have hpos : 0 < d * 10 ^ k := Nat.mul_pos hd (Nat.pow_pos (by norm_num))
      have hstep := Nat.toDigits_append_toDigits (b := 10) (n := d * 10 ^ k) (d := 0) (by norm_num)
        hpos (by norm_num)
      have hten : 10 * (d * 10 ^ k) + 0 = d * 10 ^ (k + 1) := by ring
      rw [hten] at hstep
      rw [← hstep, ← ih, List.replicate_succ', List.append_assoc]
      rfl
  unfold positional
  dsimp only
  rw [if_pos hp, hzeros]

theorem decimal_ofNat_zero : (ofNat 0).decimal = (0 : ℕ) := by decide +kernel

/-- The ECMAScript text of the float nearest to an integer is the integer itself exactly when the
integer is the shortest decimal of that float. -/
theorem ecmaText_ofNat_eq_iff {n : ℕ} (hn : n < 2 ^ 64) :
    ecmaText (ofNat n) = Nat.toDigits 10 n ↔ (ofNat n).decimal = n := by
  by_cases hne : n = 0
  · subst hne
    exact iff_of_true (by decide) decimal_ofNat_zero
  obtain ⟨hsig, hint, htop⟩ := ofNat_spec hne hn
  have hexp := (shortest_exponent_nonneg_iff hsig).2 hint
  have hdigits := shortest_digits_pos hsig
  have hpoint := (powerOfTen_sextillion.point_le_iff hsig).2 htop
  have hone : 1 ≤ (ofNat n).point := by
    have := Nat.length_toDigits_pos (b := 10) (n := (ofNat n).shortest.1)
    unfold point
    omega
  unfold ecmaText
  rw [if_neg hsig, if_pos ⟨by omega, hpoint⟩, negative_ofNat, positional_of_nonneg hdigits hexp,
    decimal_of_exponent_nonneg hexp]
  constructor
  · intro h
    rw [toDigits_injective h]
  · intro h
    rw [Nat.cast_inj.1 h]
    rfl

/-- Integers of up to 53 bits are the shortest decimals of their floats. -/
theorem decimal_ofNat {n : ℕ} (h : n < 2 ^ 53) : (ofNat n).decimal = n := by
  by_cases hne : n = 0
  · subst hne
    exact decimal_ofNat_zero
  have hlog : n.log2 ≤ 52 := by
    have := (Nat.log2_lt hne).2 h
    omega
  obtain ⟨hmag, hunit⟩ := magnitude_ofNat hne hlog
  obtain ⟨hsig, hint, -⟩ := ofNat_spec hne (h.trans (by norm_num))
  have hexp := (shortest_exponent_nonneg_iff hsig).2 hint
  have hdecimal := decimal_of_exponent_nonneg hexp
  have hclose := shortest_close hsig
  rw [hdecimal] at hclose ⊢
  rw [← hmag, eq_of_integer_close hunit hclose]

end F64
