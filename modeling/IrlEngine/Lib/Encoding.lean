import Mathlib.Data.Set.Function
import Mathlib.Data.List.Basic
import Mathlib.Tactic.IntervalCases

/-!
# Byte encodings: hexadecimal and base64

Both encodings as functions from byte lists to character lists, with what a
format built on them needs: they are injective (`hexEncode_injective`,
`base64Encode_injective`), hexadecimal text has a known length and alphabet,
`hexDecode` undoes `hexEncode`, on lower-case text `hexEncode` undoes `hexDecode`
(`hexDecode_of_lower`), and `base64Decode` undoes `base64Encode`.
-/

namespace Encoding

/-! ## Hexadecimal -/

/-- The lower-case hexadecimal digit of a number below 16. -/
def hexDigit (n : ℕ) : Char := if n < 10 then Char.ofNat (48 + n) else Char.ofNat (87 + n)

/-- The value of a hexadecimal digit of either case. -/
def hexValue (c : Char) : Option ℕ :=
  if '0' ≤ c ∧ c ≤ '9' then some (c.toNat - 48)
  else if 'a' ≤ c ∧ c ≤ 'f' then some (c.toNat - 87)
  else if 'A' ≤ c ∧ c ≤ 'F' then some (c.toNat - 55)
  else none

/-- The two digits of a byte, high half first. -/
def hexByte (b : UInt8) : List Char := [hexDigit (b.toNat / 16), hexDigit (b.toNat % 16)]

/-- Bytes as lowercase hex digits. -/
def hexEncode (bytes : List UInt8) : List Char := bytes.flatMap hexByte

/-- Decoding fails on an odd length and on a character outside the alphabet. -/
def hexDecode : List Char → Option (List UInt8)
  | [] => some []
  | [_] => none
  | hi :: lo :: rest => do
      let h ← hexValue hi
      let l ← hexValue lo
      let bytes ← hexDecode rest
      return UInt8.ofNat (16 * h + l) :: bytes

theorem hexValue_hexDigit {n : ℕ} (h : n < 16) : hexValue (hexDigit n) = some n := by
  interval_cases n <;> decide

theorem hexDecode_hexEncode (bytes : List UInt8) : hexDecode (hexEncode bytes) = some bytes := by
  induction bytes with
  | nil => rfl
  | cons b rest ih =>
    have hlt : b.toNat < 256 := b.toNat_lt
    have hhi : hexValue (hexDigit (b.toNat / 16)) = some (b.toNat / 16) :=
      hexValue_hexDigit (by omega)
    have hlo : hexValue (hexDigit (b.toNat % 16)) = some (b.toNat % 16) :=
      hexValue_hexDigit (by omega)
    have hb : UInt8.ofNat (16 * (b.toNat / 16) + b.toNat % 16) = b := by
      rw [Nat.div_add_mod, UInt8.ofNat_toNat]
    rw [hexEncode] at ih
    simp only [hexEncode, List.flatMap_cons, hexByte, List.cons_append, List.nil_append, hexDecode,
      hhi, hlo, ih, Option.bind_eq_bind, Option.bind_some, hb]
    rfl

theorem hexEncode_injective : Function.Injective hexEncode := by
  intro a b h
  have := congrArg hexDecode h
  simpa [hexDecode_hexEncode] using this

@[simp] theorem length_hexEncode (bytes : List UInt8) :
    (hexEncode bytes).length = 2 * bytes.length := by
  induction bytes with
  | nil => rfl
  | cons b rest ih =>
    rw [hexEncode] at ih
    rw [hexEncode, List.flatMap_cons, List.length_append, ih, List.length_cons]
    simp only [hexByte, List.length_cons, List.length_nil]
    omega

/-- The text is made of hexadecimal digits. -/
theorem mem_hexEncode {bytes : List UInt8} {c : Char} (h : c ∈ hexEncode bytes) :
    ∃ n < 16, c = hexDigit n := by
  obtain ⟨b, -, hb⟩ := List.mem_flatMap.1 h
  have hlt : b.toNat < 256 := b.toNat_lt
  simp only [hexByte, List.mem_cons, List.not_mem_nil, or_false] at hb
  rcases hb with hb | hb
  · exact ⟨_, by omega, hb⟩
  · exact ⟨_, by omega, hb⟩

theorem hexEncode_ne_hyphen (bytes : List UInt8) : '-' ∉ hexEncode bytes := by
  intro hc
  obtain ⟨n, hn, he⟩ := mem_hexEncode hc
  interval_cases n <;> exact absurd he (by decide)

/-- Hexadecimal digits are ASCII characters. -/
theorem utf8Size_of_mem_hexEncode {bytes : List UInt8} {c : Char} (h : c ∈ hexEncode bytes) :
    c.utf8Size = 1 := by
  obtain ⟨n, hn, rfl⟩ := mem_hexEncode h
  interval_cases n <;> decide

/-- A hexadecimal digit in lower case. -/
def isLowerHex (c : Char) : Bool := ('0' ≤ c && c ≤ '9') || ('a' ≤ c && c ≤ 'f')

theorem isLowerHex_of_mem_hexEncode {bytes : List UInt8} {c : Char} (h : c ∈ hexEncode bytes) :
    isLowerHex c = true := by
  obtain ⟨n, hn, rfl⟩ := mem_hexEncode h
  interval_cases n <;> decide

/-- A lower-case digit is the digit of its value. -/
theorem hexDigit_hexValue {c : Char} (h : isLowerHex c = true) :
    ∃ n < 16, hexValue c = some n ∧ hexDigit n = c := by
  have hrange : 48 ≤ c.toNat ∧ c.toNat ≤ 57 ∨ 97 ≤ c.toNat ∧ c.toNat ≤ 102 := by
    simpa [isLowerHex, Char.le_def, UInt32.le_iff_toNat_le] using h
  obtain ⟨k, hk⟩ : ∃ k, c.toNat = k := ⟨_, rfl⟩
  obtain rfl : Char.ofNat k = c := by rw [← hk, Char.ofNat_toNat]
  rw [hk] at hrange
  rcases hrange with ⟨hlo, hhi⟩ | ⟨hlo, hhi⟩
  · refine ⟨k - 48, by omega, ?_⟩
    interval_cases k <;> decide
  · refine ⟨k - 87, by omega, ?_⟩
    interval_cases k <;> decide

/-- Lower-case text of even length is the encoding of what it decodes to. -/
theorem hexDecode_of_lower {cs : List Char} {n : ℕ} (hlower : ∀ c ∈ cs, isLowerHex c = true)
    (hlen : cs.length = 2 * n) :
    ∃ bytes, hexDecode cs = some bytes ∧ bytes.length = n ∧ hexEncode bytes = cs := by
  induction cs using hexDecode.induct generalizing n with
  | case1 =>
    rw [List.length_nil] at hlen
    exact ⟨[], rfl, by rw [List.length_nil]; omega, rfl⟩
  | case2 c =>
    rw [List.length_singleton] at hlen
    omega
  | case3 hi lo rest ih =>
    rw [List.length_cons, List.length_cons] at hlen
    obtain ⟨m, rfl⟩ : ∃ m, n = m + 1 := ⟨n - 1, by omega⟩
    have hrest : rest.length = 2 * m := by omega
    obtain ⟨bytes, hdecode, hbytes, hencode⟩ := ih (fun c hc => hlower c (by simp [hc])) hrest
    obtain ⟨h, hh, hhi, hhi'⟩ := hexDigit_hexValue (hlower hi (by simp))
    obtain ⟨l, hl, hlo, hlo'⟩ := hexDigit_hexValue (hlower lo (by simp))
    have hbyte : (UInt8.ofNat (16 * h + l)).toNat = 16 * h + l := by
      rw [UInt8.toNat_ofNat']
      omega
    refine ⟨UInt8.ofNat (16 * h + l) :: bytes, ?_, by rw [List.length_cons, hbytes], ?_⟩
    · simp only [hexDecode, hhi, hlo, hdecode, Option.bind_eq_bind, Option.bind_some]
      rfl
    · rw [hexEncode, List.flatMap_cons, ← hexEncode, hencode, hexByte, hbyte,
        show (16 * h + l) / 16 = h by omega, show (16 * h + l) % 16 = l by omega, hhi', hlo']
      rfl

/-! ## Base64 -/

/-- The standard alphabet, indexed by a value below 64. -/
def base64Char (n : ℕ) : Char :=
  if n < 26 then Char.ofNat (65 + n)
  else if n < 52 then Char.ofNat (71 + n)
  else if n < 62 then Char.ofNat (n - 4)
  else if n = 62 then '+'
  else '/'

/-- Standard base64 with padding, three bytes to four characters. -/
def base64Encode : List UInt8 → List Char
  | [] => []
  | [a] => [base64Char (a.toNat / 4), base64Char (a.toNat % 4 * 16), '=', '=']
  | [a, b] =>
      [base64Char (a.toNat / 4), base64Char (a.toNat % 4 * 16 + b.toNat / 16),
        base64Char (b.toNat % 16 * 4), '=']
  | a :: b :: c :: rest =>
      base64Char (a.toNat / 4) :: base64Char (a.toNat % 4 * 16 + b.toNat / 16)
        :: base64Char (b.toNat % 16 * 4 + c.toNat / 64) :: base64Char (c.toNat % 64)
        :: base64Encode rest

/-- The value of a character of the alphabet. -/
def base64Value (c : Char) : ℕ :=
  if 'A' ≤ c ∧ c ≤ 'Z' then c.toNat - 65
  else if 'a' ≤ c ∧ c ≤ 'z' then c.toNat - 71
  else if '0' ≤ c ∧ c ≤ '9' then c.toNat + 4
  else if c = '+' then 62
  else 63

theorem base64Value_base64Char {n : ℕ} (h : n < 64) : base64Value (base64Char n) = n := by
  interval_cases n <;> decide

theorem base64Char_ne_pad {n : ℕ} (h : n < 64) : base64Char n ≠ '=' := by
  interval_cases n <;> decide

/-- The value of a character, if it is one of the alphabet. -/
def base64Digit (c : Char) : Option ℕ :=
  if base64Char (base64Value c) = c then some (base64Value c) else none

theorem base64Digit_base64Char {n : ℕ} (h : n < 64) : base64Digit (base64Char n) = some n := by
  rw [base64Digit, base64Value_base64Char h, if_pos rfl]

/-- The last group of a padded text, without its last character; the bits that no byte
uses must be zero. -/
def base64LastGroup (c₀ c₁ c₂ : Char) : Option (List UInt8) := do
  let a ← base64Digit c₀
  let b ← base64Digit c₁
  if c₂ = '=' then
    if b % 16 = 0 then some [UInt8.ofNat (a * 4 + b / 16)] else none
  else
    let c ← base64Digit c₂
    if c % 4 = 0 then some [UInt8.ofNat (a * 4 + b / 16), UInt8.ofNat (b % 16 * 16 + c / 4)]
    else none

/-- Decoding fails on a length that is not a multiple of four, on a character outside
the alphabet, and on padding that the encoder does not write. -/
def base64Decode : List Char → Option (List UInt8)
  | [] => some []
  | c₀ :: c₁ :: c₂ :: c₃ :: rest =>
    if c₃ = '=' then if rest = [] then base64LastGroup c₀ c₁ c₂ else none
    else do
      let a ← base64Digit c₀
      let b ← base64Digit c₁
      let c ← base64Digit c₂
      let d ← base64Digit c₃
      let bytes ← base64Decode rest
      return UInt8.ofNat (a * 4 + b / 16) :: UInt8.ofNat (b % 16 * 16 + c / 4)
        :: UInt8.ofNat (c % 4 * 64 + d) :: bytes
  | _ => none

theorem base64Decode_base64Encode (bytes : List UInt8) :
    base64Decode (base64Encode bytes) = some bytes := by
  have hbyte : ∀ (b : UInt8) (n : ℕ), n = b.toNat → UInt8.ofNat n = b := by
    rintro b n rfl
    exact UInt8.ofNat_toNat
  induction bytes using base64Encode.induct with
  | case1 => rfl
  | case2 a =>
    have ha := a.toNat_lt
    simp only [base64Encode, base64Decode, base64LastGroup, if_true, Option.bind_eq_bind,
      base64Digit_base64Char (show a.toNat / 4 < 64 by omega),
      base64Digit_base64Char (show a.toNat % 4 * 16 < 64 by omega), Option.bind_some]
    rw [if_pos (by omega), hbyte a _ (by omega)]
  | case3 a b =>
    have ha := a.toNat_lt
    have hb := b.toNat_lt
    simp only [base64Encode, base64Decode, base64LastGroup, if_true, Option.bind_eq_bind,
      base64Digit_base64Char (show a.toNat / 4 < 64 by omega),
      base64Digit_base64Char (show a.toNat % 4 * 16 + b.toNat / 16 < 64 by omega),
      base64Digit_base64Char (show b.toNat % 16 * 4 < 64 by omega), Option.bind_some,
      if_neg (base64Char_ne_pad (show b.toNat % 16 * 4 < 64 by omega))]
    rw [if_pos (by omega), hbyte a _ (by omega), hbyte b _ (by omega)]
  | case4 a b c rest ih =>
    have ha := a.toNat_lt
    have hb := b.toNat_lt
    have hc := c.toNat_lt
    simp only [base64Encode, base64Decode, Option.bind_eq_bind,
      base64Digit_base64Char (show a.toNat / 4 < 64 by omega),
      base64Digit_base64Char (show a.toNat % 4 * 16 + b.toNat / 16 < 64 by omega),
      base64Digit_base64Char (show b.toNat % 16 * 4 + c.toNat / 64 < 64 by omega),
      base64Digit_base64Char (show c.toNat % 64 < 64 by omega), Option.bind_some, ih,
      if_neg (base64Char_ne_pad (show c.toNat % 64 < 64 by omega))]
    rw [hbyte a _ (by omega), hbyte b _ (by omega), hbyte c _ (by omega)]
    rfl

/-- Base64 text determines the bytes it was written from. -/
theorem base64Encode_injective : Function.Injective base64Encode := by
  intro xs ys h
  have hdecode := congrArg base64Decode h
  rw [base64Decode_base64Encode, base64Decode_base64Encode] at hdecode
  exact Option.some.inj hdecode

end Encoding
