import IrlEngine.Lib.Json
import IrlEngine.Lib.Sha256
import IrlEngine.Lib.Text

/-!
# What the engine is built on

Identifiers, timestamps and the third-party functions that the engine calls.
UUIDs and chrono's range check are written out; the functions of `Crates` (the
float printer of `serde_json`, chrono's RFC 3339 text, the JSON parser, AES-GCM
and Ed25519) are parameters of the model, and a result that relies on one of
them says on what.
-/

namespace IrlEngine

/-! ## Identifiers -/

/-- A UUID: sixteen bytes. -/
structure Uuid where
  bytes : List UInt8
  length_eq : bytes.length = 16
  deriving DecidableEq, Repr

namespace Uuid

/-- The UUID that repeats one byte. -/
def fill (b : UInt8) : Uuid := ⟨List.replicate 16 b, List.length_replicate⟩

/-- The hyphenated lower-case text, groups of 8, 4, 4, 4 and 12 digits. -/
def toText (u : Uuid) : String :=
  let h := Encoding.hexEncode u.bytes
  String.ofList (h.take 8 ++ '-' :: (h.drop 8).take 4 ++ '-' :: (h.drop 12).take 4
    ++ '-' :: (h.drop 16).take 4 ++ '-' :: h.drop 20)

/-- Dropping the hyphens gives the digits back. -/
theorem toText_filter (u : Uuid) :
    u.toText.toList.filter (· ≠ '-') = Encoding.hexEncode u.bytes := by
  have hkeep : ∀ l : List Char, (∀ c ∈ l, c ∈ Encoding.hexEncode u.bytes) →
      l.filter (· ≠ '-') = l := by
    intro l hl
    refine List.filter_eq_self.2 ?_
    intro c hc
    have : c ≠ '-' := fun he => Encoding.hexEncode_ne_hyphen u.bytes (he ▸ hl c hc)
    simpa using this
  have hsub : ∀ i n, ∀ c ∈ ((Encoding.hexEncode u.bytes).drop i).take n,
      c ∈ Encoding.hexEncode u.bytes :=
    fun i n c hc => List.mem_of_mem_drop (List.mem_of_mem_take hc)
  have hcut : ∀ i n, ((Encoding.hexEncode u.bytes).drop i).take n
      ++ (Encoding.hexEncode u.bytes).drop (i + n) = (Encoding.hexEncode u.bytes).drop i := by
    intro i n
    rw [← List.drop_drop, List.take_append_drop]
  simp only [toText, String.toList_ofList, List.filter_append, List.filter_cons, ne_eq,
    not_true_eq_false, decide_false, Bool.false_eq_true, if_false]
  rw [hkeep _ (hsub 8 4), hkeep _ (hsub 12 4), hkeep _ (hsub 16 4),
    hkeep _ (fun c hc => List.mem_of_mem_drop hc), hkeep _ (fun c hc => List.mem_of_mem_take hc),
    List.append_assoc, List.append_assoc, List.append_assoc, hcut 16 4, hcut 12 4, hcut 8 4,
    List.take_append_drop]

theorem toText_injective : Function.Injective toText := by
  intro u v h
  have hhex : Encoding.hexEncode u.bytes = Encoding.hexEncode v.bytes := by
    rw [← toText_filter, h, toText_filter]
  cases u; cases v
  simpa using Encoding.hexEncode_injective hhex

end Uuid

/-! ## Timestamps -/

/-- A UTC timestamp with millisecond precision, inside the range of chrono's
calendar (years -262143 to 262142). -/
structure DateTime where
  millis : Int64
  inRange : -8334601228800000 ≤ millis.toInt ∧ millis.toInt ≤ 8210266876799999
  deriving DecidableEq

namespace DateTime

/-- `Utc.timestamp_millis_opt(ms).single()`. -/
def ofMillis (ms : Int64) : Option DateTime :=
  if h : -8334601228800000 ≤ ms.toInt ∧ ms.toInt ≤ 8210266876799999 then some ⟨ms, h⟩ else none

/-- `DateTime::default()`, the Unix epoch. -/
def epoch : DateTime := ⟨0, by decide⟩

theorem ofMillis_eq_some {ms : Int64} {t : DateTime} (h : ofMillis ms = some t) :
    t.millis = ms := by
  unfold ofMillis at h
  split at h
  · rw [← Option.some.inj h]
  · exact absurd h (by simp)

end DateTime

/-! ## Third-party functions -/

/-- Functions of other packages that the engine calls. -/
structure Crates where
  /-- The text `serde_json` writes for a finite float. -/
  floatText : F64 → List Char
  /-- The RFC 3339 text in which chrono serializes a timestamp. -/
  rfc3339 : DateTime → String
  /-- `serde_json::from_slice`. -/
  fromSlice : List UInt8 → Except String Json
  /-- AES-256-GCM encryption of a plaintext under a key and a nonce. -/
  aesGcmEncrypt : List UInt8 → List UInt8 → List UInt8 → Except String (List UInt8)
  /-- AES-256-GCM decryption of a ciphertext under a key and a nonce. -/
  aesGcmDecrypt : List UInt8 → List UInt8 → List UInt8 → Except String (List UInt8)
  /-- Ed25519 verification of a payload and a 64-byte signature under a public key. -/
  ed25519Verify : List UInt8 → List UInt8 → List UInt8 → Bool

/-! ### A concrete instance

`Crates.sample` agrees with the real functions on the inputs of the concrete runs
below: the floats 0, 1, 2 and -2, timestamps in the first second after the epoch, and
neither ciphertexts nor signatures. -/

/-- A number for each float. -/
def floatIndex (f : F64) : ℕ :=
  (if f.negative then 1 else 0) + 2 * (f.exponent.val + 2047 * f.fraction.val)

theorem floatIndex_injective : Function.Injective floatIndex := by
  rintro ⟨n₁, e₁, f₁⟩ ⟨n₂, e₂, f₂⟩ h
  have he₁ := e₁.isLt
  have he₂ := e₂.isLt
  simp only [floatIndex] at h
  have hsign : n₁ = n₂ := by
    cases n₁ <;> cases n₂ <;> simp at h ⊢ <;> omega
  subst hsign
  have hexp : e₁ = e₂ := Fin.ext (by omega)
  subst hexp
  have hfrac : f₁ = f₂ := Fin.ext (by omega)
  rw [hfrac]

/-- The floats of the concrete runs, with their texts. -/
def plainFloats : List (F64 × List Char) :=
  [(F64.zero, ['0', '.', '0']), (F64.one, ['1', '.', '0']), (F64.two, ['2', '.', '0']),
    (F64.two.neg, ['-', '2', '.', '0'])]

/-- Short texts for the common numbers, and a distinct one for every other. -/
def sampleFloatText (f : F64) : List Char :=
  match plainFloats.find? fun p => p.1 = f with
  | some p => p.2
  | none => Nat.toDigits 10 (floatIndex f) ++ ['e', '0']

theorem sampleFloatText_eq (f : F64) : (f, sampleFloatText f) ∈ plainFloats ∨
    sampleFloatText f = Nat.toDigits 10 (floatIndex f) ++ ['e', '0'] := by
  unfold sampleFloatText
  cases h : plainFloats.find? fun p => p.1 = f with
  | none => exact Or.inr rfl
  | some p =>
    have hp : p.1 = f := by simpa using List.find?_some h
    rw [← hp]
    exact Or.inl (List.mem_of_find?_eq_some h)

theorem dot_mem_plainFloats : ∀ p ∈ plainFloats, '.' ∈ p.2 := by
  simp [plainFloats]

theorem dot_not_mem_index (n : ℕ) : '.' ∉ Nat.toDigits 10 n ++ ['e', '0'] := by
  intro h
  rcases List.mem_append.1 h with h | h
  · exact absurd (isDigit_of_mem_toDigits h) (by decide)
  · exact absurd h (by decide)

theorem sampleFloatText_lawful : FloatText.Lawful sampleFloatText where
  injective := by
    intro f g h
    have hplain : ∀ p ∈ plainFloats, ∀ q ∈ plainFloats, p.2 = q.2 → p.1 = q.1 := by
      simp [plainFloats]
    rcases sampleFloatText_eq f with hf | hf <;> rcases sampleFloatText_eq g with hg | hg
    · exact hplain _ hf _ hg h
    · have hdot := dot_mem_plainFloats _ hf
      rw [h, hg] at hdot
      exact absurd hdot (dot_not_mem_index _)
    · have hdot := dot_mem_plainFloats _ hg
      rw [← h, hf] at hdot
      exact absurd hdot (dot_not_mem_index _)
    · rw [hf, hg] at h
      exact floatIndex_injective (toDigits_injective (List.append_cancel_right h))
  alphabet := by
    intro f c hc
    have hplain : ∀ p ∈ plainFloats, p.2.all numberChar = true := by
      simp [plainFloats, numberChar]
    rcases sampleFloatText_eq f with hf | hf
    · exact List.all_eq_true.1 (hplain _ hf) c hc
    · rw [hf] at hc
      rcases List.mem_append.1 hc with hc | hc
      · simp [numberChar, isDigit_of_mem_toDigits hc]
      · rcases List.mem_pair.1 hc with rfl | rfl <;> rfl
  fractional := by
    intro f
    rcases sampleFloatText_eq f with hf | hf
    · exact ⟨'.', dot_mem_plainFloats _ hf, Or.inl rfl⟩
    · rw [hf]
      exact ⟨'e', by simp, Or.inr rfl⟩

/-- The RFC 3339 text of a timestamp in the first second after the epoch. -/
def sampleRfc3339 (t : DateTime) : String :=
  let digits := Nat.toDigits 10 t.millis.toInt.toNat
  "1970-01-01T00:00:00." ++ String.ofList (List.replicate (3 - digits.length) '0' ++ digits) ++ "Z"

/-- Crates for the examples: their printers are lawful, and they parse and encrypt nothing. -/
def Crates.sample : Crates where
  floatText := sampleFloatText
  rfc3339 := sampleRfc3339
  fromSlice := fun _ => .error "expected value"
  aesGcmEncrypt := fun _ _ _ => .error "aead::Error"
  aesGcmDecrypt := fun _ _ _ => .error "aead::Error"
  ed25519Verify := fun _ _ _ => false

/-! ### Digests -/

/-- `hex::encode` of a SHA-256 digest. -/
def sha256Hex (message : List UInt8) : String :=
  String.ofList (Encoding.hexEncode (Sha256.hash message))

/-- A digest in hexadecimal is 64 bytes long. -/
theorem length_utf8_sha256Hex (message : List UInt8) :
    (Text.utf8 (sha256Hex message)).length = 64 := by
  rw [Text.utf8, sha256Hex, String.toList_ofList, Text.length_encode_of_ascii,
    Encoding.length_hexEncode, Sha256.length_hash]
  exact fun c hc => Encoding.utf8Size_of_mem_hexEncode hc

theorem sha256Hex_eq_iff {a b : List UInt8} :
    sha256Hex a = sha256Hex b ↔ Sha256.hash a = Sha256.hash b := by
  constructor
  · intro h
    have := congrArg String.toList h
    rw [sha256Hex, sha256Hex, String.toList_ofList, String.toList_ofList] at this
    exact Encoding.hexEncode_injective this
  · intro h
    rw [sha256Hex, sha256Hex, h]

end IrlEngine
