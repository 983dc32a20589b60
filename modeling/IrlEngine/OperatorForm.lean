import IrlEngine.Jcs
import IrlEngine.Mta

/-!
# The canonical form of MTA operators

The operator specification signs `json.dumps(payload, sort_keys=True, separators=(',', ':'))`,
and `mta::canonical_json` says it must match it.  Python escapes everything outside printable
ASCII (`pythonString`); `serde_json` leaves characters from U+007F on as they are.

* `OperatorForm` — no character from U+007F on, and no integral float whose exponent the two
  printers sign differently;
* `canonicalJson_eq_dumps_iff` — on values without fractions the two forms agree exactly there,
  and a response that is signed as prescribed then verifies.
-/

namespace IrlEngine

/-! ## Python's printer -/

/-- The escapes of `json.dumps` with `ensure_ascii`: what is not printable ASCII becomes the
`\uhhhh` of its UTF-16 code units. -/
def pythonEscapeChar (c : Char) : List Char :=
  if c = '"' then ['\\', '"']
  else if c = '\\' then ['\\', '\\']
  else if c.toNat = 0x0A then ['\\', 'n']
  else if c.toNat = 0x0D then ['\\', 'r']
  else if c.toNat = 0x09 then ['\\', 't']
  else if c.toNat = 0x0C then ['\\', 'f']
  else if c.toNat = 0x08 then ['\\', 'b']
  else if 0x20 ≤ c.toNat ∧ c.toNat ≤ 0x7E then [c]
  else (Utf16.utf16Char c).flatMap unicodeEscape

/-- A string as `json.dumps` prints it. -/
def pythonString (s : String) : List Char := '"' :: s.toList.flatMap pythonEscapeChar ++ ['"']

/-- Python keeps integers as integers. -/
def pythonNumber : Number → List Char
  | .posInt n => Nat.toDigits 10 n.toNat
  | .negInt n => '-' :: Nat.toDigits 10 (n.val + 1)
  | .float f => f.pythonText

/-- Keys are compared by code points. -/
def pythonStyle : Json.Style where
  number := pythonNumber
  string := pythonString
  keyLe k l := decide (k ≤ l)

/-- `json.dumps(v, sort_keys=True, separators=(',', ':'))`. -/
def dumps (v : Json) : List Char := pythonStyle.print v

/-! ## Characters -/

/-- Below U+007F the two escape alike. -/
theorem pythonEscapeChar_of_lt {c : Char} (h : c.toNat < 0x7F) :
    pythonEscapeChar c = escapeChar c := by
  by_cases hctl : c.toNat < 0x20
  · obtain ⟨n, hn, rfl⟩ : ∃ n < 32, c = Char.ofNat n := ⟨c.toNat, hctl, (Char.ofNat_toNat c).symm⟩
    interval_cases n <;> rfl
  · unfold pythonEscapeChar escapeChar
    by_cases hq : c = '"'
    · rw [if_pos hq, if_pos hq]
    · by_cases hb : c = '\\'
      · rw [if_neg hq, if_neg hq, if_pos hb, if_pos hb]
      · rw [if_neg hq, if_neg hb, if_neg (by omega), if_neg (by omega), if_neg (by omega),
          if_neg (by omega), if_neg (by omega), if_pos ⟨by omega, by omega⟩, if_neg hq, if_neg hb,
          if_neg (by omega), if_neg (by omega), if_neg (by omega), if_neg (by omega),
          if_neg (by omega), if_neg hctl]

/-- From U+007F on, `serde_json` writes the character itself … -/
theorem escapeChar_of_ge {c : Char} (h : 0x7F ≤ c.toNat) : escapeChar c = [c] := by
  have hq : c ≠ '"' := by rintro rfl; exact absurd h (by decide)
  have hb : c ≠ '\\' := by rintro rfl; exact absurd h (by decide)
  unfold escapeChar
  rw [if_neg hq, if_neg hb, if_neg (by omega), if_neg (by omega), if_neg (by omega),
    if_neg (by omega), if_neg (by omega), if_neg (by omega)]

/-- … and Python the escape of a code unit that is no control character. -/
theorem pythonEscapeChar_of_ge {c : Char} (h : 0x7F ≤ c.toNat) :
    ∃ u rest, 0x7F ≤ u ∧ u < 0x10000 ∧ pythonEscapeChar c = unicodeEscape u ++ rest := by
  have hq : c ≠ '"' := by rintro rfl; exact absurd h (by decide)
  have hb : c ≠ '\\' := by rintro rfl; exact absurd h (by decide)
  have hrange := Utf16.toNat_ranges c
  have hesc : pythonEscapeChar c = (Utf16.utf16Char c).flatMap unicodeEscape := by
    unfold pythonEscapeChar
    rw [if_neg hq, if_neg hb, if_neg (by omega), if_neg (by omega), if_neg (by omega),
      if_neg (by omega), if_neg (by omega), if_neg (by omega)]
  rw [hesc]
  unfold Utf16.utf16Char
  split
  · rename_i hlt
    exact ⟨c.toNat, [], h, hlt, by simp⟩
  · exact ⟨0xD800 + (c.toNat - 0x10000) / 0x400, _, by omega, by omega, List.flatMap_cons⟩

theorem hexDigit_inj {m n : ℕ} (hm : m < 16) (hn : n < 16)
    (h : Encoding.hexDigit m = Encoding.hexDigit n) : m = n := by
  have := congrArg Encoding.hexValue h
  rw [Encoding.hexValue_hexDigit hm, Encoding.hexValue_hexDigit hn] at this
  exact Option.some.inj this

/-- A backslash and a letter. -/
theorem short_ne_unicodeEscape {a : Char} (ha : a ≠ 'u') (u : ℕ) (x y : List Char) :
    ['\\', a] ++ x ≠ unicodeEscape u ++ y := by
  intro h
  simp only [unicodeEscape, List.cons_append, List.cons.injEq, true_and] at h
  exact ha h.1

/-- `\u00hh` below U+0020 against four digits of a larger number. -/
theorem control_ne_unicodeEscape {a b u : ℕ} (ha : a < 2) (hu : 0x7F ≤ u) (hu' : u < 0x10000)
    (x y : List Char) :
    ['\\', 'u', '0', '0', Encoding.hexDigit a, Encoding.hexDigit b] ++ x ≠
      unicodeEscape u ++ y := by
  intro h
  have hzero : ('0' : Char) = Encoding.hexDigit 0 := by decide
  simp only [unicodeEscape, List.cons_append, List.cons.injEq, true_and, List.nil_append,
    hzero] at h
  have h₁ := hexDigit_inj (by omega) (by omega) h.1
  have h₂ := hexDigit_inj (by omega) (by omega) h.2.1
  have h₃ := hexDigit_inj (by omega) (by omega) h.2.2.1
  omega

/-- No escape of `serde_json` is the escape of such a code unit. -/
theorem escapeChar_ne_unicodeEscape {c : Char} (hc : c.toNat < 0x7F) {u : ℕ} (hu : 0x7F ≤ u)
    (hu' : u < 0x10000) (x y : List Char) : escapeChar c ++ x ≠ unicodeEscape u ++ y := by
  intro h
  unfold escapeChar at h
  split_ifs at h with h₁ h₂ h₃ h₄ h₅ h₆ h₇ h₈
  · exact short_ne_unicodeEscape (by decide) u x y h
  · exact short_ne_unicodeEscape (by decide) u x y h
  · exact short_ne_unicodeEscape (by decide) u x y h
  · exact short_ne_unicodeEscape (by decide) u x y h
  · exact short_ne_unicodeEscape (by decide) u x y h
  · exact short_ne_unicodeEscape (by decide) u x y h
  · exact short_ne_unicodeEscape (by decide) u x y h
  · exact control_ne_unicodeEscape (by omega) hu hu' x y h
  · exact h₂ (List.cons.inj h).1

/-- Equal beginnings come from one character, below U+007F. -/
theorem escape_append_inj {c d : Char} {x y : List Char}
    (h : escapeChar c ++ x = pythonEscapeChar d ++ y) : c = d ∧ c.toNat < 0x7F ∧ x = y := by
  by_cases hd : d.toNat < 0x7F
  · rw [pythonEscapeChar_of_lt hd] at h
    obtain ⟨rfl, hxy⟩ := escapeChar_append_inj h
    exact ⟨rfl, hd, hxy⟩
  · obtain ⟨u, rest, hu, hu', hesc⟩ := pythonEscapeChar_of_ge (not_lt.1 hd)
    rw [hesc, List.append_assoc] at h
    by_cases hc : c.toNat < 0x7F
    · exact absurd h (escapeChar_ne_unicodeEscape hc hu hu' _ _)
    · rw [escapeChar_of_ge (not_lt.1 hc)] at h
      have hback : c = '\\' := (List.cons.inj h).1
      subst hback
      exact absurd hc (by decide)

/-! ## Strings and styles -/

/-- No character from U+007F on. -/
def Printable (s : String) : Prop := ∀ c ∈ s.toList, c.toNat < 0x7F

theorem pythonEscapeChar_ne_quote (d : Char) (x y : List Char) :
    pythonEscapeChar d ++ x ≠ '"' :: y := by
  intro h
  by_cases hd : d.toNat < 0x7F
  · rw [pythonEscapeChar_of_lt hd] at h
    exact escapeChar_ne_quote d x y h
  · obtain ⟨u, rest, -, -, hesc⟩ := pythonEscapeChar_of_ge (not_lt.1 hd)
    rw [hesc, List.append_assoc] at h
    exact absurd (List.cons.inj h).1 (by decide)

theorem pythonString_of_printable {s : String} (h : Printable s) : quote s = pythonString s := by
  have hflat : s.toList.flatMap escapeChar = s.toList.flatMap pythonEscapeChar :=
    List.flatMap_congr fun c hc => (pythonEscapeChar_of_lt (h c hc)).symm
  unfold quote pythonString
  rw [hflat]

theorem quote_append_pythonString {s t : String} {x y : List Char}
    (h : quote s ++ x = pythonString t ++ y) : s = t ∧ Printable s ∧ x = y := by
  have hflat : s.toList.flatMap escapeChar ++ '"' :: x
      = t.toList.flatMap pythonEscapeChar ++ '"' :: y := by
    simpa [quote, pythonString] using h
  obtain ⟨hst, hs, hxy⟩ := flatMap_escape_append_inj (fun _ _ _ _ => escape_append_inj)
    escapeChar_ne_quote pythonEscapeChar_ne_quote _ _ _ _ hflat
  exact ⟨String.toList_inj.1 hst, hs, hxy⟩

theorem quote_eq_pythonString_iff (s : String) : quote s = pythonString s ↔ Printable s := by
  constructor
  · intro h
    exact (quote_append_pythonString (x := []) (y := []) (by rw [h])).2.1
  · exact pythonString_of_printable

theorem separates_serde_python (ft : F64 → List Char) : (serdeStyle ft).Separates pythonStyle := by
  intro s t x y h
  obtain ⟨hst, hs, hxy⟩ := quote_append_pythonString h
  exact ⟨hst, pythonString_of_printable hs, hxy⟩

theorem lawful_pythonStyle : pythonStyle.Lawful where
  number_ne_nil n := by
    cases n with
    | posInt n => exact Nat.toDigits_ne_nil
    | negInt n => exact List.cons_ne_nil _ _
    | float f => exact f.pythonText_ne_nil
  number_alphabet n c hc := by
    cases n with
    | posInt n => exact F64.numberChar_of_isDigit (isDigit_of_mem_toDigits hc)
    | negInt n =>
      rcases List.mem_cons.1 hc with rfl | hc
      · decide
      · exact F64.numberChar_of_isDigit (isDigit_of_mem_toDigits hc)
    | float f => exact F64.numberChar_of_mem_pythonText hc
  string_quoted s := ⟨_, rfl⟩
  total k l := by
    simp only [pythonStyle, decide_eq_true_eq]
    exact le_total k l
  trans k l m := by
    simp only [pythonStyle, decide_eq_true_eq]
    exact le_trans
  antisymm k l := by
    simp only [pythonStyle, decide_eq_true_eq]
    exact le_antisymm

/-! ## Agreement of the two forms -/

/-- The number has no fraction. -/
def Whole : Number → Prop
  | .float f => f.IsInteger
  | _ => True

/-- The number is no float of `1e16` or more whose exponent `serde_json` leaves unsigned. -/
def SignedAlike (plus : List Char) : Number → Prop
  | .float f => f.magnitude < F64.tenQuadrillion.magnitude ∨ plus = ['+']
  | _ => True

/-- The values without fractions that both printers write alike. -/
def OperatorForm (plus : List Char) (v : Json) : Prop :=
  v.All (SignedAlike plus) Printable (fun _ => True)

theorem print_eq_pythonNumber_iff (plus : List Char) {n : Number} (hn : Whole n) :
    Number.print (F64.serdeText plus) n = pythonNumber n ↔ SignedAlike plus n := by
  cases n with
  | posInt n => exact iff_of_true rfl trivial
  | negInt n => exact iff_of_true rfl trivial
  | float f => exact F64.serdeText_eq_pythonText_iff plus hn

theorem agree_iff_operatorForm (plus : List Char) {v : Json}
    (hv : v.All Whole (fun _ => True) (fun _ => True)) :
    Json.Style.Agree (serdeStyle (F64.serdeText plus)) pythonStyle v ↔ OperatorForm plus v := by
  constructor
  · intro h
    refine (h.and hv).mono ?_ ?_ (fun _ _ => trivial)
    · exact fun n hn => (print_eq_pythonNumber_iff plus hn.2).1 hn.1
    · exact fun s hs => (quote_eq_pythonString_iff s).1 hs.1
  · intro h
    refine (Json.All.and h hv).mono ?_ ?_ (fun _ _ _ _ _ _ => rfl)
    · exact fun n hn => (print_eq_pythonNumber_iff plus hn.2).2 hn.1
    · exact fun s hs => (quote_eq_pythonString_iff s).2 hs.1

theorem canonicalJson_eq_print (K : Crates) (v : Json) :
    canonicalJson K v = (serdeStyle K.floatText).print v := by
  unfold canonicalJson
  rw [← canonicalizeJson_eq, canonicalizeJson_eq_print]

/-- **The engine's form is the operators' form of exactly the values in `OperatorForm`**, among
those without fractions; a response in it that is signed as prescribed verifies. -/
theorem canonicalJson_eq_dumps_iff (K : Crates) (plus : List Char)
    (hft : SerdeFloats K.floatText plus) :
    (∀ v : Json, v.UniqueKeys → v.All Whole (fun _ => True) (fun _ => True) →
      (canonicalJson K v = dumps v ↔ OperatorForm plus v)) ∧
    ∀ (pubkey body sig : List UInt8) (raw : RawMtaResponse) (value payload : Json),
      K.fromSlice body = .ok value → payload = removeMember "signature" value →
      payload.UniqueKeys → payload.All Whole (fun _ => True) (fun _ => True) →
      Encoding.base64Decode raw.signature.toList = some sig → sig.length = 64 →
      K.ed25519Verify pubkey (Text.encode (dumps payload)) sig = true →
      OperatorForm plus payload → verifyMtaSignature K pubkey body raw = .ok () := by
  have hforms : ∀ v : Json, v.UniqueKeys → v.All Whole (fun _ => True) (fun _ => True) →
      (canonicalJson K v = dumps v ↔ OperatorForm plus v) := by
    intro v hkeys hwhole
    rw [canonicalJson_eq_print, ← agree_iff_operatorForm plus hwhole, ← hft.1]
    exact Json.Style.print_eq_iff hft.lawful lawful_pythonStyle (separates_serde_python _) hkeys
  refine ⟨hforms, ?_⟩
  intro pubkey body sig raw value payload hvalue hpayload hkeys hwhole hsig hlen hverify hform
  have hsame := (hforms payload hkeys hwhole).2 hform
  rw [← hsame, hpayload] at hverify
  have hlen' : ¬ sig.length ≠ 64 := not_not.2 hlen
  unfold verifyMtaSignature
  simp only [hsig, if_neg hlen', hvalue, if_pos hverify]

/-! Two payloads, with the printer that signs its exponents. -/

/-- A payload with the given label. -/
def labelled (label : String) : Json :=
  .obj [("macro_regime", .str label), ("regime_id", .num (.posInt 2))]

theorem uniqueKeys_labelled (label : String) : (labelled label).UniqueKeys := by
  refine .obj (by simp) (fun _ _ => trivial) ?_
  simp only [List.mem_cons, List.not_mem_nil, or_false, forall_eq_or_imp, forall_eq]
  exact ⟨.str trivial, .num trivial⟩

/-- A plain label: the two forms agree. -/
theorem canonicalJson_tightening :
    canonicalJson .printing (labelled "tightening") = dumps (labelled "tightening") := by
  have hwhole : (labelled "tightening").All Whole (fun _ => True) (fun _ => True) := by
    refine .obj trivial (fun _ _ => trivial) ?_
    simp only [List.mem_cons, List.not_mem_nil, or_false, forall_eq_or_imp, forall_eq]
    exact ⟨.str trivial, .num trivial⟩
  have hform : OperatorForm ['+'] (labelled "tightening") := by
    refine .obj trivial ?_ ?_
    · simp only [List.mem_cons, List.not_mem_nil, or_false, forall_eq_or_imp, forall_eq]
      exact ⟨Text.forall_of_all (by decide), Text.forall_of_all (by decide)⟩
    · simp only [List.mem_cons, List.not_mem_nil, or_false, forall_eq_or_imp, forall_eq]
      exact ⟨.str (Text.forall_of_all (by decide)), .num trivial⟩
  exact ((canonicalJson_eq_dumps_iff _ _ serdeFloats_printing).1 _ (uniqueKeys_labelled _)
    hwhole).2 hform

/-- A label with an accent: the engine does not hash what the operator has signed. -/
theorem canonicalJson_accent :
    canonicalJson .printing (labelled "détente")
        = "\x7b\"macro_regime\":\"détente\",\"regime_id\":2\x7d".toList ∧
      dumps (labelled "détente")
        = "\x7b\"macro_regime\":\"d\\u00e9tente\",\"regime_id\":2\x7d".toList ∧
      canonicalJson .printing (labelled "détente") ≠ dumps (labelled "détente") := by
  refine ⟨by decide +kernel, by decide +kernel, by decide +kernel⟩

end IrlEngine
