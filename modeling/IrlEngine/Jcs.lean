import IrlEngine.Seal
import IrlEngine.Lib.FloatText
import IrlEngine.Lib.JsonStyle
import IrlEngine.Lib.Utf16

/-!
# The canonical text against RFC 8785

`canonicalize_json` is documented as the JSON Canonicalization Scheme.  `jcs` is the scheme:
members sorted by UTF-16 code units, strings escaped as `JSON.stringify` does, numbers read as
doubles and written as ECMAScript writes them.

* `canonicalizeJson_eq_print` — `canonicalize_json` as a printing style, with `serde_json`'s
  numbers and strings and keys ordered by their bytes;
* `JcsForm` — the values on which the two styles agree in every number and every order of keys;
* `canonicalizeJson_eq_jcs_iff` — the canonical text is the JCS text of exactly these.
-/

namespace IrlEngine

/-! ## The scheme -/

/-- `\uhhhh`, in lower case. -/
def unicodeEscape (n : ℕ) : List Char :=
  ['\\', 'u', Encoding.hexDigit (n / 4096 % 16), Encoding.hexDigit (n / 256 % 16),
    Encoding.hexDigit (n / 16 % 16), Encoding.hexDigit (n % 16)]

/-- The escapes of RFC 8785: control characters, the quote and the backslash. -/
def jcsEscapeChar (c : Char) : List Char :=
  if c.toNat < 0x20 then
    if c.toNat = 0x08 then ['\\', 'b']
    else if c.toNat = 0x09 then ['\\', 't']
    else if c.toNat = 0x0A then ['\\', 'n']
    else if c.toNat = 0x0C then ['\\', 'f']
    else if c.toNat = 0x0D then ['\\', 'r']
    else unicodeEscape c.toNat
  else if c = '\\' ∨ c = '"' then ['\\', c]
  else [c]

/-- A string of RFC 8785. -/
def jcsString (s : String) : List Char := '"' :: s.toList.flatMap jcsEscapeChar ++ ['"']

/-- A number is read as the nearest double. -/
def jcsNumber : Number → List Char
  | .posInt n => (F64.ofNat n.toNat).ecmaText
  | .negInt n => (F64.ofNat (n.val + 1)).neg.ecmaText
  | .float f => f.ecmaText

/-- RFC 8785: members by their UTF-16 names, numbers as ECMAScript prints them. -/
def jcsStyle : Json.Style where
  number := jcsNumber
  string := jcsString
  keyLe k l := decide (Utf16.utf16 k.toList ≤ Utf16.utf16 l.toList)

/-- The JCS text of a value. -/
def jcs (v : Json) : List Char := jcsStyle.print v

/-! ## The style of `canonicalize_json` -/

/-- The style of `canonicalize_json`. -/
def serdeStyle (ft : F64 → List Char) : Json.Style where
  number := Number.print ft
  string := quote
  keyLe k l := decide (k ≤ l)

/-- Sorting by key is sorting in this style. -/
theorem sort_serdeStyle {α : Type*} (ft : F64 → List Char) (ms : List (String × α)) :
    (serdeStyle ft).sort ms = Json.sortByKey ms := by
  have hmap := List.map_insertionSort
    (fun a b : String × α => (serdeStyle ft).keyLe a.1 b.1 = true) Json.keyLe id ms
    (fun a _ b _ => by
      show decide (a.1 ≤ b.1) = true ↔ a.1 ≤ b.1
      exact decide_eq_true_iff)
  unfold Json.Style.sort Json.sortByKey
  simpa using hmap

theorem canonicalizeJson_eq_print (ft : F64 → List Char) :
    ∀ v : Json, canonicalizeJson ft v = (serdeStyle ft).print v := by
  refine @Json.rec
    (fun v => canonicalizeJson ft v = (serdeStyle ft).print v)
    (fun xs => canonicalizeAll ft xs = (serdeStyle ft).printAll xs)
    (fun ms => canonicalizeMembers ft ms = (serdeStyle ft).printMembers ms)
    (fun m => canonicalizeJson ft m.2 = (serdeStyle ft).print m.2)
    ?null ?bool ?num ?str ?arr ?obj ?nil ?cons ?mnil ?mcons ?mk
  case null => rfl
  case bool => intro b; cases b <;> rfl
  case num => intro n; rfl
  case str => intro s; rfl
  case arr =>
    intro xs ih
    rw [canonicalizeJson, Json.Style.print, ih]
  case obj =>
    intro ms ih
    rw [canonicalizeJson, Json.Style.print, ih, sort_serdeStyle]
    rfl
  case nil => rfl
  case cons =>
    intro v vs ihv ihvs
    rw [canonicalizeAll, Json.Style.printAll, ihv, ihvs]
  case mnil => rfl
  case mcons =>
    rintro ⟨k, v⟩ ms ihv ihms
    rw [canonicalizeMembers, Json.Style.printMembers, ihms]
    simp only at ihv
    rw [ihv]
  case mk => rintro k v ih; exact ih

/-! ## Strings agree -/

theorem jcsEscapeChar_eq (c : Char) : jcsEscapeChar c = escapeChar c := by
  by_cases hctl : c.toNat < 0x20
  · obtain ⟨n, hn, rfl⟩ : ∃ n < 32, c = Char.ofNat n := ⟨c.toNat, hctl, (Char.ofNat_toNat c).symm⟩
    interval_cases n <;> rfl
  · unfold jcsEscapeChar escapeChar
    rw [if_neg hctl]
    by_cases hq : c = '"'
    · subst hq; rfl
    · by_cases hb : c = '\\'
      · subst hb; rfl
      · rw [if_neg (by simp [hq, hb]), if_neg hq, if_neg hb, if_neg (by omega), if_neg (by omega),
          if_neg (by omega), if_neg (by omega), if_neg (by omega), if_neg hctl]

theorem jcsString_eq (s : String) : jcsString s = quote s := by
  unfold jcsString quote
  rw [funext jcsEscapeChar_eq]

/-! ## Numbers -/

/-- The numbers that `serde_json` writes as JCS does. -/
def EcmaNumber (plus : List Char) : Number → Prop
  | .posInt n => (F64.ofNat n.toNat).decimal = n.toNat
  | .negInt n => (F64.ofNat (n.val + 1)).decimal = (n.val + 1 : ℕ)
  | .float f => f.EcmaForm plus

theorem ecmaText_neg {f : F64} (h : f.significand ≠ 0) (hsign : f.negative = false) :
    f.neg.ecmaText = '-' :: f.ecmaText := by
  have hsig : f.neg.significand = f.significand := rfl
  have hpoint : f.neg.point = f.point := f.point_sign _
  have hshortest : f.neg.shortest = f.shortest := f.shortest_sign _
  have hneg : f.neg.negative = true := by
    unfold F64.neg
    rw [hsign]
    rfl
  unfold F64.ecmaText F64.signed
  rw [hsig, hpoint, hshortest, hneg, hsign, if_neg h, if_neg h]
  rfl

theorem print_eq_jcsNumber_iff (plus : List Char) (n : Number) :
    Number.print (F64.serdeText plus) n = jcsNumber n ↔ EcmaNumber plus n := by
  cases n with
  | posInt n =>
    show Nat.toDigits 10 n.toNat = (F64.ofNat n.toNat).ecmaText ↔ _
    rw [eq_comm]
    exact F64.ecmaText_ofNat_eq_iff n.toNat_lt
  | negInt n =>
    have hn : n.val + 1 < 2 ^ 64 := by
      have := n.isLt
      omega
    have hspec := F64.ofNat_spec (Nat.succ_ne_zero n.val) hn
    show '-' :: Nat.toDigits 10 (n.val + 1) = (F64.ofNat (n.val + 1)).neg.ecmaText ↔ _
    rw [ecmaText_neg hspec.1 (F64.negative_ofNat _), List.cons.injEq, eq_comm (b := F64.ecmaText _)]
    simp only [true_and]
    exact F64.ecmaText_ofNat_eq_iff hn
  | float f => exact F64.serdeText_eq_ecmaText_iff plus f

/-! ## Both styles are lawful -/

theorem lawful_serdeStyle {ft : F64 → List Char} (hne : ∀ f, ft f ≠ [])
    (halphabet : ∀ f, ∀ c ∈ ft f, numberChar c = true) : (serdeStyle ft).Lawful where
  number_ne_nil n := by
    cases n with
    | posInt n => exact Nat.toDigits_ne_nil
    | negInt n => exact List.cons_ne_nil _ _
    | float f => exact hne f
  number_alphabet n c hc := by
    cases n with
    | posInt n => exact F64.numberChar_of_isDigit (isDigit_of_mem_toDigits hc)
    | negInt n =>
      rcases List.mem_cons.1 hc with rfl | hc
      · decide
      · exact F64.numberChar_of_isDigit (isDigit_of_mem_toDigits hc)
    | float f => exact halphabet f c hc
  string_quoted s := ⟨_, rfl⟩
  total k l := by
    simp only [serdeStyle, decide_eq_true_eq]
    exact le_total k l
  trans k l m := by
    simp only [serdeStyle, decide_eq_true_eq]
    exact le_trans
  antisymm k l := by
    simp only [serdeStyle, decide_eq_true_eq]
    exact le_antisymm

theorem lawful_jcsStyle : jcsStyle.Lawful where
  number_ne_nil n := by
    cases n with
    | posInt n => exact F64.ecmaText_ne_nil _
    | negInt n => exact F64.ecmaText_ne_nil _
    | float f => exact F64.ecmaText_ne_nil f
  number_alphabet n c hc := by
    cases n with
    | posInt n => exact F64.numberChar_of_mem_ecmaText hc
    | negInt n => exact F64.numberChar_of_mem_ecmaText hc
    | float f => exact F64.numberChar_of_mem_ecmaText hc
  string_quoted s := ⟨_, rfl⟩
  total k l := by
    simp only [jcsStyle, decide_eq_true_eq]
    exact le_total _ _
  trans k l m := by
    simp only [jcsStyle, decide_eq_true_eq]
    exact le_trans
  antisymm k l := by
    simp only [jcsStyle, decide_eq_true_eq]
    intro h h'
    exact String.toList_inj.1 (Utf16.utf16_injective (le_antisymm h h'))

theorem separates_serde_jcs (ft : F64 → List Char) : (serdeStyle ft).Separates jcsStyle := by
  intro s t x y h
  have hquote : quote s ++ x = quote t ++ y := by
    rw [← jcsString_eq t]
    exact h
  obtain ⟨hst, hxy⟩ := quote_append_inj hquote
  exact ⟨hst, (jcsString_eq s).symm, hxy⟩

/-! ## Conformance -/

/-- The values that `canonicalize_json` writes as JCS does: every integer is the shortest decimal
of the double nearest to it, every float is printed as ECMAScript prints it, and no two keys of an
object clash in the order of UTF-16. -/
def JcsForm (plus : List Char) (v : Json) : Prop :=
  v.All (EcmaNumber plus) (fun _ => True)
    (fun ks => ∀ k ∈ ks, ∀ l ∈ ks, ¬ Utf16.Clash k.toList l.toList)

theorem keyLe_agree_iff (ft : F64 → List Char) (ks : List String) :
    (∀ k ∈ ks, ∀ l ∈ ks, (serdeStyle ft).keyLe k l = jcsStyle.keyLe k l) ↔
      ∀ k ∈ ks, ∀ l ∈ ks, ¬ Utf16.Clash k.toList l.toList := by
  have hpair : ∀ k l : String, (serdeStyle ft).keyLe k l = jcsStyle.keyLe k l ↔
      ¬ Utf16.Clash k.toList l.toList ∧ ¬ Utf16.Clash l.toList k.toList := by
    intro k l
    rw [← Utf16.le_iff_utf16_le_iff, ← String.le_iff_toList_le]
    simp only [serdeStyle, jcsStyle, decide_eq_decide]
  constructor
  · exact fun h k hk l hl => ((hpair k l).1 (h k hk l hl)).1
  · exact fun h k hk l hl => (hpair k l).2 ⟨h k hk l hl, h l hl k hk⟩

theorem agree_iff_jcsForm (plus : List Char) (v : Json) :
    Json.Style.Agree (serdeStyle (F64.serdeText plus)) jcsStyle v ↔ JcsForm plus v := by
  constructor
  · refine Json.All.mono ?_ (fun _ _ => trivial) ?_
    · exact fun n => (print_eq_jcsNumber_iff plus n).1
    · exact fun ks => (keyLe_agree_iff _ ks).1
  · refine Json.All.mono ?_ (fun s _ => (jcsString_eq s).symm) ?_
    · exact fun n => (print_eq_jcsNumber_iff plus n).2
    · exact fun ks => (keyLe_agree_iff _ ks).2

theorem uniqueKeys_jsonOption (f : Option F64) : (jsonOption jsonF64 f).UniqueKeys := by
  cases f with
  | none => exact .null
  | some f => exact .num trivial

theorem TradeAction.uniqueKeys_toJson (a : TradeAction) : a.toJson.UniqueKeys := by
  cases a with
  | long f => exact .obj (by simp) (by simp) (by simpa using .num trivial)
  | short f => exact .obj (by simp) (by simp) (by simpa using .num trivial)
  | neutral => exact .str trivial
  | custom s => exact .obj (by simp) (by simp) (by simpa using .str trivial)

theorem OrderType.uniqueKeys_toJson (t : OrderType) : t.toJson.UniqueKeys := by
  cases t with
  | custom s => exact .obj (by simp) (by simp) (by simpa using .str trivial)
  | _ => exact .str trivial

theorem ExecutionIntent.uniqueKeys_toJson (e : ExecutionIntent) : e.toJson.UniqueKeys := by
  refine .obj (by simp) (fun _ _ => trivial) ?_
  simp only [List.mem_cons, List.not_mem_nil, or_false, forall_eq_or_imp, forall_eq]
  exact ⟨e.action.uniqueKeys_toJson, .str trivial, e.orderType.uniqueKeys_toJson, .str trivial,
    .num trivial, .num trivial, .str trivial, .num trivial, uniqueKeys_jsonOption _,
    uniqueKeys_jsonOption _, .str trivial⟩

theorem SignedHeartbeat.uniqueKeys_toJson (h : SignedHeartbeat) : h.toJson.UniqueKeys := by
  refine .obj (by simp) (fun _ _ => trivial) ?_
  simp only [List.mem_cons, List.not_mem_nil, or_false, forall_eq_or_imp, forall_eq]
  exact ⟨.num trivial, .num trivial, .num trivial, .str trivial, .str trivial⟩

theorem CognitiveSnapshot.uniqueKeys_toJson (s : CognitiveSnapshot) : s.toJson.UniqueKeys := by
  refine .obj (by simp) (fun _ _ => trivial) ?_
  simp only [List.mem_cons, List.not_mem_nil, or_false, forall_eq_or_imp, forall_eq]
  exact ⟨.str trivial, .num trivial, .str trivial, .str trivial, .str trivial, .str trivial,
    s.execution.uniqueKeys_toJson, .num trivial, .num trivial, s.heartbeat.uniqueKeys_toJson⟩

/-- What is relied on of the float printer of `serde_json`: positional notation from `1e-5` to
`1e16` with `.0` after an integer, and otherwise an exponent with or without a plus sign. -/
def SerdeFloats (ft : F64 → List Char) (plus : List Char) : Prop :=
  ft = F64.serdeText plus ∧ (plus = [] ∨ plus = ['+'])

theorem SerdeFloats.lawful {ft : F64 → List Char} {plus : List Char} (h : SerdeFloats ft plus) :
    (serdeStyle ft).Lawful := by
  obtain ⟨rfl, hplus⟩ := h
  have halphabet : ∀ c ∈ plus, numberChar c = true := by
    rcases hplus with rfl | rfl
    · exact fun c hc => absurd hc List.not_mem_nil
    · exact fun c hc => F64.numberChar_of_mem_plus hc
  exact lawful_serdeStyle (F64.serdeText_ne_nil plus)
    fun f c hc => F64.numberChar_of_mem_serdeText halphabet hc

theorem canonicalizeJson_eq_jcs_of_unique {ft : F64 → List Char} {plus : List Char}
    (hft : SerdeFloats ft plus) {v : Json} (hv : v.UniqueKeys) :
    canonicalizeJson ft v = jcs v ↔ JcsForm plus v := by
  rw [canonicalizeJson_eq_print, ← agree_iff_jcsForm, ← hft.1]
  exact Json.Style.print_eq_iff hft.lawful lawful_jcsStyle (separates_serde_jcs _) hv

theorem canonicalBytes_eq_jcs_iff {K : Crates} {plus : List Char}
    (hft : SerdeFloats K.floatText plus) (s : CognitiveSnapshot) :
    s.canonicalBytes K = Text.encode (jcs s.toJson) ↔ JcsForm plus s.toJson := by
  rw [← canonicalizeJson_eq_jcs_of_unique hft s.uniqueKeys_toJson]
  exact Text.encode_injective.eq_iff

/-- **The canonical text is the JCS text of exactly the values in JCS form**; on those a JCS
library reproduces the reasoning hash of a snapshot. -/
theorem canonicalizeJson_eq_jcs_iff (K : Crates) (plus : List Char)
    (hft : SerdeFloats K.floatText plus) :
    (∀ v : Json, v.UniqueKeys →
      (canonicalizeJson K.floatText v = jcs v ↔ JcsForm plus v)) ∧
    (∀ s : CognitiveSnapshot,
      (s.canonicalBytes K = Text.encode (jcs s.toJson) ↔ JcsForm plus s.toJson) ∧
      (JcsForm plus s.toJson → s.seal K = sha256Hex (Text.encode (jcs s.toJson)))) := by
  refine ⟨fun v hv => canonicalizeJson_eq_jcs_of_unique hft hv, fun s => ?_⟩
  have hbytes := canonicalBytes_eq_jcs_iff hft s
  refine ⟨hbytes, fun h => ?_⟩
  unfold CognitiveSnapshot.seal
  rw [hbytes.2 h]

/-- The quantity of a snapshot in JCS form is no integer below `1e21`. -/
theorem quantity_of_jcsForm {plus : List Char} {s : CognitiveSnapshot}
    (h : JcsForm plus s.toJson) : s.execution.quantity.EcmaForm plus := by
  unfold JcsForm CognitiveSnapshot.toJson at h
  cases h with
  | obj _ _ hmembers =>
    have hexecution := hmembers ("execution", s.execution.toJson) (by simp)
    unfold ExecutionIntent.toJson at hexecution
    cases hexecution with
    | obj _ _ hfields =>
      have hquantity := hfields ("quantity", jsonF64 s.execution.quantity) (by simp)
      unfold jsonF64 at hquantity
      cases hquantity with
      | num hform => exact hform

/-! Values inside and outside the scheme, with the printer that signs its exponents. -/

/-- The other functions of the concrete runs, with all floats printed. -/
def Crates.printing : Crates := { Crates.sample with floatText := F64.serdeText ['+'] }

theorem serdeFloats_printing : SerdeFloats Crates.printing.floatText ['+'] := ⟨rfl, Or.inr rfl⟩

/-- A price that the two print in different ways. -/
def quotedPrice : Json :=
  .obj [("count", .num (.posInt 5)), ("price", .num (.float F64.threeQuarters))]

theorem jcsForm_quotedPrice : JcsForm ['+'] quotedPrice := by
  have hfraction : ¬ F64.threeQuarters.IsInteger := by
    rw [← F64.shortest_exponent_nonneg_iff (by decide)]
    decide +kernel
  have hlow : F64.hundredThousandth.magnitude ≤ F64.threeQuarters.magnitude := by decide +kernel
  refine .obj ?_ (fun _ _ => trivial) ?_
  · intro k hk l _
    refine Utf16.not_clash_of_low ?_ _
    simp only [List.map_cons, List.map_nil, List.mem_cons, List.not_mem_nil, or_false] at hk
    rcases hk with rfl | rfl
    · exact Text.forall_of_all (by decide)
    · exact Text.forall_of_all (by decide)
  · simp only [List.mem_cons, List.not_mem_nil, or_false, forall_eq_or_imp, forall_eq]
    exact ⟨.num (F64.decimal_ofNat (by decide)), .num (Or.inl ⟨hfraction, Or.inr hlow⟩)⟩

/-- A count and a price with a fraction are written as JCS writes them. -/
theorem canonicalizeJson_quotedPrice :
    canonicalizeJson Crates.printing.floatText quotedPrice = jcs quotedPrice := by
  have hunique : quotedPrice.UniqueKeys := by
    refine .obj (by decide) (fun _ _ => trivial) ?_
    simp only [List.mem_cons, List.not_mem_nil, or_false, forall_eq_or_imp, forall_eq]
    exact ⟨.num trivial, .num trivial⟩
  exact ((canonicalizeJson_eq_jcs_iff _ _ serdeFloats_printing).1 _ hunique).2 jcsForm_quotedPrice

/-- A quantity of one unit is written `1.0` where JCS has `1`, so that a JCS library does not
reproduce the bytes that are hashed. -/
theorem one_unit_not_jcs :
    canonicalizeJson Crates.printing.floatText (.num (.float F64.one)) = ['1', '.', '0'] ∧
      jcs (.num (.float F64.one)) = ['1'] ∧
      (CognitiveSnapshot.sample (Uuid.fill 1)).canonicalBytes Crates.printing
        ≠ Text.encode (jcs (CognitiveSnapshot.sample (Uuid.fill 1)).toJson) := by
  refine ⟨by decide +kernel, by decide +kernel, ?_⟩
  rw [Ne, canonicalBytes_eq_jcs_iff serdeFloats_printing]
  intro h
  rcases quantity_of_jcsForm h with ⟨hfraction, -⟩ | ⟨hlarge, -⟩
  · exact hfraction ⟨1, by decide +kernel⟩
  · exact absurd hlarge (by decide +kernel)

end IrlEngine
