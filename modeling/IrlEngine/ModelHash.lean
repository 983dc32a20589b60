import IrlEngine.OperatorForm

/-!
# Model hashes of the three SDKs

The Go, Python and TypeScript clients each hash a JSON text of the model configuration.  Go and
Python sort the keys of all objects; TypeScript sorts those of the outermost one by locale and
leaves the others in the order of their properties.  The three escape texts differently, and
TypeScript reads integers as doubles.

* `PortableConfig` — the configurations of which all three hash the same bytes;
* `model_hash_agree_iff` — these are exactly the ones.
-/

namespace IrlEngine

/-! ## Go -/

/-- The escapes of `json.Marshal`, which are safe within HTML; `shortEscapes` says whether `\b` and
`\f` have the short form, as they do since Go 1.22. -/
def goEscapeChar (shortEscapes : Bool) (c : Char) : List Char :=
  if c = '"' ∨ c = '\\' then ['\\', c]
  else if c.toNat = 0x0A then ['\\', 'n']
  else if c.toNat = 0x0D then ['\\', 'r']
  else if c.toNat = 0x09 then ['\\', 't']
  else if c.toNat = 0x08 ∧ shortEscapes = true then ['\\', 'b']
  else if c.toNat = 0x0C ∧ shortEscapes = true then ['\\', 'f']
  else if c.toNat < 0x20 ∨ c = '<' ∨ c = '>' ∨ c = '&' then unicodeEscape c.toNat
  else if c.toNat = 0x2028 ∨ c.toNat = 0x2029 then unicodeEscape c.toNat
  else [c]

/-- A string as `encoding/json` prints it. -/
def goString (shortEscapes : Bool) (s : String) : List Char :=
  '"' :: s.toList.flatMap (goEscapeChar shortEscapes) ++ ['"']

/-- A number as `encoding/json` prints it. -/
def goNumber : Number → List Char
  | .posInt n => Nat.toDigits 10 n.toNat
  | .negInt n => '-' :: Nat.toDigits 10 (n.val + 1)
  | .float f => if f.significand = 0 ∧ f.negative = true then ['-', '0'] else f.ecmaText

/-- `json.Marshal`: the keys of maps are sorted by their bytes. -/
def goStyle (shortEscapes : Bool) : Json.Style where
  number := goNumber
  string := goString shortEscapes
  keyLe k l := decide (k ≤ l)

/-- The text of `ComputeModelHash`: the keys of the map are sorted, and each key and value is
marshalled by itself. -/
def goCanonical (shortEscapes : Bool) (config : List (String × Json)) : List Char :=
  '{' :: joinComma (((goStyle shortEscapes).sort config).map fun m =>
    goString shortEscapes m.1 ++ ':' :: (goStyle shortEscapes).print m.2) ++ ['}']

/-- `ComputeModelHash` of the Go client. -/
def goComputeModelHash (shortEscapes : Bool) (config : List (String × Json)) : String :=
  sha256Hex (Text.encode (goCanonical shortEscapes config))

/-! ## Python -/

/-- The text of `compute_model_hash`. -/
def pythonCanonical (config : List (String × Json)) : List Char := dumps (.obj config)

/-- `compute_model_hash` of the Python client. -/
def pythonComputeModelHash (config : List (String × Json)) : String :=
  sha256Hex (Text.encode (pythonCanonical config))

/-! ## TypeScript -/

/-- A key that is the decimal of an integer below `2 ^ 32 - 1`. -/
def arrayIndex (k : String) : Option ℕ :=
  let n := k.toList.foldl (fun n c => 10 * n + (c.toNat - 48)) 0
  if k.toList = Nat.toDigits 10 n ∧ n < 4294967295 then some n else none

/-- The order of own properties: array indices ascending, then the others as they were added. -/
def propertyLe (k l : String) : Bool :=
  match arrayIndex k, arrayIndex l with
  | some m, some n => decide (m ≤ n)
  | some _, none => true
  | none, some _ => false
  | none, none => true

/-- `JSON.stringify`: the members of an object are its properties in their order. -/
def stringifyStyle : Json.Style where
  number := jcsNumber
  string := jcsString
  keyLe := propertyLe

/-- `a.localeCompare(b) <= 0`, a consistent comparison. -/
structure LocaleCompare where
  le : String → String → Bool
  total : ∀ k l, le k l = true ∨ le l k = true
  trans : ∀ k l m, le k l = true → le l m = true → le k m = true

/-- `Object.fromEntries(Object.entries(config).sort(…))`, whose properties are again in their
order. -/
def typescriptOrder {α : Type*} (L : LocaleCompare) (config : List (String × α)) :
    List (String × α) :=
  stringifyStyle.sort ((stringifyStyle.sort config).insertionSort fun a b => L.le a.1 b.1 = true)

/-- The text of `computeModelHash`. -/
def typescriptCanonical (L : LocaleCompare) (config : List (String × Json)) : List Char :=
  '{' :: joinComma ((typescriptOrder L config).map stringifyStyle.memberText) ++ ['}']

/-- `computeModelHash` of the TypeScript client. -/
def typescriptComputeModelHash (L : LocaleCompare) (config : List (String × Json)) : String :=
  sha256Hex (Text.encode (typescriptCanonical L config))

/-! ## Characters -/

/-- The characters that only Go escapes. -/
def GoOnly (shortEscapes : Bool) (c : Char) : Prop :=
  c = '<' ∨ c = '>' ∨ c = '&' ∨ c.toNat = 0x2028 ∨ c.toNat = 0x2029 ∨
    (shortEscapes = false ∧ (c.toNat = 0x08 ∨ c.toNat = 0x0C))

theorem goEscapeChar_of_goOnly {shortEscapes : Bool} {c : Char} (h : GoOnly shortEscapes c) :
    goEscapeChar shortEscapes c = unicodeEscape c.toNat := by
  have hof : ∀ {n : ℕ}, c.toNat = n → c = Char.ofNat n := fun hn => hn ▸ (Char.ofNat_toNat c).symm
  rcases h with rfl | rfl | rfl | hn | hn | ⟨rfl, hn | hn⟩
  · cases shortEscapes <;> rfl
  · cases shortEscapes <;> rfl
  · cases shortEscapes <;> rfl
  · rw [hof hn]
    cases shortEscapes <;> rfl
  · rw [hof hn]
    cases shortEscapes <;> rfl
  · rw [hof hn]
    rfl
  · rw [hof hn]
    rfl

theorem goEscapeChar_of_not {shortEscapes : Bool} {c : Char} (h : ¬ GoOnly shortEscapes c) :
    goEscapeChar shortEscapes c = escapeChar c := by
  simp only [GoOnly, not_or, not_and] at h
  obtain ⟨hlt, hgt, hamp, hline, hparagraph, hshort⟩ := h
  by_cases hctl : c.toNat < 0x20
  · obtain ⟨n, hn, rfl⟩ : ∃ n < 32, c = Char.ofNat n := ⟨c.toNat, hctl, (Char.ofNat_toNat c).symm⟩
    cases shortEscapes with
    | true => interval_cases n <;> rfl
    | false =>
      have hlong := hshort rfl
      interval_cases n <;> first | rfl | exact absurd rfl hlong.1 | exact absurd rfl hlong.2
  · unfold goEscapeChar escapeChar
    by_cases hq : c = '"'
    · simp [hq]
    · by_cases hb : c = '\\'
      · simp [hb]
      · rw [if_neg (by simp [hq, hb]), if_neg (by omega), if_neg (by omega), if_neg (by omega),
          if_neg (by omega), if_neg (by omega), if_neg (by simp [hctl, hlt, hgt, hamp]),
          if_neg (by omega), if_neg hq, if_neg hb, if_neg (by omega), if_neg (by omega),
          if_neg (by omega), if_neg (by omega), if_neg (by omega), if_neg hctl]

/-- An escape of four digits is read as the character of its last two. -/
theorem readChar_unicodeEscape (u : ℕ) (x : List Char) :
    readChar (unicodeEscape u ++ x) = some (Char.ofNat (u % 256), x) := by
  have hvalue : 16 * (u / 16 % 16) + u % 16 = u % 256 := by omega
  simp only [unicodeEscape, List.cons_append, List.nil_append, readChar,
    Encoding.hexValue_hexDigit (Nat.mod_lt _ (by decide : 0 < 16)), bind, Option.bind_some, pure]
  rw [hvalue]

theorem GoOnly.toNat_mem {shortEscapes : Bool} {c : Char} (h : GoOnly shortEscapes c) :
    c.toNat ∈ [0x3C, 0x3E, 0x26, 0x2028, 0x2029, 0x08, 0x0C] := by
  rcases h with rfl | rfl | rfl | hn | hn | ⟨-, hn | hn⟩
  · decide
  · decide
  · decide
  · simp [hn]
  · simp [hn]
  · simp [hn]
  · simp [hn]

/-- What Go escapes alone cannot be read as an escape of the others. -/
theorem unicodeEscape_ne_escapeChar {shortEscapes : Bool} {c : Char} (h : GoOnly shortEscapes c)
    (d : Char) (x y : List Char) : unicodeEscape c.toNat ++ x ≠ escapeChar d ++ y := by
  intro heq
  have hread := congrArg readChar heq
  rw [readChar_unicodeEscape, readChar_escapeChar, Option.some.injEq, Prod.mk.injEq] at hread
  obtain ⟨rfl, rfl⟩ := hread
  have hescape := List.append_cancel_right heq
  have hmem := h.toNat_mem
  generalize c.toNat = n at hescape hmem
  simp only [List.mem_cons, List.not_mem_nil, or_false] at hmem
  rcases hmem with rfl | rfl | rfl | rfl | rfl | rfl | rfl <;> exact absurd hescape (by decide)

theorem goEscapeChar_append_inj {shortEscapes : Bool} (c d : Char) (x y : List Char)
    (h : goEscapeChar shortEscapes c ++ x = escapeChar d ++ y) :
    c = d ∧ ¬ GoOnly shortEscapes c ∧ x = y := by
  by_cases honly : GoOnly shortEscapes c
  · rw [goEscapeChar_of_goOnly honly] at h
    exact absurd h (unicodeEscape_ne_escapeChar honly d x y)
  · rw [goEscapeChar_of_not honly] at h
    obtain ⟨hcd, hxy⟩ := escapeChar_append_inj h
    exact ⟨hcd, honly, hxy⟩

theorem goEscapeChar_ne_quote {shortEscapes : Bool} (c : Char) (x y : List Char) :
    goEscapeChar shortEscapes c ++ x ≠ '"' :: y := by
  by_cases honly : GoOnly shortEscapes c
  · rw [goEscapeChar_of_goOnly honly]
    exact fun h => absurd (List.cons.inj h).1 (by decide)
  · rw [goEscapeChar_of_not honly]
    exact escapeChar_ne_quote c x y

theorem goString_append_quote {shortEscapes : Bool} {s t : String} {x y : List Char}
    (h : goString shortEscapes s ++ x = quote t ++ y) :
    s = t ∧ (∀ c ∈ s.toList, ¬ GoOnly shortEscapes c) ∧ x = y := by
  have hflat : s.toList.flatMap (goEscapeChar shortEscapes) ++ '"' :: x
      = t.toList.flatMap escapeChar ++ '"' :: y := by
    simpa [goString, quote] using h
  obtain ⟨hst, hs, hxy⟩ := flatMap_escape_append_inj goEscapeChar_append_inj goEscapeChar_ne_quote
    escapeChar_ne_quote _ _ _ _ hflat
  exact ⟨String.toList_inj.1 hst, hs, hxy⟩

theorem goString_eq_quote_iff (shortEscapes : Bool) (s : String) :
    goString shortEscapes s = quote s ↔ ∀ c ∈ s.toList, ¬ GoOnly shortEscapes c := by
  constructor
  · intro h
    exact (goString_append_quote (x := []) (y := []) (by rw [h])).2.1
  · intro h
    have hflat : s.toList.flatMap (goEscapeChar shortEscapes) = s.toList.flatMap escapeChar :=
      List.flatMap_congr fun c hc => goEscapeChar_of_not (h c hc)
    unfold goString quote
    rw [hflat]

/-! ## Styles -/

theorem separates_go_stringify (shortEscapes : Bool) :
    (goStyle shortEscapes).Separates stringifyStyle := by
  intro s t x y h
  have hquote : goString shortEscapes s ++ x = quote t ++ y := by
    rw [← jcsString_eq t]
    exact h
  obtain ⟨hst, hs, hxy⟩ := goString_append_quote hquote
  refine ⟨hst, ?_, hxy⟩
  exact ((goString_eq_quote_iff shortEscapes s).2 hs).trans (jcsString_eq s).symm

theorem separates_stringify_python : stringifyStyle.Separates pythonStyle := by
  intro s t x y h
  have hquote : quote s ++ x = pythonString t ++ y := by
    rw [← jcsString_eq s]
    exact h
  obtain ⟨hst, hs, hxy⟩ := quote_append_pythonString hquote
  exact ⟨hst, (jcsString_eq s).trans (pythonString_of_printable hs), hxy⟩

theorem readable_stringifyStyle : stringifyStyle.Readable :=
  ⟨lawful_jcsStyle.number_ne_nil, lawful_jcsStyle.number_alphabet, fun _ => ⟨_, rfl⟩⟩

theorem readable_goStyle (shortEscapes : Bool) : (goStyle shortEscapes).Readable where
  number_ne_nil n := by
    cases n with
    | posInt n => exact Nat.toDigits_ne_nil
    | negInt n => exact List.cons_ne_nil _ _
    | float f =>
      show (if _ then _ else _) ≠ _
      split
      · exact List.cons_ne_nil _ _
      · exact f.ecmaText_ne_nil
  number_alphabet n c hc := by
    cases n with
    | posInt n => exact lawful_pythonStyle.number_alphabet (.posInt n) c hc
    | negInt n => exact lawful_pythonStyle.number_alphabet (.negInt n) c hc
    | float f =>
      change c ∈ (if _ then _ else _) at hc
      split at hc
      · simp only [List.mem_cons, List.not_mem_nil, or_false] at hc
        rcases hc with rfl | rfl
        · decide
        · decide
      · exact F64.numberChar_of_mem_ecmaText hc
  string_quoted _ := ⟨_, rfl⟩

/-! ## Portable configurations -/

/-- Not a float. -/
def IsInteger : Number → Prop
  | .float _ => False
  | _ => True

/-- The integer is the shortest decimal of the double nearest to it. -/
def DoubleInteger : Number → Prop
  | .posInt n => (F64.ofNat n.toNat).decimal = n.toNat
  | .negInt n => (F64.ofNat (n.val + 1)).decimal = (n.val + 1 : ℕ)
  | .float _ => False

/-- Characters below U+007F that Go does not escape for HTML, and before Go 1.22 neither backspace
nor form feed. -/
def PortableText (shortEscapes : Bool) (s : String) : Prop :=
  ∀ c ∈ s.toList, c.toNat < 0x7F ∧ c ≠ '<' ∧ c ≠ '>' ∧ c ≠ '&' ∧
    (shortEscapes = true ∨ c.toNat ≠ 0x08 ∧ c.toNat ≠ 0x0C)

/-- Keys by code points, as Go and Python have them. -/
def sortedKeys (ks : List String) : List String := ks.insertionSort (· ≤ ·)

/-- The properties of an object, in their order. -/
def propertyKeys (ks : List String) : List String :=
  ks.insertionSort fun k l => propertyLe k l = true

/-- The keys of the object that `computeModelHash` builds. -/
def typescriptKeys (L : LocaleCompare) (ks : List String) : List String :=
  propertyKeys ((propertyKeys ks).insertionSort fun k l => L.le k l = true)

/-- Portable texts and integers; the properties of every inner object are in the order of their
code points, and so are those of the outermost one after it has been sorted by locale. -/
structure PortableConfig (shortEscapes : Bool) (L : LocaleCompare) (config : List (String × Json)) :
    Prop where
  texts : ∀ m ∈ config, PortableText shortEscapes m.1
  values : ∀ m ∈ config, m.2.All DoubleInteger (PortableText shortEscapes)
    fun ks => propertyKeys ks = sortedKeys ks
  order : typescriptKeys L (config.map Prod.fst) = sortedKeys (config.map Prod.fst)

theorem portableText_iff {shortEscapes : Bool} {s : String} :
    PortableText shortEscapes s ↔ Printable s ∧ ∀ c ∈ s.toList, ¬ GoOnly shortEscapes c := by
  constructor
  · intro h
    refine ⟨fun c hc => (h c hc).1, fun c hc honly => ?_⟩
    obtain ⟨hlow, hlt, hgt, hamp, hshort⟩ := h c hc
    rcases honly with rfl | rfl | rfl | hn | hn | ⟨hlong, hn⟩
    · exact hlt rfl
    · exact hgt rfl
    · exact hamp rfl
    · omega
    · omega
    · rcases hshort with hshort | ⟨hb, hf⟩
      · rw [hshort] at hlong
        cases hlong
      · exact hn.elim hb hf
  · rintro ⟨hprintable, honly⟩ c hc
    have hnot := honly c hc
    simp only [GoOnly, not_or, not_and] at hnot
    obtain ⟨hlt, hgt, hamp, -, -, hshort⟩ := hnot
    refine ⟨hprintable c hc, hlt, hgt, hamp, ?_⟩
    cases shortEscapes with
    | true => exact Or.inl rfl
    | false => exact Or.inr (hshort rfl)

/-- The three write a text alike exactly if it is portable. -/
theorem strings_agree_iff {shortEscapes : Bool} {s : String} :
    (goString shortEscapes s = jcsString s ∧ jcsString s = pythonString s) ↔
      PortableText shortEscapes s := by
  rw [jcsString_eq, goString_eq_quote_iff, quote_eq_pythonString_iff, portableText_iff, and_comm]

theorem numbers_agree_iff {n : Number} (hn : IsInteger n) :
    (goNumber n = jcsNumber n ∧ jcsNumber n = pythonNumber n) ↔ DoubleInteger n := by
  have hjs := print_eq_jcsNumber_iff [] n
  cases n with
  | posInt n => exact ⟨fun h => hjs.1 h.1, fun h => ⟨hjs.2 h, (hjs.2 h).symm⟩⟩
  | negInt n => exact ⟨fun h => hjs.1 h.1, fun h => ⟨hjs.2 h, (hjs.2 h).symm⟩⟩
  | float f => exact hn.elim

theorem sortKeys_goStyle (shortEscapes : Bool) (ks : List String) :
    (goStyle shortEscapes).sortKeys ks = sortedKeys ks := by
  have hmap :=
    List.map_insertionSort (fun k l => (goStyle shortEscapes).keyLe k l = true) (· ≤ ·) id
    ks (fun k _ l _ => by
      show decide (k ≤ l) = true ↔ k ≤ l
      exact decide_eq_true_iff)
  unfold Json.Style.sortKeys sortedKeys
  simpa using hmap

/-- Inside the outermost object, the three agree exactly on portable values. -/
theorem values_agree_iff {shortEscapes : Bool} {v : Json}
    (hv : v.All IsInteger (fun _ => True) fun _ => True) :
    ((goStyle shortEscapes).AgreeSorted stringifyStyle v ∧
        stringifyStyle.AgreeSorted pythonStyle v) ↔
      v.All DoubleInteger (PortableText shortEscapes) fun ks => propertyKeys ks
        = sortedKeys ks := by
  have hgo : ∀ ks, (goStyle shortEscapes).sortKeys ks = sortedKeys ks :=
    sortKeys_goStyle shortEscapes
  have hpython : ∀ ks, pythonStyle.sortKeys ks = sortedKeys ks := hgo
  constructor
  · rintro ⟨hleft, hright⟩
    refine ((hleft.and hright).and hv).mono ?_ ?_ ?_
    · exact fun n hn => (numbers_agree_iff hn.2).1 hn.1
    · exact fun s hs => strings_agree_iff.1 hs.1
    · exact fun ks hks => hks.1.2.trans (hpython ks)
  · intro h
    have hboth := Json.All.and h hv
    refine ⟨hboth.mono ?_ ?_ ?_, hboth.mono ?_ ?_ ?_⟩
    · exact fun n hn => ((numbers_agree_iff hn.2).2 hn.1).1
    · exact fun s hs => (strings_agree_iff.2 hs.1).1
    · exact fun ks hks => (hgo ks).trans hks.1.symm
    · exact fun n hn => ((numbers_agree_iff hn.2).2 hn.1).2
    · exact fun s hs => (strings_agree_iff.2 hs.1).2
    · exact fun ks hks => hks.1.trans (hpython ks).symm

/-! ## The outermost object -/

theorem goCanonical_eq (shortEscapes : Bool) (config : List (String × Json)) :
    goCanonical shortEscapes config
      = '{' :: joinComma (((goStyle shortEscapes).sort config).map
          (goStyle shortEscapes).memberText) ++ ['}'] := rfl

theorem pythonCanonical_eq (config : List (String × Json)) :
    pythonCanonical config
      = '{' :: joinComma ((pythonStyle.sort config).map pythonStyle.memberText) ++ ['}'] :=
  Json.Style.print_obj config

theorem mem_typescriptOrder {α : Type*} {L : LocaleCompare} {config : List (String × α)}
    {m : String × α} : m ∈ typescriptOrder L config ↔ m ∈ config := by
  unfold typescriptOrder
  rw [Json.Style.mem_sort, List.mem_insertionSort, Json.Style.mem_sort]

theorem map_fst_typescriptOrder {α : Type*} (L : LocaleCompare) (config : List (String × α)) :
    (typescriptOrder L config).map Prod.fst = typescriptKeys L (config.map Prod.fst) := by
  unfold typescriptOrder typescriptKeys
  rw [Json.Style.map_fst_sort, List.map_insertionSort (fun a b : String × α => L.le a.1 b.1 = true)
    (fun k l => L.le k l = true) Prod.fst _ (fun _ _ _ _ => Iff.rfl), Json.Style.map_fst_sort]
  rfl

/-- The members come in the same order if the keys do. -/
theorem sort_eq_typescriptOrder_iff {S : Json.Style} (hS : ∀ ks, S.sortKeys ks = sortedKeys ks)
    (L : LocaleCompare) {config : List (String × Json)} (hnodup : (config.map Prod.fst).Nodup) :
    S.sort config = typescriptOrder L config ↔
      typescriptKeys L (config.map Prod.fst) = sortedKeys (config.map Prod.fst) := by
  rw [← map_fst_typescriptOrder, ← hS, ← Json.Style.map_fst_sort]
  constructor
  · intro h
    rw [h]
  · intro h
    exact Json.Style.eq_of_map_fst_eq hnodup _ _ (fun m hm => Json.Style.mem_sort.1 hm)
      (fun m hm => mem_typescriptOrder.1 hm) h.symm

theorem go_eq_typescript_iff {shortEscapes : Bool} {L : LocaleCompare}
    {config : List (String × Json)}
    (hkeys : (Json.obj config).UniqueKeys) (hnodup : (config.map Prod.fst).Nodup) :
    goCanonical shortEscapes config = typescriptCanonical L config ↔
      typescriptKeys L (config.map Prod.fst) = sortedKeys (config.map Prod.fst) ∧
        ∀ m ∈ config, goString shortEscapes m.1 = jcsString m.1 ∧
          (goStyle shortEscapes).AgreeSorted stringifyStyle m.2 := by
  rw [goCanonical_eq, typescriptCanonical, Json.Style.object_text_eq_iff (readable_goStyle _)
    readable_stringifyStyle (separates_go_stringify _) hkeys (fun m hm => Json.Style.mem_sort.1 hm)
    (fun m hm => mem_typescriptOrder.1 hm),
    sort_eq_typescriptOrder_iff (sortKeys_goStyle _) L hnodup]
  simp only [Json.Style.mem_sort]
  rfl

theorem typescript_eq_python_iff {L : LocaleCompare} {config : List (String × Json)}
    (hkeys : (Json.obj config).UniqueKeys) (hnodup : (config.map Prod.fst).Nodup) :
    typescriptCanonical L config = pythonCanonical config ↔
      typescriptKeys L (config.map Prod.fst) = sortedKeys (config.map Prod.fst) ∧
        ∀ m ∈ config, jcsString m.1 = pythonString m.1 ∧
          stringifyStyle.AgreeSorted pythonStyle m.2 := by
  rw [pythonCanonical_eq, typescriptCanonical, Json.Style.object_text_eq_iff readable_stringifyStyle
    lawful_pythonStyle.readable separates_stringify_python hkeys
    (fun m hm => mem_typescriptOrder.1 hm) (fun m hm => Json.Style.mem_sort.1 hm),
    eq_comm (a := typescriptOrder L config),
    sort_eq_typescriptOrder_iff (S := pythonStyle) (sortKeys_goStyle true) L hnodup]
  simp only [mem_typescriptOrder]
  rfl

/-- The three texts are the same exactly if the configuration is portable. -/
theorem canonical_agree_iff {shortEscapes : Bool} {L : LocaleCompare}
    {config : List (String × Json)} (hkeys : (Json.obj config).UniqueKeys)
    (hints : (Json.obj config).All IsInteger (fun _ => True) fun _ => True) :
    (goCanonical shortEscapes config = typescriptCanonical L config ∧
        typescriptCanonical L config = pythonCanonical config) ↔
      PortableConfig shortEscapes L config := by
  have hnodup : (config.map Prod.fst).Nodup := by
    cases hkeys with
    | obj hnodup _ _ => exact hnodup
  have hvalues : ∀ m ∈ config, m.2.All IsInteger (fun _ => True) fun _ => True := by
    cases hints with
    | obj _ _ hvalues => exact hvalues
  rw [go_eq_typescript_iff hkeys hnodup, typescript_eq_python_iff hkeys hnodup]
  constructor
  · rintro ⟨⟨horder, hgo⟩, -, hpython⟩
    refine ⟨fun m hm => strings_agree_iff.1 ⟨(hgo m hm).1, (hpython m hm).1⟩,
      fun m hm => ?_, horder⟩
    exact (values_agree_iff (hvalues m hm)).1 ⟨(hgo m hm).2, (hpython m hm).2⟩
  · rintro ⟨htexts, hvals, horder⟩
    refine ⟨⟨horder, fun m hm => ?_⟩, horder, fun m hm => ?_⟩
    · exact ⟨(strings_agree_iff.2 (htexts m hm)).1,
        ((values_agree_iff (hvalues m hm)).2 (hvals m hm)).1⟩
    · exact ⟨(strings_agree_iff.2 (htexts m hm)).2,
        ((values_agree_iff (hvalues m hm)).2 (hvals m hm)).2⟩

/-- **When the SDKs hash the same bytes.**  For a configuration of strings, integers, booleans,
`null`, arrays and objects, the three texts are the same exactly if the configuration is portable;
then the three hashes are. -/
theorem model_hash_agree_iff (shortEscapes : Bool) (L : LocaleCompare)
    {config : List (String × Json)} (hkeys : (Json.obj config).UniqueKeys)
    (hints : (Json.obj config).All IsInteger (fun _ => True) fun _ => True) :
    (Text.encode (goCanonical shortEscapes config) = Text.encode (pythonCanonical config) ∧
        Text.encode (pythonCanonical config) = Text.encode (typescriptCanonical L config) ↔
      PortableConfig shortEscapes L config) ∧
    (PortableConfig shortEscapes L config →
      goComputeModelHash shortEscapes config = pythonComputeModelHash config ∧
        pythonComputeModelHash config = typescriptComputeModelHash L config) := by
  have hagree : _ ↔ PortableConfig shortEscapes L config := canonical_agree_iff hkeys hints
  simp only [Text.encode_injective.eq_iff]
  constructor
  · rw [← hagree]
    constructor
    · rintro ⟨hgo, hpython⟩
      exact ⟨hgo.trans hpython, hpython.symm⟩
    · rintro ⟨hgo, hpython⟩
      exact ⟨hgo.trans hpython, hpython.symm⟩
  · intro hportable
    obtain ⟨hgo, hpython⟩ := hagree.2 hportable
    unfold goComputeModelHash pythonComputeModelHash typescriptComputeModelHash
    rw [hgo, hpython]
    exact ⟨rfl, rfl⟩

/-! The configuration of the documentation, and one with an object inside. -/

/-- The order by code points, which is that of every locale on lower-case letters. -/
def LocaleCompare.sample : LocaleCompare where
  le k l := decide (k ≤ l)
  total k l := by simpa using le_total k l
  trans k l m hkl hlm := by
    simp only [decide_eq_true_eq] at *
    exact hkl.trans hlm

/-- The configuration of the examples. -/
def documentedConfig : List (String × Json) := [("model", .str "hmm-v3.1"), ("version", .str "1.0")]

theorem portable_documentedConfig : PortableConfig true .sample documentedConfig := by
  have hmodel : PortableText true "model" := Text.forall_of_all (by decide)
  have hversion : PortableText true "version" := Text.forall_of_all (by decide)
  have hname : PortableText true "hmm-v3.1" := Text.forall_of_all (by decide)
  have hnumber : PortableText true "1.0" := Text.forall_of_all (by decide)
  refine ⟨?_, ?_, by decide⟩
  · simp only [documentedConfig, List.mem_cons, List.not_mem_nil, or_false, forall_eq_or_imp,
      forall_eq]
    exact ⟨hmodel, hversion⟩
  · simp only [documentedConfig, List.mem_cons, List.not_mem_nil, or_false, forall_eq_or_imp,
      forall_eq]
    exact ⟨.str hname, .str hnumber⟩

theorem integers_documentedConfig :
    (Json.obj documentedConfig).All IsInteger (fun _ => True) List.Nodup := by
  refine .obj (by decide) (fun _ _ => trivial) ?_
  simp only [documentedConfig, List.mem_cons, List.not_mem_nil, or_false, forall_eq_or_imp,
    forall_eq]
  exact ⟨.str trivial, .str trivial⟩

/-- The configuration of the documentation has one hash. -/
theorem documented_hash_agrees :
    goComputeModelHash true documentedConfig = pythonComputeModelHash documentedConfig ∧
      pythonComputeModelHash documentedConfig
        = typescriptComputeModelHash .sample documentedConfig := by
  have hkeys : (Json.obj documentedConfig).UniqueKeys :=
    integers_documentedConfig.mono (fun _ _ => trivial) (fun _ h => h) (fun _ h => h)
  have hints : (Json.obj documentedConfig).All IsInteger (fun _ => True) fun _ => True :=
    integers_documentedConfig.mono (fun _ h => h) (fun _ h => h) (fun _ _ => trivial)
  exact (model_hash_agree_iff true .sample hkeys hints).2 portable_documentedConfig

/-- An inner object whose keys were not added in ascending order. -/
def nestedConfig : List (String × Json) :=
  [("m", .obj [("b", .num (.posInt 1)), ("a", .num (.posInt 2))])]

theorem integers_nestedConfig :
    (Json.obj nestedConfig).All IsInteger (fun _ => True) List.Nodup := by
  refine .obj (by decide) (fun _ _ => trivial) ?_
  simp only [nestedConfig, List.mem_cons, List.not_mem_nil, or_false, forall_eq]
  refine .obj (by decide) (fun _ _ => trivial) ?_
  simp only [List.mem_cons, List.not_mem_nil, or_false, forall_eq_or_imp, forall_eq]
  exact ⟨.num trivial, .num trivial⟩

/-- Python sorts the inner keys, TypeScript leaves them as they are. -/
theorem nested_hash_differs : (Json.obj nestedConfig).UniqueKeys ∧
    (Json.obj nestedConfig).All IsInteger (fun _ => True) (fun _ => True) ∧
    Text.encode (pythonCanonical nestedConfig)
      ≠ Text.encode (typescriptCanonical .sample nestedConfig) := by
  have hkeys : (Json.obj nestedConfig).UniqueKeys :=
    integers_nestedConfig.mono (fun _ _ => trivial) (fun _ h => h) (fun _ h => h)
  refine ⟨hkeys, integers_nestedConfig.mono (fun _ h => h) (fun _ h => h) (fun _ _ => trivial), ?_⟩
  intro h
  have htext := (Text.encode_injective h).symm
  have hinner := (((typescript_eq_python_iff hkeys (by decide)).1 htext).2 _
    (List.mem_cons_self ..)).2
  cases hinner with
  | obj hsorted _ _ => exact absurd hsorted (by decide)

end IrlEngine
