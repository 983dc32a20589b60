import Mathlib.Data.String.Basic
import Mathlib.Data.List.Infix

/-!
# Rust string operations

The `str` methods that keyword matching and hashing use, on Lean strings: ASCII
case folding, trimming of Unicode white space, prefix and substring tests, and
the UTF-8 bytes of a string, which determine it (`utf8_injective`).
-/

namespace Text

/-- `char::is_whitespace`: the Unicode `White_Space` property. -/
def isWhitespace (c : Char) : Bool :=
  let n := c.toNat
  (9 ≤ n && n ≤ 13) || n = 0x20 || n = 0x85 || n = 0xA0 || n = 0x1680 || (0x2000 ≤ n && n ≤ 0x200A)
    || n = 0x2028 || n = 0x2029 || n = 0x202F || n = 0x205F || n = 0x3000

/-- `str::trim`. -/
def trim (s : List Char) : List Char :=
  ((s.dropWhile isWhitespace).reverse.dropWhile isWhitespace).reverse

/-- `str::to_ascii_lowercase`. -/
def toAsciiLowercase (s : List Char) : List Char := s.map Char.toLower

/-- `str::starts_with`. -/
def startsWith (s : List Char) (pat : String) : Bool := pat.toList.isPrefixOf s

/-- `str::contains`. -/
def contains (s : List Char) (pat : String) : Bool := decide (pat.toList <:+: s)

/-- Equality with a string literal. -/
def isText (s : List Char) (t : String) : Bool := decide (s = t.toList)

/-- `str::eq_ignore_ascii_case`. -/
def eqIgnoreAsciiCase (s t : String) : Bool :=
  decide (toAsciiLowercase s.toList = toAsciiLowercase t.toList)

/-- The UTF-8 bytes of a list of characters. -/
def encode (cs : List Char) : List UInt8 := cs.flatMap String.utf8EncodeChar

/-- `str::as_bytes`. -/
def utf8 (s : String) : List UInt8 := encode s.toList

theorem encode_injective : Function.Injective encode := by
  intro cs ds h
  have hbytes : cs.utf8Encode = ds.utf8Encode := congrArg List.toByteArray h
  have hdecode := congrArg ByteArray.utf8Decode? hbytes
  rw [List.utf8Decode?_utf8Encode, List.utf8Decode?_utf8Encode] at hdecode
  simpa using hdecode

theorem utf8_injective : Function.Injective utf8 := by
  intro s t h
  exact String.toList_inj.1 (encode_injective h)

/-- `str::from_utf8`. -/
def fromUtf8 (bytes : List UInt8) : Option String :=
  bytes.toByteArray.utf8Decode?.map fun cs => String.ofList cs.toList

theorem fromUtf8_utf8 (s : String) : fromUtf8 (utf8 s) = some s := by
  have hdecode : (utf8 s).toByteArray.utf8Decode? = some s.toList.toArray :=
    List.utf8Decode?_utf8Encode
  rw [fromUtf8, hdecode, Option.map_some, List.toList_toArray, String.ofList_toList]

/-- An ASCII character is encoded by one byte. -/
theorem length_encode_of_ascii {cs : List Char} (h : ∀ c ∈ cs, c.utf8Size = 1) :
    (encode cs).length = cs.length := by
  induction cs with
  | nil => rfl
  | cons c cs ih =>
    have hc : (String.utf8EncodeChar c).length = 1 := by
      rw [String.length_utf8EncodeChar, h c (by simp)]
    have hcs : (encode cs).length = cs.length := ih fun d hd => h d (by simp [hd])
    simp only [encode, List.flatMap_cons, List.length_append, hc, List.length_cons] at hcs ⊢
    omega

/-- The bytes of a character that is not ASCII are all above those of ASCII. -/
theorem eq_of_mem_utf8EncodeChar {c : Char} {b : UInt8} (hb : b.toNat < 128)
    (h : b ∈ String.utf8EncodeChar c) : c.toNat = b.toNat := by
  have hv : c.toNat = c.val.toNat := rfl
  unfold String.utf8EncodeChar at h
  dsimp only at h
  split at h
  · rw [List.mem_singleton] at h
    subst h
    rw [UInt8.toNat_ofNat']
    omega
  · exfalso
    have hhigh : ∀ n, 128 ≤ n % 256 → b ≠ UInt8.ofNat n := by
      rintro n hn rfl
      rw [UInt8.toNat_ofNat'] at hb
      omega
    split at h
    · simp only [List.mem_cons, List.not_mem_nil, or_false] at h
      rcases h with h | h
      · exact hhigh _ (by omega) h
      · exact hhigh _ (by omega) h
    · split at h
      · simp only [List.mem_cons, List.not_mem_nil, or_false] at h
        rcases h with h | h | h
        · exact hhigh _ (by omega) h
        · exact hhigh _ (by omega) h
        · exact hhigh _ (by omega) h
      · simp only [List.mem_cons, List.not_mem_nil, or_false] at h
        rcases h with h | h | h | h
        · exact hhigh _ (by omega) h
        · exact hhigh _ (by omega) h
        · exact hhigh _ (by omega) h
        · exact hhigh _ (by omega) h

/-- An ASCII byte occurs in the encoding of its own character only. -/
theorem mem_of_mem_encode {a : Char} {b : UInt8} (hb : b.toNat < 128) (ha : a.toNat = b.toNat)
    {cs : List Char} (h : b ∈ encode cs) : a ∈ cs := by
  obtain ⟨c, hc, hmem⟩ := List.mem_flatMap.1 h
  have hac : a = c := Char.toNat_inj.1 (ha.trans (eq_of_mem_utf8EncodeChar hb hmem).symm)
  rw [hac]
  exact hc

theorem contains_of_startsWith {s : List Char} {pat : String} (h : startsWith s pat = true) :
    contains s pat = true := by
  unfold contains
  rw [decide_eq_true_eq]
  exact (List.isPrefixOf_iff_prefix.1 h).isInfix

/-- A longer word contains the words inside it. -/
theorem contains_of_infix {s : List Char} {p q : String} (hpq : p.toList <:+: q.toList)
    (h : contains s q = true) : contains s p = true := by
  unfold contains at h ⊢
  rw [decide_eq_true_eq] at h ⊢
  exact hpq.trans h

theorem eq_of_isText {s : List Char} {t : String} (h : isText s t = true) : s = t.toList := by
  simpa [isText] using h

/-- A text that neither starts nor ends with white space is its own trimmed text. -/
theorem trim_eq_self {c d : Char} {s : List Char} (hc : isWhitespace c = false)
    (hd : isWhitespace d = false) : trim (c :: (s ++ [d])) = c :: (s ++ [d]) := by
  unfold trim
  rw [List.dropWhile_cons, hc, if_neg Bool.false_ne_true]
  have hrev : (c :: (s ++ [d])).reverse = d :: (s.reverse ++ [c]) := by simp
  rw [hrev, List.dropWhile_cons, hd, if_neg Bool.false_ne_true, ← hrev, List.reverse_reverse]

/-- A predicate on the characters of a text, by evaluation. -/
theorem forall_of_all {p : Char → Prop} [DecidablePred p] {cs : List Char}
    (h : cs.all (fun c => decide (p c)) = true) : ∀ c ∈ cs, p c :=
  fun c hc => of_decide_eq_true (List.all_eq_true.1 h c hc)

end Text
