import Mathlib.Data.String.Basic
import Mathlib.Data.List.Lex

/-!
# UTF-16 code units and their order

The code units of a character and of a text (`utf16Char`, `utf16`), which determine the text,
and the order of texts by code units.  It is the order by code points but for one kind of pair:
texts that first differ in a character from U+E000 to U+FFFF and one beyond U+FFFF
(`Clash`), because the surrogates of the latter come before the former.

* `utf16_lt_iff` — texts that do not clash are ordered alike;
* `lt_and_utf16_lt_of_clash` — texts that clash are ordered oppositely.
-/

namespace Utf16

/-- The code units of a character: itself, or a pair of surrogates. -/
def utf16Char (c : Char) : List ℕ :=
  if c.toNat < 0x10000 then [c.toNat]
  else [0xD800 + (c.toNat - 0x10000) / 0x400, 0xDC00 + (c.toNat - 0x10000) % 0x400]

/-- The UTF-16 code units of a text. -/
def utf16 (cs : List Char) : List ℕ := cs.flatMap utf16Char

@[simp] theorem utf16_nil : utf16 [] = [] := rfl

@[simp] theorem utf16_cons (c : Char) (cs : List Char) :
    utf16 (c :: cs) = utf16Char c ++ utf16 cs := rfl

theorem utf16Char_ne_nil (c : Char) : utf16Char c ≠ [] := by
  unfold utf16Char
  split <;> simp

/-- A character is no surrogate. -/
theorem toNat_ranges (c : Char) :
    c.toNat < 0xD800 ∨ 0xE000 ≤ c.toNat ∧ c.toNat < 0x110000 := by
  have h := c.valid
  unfold UInt32.isValidChar Nat.isValidChar at h
  have hn : c.val.toNat = c.toNat := rfl
  omega

/-- The first text has a character from U+E000 to U+FFFF where the second, the same so far, has
one beyond U+FFFF. -/
def Clash (k l : List Char) : Prop :=
  ∃ front a b s t, k = front ++ a :: s ∧ l = front ++ b :: t ∧
    0xE000 ≤ a.toNat ∧ a.toNat < 0x10000 ∧ 0x10000 ≤ b.toNat

theorem Clash.cons {k l : List Char} (h : Clash k l) (c : Char) : Clash (c :: k) (c :: l) := by
  obtain ⟨front, a, b, s, t, rfl, rfl, hab⟩ := h
  exact ⟨c :: front, a, b, s, t, rfl, rfl, hab⟩

theorem clash_of_heads {a b : Char} {s t : List Char} (h₁ : 0xE000 ≤ a.toNat)
    (h₂ : a.toNat < 0x10000) (h₃ : 0x10000 ≤ b.toNat) : Clash (a :: s) (b :: t) :=
  ⟨[], a, b, s, t, rfl, rfl, h₁, h₂, h₃⟩

/-- A text without characters from U+E000 on clashes with nothing that comes after it. -/
theorem not_clash_of_low {k : List Char} (h : ∀ c ∈ k, c.toNat < 0xE000) (l : List Char) :
    ¬ Clash k l := by
  rintro ⟨front, a, b, s, t, rfl, -, ha, -⟩
  have := h a (by simp)
  omega

theorem append_lt_append_iff {α : Type*} [LinearOrder α] (p x y : List α) :
    p ++ x < p ++ y ↔ x < y := by
  induction p with
  | nil => exact Iff.rfl
  | cons a p ih => rw [List.cons_append, List.cons_append, List.cons_lt_cons_self, ih]

/-- Different characters order the texts that start with them, in both orders alike unless
they clash. -/
theorem utf16_heads_lt_iff {a b : Char} (hab : a ≠ b) {s t : List Char}
    (h : ¬ Clash (a :: s) (b :: t)) (h' : ¬ Clash (b :: t) (a :: s)) :
    utf16Char a ++ utf16 s < utf16Char b ++ utf16 t ↔ a < b := by
  have hne : a.toNat ≠ b.toNat := fun he => hab (Char.toNat_inj.1 he)
  have hlt : a < b ↔ a.toNat < b.toNat := Char.lt_def.trans UInt32.lt_iff_toNat_lt
  have ha := toNat_ranges a
  have hb := toNat_ranges b
  rw [hlt]
  unfold utf16Char
  by_cases h₁ : a.toNat < 0x10000
  · by_cases h₂ : b.toNat < 0x10000
    · rw [if_pos h₁, if_pos h₂, List.singleton_append, List.singleton_append,
        List.cons_lt_cons_iff]
      omega
    · have hlow : a.toNat < 0xE000 := by
        by_contra hle
        exact h (clash_of_heads (not_lt.1 hle) h₁ (not_lt.1 h₂))
      rw [if_pos h₁, if_neg h₂, List.singleton_append, List.cons_append, List.cons_lt_cons_iff]
      omega
  · by_cases h₂ : b.toNat < 0x10000
    · have hlow : b.toNat < 0xE000 := by
        by_contra hle
        exact h' (clash_of_heads (not_lt.1 hle) h₂ (not_lt.1 h₁))
      rw [if_neg h₁, if_pos h₂, List.singleton_append, List.cons_append, List.cons_lt_cons_iff]
      omega
    · rw [if_neg h₁, if_neg h₂]
      simp only [List.cons_append, List.cons_lt_cons_iff]
      omega

/-- **Texts that do not clash are ordered alike** by code units and by code points. -/
theorem utf16_lt_iff {k l : List Char} (h : ¬ Clash k l) (h' : ¬ Clash l k) :
    utf16 k < utf16 l ↔ k < l := by
  induction k generalizing l with
  | nil =>
    cases l with
    | nil => simp
    | cons b t =>
      obtain ⟨u, us, hu⟩ := List.exists_cons_of_ne_nil (utf16Char_ne_nil b)
      simp [hu]
  | cons a s ih =>
    cases l with
    | nil => simp
    | cons b t =>
      rw [utf16_cons, utf16_cons]
      by_cases hab : a = b
      · subst hab
        rw [append_lt_append_iff, List.cons_lt_cons_self]
        exact ih (fun hc => h (hc.cons a)) (fun hc => h' (hc.cons a))
      · rw [utf16_heads_lt_iff hab h h', List.cons_lt_cons_iff]
        simp [hab]

/-- **Texts that clash are ordered oppositely.** -/
theorem lt_and_utf16_lt_of_clash {k l : List Char} (h : Clash k l) :
    k < l ∧ utf16 l < utf16 k := by
  obtain ⟨front, a, b, s, t, rfl, rfl, h₁, h₂, h₃⟩ := h
  have hb := toNat_ranges b
  have hlt : a < b := Char.lt_def.2 (UInt32.lt_iff_toNat_lt.2 (by
    show a.toNat < b.toNat
    omega))
  constructor
  · rw [append_lt_append_iff, List.cons_lt_cons_iff]
    exact Or.inl hlt
  · unfold utf16
    rw [List.flatMap_append, List.flatMap_append, append_lt_append_iff, List.flatMap_cons,
      List.flatMap_cons]
    unfold utf16Char
    rw [if_pos h₂, if_neg (not_lt.2 h₃), List.singleton_append, List.cons_append,
      List.cons_lt_cons_iff]
    omega

/-- The code units determine the text. -/
theorem utf16_injective : Function.Injective utf16 := by
  intro k l h
  by_contra hne
  have hclash : ∀ {p q : List Char}, utf16 p = utf16 q → ¬ Clash p q := by
    intro p q hpq hc
    have hlt := (lt_and_utf16_lt_of_clash hc).2
    rw [hpq] at hlt
    exact lt_irrefl _ hlt
  have hkl := utf16_lt_iff (hclash h) (hclash h.symm)
  have hlk := utf16_lt_iff (hclash h.symm) (hclash h)
  rcases lt_or_gt_of_ne hne with hlt | hlt
  · exact absurd (hkl.2 hlt) (by rw [h]; exact lt_irrefl _)
  · exact absurd (hlk.2 hlt) (by rw [h]; exact lt_irrefl _)

/-- The two orders agree on a pair of texts exactly when it does not clash. -/
theorem le_iff_utf16_le_iff {k l : List Char} :
    (k ≤ l ↔ utf16 k ≤ utf16 l) ↔ ¬ Clash k l ∧ ¬ Clash l k := by
  constructor
  · intro h
    constructor
    · intro hc
      obtain ⟨hlt, hgt⟩ := lt_and_utf16_lt_of_clash hc
      exact absurd (h.1 hlt.le) (not_le.2 hgt)
    · intro hc
      obtain ⟨hlt, hgt⟩ := lt_and_utf16_lt_of_clash hc
      exact absurd (h.2 hgt.le) (not_le.2 hlt)
  · rintro ⟨h, h'⟩
    rw [← not_lt, ← not_lt, utf16_lt_iff h' h]

end Utf16
