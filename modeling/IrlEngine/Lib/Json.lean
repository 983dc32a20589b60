import Mathlib.Data.String.Basic
import Mathlib.Data.List.Sort
import IrlEngine.Lib.Encoding
import IrlEngine.Lib.Float64

/-!
# JSON trees, their compact text and their normal form

JSON values (`Json`), the compact text that `serde_json` writes for them
(`Json.print`) and the normal form with sorted object members (`Json.normalize`).

* **Printing is injective and self-delimiting** — `Json.print_inj`: two printed
  values followed by anything that cannot continue a number are equal only when
  the values and the continuations are.  Strings and integers are printed
  concretely; of the printer of floating-point numbers only `FloatText.Lawful`
  is assumed.
* **Members can be read off a normal form** — `Json.normalize_member`: objects
  with equal normal forms have, under every key, members with equal normal forms.
-/

/-! ## Values -/

/-- A number as `serde_json` keeps it: an unsigned integer, a negative integer
(`negInt n` is `-(n + 1)`) or a finite float. -/
inductive Number where
  | posInt (n : UInt64)
  | negInt (n : Fin (2 ^ 63))
  | float (f : F64)
  deriving DecidableEq, Repr

/-- A JSON value.  Object members are listed in the order of the document. -/
inductive Json where
  | null
  | bool (b : Bool)
  | num (n : Number)
  | str (s : String)
  | arr (xs : List Json)
  | obj (ms : List (String × Json))

/-- The number of a signed 64-bit integer. -/
def Number.ofInt64 (n : Int64) : Number :=
  if 0 ≤ n.toInt then .posInt n.toUInt64 else .negInt (Fin.ofNat (2 ^ 63) (-n.toInt - 1).toNat)

theorem Number.ofInt64_injective : Function.Injective Number.ofInt64 := by
  intro a b h
  have ha1 := a.le_toInt
  have hb1 := b.le_toInt
  unfold Number.ofInt64 at h
  split at h <;> split at h
  · rename_i ha hb
    have h' : a.toUInt64 = b.toUInt64 := by simpa using h
    simpa using congrArg UInt64.toInt64 h'
  · simp at h
  · simp at h
  · rename_i ha hb
    have h' : (-a.toInt - 1).toNat % 2 ^ 63 = (-b.toInt - 1).toNat % 2 ^ 63 :=
      congrArg Fin.val (Number.negInt.inj h)
    have ha2 : (-a.toInt - 1).toNat < 2 ^ 63 := by omega
    have hb2 : (-b.toInt - 1).toNat < 2 ^ 63 := by omega
    rw [Nat.mod_eq_of_lt ha2, Nat.mod_eq_of_lt hb2] at h'
    exact Int64.toInt_inj.1 (by omega)

/-! ## Number text -/

/-- The characters a JSON number is made of. -/
def numberChar (c : Char) : Bool :=
  c.isDigit || c = '-' || c = '+' || c = '.' || c = 'e' || c = 'E'

/-- What is relied on of the printer of floats: it is injective, it uses only
number characters, and its output is never the text of an integer. -/
structure FloatText.Lawful (ft : F64 → List Char) : Prop where
  injective : Function.Injective ft
  alphabet : ∀ f, ∀ c ∈ ft f, numberChar c = true
  fractional : ∀ f, ∃ c ∈ ft f, c = '.' ∨ c = 'e'

/-- The text of a number. -/
def Number.print (ft : F64 → List Char) : Number → List Char
  | .posInt n => Nat.toDigits 10 n.toNat
  | .negInt n => '-' :: Nat.toDigits 10 (n.val + 1)
  | .float f => ft f

/-- A continuation that cannot be read as part of a number. -/
def Delimited (x : List Char) : Prop := ∀ c ∈ x.head?, numberChar c = false

theorem Delimited.nil : Delimited [] := by simp [Delimited]

theorem Delimited.cons {c : Char} {x : List Char} (h : numberChar c = false) :
    Delimited (c :: x) := by simpa [Delimited] using h

theorem toDigits_injective {m n : ℕ} (h : Nat.toDigits 10 m = Nat.toDigits 10 n) : m = n := by
  rw [← Nat.ofDigitChars_toDigits (b := 10) (n := m) (by norm_num) (by norm_num), h,
    Nat.ofDigitChars_toDigits (by norm_num) (by norm_num)]

theorem isDigit_of_mem_toDigits {n : ℕ} {c : Char} (h : c ∈ Nat.toDigits 10 n) :
    c.isDigit = true :=
  Nat.isDigit_of_mem_toDigits (by norm_num) (by norm_num) h

section NumberText

variable {ft : F64 → List Char} (law : FloatText.Lawful ft)
include law

theorem Number.print_alphabet (n : Number) : ∀ c ∈ n.print ft, numberChar c = true := by
  intro c hc
  cases n with
  | posInt n => simp [numberChar, isDigit_of_mem_toDigits hc]
  | negInt n =>
    rcases List.mem_cons.1 hc with rfl | hc
    · decide
    · simp [numberChar, isDigit_of_mem_toDigits hc]
  | float f => exact law.alphabet f c hc

theorem Number.print_ne_nil (n : Number) : n.print ft ≠ [] := by
  cases n with
  | posInt n => exact Nat.toDigits_ne_nil
  | negInt n => simp [Number.print]
  | float f =>
    obtain ⟨c, hc, -⟩ := law.fractional f
    exact List.ne_nil_of_mem hc

/-- A float is never printed as a string of digits, with or without a sign. -/
theorem float_ne_digits (f : F64) (s : List Char) (k : ℕ) (hs : ∀ c ∈ s, c = '-') :
    ft f ≠ s ++ Nat.toDigits 10 k := by
  intro h
  obtain ⟨c, hc, hce⟩ := law.fractional f
  rw [h, List.mem_append] at hc
  rcases hc with hc | hc
  · rw [hs c hc] at hce
    revert hce
    decide
  · have hd := isDigit_of_mem_toDigits hc
    rcases hce with rfl | rfl <;> exact absurd hd (by decide)

theorem Number.print_injective : Function.Injective (Number.print ft) := by
  have hdash : ∀ {n : ℕ} {t : List Char}, Nat.toDigits 10 n ≠ '-' :: t := by
    intro n t h
    have : ('-' : Char).isDigit = true := isDigit_of_mem_toDigits (n := n) (by rw [h]; simp)
    exact absurd this (by decide)
  intro m n h
  cases m with
  | posInt a =>
    cases n with
    | posInt b => rw [UInt64.toNat_inj.1 (toDigits_injective h)]
    | negInt b => exact absurd h hdash
    | float f => exact absurd h.symm (float_ne_digits law f [] a.toNat (by simp))
  | negInt a =>
    cases n with
    | posInt b => exact absurd h.symm hdash
    | negInt b =>
      have hv := toDigits_injective (List.cons.inj h).2
      rw [Fin.ext (by omega : a.val = b.val)]
    | float f => exact absurd h.symm (float_ne_digits law f ['-'] (a.val + 1) (by simp))
  | float e =>
    cases n with
    | posInt b => exact absurd h (float_ne_digits law e [] b.toNat (by simp))
    | negInt b => exact absurd h (float_ne_digits law e ['-'] (b.val + 1) (by simp))
    | float f => rw [law.injective h]

/-- The longest run of number characters is the number itself. -/
theorem Number.takeWhile_print (n : Number) {x : List Char} (hx : Delimited x) :
    (n.print ft ++ x).takeWhile numberChar = n.print ft := by
  rw [List.takeWhile_append_of_pos (Number.print_alphabet law n)]
  cases x with
  | nil => simp
  | cons c t =>
    have hc : numberChar c = false := hx c (by simp)
    simp [hc]

theorem Number.print_append_inj {m n : Number} {x y : List Char} (hx : Delimited x)
    (hy : Delimited y) (h : m.print ft ++ x = n.print ft ++ y) : m = n ∧ x = y := by
  have htext : m.print ft = n.print ft := by
    rw [← Number.takeWhile_print law m hx, h, Number.takeWhile_print law n hy]
  rw [htext] at h
  exact ⟨Number.print_injective law htext, List.append_cancel_left h⟩

end NumberText

/-! ## String text -/

/-- The escape sequence of one character: the two mandatory escapes, the five
short ones, `\u00XX` for the other control characters. -/
def escapeChar (c : Char) : List Char :=
  if c = '"' then ['\\', '"']
  else if c = '\\' then ['\\', '\\']
  else if c.toNat = 8 then ['\\', 'b']
  else if c.toNat = 9 then ['\\', 't']
  else if c.toNat = 10 then ['\\', 'n']
  else if c.toNat = 12 then ['\\', 'f']
  else if c.toNat = 13 then ['\\', 'r']
  else if c.toNat < 32 then
    ['\\', 'u', '0', '0', Encoding.hexDigit (c.toNat / 16), Encoding.hexDigit (c.toNat % 16)]
  else [c]

/-- The quoted text of a string. -/
def quote (s : String) : List Char := '"' :: s.toList.flatMap escapeChar ++ ['"']

/-- Read one escaped character back. -/
def readChar : List Char → Option (Char × List Char)
  | '\\' :: 'u' :: _ :: _ :: hi :: lo :: rest => do
      let h ← Encoding.hexValue hi
      let l ← Encoding.hexValue lo
      return (Char.ofNat (16 * h + l), rest)
  | '\\' :: 'b' :: rest => some (Char.ofNat 8, rest)
  | '\\' :: 't' :: rest => some (Char.ofNat 9, rest)
  | '\\' :: 'n' :: rest => some (Char.ofNat 10, rest)
  | '\\' :: 'f' :: rest => some (Char.ofNat 12, rest)
  | '\\' :: 'r' :: rest => some (Char.ofNat 13, rest)
  | '\\' :: c :: rest => some (c, rest)
  | c :: rest => some (c, rest)
  | [] => none

theorem readChar_escapeChar (c : Char) (rest : List Char) :
    readChar (escapeChar c ++ rest) = some (c, rest) := by
  have hof : Char.ofNat c.toNat = c := Char.ofNat_toNat c
  by_cases hctl : c.toNat < 32
  · -- the control characters are 32 cases, each settled by evaluation
    obtain ⟨n, hn, rfl⟩ : ∃ n < 32, c = Char.ofNat n := ⟨c.toNat, hctl, hof.symm⟩
    interval_cases n <;> rfl
  · by_cases hq : c = '"'
    · subst hq; rfl
    · by_cases hb : c = '\\'
      · subst hb; rfl
      · have he : escapeChar c = [c] := by
          unfold escapeChar
          rw [if_neg hq, if_neg hb, if_neg (by omega), if_neg (by omega), if_neg (by omega),
            if_neg (by omega), if_neg (by omega), if_neg hctl]
        rw [he, List.cons_append, List.nil_append]
        unfold readChar
        split <;> simp_all

theorem escapeChar_append_inj {c d : Char} {x y : List Char}
    (h : escapeChar c ++ x = escapeChar d ++ y) : c = d ∧ x = y := by
  have := congrArg readChar h
  rw [readChar_escapeChar, readChar_escapeChar] at this
  simpa using this

/-- An escape sequence never starts with the closing quote. -/
theorem escapeChar_ne_quote (c : Char) (x y : List Char) : escapeChar c ++ x ≠ '"' :: y := by
  unfold escapeChar
  split
  · simp
  · rename_i hq
    repeat' split
    all_goals simp
    exact fun h => absurd h hq

/-- Two ways to escape: if equal beginnings come from one character, of which `P` holds, then equal
texts up to the closing quote come from one text, and `P` holds all over it. -/
theorem flatMap_escape_append_inj {e f : Char → List Char} {P : Char → Prop}
    (hchar : ∀ c d x y, e c ++ x = f d ++ y → c = d ∧ P c ∧ x = y)
    (he : ∀ c x y, e c ++ x ≠ '"' :: y) (hf : ∀ c x y, f c ++ x ≠ '"' :: y) :
    ∀ s t x y : List Char, s.flatMap e ++ '"' :: x = t.flatMap f ++ '"' :: y →
      s = t ∧ (∀ c ∈ s, P c) ∧ x = y := by
  intro s
  induction s with
  | nil =>
    intro t x y h
    cases t with
    | nil => exact ⟨rfl, by simp, (List.cons.inj h).2⟩
    | cons d t =>
      rw [List.flatMap_cons, List.append_assoc] at h
      exact absurd h.symm (hf d _ _)
  | cons c s ih =>
    intro t x y h
    cases t with
    | nil =>
      rw [List.flatMap_cons, List.append_assoc] at h
      exact absurd h (he c _ _)
    | cons d t =>
      rw [List.flatMap_cons, List.flatMap_cons, List.append_assoc, List.append_assoc] at h
      obtain ⟨rfl, hc, hrest⟩ := hchar _ _ _ _ h
      obtain ⟨rfl, hs, hxy⟩ := ih t x y hrest
      refine ⟨rfl, ?_, hxy⟩
      intro a ha
      rcases List.mem_cons.1 ha with rfl | ha
      · exact hc
      · exact hs a ha

/-- Quoted strings are prefix-free. -/
theorem quote_append_inj {s t : String} {x y : List Char} (h : quote s ++ x = quote t ++ y) :
    s = t ∧ x = y := by
  have h' : s.toList.flatMap escapeChar ++ '"' :: x = t.toList.flatMap escapeChar ++ '"' :: y := by
    simpa [quote] using h
  obtain ⟨hst, -, hxy⟩ := flatMap_escape_append_inj (P := fun _ => True)
    (fun _ _ _ _ heq => ⟨(escapeChar_append_inj heq).1, trivial, (escapeChar_append_inj heq).2⟩)
    escapeChar_ne_quote escapeChar_ne_quote _ _ _ _ h'
  exact ⟨String.toList_inj.1 hst, hxy⟩

/-! ## Printing a value -/

/-- Texts separated by commas. -/
def joinComma : List (List Char) → List Char
  | [] => []
  | [t] => t
  | t :: u :: rest => t ++ ',' :: joinComma (u :: rest)

namespace Json

mutual

/-- The compact text of a value, object members in the order they stand in. -/
def print (ft : F64 → List Char) : Json → List Char
  | .null => ['n', 'u', 'l', 'l']
  | .bool true => ['t', 'r', 'u', 'e']
  | .bool false => ['f', 'a', 'l', 's', 'e']
  | .num n => n.print ft
  | .str s => quote s
  | .arr xs => '[' :: joinComma (printAll ft xs) ++ [']']
  | .obj ms => '{' :: joinComma (printMembers ft ms) ++ ['}']

/-- The texts of the elements of an array. -/
def printAll (ft : F64 → List Char) : List Json → List (List Char)
  | [] => []
  | v :: vs => print ft v :: printAll ft vs

/-- The texts of the members of an object. -/
def printMembers (ft : F64 → List Char) : List (String × Json) → List (List Char)
  | [] => []
  | (k, v) :: ms => (quote k ++ ':' :: print ft v) :: printMembers ft ms

end

/-- What follows the opening bracket of a non-empty array or object, with a comma
in front of every element; `close` is the closing bracket. -/
def tailText (close : Char) : List (List Char) → List Char → List Char
  | [], x => close :: x
  | t :: ts, x => ',' :: (t ++ tailText close ts x)

theorem comma_joinComma (close : Char) (x : List Char) : ∀ (ts : List (List Char)) (t : List Char),
    ',' :: (joinComma (t :: ts) ++ close :: x) = tailText close (t :: ts) x := by
  intro ts
  induction ts with
  | nil => intro t; rfl
  | cons u us ih =>
    intro t
    rw [joinComma, tailText, List.append_assoc, List.cons_append, ih u]

theorem tailText_delimited {close : Char} (hc : numberChar close = false) (ts : List (List Char))
    (x : List Char) : Delimited (tailText close ts x) := by
  cases ts with
  | nil => exact Delimited.cons hc
  | cons t ts => exact Delimited.cons (by decide)

/-- The kind of a value, as its first character shows it. -/
def opening : Json → Char
  | .null => 'n'
  | .bool true => 't'
  | .bool false => 'f'
  | .num _ => '0'
  | .str _ => '"'
  | .arr _ => '['
  | .obj _ => '{'

section Injective

variable {ft : F64 → List Char} (law : FloatText.Lawful ft)
include law

/-- The first character of a value is its opening, or one of a number. -/
theorem print_head (v : Json) : ∃ c t, print ft v = c :: t ∧
    (c = opening v ∨ ∃ n, v = .num n ∧ numberChar c = true) := by
  cases v with
  | null => exact ⟨'n', _, rfl, Or.inl rfl⟩
  | bool b => cases b <;> exact ⟨_, _, rfl, Or.inl rfl⟩
  | num n =>
    cases hp : n.print ft with
    | nil => exact absurd hp (Number.print_ne_nil law n)
    | cons c t =>
      have hc := Number.print_alphabet law n c (by rw [hp]; simp)
      exact ⟨c, t, by rw [print, hp], Or.inr ⟨n, rfl, hc⟩⟩
  | str s => exact ⟨'"', _, rfl, Or.inl rfl⟩
  | arr xs => exact ⟨'[', _, rfl, Or.inl rfl⟩
  | obj ms => exact ⟨'{', _, rfl, Or.inl rfl⟩

/-- A printed value does not start with a closing bracket. -/
theorem print_ne_close (v : Json) (x y : List Char) {close : Char}
    (hclose : close = ']' ∨ close = '}') : print ft v ++ x ≠ close :: y := by
  obtain ⟨c, t, hp, hc⟩ := print_head law v
  rw [hp, List.cons_append]
  intro h
  have hcc : c = close := (List.cons.inj h).1
  subst hcc
  rcases hc with hc | ⟨n, -, hn⟩
  · cases v with
    | bool b => cases b <;> rcases hclose with rfl | rfl <;> simp [opening] at hc
    | _ => rcases hclose with rfl | rfl <;> simp [opening] at hc
  · rcases hclose with rfl | rfl <;> exact absurd hn (by decide)

/-- Printed values that start alike are of one kind. -/
theorem opening_eq_of_print {v w : Json} {x y : List Char}
    (h : print ft v ++ x = print ft w ++ y) : opening v = opening w := by
  obtain ⟨c, t, hv, hc⟩ := print_head law v
  obtain ⟨d, u, hw, hd⟩ := print_head law w
  rw [hv, hw, List.cons_append, List.cons_append] at h
  have hcd : c = d := (List.cons.inj h).1
  subst hcd
  have hnum : ∀ u : Json, numberChar (opening u) = true → opening u = '0' := by
    intro u hu
    cases u with
    | num n => rfl
    | bool b => cases b <;> simp [opening, numberChar] at hu
    | _ => simp [opening, numberChar] at hu
  rcases hc with rfl | ⟨n, rfl, hn⟩ <;> rcases hd with hd | ⟨m, rfl, hm⟩
  · exact hd
  · exact hnum v hm
  · subst hd; exact (hnum w hn).symm
  · rfl

omit law in
/-- Arrays and objects: equal texts inside the brackets come from equal elements,
once equal `tailText`s do. -/
theorem tail_of_join {close : Char} {ts us : List (List Char)} {x y : List Char}
    (hts : ∀ t ∈ ts.head?, ∀ a b, t ++ a ≠ close :: b)
    (hus : ∀ u ∈ us.head?, ∀ a b, u ++ a ≠ close :: b)
    (h : joinComma ts ++ close :: x = joinComma us ++ close :: y) :
    tailText close ts x = tailText close us y := by
  have hhead : ∀ (t : List Char) (ts : List (List Char)) (z : List Char),
      ∃ a, joinComma (t :: ts) ++ z = t ++ a := by
    intro t ts z
    cases ts with
    | nil => exact ⟨z, rfl⟩
    | cons u us => exact ⟨',' :: (joinComma (u :: us) ++ z), by simp [joinComma]⟩
  cases ts with
  | nil =>
    cases us with
    | nil => exact h
    | cons u us =>
      obtain ⟨a, ha⟩ := hhead u us (close :: y)
      rw [ha] at h
      exact absurd h.symm (hus u (by simp) a x)
  | cons t ts =>
    cases us with
    | nil =>
      obtain ⟨a, ha⟩ := hhead t ts (close :: x)
      rw [ha] at h
      exact absurd h (hts t (by simp) a y)
    | cons u us => rw [← comma_joinComma, ← comma_joinComma, h]

theorem printAll_head_ne_close (xs : List Json) :
    ∀ t ∈ (printAll ft xs).head?, ∀ a b, t ++ a ≠ ']' :: b := by
  intro t ht a b
  cases xs with
  | nil => simp [printAll] at ht
  | cons v vs =>
    simp only [printAll, List.head?_cons, Option.mem_some_iff] at ht
    subst ht
    exact print_ne_close law v a b (Or.inl rfl)

omit law in
theorem printMembers_head_ne_close (ms : List (String × Json)) :
    ∀ t ∈ (printMembers ft ms).head?, ∀ a b, t ++ a ≠ '}' :: b := by
  intro t ht a b
  cases ms with
  | nil => simp [printMembers] at ht
  | cons m ms =>
    obtain ⟨k, v⟩ := m
    simp only [printMembers, List.head?_cons, Option.mem_some_iff] at ht
    subst ht
    simp [quote]

/-- **Printing is injective and self-delimiting.** -/
theorem print_inj : ∀ (v w : Json) (x y : List Char), Delimited x → Delimited y →
    print ft v ++ x = print ft w ++ y → v = w ∧ x = y := by
  refine @Json.rec
    (fun v => ∀ (w : Json) (x y : List Char), Delimited x → Delimited y →
      print ft v ++ x = print ft w ++ y → v = w ∧ x = y)
    (fun vs => ∀ (ws : List Json) (x y : List Char),
      tailText ']' (printAll ft vs) x = tailText ']' (printAll ft ws) y → vs = ws ∧ x = y)
    (fun ms => ∀ (ns : List (String × Json)) (x y : List Char),
      tailText '}' (printMembers ft ms) x = tailText '}' (printMembers ft ns) y → ms = ns ∧ x = y)
    (fun m => ∀ (w : Json) (x y : List Char), Delimited x → Delimited y →
      print ft m.2 ++ x = print ft w ++ y → m.2 = w ∧ x = y)
    ?null ?bool ?num ?str ?arr ?obj ?nil ?cons ?mnil ?mcons ?mk
  case null =>
    intro w x y _ _ h
    have ho := opening_eq_of_print law h
    cases w with
    | null => exact ⟨rfl, List.append_cancel_left h⟩
    | bool b => cases b <;> simp [opening] at ho
    | _ => simp [opening] at ho
  case bool =>
    intro b w x y _ _ h
    have ho := opening_eq_of_print law h
    cases w with
    | bool c =>
      cases b <;> cases c
      · exact ⟨rfl, List.append_cancel_left h⟩
      · simp [opening] at ho
      · simp [opening] at ho
      · exact ⟨rfl, List.append_cancel_left h⟩
    | _ => cases b <;> simp [opening] at ho
  case num =>
    intro n w x y hx hy h
    have ho := opening_eq_of_print law h
    cases w with
    | num m =>
      obtain ⟨rfl, hxy⟩ := Number.print_append_inj law hx hy h
      exact ⟨rfl, hxy⟩
    | bool b => cases b <;> simp [opening] at ho
    | _ => simp [opening] at ho
  case str =>
    intro s w x y _ _ h
    have ho := opening_eq_of_print law h
    cases w with
    | str t =>
      obtain ⟨rfl, hxy⟩ := quote_append_inj h
      exact ⟨rfl, hxy⟩
    | bool b => cases b <;> simp [opening] at ho
    | _ => simp [opening] at ho
  case arr =>
    intro xs ih w x y _ _ h
    have ho := opening_eq_of_print law h
    cases w with
    | arr ys =>
      simp only [print, List.cons_append, List.append_assoc, List.cons.injEq, true_and,
        List.nil_append] at h
      obtain ⟨rfl, hxy⟩ := ih ys x y (tail_of_join (printAll_head_ne_close law xs)
        (printAll_head_ne_close law ys) h)
      exact ⟨rfl, hxy⟩
    | bool b => cases b <;> simp [opening] at ho
    | _ => simp [opening] at ho
  case obj =>
    intro ms ih w x y _ _ h
    have ho := opening_eq_of_print law h
    cases w with
    | obj ns =>
      simp only [print, List.cons_append, List.append_assoc, List.cons.injEq, true_and,
        List.nil_append] at h
      obtain ⟨rfl, hxy⟩ := ih ns x y (tail_of_join (printMembers_head_ne_close ms)
        (printMembers_head_ne_close ns) h)
      exact ⟨rfl, hxy⟩
    | bool b => cases b <;> simp [opening] at ho
    | _ => simp [opening] at ho
  case nil =>
    intro ws x y h
    cases ws with
    | nil => exact ⟨rfl, by simpa [printAll, tailText] using h⟩
    | cons w ws => simp [printAll, tailText] at h
  case cons =>
    intro v vs ihv ihvs ws x y h
    cases ws with
    | nil => simp [printAll, tailText] at h
    | cons w ws =>
      simp only [printAll, tailText, List.cons.injEq, true_and] at h
      obtain ⟨rfl, htail⟩ := ihv w _ _ (tailText_delimited (by decide) _ _)
        (tailText_delimited (by decide) _ _) h
      obtain ⟨rfl, hxy⟩ := ihvs ws x y htail
      exact ⟨rfl, hxy⟩
  case mnil =>
    intro ns x y h
    cases ns with
    | nil => exact ⟨rfl, by simpa [printMembers, tailText] using h⟩
    | cons n ns => obtain ⟨k, w⟩ := n; simp [printMembers, tailText] at h
  case mcons =>
    rintro ⟨k, v⟩ ms ihm ihms ns x y h
    cases ns with
    | nil => simp [printMembers, tailText] at h
    | cons n ns =>
      obtain ⟨l, w⟩ := n
      simp only [printMembers, tailText, List.cons.injEq, true_and, List.append_assoc,
        List.cons_append] at h
      obtain ⟨rfl, hrest⟩ := quote_append_inj h
      obtain ⟨hvw, htail⟩ := ihm w _ _ (tailText_delimited (by decide) _ _)
        (tailText_delimited (by decide) _ _) (List.cons.inj hrest).2
      obtain ⟨rfl, hxy⟩ := ihms ns x y htail
      simp only at hvw
      exact ⟨by rw [hvw], hxy⟩
  case mk => rintro k v ih; exact ih

theorem print_injective : Function.Injective (print ft) := by
  intro v w h
  exact (print_inj law v w [] [] Delimited.nil Delimited.nil (by simpa using h)).1

end Injective

/-! ## The normal form with sorted members -/

/-- The order object members are sorted by. -/
def keyLe {α : Type*} (a b : String × α) : Prop := a.1 ≤ b.1

instance {α : Type*} : DecidableRel (keyLe (α := α)) := fun a b =>
  inferInstanceAs (Decidable (a.1 ≤ b.1))

/-- Members sorted by key; the sort is stable. -/
def sortByKey {α : Type*} (ms : List (String × α)) : List (String × α) := ms.insertionSort keyLe

mutual

/-- Sort the members of every object in the tree. -/
def normalize : Json → Json
  | .arr xs => .arr (normalizeAll xs)
  | .obj ms => .obj (sortByKey (normalizeMembers ms))
  | .null => .null
  | .bool b => .bool b
  | .num n => .num n
  | .str s => .str s

/-- The elements of an array, each normalized. -/
def normalizeAll : List Json → List Json
  | [] => []
  | v :: vs => normalize v :: normalizeAll vs

/-- The members of an object, each normalized. -/
def normalizeMembers : List (String × Json) → List (String × Json)
  | [] => []
  | (k, v) :: ms => (k, normalize v) :: normalizeMembers ms

end

theorem normalizeMembers_eq_map (ms : List (String × Json)) :
    normalizeMembers ms = ms.map (fun m => (m.1, normalize m.2)) := by
  induction ms with
  | nil => rfl
  | cons m ms ih => rw [normalizeMembers, ih]; rfl

/-- Objects with equal normal forms have members with equal normal forms under
every key that the second lists once. -/
theorem normalize_member {A B : List (String × Json)} (hB : (B.map Prod.fst).Nodup)
    (h : normalize (.obj A) = normalize (.obj B)) {k : String} {a b : Json}
    (ha : (k, a) ∈ A) (hb : (k, b) ∈ B) : normalize a = normalize b := by
  have hsort : sortByKey (normalizeMembers A) = sortByKey (normalizeMembers B) := by
    simpa [normalize] using h
  have hmem : (k, normalize a) ∈ sortByKey (normalizeMembers B) := by
    rw [← hsort, sortByKey, List.mem_insertionSort, normalizeMembers_eq_map]
    exact List.mem_map.2 ⟨(k, a), ha, rfl⟩
  rw [sortByKey, List.mem_insertionSort, normalizeMembers_eq_map] at hmem
  obtain ⟨⟨k', b'⟩, hb', hkb⟩ := List.mem_map.1 hmem
  obtain ⟨rfl, hnb⟩ := Prod.mk.inj hkb
  have : (k', b') = (k', b) := List.inj_on_of_nodup_map hB hb' hb rfl
  rw [← hnb, (Prod.mk.inj this).2]

/-- Objects that list the same keys in the same order: equal normal forms have
equal values, member by member. -/
theorem normalize_values {A B : List (String × Json)} (hkeys : A.map Prod.fst = B.map Prod.fst)
    (hB : (B.map Prod.fst).Nodup) (h : normalize (.obj A) = normalize (.obj B)) :
    A.map (fun m => normalize m.2) = B.map fun m => normalize m.2 := by
  have hlen : A.length = B.length := by simpa using congrArg List.length hkeys
  refine List.ext_getElem (by simpa using hlen) ?_
  intro i hA hB'
  rw [List.length_map] at hA hB'
  have hkey : A[i].1 = B[i].1 := by
    have := List.getElem_of_eq hkeys (i := i) (by simpa using hA)
    simpa using this
  rw [List.getElem_map, List.getElem_map]
  refine normalize_member hB h (k := B[i].1) ?_ (List.getElem_mem hB')
  exact hkey ▸ List.getElem_mem hA

end Json
