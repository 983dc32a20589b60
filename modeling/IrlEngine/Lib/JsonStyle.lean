import IrlEngine.Lib.Json

/-!
# Printers of JSON that sort their members

A printer without white space is given by the text of its numbers and strings and by the
order of its keys (`Json.Style`).  `Json.All` says something of all numbers, strings and
lists of keys in a value.

* `Json.Style.print_eq_iff_sorted` — two such printers agree on a value exactly when they agree on
  every number and every string in it and sort the keys of every object alike;
* `Json.Style.print_eq_iff` — for linear orders: exactly when they order its keys alike.
-/

namespace Json

/-! ## Everything in a value -/

/-- All numbers meet `num`, all strings and keys `str`, and the keys of all objects `keys`. -/
inductive All (num : Number → Prop) (str : String → Prop) (keys : List String → Prop) :
    Json → Prop where
  | null : All num str keys .null
  | bool (b : Bool) : All num str keys (.bool b)
  | num {n : Number} (h : num n) : All num str keys (.num n)
  | str {s : String} (h : str s) : All num str keys (.str s)
  | arr {xs : List Json} (h : ∀ v ∈ xs, All num str keys v) : All num str keys (.arr xs)
  | obj {ms : List (String × Json)} (hkeys : keys (ms.map Prod.fst)) (hstr : ∀ m ∈ ms, str m.1)
      (h : ∀ m ∈ ms, All num str keys m.2) : All num str keys (.obj ms)

section All

variable {num num' : Number → Prop} {str str' : String → Prop} {keys keys' : List String → Prop}

theorem All.mono (hnum : ∀ n, num n → num' n) (hstr : ∀ s, str s → str' s)
    (hkeys : ∀ ks, keys ks → keys' ks) {v : Json} (h : v.All num str keys) :
    v.All num' str' keys' := by
  induction h with
  | null => exact .null
  | bool b => exact .bool b
  | num h => exact .num (hnum _ h)
  | str h => exact .str (hstr _ h)
  | arr _ ih => exact .arr ih
  | obj h h' _ ih => exact .obj (hkeys _ h) (fun m hm => hstr _ (h' m hm)) ih

theorem All.and {v : Json} (h : v.All num str keys) (h' : v.All num' str' keys') :
    v.All (fun n => num n ∧ num' n) (fun s => str s ∧ str' s) (fun ks => keys ks ∧ keys' ks) := by
  induction h with
  | null => exact .null
  | bool b => exact .bool b
  | num h =>
    cases h' with
    | num h' => exact .num ⟨h, h'⟩
  | str h =>
    cases h' with
    | str h' => exact .str ⟨h, h'⟩
  | arr _ ih =>
    cases h' with
    | arr h' => exact .arr fun v hv => ih v hv (h' v hv)
  | obj h hs _ ih =>
    cases h' with
    | obj h' hs' hm' =>
      exact .obj ⟨h, h'⟩ (fun m hm => ⟨hs m hm, hs' m hm⟩) fun m hm => ih m hm (hm' m hm)

end All

/-- No object repeats a key, as in a map. -/
def UniqueKeys (v : Json) : Prop := v.All (fun _ => True) (fun _ => True) List.Nodup

/-! ## Styles -/

/-- What a printer chooses: the texts of numbers and strings, and the order of keys. -/
structure Style where
  number : Number → List Char
  string : String → List Char
  keyLe : String → String → Bool

namespace Style

/-- Members in the order of the style; the sort is stable. -/
def sort {α : Type*} (S : Style) (ms : List (String × α)) : List (String × α) :=
  ms.insertionSort fun a b => S.keyLe a.1 b.1 = true

/-- The keys of an object in that order. -/
def sortKeys (S : Style) (ks : List String) : List String :=
  ks.insertionSort fun k l => S.keyLe k l = true

mutual

/-- The text of a value in the style. -/
def print (S : Style) : Json → List Char
  | .null => ['n', 'u', 'l', 'l']
  | .bool true => ['t', 'r', 'u', 'e']
  | .bool false => ['f', 'a', 'l', 's', 'e']
  | .num n => S.number n
  | .str s => S.string s
  | .arr xs => '[' :: joinComma (S.printAll xs) ++ [']']
  | .obj ms =>
    '{' :: joinComma ((S.sort (S.printMembers ms)).map fun m => S.string m.1 ++ ':' :: m.2) ++ ['}']

/-- The texts of the elements of an array. -/
def printAll (S : Style) : List Json → List (List Char)
  | [] => []
  | v :: vs => S.print v :: S.printAll vs

/-- The texts of the members, each with its key, which the sort looks at. -/
def printMembers (S : Style) : List (String × Json) → List (String × List Char)
  | [] => []
  | (k, v) :: ms => (k, S.print v) :: S.printMembers ms

end

/-- Numbers are made of number characters, strings start with a quote, and keys are in a linear
order. -/
structure Lawful (S : Style) : Prop where
  number_ne_nil : ∀ n, S.number n ≠ []
  number_alphabet : ∀ n, ∀ c ∈ S.number n, numberChar c = true
  string_quoted : ∀ s, ∃ t, S.string s = '"' :: t
  total : ∀ k l, S.keyLe k l = true ∨ S.keyLe l k = true
  trans : ∀ k l m, S.keyLe k l = true → S.keyLe l m = true → S.keyLe k m = true
  antisymm : ∀ k l, S.keyLe k l = true → S.keyLe l k = true → k = l

/-- What reading a text relies on: numbers are made of number characters, strings start with a
quote. -/
structure Readable (S : Style) : Prop where
  number_ne_nil : ∀ n, S.number n ≠ []
  number_alphabet : ∀ n, ∀ c ∈ S.number n, numberChar c = true
  string_quoted : ∀ s, ∃ t, S.string s = '"' :: t

theorem Lawful.readable {S : Style} (h : S.Lawful) : S.Readable :=
  ⟨h.number_ne_nil, h.number_alphabet, h.string_quoted⟩

/-- From equal texts, whatever follows them, the same strings can be read. -/
def Separates (S T : Style) : Prop :=
  ∀ s t x y, S.string s ++ x = T.string t ++ y → s = t ∧ S.string s = T.string s ∧ x = y

variable {S T : Style}

/-- The text of a member. -/
def memberText (S : Style) (m : String × Json) : List Char := S.string m.1 ++ ':' :: S.print m.2

theorem printAll_eq_map (xs : List Json) : S.printAll xs = xs.map S.print := by
  induction xs with
  | nil => rfl
  | cons v vs ih => rw [printAll, ih, List.map_cons]

theorem printMembers_eq_map (ms : List (String × Json)) :
    S.printMembers ms = ms.map fun m => (m.1, S.print m.2) := by
  induction ms with
  | nil => rfl
  | cons m ms ih => rw [printMembers, ih]; rfl

/-- Printing commutes with sorting. -/
theorem print_obj (ms : List (String × Json)) :
    S.print (.obj ms) = '{' :: joinComma ((S.sort ms).map S.memberText) ++ ['}'] := by
  have hsort : S.sort (S.printMembers ms) = (S.sort ms).map fun m => (m.1, S.print m.2) := by
    rw [printMembers_eq_map]
    unfold sort
    exact (List.map_insertionSort _ _ (fun m : String × Json => (m.1, S.print m.2)) ms
      (fun a _ b _ => Iff.rfl)).symm
  rw [print, hsort, List.map_map]
  rfl

theorem mem_sort {α : Type*} {ms : List (String × α)} {m : String × α} :
    m ∈ S.sort ms ↔ m ∈ ms := by
  unfold sort
  exact List.mem_insertionSort _

theorem map_fst_sort {α : Type*} (ms : List (String × α)) :
    (S.sort ms).map Prod.fst = S.sortKeys (ms.map Prod.fst) := by
  unfold sort sortKeys
  exact List.map_insertionSort _ _ Prod.fst ms fun a _ b _ => Iff.rfl

/-- Lists of members of one object with the same keys are equal. -/
theorem eq_of_map_fst_eq {α : Type*} {ms : List (String × α)} (hnodup : (ms.map Prod.fst).Nodup) :
    ∀ L M : List (String × α), (∀ m ∈ L, m ∈ ms) → (∀ m ∈ M, m ∈ ms) →
      L.map Prod.fst = M.map Prod.fst → L = M := by
  intro L
  induction L with
  | nil =>
    intro M _ _ h
    exact (List.map_eq_nil_iff.1 h.symm).symm
  | cons m L ih =>
    intro M hL hM h
    cases M with
    | nil => simp at h
    | cons m' M =>
      obtain ⟨hkey, hrest⟩ := List.cons.inj h
      obtain rfl : m = m' := List.inj_on_of_nodup_map hnodup (hL m (by simp)) (hM m' (by simp)) hkey
      rw [ih M (fun n hn => hL n (by simp [hn])) (fun n hn => hM n (by simp [hn])) hrest]

/-- Styles sort the members of an object alike if they sort its keys alike. -/
theorem sort_eq_iff {α : Type*} {ms : List (String × α)} (hnodup : (ms.map Prod.fst).Nodup) :
    S.sort ms = T.sort ms ↔ S.sortKeys (ms.map Prod.fst) = T.sortKeys (ms.map Prod.fst) := by
  rw [← map_fst_sort, ← map_fst_sort]
  constructor
  · intro h
    rw [h]
  · exact eq_of_map_fst_eq hnodup _ _ (fun m hm => mem_sort.1 hm) fun m hm => mem_sort.1 hm

/-- Styles that order the keys of an object alike sort them alike. -/
theorem sortKeys_congr {ks : List String} (h : ∀ k ∈ ks, ∀ l ∈ ks, S.keyLe k l = T.keyLe k l) :
    S.sortKeys ks = T.sortKeys ks := by
  have hmap := List.map_insertionSort (fun k l => S.keyLe k l = true)
    (fun k l => T.keyLe k l = true) id ks (by
      intro k hk l hl
      rw [h k hk l hl]
      exact Iff.rfl)
  unfold sortKeys
  simpa using hmap

theorem pairwise_sortKeys (hS : S.Lawful) (ks : List String) :
    (S.sortKeys ks).Pairwise fun k l => S.keyLe k l = true := by
  have : Std.Total fun k l : String => S.keyLe k l = true := ⟨hS.total⟩
  have : IsTrans String fun k l => S.keyLe k l = true := ⟨hS.trans⟩
  exact List.pairwise_insertionSort _ ks

/-- Linear orders that sort the keys of an object alike order them alike. -/
theorem keyLe_eq_of_sortKeys_eq (hS : S.Lawful) (hT : T.Lawful) {ks : List String}
    (h : S.sortKeys ks = T.sortKeys ks) : ∀ k ∈ ks, ∀ l ∈ ks, S.keyLe k l = T.keyLe k l := by
  have hsorted : (S.sortKeys ks).Pairwise fun k l => S.keyLe k l = true ∧ T.keyLe k l = true := by
    refine (pairwise_sortKeys hS ks).imp₂ (fun a b ha hb => ⟨ha, hb⟩) ?_
    rw [h]
    exact pairwise_sortKeys hT ks
  have hrefl : ∀ {U : Style}, U.Lawful → ∀ k, U.keyLe k k = true :=
    fun hU k => (hU.total k k).elim id id
  have hback : ∀ {U : Style} (hU : U.Lawful) {k l : String}, U.keyLe k l = true →
      (U.keyLe l k = true ↔ k = l) := by
    intro U hU k l hkl
    constructor
    · exact hU.antisymm k l hkl
    · rintro rfl
      exact hkl
  -- of two keys, the one that comes first is below the other in both orders
  have hpair : (S.sortKeys ks).Pairwise fun k l =>
      S.keyLe k l = T.keyLe k l ∧ S.keyLe l k = T.keyLe l k := by
    refine hsorted.imp ?_
    rintro k l ⟨hs, ht⟩
    refine ⟨by rw [hs, ht], ?_⟩
    rw [Bool.eq_iff_iff, hback hS hs, hback hT ht]
  have hmem : ∀ j ∈ ks, j ∈ S.sortKeys ks := fun j hj => (List.mem_insertionSort _).2 hj
  have hsymm : Std.Symm fun k l : String =>
      S.keyLe k l = T.keyLe k l ∧ S.keyLe l k = T.keyLe l k := ⟨fun _ _ h => ⟨h.2, h.1⟩⟩
  have hself : ∀ j ∈ S.sortKeys ks,
      S.keyLe j j = T.keyLe j j ∧ S.keyLe j j = T.keyLe j j := by
    intro j _
    rw [hrefl hS, hrefl hT]
    exact ⟨rfl, rfl⟩
  intro k hk l hl
  exact (hpair.forall_of_forall hself (hmem k hk) (hmem l hl)).1

/-! ## Agreement -/

/-- Two styles agree on every number, every string and the order of every object's keys. -/
def Agree (S T : Style) (v : Json) : Prop :=
  v.All (fun n => S.number n = T.number n) (fun s => S.string s = T.string s)
    (fun ks => ∀ k ∈ ks, ∀ l ∈ ks, S.keyLe k l = T.keyLe k l)

/-- Two styles agree on every number and every string, and sort the keys of every object alike. -/
def AgreeSorted (S T : Style) (v : Json) : Prop :=
  v.All (fun n => S.number n = T.number n) (fun s => S.string s = T.string s)
    (fun ks => S.sortKeys ks = T.sortKeys ks)

/-- Members that two styles write alike. -/
theorem map_memberText_congr {L : List (String × Json)}
    (h : ∀ m ∈ L, S.string m.1 = T.string m.1 ∧ S.print m.2 = T.print m.2) :
    L.map S.memberText = L.map T.memberText := by
  refine List.map_congr_left ?_
  intro m hm
  rw [memberText, memberText, (h m hm).1, (h m hm).2]

/-- Styles that agree on a value without repeated keys print it alike. -/
theorem print_eq_of_agreeSorted {v : Json} (hv : v.UniqueKeys) (h : AgreeSorted S T v) :
    S.print v = T.print v := by
  induction hv with
  | null => rfl
  | bool b => cases b <;> rfl
  | num _ =>
    cases h with
    | num h => exact h
  | str _ =>
    cases h with
    | str h => exact h
  | @arr xs _ ih =>
    cases h with
    | arr h =>
      rw [print, print, printAll_eq_map, printAll_eq_map,
        List.map_congr_left fun v hv => ih v hv (h v hv)]
  | @obj ms hnodup _ _ ih =>
    cases h with
    | obj hkeys hstr h =>
      rw [print_obj, print_obj, (sort_eq_iff hnodup).2 hkeys]
      have htexts : (T.sort ms).map S.memberText = (T.sort ms).map T.memberText := by
        refine map_memberText_congr fun m hm => ?_
        exact ⟨hstr m (mem_sort.1 hm), ih m (mem_sort.1 hm) (h m (mem_sort.1 hm))⟩
      rw [htexts]

section Converse

variable (hS : S.Readable) (hT : T.Readable) (hsep : Separates S T)

/-- A printed value does not start with the closing bracket of an array. -/
theorem print_ne_bracket (hS : S.Readable) (v : Json) (a b : List Char) :
    S.print v ++ a ≠ ']' :: b := by
  intro h
  cases v with
  | null => exact absurd (List.cons.inj h).1 (by decide)
  | bool c => cases c <;> exact absurd (List.cons.inj h).1 (by decide)
  | num n =>
    cases hn : S.number n with
    | nil => exact hS.number_ne_nil n hn
    | cons c t =>
      rw [print, hn, List.cons_append] at h
      have hc := hS.number_alphabet n c (by rw [hn]; simp)
      rw [(List.cons.inj h).1] at hc
      exact absurd hc (by decide)
  | str s =>
    obtain ⟨t, ht⟩ := hS.string_quoted s
    rw [print, ht, List.cons_append] at h
    exact absurd (List.cons.inj h).1 (by decide)
  | arr xs => exact absurd (List.cons.inj h).1 (by decide)
  | obj ms => exact absurd (List.cons.inj h).1 (by decide)

theorem memberText_ne_brace (hS : S.Readable) (m : String × Json) (a b : List Char) :
    S.memberText m ++ a ≠ '}' :: b := by
  intro h
  obtain ⟨t, ht⟩ := hS.string_quoted m.1
  rw [memberText, ht, List.append_assoc, List.cons_append] at h
  exact absurd (List.cons.inj h).1 (by decide)

/-- What equal texts say of one value, whatever follows them. -/
def Reads (S T : Style) (v : Json) : Prop :=
  ∀ x y, Delimited x → Delimited y → S.print v ++ x = T.print v ++ y → AgreeSorted S T v ∧ x = y

theorem reads_elements {xs : List Json} (h : ∀ v ∈ xs, Reads S T v) :
    ∀ x y, tailText ']' (xs.map S.print) x = tailText ']' (xs.map T.print) y →
      (∀ v ∈ xs, AgreeSorted S T v) ∧ x = y := by
  induction xs with
  | nil =>
    intro x y hxy
    exact ⟨by simp, (List.cons.inj hxy).2⟩
  | cons v vs ih =>
    intro x y hxy
    simp only [List.map_cons, tailText, List.cons.injEq, true_and] at hxy
    obtain ⟨hv, htail⟩ := h v (by simp) _ _ (tailText_delimited (by decide) _ _)
      (tailText_delimited (by decide) _ _) hxy
    obtain ⟨hvs, hrest⟩ := ih (fun w hw => h w (by simp [hw])) x y htail
    refine ⟨?_, hrest⟩
    intro w hw
    rcases List.mem_cons.1 hw with rfl | hw
    · exact hv
    · exact hvs w hw

include hsep in
/-- Two lists of members of one object with equal texts are equal: the keys are read off the
texts, and a key has one value. -/
theorem reads_members {ms : List (String × Json)} (hnodup : (ms.map Prod.fst).Nodup)
    (h : ∀ m ∈ ms, Reads S T m.2) : ∀ L M : List (String × Json), (∀ m ∈ L, m ∈ ms) →
      (∀ m ∈ M, m ∈ ms) → ∀ x y,
      tailText '}' (L.map S.memberText) x = tailText '}' (M.map T.memberText) y →
      L = M ∧ (∀ m ∈ L, S.string m.1 = T.string m.1 ∧ AgreeSorted S T m.2) ∧ x = y := by
  intro L
  induction L with
  | nil =>
    intro M _ _ x y hxy
    cases M with
    | nil => exact ⟨rfl, by simp, (List.cons.inj hxy).2⟩
    | cons m M => exact absurd (List.cons.inj hxy).1 (by decide)
  | cons m L ih =>
    intro M hL hM x y hxy
    cases M with
    | nil => exact absurd (List.cons.inj hxy).1 (by decide)
    | cons m' M =>
      simp only [List.map_cons, tailText, memberText, List.cons.injEq, true_and,
        List.append_assoc, List.cons_append] at hxy
      obtain ⟨hkey, htext, hrest⟩ := hsep _ _ _ _ hxy
      have hm : m' = m :=
        List.inj_on_of_nodup_map hnodup (hM m' (by simp)) (hL m (by simp)) hkey.symm
      subst hm
      obtain ⟨hagree, htail⟩ := h m' (hL m' (by simp)) _ _ (tailText_delimited (by decide) _ _)
        (tailText_delimited (by decide) _ _) (List.cons.inj hrest).2
      obtain ⟨rfl, hall, hxy⟩ := ih M (fun n hn => hL n (by simp [hn]))
        (fun n hn => hM n (by simp [hn])) x y htail
      refine ⟨rfl, ?_, hxy⟩
      intro n hn
      rcases List.mem_cons.1 hn with rfl | hn
      · exact ⟨htext, hagree⟩
      · exact hall n hn

include hS hT hsep in
/-- The same of two whole objects, with their members in any order. -/
theorem reads_object {ms : List (String × Json)} (hnodup : (ms.map Prod.fst).Nodup)
    (h : ∀ m ∈ ms, Reads S T m.2) {L M : List (String × Json)} (hL : ∀ m ∈ L, m ∈ ms)
    (hM : ∀ m ∈ M, m ∈ ms) {x y : List Char}
    (htext : '{' :: joinComma (L.map S.memberText) ++ ['}'] ++ x
      = '{' :: joinComma (M.map T.memberText) ++ ['}'] ++ y) :
    L = M ∧ (∀ m ∈ L, S.string m.1 = T.string m.1 ∧ AgreeSorted S T m.2) ∧ x = y := by
  simp only [List.cons_append, List.append_assoc, List.cons.injEq, true_and,
    List.nil_append] at htext
  have hhead : ∀ {U : Style}, U.Readable → ∀ L : List (String × Json),
      ∀ t ∈ (L.map U.memberText).head?, ∀ a b, t ++ a ≠ '}' :: b := by
    intro U hU L t ht a b
    obtain ⟨m, -, rfl⟩ := List.mem_map.1 (List.mem_of_mem_head? ht)
    exact memberText_ne_brace hU m a b
  exact reads_members hsep hnodup h L M hL hM x y (tail_of_join (hhead hS _) (hhead hT _) htext)

/-- A number ends where its characters do. -/
theorem numberText_append_inj {a b x y : List Char} (ha : ∀ c ∈ a, numberChar c = true)
    (hb : ∀ c ∈ b, numberChar c = true) (hx : Delimited x) (hy : Delimited y)
    (h : a ++ x = b ++ y) : a = b ∧ x = y := by
  have htake : ∀ {t z : List Char}, (∀ c ∈ t, numberChar c = true) → Delimited z →
      (t ++ z).takeWhile numberChar = t := by
    intro t z ht hz
    rw [List.takeWhile_append_of_pos ht]
    cases z with
    | nil => simp
    | cons c z =>
      have hc : numberChar c = false := hz c (by simp)
      simp [hc]
  have hab : a = b := by rw [← htake ha hx, h, htake hb hy]
  subst hab
  exact ⟨rfl, List.append_cancel_left h⟩

include hS hT hsep in
/-- Equal texts of a value without repeated keys come from styles that agree on it. -/
theorem reads_of_uniqueKeys {v : Json} (hv : v.UniqueKeys) : Reads S T v := by
  induction hv with
  | null => exact fun x y _ _ h => ⟨.null, List.append_cancel_left h⟩
  | bool b =>
    intro x y _ _ h
    cases b with
    | true => exact ⟨.bool true, List.append_cancel_left h⟩
    | false => exact ⟨.bool false, List.append_cancel_left h⟩
  | @num n _ =>
    intro x y hx hy h
    obtain ⟨hn, hxy⟩ := numberText_append_inj (hS.number_alphabet n) (hT.number_alphabet n) hx hy h
    exact ⟨.num hn, hxy⟩
  | @str s _ =>
    intro x y _ _ h
    obtain ⟨-, hs, hxy⟩ := hsep s s x y h
    exact ⟨.str hs, hxy⟩
  | @arr xs _ ih =>
    intro x y _ _ h
    simp only [print, printAll_eq_map, List.cons_append, List.append_assoc, List.cons.injEq,
      true_and, List.nil_append] at h
    have hhead : ∀ {U : Style}, U.Readable → ∀ t ∈ (xs.map U.print).head?, ∀ a b,
        t ++ a ≠ ']' :: b := by
      intro U hU t ht a b
      obtain ⟨v, -, rfl⟩ := List.mem_map.1 (List.mem_of_mem_head? ht)
      exact print_ne_bracket hU v a b
    obtain ⟨hxs, hxy⟩ := reads_elements ih x y (tail_of_join (hhead hS) (hhead hT) h)
    exact ⟨.arr hxs, hxy⟩
  | @obj ms hkeys _ _ ih =>
    intro x y _ _ h
    rw [print_obj, print_obj] at h
    obtain ⟨hsort, hall, hxy⟩ := reads_object hS hT hsep hkeys ih (fun m hm => mem_sort.1 hm)
      (fun m hm => mem_sort.1 hm) h
    refine ⟨.obj ((sort_eq_iff hkeys).1 hsort) ?_ ?_, hxy⟩
    · exact fun m hm => (hall m (mem_sort.2 hm)).1
    · exact fun m hm => (hall m (mem_sort.2 hm)).2

include hS hT hsep in
/-- **Two printers agree on a value exactly when they agree on everything in it** and sort its keys
alike. -/
theorem print_eq_iff_sorted {v : Json} (hv : v.UniqueKeys) :
    S.print v = T.print v ↔ AgreeSorted S T v := by
  constructor
  · intro h
    refine (reads_of_uniqueKeys hS hT hsep hv [] [] Delimited.nil Delimited.nil ?_).1
    rw [h]
  · exact print_eq_of_agreeSorted hv

include hS hT hsep in
/-- Objects of the same members, each in an order of its own, have the same text exactly if the
orders are the same and the styles agree on the members. -/
theorem object_text_eq_iff {ms : List (String × Json)} (hv : (obj ms).UniqueKeys)
    {L M : List (String × Json)} (hL : ∀ m ∈ L, m ∈ ms) (hM : ∀ m ∈ M, m ∈ ms) :
    '{' :: joinComma (L.map S.memberText) ++ ['}']
      = '{' :: joinComma (M.map T.memberText) ++ ['}'] ↔
      L = M ∧ ∀ m ∈ L, S.string m.1 = T.string m.1 ∧ AgreeSorted S T m.2 := by
  cases hv with
  | obj hnodup _ hvalues =>
    constructor
    · intro h
      have happend := congrArg (· ++ []) h
      obtain ⟨hLM, hall, -⟩ := reads_object hS hT hsep hnodup
        (fun m hm => reads_of_uniqueKeys hS hT hsep (hvalues m hm)) hL hM happend
      exact ⟨hLM, hall⟩
    · rintro ⟨rfl, hall⟩
      have htexts : L.map S.memberText = L.map T.memberText := by
        refine map_memberText_congr fun m hm => ⟨(hall m hm).1, ?_⟩
        exact print_eq_of_agreeSorted (hvalues m (hL m hm)) (hall m hm).2
      rw [htexts]

end Converse

theorem agreeSorted_iff (hS : S.Lawful) (hT : T.Lawful) {v : Json} :
    AgreeSorted S T v ↔ Agree S T v := by
  constructor
  · exact All.mono (fun _ h => h) (fun _ h => h) fun _ => keyLe_eq_of_sortKeys_eq hS hT
  · exact All.mono (fun _ h => h) (fun _ h => h) fun _ => sortKeys_congr

/-- **Two printers agree on a value exactly when they agree on everything in it**, for linear orders
of the keys. -/
theorem print_eq_iff (hS : S.Lawful) (hT : T.Lawful) (hsep : Separates S T) {v : Json}
    (hv : v.UniqueKeys) : S.print v = T.print v ↔ Agree S T v := by
  rw [print_eq_iff_sorted hS.readable hT.readable hsep hv, agreeSorted_iff hS hT]

end Style

end Json
