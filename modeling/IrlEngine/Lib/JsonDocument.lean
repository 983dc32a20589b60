import IrlEngine.Lib.JsonObject

/-!
# Documents with repeated keys

A JSON document may repeat a key.  `toValue` is what a decoder into sorted maps makes of it: the
last member under a key replaces the others, at every depth.  `unique?` is the other way to read a
member, by a decoder of a record that refuses a repeated field.

* `get?_toValue_of_unique` — where the record decoder finds a member, the map has its value.
-/

namespace Json

/-! ## From documents to values -/

mutual
/-- The value of a document: maps keep the last member under each key. -/
def toValue : Json → Json
  | .null => .null
  | .bool b => .bool b
  | .num n => .num n
  | .str s => .str s
  | .arr xs => .arr (toValueAll xs)
  | .obj ms => .obj (toValueMembers ms [])

/-- The elements of an array, each as a value. -/
def toValueAll : List Json → List Json
  | [] => []
  | v :: vs => toValue v :: toValueAll vs

/-- The members inserted into a map one after the other. -/
def toValueMembers : List (String × Json) → List (String × Json) → List (String × Json)
  | [], map => map
  | (k, v) :: ms, map => toValueMembers ms (insertMember k (toValue v) map)
end

theorem toValueAll_eq_map (xs : List Json) : toValueAll xs = xs.map toValue := by
  induction xs with
  | nil => rfl
  | cons v vs ih => rw [toValueAll, ih]; rfl

theorem SortedKeys.toValueMembers {ms map : List (String × Json)} (h : SortedKeys map) :
    SortedKeys (toValueMembers ms map) := by
  induction ms generalizing map with
  | nil => exact h
  | cons m ms ih =>
    rw [Json.toValueMembers]
    exact ih h.insertMember

theorem SortedKeys.nodup {α : Type*} {ms : List (String × α)} (h : SortedKeys ms) :
    (ms.map Prod.fst).Nodup :=
  List.pairwise_map.2 (h.imp fun hlt => hlt.ne)

/-! ## Reading a member -/

/-- The member under a key: nothing if it is repeated, `some none` if it is missing. -/
def unique? (k : String) (ms : List (String × Json)) : Option (Option Json) :=
  match ms.filter fun m => m.1 = k with
  | [] => some none
  | [m] => some (some m.2)
  | _ => none

/-- Members under other keys leave the map as it is at this one. -/
theorem get?_toValueMembers_of_ne {k : String} {ms map : List (String × Json)}
    (h : ∀ m ∈ ms, m.1 ≠ k) : (obj (toValueMembers ms map)).get? k = (obj map).get? k := by
  induction ms generalizing map with
  | nil => rfl
  | cons m ms ih =>
    rw [toValueMembers, ih fun m' hm' => h m' (by simp [hm']), get?_insertMember,
      if_neg (h m (by simp))]

theorem get?_toValueMembers {k : String} {v : Json} {ms map : List (String × Json)}
    (h : ms.filter (fun m => m.1 = k) = [(k, v)]) :
    (obj (toValueMembers ms map)).get? k = some v.toValue := by
  induction ms generalizing map with
  | nil => simp at h
  | cons m ms ih =>
    rw [toValueMembers]
    by_cases hm : m.1 = k
    · rw [List.filter_cons_of_pos (by simpa using hm)] at h
      obtain ⟨rfl, hrest⟩ := List.cons.inj h
      have hothers : ∀ m ∈ ms, m.1 ≠ k := by simpa [List.filter_eq_nil_iff] using hrest
      rw [get?_toValueMembers_of_ne hothers, get?_insertMember, if_pos rfl]
    · rw [List.filter_cons_of_neg (by simpa using hm)] at h
      exact ih h

/-- A member that is not repeated is the one in the map. -/
theorem get?_toValue_of_unique {k : String} {ms : List (String × Json)} {found : Option Json}
    (h : unique? k ms = some found) : (toValue (.obj ms)).get? k = found.map toValue := by
  rw [toValue]
  unfold unique? at h
  split at h
  · next hnone =>
    obtain rfl := Option.some.inj h
    have hothers : ∀ m ∈ ms, m.1 ≠ k := by simpa [List.filter_eq_nil_iff] using hnone
    rw [get?_toValueMembers_of_ne hothers]
    rfl
  · next m hone =>
    obtain rfl := Option.some.inj h
    have hkey : m.1 = k := by
      have hmem : m ∈ ms.filter fun m => m.1 = k := by rw [hone]; simp
      simpa using (List.mem_filter.1 hmem).2
    rw [← hkey] at hone ⊢
    exact get?_toValueMembers hone
  · cases h

theorem insertMember_of_lt {α : Type*} {k : String} {v : α} {map : List (String × α)}
    (h : ∀ m ∈ map, m.1 < k) : insertMember k v map = map ++ [(k, v)] := by
  induction map with
  | nil => rfl
  | cons m map ih =>
    have hlt : m.1 < k := h m (by simp)
    rw [insertMember, if_neg hlt.asymm, if_neg hlt.ne', ih fun m' hm' => h m' (by simp [hm'])]
    rfl

theorem toValueMembers_of_sorted {ms map : List (String × Json)} (hsorted : SortedKeys (map ++ ms))
    (h : ∀ m ∈ ms, toValue m.2 = m.2) : toValueMembers ms map = map ++ ms := by
  induction ms generalizing map with
  | nil => rw [toValueMembers, List.append_nil]
  | cons m ms ih =>
    have hbefore : ∀ m' ∈ map, m'.1 < m.1 := by
      intro m' hm'
      exact (List.pairwise_append.1 hsorted).2.2 m' hm' m (by simp)
    have happend : map ++ m :: ms = (map ++ [m]) ++ ms := by simp
    rw [toValueMembers, h m (by simp), insertMember_of_lt hbefore]
    rw [happend] at hsorted ⊢
    exact ih hsorted fun m' hm' => h m' (by simp [hm'])

/-- A value is its own value. -/
theorem IsValue.toValue_eq {n : ℕ} {v : Json} (h : IsValue n v) : v.toValue = v := by
  induction h with
  | null n => rfl
  | bool n b => rfl
  | num n x => rfl
  | str n s => rfl
  | @arr n xs h ih =>
    rw [toValue, toValueAll_eq_map, List.map_congr_left (g := id) ih, List.map_id]
  | @obj n ms hsorted h ih =>
    have hmembers : toValueMembers ms [] = [] ++ ms := toValueMembers_of_sorted hsorted ih
    rw [toValue, hmembers, List.nil_append]

/-- Looking up commutes with taking the normal form. -/
theorem get?_normalize_obj {ms : List (String × Json)} (hkeys : (ms.map Prod.fst).Nodup)
    (k : String) : (normalize (.obj ms)).get? k = ((obj ms).get? k).map normalize := by
  cases hget : (obj ms).get? k with
  | some v => exact get?_normalize hkeys ((get?_eq_some_iff hkeys).1 hget)
  | none =>
    have habsent : ∀ m ∈ ms, m.1 ≠ k := by
      simpa [get?, List.find?_eq_none] using hget
    rw [Option.map_none, normalize, get?, Option.map_eq_none_iff, List.find?_eq_none]
    intro m hm
    rw [sortByKey, List.mem_insertionSort, normalizeMembers_eq_map] at hm
    obtain ⟨m', hm', rfl⟩ := List.mem_map.1 hm
    simpa using habsent m' hm'

end Json
