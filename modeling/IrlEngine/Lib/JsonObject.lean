import IrlEngine.Lib.Json

/-!
# JSON values as a program holds them

`Json` lists the members of an object in the order of a document.  A value in memory
keeps them in a sorted map: `IsValue n` says so of a value that is nested at most `n`
deep, and the operations here read and change such a value.

* `isValue_normalize`, `IsValue.normalize_eq` — the normal form of a document without
  repeated keys is a value, and a value is its own normal form;
* `insertMember`, `modifyMember`, `setNull` — insertion into a map, a change through a
  borrow of one member, and members overwritten with `null`; each keeps values values;
* `setNull_setNull`, `setNull_cons`, `modify_comp`, `modify_comm` — overwriting is
  idempotent, in any order, and changes under different keys commute;
* `get?_modify`, `get?_insertMember`, `modify_eq_self_iff`, `get?_normalize` — what is read back
  of a member after a change and from a normal form;
* `Numbers` — a property of all numbers in a value, which no overwriting loses.
-/

namespace Json

/-! ## Reading -/

/-- The member of an object under a key. -/
def get? (k : String) : Json → Option Json
  | .obj ms => (ms.find? fun m => m.1 = k).map Prod.snd
  | _ => none

/-- The text of a string. -/
def asStr : Json → Option String
  | .str s => some s
  | _ => none

/-- The number as a signed 64-bit integer, when it is one. -/
def asI64 : Json → Option Int64
  | .num (.posInt n) => if n.toNat < 9223372036854775808 then some n.toInt64 else none
  | .num (.negInt n) => some (Int64.ofInt (-(n.val : ℤ) - 1))
  | _ => none

/-! ## Changing one object -/

/-- Insertion into a map: a new key goes to its place, an old one gets the new value. -/
def insertMember {α : Type*} (k : String) (v : α) : List (String × α) → List (String × α)
  | [] => [(k, v)]
  | (k', v') :: ms =>
    if k < k' then (k, v) :: (k', v') :: ms
    else if k = k' then (k, v) :: ms
    else (k', v') :: insertMember k v ms

/-- A change of the member under a key, when there is one. -/
def modifyMember {α : Type*} (k : String) (f : α → α) : List (String × α) → List (String × α)
  | [] => []
  | (k', v) :: ms => if k' = k then (k', f v) :: ms else (k', v) :: modifyMember k f ms

/-- A change through `get_mut`; what is not an object is left alone. -/
def modify (k : String) (f : Json → Json) : Json → Json
  | .obj ms => .obj (modifyMember k f ms)
  | v => v

/-- `null` inserted under each of these keys in turn. -/
def insertNulls : List String → List (String × Json) → List (String × Json)
  | [], ms => ms
  | k :: ks, ms => insertNulls ks (insertMember k .null ms)

/-- The members under these keys of an object overwritten with `null`, or added. -/
def setNull (keys : List String) : Json → Json
  | .obj ms => .obj (insertNulls keys ms)
  | v => v

section Members

variable {α : Type*}

theorem insertMember_insertMember (k : String) (v : α) (ms : List (String × α)) :
    insertMember k v (insertMember k v ms) = insertMember k v ms := by
  induction ms with
  | nil => simp [insertMember]
  | cons m ms ih =>
    obtain ⟨k', v'⟩ := m
    rw [insertMember]
    split_ifs with hlt heq
    · simp [insertMember]
    · simp [insertMember]
    · rw [insertMember, if_neg hlt, if_neg heq, ih]

/-- An insertion under another key does not disturb a member that is in place. -/
theorem insertMember_of_settled {k l : String} {v w : α} (hkl : k ≠ l) {ms : List (String × α)}
    (h : insertMember k v ms = ms) :
    insertMember k v (insertMember l w ms) = insertMember l w ms := by
  induction ms with
  | nil => simp [insertMember] at h
  | cons m ms ih =>
    obtain ⟨k', v'⟩ := m
    rw [insertMember] at h
    split_ifs at h with hlt heq
    · -- an insertion in front would make the list longer
      exact absurd (congrArg List.length h) (by simp)
    · obtain ⟨rfl, rfl⟩ : k = k' ∧ v = v' := ⟨heq, by simpa [heq] using h⟩
      rw [insertMember]
      split_ifs with hl he
      · rw [insertMember, if_neg (asymm hl), if_neg hkl, insertMember,
          if_neg (lt_irrefl k), if_pos rfl]
      · exact absurd he.symm hkl
      · rw [insertMember, if_neg (lt_irrefl k), if_pos rfl]
    · have hms : insertMember k v ms = ms := by simpa using h
      have hk' : k' < k := lt_of_le_of_ne (not_lt.1 hlt) (Ne.symm heq)
      rw [insertMember]
      split_ifs with hl he
      · rw [insertMember, if_neg (asymm (hl.trans hk')), if_neg hkl, insertMember, if_neg hlt,
          if_neg heq, hms]
      · rw [insertMember, if_neg (by rw [he]; exact hlt), if_neg hkl, hms]
      · rw [insertMember, if_neg hlt, if_neg heq, ih hms]

/-- Insertions under different keys commute. -/
theorem insertMember_comm {k l : String} (hkl : k ≠ l) (v w : α) (ms : List (String × α)) :
    insertMember k v (insertMember l w ms) = insertMember l w (insertMember k v ms) := by
  wlog hlt : k < l generalizing k l v w
  · exact (this hkl.symm w v (lt_of_le_of_ne (not_lt.1 hlt) hkl.symm)).symm
  induction ms with
  | nil => simp [insertMember, hlt, asymm hlt, hkl.symm]
  | cons m ms ih =>
    obtain ⟨k', v'⟩ := m
    rcases lt_trichotomy k k' with hk | hk | hk
    · rcases lt_trichotomy l k' with hl | hl | hl
      · simp [insertMember, hk, hl, hlt, asymm hlt, hkl.symm]
      · subst hl
        simp [insertMember, hk, asymm hk, hkl.symm]
      · simp [insertMember, hk, asymm hl, hl.ne', asymm hlt, hkl.symm]
    · have hl : k' < l := hk ▸ hlt
      simp [insertMember, hk, asymm hl, hl.ne']
    · have hl : k' < l := hk.trans hlt
      simp [insertMember, asymm hk, hk.ne', asymm hl, hl.ne', ih]

theorem mem_insertMember {k : String} {v : α} {m : String × α} {ms : List (String × α)}
    (h : m ∈ insertMember k v ms) : m = (k, v) ∨ m ∈ ms := by
  induction ms with
  | nil => exact Or.inl (List.mem_singleton.1 h)
  | cons m' ms ih =>
    obtain ⟨k', v'⟩ := m'
    rw [insertMember] at h
    split_ifs at h with hlt heq
    · exact List.mem_cons.1 h
    · exact (List.mem_cons.1 h).imp id (List.mem_cons_of_mem _)
    · rcases List.mem_cons.1 h with rfl | hm
      · exact Or.inr (by simp)
      · exact (ih hm).imp id (List.mem_cons_of_mem _)

/-- Members strictly sorted by key, as a map keeps them. -/
def SortedKeys (ms : List (String × α)) : Prop := ms.Pairwise fun a b => a.1 < b.1

theorem SortedKeys.insertMember {k : String} {v : α} {ms : List (String × α)}
    (h : SortedKeys ms) : SortedKeys (insertMember k v ms) := by
  induction ms with
  | nil => exact List.pairwise_singleton _ _
  | cons m ms ih =>
    obtain ⟨k', v'⟩ := m
    obtain ⟨hhead, htail⟩ := List.pairwise_cons.1 h
    rw [Json.insertMember]
    split_ifs with hlt heq
    · refine List.pairwise_cons.2 ⟨fun m hm => ?_, h⟩
      rcases List.mem_cons.1 hm with rfl | hm
      · exact hlt
      · exact hlt.trans (hhead m hm)
    · subst heq
      exact List.pairwise_cons.2 ⟨hhead, htail⟩
    · refine List.pairwise_cons.2 ⟨fun m hm => ?_, ih htail⟩
      rcases mem_insertMember hm with rfl | hm
      · exact lt_of_le_of_ne (not_lt.1 hlt) (Ne.symm heq)
      · exact hhead m hm

theorem modifyMember_keys (k : String) (f : α → α) (ms : List (String × α)) :
    (modifyMember k f ms).map Prod.fst = ms.map Prod.fst := by
  induction ms with
  | nil => rfl
  | cons m ms ih =>
    rw [modifyMember]
    split_ifs
    · rfl
    · rw [List.map_cons, List.map_cons, ih]

theorem SortedKeys.of_keys {β : Type*} {ms : List (String × α)} {ns : List (String × β)}
    (h : SortedKeys ms) (hkeys : ns.map Prod.fst = ms.map Prod.fst) : SortedKeys ns := by
  have hms : (ms.map Prod.fst).Pairwise (· < ·) := List.pairwise_map.2 h
  exact List.pairwise_map.1 (hkeys ▸ hms)

theorem mem_modifyMember {k : String} {f : α → α} {m : String × α} {ms : List (String × α)}
    (h : m ∈ modifyMember k f ms) : m ∈ ms ∨ ∃ v, (k, v) ∈ ms ∧ m = (k, f v) := by
  induction ms with
  | nil => exact absurd h (by simp [modifyMember])
  | cons m' ms ih =>
    obtain ⟨k', v'⟩ := m'
    rw [modifyMember] at h
    split_ifs at h with hk
    · subst hk
      rcases List.mem_cons.1 h with rfl | hm
      · exact Or.inr ⟨v', by simp, rfl⟩
      · exact Or.inl (List.mem_cons_of_mem _ hm)
    · rcases List.mem_cons.1 h with rfl | hm
      · exact Or.inl (by simp)
      · rcases ih hm with hm | ⟨v, hv, rfl⟩
        · exact Or.inl (List.mem_cons_of_mem _ hm)
        · exact Or.inr ⟨v, List.mem_cons_of_mem _ hv, rfl⟩

/-- Two changes of one member are one. -/
theorem modifyMember_comp (k : String) (f g : α → α) (ms : List (String × α)) :
    modifyMember k f (modifyMember k g ms) = modifyMember k (fun v => f (g v)) ms := by
  induction ms with
  | nil => rfl
  | cons m ms ih =>
    rw [modifyMember, modifyMember]
    split_ifs with hk
    · rw [modifyMember, if_pos hk]
    · rw [modifyMember, if_neg hk, ih]

theorem modifyMember_comm {k l : String} (hkl : k ≠ l) (f g : α → α) (ms : List (String × α)) :
    modifyMember k f (modifyMember l g ms) = modifyMember l g (modifyMember k f ms) := by
  induction ms with
  | nil => rfl
  | cons m ms ih =>
    obtain ⟨k', v'⟩ := m
    by_cases hk : k' = k
    · have hl : k' ≠ l := hk ▸ hkl
      simp only [modifyMember, if_pos hk, if_neg hl]
    · by_cases hl : k' = l
      · simp only [modifyMember, if_pos hl, if_neg hk]
      · simp only [modifyMember, if_neg hl, if_neg hk, ih]

end Members

/-! ## Overwriting twice -/

/-- A member that is in place stays in place while other keys are inserted. -/
theorem insertNulls_settled {k : String} {ks : List String} (hk : k ∉ ks)
    {ms : List (String × Json)} (h : insertMember k .null ms = ms) :
    insertMember k .null (insertNulls ks ms) = insertNulls ks ms := by
  induction ks generalizing ms with
  | nil => exact h
  | cons l ks ih =>
    obtain ⟨hne, hks⟩ := not_or.1 (mt List.mem_cons.2 hk)
    exact ih hks (insertMember_of_settled hne h)

/-- After the insertions every one of their keys is in place. -/
theorem insertMember_insertNulls {k : String} {ks : List String} (hks : ks.Nodup) (hk : k ∈ ks)
    (ms : List (String × Json)) :
    insertMember k .null (insertNulls ks ms) = insertNulls ks ms := by
  induction ks generalizing ms with
  | nil => exact absurd hk (by simp)
  | cons l ks ih =>
    obtain ⟨hl, hnodup⟩ := List.nodup_cons.1 hks
    rcases List.mem_cons.1 hk with rfl | hk
    · exact insertNulls_settled hl (insertMember_insertMember k .null ms)
    · exact ih hnodup hk _

theorem insertNulls_of_settled {ks : List String} {ms : List (String × Json)}
    (h : ∀ k ∈ ks, insertMember k .null ms = ms) : insertNulls ks ms = ms := by
  induction ks with
  | nil => rfl
  | cons k ks ih =>
    rw [insertNulls, h k (by simp)]
    exact ih fun l hl => h l (by simp [hl])

/-- **Overwriting with `null` is idempotent.** -/
theorem setNull_setNull {keys : List String} (hkeys : keys.Nodup) (v : Json) :
    setNull keys (setNull keys v) = setNull keys v := by
  cases v with
  | obj ms =>
    rw [setNull, setNull]
    rw [insertNulls_of_settled fun k hk => insertMember_insertNulls hkeys hk ms]
  | _ => rfl

theorem insertNulls_insertMember {k : String} {ks : List String} (hk : k ∉ ks)
    (ms : List (String × Json)) :
    insertNulls ks (insertMember k .null ms) = insertMember k .null (insertNulls ks ms) := by
  induction ks generalizing ms with
  | nil => rfl
  | cons l ks ih =>
    obtain ⟨hne, hks⟩ := not_or.1 (mt List.mem_cons.2 hk)
    rw [insertNulls, insertNulls, ← ih hks, insertMember_comm hne]

/-- The members may be overwritten in any order. -/
theorem setNull_cons {k : String} {ks : List String} (hk : k ∉ ks) (v : Json) :
    setNull (k :: ks) v = setNull [k] (setNull ks v) := by
  cases v with
  | obj ms => exact congrArg Json.obj (insertNulls_insertMember hk ms)
  | _ => rfl

theorem modify_comp (k : String) (f g : Json → Json) (v : Json) :
    modify k f (modify k g v) = modify k (fun v => f (g v)) v := by
  cases v with
  | obj ms => exact congrArg Json.obj (modifyMember_comp k f g ms)
  | _ => rfl

theorem modify_comm {k l : String} (hkl : k ≠ l) (f g : Json → Json) (v : Json) :
    modify k f (modify l g v) = modify l g (modify k f v) := by
  cases v with
  | obj ms => simp only [modify, modifyMember_comm hkl]
  | _ => rfl

/-! ## Reading a member back -/

theorem find?_modifyMember_of_ne {α : Type*} {k l : String} (hkl : k ≠ l) (f : α → α)
    (ms : List (String × α)) :
    (modifyMember k f ms).find? (fun m => m.1 = l) = ms.find? fun m => m.1 = l := by
  induction ms with
  | nil => rfl
  | cons m ms ih =>
    obtain ⟨k', v⟩ := m
    by_cases hk : k' = k
    · subst hk
      simp [modifyMember, hkl]
    · simp [modifyMember, hk, List.find?_cons, ih]

/-- A change under one key does not touch the member under another. -/
theorem get?_modify_of_ne {k l : String} (hkl : k ≠ l) (f : Json → Json) (v : Json) :
    (v.modify k f).get? l = v.get? l := by
  cases v with
  | obj ms =>
    show ((modifyMember k f ms).find? fun m => m.1 = l).map Prod.snd = _
    rw [find?_modifyMember_of_ne hkl]
    rfl
  | _ => rfl

theorem find?_modifyMember {α : Type*} (k : String) (f : α → α) (ms : List (String × α)) :
    (modifyMember k f ms).find? (fun m => m.1 = k) =
      (ms.find? fun m => m.1 = k).map fun m => (m.1, f m.2) := by
  induction ms with
  | nil => rfl
  | cons m ms ih =>
    obtain ⟨k', v⟩ := m
    by_cases hk : k' = k
    · simp [modifyMember, hk]
    · simp [modifyMember, hk, ih]

theorem get?_modify (k : String) (f : Json → Json) (v : Json) :
    (v.modify k f).get? k = (v.get? k).map f := by
  cases v with
  | obj ms =>
    show ((modifyMember k f ms).find? fun m => m.1 = k).map Prod.snd = _
    rw [find?_modifyMember, Option.map_map, get?, Option.map_map]
    rfl
  | _ => rfl

theorem modifyMember_eq_self_iff {α : Type*} {k : String} {f : α → α} {ms : List (String × α)}
    {m : String × α} (h : ms.find? (fun m => m.1 = k) = some m) :
    modifyMember k f ms = ms ↔ f m.2 = m.2 := by
  induction ms with
  | nil => exact absurd h (by simp)
  | cons n ms ih =>
    obtain ⟨k', v⟩ := n
    by_cases hk : k' = k
    · subst hk
      obtain rfl : (k', v) = m := by simpa using h
      simp [modifyMember]
    · have hrest : ms.find? (fun m => m.1 = k) = some m := by simpa [List.find?_cons, hk] using h
      simp [modifyMember, hk, ih hrest]

/-- A change of a member leaves the object alone exactly when it leaves the member alone. -/
theorem modify_eq_self_iff {k : String} {f : Json → Json} {v w : Json} (h : v.get? k = some w) :
    v.modify k f = v ↔ f w = w := by
  cases v with
  | obj ms =>
    obtain ⟨m, hm, rfl⟩ := Option.map_eq_some_iff.1 h
    rw [modify, obj.injEq]
    exact modifyMember_eq_self_iff hm
  | _ => exact absurd h (by simp [get?])

theorem get?_insertMember (k k' : String) (v : Json) (map : List (String × Json)) :
    (obj (insertMember k v map)).get? k' = if k = k' then some v else (obj map).get? k' := by
  unfold get?
  induction map with
  | nil =>
    by_cases hk : k = k'
    · simp [insertMember, hk]
    · simp [insertMember, hk]
  | cons m map ih =>
    obtain ⟨l, w⟩ := m
    rw [insertMember]
    by_cases hlt : k < l
    · rw [if_pos hlt]
      by_cases hk : k = k'
      · simp [hk]
      · simp [hk]
    · rw [if_neg hlt]
      by_cases hl : k = l
      · rw [if_pos hl, hl]
        by_cases hk : l = k'
        · simp [hk]
        · simp [hk]
      · rw [if_neg hl]
        by_cases hw : l = k'
        · subst hw
          simp [hl]
        · simpa [hw] using ih

theorem get?_insertNulls_of_not_mem {k : String} {ks : List String} (hk : k ∉ ks)
    (ms : List (String × Json)) : (obj (insertNulls ks ms)).get? k = (obj ms).get? k := by
  induction ks generalizing ms with
  | nil => rfl
  | cons l ks ih =>
    obtain ⟨hne, hks⟩ := not_or.1 (mt List.mem_cons.2 hk)
    rw [insertNulls, ih hks, get?_insertMember, if_neg (Ne.symm hne)]

theorem get?_insertNulls_of_mem {k : String} {ks : List String} (hk : k ∈ ks)
    (ms : List (String × Json)) : (obj (insertNulls ks ms)).get? k = some .null := by
  induction ks generalizing ms with
  | nil => exact absurd hk List.not_mem_nil
  | cons l ks ih =>
    rw [insertNulls]
    by_cases hks : k ∈ ks
    · exact ih hks _
    · obtain rfl : k = l := (List.mem_cons.1 hk).resolve_right hks
      rw [get?_insertNulls_of_not_mem hks, get?_insertMember, if_pos rfl]

/-- With different keys, the member under a key is the one listed with it. -/
theorem get?_eq_some_iff {ms : List (String × Json)} (hkeys : (ms.map Prod.fst).Nodup) {k : String}
    {v : Json} : (obj ms).get? k = some v ↔ (k, v) ∈ ms := by
  constructor
  · intro h
    obtain ⟨m, hm, rfl⟩ := Option.map_eq_some_iff.1 h
    have hkey : m.1 = k := by simpa using List.find?_some hm
    rw [← hkey]
    exact List.mem_of_find?_eq_some hm
  · intro h
    cases hfind : ms.find? (fun m => m.1 = k) with
    | none => exact absurd (decide_eq_true rfl) (List.find?_eq_none.1 hfind (k, v) h)
    | some m =>
      have hkey : m.1 = k := by simpa using List.find?_some hfind
      have hm : m = (k, v) :=
        List.inj_on_of_nodup_map hkeys (List.mem_of_find?_eq_some hfind) h hkey
      rw [get?, hfind, hm]
      rfl

/-- The members of a normal form are the normal forms of the members. -/
theorem get?_normalize {ms : List (String × Json)} (hkeys : (ms.map Prod.fst).Nodup) {k : String}
    {v : Json} (h : (k, v) ∈ ms) : (normalize (.obj ms)).get? k = some v.normalize := by
  have hperm : (sortByKey (normalizeMembers ms)).Perm (normalizeMembers ms) :=
    List.perm_insertionSort _ _
  have hsame : ((sortByKey (normalizeMembers ms)).map Prod.fst).Nodup := by
    rw [(hperm.map Prod.fst).nodup_iff, normalizeMembers_eq_map, List.map_map]
    exact hkeys
  rw [normalize, get?_eq_some_iff hsame, hperm.mem_iff, normalizeMembers_eq_map]
  exact List.mem_map_of_mem h

/-! ## Values -/

/-- Every object is a sorted map, and the nesting is at most `n` deep. -/
inductive IsValue : ℕ → Json → Prop where
  | null (n : ℕ) : IsValue n .null
  | bool (n : ℕ) (b : Bool) : IsValue n (.bool b)
  | num (n : ℕ) (x : Number) : IsValue n (.num x)
  | str (n : ℕ) (s : String) : IsValue n (.str s)
  | arr {n : ℕ} {xs : List Json} (h : ∀ v ∈ xs, IsValue n v) : IsValue (n + 1) (.arr xs)
  | obj {n : ℕ} {ms : List (String × Json)} (hsorted : SortedKeys ms)
      (h : ∀ m ∈ ms, IsValue n m.2) : IsValue (n + 1) (.obj ms)

/-- A document in which no object repeats a key, nested at most `n` deep. -/
inductive DistinctKeys : ℕ → Json → Prop where
  | null (n : ℕ) : DistinctKeys n .null
  | bool (n : ℕ) (b : Bool) : DistinctKeys n (.bool b)
  | num (n : ℕ) (x : Number) : DistinctKeys n (.num x)
  | str (n : ℕ) (s : String) : DistinctKeys n (.str s)
  | arr {n : ℕ} {xs : List Json} (h : ∀ v ∈ xs, DistinctKeys n v) : DistinctKeys (n + 1) (.arr xs)
  | obj {n : ℕ} {ms : List (String × Json)} (hkeys : (ms.map Prod.fst).Nodup)
      (h : ∀ m ∈ ms, DistinctKeys n m.2) : DistinctKeys (n + 1) (.obj ms)

attribute [simp] DistinctKeys.null DistinctKeys.bool DistinctKeys.num DistinctKeys.str

@[simp] theorem distinctKeys_obj_iff {n : ℕ} {ms : List (String × Json)} :
    DistinctKeys (n + 1) (.obj ms) ↔ (ms.map Prod.fst).Nodup ∧ ∀ m ∈ ms, DistinctKeys n m.2 := by
  constructor
  · intro h
    cases h with
    | obj hkeys h => exact ⟨hkeys, h⟩
  · rintro ⟨hkeys, h⟩
    exact .obj hkeys h

@[simp] theorem distinctKeys_arr_iff {n : ℕ} {xs : List Json} :
    DistinctKeys (n + 1) (.arr xs) ↔ ∀ v ∈ xs, DistinctKeys n v := by
  constructor
  · intro h
    cases h with
    | arr h => exact h
  · exact .arr

theorem normalizeAll_eq_map (xs : List Json) : normalizeAll xs = xs.map normalize := by
  induction xs with
  | nil => rfl
  | cons v vs ih => rw [normalizeAll, ih]; rfl

theorem keyLe_trans {α : Type*} {a b c : String × α} (h : keyLe a b) (h' : keyLe b c) : keyLe a c :=
  le_trans h h'

theorem keyLe_total {α : Type*} (a b : String × α) : keyLe a b ∨ keyLe b a := le_total a.1 b.1

instance {α : Type*} : IsTrans (String × α) keyLe := ⟨fun _ _ _ => keyLe_trans⟩

instance {α : Type*} : Std.Total (keyLe (α := α)) := ⟨keyLe_total⟩

/-- Sorting members with different keys makes a map. -/
theorem sortedKeys_sortByKey {α : Type*} {ms : List (String × α)} (h : (ms.map Prod.fst).Nodup) :
    SortedKeys (sortByKey ms) := by
  have hperm : (sortByKey ms).Perm ms := List.perm_insertionSort keyLe ms
  have hne : ((sortByKey ms).map Prod.fst).Nodup := (hperm.map Prod.fst).nodup_iff.2 h
  have hsorted : (sortByKey ms).Pairwise keyLe := List.pairwise_insertionSort keyLe ms
  exact (hsorted.and (List.pairwise_map.1 hne)).imp fun hab => lt_of_le_of_ne hab.1 hab.2

theorem isValue_normalize {n : ℕ} {v : Json} (h : DistinctKeys n v) : IsValue n v.normalize := by
  induction h with
  | null n => exact .null n
  | bool n b => exact .bool n b
  | num n x => exact .num n x
  | str n s => exact .str n s
  | arr h ih =>
    rw [normalize, normalizeAll_eq_map]
    refine .arr fun v hv => ?_
    obtain ⟨w, hw, rfl⟩ := List.mem_map.1 hv
    exact ih w hw
  | @obj n ms hkeys h ih =>
    rw [normalize, normalizeMembers_eq_map]
    refine .obj (sortedKeys_sortByKey ?_) fun m hm => ?_
    · simpa [List.map_map, Function.comp_def] using hkeys
    · rw [sortByKey, List.mem_insertionSort] at hm
      obtain ⟨w, hw, rfl⟩ := List.mem_map.1 hm
      exact ih w hw

/-- A value is its own normal form. -/
theorem IsValue.normalize_eq {n : ℕ} {v : Json} (h : IsValue n v) : v.normalize = v := by
  induction h with
  | null n => rfl
  | bool n b => rfl
  | num n x => rfl
  | str n s => rfl
  | @arr n xs h ih =>
    rw [normalize, normalizeAll_eq_map, List.map_congr_left (g := id) ih, List.map_id]
  | @obj n ms hsorted h ih =>
    have hms : normalizeMembers ms = ms := by
      rw [normalizeMembers_eq_map, List.map_congr_left (g := id) ?_, List.map_id]
      intro m hm
      rw [ih m hm]
      rfl
    rw [normalize, hms, sortByKey]
    congr 1
    exact List.Pairwise.insertionSort_eq (hsorted.imp fun hab => le_of_lt hab)

theorem IsValue.setNull {n : ℕ} {v : Json} (keys : List String) (h : IsValue n v) :
    IsValue n (setNull keys v) := by
  cases h with
  | null => exact .null n
  | bool _ b => exact .bool n b
  | num _ x => exact .num n x
  | str _ s => exact .str n s
  | arr h => exact .arr h
  | @obj n ms hsorted h =>
    rw [Json.setNull]
    induction keys generalizing ms with
    | nil => exact .obj hsorted h
    | cons k keys ih =>
      refine ih hsorted.insertMember fun m hm => ?_
      rcases mem_insertMember hm with rfl | hm
      · exact .null n
      · exact h m hm

theorem IsValue.modify {n : ℕ} {v : Json} (k : String) {f : Json → Json}
    (hf : ∀ n v, IsValue n v → IsValue n (f v)) (h : IsValue n v) : IsValue n (modify k f v) := by
  cases h with
  | null => exact .null n
  | bool _ b => exact .bool n b
  | num _ x => exact .num n x
  | str _ s => exact .str n s
  | arr h => exact .arr h
  | @obj n ms hsorted h =>
    refine .obj (hsorted.of_keys (modifyMember_keys k f ms)) fun m hm => ?_
    rcases mem_modifyMember hm with hm | ⟨v, hv, rfl⟩
    · exact h m hm
    · exact hf n v (h (k, v) hv)

/-! ## The numbers of a value -/

/-- Every number in the value has the property. -/
inductive Numbers (P : Number → Prop) : Json → Prop where
  | null : Numbers P .null
  | bool (b : Bool) : Numbers P (.bool b)
  | num {x : Number} (h : P x) : Numbers P (.num x)
  | str (s : String) : Numbers P (.str s)
  | arr {xs : List Json} (h : ∀ v ∈ xs, Numbers P v) : Numbers P (.arr xs)
  | obj {ms : List (String × Json)} (h : ∀ m ∈ ms, Numbers P m.2) : Numbers P (.obj ms)

section Numbers

variable {P : Number → Prop} {v : Json}

theorem IsValue.numbers {n : ℕ} (h : IsValue n v) (hP : ∀ x, P x) : Numbers P v := by
  induction h with
  | null n => exact .null
  | bool n b => exact .bool b
  | num n x => exact .num (hP x)
  | str n s => exact .str s
  | arr h ih => exact .arr ih
  | obj hsorted h ih => exact .obj ih

theorem Numbers.setNull (keys : List String) (h : Numbers P v) : Numbers P (setNull keys v) := by
  cases h with
  | null => exact .null
  | bool b => exact .bool b
  | num h => exact .num h
  | str s => exact .str s
  | arr h => exact .arr h
  | @obj ms h =>
    rw [Json.setNull]
    induction keys generalizing ms with
    | nil => exact .obj h
    | cons k keys ih =>
      refine ih fun m hm => ?_
      rcases mem_insertMember hm with rfl | hm
      · exact .null
      · exact h m hm

theorem Numbers.modify (k : String) {f : Json → Json} (hf : ∀ v, Numbers P v → Numbers P (f v))
    (h : Numbers P v) : Numbers P (modify k f v) := by
  cases h with
  | null => exact .null
  | bool b => exact .bool b
  | num h => exact .num h
  | str s => exact .str s
  | arr h => exact .arr h
  | @obj ms h =>
    refine .obj fun m hm => ?_
    rcases mem_modifyMember hm with hm | ⟨v, hv, rfl⟩
    · exact h m hm
    · exact hf v (h (k, v) hv)

end Numbers

end Json
