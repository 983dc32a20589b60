import Mathlib.Data.List.Basic
import Mathlib.Algebra.BigOperators.Group.List.Basic

/-!
# Tables as lists of rows

`UPDATE … SET … WHERE …` on a table that is a list of rows (`updateWhere`), with
the frame rules that proofs about such statements use: which rows the result has,
which columns it keeps, and what the row with a given key becomes (`rowOf`); the copy of
missing rows into another table (`insertMissing`); and sums
over a table, also along a join with another one (`sum_map_eq_sum_join`), and the numbers of rows in
two groups (`countP_add_countP`).
-/

namespace Table

variable {α β : Type*}

/-- The table after every row that meets `p` is rewritten by `f`. -/
def updateWhere (p : α → Bool) (f : α → α) (t : List α) : List α :=
  t.map fun r => if p r then f r else r

variable {p : α → Bool} {f : α → α}

/-- A column that the update does not write keeps its values, row by row. -/
theorem map_updateWhere {g : α → β} (h : ∀ r, g (f r) = g r) (t : List α) :
    (updateWhere p f t).map g = t.map g := by
  unfold updateWhere
  rw [List.map_map]
  refine List.map_congr_left ?_
  intro r _
  show g (if p r then f r else r) = g r
  split
  · exact h r
  · rfl

/-- An update changes the table if it changes a row. -/
theorem updateWhere_ne_iff {t : List α} :
    updateWhere p f t ≠ t ↔ ∃ r ∈ t, p r = true ∧ f r ≠ r := by
  have hsame : updateWhere p f t = t ↔ ∀ r ∈ t, p r = true → f r = r := by
    have hid : updateWhere p f t = t ↔ ∀ r ∈ t, (if p r then f r else r) = r := by
      conv_lhs => rhs; rw [← List.map_id t]
      exact List.map_inj_left
    rw [hid]
    refine forall_congr' fun r => imp_congr_right fun _ => ?_
    split_ifs with hp
    · simp [hp]
    · simp [hp]
  rw [Ne, hsame]
  push Not
  rfl

@[simp] theorem updateWhere_nil : updateWhere p f [] = [] := rfl

@[simp] theorem updateWhere_cons (r : α) (t : List α) :
    updateWhere p f (r :: t) = (if p r then f r else r) :: updateWhere p f t := rfl

/-- Rows that are not asked for may be rewritten. -/
theorem filter_updateWhere {q : α → Bool} (h : ∀ r, p r = true → q r = false ∧ q (f r) = false)
    (t : List α) : (updateWhere p f t).filter q = t.filter q := by
  induction t with
  | nil => rfl
  | cons r t ih =>
    rw [updateWhere_cons, List.filter_cons, List.filter_cons, ih]
    by_cases hp : p r = true
    · simp [hp, h r hp]
    · simp [hp]

@[simp] theorem updateWhere_append (t u : List α) :
    updateWhere p f (t ++ u) = updateWhere p f t ++ updateWhere p f u := by
  unfold updateWhere
  exact List.map_append

/-- Two tables that agree row by row still do when both are rewritten. -/
theorem forall₂_map {γ δ : Type*} {R : α → β → Prop} {S : γ → δ → Prop} {g : α → γ} {h : β → δ}
    {t : List α} {u : List β} (htu : List.Forall₂ R t u)
    (hstep : ∀ a ∈ t, ∀ b, R a b → S (g a) (h b)) : List.Forall₂ S (t.map g) (u.map h) := by
  induction htu with
  | nil => exact .nil
  | @cons a b t u hab _ ih =>
    refine .cons (hstep a (by simp) b hab) (ih ?_)
    intro a' ha'
    exact hstep a' (by simp [ha'])

/-- Two rewritings one after the other. -/
theorem forall₂_trans {γ : Type*} {R : α → β → Prop} {S : β → γ → Prop} {T : α → γ → Prop}
    (h : ∀ a b c, R a b → S b c → T a c) {t : List α} {u : List β} {v : List γ}
    (htu : List.Forall₂ R t u) (huv : List.Forall₂ S u v) : List.Forall₂ T t v := by
  induction htu generalizing v with
  | nil =>
    cases huv
    exact .nil
  | cons hab _ ih =>
    cases huv with
    | cons hbc huv => exact .cons (h _ _ _ hab hbc) (ih huv)

theorem forall₂_and {R S : α → β → Prop} {t : List α} {u : List β} (h : List.Forall₂ R t u)
    (h' : List.Forall₂ S t u) : List.Forall₂ (fun a b => R a b ∧ S a b) t u := by
  obtain ⟨hlen, hR⟩ := List.forall₂_iff_zip.1 h
  exact List.forall₂_iff_zip.2 ⟨hlen, fun hab => ⟨hR hab, (List.forall₂_iff_zip.1 h').2 hab⟩⟩

/-- Partners are rows of their tables. -/
theorem forall₂_mem {R : α → β → Prop} {t : List α} {u : List β} (h : List.Forall₂ R t u) :
    List.Forall₂ (fun a b => (a ∈ t ∧ b ∈ u) ∧ R a b) t u := by
  obtain ⟨hlen, hR⟩ := List.forall₂_iff_zip.1 h
  exact List.forall₂_iff_zip.2 ⟨hlen, fun hab => ⟨List.of_mem_zip hab, hR hab⟩⟩

/-- Every row of the first table has a partner in the second. -/
theorem exists_of_forall₂ {R : α → β → Prop} {t : List α} {u : List β} (htu : List.Forall₂ R t u)
    {a : α} (ha : a ∈ t) : ∃ b ∈ u, R a b := by
  induction htu with
  | nil => exact absurd ha (by simp)
  | @cons a' b t u hab _ ih =>
    rcases List.mem_cons.1 ha with rfl | ha
    · exact ⟨b, by simp, hab⟩
    · obtain ⟨c, hc, hac⟩ := ih ha
      exact ⟨c, by simp [hc], hac⟩

/-! ## Rows by place -/

/-- A scan in any order of the places reads every row once. -/
theorem perm_of_order {t : List α} {order : List ℕ}
    (h : order.isPerm (List.range t.length) = true) : (order.filterMap fun i => t[i]?).Perm t := by
  have hall : ((List.range t.length).filterMap fun i => t[i]?) = t := by
    clear h
    induction t with
    | nil => rfl
    | cons a t ih =>
      rw [List.length_cons, List.range_succ_eq_map, List.filterMap_cons, List.filterMap_map]
      exact congrArg (List.cons a) ih
  exact ((List.isPerm_iff.1 h).filterMap _).trans (by rw [hall])

theorem getElem?_of_append {t : List α} {a b : α} {i : ℕ} (h : (t ++ [a])[i]? = some b) :
    t[i]? = some b ∨ i = t.length ∧ b = a := by
  rw [List.getElem?_append] at h
  split at h
  · exact Or.inl h
  · rename_i hle
    obtain ⟨hlt, ha⟩ := List.getElem?_eq_some_iff.1 h
    have hi : i - t.length = 0 := by simpa using hlt
    refine Or.inr ⟨by omega, ?_⟩
    simpa [hi] using ha.symm

theorem getElem?_of_set {t : List α} {a b : α} {i k : ℕ} (h : (t.set k a)[i]? = some b) :
    i ≠ k ∧ t[i]? = some b ∨ i = k ∧ b = a := by
  rw [List.getElem?_set] at h
  split at h
  · rename_i hki
    split at h
    · exact Or.inr ⟨hki.symm, (Option.some.inj h).symm⟩
    · exact absurd h (by simp)
  · rename_i hki
    exact Or.inl ⟨Ne.symm hki, h⟩

/-- The entries other than the replaced one stay. -/
theorem mem_set_of_ne {t : List α} {k : ℕ} {a b x : α} (hk : t[k]? = some a) (hx : x ∈ t)
    (hne : x ≠ a) : x ∈ t.set k b := by
  obtain ⟨i, hi⟩ := List.mem_iff_getElem?.1 hx
  have hik : k ≠ i := by
    rintro rfl
    exact hne (Option.some.inj (hi.symm.trans hk))
  exact List.mem_of_getElem? ((List.getElem?_set_ne hik).trans hi)

/-- Replacing a row keeps a column in which the new row agrees. -/
theorem map_set_of_eq {t : List α} {i : ℕ} {a b : α} (h : t[i]? = some a) {g : α → β}
    (hg : g b = g a) : (t.set i b).map g = t.map g := by
  obtain ⟨hi, ha⟩ := List.getElem?_eq_some_iff.1 h
  have hi' : i < (t.map g).length := by simpa using hi
  have hget : (t.map g)[i] = g a := by simp [ha]
  rw [List.map_set, hg, ← hget, List.set_getElem_self]

/-- Replacing a row trades what it contributes to a list of results. -/
theorem filterMap_set_perm {t : List α} {i : ℕ} {a : α} (h : t[i]? = some a) (b : α)
    (g : α → Option β) :
    ((t.set i b).filterMap g ++ (g a).toList).Perm (t.filterMap g ++ (g b).toList) := by
  induction t generalizing i with
  | nil => exact absurd h (by simp)
  | cons c t ih =>
    have hcons : ∀ (d : α) (u : List α),
        (d :: u).filterMap g = (g d).toList ++ u.filterMap g := by
      intro d u
      cases hd : g d with
      | none => rw [List.filterMap_cons_none hd]; rfl
      | some x => rw [List.filterMap_cons_some hd]; rfl
    cases i with
    | zero =>
      obtain rfl : c = a := by simpa using h
      rw [List.set_cons_zero, hcons, hcons]
      refine (List.perm_append_comm.append_right _).trans ?_
      rw [List.append_assoc]
      refine (List.perm_append_comm.append_left _).trans ?_
      rw [← List.append_assoc]
      exact List.perm_append_comm.append_right _
    | succ i =>
      rw [List.set_cons_succ, hcons, hcons, List.append_assoc, List.append_assoc]
      exact (ih (by simpa using h)).append_left _

/-! ## Rows by key -/

section Keyed

variable {κ : Type*} [DecidableEq κ] {key : α → κ}

/-- The row with a key. -/
def rowOf (key : α → κ) (t : List α) (k : κ) : Option α := t.find? fun r => key r = k

theorem mem_of_rowOf {t : List α} {k : κ} {r : α} (h : rowOf key t k = some r) : r ∈ t :=
  List.mem_of_find?_eq_some h

theorem key_of_rowOf {t : List α} {k : κ} {r : α} (h : rowOf key t k = some r) : key r = k := by
  simpa using List.find?_some h

/-- Where keys are unique, a row is the row of its key. -/
theorem rowOf_of_mem {t : List α} (hnodup : (t.map key).Nodup) {r : α} (hr : r ∈ t) :
    rowOf key t (key r) = some r := by
  unfold rowOf
  rw [List.find?_eq_some_iff_append]
  obtain ⟨as, bs, rfl⟩ := List.append_of_mem hr
  refine ⟨by simp, as, bs, rfl, ?_⟩
  intro a ha
  rw [List.map_append, List.nodup_append] at hnodup
  have hne : key a ≠ key r := hnodup.2.2 _ (List.mem_map_of_mem ha) _ (by simp)
  simpa using hne

theorem rowOf_eq_none {t : List α} {k : κ} (h : k ∉ t.map key) : rowOf key t k = none := by
  unfold rowOf
  rw [List.find?_eq_none]
  intro r hr
  have : key r ≠ k := fun he => h (he ▸ List.mem_map_of_mem hr)
  simpa using this

/-- A change of the rows that keeps the keys changes the row of a key. -/
theorem rowOf_map {g : α → α} {t : List α} (hkey : ∀ r ∈ t, key (g r) = key r) (k : κ) :
    rowOf key (t.map g) k = (rowOf key t k).map g := by
  induction t with
  | nil => rfl
  | cons r t ih =>
    have hr : key (g r) = key r := hkey r (by simp)
    have ih := ih fun q hq => hkey q (by simp [hq])
    unfold rowOf at ih ⊢
    rw [List.map_cons, List.find?_cons, List.find?_cons, hr]
    by_cases hk : key r = k
    · simp [hk]
    · simpa [hk] using ih

theorem rowOf_updateWhere (hkey : ∀ r, key (f r) = key r) (t : List α) (k : κ) :
    rowOf key (updateWhere p f t) k = (rowOf key t k).map fun r => if p r then f r else r := by
  refine rowOf_map (fun r _ => ?_) k
  split
  · exact hkey r
  · rfl

/-- A row with a new key hides nothing. -/
theorem rowOf_append_of_some {t u : List α} {k : κ} {r : α} (h : rowOf key t k = some r) :
    rowOf key (t ++ u) k = some r := by
  unfold rowOf at h ⊢
  rw [List.find?_append, h]
  rfl

theorem rowOf_append_singleton {t : List α} {k : κ} {r : α} (h : key r ∉ t.map key) :
    rowOf key (t ++ [r]) k = if key r = k then some r else rowOf key t k := by
  by_cases hk : key r = k
  · subst hk
    have hnone := rowOf_eq_none h
    unfold rowOf at hnone ⊢
    rw [List.find?_append, hnone]
    simp
  · unfold rowOf
    rw [List.find?_append, if_neg hk]
    simp [hk]

/-- `INSERT INTO … SELECT … WHERE NOT EXISTS` on a key: the rows of `t` whose key `u` lacks. -/
def insertMissing (key : α → κ) (t u : List α) : List α := u ++ t.filter fun r => key r ∉ u.map key

/-- With no key in common every row is copied. -/
theorem insertMissing_of_disjoint {t u : List α} (h : ∀ r ∈ t, key r ∉ u.map key) :
    insertMissing key t u = u ++ t := by
  rw [insertMissing, List.filter_eq_self.2 fun r hr => decide_eq_true (h r hr)]

/-- With every key there already none is. -/
theorem insertMissing_of_subset {t u : List α} (h : ∀ r ∈ t, key r ∈ u.map key) :
    insertMissing key t u = u := by
  rw [insertMissing, List.filter_eq_nil_iff.2 fun r hr => by simpa using h r hr, List.append_nil]

theorem mem_map_insertMissing {t u : List α} {k : κ} :
    k ∈ (insertMissing key t u).map key ↔ k ∈ u.map key ∨ k ∈ t.map key := by
  rw [insertMissing, List.map_append, List.mem_append]
  refine ⟨Or.imp_right fun h => ?_, fun h => ?_⟩
  · obtain ⟨r, hr, rfl⟩ := List.mem_map.1 h
    exact List.mem_map_of_mem (List.mem_filter.1 hr).1
  · by_cases hu : k ∈ u.map key
    · exact Or.inl hu
    · obtain ⟨r, hr, rfl⟩ := List.mem_map.1 (h.resolve_left hu)
      exact Or.inr (List.mem_map_of_mem (List.mem_filter.2 ⟨hr, decide_eq_true hu⟩))

end Keyed

/-! ## Sums over a table -/

/-- Replacing the `i`-th row exchanges the two rows in a sum. -/
theorem sum_map_set_add {M : Type*} [AddCommMonoid M] {f : α → M} {t : List α} {i : ℕ} {a : α}
    (h : t[i]? = some a) (b : α) : ((t.set i b).map f).sum + f a = (t.map f).sum + f b := by
  induction t generalizing i with
  | nil => cases h
  | cons r t ih =>
    cases i with
    | zero =>
      obtain rfl := Option.some.inj h
      simp only [List.set_cons_zero, List.map_cons, List.sum_cons]
      rw [add_right_comm, add_comm (f b), add_right_comm]
    | succ i =>
      simp only [List.set_cons_succ, List.map_cons, List.sum_cons]
      rw [add_assoc, ih h, add_assoc]

section Sums

variable {κ M : Type*} [DecidableEq κ] [AddCommGroup M] {f : α → M}

/-- Replacing the `i`-th row changes a sum by the difference of the two rows. -/
theorem sum_map_set {t : List α} {i : ℕ} {a : α} (h : t[i]? = some a) (b : α) :
    ((t.set i b).map f).sum = (t.map f).sum + (f b - f a) := by
  rw [← add_sub_assoc, ← sum_map_set_add h b, add_sub_cancel_right]

theorem sum_map_filter (p : α → Bool) (t : List α) :
    ((t.filter p).map f).sum = (t.map fun a => if p a then f a else 0).sum := by
  induction t with
  | nil => rfl
  | cons a t ih =>
    rw [List.filter_cons, List.map_cons, List.sum_cons, ← ih]
    by_cases hp : p a = true
    · rw [if_pos hp, if_pos hp, List.map_cons, List.sum_cons]
    · rw [if_neg hp, if_neg hp, zero_add]

/-- A sum in which only the `i`-th row counts. -/
theorem sum_map_eq_of_index {t : List α} {i : ℕ} {a : α} (h : t[i]? = some a)
    (hzero : ∀ j b, j ≠ i → t[j]? = some b → f b = 0) : (t.map f).sum = f a := by
  induction t generalizing i with
  | nil => exact absurd h (by simp)
  | cons b t ih =>
    rw [List.map_cons, List.sum_cons]
    cases i with
    | zero =>
      obtain rfl : b = a := by simpa using h
      have hrest : ∀ x ∈ t.map f, x = 0 := by
        intro x hx
        obtain ⟨c, hc, rfl⟩ := List.mem_map.1 hx
        obtain ⟨j, hj⟩ := List.mem_iff_getElem?.1 hc
        exact hzero (j + 1) c (by simp) (by simpa using hj)
      rw [List.sum_eq_zero hrest, add_zero]
    | succ i =>
      have hhead : f b = 0 := hzero 0 b (by simp) (by simp)
      have hrest := ih (by simpa using h) fun j c hj hc => hzero (j + 1) c (by simpa using hj)
        (by simpa using hc)
      rw [hhead, zero_add, hrest]

/-- The rows of `t`, each counted at the row of `u` with its key. -/
theorem sum_map_eq_sum_join {t : List α} {u : List β} {foreign : α → κ} {key : β → κ}
    (hnodup : (u.map key).Nodup) (hkey : ∀ a ∈ t, f a ≠ 0 → foreign a ∈ u.map key) :
    (t.map f).sum
      = (u.map fun b => (t.map fun a => if foreign a = key b then f a else 0).sum).sum := by
  induction t with
  | nil => simp
  | cons a t ih =>
    have hone : (u.map fun b => if foreign a = key b then f a else 0).sum = f a := by
      by_cases hf : f a = 0
      · simp [hf]
      · obtain ⟨b, hb, hba⟩ := List.mem_map.1 (hkey a (by simp) hf)
        obtain ⟨i, hi⟩ := List.mem_iff_getElem?.1 hb
        rw [sum_map_eq_of_index hi, if_pos hba.symm]
        intro j c hj hc
        refine if_neg fun hac => hj ?_
        have hget : (u.map key)[j]? = (u.map key)[i]? := by
          rw [List.getElem?_map, List.getElem?_map, hi, hc, Option.map_some, Option.map_some,
            ← hac, hba]
        have hlt : j < (u.map key).length := by
          have := (List.getElem?_eq_some_iff.1 hc).1
          simpa using this
        exact (List.getElem?_inj hlt hnodup).1 hget
    simp only [List.map_cons, List.sum_cons, List.sum_map_add]
    rw [hone, ih fun a ha => hkey a (by simp [ha])]

end Sums

/-- A row is counted once, in one of two groups. -/
theorem countP_add_countP {p q either : α → Bool} {t : List α}
    (heither : ∀ r ∈ t, either r = (p r || q r)) (hdisjoint : ∀ r ∈ t, (p r && q r) = false) :
    t.countP p + t.countP q = t.countP either := by
  induction t with
  | nil => rfl
  | cons r t ih =>
    have hrest := ih (fun r hr => heither r (List.mem_cons_of_mem _ hr))
      fun r hr => hdisjoint r (List.mem_cons_of_mem _ hr)
    have hr := heither r List.mem_cons_self
    have hr' := hdisjoint r List.mem_cons_self
    simp only [List.countP_cons, hr]
    cases hp : p r <;> cases hq : q r <;> simp_all <;> omega

end Table
