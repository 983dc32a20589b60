import Mathlib.Data.List.Perm.Basic
import Mathlib.Data.List.Sort
import Mathlib.Data.List.Forall2
import Mathlib.Order.Basic

/-!
# Paging through a table by `LIMIT` and `OFFSET`

A query with `ORDER BY key` returns the rows sorted by `key`; rows with equal keys come in
any order, and in another one each time.  A reader that fetches page after page of `n`
rows, until one is not full, therefore reads a mixture of such orders.

* `Ordered` — an answer of the query without limit;
* `Reads` — what a reader may have read from an offset on;
* `Reads.length_eq` — it reads as many rows as there are;
* `Straddles` — rows with the key of this one lie on both sides of a page boundary;
* `Reads.mem_of_not_straddles`, `exists_reads_missing` — these are the rows that a reader
  may miss, and the only ones.
-/

namespace Paging

variable {α β κ : Type*} [LinearOrder κ]

/-! ## Answers of a query -/

/-- The rows of `t`, sorted by `key`. -/
structure Ordered (key : α → κ) (t rows : List α) : Prop where
  perm : rows.Perm t
  sorted : rows.Pairwise fun a b => key a ≤ key b

/-- What the first rows of an answer leave out has no smaller key than any of them. -/
theorem Ordered.le_of_not_mem_take {key : α → κ} {n : ℕ} {t rows : List α} (h : Ordered key t rows)
    {x y : α} (hx : x ∈ t) (hnot : x ∉ rows.take n) (hy : y ∈ rows.take n) : key y ≤ key x := by
  have hsorted := h.sorted
  have hmem := h.perm.mem_iff.2 hx
  rw [← List.take_append_drop n rows] at hsorted hmem
  rcases List.mem_append.1 hmem with htake | hdrop
  · exact absurd htake hnot
  · exact (List.pairwise_append.1 hsorted).2.2 y hy x hdrop

/-- The first rows of an answer leave behind all rows with no greater key than the last of them,
also in a table that has more rows. -/
theorem Ordered.length_take_add_countP_le {key : α → κ} {n : ℕ} {t u rows : List α}
    (h : Ordered key t rows) (hu : t.Subperm u) {y : α} (hy : (rows.take n).getLast? = some y) :
    (rows.take n).length + u.countP (fun x => key y < key x) ≤ u.length := by
  have hnone : ∀ x ∈ rows.take n, ¬ key y < key x := by
    intro x hx
    obtain ⟨before, hbefore⟩ := List.getLast?_eq_some_iff.1 hy
    have hsorted := h.sorted.sublist (List.take_sublist n rows)
    rw [hbefore] at hx hsorted
    rcases List.mem_append.1 hx with hx | hx
    · exact not_lt.2 ((List.pairwise_append.1 hsorted).2.2 x hx y (List.mem_singleton_self y))
    · rw [List.mem_singleton.1 hx]
      exact lt_irrefl _
  have hsub : (rows.take n).Subperm u :=
    ((List.take_sublist n rows).subperm.trans h.perm.subperm).trans hu
  have hcount := hsub.countP_le fun x => decide ¬ decide (key y < key x) = true
  have hall : (rows.take n).countP (fun x => decide ¬ decide (key y < key x) = true)
      = (rows.take n).length := by
    rw [List.countP_eq_length]
    intro x hx
    simpa using hnone x hx
  have hsplit := List.length_eq_countP_add_countP (fun x => decide (key y < key x)) (l := u)
  omega

/-- The page of `n` rows at an offset. -/
def page (n offset : ℕ) (rows : List α) : List α := (rows.drop offset).take n

/-- What a reader reads that starts at an offset and stops at the first page that is not full. -/
inductive Reads (key : α → κ) (n : ℕ) (t : List α) : ℕ → List α → Prop where
  | last {offset : ℕ} {rows : List α} (h : Ordered key t rows)
      (hshort : (page n offset rows).length < n) : Reads key n t offset (page n offset rows)
  | more {offset : ℕ} {rows out : List α} (h : Ordered key t rows)
      (hfull : (page n offset rows).length = n) (hrest : Reads key n t (offset + n) out) :
      Reads key n t offset (page n offset rows ++ out)

variable {key : α → κ} {n : ℕ} {t rows out : List α} {offset : ℕ}

theorem page_append_drop (n offset : ℕ) (rows : List α) :
    page n offset rows ++ rows.drop (offset + n) = rows.drop offset := by
  rw [page, ← List.drop_drop, List.take_append_drop]

/-- A page that is not full is the last one. -/
theorem page_eq_drop (h : (page n offset rows).length < n) :
    page n offset rows = rows.drop offset := by
  refine List.take_of_length_le ?_
  rw [page, List.length_take] at h
  omega

theorem Reads.length_eq (h : Reads key n t offset out) : out.length = t.length - offset := by
  induction h with
  | last h hshort => rw [page_eq_drop hshort, List.length_drop, h.perm.length_eq]
  | more h hfull hrest ih =>
    rw [List.length_append, hfull, ih]
    rw [page, List.length_take, List.length_drop, h.perm.length_eq] at hfull
    omega

/-- Every row that is read is a row of the table. -/
theorem Reads.subset (h : Reads key n t offset out) : out ⊆ t := by
  induction h with
  | last h hshort =>
    intro x hx
    exact h.perm.mem_iff.1 (List.mem_of_mem_drop (List.mem_of_mem_take hx))
  | more h hfull hrest ih =>
    intro x hx
    rcases List.mem_append.1 hx with hx | hx
    · exact h.perm.mem_iff.1 (List.mem_of_mem_drop (List.mem_of_mem_take hx))
    · exact ih hx

/-! ## The places of equal keys -/

/-- The number of rows with a smaller key. -/
def countLt (key : α → κ) (t : List α) (r : α) : ℕ := t.countP fun x => key x < key r

/-- The number of rows with no greater key. -/
def countLe (key : α → κ) (t : List α) (r : α) : ℕ := t.countP fun x => key x ≤ key r

/-- Rows with the key of `r` lie on both sides of a page boundary. -/
def Straddles (key : α → κ) (n : ℕ) (t : List α) (r : α) : Prop :=
  ∃ k, countLt key t r < n * k ∧ n * k < countLe key t r

/-- In a sorted answer a row stands between these two numbers. -/
theorem Ordered.place {before after : List α} {r : α} (h : Ordered key t (before ++ r :: after)) :
    countLt key t r ≤ before.length ∧ before.length < countLe key t r := by
  have hsorted := List.pairwise_append.1 h.sorted
  have hafter := (List.pairwise_cons.1 hsorted.2.1).1
  constructor
  · have hzero : (r :: after).countP (fun x => key x < key r) = 0 := by
      rw [List.countP_eq_zero]
      intro x hx
      rcases List.mem_cons.1 hx with rfl | hx
      · simp
      · simpa using hafter x hx
    rw [countLt, ← h.perm.countP_eq, List.countP_append, hzero, Nat.add_zero]
    exact List.countP_le_length
  · have hbefore : before.countP (fun x => key x ≤ key r) = before.length := by
      rw [List.countP_eq_length]
      intro x hx
      simpa using hsorted.2.2 x hx r (by simp)
    rw [countLe, ← h.perm.countP_eq, List.countP_append, hbefore, List.countP_cons]
    simp

theorem mem_page {before after : List α} {r : α} (hle : offset ≤ before.length)
    (hlt : before.length < offset + n) : r ∈ page n offset (before ++ r :: after) := by
  have hdrop : (before ++ r :: after).drop offset = before.drop offset ++ r :: after :=
    List.drop_append_of_le_length hle
  have hlen : (before.drop offset).length < n := by
    rw [List.length_drop]
    omega
  obtain ⟨m, hm⟩ : ∃ m, n - (before.drop offset).length = m + 1 :=
    ⟨n - (before.drop offset).length - 1, by omega⟩
  rw [page, hdrop, List.take_append, hm, List.take_succ_cons]
  exact List.mem_append_right _ List.mem_cons_self

/-- A row whose group lies within one page is read, whatever the order of each answer. -/
theorem Reads.mem_of_not_straddles (h : Reads key n t offset out) {r : α} (hr : r ∈ t)
    (hstraddles : ¬ Straddles key n t r) (hn : ∃ k, offset = n * k)
    (hoffset : offset ≤ countLt key t r) : r ∈ out := by
  induction h with
  | @last offset rows h hshort =>
    obtain ⟨a, b, hab⟩ := List.append_of_mem (h.perm.mem_iff.2 hr)
    have hplace := (hab ▸ h).place
    rw [page_eq_drop hshort, hab, List.drop_append_of_le_length (hoffset.trans hplace.1)]
    exact List.mem_append_right _ List.mem_cons_self
  | @more offset rows out h hfull hrest ih =>
    obtain ⟨k, rfl⟩ := hn
    by_cases hpage : countLt key t r < n * k + n
    · -- the group begins on this page, so it ends there
      have hend : countLe key t r ≤ n * k + n := by
        by_contra hbeyond
        refine hstraddles ⟨k + 1, ?_⟩
        rw [Nat.mul_succ]
        omega
      obtain ⟨a, b, hab⟩ := List.append_of_mem (h.perm.mem_iff.2 hr)
      have hplace := (hab ▸ h).place
      rw [hab]
      exact List.mem_append_left _ (mem_page (by omega) (by omega))
    · exact List.mem_append_right _ (ih ⟨k + 1, (Nat.mul_succ n k).symm⟩ (not_lt.1 hpage))

/-- Nothing straddles in a table of one page. -/
theorem not_straddles_of_length_le (key : α → κ) (h : t.length ≤ n) (r : α) :
    ¬ Straddles key n t r := by
  rintro ⟨k, hlt, hle⟩
  have hlast : countLe key t r ≤ t.length := List.countP_le_length
  have hk : n * k < n * 1 := by omega
  obtain rfl : k = 0 := by
    have := Nat.lt_of_mul_lt_mul_left hk
    omega
  omega

/-! ## Readers for given answers -/

/-- A reader whose `j`-th query is answered by `f j`. -/
theorem exists_reads {f : ℕ → List α} (hf : ∀ j, Ordered key t (f j)) (hn : 0 < n) (j : ℕ) :
    ∃ out, Reads key n t (n * j) out ∧ ∀ x ∈ out, ∃ i ≥ j, x ∈ page n (n * i) (f i) := by
  -- the induction is on the rows that are left
  induction hleft : t.length - n * j using Nat.strong_induction_on generalizing j with
  | _ left ih =>
    by_cases hshort : (page n (n * j) (f j)).length < n
    · exact ⟨_, .last (hf j) hshort, fun x hx => ⟨j, le_refl j, hx⟩⟩
    · have hfull : (page n (n * j) (f j)).length = n := by
        refine le_antisymm ?_ (not_lt.1 hshort)
        exact List.length_take_le n _
      have hlen : n ≤ t.length - n * j := by
        rw [page, List.length_take, List.length_drop, (hf j).perm.length_eq] at hfull
        omega
      have hless : t.length - n * (j + 1) < left := by
        rw [Nat.mul_succ]
        omega
      obtain ⟨out, hout, hmem⟩ := ih _ hless (j + 1) rfl
      rw [Nat.mul_succ] at hout
      refine ⟨_, .more (hf j) hfull hout, fun x hx => ?_⟩
      rcases List.mem_append.1 hx with hx | hx
      · exact ⟨j, le_refl j, hx⟩
      · obtain ⟨i, hi, hx⟩ := hmem x hx
        exact ⟨i, Nat.le_of_succ_le hi, hx⟩

/-- A reader whose queries are all answered alike reads every row. -/
theorem Ordered.reads_drop (h : Ordered key t rows) (hn : 0 < n) (offset : ℕ) :
    Reads key n t offset (rows.drop offset) := by
  induction hleft : rows.length - offset using Nat.strong_induction_on generalizing offset with
  | _ left ih =>
    by_cases hshort : (page n offset rows).length < n
    · rw [← page_eq_drop hshort]
      exact .last h hshort
    · have hfull : (page n offset rows).length = n :=
        le_antisymm (List.length_take_le n _) (not_lt.1 hshort)
      have hlen : n ≤ rows.length - offset := by
        rw [page, List.length_take, List.length_drop] at hfull
        omega
      rw [← page_append_drop n offset rows]
      exact .more h hfull (ih _ (by omega) (offset + n) rfl)

/-- One answer of the query. -/
def byKey (key : α → κ) (t : List α) : List α := t.mergeSort fun a b => decide (key a ≤ key b)

theorem length_byKey (key : α → κ) (t : List α) : (byKey key t).length = t.length :=
  List.length_mergeSort t

theorem ordered_byKey (key : α → κ) (t : List α) : Ordered key t (byKey key t) := by
  refine ⟨List.mergeSort_perm _ _, ?_⟩
  refine (List.pairwise_mergeSort ?_ ?_ t).imp of_decide_eq_true
  · intro a b c hab hbc
    exact decide_eq_true ((of_decide_eq_true hab).trans (of_decide_eq_true hbc))
  · intro a b
    simpa using le_total (key a) (key b)

/-! ## Groups of equal keys -/

/-- The rows with a smaller key, with the same key, and with a greater key. -/
def less (key : α → κ) (t : List α) (r : α) : List α := t.filter fun x => key x < key r

/-- The rows with the same key. -/
def same (key : α → κ) (t : List α) (r : α) : List α :=
  (t.filter fun x => !decide (key x < key r)).filter fun x => key x ≤ key r

/-- The rows with a greater key. -/
def more (key : α → κ) (t : List α) (r : α) : List α :=
  (t.filter fun x => !decide (key x < key r)).filter fun x => !decide (key x ≤ key r)

theorem key_of_mem_same {r x : α} (h : x ∈ same key t r) : key x = key r := by
  obtain ⟨hrest, hle⟩ := List.mem_filter.1 h
  have hnlt : ¬ key x < key r := by simpa using (List.mem_filter.1 hrest).2
  exact le_antisymm (of_decide_eq_true hle) (not_lt.1 hnlt)

theorem mem_same (key : α → κ) {r : α} (h : r ∈ t) : r ∈ same key t r := by
  simp [same, h]

theorem length_less (key : α → κ) (t : List α) (r : α) :
    (less key t r).length = countLt key t r := by
  rw [countLt, List.countP_eq_length_filter, less]

theorem length_less_add_same (key : α → κ) (t : List α) (r : α) :
    (less key t r).length + (same key t r).length = countLe key t r := by
  have hsplit := (List.filter_append_perm (fun x => decide (key x < key r)) t).countP_eq
    (fun x => decide (key x ≤ key r))
  have hless : (less key t r).filter (fun x => decide (key x ≤ key r)) = less key t r := by
    rw [List.filter_eq_self]
    intro x hx
    have hlt := of_decide_eq_true (List.mem_filter.1 hx).2
    exact decide_eq_true hlt.le
  rw [List.countP_append, List.countP_eq_length_filter, List.countP_eq_length_filter] at hsplit
  rw [countLe, ← hsplit, ← less, hless, same]

/-- The group of a key may come in any order, between the smaller and the greater keys. -/
theorem ordered_group {group : List α} {r : α} (h : group.Perm (same key t r)) :
    Ordered key t (byKey key (less key t r) ++
      (group ++ byKey key (more key t r))) := by
  have hless := ordered_byKey key (less key t r)
  have hmore := ordered_byKey key (more key t r)
  have hgroupKey : ∀ x ∈ group, key x = key r := fun x hx => key_of_mem_same (h.mem_iff.1 hx)
  have hlessKey : ∀ x ∈ byKey key (less key t r), key x < key r :=
    fun x hx => of_decide_eq_true (List.mem_filter.1 (hless.perm.mem_iff.1 hx)).2
  have hmoreKey : ∀ x ∈ byKey key (more key t r), key r < key x := by
    intro x hx
    simpa using (List.mem_filter.1 (hmore.perm.mem_iff.1 hx)).2
  constructor
  · refine (hless.perm.append ((h.append hmore.perm).trans ?_)).trans (List.filter_append_perm _ t)
    exact List.filter_append_perm _ _
  · refine List.pairwise_append.2 ⟨hless.sorted, List.pairwise_append.2 ⟨?_, hmore.sorted, ?_⟩, ?_⟩
    · exact List.pairwise_of_forall_mem_list fun p hp q hq =>
        ((hgroupKey p hp).trans (hgroupKey q hq).symm).le
    · intro p hp q hq
      rw [hgroupKey p hp]
      exact (hmoreKey q hq).le
    · intro p hp q hq
      refine ((hlessKey p hp).le).trans ?_
      rcases List.mem_append.1 hq with hq | hq
      · exact (hgroupKey q hq).ge
      · exact (hmoreKey q hq).le

theorem not_mem_page_of_lt {before after : List α} {x : α}
    (hnodup : (before ++ x :: after).Nodup) (h : offset + n ≤ before.length) :
    x ∉ page n offset (before ++ x :: after) := by
  intro hx
  have htake : x ∈ (before ++ x :: after).take (offset + n) := by
    rw [List.take_add]
    exact List.mem_append_right _ hx
  rw [List.take_append_of_le_length h] at htake
  exact (List.nodup_append.1 hnodup).2.2 x (List.mem_of_mem_take htake) x (by simp) rfl

theorem not_mem_page_of_ge {before after : List α} {x : α}
    (hnodup : (before ++ x :: after).Nodup) (h : before.length < offset) :
    x ∉ page n offset (before ++ x :: after) := by
  intro hx
  have hdrop : x ∈ after := by
    have hx := List.mem_of_mem_take hx
    rw [List.drop_append, List.drop_of_length_le h.le, List.nil_append] at hx
    obtain ⟨k, hk⟩ : ∃ k, offset - before.length = k + 1 := ⟨offset - before.length - 1, by omega⟩
    rw [hk, List.drop_succ_cons] at hx
    exact List.mem_of_mem_drop hx
  exact (List.nodup_cons.1 (List.nodup_append.1 hnodup).2.1).1 hdrop

/-- **A row that straddles can be missed**: it comes last in its group while the pages before the
boundary are read, and first afterwards. -/
theorem exists_reads_missing (hn : 0 < n) (hnodup : t.Nodup) {r : α} (hr : r ∈ t)
    (h : Straddles key n t r) : ∃ out, Reads key n t 0 out ∧ r ∉ out := by
  obtain ⟨k, hlt, hle⟩ := h
  obtain ⟨a, b, hgroup⟩ := List.append_of_mem (mem_same key hr)
  have hless := length_less key t r
  have hsame := length_less_add_same key t r
  rw [hgroup, List.length_append, List.length_cons] at hsame
  have hlast : ((a ++ b) ++ [r]).Perm (same key t r) := by
    rw [hgroup, List.append_assoc]
    exact (List.perm_append_singleton r b).append_left a
  have hfirst : (r :: (a ++ b)).Perm (same key t r) := by
    rw [hgroup]
    exact List.perm_middle.symm
  have hordered : ∀ j, Ordered key t (if j < k then
      byKey key (less key t r) ++ (((a ++ b) ++ [r]) ++ byKey key (more key t r))
      else byKey key (less key t r) ++ ((r :: (a ++ b)) ++ byKey key (more key t r))) := by
    intro j
    split_ifs
    · exact ordered_group hlast
    · exact ordered_group hfirst
  obtain ⟨out, hout, hmem⟩ := exists_reads hordered hn 0
  refine ⟨out, by rwa [Nat.mul_zero] at hout, fun hx => ?_⟩
  obtain ⟨j, -, hpage⟩ := hmem r hx
  have hnodup := (hordered j).perm.nodup_iff.2 hnodup
  split_ifs at hpage hnodup with hj
  · have hassoc : byKey key (less key t r) ++ (((a ++ b) ++ [r]) ++ byKey key (more key t r))
        = (byKey key (less key t r) ++ (a ++ b)) ++ r :: byKey key (more key t r) := by simp
    have hle : n * j + n ≤ n * k := by
      rw [← Nat.mul_succ]
      exact Nat.mul_le_mul_left n hj
    rw [hassoc] at hpage hnodup
    refine not_mem_page_of_lt hnodup ?_ hpage
    rw [List.length_append, List.length_append, length_byKey]
    omega
  · have hle : n * k ≤ n * j := Nat.mul_le_mul_left n (not_lt.1 hj)
    rw [List.cons_append] at hpage hnodup
    refine not_mem_page_of_ge hnodup ?_ hpage
    rw [length_byKey]
    omega

/-! ## Columns -/

/-- A permutation of a column is the column of a permutation. -/
theorem exists_perm_of_map {f : α → β} {ys : List β} (h : ys.Perm (t.map f)) :
    ∃ rows : List α, rows.Perm t ∧ rows.map f = ys := by
  have hcolumn : List.Forall₂ (fun y a => f a = y) (t.map f) t := by
    rw [List.forall₂_map_left_iff]
    exact List.forall₂_same.2 fun _ _ => rfl
  obtain ⟨rows, hrows, hperm⟩ := List.perm_comp_forall₂ h hcolumn
  refine ⟨rows, hperm, ?_⟩
  have hmap : List.Forall₂ (· = ·) (rows.map f) ys := by
    rw [List.forall₂_map_left_iff]
    exact hrows.flip
  exact List.forall₂_eq_eq_eq ▸ hmap

end Paging
