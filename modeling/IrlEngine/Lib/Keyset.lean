import IrlEngine.Lib.Paging
import Mathlib.Data.Finset.Card
import Mathlib.Order.Lattice

/-!
# Paging through a table by a cursor

A query with `WHERE key > cursor ORDER BY key LIMIT n + 1` returns a page of `n` rows and tells by
the row behind them whether there are more; the key of the last row is the next cursor.  A reader
follows the cursors until there is none.  Between two queries the table may have grown.

* `page_next_none`, `page_next_some` — what a page leaves out;
* `follow_spec` — a reader reads every row that was there at its first query, and no key twice;
* `follow_isSome` — it comes to an end, if the keys are finitely many.
-/

namespace Keyset

variable {α κ : Type*} [LinearOrder κ] {key : α → κ}

/-! ## Pages -/

/-- Is the key behind the cursor?  Without a cursor every key is. -/
def Behind (cursor : Option κ) (k : κ) : Prop := ∀ c, cursor = some c → c < k

instance (cursor : Option κ) (k : κ) : Decidable (Behind cursor k) :=
  match cursor with
  | none => isTrue fun _ h => by cases h
  | some c => decidable_of_iff (c < k) ⟨fun h d hd => Option.some.inj hd ▸ h, fun h => h c rfl⟩

/-- The rows behind the cursor, in order. -/
def behind (key : α → κ) (cursor : Option κ) (t : List α) : List α :=
  Paging.byKey key (t.filter fun r => Behind cursor (key r))

/-- Some rows, and the cursor of the page behind them if there is one. -/
structure Page (α κ : Type*) where
  entries : List α
  next : Option κ

/-- A page of `n` rows, by a query for one more. -/
def page (key : α → κ) (n : ℕ) (cursor : Option κ) (t : List α) : Page α κ :=
  let rows := (behind key cursor t).take (n + 1)
  { entries := rows.take n
    next := if n < rows.length then (rows.take n).getLast?.map key else none }

variable {n : ℕ} {cursor : Option κ} {t : List α}

theorem ordered_behind (key : α → κ) (cursor : Option κ) (t : List α) :
    Paging.Ordered key (t.filter fun r => Behind cursor (key r)) (behind key cursor t) :=
  Paging.ordered_byKey key _

theorem mem_behind {r : α} : r ∈ behind key cursor t ↔ r ∈ t ∧ Behind cursor (key r) := by
  rw [(ordered_behind key cursor t).perm.mem_iff, List.mem_filter, decide_eq_true_eq]

theorem entries_eq (key : α → κ) (n : ℕ) (cursor : Option κ) (t : List α) :
    (page key n cursor t).entries = (behind key cursor t).take n := by
  show ((behind key cursor t).take (n + 1)).take n = _
  rw [List.take_take, min_eq_left (Nat.le_succ n)]

theorem next_eq (key : α → κ) (n : ℕ) (cursor : Option κ) (t : List α) :
    (page key n cursor t).next = if n < (behind key cursor t).length then
      ((behind key cursor t).take n).getLast?.map key else none := by
  have hlength : n < ((behind key cursor t).take (n + 1)).length ↔
    n < (behind key cursor t).length := by
    rw [List.length_take]
    omega
  show (if n < ((behind key cursor t).take (n + 1)).length then
    (((behind key cursor t).take (n + 1)).take n).getLast?.map key else none) = _
  rw [List.take_take, min_eq_left (Nat.le_succ n)]
  simp only [hlength]

theorem mem_of_mem_entries {r : α} (h : r ∈ (page key n cursor t).entries) :
    r ∈ t ∧ Behind cursor (key r) := by
  rw [entries_eq] at h
  exact mem_behind.1 (List.mem_of_mem_take h)

/-- Distinct keys come in a strict order. -/
theorem sorted_entries (n : ℕ) (cursor : Option κ) (hkeys : (t.map key).Nodup) :
    (page key n cursor t).entries.Pairwise fun a b => key a < key b := by
  have hordered := ordered_behind key cursor t
  have hnodup : ((behind key cursor t).map key).Nodup := by
    rw [(hordered.perm.map key).nodup_iff]
    exact hkeys.sublist (List.filter_sublist.map key)
  have hstrict : (behind key cursor t).Pairwise fun a b => key a < key b := by
    refine (hordered.sorted.and (List.pairwise_map.1 hnodup)).imp ?_
    rintro a b ⟨hle, hne⟩
    exact lt_of_le_of_ne hle hne
  rw [entries_eq]
  exact hstrict.sublist (List.take_sublist _ _)

/-- The last page has all rows behind the cursor. -/
theorem page_next_none (hn : 0 < n) (h : (page key n cursor t).next = none) {r : α} (hr : r ∈ t)
    (hbehind : Behind cursor (key r)) : r ∈ (page key n cursor t).entries := by
  have hmem := mem_behind.2 ⟨hr, hbehind⟩
  rw [entries_eq]
  by_cases hlong : n < (behind key cursor t).length
  · exfalso
    rw [next_eq, if_pos hlong, Option.map_eq_none_iff, List.getLast?_eq_none_iff,
      List.take_eq_nil_iff] at h
    rcases h with hzero | hnil
    · exact hn.ne' hzero
    · rw [hnil] at hmem
      exact List.not_mem_nil hmem
  · rw [List.take_of_length_le (not_lt.1 hlong)]
    exact hmem

/-- Another page leaves out the rows behind its last one, whose key is the next cursor. -/
theorem page_next_some (hkeys : (t.map key).Nodup) {c : κ}
    (h : (page key n cursor t).next = some c) :
    (∃ r ∈ (page key n cursor t).entries, key r = c) ∧
      (∀ r ∈ (page key n cursor t).entries, key r ≤ c) ∧
      ∀ r ∈ t, Behind cursor (key r) → key r ≤ c → r ∈ (page key n cursor t).entries := by
  have hsorted := sorted_entries n cursor hkeys
  rw [next_eq] at h
  split_ifs at h with hlong
  obtain ⟨last, hlast, rfl⟩ := Option.map_eq_some_iff.1 h
  rw [← entries_eq] at hlast
  have hlastmem := List.mem_of_getLast? hlast
  refine ⟨⟨last, hlastmem, rfl⟩, ?_, ?_⟩
  · intro r hr
    obtain ⟨before, hbefore⟩ := List.getLast?_eq_some_iff.1 hlast
    rw [hbefore] at hr hsorted
    rcases List.mem_append.1 hr with hr | hr
    · exact ((List.pairwise_append.1 hsorted).2.2 r hr last (List.mem_singleton_self last)).le
    · rw [List.mem_singleton.1 hr]
  · intro r hr hbehind hle
    by_contra hnot
    rw [entries_eq] at hnot hlastmem
    -- a row that is left out has no smaller key than the last one, so it would be that one
    have hge := (ordered_behind key cursor t).le_of_not_mem_take
      (List.mem_filter.2 ⟨hr, decide_eq_true hbehind⟩) hnot hlastmem
    have hlastt := (mem_behind.1 (List.mem_of_mem_take hlastmem)).1
    have hsame := List.inj_on_of_nodup_map hkeys hr hlastt (le_antisymm hle hge)
    exact hnot (hsame ▸ hlastmem)

/-! ## Following the cursors -/

/-- The reader, from its `k`-th request on: the rows of all pages, if `fuel` requests are enough. -/
def follow (fetch : ℕ → Option κ → Page α κ) : ℕ → ℕ → Option κ → Option (List α)
  | 0, _, _ => none
  | fuel + 1, k, cursor =>
    match (fetch k cursor).next with
    | none => some (fetch k cursor).entries
    | some c => (follow fetch fuel (k + 1) (some c)).map ((fetch k cursor).entries ++ ·)

omit [LinearOrder κ] in
/-- More fuel changes nothing. -/
theorem follow_mono {fetch : ℕ → Option κ → Page α κ} {fuel fuel' k : ℕ} {out : List α}
    (h : follow fetch fuel k cursor = some out) (hle : fuel ≤ fuel') :
    follow fetch fuel' k cursor = some out := by
  induction fuel generalizing fuel' k cursor out with
  | zero => cases h
  | succ fuel ih =>
    obtain ⟨more, rfl⟩ : ∃ more, fuel' = more + 1 := ⟨fuel' - 1, by omega⟩
    unfold follow at h ⊢
    split at h
    · exact h
    · obtain ⟨rest, hrest, rfl⟩ := Option.map_eq_some_iff.1 h
      rw [ih hrest (Nat.le_of_succ_le_succ hle)]
      rfl

section Growing

variable {tables : ℕ → List α}

/-- The `k`-th request reads the table as it is then. -/
def reader (key : α → κ) (n : ℕ) (tables : ℕ → List α) (k : ℕ) (cursor : Option κ) : Page α κ :=
  page key n cursor (tables k)

/-- What is read lies behind the cursor in strict order, comes from one of the tables, and leaves
out nothing that was there at the first request. -/
theorem follow_spec (hgrow : ∀ k, tables k ⊆ tables (k + 1))
    (hkeys : ∀ k, ((tables k).map key).Nodup) (hn : 0 < n) {fuel k : ℕ} {out : List α}
    (h : follow (reader key n tables) fuel k cursor = some out) :
    out.Pairwise (fun a b => key a < key b) ∧
      (∀ r ∈ out, Behind cursor (key r) ∧ ∃ j, r ∈ tables j) ∧
      ∀ r ∈ tables k, Behind cursor (key r) → r ∈ out := by
  induction fuel generalizing k cursor out with
  | zero => cases h
  | succ fuel ih =>
    have hentries : ∀ r ∈ (page key n cursor (tables k)).entries,
        Behind cursor (key r) ∧ ∃ j, r ∈ tables j := by
      intro r hr
      have hmem := mem_of_mem_entries hr
      exact ⟨hmem.2, k, hmem.1⟩
    have hsorted := sorted_entries n cursor (hkeys k)
    unfold follow at h
    split at h
    next hnone =>
      obtain rfl := Option.some.inj h
      exact ⟨hsorted, hentries, fun r hr hbehind => page_next_none hn hnone hr hbehind⟩
    next c hsome =>
      obtain ⟨rest, hrest, rfl⟩ := Option.map_eq_some_iff.1 h
      obtain ⟨hpairwise, hrestmem, hall⟩ := ih hrest
      obtain ⟨⟨last, hlast, hlastkey⟩, hle, htaken⟩ := page_next_some (hkeys k) hsome
      refine ⟨?_, ?_, ?_⟩
      · refine List.pairwise_append.2 ⟨hsorted, hpairwise, fun a ha b hb => ?_⟩
        exact lt_of_le_of_lt (hle a ha) ((hrestmem b hb).1 c rfl)
      · intro r hr
        rcases List.mem_append.1 hr with hr | hr
        · exact hentries r hr
        · refine ⟨fun d hd => ?_, (hrestmem r hr).2⟩
          have hcursor := (hentries last hlast).1 d hd
          rw [hlastkey] at hcursor
          exact hcursor.trans ((hrestmem r hr).1 c rfl)
      · intro r hr hbehind
        by_cases hc : key r ≤ c
        · exact List.mem_append_left _ (htaken r hr hbehind hc)
        · refine List.mem_append_right _ (hall r (hgrow k hr) fun d hd => ?_)
          rw [← Option.some.inj hd]
          exact not_le.1 hc

/-- With finitely many keys the reader comes to an end: each page uses up the key of its cursor. -/
theorem follow_isSome {S : Finset κ} (hS : ∀ k, ∀ r ∈ tables k, key r ∈ S)
    (hkeys : ∀ k, ((tables k).map key).Nodup) {fuel k : ℕ}
    (hfuel : (S.filter (Behind cursor)).card < fuel) :
    (follow (reader key n tables) fuel k cursor).isSome := by
  induction fuel generalizing k cursor with
  | zero => exact absurd hfuel (Nat.not_lt_zero _)
  | succ fuel ih =>
    unfold follow
    split
    · rfl
    next c hsome =>
      rw [Option.isSome_map]
      obtain ⟨⟨last, hlast, rfl⟩, -, -⟩ := page_next_some (hkeys k) hsome
      obtain ⟨hmem, hbehind⟩ := mem_of_mem_entries hlast
      refine ih (lt_of_lt_of_le (Finset.card_lt_card ?_) (Nat.le_of_lt_succ hfuel))
      rw [Finset.ssubset_iff_of_subset]
      · refine ⟨key last, Finset.mem_filter.2 ⟨hS k last hmem, hbehind⟩, fun h => ?_⟩
        exact lt_irrefl _ ((Finset.mem_filter.1 h).2 (key last) rfl)
      · intro x hx
        obtain ⟨hxS, hx⟩ := Finset.mem_filter.1 hx
        exact Finset.mem_filter.2 ⟨hxS, fun d hd => (hbehind d hd).trans (hx (key last) rfl)⟩

end Growing

end Keyset
