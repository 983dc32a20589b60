import Mathlib.Data.List.Basic
import Mathlib.Data.Nat.Log
import Mathlib.Data.Set.Function

/-!
# Binary trees built level by level

A level of a tree is a list of nodes; the next level joins them two by two, the last
one with itself when it has no partner.  The tree of a list is its sequence of levels
up to the one that has a single node, the root.

Padding is what makes a root ambiguous: `full k l` is the list of the `2 ^ k` leaves
that `k` levels really join, with every padded copy written out.

* `iterate_level_eq_iff` — when no two of the joined pairs have the same join, two
  lists have the same `k`-th level exactly when their full lists agree;
* `root_eq_iff` — then two roots are equal exactly when the lists are `Confusable`;
* `Confusable.eq_of_length` — lists of one length are confusable only when equal.
-/

namespace MerkleTree

universe u

/-! ## Pairs -/

/-- The pairs of a level, from the left; a last node without a partner is its own. -/
def pairs {α : Type u} : List α → List (α × α)
  | [] => []
  | [a] => [(a, a)]
  | a :: b :: l => (a, b) :: pairs l

/-- The two halves of each pair, in order. -/
def unpairs {α : Type u} (l : List (α × α)) : List α := l.flatMap fun p => [p.1, p.2]

/-- The leaves that `k` levels join, padding included. -/
def full : {α : Type u} → ℕ → List α → List α
  | _, 0, l => l
  | _, k + 1, l => unpairs (full k (pairs l))

section Pairs

variable {α β : Type u}

theorem length_pairs (l : List α) : (pairs l).length = (l.length + 1) / 2 := by
  induction l using pairs.induct with
  | case1 => simp [pairs]
  | case2 a => simp [pairs]
  | case3 a b l ih =>
    simp only [pairs, List.length_cons, ih]
    omega

theorem pairs_ne_nil {l : List α} (h : l ≠ []) : pairs l ≠ [] := by
  have hpos := List.length_pos_iff.2 h
  apply List.ne_nil_of_length_pos
  rw [length_pairs]
  omega

theorem unpairs_injective : Function.Injective (unpairs : List (α × α) → List α) := by
  intro l
  induction l with
  | nil =>
    intro m h
    cases m with
    | nil => rfl
    | cons q m => simp [unpairs] at h
  | cons p l ih =>
    intro m h
    cases m with
    | nil => simp [unpairs] at h
    | cons q m =>
      simp only [unpairs, List.flatMap_cons, List.cons_append, List.nil_append,
        List.cons.injEq] at h
      obtain ⟨h₁, h₂, hrest⟩ := h
      rw [Prod.ext h₁ h₂, ih hrest]

/-- A list is a prefix of its pairs laid out. -/
theorem prefix_unpairs_pairs (l : List α) : l <+: unpairs (pairs l) := by
  induction l using pairs.induct with
  | case1 => exact List.nil_prefix
  | case2 a => exact ⟨[a], rfl⟩
  | case3 a b l ih =>
    obtain ⟨t, ht⟩ := ih
    refine ⟨t, ?_⟩
    simp only [unpairs] at ht
    simp only [pairs, unpairs, List.flatMap_cons, List.cons_append, List.nil_append, ← ht]

theorem unpairs_mono {l m : List (α × α)} (h : l <+: m) : unpairs l <+: unpairs m := by
  obtain ⟨t, rfl⟩ := h
  exact ⟨unpairs t, by simp [unpairs]⟩

theorem pairs_map (f : α → β) (l : List α) : pairs (l.map f) = (pairs l).map (Prod.map f f) := by
  induction l using pairs.induct with
  | case1 => rfl
  | case2 a => rfl
  | case3 a b l ih =>
    simp only [List.map_cons, pairs, ih, Prod.map_apply]

theorem unpairs_map (f : α → β) (l : List (α × α)) :
    unpairs (l.map (Prod.map f f)) = (unpairs l).map f := by
  induction l with
  | nil => rfl
  | cons p l ih =>
    simp only [unpairs] at ih
    simp only [unpairs, List.map_cons, List.flatMap_cons, List.map_append, List.map_nil, ih,
      Prod.map_fst, Prod.map_snd]

theorem mem_of_mem_pairs {l : List α} {p : α × α} (h : p ∈ pairs l) : p.1 ∈ l ∧ p.2 ∈ l := by
  induction l using pairs.induct with
  | case1 => exact absurd h (by simp [pairs])
  | case2 a =>
    rw [pairs, List.mem_singleton] at h
    simp [h]
  | case3 a b l ih =>
    rw [pairs, List.mem_cons] at h
    rcases h with rfl | h
    · simp
    · have := ih h
      simp [this]

/-- A map that is injective on the members of two lists tells the lists apart. -/
theorem eq_of_map_eq {f : α → β} {l m : List α} (hinj : Set.InjOn f {a | a ∈ l ∨ a ∈ m})
    (h : l.map f = m.map f) : l = m := by
  induction l generalizing m with
  | nil =>
    cases m with
    | nil => rfl
    | cons b m => exact absurd h (by simp)
  | cons a l ih =>
    cases m with
    | nil => exact absurd h (by simp)
    | cons b m =>
      obtain ⟨hhead, htail⟩ := List.cons.inj h
      have hab : a = b := hinj (Or.inl (by simp)) (Or.inr (by simp)) hhead
      have hlm : l = m := by
        refine ih (hinj.mono ?_) htail
        exact fun c hc => hc.imp (List.mem_cons_of_mem a) (List.mem_cons_of_mem b)
      rw [hab, hlm]

end Pairs

/-! ## Full lists -/

theorem full_map : ∀ (k : ℕ) {α β : Type u} (f : α → β) (l : List α),
    full k (l.map f) = (full k l).map f := by
  intro k
  induction k with
  | zero => intro α β f l; rfl
  | succ k ih =>
    intro α β f l
    rw [full, full, pairs_map, ih, unpairs_map]

theorem prefix_full : ∀ (k : ℕ) {α : Type u} (l : List α), l <+: full k l := by
  intro k
  induction k with
  | zero => intro α l; exact List.prefix_rfl
  | succ k ih =>
    intro α l
    exact (prefix_unpairs_pairs l).trans (unpairs_mono (ih (pairs l)))

theorem mem_of_mem_full : ∀ (k : ℕ) {α : Type u} {l : List α} {a : α}, a ∈ full k l → a ∈ l := by
  intro k
  induction k with
  | zero => intro α l a h; exact h
  | succ k ih =>
    intro α l a h
    obtain ⟨p, hp, ha⟩ := List.mem_flatMap.1 h
    have hmem := mem_of_mem_pairs (ih hp)
    rcases List.mem_pair.1 ha with rfl | rfl
    · exact hmem.1
    · exact hmem.2

/-- Of two lists of one length, only equal ones have the same full list. -/
theorem eq_of_full_eq {α : Type u} {k : ℕ} {l m : List α} (hlen : l.length = m.length)
    (h : full k l = full k m) : l = m := by
  have hl := prefix_full k l
  rw [h] at hl
  exact (List.prefix_of_prefix_length_le hl (prefix_full k m) hlen.le).eq_of_length hlen

/-! ## Levels -/

section Levels

variable {α : Type u} (node : α → α → α)

/-- The next level. -/
def level (l : List α) : List α := (pairs l).map fun p => node p.1 p.2

/-- The number of levels above the leaves. -/
def depth (l : List α) : ℕ := Nat.clog 2 l.length

/-- The pairs that are joined below level `k`. -/
def joined : ℕ → List α → List (α × α)
  | 0, _ => []
  | k + 1, l => pairs l ++ joined k (level node l)

/-- The only node of the last level. -/
def root (l : List α) : Option α := ((level node)^[depth l] l).head?

theorem length_level (l : List α) : (level node l).length = (l.length + 1) / 2 := by
  rw [level, List.length_map, length_pairs]

theorem level_ne_nil {l : List α} (h : l ≠ []) : level node l ≠ [] := by
  rw [level, ne_eq, List.map_eq_nil_iff]
  exact pairs_ne_nil h

theorem depth_of_short {l : List α} (h : l.length ≤ 1) : depth l = 0 :=
  Nat.clog_of_right_le_one h 2

theorem depth_level {l : List α} (h : 1 < l.length) : depth l = depth (level node l) + 1 := by
  rw [depth, depth, length_level, Nat.clog_of_two_le (by omega) h]
  simp only [Nat.add_succ_sub_one]

/-- The last level has one node. -/
theorem length_last_level {l : List α} (h : l ≠ []) :
    ((level node)^[depth l] l).length = 1 := by
  -- on the depth of the list
  generalize hk : depth l = k
  induction k generalizing l with
  | zero =>
    have hpos := List.length_pos_iff.2 h
    by_cases hlen : 1 < l.length
    · rw [depth_level node hlen] at hk
      exact absurd hk (by simp)
    · show l.length = 1
      omega
  | succ k ih =>
    have hlen : 1 < l.length := by
      by_contra hshort
      rw [depth_of_short (by omega)] at hk
      exact absurd hk (by simp)
    rw [depth_level node hlen] at hk
    exact ih (level_ne_nil node h) (by omega)

variable {node}

/-- **Levels and full lists.**  When the join of a pair determines it, among the pairs
below level `k`, the `k`-th levels of two lists are equal exactly when their full
lists are. -/
theorem iterate_level_eq_iff {k : ℕ} {l m : List α}
    (hinj : Set.InjOn (fun p : α × α => node p.1 p.2)
      {p | p ∈ joined node k l ∨ p ∈ joined node k m}) :
    (level node)^[k] l = (level node)^[k] m ↔ full k l = full k m := by
  induction k generalizing l m with
  | zero => exact Iff.rfl
  | succ k ih =>
    have hdeep : Set.InjOn (fun p : α × α => node p.1 p.2)
        {p | p ∈ joined node k (level node l) ∨ p ∈ joined node k (level node m)} := by
      refine hinj.mono ?_
      rintro p (hp | hp)
      · exact Or.inl (List.mem_append_right _ hp)
      · exact Or.inr (List.mem_append_right _ hp)
    rw [Function.iterate_succ_apply, Function.iterate_succ_apply, ih hdeep, level, level, full_map,
      full_map, full, full, unpairs_injective.eq_iff]
    constructor
    · intro h
      refine eq_of_map_eq (hinj.mono ?_) h
      rintro p (hp | hp)
      · exact Or.inl (List.mem_append_left _ (mem_of_mem_full k hp))
      · exact Or.inr (List.mem_append_left _ (mem_of_mem_full k hp))
    · intro h
      rw [h]

/-! ## Roots -/

/-- The two trees, cut at the height of the lower one, have the same full list: the
leaves of one list are, up to padding, the other list or an inner level of its tree. -/
def Confusable (node : α → α → α) (l m : List α) : Prop :=
  full (min (depth l) (depth m)) ((level node)^[depth l - depth m] l)
    = full (min (depth l) (depth m)) ((level node)^[depth m - depth l] m)

instance [DecidableEq α] (l m : List α) : Decidable (Confusable node l m) :=
  inferInstanceAs (Decidable (_ = _))

theorem joined_iterate (i k : ℕ) (l : List α) {p : α × α}
    (h : p ∈ joined node k ((level node)^[i] l)) : p ∈ joined node (i + k) l := by
  induction i generalizing l with
  | zero => rwa [Nat.zero_add]
  | succ i ih =>
    rw [Nat.succ_add, joined]
    exact List.mem_append_right _ (ih (level node l) h)

/-- The last levels of two lists are equal exactly when the roots are. -/
theorem root_eq_iff_last_level {l m : List α} (hl : l ≠ []) (hm : m ≠ []) :
    root node l = root node m ↔ (level node)^[depth l] l = (level node)^[depth m] m := by
  obtain ⟨a, ha⟩ := List.length_eq_one_iff.1 (length_last_level node hl)
  obtain ⟨b, hb⟩ := List.length_eq_one_iff.1 (length_last_level node hm)
  rw [root, root, ha, hb, List.head?_cons, List.head?_cons, Option.some.injEq, List.cons.injEq,
    and_iff_left rfl]

/-- **Equal roots.**  When the join of a pair determines it, among the pairs of both
trees, two roots are equal exactly when the lists are confusable. -/
theorem root_eq_iff {l m : List α} (hl : l ≠ []) (hm : m ≠ [])
    (hinj : Set.InjOn (fun p : α × α => node p.1 p.2)
      {p | p ∈ joined node (depth l) l ∨ p ∈ joined node (depth m) m}) :
    root node l = root node m ↔ Confusable node l m := by
  have hdl : depth l = depth l - depth m + min (depth l) (depth m) := by omega
  have hdm : depth m = depth m - depth l + min (depth l) (depth m) := by omega
  have hcutl : (level node)^[depth l] l
      = (level node)^[min (depth l) (depth m)] ((level node)^[depth l - depth m] l) := by
    rw [← Function.iterate_add_apply, Nat.add_comm, ← hdl]
  have hcutm : (level node)^[depth m] m
      = (level node)^[min (depth l) (depth m)] ((level node)^[depth m - depth l] m) := by
    rw [← Function.iterate_add_apply, Nat.add_comm, ← hdm]
  rw [root_eq_iff_last_level hl hm, Confusable, hcutl, hcutm]
  refine iterate_level_eq_iff (hinj.mono ?_)
  rintro p (hp | hp)
  · left
    rw [hdl]
    exact joined_iterate _ _ l hp
  · right
    rw [hdm]
    exact joined_iterate _ _ m hp

theorem Confusable.eq_of_length {l m : List α} (h : Confusable node l m)
    (hlen : l.length = m.length) : l = m := by
  have hdepth : depth l = depth m := by rw [depth, depth, hlen]
  rw [Confusable, hdepth, Nat.sub_self] at h
  exact eq_of_full_eq hlen h

end Levels

end MerkleTree
