import Mathlib.Data.List.Basic
import Mathlib.Data.List.Chain

/-!
# Fields joined by a double delimiter

A record of a fixed number of fields is written with the delimiter twice between any two of them
and nothing escaped.  The text determines the fields exactly if no field contains the double
delimiter and none touches its neighbour with a single one (`unique_iff`).
-/

namespace Joined

variable {α : Type*} {b : α}

/-- The fields with the delimiter twice between them. -/
def joined (b : α) (xss : List (List α)) : List α := [b, b].intercalate xss

@[simp] theorem joined_singleton (x : List α) : joined b [x] = x := by
  simp [joined]

theorem joined_cons {xss : List (List α)} (h : xss ≠ []) (x : List α) :
    joined b (x :: xss) = x ++ b :: b :: joined b xss := by
  unfold joined
  rw [List.intercalate_cons_of_ne_nil h]
  simp

theorem joined_concat {xss : List (List α)} (h : xss ≠ []) (x : List α) :
    joined b (xss ++ [x]) = joined b xss ++ b :: b :: x := by
  induction xss with
  | nil => exact absurd rfl h
  | cons y xss ih =>
    by_cases hxss : xss = []
    · subst hxss
      rw [List.singleton_append, joined_cons (by simp), joined_singleton, joined_singleton]
    · rw [List.cons_append, joined_cons (by simp), joined_cons hxss, ih hxss, List.append_assoc]
      rfl

/-! ## Where a double delimiter can stand -/

/-- Neighbours between which the delimiter can stand in one place only. -/
structure PairClean (b : α) (x x' : List α) : Prop where
  left : ¬ [b, b] <:+: x
  last : ¬ [b] <:+ x
  right : ¬ [b, b] <:+: x'
  first : ¬ [b] <+: x'

/-- No double delimiter starts within the first field. -/
theorem length_le_of_first {x y r r' : List α} (hdouble : ¬ [b, b] <:+: x) (hlast : ¬ [b] <:+ x)
    (h : y ++ b :: b :: r' = x ++ b :: b :: r) : x.length ≤ y.length := by
  rcases List.append_eq_append_iff.1 h with ⟨a, rfl, ha⟩ | ⟨a, rfl, -⟩
  · -- `a` is what the field has beyond `y`
    match a, ha with
    | [], _ => simp
    | [c], ha =>
      obtain ⟨rfl, -⟩ := List.cons.inj ha
      exact absurd (List.suffix_append y _) hlast
    | c :: d :: a, ha =>
      obtain ⟨hc, ha⟩ := List.cons.inj ha
      obtain ⟨hd, -⟩ := List.cons.inj ha
      exact absurd ⟨y, a, by simp [← hc, ← hd]⟩ hdouble
  · simp

/-- No double delimiter ends within the last field. -/
theorem length_le_of_last {x y r r' : List α} (hdouble : ¬ [b, b] <:+: x) (hfirst : ¬ [b] <+: x)
    (h : r' ++ b :: b :: y = r ++ b :: b :: x) : x.length ≤ y.length := by
  rcases List.append_eq_append_iff.1 h with ⟨a, rfl, ha⟩ | ⟨a, rfl, ha⟩
  · have hlength := congrArg List.length ha
    simp only [List.length_cons, List.length_append] at hlength
    omega
  · -- `a` is what stands between the two places
    match a, ha with
    | [], ha =>
      have hsame : x = y := by simpa using ha
      rw [hsame]
    | [c], ha =>
      have hx : x = b :: y := by simpa using (List.cons.inj ha).2
      exact absurd ⟨y, hx.symm⟩ hfirst
    | c :: d :: a, ha =>
      have hx : x = a ++ b :: b :: y := (List.cons.inj (List.cons.inj ha).2).2
      exact absurd ⟨a, y, by rw [hx]; simp⟩ hdouble

/-! ## Uniqueness -/

/-- Read from the right, the first field of another reading ends no later. -/
theorem length_head_le {x y : List α} {xss yss : List (List α)} {u : List α}
    (hright : ∀ z ∈ xss, ¬ [b, b] <:+: z ∧ ¬ [b] <+: z) (hlength : yss.length = xss.length)
    (h : joined b (y :: yss) ++ u = joined b (x :: xss)) : y.length ≤ x.length := by
  induction xss using List.reverseRecOn generalizing yss u with
  | nil =>
    obtain rfl := List.length_eq_zero_iff.1 hlength
    have hx : y ++ u = x := by simpa using h
    rw [← hx, List.length_append]
    exact Nat.le_add_right _ _
  | append_singleton xss z ih =>
    obtain ⟨yss, w, rfl⟩ : ∃ vss w, yss = vss ++ [w] :=
      ⟨yss.dropLast, _, (List.dropLast_append_getLast (by rintro rfl; simp at hlength)).symm⟩
    rw [← List.cons_append, ← List.cons_append, joined_concat (by simp), joined_concat (by simp),
      List.append_assoc, List.cons_append, List.cons_append] at h
    have hlast : z.length ≤ (w ++ u).length :=
      length_le_of_last (hright z (by simp)).1 (hright z (by simp)).2 h
    -- what is left of the other reading lies within what is left of this one
    have hfront : (joined b (y :: yss)).length ≤ (joined b (x :: xss)).length := by
      have htotal := congrArg List.length h
      simp only [List.length_append, List.length_cons] at htotal hlast
      omega
    obtain ⟨v, hv⟩ : joined b (y :: yss) <+: joined b (x :: xss) :=
      List.prefix_of_prefix_length_le ⟨_, h⟩ ⟨_, rfl⟩ hfront
    exact ih (fun t ht => hright t (by simp [ht])) (by simpa using hlength) hv

theorem right_of_isChain {x : List α} {xss : List (List α)}
    (h : (x :: xss).IsChain (PairClean b)) : ∀ z ∈ xss, ¬ [b, b] <:+: z ∧ ¬ [b] <+: z := by
  induction xss generalizing x with
  | nil => simp
  | cons x' xss ih =>
    obtain ⟨hpair, hrest⟩ := List.isChain_cons_cons.1 h
    intro z hz
    rcases List.mem_cons.1 hz with rfl | hz
    · exact ⟨hpair.right, hpair.first⟩
    · exact ih hrest z hz

theorem eq_of_joined_eq {xss yss : List (List α)} (hclean : xss.IsChain (PairClean b))
    (hlength : yss.length = xss.length) (h : joined b yss = joined b xss) : yss = xss := by
  induction xss generalizing yss with
  | nil => exact List.length_eq_zero_iff.1 hlength
  | cons x xss ih =>
    obtain ⟨y, yss, rfl⟩ := List.exists_cons_of_length_eq_add_one hlength
    replace hlength : yss.length = xss.length := by simpa using hlength
    by_cases hxss : xss = []
    · subst hxss
      obtain rfl := List.length_eq_zero_iff.1 hlength
      simpa using h
    · have hyss : yss ≠ [] := by
        rintro rfl
        exact hxss (List.length_eq_zero_iff.1 hlength.symm)
      have hpair : PairClean b x (xss.head hxss) := by
        obtain ⟨x', xss, rfl⟩ := List.exists_cons_of_ne_nil hxss
        exact (List.isChain_cons_cons.1 hclean).1
      have hle : y.length ≤ x.length :=
        length_head_le (u := []) (right_of_isChain hclean) hlength (by simpa using h)
      rw [joined_cons hyss, joined_cons hxss] at h
      have hge : x.length ≤ y.length := length_le_of_first hpair.left hpair.last h
      obtain ⟨rfl, hrest⟩ := List.append_inj h (le_antisymm hle hge)
      have htail : joined b yss = joined b xss := by simpa using hrest
      rw [ih hclean.tail hlength htail]

/-- Neighbours that are not clean can be cut in another place. -/
theorem exists_other_pair {x x' : List α} (h : ¬ PairClean b x x') :
    ∃ y y', ¬ (y = x ∧ y' = x') ∧ y ++ b :: b :: y' = x ++ b :: b :: x' := by
  have hne : ∀ {s t : List α}, s.length ≠ t.length → s ≠ t := fun hl heq => hl (heq ▸ rfl)
  by_cases hleft : [b, b] <:+: x
  · obtain ⟨s, t, rfl⟩ := hleft
    refine ⟨s, t ++ b :: b :: x', fun heq => hne ?_ heq.1, by simp⟩
    simp
  by_cases hlast : [b] <:+ x
  · obtain ⟨s, rfl⟩ := hlast
    refine ⟨s, b :: x', fun heq => hne ?_ heq.1, by simp⟩
    simp
  by_cases hright : [b, b] <:+: x'
  · obtain ⟨s, t, rfl⟩ := hright
    refine ⟨x ++ b :: b :: s, t, fun heq => hne ?_ heq.1, by simp⟩
    simp
  by_cases hfirst : [b] <+: x'
  · obtain ⟨t, rfl⟩ := hfirst
    refine ⟨x ++ [b], t, fun heq => hne ?_ heq.1, by simp⟩
    simp
  · exact absurd ⟨hleft, hlast, hright, hfirst⟩ h

theorem joined_congr {x y x' y' : List α} {xss : List (List α)}
    (h : y ++ b :: b :: y' = x ++ b :: b :: x') :
    joined b (y :: y' :: xss) = joined b (x :: x' :: xss) := by
  rw [joined_cons (List.cons_ne_nil y' xss), joined_cons (List.cons_ne_nil x' xss)]
  by_cases hxss : xss = []
  · subst hxss
    simpa using h
  · rw [joined_cons hxss, joined_cons hxss]
    have happ := congrArg (· ++ b :: b :: joined b xss) h
    simpa using happ

theorem exists_other {xss : List (List α)} (h : ¬ xss.IsChain (PairClean b)) :
    ∃ yss, yss.length = xss.length ∧ joined b yss = joined b xss ∧ yss ≠ xss := by
  induction xss with
  | nil => exact absurd List.IsChain.nil h
  | cons x xss ih =>
    cases xss with
    | nil => exact absurd (List.IsChain.singleton x) h
    | cons x' xss =>
      by_cases hpair : PairClean b x x'
      · have hrest : ¬ (x' :: xss).IsChain (PairClean b) :=
          fun hrest => h (List.isChain_cons_cons.2 ⟨hpair, hrest⟩)
        obtain ⟨yss, hlength, hjoined, hne⟩ := ih hrest
        refine ⟨x :: yss, by simp [hlength], ?_, fun heq => hne (List.cons.inj heq).2⟩
        have hyss : yss ≠ [] := by
          rintro rfl
          simp at hlength
        rw [joined_cons hyss, joined_cons (by simp), hjoined]
      · obtain ⟨y, y', hne, heq⟩ := exists_other_pair hpair
        refine ⟨y :: y' :: xss, by simp, joined_congr heq, fun hsame => hne ?_⟩
        obtain ⟨hy, hrest⟩ := List.cons.inj hsame
        exact ⟨hy, (List.cons.inj hrest).1⟩

/-- **Uniqueness of the reading.**  No other record of as many fields has the same text exactly if
all neighbours are clean. -/
theorem unique_iff {xss : List (List α)} :
    (∀ yss, yss.length = xss.length → joined b yss = joined b xss → yss = xss) ↔
      xss.IsChain (PairClean b) := by
  constructor
  · intro h
    by_contra hclean
    obtain ⟨yss, hlength, hjoined, hne⟩ := exists_other hclean
    exact hne (h yss hlength hjoined)
  · exact fun hclean yss => eq_of_joined_eq hclean

end Joined
