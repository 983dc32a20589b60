import Mathlib.Data.List.Basic
import Mathlib.Data.List.Range
import Mathlib.Tactic.NormNum

/-!
# Fields of a message

Two ways to put fields one after another so that they can be told apart: words of a fixed number of
bytes, and lists of fields that each end with a terminator.

* `ofLittle_little`, `little_ofLittle` — a number below `256 ^ k` and its `k` bytes;
* `terminated_inj` — fields without the terminator;
* `terminated_eq_singleton` — a single field among all lists of fields.
-/

namespace Framing

/-! ## Words -/

/-- The `k` lowest bytes of a number, the lowest first. -/
def little (k n : ℕ) : List UInt8 := (List.range k).map fun i => UInt8.ofNat (n >>> (8 * i))

/-- The number of a list of bytes, the lowest first. -/
def ofLittle : List UInt8 → ℕ
  | [] => 0
  | b :: bs => b.toNat + 256 * ofLittle bs

@[simp] theorem length_little (k n : ℕ) : (little k n).length = k := by
  simp [little]

theorem little_succ (k n : ℕ) : little (k + 1) n = UInt8.ofNat n :: little k (n / 256) := by
  unfold little
  rw [List.range_succ_eq_map, List.map_cons, List.map_map]
  congr 1
  refine List.map_congr_left fun i _ => ?_
  have hshift : n >>> (8 * (i + 1)) = (n / 256) >>> (8 * i) := by
    rw [Nat.mul_add, Nat.add_comm, Nat.shiftRight_add, Nat.shiftRight_eq_div_pow n]
  exact congrArg UInt8.ofNat hshift

theorem ofLittle_little (k n : ℕ) : ofLittle (little k n) = n % 256 ^ k := by
  induction k generalizing n with
  | zero => rw [pow_zero, Nat.mod_one]; rfl
  | succ k ih =>
    rw [little_succ, ofLittle, ih, pow_succ', Nat.mod_mul, UInt8.toNat_ofNat']

/-- The eight bytes of a word determine it. -/
theorem little_toNat_inj {v w : UInt64} (h : little 8 v.toNat = little 8 w.toNat) : v = w := by
  have hbound : ∀ u : UInt64, u.toNat < 256 ^ 8 := fun u => u.toNat_lt.trans_eq (by norm_num)
  have hvalue := congrArg ofLittle h
  rw [ofLittle_little, ofLittle_little, Nat.mod_eq_of_lt (hbound v), Nat.mod_eq_of_lt (hbound w)]
    at hvalue
  exact UInt64.toNat_inj.1 hvalue

theorem ofLittle_lt (bs : List UInt8) : ofLittle bs < 256 ^ bs.length := by
  induction bs with
  | nil => exact Nat.one_pos
  | cons b bs ih =>
    have hb := b.toNat_lt
    rw [ofLittle, List.length_cons, pow_succ]
    omega

theorem little_ofLittle (bs : List UInt8) : little bs.length (ofLittle bs) = bs := by
  induction bs with
  | nil => rfl
  | cons b bs ih =>
    have hb := b.toNat_lt
    have hlow : UInt8.ofNat (b.toNat + 256 * ofLittle bs) = b := by
      refine UInt8.toNat_inj.1 ?_
      rw [UInt8.toNat_ofNat']
      omega
    have hhigh : (b.toNat + 256 * ofLittle bs) / 256 = ofLittle bs := by omega
    rw [List.length_cons, ofLittle, little_succ, hlow, hhigh, ih]

/-! ## Terminated fields -/

section Terminated

variable {α : Type*} {c : α}

/-- Every field with the terminator behind it. -/
def terminated (c : α) (xss : List (List α)) : List α := xss.flatMap fun xs => xs ++ [c]

@[simp] theorem terminated_nil : terminated c ([] : List (List α)) = [] := rfl

@[simp] theorem terminated_cons (xs : List α) (xss : List (List α)) :
    terminated c (xs :: xss) = xs ++ c :: terminated c xss := by
  simp [terminated]

@[simp] theorem terminated_eq_nil {xss : List (List α)} : terminated c xss = [] ↔ xss = [] := by
  cases xss with
  | nil => simp
  | cons xs xss => simp

/-- A field without the terminator ends at the first one. -/
theorem append_terminator_inj {xs ys as bs : List α} (hxs : c ∉ xs) (hys : c ∉ ys)
    (h : xs ++ c :: as = ys ++ c :: bs) : xs = ys ∧ as = bs := by
  induction xs generalizing ys with
  | nil =>
    cases ys with
    | nil => exact ⟨rfl, (List.cons.inj h).2⟩
    | cons y ys =>
      obtain ⟨rfl, -⟩ := List.cons.inj h
      exact absurd (List.mem_cons_self ..) hys
  | cons x xs ih =>
    cases ys with
    | nil =>
      obtain ⟨rfl, -⟩ := List.cons.inj h
      exact absurd (List.mem_cons_self ..) hxs
    | cons y ys =>
      obtain ⟨rfl, hrest⟩ := List.cons.inj h
      obtain ⟨rfl, rfl⟩ := ih (List.not_mem_of_not_mem_cons hxs) (List.not_mem_of_not_mem_cons hys)
        hrest
      exact ⟨rfl, rfl⟩

theorem terminated_inj {xss yss : List (List α)} (hxss : ∀ xs ∈ xss, c ∉ xs)
    (hyss : ∀ ys ∈ yss, c ∉ ys) (h : terminated c xss = terminated c yss) : xss = yss := by
  induction xss generalizing yss with
  | nil =>
    cases yss with
    | nil => rfl
    | cons ys yss => simp at h
  | cons xs xss ih =>
    cases yss with
    | nil => simp at h
    | cons ys yss =>
      rw [List.forall_mem_cons] at hxss hyss
      rw [terminated_cons, terminated_cons] at h
      obtain ⟨rfl, hrest⟩ := append_terminator_inj hxss.1 hyss.1 h
      rw [ih hxss.2 hyss.2 hrest]

/-- Fields that are written like a single field without the terminator. -/
theorem terminated_eq_singleton {xss : List (List α)} {ys : List α} (hys : c ∉ ys)
    (h : terminated c xss = terminated c [ys]) : xss = [ys] := by
  cases xss with
  | nil => simp at h
  | cons xs xss =>
    rw [terminated_cons, terminated_cons, terminated_nil] at h
    have hboth : xs = ys ∧ terminated c xss = [] := by
      rcases List.append_eq_append_iff.1 h with ⟨as, rfl, has⟩ | ⟨as, rfl, has⟩
      · cases as with
        | nil => exact ⟨(List.append_nil xs).symm, (List.cons.inj has).2⟩
        | cons a as =>
          obtain ⟨rfl, -⟩ := List.cons.inj has
          exact absurd (by simp) hys
      · cases as with
        | nil => exact ⟨List.append_nil ys, (List.cons.inj has).2.symm⟩
        | cons a as => simp at has
    rw [hboth.1, terminated_eq_nil.1 hboth.2]

end Terminated

end Framing
