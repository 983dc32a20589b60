import IrlEngine.Router
import Mathlib.Data.List.Induction

/-!
# The rate limiter over a sequence of calls

`RateLimiter::check` keeps one counter for each token, with the second it belongs to.  The entry of
a token is locked during a call, so that calls come one after the other; they carry the seconds that
the clock showed, which never goes back.

* `served` — the limiter and the answers after a sequence of calls;
* `CounterInv` — a counter has the calls of its token in the last second of the token, up to the
  limit;
* `CounterInv.check_eq`, `CounterInv.step` — one more call.
-/

namespace IrlEngine

/-! ## Sequences of calls -/

/-- `RateLimiter::new`. -/
def RateLimiter.new (maxPerSecond : UInt32) : RateLimiter := ⟨fun _ => none, maxPerSecond.toNat⟩

/-- A call of `check`: the token, and the second that the clock shows. -/
abbrev CheckCall := String × ℕ

/-- One more call, and its answer. -/
def RateLimiter.serve (acc : RateLimiter × List (CheckCall × Except Rejection Unit))
    (call : CheckCall) : RateLimiter × List (CheckCall × Except Rejection Unit) :=
  ((acc.1.check call.1 call.2).1, acc.2 ++ [(call, (acc.1.check call.1 call.2).2)])

/-- The calls one after the other, from an empty map. -/
def served (maxPerSecond : UInt32) (calls : List CheckCall) :
    RateLimiter × List (CheckCall × Except Rejection Unit) :=
  calls.foldl RateLimiter.serve (.new maxPerSecond, [])

/-- The answers to the calls of a token in a second. -/
def answersOf (call : CheckCall) (answers : List (CheckCall × Except Rejection Unit)) :
    List (Except Rejection Unit) :=
  (answers.filter fun a => a.1 = call).map Prod.snd

/-! ## The counters -/

/-- The counter of a token belongs to the last second of its calls.  It has their number, but not
more than the limit. -/
structure CounterInv (m : ℕ) (calls : List CheckCall) (l : RateLimiter) : Prop where
  limit : l.maxPerSecond = m
  absent : ∀ token, l.counters token = none → ∀ second, (token, second) ∉ calls
  counted : ∀ token second count, l.counters token = some (second, count) →
    count = min m (calls.count (token, second)) ∧ (token, second) ∈ calls ∧
      ∀ later, (token, later) ∈ calls → later ≤ second

section Step

variable {m : ℕ} {calls : List CheckCall} {l : RateLimiter} {call : CheckCall}

/-- The entry that a call finds, or inserts: the calls of the same token and second before it. -/
theorem CounterInv.entry (hl : CounterInv m calls l)
    (hlast : ∀ c ∈ calls, c.2 ≤ call.2) :
    (∃ second count, l.counters call.1 = some (second, count) ∧ second ≠ call.2 ∧
        calls.count call = 0) ∨
      (l.counters call.1).getD (call.2, 0) = (call.2, min m (calls.count call)) := by
  cases hentry : l.counters call.1 with
  | none =>
    refine Or.inr ?_
    rw [List.count_eq_zero.2 (hl.absent call.1 hentry call.2), Nat.min_zero]
    rfl
  | some entry =>
    obtain ⟨second, count⟩ := entry
    obtain ⟨hcount, hmem, hbound⟩ := hl.counted call.1 second count hentry
    by_cases hsecond : second = call.2
    · refine Or.inr ?_
      rw [hcount, hsecond]
      rfl
    · refine Or.inl ⟨second, count, rfl, hsecond, List.count_eq_zero.2 fun h => hsecond ?_⟩
      exact le_antisymm (hlast _ hmem) (hbound call.2 h)

/-- What a call does: it counts, and is answered by the number of calls before it. -/
theorem CounterInv.check_eq (hl : CounterInv m calls l) (hm : 1 ≤ m)
    (hlast : ∀ c ∈ calls, c.2 ≤ call.2) :
    l.check call.1 call.2 = (l.record call.1 (call.2, min m (calls.count call + 1)),
      if calls.count call < m then .ok () else .error .rateLimitExceeded) := by
  have hlimit : l.maxPerSecond ≠ 0 := by
    rw [hl.limit]
    omega
  rw [RateLimiter.check, if_neg hlimit]
  rcases hl.entry hlast with ⟨second, count, hentry, hsecond, hnone⟩ | hentry
  · simp only [hentry, Option.getD_some, hnone]
    rw [if_pos hsecond, if_pos (by omega), Nat.zero_add, min_eq_right hm]
  · simp only [hentry, hl.limit]
    rw [if_neg (fun h => h rfl)]
    by_cases hcount : calls.count call < m
    · rw [if_pos (by omega), if_pos hcount, min_eq_right hcount.le, min_eq_right hcount]
    · rw [if_neg (by omega), if_neg hcount, min_eq_left (by omega), min_eq_left (by omega)]

theorem CounterInv.step (hl : CounterInv m calls l) (hm : 1 ≤ m)
    (hlast : ∀ c ∈ calls, c.2 ≤ call.2) :
    CounterInv m (calls ++ [call]) (l.check call.1 call.2).1 := by
  rw [hl.check_eq hm hlast]
  refine ⟨hl.limit, fun token hnone second hmem => ?_, fun token second count hentry => ?_⟩
  · simp only [RateLimiter.record] at hnone
    split at hnone
    · cases hnone
    next hother =>
      rcases List.mem_append.1 hmem with hmem | hmem
      · exact hl.absent token hnone second hmem
      · rw [← List.mem_singleton.1 hmem] at hother
        exact hother rfl
  · simp only [RateLimiter.record] at hentry
    split at hentry
    next hsame =>
      subst hsame
      obtain ⟨rfl, rfl⟩ := Prod.mk.inj (Option.some.inj hentry)
      refine ⟨?_, List.mem_append_right _ (List.mem_singleton_self _), fun later hlater => ?_⟩
      · rw [List.count_append, List.count_singleton_self]
      · rcases List.mem_append.1 hlater with hlater | hlater
        · exact hlast _ hlater
        · rw [← List.mem_singleton.1 hlater]
    next hother =>
      obtain ⟨hcount, hmem, hbound⟩ := hl.counted token second count hentry
      have hne : ∀ other, (token, other) ≠ call := by
        rintro other rfl
        exact hother rfl
      refine ⟨?_, List.mem_append_left _ hmem, fun later hlater => ?_⟩
      · rw [hcount, List.count_append, List.count_singleton, if_neg, Nat.add_zero]
        simpa using (hne second).symm
      · rcases List.mem_append.1 hlater with hlater | hlater
        · exact hbound later hlater
        · exact absurd (List.mem_singleton.1 hlater) (hne later)

end Step

/-! ## Runs -/

theorem served_append (m : UInt32) (calls : List CheckCall) (call : CheckCall) :
    served m (calls ++ [call]) = RateLimiter.serve (served m calls) call := by
  rw [served, List.foldl_append]
  rfl

/-- The last call of a sequence with non-decreasing seconds. -/
theorem le_of_pairwise_append {calls : List CheckCall} {call : CheckCall}
    (h : (calls ++ [call]).Pairwise fun a b => a.2 ≤ b.2) :
    calls.Pairwise (fun a b => a.2 ≤ b.2) ∧ ∀ c ∈ calls, c.2 ≤ call.2 := by
  obtain ⟨hcalls, -, hlast⟩ := List.pairwise_append.1 h
  exact ⟨hcalls, fun c hc => hlast c hc call (List.mem_singleton_self call)⟩

theorem counterInv_served {m : UInt32} (hm : 1 ≤ m.toNat) {calls : List CheckCall}
    (hseconds : calls.Pairwise fun a b => a.2 ≤ b.2) :
    CounterInv m.toNat calls (served m calls).1 := by
  induction calls using List.reverseRecOn with
  | nil =>
    exact ⟨rfl, fun _ _ _ h => List.not_mem_nil h, fun _ _ _ h => by cases h⟩
  | append_singleton calls call ih =>
    obtain ⟨hcalls, hlast⟩ := le_of_pairwise_append hseconds
    rw [served_append]
    exact (ih hcalls).step hm hlast

/-- The first answers are `Ok`, as many as the limit allows. -/
def quota (m k : ℕ) : List (Except Rejection Unit) :=
  List.replicate (min m k) (.ok ()) ++ List.replicate (k - min m k) (.error .rateLimitExceeded)

/-- One more answer. -/
theorem quota_succ (m k : ℕ) :
    quota m (k + 1) = quota m k ++ [if k < m then .ok () else .error .rateLimitExceeded] := by
  unfold quota
  by_cases hk : k < m
  · rw [if_pos hk, min_eq_right hk, min_eq_right hk.le, Nat.sub_self, Nat.sub_self,
      List.replicate_succ']
    simp
  · rw [if_neg hk, min_eq_left (by omega), min_eq_left (by omega), Nat.succ_sub (by omega),
      List.replicate_succ', List.append_assoc]

/-- For every token and every second the first calls are accepted, up to the limit, and no others;
no counter exceeds the limit, which is a `u32`. -/
theorem rate_limit_exact (m : UInt32) (hm : 1 ≤ m) (calls : List CheckCall)
    (hseconds : calls.Pairwise fun a b => a.2 ≤ b.2) :
    (∀ token second, answersOf (token, second) (served m calls).2 =
        quota m.toNat (calls.count (token, second))) ∧
      ∀ before, before <+: calls → ∀ token second count,
        (served m before).1.counters token = some (second, count) → count ≤ m.toNat := by
  have hpos : 1 ≤ m.toNat := UInt32.le_iff_toNat_le.1 hm
  refine ⟨fun token second => ?_, fun before hbefore token second count h => ?_⟩
  · induction calls using List.reverseRecOn with
    | nil => simp [answersOf, served, quota]
    | append_singleton calls call ih =>
      obtain ⟨hcalls, hlast⟩ := le_of_pairwise_append hseconds
      rw [served_append, RateLimiter.serve, (counterInv_served hpos hcalls).check_eq hpos hlast]
      unfold answersOf at ih ⊢
      rw [List.filter_append, List.map_append, ih hcalls, List.count_append]
      by_cases hcall : call = (token, second)
      · subst hcall
        rw [List.count_singleton_self, quota_succ]
        simp
      · have hother : (token, second) ∉ [call] := fun h => hcall (List.mem_singleton.1 h).symm
        rw [List.count_eq_zero.2 hother]
        simp [hcall]
  · have hinv := counterInv_served hpos (hseconds.sublist hbefore.sublist)
    rw [(hinv.counted token second count h).1]
    exact min_le_left _ _

/-- Three calls of one token in a second, with a call of another token between them. -/
theorem rate_limit_exact_sample :
    (∀ token second,
      answersOf (token, second) (served 2 [("a", 7), ("a", 7), ("b", 7), ("a", 7)]).2 =
        quota 2 ([("a", 7), ("a", 7), ("b", 7), ("a", 7)].count (token, second))) ∧
      ∀ before, before <+: [("a", 7), ("a", 7), ("b", 7), ("a", 7)] → ∀ token second count,
        (served 2 before).1.counters token = some (second, count) → count ≤ 2 :=
  rate_limit_exact 2 (by decide) _ (by decide)

end IrlEngine
