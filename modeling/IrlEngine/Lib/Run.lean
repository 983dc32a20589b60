import Mathlib.Data.List.Basic

/-!
# Runs of a guarded transition function

A system is a function `step : σ → ε → Option σ`; `none` says that the event is
not possible in that state.  A run is the iteration of `step` over a list of
events, so that quantifying over lists of events is quantifying over all
interleavings.

* `run_invariant` — what every step preserves holds at the end of a run;
* `run_relates_along` — a reflexive and transitive relation that every step
  establishes between its two states relates the two ends of a run;
* `Along` — a condition that every step of a run meets in the state it is taken
  in, for results that hold only of such runs;
* `along_iff_of_invariant` — two such conditions that agree in the states of an invariant;
* `forall_prefix_iff_along` — a condition that says exactly which steps keep an invariant;
* `Happens` — a step that a run contains; `happens_of_change` — what a run changes, one of its steps
  changes; `happens_of_log` — each entry that a run adds to a log, one of its steps appends;
* `run_countP_along` — a potential that certain events lower bounds how often they occur;
* `run_total_along` — a measure that grows with every step by what is summed along the run;
* `withShadow` — a run with a second state that follows it.
-/

namespace Run

variable {σ ε : Type*} {step : σ → ε → Option σ}

/-- The state after a list of events, if all of them are possible in turn. -/
def run (step : σ → ε → Option σ) : σ → List ε → Option σ
  | s, [] => some s
  | s, e :: es => (step s e).bind fun t => run step t es

/-- Every step of the run meets `P` in the state it is taken in. -/
def Along (step : σ → ε → Option σ) (P : σ → ε → Prop) : σ → List ε → Prop
  | _, [] => True
  | s, e :: es => P s e ∧ ∀ t, step s e = some t → Along step P t es

@[simp] theorem run_nil (s : σ) : run step s [] = some s := rfl

theorem run_cons_eq_some {s u : σ} {e : ε} {es : List ε} :
    run step s (e :: es) = some u ↔ ∃ t, step s e = some t ∧ run step t es = some u := by
  rw [run, Option.bind_eq_some_iff]

/-- A run begins with its first step. -/
theorem run_cons {s t : σ} {e : ε} (h : step s e = some t) (es : List ε) :
    run step s (e :: es) = run step t es := by
  rw [run, h]
  rfl

/-- A run of two lists of events is a run of the first followed by one of the second. -/
theorem run_append (s : σ) (es fs : List ε) :
    run step s (es ++ fs) = (run step s es).bind fun t => run step t fs := by
  induction es generalizing s with
  | nil => rfl
  | cons e es ih =>
    rw [List.cons_append, run, run]
    cases step s e with
    | none => rfl
    | some t => exact ih t

theorem run_append_of_eq {s t : σ} {es : List ε} (h : run step s es = some t) (fs : List ε) :
    run step s (es ++ fs) = run step t fs := by
  rw [run_append, h]
  rfl

theorem along_append {P : σ → ε → Prop} {s : σ} {es fs : List ε} (h : Along step P s (es ++ fs))
    {t : σ} (ht : run step s es = some t) : Along step P s es ∧ Along step P t fs := by
  induction es generalizing s with
  | nil =>
    rw [run_nil, Option.some.injEq] at ht
    subst ht
    exact ⟨trivial, h⟩
  | cons e es ih =>
    obtain ⟨u, hu, hrun⟩ := run_cons_eq_some.1 ht
    obtain ⟨hes, hfs⟩ := ih (h.2 u hu) hrun
    refine ⟨⟨h.1, fun v hv => ?_⟩, hfs⟩
    rw [hu, Option.some.injEq] at hv
    exact hv ▸ hes

theorem along_cons {P : σ → ε → Prop} {s t : σ} {e : ε} {es : List ε} (hP : P s e)
    (h : step s e = some t) (hes : Along step P t es) : Along step P s (e :: es) := by
  refine ⟨hP, fun u hu => ?_⟩
  rw [h, Option.some.injEq] at hu
  exact hu ▸ hes

/-- Events that meet the condition in every state. -/
theorem along_of_forall_state {P : σ → ε → Prop} {es : List ε} (h : ∀ e ∈ es, ∀ s, P s e) (s : σ) :
    Along step P s es := by
  induction es generalizing s with
  | nil => trivial
  | cons e es ih => exact ⟨h e (by simp) s, fun t _ => ih (fun e he => h e (by simp [he])) t⟩

/-- A condition on the events alone. -/
theorem along_of_forall {P : ε → Prop} {es : List ε} (h : ∀ e ∈ es, P e) (s : σ) :
    Along step (fun _ e => P e) s es :=
  along_of_forall_state (fun e he _ => h e he) s

/-- Every run meets the condition that is always true. -/
theorem along_true (s : σ) (es : List ε) : Along step (fun _ _ => True) s es :=
  along_of_forall (fun _ _ => trivial) s

/-- A weaker condition is met along the same run. -/
theorem along_mono {P Q : σ → ε → Prop} (h : ∀ s e, P s e → Q s e) {s : σ} {es : List ε}
    (hP : Along step P s es) : Along step Q s es := by
  induction es generalizing s with
  | nil => trivial
  | cons e es ih => exact ⟨h s e hP.1, fun t ht => ih (hP.2 t ht)⟩

/-- Two conditions that an invariant makes equivalent are met along the same runs. -/
theorem along_iff_of_invariant {P Q : σ → ε → Prop} {I : σ → Prop}
    (hinv : ∀ s e t, I s → step s e = some t → I t) (h : ∀ s e, I s → (P s e ↔ Q s e)) {s : σ}
    (hs : I s) (es : List ε) : Along step P s es ↔ Along step Q s es := by
  induction es generalizing s with
  | nil => exact Iff.rfl
  | cons e es ih =>
    refine and_congr (h s e hs) (forall_congr' fun t => ?_)
    exact forall_congr' fun ht => ih (hinv s e t hs ht)

/-- **The invariant rule**, for runs whose steps all meet `P`. -/
theorem run_invariant_along {P : σ → ε → Prop} {I : σ → Prop}
    (hstep : ∀ s e t, I s → P s e → step s e = some t → I t) {s t : σ} {es : List ε}
    (hrun : run step s es = some t) (hP : Along step P s es) (hs : I s) : I t := by
  induction es generalizing s with
  | nil =>
    rw [run_nil, Option.some.injEq] at hrun
    exact hrun ▸ hs
  | cons e es ih =>
    obtain ⟨u, hu, hrest⟩ := run_cons_eq_some.1 hrun
    exact ih hrest (hP.2 u hu) (hstep s e u hs hP.1 hu)

/-- **The invariant rule.** -/
theorem run_invariant {I : σ → Prop} (hstep : ∀ s e t, I s → step s e = some t → I t)
    {s t : σ} {es : List ε} (hrun : run step s es = some t) (hs : I s) : I t :=
  run_invariant_along (P := fun _ _ => True) (fun s e t hi _ h => hstep s e t hi h) hrun
    (along_true s es) hs

/-- **The exact condition of an invariant**: if `P` says of every step whether it keeps `I`, then
`I` holds all along a run exactly if every step meets `P`. -/
theorem forall_prefix_iff_along {P : σ → ε → Prop} {I : σ → Prop} {s u : σ} {es : List ε}
    (hstep : ∀ s, ∀ e ∈ es, ∀ t, I s → step s e = some t → (I t ↔ P s e))
    (hrun : run step s es = some u) (hs : I s) :
    (∀ fs t, fs <+: es → run step s fs = some t → I t) ↔ Along step P s es := by
  induction es generalizing s with
  | nil =>
    refine iff_of_true (fun fs t hpre ht => ?_) trivial
    rw [List.prefix_nil.1 hpre, run_nil, Option.some.injEq] at ht
    exact ht ▸ hs
  | cons e es ih =>
    obtain ⟨v, hv, hrest⟩ := run_cons_eq_some.1 hrun
    have hkeep := hstep s e (by simp) v hs hv
    have hlater : I v → _ := ih (fun s e' he' => hstep s e' (by simp [he'])) hrest
    constructor
    · intro hall
      have hIv : I v := hall [e] v (by simp) (run_cons hv [])
      refine along_cons (hkeep.1 hIv) hv ((hlater hIv).1 fun fs t hpre ht => ?_)
      exact hall (e :: fs) t (List.cons_prefix_cons.2 ⟨rfl, hpre⟩) ((run_cons hv fs).trans ht)
    · rintro ⟨hP, halong⟩ fs t hpre ht
      have hIv : I v := hkeep.2 hP
      cases fs with
      | nil =>
        rw [run_nil, Option.some.injEq] at ht
        exact ht ▸ hs
      | cons e' fs =>
        obtain ⟨rfl, htail⟩ := List.cons_prefix_cons.1 hpre
        rw [run_cons hv] at ht
        exact (hlater hIv).2 (halong v hv) fs t htail ht

/-- **The relation rule**: under an invariant, a preorder that every step respects
relates the two ends of a run. -/
theorem run_relates_along {P : σ → ε → Prop} {I : σ → Prop} {R : σ → σ → Prop}
    (hrefl : ∀ s, R s s) (htrans : ∀ s t u, R s t → R t u → R s u)
    (hinv : ∀ s e t, I s → P s e → step s e = some t → I t)
    (hstep : ∀ s e t, I s → P s e → step s e = some t → R s t) {s t : σ} {es : List ε}
    (hrun : run step s es = some t) (hP : Along step P s es) (hs : I s) : R s t := by
  induction es generalizing s with
  | nil =>
    rw [run_nil, Option.some.injEq] at hrun
    exact hrun ▸ hrefl s
  | cons e es ih =>
    obtain ⟨u, hu, hrest⟩ := run_cons_eq_some.1 hrun
    exact htrans s u t (hstep s e u hs hP.1 hu)
      (ih hrest (hP.2 u hu) (hinv s e u hs hP.1 hu))

/-- Some step of the run meets `P` in the state it is taken in. -/
def Happens (step : σ → ε → Option σ) (P : σ → ε → Prop) (s : σ) (es : List ε) : Prop :=
  ∃ pre e post u, es = pre ++ e :: post ∧ run step s pre = some u ∧ P u e

theorem happens_head {P : σ → ε → Prop} {s : σ} {e : ε} (h : P s e) (es : List ε) :
    Happens step P s (e :: es) := ⟨[], e, es, s, rfl, rfl, h⟩

theorem happens_tail {P : σ → ε → Prop} {s u : σ} {e : ε} {es : List ε} (hstep : step s e = some u)
    (h : Happens step P u es) : Happens step P s (e :: es) := by
  obtain ⟨pre, e', post, v, rfl, hpre, hv⟩ := h
  exact ⟨e :: pre, e', post, v, rfl, (run_cons hstep pre).trans hpre, hv⟩

theorem happens_mono {P Q : σ → ε → Prop} (h : ∀ s e, P s e → Q s e) {s : σ} {es : List ε}
    (hP : Happens step P s es) : Happens step Q s es := by
  obtain ⟨pre, e, post, u, hes, hpre, hu⟩ := hP
  exact ⟨pre, e, post, u, hes, hpre, h u e hu⟩

/-- **The change rule**: what is false before a run and true after it, one of its steps has made
true. -/
theorem happens_of_change {Q : σ → Prop} {s t : σ} {es : List ε} (hrun : run step s es = some t)
    (hs : ¬ Q s) (ht : Q t) :
    Happens step (fun u e => ¬ Q u ∧ ∃ v, step u e = some v ∧ Q v) s es := by
  induction es generalizing s with
  | nil =>
    rw [run_nil, Option.some.injEq] at hrun
    exact absurd (hrun ▸ ht) hs
  | cons e es ih =>
    obtain ⟨u, hu, hrest⟩ := run_cons_eq_some.1 hrun
    by_cases hQ : Q u
    · exact happens_head ⟨hs, u, hu, hQ⟩ es
    · exact happens_tail hu (ih hrest hQ)

/-- Where a step appends at most one entry to a log, a run extends it. -/
theorem log_prefix {α : Type*} {l : σ → List α} {s t : σ} {es : List ε}
    (hstep : ∀ s e t, step s e = some t → l t = l s ∨ ∃ a, l t = l s ++ [a])
    (hrun : run step s es = some t) : l s <+: l t := by
  refine run_invariant (I := fun u => l s <+: l u) (fun u e v hu h => ?_) hrun (List.prefix_refl _)
  rcases hstep u e v h with hsame | ⟨a, hnew⟩
  · exact hsame ▸ hu
  · exact hu.trans ⟨[a], hnew.symm⟩

/-- **The log rule**: where a step appends at most one entry, each entry that a run adds was
appended by one of its steps, behind those that stand before it. -/
theorem happens_of_log {α : Type*} {l : σ → List α} {s t : σ} {es : List ε}
    (hstep : ∀ s e t, step s e = some t → l t = l s ∨ ∃ a, l t = l s ++ [a])
    (hrun : run step s es = some t) {pre post : List α} {a : α}
    (hlog : l t = l s ++ pre ++ a :: post) :
    Happens step (fun u e => l u = l s ++ pre ∧ ∃ v, step u e = some v ∧ l v = l u ++ [a])
      s es := by
  -- the step at which the log comes to have one entry more than there are before this one
  obtain ⟨fs, e, gs, u, rfl, hu, hshort, v, hv, hlong⟩ :=
    happens_of_change (Q := fun u => (l s ++ pre).length < (l u).length) hrun
      (by simp) (by simp [hlog])
  refine ⟨fs, e, gs, u, rfl, hu, ?_⟩
  rcases hstep u e v hv with hsame | ⟨b, hnew⟩
  · exact absurd (hsame ▸ hlong) hshort
  have hrest : run step v gs = some t := by
    rw [run_append_of_eq hu, run_cons hv] at hrun
    exact hrun
  have hvt : l u ++ [b] <+: l s ++ pre ++ a :: post := by
    rw [← hnew, ← hlog]
    exact log_prefix hstep hrest
  have hlength : (l u).length = (l s ++ pre).length := by
    have hsucc : (l v).length = (l u).length + 1 := by rw [hnew, List.length_append]; rfl
    omega
  obtain ⟨rest, hrest⟩ := hvt
  rw [List.append_assoc] at hrest
  obtain ⟨hlog', hentry⟩ := List.append_inj hrest hlength
  obtain rfl : b = a := (List.cons.inj hentry).1
  exact ⟨hlog', v, hv, hnew⟩

/-- **The potential rule**: events that lower a potential which none raises occur no more often
than it allows. -/
theorem run_countP_along {P : σ → ε → Prop} {I : σ → Prop} {m : σ → ℕ} {p : ε → Bool}
    (hinv : ∀ s e t, I s → P s e → step s e = some t → I t)
    (hstep : ∀ s e t, I s → P s e → step s e = some t → (if p e then 1 else 0) + m t ≤ m s)
    {s t : σ} {es : List ε} (hrun : run step s es = some t) (hP : Along step P s es) (hs : I s) :
    es.countP p + m t ≤ m s := by
  induction es generalizing s with
  | nil =>
    rw [run_nil, Option.some.injEq] at hrun
    subst hrun
    simp
  | cons e es ih =>
    obtain ⟨u, hu, hrest⟩ := run_cons_eq_some.1 hrun
    have hfirst := hstep s e u hs hP.1 hu
    have hlater := ih hrest (hP.2 u hu) (hinv s e u hs hP.1 hu)
    rw [List.countP_cons]
    omega

/-- The sum of a quantity over the steps of a run. -/
def total (step : σ → ε → Option σ) (f : σ → σ → ℕ) : σ → List ε → ℕ
  | _, [] => 0
  | s, e :: es =>
    match step s e with
    | none => 0
    | some t => f s t + total step f t es

theorem total_cons {f : σ → σ → ℕ} {s t : σ} {e : ε} (h : step s e = some t) (es : List ε) :
    total step f s (e :: es) = f s t + total step f t es := by
  rw [total, h]

/-- **The sum rule.** -/
theorem run_total_along {P : σ → ε → Prop} {I : σ → Prop} {m : σ → ℕ} {f : σ → σ → ℕ}
    (hinv : ∀ s e t, I s → P s e → step s e = some t → I t)
    (hstep : ∀ s e t, I s → P s e → step s e = some t → m t = m s + f s t)
    {s t : σ} {es : List ε} (hrun : run step s es = some t) (hP : Along step P s es) (hs : I s) :
    m t = m s + total step f s es := by
  induction es generalizing s with
  | nil =>
    rw [run_nil, Option.some.injEq] at hrun
    rw [hrun]
    rfl
  | cons e es ih =>
    obtain ⟨u, hu, hrest⟩ := run_cons_eq_some.1 hrun
    have hfirst := hstep s e u hs hP.1 hu
    have hlater := ih hrest (hP.2 u hu) (hinv s e u hs hP.1 hu)
    rw [total_cons hu]
    omega

/-- A step that also moves a shadow state, which has no say in what is possible. -/
def withShadow {γ : Type*} (step : σ → ε → Option σ) (move : σ → σ → γ → ε → γ)
    (x : σ × γ) (e : ε) : Option (σ × γ) :=
  (step x.1 e).map fun t => (t, move x.1 t x.2 e)

/-- Every run has a shadow. -/
theorem exists_run_withShadow {γ : Type*} (move : σ → σ → γ → ε → γ) {s t : σ} {es : List ε}
    (h : run step s es = some t) (p : γ) :
    ∃ q, run (withShadow step move) (s, p) es = some (t, q) := by
  induction es generalizing s p with
  | nil =>
    rw [run_nil, Option.some.injEq] at h
    exact ⟨p, by rw [h, run_nil]⟩
  | cons e es ih =>
    obtain ⟨u, hu, hrest⟩ := run_cons_eq_some.1 h
    obtain ⟨q, hq⟩ := ih hrest (move s u p e)
    refine ⟨q, ?_⟩
    rw [run_cons (t := (u, move s u p e)) (by rw [withShadow, hu]; rfl)]
    exact hq

/-- What holds of each step of a run holds of each step of the run with its shadow. -/
theorem along_withShadow {γ : Type*} {P : σ → ε → Prop} (move : σ → σ → γ → ε → γ) {s : σ}
    {es : List ε} (h : Along step P s es) (p : γ) :
    Along (withShadow step move) (fun x e => P x.1 e) (s, p) es := by
  induction es generalizing s p with
  | nil => trivial
  | cons e es ih =>
    refine ⟨h.1, fun x hx => ?_⟩
    obtain ⟨t, ht, rfl⟩ := Option.map_eq_some_iff.1 hx
    exact ih (h.2 t ht) _

end Run
