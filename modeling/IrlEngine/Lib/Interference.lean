import IrlEngine.Lib.Run

/-!
# Who can tell

A server answers every event, and an answer may depend on all that has happened before it.  Some of
the events are hidden from the rest if the rest get the same answers without them.

* `play` — a run together with its answers;
* `heard` — the answers to the events that are not hidden;
* `play_drop` — **the unwinding rule**: a relation between states that the hidden events keep, and
  under which the others answer alike, lets the hidden events be dropped from every run.
-/

namespace Interference

variable {σ ε ω : Type*} {step : σ → ε → Option (σ × ω)}

/-- The state after a list of events and the answers to them, if all of them are possible in
turn. -/
def play (step : σ → ε → Option (σ × ω)) : σ → List ε → Option (σ × List ω)
  | s, [] => some (s, [])
  | s, e :: es => (step s e).bind fun x => (play step x.1 es).map fun y => (y.1, x.2 :: y.2)

/-- The steps without their answers. -/
def states (step : σ → ε → Option (σ × ω)) (s : σ) (e : ε) : Option σ := (step s e).map Prod.fst

/-- The answers to the events that are not hidden. -/
def heard (hidden : ε → Bool) : List ε → List ω → List ω
  | e :: es, a :: as => if hidden e then heard hidden es as else a :: heard hidden es as
  | _, _ => []

theorem states_of_step {s t : σ} {e : ε} {a : ω} (h : step s e = some (t, a)) :
    states step s e = some t := by
  rw [states, h]
  rfl

theorem play_cons_eq_some {s u : σ} {e : ε} {es : List ε} {as : List ω} :
    play step s (e :: es) = some (u, as) ↔
      ∃ t a bs, step s e = some (t, a) ∧ play step t es = some (u, bs) ∧ as = a :: bs := by
  rw [play, Option.bind_eq_some_iff]
  constructor
  · rintro ⟨⟨t, a⟩, hstep, hrest⟩
    obtain ⟨⟨v, bs⟩, hplay, heq⟩ := Option.map_eq_some_iff.1 hrest
    obtain ⟨rfl, rfl⟩ := Prod.mk.inj heq
    exact ⟨t, a, bs, hstep, hplay, rfl⟩
  · rintro ⟨t, a, bs, hstep, hplay, rfl⟩
    exact ⟨(t, a), hstep, Option.map_eq_some_iff.2 ⟨(u, bs), hplay, rfl⟩⟩

/-- Without its answers a play is a run. -/
theorem run_of_play {s t : σ} {es : List ε} {as : List ω} (h : play step s es = some (t, as)) :
    Run.run (states step) s es = some t := by
  induction es generalizing s as with
  | nil =>
    rw [← (Prod.mk.inj (Option.some.inj h)).1]
    exact Run.run_nil s
  | cons e es ih =>
    obtain ⟨u, a, as', hstep, hplay, -⟩ := play_cons_eq_some.1 h
    rw [Run.run_cons (states_of_step hstep), ih hplay]

/-- Events under which every step is the same can stand for each other. -/
theorem play_map {g : ε → ε} (h : ∀ s e, step s (g e) = step s e) (s : σ) (es : List ε) :
    play step s (es.map g) = play step s es := by
  induction es generalizing s with
  | nil => rfl
  | cons e es ih => simp only [List.map_cons, play, h, ih]

/-- **The unwinding rule.**  `P` is what is known of the steps of the run. -/
theorem play_drop {R : σ → σ → Prop} {P : σ → ε → Prop} {hidden : ε → Bool}
    (hhidden : ∀ s s' e t a, R s s' → P s e → hidden e = true → step s e = some (t, a) → R t s')
    (hother : ∀ s s' e t a, R s s' → hidden e = false → step s e = some (t, a) →
      ∃ t', step s' e = some (t', a) ∧ R t t')
    {s s' t : σ} {es : List ε} {as : List ω} (hplay : play step s es = some (t, as))
    (hP : Run.Along (states step) P s es) (hR : R s s') :
    ∃ t', play step s' (es.filter fun e => !hidden e) = some (t', heard hidden es as) ∧ R t t' := by
  induction es generalizing s s' as with
  | nil =>
    obtain ⟨rfl, rfl⟩ := Prod.mk.inj (Option.some.inj hplay)
    exact ⟨s', rfl, hR⟩
  | cons e es ih =>
    obtain ⟨u, a, bs, hstep, hrest, rfl⟩ := play_cons_eq_some.1 hplay
    have hlater := hP.2 u (states_of_step hstep)
    cases he : hidden e with
    | true =>
      obtain ⟨t', hdropped, ht'⟩ := ih hrest hlater (hhidden s s' e u a hR hP.1 he hstep)
      refine ⟨t', ?_, ht'⟩
      rw [List.filter_cons_of_neg (by simp [he]), heard, if_pos he]
      exact hdropped
    | false =>
      obtain ⟨u', hstep', hu'⟩ := hother s s' e u a hR he hstep
      obtain ⟨t', hdropped, ht'⟩ := ih hrest hlater hu'
      refine ⟨t', ?_, ht'⟩
      rw [List.filter_cons_of_pos (by simp [he]), heard, if_neg (by simp [he])]
      exact play_cons_eq_some.2 ⟨u', a, _, hstep', hdropped, rfl⟩

end Interference
