import IrlEngine.Lifecycle
import IrlEngine.Lib.Framing

/-!
# The constraints of a regime

`policy.rs` once more: how the verdict depends on its arguments, and how far the policy hash of a
decision determines the constraints it was made under.  The hash is taken over a byte, two texts and
two words with bars between them and nothing escaped; the sides end with commas.

* `policy_monotone` — what is allowed stays allowed under looser constraints, and `evaluate` and
  `enforce` agree;
* `bytes_inj` — versions without a bar and sides without a comma are told apart;
* `policy_hash_pins_iff` — the constraints that no others share their hashed bytes with.
-/

namespace IrlEngine

/-! ## Looser constraints -/

section Monotone

variable {m m' : MtaState} {action : TradeAction} {n n' c c' : F64} {ro ro' : Bool}

theorem enforce_eq_ok_iff {d : PolicyDecision} :
    enforce m action n c ro = .ok d ↔ WithinConstraints m action n c ro ∧
      d = ⟨.allowed, policyIdText, policyVersionText, constraintHash m⟩ := by
  constructor
  · exact enforce_ok
  · rintro ⟨hwithin, rfl⟩
    rw [enforce, checkConstraints_ok_iff.2 hwithin]
    rfl

theorem evaluate_of_within (h : WithinConstraints m action n c ro) :
    evaluate m action n c ro = ⟨.allowed, policyIdText, policyVersionText, constraintHash m⟩ := by
  unfold evaluate
  rw [checkConstraints_ok_iff.2 h]

theorem isOk_checkConstraints :
    (checkConstraints m action n c ro).isOk = true ↔ WithinConstraints m action n c ro := by
  rw [← checkConstraints_ok_iff]
  cases checkConstraints m action n c ro with
  | ok u => simp [Except.isOk, Except.toBool]
  | error e => simp [Except.isOk, Except.toBool]

/-- A side that is permitted is permitted on a list with all these sides. -/
theorem sideAllowed_mono
    (hsides : ∀ s ∈ m.allowedSides, ∃ s' ∈ m'.allowedSides, Text.eqIgnoreAsciiCase s' s = true)
    (h : sideAllowed m action = true) : sideAllowed m' action = true := by
  unfold sideAllowed at h ⊢
  obtain ⟨s, hs, hside⟩ := List.any_eq_true.1 h
  obtain ⟨s', hs', hsame⟩ := hsides s hs
  refine List.any_eq_true.2 ⟨s', hs', ?_⟩
  unfold Text.eqIgnoreAsciiCase at hside hsame ⊢
  exact decide_eq_true ((of_decide_eq_true hsame).trans (of_decide_eq_true hside))

theorem WithinConstraints.mono (h : WithinConstraints m action n c ro)
    (hn : n'.toRat ≤ n.toRat) (hcap : effectiveCap m c ≤ effectiveCap m' c')
    (hsides : ∀ s ∈ m.allowedSides, ∃ s' ∈ m'.allowedSides, Text.eqIgnoreAsciiCase s' s = true)
    (hro : ro = true → ro' = true) : WithinConstraints m' action n' c' ro' := by
  refine ⟨?_, hn.trans (h.2.trans hcap)⟩
  rcases h.1 with hreduce | hside
  · exact Or.inl (hro hreduce)
  · exact Or.inr (sideAllowed_mono hsides hside)

end Monotone

/-- **Policy is monotone.**  With no larger notional, no smaller effective cap, all permitted sides
(up to case) and `reduce_only` kept, what `enforce` allows it still allows; and it allows exactly
what `evaluate` reports as allowed, with the same decision. -/
theorem policy_monotone {m m' : MtaState} (action : TradeAction) {n n' c c' : F64} {ro ro' : Bool}
    (hn : n'.toRat ≤ n.toRat)
    (hcap : c.toRat * m.maxNotionalScale.toRat ≤ c'.toRat * m'.maxNotionalScale.toRat)
    (hsides : ∀ s ∈ m.allowedSides, ∃ s' ∈ m'.allowedSides, Text.eqIgnoreAsciiCase s' s = true)
    (hro : ro = true → ro' = true) :
    ((∃ d, enforce m action n c ro = .ok d) → ∃ d', enforce m' action n' c' ro' = .ok d') ∧
    ∀ d, enforce m action n c ro = .ok d ↔ evaluate m action n c ro = d ∧ d.result = .allowed := by
  constructor
  · rintro ⟨d, hd⟩
    have hwithin := (enforce_ok hd).1.mono hn hcap hsides hro
    exact ⟨_, enforce_eq_ok_iff.2 ⟨hwithin, rfl⟩⟩
  · intro d
    rw [enforce_eq_ok_iff]
    by_cases hwithin : WithinConstraints m action n c ro
    · rw [evaluate_of_within hwithin]
      constructor
      · rintro ⟨-, rfl⟩
        exact ⟨rfl, rfl⟩
      · rintro ⟨rfl, -⟩
        exact ⟨hwithin, rfl⟩
    · refine iff_of_false (fun h => hwithin h.1) ?_
      rintro ⟨rfl, hallowed⟩
      rw [evaluate_halted hwithin] at hallowed
      cases hallowed

/-- The sides of the sample state in another case, and one more. -/
def MtaState.looser : MtaState := { MtaState.sample with allowedSides := ["LONG", "short"] }

theorem policy_monotone_sample :
    ∃ d, enforce .looser (.long F64.one) F64.one F64.two false = .ok d := by
  have hsample : WithinConstraints .sample (.long F64.one) F64.one F64.one false := by
    refine ⟨Or.inr (by decide), ?_⟩
    rw [effectiveCap_sample]
  have hsides : ∀ s ∈ MtaState.sample.allowedSides, ∃ s' ∈ MtaState.looser.allowedSides,
      Text.eqIgnoreAsciiCase s' s = true := by
    intro s hs
    rw [List.mem_singleton.1 hs]
    exact ⟨"LONG", List.mem_cons_self .., by decide⟩
  have hcap : F64.one.toRat * MtaState.sample.maxNotionalScale.toRat
      ≤ F64.two.toRat * MtaState.looser.maxNotionalScale.toRat := by
    show F64.one.toRat * F64.one.toRat ≤ F64.two.toRat * F64.one.toRat
    rw [F64.toRat_one, F64.toRat_two]
    norm_num
  exact (policy_monotone (.long F64.one) (le_refl F64.one.toRat) hcap hsides id).1
    ⟨_, enforce_eq_ok_iff.2 ⟨hsample, rfl⟩⟩

/-! ## What is hashed -/

/-- The part of an MTA state that `constraint_hash` reads, with any bits for the two floats, also
those of infinities and NaN. -/
structure HashedConstraints where
  regimeId : UInt8
  version : String
  riskLevel : UInt64
  maxNotionalScale : UInt64
  allowedSides : List String
  deriving DecidableEq, Repr

/-- The constraints of a state, as they are hashed. -/
def MtaState.hashed (mta : MtaState) : HashedConstraints where
  regimeId := mta.regimeId
  version := mta.version
  riskLevel := mta.riskLevel.toBits
  maxNotionalScale := mta.maxNotionalScale.toBits
  allowedSides := mta.allowedSides

/-- The bytes that `constraint_hash` hands to the hasher, one update after the other. -/
def HashedConstraints.bytes (c : HashedConstraints) : List UInt8 :=
  c.regimeId :: Text.utf8 "|" ++ Text.utf8 c.version ++ Text.utf8 "|" ++ leBytes c.riskLevel
    ++ Text.utf8 "|" ++ leBytes c.maxNotionalScale ++ Text.utf8 "|"
    ++ c.allowedSides.flatMap fun side => Text.utf8 side ++ Text.utf8 ","

theorem constraintHash_eq (mta : MtaState) :
    constraintHash mta = sha256Hex mta.hashed.bytes := rfl

/-- The byte of `|`. -/
def bar : UInt8 := 0x7C

/-- The byte of `,`. -/
def comma : UInt8 := 0x2C

/-- The sides, each with its comma. -/
def HashedConstraints.sides (c : HashedConstraints) : List UInt8 :=
  Framing.terminated comma (c.allowedSides.map Text.utf8)

/-- What is hashed after the regime and its bar. -/
def HashedConstraints.body (c : HashedConstraints) : List UInt8 :=
  Text.utf8 c.version ++ bar :: (leBytes c.riskLevel ++ bar :: (leBytes c.maxNotionalScale
    ++ bar :: c.sides))

theorem utf8_bar : Text.utf8 "|" = [bar] := by decide

theorem utf8_comma : Text.utf8 "," = [comma] := by decide

theorem HashedConstraints.bytes_eq (c : HashedConstraints) :
    c.bytes = c.regimeId :: bar :: c.body := by
  have hsides : c.allowedSides.flatMap (fun side => Text.utf8 side ++ [comma]) = c.sides := by
    rw [sides, Framing.terminated, List.flatMap_map]
  simp only [bytes, body, utf8_bar, utf8_comma, hsides, List.cons_append, List.nil_append,
    List.append_assoc]

/-! ## Texts and words -/

theorem leBytes_eq (w : UInt64) : leBytes w = Framing.little 8 w.toNat := rfl

@[simp] theorem length_leBytes (w : UInt64) : (leBytes w).length = 8 := by
  simp [leBytes]

theorem leBytes_injective : Function.Injective leBytes := by
  intro v w h
  rw [leBytes_eq, leBytes_eq] at h
  exact Framing.little_toNat_inj h

/-- Any eight bytes are those of a word. -/
theorem exists_leBytes {x : List UInt8} (hx : x.length = 8) : ∃ w, leBytes w = x := by
  have hlt : Framing.ofLittle x < 2 ^ 64 := by
    have hbound := Framing.ofLittle_lt x
    rw [hx] at hbound
    exact hbound
  refine ⟨UInt64.ofNat (Framing.ofLittle x), ?_⟩
  rw [leBytes_eq, UInt64.toNat_ofNat_of_lt' hlt, ← hx, Framing.little_ofLittle]

theorem bar_not_mem_utf8 {s : String} (h : '|' ∉ s.toList) : bar ∉ Text.utf8 s :=
  fun hmem => h (Text.mem_of_mem_encode (by decide) (by decide) hmem)

theorem comma_not_mem_utf8 {s : String} (h : ',' ∉ s.toList) : comma ∉ Text.utf8 s :=
  fun hmem => h (Text.mem_of_mem_encode (by decide) (by decide) hmem)

theorem utf8_append (s t : String) : Text.utf8 (s ++ t) = Text.utf8 s ++ Text.utf8 t := by
  simp [Text.utf8, Text.encode]

/-! ## Plain constraints -/

theorem HashedConstraints.ext_of_sides {c c' : HashedConstraints}
    (hregime : c'.regimeId = c.regimeId)
    (hversion : c'.version = c.version) (hsides : c'.allowedSides = c.allowedSides)
    (h : c'.body = c.body) : c' = c := by
  unfold body sides at h
  rw [hversion, hsides] at h
  have hrest := (List.cons.inj (List.append_cancel_left h)).2
  obtain ⟨hrisk, hrest⟩ := List.append_inj hrest (by simp)
  have hscale := (List.append_inj (List.cons.inj hrest).2 (by simp)).1
  cases c
  cases c'
  simp only [HashedConstraints.mk.injEq]
  exact ⟨hregime, hversion, leBytes_injective hrisk, leBytes_injective hscale, hsides⟩

/-- Equal versions leave equal sides. -/
theorem HashedConstraints.sides_eq {c c' : HashedConstraints} (hversion : c'.version = c.version)
    (h : c'.body = c.body) : c'.sides = c.sides := by
  unfold body at h
  rw [hversion] at h
  have hrest := (List.cons.inj (List.append_cancel_left h)).2
  have hrest := (List.append_inj hrest (by simp)).2
  have hrest := (List.append_inj (List.cons.inj hrest).2 (by simp)).2
  exact (List.cons.inj hrest).2

/-- No bar in the version, no comma in a side. -/
structure HashedConstraints.Plain (c : HashedConstraints) : Prop where
  version : '|' ∉ c.version.toList
  sides : ∀ s ∈ c.allowedSides, ',' ∉ s.toList

theorem HashedConstraints.bytes_inj {c c' : HashedConstraints} (hc : c.Plain) (hc' : c'.Plain)
    (h : c'.bytes = c.bytes) : c' = c := by
  rw [bytes_eq, bytes_eq, List.cons.injEq, List.cons.injEq] at h
  obtain ⟨hregime, -, hbody⟩ := h
  have hversion : c'.version = c.version := Text.utf8_injective (Framing.append_terminator_inj
    (bar_not_mem_utf8 hc'.version) (bar_not_mem_utf8 hc.version) hbody).1
  have hfree : ∀ d : HashedConstraints, d.Plain → ∀ xs ∈ d.allowedSides.map Text.utf8,
    comma ∉ xs := by
    intro d hd xs hxs
    obtain ⟨s, hs, rfl⟩ := List.mem_map.1 hxs
    exact comma_not_mem_utf8 (hd.sides s hs)
  have hsides := Framing.terminated_inj (hfree c' hc') (hfree c hc) (sides_eq hversion hbody)
  exact ext_of_sides hregime hversion (List.map_injective_iff.2 Text.utf8_injective hsides) hbody

/-! ## Other readings of the same bytes -/

/-- Three bars nine bytes apart, with text before them and after them nothing, or text with a comma
at its end. -/
structure CutAt (bytes : List UInt8) (n : ℕ) : Prop where
  first : bytes[n]? = some bar
  second : bytes[n + 9]? = some bar
  third : bytes[n + 18]? = some bar
  before : ∃ v : String, bytes.take n = Text.utf8 v
  after : bytes.drop (n + 19) = [] ∨ ∃ t : String, bytes.drop (n + 19) = Text.utf8 t ++ [comma]

/-- The sides are nothing, or a text with a comma at its end. -/
theorem HashedConstraints.sides_cases (c : HashedConstraints) :
    c.sides = [] ∨ ∃ t : String, c.sides = Text.utf8 t ++ [comma] := by
  unfold sides
  induction c.allowedSides with
  | nil => exact Or.inl rfl
  | cons s ss ih =>
    right
    rw [List.map_cons, Framing.terminated_cons]
    rcases ih with hnil | ⟨t, ht⟩
    · exact ⟨s, by rw [hnil]⟩
    · refine ⟨s ++ "," ++ t, ?_⟩
      rw [ht, utf8_append, utf8_append, utf8_comma]
      simp

theorem drop_eq_cons {α : Type*} {l : List α} {n : ℕ} {a : α} (h : l[n]? = some a) :
    l.drop n = a :: l.drop (n + 1) := by
  obtain ⟨hn, rfl⟩ := List.getElem?_eq_some_iff.1 h
  exact List.drop_eq_getElem_cons hn

theorem HashedConstraints.cutAt_body (c : HashedConstraints) :
    CutAt c.body (Text.utf8 c.version).length := by
  have hfirst : c.body.drop (Text.utf8 c.version).length
      = bar :: (leBytes c.riskLevel ++ bar :: (leBytes c.maxNotionalScale ++ bar :: c.sides)) :=
    List.drop_left
  have hsecond : c.body.drop ((Text.utf8 c.version).length + 9)
      = bar :: (leBytes c.maxNotionalScale ++ bar :: c.sides) := by
    rw [← List.drop_drop, hfirst, List.drop_succ_cons]
    exact List.drop_left' (length_leBytes _)
  have hthird : c.body.drop ((Text.utf8 c.version).length + 18) = bar :: c.sides := by
    rw [show 18 = 9 + 9 from rfl, ← Nat.add_assoc, ← List.drop_drop, hsecond, List.drop_succ_cons]
    exact List.drop_left' (length_leBytes _)
  have hafter : c.body.drop ((Text.utf8 c.version).length + 19) = c.sides := by
    rw [show 19 = 18 + 1 from rfl, ← Nat.add_assoc, ← List.drop_drop, hthird]
    rfl
  refine ⟨?_, ?_, ?_, ⟨c.version, List.take_left⟩, ?_⟩
  · rw [← List.head?_drop, hfirst, List.head?_cons]
  · rw [← List.head?_drop, hsecond, List.head?_cons]
  · rw [← List.head?_drop, hthird, List.head?_cons]
  · rw [hafter]
    exact c.sides_cases

/-- Wherever the bytes can be cut, there are constraints that are written so. -/
theorem CutAt.exists_constraints {bytes : List UInt8} {n : ℕ} (h : CutAt bytes n) (regime : UInt8) :
    ∃ c : HashedConstraints,
      c.regimeId = regime ∧ c.body = bytes ∧ (Text.utf8 c.version).length = n := by
  obtain ⟨hfirst, hsecond, hthird, ⟨v, hv⟩, hafter⟩ := h
  have hn : n ≤ bytes.length := (List.getElem?_eq_some_iff.1 hfirst).1.le
  have hend : n + 18 < bytes.length := (List.getElem?_eq_some_iff.1 hthird).1
  obtain ⟨risk, hrisk⟩ := exists_leBytes (x := (bytes.drop (n + 1)).take 8) (by simp; omega)
  obtain ⟨scale, hscale⟩ := exists_leBytes (x := (bytes.drop (n + 10)).take 8) (by simp; omega)
  obtain ⟨ss, hss⟩ : ∃ ss : List String,
      Framing.terminated comma (ss.map Text.utf8) = bytes.drop (n + 19) := by
    rcases hafter with hnil | ⟨t, ht⟩
    · exact ⟨[], hnil.symm⟩
    · exact ⟨[t], by simp [ht]⟩
  refine ⟨⟨regime, v, risk, scale, ss⟩, rfl, ?_, ?_⟩
  · calc Text.utf8 v ++ bar :: (leBytes risk ++ bar :: (leBytes scale ++ bar ::
          Framing.terminated comma (ss.map Text.utf8)))
        = bytes.take n ++ bar :: ((bytes.drop (n + 1)).take 8 ++
          bar :: ((bytes.drop (n + 10)).take 8 ++ bar :: bytes.drop (n + 19))) := by
            rw [hv, hrisk, hscale, hss]
      _ = bytes.take n ++ bar :: ((bytes.drop (n + 1)).take 8 ++
          bar :: ((bytes.drop (n + 10)).take 8
          ++ (bytes.drop (n + 10)).drop 8)) := by
            rw [List.drop_drop, ← drop_eq_cons hthird]
      _ = bytes.take n ++ bar :: ((bytes.drop (n + 1)).take 8 ++ (bytes.drop (n + 1)).drop 8) := by
            rw [List.take_append_drop, List.drop_drop, ← drop_eq_cons hsecond]
      _ = bytes := by
            rw [List.take_append_drop, ← drop_eq_cons hfirst, List.take_append_drop]
  · rw [← hv, List.length_take, min_eq_left hn]

/-! ## When the hash pins the constraints -/

/-- At most one side, without a comma; and the bytes cannot be cut elsewhere. -/
structure HashedConstraints.Unambiguous (c : HashedConstraints) : Prop where
  single : c.allowedSides.length ≤ 1
  commas : ∀ s ∈ c.allowedSides, ',' ∉ s.toList
  cut : ∀ n, CutAt c.body n → n = (Text.utf8 c.version).length

/-- Two sides are written like their text with a comma between them. -/
theorem terminated_merge (l r : List String) (s t : String) :
    Framing.terminated comma ((l ++ (s ++ "," ++ t) :: r).map Text.utf8)
      = Framing.terminated comma ((l ++ s :: t :: r).map Text.utf8) := by
  simp [Framing.terminated, utf8_append, utf8_comma]

theorem HashedConstraints.bytes_eq_of_sides {c c' : HashedConstraints}
    (hregime : c'.regimeId = c.regimeId) (hbody : c'.body = c.body) : c'.bytes = c.bytes := by
  rw [bytes_eq, bytes_eq, hregime, hbody]

/-- Sides that are written alike, and are not the same. -/
theorem HashedConstraints.exists_of_sides {c : HashedConstraints} {ss : List String}
    (hwritten : Framing.terminated comma (ss.map Text.utf8) = c.sides) (hne : ss ≠ c.allowedSides) :
    ∃ c' : HashedConstraints, c'.bytes = c.bytes ∧ c' ≠ c := by
  refine ⟨{ c with allowedSides := ss }, bytes_eq_of_sides rfl ?_, fun heq => ?_⟩
  · unfold body
    rw [← hwritten]
    rfl
  · exact hne (congrArg allowedSides heq)

theorem HashedConstraints.unambiguous_of_pinned {c : HashedConstraints}
    (h : ∀ c', c'.bytes = c.bytes → c' = c) : c.Unambiguous := by
  have hsides : ∀ ss : List String,
      Framing.terminated comma (ss.map Text.utf8) = c.sides → ss = c.allowedSides := by
    intro ss hss
    by_contra hne
    obtain ⟨c', hbytes, hother⟩ := exists_of_sides hss hne
    exact hother (h c' hbytes)
  refine ⟨?_, fun s hs hcomma => ?_, fun n hcut => ?_⟩
  · -- the first two sides can be merged
    cases hc : c.allowedSides with
    | nil => simp
    | cons s ss =>
      cases ss with
      | nil => simp
      | cons t r =>
        have hmerged := hsides ((s ++ "," ++ t) :: r) (by
          rw [sides, hc]
          exact terminated_merge [] r s t)
        rw [hc] at hmerged
        simpa using congrArg List.length hmerged
  · -- a side with a comma can be split
    obtain ⟨l, r, hc⟩ := List.append_of_mem hs
    obtain ⟨a, b, hab⟩ := List.append_of_mem hcomma
    have hside : s = String.ofList a ++ "," ++ String.ofList b := by
      refine String.toList_inj.1 ?_
      rw [hab]
      simp
    have hsplit := hsides (l ++ String.ofList a :: String.ofList b :: r) (by
      rw [sides, hc, hside]
      exact (terminated_merge l r _ _).symm)
    rw [hc] at hsplit
    simpa using congrArg List.length hsplit
  · obtain ⟨c', hregime, hbody, hlength⟩ := hcut.exists_constraints c.regimeId
    rw [← hlength, h c' (bytes_eq_of_sides hregime hbody)]

theorem HashedConstraints.Unambiguous.pinned {c c' : HashedConstraints} (hc : c.Unambiguous)
    (h : c'.bytes = c.bytes) : c' = c := by
  rw [bytes_eq, bytes_eq, List.cons.injEq, List.cons.injEq] at h
  obtain ⟨hregime, -, hbody⟩ := h
  have hversion : c'.version = c.version := by
    have hlength := hc.cut _ (hbody ▸ c'.cutAt_body)
    exact Text.utf8_injective (List.append_inj hbody hlength).1
  have hsides := sides_eq hversion hbody
  refine ext_of_sides hregime hversion (List.map_injective_iff.2 Text.utf8_injective ?_) hbody
  unfold sides at hsides
  cases hlist : c.allowedSides with
  | nil =>
    rw [hlist] at hsides
    rw [Framing.terminated_eq_nil.1 hsides]
    rfl
  | cons s ss =>
    obtain rfl : ss = [] := by
      have hsingle := hc.single
      rw [hlist, List.length_cons] at hsingle
      exact List.length_eq_zero_iff.1 (by omega)
    rw [hlist] at hsides
    refine Framing.terminated_eq_singleton (comma_not_mem_utf8 (hc.commas s ?_)) hsides
    rw [hlist]
    exact List.mem_singleton_self s

/-! ## The verdict -/

/-- The verdict reads nothing of a state but its constraints. -/
theorem withinConstraints_congr {m m' : MtaState} (h : m'.hashed = m.hashed)
    (action : TradeAction) (n cap : F64) (ro : Bool) :
    WithinConstraints m' action n cap ro ↔ WithinConstraints m action n cap ro := by
  have hsides : m'.allowedSides = m.allowedSides := congrArg HashedConstraints.allowedSides h
  have hscale : m'.maxNotionalScale = m.maxNotionalScale :=
    F64.toBits_injective (congrArg HashedConstraints.maxNotionalScale h)
  unfold WithinConstraints sideAllowed effectiveCap
  rw [hsides, hscale]

/-- **When the policy hash pins the constraints.**  No other constraints are hashed as the same
bytes, and states with the same hash have the same verdicts (as far as SHA-256 does not collide on
them), exactly if there is at most one side, without a comma, and the bytes cannot be cut elsewhere
than at the end of the version.  Among versions without a bar and sides without a comma the bytes
always determine the constraints. -/
theorem policy_hash_pins_iff (c : HashedConstraints) :
    (((∀ c', c'.bytes = c.bytes → c' = c) ∧
        ∀ m m' : MtaState, m.hashed = c → constraintHash m' = constraintHash m →
          Sha256.CollisionFree {x | x ∈ [m'.hashed.bytes, c.bytes]} →
          ∀ action n cap ro, (checkConstraints m' action n cap ro).isOk
            = (checkConstraints m action n cap ro).isOk) ↔ c.Unambiguous) ∧
      ∀ c', c.Plain → c'.Plain → c'.bytes = c.bytes → c' = c := by
  refine ⟨⟨fun h => HashedConstraints.unambiguous_of_pinned h.1,
    fun hc => ⟨fun c' => hc.pinned, ?_⟩⟩, fun c' hc hc' => HashedConstraints.bytes_inj hc hc'⟩
  rintro m m' rfl hhash hfree action n cap ro
  have hbytes : m'.hashed.bytes = m.hashed.bytes := by
    rw [constraintHash_eq, constraintHash_eq] at hhash
    exact hfree (by simp) (by simp) (sha256Hex_eq_iff.1 hhash)
  rw [Bool.eq_iff_iff, isOk_checkConstraints, isOk_checkConstraints]
  exact withinConstraints_congr (hc.pinned hbytes) action n cap ro

/-- Two sides and their text with a comma: the same bytes, but only the two sides permit an order
to buy. -/
theorem policy_hash_collision :
    ({ MtaState.sample with allowedSides := ["long", "short"] } : MtaState).hashed.bytes
        = ({ MtaState.sample with allowedSides := ["long,short"] } : MtaState).hashed.bytes ∧
      checkConstraints { MtaState.sample with allowedSides := ["long", "short"] } (.long F64.one)
        F64.one F64.one false = .ok () ∧
      checkConstraints { MtaState.sample with allowedSides := ["long,short"] } (.long F64.one)
        F64.one F64.one false ≠ .ok () := by
  refine ⟨by decide, checkConstraints_ok_iff.2 ⟨Or.inr (by decide), ?_⟩, fun h => ?_⟩
  · rw [← effectiveCap_sample]
    exact le_refl (effectiveCap .sample F64.one)
  · rcases (checkConstraints_ok_iff.1 h).1 with hreduce | hside
    · cases hreduce
    · exact absurd hside (by decide)

end IrlEngine
