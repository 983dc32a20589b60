import IrlEngine.Binding
import IrlEngine.Lib.FloatText

/-!
# Three readings of a trade's side

The side of a trade is read three times: `TradeAction::direction` for the policy,
`binding::resolve_direction` for the side check of a reconciliation, and the sign of
`quantity_delta` for the position ledger.  The first looks for the words `long` and `short`
anywhere in a custom action, the other two only at its beginning.

* `KeywordsPlaced` — the words stand where all three look for them;
* `sides_agree_iff` — the readings agree on exactly the actions of that kind, among them every
  `Long`, `Short` and `Neutral`.
-/

namespace IrlEngine

/-! ## Sides -/

/-- A direction as the side of a trade: an unknown one is neutral. -/
def Direction.side : Direction → String
  | .long => "long"
  | .short => "short"
  | .neutral => "neutral"
  | .unknown => "neutral"

/-- The sign with which a fill in that direction enters the ledger. -/
def Direction.sign : Direction → ℚ
  | .long => 1
  | .short => -1
  | .neutral => 0
  | .unknown => 0

/-- Policy, reconciliation and ledger read the same side off an action. -/
structure SidesAgree (a : TradeAction) : Prop where
  reconciliation : resolveDirection a.display = a.direction.side
  ledger : ∀ fill : ℚ, quantityDelta a.display fill = a.direction.sign * fill

/-- In a lower-cased, trimmed text, `long` and `short` stand where reconciliation and ledger
look for them: at the beginning, or in `open_long` and `close_short`. -/
def KeywordsPlaced (lower : List Char) : Prop :=
  (Text.contains lower "long" = true →
    Text.startsWith lower "long" = true ∨ Text.startsWith lower "buy" = true ∨
      Text.contains lower "open_long" = true) ∧
  (Text.contains lower "short" = true →
    Text.contains lower "long" = true ∨ Text.startsWith lower "buy" = true ∨
      Text.startsWith lower "short" = true ∨ Text.startsWith lower "sell" = true ∨
      Text.contains lower "close_short" = true)

/-- A custom action has its keywords where both readings look for them. -/
def TradeAction.KeywordsPlaced : TradeAction → Prop
  | .custom s => IrlEngine.KeywordsPlaced (Text.trim (Text.toAsciiLowercase s.toList))
  | _ => True

/-! ## Custom actions -/

/-- The direction that reconciliation and ledger read off a text. -/
def storedDirection (action : String) : Direction :=
  let lower := Text.trim (Text.toAsciiLowercase action.toList)
  if isLongText lower then .long else if isShortText lower then .short else .neutral

theorem resolveDirection_eq (action : String) :
    resolveDirection action = (storedDirection action).side := by
  unfold resolveDirection storedDirection
  dsimp only
  split
  · rfl
  · split <;> rfl

theorem quantityDelta_eq (action : String) (fill : ℚ) :
    quantityDelta action fill = (storedDirection action).sign * fill := by
  unfold quantityDelta storedDirection
  dsimp only
  split
  · exact (one_mul fill).symm
  · split
    · exact neg_eq_neg_one_mul fill
    · exact (zero_mul fill).symm

theorem Direction.side_eq_iff {d e : Direction} : d.side = e.side ↔ d.sign = e.sign := by
  cases d <;> cases e <;> simp [Direction.side, Direction.sign] <;> norm_num

/-- The readings agree when the two directions are one side. -/
theorem sidesAgree_iff {a : TradeAction} :
    SidesAgree a ↔ (storedDirection a.display).side = a.direction.side := by
  constructor
  · intro h
    rw [← resolveDirection_eq]
    exact h.reconciliation
  · intro h
    refine ⟨by rw [resolveDirection_eq, h], fun fill => ?_⟩
    rw [quantityDelta_eq, Direction.side_eq_iff.1 h]

section Custom

variable {lower : List Char}

/-- The whole-word keywords contain neither `long` nor `short`. -/
theorem not_contains_of_isText {t : String} (h : Text.isText lower t = true)
    (ht : t ∈ ["open", "close", "exit", "reverse"]) :
    Text.contains lower "long" = false ∧ Text.contains lower "short" = false := by
  rw [Text.eq_of_isText h]
  simp only [List.mem_cons, List.not_mem_nil, or_false] at ht
  rcases ht with rfl | rfl | rfl | rfl <;> decide

theorem contains_long_of_open_long (h : Text.contains lower "open_long" = true) :
    Text.contains lower "long" = true :=
  Text.contains_of_infix (by decide) h

theorem contains_short_of_close_short (h : Text.contains lower "close_short" = true) :
    Text.contains lower "short" = true :=
  Text.contains_of_infix (by decide) h

/-- A text that reconciliation takes as long contains `long`, or starts with `buy`, or is `open`. -/
theorem isLongText_cases (h : isLongText lower = true) : Text.contains lower "long" = true ∨
    Text.startsWith lower "buy" = true ∨ Text.isText lower "open" = true := by
  simp only [isLongText, Bool.or_eq_true] at h
  rcases h with ((h | h) | h) | h
  · exact Or.inl (Text.contains_of_startsWith h)
  · exact Or.inr (Or.inl h)
  · exact Or.inl (contains_long_of_open_long h)
  · exact Or.inr (Or.inr h)

/-- The long keywords of the policy: those of reconciliation, and `long` anywhere. -/
theorem policyLong_iff :
    (Text.contains lower "long" || Text.startsWith lower "buy" || Text.isText lower "open"
      || Text.contains lower "open_long") = true ↔
      isLongText lower = true ∨ Text.contains lower "long" = true := by
  simp only [isLongText, Bool.or_eq_true]
  constructor
  · rintro (((h | h) | h) | h)
    · exact Or.inr h
    · exact Or.inl (Or.inl (Or.inl (Or.inr h)))
    · exact Or.inl (Or.inr h)
    · exact Or.inr (contains_long_of_open_long h)
  · rintro ((((h | h) | h) | h) | h)
    · exact Or.inl (Or.inl (Or.inl (Text.contains_of_startsWith h)))
    · exact Or.inl (Or.inl (Or.inr h))
    · exact Or.inr h
    · exact Or.inl (Or.inr h)
    · exact Or.inl (Or.inl (Or.inl h))

/-- The short keywords of the policy: those of reconciliation, and `short` anywhere. -/
theorem policyShort_iff :
    (Text.contains lower "short" || Text.startsWith lower "sell" || Text.isText lower "close"
      || Text.isText lower "exit" || Text.isText lower "reverse"
      || Text.contains lower "close_short") = true ↔
      isShortText lower = true ∨ Text.contains lower "short" = true := by
  simp only [isShortText, Bool.or_eq_true]
  constructor
  · rintro (((((h | h) | h) | h) | h) | h)
    · exact Or.inr h
    · exact Or.inl (Or.inl (Or.inl (Or.inl (Or.inl (Or.inr h)))))
    · exact Or.inl (Or.inl (Or.inl (Or.inr h)))
    · exact Or.inl (Or.inl (Or.inr h))
    · exact Or.inl (Or.inr h)
    · exact Or.inr (contains_short_of_close_short h)
  · rintro ((((((h | h) | h) | h) | h) | h) | h)
    · exact Or.inl (Or.inl (Or.inl (Or.inl (Or.inl (Text.contains_of_startsWith h)))))
    · exact Or.inl (Or.inl (Or.inl (Or.inl (Or.inr h))))
    · exact Or.inr h
    · exact Or.inl (Or.inl (Or.inl (Or.inr h)))
    · exact Or.inl (Or.inl (Or.inr h))
    · exact Or.inl (Or.inr h)
    · exact Or.inl (Or.inl (Or.inl (Or.inl (Or.inl h))))

/-- `long` is in its place when the text is long for reconciliation too. -/
theorem long_placed_iff (h : Text.contains lower "long" = true) :
    isLongText lower = true ↔ Text.startsWith lower "long" = true ∨
      Text.startsWith lower "buy" = true ∨ Text.contains lower "open_long" = true := by
  have hopen : Text.isText lower "open" ≠ true := by
    intro ho
    rw [(not_contains_of_isText ho (by simp)).1] at h
    exact absurd h Bool.false_ne_true
  simp only [isLongText, Bool.or_eq_true]
  rw [or_iff_left hopen, or_assoc]

theorem short_placed_iff (h : Text.contains lower "short" = true) :
    isShortText lower = true ↔ Text.startsWith lower "short" = true ∨
      Text.startsWith lower "sell" = true ∨ Text.contains lower "close_short" = true := by
  have hword : ∀ t ∈ ["open", "close", "exit", "reverse"], Text.isText lower t ≠ true := by
    intro t ht hw
    rw [(not_contains_of_isText hw ht).2] at h
    exact absurd h Bool.false_ne_true
  have hclose := hword "close" (by simp)
  have hexit := hword "exit" (by simp)
  have hreverse := hword "reverse" (by simp)
  simp only [isShortText, Bool.or_eq_true]
  rw [or_iff_left hreverse, or_iff_left hexit, or_iff_left hclose, or_assoc]
/-- Where the three readings of a custom action agree. -/
theorem customDirection_side_iff :
    (if isLongText lower then Direction.long else if isShortText lower then .short
        else .neutral).side
      = (if Text.contains lower "long" || Text.startsWith lower "buy" || Text.isText lower "open"
            || Text.contains lower "open_long" then Direction.long
          else if Text.contains lower "short" || Text.startsWith lower "sell"
            || Text.isText lower "close" || Text.isText lower "exit" || Text.isText lower "reverse"
            || Text.contains lower "close_short" then .short
          else if Text.isText lower "neutral" || Text.isText lower "flat"
            || Text.isText lower "cancel" || Text.isText lower "hold" then .neutral
          else .unknown).side ↔
      KeywordsPlaced lower := by
  simp only [policyLong_iff, policyShort_iff]
  by_cases hlong : isLongText lower = true
  · -- long for reconciliation, hence for the policy
    rw [if_pos hlong, if_pos (Or.inl hlong)]
    refine iff_of_true rfl ⟨fun h => (long_placed_iff h).1 hlong, fun hshort => ?_⟩
    rcases isLongText_cases hlong with h | h | h
    · exact Or.inl h
    · exact Or.inr (Or.inl h)
    · rw [(not_contains_of_isText h (by simp)).2] at hshort
      exact absurd hshort Bool.false_ne_true
  · rw [if_neg hlong]
    by_cases hword : Text.contains lower "long" = true
    · -- `long` stands where only the policy looks
      rw [if_pos (Or.inr hword)]
      refine iff_of_false ?_ fun h => hlong ((long_placed_iff hword).2 (h.1 hword))
      split <;> decide
    · rw [if_neg (not_or.2 ⟨hlong, hword⟩)]
      have hbuy : Text.startsWith lower "buy" ≠ true := by
        intro h
        exact hlong (by simp [isLongText, h])
      by_cases hshort : isShortText lower = true
      · rw [if_pos hshort, if_pos (Or.inl hshort)]
        refine iff_of_true rfl ⟨fun h => absurd h hword, fun h => ?_⟩
        exact Or.inr (Or.inr ((short_placed_iff h).1 hshort))
      · rw [if_neg hshort]
        by_cases hcontains : Text.contains lower "short" = true
        · -- `short` stands where only the policy looks
          rw [if_pos (Or.inr hcontains)]
          refine iff_of_false (by decide) fun h => ?_
          rcases h.2 hcontains with h | h | h
          · exact hword h
          · exact hbuy h
          · exact hshort ((short_placed_iff hcontains).2 h)
        · rw [if_neg (not_or.2 ⟨hshort, hcontains⟩)]
          refine iff_of_true ?_ ⟨fun h => absurd h hword, fun h => absurd h hcontains⟩
          split <;> rfl

end Custom

/-! ## All actions -/

section Named

variable {name : String} {c : Char} {cs : List Char} (f : F64)

/-- The text of a named action with its size, lower-cased: trimming changes nothing. -/
theorem lower_named (hname : name.toList = c :: cs) (hc : Text.isWhitespace c.toLower = false) :
    Text.trim (Text.toAsciiLowercase (name ++ f.display ++ ")").toList)
      = (c :: cs).map Char.toLower ++ (f.display.toList.map Char.toLower ++ [')']) := by
  have hclose : (")" : String).toList.map Char.toLower = [')'] := by decide
  have hlower : Text.toAsciiLowercase (name ++ f.display ++ ")").toList
      = c.toLower :: (cs.map Char.toLower ++ f.display.toList.map Char.toLower ++ [')']) := by
    unfold Text.toAsciiLowercase
    rw [String.toList_append, String.toList_append, List.map_append, List.map_append, hclose,
      hname]
    rfl
  rw [hlower, Text.trim_eq_self hc (by decide)]
  simp

/-- No keyword with an underscore stands in the text of a named action. -/
theorem contains_underscore_named {pat : String} (hpat : '_' ∈ pat.toList)
    (hname : '_' ∉ (c :: cs).map Char.toLower) :
    Text.contains ((c :: cs).map Char.toLower ++ (f.display.toList.map Char.toLower ++ [')'])) pat
      = false := by
  rw [← Bool.not_eq_true]
  intro h
  unfold Text.contains at h
  rw [decide_eq_true_eq] at h
  rcases List.mem_append.1 (h.subset hpat) with hmem | hmem
  · exact hname hmem
  · rcases List.mem_append.1 hmem with hmem | hmem
    · obtain ⟨d, hd, hlower⟩ := List.mem_map.1 hmem
      rcases F64.mem_display hd with hdigit | rfl | rfl
      · have hsame : d.toLower = d := by
          unfold Char.toLower
          unfold Char.isDigit at hdigit
          simp only [Bool.and_eq_true, decide_eq_true_eq] at hdigit
          rw [dif_neg]
          intro hup
          have hle := UInt32.le_trans hup.1 hdigit.2
          exact absurd hle (by decide)
        rw [hsame] at hlower
        rw [hlower] at hdigit
        exact absurd hdigit (by decide)
      · exact absurd hlower (by decide)
      · exact absurd hlower (by decide)
    · exact absurd hmem (by decide)

/-- The name of the side is at the beginning. -/
theorem startsWith_named {pat : String} (hpat : pat.toList <+: (c :: cs).map Char.toLower) :
    Text.startsWith ((c :: cs).map Char.toLower ++ (f.display.toList.map Char.toLower ++ [')'])) pat
      = true := by
  unfold Text.startsWith
  rw [List.isPrefixOf_iff_prefix]
  exact hpat.trans (List.prefix_append _ _)

theorem storedDirection_long : storedDirection (TradeAction.long f).display = .long := by
  have hlower := lower_named f (by decide : "Long(".toList = 'L' :: "ong(".toList) (by decide)
  unfold storedDirection TradeAction.display
  dsimp only
  rw [hlower, if_pos]
  unfold isLongText
  rw [startsWith_named f (by decide)]
  rfl

theorem storedDirection_short : storedDirection (TradeAction.short f).display = .short := by
  have hlower := lower_named f (by decide : "Short(".toList = 'S' :: "hort(".toList) (by decide)
  unfold storedDirection TradeAction.display
  dsimp only
  rw [hlower, if_neg, if_pos]
  · unfold isShortText
    rw [startsWith_named f (by decide)]
    rfl
  · unfold isLongText
    rw [contains_underscore_named f (by decide) (by decide), Bool.or_false]
    have hs : ∀ {x y : List Char}, 's' :: x ≠ 'o' :: y :=
      fun h => absurd (List.cons.inj h).1 (by decide)
    intro h
    simp only [Bool.or_eq_true] at h
    rcases h with (h | h) | h
    · exact absurd h Bool.false_ne_true
    · exact absurd h Bool.false_ne_true
    · exact hs (Text.eq_of_isText h)

end Named

/-- **The three readings of a side agree exactly where the keywords stand in their places.** -/
theorem sides_agree_iff (a : TradeAction) : SidesAgree a ↔ a.KeywordsPlaced := by
  rw [sidesAgree_iff]
  cases a with
  | long f =>
    rw [storedDirection_long]
    exact iff_of_true rfl trivial
  | short f =>
    rw [storedDirection_short]
    exact iff_of_true rfl trivial
  | neutral => exact iff_of_true (by decide) trivial
  | custom s => exact customDirection_side_iff

/-- The policy takes a recommended text as long, reconciliation and ledger as neutral. -/
theorem open_long_disagrees :
    (TradeAction.custom "Open Long").direction = .long ∧
      resolveDirection (TradeAction.custom "Open Long").display = "neutral" ∧
      quantityDelta (TradeAction.custom "Open Long").display 1 = 0 ∧
      ¬ SidesAgree (.custom "Open Long") := by
  refine ⟨by decide, by decide, by decide +kernel, ?_⟩
  intro h
  exact absurd h.reconciliation (by decide)

end IrlEngine
