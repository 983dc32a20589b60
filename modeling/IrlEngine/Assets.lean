import IrlEngine.Binding

/-!
# Asset aliases

`asset.rs`: the alias map is read from one string of pairs, a later pair replaces an earlier one of
the same alias, and `canonicalize` looks an asset up once.  Whether an alias matches its canonical
form therefore depends on the other pairs.

* `lookup_initAliases` — the last pair of an alias counts;
* `aliases_match_iff` — the configurations in which every pair matches.
-/

namespace IrlEngine

/-! ## The configuration -/

/-- `pair.splitn(2, '|')`, if there are two parts, both trimmed. -/
def splitPair (pair : List Char) : Option (String × String) :=
  match pair.dropWhile (· ≠ '|') with
  | [] => none
  | _ :: canonical =>
    some (String.ofList (Text.trim (pair.takeWhile (· ≠ '|'))), String.ofList (Text.trim canonical))

/-- The well-formed pairs of `ASSET_ALIAS_MAP`, alias first. -/
def aliasPairs (raw : String) : List (String × String) :=
  (raw.toList.splitOn ',').filterMap splitPair

/-- `HashMap::insert`. -/
def insertAlias (aliases : List (String × String)) (pair : String × String) :
    List (String × String) :=
  pair :: aliases.filter fun q => q.1 ≠ pair.1

/-- `asset::init`. -/
def initAliases (raw : String) : List (String × String) := (aliasPairs raw).foldl insertAlias []

/-- The canonical form in the last pair of an alias. -/
def lastCanonical (pairs : List (String × String)) (asset : String) : Option String :=
  pairs.reverse.lookup asset

theorem lookup_filter_ne {aliases : List (String × String)} {x y : String} (h : x ≠ y) :
    (aliases.filter fun q => q.1 ≠ y).lookup x = aliases.lookup x := by
  induction aliases with
  | nil => rfl
  | cons p ps ih =>
    by_cases hp : p.1 = y
    · have hx : (x == p.1) = false := by simpa [hp] using h
      rw [List.filter_cons_of_neg (by simpa using hp), ih, List.lookup_cons, hx]
    · rw [List.filter_cons_of_pos (by simpa using hp), List.lookup_cons, List.lookup_cons, ih]

theorem lookup_insertAlias (aliases : List (String × String)) (pair : String × String)
    (x : String) :
    (insertAlias aliases pair).lookup x = (pair :: aliases).lookup x := by
  unfold insertAlias
  rw [List.lookup_cons, List.lookup_cons]
  by_cases h : x = pair.1
  · simp [h]
  · have hx : (x == pair.1) = false := by simpa using h
    rw [hx, lookup_filter_ne h]

/-- The last pair of an alias counts. -/
theorem lookup_initAliases (raw : String) (x : String) :
    (initAliases raw).lookup x = lastCanonical (aliasPairs raw) x := by
  unfold initAliases lastCanonical
  induction aliasPairs raw using List.reverseRecOn with
  | nil => rfl
  | append_singleton pairs pair ih =>
    rw [List.foldl_append, List.foldl_cons, List.foldl_nil, lookup_insertAlias,
      List.reverse_append, List.reverse_singleton, List.singleton_append, List.lookup_cons,
      List.lookup_cons, ih]

theorem canonicalize_initAliases (raw : String) (x : String) :
    canonicalize (initAliases raw) x = (lastCanonical (aliasPairs raw) x).getD x := by
  rw [canonicalize, lookup_initAliases]

/-- The assets with a canonical form are the aliases of the pairs. -/
theorem exists_lastCanonical_iff {pairs : List (String × String)} {x : String} :
    (∃ c, lastCanonical pairs x = some c) ↔ ∃ p ∈ pairs, p.1 = x := by
  unfold lastCanonical
  rw [← Option.isSome_iff_exists, List.lookup_isSome_iff]
  simp only [List.mem_reverse, beq_iff_eq, eq_comm (a := x)]

/-! ## Flat configurations -/

/-- A canonical form that counts is not an alias, except of itself; and every pair has its alias for
canonical form, or the one that counts, or another alias with the same canonical form. -/
structure FlatAliases (pairs : List (String × String)) : Prop where
  settled : ∀ p ∈ pairs, ∀ c, lastCanonical pairs p.1 = some c →
    lastCanonical pairs c = none ∨ lastCanonical pairs c = some c
  overridden : ∀ p ∈ pairs, p.2 = p.1 ∨ lastCanonical pairs p.1 = some p.2 ∨
    lastCanonical pairs p.2 = lastCanonical pairs p.1

/-- A form that counts is its own canonical form. -/
theorem getD_lastCanonical_iff {pairs : List (String × String)} {c : String} :
    (lastCanonical pairs c).getD c = c ↔
      lastCanonical pairs c = none ∨ lastCanonical pairs c = some c := by
  cases h : lastCanonical pairs c with
  | none => simp
  | some d => simp

theorem idempotent_iff {raw : String} :
    (∀ x, canonicalize (initAliases raw) (canonicalize (initAliases raw) x)
        = canonicalize (initAliases raw) x) ↔
      ∀ p ∈ aliasPairs raw, ∀ c, lastCanonical (aliasPairs raw) p.1 = some c →
        lastCanonical (aliasPairs raw) c = none ∨ lastCanonical (aliasPairs raw) c = some c := by
  simp only [canonicalize_initAliases]
  constructor
  · intro h p _ c hc
    have hp := h p.1
    rw [hc, Option.getD_some] at hp
    exact getD_lastCanonical_iff.1 hp
  · intro h x
    cases hx : lastCanonical (aliasPairs raw) x with
    | none => rw [Option.getD_none, hx, Option.getD_none]
    | some c =>
      obtain ⟨p, hp, rfl⟩ := exists_lastCanonical_iff.1 ⟨c, hx⟩
      exact getD_lastCanonical_iff.2 (h p hp c hx)

theorem assetsMatch_iff {aliases : List (String × String)} {a b : String} :
    assetsMatch aliases a b = true ↔ a = b ∨ canonicalize aliases a = canonicalize aliases b := by
  simp [assetsMatch]

theorem assetsMatch_comm (aliases : List (String × String)) (a b : String) :
    assetsMatch aliases a b = assetsMatch aliases b a := by
  rw [Bool.eq_iff_iff, assetsMatch_iff, assetsMatch_iff, eq_comm, eq_comm (a := canonicalize _ a)]

/-- Once every form that counts is settled, the pairs match that are not overridden, or
harmlessly. -/
theorem pair_matches_iff {raw : String} (hsettled : ∀ p ∈ aliasPairs raw, ∀ c,
      lastCanonical (aliasPairs raw) p.1 = some c →
      lastCanonical (aliasPairs raw) c = none ∨ lastCanonical (aliasPairs raw) c = some c)
    {p : String × String} (hp : p ∈ aliasPairs raw) :
    assetsMatch (initAliases raw) p.1 p.2 = true ↔
      p.2 = p.1 ∨ lastCanonical (aliasPairs raw) p.1 = some p.2 ∨
        lastCanonical (aliasPairs raw) p.2 = lastCanonical (aliasPairs raw) p.1 := by
  rw [assetsMatch_iff, canonicalize_initAliases, canonicalize_initAliases, eq_comm (a := p.1)]
  refine or_congr_right ?_
  obtain ⟨c, hc⟩ := exists_lastCanonical_iff.2 ⟨p, hp, rfl⟩
  rw [hc, Option.getD_some, Option.some.injEq]
  constructor
  · intro h
    cases hform : lastCanonical (aliasPairs raw) p.2 with
    | none =>
      rw [hform, Option.getD_none] at h
      exact Or.inl h
    | some d =>
      rw [hform, Option.getD_some] at h
      exact Or.inr (by rw [h])
  · rintro (hform | hform)
    · rw [← hform]
      exact (getD_lastCanonical_iff.2 (hsettled p hp c hc)).symm
    · rw [hform, Option.getD_some]

/-! ## What reconciliation reports -/

/-- The message of the asset check. -/
def assetMismatch (authorized executed : String) : String :=
  "Asset mismatch: authorized " ++ authorized ++ ", executed " ++ executed

theorem head?_append_text {s : String} {c : Char} (h : s.toList.head? = some c) (t : String) :
    (s ++ t).toList.head? = some c := by
  rw [String.toList_append, List.head?_append, h]
  rfl

/-- The first letter tells the messages apart. -/
theorem divergence_ne_assetMismatch {cfg : Config} {aliases : List (String × String)}
    {req : BindExecutionRequest} {intent : BindIntent}
    (h : ∀ executed, req.asset = some executed → assetsMatch aliases executed intent.asset = true)
    (authorized executed : String) :
    divergence cfg aliases req intent ≠ some (assetMismatch authorized executed) := by
  intro hdiv
  have hfirst : (assetMismatch authorized executed).toList.head? = some 'A' :=
    head?_append_text (head?_append_text (head?_append_text rfl _) _) _
  simp only [divergence, Option.or_eq_some_iff, Option.bind_eq_some_iff] at hdiv
  rcases hdiv with ⟨a, ha, hmessage⟩ | ⟨-, hrest⟩
  · rw [if_pos (h a ha)] at hmessage
    cases hmessage
  · rcases hrest with ⟨side, -, hmessage⟩ | ⟨-, quantity, -, hmessage⟩
    · split at hmessage
      · cases hmessage
      · rw [← Option.some.inj hmessage, head?_append_text (c := 'S')
          (head?_append_text (head?_append_text rfl _) _) _] at hfirst
        exact absurd hfirst (by decide)
    · split at hmessage
      · rw [← Option.some.inj hmessage, head?_append_text (c := 'Q') (head?_append_text
          (head?_append_text (head?_append_text (head?_append_text rfl _) _) _) _) _] at hfirst
        exact absurd hfirst (by decide)
      · cases hmessage

/-- Neither the alias nor the canonical form is reported as a mismatch for the other. -/
def NeverMismatched (aliases : List (String × String)) (p : String × String) : Prop :=
  ∀ (cfg : Config) (req : BindExecutionRequest) (intent : BindIntent) (now : DateTime),
    (req.asset = some p.1 ∧ intent.asset = p.2 ∨ req.asset = some p.2 ∧ intent.asset = p.1) →
    ∀ authorized executed, (reconcile cfg aliases req intent now).divergenceReason
      ≠ some (assetMismatch authorized executed)

theorem neverMismatched_of_match {aliases : List (String × String)} {p : String × String}
    (h : assetsMatch aliases p.1 p.2 = true) : NeverMismatched aliases p := by
  rintro cfg req intent now hassets
  refine divergence_ne_assetMismatch fun executed hexecuted => ?_
  rcases hassets with ⟨hreq, hintent⟩ | ⟨hreq, hintent⟩
  · rw [hreq, Option.some.injEq] at hexecuted
    rw [← hexecuted, hintent]
    exact h
  · rw [hreq, Option.some.injEq] at hexecuted
    rw [← hexecuted, hintent, assetsMatch_comm]
    exact h

/-- **When aliases match their canonical form.**  Every pair of the configuration matches, looking
up twice is looking up once, and no spelling of a pair is reported as a mismatch for the other,
exactly if the configuration is flat. -/
theorem aliases_match_iff (raw : String) :
    ((∀ p ∈ aliasPairs raw, assetsMatch (initAliases raw) p.1 p.2 = true) ∧
      (∀ x, canonicalize (initAliases raw) (canonicalize (initAliases raw) x)
        = canonicalize (initAliases raw) x) ∧
      ∀ p ∈ aliasPairs raw, NeverMismatched (initAliases raw) p) ↔
    FlatAliases (aliasPairs raw) := by
  constructor
  · rintro ⟨hmatch, hidem, -⟩
    have hsettled := idempotent_iff.1 hidem
    exact ⟨hsettled, fun p hp => (pair_matches_iff hsettled hp).1 (hmatch p hp)⟩
  · rintro ⟨hsettled, hoverridden⟩
    have hmatch : ∀ p ∈ aliasPairs raw, assetsMatch (initAliases raw) p.1 p.2 = true :=
      fun p hp => (pair_matches_iff hsettled hp).2 (hoverridden p hp)
    exact ⟨hmatch, idempotent_iff.2 hsettled, fun p hp => neverMismatched_of_match (hmatch p hp)⟩

/-- A chain: the canonical form of the first pair is the alias of the second. -/
theorem alias_chain_mismatch :
    ("BTCUSDT", "BTC-PERP") ∈ aliasPairs "BTCUSDT|BTC-PERP,BTC-PERP|XBT" ∧
      assetsMatch (initAliases "BTCUSDT|BTC-PERP,BTC-PERP|XBT") "BTCUSDT" "BTC-PERP" = false ∧
      canonicalize (initAliases "BTCUSDT|BTC-PERP,BTC-PERP|XBT")
        (canonicalize (initAliases "BTCUSDT|BTC-PERP,BTC-PERP|XBT") "BTCUSDT")
          ≠ canonicalize (initAliases "BTCUSDT|BTC-PERP,BTC-PERP|XBT") "BTCUSDT" := by
  decide

end IrlEngine
