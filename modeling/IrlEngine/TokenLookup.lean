import IrlEngine.TokenCache

/-!
# Lookups of active tokens

Between the clear of a refresh and the insert of a token the cache does not have it, and a
refresh that has read before a token was issued clears it away until the next one.  Apart from
these two a lookup finds every active token.

* `Settled` — the `token_issue` of the token, or a startup that has read it, has returned;
* `Covered` — the invariant: an active token that a refresh has cleared for is in the cache, or
  some refresh is still to insert it;
* `active_tokens_accepted` — lookups of settled tokens outside a refill, in runs in which no
  refresh clears the cache for an older read.
-/

namespace IrlEngine

/-! ## What a refresh has done -/

/-- The hashes that a refresh has read. -/
def CachePhase.rows? : CachePhase → Option (List String)
  | .read rows => some rows
  | .filling rows _ => some rows
  | .returned rows => some rows
  | _ => none

/-- The hashes that a refresh has cleared the cache for. -/
def CacheJob.cleared (job : CacheJob) : List String :=
  match job.phase with
  | .filling rows _ => rows
  | .returned rows => rows
  | _ => []

/-- The hashes that it is still to insert after its clear. -/
def CacheJob.outstanding (job : CacheJob) : List String :=
  match job.phase with
  | .filling _ rest => rest
  | _ => []

/-- The call that put the token into the table has returned, or a startup that has read it. -/
def Settled (s : CacheState) (hash : String) : Prop :=
  ∃ job ∈ s.jobs, ∃ rows, job.phase = .returned rows ∧
    (job.call = .issue hash ∨ job.call = .startup ∧ hash ∈ rows)

/-- A refresh clears the cache only if it has read every active token that some refresh has
cleared for, or another refresh is still to insert it. -/
def ClearsFresh (s : CacheState) : CacheEvent → Prop
  | .clear k => ∀ call rows, s.jobs[k]? = some ⟨call, .read rows⟩ →
    ∀ hash ∈ activeHashes s.tokens, (∃ job ∈ s.jobs, hash ∈ job.cleared) →
      hash ∈ rows ∨ ∃ job ∈ s.jobs, hash ∈ job.outstanding
  | _ => True

theorem CacheJob.rows?_of_cleared {job : CacheJob} {hash : String} (h : hash ∈ job.cleared) :
    job.phase.rows? = some job.cleared := by
  unfold cleared at h ⊢
  cases hphase : job.phase with
  | filling rows rest => rfl
  | returned rows => rfl
  | found => rw [hphase] at h; exact absurd h List.not_mem_nil
  | written => rw [hphase] at h; exact absurd h List.not_mem_nil
  | failed => rw [hphase] at h; exact absurd h List.not_mem_nil
  | read rows => rw [hphase] at h; exact absurd h List.not_mem_nil

theorem CachePhase.rows?_of_early {phase : CachePhase} (h : phase.isEarly = true) :
    phase.rows? = none := by
  cases phase with
  | found => rfl
  | written => rfl
  | failed => rfl
  | read rows => cases h
  | filling rows rest => cases h
  | returned rows => cases h

theorem CacheJob.cleared_of_early {job : CacheJob} (h : job.phase.isEarly = true) :
    job.cleared = [] := by
  unfold cleared
  cases hphase : job.phase with
  | filling rows rest => rw [hphase] at h; cases h
  | returned rows => rw [hphase] at h; cases h
  | _ => rfl

theorem CacheJob.outstanding_of_early {job : CacheJob} (h : job.phase.isEarly = true) :
    job.outstanding = [] := by
  unfold outstanding
  cases hphase : job.phase with
  | filling rows rest => rw [hphase] at h; cases h
  | _ => rfl

/-! ## The invariant -/

section Change

variable {s s' : CacheState} {e : CacheEvent} {hash : String}

theorem mem_hashes_of_change (h : CacheChange s e s')
    (hknown : hash ∈ s.tokens.map fun r => r.tokenHash) :
    hash ∈ s'.tokens.map fun r => r.tokenHash := by
  rcases tokens_of_change h with ht | ⟨st, ht⟩
  · exact ht ▸ hknown
  · exact ht ▸ mem_hashes_exec st hknown

theorem active_of_change (h : CacheChange s e s') (hactive : hash ∈ activeHashes s'.tokens)
    (hknown : hash ∈ s.tokens.map fun r => r.tokenHash) : hash ∈ activeHashes s.tokens := by
  rcases tokens_of_change h with ht | ⟨st, ht⟩
  · exact ht ▸ hactive
  · rw [ht] at hactive
    exact active_of_exec hactive hknown

/-- What a refresh has read: as before the step, or the active tokens in it. -/
theorem rows_of_change (h : CacheChange s e s') {job : CacheJob} (hjob : job ∈ s'.jobs)
    {rows : List String} (hrows : job.phase.rows? = some rows) :
    (∃ job₀ ∈ s.jobs, job₀.call = job.call ∧ job₀.phase.rows? = some rows) ∨
      rows = activeHashes s.tokens ∧ ∃ phase, ⟨job.call, phase⟩ ∈ s.jobs := by
  have hkeep : job ∈ s.jobs →
      ∃ job₀ ∈ s.jobs, job₀.call = job.call ∧ job₀.phase.rows? = some rows :=
    fun hmem => ⟨job, hmem, rfl, hrows⟩
  have hearly : job.phase.isEarly = true → False := by
    intro hphase
    rw [CachePhase.rows?_of_early hphase] at hrows
    cases hrows
  cases h with
  | write _ t new _ hnew _ _ =>
    rcases List.mem_append.1 hjob with hmem | hmem
    · exact Or.inl (hkeep hmem)
    · exact (hearly (hnew job hmem)).elim
  | update k hash hk =>
    rcases List.mem_or_eq_of_mem_set hjob with hmem | rfl
    · exact Or.inl (hkeep hmem)
    · exact (hearly rfl).elim
  | read k call hk =>
    rcases List.mem_or_eq_of_mem_set hjob with hmem | rfl
    · exact Or.inl (hkeep hmem)
    · exact Or.inr ⟨(Option.some.inj hrows).symm, .written, List.mem_of_getElem? hk⟩
  | clear k call rows' hk =>
    rcases List.mem_or_eq_of_mem_set hjob with hmem | rfl
    · exact Or.inl (hkeep hmem)
    · exact Or.inl ⟨_, List.mem_of_getElem? hk, rfl, hrows⟩
  | insert k call rows' rest hash hk =>
    rcases List.mem_or_eq_of_mem_set hjob with hmem | rfl
    · exact Or.inl (hkeep hmem)
    · exact Or.inl ⟨_, List.mem_of_getElem? hk, rfl, hrows⟩
  | finish k call rows' hk =>
    rcases List.mem_or_eq_of_mem_set hjob with hmem | rfl
    · exact Or.inl (hkeep hmem)
    · exact Or.inl ⟨_, List.mem_of_getElem? hk, rfl, hrows⟩
  | fail k call phase hk _ =>
    rcases List.mem_or_eq_of_mem_set hjob with hmem | rfl
    · exact Or.inl (hkeep hmem)
    · exact (hearly rfl).elim
  | restart => exact absurd hjob List.not_mem_nil

/-- A call of `token_issue` was there before the step, or has just inserted its row. -/
theorem issue_of_change (h : CacheChange s e s') {phase : CachePhase}
    (hjob : ⟨.issue hash, phase⟩ ∈ s'.jobs) :
    (∃ phase', ⟨.issue hash, phase'⟩ ∈ s.jobs) ∨ hash ∈ s'.tokens.map fun r => r.tokenHash := by
  have hset : ∀ {k : ℕ} {call : CacheCall} {phase₀ phase₁ : CachePhase},
      s.jobs[k]? = some ⟨call, phase₀⟩ → ⟨.issue hash, phase⟩ ∈ s.jobs.set k ⟨call, phase₁⟩ →
      ∃ phase', ⟨.issue hash, phase'⟩ ∈ s.jobs := by
    intro k call phase₀ phase₁ hk hmem
    rcases List.mem_or_eq_of_mem_set hmem with hmem | heq
    · exact ⟨phase, hmem⟩
    · obtain ⟨rfl, -⟩ := CacheJob.mk.inj heq
      exact ⟨phase₀, List.mem_of_getElem? hk⟩
  cases h with
  | write _ t new _ _ hissue _ =>
    rcases List.mem_append.1 hjob with hmem | hmem
    · exact Or.inl ⟨phase, hmem⟩
    · exact Or.inr (hissue hash phase hmem)
  | update k hash' hk => exact Or.inl (hset hk hjob)
  | read k call hk => exact Or.inl (hset hk hjob)
  | clear k call rows hk => exact Or.inl (hset hk hjob)
  | insert k call rows rest hash' hk => exact Or.inl (hset hk hjob)
  | finish k call rows hk => exact Or.inl (hset hk hjob)
  | fail k call phase' hk _ => exact Or.inl (hset hk hjob)
  | restart => exact absurd hjob List.not_mem_nil

end Change

/-- The invariant behind `active_tokens_accepted`. -/
structure Covered (s : CacheState) : Prop where
  /-- What a refresh has read has a row. -/
  known : ∀ job ∈ s.jobs, ∀ rows, job.phase.rows? = some rows → ∀ hash ∈ rows,
    hash ∈ s.tokens.map fun r => r.tokenHash
  /-- A token that is being issued has a row. -/
  issued : ∀ hash phase, ⟨.issue hash, phase⟩ ∈ s.jobs → hash ∈ s.tokens.map fun r => r.tokenHash
  /-- The refresh of its issue has read it, unless it is revoked again. -/
  issueRead : ∀ hash phase rows, ⟨.issue hash, phase⟩ ∈ s.jobs → phase.rows? = some rows →
    hash ∈ activeHashes s.tokens → hash ∈ rows
  /-- What a refresh has cleared for is there, or comes. -/
  cached : ∀ hash ∈ activeHashes s.tokens, (∃ job ∈ s.jobs, hash ∈ job.cleared) →
    hash ∈ s.cache ∨ ∃ job ∈ s.jobs, hash ∈ job.outstanding

theorem covered_init (t : List TokenRow) : Covered (.init t) where
  known job hjob := absurd hjob List.not_mem_nil
  issued hash phase hjob := absurd hjob List.not_mem_nil
  issueRead hash phase rows hjob := absurd hjob List.not_mem_nil
  cached hash _ hjob := by
    obtain ⟨job, hmem, -⟩ := hjob
    exact absurd hmem List.not_mem_nil

section Step

variable {s s' : CacheState} {e : CacheEvent}

theorem Covered.known_step (hs : Covered s) (h : CacheChange s e s') {job : CacheJob}
    (hjob : job ∈ s'.jobs) {rows : List String} (hrows : job.phase.rows? = some rows)
    {hash : String} (hhash : hash ∈ rows) : hash ∈ s.tokens.map fun r => r.tokenHash := by
  rcases rows_of_change h hjob hrows with ⟨job₀, hjob₀, -, hrows₀⟩ | ⟨rfl, -⟩
  · exact hs.known job₀ hjob₀ rows hrows₀ hash hhash
  · exact mem_hashes_of_active hhash

theorem Covered.issueRead_step (hs : Covered s) (h : CacheChange s e s') {hash : String}
    {phase : CachePhase} {rows : List String} (hjob : ⟨.issue hash, phase⟩ ∈ s'.jobs)
    (hrows : phase.rows? = some rows) (hactive : hash ∈ activeHashes s'.tokens) : hash ∈ rows := by
  rcases rows_of_change h hjob hrows with ⟨⟨call, phase₀⟩, hjob₀, rfl, hrows₀⟩ |
    ⟨rfl, phase₀, hjob₀⟩
  · exact hs.issueRead hash phase₀ rows hjob₀ hrows₀
      (active_of_change h hactive (hs.issued hash phase₀ hjob₀))
  · exact active_of_change h hactive (hs.issued hash phase₀ hjob₀)

/-- A move of a refresh that is to insert nothing, neither before nor after, uncovers nothing. -/
theorem cached_of_set {k : ℕ} {job₀ job₁ : CacheJob} {hash : String} {cache : List String}
    (hcached : (∃ job ∈ s.jobs, hash ∈ job.cleared) →
      hash ∈ cache ∨ ∃ job ∈ s.jobs, hash ∈ job.outstanding)
    (hk : s.jobs[k]? = some job₀) (hclear : hash ∈ job₁.cleared → hash ∈ job₀.cleared)
    (hnone : job₀.outstanding = []) (h : ∃ job ∈ s.jobs.set k job₁, hash ∈ job.cleared) :
    hash ∈ cache ∨ ∃ job ∈ s.jobs.set k job₁, hash ∈ job.outstanding := by
  have hbefore : ∃ job ∈ s.jobs, hash ∈ job.cleared := by
    obtain ⟨job, hjob, hhash⟩ := h
    rcases List.mem_or_eq_of_mem_set hjob with hmem | rfl
    · exact ⟨job, hmem, hhash⟩
    · exact ⟨job₀, List.mem_of_getElem? hk, hclear hhash⟩
  refine (hcached hbefore).imp id ?_
  rintro ⟨job, hjob, hhash⟩
  refine ⟨job, Table.mem_set_of_ne hk hjob ?_, hhash⟩
  rintro rfl
  rw [hnone] at hhash
  exact absurd hhash List.not_mem_nil

theorem Covered.cached_step (hs : Covered s) (hP : ClearsFresh s e) (h : CacheChange s e s')
    {hash : String} (hactive : hash ∈ activeHashes s.tokens)
    (hcleared : ∃ job ∈ s'.jobs, hash ∈ job.cleared) :
    hash ∈ s'.cache ∨ ∃ job ∈ s'.jobs, hash ∈ job.outstanding := by
  have hcached := hs.cached hash hactive
  cases h with
  | write _ t new _ hnew _ _ =>
    obtain ⟨job, hjob, hhash⟩ := hcleared
    rcases List.mem_append.1 hjob with hmem | hmem
    · refine (hcached ⟨job, hmem, hhash⟩).imp id ?_
      rintro ⟨job', hjob', hhash'⟩
      exact ⟨job', List.mem_append_left _ hjob', hhash'⟩
    · rw [CacheJob.cleared_of_early (hnew job hmem)] at hhash
      exact absurd hhash List.not_mem_nil
  | update k hash' hk => exact cached_of_set hcached hk (fun hmem => hmem) rfl hcleared
  | read k call hk => exact cached_of_set hcached hk (fun hmem => hmem) rfl hcleared
  | fail k call phase hk hphase =>
    refine cached_of_set hcached hk (fun hmem => absurd hmem List.not_mem_nil) ?_ hcleared
    exact CacheJob.outstanding_of_early hphase
  | finish k call rows hk => exact cached_of_set hcached hk (fun hmem => hmem) rfl hcleared
  | clear k call rows hk =>
    have hlt : k < s.jobs.length := (List.getElem?_eq_some_iff.1 hk).1
    have hself : (⟨call, .filling rows rows⟩ : CacheJob)
        ∈ s.jobs.set k ⟨call, .filling rows rows⟩ :=
      List.mem_of_getElem? (List.getElem?_set_self hlt)
    -- what was cleared for before is to be inserted by this refresh or by another
    have hother : (∃ job ∈ s.jobs, hash ∈ job.cleared) →
        ∃ job ∈ s.jobs.set k ⟨call, .filling rows rows⟩, hash ∈ job.outstanding := by
      intro hbefore
      rcases hP call rows hk hash hactive hbefore with hrows | ⟨job, hjob, hhash⟩
      · exact ⟨_, hself, hrows⟩
      · refine ⟨job, Table.mem_set_of_ne hk hjob ?_, hhash⟩
        rintro rfl
        exact absurd hhash List.not_mem_nil
    obtain ⟨job, hjob, hhash⟩ := hcleared
    rcases List.mem_or_eq_of_mem_set hjob with hmem | rfl
    · exact Or.inr (hother ⟨job, hmem, hhash⟩)
    · exact Or.inr ⟨_, hself, hhash⟩
  | insert k call rows rest hash' hk =>
    have hlt : k < s.jobs.length := (List.getElem?_eq_some_iff.1 hk).1
    have hself : (⟨call, .filling rows rest⟩ : CacheJob)
        ∈ s.jobs.set k ⟨call, .filling rows rest⟩ :=
      List.mem_of_getElem? (List.getElem?_set_self hlt)
    have hbefore : ∃ job ∈ s.jobs, hash ∈ job.cleared := by
      obtain ⟨job, hjob, hhash⟩ := hcleared
      rcases List.mem_or_eq_of_mem_set hjob with hmem | rfl
      · exact ⟨job, hmem, hhash⟩
      · exact ⟨_, List.mem_of_getElem? hk, hhash⟩
    rcases hcached hbefore with hmem | ⟨job, hjob, hhash⟩
    · exact Or.inl (List.mem_cons_of_mem _ hmem)
    · by_cases hjk : job = ⟨call, .filling rows (hash' :: rest)⟩
      · subst hjk
        rcases List.mem_cons.1 hhash with rfl | hrest
        · exact Or.inl (List.mem_cons_self ..)
        · exact Or.inr ⟨_, hself, hrest⟩
      · exact Or.inr ⟨job, Table.mem_set_of_ne hk hjob hjk, hhash⟩
  | restart =>
    obtain ⟨job, hjob, -⟩ := hcleared
    exact absurd hjob List.not_mem_nil

theorem Covered.step (hs : Covered s) (hP : ClearsFresh s e) (h : cacheStep s e = some s') :
    Covered s' := by
  have hchange := cacheChange_of_step h
  refine ⟨?_, ?_, ?_, ?_⟩
  · intro job hjob rows hrows hash hhash
    exact mem_hashes_of_change hchange (hs.known_step hchange hjob hrows hhash)
  · intro hash phase hjob
    rcases issue_of_change hchange hjob with ⟨phase', hjob'⟩ | hknown
    · exact mem_hashes_of_change hchange (hs.issued hash phase' hjob')
    · exact hknown
  · intro hash phase rows hjob hrows hactive
    exact hs.issueRead_step hchange hjob hrows hactive
  · intro hash hactive hcleared
    obtain ⟨job, hjob, hhash⟩ := hcleared
    have hknown := hs.known_step hchange hjob (CacheJob.rows?_of_cleared hhash) hhash
    exact hs.cached_step hP hchange (active_of_change hchange hactive hknown) ⟨job, hjob, hhash⟩

/-- A settled token that is still active has been cleared for. -/
theorem Covered.cleared_of_settled (hs : Covered s) {hash : String} (hsettled : Settled s hash)
    (hactive : hash ∈ activeHashes s.tokens) : ∃ job ∈ s.jobs, hash ∈ job.cleared := by
  obtain ⟨⟨call, phase⟩, hjob, rows, rfl, hcall⟩ := hsettled
  refine ⟨_, hjob, ?_⟩
  rcases hcall with rfl | ⟨-, hmem⟩
  · exact hs.issueRead hash _ rows hjob rfl hactive
  · exact hmem

end Step

/-- In every state one background refresh leads to lookups that find no token. -/
theorem run_background_clear (s : CacheState) : ∃ s', Run.run cacheStep s
      [.background, .read s.jobs.length, .clear s.jobs.length] = some s' ∧
    s'.tokens = s.tokens ∧ (∀ hash, Settled s hash → Settled s' hash) ∧
    ∀ raw, isValid s' raw = false := by
  have hread : cacheStep (s.begin ⟨.background, .written⟩) (.read s.jobs.length)
      = some (s.begin ⟨.background, .read (activeHashes s.tokens)⟩) := by
    simp [cacheStep, CacheState.begin]
  have hclear : cacheStep (s.begin ⟨.background, .read (activeHashes s.tokens)⟩)
      (.clear s.jobs.length) = some { s.begin ⟨.background,
        .filling (activeHashes s.tokens) (activeHashes s.tokens)⟩ with cache := [] } := by
    simp [cacheStep, CacheState.begin]
  refine ⟨_, (Run.run_cons (t := s.begin ⟨.background, .written⟩) rfl _).trans
    ((Run.run_cons hread _).trans ((Run.run_cons hclear _).trans (Run.run_nil _))), rfl, ?_, ?_⟩
  · rintro hash ⟨job, hjob, hreturned⟩
    exact ⟨job, List.mem_append_left _ hjob, hreturned⟩
  · exact fun raw => rfl

/-- **Lookups of active tokens.**  In a run whose refreshes clear the cache only for reads that are
not out of date, a settled active token is found in every state in which no refresh is still to
insert it; and from every state of every run one background refresh leads to a lookup that does not
find it. -/
theorem active_tokens_accepted {t : List TokenRow} {es : List CacheEvent} {s : CacheState}
    (hrun : Run.run cacheStep (.init t) es = some s) :
    (Run.Along cacheStep ClearsFresh (.init t) es →
      ∀ raw, Settled s (tokenHash raw) → tokenHash raw ∈ activeHashes s.tokens →
        (∀ job ∈ s.jobs, tokenHash raw ∉ job.outstanding) → isValid s raw = true) ∧
    ∃ s', Run.run cacheStep (.init t)
        (es ++ [.background, .read s.jobs.length, .clear s.jobs.length]) = some s' ∧
      s'.tokens = s.tokens ∧ (∀ hash, Settled s hash → Settled s' hash) ∧
      ∀ raw, isValid s' raw = false := by
  constructor
  · intro halong raw hsettled hactive hnone
    have hcovered : Covered s :=
      Run.run_invariant_along (fun _ _ _ hs hP hstep => hs.step hP hstep) hrun halong
        (covered_init t)
    rw [isValid_iff]
    rcases hcovered.cached _ hactive (hcovered.cleared_of_settled hsettled hactive) with
      hmem | ⟨job, hjob, hhash⟩
    · exact hmem
    · exact absurd hhash (hnone job hjob)
  · obtain ⟨s', hclear, hs'⟩ := run_background_clear s
    exact ⟨s', (Run.run_append_of_eq hrun _).trans hclear, hs'⟩

/-! ## A startup, and a refresh after it -/

/-- The server is up, with one env token in its cache. -/
def servingState (raw : String) : CacheState :=
  ⟨[.env raw], [tokenHash raw], [⟨.startup, .returned [tokenHash raw]⟩]⟩

/-- The startup with that token. -/
def servingEvents (raw : String) : List CacheEvent :=
  [.syncEnv raw, .startup, .read 0, .clear 0, .insert 0, .finish 0]

theorem run_servingState (raw : String) :
    Run.run cacheStep (.init []) (servingEvents raw) = some (servingState raw) := rfl

theorem settled_servingState (raw : String) : Settled (servingState raw) (tokenHash raw) :=
  ⟨_, List.mem_singleton.2 rfl, [tokenHash raw], rfl, Or.inr ⟨rfl, List.mem_singleton.2 rfl⟩⟩

theorem active_servingState (raw : String) :
    tokenHash raw ∈ activeHashes (servingState raw).tokens :=
  List.mem_singleton.2 rfl

/-- The only refresh of the startup clears for no token that was there before. -/
theorem clearsFresh_serving (raw : String) :
    Run.Along cacheStep ClearsFresh (.init []) (servingEvents raw) := by
  have hsync : cacheStep (.init []) (.syncEnv raw) = some ⟨[.env raw], [], []⟩ := rfl
  have hbegin : cacheStep ⟨[.env raw], [], []⟩ .startup
      = some ⟨[.env raw], [], [⟨.startup, .written⟩]⟩ := rfl
  have hread : cacheStep ⟨[.env raw], [], [⟨.startup, .written⟩]⟩ (.read 0)
      = some ⟨[.env raw], [], [⟨.startup, .read [tokenHash raw]⟩]⟩ := rfl
  refine Run.along_cons trivial hsync (Run.along_cons trivial hbegin (Run.along_cons trivial hread
    ⟨?_, fun _ _ => ⟨trivial, fun _ _ => ⟨trivial, fun _ _ => trivial⟩⟩⟩))
  rintro call rows - hash - ⟨job, hjob, hhash⟩
  obtain rfl := List.mem_singleton.1 hjob
  exact absurd hhash List.not_mem_nil

/-- The env token is accepted when the startup has returned. -/
theorem active_tokens_accepted_serving : isValid (servingState "t") "t" = true := by
  refine (active_tokens_accepted (run_servingState "t")).1 (clearsFresh_serving "t") "t"
    (settled_servingState "t") (active_servingState "t") ?_
  intro job hjob
  obtain rfl := List.mem_singleton.1 hjob
  exact List.not_mem_nil

/-- Between the clear and the insert of the next refresh it is not. -/
theorem active_token_refused :
    Run.run cacheStep (.init []) (servingEvents "t") = some (servingState "t") ∧
      ∃ s, Run.run cacheStep (servingState "t") [.background, .read 1, .clear 1] = some s ∧
        Settled s (tokenHash "t") ∧ tokenHash "t" ∈ activeHashes s.tokens ∧
        isValid s "t" = false := by
  refine ⟨run_servingState "t", _, rfl, ?_, active_servingState "t", rfl⟩
  exact ⟨⟨.startup, .returned [tokenHash "t"]⟩, List.mem_cons_self .., [tokenHash "t"], rfl,
    Or.inr ⟨rfl, List.mem_singleton.2 rfl⟩⟩

end IrlEngine
