import IrlEngine.Tokens

/-!
# The token cache between requests

`refresh_cache` reads the active hashes, clears the cache and inserts them one by one, and
several of them can be under way: the background task's, and those of `token_issue`,
`token_revoke` and the startup.  Each event here is one of these steps or one statement, so a
list of events is an interleaving.

* `CacheChange` — everything a step can do;
* `Gone`, `Forgotten` — a revoked token that no refresh under way still holds stays out of the
  cache;
* `revocation_final_iff` — whether a token can come back after `token_revoke` has returned is
  decided when its refresh clears the cache.
-/

namespace IrlEngine

/-! ## The state -/

/-- What a refresh of the cache is made for. -/
inductive CacheCall where
  | background
  | startup
  | issue (hash : String)
  | revoke (hash : String)
  deriving DecidableEq, Repr

/-- How far it has come. -/
inductive CachePhase where
  /-- `token_revoke` has looked the token up. -/
  | found
  /-- The statements before the refresh are done. -/
  | written
  /-- The active hashes are read. -/
  | read (rows : List String)
  /-- The cache is cleared; `rest` is still to be inserted. -/
  | filling (rows rest : List String)
  /-- The refresh is complete, and the call has returned. -/
  | returned (rows : List String)
  /-- A statement has failed, and the call has returned an error. -/
  | failed
  deriving DecidableEq, Repr

/-- A call that ends in a refresh, and how far it has come. -/
structure CacheJob where
  call : CacheCall
  phase : CachePhase
  deriving DecidableEq, Repr

/-- The table, the cache, and every refresh that the process has begun. -/
structure CacheState where
  tokens : List TokenRow
  cache : List String
  jobs : List CacheJob

/-- A process that has just started, on any table. -/
def CacheState.init (tokens : List TokenRow) : CacheState := ⟨tokens, [], []⟩

/-- `TokenManager::is_valid`. -/
def isValid (s : CacheState) (raw : String) : Bool := s.cache.contains (tokenHash raw)

/-- What happens to the table and the cache: calls that begin, and their steps. -/
inductive CacheEvent where
  /-- The insert of one env token by a startup. -/
  | syncEnv (raw : String)
  | bumpLastUsed (hash : String) (now : ℤ)
  /-- The startup comes to its refresh. -/
  | startup
  /-- The background task comes to its refresh. -/
  | background
  /-- The insert of `token_issue`. -/
  | issue (clientName : String) (rawBytes : List UInt8)
  /-- The lookup of `token_revoke`; of several tokens with one prefix the database returns any. -/
  | revokeSelect (tokenId : String) (pick : ℕ)
  | revokeUpdate (k : ℕ)
  | read (k : ℕ)
  | clear (k : ℕ)
  | insert (k : ℕ)
  | finish (k : ℕ)
  | fail (k : ℕ)
  /-- A new process: its cache is empty, and nothing is under way. -/
  | restart

/-- The state with one more call under way. -/
def CacheState.begin (s : CacheState) (job : CacheJob) : CacheState :=
  { s with jobs := s.jobs ++ [job] }

/-- One event; a step of a call that is not that far does not happen. -/
def cacheStep (s : CacheState) : CacheEvent → Option CacheState
  | .syncEnv raw => some { s with tokens := insertToken s.tokens (.env raw) }
  | .bumpLastUsed hash now => some { s with tokens := bumpToken s.tokens hash now }
  | .startup => some (s.begin ⟨.startup, .written⟩)
  | .background => some (s.begin ⟨.background, .written⟩)
  | .issue clientName rawBytes =>
    if tokenHashOf rawBytes ∈ s.tokens.map fun r => r.tokenHash then some s
    else some ({ s with tokens := insertToken s.tokens (.api clientName rawBytes) }.begin
      ⟨.issue (tokenHashOf rawBytes), .written⟩)
  | .revokeSelect tokenId pick =>
    if (Text.utf8 tokenId).length ≠ 12 then some s
    else
      let found := activeTokens tokenId (s.tokens.map TokenRow.toApiToken)
      match found[pick % found.length]? with
      | none => some s
      | some token => some (s.begin ⟨.revoke token.tokenHash, .found⟩)
  | .revokeUpdate k =>
    match s.jobs[k]? with
    | some ⟨.revoke hash, .found⟩ =>
      some { s with
        tokens := revokeToken s.tokens hash
        jobs := s.jobs.set k ⟨.revoke hash, .written⟩ }
    | _ => none
  | .read k =>
    match s.jobs[k]? with
    | some ⟨call, .written⟩ =>
      some { s with jobs := s.jobs.set k ⟨call, .read (activeHashes s.tokens)⟩ }
    | _ => none
  | .clear k =>
    match s.jobs[k]? with
    | some ⟨call, .read rows⟩ =>
      some { s with cache := [], jobs := s.jobs.set k ⟨call, .filling rows rows⟩ }
    | _ => none
  | .insert k =>
    match s.jobs[k]? with
    | some ⟨call, .filling rows (hash :: rest)⟩ =>
      some { s with cache := hash :: s.cache, jobs := s.jobs.set k ⟨call, .filling rows rest⟩ }
    | _ => none
  | .finish k =>
    match s.jobs[k]? with
    | some ⟨call, .filling rows []⟩ => some { s with jobs := s.jobs.set k ⟨call, .returned rows⟩ }
    | _ => none
  | .fail k =>
    match s.jobs[k]? with
    | some ⟨call, .found⟩ => some { s with jobs := s.jobs.set k ⟨call, .failed⟩ }
    | some ⟨call, .written⟩ => some { s with jobs := s.jobs.set k ⟨call, .failed⟩ }
    | _ => none
  | .restart => some (.init s.tokens)

/-- The state of some run, from a process that has just started. -/
def CacheReachable (s : CacheState) : Prop := ∃ t es, Run.run cacheStep (.init t) es = some s

/-! ## What a step can do -/

/-- The phases before the read. -/
def CachePhase.isEarly : CachePhase → Bool
  | .found => true
  | .written => true
  | .failed => true
  | _ => false

/-- Everything a step can do. -/
inductive CacheChange (s : CacheState) : CacheEvent → CacheState → Prop where
  /-- A statement, and perhaps a call that comes to its refresh. -/
  | write (e : CacheEvent) (t : List TokenRow) (new : List CacheJob)
      (ht : t = s.tokens ∨ ∃ st : TokenStatement, t = st.exec s.tokens)
      (hnew : ∀ job ∈ new, job.phase.isEarly = true)
      (hissue : ∀ hash phase, ⟨.issue hash, phase⟩ ∈ new → hash ∈ t.map fun r => r.tokenHash)
      (hrevoke : ∀ hash phase, ⟨.revoke hash, phase⟩ ∈ new →
        phase = .found ∧ hash ∈ s.tokens.map fun r => r.tokenHash) :
      CacheChange s e ⟨t, s.cache, s.jobs ++ new⟩
  | update (k : ℕ) (hash : String) (hk : s.jobs[k]? = some ⟨.revoke hash, .found⟩) :
      CacheChange s (.revokeUpdate k)
        ⟨revokeToken s.tokens hash, s.cache, s.jobs.set k ⟨.revoke hash, .written⟩⟩
  | read (k : ℕ) (call : CacheCall) (hk : s.jobs[k]? = some ⟨call, .written⟩) :
      CacheChange s (.read k)
        ⟨s.tokens, s.cache, s.jobs.set k ⟨call, .read (activeHashes s.tokens)⟩⟩
  | clear (k : ℕ) (call : CacheCall) (rows : List String)
    (hk : s.jobs[k]? = some ⟨call, .read rows⟩) :
      CacheChange s (.clear k) ⟨s.tokens, [], s.jobs.set k ⟨call, .filling rows rows⟩⟩
  | insert (k : ℕ) (call : CacheCall) (rows rest : List String) (hash : String)
      (hk : s.jobs[k]? = some ⟨call, .filling rows (hash :: rest)⟩) :
      CacheChange s (.insert k)
        ⟨s.tokens, hash :: s.cache, s.jobs.set k ⟨call, .filling rows rest⟩⟩
  | finish (k : ℕ) (call : CacheCall) (rows : List String)
      (hk : s.jobs[k]? = some ⟨call, .filling rows []⟩) :
      CacheChange s (.finish k) ⟨s.tokens, s.cache, s.jobs.set k ⟨call, .returned rows⟩⟩
  | fail (k : ℕ) (call : CacheCall) (phase : CachePhase) (hk : s.jobs[k]? = some ⟨call, phase⟩)
      (hphase : phase.isEarly = true) :
      CacheChange s (.fail k) ⟨s.tokens, s.cache, s.jobs.set k ⟨call, .failed⟩⟩
  | restart : CacheChange s .restart (.init s.tokens)

theorem mem_insertToken_self (t : List TokenRow) (r : TokenRow) :
    r.tokenHash ∈ (insertToken t r).map fun r => r.tokenHash := by
  unfold insertToken
  split
  · assumption
  · simp

theorem cacheChange_idle (s : CacheState) (e : CacheEvent) : CacheChange s e s := by
  have h : CacheChange s e ⟨s.tokens, s.cache, s.jobs ++ []⟩ :=
    .write e s.tokens [] (Or.inl rfl) (by simp) (by simp) (by simp)
  rwa [List.append_nil] at h

/-- A statement that begins no call. -/
theorem cacheChange_statement (s : CacheState) (e : CacheEvent) (st : TokenStatement) :
    CacheChange s e { s with tokens := st.exec s.tokens } := by
  have h : CacheChange s e ⟨st.exec s.tokens, s.cache, s.jobs ++ []⟩ :=
    .write e _ [] (Or.inr ⟨st, rfl⟩) (by simp) (by simp) (by simp)
  rwa [List.append_nil] at h

/-- **Every step is one of the changes.** -/
theorem cacheChange_of_step {s s' : CacheState} {e : CacheEvent} (h : cacheStep s e = some s') :
    CacheChange s e s' := by
  cases e with
  | syncEnv raw =>
    rw [← Option.some.inj h]
    exact cacheChange_statement s _ (.syncEnv raw)
  | bumpLastUsed hash now =>
    rw [← Option.some.inj h]
    exact cacheChange_statement s _ (.bumpLastUsed hash now)
  | startup =>
    rw [← Option.some.inj h]
    exact .write _ _ [⟨.startup, .written⟩] (Or.inl rfl) (by simp [CachePhase.isEarly])
      (by simp) (by simp)
  | background =>
    rw [← Option.some.inj h]
    exact .write _ _ [⟨.background, .written⟩] (Or.inl rfl) (by simp [CachePhase.isEarly])
      (by simp) (by simp)
  | issue clientName rawBytes =>
    simp only [cacheStep] at h
    split at h
    · rw [← Option.some.inj h]
      exact cacheChange_idle s _
    · rw [← Option.some.inj h]
      refine .write _ _ [⟨.issue (tokenHashOf rawBytes), .written⟩]
        (Or.inr ⟨.issue clientName rawBytes, rfl⟩) (by simp [CachePhase.isEarly]) ?_ (by simp)
      intro hash phase hmem
      simp only [List.mem_singleton, CacheJob.mk.injEq, CacheCall.issue.injEq] at hmem
      rw [hmem.1]
      exact mem_insertToken_self s.tokens (.api clientName rawBytes)
  | revokeSelect tokenId pick =>
    simp only [cacheStep] at h
    split at h
    · rw [← Option.some.inj h]
      exact cacheChange_idle s _
    · split at h
      · rw [← Option.some.inj h]
        exact cacheChange_idle s _
      · rename_i token hfound
        rw [← Option.some.inj h]
        refine .write _ _ [⟨.revoke token.tokenHash, .found⟩] (Or.inl rfl)
          (by simp [CachePhase.isEarly]) (by simp) ?_
        intro hash phase hmem
        simp only [List.mem_singleton, CacheJob.mk.injEq, CacheCall.revoke.injEq] at hmem
        refine ⟨hmem.2, ?_⟩
        have htoken := List.mem_of_mem_filter (List.mem_of_getElem? hfound)
        obtain ⟨r, hr, rfl⟩ := List.mem_map.1 htoken
        rw [hmem.1]
        exact List.mem_map_of_mem hr
  | revokeUpdate k =>
    simp only [cacheStep] at h
    split at h
    · rename_i hash hk
      rw [← Option.some.inj h]
      exact .update k hash hk
    · exact absurd h (by simp)
  | read k =>
    simp only [cacheStep] at h
    split at h
    · rename_i call hk
      rw [← Option.some.inj h]
      exact .read k call hk
    · exact absurd h (by simp)
  | clear k =>
    simp only [cacheStep] at h
    split at h
    · rename_i call rows hk
      rw [← Option.some.inj h]
      exact .clear k call rows hk
    · exact absurd h (by simp)
  | insert k =>
    simp only [cacheStep] at h
    split at h
    · rename_i call rows hash rest hk
      rw [← Option.some.inj h]
      exact .insert k call rows rest hash hk
    · exact absurd h (by simp)
  | finish k =>
    simp only [cacheStep] at h
    split at h
    · rename_i call rows hk
      rw [← Option.some.inj h]
      exact .finish k call rows hk
    · exact absurd h (by simp)
  | fail k =>
    simp only [cacheStep] at h
    split at h
    · rename_i call hk
      rw [← Option.some.inj h]
      exact .fail k call _ hk rfl
    · rename_i call hk
      rw [← Option.some.inj h]
      exact .fail k call _ hk rfl
    · exact absurd h (by simp)
  | restart =>
    rw [← Option.some.inj h]
    exact .restart

/-! ## The table under a step -/

section Rows

variable {t : List TokenRow} {hash : String}

/-- The token has a row, and is not active. -/
def Gone (t : List TokenRow) (hash : String) : Prop :=
  hash ∈ t.map (fun r => r.tokenHash) ∧ hash ∉ activeHashes t

theorem mem_activeHashes : hash ∈ activeHashes t ↔ ∃ r ∈ t, r.status = .active ∧
      r.tokenHash = hash := by
  simp [activeHashes, and_assoc]

theorem mem_hashes_of_active (h : hash ∈ activeHashes t) : hash ∈ t.map fun r => r.tokenHash := by
  obtain ⟨r, hr, -, hhash⟩ := mem_activeHashes.1 h
  exact List.mem_map.2 ⟨r, hr, hhash⟩

theorem mem_hashes_exec (st : TokenStatement) (h : hash ∈ t.map fun r => r.tokenHash) :
    hash ∈ (st.exec t).map fun r => r.tokenHash := by
  obtain ⟨r, hr, hhash⟩ := List.mem_map.1 h
  obtain ⟨i, hi⟩ := List.mem_iff_getElem?.1 hr
  obtain ⟨r', hr', hkept⟩ := tableKept_exec t st i r hi
  exact List.mem_map.2 ⟨r', List.mem_of_getElem? hr', hkept.tokenHash.trans hhash⟩

/-- Where a row comes from: it was there, or its hash is new. -/
theorem mem_exec {st : TokenStatement} {r' : TokenRow} (h : r' ∈ st.exec t) :
    (∃ r ∈ t, Kept r r') ∨ r'.tokenHash ∉ t.map fun r => r.tokenHash := by
  have hinsert : ∀ new, r' ∈ insertToken t new →
      (∃ r ∈ t, Kept r r') ∨ r'.tokenHash ∉ t.map fun r => r.tokenHash := by
    intro new hmem
    unfold insertToken at hmem
    split at hmem
    · exact Or.inl ⟨r', hmem, .refl r'⟩
    · rename_i hfresh
      rcases List.mem_append.1 hmem with hmem | hmem
      · exact Or.inl ⟨r', hmem, .refl r'⟩
      · obtain rfl := List.mem_singleton.1 hmem
        exact Or.inr hfresh
  have hupdate : ∀ (which : TokenRow → Bool) (f : TokenRow → TokenRow), (∀ r, Kept r (f r)) →
      r' ∈ Table.updateWhere which f t → ∃ r ∈ t, Kept r r' := by
    intro which f hf hmem
    obtain ⟨r, hr, rfl⟩ := List.mem_map.1 hmem
    refine ⟨r, hr, ?_⟩
    split
    · exact hf r
    · exact .refl r
  cases st with
  | syncEnv raw => exact hinsert _ h
  | issue clientName rawBytes => exact hinsert _ h
  | revoke hash => exact Or.inl (hupdate _ _ kept_revoke h)
  | bumpLastUsed hash now => exact Or.inl (hupdate _ _ (kept_bump now) h)

/-- No statement makes a token active that has a row. -/
theorem active_of_exec {st : TokenStatement} (h : hash ∈ activeHashes (st.exec t))
    (hknown : hash ∈ t.map fun r => r.tokenHash) : hash ∈ activeHashes t := by
  obtain ⟨r', hr', hactive, rfl⟩ := mem_activeHashes.1 h
  rcases mem_exec hr' with ⟨r, hr, hkept⟩ | hfresh
  · refine mem_activeHashes.2 ⟨r, hr, ?_, hkept.tokenHash.symm⟩
    cases hstatus : r.status with
    | active => rfl
    | revoked =>
      rw [hkept.revoked hstatus] at hactive
      cases hactive
  · exact absurd hknown hfresh

theorem Gone.exec (h : Gone t hash) (st : TokenStatement) : Gone (st.exec t) hash :=
  ⟨mem_hashes_exec st h.1, fun hactive => h.2 (active_of_exec hactive h.1)⟩

theorem gone_revokeToken (h : hash ∈ t.map fun r => r.tokenHash) :
    Gone (revokeToken t hash) hash := by
  refine ⟨mem_hashes_exec (.revoke hash) h, fun hactive => ?_⟩
  obtain ⟨r', hr', hstatus, hhash⟩ := mem_activeHashes.1 hactive
  obtain ⟨r, -, rfl⟩ := List.mem_map.1 hr'
  split at hstatus
  · cases hstatus
  · rename_i hne
    rw [if_neg hne] at hhash
    exact hne (decide_eq_true hhash)

/-- A step writes the table by at most one statement. -/
theorem tokens_of_change {s s' : CacheState} {e : CacheEvent} (h : CacheChange s e s') :
    s'.tokens = s.tokens ∨ ∃ st : TokenStatement, s'.tokens = st.exec s.tokens := by
  cases h with
  | write _ t new ht _ _ _ => exact ht
  | update k hash hk => exact Or.inr ⟨.revoke hash, rfl⟩
  | _ => exact Or.inl rfl

theorem Gone.of_change {s s' : CacheState} {e : CacheEvent} (h : CacheChange s e s')
    (hgone : Gone s.tokens hash) : Gone s'.tokens hash := by
  rcases tokens_of_change h with ht | ⟨st, ht⟩
  · exact ht ▸ hgone
  · exact ht ▸ hgone.exec st

end Rows

/-! ## Revocation -/

/-- The hashes that a refresh under way will still insert. -/
def CacheJob.holds (job : CacheJob) : List String :=
  match job.phase with
  | .read rows => rows
  | .filling _ rest => rest
  | _ => []

theorem CacheJob.holds_of_early {job : CacheJob} (h : job.phase.isEarly = true) :
    job.holds = [] := by
  unfold holds
  cases hphase : job.phase with
  | found => rfl
  | written => rfl
  | failed => rfl
  | returned rows => rfl
  | read rows => rw [hphase] at h; cases h
  | filling rows rest => rw [hphase] at h; cases h

/-- What a refresh holds after a step: what one held before, or the active hashes. -/
theorem holds_of_change {s s' : CacheState} {e : CacheEvent} (h : CacheChange s e s')
    {job : CacheJob} (hjob : job ∈ s'.jobs) {hash : String} (hhash : hash ∈ job.holds) :
    (∃ job' ∈ s.jobs, hash ∈ job'.holds) ∨ hash ∈ activeHashes s.tokens := by
  have hold : ∀ {k : ℕ} {job₀ job₁ : CacheJob}, s.jobs[k]? = some job₀ →
      job ∈ s.jobs.set k job₁ → (hash ∈ job₁.holds → hash ∈ job₀.holds) →
      ∃ job' ∈ s.jobs, hash ∈ job'.holds := by
    intro k job₀ job₁ hk hmem hless
    rcases List.mem_or_eq_of_mem_set hmem with hmem | rfl
    · exact ⟨job, hmem, hhash⟩
    · exact ⟨job₀, List.mem_of_getElem? hk, hless hhash⟩
  cases h with
  | write _ t new _ hnew _ _ =>
    rcases List.mem_append.1 hjob with hmem | hmem
    · exact Or.inl ⟨job, hmem, hhash⟩
    · rw [CacheJob.holds_of_early (hnew job hmem)] at hhash
      exact absurd hhash List.not_mem_nil
  | update k hash' hk => exact Or.inl (hold hk hjob fun hmem => hmem)
  | read k call hk =>
    rcases List.mem_or_eq_of_mem_set hjob with hmem | rfl
    · exact Or.inl ⟨job, hmem, hhash⟩
    · exact Or.inr hhash
  | clear k call rows hk => exact Or.inl (hold hk hjob fun hmem => hmem)
  | insert k call rows rest hash' hk => exact Or.inl (hold hk hjob (List.mem_cons_of_mem _))
  | finish k call rows hk => exact Or.inl (hold hk hjob fun hmem => hmem)
  | fail k call phase hk hphase =>
    exact Or.inl (hold hk hjob fun hmem => absurd hmem List.not_mem_nil)
  | restart => exact absurd hjob List.not_mem_nil

/-- What the cache has after a step: what it had, or what a refresh held. -/
theorem cache_of_change {s s' : CacheState} {e : CacheEvent} (h : CacheChange s e s')
    {hash : String}
    (hhash : hash ∈ s'.cache) : hash ∈ s.cache ∨ ∃ job ∈ s.jobs, hash ∈ job.holds := by
  cases h with
  | insert k call rows rest hash' hk =>
    rcases List.mem_cons.1 hhash with rfl | hmem
    · exact Or.inr ⟨_, List.mem_of_getElem? hk, List.mem_cons_self ..⟩
    · exact Or.inl hmem
  | clear k call rows hk => exact absurd hhash List.not_mem_nil
  | restart => exact absurd hhash List.not_mem_nil
  | _ => exact Or.inl hhash

/-- A revoked token that nothing can bring back. -/
structure Forgotten (s : CacheState) (hash : String) : Prop where
  gone : Gone s.tokens hash
  held : ∀ job ∈ s.jobs, hash ∉ job.holds

theorem Forgotten.of_change {s s' : CacheState} {e : CacheEvent} {hash : String}
    (hs : Forgotten s hash) (h : CacheChange s e s') : Forgotten s' hash := by
  refine ⟨hs.gone.of_change h, fun job hjob hhash => ?_⟩
  rcases holds_of_change h hjob hhash with ⟨job', hjob', hhash'⟩ | hactive
  · exact hs.held job' hjob' hhash'
  · exact hs.gone.2 hactive

/-- A forgotten token that is not in the cache stays out of it. -/
theorem Forgotten.run {s s' : CacheState} {es : List CacheEvent} {hash : String}
    (hs : Forgotten s hash) (hcache : hash ∉ s.cache) (h : Run.run cacheStep s es = some s') :
    Forgotten s' hash ∧ hash ∉ s'.cache := by
  refine Run.run_invariant (I := fun s => Forgotten s hash ∧ hash ∉ s.cache) ?_ h ⟨hs, hcache⟩
  rintro s e t ⟨hforgotten, hout⟩ hstep
  have hchange := cacheChange_of_step hstep
  refine ⟨hforgotten.of_change hchange, fun hin => ?_⟩
  rcases cache_of_change hchange hin with hin | ⟨job, hjob, hhash⟩
  · exact hout hin
  · exact hforgotten.held job hjob hhash

/-- How far a `token_revoke` has come says what has become of its token. -/
def RevokeSound (t : List TokenRow) (hash : String) : CachePhase → Prop
  | .found => hash ∈ t.map fun r => r.tokenHash
  | .written => Gone t hash
  | .read rows => Gone t hash ∧ hash ∉ rows
  | _ => True

theorem RevokeSound.of_change {s s' : CacheState} {e : CacheEvent} (h : CacheChange s e s')
    {hash : String} {phase : CachePhase} (hsound : RevokeSound s.tokens hash phase) :
    RevokeSound s'.tokens hash phase := by
  cases phase with
  | found =>
    rcases tokens_of_change h with ht | ⟨st, ht⟩
    · exact ht ▸ hsound
    · exact ht ▸ mem_hashes_exec st hsound
  | written => exact Gone.of_change h hsound
  | read rows => exact ⟨hsound.1.of_change h, hsound.2⟩
  | _ => trivial

/-- Every call of `token_revoke` is sound. -/
def RevokesSound (s : CacheState) : Prop :=
  ∀ hash phase, ⟨.revoke hash, phase⟩ ∈ s.jobs → RevokeSound s.tokens hash phase

theorem revokesSound_of_change {s s' : CacheState} {e : CacheEvent} (hs : RevokesSound s)
    (h : CacheChange s e s') : RevokesSound s' := by
  intro hash phase hjob
  have hold : ⟨.revoke hash, phase⟩ ∈ s.jobs → RevokeSound s'.tokens hash phase :=
    fun hmem => (hs hash phase hmem).of_change h
  cases h with
  | write _ t new ht _ _ hrevoke =>
    rcases List.mem_append.1 hjob with hmem | hmem
    · exact hold hmem
    · obtain ⟨rfl, hknown⟩ := hrevoke hash phase hmem
      rcases ht with rfl | ⟨st, rfl⟩
      · exact hknown
      · exact mem_hashes_exec st hknown
  | update k hash' hk =>
    rcases List.mem_or_eq_of_mem_set hjob with hmem | heq
    · exact hold hmem
    · simp only [CacheJob.mk.injEq, CacheCall.revoke.injEq] at heq
      obtain ⟨rfl, rfl⟩ := heq
      exact gone_revokeToken (hs hash .found (List.mem_of_getElem? hk))
  | read k call hk =>
    rcases List.mem_or_eq_of_mem_set hjob with hmem | heq
    · exact hold hmem
    · simp only [CacheJob.mk.injEq] at heq
      obtain ⟨rfl, rfl⟩ := heq
      have hgone : Gone s.tokens hash := hs hash .written (List.mem_of_getElem? hk)
      exact ⟨hgone, hgone.2⟩
  | clear k call rows hk =>
    rcases List.mem_or_eq_of_mem_set hjob with hmem | heq
    · exact hold hmem
    · rw [(CacheJob.mk.inj heq).2]
      trivial
  | insert k call rows rest hash' hk =>
    rcases List.mem_or_eq_of_mem_set hjob with hmem | heq
    · exact hold hmem
    · rw [(CacheJob.mk.inj heq).2]
      trivial
  | finish k call rows hk =>
    rcases List.mem_or_eq_of_mem_set hjob with hmem | heq
    · exact hold hmem
    · rw [(CacheJob.mk.inj heq).2]
      trivial
  | fail k call phase' hk _ =>
    rcases List.mem_or_eq_of_mem_set hjob with hmem | heq
    · exact hold hmem
    · rw [(CacheJob.mk.inj heq).2]
      trivial
  | restart => exact absurd hjob List.not_mem_nil

theorem revokesSound_of_reachable {s : CacheState} (h : CacheReachable s) : RevokesSound s := by
  obtain ⟨t, es, hrun⟩ := h
  refine Run.run_invariant (fun _ _ _ hs hstep => revokesSound_of_change hs
    (cacheChange_of_step hstep))
    hrun ?_
  intro hash phase hjob
  exact absurd hjob List.not_mem_nil

/-- A refresh that has read stays where it is until the cache is emptied. -/
theorem read_persists {s s' : CacheState} {e : CacheEvent} (h : CacheChange s e s') {k : ℕ}
    {call : CacheCall} {rows : List String} (hk : s.jobs[k]? = some ⟨call, .read rows⟩) :
    s'.cache = [] ∨ s'.jobs[k]? = some ⟨call, .read rows⟩ := by
  have hset : ∀ {j : ℕ} {job : CacheJob} (job' : CacheJob), s.jobs[j]? = some job →
      (∀ rows', job.phase ≠ .read rows') → (s.jobs.set j job')[k]? = some ⟨call, .read rows⟩ := by
    intro j job job' hj hphase
    have hne : j ≠ k := by
      rintro rfl
      obtain rfl := Option.some.inj (hj.symm.trans hk)
      exact hphase rows rfl
    rw [List.getElem?_set_ne hne, hk]
  cases h with
  | write _ t new _ _ _ _ =>
    have hlt : k < s.jobs.length := (List.getElem?_eq_some_iff.1 hk).1
    exact Or.inr (by rw [List.getElem?_append_left hlt, hk])
  | update j hash hj => exact Or.inr (hset _ hj (by simp))
  | read j call' hj => exact Or.inr (hset _ hj (by simp))
  | clear j call' rows' hj => exact Or.inl rfl
  | insert j call' rows' rest hash hj => exact Or.inr (hset _ hj (by simp))
  | finish j call' rows' hj => exact Or.inr (hset _ hj (by simp))
  | fail j call' phase hj hphase =>
    refine Or.inr (hset _ hj ?_)
    rintro rows' rfl
    cases hphase
  | restart => exact Or.inl rfl

/-! ## Refreshes that run to their end -/

/-- A refresh can insert what it holds. -/
theorem exists_fill (pre : List String) : ∀ {s : CacheState} {k : ℕ} {call : CacheCall}
    {rows rest : List String}, s.jobs[k]? = some ⟨call, .filling rows (pre ++ rest)⟩ →
    ∃ es s', Run.run cacheStep s es = some s' ∧ s'.jobs[k]? = some ⟨call, .filling rows rest⟩ ∧
      (∀ j, j ≠ k → s'.jobs[j]? = s.jobs[j]?) ∧ ∀ hash, hash ∈ pre ∨ hash ∈ s.cache →
      hash ∈ s'.cache := by
  induction pre with
  | nil =>
    intro s k call rows rest hk
    refine ⟨[], s, Run.run_nil s, hk, fun _ _ => rfl, ?_⟩
    rintro hash (hmem | hmem)
    · exact absurd hmem List.not_mem_nil
    · exact hmem
  | cons first pre ih =>
    intro s k call rows rest hk
    have hlt : k < s.jobs.length := (List.getElem?_eq_some_iff.1 hk).1
    have hstep : cacheStep s (.insert k) = some { s with
        cache := first :: s.cache
        jobs := s.jobs.set k ⟨call, .filling rows (pre ++ rest)⟩ } := by
      simp only [cacheStep, hk, List.cons_append]
    obtain ⟨es, s', hrun, hk', hother, hcache⟩ := ih (s := { s with
        cache := first :: s.cache
        jobs := s.jobs.set k ⟨call, .filling rows (pre ++ rest)⟩ }) (List.getElem?_set_self hlt)
    refine ⟨.insert k :: es, s', (Run.run_cons hstep es).trans hrun, hk', ?_, ?_⟩
    · intro j hj
      rw [hother j hj]
      exact List.getElem?_set_ne (Ne.symm hj)
    · rintro hash (hmem | hmem)
      · rcases List.mem_cons.1 hmem with rfl | hmem
        · exact hcache hash (Or.inr (List.mem_cons_self ..))
        · exact hcache hash (Or.inl hmem)
      · exact hcache hash (Or.inr (List.mem_cons_of_mem _ hmem))

/-- A refresh that has read can clear, insert and return. -/
theorem exists_complete {s : CacheState} {k : ℕ} {call : CacheCall} {rows : List String}
    (hk : s.jobs[k]? = some ⟨call, .read rows⟩) :
    ∃ es s', Run.run cacheStep s es = some s' ∧ s'.jobs[k]? = some ⟨call, .returned rows⟩ ∧
      ∀ j, j ≠ k → s'.jobs[j]? = s.jobs[j]? := by
  have hlt : k < s.jobs.length := (List.getElem?_eq_some_iff.1 hk).1
  have hclear : cacheStep s (.clear k) = some { s with
      cache := [], jobs := s.jobs.set k ⟨call, .filling rows rows⟩ } := by
    simp only [cacheStep, hk]
  have hfilling : (s.jobs.set k ⟨call, .filling rows rows⟩)[k]?
      = some ⟨call, .filling rows (rows ++ [])⟩ := by
    rw [List.append_nil]
    exact List.getElem?_set_self hlt
  obtain ⟨es, u, hrun, hk', hother, -⟩ := exists_fill rows
    (s := { s with cache := [], jobs := s.jobs.set k ⟨call, .filling rows rows⟩ }) hfilling
  have hfinish : cacheStep u (.finish k) = some { u with
      jobs := u.jobs.set k ⟨call, .returned rows⟩ } := by
    simp only [cacheStep, hk']
  have hlt' : k < u.jobs.length := (List.getElem?_eq_some_iff.1 hk').1
  refine ⟨.clear k :: (es ++ [.finish k]),
    { u with jobs := u.jobs.set k ⟨call, .returned rows⟩ }, ?_, List.getElem?_set_self hlt', ?_⟩
  · rw [Run.run_cons hclear, Run.run_append_of_eq hrun, Run.run_cons hfinish, Run.run_nil]
  · intro j hj
    have hset : (u.jobs.set k ⟨call, .returned rows⟩)[j]? = u.jobs[j]? :=
      List.getElem?_set_ne (Ne.symm hj)
    rw [hset, hother j hj]
    exact List.getElem?_set_ne (Ne.symm hj)

/-- A refresh can bring every hash that it holds into the cache. -/
theorem exists_insert {s : CacheState} {j : ℕ} {job : CacheJob} (hj : s.jobs[j]? = some job)
    {hash : String} (hhash : hash ∈ job.holds) :
    ∃ es s', Run.run cacheStep s es = some s' ∧ hash ∈ s'.cache := by
  have hfilling : ∀ {u : CacheState} {call : CacheCall} {rows rest : List String},
      u.jobs[j]? = some ⟨call, .filling rows rest⟩ → hash ∈ rest →
      ∃ es s', Run.run cacheStep u es = some s' ∧ hash ∈ s'.cache := by
    intro u call rows rest hu hmem
    obtain ⟨pre, post, rfl⟩ := List.append_of_mem hmem
    have hsplit : pre ++ hash :: post = (pre ++ [hash]) ++ post := by simp
    rw [hsplit] at hu
    obtain ⟨es, s', hrun, -, -, hcache⟩ := exists_fill (pre ++ [hash]) hu
    exact ⟨es, s', hrun, hcache hash (Or.inl (by simp))⟩
  obtain ⟨call, phase⟩ := job
  cases phase with
  | filling rows rest => exact hfilling hj hhash
  | read rows =>
    have hlt : j < s.jobs.length := (List.getElem?_eq_some_iff.1 hj).1
    have hclear : cacheStep s (.clear j) = some { s with
        cache := [], jobs := s.jobs.set j ⟨call, .filling rows rows⟩ } := by
      simp only [cacheStep, hj]
    obtain ⟨es, s', hrun, hmem⟩ := hfilling
      (u := { s with cache := [], jobs := s.jobs.set j ⟨call, .filling rows rows⟩ })
      (List.getElem?_set_self hlt) hhash
    exact ⟨.clear j :: es, s', (Run.run_cons hclear es).trans hrun, hmem⟩
  | found => exact absurd hhash List.not_mem_nil
  | written => exact absurd hhash List.not_mem_nil
  | returned rows => exact absurd hhash List.not_mem_nil
  | failed => exact absurd hhash List.not_mem_nil

theorem isValid_iff {s : CacheState} {raw : String} :
    isValid s raw = true ↔ tokenHash raw ∈ s.cache := by
  simp [isValid]

/-- Once the `k`-th call, of `token_revoke`, has returned, the token is invalid for good. -/
def RevocationFinal (s : CacheState) (k : ℕ) (raw : String) : Prop :=
  ∀ es s₁, Run.run cacheStep s es = some s₁ →
    (∃ rows, s₁.jobs[k]? = some ⟨.revoke (tokenHash raw), .returned rows⟩) →
    ∀ es' s₂, Run.run cacheStep s₁ es' = some s₂ → isValid s₂ raw = false

/-- **Revocation takes effect for good** exactly if, when its refresh has read, no other refresh
under way still holds the token. -/
theorem revocation_final_iff {s : CacheState} (hs : CacheReachable s) {k : ℕ} {raw : String}
    {rows : List String} (hk : s.jobs[k]? = some ⟨.revoke (tokenHash raw), .read rows⟩) :
    RevocationFinal s k raw ↔
      ∀ j job, j ≠ k → s.jobs[j]? = some job → tokenHash raw ∉ job.holds := by
  constructor
  · intro hfinal j job hne hj hhash
    obtain ⟨es, s₁, hrun, hreturned, hother⟩ := exists_complete hk
    obtain ⟨es', s₂, hrun', hcache⟩ := exists_insert ((hother j hne).trans hj) hhash
    have hinvalid := hfinal es s₁ hrun ⟨rows, hreturned⟩ es' s₂ hrun'
    rw [isValid_iff.2 hcache] at hinvalid
    cases hinvalid
  · intro hnone es s₁ hrun hreturned es' s₂ hrun'
    obtain ⟨hgone, hrows⟩ : Gone s.tokens (tokenHash raw) ∧ tokenHash raw ∉ rows :=
      revokesSound_of_reachable hs _ _ (List.mem_of_getElem? hk)
    have hforgotten : Forgotten s (tokenHash raw) := by
      refine ⟨hgone, fun job hjob hhash => ?_⟩
      obtain ⟨j, hj⟩ := List.mem_iff_getElem?.1 hjob
      by_cases hjk : j = k
      · subst hjk
        obtain rfl := Option.some.inj (hj.symm.trans hk)
        exact hrows hhash
      · exact hnone j job hjk hj hhash
    -- the token may be in the cache until the refresh clears it
    have hbefore : Forgotten s₁ (tokenHash raw) ∧ (tokenHash raw ∉ s₁.cache ∨
        s₁.jobs[k]? = some ⟨.revoke (tokenHash raw), .read rows⟩) := by
      refine Run.run_invariant (I := fun s => Forgotten s (tokenHash raw) ∧
        (tokenHash raw ∉ s.cache ∨ s.jobs[k]? = some ⟨.revoke (tokenHash raw), .read rows⟩)) ?_ hrun
        ⟨hforgotten, Or.inr hk⟩
      rintro u e v ⟨hu, hout | hread⟩ hstep
      · obtain ⟨hv, hout'⟩ := hu.run hout ((Run.run_cons hstep []).trans (Run.run_nil v))
        exact ⟨hv, Or.inl hout'⟩
      · have hchange := cacheChange_of_step hstep
        refine ⟨hu.of_change hchange, (read_persists hchange hread).imp ?_ id⟩
        intro hempty
        rw [hempty]
        exact List.not_mem_nil
    obtain ⟨rows', hreturned⟩ := hreturned
    obtain ⟨hforgotten₁, hout | hread⟩ := hbefore
    · have hcache := (hforgotten₁.run hout hrun').2
      rw [Bool.eq_false_iff, Ne, isValid_iff]
      exact hcache
    · rw [hreturned] at hread
      cases hread

/-! ## A revocation alone, and one with a refresh under way -/

theorem length_tokenIdOf (message : List UInt8) :
    (Text.utf8 (tokenIdOf (sha256Hex message))).length = 12 := by
  rw [tokenIdOf, Text.utf8, String.toList_ofList, Text.length_encode_of_ascii, List.length_take,
    sha256Hex, String.toList_ofList, Encoding.length_hexEncode, Sha256.length_hash]
  · rfl
  · intro c hc
    rw [sha256Hex, String.toList_ofList] at hc
    exact Encoding.utf8Size_of_mem_hexEncode (List.mem_of_mem_take hc)

section Sample

variable (raw : String) (cache : List String) (jobs : List CacheJob)

theorem step_select : cacheStep ⟨[.env raw], cache, jobs⟩
    (.revokeSelect (tokenIdOf (tokenHash raw)) 0)
      = some ⟨[.env raw], cache, jobs ++ [⟨.revoke (tokenHash raw), .found⟩]⟩ := by
  have hlength : ¬ (Text.utf8 (tokenIdOf (tokenHash raw))).length ≠ 12 :=
    not_not.2 (length_tokenIdOf _)
  have hfound : activeTokens (tokenIdOf (tokenHash raw))
    ([TokenRow.env raw].map TokenRow.toApiToken)
      = [(TokenRow.env raw).toApiToken] := by
    simp [activeTokens, TokenRow.env]
  simp only [cacheStep]
  rw [if_neg hlength, hfound]
  rfl

theorem step_update {k : ℕ} (hk : jobs[k]? = some ⟨.revoke (tokenHash raw), .found⟩) :
    cacheStep ⟨[.env raw], cache, jobs⟩ (.revokeUpdate k)
      = some ⟨[(TokenRow.env raw).revoke], cache,
          jobs.set k ⟨.revoke (tokenHash raw), .written⟩⟩ := by
  have htable : revokeToken [TokenRow.env raw] (tokenHash raw) = [(TokenRow.env raw).revoke] := by
    simp [revokeToken, TokenRow.env]
  simp only [cacheStep, hk, htable]

end Sample

/-- The only refresh under way is that of the revocation. -/
def aloneState (raw : String) : CacheState :=
  ⟨[(TokenRow.env raw).revoke], [], [⟨.revoke (tokenHash raw), .read []⟩]⟩

theorem run_aloneState (raw : String) : Run.run cacheStep (.init [.env raw])
    [.revokeSelect (tokenIdOf (tokenHash raw)) 0, .revokeUpdate 0, .read 0]
      = some (aloneState raw) := by
  rw [CacheState.init, Run.run_cons (step_select raw [] []),
    Run.run_cons (step_update raw [] _ rfl)]
  rfl

/-- A revocation that no other refresh overlaps is final. -/
theorem revocation_final_alone : RevocationFinal (aloneState "t") 0 "t" := by
  refine (revocation_final_iff ⟨_, _, run_aloneState "t"⟩ rfl).2 ?_
  intro j job hj hjob
  have hlt : j < 1 := (List.getElem?_eq_some_iff.1 hjob).1
  omega

/-- The revocation has returned; a background refresh has read before it and is to clear. -/
def staleState (raw : String) : CacheState :=
  ⟨[(TokenRow.env raw).revoke], [],
    [⟨.background, .read [tokenHash raw]⟩, ⟨.revoke (tokenHash raw), .returned []⟩]⟩

theorem run_staleState (raw : String) : Run.run cacheStep (.init [.env raw])
    [.background, .read 0, .revokeSelect (tokenIdOf (tokenHash raw)) 0, .revokeUpdate 1, .read 1,
      .clear 1, .finish 1] = some (staleState raw) := by
  have hbegin : cacheStep (.init [.env raw]) .background
      = some ⟨[.env raw], [], [⟨.background, .written⟩]⟩ := rfl
  have hread : cacheStep ⟨[.env raw], [], [⟨.background, .written⟩]⟩ (.read 0)
      = some ⟨[.env raw], [], [⟨.background, .read [tokenHash raw]⟩]⟩ := rfl
  rw [Run.run_cons hbegin, Run.run_cons hread, Run.run_cons (step_select raw [] _),
    Run.run_cons (step_update raw [] _ rfl)]
  rfl

/-- The refresh brings the revoked token back. -/
theorem revocation_undone :
    Run.run cacheStep (.init [.env "t"])
        [.background, .read 0, .revokeSelect (tokenIdOf (tokenHash "t")) 0,
          .revokeUpdate 1, .read 1, .clear 1, .finish 1] = some (staleState "t") ∧
      (staleState "t").jobs[1]? = some ⟨.revoke (tokenHash "t"), .returned []⟩ ∧
      isValid (staleState "t") "t" = false ∧
      ∃ s, Run.run cacheStep (staleState "t") [.clear 0, .insert 0] = some s ∧
        isValid s "t" = true := by
  refine ⟨run_staleState "t", rfl, rfl, _, rfl, ?_⟩
  rw [isValid_iff]
  exact List.mem_singleton.2 rfl

end IrlEngine
