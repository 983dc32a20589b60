import IrlEngine.Gateway

/-!
# Readers of the gateway

Requests without a valid token, and those of tokens that only read or try what only owners may, can
be dropped from every run, and nobody else is answered differently: `readers_leave_no_trace`.  What
they do leave stands under their own tokens: the counters of the rate limiter, and with the first
request of a minute the column `last_used_at`.
-/

namespace IrlEngine

/-! ## Who reads -/

/-- The request bears no token, or one of these. -/
def ApiRequest.borneBy (r : ApiRequest) (readers : List String) : Bool :=
  match extractBearer r.authorization with
  | .error _ => true
  | .ok token => readers.contains token

/-- A request that bears no token or one of these, or an update of `last_used_at` for one. -/
def GatewayEvent.borneBy (readers : List String) : GatewayEvent → Bool
  | .request r => r.borneBy readers
  | .lastUsed hash _ => (readers.map tokenHash).contains hash
  | _ => false

/-- If the token of the request is valid at all, then the request reads only, or tries without an
owner's role what only owners may. -/
def Harmless (s : GatewayState) (r : ApiRequest) : Prop :=
  ∀ token, Admitted s r token → r.route.isRead = true ∨
    r.route.ownerOnly = true ∧ tokenRole s.admin.tokens token ≠ some .owner

/-- The same but for the use of the tokens with these hashes. -/
structure TokenUse.AlikeBut (hashes : List String) (u u' : TokenUse) : Prop where
  lastUsedAt : ∀ hash, hash ∉ hashes → u'.lastUsedAt hash = u.lastUsedAt hash
  lastBumped : ∀ hash, hash ∉ hashes → u'.lastBumped hash = u.lastBumped hash
  spawned : ∀ hash, hash ∉ hashes → u'.spawned.count hash = u.spawned.count hash

/-- The same tables and caches but for the counters and the use of these tokens. -/
structure AlikeBut (readers : List String) (s s' : GatewayState) : Prop where
  admin : s'.admin = s.admin
  maxPerSecond : s'.limiter.maxPerSecond = s.limiter.maxPerSecond
  counters : ∀ token, token ∉ readers → s'.limiter.counters token = s.limiter.counters token
  use : s.use.AlikeBut (readers.map tokenHash) s'.use

namespace TokenUse

variable {hashes hashes' : List String} {u v w : TokenUse}

namespace AlikeBut

theorem refl (hashes : List String) (u : TokenUse) : u.AlikeBut hashes u :=
  ⟨fun _ _ => rfl, fun _ _ => rfl, fun _ _ => rfl⟩

theorem symm (h : u.AlikeBut hashes v) : v.AlikeBut hashes u :=
  ⟨fun hash hout => (h.lastUsedAt hash hout).symm, fun hash hout => (h.lastBumped hash hout).symm,
    fun hash hout => (h.spawned hash hout).symm⟩

theorem trans (h : u.AlikeBut hashes v) (h' : v.AlikeBut hashes w) : u.AlikeBut hashes w :=
  ⟨fun hash hout => (h'.lastUsedAt hash hout).trans (h.lastUsedAt hash hout),
    fun hash hout => (h'.lastBumped hash hout).trans (h.lastBumped hash hout),
    fun hash hout => (h'.spawned hash hout).trans (h.spawned hash hout)⟩

theorem of_mem {hash : String} (h : u.AlikeBut [hash] v) (hmem : hash ∈ hashes) :
    u.AlikeBut hashes v := by
  have hout : ∀ other, other ∉ hashes → other ∉ [hash] :=
    fun other hother heq => hother (List.mem_singleton.1 heq ▸ hmem)
  exact ⟨fun other hother => h.lastUsedAt other (hout other hother),
    fun other hother => h.lastBumped other (hout other hother),
    fun other hother => h.spawned other (hout other hother)⟩

end AlikeBut

/-- A bump is for its own token only. -/
theorem alikeBut_bumpLastUsed (u : TokenUse) (instant : ℕ) (raw : String) :
    u.AlikeBut [tokenHash raw] (u.bumpLastUsed instant raw) := by
  unfold bumpLastUsed
  dsimp only
  split_ifs
  · refine ⟨fun _ _ => rfl, fun hash hout => ?_, fun hash hout => ?_⟩
    · exact if_neg fun heq => hout (List.mem_singleton.2 heq)
    · rw [List.count_append, List.count_eq_zero.2 hout, Nat.add_zero]
  · exact .refl _ u

/-- It depends on what is known of its token. -/
theorem AlikeBut.bumpLastUsed (h : u.AlikeBut hashes v) (instant : ℕ) (raw : String) :
    (u.bumpLastUsed instant raw).AlikeBut hashes (v.bumpLastUsed instant raw) := by
  by_cases hmem : tokenHash raw ∈ hashes
  · have hu := (alikeBut_bumpLastUsed u instant raw).of_mem hmem
    have hv := (alikeBut_bumpLastUsed v instant raw).of_mem hmem
    exact (hu.symm.trans h).trans hv
  · unfold TokenUse.bumpLastUsed
    dsimp only
    rw [h.lastBumped _ hmem]
    split_ifs
    · refine ⟨h.lastUsedAt, fun hash hout => ?_, fun hash hout => ?_⟩
      · dsimp only
        rw [h.lastBumped hash hout]
      · rw [List.count_append, List.count_append, h.spawned hash hout]
    · exact h

theorem AlikeBut.after (h : u.AlikeBut hashes v) (instant : ℕ)
    (admission : Except Rejection String) :
    (u.after instant admission).AlikeBut hashes (v.after instant admission) := by
  cases admission with
  | error e => exact h
  | ok token => exact h.bumpLastUsed instant token

/-- The end of an update is for its own token only. -/
theorem alikeBut_written {tokens : List ApiToken} {hash : String} {now : Option ℤ}
    (h : u.written tokens hash now = some v) : u.AlikeBut [hash] v := by
  rw [written] at h
  split_ifs at h
  rw [← Option.some.inj h]
  have hne : ∀ other, other ∉ [hash] → other ≠ hash :=
    fun other hout heq => hout (List.mem_singleton.2 heq)
  refine ⟨fun other hout => ?_, fun _ _ => rfl, fun other hout => ?_⟩
  · exact if_neg fun heq => hne other hout heq.1
  · exact List.count_erase_of_ne (hne other hout)

/-- An update that is under way in one of two states is so in the other. -/
theorem AlikeBut.written (h : u.AlikeBut hashes v) {tokens : List ApiToken} {hash : String}
    (hout : hash ∉ hashes) {now : Option ℤ} (hu : u.written tokens hash now = some w) :
    ∃ w', v.written tokens hash now = some w' ∧ w.AlikeBut hashes w' := by
  rw [TokenUse.written] at hu
  split_ifs at hu with hspawned
  rw [← Option.some.inj hu]
  have hspawned' : hash ∈ v.spawned := by
    rw [← List.count_pos_iff, h.spawned hash hout]
    exact List.count_pos_iff.2 hspawned
  refine ⟨_, if_pos hspawned', fun other hother => ?_, h.lastBumped, fun other hother => ?_⟩
  · dsimp only
    rw [h.lastUsedAt other hother]
  · dsimp only
    rw [List.count_erase, List.count_erase, h.spawned other hother]

end TokenUse

namespace RateLimiter

variable {l l' : RateLimiter} {token other : String}

theorem maxPerSecond_check (l : RateLimiter) (token : String) (nowSec : ℕ) :
    (l.check token nowSec).1.maxPerSecond = l.maxPerSecond := by
  unfold check
  dsimp only
  split_ifs <;> rfl

/-- A check counts for its own token only. -/
theorem counters_check_of_ne (h : other ≠ token) (l : RateLimiter) (nowSec : ℕ) :
    (l.check token nowSec).1.counters other = l.counters other := by
  have hrecord : ∀ entry, (l.record token entry).counters other = l.counters other :=
    fun entry => if_neg h
  unfold check
  dsimp only
  split_ifs
  · rfl
  · exact hrecord _
  · exact hrecord _
  · exact hrecord _

/-- It depends on the limit and on the counter of its token. -/
theorem check_congr (hmax : l'.maxPerSecond = l.maxPerSecond)
    (hcounter : l'.counters token = l.counters token) (nowSec : ℕ) :
    (l'.check token nowSec).2 = (l.check token nowSec).2 ∧
      (l'.check token nowSec).1.counters token = (l.check token nowSec).1.counters token := by
  have hrecord : ∀ (k : RateLimiter) entry, (k.record token entry).counters token = some entry :=
    fun k entry => if_pos rfl
  unfold check
  rw [hmax, hcounter]
  dsimp only
  split_ifs
  · exact ⟨rfl, hcounter⟩
  · exact ⟨rfl, by rw [hrecord, hrecord]⟩
  · exact ⟨rfl, by rw [hrecord, hrecord]⟩
  · exact ⟨rfl, by rw [hrecord, hrecord]⟩

end RateLimiter

section Readers

variable {V : VaultSetup} {readers : List String} {s s' t : GatewayState} {e : GatewayEvent}

/-- What the check of a token leaves of the others' counters. -/
theorem admit_fst (cache : List String) (limiter : RateLimiter) (nowSec : ℕ)
    (authorization : Option (List UInt8)) :
    (checkBearer cache limiter nowSec authorization).1 = limiter ∨
      ∃ token, extractBearer authorization = .ok token ∧
        (checkBearer cache limiter nowSec authorization).1 = (limiter.check token nowSec).1 := by
  unfold checkBearer
  cases extractBearer authorization with
  | error e => exact Or.inl rfl
  | ok token =>
    dsimp only
    split
    · refine Or.inr ⟨token, rfl, ?_⟩
      rcases limiter.check token nowSec with ⟨limiter', e | u⟩ <;> rfl
    · exact Or.inl rfl

/-- A harmless request leaves the tables and the caches alone. -/
theorem admin_of_harmless {r : ApiRequest} {answer : Except Rejection Reply} (hr : Harmless s r)
    (h : r.exec V s = some (t, answer)) : t.admin = s.admin := by
  obtain ⟨⟨admin, reply⟩, hserve, heq⟩ := Option.map_eq_some_iff.1 h
  rw [← (Prod.mk.inj heq).1]
  cases hchecked : (checkBearer s.admin.tokenCache s.limiter r.nowSec r.authorization).2 with
  | error e =>
    rw [hchecked, ApiRequest.serve] at hserve
    exact (Prod.mk.inj (Option.some.inj hserve)).1.symm
  | ok token =>
    rw [hchecked, ApiRequest.serve] at hserve
    split at hserve
    · exact (Prod.mk.inj (Option.some.inj hserve)).1.symm
    · rename_i hpasses
      rcases hr token ⟨(checkBearer_ok hchecked).1, (checkBearer_ok hchecked).2⟩ with hread |
        ⟨howner, hrole⟩
      · cases hroute : r.route with
        | read ownerOnly query =>
          rw [hroute, Route.handle] at hserve
          exact (Prod.mk.inj (Option.some.inj hserve)).1.symm
        | malformed ownerOnly reason =>
          rw [hroute, Route.handle] at hserve
          exact (Prod.mk.inj (Option.some.inj hserve)).1.symm
        | admin call audit => simp [hroute, Route.isRead] at hread
        | authorize call => simp [hroute, Route.isRead] at hread
        | bindExecution req => simp [hroute, Route.isRead] at hread
      · exact absurd (by simp [howner, ApiRequest.passesOwner, hrole]) hpasses

/-- What a hidden request leaves of the use of tokens. -/
theorem alikeBut_after {r : ApiRequest} (hborne : r.borneBy readers = true) (u : TokenUse)
    (cache : List String) (limiter : RateLimiter) :
    u.AlikeBut (readers.map tokenHash)
      (u.after r.instant (checkBearer cache limiter r.nowSec r.authorization).2) := by
  cases hchecked : (checkBearer cache limiter r.nowSec r.authorization).2 with
  | error e => exact .refl _ u
  | ok token =>
    have htoken : token ∈ readers := by
      simpa [ApiRequest.borneBy, (checkBearer_ok hchecked).1] using hborne
    exact (u.alikeBut_bumpLastUsed r.instant token).of_mem (List.mem_map_of_mem htoken)

/-- A hidden request that is harmless keeps the two states alike. -/
theorem alike_of_harmless (h : AlikeBut readers s s') {r : ApiRequest}
    (hborne : r.borneBy readers = true) (hr : Harmless s r) {answer : Except Rejection Reply}
    (hexec : r.exec V s = some (t, answer)) : AlikeBut readers t s' := by
  have hadmin := admin_of_harmless hr hexec
  obtain ⟨x, -, heq⟩ := Option.map_eq_some_iff.1 hexec
  have hlimiter : t.limiter
    = (checkBearer s.admin.tokenCache s.limiter r.nowSec r.authorization).1 := by
    rw [← (Prod.mk.inj heq).1]
  have huse : t.use.AlikeBut (readers.map tokenHash) s'.use := by
    have hafter := alikeBut_after hborne s.use s.admin.tokenCache s.limiter
    rw [← (Prod.mk.inj heq).1]
    exact hafter.symm.trans h.use
  rcases admit_fst s.admin.tokenCache s.limiter r.nowSec r.authorization with
    hsame | ⟨token, hbearer, hone⟩
  · rw [hsame] at hlimiter
    exact ⟨h.admin.trans hadmin.symm, hlimiter ▸ h.maxPerSecond, hlimiter ▸ h.counters, huse⟩
  · have htoken : token ∈ readers := by simpa [ApiRequest.borneBy, hbearer] using hborne
    rw [hone] at hlimiter
    refine ⟨h.admin.trans hadmin.symm, ?_, fun other hother => ?_, huse⟩
    · rw [hlimiter, RateLimiter.maxPerSecond_check, h.maxPerSecond]
    · have hne : other ≠ token := fun heq => hother (heq.symm ▸ htoken)
      rw [hlimiter, RateLimiter.counters_check_of_ne hne, h.counters other hother]

/-- The token of somebody else is admitted alike. -/
theorem admit_alike (h : AlikeBut readers s s') (nowSec : ℕ) {authorization : Option (List UInt8)}
    {token : String} (hbearer : extractBearer authorization = .ok token) (htoken : token ∉ readers)
    (admin : AdminState) {use use' : TokenUse} (huse : use.AlikeBut (readers.map tokenHash) use') :
    (checkBearer s'.admin.tokenCache s'.limiter nowSec authorization).2
        = (checkBearer s.admin.tokenCache s.limiter nowSec authorization).2 ∧
      AlikeBut readers
        ⟨admin, (checkBearer s.admin.tokenCache s.limiter nowSec authorization).1, use⟩
        ⟨admin, (checkBearer s'.admin.tokenCache s'.limiter nowSec authorization).1, use'⟩ := by
  have hcheck := RateLimiter.check_congr h.maxPerSecond (h.counters token htoken) nowSec
  have hmax := (RateLimiter.maxPerSecond_check s'.limiter token nowSec).trans
    (h.maxPerSecond.trans (RateLimiter.maxPerSecond_check s.limiter token nowSec).symm)
  have hcounters : ∀ other, other ∉ readers → (s'.limiter.check token nowSec).1.counters other
      = (s.limiter.check token nowSec).1.counters other := by
    intro other hother
    by_cases heq : other = token
    · rw [heq]
      exact hcheck.2
    · rw [RateLimiter.counters_check_of_ne heq, RateLimiter.counters_check_of_ne heq,
        h.counters other hother]
  unfold checkBearer
  rw [hbearer, h.admin]
  dsimp only
  split
  · rcases hl : s.limiter.check token nowSec with ⟨limiter, verdict⟩
    rcases hl' : s'.limiter.check token nowSec with ⟨limiter', verdict'⟩
    rw [hl, hl'] at hcheck hmax hcounters
    obtain rfl : verdict' = verdict := hcheck.1
    cases verdict' with
    | error e => exact ⟨rfl, rfl, hmax, hcounters, huse⟩
    | ok u => exact ⟨rfl, rfl, hmax, hcounters, huse⟩
  · exact ⟨rfl, rfl, h.maxPerSecond, h.counters, huse⟩

/-- A request of somebody else is answered alike. -/
theorem exec_alike (h : AlikeBut readers s s') {r : ApiRequest} (hr : r.borneBy readers = false)
    {answer : Except Rejection Reply} (hexec : r.exec V s = some (t, answer)) :
    ∃ t', r.exec V s' = some (t', answer) ∧ AlikeBut readers t t' := by
  cases hbearer : extractBearer r.authorization with
  | error e => simp [ApiRequest.borneBy, hbearer] at hr
  | ok token =>
    have htoken : token ∉ readers := by simpa [ApiRequest.borneBy, hbearer] using hr
    obtain ⟨⟨admin, reply⟩, hserve, heq⟩ := Option.map_eq_some_iff.1 hexec
    obtain ⟨rfl, rfl⟩ := Prod.mk.inj heq
    obtain ⟨hverdict, halike⟩ := admit_alike h r.nowSec hbearer htoken admin
      (h.use.after r.instant (checkBearer s.admin.tokenCache s.limiter r.nowSec r.authorization).2)
    refine ⟨_, ?_, halike⟩
    rw [ApiRequest.exec]
    dsimp only
    rw [hverdict, h.admin, hserve]
    rfl

/-- The other events do not look at the counters, nor at the use of others' tokens. -/
theorem step_alike (h : AlikeBut readers s s') (he : e.borneBy readers = false)
    {answer : Option (Except Rejection Reply)} (hstep : gatewayStep V s e = some (t, answer)) :
    ∃ t', gatewayStep V s' e = some (t', answer) ∧ AlikeBut readers t t' := by
  cases e with
  | request r =>
    obtain ⟨⟨u, reply⟩, hexec, heq⟩ := Option.map_eq_some_iff.1 hstep
    obtain ⟨rfl, rfl⟩ := Prod.mk.inj heq
    obtain ⟨u', hexec', halike⟩ := exec_alike h he hexec
    exact ⟨u', by rw [gatewayStep, hexec']; rfl, halike⟩
  | lastUsed hash now =>
    obtain ⟨use, hwritten, heq⟩ := Option.map_eq_some_iff.1 hstep
    obtain ⟨rfl, rfl⟩ := Prod.mk.inj heq
    have hout : hash ∉ readers.map tokenHash := by
      intro hmem
      rw [GatewayEvent.borneBy, List.contains_iff_mem.2 hmem] at he
      cases he
    obtain ⟨use', hwritten', halike⟩ := h.use.written hout hwritten
    refine ⟨⟨s'.admin, s'.limiter, use'⟩, ?_, h.admin, h.maxPerSecond, h.counters, halike⟩
    rw [gatewayStep, h.admin, hwritten']
    rfl
  | refreshTokens refresh =>
    obtain ⟨rfl, rfl⟩ := Prod.mk.inj (Option.some.inj hstep)
    exact ⟨_, rfl, by rw [h.admin], h.maxPerSecond, h.counters, h.use⟩
  | refreshShadow =>
    obtain ⟨rfl, rfl⟩ := Prod.mk.inj (Option.some.inj hstep)
    exact ⟨_, rfl, by rw [h.admin], h.maxPerSecond, h.counters, h.use⟩
  | work e =>
    rw [gatewayStep] at hstep
    split_ifs at hstep with hwork
    obtain ⟨sys, hsys, heq⟩ := Option.map_eq_some_iff.1 hstep
    obtain ⟨rfl, rfl⟩ := Prod.mk.inj heq
    refine ⟨⟨{ s'.admin with sys := sys }, s'.limiter, s'.use⟩, ?_, by rw [h.admin], h.maxPerSecond,
      h.counters, h.use⟩
    rw [gatewayStep, if_pos hwork, h.admin, hsys]
    rfl
  | restart env envDefault now maxPerSecond =>
    obtain ⟨rfl, rfl⟩ := Prod.mk.inj (Option.some.inj hstep)
    exact ⟨_, rfl, by rw [h.admin], rfl, fun _ _ => rfl, h.use.lastUsedAt, fun _ _ => rfl,
      fun _ _ => rfl⟩

/-- **Readers leave no trace.**  Take any run and any tokens whose requests only read, or try
without an owner's role what only owners may, or find their token invalid: without these requests,
and without those that bear no token, all others get the same answers, and the tables and caches end
up the same, but for the time of last use, its debounce and the counters of these tokens. -/
theorem readers_leave_no_trace (V : VaultSetup) (readers : List String) {s t : GatewayState}
    {es : List GatewayEvent} {answers : List (Option (Except Rejection Reply))}
    (hplay : Interference.play (gatewayStep V) s es = some (t, answers))
    (hharmless : Run.Along (Interference.states (gatewayStep V))
      (fun s e => ∀ r, e = .request r → r.borneBy readers = true → Harmless s r) s es) :
    ∃ t', Interference.play (gatewayStep V) s (es.filter fun e => !e.borneBy readers)
        = some (t', Interference.heard (GatewayEvent.borneBy readers) es answers) ∧
      AlikeBut readers t t' := by
  have hrefl : AlikeBut readers s s := ⟨rfl, rfl, fun _ _ => rfl, .refl _ _⟩
  have hhidden : ∀ s s' e t answer, AlikeBut readers s s' →
      (∀ r, e = .request r → r.borneBy readers = true → Harmless s r) →
      e.borneBy readers = true → gatewayStep V s e = some (t, answer) → AlikeBut readers t s' := by
    intro s s' e t answer halike hknown he hstep
    cases e with
    | request r =>
      obtain ⟨⟨u, reply⟩, hexec, heq⟩ := Option.map_eq_some_iff.1 hstep
      obtain ⟨rfl, rfl⟩ := Prod.mk.inj heq
      exact alike_of_harmless halike he (hknown r rfl he) hexec
    | lastUsed hash now =>
      obtain ⟨use, hwritten, heq⟩ := Option.map_eq_some_iff.1 hstep
      obtain ⟨rfl, rfl⟩ := Prod.mk.inj heq
      have hown := (TokenUse.alikeBut_written hwritten).of_mem (List.contains_iff_mem.1 he)
      exact ⟨halike.admin, halike.maxPerSecond, halike.counters, hown.symm.trans halike.use⟩
    | refreshTokens refresh => cases he
    | refreshShadow => cases he
    | work e => cases he
    | restart env envDefault now maxPerSecond => cases he
  exact Interference.play_drop hhidden
    (fun s s' e t answer h he hstep => step_alike h he hstep) hplay hharmless hrefl

/-- A client lists the orphans, and its use is recorded, before the shadow mode is refreshed. -/
theorem readers_leave_no_trace_listing : ∃ t answer t',
    Interference.play (gatewayStep (.sealing [])) (.serving .client)
      [.request (.bearing (.listing (.sealing []) .orphans)), .lastUsed (tokenHash "t") (some 0),
        .refreshShadow] = some (t, [answer, none, none]) ∧
      t.use.lastUsedAt (tokenHash "t") = some 0 ∧
      Interference.play (gatewayStep (.sealing [])) (.serving .client) [.refreshShadow]
        = some (t', [none]) ∧
      AlikeBut ["t"] t t' := by
  have hexec := exec_bearing (.sealing []) .client (.listing (.sealing []) .orphans) (Or.inl rfl)
  obtain ⟨answer, hlisted⟩ : ∃ answer, gatewayStep (.sealing []) (.serving .client)
      (.request (.bearing (.listing (.sealing []) .orphans)))
        = some (⟨(GatewayState.serving .client).admin, .new 0, .once⟩, answer) := by
    rw [gatewayStep, hexec]
    exact ⟨_, rfl⟩
  have hspawned : tokenHash "t" ∈ TokenUse.once.spawned := List.mem_singleton_self _
  obtain ⟨use, hwritten, hused⟩ : ∃ use, TokenUse.once.written
      (GatewayState.serving .client).admin.tokens (tokenHash "t") (some 0) = some use ∧
        use.lastUsedAt (tokenHash "t") = some 0 := by
    refine ⟨_, if_pos hspawned, ?_⟩
    dsimp only
    rw [if_pos ⟨rfl, List.mem_singleton_self _⟩]
    rfl
  have hplay : Interference.play (gatewayStep (.sealing [])) (.serving .client)
      [.request (.bearing (.listing (.sealing []) .orphans)), .lastUsed (tokenHash "t") (some 0),
        .refreshShadow]
        = some (⟨(GatewayState.serving .client).admin, .new 0, use⟩, [answer, none, none]) := by
    refine Interference.play_cons_eq_some.2 ⟨_, _, _, hlisted, ?_, rfl⟩
    refine Interference.play_cons_eq_some.2
      ⟨⟨(GatewayState.serving .client).admin, .new 0, use⟩, none, _, ?_, rfl, rfl⟩
    rw [gatewayStep, hwritten]
    rfl
  have hharmless : Run.Along (Interference.states (gatewayStep (.sealing [])))
      (fun s e => ∀ r, e = .request r → r.borneBy ["t"] = true → Harmless s r) (.serving .client)
      [.request (.bearing (.listing (.sealing []) .orphans)), .lastUsed (tokenHash "t") (some 0),
        .refreshShadow] := by
    refine Run.along_of_forall_state ?_ _
    intro e he s r hr _ token _
    simp only [List.mem_cons, List.not_mem_nil, or_false] at he
    rcases he with rfl | rfl | rfl
    · cases hr
      exact Or.inl rfl
    · cases hr
    · cases hr
  obtain ⟨t', hplay', halike⟩ := readers_leave_no_trace (.sealing []) ["t"] hplay hharmless
  have hrequest : GatewayEvent.borneBy ["t"]
      (.request (.bearing (.listing (.sealing []) .orphans))) = true := by
    rw [GatewayEvent.borneBy, ApiRequest.borneBy, bearer_bearing]
    rfl
  have hupdate : GatewayEvent.borneBy ["t"] (.lastUsed (tokenHash "t") (some 0)) = true :=
    List.contains_iff_mem.2 (List.mem_singleton_self _)
  have hrefresh : GatewayEvent.borneBy ["t"] .refreshShadow = false := rfl
  refine ⟨_, answer, t', hplay, hused, ?_, halike⟩
  simpa [List.filter, Interference.heard, hrequest, hupdate, hrefresh] using hplay'

end Readers

end IrlEngine
