import IrlEngine.Mta
import IrlEngine.Lib.Run

/-!
# The cache of the Market Truth Anchor client

`fetch_verified` of `mta.rs`: a cached state younger than 100 ms is returned at once; otherwise the
client fetches, and caches what it has verified; if the fetch fails, for whatever reason, a cached
state younger than 60 s is returned in its place.  The cache is read and written at different times
of a call, and calls overlap.  Times are in nanoseconds of a monotone clock.

* `forgery_reported_iff` — when a call reports the failure of its own fetch;
* `mtaStep` — calls one step at a time, so that a list of events is an interleaving of them;
* `mta_staleness_bounded` — every state returned was verified, and written to the cache less than
  60 s before.
-/

namespace IrlEngine

/-! ## One call -/

/-- The cache entry. -/
structure CachedMta where
  state : MtaState
  /-- The clock at the write. -/
  fetchedAt : ℕ
  deriving DecidableEq, Repr

/-- How long a state is served without a fetch, in milliseconds. -/
def cacheTtlMs : ℕ := 100

/-- How long it stands in for a failed fetch, in seconds. -/
def fallbackTtlSecs : ℕ := 60

/-- Nanoseconds in a millisecond. -/
def nanosPerMilli : ℕ := 1000000

/-- Nanoseconds in a second. -/
def nanosPerSec : ℕ := 1000000000

/-- `fetched_at.elapsed()`. -/
def CachedMta.elapsed (c : CachedMta) (now : ℕ) : ℕ := now - c.fetchedAt

/-- The fast path: a cached state that is fresh. -/
def freshState (cache : Option CachedMta) (now : ℕ) : Option MtaState :=
  match cache with
  | some c => if c.elapsed now < cacheTtlMs * nanosPerMilli then some c.state else none
  | none => none

/-- The circuit breaker: the last known state, if its age in whole seconds is within the window. -/
def fallbackState (cache : Option CachedMta) (now : ℕ) (e : AppError) : Except AppError MtaState :=
  match cache with
  | some c => if c.elapsed now / nanosPerSec < fallbackTtlSecs then .ok c.state else .error e
  | none => .error e

theorem freshState_eq_some {cache : Option CachedMta} {now : ℕ} {mta : MtaState}
    (h : freshState cache now = some mta) :
    ∃ c, cache = some c ∧ c.state = mta ∧ c.elapsed now < fallbackTtlSecs * nanosPerSec := by
  unfold freshState at h
  split at h
  · next c =>
    split at h
    · next hfresh =>
      refine ⟨c, rfl, Option.some.inj h, hfresh.trans ?_⟩
      decide
    · cases h
  · cases h

theorem fallbackState_eq_ok {cache : Option CachedMta} {now : ℕ} {e : AppError} {mta : MtaState} :
    fallbackState cache now e = .ok mta ↔
      ∃ c, cache = some c ∧ c.state = mta ∧ c.elapsed now < fallbackTtlSecs * nanosPerSec := by
  have hsecs : ∀ n : ℕ, n / nanosPerSec < fallbackTtlSecs ↔ n < fallbackTtlSecs * nanosPerSec :=
    fun n => Nat.div_lt_iff_lt_mul (by decide)
  unfold fallbackState
  cases cache with
  | none => simp
  | some c =>
    by_cases hage : c.elapsed now < fallbackTtlSecs * nanosPerSec
    · simp [hsecs, hage]
    · simp [hsecs, hage]

/-- The slow path of a call: `response` is what the endpoint answers, `cache` and `now` what the
fallback finds. -/
def fetchVerifiedSlow (K : Crates) (wire : List UInt8 → Except String RawMtaResponse)
    (pubkey : List UInt8) (response : Except String (List UInt8)) (cache : Option CachedMta)
    (now : ℕ) : Except AppError MtaState :=
  match fetchAndVerify K wire pubkey response with
  | .ok state => .ok state
  | .error e => fallbackState cache now e

/-! ## Forged broadcasts -/

/-- The endpoint has answered with a response whose signature does not verify. -/
def Forged (K : Crates) (wire : List UInt8 → Except String RawMtaResponse) (pubkey : List UInt8)
    (response : Except String (List UInt8)) : Prop :=
  ∃ body raw, response = .ok body ∧ wire body = .ok raw ∧
    verifyMtaSignature K pubkey body raw ≠ .ok ()

/-- The endpoint has not answered, or with a response that is decoded and verified. -/
def UnreachableOrValid (K : Crates) (wire : List UInt8 → Except String RawMtaResponse)
    (pubkey : List UInt8) (response : Except String (List UInt8)) : Prop :=
  ∀ body, response = .ok body → ∃ raw, wire body = .ok raw ∧
    verifyMtaSignature K pubkey body raw = .ok ()

/-- No state has been cached within the window. -/
def NoRecentState (cache : Option CachedMta) (now : ℕ) : Prop :=
  ∀ c, cache = some c → fallbackTtlSecs ≤ c.elapsed now / nanosPerSec

section Forgery

variable {K : Crates} {wire : List UInt8 → Except String RawMtaResponse} {pubkey : List UInt8}
  {response : Except String (List UInt8)} {cache : Option CachedMta} {now : ℕ}

/-- Every check of the signature fails in the same way. -/
theorem verifyMtaSignature_cases (body : List UInt8) (raw : RawMtaResponse) :
    verifyMtaSignature K pubkey body raw = .ok () ∨
      verifyMtaSignature K pubkey body raw = .error .mtaSignatureInvalid := by
  unfold verifyMtaSignature
  split
  · exact Or.inr rfl
  · split
    · exact Or.inr rfl
    · split
      · exact Or.inr rfl
      · split
        · exact Or.inl rfl
        · exact Or.inr rfl

theorem fetchAndVerify_forged (h : Forged K wire pubkey response) :
    fetchAndVerify K wire pubkey response = .error .mtaSignatureInvalid := by
  obtain ⟨body, raw, rfl, hwire, hverify⟩ := h
  have hinvalid := (verifyMtaSignature_cases body raw).resolve_left hverify
  unfold fetchAndVerify
  simp only [hwire, hinvalid]

theorem unreachableOrValid_of_ok {mta : MtaState}
    (h : fetchAndVerify K wire pubkey response = .ok mta) :
    UnreachableOrValid K wire pubkey response := by
  obtain ⟨body, raw, rfl, hwire, hverify, -⟩ := fetchAndVerify_ok h
  intro body' hbody
  obtain rfl := Except.ok.inj hbody
  exact ⟨raw, hwire, hverify⟩

theorem fallbackState_of_noRecent (h : NoRecentState cache now) (e : AppError) :
    fallbackState cache now e = .error e := by
  unfold fallbackState
  cases cache with
  | none => rfl
  | some c => exact if_neg (not_lt.2 (h c rfl))

/-- **When a forged broadcast is reported.**  A response whose signature does not verify is answered
with `MtaSignatureInvalid`, and the fallback is taken for an unreachable endpoint only, exactly if
the endpoint was unreachable, or has sent a valid response, or no state has been cached within
the window: the fallback does not ask why the fetch has failed. -/
theorem forgery_reported_iff (K : Crates) (wire : List UInt8 → Except String RawMtaResponse)
    (pubkey : List UInt8) (response : Except String (List UInt8)) (cache : Option CachedMta)
    (now : ℕ) :
    ((Forged K wire pubkey response →
        fetchVerifiedSlow K wire pubkey response cache now = .error .mtaSignatureInvalid) ∧
      ((∃ e, fetchAndVerify K wire pubkey response = .error e) →
        (∃ mta, fetchVerifiedSlow K wire pubkey response cache now = .ok mta) →
        ∃ e, response = .error e)) ↔
      UnreachableOrValid K wire pubkey response ∨ NoRecentState cache now := by
  constructor
  · rintro ⟨-, hfallback⟩
    by_contra hneither
    obtain ⟨hinvalid, hrecent⟩ := not_or.1 hneither
    unfold NoRecentState at hrecent
    push Not at hrecent
    obtain ⟨c, rfl, hage⟩ := hrecent
    cases hfetch : fetchAndVerify K wire pubkey response with
    | ok mta => exact hinvalid (unreachableOrValid_of_ok hfetch)
    | error e =>
      have hslow : fetchVerifiedSlow K wire pubkey response (some c) now = .ok c.state := by
        unfold fetchVerifiedSlow
        rw [hfetch]
        exact if_pos hage
      obtain ⟨e', rfl⟩ := hfallback ⟨e, hfetch⟩ ⟨c.state, hslow⟩
      exact hinvalid fun body hbody => absurd hbody (by simp)
  · rintro (hvalid | hnone)
    · constructor
      · rintro ⟨body, raw, rfl, hwire, hverify⟩
        obtain ⟨raw', hwire', hverify'⟩ := hvalid body rfl
        obtain rfl : raw' = raw := Except.ok.inj (hwire'.symm.trans hwire)
        exact absurd hverify' hverify
      · rintro ⟨e, hfetch⟩ -
        cases response with
        | error e' => exact ⟨e', rfl⟩
        | ok body =>
          obtain ⟨raw, hwire, hverify⟩ := hvalid body rfl
          simp [fetchAndVerify, hwire, hverify] at hfetch
    · have hslow : ∀ e, fetchAndVerify K wire pubkey response = .error e →
          fetchVerifiedSlow K wire pubkey response cache now = .error e := by
        intro e hfetch
        unfold fetchVerifiedSlow
        rw [hfetch]
        exact fallbackState_of_noRecent hnone e
      constructor
      · exact fun hforged => hslow _ (fetchAndVerify_forged hforged)
      · rintro ⟨e, hfetch⟩ ⟨mta, hmta⟩
        rw [hslow e hfetch] at hmta
        cases hmta

end Forgery

/-! A response for regime 0 under a key that has not signed it, one second after the last good
one. -/

/-- Parsing as before, and no signature verifies. -/
noncomputable def Crates.unsigned : Crates :=
  { Crates.parsing with ed25519Verify := fun _ _ _ => false }

theorem forged_sampleBody :
    Forged .unsigned sampleWire [] (.ok (sampleBody F64.one ["long"])) := by
  refine ⟨_, sampleRaw, rfl, sampleWire_sampleBody _ _, ?_⟩
  have hvalue : Crates.unsigned.fromSlice (sampleBody F64.one ["long"])
      = .ok (sampleResponse F64.one ["long"]) := fromSlice_sampleBody F64.one ["long"]
  have hunsigned : ∀ payload sig, Crates.unsigned.ed25519Verify [] payload sig = false :=
    fun _ _ => rfl
  unfold verifyMtaSignature
  simp [base64Decode_sampleRaw, hvalue, hunsigned]

/-- The old state is returned in its place. -/
theorem forgery_masked :
    Forged .unsigned sampleWire [] (.ok (sampleBody F64.one ["long"])) ∧
      fetchVerifiedSlow .unsigned sampleWire [] (.ok (sampleBody F64.one ["long"]))
        (some ⟨.sample, 0⟩) nanosPerSec = .ok .sample := by
  refine ⟨forged_sampleBody, ?_⟩
  unfold fetchVerifiedSlow
  rw [fetchAndVerify_forged forged_sampleBody]
  rfl

/-! ## Overlapping calls -/

/-- Where an answer comes from. -/
inductive MtaSource where
  | cache
  | fetch
  | fallback
  deriving DecidableEq, Repr

/-- The phases of a call of `fetch_verified`. -/
inductive MtaCall where
  | fetching
  | fetched (state : MtaState)
  | failed (e : AppError)
  | returned (source : MtaSource) (answer : Except AppError MtaState) (time : ℕ)

/-- The client, with a record of the fetches that have succeeded and of the writes to the cache. -/
structure MtaClient where
  now : ℕ
  cache : Option CachedMta
  calls : List MtaCall
  verified : List (MtaState × ℕ)
  written : List CachedMta

/-- A client that has fetched nothing. -/
def MtaClient.init : MtaClient := ⟨0, none, [], [], []⟩

/-- The clock, and the accesses of calls, each named by its place. -/
inductive MtaEvent where
  /-- Time passes. -/
  | tick (nanos : ℕ)
  /-- A call begins and reads the cache. -/
  | call
  /-- The endpoint answers a call, or fails to. -/
  | fetch (k : ℕ) (response : Except String (List UInt8))
  /-- A call writes what it has verified to the cache, and returns it. -/
  | write (k : ℕ)
  /-- A call whose fetch has failed reads the cache again, and returns. -/
  | fallback (k : ℕ)

/-- The client with one call replaced. -/
def MtaClient.setCall (s : MtaClient) (k : ℕ) (call : MtaCall) : MtaClient :=
  { s with calls := s.calls.set k call }

/-- The step of an event. -/
def mtaStep (K : Crates) (wire : List UInt8 → Except String RawMtaResponse) (pubkey : List UInt8)
    (s : MtaClient) : MtaEvent → Option MtaClient
  | .tick nanos => some { s with now := s.now + nanos }
  | .call =>
    match freshState s.cache s.now with
    | some state => some { s with calls := s.calls ++ [.returned .cache (.ok state) s.now] }
    | none => some { s with calls := s.calls ++ [.fetching] }
  | .fetch k response =>
    match s.calls[k]? with
    | some .fetching =>
      match fetchAndVerify K wire pubkey response with
      | .ok state =>
        some { s.setCall k (.fetched state) with verified := s.verified ++ [(state, s.now)] }
      | .error e => some (s.setCall k (.failed e))
    | _ => none
  | .write k =>
    match s.calls[k]? with
    | some (.fetched state) =>
      some { s.setCall k (.returned .fetch (.ok state) s.now) with
        cache := some ⟨state, s.now⟩
        written := s.written ++ [⟨state, s.now⟩] }
    | _ => none
  | .fallback k =>
    match s.calls[k]? with
    | some (.failed e) =>
      some (s.setCall k (.returned .fallback (fallbackState s.cache s.now e) s.now))
    | _ => none

/-! ## What a step can do -/

/-- The steps of a client, with what they depend on. -/
inductive MtaStep (K : Crates) (wire : List UInt8 → Except String RawMtaResponse)
    (pubkey : List UInt8) (s : MtaClient) : MtaClient → Prop where
  | tick (nanos : ℕ) : MtaStep K wire pubkey s { s with now := s.now + nanos }
  | hit {state : MtaState} (h : freshState s.cache s.now = some state) :
      MtaStep K wire pubkey s { s with calls := s.calls ++ [.returned .cache (.ok state) s.now] }
  | miss : MtaStep K wire pubkey s { s with calls := s.calls ++ [.fetching] }
  | fetched (k : ℕ) {response : Except String (List UInt8)} {state : MtaState}
      (h : fetchAndVerify K wire pubkey response = .ok state) :
      MtaStep K wire pubkey s
        { s.setCall k (.fetched state) with verified := s.verified ++ [(state, s.now)] }
  | failed (k : ℕ) (e : AppError) : MtaStep K wire pubkey s (s.setCall k (.failed e))
  | write (k : ℕ) {state : MtaState} (h : .fetched state ∈ s.calls) :
      MtaStep K wire pubkey s
        { s.setCall k (.returned .fetch (.ok state) s.now) with
          cache := some ⟨state, s.now⟩
          written := s.written ++ [⟨state, s.now⟩] }
  | fallback (k : ℕ) (e : AppError) :
      MtaStep K wire pubkey s
        (s.setCall k (.returned .fallback (fallbackState s.cache s.now e) s.now))

section Runs

variable {K : Crates} {wire : List UInt8 → Except String RawMtaResponse} {pubkey : List UInt8}
  {s t : MtaClient}

theorem mtaStep_cases {ev : MtaEvent} (h : mtaStep K wire pubkey s ev = some t) :
    MtaStep K wire pubkey s t := by
  cases ev with
  | tick nanos =>
    obtain rfl := Option.some.inj h
    exact .tick nanos
  | call =>
    simp only [mtaStep] at h
    split at h
    · next state hfresh =>
      obtain rfl := Option.some.inj h
      exact .hit hfresh
    · obtain rfl := Option.some.inj h
      exact .miss
  | fetch k response =>
    simp only [mtaStep] at h
    split at h
    · split at h
      · next state hfetch =>
        obtain rfl := Option.some.inj h
        exact .fetched k hfetch
      · next e _ =>
        obtain rfl := Option.some.inj h
        exact .failed k e
    · cases h
  | write k =>
    simp only [mtaStep] at h
    split at h
    · next state hcall =>
      obtain rfl := Option.some.inj h
      exact .write k (List.mem_of_getElem? hcall)
    · cases h
  | fallback k =>
    simp only [mtaStep] at h
    split at h
    · next e _ =>
      obtain rfl := Option.some.inj h
      exact .fallback k e
    · cases h

/-! ## The invariant -/

/-- The state was in the cache at this time, written less than 60 s before. -/
def WrittenRecently (s : MtaClient) (state : MtaState) (time : ℕ) : Prop :=
  ∃ c ∈ s.written, c.state = state ∧ c.fetchedAt ≤ time ∧
    time - c.fetchedAt < fallbackTtlSecs * nanosPerSec

/-- What a call may rely on, and has returned. -/
def CallBacked (s : MtaClient) : MtaCall → Prop
  | .fetched state => ∃ time ≤ s.now, (state, time) ∈ s.verified
  | .returned _ answer time => ∀ state, answer = .ok state → WrittenRecently s state time
  | _ => True

/-- What is cached and what is answered has been fetched and verified. -/
structure MtaInv (K : Crates) (wire : List UInt8 → Except String RawMtaResponse)
    (pubkey : List UInt8) (s : MtaClient) : Prop where
  verified : ∀ v ∈ s.verified, ∃ response, fetchAndVerify K wire pubkey response = .ok v.1
  written : ∀ c ∈ s.written, c.fetchedAt ≤ s.now ∧
    ∃ time ≤ c.fetchedAt, (c.state, time) ∈ s.verified
  cached : ∀ c, s.cache = some c → c ∈ s.written
  calls : ∀ call ∈ s.calls, CallBacked s call

theorem CallBacked.mono {call : MtaCall} (h : CallBacked s call) (hnow : s.now ≤ t.now)
    (hverified : s.verified ⊆ t.verified) (hwritten : s.written ⊆ t.written) :
    CallBacked t call := by
  cases call with
  | fetching => trivial
  | fetched state =>
    obtain ⟨time, hle, hmem⟩ := h
    exact ⟨time, hle.trans hnow, hverified hmem⟩
  | failed e => trivial
  | returned source answer time =>
    intro state hok
    obtain ⟨c, hc, hstate⟩ := h state hok
    exact ⟨c, hwritten hc, hstate⟩

/-- A cached state within the window was written recently. -/
theorem MtaInv.writtenRecently (h : MtaInv K wire pubkey s) {c : CachedMta}
    (hcache : s.cache = some c) (hage : c.elapsed s.now < fallbackTtlSecs * nanosPerSec) :
    WrittenRecently s c.state s.now :=
  ⟨c, h.cached c hcache, rfl, (h.written c (h.cached c hcache)).1, hage⟩

/-- The new call is backed, and so are the others. -/
theorem MtaInv.setCall (h : MtaInv K wire pubkey s) (k : ℕ) {call : MtaCall}
    (hcall : CallBacked s call) : MtaInv K wire pubkey (s.setCall k call) := by
  refine ⟨h.verified, h.written, h.cached, fun call' hcall' => ?_⟩
  rcases List.mem_or_eq_of_mem_set hcall' with hold | rfl
  · exact h.calls call' hold
  · exact hcall

theorem MtaInv.addCall (h : MtaInv K wire pubkey s) {call : MtaCall} (hcall : CallBacked s call) :
    MtaInv K wire pubkey { s with calls := s.calls ++ [call] } := by
  refine ⟨h.verified, h.written, h.cached, fun call' hcall' => ?_⟩
  rcases List.mem_append.1 hcall' with hold | hnew
  · exact h.calls call' hold
  · rw [List.mem_singleton.1 hnew]
    exact hcall

theorem MtaInv.addVerified (h : MtaInv K wire pubkey s) {response : Except String (List UInt8)}
    {state : MtaState} (hfetch : fetchAndVerify K wire pubkey response = .ok state) :
    MtaInv K wire pubkey { s with verified := s.verified ++ [(state, s.now)] } := by
  refine ⟨fun v hv => ?_, fun c hc => ?_, h.cached, fun call hcall => ?_⟩
  · rcases List.mem_append.1 hv with hold | hnew
    · exact h.verified v hold
    · rw [List.mem_singleton.1 hnew]
      exact ⟨response, hfetch⟩
  · obtain ⟨hle, time, htime, hmem⟩ := h.written c hc
    exact ⟨hle, time, htime, List.mem_append_left _ hmem⟩
  · exact (h.calls call hcall).mono le_rfl (List.subset_append_left _ _) (List.Subset.refl _)

theorem MtaInv.addWritten (h : MtaInv K wire pubkey s) {state : MtaState}
    (hverified : ∃ time ≤ s.now, (state, time) ∈ s.verified) :
    MtaInv K wire pubkey
      { s with cache := some ⟨state, s.now⟩, written := s.written ++ [⟨state, s.now⟩] } := by
  refine ⟨h.verified, fun c hc => ?_, fun c hcache => ?_, fun call hcall => ?_⟩
  · rcases List.mem_append.1 hc with hold | hnew
    · exact h.written c hold
    · rw [List.mem_singleton.1 hnew]
      exact ⟨le_rfl, hverified⟩
  · rw [← Option.some.inj hcache]
    exact List.mem_append_right _ (List.mem_singleton_self _)
  · exact (h.calls call hcall).mono le_rfl (List.Subset.refl _) (List.subset_append_left _ _)

theorem mtaInv_init : MtaInv K wire pubkey .init := by
  refine ⟨?_, ?_, ?_, ?_⟩ <;> simp [MtaClient.init]

theorem MtaInv.step (h : MtaInv K wire pubkey s) (hstep : MtaStep K wire pubkey s t) :
    MtaInv K wire pubkey t := by
  cases hstep with
  | tick nanos =>
    refine ⟨h.verified, fun c hc => ?_, h.cached, fun call hcall => ?_⟩
    · exact ⟨(h.written c hc).1.trans (Nat.le_add_right _ _), (h.written c hc).2⟩
    · exact (h.calls call hcall).mono (Nat.le_add_right _ _) (List.Subset.refl _)
        (List.Subset.refl _)
  | hit hfresh =>
    obtain ⟨c, hcache, rfl, hage⟩ := freshState_eq_some hfresh
    refine h.addCall fun state hok => ?_
    obtain rfl := Except.ok.inj hok
    exact h.writtenRecently hcache hage
  | miss => exact h.addCall trivial
  | @fetched k response state hfetch =>
    exact (h.addVerified hfetch).setCall k ⟨s.now, le_rfl, by simp⟩
  | failed k e => exact h.setCall k trivial
  | @write k state hcall =>
    refine (h.addWritten (h.calls _ hcall)).setCall k fun state' hok => ?_
    obtain rfl := Except.ok.inj hok
    refine ⟨⟨state, s.now⟩, by simp, rfl, le_rfl, ?_⟩
    rw [Nat.sub_self]
    decide
  | fallback k e =>
    refine h.setCall k fun state hok => ?_
    obtain ⟨c, hcache, rfl, hage⟩ := fallbackState_eq_ok.1 hok
    exact h.writtenRecently hcache hage

theorem mtaInv_of_run {es : List MtaEvent}
    (hrun : Run.run (mtaStep K wire pubkey) .init es = some s) : MtaInv K wire pubkey s :=
  Run.run_invariant (fun _ _ _ h hstep => h.step (mtaStep_cases hstep)) hrun mtaInv_init

end Runs

/-- **Bounded staleness.**  In every interleaving of calls, whatever the fetches bring: a state that
a call returns was verified by some fetch, and was written to the cache after that and less than
60 s before; so with no write in the last 60 s, a call that has not fetched successfully itself
returns an error. -/
theorem mta_staleness_bounded (K : Crates) (wire : List UInt8 → Except String RawMtaResponse)
    (pubkey : List UInt8) {es : List MtaEvent} {s : MtaClient}
    (hrun : Run.run (mtaStep K wire pubkey) .init es = some s) {source : MtaSource}
    {answer : Except AppError MtaState} {time : ℕ}
    (hcall : .returned source answer time ∈ s.calls) :
    (∀ mta, answer = .ok mta →
      (∃ response, fetchAndVerify K wire pubkey response = .ok mta) ∧
      ∃ c ∈ s.written, c.state = mta ∧ (∃ t ≤ c.fetchedAt, (mta, t) ∈ s.verified) ∧
        c.fetchedAt ≤ time ∧ time < c.fetchedAt + 60 * nanosPerSec) ∧
    (source ≠ .fetch →
      (∀ c ∈ s.written, c.fetchedAt ≤ time → c.fetchedAt + 60 * nanosPerSec ≤ time) →
      ∃ e, answer = .error e) := by
  have hinv := mtaInv_of_run hrun
  have hbacked : ∀ mta, answer = .ok mta → WrittenRecently s mta time := hinv.calls _ hcall
  constructor
  · intro mta hok
    obtain ⟨c, hc, rfl, hle, hage⟩ := hbacked mta hok
    obtain ⟨-, t, ht, hverified⟩ := hinv.written c hc
    have hwindow : time - c.fetchedAt < 60 * nanosPerSec := hage
    exact ⟨hinv.verified _ hverified, c, hc, rfl, ⟨t, ht, hverified⟩, hle, by omega⟩
  · intro _ hnone
    cases hanswer : answer with
    | error e => exact ⟨e, rfl⟩
    | ok mta =>
      obtain ⟨c, hc, -, hle, hage⟩ := hbacked mta hanswer
      have hold := hnone c hc hle
      have hwindow : time - c.fetchedAt < 60 * nanosPerSec := hage
      omega

/-! A call that is stalled for 61 s between its fetch and its write, and another one after it. -/

/-- The state of the sample response. -/
def sampleMta : MtaState := sampleRaw.adapt [] (sampleBody F64.one ["long"])

/-- A call whose response is verified long before it is written. -/
def stalledEvents : List MtaEvent :=
  [.call, .fetch 0 (.ok (sampleBody F64.one ["long"])), .tick (61 * nanosPerSec), .write 0, .call]

/-- The client after that call. -/
def stalledClient : MtaClient where
  now := 61 * nanosPerSec
  cache := some ⟨sampleMta, 61 * nanosPerSec⟩
  calls := [.returned .fetch (.ok sampleMta) (61 * nanosPerSec),
    .returned .cache (.ok sampleMta) (61 * nanosPerSec)]
  verified := [(sampleMta, 0)]
  written := [⟨sampleMta, 61 * nanosPerSec⟩]

theorem run_stalled :
    Run.run (mtaStep .broadcast sampleWire []) .init stalledEvents = some stalledClient := by
  have hfetch : fetchAndVerify .broadcast sampleWire [] (.ok (sampleBody F64.one ["long"]))
      = .ok sampleMta := fetch_sampleBody F64.one ["long"]
  have hcall : mtaStep .broadcast sampleWire [] .init .call
      = some ⟨0, none, [.fetching], [], []⟩ := rfl
  have hfetched : mtaStep .broadcast sampleWire [] ⟨0, none, [.fetching], [], []⟩
      (.fetch 0 (.ok (sampleBody F64.one ["long"])))
      = some ⟨0, none, [.fetched sampleMta], [(sampleMta, 0)], []⟩ := by
    simp only [mtaStep, List.getElem?_cons_zero, hfetch]
    rfl
  have hwritten : mtaStep .broadcast sampleWire []
      ⟨0 + 61 * nanosPerSec, none, [.fetched sampleMta], [(sampleMta, 0)], []⟩ (.write 0)
      = some { stalledClient with
          calls := [.returned .fetch (.ok sampleMta) (61 * nanosPerSec)] } := by
    rw [Nat.zero_add]
    rfl
  have hfresh : freshState (some ⟨sampleMta, 61 * nanosPerSec⟩) (61 * nanosPerSec)
    = some sampleMta := by
    have hage : CachedMta.elapsed ⟨sampleMta, 61 * nanosPerSec⟩ (61 * nanosPerSec) = 0 :=
      Nat.sub_self _
    simp [freshState, hage, cacheTtlMs, nanosPerMilli]
  have hhit : mtaStep .broadcast sampleWire [] { stalledClient with
      calls := [.returned .fetch (.ok sampleMta) (61 * nanosPerSec)] } .call
      = some stalledClient := by
    simp only [mtaStep, stalledClient, hfresh]
    rfl
  unfold stalledEvents
  rw [Run.run_cons hcall, Run.run_cons hfetched, Run.run_cons (t := ⟨0 + 61 * nanosPerSec, none,
    [.fetched sampleMta], [(sampleMta, 0)], []⟩) rfl, Run.run_cons hwritten, Run.run_cons hhit]
  rfl

/-- The second call returns a state that was fetched 61 s before. -/
theorem stale_fetch_returned : ∃ es s,
    Run.run (mtaStep .broadcast sampleWire []) .init es = some s ∧
    ∃ mta time, .returned .cache (.ok mta) time ∈ s.calls ∧
      ∀ v ∈ s.verified, v.2 + 60 * nanosPerSec ≤ time := by
  refine ⟨_, _, run_stalled, sampleMta, 61 * nanosPerSec, by simp [stalledClient], ?_⟩
  intro v hv
  rw [List.mem_singleton.1 hv]
  decide

/-- It was written to the cache at that moment. -/
theorem stalled_state_written :
    ∃ c ∈ stalledClient.written, c.state = sampleMta ∧ c.fetchedAt ≤ 61 * nanosPerSec := by
  have hcall : MtaCall.returned .cache (.ok sampleMta) (61 * nanosPerSec)
    ∈ stalledClient.calls := by
    simp [stalledClient]
  obtain ⟨-, c, hc, hstate, -, hle, -⟩ :=
    (mta_staleness_bounded .broadcast sampleWire [] run_stalled hcall).1 sampleMta rfl
  exact ⟨c, hc, hstate, hle⟩

end IrlEngine
