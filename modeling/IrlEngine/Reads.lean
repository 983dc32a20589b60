import IrlEngine.Anchor
import IrlEngine.AuditChain
import IrlEngine.Layer2
import IrlEngine.Vault

/-!
# The read endpoints

`get_trace_json` and the three listings of `db.rs`.  All of them decrypt the stored JSON;
only `get_trace_json` then writes the live columns `final_proof` and
`verification_status` over the integrity block, which was stored when the trace was
authorized.

* `Listing` — the three listings, with what they select, their order and limit;
* `listings_agree_iff` — in every state that inserts through `authorize` can lead to, a
  listing shows a row as `get_trace_json` does exactly while the row is `PENDING`; the
  JSON it shows says `PENDING` in any case.
-/

namespace IrlEngine

/-! ## Reading one trace -/

/-- The live columns, written over an integrity block. -/
def overlayIntegrity (r : TraceRow) : Json → Json
  | .obj ms => .obj (Json.insertMember "verification_status" (.str r.verificationStatus.display)
      (Json.insertMember "final_proof" (jsonOption .str r.finalProof) ms))
  | v => v

/-- The document that a reader gets: the columns of the row take the place of the sealed members.
-/
def TraceRow.overlay (r : TraceRow) (json : Json) : Json :=
  json.modify "integrity" (overlayIntegrity r)

/-- `get_trace_json`. -/
def getTraceJson (K : Crates) (R : Option ReadSide) (traces : List TraceRow) (traceId : Uuid) :
    Except AppError Json :=
  match Table.rowOf TraceRow.traceId traces traceId with
  | none => .error (.traceNotFound traceId.toText)
  | some r =>
    match decryptIfNeeded K R r.stored with
    | .error e => .error e
    | .ok json => .ok (r.overlay json)

/-! ## Listings -/

/-- `decrypt_rows_concurrent`: one row after the other, up to the first that fails. -/
def decryptRows (K : Crates) (R : Option ReadSide) : List TraceRow → Except AppError (List Json)
  | [] => .ok []
  | r :: rows =>
    match decryptIfNeeded K R r.stored with
    | .error e => .error e
    | .ok json =>
      match decryptRows K R rows with
      | .error e => .error e
      | .ok rest => .ok (json :: rest)

/-- The listings of `db.rs` that decrypt whole rows. -/
inductive Listing where
  /-- `get_pending_traces`, at a clock reading in microseconds. -/
  | pending (nowMicros ageSeconds : ℤ)
  /-- `get_shadow_violations`. -/
  | shadowViolations
  /-- `get_orphan_traces`. -/
  | orphans

/-- The `WHERE` clause. -/
def Listing.selects : Listing → TraceRow → Bool
  | .pending nowMicros ageSeconds, r =>
    decide (r.verificationStatus = .pending ∧ r.txnMicros < nowMicros - 1000000 * ageSeconds)
  | .shadowViolations, r => decide (r.policyResult = .shadowHalted)
  | .orphans, r => decide (r.verificationStatus = .expired ∨ r.verificationStatus = .divergent)

/-- Oldest first for the pending traces, newest first for the others. -/
def Listing.le : Listing → TraceRow → TraceRow → Bool
  | .pending _ _, a, b => txnLe a b
  | _, a, b => txnLe b a

/-- The `LIMIT` clause, if there is one. -/
def Listing.limit : Listing → Option ℕ
  | .pending _ _ => none
  | .shadowViolations => some 500
  | .orphans => some 200

/-- The selected rows, when the table is scanned in the order of `scan`. -/
def Listing.rows (l : Listing) (scan : List TraceRow) : List TraceRow :=
  let sorted := (scan.filter l.selects).mergeSort l.le
  match l.limit with
  | none => sorted
  | some n => sorted.take n

/-- The documents of a listing, without the columns laid over them. -/
def Listing.read (K : Crates) (R : Option ReadSide) (l : Listing) (scan : List TraceRow) :
    Except AppError (List Json) :=
  decryptRows K R (l.rows scan)

theorem Listing.mem_rows {l : Listing} {scan : List TraceRow} {r : TraceRow} (h : r ∈ l.rows scan) :
    r ∈ scan ∧ l.selects r = true := by
  have hsorted : r ∈ (scan.filter l.selects).mergeSort l.le := by
    unfold Listing.rows at h
    cases hlimit : l.limit with
    | none => simpa only [hlimit] using h
    | some n =>
      simp only [hlimit] at h
      exact List.mem_of_mem_take h
  exact List.mem_filter.1 ((List.mergeSort_perm _ _).mem_iff.1 hsorted)

/-- Each JSON of a listing is the decrypted JSON of its row. -/
theorem decryptRows_ok {K : Crates} {R : Option ReadSide} {rows : List TraceRow} {js : List Json}
    (h : decryptRows K R rows = .ok js) :
    List.Forall₂ (fun r j => decryptIfNeeded K R r.stored = .ok j) rows js := by
  induction rows generalizing js with
  | nil =>
    rw [← Except.ok.inj h]
    exact .nil
  | cons r rows ih =>
    unfold decryptRows at h
    cases hdec : decryptIfNeeded K R r.stored with
    | error e => simp [hdec] at h
    | ok json =>
      cases hrest : decryptRows K R rows with
      | error e => simp [hdec, hrest] at h
      | ok rest =>
        simp only [hdec, hrest, Except.ok.injEq] at h
        rw [← h]
        exact .cons hdec (ih hrest)

/-! ## The integrity block of a stored trace -/

/-- The integrity block that `authorize` stores. -/
def storedIntegrity (reasoningHash : String) : Json :=
  .obj [("execution_status", .null), ("final_proof", .null), ("reasoning_hash", .str reasoningHash),
    ("verification_status", .str "PENDING")]

/-- A trace whose integrity block is still the stored one. -/
def KeepsIntegrity (json : Json) : Prop :=
  ∃ reasoningHash, json.get? "integrity" = some (storedIntegrity reasoningHash)

theorem keepsIntegrity_nullPiiFields {json : Json} (h : KeepsIntegrity json) :
    KeepsIntegrity (nullPiiFields json) := by
  obtain ⟨reasoningHash, hget⟩ := h
  refine ⟨reasoningHash, ?_⟩
  have hagent : "agent" ≠ "integrity" := by decide
  have hexecution : "execution" ≠ "integrity" := by decide
  rw [nullPiiFields, Json.get?_modify_of_ne hexecution, Json.get?_modify_of_ne hagent, hget]

theorem normalize_integrity (reasoningHash : String) :
    (IntegrityBlock.toJson ⟨reasoningHash, none, "PENDING", none⟩).normalize
      = storedIntegrity reasoningHash := by
  have h₁ : ¬ "reasoning_hash" ≤ "final_proof" := by decide
  have h₂ : "final_proof" ≤ "verification_status" := by decide
  have h₃ : ¬ "verification_status" ≤ "execution_status" := by decide
  have h₄ : ¬ "final_proof" ≤ "execution_status" := by decide
  have h₅ : ¬ "reasoning_hash" ≤ "execution_status" := by decide
  have h₆ : "reasoning_hash" ≤ "verification_status" := by decide
  simp [IntegrityBlock.toJson, storedIntegrity, Json.normalize, Json.normalizeMembers,
    Json.sortByKey, Json.keyLe, jsonOption, h₁, h₂, h₃, h₄, h₅, h₆]

theorem keepsIntegrity_trace (K : Crates) {t : ReasoningTrace} {reasoningHash : String}
    (h : t.integrity = ⟨reasoningHash, none, "PENDING", none⟩) :
    KeepsIntegrity (t.toJson K).normalize := by
  have hdistinct := distinctKeys_trace 0 K t
  refine ⟨reasoningHash, ?_⟩
  rw [← normalize_integrity, ← h]
  unfold ReasoningTrace.toJson at hdistinct ⊢
  refine Json.get?_normalize (Json.distinctKeys_obj_iff.1 hdistinct).1 ?_
  exact List.mem_append_left _ (by simp)

/-- The insert of a call stores the integrity block of `build_trace`. -/
theorem integrity_of_prepare {D : Deployment} {call : AuthorizeCall} {hs' : HeartbeatState}
    {w : AuthorizeWrite}
    (h : authorizePrepare D.K D.cfg call.agents call.hs call.env call.req = (hs', .ok w)) :
    ∃ reasoningHash, w.args.trace.integrity = ⟨reasoningHash, none, "PENDING", none⟩ := by
  obtain ⟨hb, driftMs, mta, -, -, -, hdecide⟩ := authorizePrepare_ok h
  obtain ⟨_, _, -, -, -, houtcome⟩ := authorizeDecide_ok hdecide
  cases houtcome with
  | allowed d _ _ => exact ⟨_, rfl⟩
  | shadow d _ _ _ => exact ⟨_, rfl⟩
  | halted d e _ _ _ => exact ⟨_, rfl⟩

/-! ## Runs -/

/-- Rows come from calls of `authorize`. -/
def VaultEvent.Routed : VaultEvent → Prop
  | .system e => IrlEngine.Routed e
  | _ => True

theorem keepsIntegrity_insertedBy {D : Deployment} {e : Event} {a : InsertArgs}
    (he : Routed e) (h : insertedBy D e = some a) :
    KeepsIntegrity (a.trace.toJson D.K).normalize := by
  cases e with
  | insertTrace a => exact absurd he id
  | insertTraceAtomic a check => exact absurd he id
  | authorize call =>
    simp only [insertedBy] at h
    rcases hprep : authorizePrepare D.K D.cfg call.agents call.hs call.env call.req with ⟨hs', res⟩
    rw [hprep] at h
    cases res with
    | error err => exact absurd h (by simp)
    | ok w =>
      obtain rfl := Option.some.inj h
      obtain ⟨reasoningHash, hintegrity⟩ := integrity_of_prepare hprep
      exact keepsIntegrity_trace D.K hintegrity
  | _ => exact absurd h (by simp [insertedBy])

/-- The plaintext traces keep their integrity blocks: an erasure does not touch them. -/
theorem keepsIntegrity_step {V : VaultSetup} {s s' : VaultState} {p : List PlainTrace}
    {e : VaultEvent} (he : e.Routed) (hp : ∀ t ∈ p, KeepsIntegrity t.json) :
    ∀ t ∈ plainStep V s s' p e, KeepsIntegrity t.json := by
  cases e with
  | system e =>
    simp only [plainStep]
    split_ifs
    · intro t ht
      rcases List.mem_append.1 ht with ht | ht
      · exact hp t ht
      · obtain ⟨a, ha, rfl⟩ := Option.map_eq_some_iff.1 (Option.mem_toList.1 ht)
        exact keepsIntegrity_insertedBy he ha
    · exact hp
  | gdprWrite k draw =>
    have hmap : ∀ id, ∀ t ∈ p.map (PlainTrace.erase id), KeepsIntegrity t.json := by
      intro id t ht
      obtain ⟨t₀, ht₀, rfl⟩ := List.mem_map.1 ht
      unfold PlainTrace.erase
      split_ifs
      · exact keepsIntegrity_nullPiiFields (hp t₀ ht₀)
      · exact hp t₀ ht₀
    simp only [plainStep]
    split
    · split
      · exact hp
      · exact hmap _
    · exact hp
  | _ => exact hp

theorem keepsIntegrity_of_run {V : VaultSetup} {es : List VaultEvent} (hes : ∀ e ∈ es, e.Routed)
    {s : VaultState} {p : List PlainTrace}
    (hrun : Run.run (bothStep V) (.init, []) es = some (s, p)) :
    ∀ t ∈ p, KeepsIntegrity t.json := by
  refine Run.run_invariant_along
    (I := fun x : VaultState × List PlainTrace => ∀ t ∈ x.2, KeepsIntegrity t.json) ?_ hrun
    (Run.along_of_forall hes _) (by simp)
  rintro ⟨s, p⟩ e ⟨s', p'⟩ hp he hstep
  obtain ⟨t, -, heq⟩ := Option.map_eq_some_iff.1 hstep
  obtain ⟨rfl, rfl⟩ := Prod.mk.inj heq
  exact keepsIntegrity_step he hp

/-! ## Agreement -/

theorem display_injective : Function.Injective VerificationStatus.display := by
  intro a b h
  cases a <;> cases b <;> first | rfl | exact absurd h (by decide)

/-- The overlay changes nothing exactly when the columns are those of a new row. -/
theorem overlay_eq_self_iff {r : TraceRow} {json : Json} (h : KeepsIntegrity json) :
    r.overlay json = json ↔ r.verificationStatus = .pending ∧ r.finalProof = none := by
  obtain ⟨reasoningHash, hget⟩ := h
  have hoverlay : overlayIntegrity r (storedIntegrity reasoningHash)
      = .obj [("execution_status", .null), ("final_proof", jsonOption .str r.finalProof),
        ("reasoning_hash", .str reasoningHash),
        ("verification_status", .str r.verificationStatus.display)] := by
    have h₁ : ¬ "final_proof" < "execution_status" := by decide
    have h₂ : ¬ "verification_status" < "execution_status" := by decide
    have h₃ : ¬ "verification_status" < "final_proof" := by decide
    have h₄ : ¬ "verification_status" < "reasoning_hash" := by decide
    simp [overlayIntegrity, storedIntegrity, Json.insertMember, h₁, h₂, h₃, h₄]
  rw [TraceRow.overlay, Json.modify_eq_self_iff hget, hoverlay, storedIntegrity]
  have hstatus : r.verificationStatus.display = "PENDING" ↔ r.verificationStatus = .pending :=
    ⟨fun h => display_injective h, fun h => by rw [h]; rfl⟩
  have hproof : jsonOption Json.str r.finalProof = .null ↔ r.finalProof = none := by
    cases r.finalProof with
    | none => simp [jsonOption]
    | some x => simp [jsonOption]
  simp [hstatus, hproof, and_comm]

/-- A `PENDING` row has no proof. -/
theorem Audited.finalProof_of_pending {r : TraceRow} (h : Audited r)
    (hpending : r.verificationStatus = .pending) : r.finalProof = none := by
  cases hproof : r.finalProof with
  | none => rfl
  | some x =>
    have hbound := h.bound_iff.1 (h.proof_iff.1 (by rw [hproof]; rfl))
    rw [hpending] at hbound
    exact absurd hbound (by simp)

/-- What a reader without a key provider can read, it reads as one with it. -/
theorem decryptIfNeeded_of_none {K : Crates} {R : ReadSide} {stored : StoredJson} {json : Json}
    (h : decryptIfNeeded K none stored = .ok json) :
    decryptIfNeeded K (some R) stored = .ok json := by
  unfold decryptIfNeeded at h ⊢
  split_ifs at h with h0 h1
  rw [if_pos h0]
  exact h

/-- What any reader decrypts of a row, and what `get_trace_json` makes of it. -/
theorem getTraceJson_eq_iff {V : VaultSetup} (hK : V.D.K.RoundTrip) {es : List VaultEvent}
    (hes : ∀ e ∈ es, e.Honest V) (hrouted : ∀ e ∈ es, e.Routed) {s : VaultState}
    (hrun : Run.run (vaultStep V) .init es = some s) {R : Option ReadSide}
    (hR : R = none ∨ R = some V.R) {r : TraceRow} (hr : r ∈ s.sys.traces) {j : Json}
    (hdec : decryptIfNeeded V.D.K R r.stored = .ok j) :
    (getTraceJson V.D.K R s.sys.traces r.traceId = .ok j ↔ r.verificationStatus = .pending) ∧
      KeepsIntegrity j := by
  obtain ⟨p, hboth⟩ := Run.exists_run_withShadow (plainStep V) hrun []
  have hinv := vaultInv_of_run hK hes hboth
  -- the row reveals a plaintext trace, and this is the JSON that was decrypted
  obtain ⟨t, ht, hholds⟩ := Table.exists_of_forall₂ hinv.holds hr
  have hjson : j = t.json := by
    have hsome : decryptIfNeeded V.D.K (some V.R) r.stored = .ok j := by
      rcases hR with rfl | rfl
      · exact decryptIfNeeded_of_none hdec
      · exact hdec
    exact Except.ok.inj (hsome.symm.trans hholds.dec)
  have hkeep : KeepsIntegrity j := hjson ▸ keepsIntegrity_of_run hrouted hboth t ht
  have hget : getTraceJson V.D.K R s.sys.traces r.traceId = .ok (r.overlay j) := by
    simp only [getTraceJson, Table.rowOf_of_mem hinv.unique hr, hdec]
  refine ⟨?_, hkeep⟩
  rw [hget, Except.ok.injEq, overlay_eq_self_iff hkeep]
  refine ⟨And.left, fun hpending => ⟨hpending, ?_⟩⟩
  have haudit := auditInv_of_reachable (reachable_of_run hrun)
  exact (haudit.rows r hr).finalProof_of_pending hpending

/-- **The listings and `get_trace_json`.**  In every state that a run with honest data keys leads
to, rows being inserted by `authorize` only, and for every order in which a listing may scan the
table: each JSON it returns is what `get_trace_json` returns for that trace exactly when the row is
`PENDING`, and its integrity block is the one stored when the trace was authorized. -/
theorem listings_agree_iff (V : VaultSetup) (hK : V.D.K.RoundTrip) {es : List VaultEvent}
    (hes : ∀ e ∈ es, e.Honest V) (hrouted : ∀ e ∈ es, e.Routed) {s : VaultState}
    (hrun : Run.run (vaultStep V) .init es = some s) {R : Option ReadSide}
    (hR : R = none ∨ R = some V.R) (l : Listing) {scan : List TraceRow}
    (hscan : scan.Perm s.sys.traces) {js : List Json} (hread : l.read V.D.K R scan = .ok js) :
    List.Forall₂ (fun r j =>
      (getTraceJson V.D.K R s.sys.traces r.traceId = .ok j ↔ r.verificationStatus = .pending) ∧
        KeepsIntegrity j) (l.rows scan) js := by
  have hmem : ∀ r ∈ l.rows scan, r ∈ s.sys.traces :=
    fun r hr => hscan.mem_iff.1 (Listing.mem_rows hr).1
  refine ((List.forall₂_and_left _ _).2 ⟨hmem, decryptRows_ok hread⟩).imp ?_
  rintro r j ⟨hr, hdec⟩
  exact getTraceJson_eq_iff hK hes hrouted hrun hR hr hdec

/-! An accepted order that has expired, in the listing of orphans. -/

/-- The row of the order after its expiry. -/
noncomputable def expiredRow : TraceRow :=
  { buyRow .parsing (.fill 2) F64.one with verificationStatus := .expired }

/-- The order, and the expiry that comes too late for it to be bound. -/
def orphanEvents : List VaultEvent :=
  [.system (.authorize (.order (.fill 2) "buy" F64.one F64.one)), .system (.expirePending 2000000)]

theorem run_orphan : Run.run (vaultStep .sample) .init orphanEvents
    = some ⟨⟨[expiredRow], [], []⟩, [], []⟩ := by
  have hcap : ¬ F64.one.toRat < pendingSum System.init.traces (.fill 1) + F64.one.toRat := by
    rw [System.init, pendingSum_nil, zero_add]
    exact lt_irrefl _
  have hfresh : Uuid.fill 2 ∉ System.init.traces.map TraceRow.traceId := by simp [System.init]
  have hbuy := step_buy (K := .parsing) .init (le_refl F64.one.toRat) hfresh
  rw [if_neg hcap] at hbuy
  have hstale : isStale .sample 2000000 (buyRow .parsing (.fill 2) F64.one) = true := by
    show decide ((2 : ℤ) * 1000 < 2000000 - 1000000 * (1000 / 1000)) = true
    decide
  have hexpire : step VaultSetup.sample.D ⟨[buyRow .parsing (.fill 2) F64.one], [], []⟩
      (.expirePending 2000000) = some ⟨[expiredRow], [], []⟩ := by
    have hpending : (buyRow .parsing (.fill 2) F64.one).verificationStatus = .pending := rfl
    simp only [step, expirePending, Table.updateWhere, List.map_cons, List.map_nil, hpending]
    exact congrArg (fun r => some (System.mk [r] [] [])) (if_pos (decide_eq_true ⟨trivial, hstale⟩))
  rw [orphanEvents, Run.run_cons (vaultStep_system rfl hbuy (by simp [VaultSetup.sample])),
    Run.run_cons (vaultStep_system rfl hexpire (by simp [VaultSetup.sample])), Run.run_nil]
  rfl

theorem insertedBy_authorize {D : Deployment} {c : AuthorizeCall} {w : AuthorizeWrite}
    (h : (authorizePrepare D.K D.cfg c.agents c.hs c.env c.req).2 = .ok w) :
    insertedBy D (.authorize c) = some w.args := by
  rw [insertedBy, h]

theorem orphanEvents_honest : ∀ e ∈ orphanEvents, e.Honest .sample ∧ e.Routed := by
  intro e he
  simp only [orphanEvents, List.mem_cons, List.not_mem_nil, or_false] at he
  rcases he with rfl | rfl
  · refine ⟨fun a ha => ?_, trivial⟩
    have hprep := @prepare_buy .parsing (.fill 2) F64.one F64.one (le_refl F64.one.toRat)
    have hargs : insertedBy VaultSetup.sample.D
        (.authorize (.order (.fill 2) "buy" F64.one F64.one)) = some (sampleArgs .parsing (.fill 2)
          (.sample (.fill 1) (.custom "buy") F64.one) sampleDecision) := by
      exact insertedBy_authorize (D := VaultSetup.sample.D)
        (c := .order (.fill 2) "buy" F64.one F64.one) (congrArg Prod.snd hprep)
    obtain rfl := Option.some.inj (hargs.symm.trans ha)
    exact honest_plain rfl fun _ => reads_parsing
  · exact ⟨fun a ha => absurd ha (by simp [insertedBy]), trivial⟩

theorem read_orphan (R : Option ReadSide) :
    Listing.orphans.rows [expiredRow] = [expiredRow] ∧
      Listing.orphans.read .parsing R [expiredRow] = .ok [expiredRow.traceJson] := by
  have hrows : Listing.orphans.rows [expiredRow] = [expiredRow] := by
    simp [Listing.rows, Listing.limit, Listing.selects, expiredRow]
  refine ⟨hrows, ?_⟩
  rw [Listing.read, hrows]
  rfl

theorem listings_agree_sample :
    ∃ j, Listing.orphans.read .parsing none [expiredRow] = .ok [j] ∧
      (getTraceJson .parsing none [expiredRow] (.fill 2) = .ok j ↔
        expiredRow.verificationStatus = .pending) := by
  obtain ⟨hrows, hread⟩ := read_orphan none
  have hall := listings_agree_iff .sample roundTrip_parsing
    (fun e he => (orphanEvents_honest e he).1) (fun e he => (orphanEvents_honest e he).2) run_orphan
    (Or.inl rfl) .orphans (List.Perm.refl _) hread
  rw [hrows] at hall
  cases hall with
  | cons h _ => exact ⟨_, hread, h.1⟩

/-- The listing of orphans shows the expired order as `PENDING`, and `get_trace_json` does not. -/
theorem listing_disagrees : ∃ es s j, Run.run (vaultStep .sample) .init es = some s ∧
    Listing.orphans.read VaultSetup.sample.D.K none s.sys.traces = .ok [j] ∧ KeepsIntegrity j ∧
    getTraceJson VaultSetup.sample.D.K none s.sys.traces (.fill 2) ≠ .ok j := by
  have hrow := getTraceJson_eq_iff (V := .sample) (R := none) (r := expiredRow) roundTrip_parsing
    (fun e he => (orphanEvents_honest e he).1) (fun e he => (orphanEvents_honest e he).2) run_orphan
    (Or.inl rfl) (List.mem_singleton_self _) (j := expiredRow.traceJson) rfl
  refine ⟨orphanEvents, _, expiredRow.traceJson, run_orphan, (read_orphan none).2, hrow.2, ?_⟩
  exact fun h => absurd (hrow.1.1 h) (show ¬ VerificationStatus.expired = .pending by decide)

end IrlEngine
