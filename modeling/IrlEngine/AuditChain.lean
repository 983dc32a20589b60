import IrlEngine.Lifecycle

/-!
# The audit chain

A row carries a final proof exactly when it carries an exchange transaction id, and
exactly when its verdict is `MATCHED` or `DIVERGENT`; the proof is then the digest of
the row's own reasoning hash and transaction id.  This holds in every reachable state
(`audit_chain`), although a bind computes the proof from a hash it read earlier: the
hash of a row never changes (`intentsCurrent_of_change`).
-/

namespace IrlEngine

/-- The audit chain of one row. -/
structure Audited (r : TraceRow) : Prop where
  proof_iff : r.finalProof.isSome = true ↔ r.exchangeTxId.isSome = true
  bound_iff : r.exchangeTxId.isSome = true ↔
    r.verificationStatus = .matched ∨ r.verificationStatus = .divergent
  proof_eq : ∀ tx, r.exchangeTxId = some tx →
    r.finalProof = some (computeFinalProof r.reasoningHash tx)

theorem NewRow.audited {r : TraceRow} (h : NewRow r) : Audited r where
  proof_iff := by rw [h.finalProof, h.exchangeTxId]
  bound_iff := by rw [h.exchangeTxId, h.verificationStatus]; simp
  proof_eq := by rw [h.exchangeTxId]; simp

/-- What one step makes of a row keeps its audit chain. -/
theorem Audited.step {D : Deployment} {s : System} {e : Event} {r r' : TraceRow} (hr : r ∈ s.traces)
    (hids : UniqueIds s) (hintents : IntentsCurrent s) (ha : Audited r)
    (h : RowChange D s e r r') : Audited r' := by
  cases h with
  | same => exact ha
  | bound k now req intent hk _ hid =>
    obtain ⟨q, hq, rfl⟩ := hintents _ (List.mem_of_getElem? hk) intent rfl
    -- the request read this very row
    have hqr : q = r := by
      have hrow := Table.rowOf_of_mem hids hr
      rw [hid] at hrow
      exact Option.some.inj (hq.symm.trans hrow)
    subst hqr
    refine ⟨by simp [TraceRow.bindTo], ?_, ?_⟩
    · have hstatus := reconcile_status D.cfg D.aliases req
        q.pendingIntent now
      simpa [TraceRow.bindTo] using hstatus
    · intro tx htx
      obtain rfl : req.exchangeTxId = tx := Option.some.inj htx
      rfl
  | expired now _ hpending _ =>
    have hnone : r.exchangeTxId = none := by
      cases htx : r.exchangeTxId with
      | none => rfl
      | some tx =>
        have := ha.bound_iff.1 (by rw [htx]; rfl)
        rw [hpending] at this
        exact absurd this (by simp)
    have hproof : r.finalProof = none := by
      have := ha.proof_iff
      rw [hnone] at this
      simpa using this
    exact ⟨by simp [hnone, hproof], by simp [hnone], by simp [hnone]⟩
  | recoded _ f hf =>
    refine ⟨?_, ?_, ?_⟩
    · rw [hf.finalProof, hf.exchangeTxId]; exact ha.proof_iff
    · rw [hf.exchangeTxId, hf.verificationStatus]; exact ha.bound_iff
    · rw [hf.exchangeTxId, hf.finalProof, hf.reasoningHash]; exact ha.proof_eq

/-- The invariant behind the audit chain. -/
structure AuditInv (s : System) : Prop where
  ids : UniqueIds s
  intents : IntentsCurrent s
  rows : ∀ r ∈ s.traces, Audited r
  hashes : ∀ r ∈ s.traces, ∃ m, r.reasoningHash = sha256Hex m

theorem AuditInv.step {D : Deployment} {s s' : System} {e : Event} (hs : AuditInv s)
    (h : step D s e = some s') : AuditInv s' := by
  have hc := change_of_step h
  refine ⟨uniqueIds_of_change hc hs.ids, intentsCurrent_of_change hc hs.intents, ?_, ?_⟩
  · intro r' hr'
    rcases mem_of_change hc hr' with ⟨-, hnew⟩ | ⟨r, hr, hchange⟩
    · exact hnew.audited
    · exact (hs.rows r hr).step hr hs.ids hs.intents hchange
  · intro r' hr'
    rcases mem_of_change hc hr' with ⟨-, hnew⟩ | ⟨r, hr, hchange⟩
    · exact hnew.reasoningHash
    · rw [hchange.sameTerms.reasoningHash]
      exact hs.hashes r hr

theorem auditInv_of_reachable {D : Deployment} {s : System} (h : Reachable D s) : AuditInv s := by
  obtain ⟨es, hrun⟩ := h
  refine Run.run_invariant (fun s e t hs he => hs.step he) hrun ?_
  refine ⟨by simp [UniqueIds, System.init], ?_, ?_, ?_⟩
  · intro b hb; exact absurd hb (by simp [System.init])
  · intro r hr; exact absurd hr (by simp [System.init])
  · intro r hr; exact absurd hr (by simp [System.init])

/-- **The audit chain invariant.**  In every reachable state every row is audited; its
reasoning hash and transaction time stay what they are in every later state; and rows
with different pairs of reasoning hash and transaction id have different proof
preimages. -/
theorem audit_chain (D : Deployment) {s : System} (h : Reachable D s) :
    (∀ r ∈ s.traces, Audited r) ∧
    (∀ r ∈ s.traces, ∀ es t, Run.run (step D) s es = some t →
      (∃ r' ∈ t.traces, r'.traceId = r.traceId) ∧
      ∀ r' ∈ t.traces, r'.traceId = r.traceId →
        r'.reasoningHash = r.reasoningHash ∧ r'.txnTime = r.txnTime) ∧
    (∀ r₁ ∈ s.traces, ∀ r₂ ∈ s.traces, ∀ x₁ x₂, r₁.exchangeTxId = some x₁ →
      r₂.exchangeTxId = some x₂ → (r₁.reasoningHash, x₁) ≠ (r₂.reasoningHash, x₂) →
      finalProofPreimage r₁.reasoningHash x₁ ≠ finalProofPreimage r₂.reasoningHash x₂) := by
  have hinv := auditInv_of_reachable h
  refine ⟨hinv.rows, ?_, ?_⟩
  · intro r hr es t hrun
    have hrow := Table.rowOf_of_mem hinv.ids hr
    obtain ⟨q, hq, hsame⟩ := rowOf_of_run hrun hrow
    refine ⟨⟨q, Table.mem_of_rowOf hq, hsame.traceId⟩, ?_⟩
    intro r' hr' hid
    have hids : UniqueIds t := by
      obtain ⟨es₀, hrun₀⟩ := h
      refine uniqueIds_of_reachable (D := D) ⟨es₀ ++ es, ?_⟩
      rw [Run.run_append, hrun₀]
      exact hrun
    have hr'row := Table.rowOf_of_mem hids hr'
    rw [hid, hq] at hr'row
    obtain rfl := Option.some.inj hr'row
    exact ⟨hsame.reasoningHash, hsame.txnTime⟩
  · intro r₁ hr₁ r₂ hr₂ x₁ x₂ _ _ hne heq
    obtain ⟨m₁, h₁⟩ := hinv.hashes r₁ hr₁
    obtain ⟨m₂, h₂⟩ := hinv.hashes r₂ hr₂
    have hlen : (Text.utf8 r₁.reasoningHash).length = (Text.utf8 r₂.reasoningHash).length := by
      rw [h₁, h₂, length_utf8_sha256Hex, length_utf8_sha256Hex]
    obtain ⟨hr, hx⟩ := finalProofPreimage_inj hlen heq
    exact hne (by rw [hr, hx])

/-- A bound order is audited: its proof is that of its own hash and transaction id. -/
theorem audit_chain_sample :
    ∃ r ∈ (boundState "tx-1").traces, r.exchangeTxId = some "tx-1" ∧ Audited r ∧
      r.finalProof = some (computeFinalProof r.reasoningHash "tx-1") := by
  have hchain := audit_chain .sample ⟨_, run_sample_bound "tx-1"⟩
  have hmem : boundRow "tx-1" ∈ (boundState "tx-1").traces := List.mem_singleton_self _
  have haudited := hchain.1 (boundRow "tx-1") hmem
  exact ⟨boundRow "tx-1", hmem, rfl, haudited, haudited.proof_eq "tx-1" rfl⟩

end IrlEngine
