import IrlEngine.Lib.Joined
import IrlEngine.Lifecycle

/-!
# The latent fingerprint of a model

`compute_latent_fingerprint` hashes four texts of the request with `||` between them.  The
whitepaper has the delimiter absent from all of them; `authorize` looks at none of the four.

* `accepted_all` — every four texts are accepted;
* `fingerprint_unambiguous_iff` — the four texts that no others share their hashed bytes with.
-/

namespace IrlEngine

/-! ## What is hashed -/

/-- The texts that identify a model. -/
structure ModelIdentity where
  modelId : String
  promptVersion : String
  featureSchemaId : String
  hyperparameterChecksum : String
  deriving DecidableEq, Repr

/-- The four texts of a request that are hashed. -/
def AuthorizeRequest.identity (req : AuthorizeRequest) : ModelIdentity :=
  ⟨req.modelId, req.promptVersion, req.featureSchemaId, req.hyperparameterChecksum⟩

/-- The bytes that `compute_latent_fingerprint` hands to the hasher, one update after the other. -/
def ModelIdentity.hashed (q : ModelIdentity) : List UInt8 :=
  Text.utf8 q.modelId ++ Text.utf8 "||" ++ Text.utf8 q.promptVersion ++ Text.utf8 "||"
    ++ Text.utf8 q.featureSchemaId ++ Text.utf8 "||" ++ Text.utf8 q.hyperparameterChecksum

theorem latentFingerprint_eq (req : AuthorizeRequest) (env : AuthorizeEnv) (mta : MtaState)
    (hb : SignedHeartbeat) :
    (req.snapshot env mta hb).latentFingerprint = sha256Hex req.identity.hashed := rfl

/-- They as lists of characters, in the order in which they are joined. -/
def ModelIdentity.fields (q : ModelIdentity) : List (List Char) :=
  [q.modelId.toList, q.promptVersion.toList, q.featureSchemaId.toList,
    q.hyperparameterChecksum.toList]

theorem ModelIdentity.fields_injective : Function.Injective ModelIdentity.fields := by
  rintro ⟨m, p, s, c⟩ ⟨m', p', s', c'⟩ h
  simp only [ModelIdentity.fields, List.cons.injEq, String.toList_inj, and_true] at h
  obtain ⟨rfl, rfl, rfl, rfl⟩ := h
  rfl

/-- Four texts are the fields of an identity. -/
theorem ModelIdentity.exists_of_length {yss : List (List Char)} (h : yss.length = 4) :
    ∃ q : ModelIdentity, q.fields = yss := by
  match yss, h with
  | [m, p, s, c], _ =>
    refine ⟨⟨.ofList m, .ofList p, .ofList s, .ofList c⟩, ?_⟩
    simp [ModelIdentity.fields]

theorem ModelIdentity.hashed_eq (q : ModelIdentity) :
    q.hashed = Text.encode (Joined.joined '|' q.fields) := by
  have hdelimiter : "||".toList = ['|', '|'] := by decide
  simp [ModelIdentity.hashed, ModelIdentity.fields, Joined.joined_cons, Text.utf8, Text.encode,
    hdelimiter]

theorem ModelIdentity.hashed_eq_iff {q q' : ModelIdentity} :
    q'.hashed = q.hashed ↔ Joined.joined '|' q'.fields = Joined.joined '|' q.fields := by
  rw [q.hashed_eq, q'.hashed_eq]
  exact Text.encode_injective.eq_iff

/-! ## What is accepted -/

/-- Some call with these texts is answered with an authorization. -/
def Accepted (K : Crates) (q : ModelIdentity) : Prop :=
  ∃ cfg agents traces hs env req response, req.identity = q ∧
    (authorize K cfg agents traces hs env req).2.2 = .ok response

theorem authorize_of_commit {K : Crates} {cfg : Config} {agents : List AgentProfile}
    {traces : List TraceRow} {hs hs' : HeartbeatState} {env : AuthorizeEnv} {req : AuthorizeRequest}
    {w : AuthorizeWrite} (hprepare : authorizePrepare K cfg agents hs env req = (hs', .ok w))
    (hcommit : (authorizeCommit K traces w).2.isOk = true) :
    ∃ response, (authorize K cfg agents traces hs env req).2.2 = .ok response := by
  unfold authorize
  rw [hprepare]
  show ∃ response, (authorizeCommit K traces w).2 = .ok response
  cases hanswer : (authorizeCommit K traces w).2 with
  | ok response => exact ⟨response, rfl⟩
  | error e =>
    rw [hanswer] at hcommit
    cases hcommit

/-- An order to buy in the name of this model. -/
def AuthorizeRequest.ofModel (q : ModelIdentity) : AuthorizeRequest :=
  { AuthorizeRequest.sample (.fill 1) (.custom "buy") F64.one with
    modelId := q.modelId
    promptVersion := q.promptVersion
    featureSchemaId := q.featureSchemaId
    hyperparameterChecksum := q.hyperparameterChecksum }

/-- No check of `authorize` reads these texts. -/
theorem accepted_all (K : Crates) (q : ModelIdentity) : Accepted K q := by
  have hbuys : BuysWithin (.ofModel q) F64.one := ⟨rfl, rfl, rfl, rfl, le_refl F64.one.toRat⟩
  have hprepare := prepare_within K (.fill 2) hbuys
  have hcommit := authorizeCommit_sample_isOk K (.fill 2) (.ofModel q) rfl [] F64.one.toRat
    MtaState.sample.regimeLabel false
  have hroom : pendingSum [] (AuthorizeRequest.ofModel q).agentId
      + (AuthorizeRequest.ofModel q).notional.toRat ≤ F64.one.toRat := by
    rw [pendingSum_nil, zero_add]
    exact hbuys.le
  rw [decide_eq_true hroom] at hcommit
  obtain ⟨response, hresponse⟩ := authorize_of_commit hprepare hcommit
  exact ⟨_, _, _, _, _, _, response, rfl, hresponse⟩

/-! ## Which fingerprints are ambiguous -/

/-- No text contains the delimiter, and none touches its neighbour with half of one. -/
structure DelimiterAbsent (q : ModelIdentity) : Prop where
  within : ∀ s ∈ [q.modelId, q.promptVersion, q.featureSchemaId, q.hyperparameterChecksum],
    ¬ ['|', '|'] <:+: s.toList
  before : ∀ s ∈ [q.modelId, q.promptVersion, q.featureSchemaId], ¬ ['|'] <:+ s.toList
  after : ∀ s ∈ [q.promptVersion, q.featureSchemaId, q.hyperparameterChecksum], ¬ ['|'] <+: s.toList

theorem delimiterAbsent_iff {q : ModelIdentity} :
    DelimiterAbsent q ↔ q.fields.IsChain (Joined.PairClean '|') := by
  unfold ModelIdentity.fields
  constructor
  · rintro ⟨hwithin, hbefore, hafter⟩
    simp only [List.forall_mem_cons] at hwithin hbefore hafter
    obtain ⟨hm, hp, hs, hc, -⟩ := hwithin
    obtain ⟨hmLast, hpLast, hsLast, -⟩ := hbefore
    obtain ⟨hpFirst, hsFirst, hcFirst, -⟩ := hafter
    refine .cons_cons ⟨hm, hmLast, hp, hpFirst⟩ (.cons_cons ⟨hp, hpLast, hs, hsFirst⟩ ?_)
    exact .cons_cons ⟨hs, hsLast, hc, hcFirst⟩ (.singleton _)
  · intro h
    obtain ⟨hmp, h⟩ := List.isChain_cons_cons.1 h
    obtain ⟨hps, h⟩ := List.isChain_cons_cons.1 h
    obtain ⟨hsc, -⟩ := List.isChain_cons_cons.1 h
    refine ⟨?_, ?_, ?_⟩
    · simp [hmp.left, hps.left, hsc.left, hsc.right]
    · simp [hmp.last, hps.last, hsc.last]
    · simp [hmp.first, hps.first, hsc.first]

/-- **When a fingerprint is unambiguous.**  No other accepted texts are hashed as the same bytes
exactly if the delimiter is absent from the texts: none contains `||`, none but the last ends with
`|` and none but the first begins with it. -/
theorem fingerprint_unambiguous_iff (K : Crates) (q : ModelIdentity) :
    (∀ q', Accepted K q' → q'.hashed = q.hashed → q' = q) ↔ DelimiterAbsent q := by
  rw [delimiterAbsent_iff, ← Joined.unique_iff]
  constructor
  · intro h yss hlength hjoined
    obtain ⟨q', rfl⟩ := ModelIdentity.exists_of_length (hlength.trans rfl)
    rw [h q' (accepted_all K q') (ModelIdentity.hashed_eq_iff.2 hjoined)]
  · intro h q' _ hhashed
    refine ModelIdentity.fields_injective ?_
    exact h q'.fields rfl (ModelIdentity.hashed_eq_iff.1 hhashed)

/-- A bar moved over the delimiter. -/
theorem fingerprint_collision :
    Accepted .sample ⟨"m|", "p", "s", "c"⟩ ∧ Accepted .sample ⟨"m", "|p", "s", "c"⟩ ∧
      ModelIdentity.hashed ⟨"m|", "p", "s", "c"⟩ = ModelIdentity.hashed ⟨"m", "|p", "s", "c"⟩ ∧
      (⟨"m|", "p", "s", "c"⟩ : ModelIdentity) ≠ ⟨"m", "|p", "s", "c"⟩ :=
  ⟨accepted_all _ _, accepted_all _ _, by decide, by decide⟩

end IrlEngine
