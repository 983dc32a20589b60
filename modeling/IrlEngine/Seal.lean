import IrlEngine.Policy
import IrlEngine.Lib.JsonOrder

/-!
# Sealing a snapshot

`seal.rs`: the bitemporal check, the canonical text of a snapshot, its digest
(`seal`) and the proof that binds a digest to an exchange transaction
(`computeFinalProof`).

* `canonicalizeJson_eq` — the canonical text is the compact text of the normal form;
* `canonical_text_eq_iff` — it leaves out the order of members, and nothing else;
* **the seal is tamper-evident** — `CognitiveSnapshot.canonicalBytes_injective`:
  the bytes that are hashed determine every field of the snapshot;
* `finalProofPreimage_inj` — reasoning hashes of one length make proof preimages
  injective in both arguments.
-/

namespace IrlEngine

/-! ## The bitemporal check -/

/-- `valid_time` must be strictly before `txn_time`. -/
def verifyBitemporal (s : CognitiveSnapshot) : Except AppError Unit :=
  if s.validTime ≥ s.txnTime then .error .biTemporalViolation else .ok ()

theorem verifyBitemporal_ok {s : CognitiveSnapshot} {u : Unit} (h : verifyBitemporal s = .ok u) :
    s.validTime < s.txnTime := by
  unfold verifyBitemporal at h
  split at h
  · exact absurd h (by simp)
  · rename_i hlt
    exact Int64.not_le.1 hlt

/-! ## Canonical text -/

mutual

/-- `canonicalize_json`: members sorted by key, no white space. -/
def canonicalizeJson (ft : F64 → List Char) : Json → List Char
  | .obj ms =>
    -- each member keeps its key until the sort is done
    '{' :: joinComma ((Json.sortByKey (canonicalizeMembers ft ms)).map
      fun m => quote m.1 ++ ':' :: m.2) ++ ['}']
  | .arr xs => '[' :: joinComma (canonicalizeAll ft xs) ++ [']']
  | .null => Json.print ft .null
  | .bool b => Json.print ft (.bool b)
  | .num n => Json.print ft (.num n)
  | .str s => Json.print ft (.str s)

/-- The canonical texts of the elements. -/
def canonicalizeAll (ft : F64 → List Char) : List Json → List (List Char)
  | [] => []
  | v :: vs => canonicalizeJson ft v :: canonicalizeAll ft vs

/-- The canonical texts of the members, each under its key. -/
def canonicalizeMembers (ft : F64 → List Char) : List (String × Json) → List (String × List Char)
  | [] => []
  | (k, v) :: ms => (k, canonicalizeJson ft v) :: canonicalizeMembers ft ms

end

theorem printMembers_eq_map (ft : F64 → List Char) (ms : List (String × Json)) :
    Json.printMembers ft ms = ms.map fun m => quote m.1 ++ ':' :: Json.print ft m.2 := by
  induction ms with
  | nil => rfl
  | cons m ms ih => rw [Json.printMembers, ih]; rfl

/-- Sorting by key commutes with a change of the values. -/
theorem sortByKey_map {α β : Type*} (f : α → β) (ms : List (String × α)) :
    Json.sortByKey (ms.map fun m => (m.1, f m.2))
      = (Json.sortByKey ms).map fun m => (m.1, f m.2) := by
  unfold Json.sortByKey
  exact (List.map_insertionSort Json.keyLe Json.keyLe (fun m : String × α => (m.1, f m.2)) ms
    (fun a _ b _ => Iff.rfl)).symm

/-- The canonical text is the compact text of the normal form. -/
theorem canonicalizeJson_eq (ft : F64 → List Char) :
    ∀ v : Json, canonicalizeJson ft v = Json.print ft v.normalize := by
  refine @Json.rec
    (fun v => canonicalizeJson ft v = Json.print ft v.normalize)
    (fun xs => canonicalizeAll ft xs = Json.printAll ft (Json.normalizeAll xs))
    (fun ms => canonicalizeMembers ft ms
      = (Json.normalizeMembers ms).map fun m => (m.1, Json.print ft m.2))
    (fun m => canonicalizeJson ft m.2 = Json.print ft m.2.normalize)
    ?null ?bool ?num ?str ?arr ?obj ?nil ?cons ?mnil ?mcons ?mk
  case null => rfl
  case bool => intro b; rfl
  case num => intro n; rfl
  case str => intro s; rfl
  case arr =>
    intro xs ih
    rw [canonicalizeJson, Json.normalize, Json.print, ih]
  case obj =>
    intro ms ih
    rw [canonicalizeJson, Json.normalize, Json.print, ih, sortByKey_map, List.map_map,
      printMembers_eq_map]
    rfl
  case nil => rfl
  case cons =>
    intro v vs ihv ihvs
    rw [canonicalizeAll, Json.normalizeAll, Json.printAll, ihv, ihvs]
  case mnil => rfl
  case mcons =>
    rintro ⟨k, v⟩ ms ihv ihms
    rw [canonicalizeMembers, Json.normalizeMembers, List.map_cons, ihms]
    simp only at ihv
    rw [ihv]
  case mk => rintro k v ih; exact ih

/-- The canonical texts of two values are equal exactly if the values are, up to the order of object
members at every depth; it is enough that one of them repeats no key. -/
theorem canonical_text_eq_iff {ft : F64 → List Char} (law : FloatText.Lawful ft) {v w : Json}
    (hv : v.UniqueKeys) :
    canonicalizeJson ft v = canonicalizeJson ft w ↔ Json.Reordered v w := by
  rw [canonicalizeJson_eq, canonicalizeJson_eq, (Json.print_injective law).eq_iff,
    Json.normalize_eq_iff_reordered hv]

/-- Two orders of the members of an object inside an array. -/
theorem canonical_text_eq_iff_sample :
    canonicalizeJson sampleFloatText (.arr [.null, .obj [("b", .bool true), ("a", .str ",")]]) =
        canonicalizeJson sampleFloatText (.arr [.null, .obj [("a", .str ","), ("b", .bool true)]]) ↔
      Json.Reordered (.arr [.null, .obj [("b", .bool true), ("a", .str ",")]])
        (.arr [.null, .obj [("a", .str ","), ("b", .bool true)]]) := by
  refine canonical_text_eq_iff sampleFloatText_lawful (.arr ?_)
  simp only [List.forall_mem_cons, List.not_mem_nil, IsEmpty.forall_iff, implies_true, and_true]
  refine ⟨.null, .obj (by decide) (fun _ _ => trivial) ?_⟩
  simp only [List.forall_mem_cons, List.not_mem_nil, IsEmpty.forall_iff, implies_true, and_true]
  exact ⟨.bool true, .str trivial⟩

/-! ## The seal -/

/-- The bytes of a snapshot that are hashed. -/
def CognitiveSnapshot.canonicalBytes (K : Crates) (s : CognitiveSnapshot) : List UInt8 :=
  Text.encode (canonicalizeJson K.floatText s.toJson)

/-- `seal`: the digest of the canonical bytes.  Its serialization errors cannot
arise: every key is a string and every float is finite. -/
def CognitiveSnapshot.seal (K : Crates) (s : CognitiveSnapshot) : String :=
  sha256Hex (s.canonicalBytes K)

/-- What the final proof hashes. -/
def finalProofPreimage (reasoningHash exchangeTxId : String) : List UInt8 :=
  Text.utf8 reasoningHash ++ Text.utf8 "||" ++ Text.utf8 exchangeTxId

/-- `SHA-256(reasoning_hash || "||" || exchange_tx_id)`. -/
def computeFinalProof (reasoningHash exchangeTxId : String) : String :=
  sha256Hex (finalProofPreimage reasoningHash exchangeTxId)

/-- Reasoning hashes of one length leave no ambiguity about where the transaction
id starts. -/
theorem finalProofPreimage_inj {r₁ r₂ x₁ x₂ : String}
    (hlen : (Text.utf8 r₁).length = (Text.utf8 r₂).length)
    (h : finalProofPreimage r₁ x₁ = finalProofPreimage r₂ x₂) : r₁ = r₂ ∧ x₁ = x₂ := by
  unfold finalProofPreimage at h
  rw [List.append_assoc, List.append_assoc] at h
  obtain ⟨hr, hx⟩ := List.append_inj h hlen
  exact ⟨Text.utf8_injective hr, Text.utf8_injective (List.append_cancel_left hx)⟩

/-! ## The canonical bytes determine the snapshot -/

theorem jsonU8_injective : Function.Injective jsonU8 := by
  intro a b h
  have h64 : a.toUInt64 = b.toUInt64 := Number.posInt.inj (Json.num.inj h)
  simpa using congrArg UInt64.toUInt8 h64

theorem jsonU64_injective : Function.Injective jsonU64 := by
  intro a b h
  exact Number.posInt.inj (Json.num.inj h)

theorem jsonI64_injective : Function.Injective jsonI64 := by
  intro a b h
  exact Number.ofInt64_injective (Json.num.inj h)

theorem jsonF64_injective : Function.Injective jsonF64 := by
  intro a b h
  exact Number.float.inj (Json.num.inj h)

theorem jsonOption_jsonF64_injective : Function.Injective (jsonOption jsonF64) := by
  intro a b h
  cases a with
  | none => cases b with
    | none => rfl
    | some g => exact absurd h (by simp [jsonOption, jsonF64])
  | some f => cases b with
    | none => exact absurd h (by simp [jsonOption, jsonF64])
    | some g => rw [jsonF64_injective h]

/-- The scalars are their own normal forms. -/
@[simp] theorem normalize_jsonU8 (n : UInt8) : (jsonU8 n).normalize = jsonU8 n := rfl

@[simp] theorem normalize_jsonU64 (n : UInt64) : (jsonU64 n).normalize = jsonU64 n := rfl

@[simp] theorem normalize_jsonI64 (n : Int64) : (jsonI64 n).normalize = jsonI64 n := rfl

@[simp] theorem normalize_jsonF64 (f : F64) : (jsonF64 f).normalize = jsonF64 f := rfl

@[simp] theorem normalize_str (s : String) : (Json.str s).normalize = .str s := by
  rw [Json.normalize]

@[simp] theorem normalize_jsonOption_jsonF64 (f : Option F64) :
    (jsonOption jsonF64 f).normalize = jsonOption jsonF64 f := by
  cases f <;> rfl

theorem TradeAction.eq_of_normalize {a b : TradeAction}
    (h : a.toJson.normalize = b.toJson.normalize) : a = b := by
  cases a <;> cases b <;>
    simp_all [TradeAction.toJson, Json.normalize, Json.normalizeMembers, Json.sortByKey, jsonF64]

theorem OrderType.eq_of_normalize {a b : OrderType}
    (h : a.toJson.normalize = b.toJson.normalize) : a = b := by
  cases a <;> cases b <;>
    simp_all [OrderType.toJson, OrderType.display, Json.normalize, Json.normalizeMembers,
      Json.sortByKey]

theorem ExecutionIntent.eq_of_normalize {a b : ExecutionIntent}
    (h : a.toJson.normalize = b.toJson.normalize) : a = b := by
  have hv := Json.normalize_values (by rfl) (by simp) h
  simp only [List.map_cons, List.map_nil, List.cons.injEq, normalize_str, normalize_jsonF64,
    normalize_jsonOption_jsonF64, Json.str.injEq, jsonF64_injective.eq_iff,
    jsonOption_jsonF64_injective.eq_iff, and_true] at hv
  obtain ⟨haction, hasset, horder, hvenue, hquantity, hnotional, hcurrency, hmult, hlimit, hstop,
    hclient⟩ := hv
  have haction := TradeAction.eq_of_normalize haction
  have horder := OrderType.eq_of_normalize horder
  cases a; cases b
  simp_all

theorem SignedHeartbeat.eq_of_normalize {a b : SignedHeartbeat}
    (h : a.toJson.normalize = b.toJson.normalize) : a = b := by
  have hv := Json.normalize_values (by rfl) (by simp) h
  simp only [List.map_cons, List.map_nil, List.cons.injEq, normalize_str, normalize_jsonU8,
    normalize_jsonU64, Json.str.injEq, jsonU8_injective.eq_iff, jsonU64_injective.eq_iff,
    String.ofList_inj, Encoding.base64Encode_injective.eq_iff, and_true] at hv
  obtain ⟨hseq, htime, hregime, href, hsig⟩ := hv
  cases a; cases b
  simp_all

theorem CognitiveSnapshot.eq_of_normalize {a b : CognitiveSnapshot}
    (h : a.toJson.normalize = b.toJson.normalize) : a = b := by
  have hv := Json.normalize_values (by rfl) (by simp) h
  simp only [List.map_cons, List.map_nil, List.cons.injEq, normalize_str, normalize_jsonU8,
    normalize_jsonI64, Json.str.injEq, jsonU8_injective.eq_iff, jsonI64_injective.eq_iff,
    Uuid.toText_injective.eq_iff, and_true] at hv
  obtain ⟨htrace, hregime, hversion, hhash, hfp, hschema, hexec, hvalid, htxn, hhb⟩ := hv
  have hexec := ExecutionIntent.eq_of_normalize hexec
  have hhb := SignedHeartbeat.eq_of_normalize hhb
  cases a; cases b
  simp_all

/-- **The canonical bytes determine the snapshot**, given a lawful float printer. -/
theorem CognitiveSnapshot.canonicalBytes_injective {K : Crates}
    (law : FloatText.Lawful K.floatText) : Function.Injective (canonicalBytes K) := by
  intro a b h
  have htext : canonicalizeJson K.floatText a.toJson = canonicalizeJson K.floatText b.toJson :=
    Text.encode_injective h
  rw [canonicalizeJson_eq, canonicalizeJson_eq] at htext
  exact CognitiveSnapshot.eq_of_normalize (Json.print_injective law htext)

/-- **The seal is tamper-evident**: equal canonical bytes come from equal snapshots,
and traces with fresh ids have pairwise different reasoning hashes as long as
SHA-256 does not collide on them. -/
theorem seal_tamper_evident {K : Crates} (law : FloatText.Lawful K.floatText) :
    (∀ a b : CognitiveSnapshot, a.canonicalBytes K = b.canonicalBytes K → a = b) ∧
    ∀ traces : List CognitiveSnapshot,
      (traces.map CognitiveSnapshot.traceId).Nodup →
      Sha256.CollisionFree {m | m ∈ traces.map (CognitiveSnapshot.canonicalBytes K)} →
      (traces.map (CognitiveSnapshot.seal K)).Nodup := by
  have hinj := CognitiveSnapshot.canonicalBytes_injective law
  refine ⟨fun a b h => hinj h, ?_⟩
  intro traces hids hfree
  refine hids.of_map.map_on ?_
  intro a ha b hb hseal
  have hhash := sha256Hex_eq_iff.1 hseal
  exact hinj (hfree (List.mem_map_of_mem ha) (List.mem_map_of_mem hb) hhash)

/-- A snapshot of a one-unit market order, for concrete runs. -/
def CognitiveSnapshot.sample (traceId : Uuid) : CognitiveSnapshot where
  traceId := traceId
  mtaRegimeId := 2
  mtaVersion := "v"
  mtaHash := "h"
  latentFingerprint := "f"
  featureSchemaId := "s"
  execution :=
    { action := .long F64.one, asset := "BTC", orderType := .market, venueId := "V"
      quantity := F64.one, notional := F64.one, notionalCurrency := "USD", multiplier := F64.one
      limitPrice := none, stopPrice := none, clientOrderId := "c" }
  validTime := 1
  txnTime := 2
  heartbeat := { sequenceId := 1, timestampMs := 1, regimeId := 2, mtaRef := "h", signature := [] }

/-- Two snapshots that differ in their trace ids only have different seals. -/
theorem seal_sample_ne :
    ([CognitiveSnapshot.sample (Uuid.fill 1), CognitiveSnapshot.sample (Uuid.fill 2)].map
      (CognitiveSnapshot.seal Crates.sample)).Nodup := by
  refine (seal_tamper_evident sampleFloatText_lawful).2 _ (by decide) ?_
  refine Sha256.CollisionFree.pair ?_
  decide +kernel

end IrlEngine
