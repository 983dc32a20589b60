import IrlEngine.AnchorAudit

/-!
# Receipts for the anchors

`run_ots_upgrade_cycle` of `merkle.rs`: the anchors that have no receipt are posted again, newest
first and ten in a cycle.  Any number of such cycles run between the accesses of the anchor cycles
and of the writers of the traces, each split into its query, its posts and its updates; an anchor is
named by its place in the table, which is its id.

* `receipts_kept` — no step changes the period, the count or the root of an anchor, nor loses a
  receipt that is stored;
* `receipt_attests` — **a receipt attests what an auditor recomputes**: it was issued by a calendar
  for the root that the table still has;
* `upgrades_settle` — from every reachable state, cycles that meet no failure leave ten anchors
  fewer without a receipt each time, until none is left.
-/

namespace IrlEngine

/-! ## One cycle -/

/-- `ots_receipt IS NULL AND ots_upgraded_at IS NULL`. -/
def AnchorRow.unanchored (r : AnchorRow) : Bool := r.otsReceipt.isNone && r.otsUpgradedAt.isNone

/-- The columns that an upgrade writes. -/
def AnchorRow.receive (r : AnchorRow) (receipt : List UInt8) (now : ℤ) : AnchorRow :=
  { r with otsReceipt := some receipt, otsError := none, otsUpgradedAt := some now }

/-- `hex::decode` of a root, which must be 32 bytes. -/
def decodeRoot (rootHex : String) : Option Digest :=
  (hexDecodeText rootHex).bind fun bytes =>
    if h : bytes.length = 32 then some ⟨bytes, h⟩ else none

theorem decodeRoot_toHex (d : Digest) : decodeRoot d.toHex = some d := by
  rw [decodeRoot, Digest.toHex, hexDecodeText, String.toList_ofList, Encoding.hexDecode_hexEncode,
    Option.bind_some, dif_pos d.length_eq]

/-- `ORDER BY period_end DESC`. -/
def endsLater (a b : ℕ × AnchorRow) : Bool := decide (b.2.periodEnd ≤ a.2.periodEnd)

/-- The ids and the roots that a cycle retries, from a scan of the table. -/
def failedQuery (scan : List (ℕ × AnchorRow)) : List (ℕ × String) :=
  (((scan.filter fun p => p.2.unanchored).mergeSort endsLater).take 10).map fun p =>
    (p.1, p.2.merkleRoot)

/-- The anchors as they are scanned, each with its id. -/
def scannedAnchors (anchors : List Anchored) (order : List ℕ) : List (ℕ × AnchorRow) :=
  order.filterMap fun i => anchors[i]?.map fun a => (i, a.row)

/-- The update of one anchor. -/
def storeReceipt (anchors : List Anchored) (id : ℕ) (receipt : List UInt8) (now : ℤ) :
    List Anchored :=
  anchors.modify id fun a => { a with row := a.row.receive receipt now }

/-- The loop of a cycle; `post` is the answer of the calendars for an anchor, `update` what becomes
of its update, and `now` the time of the database at that update. -/
def retryAll (post : ℕ → Except String (List UInt8)) (update : ℕ → InsertOutcome) (now : ℕ → ℤ) :
    List Anchored → List (ℕ × String) → List Anchored × Except String Unit
  | anchors, [] => (anchors, .ok ())
  | anchors, (id, rootHex) :: rest =>
    match decodeRoot rootHex with
    | none => retryAll post update now anchors rest
    | some _ =>
      match post id with
      | .error _ => retryAll post update now anchors rest
      | .ok receipt =>
        match update id with
        | .stored => retryAll post update now (storeReceipt anchors id receipt (now id)) rest
        | .failed e =>
          (anchors, .error ("DB error updating anchor id=" ++ toString id ++ ": " ++ e))
        | .unconfirmed e =>
          (storeReceipt anchors id receipt (now id),
            .error ("DB error updating anchor id=" ++ toString id ++ ": " ++ e))

/-- `run_ots_upgrade_cycle`, with the order of its scan. -/
def runOtsUpgradeCycle (anchors : List Anchored) (query : Except String (List ℕ))
    (post : ℕ → Except String (List UInt8)) (update : ℕ → InsertOutcome) (now : ℕ → ℤ) :
    List Anchored × Except String Unit :=
  match query with
  | .error e => (anchors, .error ("DB error fetching unanchored rows: " ++ e))
  | .ok order => retryAll post update now anchors (failedQuery (scannedAnchors anchors order))

/-! ## Cycles in flight -/

/-- How far an upgrade cycle has come: what is left to retry, and a receipt that is not stored
yet. -/
inductive UpgradePhase where
  | retrying (failed : List (ℕ × String))
  | received (id : ℕ) (receipt : List UInt8) (failed : List (ℕ × String))

/-- The store of the anchors, the upgrade cycles under way, and the receipts. -/
structure OtsSystem where
  base : AnchorSystem
  upgrades : List UpgradePhase
  /-- What the calendars have issued: receipts, each for a digest. -/
  issued : List (Digest × List UInt8)

/-- An empty store without a cycle. -/
def OtsSystem.init : OtsSystem := ⟨.init, [], []⟩

/-- The accesses of the upgrade cycles, each named by its place, and everything else. -/
inductive OtsEvent where
  /-- A writer of the traces, or an access of an anchor cycle. -/
  | anchor (e : AnchorEvent)
  /-- The query of a new upgrade cycle, which scans the table in the given order. -/
  | select (order : List ℕ)
  | retry (k : ℕ) (answer : Except String (List UInt8))
  | store (k : ℕ) (now : ℤ) (outcome : InsertOutcome)

/-- The receipt behind the insert of an anchor; a cycle that has found no rows posts nothing. -/
def issuedBy (s : AnchorSystem) : AnchorEvent → List (Digest × List UInt8)
  | .insertAnchor k _ (.ok receipt) =>
    match s.cycles[k]? with
    | some (.collected _ _ rows _) =>
      if leafCount (hashesOf rows) = 0 then [] else [(merkleRoot (hashesOf rows), receipt)]
    | _ => []
  | _ => []

/-- The store with the update of one anchor. -/
def OtsSystem.storeReceipt (s : OtsSystem) (id : ℕ) (receipt : List UInt8) (now : ℤ) : OtsSystem :=
  { s with base := { s.base with anchors := IrlEngine.storeReceipt s.base.anchors id receipt now } }

/-- The store with one cycle replaced. -/
def OtsSystem.setUpgrade (s : OtsSystem) (k : ℕ) (p : UpgradePhase) : OtsSystem :=
  { s with upgrades := s.upgrades.set k p }

/-- The step of an event. -/
def otsStep (D : Deployment) (s : OtsSystem) : OtsEvent → Option OtsSystem
  | .anchor e => (anchorStep D s.base e).map fun t =>
      { s with base := t, issued := s.issued ++ issuedBy s.base e }
  | .select order =>
    if order.isPerm (List.range s.base.anchors.length) then
      some { s with upgrades := s.upgrades
        ++ [.retrying (failedQuery (scannedAnchors s.base.anchors order))] }
    else none
  | .retry k answer =>
    match s.upgrades[k]? with
    | some (.retrying ((id, rootHex) :: rest)) =>
      match decodeRoot rootHex, answer with
      | some root, .ok receipt =>
        some { s.setUpgrade k (.received id receipt rest) with
          issued := s.issued ++ [(root, receipt)] }
      | _, _ => some (s.setUpgrade k (.retrying rest))
    | _ => none
  | .store k now outcome =>
    match s.upgrades[k]? with
    | some (.received id receipt rest) =>
      match outcome with
      | .stored => some ((s.storeReceipt id receipt now).setUpgrade k (.retrying rest))
      | .failed _ => some (s.setUpgrade k (.retrying []))
      | .unconfirmed _ => some ((s.storeReceipt id receipt now).setUpgrade k (.retrying []))
    | _ => none

/-! ## What a step does -/

/-- The six things that a step can do. -/
inductive OtsChange (D : Deployment) (s : OtsSystem) : OtsEvent → OtsSystem → Prop where
  | anchor (e : AnchorEvent) (t : AnchorSystem) (h : anchorStep D s.base e = some t) :
      OtsChange D s (.anchor e) { s with base := t, issued := s.issued ++ issuedBy s.base e }
  | select (order : List ℕ) (horder : order.isPerm (List.range s.base.anchors.length) = true) :
      OtsChange D s (.select order) { s with upgrades := s.upgrades
        ++ [.retrying (failedQuery (scannedAnchors s.base.anchors order))] }
  | skip (k : ℕ) (answer : Except String (List UInt8)) (p : ℕ × String) (rest : List (ℕ × String))
      (hk : s.upgrades[k]? = some (.retrying (p :: rest))) :
      OtsChange D s (.retry k answer) (s.setUpgrade k (.retrying rest))
  | receive (k id : ℕ) (rootHex : String) (rest : List (ℕ × String)) (root : Digest)
      (receipt : List UInt8) (hk : s.upgrades[k]? = some (.retrying ((id, rootHex) :: rest)))
      (hroot : decodeRoot rootHex = some root) :
      OtsChange D s (.retry k (.ok receipt)) { s.setUpgrade k (.received id receipt rest) with
        issued := s.issued ++ [(root, receipt)] }
  | store (k : ℕ) (now : ℤ) (outcome : InsertOutcome) (id : ℕ) (receipt : List UInt8)
      (rest failed : List (ℕ × String)) (hk : s.upgrades[k]? = some (.received id receipt rest))
      (hfailed : failed = rest ∨ failed = []) :
      OtsChange D s (.store k now outcome)
        ((s.storeReceipt id receipt now).setUpgrade k (.retrying failed))
  | drop (k : ℕ) (now : ℤ) (outcome : InsertOutcome) (id : ℕ) (receipt : List UInt8)
      (rest : List (ℕ × String)) (hk : s.upgrades[k]? = some (.received id receipt rest)) :
      OtsChange D s (.store k now outcome) (s.setUpgrade k (.retrying []))

theorem otsChange_of_step {D : Deployment} {s t : OtsSystem} {e : OtsEvent}
    (h : otsStep D s e = some t) : OtsChange D s e t := by
  cases e with
  | anchor e =>
    obtain ⟨u, hu, rfl⟩ := Option.map_eq_some_iff.1 h
    exact .anchor e u hu
  | select order =>
    simp only [otsStep] at h
    split at h
    · rename_i horder
      obtain rfl := Option.some.inj h
      exact .select order horder
    · exact absurd h (by simp)
  | retry k answer =>
    simp only [otsStep] at h
    split at h
    · rename_i id rootHex rest hk
      split at h
      · rename_i root receipt hroot
        obtain rfl := Option.some.inj h
        exact .receive k id rootHex rest root receipt hk hroot
      · obtain rfl := Option.some.inj h
        exact .skip k _ (id, rootHex) rest hk
    · exact absurd h (by simp)
  | store k now outcome =>
    simp only [otsStep] at h
    split at h
    · rename_i id receipt rest hk
      cases outcome with
      | stored =>
        obtain rfl := Option.some.inj h
        exact .store k now .stored id receipt rest rest hk (Or.inl rfl)
      | failed e =>
        obtain rfl := Option.some.inj h
        exact .drop k now (.failed e) id receipt rest hk
      | unconfirmed e =>
        obtain rfl := Option.some.inj h
        exact .store k now (.unconfirmed e) id receipt rest [] hk (Or.inr rfl)
    · exact absurd h (by simp)

/-- An access of an anchor cycle stores at most one anchor, behind the others. -/
theorem anchors_of_anchorStep {D : Deployment} {s t : AnchorSystem} {e : AnchorEvent}
    (h : anchorStep D s e = some t) : t.anchors = s.anchors ∨
      ∃ k otsNow ots start stop rows seen, e = .insertAnchor k otsNow ots ∧
        s.cycles[k]? = some (.collected start stop rows seen) ∧ leafCount (hashesOf rows) ≠ 0 ∧
        t.anchors = s.anchors ++ [⟨anchorRow start stop (hashesOf rows) otsNow ots, rows⟩] := by
  cases e with
  | trace e =>
    obtain ⟨u, hu, rfl⟩ := Option.map_eq_some_iff.1 h
    exact Or.inl rfl
  | readLastEnd =>
    obtain rfl := Option.some.inj h
    exact Or.inl rfl
  | takeNow k now =>
    simp only [anchorStep] at h
    split at h
    · obtain rfl := Option.some.inj h
      exact Or.inl rfl
    · exact absurd h (by simp)
  | readRows k order =>
    simp only [anchorStep] at h
    split at h
    · split at h
      · obtain rfl := Option.some.inj h
        exact Or.inl rfl
      · exact absurd h (by simp)
    · exact absurd h (by simp)
  | insertAnchor k otsNow ots =>
    simp only [anchorStep] at h
    split at h
    · rename_i start stop rows seen hk
      split at h
      · obtain rfl := Option.some.inj h
        exact Or.inl rfl
      · rename_i hcount
        obtain rfl := Option.some.inj h
        exact Or.inr ⟨k, otsNow, ots, start, stop, rows, seen, rfl, hk, hcount, rfl⟩
    · exact absurd h (by simp)

/-! ## What is kept -/

/-- The same anchor at a later time: nothing but its receipt has changed, and a receipt that it had
is not gone. -/
structure SameAnchor (a b : Anchored) : Prop where
  periodStart : b.row.periodStart = a.row.periodStart
  periodEnd : b.row.periodEnd = a.row.periodEnd
  leafCount : b.row.leafCount = a.row.leafCount
  merkleRoot : b.row.merkleRoot = a.row.merkleRoot
  leaves : b.leaves = a.leaves
  receipt : a.row.otsReceipt.isSome → b.row.otsReceipt.isSome

theorem SameAnchor.refl (a : Anchored) : SameAnchor a a := ⟨rfl, rfl, rfl, rfl, rfl, id⟩

theorem SameAnchor.trans {a b c : Anchored} (h : SameAnchor a b) (h' : SameAnchor b c) :
    SameAnchor a c :=
  ⟨h'.periodStart.trans h.periodStart, h'.periodEnd.trans h.periodEnd,
    h'.leafCount.trans h.leafCount, h'.merkleRoot.trans h.merkleRoot, h'.leaves.trans h.leaves,
    fun hreceipt => h'.receipt (h.receipt hreceipt)⟩

theorem SameAnchor.receive (a : Anchored) (receipt : List UInt8) (now : ℤ) :
    SameAnchor a { a with row := a.row.receive receipt now } :=
  ⟨rfl, rfl, rfl, rfl, rfl, fun _ => rfl⟩

/-- Every anchor is still there, under its id. -/
def AnchorsKept (anchors later : List Anchored) : Prop :=
  ∀ (i : ℕ) (a : Anchored), anchors[i]? = some a → ∃ b, later[i]? = some b ∧ SameAnchor a b

theorem AnchorsKept.refl (anchors : List Anchored) : AnchorsKept anchors anchors :=
  fun _ a ha => ⟨a, ha, .refl a⟩

theorem AnchorsKept.trans {u v w : List Anchored} (h : AnchorsKept u v)
    (h' : AnchorsKept v w) : AnchorsKept u w := by
  intro i a ha
  obtain ⟨b, hb, hab⟩ := h i a ha
  obtain ⟨c, hc, hbc⟩ := h' i b hb
  exact ⟨c, hc, hab.trans hbc⟩

theorem anchorsKept_append (anchors new : List Anchored) :
    AnchorsKept anchors (anchors ++ new) := by
  intro i a ha
  obtain ⟨hlt, -⟩ := List.getElem?_eq_some_iff.1 ha
  exact ⟨a, by rw [List.getElem?_append_left hlt, ha], .refl a⟩

theorem kept_storeReceipt (anchors : List Anchored) (id : ℕ) (receipt : List UInt8) (now : ℤ) :
    AnchorsKept anchors (storeReceipt anchors id receipt now) := by
  intro i a ha
  rw [storeReceipt, List.getElem?_modify, ha]
  by_cases hi : id = i
  · exact ⟨_, congrArg some (if_pos hi), .receive a receipt now⟩
  · exact ⟨a, congrArg some (if_neg hi), .refl a⟩

theorem kept_of_change {D : Deployment} {s t : OtsSystem} {e : OtsEvent} (h : OtsChange D s e t) :
    AnchorsKept s.base.anchors t.base.anchors := by
  cases h with
  | anchor e u hu =>
    rcases anchors_of_anchorStep hu with hsame |
      ⟨k, otsNow, ots, start, stop, rows, seen, -, -, -, happ⟩
    · exact hsame ▸ .refl _
    · exact happ ▸ anchorsKept_append _ _
  | select order horder => exact .refl _
  | skip k answer p rest hk => exact .refl _
  | receive k id rootHex rest root receipt hk hroot => exact .refl _
  | store k now outcome id receipt rest failed hk hfailed =>
    exact kept_storeReceipt _ id receipt now
  | drop k now outcome id receipt rest hk => exact .refl _

/-- **Nothing is lost.**  In every run, from any state, an anchor keeps its id, its period, its
count, its root and its leaves, and once it has a receipt it has one for good. -/
theorem receipts_kept (D : Deployment) {s t : OtsSystem} {es : List OtsEvent}
    (hrun : Run.run (otsStep D) s es = some t) : AnchorsKept s.base.anchors t.base.anchors :=
  Run.run_relates_along (P := fun _ _ => True) (I := fun _ => True)
    (R := fun (u v : OtsSystem) => AnchorsKept u.base.anchors v.base.anchors) (fun _ => .refl _)
    (fun _ _ _ h h' => h.trans h') (fun _ _ _ _ _ _ => trivial)
    (fun _ _ _ _ _ h => kept_of_change (otsChange_of_step h)) hrun (Run.along_true _ _) trivial

/-! ## Where receipts come from -/

/-- The receipt was issued for the root of the row. -/
def IssuedFor (issued : List (Digest × List UInt8)) (rootHex : String)
    (receipt : List UInt8) : Prop :=
  ∃ root, decodeRoot rootHex = some root ∧ (root, receipt) ∈ issued

/-- A row has a receipt, issued for its root, or the reason why it has none. -/
inductive RowSound (issued : List (Digest × List UInt8)) (r : AnchorRow) : Prop where
  | anchored (receipt : List UInt8) (now : ℤ) (hreceipt : r.otsReceipt = some receipt)
      (herror : r.otsError = none) (hat : r.otsUpgradedAt = some now)
      (hissued : IssuedFor issued r.merkleRoot receipt)
  | waiting (e : String) (hreceipt : r.otsReceipt = none) (herror : r.otsError = some e)
      (hat : r.otsUpgradedAt = none)

/-- An upgrade cycle retries roots of stored anchors, and holds a receipt for the root it posted. -/
def PhaseSound (anchors : List Anchored) (issued : List (Digest × List UInt8)) : UpgradePhase → Prop
  | .retrying failed => ∀ p ∈ failed, ∃ a, anchors[p.1]? = some a ∧ a.row.merkleRoot = p.2
  | .received id receipt failed =>
    (∃ a, anchors[id]? = some a ∧ IssuedFor issued a.row.merkleRoot receipt) ∧
      ∀ p ∈ failed, ∃ a, anchors[p.1]? = some a ∧ a.row.merkleRoot = p.2

/-- Receipts stand where they belong, in the table and in the cycles. -/
structure ReceiptInv (s : OtsSystem) : Prop where
  rows : ∀ a ∈ s.base.anchors, RowSound s.issued a.row
  roots : ∀ a ∈ s.base.anchors, ∃ root : Digest, a.row.merkleRoot = root.toHex
  upgrades : ∀ p ∈ s.upgrades, PhaseSound s.base.anchors s.issued p

variable {issued : List (Digest × List UInt8)}

theorem IssuedFor.append {rootHex : String} {receipt : List UInt8}
    (h : IssuedFor issued rootHex receipt) (new : List (Digest × List UInt8)) :
    IssuedFor (issued ++ new) rootHex receipt := by
  obtain ⟨root, hroot, hmem⟩ := h
  exact ⟨root, hroot, List.mem_append_left new hmem⟩

theorem RowSound.append {r : AnchorRow} (h : RowSound issued r)
    (new : List (Digest × List UInt8)) : RowSound (issued ++ new) r := by
  cases h with
  | anchored receipt now hreceipt herror hat hissued =>
    exact .anchored receipt now hreceipt herror hat (hissued.append new)
  | waiting e hreceipt herror hat => exact .waiting e hreceipt herror hat

/-- An upgrade cycle stays sound while anchors are kept and receipts are issued. -/
theorem PhaseSound.later {anchors later : List Anchored} {p : UpgradePhase}
    (h : PhaseSound anchors issued p) (hkept : AnchorsKept anchors later)
    (new : List (Digest × List UInt8)) : PhaseSound later (issued ++ new) p := by
  have hnames : ∀ q : ℕ × String, (∃ a, anchors[q.1]? = some a ∧ a.row.merkleRoot = q.2) →
      ∃ a, later[q.1]? = some a ∧ a.row.merkleRoot = q.2 := by
    rintro q ⟨a, ha, hroot⟩
    obtain ⟨b, hb, hab⟩ := hkept q.1 a ha
    exact ⟨b, hb, hab.merkleRoot.trans hroot⟩
  cases p with
  | retrying failed => exact fun q hq => hnames q (h q hq)
  | received id receipt failed =>
    obtain ⟨⟨a, ha, hissued⟩, hfailed⟩ := h
    obtain ⟨b, hb, hab⟩ := hkept id a ha
    refine ⟨⟨b, hb, ?_⟩, fun q hq => hnames q (hfailed q hq)⟩
    rw [hab.merkleRoot]
    exact hissued.append new

/-- The query names anchors by their ids. -/
theorem mem_failedQuery {anchors : List Anchored} {order : List ℕ} {p : ℕ × String}
    (h : p ∈ failedQuery (scannedAnchors anchors order)) :
    ∃ a, anchors[p.1]? = some a ∧ a.row.merkleRoot = p.2 ∧ a.row.unanchored = true := by
  obtain ⟨q, hq, rfl⟩ := List.mem_map.1 h
  have hscan := (List.mergeSort_perm _ _).mem_iff.1 (List.mem_of_mem_take hq)
  obtain ⟨hmem, hwaiting⟩ := List.mem_filter.1 hscan
  obtain ⟨i, -, hi⟩ := List.mem_filterMap.1 hmem
  obtain ⟨a, ha, rfl⟩ := Option.map_eq_some_iff.1 hi
  exact ⟨a, ha, rfl, hwaiting⟩

/-- The anchor of a cycle comes with a receipt that was issued for its root, or with an error. -/
theorem rowSound_anchorRow {s : AnchorSystem} {k : ℕ} {start stop : ℤ} {rows : List TraceRow}
    {seen : ℕ} (hk : s.cycles[k]? = some (.collected start stop rows seen))
    (hcount : leafCount (hashesOf rows) ≠ 0) (otsNow : ℤ)
    (ots : Except String (List UInt8)) (issued : List (Digest × List UInt8)) :
    RowSound (issued ++ issuedBy s (.insertAnchor k otsNow ots))
      (anchorRow start stop (hashesOf rows) otsNow ots) := by
  cases ots with
  | error e => exact .waiting e rfl rfl rfl
  | ok receipt =>
    refine .anchored receipt otsNow rfl rfl rfl ⟨merkleRoot (hashesOf rows), decodeRoot_toHex _, ?_⟩
    simp [issuedBy, hk, hcount]

/-- What stands in the table after an update. -/
theorem mem_storeReceipt {anchors : List Anchored} {id : ℕ} {receipt : List UInt8} {now : ℤ}
    {b : Anchored} (h : b ∈ storeReceipt anchors id receipt now) : b ∈ anchors ∨
      ∃ a, anchors[id]? = some a ∧ b = { a with row := a.row.receive receipt now } := by
  obtain ⟨i, hi⟩ := List.mem_iff_getElem?.1 h
  rw [storeReceipt, List.getElem?_modify] at hi
  obtain ⟨a, ha, hb⟩ := Option.map_eq_some_iff.1 hi
  by_cases hid : id = i
  · rw [if_pos hid] at hb
    exact Or.inr ⟨a, hid ▸ ha, hb.symm⟩
  · rw [if_neg hid] at hb
    exact Or.inl (hb ▸ List.mem_of_getElem? ha)

theorem ReceiptInv.setUpgrade {s : OtsSystem} (hs : ReceiptInv s) {k : ℕ} {p : UpgradePhase}
    (hp : PhaseSound s.base.anchors s.issued p) : ReceiptInv (s.setUpgrade k p) := by
  refine ⟨hs.rows, hs.roots, fun q hq => ?_⟩
  rcases List.mem_or_eq_of_mem_set hq with hq | rfl
  · exact hs.upgrades q hq
  · exact hp

/-- An update with a receipt for the root of the anchor. -/
theorem ReceiptInv.storeReceipt {s : OtsSystem} (hs : ReceiptInv s) {id : ℕ} {receipt : List UInt8}
    (hissued : ∃ a, s.base.anchors[id]? = some a ∧ IssuedFor s.issued a.row.merkleRoot receipt)
    (now : ℤ) : ReceiptInv (s.storeReceipt id receipt now) := by
  obtain ⟨a, ha, hreceipt⟩ := hissued
  refine ⟨fun b hb => ?_, fun b hb => ?_, fun p hp => ?_⟩
  · rcases mem_storeReceipt hb with hb | ⟨a', ha', rfl⟩
    · exact hs.rows b hb
    · obtain rfl : a = a' := Option.some.inj (ha.symm.trans ha')
      exact .anchored receipt now rfl rfl rfl hreceipt
  · rcases mem_storeReceipt hb with hb | ⟨a', ha', rfl⟩
    · exact hs.roots b hb
    · exact hs.roots a' (List.mem_of_getElem? ha')
  · have hlater := (hs.upgrades p hp).later (kept_storeReceipt _ id receipt now) []
    rwa [List.append_nil] at hlater

theorem ReceiptInv.step {D : Deployment} {s t : OtsSystem} {e : OtsEvent} (hs : ReceiptInv s)
    (h : otsStep D s e = some t) : ReceiptInv t := by
  have hchange := otsChange_of_step h
  have hkept := kept_of_change hchange
  cases hchange with
  | anchor e u hu =>
    refine ⟨?_, ?_, fun p hp => (hs.upgrades p hp).later hkept _⟩
    · intro a ha
      rcases anchors_of_anchorStep hu with
        hsame | ⟨k, now, ots, start, stop, rows, seen, rfl, hk, hcount, happ⟩
      · exact (hs.rows a (hsame ▸ ha)).append _
      · rcases List.mem_append.1 (happ ▸ ha) with ha | ha
        · exact (hs.rows a ha).append _
        · rw [List.mem_singleton.1 ha]
          exact rowSound_anchorRow hk hcount now ots s.issued
    · intro a ha
      rcases anchors_of_anchorStep hu with
        hsame | ⟨k, now, ots, start, stop, rows, seen, rfl, hk, hcount, happ⟩
      · exact hs.roots a (hsame ▸ ha)
      · rcases List.mem_append.1 (happ ▸ ha) with ha | ha
        · exact hs.roots a ha
        · rw [List.mem_singleton.1 ha]
          exact ⟨merkleRoot (hashesOf rows), rfl⟩
  | select order horder =>
    refine ⟨hs.rows, hs.roots, fun p hp => ?_⟩
    rcases List.mem_append.1 hp with hp | hp
    · exact hs.upgrades p hp
    · rw [List.mem_singleton.1 hp]
      intro q hq
      obtain ⟨a, ha, hroot, -⟩ := mem_failedQuery hq
      exact ⟨a, ha, hroot⟩
  | skip k answer p rest hk =>
    have hphase := hs.upgrades _ (List.mem_of_getElem? hk)
    exact hs.setUpgrade fun q hq => hphase q (List.mem_cons_of_mem p hq)
  | receive k id rootHex rest root receipt hk hroot =>
    have hphase := hs.upgrades _ (List.mem_of_getElem? hk)
    obtain ⟨a, ha, hhex⟩ := hphase (id, rootHex) (by simp)
    have hissued : IssuedFor (s.issued ++ [(root, receipt)]) a.row.merkleRoot receipt :=
      ⟨root, by rw [hhex, hroot], by simp⟩
    refine ⟨fun b hb => (hs.rows b hb).append _, hs.roots, fun p hp => ?_⟩
    rcases List.mem_or_eq_of_mem_set hp with hp | rfl
    · exact (hs.upgrades p hp).later hkept _
    · exact ⟨⟨a, ha, hissued⟩, fun q hq => hphase q (List.mem_cons_of_mem _ hq)⟩
  | store k now outcome id receipt rest failed hk hfailed =>
    have hphase := hs.upgrades _ (List.mem_of_getElem? hk)
    refine (hs.storeReceipt hphase.1 now).setUpgrade ?_
    have hlater := hphase.2
    have hnames : PhaseSound s.base.anchors s.issued (.retrying failed) := by
      rcases hfailed with rfl | rfl
      · exact hlater
      · exact fun q hq => absurd hq (by simp)
    have hnext := hnames.later (kept_storeReceipt s.base.anchors id receipt now) []
    rwa [List.append_nil] at hnext
  | drop k now outcome id receipt rest hk =>
    exact hs.setUpgrade fun q hq => absurd hq (by simp)

theorem receiptInv_init : ReceiptInv .init := by
  refine ⟨fun a ha => absurd ha (by simp [OtsSystem.init, AnchorSystem.init]),
    fun a ha => absurd ha (by simp [OtsSystem.init, AnchorSystem.init]), fun p hp => ?_⟩
  exact absurd hp (by simp [OtsSystem.init])

/-- An anchor cannot have a receipt that nobody issued for its root. -/
theorem receiptInv_of_run (D : Deployment) {es : List OtsEvent} {s : OtsSystem}
    (hrun : Run.run (otsStep D) .init es = some s) : ReceiptInv s :=
  Run.run_invariant (fun _ _ _ hs h => ReceiptInv.step hs h) hrun receiptInv_init

/-! ## What a receipt attests -/

/-- No row becomes visible in a period that an anchor cycle has already read. -/
def OtsInTime (D : Deployment) (s : OtsSystem) : OtsEvent → Prop
  | .anchor e => CommitsInTime D s.base e
  | _ => True

/-- A new receipt leaves a root as recomputable as it was. -/
theorem BackedInv.storeReceipt {s : AnchorSystem} (hs : BackedInv s) (id : ℕ) (receipt : List UInt8)
    (now : ℤ) :
    BackedInv { s with anchors := IrlEngine.storeReceipt s.anchors id receipt now } := by
  refine ⟨fun b hb => ?_, fun b hb => ?_, hs.cycles⟩
  · rcases mem_storeReceipt hb with hb | ⟨a, ha, rfl⟩
    · exact hs.backed b hb
    · exact hs.backed a (List.mem_of_getElem? ha)
  · rcases mem_storeReceipt hb with hb | ⟨a, ha, rfl⟩
    · exact hs.root b hb
    · exact hs.root a (List.mem_of_getElem? ha)

theorem BackedInv.otsStep {D : Deployment} {s t : OtsSystem} {e : OtsEvent} (hs : BackedInv s.base)
    (hP : OtsInTime D s e) (h : otsStep D s e = some t) : BackedInv t.base := by
  cases otsChange_of_step h with
  | anchor e u hu => exact hs.step hP hu
  | select order horder => exact hs
  | skip k answer p rest hk => exact hs
  | receive k id rootHex rest root receipt hk hroot => exact hs
  | store k now outcome id receipt rest failed hk hfailed => exact hs.storeReceipt id receipt now
  | drop k now outcome id receipt rest hk => exact hs

/-- **A receipt attests what an auditor recomputes.**  In every run in which rows become visible in
time, an anchor has either a receipt or the reason why it has none; its receipt was issued for a
digest, and the rows of its period, as the table holds them now, have that digest as their root. -/
theorem receipt_attests (D : Deployment) {es : List OtsEvent} {s : OtsSystem}
    (hrun : Run.run (otsStep D) .init es = some s)
    (hP : Run.Along (otsStep D) (OtsInTime D) .init es) {a : Anchored} (ha : a ∈ s.base.anchors) :
    (a.row.otsReceipt.isSome ↔ a.row.otsError = none) ∧
    (a.row.otsReceipt.isSome ↔ a.row.otsUpgradedAt.isSome) ∧
    ∀ receipt, a.row.otsReceipt = some receipt → ∀ rows,
      LeafOrder s.base.system.traces a.row.periodStart a.row.periodEnd rows →
      TiesAgree s.base.system.traces a.row.periodStart a.row.periodEnd →
      (merkleRoot (hashesOf rows), receipt) ∈ s.issued := by
  have haudit : BackedInv s.base := Run.run_invariant_along
    (I := fun (s : OtsSystem) => BackedInv s.base) (fun s e t hs hP h => hs.otsStep hP h) hrun hP
    backedInv_init
  cases (receiptInv_of_run D hrun).rows a ha with
  | waiting e hreceipt herror hat =>
    refine ⟨by simp [hreceipt, herror], by simp [hreceipt, hat], fun receipt hsome => ?_⟩
    exact absurd (hreceipt.symm.trans hsome) (by simp)
  | anchored stored now hreceipt herror hat hissued =>
    refine ⟨by simp [hreceipt, herror], by simp [hreceipt, hat], ?_⟩
    intro receipt hsome rows hrows hties
    obtain rfl := Option.some.inj (hreceipt.symm.trans hsome)
    obtain ⟨root, hroot, hmem⟩ := hissued
    rw [haudit.root a ha, decodeRoot_toHex] at hroot
    rw [haudit.recompute ha hrows hties, Option.some.inj hroot]
    exact hmem

/-! ## A cycle that runs alone -/

/-- The accesses of a cycle from its first post on. -/
def retryEvents (post : ℕ → Except String (List UInt8)) (update : ℕ → InsertOutcome) (now : ℕ → ℤ)
    (k : ℕ) : List (ℕ × String) → List OtsEvent
  | [] => []
  | (id, rootHex) :: rest =>
    match decodeRoot rootHex, post id with
    | some _, .ok receipt =>
      match update id with
      | .stored =>
        .retry k (.ok receipt) :: .store k (now id) .stored :: retryEvents post update now k rest
      | outcome => [.retry k (.ok receipt), .store k (now id) outcome]
    | _, answer => .retry k answer :: retryEvents post update now k rest

/-- A calendar answers a retry. -/
theorem otsStep_retry (D : Deployment) {s : OtsSystem} {k id : ℕ} {rootHex : String}
    {rest : List (ℕ × String)} {root : Digest}
    (hk : s.upgrades[k]? = some (.retrying ((id, rootHex) :: rest)))
    (hroot : decodeRoot rootHex = some root) (receipt : List UInt8) :
    otsStep D s (.retry k (.ok receipt)) = some { s.setUpgrade k (.received id receipt rest) with
      issued := s.issued ++ [(root, receipt)] } := by
  simp only [otsStep, hk, hroot]

/-- A receipt is stored. -/
theorem otsStep_store (D : Deployment) {s : OtsSystem} {k id : ℕ} {receipt : List UInt8}
    {rest : List (ℕ × String)} (hk : s.upgrades[k]? = some (.received id receipt rest)) (now : ℤ) :
    otsStep D s (.store k now .stored)
      = some ((s.storeReceipt id receipt now).setUpgrade k (.retrying rest)) := by
  simp only [otsStep, hk]

/-- Nothing is received: the root does not decode, or no calendar answers. -/
theorem otsStep_skip (D : Deployment) {s : OtsSystem} {k id : ℕ} {rootHex : String}
    {rest : List (ℕ × String)} {answer : Except String (List UInt8)}
    (hk : s.upgrades[k]? = some (.retrying ((id, rootHex) :: rest)))
    (hskip : decodeRoot rootHex = none ∨ ∃ e, answer = .error e) :
    otsStep D s (.retry k answer) = some (s.setUpgrade k (.retrying rest)) := by
  rcases hskip with hroot | ⟨e, rfl⟩
  · simp only [otsStep, hk, hroot]
  · cases hroot : decodeRoot rootHex <;> simp only [otsStep, hk, hroot]

/-- The phase of a cycle that is under way, once it is set. -/
theorem OtsSystem.getElem?_setUpgrade {s : OtsSystem} {k : ℕ} {q : UpgradePhase}
    (hk : s.upgrades[k]? = some q) (p : UpgradePhase) :
    (s.setUpgrade k p).upgrades[k]? = some p := by
  obtain ⟨hlt, -⟩ := List.getElem?_eq_some_iff.1 hk
  exact List.getElem?_set_self hlt

variable (post : ℕ → Except String (List UInt8)) (update : ℕ → InsertOutcome) (now : ℕ → ℤ)

/-- The accesses of one cycle in a row are the loop of `run_ots_upgrade_cycle`. -/
theorem retryEvents_alone (D : Deployment) {k : ℕ} (failed : List (ℕ × String)) (s : OtsSystem)
    (hk : s.upgrades[k]? = some (.retrying failed)) :
    ∃ t, Run.run (otsStep D) s (retryEvents post update now k failed) = some t ∧
      t.base.anchors = (retryAll post update now s.base.anchors failed).1 := by
  induction failed generalizing s with
  | nil => exact ⟨s, rfl, rfl⟩
  | cons p rest ih =>
    obtain ⟨id, rootHex⟩ := p
    have hgoesOn : (decodeRoot rootHex = none ∨ ∃ e, post id = .error e) → ∃ t,
        Run.run (otsStep D) s (.retry k (post id) :: retryEvents post update now k rest) = some t ∧
          t.base.anchors = (retryAll post update now s.base.anchors rest).1 := by
      intro hskip
      obtain ⟨t, ht, hanchors⟩ :=
        ih (s.setUpgrade k (.retrying rest)) (OtsSystem.getElem?_setUpgrade hk _)
      exact ⟨t, (Run.run_cons (otsStep_skip D hk hskip) _).trans ht, hanchors⟩
    cases hroot : decodeRoot rootHex with
    | none => simpa [retryEvents, retryAll, hroot] using hgoesOn (Or.inl hroot)
    | some root =>
      cases hpost : post id with
      | error e =>
        have hrest := hgoesOn (Or.inr ⟨e, hpost⟩)
        simpa [retryEvents, retryAll, hroot, hpost] using hrest
      | ok receipt =>
        let u : OtsSystem := { s.setUpgrade k (.received id receipt rest) with
          issued := s.issued ++ [(root, receipt)] }
        have hreceived : otsStep D s (.retry k (.ok receipt)) = some u :=
          otsStep_retry D hk hroot receipt
        have hheld : u.upgrades[k]? = some (.received id receipt rest) :=
          OtsSystem.getElem?_setUpgrade hk _
        cases hupdate : update id with
        | stored =>
          have hstored := otsStep_store D hheld (now id)
          obtain ⟨t, ht, hanchors⟩ :=
            ih ((u.storeReceipt id receipt (now id)).setUpgrade k (.retrying rest))
              (OtsSystem.getElem?_setUpgrade hheld _)
          have hloop : retryAll post update now s.base.anchors ((id, rootHex) :: rest)
              = retryAll post update now
                (storeReceipt s.base.anchors id receipt (now id)) rest := by
            simp [retryAll, hroot, hpost, hupdate]
          refine ⟨t, ?_, hanchors.trans (congrArg Prod.fst hloop.symm)⟩
          simpa [retryEvents, hroot, hpost, hupdate, Run.run_cons hreceived, Run.run_cons hstored]
            using ht
        | failed e =>
          have hdropped : otsStep D u (.store k (now id) (.failed e))
              = some (u.setUpgrade k (.retrying [])) := by
            simp [otsStep, hheld]
          refine ⟨u.setUpgrade k (.retrying []), ?_, ?_⟩
          · simp [retryEvents, hroot, hpost, hupdate, Run.run_cons hreceived, Run.run_cons hdropped]
          · simp [retryAll, hroot, hpost, hupdate, OtsSystem.setUpgrade, u]
        | unconfirmed e =>
          have hstored : otsStep D u (.store k (now id) (.unconfirmed e))
              = some ((u.storeReceipt id receipt (now id)).setUpgrade k (.retrying [])) := by
            simp [otsStep, hheld]
          refine ⟨(u.storeReceipt id receipt (now id)).setUpgrade k (.retrying []), ?_, ?_⟩
          · simp [retryEvents, hroot, hpost, hupdate, Run.run_cons hreceived, Run.run_cons hstored]
          · simp [retryAll, hroot, hpost, hupdate, OtsSystem.setUpgrade, OtsSystem.storeReceipt, u]

/-! ## Every anchor gets its receipt -/

/-- How many anchors have no receipt. -/
def unanchoredCount (anchors : List Anchored) : ℕ := anchors.countP fun a => a.row.unanchored

/-- An update settles one anchor. -/
theorem unanchoredCount_storeReceipt {anchors : List Anchored} {id : ℕ} {a : Anchored}
    (ha : anchors[id]? = some a) (hwaiting : a.row.unanchored = true) (receipt : List UInt8)
    (now : ℤ) :
    unanchoredCount (storeReceipt anchors id receipt now) + 1 = unanchoredCount anchors := by
  obtain ⟨hlt, hget⟩ := List.getElem?_eq_some_iff.1 ha
  have hset : storeReceipt anchors id receipt now
      = anchors.set id { a with row := a.row.receive receipt now } := by
    rw [storeReceipt, List.modify_eq_set_getElem? , ha]
    rfl
  have hpos : 0 < anchors.countP fun a => a.row.unanchored :=
    List.countP_pos_iff.2 ⟨a, List.mem_of_getElem? ha, hwaiting⟩
  rw [hset, unanchoredCount, List.countP_set hlt, hget, if_pos hwaiting,
    if_neg (by simp [AnchorRow.unanchored, AnchorRow.receive]), unanchoredCount]
  omega

/-- The answers that are receipts. -/
def answered (failed : List (ℕ × String)) : ℕ := failed.countP fun p => (post p.1).isOk

/-- The loop settles an anchor for each receipt that it gets. -/
theorem unanchoredCount_retryAll (hupdate : ∀ id, update id = .stored)
    {failed : List (ℕ × String)} {anchors : List Anchored} (hids : (failed.map Prod.fst).Nodup)
    (hfailed : ∀ p ∈ failed, ∃ a, anchors[p.1]? = some a ∧ a.row.unanchored = true ∧
      (decodeRoot p.2).isSome) :
    unanchoredCount (retryAll post update now anchors failed).1 + answered post failed
      = unanchoredCount anchors := by
  induction failed generalizing anchors with
  | nil => rfl
  | cons p rest ih =>
    obtain ⟨id, rootHex⟩ := p
    obtain ⟨hnotin, hrest⟩ := List.nodup_cons.1 hids
    obtain ⟨a, ha, hwaiting, hroot⟩ := hfailed (id, rootHex) (by simp)
    obtain ⟨root, hroot⟩ := Option.isSome_iff_exists.1 hroot
    cases hpost : post id with
    | error e =>
      have hloop := ih hrest fun q hq => hfailed q (List.mem_cons_of_mem _ hq)
      have hanswered : answered post ((id, rootHex) :: rest) = answered post rest := by
        rw [answered, List.countP_cons_of_neg (by simp [hpost, Except.isOk, Except.toBool])]
        rfl
      rw [hanswered]
      simpa [retryAll, hroot, hpost] using hloop
    | ok receipt =>
      have hsettled := unanchoredCount_storeReceipt ha hwaiting receipt (now id)
      have hlater : ∀ q ∈ rest, ∃ a, (storeReceipt anchors id receipt (now id))[q.1]? = some a ∧
          a.row.unanchored = true ∧ (decodeRoot q.2).isSome := by
        intro q hq
        obtain ⟨b, hb, hb'⟩ := hfailed q (List.mem_cons_of_mem _ hq)
        have hne : id ≠ q.1 := fun h => hnotin (List.mem_map.2 ⟨q, hq, h.symm⟩)
        refine ⟨b, ?_, hb'⟩
        rw [storeReceipt, List.getElem?_modify, hb]
        exact congrArg some (if_neg hne)
      have hloop := ih hrest hlater
      have hanswered : answered post ((id, rootHex) :: rest) = answered post rest + 1 := by
        rw [answered, List.countP_cons_of_pos (by simp [hpost, Except.isOk, Except.toBool])]
        rfl
      have hnext : retryAll post update now anchors ((id, rootHex) :: rest)
          = retryAll post update now (storeReceipt anchors id receipt (now id)) rest := by
        simp [retryAll, hroot, hpost, hupdate]
      rw [hanswered, hnext, ← hsettled, ← hloop, Nat.add_assoc]

/-- A scan reads every anchor once. -/
theorem scannedAnchors_rows {anchors : List Anchored} {order : List ℕ}
    (horder : order.isPerm (List.range anchors.length) = true) :
    ((scannedAnchors anchors order).map Prod.snd).Perm (anchors.map Anchored.row) := by
  have hrows : (scannedAnchors anchors order).map Prod.snd
      = (order.filterMap fun i => anchors[i]?).map Anchored.row := by
    rw [scannedAnchors, List.map_filterMap, List.map_filterMap]
    refine List.filterMap_congr fun i _ => ?_
    cases anchors[i]? <;> rfl
  rw [hrows]
  exact (Table.perm_of_order horder).map Anchored.row

theorem scannedAnchors_ids (anchors : List Anchored) (order : List ℕ) :
    ((scannedAnchors anchors order).map Prod.fst).Sublist order := by
  induction order with
  | nil => exact List.Sublist.slnil
  | cons i order ih =>
    rw [scannedAnchors, List.filterMap_cons]
    cases anchors[i]? with
    | none => exact ih.cons i
    | some a => exact ih.cons_cons i

/-- What a cycle asks for: as many anchors as are waiting, ten at most, each of them once. -/
theorem failedQuery_spec {anchors : List Anchored} {order : List ℕ}
    (horder : order.isPerm (List.range anchors.length) = true) :
    (failedQuery (scannedAnchors anchors order)).length = min 10 (unanchoredCount anchors) ∧
    ((failedQuery (scannedAnchors anchors order)).map Prod.fst).Nodup := by
  have hsort := List.mergeSort_perm
    ((scannedAnchors anchors order).filter fun p => p.2.unanchored) endsLater
  refine ⟨?_, ?_⟩
  · have hcount : ((scannedAnchors anchors order).filter fun p => p.2.unanchored).length
        = unanchoredCount anchors := by
      have hrows := (scannedAnchors_rows horder).countP_eq AnchorRow.unanchored
      rw [List.countP_map, List.countP_map] at hrows
      rw [← List.countP_eq_length_filter]
      exact hrows
    rw [failedQuery, List.length_map, List.length_take, hsort.length_eq, hcount]
  · have hnodup : ((scannedAnchors anchors order).map Prod.fst).Nodup :=
      ((List.isPerm_iff.1 horder).nodup_iff.2 List.nodup_range).sublist
        (scannedAnchors_ids anchors order)
    have hsorted : ((((scannedAnchors anchors order).filter fun p => p.2.unanchored).mergeSort
        endsLater).map Prod.fst).Nodup :=
      (hsort.map Prod.fst).nodup_iff.2 (hnodup.sublist (List.filter_sublist.map _))
    rw [failedQuery, List.map_map]
    exact hsorted.sublist ((List.take_sublist _ _).map _)

/-- A cycle whose updates are stored settles an anchor for each receipt that it gets. -/
theorem unanchoredCount_cycle (hupdate : ∀ id, update id = .stored) {anchors : List Anchored}
    {order : List ℕ} (horder : order.isPerm (List.range anchors.length) = true)
    (hroots : ∀ a ∈ anchors, ∃ root : Digest, a.row.merkleRoot = root.toHex) :
    unanchoredCount (runOtsUpgradeCycle anchors (.ok order) post update now).1
      + answered post (failedQuery (scannedAnchors anchors order)) = unanchoredCount anchors := by
  refine unanchoredCount_retryAll post update now hupdate (failedQuery_spec horder).2 fun p hp => ?_
  obtain ⟨a, ha, hroot, hwaiting⟩ := mem_failedQuery hp
  obtain ⟨root, hhex⟩ := hroots a (List.mem_of_getElem? ha)
  exact ⟨a, ha, hwaiting, by rw [← hroot, hhex, decodeRoot_toHex]; rfl⟩

/-- What a cycle that meets no failure finds: the order of its scan, and for each anchor the receipt
that the calendars give and the time of its update. -/
structure UpgradeCycle where
  order : List ℕ
  receipt : ℕ → List UInt8
  now : ℕ → ℤ

/-- The anchors after such a cycle. -/
def UpgradeCycle.run (c : UpgradeCycle) (anchors : List Anchored) : List Anchored :=
  (runOtsUpgradeCycle anchors (.ok c.order) (fun id => .ok (c.receipt id))
    (fun _ => .stored) c.now).1

/-- The anchors after some of them. -/
def upgradesAfter (anchors : List Anchored) (cycles : List UpgradeCycle) : List Anchored :=
  cycles.foldl (fun anchors c => c.run anchors) anchors

/-- Every loop leaves the anchors with the roots that they had. -/
theorem roots_retryAll {failed : List (ℕ × String)} {anchors : List Anchored}
    (h : ∀ a ∈ anchors, ∃ root : Digest, a.row.merkleRoot = root.toHex) :
    ∀ a ∈ (retryAll post update now anchors failed).1,
      ∃ root : Digest, a.row.merkleRoot = root.toHex := by
  have hstore : ∀ (anchors : List Anchored), (∀ a ∈ anchors, ∃ root : Digest, a.row.merkleRoot
      = root.toHex) → ∀ id receipt now, ∀ a ∈ storeReceipt anchors id receipt now,
      ∃ root : Digest, a.row.merkleRoot = root.toHex := by
    intro anchors h id receipt now a ha
    rcases mem_storeReceipt ha with ha | ⟨b, hb, rfl⟩
    · exact h a ha
    · exact h b (List.mem_of_getElem? hb)
  induction failed generalizing anchors with
  | nil => exact h
  | cons p rest ih =>
    obtain ⟨id, rootHex⟩ := p
    simp only [retryAll]
    split
    · exact ih h
    · split
      · exact ih h
      · split
        · exact ih (hstore anchors h _ _ _)
        · exact h
        · exact hstore anchors h _ _ _

theorem length_storeReceipt (anchors : List Anchored) (id : ℕ) (receipt : List UInt8) (now : ℤ) :
    (storeReceipt anchors id receipt now).length = anchors.length := List.length_modify ..

theorem length_retryAll (failed : List (ℕ × String)) (anchors : List Anchored) :
    (retryAll post update now anchors failed).1.length = anchors.length := by
  induction failed generalizing anchors with
  | nil => rfl
  | cons p rest ih =>
    obtain ⟨id, rootHex⟩ := p
    simp only [retryAll]
    split
    · exact ih anchors
    · split
      · exact ih anchors
      · split
        · rw [ih, length_storeReceipt]
        · rfl
        · rw [length_storeReceipt]

/-- One cycle that meets no failure settles ten anchors, or all. -/
theorem unanchoredCount_run (c : UpgradeCycle) {anchors : List Anchored}
    (horder : c.order.isPerm (List.range anchors.length) = true)
    (hroots : ∀ a ∈ anchors, ∃ root : Digest, a.row.merkleRoot = root.toHex) :
    unanchoredCount (c.run anchors) = unanchoredCount anchors - 10 := by
  have hcycle := unanchoredCount_cycle (fun id => .ok (c.receipt id)) (fun _ => .stored) c.now
    (fun _ => rfl) horder hroots
  have hall : answered (fun id => .ok (c.receipt id))
      (failedQuery (scannedAnchors anchors c.order)) = min 10 (unanchoredCount anchors) := by
    rw [← (failedQuery_spec horder).1]
    exact List.countP_eq_length.2 fun p _ => rfl
  rw [hall] at hcycle
  rw [UpgradeCycle.run]
  omega

/-- Cycles that meet no failure, from anchors with well-formed roots. -/
theorem unanchoredCount_upgradesAfter (cycles : List UpgradeCycle) {anchors : List Anchored}
    (horders : ∀ c ∈ cycles, c.order.isPerm (List.range anchors.length) = true)
    (hroots : ∀ a ∈ anchors, ∃ root : Digest, a.row.merkleRoot = root.toHex) :
    unanchoredCount (upgradesAfter anchors cycles)
      = unanchoredCount anchors - 10 * cycles.length := by
  induction cycles generalizing anchors with
  | nil => simp [upgradesAfter]
  | cons c cycles ih =>
    have hlength : (c.run anchors).length = anchors.length :=
      length_retryAll (fun id => .ok (c.receipt id)) (fun _ => .stored) c.now _ anchors
    have hlater : ∀ a ∈ c.run anchors, ∃ root : Digest, a.row.merkleRoot = root.toHex :=
      roots_retryAll (fun id => .ok (c.receipt id)) (fun _ => .stored) c.now hroots
    have hnext := ih (fun d hd => hlength.symm ▸ horders d (List.mem_cons_of_mem _ hd)) hlater
    rw [unanchoredCount_run c (horders c List.mem_cons_self) hroots] at hnext
    rw [List.length_cons]
    refine hnext.trans ?_
    omega

/-- **Every anchor gets its receipt.**  From every reachable state, each cycle that meets no failure
leaves ten anchors fewer without a receipt, so that enough of them leave none. -/
theorem upgrades_settle (D : Deployment) {es : List OtsEvent} {s : OtsSystem}
    (hrun : Run.run (otsStep D) .init es = some s) {cycles : List UpgradeCycle}
    (horders : ∀ c ∈ cycles, c.order.isPerm (List.range s.base.anchors.length) = true) :
    unanchoredCount (upgradesAfter s.base.anchors cycles)
      = unanchoredCount s.base.anchors - 10 * cycles.length :=
  unanchoredCount_upgradesAfter cycles horders (receiptInv_of_run D hrun).roots

/-! ## A receipt at the second attempt -/

/-- The accesses of the anchor cycles alone. -/
theorem exists_lift {D : Deployment} {es : List AnchorEvent} {s : OtsSystem} {t : AnchorSystem}
    (hrun : Run.run (anchorStep D) s.base es = some t) : ∃ issued, ∀ fs,
      Run.run (otsStep D) s (es.map .anchor ++ fs)
        = Run.run (otsStep D) { s with base := t, issued := issued } fs ∧
      (Run.Along (anchorStep D) (CommitsInTime D) s.base es →
        Run.Along (otsStep D) (OtsInTime D) { s with base := t, issued := issued } fs →
          Run.Along (otsStep D) (OtsInTime D) s (es.map .anchor ++ fs)) := by
  induction es generalizing s with
  | nil =>
    rw [Run.run_nil, Option.some.injEq] at hrun
    subst hrun
    exact ⟨s.issued, fun fs => ⟨rfl, fun _ => id⟩⟩
  | cons e es ih =>
    obtain ⟨u, hu, hrest⟩ := Run.run_cons_eq_some.1 hrun
    have hstep : otsStep D s (.anchor e)
        = some { s with base := u, issued := s.issued ++ issuedBy s.base e } := by
      rw [otsStep, hu]
      rfl
    obtain ⟨issued, hlift⟩ :=
      ih (s := { s with base := u, issued := s.issued ++ issuedBy s.base e })
      hrest
    refine ⟨issued, fun fs => ⟨?_, fun hP hfs => ?_⟩⟩
    · exact (Run.run_cons hstep _).trans (hlift fs).1
    · exact Run.along_cons hP.1 hstep ((hlift fs).2 (hP.2 u hu) hfs)

/-- The root of the order's period. -/
def haltedRoot : Digest := merkleRoot (hashesOf [haltedRow])

/-- The anchor of the order, with the receipt of a retry. -/
def receiptedAnchor : Anchored := { haltedAnchor with row := haltedAnchor.row.receive [1] 3000 }

/-- The store with that anchor. -/
def receiptedBase : AnchorSystem := { anchoredState with anchors := [receiptedAnchor] }

/-- The first post of the order's anchor fails; the upgrade cycle gets a receipt. -/
def receiptRun : List OtsEvent :=
  anchoringRun.map .anchor ++ [.select [0], .retry 0 (.ok [1]), .store 0 3000 .stored]

theorem failedQuery_halted :
    failedQuery (scannedAnchors anchoredState.anchors [0]) = [(0, haltedRoot.toHex)] := by
  have hscan : scannedAnchors anchoredState.anchors [0] = [(0, haltedAnchor.row)] := rfl
  have hwaiting : haltedAnchor.row.unanchored = true := rfl
  have hroot : haltedAnchor.row.merkleRoot = haltedRoot.toHex := rfl
  simp only [hscan, failedQuery, List.filter_cons, hwaiting, if_true, List.filter_nil,
    List.mergeSort_singleton, List.take_succ_cons, List.take_nil, List.map_cons,
    List.map_nil, hroot]

/-- The receipt is asked for, comes, and is stored. -/
theorem run_retry (issued : List (Digest × List UInt8)) : ∃ s,
    Run.run (otsStep .sample) ⟨anchoredState, [], issued⟩
      [.select [0], .retry 0 (.ok [1]), .store 0 3000 .stored] = some s ∧
    s.base = receiptedBase := by
  have hselect : otsStep .sample ⟨anchoredState, [], issued⟩ (.select [0])
      = some ⟨anchoredState, [.retrying [(0, haltedRoot.toHex)]], issued⟩ := by
    have horder : [0].isPerm (List.range anchoredState.anchors.length) = true := rfl
    simp only [otsStep, horder, if_true, failedQuery_halted, List.nil_append]
  have hretry := otsStep_retry .sample (s := ⟨anchoredState, [.retrying [(0, haltedRoot.toHex)]],
    issued⟩) (k := 0) rfl (decodeRoot_toHex haltedRoot) [1]
  refine ⟨_, (Run.run_cons hselect _).trans ((Run.run_cons hretry _).trans
    (Run.run_cons (otsStep_store .sample rfl 3000) [])), ?_⟩
  simp only [OtsSystem.setUpgrade, OtsSystem.storeReceipt, storeReceipt, anchoredState,
    receiptedBase, receiptedAnchor, List.modify_zero_cons]

theorem run_receipt : ∃ s, Run.run (otsStep .sample) .init receiptRun = some s ∧
    Run.Along (otsStep .sample) (OtsInTime .sample) .init receiptRun ∧ s.base = receiptedBase := by
  obtain ⟨issued, hlift⟩ := exists_lift (s := .init) run_anchoring
  have hP : Run.Along (anchorStep .sample) (CommitsInTime .sample) .init anchoringRun :=
    Run.along_mono (fun _ _ h => h.commitsInTime) inTime_anchoring
  obtain ⟨s, hs, hbase⟩ := run_retry issued
  refine ⟨s, (hlift _).1.trans hs, (hlift _).2 hP (Run.along_of_forall_state ?_ _), hbase⟩
  simp [OtsInTime]

/-- The update keeps the anchor that it writes. -/
theorem receipts_kept_sample : AnchorsKept [haltedAnchor] [receiptedAnchor] := by
  have hrun : Run.run (otsStep .sample) ⟨anchoredState, [.received 0 [1] []], []⟩
      [.store 0 3000 .stored] = some ⟨receiptedBase, [.retrying []], []⟩ := rfl
  exact receipts_kept .sample hrun

/-- The receipt was issued for the root that the order's row has now. -/
theorem receipt_attests_sample : ∃ s : OtsSystem, s.base = receiptedBase ∧
    (haltedRoot, [1]) ∈ s.issued := by
  obtain ⟨s, hrun, hP, hbase⟩ := run_receipt
  have hin : inPeriod 0 2000 haltedRow = true := by decide
  have hfilter : [haltedRow].filter (inPeriod 0 2000) = [haltedRow] := by simp [hin]
  have hmem : receiptedAnchor ∈ s.base.anchors := hbase ▸ List.mem_singleton_self _
  refine ⟨s, hbase, (receipt_attests .sample hrun hP hmem).2.2 [1] rfl [haltedRow] ?_ ?_⟩
  · rw [hbase]
    exact ⟨List.Perm.of_eq hfilter.symm, List.pairwise_singleton _ _⟩
  · rw [hbase]
    intro r hr q hq _ _ _
    rw [List.mem_singleton.1 hr, List.mem_singleton.1 hq]

/-- One cycle of many that have found the table without an anchor. -/
theorem run_overlap (pre post : List CyclePhase) (anchors : List Anchored) : ∃ es,
    Run.run (anchorStep .sample) ⟨⟨[haltedRow], [], []⟩, anchors, pre ++ .started 0 0 :: post⟩ es
      = some ⟨⟨[haltedRow], [], []⟩, anchors ++ [haltedAnchor], pre ++ .done :: post⟩ := by
  have hget : ∀ c, (pre ++ c :: post)[pre.length]? = some c := by simp
  have hset : ∀ c d, (pre ++ c :: post).set pre.length d = pre ++ d :: post := by
    intro c d
    rw [List.set_append_right _ _ le_rfl, Nat.sub_self, List.set_cons_zero]
  have hquery : leafQuery (scanned [haltedRow] [0]) 0 2000 = [haltedRow] := by
    have hin : inPeriod 0 2000 haltedRow = true := by decide
    simp [leafQuery, scanned, hin]
  have hcount : leafCount (hashesOf [haltedRow]) ≠ 0 := by decide
  refine ⟨[.takeNow pre.length 2000, .readRows pre.length [0],
    .insertAnchor pre.length 2000 (.error "offline")], ?_⟩
  have horder : [0].isPerm (List.range [haltedRow].length) = true := rfl
  simp only [Run.run, anchorStep, hget, hset, Option.bind_some, hquery, horder, if_true, hcount,
    if_false, haltedAnchor]

/-- Any number of anchors can wait for their receipts. -/
theorem exists_waiting (n : ℕ) : ∃ es s, Run.run (otsStep .sample) .init es = some s ∧
    s.base.anchors = List.replicate n haltedAnchor := by
  have hstart : ∀ n, ∃ es, Run.run (anchorStep .sample) .init es
      = some ⟨⟨[haltedRow], [], []⟩, [], List.replicate n (.started 0 0)⟩ := by
    intro n
    induction n with
    | zero => exact ⟨_, (Run.run_cons anchorStep_halted []).trans (Run.run_nil _)⟩
    | succ n ih =>
      obtain ⟨es, hes⟩ := ih
      refine ⟨es ++ [.readLastEnd], (Run.run_append_of_eq hes _).trans ?_⟩
      rw [List.replicate_succ']
      rfl
  have hfinish : ∀ n m, ∃ es, Run.run (anchorStep .sample) ⟨⟨[haltedRow], [], []⟩,
      List.replicate m haltedAnchor, List.replicate m .done ++ List.replicate n (.started 0 0)⟩ es
        = some ⟨⟨[haltedRow], [], []⟩, List.replicate (m + n) haltedAnchor,
          List.replicate (m + n) .done⟩ := by
    intro n
    induction n with
    | zero => exact fun m => ⟨[], by rw [Run.run_nil, List.replicate_zero, List.append_nil]; rfl⟩
    | succ n ih =>
      intro m
      obtain ⟨es, hes⟩ := run_overlap (List.replicate m .done) (List.replicate n (.started 0 0))
        (List.replicate m haltedAnchor)
      obtain ⟨fs, hfs⟩ := ih (m + 1)
      refine ⟨es ++ fs, (Run.run_append_of_eq hes _).trans ?_⟩
      rw [Nat.add_right_comm, List.replicate_succ', List.replicate_succ', List.append_assoc] at hfs
      exact hfs
  obtain ⟨es, hes⟩ := hstart n
  obtain ⟨fs, hfs⟩ := hfinish n 0
  have hrun : Run.run (anchorStep .sample) .init (es ++ fs)
      = some ⟨⟨[haltedRow], [], []⟩, List.replicate n haltedAnchor, List.replicate n .done⟩ := by
    rw [Run.run_append_of_eq hes]
    simpa using hfs
  obtain ⟨issued, hlift⟩ := exists_lift (s := .init) hrun
  exact ⟨_, _, (hlift []).1, rfl⟩

/-- A cycle that scans eleven anchors in the order of their ids, and one the other way around. -/
def UpgradeCycle.upwards : UpgradeCycle := ⟨List.range 11, fun _ => [1], fun id => id⟩

/-- One that scans them the other way around, later. -/
def UpgradeCycle.downwards : UpgradeCycle :=
  ⟨(List.range 11).reverse, fun _ => [2], fun id => 99 - id⟩

/-- Of eleven anchors one cycle leaves one, and a second one none. -/
theorem upgrades_settle_sample :
    unanchoredCount (upgradesAfter (List.replicate 11 haltedAnchor) [.upwards]) = 1 ∧
      unanchoredCount (upgradesAfter (List.replicate 11 haltedAnchor) [.upwards, .downwards])
        = 0 := by
  obtain ⟨es, s, hrun, hanchors⟩ := exists_waiting 11
  have hcount : unanchoredCount (List.replicate 11 haltedAnchor) = 11 := rfl
  have hup : ∀ c ∈ [UpgradeCycle.upwards],
      c.order.isPerm (List.range s.base.anchors.length) = true := by
    rw [hanchors]
    decide
  have hboth : ∀ c ∈ [UpgradeCycle.upwards, .downwards],
      c.order.isPerm (List.range s.base.anchors.length) = true := by
    rw [hanchors]
    decide
  have hone := upgrades_settle .sample hrun hup
  have htwo := upgrades_settle .sample hrun hboth
  rw [hanchors, hcount] at hone htwo
  exact ⟨hone, htwo⟩

end IrlEngine
