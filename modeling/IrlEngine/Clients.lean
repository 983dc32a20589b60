import IrlEngine.Admin
import IrlEngine.Lib.Serde
import IrlEngine.Responses

/-!
# The clients on a response

How the three clients under `sdks/` read a response: `_handle` in Python, `handleResponse` in
TypeScript, `do` in Go, and the fields that `encoding/json` finds in a document.

* `handle_intoResponse` — an error of the engine is the same error for all three: its code, its
  message and its status;
* `receive_obj` — a success is read for what a client takes from the document.
-/

namespace IrlEngine

/-! ## Reading a response -/

/-- The three clients under `sdks/`. -/
inductive Client where
  | python
  | typescript
  | go

/-- `IRLError` and `APIError`, or whatever else is raised. -/
inductive ClientError where
  | irl (errorCode message : Json) (status : ℕ)
  | other

/-- The text has nothing but spaces. -/
def blank (isSpace : Char → Bool) (s : String) : Bool := s.toList.all isSpace

namespace Python

/-- `str.isspace`. -/
def isSpace (c : Char) : Bool := Text.isWhitespace c || (0x1c ≤ c.toNat && c.toNat ≤ 0x1f)

/-- `_handle`; what is raised besides an `IRLError` is a `ValueError` or an `AttributeError`. -/
def handle (resp : HttpResponse) : Except ClientError Json :=
  if 400 ≤ resp.status ∧ resp.status < 600 then
    match resp.json with
    | some (.obj ms) =>
      .error (.irl (((Json.obj ms).get? "error").getD (.str "UNKNOWN"))
        (((Json.obj ms).get? "message").getD (.str resp.text)) resp.status)
    | some _ => .error .other
    | none =>
      .error (.irl (.str "UNKNOWN")
        (.str (if resp.text = "" then "No response body" else resp.text)) resp.status)
  else if blank isSpace resp.text then .ok (.obj [])
  else resp.json.elim (.error .other) .ok

end Python

namespace TypeScript

/-- What `String.prototype.trim` removes. -/
def isSpace (c : Char) : Bool := (Text.isWhitespace c && c.toNat ≠ 0x85) || c.toNat = 0xfeff

/-- A property of a document, with `??` behind it. -/
def property (data : Json) (k : String) (default : Json) : Json :=
  match data.get? k with
  | none => default
  | some .null => default
  | some v => v

/-- What properties are read from; those of `null` throw. -/
def object : Json → Option Json
  | .null => none
  | v => some v

/-- `handleResponse`. -/
def handle (resp : HttpResponse) : Except ClientError Json :=
  if 200 ≤ resp.status ∧ resp.status < 300 then
    if blank isSpace resp.text then .ok (.obj [])
    else resp.json.elim (.error .other) .ok
  else
    let err := resp.json.getD .null
    .error (.irl (property err "error" (.str "UNKNOWN"))
      (property err "message" (.str resp.statusText)) resp.status)

end TypeScript

namespace Go

/-- `foldRune` of the letters that a field name may have. -/
def foldChar (c : Char) : Char :=
  if c = Char.ofNat 0x17f then 'S' else if c = Char.ofNat 0x212a then 'K' else c.toUpper

/-- `encoding/json` matches names in either case. -/
def sameName (a b : String) : Bool := a.toList.map foldChar = b.toList.map foldChar

/-- One field of `json.Unmarshal`: what it holds in the end, and whether every value fitted. -/
def field {α : Type} (into : α → Json → Option α) (k : String) (zero : α) : Json → α × Bool
  | .null => (zero, true)
  | .obj ms => (ms.filter fun m => sameName m.1 k).foldl
      (fun x m => match into x.1 m.2 with
        | some a => (a, x.2)
        | none => (x.1, false)) (zero, true)
  | _ => (zero, false)

/-- A JSON value decoded into a Go string that had a value before. -/
def intoText : String → Json → Option String
  | old, .null => some old
  | _, .str s => some s
  | _, _ => none

/-- A pointer to a text. -/
def intoTextPtr : Option String → Json → Option (Option String)
  | _, .null => some none
  | _, .str s => some (some s)
  | _, _ => none

/-- The same for a bool. -/
def intoBool : Bool → Json → Option Bool
  | old, .null => some old
  | _, .bool b => some b
  | _, _ => none

/-- The same for an integer. -/
def intoInt : ℤ → Json → Option ℤ
  | old, .null => some old
  | _, v => v.asI64.map Int64.toInt

/-- A number, kept as it is written. -/
def intoNumber : Json → Json → Option Json
  | old, .null => some old
  | _, .num n => some (.num n)
  | _, _ => none

/-- A slice of numbers. -/
def intoInts : Json → Json → Option Json
  | _, .null => some .null
  | _, .arr xs => if xs.all fun v => (intoInt 0 v).isSome then some (.arr xs) else none
  | _, _ => none

/-- `do`: the error, or the document to be unmarshalled; an empty body leaves the result alone, as
`null` does. -/
def handle (resp : HttpResponse) : Except ClientError Json :=
  if 400 ≤ resp.status then
    let err := resp.json.getD .null
    .error (.irl (.str (field intoText "error" "" err).1) (.str (field intoText "message" "" err).1)
      (field intoInt "StatusCode" resp.status err).1.toNat)
  else if resp.text = "" then .ok .null
  else resp.json.elim (.error .other) .ok

end Go

/-- A client on a response. -/
def Client.handle : Client → HttpResponse → Except ClientError Json
  | .python => Python.handle
  | .typescript => TypeScript.handle
  | .go => Go.handle

/-- A client that makes something of the document; what does not fit is another exception. -/
def Client.receive {α : Type} (client : Client) (read : Json → Option α) (resp : HttpResponse) :
    Except ClientError α :=
  match client.handle resp with
  | .error e => .error e
  | .ok v => (read v).elim (.error .other) .ok

/-! ### Names that need no folding -/

namespace Go

/-- The characters of the names in the answers of the engine. -/
def nameChars : List Char := "abcdefghijklmnopqrstuvwxyz_".toList

/-- The name has only characters that `encoding/json` folds to nothing else. -/
def Plain (s : String) : Prop := ∀ c ∈ s.toList, c ∈ nameChars

instance (s : String) : Decidable (Plain s) := List.decidableBAll _ s.toList

theorem map_toLower {cs : List Char} (h : ∀ c ∈ cs, c ∈ nameChars) :
    (cs.map foldChar).map Char.toLower = cs := by
  have hchars : (nameChars.all fun c => (foldChar c).toLower = c) = true := by decide +kernel
  have hid : ∀ c ∈ cs, (Char.toLower ∘ foldChar) c = id c := fun c hc =>
    of_decide_eq_true (List.all_eq_true.1 hchars c (h c hc))
  rw [List.map_map, List.map_congr_left hid, List.map_id]

theorem sameName_eq {a b : String} (ha : Plain a) (hb : Plain b) :
    sameName a b = decide (a = b) := by
  rw [sameName, decide_eq_decide]
  constructor
  · intro h
    apply String.toList_injective
    rw [← map_toLower ha, ← map_toLower hb, h]
  · intro h
    rw [h]

/-- What becomes of a field if there is at most one member for it. -/
def taken {α : Type} (into : α → Json → Option α) (zero : α) (found : Option Json) : α × Bool :=
  match found with
  | none => (zero, true)
  | some v => (into zero v).elim (zero, false) fun a => (a, true)

theorem field_obj {α : Type} (into : α → Json → Option α) {k : String} (zero : α)
    {ms : List (String × Json)} (hnodup : (ms.map Prod.fst).Nodup) (hk : Plain k)
    (hplain : ∀ m ∈ ms, Plain m.1) :
    field into k zero (.obj ms) = taken into zero ((Json.obj ms).get? k) := by
  have hfilter : (ms.filter fun m => sameName m.1 k) = ms.filter fun m => m.1 = k :=
    List.filter_congr fun m hm => sameName_eq (hplain m hm) hk
  have hunique := Serde.unique?_of_nodup hnodup k
  rw [field, hfilter]
  unfold Json.unique? at hunique
  split at hunique
  · next hnone =>
    rw [hnone, ← Option.some.inj hunique]
    rfl
  · next m hone =>
    rw [hone, ← Option.some.inj hunique]
    show ((match into zero m.2 with
      | some a => (a, true)
      | none => (zero, false)) : α × Bool) = (into zero m.2).elim (zero, false) fun a => (a, true)
    cases into zero m.2 <;> rfl
  · exact absurd hunique (by simp)

/-- The names of a document that serde has put in order. -/
theorem members_normalize (ms : List (String × Json)) : ∃ ns,
    Json.normalize (.obj ms) = .obj ns ∧ (ns.map Prod.fst).Perm (ms.map Prod.fst) := by
  refine ⟨Json.sortByKey (Json.normalizeMembers ms), by rw [Json.normalize], ?_⟩
  have hkeys : (Json.normalizeMembers ms).map Prod.fst = ms.map Prod.fst := by
    rw [Json.normalizeMembers_eq_map, List.map_map]
    rfl
  rw [← hkeys]
  exact (List.perm_insertionSort Json.keyLe _).map Prod.fst

theorem field_normalize {α : Type} (into : α → Json → Option α) {k : String} (zero : α)
    {ms : List (String × Json)} (hnodup : (ms.map Prod.fst).Nodup) (hk : Plain k)
    (hplain : ∀ l ∈ ms.map Prod.fst, Plain l) :
    field into k zero (Json.normalize (.obj ms))
      = taken into zero (((Json.obj ms).get? k).map Json.normalize) := by
  obtain ⟨ns, hns, hperm⟩ := members_normalize ms
  rw [← Json.get?_normalize_obj hnodup, hns]
  exact field_obj into zero (hperm.nodup_iff.2 hnodup) hk
    fun m hm => hplain m.1 (hperm.mem_iff.1 (List.mem_map_of_mem hm))

/-- No member has the name of the field. -/
theorem field_absent {α : Type} (into : α → Json → Option α) {k : String} (zero : α)
    {ms : List (String × Json)} (h : ∀ l ∈ ms.map Prod.fst, sameName l k = false) :
    field into k zero (Json.normalize (.obj ms)) = (zero, true) := by
  obtain ⟨ns, hns, hperm⟩ := members_normalize ms
  have hnone : ns.filter (fun m => sameName m.1 k) = [] := by
    rw [List.filter_eq_nil_iff]
    intro m hm
    rw [h m.1 (hperm.mem_iff.1 (List.mem_map_of_mem hm))]
    decide
  rw [hns, field, hnone]
  rfl

/-- A field of a document that is read as a whole: an error if a value does not fit. -/
def decode {α : Type} (into : α → Json → Option α) (k : String) (zero : α)
    (data : Json) : Option α :=
  if (field into k zero data).2 then some (field into k zero data).1 else none

/-- A document with names of its own, which need no folding. -/
structure Named (ms : List (String × Json)) : Prop where
  nodup : (ms.map Prod.fst).Nodup
  plain : ∀ l ∈ ms.map Prod.fst, Plain l

variable {α : Type} {into : α → Json → Option α} {k : String} {zero : α} {ms : List (String × Json)}

theorem Named.decode_obj (h : Named ms) (hk : Plain k) :
    decode into k zero (.obj ms)
      = match (Json.obj ms).get? k with
        | none => some zero
        | some v => into zero v := by
  rw [decode, field_obj into zero h.nodup hk fun m hm => h.plain m.1 (List.mem_map_of_mem hm)]
  cases (Json.obj ms).get? k with
  | none => rfl
  | some v =>
    rw [taken]
    dsimp only
    cases into zero v <;> rfl

theorem Named.decode_eq (h : Named ms) (hk : Plain k) :
    decode into k zero (Json.normalize (.obj ms))
      = match ((Json.obj ms).get? k).map Json.normalize with
        | none => some zero
        | some v => into zero v := by
  obtain ⟨ns, hns, hperm⟩ := members_normalize ms
  have hnamed : Named ns := ⟨hperm.nodup_iff.2 h.nodup, fun l hl => h.plain l (hperm.mem_iff.1 hl)⟩
  rw [← Json.get?_normalize_obj h.nodup, hns]
  exact hnamed.decode_obj hk

end Go

/-! ## Answers of the engine -/

theorem handle_obj (K : Crates) (phrase : ℕ → String) (client : Client) {status : ℕ}
    (hstatus : 200 ≤ status ∧ status < 300) (ms : List (String × Json)) :
    client.handle (.ofJson K phrase status (.obj ms)) = .ok (.obj ms) := by
  -- the text opens with a brace, so that no client takes it for an empty one
  obtain ⟨cs, hcs⟩ : ∃ cs, (Json.obj ms).print K.floatText = '\x7b' :: cs :=
    ⟨_, by rw [Json.print]; rfl⟩
  have hblank : ∀ isSpace : Char → Bool, isSpace '\x7b' = false →
      blank isSpace (HttpResponse.ofJson K phrase status (.obj ms)).text = false := by
    intro isSpace hspace
    rw [blank, HttpResponse.ofJson, hcs, String.toList_ofList, List.all_cons, hspace,
      Bool.false_and]
  cases client with
  | python =>
    have hok : ¬ (400 ≤ status ∧ status < 600) := by omega
    exact (if_neg hok).trans ((congrArg (fun b => if b = true then _ else _)
      (hblank Python.isSpace (by decide))).trans rfl)
  | typescript =>
    exact (if_pos hstatus).trans ((congrArg (fun b => if b = true then _ else _)
      (hblank TypeScript.isSpace (by decide))).trans rfl)
  | go =>
    have hok : ¬ 400 ≤ status := by omega
    have htext : (HttpResponse.ofJson K phrase status (.obj ms)).text ≠ "" := by
      intro hnil
      have hblank := hblank (fun _ => false) rfl
      rw [hnil] at hblank
      exact absurd hblank (by decide)
    exact (if_neg hok).trans ((if_neg htext).trans rfl)

/-- A success is read for what the client takes from the document. -/
theorem receive_obj (K : Crates) (phrase : ℕ → String) {α : Type} (client : Client)
    (read : Json → Option α) {status : ℕ} (hstatus : 200 ≤ status ∧ status < 300)
    (ms : List (String × Json)) :
    client.receive read (.ofJson K phrase status (.obj ms))
      = (read (.obj ms)).elim (.error .other) .ok := by
  rw [Client.receive, handle_obj K phrase client hstatus ms]

theorem receive_normalize (K : Crates) (phrase : ℕ → String) {α : Type} (client : Client)
    (read : Json → Option α) {status : ℕ} (hstatus : 200 ≤ status ∧ status < 300)
    (ms : List (String × Json)) :
    client.receive read (.ofJson K phrase status (Json.normalize (.obj ms)))
      = (read (Json.normalize (.obj ms))).elim (.error .other) .ok := by
  obtain ⟨ns, hns, -⟩ := Go.members_normalize ms
  rw [hns]
  exact receive_obj K phrase client read hstatus ns

/-- The error of the engine as a client raises it. -/
def ApiError.raised (e : ApiError) : ClientError :=
  .irl (.str e.errorCode) (.str e.message) e.status

/-- An error of the engine is the same error for the three clients. -/
theorem handle_intoResponse (K : Crates) (phrase : ℕ → String) (client : Client) (e : ApiError) :
    client.handle (e.intoResponse K phrase) = .error e.raised := by
  obtain ⟨hlow, hhigh⟩ := e.status_range
  have hnodup : (e.document.map Prod.fst).Nodup := by simp [ApiError.document]
  have hget : ∀ k, (Json.normalize (.obj e.document)).get? k
      = ((Json.obj e.document).get? k).map Json.normalize := Json.get?_normalize_obj hnodup
  have herror : (Json.normalize (.obj e.document)).get? "error" = some (.str e.errorCode) := by
    rw [hget, ← e.answer_code]
    rfl
  have hmessage : (Json.normalize (.obj e.document)).get? "message" = some (.str e.message) := by
    rw [hget]
    rfl
  obtain ⟨ns, hns, -⟩ := Go.members_normalize e.document
  cases client with
  | python =>
    rw [hns] at herror hmessage
    rw [Client.handle, Python.handle, ApiError.intoResponse, HttpResponse.ofJson, hns,
      if_pos ⟨hlow, hhigh⟩]
    dsimp only
    rw [herror, hmessage]
    rfl
  | typescript =>
    have hfail : ¬ (200 ≤ e.status ∧ e.status < 300) := by omega
    rw [Client.handle, TypeScript.handle, ApiError.intoResponse, HttpResponse.ofJson, if_neg hfail]
    dsimp only [Option.getD_some]
    rw [TypeScript.property, TypeScript.property, herror, hmessage]
    rfl
  | go =>
    have hplain : ∀ l ∈ e.document.map Prod.fst, Go.Plain l := by
      show ∀ l ∈ ["error", "message"], Go.Plain l
      decide +kernel
    have hstatus : ∀ l ∈ e.document.map Prod.fst, Go.sameName l "StatusCode" = false := by
      show ∀ l ∈ ["error", "message"], Go.sameName l "StatusCode" = false
      decide +kernel
    rw [Client.handle, Go.handle, ApiError.intoResponse, HttpResponse.ofJson, if_pos hlow]
    dsimp only [Option.getD_some]
    rw [Go.field_absent _ _ hstatus, Go.field_normalize _ _ hnodup (by decide +kernel) hplain,
      Go.field_normalize _ _ hnodup (by decide +kernel) hplain, ← hget, ← hget, herror, hmessage]
    rfl

theorem receive_intoResponse (K : Crates) (phrase : ℕ → String) {α : Type} (client : Client)
    (read : Json → Option α) (e : ApiError) :
    client.receive read (e.intoResponse K phrase) = .error e.raised := by
  rw [Client.receive, handle_intoResponse]

end IrlEngine
