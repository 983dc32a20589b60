import IrlEngine.Lib.JsonObject

/-!
# Paths into a JSON value

A path is a list of object keys and array indices.  `SameOutside` is the frame condition of a change
to the values at certain paths: what it says is closed under changes inside a member and under one
change after another.

* `SameOutside.setNull` — members overwritten with `null`;
* `SameOutside.modify` — a change inside a member;
* `SameOutside.append` — one change after another.
-/

namespace Json

/-! ## Looking up a path -/

/-- A member of an object, or an element of an array. -/
inductive PathStep where
  | key (k : String)
  | index (i : ℕ)
  deriving DecidableEq, Repr

/-- The value one step into a value. -/
def child? (v : Json) : PathStep → Option Json
  | .key k => v.get? k
  | .index i =>
    match v with
    | .arr xs => xs[i]?
    | _ => none

/-- The value at a path, if there is one. -/
def at? : Json → List PathStep → Option Json
  | v, [] => some v
  | v, s :: p => (v.child? s).bind fun w => w.at? p

/-- A value without what it contains. -/
inductive Node where
  | null
  | bool (b : Bool)
  | num (n : Number)
  | str (s : String)
  | array (length : ℕ)
  | object
  deriving DecidableEq, Repr

/-- The node that a value starts with. -/
def node : Json → Node
  | .null => .null
  | .bool b => .bool b
  | .num n => .num n
  | .str s => .str s
  | .arr xs => .array xs.length
  | .obj _ => .object

/-! ## Single changes -/

theorem child?_modify_of_ne {k : String} {s : PathStep} (hs : s ≠ .key k) (f : Json → Json)
    (v : Json) : (v.modify k f).child? s = v.child? s := by
  cases s with
  | key l => exact get?_modify_of_ne (fun h => hs (congrArg PathStep.key h.symm)) f v
  | index i =>
    cases v with
    | obj ms => rfl
    | _ => rfl

/-- A path elsewhere. -/
theorem at?_modify_of_ne {k : String} {s : PathStep} (hs : s ≠ .key k) (f : Json → Json) (v : Json)
    (p : List PathStep) : (v.modify k f).at? (s :: p) = v.at? (s :: p) := by
  rw [at?, at?, child?_modify_of_ne hs]

/-- A path into the member. -/
theorem at?_modify_key (k : String) (f : Json → Json) (v : Json) (p : List PathStep) :
    (v.modify k f).at? (.key k :: p) = (v.get? k).bind fun w => (f w).at? p := by
  show ((v.modify k f).get? k).bind _ = _
  rw [get?_modify, Option.bind_map]
  rfl

theorem child?_setNull_of_not_mem {keys : List String} {s : PathStep} (hs : ∀ k ∈ keys, s ≠ .key k)
    (v : Json) : (setNull keys v).child? s = v.child? s := by
  cases v with
  | obj ms =>
    cases s with
    | key l => exact get?_insertNulls_of_not_mem (fun h => hs l h rfl) ms
    | index i => rfl
  | _ => rfl

/-- A member of a member that was overwritten. -/
theorem at?_of_get?_setNull {v w : Json} {parent k : String} {keys : List String}
    (h : w.get? parent = (v.get? parent).map (setNull keys)) (hk : k ∈ keys)
    {ms : List (String × Json)} (hobj : v.get? parent = some (.obj ms)) :
    w.at? [.key parent, .key k] = some .null := by
  rw [hobj] at h
  show (w.get? parent).bind (fun u => (u.get? k).bind some) = some .null
  rw [h]
  show ((obj (insertNulls keys ms)).get? k).bind some = some .null
  rw [get?_insertNulls_of_mem hk]
  rfl

theorem node_modify (k : String) (f : Json → Json) (v : Json) : (v.modify k f).node = v.node := by
  cases v with
  | obj ms => rfl
  | _ => rfl

theorem node_setNull (keys : List String) (v : Json) : (setNull keys v).node = v.node := by
  cases v with
  | obj ms => rfl
  | _ => rfl

/-! ## Frame conditions -/

/-- The two values differ at most at the paths `qs` and inside what is there: anywhere else is the
same node, and the same value unless it contains one of the paths. -/
structure SameOutside (qs : List (List PathStep)) (v w : Json) : Prop where
  node : ∀ p, (∀ q ∈ qs, ¬ q <+: p) → (w.at? p).map Json.node = (v.at? p).map Json.node
  value : ∀ p, (∀ q ∈ qs, ¬ q <+: p ∧ ¬ p <+: q) → w.at? p = v.at? p

/-- One change after another. -/
theorem SameOutside.append {qs rs : List (List PathStep)} {u v w : Json} (h : SameOutside qs u v)
    (h' : SameOutside rs v w) : SameOutside (qs ++ rs) u w where
  node p hp := by
    have hsecond := h'.node p fun q hq => hp q (List.mem_append_right _ hq)
    exact hsecond.trans (h.node p fun q hq => hp q (List.mem_append_left _ hq))
  value p hp := by
    have hsecond := h'.value p fun q hq => hp q (List.mem_append_right _ hq)
    exact hsecond.trans (h.value p fun q hq => hp q (List.mem_append_left _ hq))

/-- Members overwritten with `null`. -/
theorem SameOutside.setNull {keys : List String} (hkeys : keys ≠ []) (v : Json) :
    SameOutside (keys.map fun k => [.key k]) v (Json.setNull keys v) := by
  have hstep : ∀ (s : PathStep) (p : List PathStep),
      (∀ q ∈ keys.map fun k => [PathStep.key k], ¬ q <+: s :: p) →
        (Json.setNull keys v).at? (s :: p) = v.at? (s :: p) := by
    intro s p hp
    have hs : ∀ k ∈ keys, s ≠ .key k := by
      rintro k hk rfl
      exact hp _ (List.mem_map_of_mem hk) (List.cons_prefix_cons.2 ⟨rfl, List.nil_prefix⟩)
    rw [at?, at?, child?_setNull_of_not_mem hs]
  refine ⟨fun p hp => ?_, fun p hp => ?_⟩
  · cases p with
    | nil => exact congrArg some (node_setNull keys v)
    | cons s p => rw [hstep s p hp]
  · cases p with
    | nil =>
      obtain ⟨k, hk⟩ := List.exists_mem_of_ne_nil keys hkeys
      exact absurd List.nil_prefix (hp _ (List.mem_map_of_mem hk)).2
    | cons s p => exact hstep s p fun q hq => (hp q hq).1

/-- A change inside a member. -/
theorem SameOutside.modify {qs : List (List PathStep)} {f : Json → Json} (hqs : qs ≠ [])
    (h : ∀ v, SameOutside qs v (f v)) (k : String) (v : Json) :
    SameOutside (qs.map (.key k :: ·)) v (v.modify k f) := by
  refine ⟨fun p hp => ?_, fun p hp => ?_⟩
  · cases p with
    | nil => exact congrArg some (node_modify k f v)
    | cons s p =>
      by_cases hs : s = .key k
      · subst hs
        rw [at?_modify_key]
        show _ = ((v.get? k).bind fun w => w.at? p).map Json.node
        cases v.get? k with
        | none => rfl
        | some w =>
          refine (h w).node p fun q hq hprefix => ?_
          exact hp _ (List.mem_map_of_mem hq) (List.cons_prefix_cons.2 ⟨rfl, hprefix⟩)
      · rw [at?_modify_of_ne hs]
  · cases p with
    | nil =>
      obtain ⟨q, hq⟩ := List.exists_mem_of_ne_nil qs hqs
      exact absurd List.nil_prefix (hp _ (List.mem_map_of_mem hq)).2
    | cons s p =>
      by_cases hs : s = .key k
      · subst hs
        rw [at?_modify_key]
        show _ = (v.get? k).bind fun w => w.at? p
        cases v.get? k with
        | none => rfl
        | some w =>
          refine (h w).value p fun q hq => ⟨fun hprefix => ?_, fun hprefix => ?_⟩
          · exact (hp _ (List.mem_map_of_mem hq)).1 (List.cons_prefix_cons.2 ⟨rfl, hprefix⟩)
          · exact (hp _ (List.mem_map_of_mem hq)).2 (List.cons_prefix_cons.2 ⟨rfl, hprefix⟩)
      · exact at?_modify_of_ne hs f v p

end Json
