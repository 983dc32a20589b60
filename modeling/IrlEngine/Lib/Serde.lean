import IrlEngine.Lib.JsonDocument

/-!
# Derived decoders of records and enumerations

A derived decoder reads a record from an object, in any order of the members, or from an array, in
the order of the declaration.  It refuses a repeated field and ignores members it does not know; a
field that is missing is refused, absent or defaulted, by its declaration.  An enumeration is read
from the name of a variant, or from an object with that name as its only key.

* `fields` — what is found of each declared field; `required`, `optional`, `defaulted` read it;
* `fields_obj`, `fields_present` — an object without repeated keys gives every field its member;
* `Blind` — a reader that does not see the order of members; `fields_normalize` and the rules below
  it show this of a record from its fields.
-/

namespace Serde

open Json

/-! ## What is found of a field -/

/-- A field as a deserializer comes upon it. -/
inductive Slot where
  | member (v : Json)
  /-- No member of the object has this key. -/
  | absent
  /-- The array ended before this field. -/
  | ended

namespace Slot

/-- A field of an object. -/
def ofMember : Option Json → Slot
  | some v => .member v
  | none => .absent

/-- A field of an array, by its place. -/
def ofElement : Option Json → Slot
  | some v => .member v
  | none => .ended

/-- The field in a normalized document. -/
def normalize : Slot → Slot
  | .member v => .member v.normalize
  | .absent => .absent
  | .ended => .ended

theorem normalize_ofMember (found : Option Json) :
    (ofMember found).normalize = ofMember (found.map Json.normalize) := by
  cases found <;> rfl

theorem normalize_ofElement (found : Option Json) :
    (ofElement found).normalize = ofElement (found.map Json.normalize) := by
  cases found <;> rfl

end Slot

/-- The members of an object, field by field, or the elements of an array. -/
def fields (keys : List String) : Json → Option (String → Slot)
  | .obj ms =>
    if keys.all fun k => (unique? k ms).isSome then
      some fun k => if k ∈ keys then .ofMember (unique? k ms).join else .absent
    else none
  | .arr xs =>
    if xs.length ≤ keys.length then
      some fun k => .ofElement xs[keys.idxOf k]?
    else none
  | _ => none

section Readers

variable {α : Type*} (read : Json → Option α)

/-- A field that must be there. -/
def required : Slot → Option α
  | .member v => read v
  | _ => none

/-- `Option<T>` of a value: `null` is nothing. -/
def nullable : Json → Option (Option α)
  | .null => some none
  | v => (read v).map some

/-- An `Option<T>` field: a missing member is nothing, a missing element is refused. -/
def optional : Slot → Option (Option α)
  | .member v => nullable read v
  | .absent => some none
  | .ended => none

/-- A field with a default. -/
def defaulted (d : α) : Slot → Option α
  | .member v => read v
  | _ => some d

end Readers

section Found

variable {α : Type*} {read : Json → Option α} {s : Slot} {v : Json}

theorem required_found {a : α} (hs : s = .member v) (hv : read v = some a) :
    required read s = some a := by
  rw [hs]
  exact hv

theorem optional_found {a : Option α} (hs : s = .member v) (hv : nullable read v = some a) :
    Serde.optional read s = some a := by
  rw [hs]
  exact hv

theorem defaulted_found {a d : α} (hs : s = .member v) (hv : read v = some a) :
    defaulted read d s = some a := by
  rw [hs]
  exact hv

end Found

/-- A field whose value is known is read, then the others. -/
theorem known {α β : Type*} {x : Option α} {a : α} {f : α → Option β} {y : Option β}
    (hx : x = some a) (hf : f a = y) : x.bind f = y := by
  rw [hx]
  exact hf

/-- A field is read on both sides, then the others. -/
theorem alike {α β : Type*} {x y : Option α} {f g : α → Option β} (hx : x = y)
    (hf : ∀ a, f a = g a) : x.bind f = y.bind g := by
  rw [hx, funext hf]

/-- One field of a record is read, then the others. -/
theorem field {α β : Type*} {x : Option α} {a : α} {f : α → Option β} {b : β} (hx : x = some a)
    (hf : f a = some b) : x.bind f = some b := by
  rw [hx]
  exact hf

/-! ## Objects without repeated keys -/

/-- The member of an object under a key. -/
def slotOf (ms : List (String × Json)) (k : String) : Slot := .ofMember ((obj ms).get? k)

@[simp] theorem slotOf_nil (k : String) : slotOf [] k = .absent := rfl

@[simp] theorem slotOf_cons (k k' : String) (v : Json) (ms : List (String × Json)) :
    slotOf ((k', v) :: ms) k = if k' = k then .member v else slotOf ms k := by
  simp only [slotOf, get?]
  by_cases h : k' = k
  · rw [List.find?_cons_of_pos (by simpa using h), if_pos h]
    rfl
  · rw [List.find?_cons_of_neg (by simpa using h), if_neg h]

theorem unique?_of_nodup {ms : List (String × Json)} (h : (ms.map Prod.fst).Nodup) (k : String) :
    unique? k ms = some ((obj ms).get? k) := by
  induction ms with
  | nil => rfl
  | cons m ms ih =>
    obtain ⟨hm, hms⟩ := List.nodup_cons.1 h
    simp only [unique?, get?] at ih ⊢
    by_cases hk : m.1 = k
    · have hrest : ms.filter (fun m => m.1 = k) = [] := by
        rw [List.filter_eq_nil_iff]
        intro n hn he
        have hkn : n.1 = k := by simpa using he
        exact hm (hk.trans hkn.symm ▸ List.mem_map_of_mem hn)
      rw [List.filter_cons_of_pos (by simpa using hk), hrest,
        List.find?_cons_of_pos (by simpa using hk)]
      rfl
    · rw [List.filter_cons_of_neg (by simpa using hk), List.find?_cons_of_neg (by simpa using hk)]
      exact ih hms

/-- An object without repeated keys gives every declared field its member. -/
theorem fields_obj {keys : List String} {ms : List (String × Json)}
    (h : (ms.map Prod.fst).Nodup) :
    fields keys (.obj ms) = some fun k => if k ∈ keys then slotOf ms k else .absent := by
  have hall : (keys.all fun k => (unique? k ms).isSome) = true := by
    rw [List.all_eq_true]
    intro k _
    rw [unique?_of_nodup h]
    rfl
  rw [fields, if_pos hall]
  refine congrArg some (funext fun k => ?_)
  rw [unique?_of_nodup h]
  rfl

/-- The members that are given. -/
def present (ms : List (String × Option Json)) : List (String × Json) :=
  ms.filterMap fun m => m.2.map fun v => (m.1, v)

/-- What is given under a key. -/
def given (ms : List (String × Option Json)) (k : String) : Option Json :=
  (ms.find? fun m => m.1 = k).bind Prod.snd

theorem present_keys_sublist (ms : List (String × Option Json)) :
    ((present ms).map Prod.fst).Sublist (ms.map Prod.fst) := by
  induction ms with
  | nil => exact List.Sublist.slnil
  | cons m ms ih =>
    obtain ⟨k, v | v⟩ := m
    · exact ih.cons k
    · exact ih.cons_cons k

theorem slotOf_present {ms : List (String × Option Json)} (h : (ms.map Prod.fst).Nodup)
    (k : String) : slotOf (present ms) k = .ofMember (given ms k) := by
  induction ms with
  | nil => rfl
  | cons m ms ih =>
    obtain ⟨hm, hms⟩ := List.nodup_cons.1 h
    obtain ⟨k', v⟩ := m
    by_cases hk : k' = k
    · have hgiven : given ((k', v) :: ms) k = v := by
        rw [given, List.find?_cons_of_pos (by simpa using hk)]
        rfl
      rw [hgiven]
      cases v with
      | some v => exact (slotOf_cons k k' v _).trans (if_pos hk)
      | none =>
        -- the key occurs once, so nothing further on stands under it
        have hnone : given ms k = none := by
          rw [given, List.find?_eq_none.2, Option.bind_none]
          intro n hn he
          have hkn : n.1 = k' := (by simpa using he : n.1 = k).trans hk.symm
          exact hm (List.mem_map.2 ⟨n, hn, hkn⟩)
        exact (ih hms).trans (by rw [hnone])
    · have hgiven : given ((k', v) :: ms) k = given ms k := by
        rw [given, List.find?_cons_of_neg (by simpa using hk), given]
      rw [hgiven, ← ih hms]
      cases v with
      | some v => exact (slotOf_cons k k' v _).trans (if_neg hk)
      | none => rfl

/-- An object of given members, none of them named twice. -/
theorem fields_present {keys : List String} {ms : List (String × Option Json)}
    (h : (ms.map Prod.fst).Nodup) :
    fields keys (.obj (present ms))
      = some fun k => if k ∈ keys then .ofMember (given ms k) else .absent := by
  rw [fields_obj (h.sublist (present_keys_sublist ms))]
  refine congrArg some (funext fun k => ?_)
  rw [slotOf_present h]

/-- What is read of a record depends on what is given under its keys. -/
theorem fields_congr {keys : List String} {ms ns : List (String × Option Json)}
    (hms : (ms.map Prod.fst).Nodup) (hns : (ns.map Prod.fst).Nodup)
    (h : ∀ k ∈ keys, given ms k = given ns k) :
    fields keys (.obj (present ms)) = fields keys (.obj (present ns)) := by
  rw [fields_present hms, fields_present hns]
  refine congrArg some (funext fun k => ?_)
  by_cases hk : k ∈ keys
  · rw [if_pos hk, if_pos hk, h k hk]
  · rw [if_neg hk, if_neg hk]

section Given

variable {α : Type*} (read : Json → Option α)

theorem optional_ofMember (found : Option Json) :
    Serde.optional read (.ofMember found) = found.elim (some none) (nullable read) := by
  cases found <;> rfl

theorem defaulted_ofMember (d : α) (found : Option Json) :
    defaulted read d (.ofMember found) = found.elim (some d) read := by
  cases found <;> rfl

end Given

/-! ## The order of members -/

/-- A reader that does not see the order of members. -/
def Blind {α : Type*} (read : Json → Option α) : Prop := ∀ v, read v.normalize = read v

/-- A reader of slots that does not see the order of members. -/
def SlotBlind {α : Type*} (read : Slot → Option α) : Prop := ∀ s : Slot, read s.normalize = read s

theorem unique?_perm {ms ns : List (String × Json)} (h : ms.Perm ns) (k : String) :
    unique? k ms = unique? k ns := by
  have hfilter := h.filter fun m => decide (m.1 = k)
  unfold unique?
  generalize ms.filter (fun m => decide (m.1 = k)) = as at hfilter ⊢
  generalize ns.filter (fun m => decide (m.1 = k)) = bs at hfilter ⊢
  have hlen := hfilter.length_eq
  match as, bs with
  | [], [] => rfl
  | [a], [b] => rw [List.singleton_perm_singleton.1 hfilter]
  | _ :: _ :: _, _ :: _ :: _ => rfl
  | [], _ :: _ => simp at hlen
  | _ :: _, [] => simp at hlen
  | [_], _ :: _ :: _ => simp at hlen
  | _ :: _ :: _, [_] => simp at hlen

theorem unique?_map (f : Json → Json) (k : String) (ms : List (String × Json)) :
    unique? k (ms.map fun m => (m.1, f m.2)) = (unique? k ms).map (Option.map f) := by
  have hfilter : (ms.map fun m => (m.1, f m.2)).filter (fun m => decide (m.1 = k))
      = (ms.filter fun m => decide (m.1 = k)).map fun m => (m.1, f m.2) := by
    rw [List.filter_map]
    rfl
  unfold unique?
  rw [hfilter]
  generalize ms.filter (fun m => decide (m.1 = k)) = found
  match found with
  | [] => rfl
  | [_] => rfl
  | _ :: _ :: _ => rfl

/-- The members of a normal form are those of the object, in another order. -/
theorem unique?_normalize (k : String) (ms : List (String × Json)) :
    unique? k (sortByKey (normalizeMembers ms)) = (unique? k ms).map
      (Option.map Json.normalize) := by
  rw [sortByKey, unique?_perm (List.perm_insertionSort keyLe (normalizeMembers ms)) k,
    normalizeMembers_eq_map, unique?_map]

theorem fields_normalize (keys : List String) (v : Json) :
    fields keys v.normalize = (fields keys v).map fun s k => (s k).normalize := by
  cases v with
  | null => rfl
  | bool b => rfl
  | num n => rfl
  | str s => rfl
  | arr xs =>
    rw [Json.normalize, normalizeAll_eq_map]
    simp only [fields, List.length_map, List.getElem?_map]
    split
    · refine congrArg some (funext fun k => ?_)
      exact (Slot.normalize_ofElement xs[keys.idxOf k]?).symm
    · rfl
  | obj ms =>
    rw [Json.normalize]
    simp only [fields, unique?_normalize, Option.isSome_map]
    split
    · refine congrArg some (funext fun k => ?_)
      by_cases hk : k ∈ keys
      · have hjoin : ((unique? k ms).map (Option.map Json.normalize)).join
            = (unique? k ms).join.map Json.normalize := by
          cases unique? k ms <;> rfl
        simp only [if_pos hk, Slot.normalize_ofMember, hjoin]
      · simp only [if_neg hk]
        rfl
    · rfl

section Rules

variable {α : Type*} {read : Json → Option α}

theorem Blind.required (h : Blind read) : SlotBlind (required read) := by
  intro s
  cases s with
  | member v => exact h v
  | absent => rfl
  | ended => rfl

theorem Blind.nullable (h : Blind read) : Blind (nullable read) := by
  intro v
  cases v with
  | null => rfl
  | bool b => exact congrArg (Option.map some) (h (.bool b))
  | num n => exact congrArg (Option.map some) (h (.num n))
  | str s => exact congrArg (Option.map some) (h (.str s))
  | arr xs => exact congrArg (Option.map some) (h (.arr xs))
  | obj ms => exact congrArg (Option.map some) (h (.obj ms))

theorem Blind.optional (h : Blind read) : SlotBlind (optional read) := by
  intro s
  cases s with
  | member v => exact h.nullable v
  | absent => rfl
  | ended => rfl

theorem Blind.defaulted (h : Blind read) (d : α) : SlotBlind (defaulted read d) := by
  intro s
  cases s with
  | member v => exact h v
  | absent => rfl
  | ended => rfl

/-- A record is read without regard to the order of members when its fields are. -/
theorem blind_record {keys : List String} {build : (String → Slot) → Option α}
    (h : ∀ s, build (fun k => (s k).normalize) = build s) :
    Blind fun v => (fields keys v).bind build := by
  intro v
  show (fields keys v.normalize).bind build = (fields keys v).bind build
  rw [fields_normalize]
  cases fields keys v with
  | none => rfl
  | some s => exact h s

end Rules

/-! ## Enumerations -/

/-- The name of a variant, with what stands under it. -/
def variant : Json → Option (String × Option Json)
  | .str name => some (name, none)
  | .obj [(name, v)] => some (name, some v)
  | _ => none

/-- A variant without data: nothing, or `null`. -/
def isUnit : Option Json → Bool
  | none => true
  | some .null => true
  | _ => false

theorem variant_normalize (v : Json) :
    variant v.normalize = (variant v).map fun p => (p.1, p.2.map Json.normalize) := by
  cases v with
  | null => rfl
  | bool b => rfl
  | num n => rfl
  | str s => rfl
  | arr xs => rfl
  | obj ms =>
    rcases ms with _ | ⟨m, _ | ⟨m', rest⟩⟩
    · rfl
    · rfl
    · have hlen : 2 ≤ (sortByKey (normalizeMembers (m :: m' :: rest))).length := by
        rw [sortByKey, List.length_insertionSort, normalizeMembers_eq_map]
        simp
      rw [Json.normalize]
      -- sorting keeps both members, so that neither text names a variant
      rcases h : sortByKey (normalizeMembers (m :: m' :: rest)) with _ | ⟨_, _ | ⟨_, _⟩⟩
      · rw [h] at hlen; simp at hlen
      · rw [h] at hlen; simp at hlen
      · rfl

theorem isUnit_normalize (p : Option Json) : isUnit (p.map Json.normalize) = isUnit p := by
  match p with
  | none => rfl
  | some .null => rfl
  | some (.bool _) => rfl
  | some (.num _) => rfl
  | some (.str _) => rfl
  | some (.arr _) => rfl
  | some (.obj _) => rfl

end Serde
