import IrlEngine.Lib.JsonObject
import IrlEngine.Lib.JsonStyle

/-!
# JSON up to the order of members

Two values are equal up to the order of object members if the one becomes the other by permuting
the members of objects, anywhere inside.

* `Json.Reordered` — the least such equivalence;
* `Json.normalize_eq_iff_reordered` — without repeated keys it is equality of normal forms.
-/

namespace Json

/-- Equal up to the order of object members, at every depth. -/
inductive Reordered : Json → Json → Prop where
  | refl (v : Json) : Reordered v v
  | symm {v w : Json} (h : Reordered v w) : Reordered w v
  | trans {u v w : Json} (h : Reordered u v) (h' : Reordered v w) : Reordered u w
  | members {ms ns : List (String × Json)} (h : ms.Perm ns) : Reordered (.obj ms) (.obj ns)
  | inArray {v w : Json} (h : Reordered v w) (xs ys : List Json) :
      Reordered (.arr (xs ++ v :: ys)) (.arr (xs ++ w :: ys))
  | inObject {v w : Json} (h : Reordered v w) (k : String) (ms ns : List (String × Json)) :
      Reordered (.obj (ms ++ (k, v) :: ns)) (.obj (ms ++ (k, w) :: ns))

/-! ## Normal forms are reorderings -/

theorem Reordered.arr_map {f : Json → Json} {xs : List Json} (h : ∀ v ∈ xs, Reordered v (f v))
    (before : List Json) : Reordered (.arr (before ++ xs)) (.arr (before ++ xs.map f)) := by
  induction xs generalizing before with
  | nil => exact .refl _
  | cons v xs ih =>
    have hfirst := (h v List.mem_cons_self).inArray before xs
    have hrest := ih (fun w hw => h w (List.mem_cons_of_mem _ hw)) (before ++ [f v])
    rw [List.append_assoc, List.append_assoc] at hrest
    exact hfirst.trans hrest

theorem Reordered.obj_map {f : Json → Json} {ms : List (String × Json)}
    (h : ∀ m ∈ ms, Reordered m.2 (f m.2)) (before : List (String × Json)) :
    Reordered (.obj (before ++ ms)) (.obj (before ++ ms.map fun m => (m.1, f m.2))) := by
  induction ms generalizing before with
  | nil => exact .refl _
  | cons m ms ih =>
    have hfirst := (h m List.mem_cons_self).inObject m.1 before ms
    have hrest := ih (fun n hn => h n (List.mem_cons_of_mem _ hn)) (before ++ [(m.1, f m.2)])
    rw [List.append_assoc, List.append_assoc] at hrest
    exact hfirst.trans hrest

theorem reordered_normalize : ∀ v : Json, Reordered v v.normalize := by
  refine @Json.rec (fun v => Reordered v v.normalize)
    (fun xs => ∀ v ∈ xs, Reordered v v.normalize)
    (fun ms => ∀ m ∈ ms, Reordered m.2 m.2.normalize)
    (fun m => Reordered m.2 m.2.normalize)
    ?null ?bool ?num ?str ?arr ?obj ?nil ?cons ?mnil ?mcons ?mk
  case null => exact .refl _
  case bool => intro b; exact .refl _
  case num => intro n; exact .refl _
  case str => intro s; exact .refl _
  case arr =>
    intro xs ih
    rw [normalize, normalizeAll_eq_map]
    exact Reordered.arr_map ih []
  case obj =>
    intro ms ih
    rw [normalize, normalizeMembers_eq_map]
    exact (Reordered.obj_map ih []).trans (.members (List.perm_insertionSort _ _).symm)
  case nil => intro v hv; exact absurd hv List.not_mem_nil
  case cons =>
    intro v xs ihv ihxs w hw
    rcases List.mem_cons.1 hw with rfl | hw
    · exact ihv
    · exact ihxs w hw
  case mnil => intro m hm; exact absurd hm List.not_mem_nil
  case mcons =>
    intro m ms ihm ihms n hn
    rcases List.mem_cons.1 hn with rfl | hn
    · exact ihm
    · exact ihms n hn
  case mk => intro k v ih; exact ih

/-! ## Reorderings have one normal form -/

/-- Members under distinct keys are sorted in one way. -/
theorem sortByKey_eq_of_perm {α : Type*} {ms ns : List (String × α)} (h : ms.Perm ns)
    (hkeys : (ms.map Prod.fst).Nodup) : sortByKey ms = sortByKey ns := by
  have hperm : (sortByKey ms).Perm (sortByKey ns) :=
    ((List.perm_insertionSort _ ms).trans h).trans (List.perm_insertionSort _ ns).symm
  refine hperm.eq_of_pairwise (fun a b ha hb hab hba => ?_) (List.pairwise_insertionSort _ _)
    (List.pairwise_insertionSort _ _)
  have hama := (List.mem_insertionSort _).1 ha
  have hbms := h.mem_iff.2 ((List.mem_insertionSort _).1 hb)
  exact List.inj_on_of_nodup_map hkeys hama hbms (le_antisymm hab hba)

theorem uniqueKeys_arr {xs : List Json} : (arr xs).UniqueKeys ↔ ∀ v ∈ xs, v.UniqueKeys := by
  refine ⟨fun h => ?_, fun h => .arr h⟩
  cases h with
  | arr h => exact h

theorem uniqueKeys_obj {ms : List (String × Json)} :
    (obj ms).UniqueKeys ↔ (ms.map Prod.fst).Nodup ∧ ∀ m ∈ ms, m.2.UniqueKeys := by
  refine ⟨fun h => ?_, fun h => .obj h.1 (fun _ _ => trivial) h.2⟩
  cases h with
  | obj hkeys _ h => exact ⟨hkeys, h⟩

theorem Reordered.uniqueKeys_iff {v w : Json} (h : Reordered v w) :
    v.UniqueKeys ↔ w.UniqueKeys := by
  induction h with
  | refl v => exact Iff.rfl
  | symm _ ih => exact ih.symm
  | trans _ _ ih ih' => exact ih.trans ih'
  | members h =>
    rw [uniqueKeys_obj, uniqueKeys_obj, (h.map Prod.fst).nodup_iff]
    simp only [h.mem_iff]
  | inArray _ xs ys ih =>
    rw [uniqueKeys_arr, uniqueKeys_arr]
    simp only [List.forall_mem_append, List.forall_mem_cons, ih]
  | inObject _ k ms ns ih =>
    rw [uniqueKeys_obj, uniqueKeys_obj]
    simp only [List.forall_mem_append, List.forall_mem_cons, ih, List.map_append, List.map_cons]

theorem Reordered.normalize_eq {v w : Json} (h : Reordered v w) (hv : v.UniqueKeys) :
    v.normalize = w.normalize := by
  induction h with
  | refl v => rfl
  | symm h ih => exact (ih (h.uniqueKeys_iff.2 hv)).symm
  | trans h _ ih ih' => exact (ih hv).trans (ih' (h.uniqueKeys_iff.1 hv))
  | members h =>
    have hkeys := (uniqueKeys_obj.1 hv).1
    rw [normalize, normalize, normalizeMembers_eq_map, normalizeMembers_eq_map]
    refine congrArg obj (sortByKey_eq_of_perm (h.map _) ?_)
    rw [List.map_map]
    exact hkeys
  | inArray _ xs ys ih =>
    have hitem := uniqueKeys_arr.1 hv _ (List.mem_append_right _ List.mem_cons_self)
    rw [normalize, normalize, normalizeAll_eq_map, normalizeAll_eq_map]
    simp only [List.map_append, List.map_cons, ih hitem]
  | inObject _ k ms ns ih =>
    have hmember := (uniqueKeys_obj.1 hv).2 _ (List.mem_append_right _ List.mem_cons_self)
    rw [normalize, normalize, normalizeMembers_eq_map, normalizeMembers_eq_map]
    simp only [List.map_append, List.map_cons, ih hmember]

/-- Without repeated keys, values have one normal form exactly if they are equal up to the order of
members. -/
theorem normalize_eq_iff_reordered {v w : Json} (hv : v.UniqueKeys) :
    v.normalize = w.normalize ↔ Reordered v w := by
  refine ⟨fun h => ?_, fun h => h.normalize_eq hv⟩
  have hright := reordered_normalize w
  rw [← h] at hright
  exact (reordered_normalize v).trans hright.symm

end Json
