import Mathlib.Data.List.Basic

/-!
# Tables as separated text

A table is written one row a line, with a separator between the fields and nothing quoted.
The text is split at the line ends and then at the separators.

* `mem_parse` — whatever the text, what is read has no separator and no line end in a field;
* **When a table reads back** — `parse_render_iff`: exactly if its own fields have neither.
-/

namespace Csv

variable {α : Type*}

section Intercalate

variable {b c : α} {x : List α} {ls : List (List α)}

theorem mem_intercalate_of_mem {sep : List α} (h : x ∈ ls) (hb : b ∈ x) :
    b ∈ sep.intercalate ls := by
  induction ls with
  | nil => exact absurd h List.not_mem_nil
  | cons y ls ih =>
    by_cases hls : ls = []
    · subst hls
      rw [List.mem_singleton] at h
      rwa [List.intercalate_singleton, ← h]
    · rw [List.intercalate_cons_of_ne_nil hls, List.mem_append, List.mem_append]
      rcases List.mem_cons.1 h with rfl | h
      · exact Or.inl (Or.inl hb)
      · exact Or.inr (ih h)

theorem not_mem_intercalate (hc : b ≠ c) (h : ∀ x ∈ ls, b ∉ x) :
    b ∉ [c].intercalate ls := by
  induction ls with
  | nil => simp
  | cons y ls ih =>
    by_cases hls : ls = []
    · subst hls
      rw [List.intercalate_singleton]
      exact h y List.mem_cons_self
    · rw [List.intercalate_cons_of_ne_nil hls, List.mem_append, List.mem_append, not_or, not_or]
      exact ⟨⟨h y List.mem_cons_self, by simpa using hc⟩,
        ih fun x hx => h x (List.mem_cons_of_mem _ hx)⟩

end Intercalate

variable [DecidableEq α]

/-- One row, with its line end. -/
def line (sep nl : α) (fields : List (List α)) : List α := [sep].intercalate fields ++ [nl]

/-- A table as a text. -/
def render (sep nl : α) (rows : List (List (List α))) : List α := rows.flatMap (line sep nl)

/-- The lines of a text, without what follows the last line end. -/
def lines (nl : α) (text : List α) : List (List α) := (text.splitOn nl).dropLast

/-- The fields of the lines of a text. -/
def parse (sep nl : α) (text : List α) : List (List (List α)) :=
  (lines nl text).map fun l => l.splitOn sep

/-- A row whose fields can be told apart. -/
structure CleanRow (sep nl : α) (row : List (List α)) : Prop where
  nonempty : row ≠ []
  sep : ∀ field ∈ row, sep ∉ field
  nl : ∀ field ∈ row, nl ∉ field

section Split

variable {a b : α} {l x : List α}

theorem not_mem_of_mem_splitOn (h : x ∈ l.splitOn a) : a ∉ x := by
  induction l generalizing x with
  | nil =>
    rw [List.splitOn_nil, List.mem_singleton] at h
    simp [h]
  | cons c l ih =>
    rw [List.splitOn_cons_eq_if_modifyHead] at h
    split_ifs at h with hc
    · rcases List.mem_cons.1 h with rfl | h
      · exact List.not_mem_nil
      · exact ih h
    · obtain ⟨y, ys, hys⟩ := List.exists_cons_of_ne_nil (List.splitOn_ne_nil a l)
      rw [hys, List.modifyHead_cons] at h
      rw [hys] at ih
      rcases List.mem_cons.1 h with rfl | h
      · rw [List.mem_cons, not_or]
        exact ⟨fun hac => hc (by simp [hac]), ih List.mem_cons_self⟩
      · exact ih (List.mem_cons_of_mem _ h)

/-- The parts have no symbol that the whole lacks. -/
theorem mem_of_mem_splitOn (h : x ∈ l.splitOn a) (hb : b ∈ x) : b ∈ l := by
  have hmem : b ∈ [a].intercalate (l.splitOn a) := mem_intercalate_of_mem h hb
  rwa [List.intercalate_splitOn] at hmem

end Split

section Table

variable {sep nl : α} {row : List (List α)} {rows : List (List (List α))}

/-- **Whatever is read is clean.** -/
theorem mem_parse {text : List α} (h : row ∈ parse sep nl text) : CleanRow sep nl row := by
  obtain ⟨l, hl, rfl⟩ := List.mem_map.1 h
  have hl : l ∈ text.splitOn nl := List.dropLast_subset _ hl
  exact ⟨List.splitOn_ne_nil sep l, fun field hf => not_mem_of_mem_splitOn hf,
    fun field hf hmem => not_mem_of_mem_splitOn hl (mem_of_mem_splitOn hf hmem)⟩

/-- The lines of a clean table, and the empty text behind the last one. -/
theorem splitOn_render (hne : sep ≠ nl) (h : ∀ row ∈ rows, CleanRow sep nl row) :
    (render sep nl rows).splitOn nl = rows.map [sep].intercalate ++ [[]] := by
  induction rows with
  | nil => exact List.splitOn_nil nl
  | cons row rows ih =>
    have hline : nl ∉ [sep].intercalate row :=
      not_mem_intercalate hne.symm (h row List.mem_cons_self).nl
    have hrender : render sep nl (row :: rows)
        = [sep].intercalate row ++ nl :: render sep nl rows := by
      simp [render, line]
    rw [hrender, List.splitOn_append_cons_self_of_not_mem hline,
      ih fun row hrow => h row (List.mem_cons_of_mem _ hrow), List.map_cons, List.cons_append]

theorem parse_render (hne : sep ≠ nl) (h : ∀ row ∈ rows, CleanRow sep nl row) :
    parse sep nl (render sep nl rows) = rows := by
  rw [parse, lines, splitOn_render hne h, List.dropLast_concat, List.map_map]
  conv_rhs => rw [← List.map_id rows]
  refine List.map_congr_left fun row hrow => ?_
  exact List.splitOn_intercalate sep (h row hrow).sep (h row hrow).nonempty

/-- **A table reads back exactly if it is clean.** -/
theorem parse_render_iff (hne : sep ≠ nl) :
    parse sep nl (render sep nl rows) = rows ↔ ∀ row ∈ rows, CleanRow sep nl row := by
  refine ⟨fun h row hrow => ?_, parse_render hne⟩
  rw [← h] at hrow
  exact mem_parse hrow

end Table

end Csv
