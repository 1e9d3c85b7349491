import Concord.Search.Text

/-!
# Where the editor finds a match

A click on a search result selects in the editor what the result says: a line, a column in it and a length,
both in UTF-16 units (the effect on `reveal` in `Editor.tsx`). The editor ends a line only at a line feed or a
carriage return. Python's `splitlines` ends one at eight other characters as well, a form feed among them, so
that a match after one of these has another line number in the editor (`search_points_at_match`).
-/

namespace Concord.Search

open Concord.Base

/-- The characters at which the editor ends a line. -/
def isEditorBreak (c : Char) : Bool := c = '\n' || c = '\r'

/-- What the editor selects: from where to where in the units of the text. Where the text has no such line, or
the line is shorter, it can only select less. -/
def selection (text : List Char) (line column length : Nat) : Option (Nat × Nat) :=
  (lines isEditorBreak text)[line - 1]?.bind fun l =>
    if column - 1 + length ≤ (units l.chars).length then
      some ((units l.before).length + (column - 1), (units l.before).length + (column - 1) + length)
    else none

namespace Found

variable (f : Found)

/-- The text that is matched. -/
def group : List Char := f.span.group f.line.chars

/-- Where the match is in the units of the text. -/
def place : Nat × Nat :=
  let start := (units (f.line.before ++ f.line.chars.take f.span.start)).length
  (start, start + (units f.group).length)

/-- The editor selects the match. -/
def IsSelected (text : List Char) : Prop :=
  selection text f.searchMatch.line f.searchMatch.column f.searchMatch.length = some f.place

end Found

section Places

variable {pattern : Pattern} {text : List Char} {f : Found}

theorem isBreak_of_isEditorBreak (c : Char) (h : isEditorBreak c = true) : isLineBreak c = true := by
  unfold isEditorBreak at h
  rcases (Bool.or_eq_true _ _).mp h with h | h
  · rw [of_decide_eq_true h]
    decide
  · rw [of_decide_eq_true h]
    decide

/-- The matches of a text are on lines of it. -/
theorem mem_found (h : f ∈ found pattern text) : (lines isLineBreak text)[f.number - 1]? = some f.line ∧
    1 ≤ f.number ∧ f.span ∈ pattern.finditer f.line.chars ∧ f.span.stop ≠ f.span.start := by
  obtain ⟨⟨line, n⟩, hitem, hf⟩ := List.mem_flatMap.1 h
  obtain ⟨m, hm, rfl⟩ := List.mem_map.1 hf
  obtain ⟨hfind, hempty⟩ := List.mem_filter.1 hm
  obtain ⟨hn, hline⟩ := List.mk_mem_zipIdx_iff_le_and_getElem?_sub.1 hitem
  refine ⟨?_, hn, hfind, of_decide_eq_true hempty⟩
  unfold splitlines at hline
  dsimp only at hline
  split at hline
  · rw [List.getElem?_dropLast] at hline
    split at hline
    · exact hline
    · cases hline
  · exact hline

theorem split_chars (hf : f ∈ found pattern text) :
    f.line.chars = f.line.chars.take f.span.start ++ (f.group ++ f.line.chars.drop f.span.stop) := by
  obtain ⟨-, -, hfind, -⟩ := mem_found hf
  obtain ⟨hstart, hstop⟩ := pattern.bounds _ _ hfind
  exact Span.split_group hstart hstop

/-- The match is in its place. -/
theorem slice_place (hf : f ∈ found pattern text) : slice (units text) f.place.1 f.place.2 = units f.group := by
  obtain ⟨hline, -⟩ := mem_found hf
  obtain ⟨after, htext, -⟩ := exists_of_mem_lines (by decide) (List.mem_of_getElem? hline)
  have hsplit : text = (f.line.before ++ f.line.chars.take f.span.start) ++
      (f.group ++ (f.line.chars.drop f.span.stop ++ after)) := by
    conv_lhs => rw [htext, split_chars hf]
    simp only [List.append_assoc]
  conv_lhs => rw [hsplit]
  exact slice_units _ _ _

/-- The editor selects a match exactly where its line has the same place for the editor. -/
theorem isSelected_iff_place (hf : f ∈ found pattern text) : f.IsSelected text ↔
    ∃ other, (lines isEditorBreak text)[f.number - 1]? = some other ∧ other.before = f.line.before := by
  obtain ⟨hline, -⟩ := mem_found hf
  have hmem := List.mem_of_getElem? hline
  obtain ⟨after, htext, -⟩ := exists_of_mem_lines (by decide) hmem
  have hcolumn : f.searchMatch.column - 1 = (units (f.line.chars.take f.span.start)).length := rfl
  have hlength : f.searchMatch.length = (units f.group).length := rfl
  have hplace : f.place.1 = (units f.line.before).length + (units (f.line.chars.take f.span.start)).length := by
    simp [Found.place]
  have hplace' : f.place.2 = f.place.1 + (units f.group).length := rfl
  unfold Found.IsSelected selection
  rw [hcolumn, hlength]
  change ((lines isEditorBreak text)[f.number - 1]?.bind _) = _ ↔ _
  constructor
  · intro h
    obtain ⟨other, hother, h⟩ := Option.bind_eq_some_iff.1 h
    split at h
    · refine ⟨other, hother, ?_⟩
      obtain ⟨after', htext', -⟩ := exists_of_mem_lines (by decide) (List.mem_of_getElem? hother)
      have hstart := congrArg Prod.fst (Option.some.inj h)
      dsimp only at hstart
      rw [hplace] at hstart
      exact eq_of_prefix_of_length_units (htext' ▸ List.prefix_append _ _) (htext ▸ List.prefix_append _ _) (by omega)
    · cases h
  · rintro ⟨other, hother, hsame⟩
    -- the editor's line goes on where Python has ended its own
    have hlonger : f.line.chars <+: other.chars :=
      chars_prefix_of_before_eq isBreak_of_isEditorBreak (by decide) hmem (List.mem_of_getElem? hother) hsame
    have hfits : (units (f.line.chars.take f.span.start)).length + (units f.group).length ≤
        (units other.chars).length := by
      have hle := (units_prefix_iff.2 hlonger).length_le
      rw [split_chars hf, units_append, units_append, List.length_append, List.length_append] at hle
      omega
    rw [hother, Option.bind_some, if_pos hfits, hsame]
    exact congrArg some (Prod.ext hplace.symm (by rw [hplace', hplace]))

/-- **A search result points at its match.** Each result comes from a match in the text, and the editor selects
that match if and only if no character that ends a line for Python only stands before its line. -/
theorem search_points_at_match (text : List Char) (pattern : Pattern) (limit : Nat) :
    ∃ results : List Found, searchText text pattern limit = results.map Found.searchMatch ∧
      ∀ f ∈ results, f.line ∈ splitlines text ∧ f.span ∈ pattern.finditer f.line.chars ∧
        slice (units text) f.place.1 f.place.2 = units f.group ∧
        (f.IsSelected text ↔ ∀ c ∈ f.line.before, isLineBreak c = true → isEditorBreak c = true) := by
  refine ⟨_, searchText_eq, fun f hf => ?_⟩
  have hfound := List.mem_of_mem_take hf
  obtain ⟨hline, hnumber, hfind, -⟩ := mem_found hfound
  refine ⟨?_, hfind, slice_place hfound, ?_⟩
  · obtain ⟨⟨line, n⟩, hitem, hin⟩ := List.mem_flatMap.1 hfound
    obtain ⟨m, hm, rfl⟩ := List.mem_map.1 hin
    exact List.fst_mem_of_mem_zipIdx hitem
  · rw [isSelected_iff_place hfound]
    exact before_eq_iff isBreak_of_isEditorBreak (by decide) (by decide) hline

end Places

/-- What `re` knows of the letters of ASCII. -/
def asciiTables : Tables where
  isWord c := c.isAlphanum || c = '_'
  sameLetter c d := c.toLower = d.toLower

/-- After a form feed at the end of a line, as sources have them, the editor selects nothing. -/
theorem search_misses_after_form_feed :
    let text := "import os\x0c\nneedle\n".toList
    let pattern := compile asciiTables ⟨"needle".toList, by decide, by decide, false, false⟩
    ∃ m, searchText text pattern 501 = [m] ∧ selection text m.line m.column m.length = none := by
  refine ⟨⟨3, 1, 6, "needle".toList, 0⟩, by decide, by decide⟩

end Concord.Search
