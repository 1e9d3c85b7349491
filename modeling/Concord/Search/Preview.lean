import Concord.Search.Text

/-!
# The preview of a match

A result shows its line, or a window of 200 characters of a longer one, with the match marked in it
(`SearchPanel.tsx` slices the preview at `preview_column`). The window begins 40 characters before the match,
however long the match is: one of more than 160 characters is cut off at the end of the window, unless the
window is that of the beginning or of the end of the line (`preview_shows_match`).
-/

namespace Concord.Search

open Concord.Base

/-- The preview is short, it is a part of the line, and what is marked in it is the match. -/
structure ShowsMatch (r : SearchMatch) (line group : List Char) : Prop where
  short : r.preview.length ≤ previewChars
  part : r.preview <:+: line
  marked : slice (units r.preview) r.previewColumn (r.previewColumn + r.length) = units group

section Window

variable {n : Nat} {line : List Char} {m : Span}

theorem length_preview_le (line : List Char) (start length : Nat) :
    (previewOf line start length).1.length ≤ previewChars := by
  unfold previewOf
  split
  · next hshort => exact hshort
  · exact List.length_take_le _ _

theorem preview_infix (line : List Char) (start length : Nat) : (previewOf line start length).1 <:+: line := by
  unfold previewOf
  split
  · exact List.infix_rfl
  · exact (List.take_prefix _ _).isInfix.trans (List.drop_suffix _ _).isInfix

/-- Two texts of which the one is cut off have different numbers of units. -/
theorem units_take_eq_iff {text : List Char} {k : Nat} : units (text.take k) = units text ↔ text.length ≤ k := by
  rw [units_injective.eq_iff, List.take_eq_self_iff]

/-- What is marked in a part of a line that has the beginning of the match. -/
theorem slice_of_cut {before match' after : List Char} {k : Nat} :
    slice (units (before ++ (match' ++ after).take k)) (units before).length
        ((units before).length + (units match').length) = units match' ↔ match'.length ≤ k := by
  rw [List.take_append]
  by_cases hk : match'.length ≤ k
  · rw [List.take_of_length_le hk, slice_units]
    exact iff_of_true rfl hk
  · have hrest : k - match'.length = 0 := by omega
    rw [hrest, List.take_zero, List.append_nil]
    refine iff_of_false (fun hsame => ?_) hk
    have hlength : (units (match'.take k)).length = (units match').length := by
      have hall := congrArg List.length hsame
      rw [slice, units_append, List.length_drop, List.length_take, List.length_append] at hall
      have hle := (units_prefix_iff.2 (List.take_prefix k match')).length_le
      omega
    have hstarts := units_prefix_iff.2 (List.take_prefix k match')
    exact hk (units_take_eq_iff.1 (hstarts.eq_of_length hlength))

theorem searchMatch_short (hline : line.length ≤ previewChars) :
    (searchMatch n line m).preview = line ∧
      (searchMatch n line m).previewColumn = (units (line.take m.start)).length := by
  unfold searchMatch previewOf
  rw [if_pos hline]
  exact ⟨rfl, rfl⟩

/-- The window of a long line, from the match on. -/
theorem searchMatch_long (hline : ¬line.length ≤ previewChars) (hstart : m.start ≤ m.stop)
    (hstop : m.stop ≤ line.length) :
    ∃ before, before.length = m.start - min (m.start - 40) (line.length - previewChars) ∧
      (searchMatch n line m).preview =
        before ++ (m.group line ++ line.drop m.stop).take (previewChars - before.length) ∧
      (searchMatch n line m).previewColumn = (units before).length := by
  have hlo : min (m.start - 40) (line.length - previewChars) ≤ m.start := by omega
  have hlength : ((line.take m.start).drop (min (m.start - 40) (line.length - previewChars))).length =
      m.start - min (m.start - 40) (line.length - previewChars) := by
    rw [List.length_drop, List.length_take_of_le (Nat.le_trans hstart hstop)]
  have hwindow : m.start - min (m.start - 40) (line.length - previewChars) ≤ previewChars := by
    unfold previewChars at hline ⊢
    omega
  have hdrop : line.drop (min (m.start - 40) (line.length - previewChars)) =
      (line.take m.start).drop (min (m.start - 40) (line.length - previewChars)) ++
        (m.group line ++ line.drop m.stop) := by
    refine (congrArg (List.drop _) (Span.split_group hstart hstop)).trans (List.drop_append_of_le_length ?_)
    rw [List.length_take_of_le (Nat.le_trans hstart hstop)]
    exact hlo
  refine ⟨_, hlength, ?_, ?_⟩
  · unfold searchMatch previewOf
    rw [if_neg hline]
    dsimp only
    rw [hdrop, List.take_append, List.take_of_length_le (by rw [hlength]; exact hwindow)]
  · unfold searchMatch previewOf utf16Len
    rw [if_neg hline]
    dsimp only
    rw [hdrop, List.take_take, Nat.min_eq_left hwindow, ← hlength, List.take_left]

/-- Where the match is marked as it is. -/
theorem showsMatch_iff (hstart : m.start ≤ m.stop) (hstop : m.stop ≤ line.length) :
    ShowsMatch (searchMatch n line m) line (m.group line) ↔
      line.length ≤ previewChars ∨ m.stop - m.start ≤ 160 ∨ m.stop ≤ previewChars := by
  have hshort := length_preview_le line m.start (m.stop - m.start)
  have hpart := preview_infix line m.start (m.stop - m.start)
  have hshows : ShowsMatch (searchMatch n line m) line (m.group line) ↔
      slice (units (searchMatch n line m).preview) (searchMatch n line m).previewColumn
        ((searchMatch n line m).previewColumn + (units (m.group line)).length) = units (m.group line) :=
    ⟨fun h => h.marked, fun h => ⟨hshort, hpart, h⟩⟩
  rw [hshows]
  by_cases hline : line.length ≤ previewChars
  · obtain ⟨hpreview, hcolumn⟩ := searchMatch_short (n := n) (m := m) hline
    refine iff_of_true ?_ (.inl hline)
    have hmarked := slice_units (line.take m.start) (m.group line) (line.drop m.stop)
    rw [← Span.split_group hstart hstop] at hmarked
    rw [hpreview, hcolumn]
    exact hmarked
  · obtain ⟨before, hlength, hpreview, hcolumn⟩ := searchMatch_long (n := n) hline hstart hstop
    rw [hpreview, hcolumn, slice_of_cut, Span.length_group hstop, hlength]
    unfold previewChars at hline ⊢
    omega

end Window

/-- **The preview shows the match** of a query exactly where the line is no longer than the preview, or the
query has at most 160 characters, or the match ends within the first 200 characters of the line. -/
theorem preview_shows_match (tables : Tables) (query : Query) (n : Nat) (line : List Char) (m : Span)
    (hm : m ∈ (compile tables query).finditer line) :
    ShowsMatch (searchMatch n line m) line (m.group line) ↔
      line.length ≤ previewChars ∨ query.q.length ≤ 160 ∨ m.start + query.q.length ≤ previewChars := by
  obtain ⟨hstart, hstop⟩ := (compile tables query).bounds line m hm
  obtain ⟨i, -, rfl⟩ := List.mem_map.1 hm
  rw [showsMatch_iff hstart hstop, Nat.add_sub_cancel_left]

/-- A match at the end of a short line. -/
theorem preview_shows_match_short :
    ShowsMatch (searchMatch 1 "a needle".toList ⟨2, 8⟩) "a needle".toList "needle".toList := by
  have hm : (⟨2, 8⟩ : Span) ∈ (compile ⟨fun _ => true, fun _ _ => false⟩
      ⟨"needle".toList, by decide, by decide, true, false⟩).finditer "a needle".toList := by
    decide
  exact (preview_shows_match _ _ 1 _ _ hm).2 (.inl (by decide))

/-- 161 times the letter a. -/
def longQuery : Query where
  q := List.replicate 161 'a'
  minLength := by rw [List.length_replicate]; decide
  maxLength := by rw [List.length_replicate]; decide
  case := true
  word := false

/-- A match of 161 characters, after 41 others: the window leaves out the last one. -/
theorem preview_cuts_match_off :
    ∃ line, ∃ m ∈ (compile ⟨fun _ => true, fun _ _ => false⟩ longQuery).finditer line,
      ¬ShowsMatch (searchMatch 1 line m) line (m.group line) := by
  have hline : (List.replicate 41 ' ' ++ List.replicate 161 'a').length = 202 := by
    rw [List.length_append, List.length_replicate, List.length_replicate]
  refine ⟨List.replicate 41 ' ' ++ List.replicate 161 'a', ⟨41, 202⟩, by decide +kernel, ?_⟩
  rw [showsMatch_iff (by decide) (by rw [hline]), hline]
  decide

end Concord.Search
