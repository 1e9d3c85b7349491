import Concord.Agent.Prompts
import Concord.Frontend.Markdown

/-!
# Fences

The text that `_fenced` puts into a code block, as `parseBlocks` of the frontend reads it. The fence is longer than
every run of backticks in the text, so no part of the text is a fence: it comes out as it is
(`parseBlocks_fenced`).
-/

namespace Concord.Agent

open Concord.Base

/-! ## Runs -/

section Runs

variable {α : Type} {p : α → Bool} {run l : List α}

theorem prefix_head_splitOnP (h : run <+: l) (hp : ∀ a ∈ run, p a = false) :
    ∃ first others, l.splitOnP p = first :: others ∧ run <+: first := by
  induction l generalizing run with
  | nil => exact ⟨[], [], List.splitOnP_nil, h⟩
  | cons a l ih =>
    cases run with
    | nil =>
      obtain ⟨first, others, hpieces⟩ := List.exists_cons_of_ne_nil (List.splitOnP_ne_nil p (a :: l))
      exact ⟨first, others, hpieces, List.nil_prefix⟩
    | cons b run =>
      obtain ⟨rfl, hrun⟩ := List.cons_prefix_cons.1 h
      obtain ⟨first, others, hpieces, hstarts⟩ := ih hrun fun a ha => hp a (List.mem_cons_of_mem _ ha)
      refine ⟨b :: first, others, ?_, List.cons_prefix_cons.2 ⟨rfl, hstarts⟩⟩
      have hin : ¬p b = true := by rw [hp b List.mem_cons_self]; exact Bool.false_ne_true
      rw [List.splitOnP_cons_eq_if_modifyHead, if_neg hin, hpieces, List.modifyHead_cons]

/-- A run of what a list is not split at is in one of the pieces. -/
theorem exists_infix_splitOnP (h : run <:+: l) (hp : ∀ a ∈ run, p a = false) :
    ∃ piece ∈ l.splitOnP p, run <:+: piece := by
  induction l with
  | nil => exact ⟨[], by rw [List.splitOnP_nil]; exact List.mem_cons_self, h⟩
  | cons a l ih =>
    rcases List.infix_cons_iff.1 h with h | h
    · obtain ⟨first, others, hpieces, hstarts⟩ := prefix_head_splitOnP h hp
      exact ⟨first, by rw [hpieces]; exact List.mem_cons_self, hstarts.isInfix⟩
    · obtain ⟨piece, hmem, hwithin⟩ := ih h
      rw [List.splitOnP_cons_eq_if_modifyHead]
      split
      · exact ⟨piece, List.mem_cons_of_mem _ hmem, hwithin⟩
      · obtain ⟨first, others, hpieces⟩ := List.exists_cons_of_ne_nil (List.splitOnP_ne_nil p l)
        rw [hpieces] at hmem
        rw [hpieces, List.modifyHead_cons]
        rcases List.mem_cons.1 hmem with rfl | hmem
        · exact ⟨a :: piece, List.mem_cons_self, hwithin.trans (List.suffix_cons a piece).isInfix⟩
        · exact ⟨piece, List.mem_cons_of_mem _ hmem, hwithin⟩

/-- A run does not begin in a part that has none of it. -/
theorem infix_of_infix_append {a : α} {part : List α} (ha : a ∉ part) (h : a :: run <:+: part ++ l) :
    a :: run <:+: l := by
  induction part with
  | nil => exact h
  | cons b part ih =>
    rw [List.mem_cons, not_or] at ha
    rcases List.infix_cons_iff.1 h with h | h
    · exact absurd (List.cons_prefix_cons.1 h).1 ha.1
    · exact ih ha.2 h

end Runs

section Backticks

variable {text : Str} {n : Nat}

/-- No run of backticks in a text is longer than its longest one. -/
theorem le_longestRun (h : List.replicate n backtick <:+: text) : n ≤ longestRun text := by
  cases n with
  | zero => exact Nat.zero_le _
  | succ n =>
    have hticks : ∀ c ∈ List.replicate (n + 1) backtick, decide (c ≠ backtick) = false := by
      intro c hc
      rw [List.eq_of_mem_replicate hc]
      decide
    obtain ⟨piece, hpiece, hwithin⟩ := exists_infix_splitOnP h hticks
    have hlength : n + 1 ≤ piece.length := by simpa only [List.length_replicate] using hwithin.length_le
    have hrun : piece ∈ backtickRuns text := by
      refine List.mem_filter.2 ⟨hpiece, decide_eq_true fun hnil => ?_⟩
      rw [hnil] at hlength
      cases hlength
    have hmax : ∀ k ∈ (backtickRuns text).map List.length, k ≤ longestRun text := fun k hk =>
      List.le_max_of_le' 0 hk le_rfl
    exact hlength.trans (hmax _ (List.mem_map_of_mem hrun))

/-- A unit that is no half of a surrogate pair is that of its code point. -/
theorem utf16Units_of_mem {c : CodePoint} {u : UInt16} (h : u ∈ utf16Units c) (hu : u.toNat < 0xD800) :
    utf16Units c = [u] ∧ c.val = u.toNat := by
  unfold utf16Units at h ⊢
  split at h
  · next hsmall =>
    rw [if_pos hsmall, List.mem_singleton.1 h, UInt16.toNat_ofNat']
    exact ⟨rfl, by omega⟩
  · have hval := c.isLt
    rcases List.mem_pair.1 h with rfl | rfl
    · rw [UInt16.toNat_ofNat'] at hu
      omega
    · rw [UInt16.toNat_ofNat'] at hu
      omega

theorem utf16Units_ne_nil (c : CodePoint) : utf16Units c ≠ [] := by
  unfold utf16Units
  split
  · exact List.cons_ne_nil _ _
  · exact List.cons_ne_nil _ _

theorem eq_of_mem_utf16Units {c d : CodePoint} {u : UInt16} (h : u ∈ utf16Units c) (h' : u ∈ utf16Units d)
    (hu : u.toNat < 0xD800) : c = d :=
  Fin.ext ((utf16Units_of_mem h hu).2.trans (utf16Units_of_mem h' hu).2.symm)

@[simp] theorem utf16_cons (c : CodePoint) (text : Str) : utf16 (c :: text) = utf16Units c ++ utf16 text :=
  List.flatMap_cons

@[simp] theorem utf16Units_backtick : utf16Units backtick = [Markdown.tick] := by decide

@[simp] theorem utf16Units_newline : utf16Units newline = [Markdown.newline] := by decide

theorem utf16_replicate_backtick (n : Nat) : utf16 (List.replicate n backtick) = List.replicate n Markdown.tick := by
  induction n with
  | zero => rfl
  | succ n ih =>
    rw [List.replicate_succ, utf16_cons, ih, utf16Units_backtick, List.replicate_succ, List.singleton_append]

theorem eq_backtick {c : CodePoint} (h : Markdown.tick ∈ utf16Units c) : c = backtick :=
  eq_of_mem_utf16Units h (by rw [utf16Units_backtick]; exact List.mem_singleton_self _) (by decide)

/-- The backticks at the beginning of a text are those of its units. -/
theorem backticks_begin (h : List.replicate n Markdown.tick <+: utf16 text) : List.replicate n backtick <+: text := by
  induction n generalizing text with
  | zero => exact List.nil_prefix
  | succ n ih =>
    cases text with
    | nil => cases List.prefix_nil.1 h
    | cons c text =>
      rw [utf16_cons, List.replicate_succ] at h
      have hc : c = backtick := by
        refine eq_backtick ?_
        cases hunits : utf16Units c with
        | nil => exact absurd hunits (utf16Units_ne_nil c)
        | cons u rest =>
          rw [hunits, List.cons_append] at h
          rw [(List.cons_prefix_cons.1 h).1]
          exact List.mem_cons_self
      subst hc
      rw [utf16Units_backtick, List.singleton_append, List.cons_prefix_cons] at h
      rw [List.replicate_succ, List.cons_prefix_cons]
      exact ⟨rfl, ih h.2⟩

/-- So are those in the middle of it. -/
theorem backticks_within (h : List.replicate (n + 1) Markdown.tick <:+: utf16 text) :
    List.replicate (n + 1) backtick <:+: text := by
  induction text with
  | nil => cases List.infix_nil.1 h
  | cons c text ih =>
    by_cases hc : c = backtick
    · subst hc
      have hstarts := @backticks_begin (backtick :: text) (n + 1)
      rw [utf16_cons, utf16Units_backtick, List.singleton_append] at h hstarts
      rcases List.infix_cons_iff.1 h with h | h
      · exact (hstarts h).isInfix
      · exact (ih h).trans (List.suffix_cons _ _).isInfix
    · have hother : Markdown.tick ∉ utf16Units c := fun hmem => hc (eq_backtick hmem)
      rw [utf16_cons, List.replicate_succ] at h
      exact (ih (infix_of_infix_append hother h)).trans (List.suffix_cons _ _).isInfix

end Backticks

/-- **File text cannot break out of its fence.** Read as an answer, the block that `_fenced` writes is one code
block, with the language and the text that went in. -/
theorem parseBlocks_fenced (text lang : Str) (hcr : CodePoint.ofChar '\r' ∉ text)
    (hlang : ∀ u ∈ utf16 lang, Markdown.isLangUnit u = true) :
    Markdown.parseBlocks (utf16 (fenced text lang)) = [.code (utf16 lang) (utf16 text)] := by
  obtain ⟨k, hk⟩ := Nat.exists_eq_add_of_le' (Nat.le_max_left 3 (longestRun text + 1))
  have hlong : longestRun text < k + 3 := hk ▸ Nat.le_max_right _ _
  have hcr' : Markdown.unit '\r' ∉ utf16 text := by
    intro h
    obtain ⟨c, hc, hu⟩ := List.mem_flatMap.1 h
    have hreturn : Markdown.unit '\r' ∈ utf16Units (CodePoint.ofChar '\r') := by decide
    exact hcr (eq_of_mem_utf16Units hu hreturn (by decide) ▸ hc)
  have hfence : ¬List.replicate (k + 3) Markdown.tick <:+: utf16 text := fun h =>
    absurd (le_longestRun (backticks_within h)) (by omega)
  have hunits : utf16 (fenced text lang) = List.replicate (k + 3) Markdown.tick ++ utf16 lang ++
      Markdown.newline :: (utf16 text ++ Markdown.newline :: List.replicate (k + 3) Markdown.tick) := by
    unfold fenced
    dsimp only
    rw [hk]
    simp only [utf16_append, utf16_cons, utf16_replicate_backtick, utf16Units_newline, List.singleton_append]
  rw [hunits]
  exact Markdown.parseBlocks_fence (by omega) hlang hcr' hfence

/-- A text with a fence in it. -/
theorem parseBlocks_fenced_backticks :
    Markdown.parseBlocks (utf16 (fenced (Str.ofString "s = \"\x60\x60\x60\"\n") (Str.ofString "python"))) =
      [.code (utf16 (Str.ofString "python")) (utf16 (Str.ofString "s = \"\x60\x60\x60\"\n"))] :=
  parseBlocks_fenced _ _ (by decide) (List.all_eq_true.1 (by decide))

end Concord.Agent
