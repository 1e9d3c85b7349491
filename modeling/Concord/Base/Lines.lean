import Mathlib

/-!
# Lines

A text is cut into lines at the characters that `isBreak` has; a carriage return and the line feed after it
end one line together. Each line comes with the text before it.

Two readers may disagree about which characters end a line. Where one of them (`isBreak`) takes all that the
other (`isFewer`) does and more, they agree on the place of the line with a given number exactly if none of the
others stands before it: `before_eq_iff`.
-/

namespace Concord.Base

/-- A line, and what is before it. -/
structure Line where
  before : List Char
  chars : List Char
deriving DecidableEq

section Lines

variable (isBreak : Char → Bool)

/-- The lines of the rest of a text, in the middle of a line. -/
def linesFrom (before chars : List Char) : List Char → List Line
  | [] => [⟨before, chars⟩]
  | '\r' :: '\n' :: rest => ⟨before, chars⟩ :: linesFrom (before ++ chars ++ ['\r', '\n']) [] rest
  | c :: rest =>
    if isBreak c then ⟨before, chars⟩ :: linesFrom (before ++ chars ++ [c]) [] rest
    else linesFrom before (chars ++ [c]) rest

/-- The lines of a text. What is after the last break is a line of its own, if only an empty one. -/
def lines (text : List Char) : List Line := linesFrom isBreak [] [] text

end Lines

/-- Induction over a text, a carriage return with its line feed at a time. -/
@[elab_as_elim]
theorem crlfInduction {P : List Char → Prop} (nil : P []) (crlf : ∀ rest, P rest → P ('\r' :: '\n' :: rest))
    (cons : ∀ c rest, (∀ rest', c = '\r' → rest ≠ '\n' :: rest') → P rest → P (c :: rest)) (text : List Char) :
    P text := by
  induction hlength : text.length using Nat.strong_induction_on generalizing text with
  | _ n ih =>
    cases text with
    | nil => exact nil
    | cons c rest =>
      rw [List.length_cons] at hlength
      by_cases h : ∃ rest', c = '\r' ∧ rest = '\n' :: rest'
      · obtain ⟨rest', rfl, rfl⟩ := h
        rw [List.length_cons] at hlength
        exact crlf rest' (ih rest'.length (by omega) rest' rfl)
      · refine cons c rest (fun rest' hc hrest => h ⟨rest', hc, hrest⟩) ?_
        exact ih rest.length (by omega) rest rfl

section Places

variable {isBreak isFewer : Char → Bool} {before chars rest text : List Char} {line other : Line} {k d : Nat}

theorem linesFrom_nil : linesFrom isBreak before chars [] = [⟨before, chars⟩] := rfl

theorem linesFrom_crlf : linesFrom isBreak before chars ('\r' :: '\n' :: rest) =
    ⟨before, chars⟩ :: linesFrom isBreak (before ++ chars ++ ['\r', '\n']) [] rest := rfl

theorem linesFrom_cons {c : Char} (hcrlf : ∀ rest', c = '\r' → rest ≠ '\n' :: rest') :
    linesFrom isBreak before chars (c :: rest) =
      if isBreak c then ⟨before, chars⟩ :: linesFrom isBreak (before ++ chars ++ [c]) [] rest
      else linesFrom isBreak before (chars ++ [c]) rest := by
  rw [linesFrom]
  exact hcrlf

theorem linesFrom_break {c : Char} (hcrlf : ∀ rest', c = '\r' → rest ≠ '\n' :: rest') (h : isBreak c = true) :
    linesFrom isBreak before chars (c :: rest) =
      ⟨before, chars⟩ :: linesFrom isBreak (before ++ chars ++ [c]) [] rest := by
  rw [linesFrom_cons hcrlf, if_pos h]

theorem linesFrom_other {c : Char} (hcrlf : ∀ rest', c = '\r' → rest ≠ '\n' :: rest') (h : isBreak c = false) :
    linesFrom isBreak before chars (c :: rest) = linesFrom isBreak before (chars ++ [c]) rest := by
  rw [linesFrom_cons hcrlf, if_neg (Bool.eq_false_iff.1 h)]

/-- A line is a part of the text, up to a break or to the end. -/
theorem split_linesFrom (hcr : isBreak '\r' = true) (h : line ∈ linesFrom isBreak before chars rest) :
    ∃ after, before ++ (chars ++ rest) = line.before ++ (line.chars ++ after) ∧
      ∀ c ∈ after.head?, isBreak c = true := by
  induction rest using crlfInduction generalizing before chars with
  | nil =>
    rw [linesFrom_nil, List.mem_singleton] at h
    exact ⟨[], by rw [h], by simp⟩
  | crlf rest ih =>
    rw [linesFrom_crlf] at h
    rcases List.mem_cons.1 h with rfl | h
    · exact ⟨'\r' :: '\n' :: rest, rfl, by simpa using hcr⟩
    · obtain ⟨after, htext, hafter⟩ := ih h
      exact ⟨after, by simpa using htext, hafter⟩
  | cons c rest hcrlf ih =>
    cases hc : isBreak c with
    | false =>
      rw [linesFrom_other hcrlf hc] at h
      obtain ⟨after, htext, hafter⟩ := ih h
      exact ⟨after, by simpa using htext, hafter⟩
    | true =>
      rw [linesFrom_break hcrlf hc] at h
      rcases List.mem_cons.1 h with rfl | h
      · exact ⟨c :: rest, rfl, by simpa using hc⟩
      · obtain ⟨after, htext, hafter⟩ := ih h
        exact ⟨after, by simpa using htext, hafter⟩

/-- There is no break in a line. -/
theorem isBreak_of_mem_linesFrom (hchars : ∀ c ∈ chars, isBreak c = false)
    (h : line ∈ linesFrom isBreak before chars rest) : ∀ c ∈ line.chars, isBreak c = false := by
  induction rest using crlfInduction generalizing before chars with
  | nil =>
    rw [linesFrom_nil, List.mem_singleton] at h
    rw [h]
    exact hchars
  | crlf rest ih =>
    rw [linesFrom_crlf] at h
    rcases List.mem_cons.1 h with rfl | h
    · exact hchars
    · exact ih (by simp) h
  | cons c rest hcrlf ih =>
    cases hc : isBreak c with
    | false =>
      rw [linesFrom_other hcrlf hc] at h
      refine ih (fun d hd => ?_) h
      rcases List.mem_append.1 hd with hd | hd
      · exact hchars d hd
      · rw [List.mem_singleton.1 hd]
        exact hc
    | true =>
      rw [linesFrom_break hcrlf hc] at h
      rcases List.mem_cons.1 h with rfl | h
      · exact hchars
      · exact ih (by simp) h

/-- The first line begins where the scan does, and every other one after the break of the first. -/
theorem before_linesFrom (h : (linesFrom isBreak before chars rest)[k]? = some line) :
    k = 0 ∧ line.before = before ∨ 0 < k ∧ before.length + chars.length < line.before.length := by
  induction rest using crlfInduction generalizing before chars k with
  | nil =>
    rw [linesFrom_nil] at h
    cases k with
    | zero => exact .inl ⟨rfl, by rw [← Option.some.inj h]⟩
    | succ k => simp at h
  | crlf rest ih =>
    rw [linesFrom_crlf] at h
    cases k with
    | zero => exact .inl ⟨rfl, by rw [← Option.some.inj h]⟩
    | succ k =>
      rw [List.getElem?_cons_succ] at h
      refine .inr ⟨Nat.succ_pos k, ?_⟩
      rcases ih h with ⟨-, hbefore⟩ | ⟨-, hbefore⟩
      · simp only [hbefore, List.length_append, List.length_cons, List.length_nil]
        omega
      · simp only [List.length_append, List.length_cons, List.length_nil] at hbefore
        omega
  | cons c rest hcrlf ih =>
    cases hc : isBreak c with
    | false =>
      rw [linesFrom_other hcrlf hc] at h
      refine (ih h).imp_right fun hlater => ⟨hlater.1, ?_⟩
      have hlength := hlater.2
      simp only [List.length_append, List.length_cons, List.length_nil] at hlength
      omega
    | true =>
      rw [linesFrom_break hcrlf hc] at h
      cases k with
      | zero => exact .inl ⟨rfl, by rw [← Option.some.inj h]⟩
      | succ k =>
        rw [List.getElem?_cons_succ] at h
        refine .inr ⟨Nat.succ_pos k, ?_⟩
        rcases ih h with ⟨-, hbefore⟩ | ⟨-, hbefore⟩
        · simp only [hbefore, List.length_append, List.length_cons, List.length_nil]
          omega
        · simp only [List.length_append, List.length_cons, List.length_nil] at hbefore
          omega

/-- The first line of the one reader begins before the next one of the other. -/
theorem before_lt_of_first {before' chars' : List Char} (hsame : before' ++ chars' = before ++ chars) (hd : 0 < d)
    (h : (linesFrom isBreak before chars rest)[0]? = some line)
    (h' : (linesFrom isFewer before' chars' rest)[d]? = some other) : line.before.length < other.before.length := by
  have hlength : before'.length + chars'.length = before.length + chars.length := by
    simpa using congrArg List.length hsame
  rcases before_linesFrom h with ⟨-, hline⟩ | ⟨hpos, -⟩
  · rcases before_linesFrom h' with ⟨hzero, -⟩ | ⟨-, hother⟩
    · omega
    · rw [hline]
      omega
  · omega

/-- A reader that has counted fewer lines finds a line of the same number further on. -/
theorem before_lt_of_behind (hfewer : ∀ c, isFewer c = true → isBreak c = true) {before' chars' : List Char}
    (hsame : before' ++ chars' = before ++ chars) (hd : 0 < d)
    (h : (linesFrom isBreak before chars rest)[k]? = some line)
    (h' : (linesFrom isFewer before' chars' rest)[k + d]? = some other) : line.before.length < other.before.length := by
  induction rest using crlfInduction generalizing before chars before' chars' k d with
  | nil =>
    rw [linesFrom_nil, List.getElem?_singleton, if_neg (by omega)] at h'
    cases h'
  | crlf rest ih =>
    cases k with
    | zero => exact before_lt_of_first hsame hd h (by simpa using h')
    | succ k =>
      rw [linesFrom_crlf, List.getElem?_cons_succ] at h
      rw [linesFrom_crlf, Nat.add_right_comm, List.getElem?_cons_succ] at h'
      exact ih (by rw [hsame]) hd h h'
  | cons c rest hcrlf ih =>
    cases k with
    | zero => exact before_lt_of_first hsame hd h (by simpa using h')
    | succ k =>
      cases hc : isBreak c with
      | false =>
        have hc' : isFewer c = false := Bool.eq_false_iff.2 fun h => Bool.eq_false_iff.1 hc (hfewer c h)
        rw [linesFrom_other hcrlf hc] at h
        rw [linesFrom_other hcrlf hc'] at h'
        exact ih (by rw [← List.append_assoc, hsame, List.append_assoc]) hd h h'
      | true =>
        rw [linesFrom_break hcrlf hc, List.getElem?_cons_succ] at h
        cases hc' : isFewer c with
        | true =>
          rw [linesFrom_break hcrlf hc', Nat.add_right_comm, List.getElem?_cons_succ] at h'
          exact ih (by rw [hsame]) hd h h'
        | false =>
          -- one more line that the other reader has not counted
          rw [linesFrom_other hcrlf hc', Nat.add_assoc, Nat.add_comm 1 d] at h'
          exact ih (by rw [← List.append_assoc, hsame, List.append_nil]) (Nat.succ_pos d) h h'

/-- There is a first line. -/
theorem exists_first (isBreak : Char → Bool) (before chars rest : List Char) :
    ∃ line, (linesFrom isBreak before chars rest)[0]? = some line ∧ line.before = before := by
  have hfirst : ∃ line, (linesFrom isBreak before chars rest)[0]? = some line := by
    induction rest using crlfInduction generalizing before chars with
    | nil => exact ⟨_, rfl⟩
    | crlf rest ih =>
      rw [linesFrom_crlf]
      exact ⟨_, rfl⟩
    | cons c rest hcrlf ih =>
      cases hc : isBreak c with
      | false =>
        rw [linesFrom_other hcrlf hc]
        exact ih before (chars ++ [c])
      | true =>
        rw [linesFrom_break hcrlf hc]
        exact ⟨_, rfl⟩
  obtain ⟨line, hline⟩ := hfirst
  rcases before_linesFrom hline with ⟨-, hbefore⟩ | ⟨hpos, -⟩
  · exact ⟨line, hline, hbefore⟩
  · omega

theorem prefix_of_mem_linesFrom (h : line ∈ linesFrom isBreak before chars rest) : before <+: line.before := by
  induction rest using crlfInduction generalizing before chars with
  | nil =>
    rw [linesFrom_nil, List.mem_singleton] at h
    rw [h]
  | crlf rest ih =>
    rw [linesFrom_crlf] at h
    rcases List.mem_cons.1 h with rfl | h
    · exact List.prefix_rfl
    · exact ((List.prefix_append _ _).trans (List.prefix_append _ _)).trans (ih h)
  | cons c rest hcrlf ih =>
    cases hc : isBreak c with
    | false =>
      rw [linesFrom_other hcrlf hc] at h
      exact ih h
    | true =>
      rw [linesFrom_break hcrlf hc] at h
      rcases List.mem_cons.1 h with rfl | h
      · exact List.prefix_rfl
      · exact ((List.prefix_append _ _).trans (List.prefix_append _ _)).trans (ih h)

/-- The first line is in the same place for both readers. -/
theorem before_eq_iff_first (hbefore : ∀ c ∈ before ++ chars, isBreak c = true → isFewer c = true)
    (h : (linesFrom isBreak before chars rest)[0]? = some line) :
    (∃ other, (linesFrom isFewer before chars rest)[0]? = some other ∧ other.before = line.before) ↔
      ∀ c ∈ line.before, isBreak c = true → isFewer c = true := by
  rcases before_linesFrom h with ⟨-, hline⟩ | ⟨hpos, -⟩
  · rw [hline]
    exact iff_of_true (exists_first isFewer before chars rest) fun c hc => hbefore c (List.mem_append_left _ hc)
  · omega

theorem before_eq_iff_from (hfewer : ∀ c, isFewer c = true → isBreak c = true) (hcr : isFewer '\r' = true)
    (hlf : isFewer '\n' = true) (hbefore : ∀ c ∈ before ++ chars, isBreak c = true → isFewer c = true)
    (h : (linesFrom isBreak before chars rest)[k]? = some line) :
    (∃ other, (linesFrom isFewer before chars rest)[k]? = some other ∧ other.before = line.before) ↔
      ∀ c ∈ line.before, isBreak c = true → isFewer c = true := by
  induction rest using crlfInduction generalizing before chars k with
  | nil =>
    cases k with
    | zero => exact before_eq_iff_first hbefore h
    | succ k => simp [linesFrom_nil] at h
  | crlf rest ih =>
    cases k with
    | zero => exact before_eq_iff_first hbefore h
    | succ k =>
      rw [linesFrom_crlf, List.getElem?_cons_succ] at h ⊢
      refine ih (fun c hc => ?_) h
      rw [List.append_nil] at hc
      rcases List.mem_append.1 hc with hc | hc
      · exact hbefore c hc
      · rcases List.mem_pair.1 hc with rfl | rfl
        · exact fun _ => hcr
        · exact fun _ => hlf
  | cons c rest hcrlf ih =>
    cases k with
    | zero => exact before_eq_iff_first hbefore h
    | succ k =>
      cases hc : isBreak c with
      | false =>
        have hc' : isFewer c = false := Bool.eq_false_iff.2 fun h => Bool.eq_false_iff.1 hc (hfewer c h)
        rw [linesFrom_other hcrlf hc] at h
        rw [linesFrom_other hcrlf hc']
        refine ih (fun d hd => ?_) h
        rw [← List.append_assoc] at hd
        rcases List.mem_append.1 hd with hd | hd
        · exact hbefore d hd
        · rw [List.mem_singleton.1 hd, hc]
          exact Bool.noConfusion
      | true =>
        have hbreak := h
        rw [linesFrom_break hcrlf hc, List.getElem?_cons_succ] at h
        cases hc' : isFewer c with
        | true =>
          rw [linesFrom_break hcrlf hc', List.getElem?_cons_succ]
          refine ih (fun d hd => ?_) h
          rw [List.append_nil] at hd
          rcases List.mem_append.1 hd with hd | hd
          · exact hbefore d hd
          · rw [List.mem_singleton.1 hd]
            exact fun _ => hc'
        | false =>
          -- the break is before the line, and the other reader is behind from there on
          rw [linesFrom_other hcrlf hc']
          refine iff_of_false ?_ fun hall => ?_
          · rintro ⟨other, hother, hsame⟩
            have hlt := before_lt_of_behind hfewer (by simp) Nat.one_pos h hother
            rw [hsame] at hlt
            exact Nat.lt_irrefl _ hlt
          · have hmem : c ∈ line.before := (prefix_of_mem_linesFrom (List.mem_of_getElem? h)).subset (by simp)
            rw [hall c hmem hc] at hc'
            cases hc'

/-- Both readers find the line with a number in the same place if and only if what ends a line for the one
only does not stand before it. -/
theorem before_eq_iff (hfewer : ∀ c, isFewer c = true → isBreak c = true) (hcr : isFewer '\r' = true)
    (hlf : isFewer '\n' = true) (h : (lines isBreak text)[k]? = some line) :
    (∃ other, (lines isFewer text)[k]? = some other ∧ other.before = line.before) ↔
      ∀ c ∈ line.before, isBreak c = true → isFewer c = true :=
  before_eq_iff_from hfewer hcr hlf (by simp) h

/-- A line is a part of the text, without a break, up to a break or to the end. -/
theorem exists_of_mem_lines (hcr : isBreak '\r' = true) (h : line ∈ lines isBreak text) :
    ∃ after, text = line.before ++ (line.chars ++ after) ∧ (∀ c ∈ line.chars, isBreak c = false) ∧
      ∀ c ∈ after.head?, isBreak c = true := by
  obtain ⟨after, htext, hafter⟩ := split_linesFrom hcr h
  exact ⟨after, htext, isBreak_of_mem_linesFrom (by simp) h, hafter⟩

/-- Where both find a line in the same place, the one that ends it earlier has a part of it. -/
theorem chars_prefix_of_before_eq (hfewer : ∀ c, isFewer c = true → isBreak c = true) (hcr : isFewer '\r' = true)
    (h : line ∈ lines isBreak text) (h' : other ∈ lines isFewer text) (hsame : other.before = line.before) :
    line.chars <+: other.chars := by
  obtain ⟨after, htext, hchars, -⟩ := exists_of_mem_lines (hfewer _ hcr) h
  obtain ⟨after', htext', -, hafter'⟩ := exists_of_mem_lines hcr h'
  rw [htext', hsame, List.append_cancel_left_eq] at htext
  rcases List.append_eq_append_iff.1 htext with ⟨more, hline, hmore⟩ | ⟨more, hother, -⟩
  · -- the other reader would have ended the line before
    cases more with
    | nil => rw [hline, List.append_nil]
    | cons c more =>
      have hbreak : isFewer c = true := hafter' c (by rw [hmore]; rfl)
      have hno := hchars c (by rw [hline]; simp)
      rw [hfewer c hbreak] at hno
      cases hno
  · exact ⟨more, hother.symm⟩

end Places

end Concord.Base
