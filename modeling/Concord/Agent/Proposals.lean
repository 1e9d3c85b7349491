import Concord.Agent.Tools

/-!
# Proposals

When `propose_edit` records a proposal. It counts how often the original is in the text with `count`, which does not
count an occurrence that overlaps one it has counted. So it takes an original for unique that stands at several
positions all of which overlap the first one, such as `aa` in `aaa` (`proposal_names_one_place`).
-/

namespace Concord.Agent

open Concord.Base
open Str (ofString)

section ProposeEdit

variable {F : Type} (python : Python F) (ctx : AgentContext F) (file : File) (text original proposed : Str)
  (explanation : Json (PyFloat F))

/-- The text after the edit parses, if it has to. -/
def Parses (newText : Str) : Prop := file.language = .python → python.parse newText = .ok ()

/-- The syntax check of a text raises something else than a `SyntaxError`. -/
def CheckRaises (newText : Str) : Prop :=
  file.language = .python ∧ ∃ e, python.parse newText = .error (.other e)

/-- The original stands at several positions, all of which overlap the first one. -/
def OverlapsItself : Prop :=
  ¬OccursOnce original text ∧
    ∃ i, OccursAt original text i ∧ ∀ j, OccursAt original text j → i ≤ j ∧ j < i + original.length

/-- A proposal is recorded exactly if the original stands at one position, and what was checked then is the text
with that occurrence replaced. -/
structure NamesOnePlace (outcome : Result (Str × AgentContext F)) : Prop where
  recorded_iff : (∃ syntaxError, outcome = .ok (recorded ctx file original proposed explanation syntaxError)) ↔
    OccursOnce original text
  checked : ∀ result, outcome = .ok result → ∃ before after syntaxError, text = before ++ (original ++ after) ∧
    (syntaxError = none ↔ Parses python file (before ++ (proposed ++ after))) ∧
    result = recorded ctx file original proposed explanation syntaxError

end ProposeEdit

section Recording

variable {F : Type} {python : Python F} {reads : Reads} {ctx : AgentContext F} {file : File}
  {text original proposed : Str} {fileId explanation : Json (PyFloat F)}

/-- One occurrence is counted where the original stands once, or overlaps itself. -/
theorem count_eq_one_iff_stands (horiginal : original ≠ []) :
    count original text = 1 ↔ OccursOnce original text ∨ OverlapsItself text original := by
  rw [count_eq_one_iff horiginal]
  constructor
  · intro h
    by_cases hone : OccursOnce original text
    · exact .inl hone
    · exact .inr ⟨hone, h⟩
  · rintro (⟨i, hi, honly⟩ | ⟨-, h⟩)
    · have hpos := List.length_pos_iff.2 horiginal
      refine ⟨i, hi, fun j hj => ?_⟩
      rw [honly j hj]
      omega
    · exact h

theorem truthy_str (horiginal : original ≠ []) : truthy python (.str original) = true := by
  rw [truthy]
  exact decide_eq_true horiginal

/-- What comes of a proposal whose original is counted once. -/
theorem proposeEdit_once (hfile : projectFile python reads ctx fileId = .ok file)
    (htext : fileText reads ctx file = .ok text) (horiginal : original ≠ []) (hcount : count original text = 1) :
    proposeEdit python reads ctx fileId (.str original) (.str proposed) explanation =
      recordProposal python ctx file text original proposed explanation := by
  unfold proposeEdit
  rw [hfile]
  simp only [bind, Except.bind, truthy_str horiginal, Bool.not_true, Bool.false_eq_true, if_false, htext,
    Result.ofPyError, Except.mapError, hcount, Nat.one_ne_zero, lt_irrefl]

/-- What comes of a proposal whose original is not counted once. -/
theorem proposeEdit_other (hfile : projectFile python reads ctx fileId = .ok file)
    (htext : fileText reads ctx file = .ok text) (horiginal : original ≠ []) (hcount : count original text ≠ 1) :
    ∃ e, proposeEdit python reads ctx fileId (.str original) (.str proposed) explanation = .error e := by
  unfold proposeEdit
  rw [hfile]
  simp only [bind, Except.bind, truthy_str horiginal, Bool.not_true, Bool.false_eq_true, if_false, htext,
    Result.ofPyError, Except.mapError]
  by_cases hnone : count original text = 0
  · exact ⟨_, if_pos hnone⟩
  · refine ⟨_, (if_neg hnone).trans (if_pos ?_)⟩
    omega

theorem checkPythonSyntax_ok {code : Str} (h : ∀ e, python.parse code ≠ .error (.other e)) :
    ∃ err, checkPythonSyntax python code = .ok err ∧ (err = none ↔ python.parse code = .ok ()) := by
  unfold checkPythonSyntax
  cases hparse : python.parse code with
  | ok => exact ⟨none, rfl, iff_of_true rfl rfl⟩
  | error e =>
    cases e with
    | syntaxError msg lineno => exact ⟨_, rfl, iff_of_false (Option.some_ne_none _) (by rintro ⟨⟩)⟩
    | other e => exact absurd hparse (h e)

/-- What is recorded, if the syntax check raises nothing. -/
theorem recordProposal_ok (h : ¬CheckRaises python file (replaceFirst original proposed text)) :
    ∃ syntaxError, recordProposal python ctx file text original proposed explanation =
        .ok (recorded ctx file original proposed explanation syntaxError) ∧
      (syntaxError = none ↔ Parses python file (replaceFirst original proposed text)) := by
  unfold recordProposal
  by_cases hpython : file.language = .python
  · obtain ⟨err, hcheck, herr⟩ := checkPythonSyntax_ok fun e he => h ⟨hpython, e, he⟩
    refine ⟨err, ?_, herr.trans ⟨fun hok _ => hok, fun hparses => hparses hpython⟩⟩
    simp only [hpython, if_true, hcheck, Result.ofPyError, Except.mapError, bind, Except.bind]
    rfl
  · refine ⟨none, ?_, iff_of_true rfl fun h => absurd h hpython⟩
    simp only [hpython, if_false, bind, Except.bind]
    rfl

/-- Nothing is recorded, if it does. -/
theorem recordProposal_error (h : CheckRaises python file (replaceFirst original proposed text)) :
    ∃ e, recordProposal python ctx file text original proposed explanation = .error e := by
  obtain ⟨hpython, e, he⟩ := h
  refine ⟨.other e, ?_⟩
  unfold recordProposal
  simp only [hpython, if_true, checkPythonSyntax, he, Result.ofPyError, Except.mapError, bind, Except.bind]

/-- What is recorded where the original is counted once is about its first occurrence. -/
theorem recordProposal_first (hcount : count original text = 1) (horiginal : original ≠ [])
    (h : ¬CheckRaises python file (replaceFirst original proposed text)) :
    ∃ before after syntaxError, text = before ++ (original ++ after) ∧
      (syntaxError = none ↔ Parses python file (before ++ (proposed ++ after))) ∧
      recordProposal python ctx file text original proposed explanation =
        .ok (recorded ctx file original proposed explanation syntaxError) := by
  obtain ⟨i, hi, hfirst⟩ := (count_eq_one_iff horiginal).1 hcount
  obtain ⟨before, after, hsplit, rfl⟩ := occursAt_iff.1 hi
  have hnew : replaceFirst original proposed text = before ++ (proposed ++ after) :=
    replaceFirst_of_first hsplit fun j hj hat => absurd (hfirst j hat).1 (Nat.not_le.2 hj)
  obtain ⟨syntaxError, hrecord, hparses⟩ := recordProposal_ok h
  exact ⟨before, after, syntaxError, hsplit, hnew ▸ hparses, hrecord⟩

/-- A proposal that is not recorded names one place if the original does not stand at one. -/
theorem namesOnePlace_error {e : Failure} (h : ¬OccursOnce original text) :
    NamesOnePlace python ctx file text original proposed explanation (.error e) := by
  refine ⟨iff_of_false ?_ h, ?_⟩
  · rintro ⟨syntaxError, hok⟩
    cases hok
  · rintro result hok
    cases hok

/-- **A proposal names one place** exactly where the syntax check of the new text raises nothing, in case the original
stands at one position, and raises something, in case the original stands at several ones that overlap. -/
theorem proposal_names_one_place (python : Python F) (reads : Reads) (ctx : AgentContext F) (proposed : Str)
    (explanation : Json (PyFloat F)) (hfile : projectFile python reads ctx fileId = .ok file)
    (htext : fileText reads ctx file = .ok text) (horiginal : original ≠ []) :
    NamesOnePlace python ctx file text original proposed explanation
        (proposeEdit python reads ctx fileId (.str original) (.str proposed) explanation) ↔
      (OccursOnce original text → ¬CheckRaises python file (replaceFirst original proposed text)) ∧
        (OverlapsItself text original → CheckRaises python file (replaceFirst original proposed text)) := by
  by_cases hcount : count original text = 1
  · have hstands := (count_eq_one_iff_stands horiginal).1 hcount
    rw [proposeEdit_once hfile htext horiginal hcount]
    by_cases hraises : CheckRaises python file (replaceFirst original proposed text)
    · obtain ⟨e, he⟩ : ∃ e, recordProposal python ctx file text original proposed explanation = .error e :=
        recordProposal_error hraises
      rw [he]
      constructor
      · intro h
        refine ⟨fun hone => ?_, fun _ => hraises⟩
        obtain ⟨syntaxError, hok⟩ := h.recorded_iff.2 hone
        cases hok
      · rintro ⟨hone, -⟩
        exact namesOnePlace_error fun h => hone h hraises
    · obtain ⟨before, after, syntaxError, hsplit, hparses, hok⟩ := recordProposal_first hcount horiginal hraises
      rw [hok]
      constructor
      · intro h
        have hone := h.recorded_iff.1 ⟨_, rfl⟩
        exact ⟨fun _ => hraises, fun hover => absurd hone hover.1⟩
      · rintro ⟨-, hover⟩
        have hone : OccursOnce original text := hstands.resolve_right fun h => hraises (hover h)
        refine ⟨iff_of_true ⟨syntaxError, rfl⟩ hone, ?_⟩
        rintro result hok
        cases hok
        exact ⟨before, after, syntaxError, hsplit, hparses, rfl⟩
  · have hnone := fun h => hcount ((count_eq_one_iff_stands horiginal).2 h)
    obtain ⟨e, he⟩ : ∃ e, proposeEdit python reads ctx fileId (.str original) (.str proposed) explanation = .error e :=
      proposeEdit_other hfile htext horiginal hcount
    rw [he]
    exact iff_of_true (namesOnePlace_error fun h => hnone (.inl h))
      ⟨fun h => absurd (.inl h) hnone, fun h => absurd (.inr h) hnone⟩

theorem not_checkRaises_plainPython : ¬CheckRaises plainPython file text := by
  rintro ⟨-, e, he⟩
  cases he

end Recording

/-- A proposal for a text with one place for it. -/
theorem proposal_names_one_place_once :
    NamesOnePlace plainPython ⟨1, some 1, 100, none, none, ∅⟩ ⟨1, 1, "a.py", .python⟩ (ofString "x = 1") (ofString "1")
      (ofString "2") (.str []) (proposeEdit plainPython (oneFile (ofString "x = 1")) ⟨1, some 1, 100, none, none, ∅⟩
        (.int 1) (.str (ofString "1")) (.str (ofString "2")) (.str [])) := by
  have hall : ∀ j < 6, OccursAt (ofString "1") (ofString "x = 1") j → j = 4 := by decide
  have hone : OccursOnce (ofString "1") (ofString "x = 1") :=
    ⟨4, by decide, fun j hj => hall j (Nat.lt_succ_of_le hj.1) hj⟩
  exact (proposal_names_one_place plainPython (oneFile (ofString "x = 1")) _ _ _ rfl rfl (by decide)).2
    ⟨fun _ => not_checkRaises_plainPython, fun hover => absurd hone hover.1⟩

/-- `aa` stands at two positions of `aaa`, and is taken for unique. -/
theorem overlapping_proposal_recorded :
    ∃ text original : Str, original ≠ [] ∧ ¬NamesOnePlace plainPython ⟨1, some 1, 100, none, none, ∅⟩
      ⟨1, 1, "a.py", .python⟩ text original (ofString "b") (.str [])
      (proposeEdit plainPython (oneFile text) ⟨1, some 1, 100, none, none, ∅⟩ (.int 1) (.str original)
        (.str (ofString "b")) (.str [])) := by
  refine ⟨ofString "aaa", ofString "aa", by decide, fun h => ?_⟩
  rw [proposeEdit_once rfl rfl (by decide) (by decide)] at h
  obtain ⟨syntaxError, hok, -⟩ := recordProposal_ok not_checkRaises_plainPython
  obtain ⟨i, -, honly⟩ := h.recorded_iff.1 ⟨syntaxError, hok⟩
  have hfirst : 0 = i := honly 0 (by decide)
  have hsecond : 1 = i := honly 1 (by decide)
  omega

end Concord.Agent
