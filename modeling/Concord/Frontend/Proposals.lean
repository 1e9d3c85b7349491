import Concord.Base.Matches
import Concord.Base.Splice
import Concord.Frontend.Utf16
import Concord.Models

/-!
# Accepting a proposal

`applyProposal` of `Editor.tsx`: it looks for the original text in what the file has by now and replaces it there. It
takes the first occurrence. Where collaborators have brought in another one in the meantime, this need not be the one
that was reviewed (`accept_changes_only_reviewed`).
-/

namespace Concord

open Concord.Base

/-- `AIProposal`, as the browser has it. -/
structure AIProposal where
  fileId : Option FileId
  originalText : List Char
  proposedText : List Char
  explanation : Option (List Char)
  syntaxOk : Bool

/-- What `applyProposal` reads and writes: `file`, the `Y.Text` of the connection, if there is one, the properties of
the editor, and the messages shown. -/
structure Editor where
  file : FileId
  text : Option (List Char)
  canApply : Bool
  incomingProposal : Option AIProposal
  toasts : List String

/-- What a collaborator does: the text between two positions is replaced. -/
structure Edit where
  start : Nat
  stop : Nat
  new : List Char

/-- The text after an edit. -/
def Edit.apply (text : List Char) (edit : Edit) : List Char :=
  text.take edit.start ++ edit.new ++ text.drop (max edit.start edit.stop)

/-- The units of a character, by which positions in a `Y.Text` count. -/
def width (c : Char) : Nat := (charUnits c).length

namespace Editor

variable (editor : Editor)

/-- The editor after the edits of collaborators. -/
def edited (edits : List Edit) : Editor := { editor with text := editor.text.map fun text => edits.foldl Edit.apply text }

/-- `proposal`. -/
def proposal : Option AIProposal :=
  editor.incomingProposal.filter fun proposal => proposal.fileId = none ∨ proposal.fileId = some editor.file

/-- `applyBlockedReason`. -/
def applyBlockedReason : Option String :=
  if !editor.canApply then some "Only editors can apply changes"
  else if editor.proposal.any fun proposal => !proposal.syntaxOk then some "This change would not parse"
  else none

/-- `closeProposal`. -/
def closeProposal : Editor := { editor with incomingProposal := none }

/-- `delete` and `insert` of a `Y.Text`, in one transaction. -/
def replaceAt (text : List Char) (index length : Nat) (new : List Char) : Option (List Char) :=
  (removeBetween width text index (index + length)).bind fun text => insertAt width text index new

/-- `applyProposal`. -/
def applyProposal : Editor :=
  match editor.proposal, editor.text, editor.applyBlockedReason with
  | some proposal, some text, none =>
    match indexOf? (units proposal.originalText) (units text) with
    | some index =>
      match replaceAt text index (units proposal.originalText).length proposal.proposedText with
      | some text => { editor with text := some text }.closeProposal
      -- only for a position that is in the middle of a surrogate pair
      | none => editor
    | none =>
      { editor with
        toasts := editor.toasts ++ [("Could not find the original text to replace. " ++
          "The file may have changed since the AI read it.")] }.closeProposal
  | _, _, _ => editor

end Editor

/-! ## Positions -/

section Positions

variable {text sub before after new : List Char}

theorem weight_width (text : List Char) : weight width text = (units text).length := by
  induction text with
  | nil => rfl
  | cons c text ih => rw [weight_cons, ih, units_cons, List.length_append, width]

theorem one_le_width (c : Char) : 1 ≤ width c := List.length_pos_iff.2 (charUnits_ne_nil c)

/-- A text is first found in the units of another one where it is first found in its characters. -/
theorem indexOf?_units (sub text : List Char) : indexOf? (units sub) (units text) =
    (indexOf? sub text).map fun i => (units (text.take i)).length := by
  cases hindex : indexOf? sub text with
  | none =>
    have hnone := indexOf?_eq_none_iff.1 hindex
    have hsub : sub ≠ [] := fun h => hnone 0 ⟨Nat.zero_le _, h ▸ List.nil_prefix⟩
    refine indexOf?_eq_none_iff.2 fun k hk => ?_
    obtain ⟨before, after, hsplit, -⟩ := exists_of_units_prefix_drop hsub hk.2
    exact hnone before.length (occursAt_iff.2 ⟨before, after, hsplit, rfl⟩)
  | some i =>
    obtain ⟨hi, hfirst⟩ := indexOf?_eq_some_iff.1 hindex
    obtain ⟨before, after, rfl, rfl⟩ := occursAt_iff.1 hi
    rw [Option.map_some, List.take_left]
    refine indexOf?_eq_some_iff.2 ⟨occursAt_iff.2 ⟨units before, units after, ?_, rfl⟩, fun k hk hat => ?_⟩
    · rw [units_append, units_append]
    · by_cases hsub : sub = []
      · -- the empty text is found at the beginning
        have hbefore : before = [] := by
          by_contra hne
          exact hfirst 0 (List.length_pos_iff.2 hne) ⟨Nat.zero_le _, hsub ▸ List.nil_prefix⟩
        rw [hbefore] at hk
        exact Nat.not_lt_zero k hk
      · obtain ⟨before', after', hsplit, rfl⟩ := exists_of_units_prefix_drop hsub hat.2
        have hle : before.length ≤ before'.length := Nat.le_of_not_lt fun hlt =>
          hfirst before'.length hlt (occursAt_iff.2 ⟨before', after', hsplit, rfl⟩)
        have hstarts : before <+: before' :=
          List.prefix_of_prefix_length_le (List.prefix_append _ _) ⟨sub ++ after', hsplit.symm⟩ hle
        exact Nat.not_lt.2 (units_prefix_iff.2 hstarts).length_le hk

/-- Replacing what is at a position. -/
theorem replaceAt_eq (before sub after new : List Char) :
    Editor.replaceAt (before ++ (sub ++ after)) (units before).length (units sub).length new =
      some (before ++ (new ++ after)) := by
  have hremove : removeBetween width (before ++ (sub ++ after)) (units before).length
      ((units before).length + (units sub).length) = some (before ++ after) := by
    refine (removeBetween_eq_some_iff one_le_width).2 ⟨before, sub, after, rfl, weight_width before, ?_, rfl⟩
    rw [weight_width, Nat.add_sub_cancel_left]
  have hinsert : insertAt width (before ++ after) (units before).length new = some (before ++ (new ++ after)) := by
    refine (insertAt_eq_some_iff one_le_width).2 ⟨before, after, rfl, weight_width before, ?_⟩
    rw [List.append_assoc]
  rw [Editor.replaceAt, hremove]
  exact hinsert

end Positions

/-! ## Accept -/

section Accept

variable {editor : Editor} {proposal : AIProposal} {text : List Char}

/-- The text that stands once is replaced, and nothing else is. -/
structure ChangesOnlyReviewed (proposal : AIProposal) (text text' : List Char) : Prop where
  once : OccursOnce proposal.originalText text → ∀ before after,
    text = before ++ (proposal.originalText ++ after) → text' = before ++ (proposal.proposedText ++ after)
  otherwise : ¬OccursOnce proposal.originalText text → text' = text

/-- The original stands at one position at most. -/
def OccursAtMostOnce (sub text : List Char) : Prop := ∀ i j, OccursAt sub text i → OccursAt sub text j → i = j

theorem replaceFirst_of_none {sub new : List Char} (h : indexOf? sub text = none) : replaceFirst sub new text = text := by
  rw [replaceFirst, h]

/-- Accept replaces the first occurrence. -/
theorem text_applyProposal (htext : editor.text = some text) (hproposal : editor.proposal = some proposal)
    (hreason : editor.applyBlockedReason = none) :
    editor.applyProposal.text = some (replaceFirst proposal.originalText proposal.proposedText text) := by
  unfold Editor.applyProposal
  rw [htext, hproposal, hreason]
  dsimp only
  rw [indexOf?_units]
  cases hindex : indexOf? proposal.originalText text with
  | none =>
    rw [replaceFirst_of_none hindex]
    rfl
  | some i =>
    obtain ⟨hi, hfirst⟩ := indexOf?_eq_some_iff.1 hindex
    obtain ⟨before, after, rfl, rfl⟩ := occursAt_iff.1 hi
    rw [Option.map_some, List.take_left, replaceFirst_of_first rfl hfirst]
    dsimp only
    rw [replaceAt_eq]
    rfl

/-- A proposal that cannot be accepted changes nothing. -/
theorem applyProposal_blocked (h : editor.proposal = none ∨ editor.text = none ∨ editor.applyBlockedReason ≠ none) :
    editor.applyProposal = editor := by
  unfold Editor.applyProposal
  split
  · next hproposal htext hreason =>
    rcases h with h | h | h
    · cases hproposal.symm.trans h
    · cases htext.symm.trans h
    · exact absurd hreason h
  · rfl

/-- Replacing the first occurrence is what was reviewed, unless it changes one of several occurrences. -/
theorem changesOnlyReviewed_iff :
    ChangesOnlyReviewed proposal text (replaceFirst proposal.originalText proposal.proposedText text) ↔
      OccursAtMostOnce proposal.originalText text ∨ proposal.proposedText = proposal.originalText := by
  cases hindex : indexOf? proposal.originalText text with
  | none =>
    have hnone := indexOf?_eq_none_iff.1 hindex
    rw [replaceFirst_of_none hindex]
    refine iff_of_true ⟨?_, fun _ => rfl⟩ (.inl fun i j hi => absurd hi (hnone i))
    rintro ⟨i, hi, -⟩
    exact absurd hi (hnone i)
  | some i =>
    obtain ⟨hi, hfirst⟩ := indexOf?_eq_some_iff.1 hindex
    obtain ⟨before, after, hsplit, rfl⟩ := occursAt_iff.1 hi
    rw [replaceFirst_of_first hsplit hfirst]
    by_cases honce : OccursOnce proposal.originalText text
    · refine iff_of_true ⟨fun _ before' after' hsplit' => ?_, fun h => absurd honce h⟩
        (.inl fun i j hi hj => honce.unique hi hj)
      obtain ⟨rfl, rfl⟩ := honce.before_eq hsplit hsplit'
      rfl
    · have hmany : ¬OccursAtMostOnce proposal.originalText text := fun h =>
        honce ⟨before.length, hi, fun j hj => h j before.length hj hi⟩
      rw [or_iff_right hmany]
      constructor
      · intro h
        have hsame := (h.otherwise honce).trans hsplit
        exact List.append_cancel_right (List.append_cancel_left hsame)
      · intro h
        exact ⟨fun h => absurd h honce, fun _ => by rw [h, hsplit]⟩

/-- **Accept changes only what was reviewed** exactly where the original stands, after all edits since the proposal,
at one position at most, or the proposal changes nothing. -/
theorem accept_changes_only_reviewed (editor : Editor) (edits : List Edit) (htext : editor.text = some text)
    (hproposal : editor.proposal = some proposal) (hreason : editor.applyBlockedReason = none) :
    ∃ text', (editor.edited edits).applyProposal.text = some text' ∧
      (ChangesOnlyReviewed proposal (edits.foldl Edit.apply text) text' ↔
        OccursAtMostOnce proposal.originalText (edits.foldl Edit.apply text) ∨
          proposal.proposedText = proposal.originalText) := by
  have hedited : (editor.edited edits).text = some (edits.foldl Edit.apply text) := by
    rw [Editor.edited, htext]
    rfl
  exact ⟨_, text_applyProposal hedited hproposal hreason, changesOnlyReviewed_iff⟩

end Accept

/-- An editor with a proposal for a call in its text. -/
def proposing : Editor where
  file := 2
  text := some "x = range(n)".toList
  canApply := true
  incomingProposal := some
    { fileId := some 2
      originalText := "range(n)".toList
      proposedText := "range(n + 1)".toList
      explanation := none
      syntaxOk := true }
  toasts := []

/-- A proposal that is accepted after a line was added. -/
theorem accept_changes_only_reviewed_line : ∃ text' proposal, proposing.proposal = some proposal ∧
    (proposing.edited [⟨0, 0, "n = 3\n".toList⟩]).applyProposal.text = some text' ∧
      ChangesOnlyReviewed proposal "n = 3\nx = range(n)".toList text' := by
  obtain ⟨text', htext', hiff⟩ := accept_changes_only_reviewed proposing [⟨0, 0, "n = 3\n".toList⟩] rfl rfl rfl
  have hall : ∀ i < 19, OccursAt "range(n)".toList "n = 3\nx = range(n)".toList i → i = 10 := by decide
  have hone : ∀ i, OccursAt "range(n)".toList "n = 3\nx = range(n)".toList i → i = 10 := fun i hi =>
    hall i (Nat.lt_succ_of_le hi.1) hi
  exact ⟨text', _, rfl, htext', hiff.2 (.inl fun i j hi hj => (hone i hi).trans (hone j hj).symm)⟩

/-- A proposal that is accepted after a line with the same call was added before the one that was reviewed. -/
theorem accept_changes_another_call : ∃ text proposal edits text',
    proposing.text = some text ∧ proposing.proposal = some proposal ∧ OccursOnce proposal.originalText text ∧
      (proposing.edited edits).applyProposal.text = some text' ∧
        ¬ChangesOnlyReviewed proposal (edits.foldl Edit.apply text) text' := by
  have hall : ∀ i < 13, OccursAt "range(n)".toList "x = range(n)".toList i → i = 4 := by decide
  have honce : OccursOnce "range(n)".toList "x = range(n)".toList :=
    ⟨4, by decide, fun i hi => hall i (Nat.lt_succ_of_le hi.1) hi⟩
  refine ⟨_, _, [⟨0, 0, "y = range(n)\n".toList⟩], _, rfl, rfl, honce, text_applyProposal rfl rfl rfl, fun h => ?_⟩
  rcases changesOnlyReviewed_iff.1 h with hmost | hsame
  · exact absurd (hmost 4 17 (by decide) (by decide)) (by decide)
  · exact absurd hsame (by decide)

end Concord
