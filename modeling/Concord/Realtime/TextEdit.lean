import Concord.Base.Splice
import Concord.Realtime.Crdt
import Mathlib

/-!
# Replacing a text by a minimal edit

`text_edit_update` scans code points for the common prefix and suffix, while the positions of a
pycrdt text count UTF-8 bytes. The scan finds the smallest edit (`diff`); carried out at byte
positions it gives the target text exactly when it fits (`restores_iff`).
-/

namespace Concord

open Concord.Base

namespace Pycrdt

variable {U B : Type} [DecidableEq U] (C : Pycrdt U B)

/-- What the code relies on of edits of a text: positions count UTF-8 bytes, an edit inside a
character or beyond the end raises, and the update since before an edit carries it over. -/
structure CountsBytes : Prop where
  text_delete : ∀ doc start stop, (C.delete doc start stop).map C.text =
    removeBetween Char.utf8Size (C.text doc) start stop
  text_insert : ∀ doc start new, (C.insert doc start new).map C.text =
    insertAt Char.utf8Size (C.text doc) start new
  subset_delete : ∀ doc start stop edited, C.delete doc start stop = some edited → doc ⊆ edited
  subset_insert : ∀ doc start new edited, C.insert doc start new = some edited → doc ⊆ edited
  updateSince : ∀ doc edited, doc ⊆ edited → ∃ added,
    C.decode (C.updateSince edited (C.stateVector doc)) = some added ∧ doc ∪ added = edited

/-! ## The scan -/

section Scan

variable {α : Type} [DecidableEq α] {old new : List α}

theorem skipPrefix_eq {rest start : Nat} (h : start + rest = min old.length new.length) :
    skipPrefix old new rest start =
      start + (commonPrefix (old.drop start) (new.drop start)).length := by
  induction rest generalizing start with
  | zero =>
    have hnil : old.drop start = [] ∨ new.drop start = [] := by
      simp only [List.drop_eq_nil_iff]
      omega
    rcases hnil with hnil | hnil
    · simp [skipPrefix, hnil]
    · simp [skipPrefix, hnil]
  | succ rest ih =>
    have hold : start < old.length := by omega
    have hnew : start < new.length := by omega
    rw [skipPrefix, List.drop_eq_getElem_cons hold, List.drop_eq_getElem_cons hnew, commonPrefix]
    by_cases heq : old[start] = new[start]
    · rw [if_pos heq, if_pos (by simp [hold, hnew, heq]), ih (by omega), List.length_cons]
      omega
    · rw [if_neg heq, if_neg (by simpa [hold, hnew] using heq), List.length_nil, Nat.add_zero]

omit [DecidableEq α] in
theorem drop_take_succ {l : List α} {start stop : Nat} (hstart : start ≤ stop)
    (hstop : stop < l.length) :
    (l.take (stop + 1)).drop start = (l.take stop).drop start ++ [l[stop]] := by
  rw [List.take_succ_eq_append_getElem hstop, List.drop_append_of_le_length]
  rw [List.length_take]
  omega

theorem trimSuffix_eq {start endOld endNew : Nat} (hold : endOld ≤ old.length)
    (hnew : endNew ≤ new.length) :
    trimSuffix old new start endOld endNew =
      (endOld - (commonSuffix ((old.take endOld).drop start) ((new.take endNew).drop start)).length,
        endNew -
          (commonSuffix ((old.take endOld).drop start) ((new.take endNew).drop start)).length) := by
  induction endOld generalizing endNew with
  | zero => simp [trimSuffix]
  | succ endOld ih =>
    cases endNew with
    | zero => simp [trimSuffix]
    | succ endNew =>
      rw [trimSuffix]
      by_cases hso : start ≤ endOld
      · by_cases hsn : start ≤ endNew
        · rw [drop_take_succ hso hold, drop_take_succ hsn hnew, commonSuffix_concat]
          by_cases heq : old[endOld] = new[endNew]
          · have hcond : start < endOld + 1 ∧ start < endNew + 1 ∧ old[endOld]? = new[endNew]? :=
              ⟨by omega, by omega, by simp [List.getElem?_eq_getElem hold,
                List.getElem?_eq_getElem hnew, heq]⟩
            rw [if_pos hcond, if_pos heq, ih (by omega) (by omega), List.length_append,
              List.length_singleton]
            simp only [Nat.add_sub_add_right]
          · have hcond : ¬(start < endOld + 1 ∧ start < endNew + 1 ∧
                old[endOld]? = new[endNew]?) := by
              simp [List.getElem?_eq_getElem hold, List.getElem?_eq_getElem hnew, heq]
            rw [if_neg hcond, if_neg heq]
            rfl
        · have hnil : (new.take (endNew + 1)).drop start = [] := by
            rw [List.drop_eq_nil_iff, List.length_take]
            omega
          rw [if_neg (by omega), hnil, commonSuffix_nil_right]
          rfl
      · have hnil : (old.take (endOld + 1)).drop start = [] := by
          rw [List.drop_eq_nil_iff, List.length_take]
          omega
        rw [if_neg (by omega), hnil, commonSuffix_nil_left]
        rfl

theorem start_eq : skipPrefix old new (min old.length new.length) 0 = (diff old new).kept.length := by
  rw [skipPrefix_eq (Nat.zero_add _), Nat.zero_add]
  rfl

theorem ends_eq : trimSuffix old new (diff old new).kept.length old.length new.length =
    ((diff old new).kept.length + (diff old new).removed.length,
      (diff old new).kept.length + (diff old new).inserted.length) := by
  have hold := congrArg List.length (diff_old old new)
  have hnew := congrArg List.length (diff_new old new)
  have hrest : commonSuffix (old.drop (diff old new).kept.length)
      (new.drop (diff old new).kept.length) = (diff old new).rest := rfl
  rw [trimSuffix_eq (Nat.le_refl _) (Nat.le_refl _), List.take_length, List.take_length, hrest]
  simp only [List.length_append] at hold hnew
  rw [Prod.mk.injEq]
  omega

variable (old new) in
theorem inserted_eq : (new.drop (diff old new).kept.length).take (diff old new).inserted.length =
    (diff old new).inserted := by
  have hdrop : new.drop (diff old new).kept.length =
      (diff old new).inserted ++ (diff old new).rest := by
    have h := congrArg (List.drop (diff old new).kept.length) (diff_new old new)
    rw [← h, List.drop_left]
  rw [hdrop]
  exact List.take_left

/-- `start`, `end_old` and `end_new` of `text_edit_update`. -/
def editBounds (old new : List α) : Nat × Nat × Nat :=
  let start := skipPrefix old new (min old.length new.length) 0
  let (endOld, endNew) := trimSuffix old new start old.length new.length
  (start, endOld, endNew)

theorem editBounds_eq (old new : List α) : editBounds old new =
    ((diff old new).kept.length, (diff old new).kept.length + (diff old new).removed.length,
      (diff old new).kept.length + (diff old new).inserted.length) := by
  unfold editBounds
  rw [start_eq]
  dsimp only
  rw [ends_eq]

omit [DecidableEq α] in
/-- What an edit between the kept parts does. -/
theorem edit_of_split {kept removed inserted rest : List α} (hold : kept ++ (removed ++ rest) = old)
    (hnew : kept ++ (inserted ++ rest) = new) :
    old.take kept.length ++ ((new.take (kept.length + inserted.length)).drop kept.length ++
        old.drop (kept.length + removed.length)) = new ∧
      old.take kept.length = new.take kept.length ∧
      old.drop (kept.length + removed.length) = new.drop (kept.length + inserted.length) := by
  subst hold hnew
  rw [List.take_left, List.take_left, List.drop_length_add_append, List.drop_length_add_append, List.drop_left,
    List.drop_left, List.take_length_add_append, List.take_left, List.drop_left]
  exact ⟨rfl, rfl, rfl⟩

/-- **The edit of `text_edit_update` is minimal.** It is between places of both texts, the texts agree before and
after it, it turns the old text into the new one, and no other replacement of one part that does so deletes and
inserts less. -/
theorem editBounds_minimal (old new : List α) :
    let (start, endOld, endNew) := editBounds old new
    (start ≤ endOld ∧ endOld ≤ old.length) ∧ (start ≤ endNew ∧ endNew ≤ new.length) ∧
      old.take start ++ ((new.take endNew).drop start ++ old.drop endOld) = new ∧
      old.take start = new.take start ∧ old.drop endOld = new.drop endNew ∧
      ∀ kept removed inserted rest, kept ++ (removed ++ rest) = old → kept ++ (inserted ++ rest) = new →
        (endOld - start) + (endNew - start) ≤ removed.length + inserted.length := by
  rw [editBounds_eq]
  dsimp only
  have hold := congrArg List.length (diff_old old new)
  have hnew := congrArg List.length (diff_new old new)
  simp only [List.length_append] at hold hnew
  obtain ⟨hedit, hbefore, hafter⟩ := edit_of_split (diff_old old new) (diff_new old new)
  refine ⟨⟨by omega, by omega⟩, ⟨by omega, by omega⟩, hedit, hbefore, hafter, ?_⟩
  intro kept removed inserted rest hold hnew
  rw [Nat.add_sub_cancel_left, Nat.add_sub_cancel_left]
  exact diff_minimal hold hnew

/-- One character is inserted. -/
theorem editBounds_minimal_insert :
    editBounds "abc\nKEEP\nxyz\n".toList "abc\nKEEP!\nxyz\n".toList = (8, 8, 9) ∧
      ∀ kept removed inserted rest, kept ++ (removed ++ rest) = "abc\nKEEP\nxyz\n".toList →
        kept ++ (inserted ++ rest) = "abc\nKEEP!\nxyz\n".toList → 1 ≤ removed.length + inserted.length := by
  have hbounds : editBounds "abc\nKEEP\nxyz\n".toList "abc\nKEEP!\nxyz\n".toList = (8, 8, 9) := by decide
  have hminimal := editBounds_minimal "abc\nKEEP\nxyz\n".toList "abc\nKEEP!\nxyz\n".toList
  rw [hbounds] at hminimal
  exact ⟨hbounds, hminimal.2.2.2.2.2⟩

end Scan

/-! ## The edit -/

variable {C} {doc : Finset U} {target : List Char}

theorem subset_editScratch (hC : C.CountsBytes) {edited : Finset U} {start endOld endNew : Nat}
    (h : C.editScratch doc target start endOld endNew = some edited) : doc ⊆ edited := by
  unfold editScratch at h
  obtain ⟨cut, hcut, hedit⟩ := Option.bind_eq_some_iff.1 h
  have hdoc : doc ⊆ cut := by
    split at hcut
    · exact hC.subset_delete _ _ _ _ hcut
    · cases hcut
      exact fun _ hu => hu
  split at hedit
  · exact hdoc.trans (hC.subset_insert _ _ _ _ hedit)
  · cases hedit
    exact hdoc

/-- The scratch document's text is edited at byte positions. -/
theorem text_editScratch (hC : C.CountsBytes) {kept inserted : List Char} {stop : Nat}
    (hins : (target.drop kept.length).take inserted.length = inserted) :
    (C.editScratch doc target kept.length stop (kept.length + inserted.length)).map C.text =
      editAt Char.utf8Size (C.text doc) kept.length stop inserted := by
  have hinsert : ∀ cut : Finset U,
      (if kept.length < kept.length + inserted.length then
        C.insert cut kept.length
          ((target.drop kept.length).take (kept.length + inserted.length - kept.length))
        else some cut).map C.text =
      if inserted.isEmpty then some (C.text cut)
      else insertAt Char.utf8Size (C.text cut) kept.length inserted := by
    intro cut
    rw [Nat.add_sub_cancel_left, hins]
    cases inserted with
    | nil => simp
    | cons c inserted => simpa using hC.text_insert cut kept.length (c :: inserted)
  unfold editScratch editAt
  by_cases hlt : kept.length < stop
  · rw [if_pos hlt, if_pos hlt, ← hC.text_delete]
    cases C.delete doc kept.length stop with
    | none => rfl
    | some cut => exact hinsert cut
  · rw [if_neg hlt, if_neg hlt]
    exact hinsert doc

/-- An update that changes something carries over the edit between those bounds. -/
theorem textEditUpdate_eq (hne : C.text doc ≠ target) : C.textEditUpdate doc target =
    (C.editScratch doc target (editBounds (C.text doc) target).1 (editBounds (C.text doc) target).2.1
      (editBounds (C.text doc) target).2.2).elim (.error .other) fun edited =>
        .ok (some (C.updateSince edited (C.stateVector doc))) := by
  unfold textEditUpdate editBounds
  rw [if_neg hne]
  simp only [docFromBytes_docToBytes, Option.getD_some]
  split
  · next hedit => rw [hedit]; rfl
  · next hedit => rw [hedit]; rfl

/-- Applying the update of an edit gives `text`. -/
def Gives (C : Pycrdt U B) (doc : Finset U) (target text : List Char) : Prop :=
  ∃ update added, C.textEditUpdate doc target = .ok (some update) ∧ C.decode update = some added ∧
    C.text (doc ∪ added) = text

theorem gives_iff (hC : C.CountsBytes) (hne : C.text doc ≠ target) {text : List Char} :
    C.Gives doc target text ↔
      editAt Char.utf8Size (C.text doc) (diff (C.text doc) target).kept.length
        ((diff (C.text doc) target).kept.length + (diff (C.text doc) target).removed.length)
        (diff (C.text doc) target).inserted = some text := by
  rw [← text_editScratch hC (inserted_eq (C.text doc) _)]
  have hrun := textEditUpdate_eq hne
  rw [editBounds_eq] at hrun
  dsimp only at hrun
  unfold Gives
  rw [hrun]
  cases hedit : C.editScratch doc target _ _ _ with
  | none => simp
  | some edited =>
    obtain ⟨added, hdecode, hunion⟩ := hC.updateSince doc edited (subset_editScratch hC hedit)
    simp only [Option.elim_some, Except.ok.injEq, Option.some.injEq, Option.map_some]
    constructor
    · rintro ⟨update, added', rfl, hdecode', htext⟩
      rw [hdecode] at hdecode'
      cases hdecode'
      rwa [hunion] at htext
    · intro htext
      exact ⟨_, added, rfl, hdecode, by rwa [hunion]⟩

/-- Restoring `target` does what it should to a document, the room's or an editor's copy: there is no
update if it has this text, and else an update that gives it. -/
def Restores (C : Pycrdt U B) (doc : Finset U) (target : List Char) : Prop :=
  match C.textEditUpdate doc target with
  | .ok none => C.text doc = target
  | .ok (some update) =>
    C.text doc ≠ target ∧ ∃ added, C.decode update = some added ∧ C.text (doc ∪ added) = target
  | .error _ => False

theorem restores_iff_gives (hne : C.text doc ≠ target) :
    C.Restores doc target ↔ C.Gives doc target target := by
  unfold Restores Gives
  cases C.textEditUpdate doc target with
  | error e => simp
  | ok update =>
    cases update with
    | none => simp [hne]
    | some update => simp [hne]

end Pycrdt

/-! ## A document that keeps its past texts -/

/-- A document's updates as its successive texts, each with its number. -/
abbrev Revision := ℕ ×ₗ List Char

/-- The last revision of a document. -/
def lastRevision (doc : Finset Revision) : Revision := doc.max.unbotD (toLex (0, []))

def latestText (doc : Finset Revision) : List Char := (ofLex (lastRevision doc)).2

/-- The document with one more text. -/
def revise (doc : Finset Revision) (text : List Char) : Finset Revision :=
  insert (toLex ((ofLex (lastRevision doc)).1 + 1, text)) doc

theorem latestText_revise (doc : Finset Revision) (text : List Char) :
    latestText (revise doc text) = text := by
  have hmem : (toLex ((ofLex (lastRevision doc)).1 + 1, text) : Revision) ∈ revise doc text :=
    Finset.mem_insert_self _ _
  have hle : ∀ x ∈ revise doc text,
      x ≤ (toLex ((ofLex (lastRevision doc)).1 + 1, text) : Revision) := by
    intro x hx
    rcases Finset.mem_insert.1 hx with rfl | hx
    · exact le_rfl
    · obtain ⟨m, hm⟩ := Finset.max_of_mem hx
      have hlast : lastRevision doc = m := by rw [lastRevision, hm, WithBot.unbotD_coe]
      refine le_of_lt (Prod.Lex.lt_iff.2 (.inl ?_))
      rw [hlast]
      exact Nat.lt_succ_of_le (Prod.Lex.monotone_fst _ _ (Finset.le_max_of_eq hx hm))
  have hmax : (revise doc text).max =
      ((toLex ((ofLex (lastRevision doc)).1 + 1, text) : Revision) : WithBot Revision) :=
    le_antisymm (Finset.max_le fun x hx => WithBot.coe_le_coe.2 (hle x hx)) (Finset.le_max hmem)
  rw [latestText, lastRevision, hmax, WithBot.unbotD_coe]
  rfl

/-- Texts edited at byte positions, with documents that keep all of them. -/
def revisions : Pycrdt Revision (Finset Revision) where
  encode doc := doc
  decode payload := some payload
  truthy _ := true
  stateVector doc := doc
  updateSince doc before := doc \ before
  text := latestText
  delete doc start stop := (removeBetween Char.utf8Size (latestText doc) start stop).map (revise doc)
  insert doc start new := (insertAt Char.utf8Size (latestText doc) start new).map (revise doc)
  decode_encode _ := rfl
  truthy_encode _ := rfl

theorem revisions_countsBytes : revisions.CountsBytes where
  text_delete doc start stop := by
    have hid : latestText ∘ revise doc = id := funext (latestText_revise doc)
    simp [revisions, hid]
  text_insert doc start new := by
    have hid : latestText ∘ revise doc = id := funext (latestText_revise doc)
    simp [revisions, hid]
  subset_delete doc start stop edited h := by
    obtain ⟨text, -, rfl⟩ := Option.map_eq_some_iff.1 h
    exact Finset.subset_insert _ _
  subset_insert doc start new edited h := by
    obtain ⟨text, -, rfl⟩ := Option.map_eq_some_iff.1 h
    exact Finset.subset_insert _ _
  updateSince doc edited h := ⟨edited \ doc, rfl, Finset.union_sdiff_of_subset h⟩

/-- The document of a text just typed. -/
def typed (text : String) : Finset Revision := {toLex (0, text.toList)}

end Concord
