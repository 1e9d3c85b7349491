import Concord.Models
import Mathlib

/-!
# Documents and their stored versions

What the code relies on of pycrdt: a document is the set of updates applied to it, and its bytes
encode that set. On top of it the helpers of `realtime/crdt.py`, the edit computed by
`text_edit_update`, and the rows of `document_versions`.
-/

namespace Concord

/-- The CRDT library, with documents as sets of updates `U` and byte strings `B`. -/
structure Pycrdt (U B : Type) [DecidableEq U] where
  /-- `doc.get_update()`. -/
  encode : Finset U → B
  /-- The updates that `doc.apply_update` adds; `none` if it raises. -/
  decode : B → Option (Finset U)
  /-- Whether the byte string is non-empty. -/
  truthy : B → Bool
  /-- `doc.get_state()`. -/
  stateVector : Finset U → B
  /-- `doc.get_update(state_vector)`. -/
  updateSince : Finset U → B → B
  /-- `str(text)`. -/
  text : Finset U → List Char
  /-- The document after `del text[start:end]`; `none` if it raises. -/
  delete : Finset U → Nat → Nat → Option (Finset U)
  /-- The document after `text.insert(start, new)`; `none` if it raises. -/
  insert : Finset U → Nat → List Char → Option (Finset U)
  decode_encode : ∀ doc, decode (encode doc) = some doc
  truthy_encode : ∀ doc, truthy (encode doc) = true

/-- A row of `document_versions`, of one file. -/
structure Version (B : Type) where
  versionNumber : Nat
  snapshotBytes : B
  createdAt : Seconds
  savedBy : Option UserId := none
deriving DecidableEq, Repr

namespace Pycrdt

variable {U B : Type} [DecidableEq U] (C : Pycrdt U B)

/-- `doc_from_bytes`; `none` if the payload is not an update. -/
def docFromBytes (payload : B) : Option (Finset U) :=
  if C.truthy payload then C.decode payload else some ∅

/-- `doc_to_bytes`. -/
def docToBytes (doc : Finset U) : B := C.encode doc

@[simp] theorem docFromBytes_docToBytes (doc : Finset U) :
    C.docFromBytes (C.docToBytes doc) = some doc := by
  simp [docFromBytes, docToBytes, C.truthy_encode, C.decode_encode]

/-! ## `text_edit_update` -/

/-- The loop that skips the common prefix, with `rest` characters left to compare. -/
def skipPrefix {α : Type} [DecidableEq α] (old new : List α) : Nat → Nat → Nat
  | 0, start => start
  | rest + 1, start => if old[start]? = new[start]? then skipPrefix old new rest (start + 1) else start

/-- The loop that cuts the common suffix off both texts. -/
def trimSuffix {α : Type} [DecidableEq α] (old new : List α) (start : Nat) : Nat → Nat → Nat × Nat
  | endOld + 1, endNew + 1 =>
    if start < endOld + 1 ∧ start < endNew + 1 ∧ old[endOld]? = new[endNew]? then
      trimSuffix old new start endOld endNew
    else (endOld + 1, endNew + 1)
  | endOld, endNew => (endOld, endNew)

/-- The transaction of `text_edit_update` on its scratch document; `none` if it raises. -/
def editScratch (scratch : Finset U) (newText : List Char) (start endOld endNew : Nat) :
    Option (Finset U) :=
  (if start < endOld then C.delete scratch start endOld else some scratch).bind fun cut =>
    if start < endNew then C.insert cut start ((newText.drop start).take (endNew - start))
    else some cut

/-- `text_edit_update`: an update turning the room's text into `newText` with one minimal edit;
`none` if nothing changes. -/
def textEditUpdate (doc : Finset U) (newText : List Char) : Except PyError (Option B) :=
  let old := C.text doc
  if old = newText then .ok none
  else
    let limit := min old.length newText.length
    let start := skipPrefix old newText limit 0
    let (endOld, endNew) := trimSuffix old newText start old.length newText.length
    let scratch := (C.docFromBytes (C.docToBytes doc)).getD ∅
    let before := C.stateVector scratch
    match C.editScratch scratch newText start endOld endNew with
    | some edited => .ok (some (C.updateSince edited before))
    | none => .error .other

/-! ## Versions -/

/-- The document a version restores to. -/
def content (v : Version B) : Finset U := (C.docFromBytes v.snapshotBytes).getD ∅

/-- The row with the highest number (`ORDER BY version_number DESC LIMIT 1`). -/
def latest (rows : List (Version B)) : Option (Version B) :=
  rows.foldl (fun best v =>
    match best with
    | none => some v
    | some b => if b.versionNumber < v.versionNumber then some v else some b) none

/-- The document that the latest version restores to; empty if there is none. -/
def latestContent (rows : List (Version B)) : Finset U :=
  ((latest rows).map C.content).getD ∅

/-- A file's history goes forward: its rows stand in the order of their numbers, and each holds
every update of those before it. -/
structure Forward (rows : List (Version B)) : Prop where
  encoded : ∀ v ∈ rows, ∃ doc, v.snapshotBytes = C.docToBytes doc
  grows : rows.Pairwise fun v w => v.versionNumber < w.versionNumber ∧ C.content v ⊆ C.content w

variable {C} {rows : List (Version B)} {v : Version B}

theorem content_of_encoded {doc : Finset U} (h : v.snapshotBytes = C.docToBytes doc) :
    C.content v = doc := by
  rw [content, h, docFromBytes_docToBytes, Option.getD_some]

theorem latest_concat : latest (rows ++ [v]) =
    match latest rows with
    | none => some v
    | some b => if b.versionNumber < v.versionNumber then some v else some b := by
  simp [latest]

theorem latest_eq_none_iff : latest rows = none ↔ rows = [] := by
  induction rows using List.reverseRecOn with
  | nil => simp [latest]
  | append_singleton l v _ =>
    rw [latest_concat]
    cases latest l with
    | none => simp
    | some b =>
      simp only [List.append_eq_nil_iff, List.cons_ne_self, and_false, iff_false]
      split <;> simp

theorem mem_of_latest (h : latest rows = some v) : v ∈ rows := by
  induction rows using List.reverseRecOn generalizing v with
  | nil => cases h
  | append_singleton l w ih =>
    rw [latest_concat] at h
    cases hl : latest l with
    | none =>
      rw [hl] at h
      cases h
      simp
    | some b =>
      rw [hl] at h
      dsimp only at h
      split at h
      · cases h
        simp
      · cases h
        exact List.mem_append_left _ (ih hl)

namespace Forward

theorem nil : C.Forward [] := ⟨nofun, .nil⟩

/-- The latest row of a history is its last. -/
theorem latest_concat (h : C.Forward (rows ++ [v])) : latest (rows ++ [v]) = some v := by
  rw [Pycrdt.latest_concat]
  cases hl : latest rows with
  | none => rfl
  | some b =>
    have hlt := (List.pairwise_append.1 h.grows).2.2 b (mem_of_latest hl) v (by simp)
    exact if_pos hlt.1

/-- The latest row holds every update of every row. -/
theorem subset_latestContent (h : C.Forward rows) (hv : v ∈ rows) :
    C.content v ⊆ C.latestContent rows := by
  induction rows using List.reverseRecOn with
  | nil => cases hv
  | append_singleton l w _ =>
    rw [latestContent, h.latest_concat, Option.map_some, Option.getD_some]
    rcases List.mem_append.1 hv with hv | hv
    · exact ((List.pairwise_append.1 h.grows).2.2 v hv w (by simp)).2
    · rw [List.mem_singleton.1 hv]

theorem lt_latest (h : C.Forward rows) (hv : v ∈ rows) {b : Version B} (hl : latest rows = some b) :
    v.versionNumber ≤ b.versionNumber := by
  induction rows using List.reverseRecOn with
  | nil => cases hv
  | append_singleton l w _ =>
    rw [h.latest_concat] at hl
    cases hl
    rcases List.mem_append.1 hv with hv | hv
    · exact Nat.le_of_lt ((List.pairwise_append.1 h.grows).2.2 v hv _ (by simp)).1
    · rw [List.mem_singleton.1 hv]

/-- A row that holds everything and has the next number continues the history. -/
theorem concat (h : C.Forward rows) {doc : Finset U} (hb : v.snapshotBytes = C.docToBytes doc)
    (hdoc : ∀ w ∈ rows, C.content w ⊆ doc)
    (hn : ∀ b, latest rows = some b → b.versionNumber < v.versionNumber) :
    C.Forward (rows ++ [v]) := by
  refine ⟨fun w hw => ?_, List.pairwise_append.2 ⟨h.grows, List.pairwise_singleton _ _, ?_⟩⟩
  · rcases List.mem_append.1 hw with hw | hw
    · exact h.encoded w hw
    · rw [List.mem_singleton.1 hw]
      exact ⟨doc, hb⟩
  · intro w hw v' hv'
    rw [List.mem_singleton.1 hv']
    refine ⟨?_, ?_⟩
    · obtain ⟨b, hl⟩ := Option.ne_none_iff_exists'.1
        (mt latest_eq_none_iff.1 (List.ne_nil_of_mem hw))
      exact Nat.lt_of_le_of_lt (h.lt_latest hw hl) (hn b hl)
    · rw [content_of_encoded hb]
      exact hdoc w hw

end Forward

end Pycrdt

end Concord
