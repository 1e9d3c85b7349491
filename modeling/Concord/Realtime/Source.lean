import Concord.Realtime.Survival
import Concord.Realtime.TextEdit

/-!
# Reading the text of a file

`get_file_text` of `realtime/source.py`. A file's authoritative text is that of its live document once
this is loaded, and else that of its latest version. `get_file_text` takes any registered room for a
loaded one, also while `open_room` is still loading it.
-/

namespace Concord

open Concord.Base

section Reading

variable {U B : Type} [DecidableEq U] (C : Pycrdt U B) (st : Hub U B) (f : FileId)

/-- The text of the latest of these versions, empty if there is none. -/
def latestVersionText (rows : List (Version B)) : Except PyError (List Char) :=
  match Pycrdt.latest rows with
  | none => .ok []
  | some latest =>
    match C.docFromBytes latest.snapshotBytes with
    | some doc => .ok (C.text doc)
    | none => .error .other

/-- `get_file_text`, by a session that has written nothing. -/
def Hub.getFileText : Except PyError (List Char) :=
  match st.registered? f with
  | some room => .ok (C.text (st.room room).doc)
  | none => latestVersionText C (st.versions f)

/-- The file's live document, once it is loaded. -/
def Hub.hydrated? : Option (Finset U) :=
  (st.registered? f).bind fun room =>
    if (st.room room).hydrated then some (st.room room).doc else none

/-- The text of the loaded live document, or else of the latest version. -/
def Hub.authoritativeText : Except PyError (List Char) :=
  match st.hydrated? f with
  | some doc => .ok (C.text doc)
  | none => latestVersionText C (st.versions f)

variable {C} {st} {f}

/-- **Readers see the authoritative text** in exactly the states in which the file's room, if it has
one, is loaded, or its document reads like the latest version before it is. -/
theorem getFileText_eq_iff : st.getFileText C f = st.authoritativeText C f ↔
    ∀ room, st.registered? f = some room → (st.room room).hydrated = true ∨
      latestVersionText C (st.versions f) = .ok (C.text (st.room room).doc) := by
  unfold Hub.getFileText Hub.authoritativeText Hub.hydrated?
  cases hroom : st.registered? f with
  | none => simp
  | some room =>
    have hsome : ∀ {P : RoomRef → Prop}, (∀ r, some room = some r → P r) ↔ P room := by simp
    rw [hsome, Option.bind_some]
    cases (st.room room).hydrated with
    | true => simp
    | false =>
      constructor
      · intro h
        exact .inr h.symm
      · intro h
        exact (h.resolve_left Bool.false_ne_true).symm

/-- Where no room in use is evicted, a room that is being loaded is empty: what is read from it is the
authoritative text if and only if the latest version reads like the empty document. -/
theorem getFileText_eq_iff_of_loading {stored : Stored C} [DecidableEq B]
    {cfg : RealtimeConfig U B}
    (h : (realtime C stored).system.ReachableUnder ((realtime C stored).guard (roomsKept C)) cfg)
    {room : RoomRef} (hroom : cfg.shared.registered? f = some room)
    (hloading : (cfg.shared.room room).hydrated = false) :
    cfg.shared.getFileText C f = cfg.shared.authoritativeText C f ↔
      latestVersionText C (cfg.shared.versions f) = .ok (C.text ∅) := by
  obtain ⟨gs, hinv⟩ := exists_roomsInv h
  rw [getFileText_eq_iff, ← hinv.blank room hloading]
  constructor
  · intro hall
    exact (hall room hroom).resolve_left (by simp [hloading])
  · rintro htext r hr
    rw [hroom] at hr
    cases hr
    exact .inr htext

end Reading

/-- A stored version with the text "hi", of file 0. -/
def hiVersion : Stored revisions where
  versions f := if f = 0 then
    [{ versionNumber := 1, snapshotBytes := typed "hi", createdAt := 0 }] else []
  forward f := by
    split
    · exact ⟨fun v _ => ⟨v.snapshotBytes, rfl⟩, List.pairwise_singleton _ _⟩
    · exact .nil

/-- A run or a search reads a file while a socket is opening it: it sees an empty text. -/
theorem loading_file_reads_empty :
    ∃ cfg : RealtimeConfig Revision (Finset Revision),
      (realtime revisions hiVersion).system.Reachable cfg ∧
        cfg.shared.getFileText revisions 0 = .ok [] ∧
        cfg.shared.authoritativeText revisions 0 = .ok "hi".toList := by
  have hrun : ((realtime revisions hiVersion).system.replay System.anyStep
      (realtime revisions hiVersion).system.init
      (List.flatten [[.spawn 0 (.collabSocket 0 0 .editor 1)], List.replicate 2 (.run 0 {})])).any
      (fun cfg : RealtimeConfig Revision (Finset Revision) =>
        (cfg.shared.getFileText revisions 0).toOption = some [] ∧
          (cfg.shared.authoritativeText revisions 0).toOption = some "hi".toList) = true := by
    decide
  obtain ⟨cfg, hcfg, hread⟩ := System.exists_reachable hrun
  obtain ⟨hempty, hhi⟩ := of_decide_eq_true hread
  have hok : ∀ {x : Except PyError (List Char)} {text}, x.toOption = some text → x = .ok text := by
    intro x text hx
    cases x with
    | error e => cases hx
    | ok a => exact congrArg _ (Option.some.inj hx)
  exact ⟨cfg, hcfg, hok hempty, hok hhi⟩

end Concord
