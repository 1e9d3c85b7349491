import Concord.Base.Alone
import Concord.Realtime.Steps
import Concord.Realtime.TextEdit

/-!
# Snapshots of a project

`api/snapshots.py`: a snapshot holds the content of every file of a project, and restoring it sets the
files' texts, one after the other, once a safety snapshot has been taken. The requests run alone, over the
hub of live rooms and the tables of the project.

A file's text is that of its live document if its room is loaded, and else that of its latest version.
-/

namespace Concord

open Concord.Base

/-- A row of `snapshots` with its rows of `snapshot_files`. -/
structure Snapshot (B : Type) where
  id : Nat
  projectId : ProjectId
  label : String
  createdBy : UserId
  files : List (FileId × B)

/-- The live rooms with their versions, and the other tables that the snapshot requests use. -/
structure SnapshotState (U B : Type) where
  hub : Hub U B
  /-- What the environment decides for the operations to come. -/
  env : Nat → RoomEnv B
  projectFiles : ProjectId → List FileId
  members : List ProjectMember
  snapshots : Nat → Option (Snapshot B) := fun _ => none
  nextSnapshot : Nat := 0

/-- `SnapshotRestoreOut`. -/
structure SnapshotRestoreOut where
  snapshotId : Nat
  restoredFiles : Nat
  safetySnapshotId : Nat
deriving DecidableEq, Repr

/-- The requests of `api/snapshots.py`; no result if one has to wait. -/
abbrev SnapshotPy (U B α : Type) := ExceptT PyError (StateT (SnapshotState U B) Option) α

section Requests

variable {U B : Type} [DecidableEq U] [DecidableEq B] (C : Pycrdt U B) (p : Pid)

/-- The operations of the live rooms, for process `p`. -/
def roomExec (o : RoomOp B) (env : RoomEnv B) (st : Hub U B) :
    Option (Except PyError o.Val × Hub U B) := RoomOp.run C p env st o

/-- Runs a program of the realtime service. -/
def onHub {α : Type} (x : RoomPy B α) : SnapshotPy U B α := ExceptT.mk fun st =>
  (x.run.alone (roomExec C p) (st.env, st.hub)).map fun (result, env, hub) =>
    (result, { st with hub, env })

/-- What `_take_snapshot` stores for a file: the live document if it is loaded, else the latest
version. -/
def Hub.content? (st : Hub U B) (f : FileId) : Option B :=
  match st.registered? f with
  | some room =>
    if (st.room room).hydrated then some (C.docToBytes (st.room room).doc)
    else (Pycrdt.latest (st.versions f)).map (·.snapshotBytes)
  | none => (Pycrdt.latest (st.versions f)).map (·.snapshotBytes)

/-- `_take_snapshot`; a file that was never opened has the empty document. -/
def takeSnapshot (projectId : ProjectId) (label : String) (user : UserId) :
    SnapshotPy U B (Snapshot B) := do
  let st ← get
  let files := (st.projectFiles projectId).map fun f =>
    (f, (st.hub.content? C f).getD (C.docToBytes ∅))
  let snapshot : Snapshot B :=
    { id := st.nextSnapshot, projectId, label, createdBy := user, files }
  set { st with
    snapshots := Function.update st.snapshots st.nextSnapshot (some snapshot)
    nextSnapshot := st.nextSnapshot + 1 }
  return snapshot

/-- `_require_owner_or_editor`. -/
def requireOwnerOrEditor (projectId : ProjectId) (user : UserId) : SnapshotPy U B Unit := do
  let st ← get
  match st.members.find? fun m => m.projectId = projectId ∧ m.userId = user with
  | none => throw (.http 403 "Not a member of this project")
  | some member =>
    if member.role ∈ [Role.owner, Role.editor, Role.debugger] then pure ()
    else throw (.http 403 "Requires editor+ role")

/-- The loop of `restore_snapshot`. -/
def restoreFiles (user : UserId) : List (FileId × B) → Nat → SnapshotPy U B Nat
  | [], restored => pure restored
  | (file, content) :: rest, restored => do
    let room ← onHub C p (openRoom file)
    match C.docFromBytes content with
    | none => throw .other
    | some doc =>
      let changed ← onHub C p (replaceText room (C.text doc) user)
      if changed then
        let _ ← onHub C p (saveRoom C.truthy room (some user))
        restoreFiles user rest (restored + 1)
      else
        restoreFiles user rest restored

/-- The label of the safety snapshot. -/
def safetyLabel (label : String) : String :=
  String.ofList (("Before restoring '" ++ label ++ "'").toList.take 255)

/-- `restore_snapshot`. -/
def restoreSnapshot (projectId : ProjectId) (snapshotId : Nat) (user : UserId) :
    SnapshotPy U B SnapshotRestoreOut := do
  requireOwnerOrEditor projectId user
  let st ← get
  match st.snapshots snapshotId with
  | none => throw (.http 404 "Snapshot not found")
  | some snapshot =>
    if snapshot.projectId ≠ projectId then throw (.http 404 "Snapshot not found")
    else
      let safety ← takeSnapshot C projectId (safetyLabel snapshot.label) user
      let restored ← restoreFiles C p user snapshot.files 0
      onHub C p (awaitOp .leave)
      return ⟨snapshotId, restored, safety.id⟩

end Requests

variable {U B : Type} [DecidableEq U] [DecidableEq B] {C : Pycrdt U B} {p : Pid} {st st' : Hub U B}

/-! ## Texts -/

namespace Hub

variable (C) (st : Hub U B) (f : FileId)

/-- The text of a file. -/
def fileText : List Char := C.text (st.current C f)

/-- The document that loading the file's room gives it. A room that was never loaded keeps what it has if
there is no version. -/
def openedDoc : Finset U :=
  match st.registered? f with
  | some r =>
    if (st.room r).hydrated then (st.room r).doc
    else match Pycrdt.latest (st.versions f) with
      | some v => C.content v
      | none => (st.room r).doc
  | none => C.latestContent (st.versions f)

end Hub

/-- Nothing is going on: no lock is taken and nothing is written and not committed. -/
structure Calm (C : Pycrdt U B) (st : Hub U B) : Prop where
  keys : (st.registry.map (·.file)).Nodup
  known : ∀ r ∈ st.registry, r.id < st.nextRoom
  unlocked : ∀ r ∈ st.registry, (st.room r).lock = none
  checkpoint : st.checkpointLock = none
  tx : ∀ q, st.tx q = fun _ => []
  /-- A version is written with the bytes of a document. -/
  encoded : ∀ f, ∀ v ∈ st.versions f, ∃ doc, v.snapshotBytes = C.docToBytes doc

/-- Nothing but the room and the versions of `f` changed. -/
structure Elsewhere (f : FileId) (st st' : Hub U B) : Prop where
  registered : ∀ g, g ≠ f → st'.registered? g = st.registered? g
  room : ∀ g, g ≠ f → ∀ r, st.registered? g = some r → st'.room r = st.room r
  versions : ∀ g, g ≠ f → st'.versions g = st.versions g

/-- The live room of the file is loaded. -/
structure Loaded (st : Hub U B) (f : FileId) (r : RoomRef) : Prop where
  registered : st.registered? f = some r
  hydrated : (st.room r).hydrated = true

variable {f : FileId} {r : RoomRef} {x : Room U}

namespace Elsewhere

omit [DecidableEq U] [DecidableEq B] in
theorem refl (f : FileId) (st : Hub U B) : Elsewhere f st st :=
  ⟨fun _ _ => rfl, fun _ _ _ _ => rfl, fun _ _ => rfl⟩

omit [DecidableEq U] [DecidableEq B] in
theorem trans {st'' : Hub U B} (h : Elsewhere f st st') (h' : Elsewhere f st' st'') :
    Elsewhere f st st'' where
  registered g hg := (h'.registered g hg).trans (h.registered g hg)
  room g hg r hr := by
    rw [h'.room g hg r (by rw [h.registered g hg, hr]), h.room g hg r hr]
  versions g hg := (h'.versions g hg).trans (h.versions g hg)

omit [DecidableEq B] in
theorem current {g : FileId} (h : Elsewhere f st st') (hg : g ≠ f) :
    st'.current C g = st.current C g :=
  Hub.current_congr (h.registered g hg) (h.room g hg) (h.versions g hg)

omit [DecidableEq B] in
theorem openedDoc {g : FileId} (h : Elsewhere f st st') (hg : g ≠ f) :
    st'.openedDoc C g = st.openedDoc C g := by
  unfold Hub.openedDoc
  rw [h.registered g hg, h.versions g hg]
  cases hr : st.registered? g with
  | none => rfl
  | some r => simp only [h.room g hg r hr]

end Elsewhere

omit [DecidableEq U] [DecidableEq B] in
theorem Hub.file_of_registered? (h : st.registered? f = some r) : r.file = f := by
  simpa using List.find?_some h

omit [DecidableEq U] [DecidableEq B] in
theorem Hub.mem_of_registered? (h : st.registered? f = some r) : r ∈ st.registry :=
  List.mem_of_find?_eq_some h

omit [DecidableEq U] [DecidableEq B] in
theorem Elsewhere.setRoom (h : st.registered? f = some r) : Elsewhere f st (st.setRoom r x) := by
  refine ⟨fun _ _ => rfl, fun g hg r' hr' => ?_, fun _ _ => rfl⟩
  refine Hub.room_setRoom_of_ne fun heq => hg ?_
  rw [← Hub.file_of_registered? hr', ← Hub.file_of_registered? h, heq]

omit [DecidableEq U] [DecidableEq B] in
@[simp] theorem Hub.setRoom_setRoom {y : Room U} : (st.setRoom r x).setRoom r y = st.setRoom r y := by
  simp [Hub.setRoom]

omit [DecidableEq B] in
theorem Calm.setRoom (h : Calm C st) (hlock : x.lock = none) : Calm C (st.setRoom r x) := by
  refine ⟨h.keys, h.known, fun r' hr' => ?_, h.checkpoint, h.tx, h.encoded⟩
  by_cases hr : r' = r
  · rw [hr, Hub.room_setRoom_self]
    exact hlock
  · rw [Hub.room_setRoom_of_ne hr]
    exact h.unlocked r' hr'

omit [DecidableEq B] in
theorem Calm.view (h : Calm C st) (q : Pid) (f : FileId) : st.view q f = st.versions f :=
  Hub.view_of_idle (h.tx q) f

/-! ## Loading a room -/

omit [DecidableEq U] [DecidableEq B] in
@[simp] theorem Hub.versions_setRoom : (st.setRoom r x).versions = st.versions := rfl

omit [DecidableEq B] in
theorem Calm.borrow (h : Calm C st) : Calm C (st.borrow p r) :=
  ⟨h.keys, h.known, h.unlocked, h.checkpoint, h.tx, h.encoded⟩

/-- The room that `get_or_create_room` gives is the file's live room, and what loading it gives is as
before. -/
structure Found (C : Pycrdt U B) (f : FileId) (st st' : Hub U B) (r : RoomRef) : Prop where
  calm : Calm C st'
  elsewhere : Elsewhere f st st'
  registered : st'.registered? f = some r
  opened : st'.openedDoc C f = st.openedDoc C f

omit [DecidableEq B] in
theorem found_getOrCreateRoom (h : Calm C st) (f : FileId) (now : Seconds) :
    Found C f st (st.getOrCreateRoom f now).2 (st.getOrCreateRoom f now).1 := by
  unfold Hub.getOrCreateRoom
  cases hreg : st.registered? f with
  | some r =>
    refine ⟨h.setRoom (h.unlocked r (Hub.mem_of_registered? hreg)), .setRoom hreg, hreg, ?_⟩
    simp [Hub.openedDoc, hreg]
  | none =>
    have hnew : ∀ r ∈ st.registry, r ≠ ⟨st.nextRoom, f⟩ := by
      rintro r hr rfl
      exact Nat.lt_irrefl _ (h.known _ hr)
    have hfile : ∀ r ∈ st.registry, r.file ≠ f := by
      simpa [Hub.registered?] using hreg
    refine ⟨⟨?_, ?_, ?_, h.checkpoint, h.tx, h.encoded⟩, ⟨?_, ?_, fun _ _ => rfl⟩, ?_, ?_⟩
    · rw [List.map_append, List.nodup_append]
      refine ⟨h.keys, by simp, ?_⟩
      rintro g hg g' hg' rfl
      obtain ⟨r, hr, rfl⟩ := List.mem_map.1 hg
      exact hfile r hr (by simpa using hg')
    · intro r hr
      rcases List.mem_append.1 hr with hr | hr
      · exact Nat.lt_succ_of_lt (h.known r hr)
      · rw [List.mem_singleton.1 hr]
        exact Nat.lt_succ_self _
    · intro r hr
      rcases List.mem_append.1 hr with hr | hr
      · rw [← h.unlocked r hr]
        exact congrArg Room.lock (Hub.room_setRoom_of_ne (hnew r hr))
      · rw [List.mem_singleton.1 hr]
        simp
    · intro g hg
      simp [Hub.registered?, Ne.symm hg]
    · intro g _ r hr
      exact Hub.room_setRoom_of_ne (hnew r (Hub.mem_of_registered? hr))
    · have hnone : st.registry.find? (·.file = f) = none := hreg
      simp [Hub.registered?, hnone]
    · have hnone : st.registry.find? (·.file = f) = none := hreg
      cases hlatest : Pycrdt.latest (st.versions f) with
      | none => simp [Hub.openedDoc, Hub.registered?, hnone, Pycrdt.latestContent, hlatest]
      | some v => simp [Hub.openedDoc, Hub.registered?, hnone, Pycrdt.latestContent, hlatest]

omit [DecidableEq B] in
/-- The part of `open_room` under the room's lock. -/
theorem load_ends (h : Calm C st) (hreg : st.registered? f = some r) (env : Nat → RoomEnv B) :
    ∃ env', Ends (roomExec C p)
      (awaitOp (.readHydrated r) >>= fun hydrated =>
        if hydrated then pure ()
        else awaitOp (.selectLatest f) >>= fun latest => awaitOp (.hydrate r latest))
      (env, st.setRoom r { st.room r with lock := some p }) ()
      (env', st.setRoom r
        { st.room r with doc := st.openedDoc C f, hydrated := true, lock := some p }) := by
  obtain ⟨st₂, hst₂⟩ : ∃ st₂, st.setRoom r { st.room r with lock := some p } = st₂ := ⟨_, rfl⟩
  have hread : ∀ n, roomExec C p (.readHydrated r) (env n) st₂ =
      some (.ok (st.room r).hydrated, st₂) := fun n => by simp [roomExec, RoomOp.run, ← hst₂]
  rw [hst₂]
  cases hhyd : (st.room r).hydrated with
  | true =>
    have hroom : { st.room r with doc := st.openedDoc C f, hydrated := true, lock := some p } =
        { st.room r with lock := some p } := by
      have hdoc : st.openedDoc C f = (st.room r).doc := by simp [Hub.openedDoc, hreg, hhyd]
      rw [hdoc, ← hhyd]
    rw [hroom, hst₂]
    refine ⟨fun n => env (n + 1), Ends.step (v := true) (t := st₂) ?_ (Ends.pure () _)⟩
    rw [hread, hhyd]
  | false =>
    have hview : st₂.view p f = st.versions f := by
      rw [← h.view p f, ← hst₂]
      rfl
    refine ⟨fun n => env (n + 3), Ends.step (v := false) (t := st₂) ?_
      (Ends.step (v := Pycrdt.latest (st.versions f)) (t := st₂) ?_ (Ends.call ?_))⟩
    · rw [hread, hhyd]
    · simp [roomExec, RoomOp.run, hview]
    · cases hlatest : Pycrdt.latest (st.versions f) with
      | none =>
        have hdoc : st.openedDoc C f = (st.room r).doc := by
          simp [Hub.openedDoc, hreg, hhyd, hlatest]
        simp [roomExec, RoomOp.run, ← hst₂, hdoc]
      | some v =>
        obtain ⟨doc, hv⟩ := h.encoded f v (Pycrdt.mem_of_latest hlatest)
        have hdoc : st.openedDoc C f = doc := by
          simp [Hub.openedDoc, hreg, hhyd, hlatest, Pycrdt.content_of_encoded hv]
        simp [roomExec, RoomOp.run, ← hst₂, hdoc, hv]

omit [DecidableEq B] in
/-- `open_room` loads the file's live room. -/
theorem openRoom_ends (h : Calm C st) (f : FileId) (env : Nat → RoomEnv B) :
    ∃ r env' st', Ends (roomExec C p) (openRoom f) (env, st) r (env', st') ∧ Calm C st' ∧
      Elsewhere f st st' ∧ Loaded st' f r ∧ (st'.room r).doc = st.openedDoc C f := by
  have hfound := found_getOrCreateRoom h f (env 0).now
  obtain ⟨r, hr⟩ : ∃ r, (st.getOrCreateRoom f (env 0).now).1 = r := ⟨_, rfl⟩
  obtain ⟨st₁, hst₁⟩ : ∃ st₁, (st.getOrCreateRoom f (env 0).now).2.borrow p r = st₁ := ⟨_, rfl⟩
  rw [hr] at hfound
  have hcalm : Calm C st₁ := hst₁ ▸ hfound.calm.borrow
  have hreg : st₁.registered? f = some r := hst₁ ▸ hfound.registered
  have helse : Elsewhere f st st₁ := by
    rw [← hst₁]
    exact ⟨hfound.elsewhere.registered, hfound.elsewhere.room, hfound.elsewhere.versions⟩
  have hopened : st₁.openedDoc C f = st.openedDoc C f := by
    rw [← hfound.opened, ← hst₁]
    rfl
  have hunlocked := hcalm.unlocked r (Hub.mem_of_registered? hreg)
  obtain ⟨env', hload⟩ := load_ends (p := p) hcalm hreg (fun n => env (n + 2))
  refine ⟨r, fun n => env' (n + 1), st₁.setRoom r { st₁.room r with
    doc := st₁.openedDoc C f, hydrated := true, lock := none }, ?_, hcalm.setRoom rfl,
    helse.trans (.setRoom hreg), ⟨hreg, by simp⟩, by simpa using hopened⟩
  refine Ends.step (t := st₁) (v := r) ?_ ?_
  · simp only [roomExec, RoomOp.run]
    rw [← hr, ← hst₁, hr]
  · refine Ends.step (v := ()) (t := st₁.setRoom r { st₁.room r with lock := some p }) ?_ ?_
    · simp [roomExec, RoomOp.run, hunlocked]
    · refine Ends.bind (Ends.andFinally hload (Ends.call ?_)) (Ends.pure r _)
      simp [roomExec, RoomOp.run]

/-! ## Setting a text and saving it -/

omit [DecidableEq B] in
/-- `replace_text` gives the room the text, and says whether it had another one. -/
theorem replaceText_ends (h : Calm C st) (hl : Loaded st f r) (target : List Char) (user : UserId)
    (hrestores : C.Restores (st.room r).doc target) (env : Nat → RoomEnv B) :
    ∃ env' st', Ends (roomExec C p) (replaceText r target user) (env, st)
      (decide (C.text (st.room r).doc ≠ target)) (env', st') ∧ Calm C st' ∧ Elsewhere f st st' ∧
      Loaded st' f r ∧ C.text (st'.room r).doc = target := by
  have hunlocked := h.unlocked r (Hub.mem_of_registered? hl.registered)
  obtain ⟨st₂, hst₂⟩ : ∃ st₂, st.setRoom r { st.room r with lock := some p } = st₂ := ⟨_, rfl⟩
  have hlock : ∀ n, roomExec C p (.lockRoom r) (env n) st = some (.ok (), st₂) := fun n => by
    simp [roomExec, RoomOp.run, hunlocked, ← hst₂]
  have hedit : ∀ n, roomExec C p (.textEditUpdate r target) (env n) st₂ =
      some (C.textEditUpdate (st.room r).doc target, st₂) := fun n => by
    simp [roomExec, RoomOp.run, ← hst₂]
  unfold Pycrdt.Restores at hrestores
  split at hrestores
  · next hnone =>
    refine ⟨fun n => env (n + 3), st.setRoom r { st.room r with lock := none }, ?_, h.setRoom rfl,
      .setRoom hl.registered, ⟨hl.registered, by simp [hl.hydrated]⟩, by simpa using hrestores⟩
    rw [decide_eq_false (not_not_intro hrestores)]
    refine Ends.step (v := ()) (t := st₂) (hlock 0) (Ends.andFinally (Ends.step (v := none) (t := st₂)
      ?_ (Ends.pure false _)) (Ends.call ?_))
    · rw [hedit, hnone]
    · simp [roomExec, RoomOp.run, ← hst₂]
  · next update hsome =>
    obtain ⟨hne, added, hdecode, htext⟩ := hrestores
    refine ⟨fun n => env (n + 4), st.setRoom r
      { st.room r with doc := (st.room r).doc ∪ added, lock := none }, ?_, h.setRoom rfl,
      .setRoom hl.registered, ⟨hl.registered, by simp [hl.hydrated]⟩, by simpa using htext⟩
    rw [decide_eq_true hne]
    refine Ends.step (v := ()) (t := st₂) (hlock 0) (Ends.andFinally (Ends.step (v := some update)
      (t := st₂) ?_ (Ends.step (v := ()) (t := st.setRoom r
        { st.room r with doc := (st.room r).doc ∪ added, lock := some p }) ?_ (Ends.pure true _)))
      (Ends.call ?_))
    · rw [hedit, hsome]
    · simp [roomExec, RoomOp.run, ← hst₂, hdecode]
    · simp [roomExec, RoomOp.run]
  · cases hrestores

/-- The rows hold documents. -/
def Encoded (C : Pycrdt U B) (rows : List (Version B)) : Prop :=
  ∀ v ∈ rows, ∃ doc, v.snapshotBytes = C.docToBytes doc

/-- The hub with what `p` wrote to the rows of `f`, if anything. -/
def Hub.written (st : Hub U B) (p : Pid) (f : FileId) : Option (VersionWrite B) → Hub U B
  | none => st
  | some w => st.addWrite p f w

omit [DecidableEq B] in
theorem Encoded.apply_markSaved {rows : List (Version B)} (h : Encoded C rows) (number : Nat) (user : UserId) :
    Encoded C ((VersionWrite.markSaved number user).apply rows) := by
  intro v hv
  obtain ⟨v₀, hv₀, rfl⟩ := List.mem_map.1 hv
  obtain ⟨doc, hdoc⟩ := h v₀ hv₀
  refine ⟨doc, ?_⟩
  split
  · exact hdoc
  · exact hdoc

/-- `_checkpoint_room` writes at most one row, of a document. -/
theorem checkpointRoom_ends (st : Hub U B) (r : RoomRef) (user : UserId) (env : Nat → RoomEnv B) :
    ∃ result env' w, Ends (roomExec C p) (checkpointRoom C.truthy r (some user)) (env, st) result
      (env', st.written p r.file w) ∧
      ∀ rows, Encoded C rows → Encoded C (w.elim rows (·.apply rows)) := by
  obtain ⟨payload, hpayload⟩ : ∃ payload, C.docToBytes (st.room r).doc = payload := ⟨_, rfl⟩
  obtain ⟨latest, hlatest⟩ : ∃ latest, Pycrdt.latest (st.view p r.file) = latest := ⟨_, rfl⟩
  have hbytes : ∀ n, roomExec C p (.docToBytes r) (env n) st = some (.ok payload, st) := fun n => by
    simp [roomExec, RoomOp.run, hpayload]
  have hselect : ∀ n, roomExec C p (.selectLatest r.file) (env n) st = some (.ok latest, st) :=
    fun n => by simp [roomExec, RoomOp.run, hlatest]
  unfold checkpointRoom
  by_cases hnew : (C.truthy payload && latest.all (·.snapshotBytes ≠ payload)) = true
  · obtain ⟨row, hrow⟩ : ∃ row : Nat → Version B, (fun number =>
        { versionNumber := number, snapshotBytes := payload, createdAt := (env 2).now,
          savedBy := some user }) = row := ⟨_, rfl⟩
    have hwrite : ∀ number, Ends (roomExec C p)
        (awaitOp .clock >>= fun now =>
          awaitOp (.write r.file (.insert
            { versionNumber := number, snapshotBytes := payload, createdAt := now,
              savedBy := some user })) >>= fun _ => pure (CheckpointResult.mk (some number) true (some now)))
        (fun n => env (n + 2), st) ⟨some number, true, some (env 2).now⟩
        (fun n => env (n + 4), st.written p r.file (some (.insert (row number)))) := by
      intro number
      subst hrow
      exact Ends.step (v := (env 2).now) (t := st) rfl (Ends.step (v := ()) rfl (Ends.pure _ _))
    have hinsert : ∀ number rows, Encoded C rows →
        Encoded C ((VersionWrite.insert (row number)).apply rows) := by
      intro number rows hrows v hv
      rcases List.mem_append.1 hv with hv | hv
      · exact hrows v hv
      · rw [List.mem_singleton.1 hv, ← hrow]
        exact ⟨_, hpayload.symm⟩
    cases latest with
    | none =>
      refine ⟨⟨some 1, true, some (env 2).now⟩, fun n => env (n + 4), some (.insert (row 1)),
        Ends.step (hbytes 0) (Ends.step (hselect 1) ?_), hinsert 1⟩
      rw [if_pos hnew]
      exact hwrite 1
    | some v =>
      refine ⟨⟨some (v.versionNumber + 1), true, some (env 2).now⟩, fun n => env (n + 4),
        some (.insert (row (v.versionNumber + 1))),
        Ends.step (hbytes 0) (Ends.step (hselect 1) ?_), hinsert _⟩
      rw [if_pos hnew]
      exact hwrite (v.versionNumber + 1)
  · cases latest with
    | none =>
      refine ⟨⟨none, false, none⟩, fun n => env (n + 2), none,
        Ends.step (hbytes 0) (Ends.step (hselect 1) ?_), fun rows hrows => hrows⟩
      rw [if_neg hnew]
      exact Ends.pure _ _
    | some v =>
      by_cases hsaved : v.savedBy.isNone = true
      · refine ⟨⟨some v.versionNumber, false, some v.createdAt⟩, fun n => env (n + 3), some (.markSaved v.versionNumber user),
          Ends.step (hbytes 0) (Ends.step (hselect 1) ?_),
          fun rows hrows => hrows.apply_markSaved _ _⟩
        rw [if_neg hnew]
        dsimp only
        rw [if_pos hsaved]
        exact Ends.step (v := ()) rfl (Ends.pure _ _)
      · refine ⟨⟨some v.versionNumber, false, some v.createdAt⟩, fun n => env (n + 2), none,
          Ends.step (hbytes 0) (Ends.step (hselect 1) ?_), fun rows hrows => hrows⟩
        rw [if_neg hnew]
        dsimp only
        rw [if_neg hsaved]
        exact Ends.pure _ _

/-- `save_room` leaves the room as it is. -/
theorem saveRoom_ends (h : Calm C st) (hl : Loaded st f r) (user : UserId) (env : Nat → RoomEnv B) :
    ∃ result env' st', Ends (roomExec C p) (saveRoom C.truthy r (some user)) (env, st) result
      (env', st') ∧ Calm C st' ∧ Elsewhere f st st' ∧ Loaded st' f r ∧ st'.room r = st.room r := by
  obtain ⟨st₂, hst₂⟩ : ∃ st₂ : Hub U B, { st with checkpointLock := some p } = st₂ := ⟨_, rfl⟩
  obtain ⟨result, env', w, hcheckpoint, hencoded⟩ :=
    checkpointRoom_ends (C := C) (p := p) st₂ r user (fun n => env (n + 1))
  have hfile := Hub.file_of_registered? hl.registered
  have hview : (st₂.written p r.file w).view p =
      fun g => if g = f then w.elim (st.versions f) (·.apply (st.versions f)) else st.versions g := by
    funext g
    have hidle : ∀ g, st₂.view p g = st.versions g := fun g => by
      rw [← h.view p g, ← hst₂]
      rfl
    cases w with
    | none =>
      rw [Hub.written, hidle]
      by_cases hg : g = f
      · simp [hg]
      · simp [hg]
    | some w =>
      rw [Hub.written]
      by_cases hg : g = f
      · rw [hg, ← hfile, Hub.view_addWrite_self, hidle, if_pos rfl]
        rfl
      · rw [Hub.view_addWrite_of_ne w (.inr (hfile ▸ hg)), hidle, if_neg hg]
  obtain ⟨st₃, hst₃⟩ : ∃ st₃, st₂.written p r.file w = st₃ := ⟨_, rfl⟩
  rw [hst₃] at hcheckpoint hview
  have hsame : st₃.registry = st.registry ∧ st₃.room = st.room ∧ st₃.nextRoom = st.nextRoom ∧
      ∀ q, q ≠ p → st₃.tx q = fun _ => [] := by
    subst hst₃ hst₂
    cases w with
    | none => exact ⟨rfl, rfl, rfl, fun q _ => h.tx q⟩
    | some w =>
      refine ⟨rfl, rfl, rfl, fun q hq => ?_⟩
      rw [← h.tx q]
      exact Function.update_of_ne hq _ _
  obtain ⟨st', hst'⟩ : ∃ st' : Hub U B,
    { (st₃.commit p).closeSession p with checkpointLock := none } = st' := ⟨_, rfl⟩
  have hversions : ∀ g, st'.versions g =
      if g = f then w.elim (st.versions f) (·.apply (st.versions f)) else st.versions g := fun g => by
    rw [← hst', ← congrFun hview g]
    rfl
  have hregistry : st'.registry = st.registry := hst' ▸ hsame.1
  have hroom : st'.room = st.room := hst' ▸ hsame.2.1
  have hreg : ∀ g, st'.registered? g = st.registered? g := fun g => by
    rw [Hub.registered?, Hub.registered?, hregistry]
  refine ⟨result, fun n => env' (n + 3), st', ?_, ⟨?_, ?_, ?_, ?_, ?_, ?_⟩, ⟨?_, ?_, ?_⟩, ⟨?_, ?_⟩, ?_⟩
  · refine Ends.step (v := ()) (t := st₂) ?_ (Ends.andFinally (Ends.andFinally
      (Ends.bind hcheckpoint (Ends.step (v := ()) (t := st₃.commit p) rfl (Ends.pure result _)))
      (Ends.call (t := (st₃.commit p).closeSession p) rfl)) (Ends.call ?_))
    · simp [roomExec, RoomOp.run, h.checkpoint, hst₂]
    · simp [roomExec, RoomOp.run, hst']
  · rw [hregistry]
    exact h.keys
  · intro r' hr'
    rw [← hst']
    exact hsame.2.2.1 ▸ h.known r' (hregistry ▸ hr')
  · intro r' hr'
    rw [hroom]
    exact h.unlocked r' (hregistry ▸ hr')
  · rw [← hst']
  · intro q
    rw [← hst']
    by_cases hq : q = p
    · rw [hq]
      exact Function.update_self _ _ _
    · simp only [Hub.closeSession, Hub.commit, Function.update_of_ne hq]
      exact hsame.2.2.2 q hq
  · intro g
    rw [hversions]
    split
    · exact hencoded _ (h.encoded f)
    · exact h.encoded g
  · exact fun g _ => hreg g
  · exact fun g _ r' _ => by rw [hroom]
  · exact fun g hg => by rw [hversions, if_neg hg]
  · rw [hreg]
    exact hl.registered
  · rw [hroom]
    exact hl.hydrated
  · rw [hroom]

end Concord
