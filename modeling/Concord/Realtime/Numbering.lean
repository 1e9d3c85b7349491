import Concord.Base.Outline
import Concord.Realtime.Pruning
import Mathlib

/-!
# Version numbers

The writers of `document_versions`: `checkpoint_once`, `save_room` and `prune_versions` of
`realtime/checkpoint.py`, interleaved at every statement. The first two share the in-process lock;
pruning does not take it. A session sees the rows committed so far with its own writes, and any of its
statements may fail, its commit also after it took effect.

Rooms are named by their files, and what their documents encode to is left open. The attribution
windows that `_checkpoint_room` closes are left to `Concord.Realtime.Checkpoints`; here they are one
more statement that may fail.
-/

namespace Concord

open Concord.Base Async

/-- A write of a session to `document_versions`. -/
inductive TableWrite (B : Type)
  | insert (v : DocumentVersion B)
  | markSaved (id : Nat) (user : UserId)
  | delete (ids : List Nat)
deriving DecidableEq

namespace TableWrite

variable {B : Type}

/-- One write, applied to the rows. -/
def apply (rows : List (DocumentVersion B)) : TableWrite B → List (DocumentVersion B)
  | insert v => rows ++ [v]
  | markSaved id user => Concord.markSaved rows id user
  | delete ids => deleteIds rows ids

/-- The version a write inserts. -/
def key? : TableWrite B → Option VersionKey
  | insert v => some v.key
  | _ => none

@[simp] theorem key?_insert (v : DocumentVersion B) : (insert v).key? = some v.key := rfl

@[simp] theorem key?_markSaved (id : Nat) (user : UserId) :
    (markSaved id user : TableWrite B).key? = none := rfl

@[simp] theorem key?_delete (ids : List Nat) : (delete ids : TableWrite B).key? = none := rfl

end TableWrite

/-- The database as its sessions share it, and the lock of the checkpointer. `created` lists the
versions ever committed. -/
structure VersionDb (B : Type) where
  versions : List (DocumentVersion B)
  tx : Pid → List (TableWrite B) := fun _ => []
  lock : Option Pid := none
  nextId : Nat
  created : List VersionKey

namespace VersionDb

variable {B : Type} (db : VersionDb B) (p : Pid)

/-- The rows as session `p` sees them. -/
def view : List (DocumentVersion B) := (db.tx p).foldl TableWrite.apply db.versions

/-- The versions session `p` has inserted and not committed. -/
def pending : List VersionKey := (db.tx p).filterMap TableWrite.key?

/-- `ORDER BY version_number DESC LIMIT 1`. -/
def latest (file : FileId) : Option (DocumentVersion B) :=
  ((db.view p).filter fun v => v.fileId = file).argmax (·.versionNumber)

def addWrite (w : TableWrite B) : VersionDb B :=
  { db with tx := Function.update db.tx p (db.tx p ++ [w]) }

def closeSession : VersionDb B := { db with tx := Function.update db.tx p [] }

def commit : VersionDb B :=
  { db.closeSession p with versions := db.view p, created := db.created ++ db.pending p }

end VersionDb

inductive VersionOp (B : Type)
  | lockCheckpoint
  | unlockCheckpoint
  /-- `list(room_manager._rooms.values())`. -/
  | listRooms
  | docToBytes (file : FileId)
  | selectLatest (file : FileId)
  | clock
  /-- `db.add(DocumentVersion(…))`, but for the id, which the database gives it. -/
  | addVersion (file : FileId) (versionNumber : Nat) (payload : B) (createdAt : Seconds)
      (savedBy : Option UserId)
  | markSaved (id : Nat) (user : UserId)
  /-- The statements about the attribution window. -/
  | closeWindow (file : FileId)
  | selectBusy
  | selectRows (file : FileId)
  | deleteVersions (ids : List Nat)
  | commit
  | closeSession
deriving DecidableEq

@[reducible] def VersionOp.Val {B : Type} : VersionOp B → Type
  | listRooms | selectBusy => List FileId
  | docToBytes _ => B
  | selectLatest _ => Option (DocumentVersion B)
  | clock => Seconds
  | selectRows _ => List VersionRow
  | _ => Unit

/-- How a statement fails: without effect, or after it took effect. -/
inductive StatementFault
  | before
  | after
deriving DecidableEq, Repr

/-- What the environment decides for one operation. -/
structure VersionEnv (B : Type) where
  rooms : List FileId := []
  payload : B
  now : Seconds := 0
  fault : Option StatementFault := none

/-- A statement to the database with its value and effect. -/
def statement {B α : Type} (env : VersionEnv B) (db : VersionDb B) (value : α)
    (db' : VersionDb B) : Option (Except PyError α × VersionDb B) :=
  match env.fault with
  | none => some (.ok value, db')
  | some .before => some (.error .database, db)
  | some .after => some (.error .database, db')

/-- The result and effect of an operation; `none` while it has to wait. -/
def VersionOp.run {B : Type} (p : Pid) (env : VersionEnv B) (db : VersionDb B) :
    (o : VersionOp B) → Option (Except PyError o.Val × VersionDb B)
  | lockCheckpoint =>
    match db.lock with
    | some _ => none
    | none => some (.ok (), { db with lock := some p })
  | unlockCheckpoint => some (.ok (), { db with lock := none })
  | listRooms => some (.ok env.rooms, db)
  | docToBytes _ => some (.ok env.payload, db)
  | selectLatest file => statement env db (db.latest p file) db
  | clock => some (.ok env.now, db)
  | addVersion file versionNumber payload createdAt savedBy =>
    some (.ok (), { db.addWrite p (.insert
      { id := db.nextId, versionNumber, createdAt, savedBy, fileId := file,
        snapshotBytes := payload }) with nextId := db.nextId + 1 })
  | markSaved id user => some (.ok (), db.addWrite p (.markSaved id user))
  | closeWindow _ => statement env db () db
  | selectBusy => statement env db (busyFiles (db.view p)) db
  | selectRows file => statement env db (versionRows (db.view p) file) db
  | deleteVersions ids => statement env db () (db.addWrite p (.delete ids))
  | commit => statement env db () (db.commit p)
  | closeSession => some (.ok (), db.closeSession p)

/-- The programs that write versions. -/
abbrev VersionPy (B α : Type) := Async PyError (VersionOp B) VersionOp.Val α

/-- `await` of one operation. -/
abbrev versionOp {B : Type} (o : VersionOp B) : VersionPy B o.Val := Async.call o

section Programs

variable {B : Type} [DecidableEq B] (truthy : B → Bool)

/-- `(latest.version_number + 1) if latest else 1`. -/
def nextNumber : Option (DocumentVersion B) → Nat
  | some v => v.versionNumber + 1
  | none => 1

/-- `_checkpoint_room`; returns the latest version's number. -/
def checkpointVersion (file : FileId) (closing : Bool) (savedBy : Option UserId) :
    VersionPy B (Option Nat) := do
  let payload ← versionOp (.docToBytes file)
  let latest ← versionOp (.selectLatest file)
  let number ←
    if truthy payload && latest.all (·.snapshotBytes ≠ payload) then do
      let now ← versionOp .clock
      versionOp (.addVersion file (nextNumber latest) payload now savedBy)
      pure (some (nextNumber latest))
    else do
      match savedBy, latest with
      -- saving right after an autosave of the same text: that version is now a save
      | some user, some v =>
        if v.savedBy.isNone then versionOp (.markSaved v.id user) else pure ()
      | _, _ => pure ()
      pure (latest.map (·.versionNumber))
  if closing then versionOp (.closeWindow file) else pure ()
  return number

/-- The loop of `checkpoint_once`; `due` says whose windows are closed. -/
def checkpointVersions (due : FileId → Bool) : List FileId → VersionPy B Unit
  | [] => pure ()
  | file :: rest => do
    let _ ← checkpointVersion truthy file (due file) none
    checkpointVersions due rest

/-- `async with _lock, AsyncSessionLocal() as db: …`. -/
def underLock {α : Type} (body : VersionPy B α) : VersionPy B α := do
  versionOp .lockCheckpoint
  andFinally (andFinally body (versionOp .closeSession)) (versionOp .unlockCheckpoint)

/-- `prune_versions`, for one file. -/
def deleteOldVersions (now : Seconds) (file : FileId) : VersionPy B Unit := do
  let rows ← versionOp (.selectRows file)
  (deleteBatches (versionsToPrune rows now)).forM fun batch => versionOp (.deleteVersions batch)

/-- `prune_versions`. -/
def pruneAll : VersionPy B Unit := do
  let now ← versionOp .clock
  andFinally
    (do
      let busy ← versionOp .selectBusy
      busy.forM (deleteOldVersions now)
      versionOp .commit)
    (versionOp .closeSession)

end Programs

/-- What writes versions. -/
inductive VersionRequest
  | checkpointOnce (due : FileId → Bool)
  | saveRoom (file : FileId) (user : Option UserId)
  | pruneVersions

def VersionRequest.program {B : Type} [DecidableEq B] (truthy : B → Bool) :
    VersionRequest → VersionPy B Unit
  | checkpointOnce due => do
    let rooms ← versionOp .listRooms
    if rooms.isEmpty then pure ()
    else
      underLock do
        let rooms ← versionOp .listRooms
        checkpointVersions truthy due rooms
        versionOp .commit
  | saveRoom file user =>
    underLock do
      let _ ← checkpointVersion truthy file true user
      versionOp .commit
  | pruneVersions => pruneAll

/-- The versions in the table at first, with ids and numbers of their own. -/
structure StoredVersions (B : Type) where
  versions : List (DocumentVersion B)
  nextId : Nat
  numbered : Numbered (versions.map (·.key))
  known : ∀ v ∈ versions, v.id < nextId

/-- The writers of versions, from what is stored. -/
def versioning {B : Type} [DecidableEq B] (truthy : B → Bool) (stored : StoredVersions B) :
    Machine (VersionOp B) (fun o => Except PyError o.Val) (VersionEnv B) (VersionDb B)
      VersionRequest (Except PyError Unit) where
  init :=
    { versions := stored.versions
      nextId := stored.nextId
      created := stored.versions.map (·.key) }
  exec := fun p o env db => VersionOp.run p env db o
  body := fun _ r => (r.program truthy).run

/-! ## Sessions -/

section Sessions

variable {B : Type} {db : VersionDb B} {p q : Pid} {created : List VersionKey}

theorem map_key_deleteIds (rows : List (DocumentVersion B)) (ids : List Nat) :
    (deleteIds rows ids).map (·.key) = (rows.map (·.key)).filter fun k => k.id ∉ ids := by
  unfold deleteIds
  rw [List.filter_map]
  rfl

/-- A session sees committed versions and those it inserted, in the order they were created. -/
theorem map_key_foldl_apply (rows : List (DocumentVersion B)) (ws : List (TableWrite B)) :
    ((ws.foldl TableWrite.apply rows).map (·.key)).Sublist
      (rows.map (·.key) ++ ws.filterMap TableWrite.key?) := by
  induction ws generalizing rows with
  | nil => simp
  | cons w rest ih =>
    rw [List.foldl_cons]
    apply (ih _).trans
    cases w with
    | insert v => simp [TableWrite.apply]
    | markSaved id user =>
      rw [TableWrite.apply, map_key_markSaved, List.filterMap_cons, TableWrite.key?_markSaved]
    | delete ids =>
      rw [TableWrite.apply, map_key_deleteIds]
      exact List.filter_sublist.append (List.Sublist.refl _)

theorem map_key_view (hrows : (db.versions.map (·.key)).Sublist db.created) :
    ((db.view p).map (·.key)).Sublist (db.created ++ db.pending p) :=
  (map_key_foldl_apply _ _).trans (hrows.append (List.Sublist.refl _))

/-- What a session does not see of this it deleted. -/
theorem exists_of_mem_foldl_apply {rows : List (DocumentVersion B)} {ws : List (TableWrite B)}
    {k : VersionKey} (hk : k ∈ rows.map (·.key) ++ ws.filterMap TableWrite.key?) :
    k ∈ (ws.foldl TableWrite.apply rows).map (·.key) ∨
      ∃ ids, TableWrite.delete ids ∈ ws ∧ k.id ∈ ids := by
  induction ws generalizing rows with
  | nil => simpa using hk
  | cons w rest ih =>
    rw [List.foldl_cons]
    have hnext : k ∈ (w.apply rows).map (·.key) ++ rest.filterMap TableWrite.key? ∨
        ∃ ids, w = .delete ids ∧ k.id ∈ ids := by
      cases w with
      | insert v =>
        left
        simpa [TableWrite.apply, TableWrite.key?] using hk
      | markSaved id user =>
        left
        simpa [TableWrite.apply, TableWrite.key?, map_key_markSaved] using hk
      | delete ids =>
        by_cases hid : k.id ∈ ids
        · exact .inr ⟨ids, rfl, hid⟩
        · left
          rw [TableWrite.apply, map_key_deleteIds]
          rcases List.mem_append.1 hk with hk | hk
          · exact List.mem_append_left _ (List.mem_filter.2 ⟨hk, by simpa using hid⟩)
          · exact List.mem_append_right _ hk
    rcases hnext with hnext | ⟨ids, rfl, hid⟩
    · rcases ih hnext with hmem | ⟨ids, hids, hid⟩
      · exact .inl hmem
      · exact .inr ⟨ids, List.mem_cons_of_mem _ hids, hid⟩
    · exact .inr ⟨ids, List.mem_cons_self, hid⟩

theorem latest_eq_none (h : db.latest p file = none) {v : DocumentVersion B} (hv : v ∈ db.view p) :
    v.fileId ≠ file := by
  intro hfile
  unfold VersionDb.latest at h
  rw [List.argmax_eq_none, List.filter_eq_nil_iff] at h
  exact h v hv (by simpa using hfile)

theorem latest_eq_some {latest : DocumentVersion B} (h : db.latest p file = some latest) :
    latest ∈ db.view p ∧ latest.fileId = file ∧
      ∀ v ∈ db.view p, v.fileId = file → v.versionNumber ≤ latest.versionNumber := by
  unfold VersionDb.latest at h
  have hmem := List.mem_filter.1 (List.argmax_mem (Option.mem_def.2 h))
  refine ⟨hmem.1, by simpa using hmem.2, ?_⟩
  intro v hv hfile
  exact List.le_of_mem_argmax (f := fun v : DocumentVersion B => v.versionNumber)
    (List.mem_filter.2 ⟨hv, by simpa using hfile⟩) h

end Sessions

/-! ## The protocol -/

/-- How far a writer is. -/
inductive Writing (B : Type)
  /-- It is outside its session. -/
  | free
  /-- It has the checkpoint lock, and if `closed` nothing written. -/
  | holding (closed : Bool)
  /-- It has the checkpoint lock and has read the latest version of the file. -/
  | numbering (file : FileId) (latest : Option (DocumentVersion B))
  /-- It prunes, and is about to delete these. -/
  | pruning (ids : List Nat)

/-- The version was committed, and so was a newer one of its file. -/
def Superseded (created : List VersionKey) (id : Nat) : Prop :=
  ∃ k ∈ created, k.id = id ∧ ∃ k' ∈ created, k.Below k'

theorem Superseded.mono {created created' : List VersionKey} {id : Nat}
    (h : Superseded created id) (hsub : created ⊆ created') : Superseded created' id := by
  obtain ⟨k, hk, hid, k', hk', hbelow⟩ := h
  exact ⟨k, hsub hk, hid, k', hsub hk', hbelow⟩

namespace Writing

variable {B : Type}

/-- What is the case when `p` is so far. -/
def Holds (db : VersionDb B) (p : Pid) : Writing B → Prop
  | free => db.lock ≠ some p
  | holding closed => db.lock = some p ∧ (closed = true → db.pending p = [])
  | numbering file latest => db.lock = some p ∧
      (∀ v ∈ latest, v.fileId = file ∧ v.key ∈ db.created ++ db.pending p) ∧
      ∀ k ∈ db.created ++ db.pending p, k.fileId = file →
        ∃ v ∈ latest, k.versionNumber ≤ v.versionNumber
  | pruning ids => db.lock ≠ some p ∧ ∀ id ∈ ids, Superseded db.created id

/-- It has the checkpoint lock. -/
def Locked : Writing B → Prop
  | holding _ | numbering _ _ => True
  | free | pruning _ => False

theorem Locked.lock_eq {db : VersionDb B} {p : Pid} {g : Writing B} (hg : g.Locked)
    (h : g.Holds db p) : db.lock = some p := by
  cases g with
  | free => cases hg
  | holding closed => exact h.1
  | numbering file latest => exact h.1
  | pruning ids => cases hg

theorem lock_ne {db : VersionDb B} {p : Pid} {g : Writing B} (hg : ¬g.Locked)
    (h : g.Holds db p) : db.lock ≠ some p := by
  cases g with
  | free => exact h
  | holding closed => exact absurd trivial hg
  | numbering file latest => exact absurd trivial hg
  | pruning ids => exact h.1

end Writing

structure NumberingInv {B : Type} (db : VersionDb B) (gs : Pid → Writing B) : Prop where
  numbered : ∀ p, Numbered (db.created ++ db.pending p)
  known : ∀ p, ∀ k ∈ db.created ++ db.pending p, k.id < db.nextId
  /-- Only the process that has the lock has inserted versions. -/
  only : ∀ p, db.lock ≠ some p → db.pending p = []
  rows : (db.versions.map (·.key)).Sublist db.created
  /-- Of what is gone there is a newer version. -/
  kept : ∀ k ∈ db.created, (∃ v ∈ db.versions, v.key = k) ∨ ∃ k' ∈ db.created, k.Below k'
  /-- What a session has deleted is superseded. -/
  doomed : ∀ p ids, .delete ids ∈ db.tx p → ∀ id ∈ ids, Superseded db.created id
  holds : ∀ p, (gs p).Holds db p

namespace NumberingInv

variable {B : Type} {db db' : VersionDb B} {gs : Pid → Writing B} {p q : Pid} {g' : Writing B}

/-- A step that leaves alone what `q` relies on. -/
structure Yields (q : Pid) (db db' : VersionDb B) : Prop where
  created : db.created ⊆ db'.created
  lock : db'.lock = some q ↔ db.lock = some q
  locked : db.lock = some q → db'.created = db.created ∧ db'.pending q = db.pending q

theorem holds_frame {g : Writing B} (h : g.Holds db q) (hy : Yields q db db') : g.Holds db' q := by
  cases g with
  | free => exact mt hy.lock.1 h
  | holding closed =>
    refine ⟨hy.lock.2 h.1, fun hclosed => ?_⟩
    rw [(hy.locked h.1).2]
    exact h.2 hclosed
  | numbering file latest =>
    obtain ⟨hcreated, hpending⟩ := hy.locked h.1
    refine ⟨hy.lock.2 h.1, ?_⟩
    rw [hcreated, hpending]
    exact h.2
  | pruning ids => exact ⟨mt hy.lock.1 h.1, fun id hid => (h.2 id hid).mono hy.created⟩

theorem holds_update (h : NumberingInv db gs) (hy : ∀ q, q ≠ p → Yields q db db')
    (hp : g'.Holds db' p) (q : Pid) : (Function.update gs p g' q).Holds db' q := by
  by_cases hq : q = p
  · subst hq
    rwa [Function.update_self]
  · rw [Function.update_of_ne hq]
    exact holds_frame (h.holds q) (hy q hq)

/-- Nothing is written. -/
theorem stay (h : NumberingInv db gs) (hp : g'.Holds db p) :
    NumberingInv db (Function.update gs p g') :=
  { h with holds := h.holds_update (fun _ _ => ⟨fun _ hk => hk, Iff.rfl, fun _ => ⟨rfl, rfl⟩⟩) hp }

theorem lock (h : NumberingInv db gs) (hl : db.lock = none) :
    NumberingInv { db with lock := some p } (Function.update gs p (.holding true)) where
  numbered := h.numbered
  known := h.known
  only q _ := h.only q (by simp [hl])
  rows := h.rows
  kept := h.kept
  doomed := h.doomed
  holds := by
    apply h.holds_update
    · intro q hq
      refine ⟨fun _ hk => hk, ?_, fun _ => ⟨rfl, rfl⟩⟩
      change some p = some q ↔ db.lock = some q
      rw [hl]
      simpa using Ne.symm hq
    · exact ⟨rfl, fun _ => h.only p (by simp [hl])⟩

theorem unlock (h : NumberingInv db gs) (hg : (Writing.holding true : Writing B).Holds db p) :
    NumberingInv { db with lock := none } (Function.update gs p .free) where
  numbered := h.numbered
  known := h.known
  only q _ := by
    by_cases hq : q = p
    · subst hq
      exact hg.2 rfl
    · apply h.only q
      rw [hg.1]
      simpa using Ne.symm hq
  rows := h.rows
  kept := h.kept
  doomed := h.doomed
  holds := by
    apply h.holds_update
    · intro q hq
      refine ⟨fun _ hk => hk, ?_, fun _ => ⟨rfl, rfl⟩⟩
      change none = some q ↔ db.lock = some q
      rw [hg.1]
      simpa using Ne.symm hq
    · exact nofun

@[simp] theorem pending_addWrite_self (w : TableWrite B) :
    (db.addWrite p w).pending p = db.pending p ++ w.key?.toList := by
  cases hw : w.key? with
  | none => simp [VersionDb.pending, VersionDb.addWrite, hw]
  | some k => simp [VersionDb.pending, VersionDb.addWrite, hw]

theorem pending_addWrite_of_ne (w : TableWrite B) (hq : q ≠ p) :
    (db.addWrite p w).pending q = db.pending q := by
  simp [VersionDb.pending, VersionDb.addWrite, hq]

theorem mem_tx_addWrite {w w' : TableWrite B} (h : w' ∈ (db.addWrite p w).tx q) :
    w' ∈ db.tx q ∨ q = p ∧ w' = w := by
  unfold VersionDb.addWrite at h
  by_cases hq : q = p
  · subst hq
    simpa using h
  · left
    simpa [hq] using h

/-- A write that inserts nothing. -/
theorem addWrite (h : NumberingInv db gs) {w : TableWrite B} (hw : w.key? = none)
    (hdoomed : ∀ ids, w = .delete ids → ∀ id ∈ ids, Superseded db.created id)
    (hp : g'.Holds db p) : NumberingInv (db.addWrite p w) (Function.update gs p g') := by
  have hpending : ∀ q, (db.addWrite p w).pending q = db.pending q := by
    intro q
    by_cases hq : q = p
    · subst hq
      rw [pending_addWrite_self, hw, Option.toList_none, List.append_nil]
    · exact pending_addWrite_of_ne w hq
  have hframe : ∀ q, Yields q db (db.addWrite p w) := fun q =>
    ⟨fun _ hk => hk, Iff.rfl, fun _ => ⟨rfl, hpending q⟩⟩
  refine ⟨?_, ?_, ?_, h.rows, h.kept, ?_, h.holds_update (fun q _ => hframe q)
    (holds_frame hp (hframe p))⟩
  · intro q
    rw [hpending]
    exact h.numbered q
  · intro q
    rw [hpending]
    exact h.known q
  · intro q hq
    rw [hpending]
    exact h.only q hq
  · intro q ids hids
    rcases mem_tx_addWrite hids with hids | ⟨-, rfl⟩
    · exact h.doomed q ids hids
    · exact hdoomed ids rfl

/-- The process that has the lock inserts a version with a new number. -/
theorem insert (h : NumberingInv db gs) {v : DocumentVersion B} (hl : db.lock = some p)
    (hid : v.id = db.nextId)
    (hnumber : ∀ k ∈ db.created ++ db.pending p, k.fileId = v.fileId →
      k.versionNumber < v.versionNumber) :
    NumberingInv { db.addWrite p (.insert v) with nextId := db.nextId + 1 }
      (Function.update gs p (.holding false)) := by
  have hself : (db.addWrite p (.insert v)).pending p = db.pending p ++ [v.key] := by simp
  have hother : ∀ q, q ≠ p → (db.addWrite p (.insert v)).pending q = db.pending q :=
    fun q hq => pending_addWrite_of_ne _ hq
  refine ⟨?_, ?_, ?_, h.rows, h.kept, ?_, ?_⟩
  · intro q
    change Numbered (db.created ++ (db.addWrite p (.insert v)).pending q)
    by_cases hq : q = p
    · subst hq
      rw [hself, ← List.append_assoc]
      apply List.pairwise_append.2
      refine ⟨h.numbered q, List.pairwise_singleton _ _, ?_⟩
      intro k hk k' hk'
      rw [List.mem_singleton.1 hk']
      refine ⟨?_, hnumber k hk⟩
      have hlt := h.known q k hk
      change k.id ≠ v.id
      omega
    · rw [hother q hq]
      exact h.numbered q
  · intro q k hk
    change k ∈ db.created ++ (db.addWrite p (.insert v)).pending q at hk
    by_cases hq : q = p
    · subst hq
      rw [hself, ← List.append_assoc] at hk
      rcases List.mem_append.1 hk with hk | hk
      · exact Nat.lt_succ_of_lt (h.known q k hk)
      · rw [List.mem_singleton.1 hk]
        change v.id < db.nextId + 1
        omega
    · rw [hother q hq] at hk
      exact Nat.lt_succ_of_lt (h.known q k hk)
  · intro q hq
    have hne : q ≠ p := by
      rintro rfl
      exact hq hl
    exact (hother q hne).trans (h.only q hq)
  · intro q ids hids
    rcases mem_tx_addWrite hids with hids | ⟨-, hw⟩
    · exact h.doomed q ids hids
    · cases hw
  · apply h.holds_update
    · intro q hq
      exact ⟨fun _ hk => hk, Iff.rfl, fun _ => ⟨rfl, hother q hq⟩⟩
    · exact ⟨hl, nofun⟩

theorem pending_closeSession_self : (db.closeSession p).pending p = [] := by
  simp [VersionDb.pending, VersionDb.closeSession]

theorem pending_closeSession_of_ne (hq : q ≠ p) :
    (db.closeSession p).pending q = db.pending q := by
  simp [VersionDb.pending, VersionDb.closeSession, hq]

/-- What session `p` has written is dropped. -/
theorem closeSession (h : NumberingInv db gs)
    (hp : g'.Holds (db.closeSession p) p) :
    NumberingInv (db.closeSession p) (Function.update gs p g') := by
  have hsub : ∀ q, (db.created ++ (db.closeSession p).pending q).Sublist
      (db.created ++ db.pending q) := by
    intro q
    by_cases hq : q = p
    · subst hq
      rw [pending_closeSession_self]
      exact (List.Sublist.refl _).append (List.nil_sublist _)
    · rw [pending_closeSession_of_ne hq]
  refine ⟨fun q => (h.numbered q).sublist (hsub q), fun q k hk => h.known q k ((hsub q).subset hk),
    ?_, h.rows, h.kept, ?_, h.holds_update ?_ hp⟩
  · intro q hq
    by_cases heq : q = p
    · subst heq
      exact pending_closeSession_self
    · rw [pending_closeSession_of_ne heq]
      exact h.only q hq
  · intro q ids hids
    unfold VersionDb.closeSession at hids
    by_cases hq : q = p
    · subst hq
      simp at hids
    · exact h.doomed q ids (by simpa [hq] using hids)
  · intro q hq
    exact ⟨fun _ hk => hk, Iff.rfl, fun _ => ⟨rfl, pending_closeSession_of_ne hq⟩⟩

/-- A version that a session does not see has a newer one. -/
theorem exists_view (h : NumberingInv db gs) {k : VersionKey} (hk : k ∈ db.created ++ db.pending p) :
    (∃ v ∈ db.view p, v.key = k) ∨ ∃ k' ∈ db.created, k.Below k' := by
  have hview : k ∈ db.versions.map (·.key) ++ db.pending p →
      (∃ v ∈ db.view p, v.key = k) ∨ ∃ k' ∈ db.created, k.Below k' := by
    intro hmem
    rcases exists_of_mem_foldl_apply hmem with hmem | ⟨ids, hids, hid⟩
    · exact .inl (List.mem_map.1 hmem)
    · -- the version that the session deleted under this id is this one
      obtain ⟨k', hk', hid', hbelow⟩ := h.doomed p ids hids _ hid
      have heq := (h.numbered p).eq_of_id_eq (List.mem_append_left _ hk') hk hid'
      subst heq
      exact .inr hbelow
  rcases List.mem_append.1 hk with hcreated | hpending
  · rcases h.kept k hcreated with ⟨v, hv, rfl⟩ | hbelow
    · exact hview (List.mem_append_left _ (List.mem_map_of_mem hv))
    · exact .inr hbelow
  · exact hview (List.mem_append_right _ hpending)

theorem commit (h : NumberingInv db gs) (hp : g'.Holds (db.commit p) p) :
    NumberingInv (db.commit p) (Function.update gs p g') := by
  have hpending : ∀ q, db.created ++ db.pending p ++ (db.closeSession p).pending q =
      db.created ++ db.pending p ∨ db.pending p = [] ∧ q ≠ p := by
    intro q
    by_cases hq : q = p
    · subst hq
      rw [pending_closeSession_self, List.append_nil]
      exact .inl rfl
    · by_cases hl : db.lock = some p
      · left
        rw [pending_closeSession_of_ne hq, h.only q, List.append_nil]
        rw [hl]
        simpa using Ne.symm hq
      · exact .inr ⟨h.only p hl, hq⟩
  have hall : ∀ q, ∃ q', db.created ++ db.pending p ++ (db.closeSession p).pending q =
      db.created ++ db.pending q' := by
    intro q
    rcases hpending q with heq | ⟨hnil, hq⟩
    · exact ⟨p, heq⟩
    · refine ⟨q, ?_⟩
      rw [hnil, List.append_nil, pending_closeSession_of_ne hq]
  refine ⟨?_, ?_, ?_, map_key_view h.rows, ?_, ?_, h.holds_update ?_ hp⟩
  · intro q
    obtain ⟨q', heq⟩ := hall q
    change Numbered (db.created ++ db.pending p ++ (db.closeSession p).pending q)
    rw [heq]
    exact h.numbered q'
  · intro q k hk
    obtain ⟨q', heq⟩ := hall q
    change k ∈ db.created ++ db.pending p ++ (db.closeSession p).pending q at hk
    rw [heq] at hk
    exact h.known q' k hk
  · intro q hq
    change (db.closeSession p).pending q = []
    by_cases heq : q = p
    · subst heq
      exact pending_closeSession_self
    · rw [pending_closeSession_of_ne heq]
      exact h.only q hq
  · intro k hk
    rcases h.exists_view hk with hview | ⟨k', hk', hbelow⟩
    · exact .inl hview
    · exact .inr ⟨k', List.mem_append_left _ hk', hbelow⟩
  · intro q ids hids id hid
    apply Superseded.mono _ (List.subset_append_left _ _)
    change TableWrite.delete ids ∈ (db.closeSession p).tx q at hids
    unfold VersionDb.closeSession at hids
    by_cases hq : q = p
    · subst hq
      simp at hids
    · exact h.doomed q ids (by simpa [hq] using hids) id hid
  · intro q hq
    refine ⟨List.subset_append_left _ _, Iff.rfl, fun hl => ⟨?_, pending_closeSession_of_ne hq⟩⟩
    have hnil : db.pending p = [] := by
      apply h.only
      rw [hl]
      simpa using hq
    change db.created ++ db.pending p = db.created
    rw [hnil, List.append_nil]

/-- The latest version that the process with the lock reads has the highest number. -/
theorem holds_numbering (h : NumberingInv db gs) (hl : db.lock = some p) (file : FileId) :
    (Writing.numbering file (db.latest p file)).Holds db p := by
  refine ⟨hl, ?_, ?_⟩
  · intro v hv
    obtain ⟨hmem, hfile, -⟩ := latest_eq_some hv
    exact ⟨hfile, (map_key_view h.rows).subset (List.mem_map_of_mem hmem)⟩
  · intro k hk hfile
    obtain ⟨k', -, hsame, ⟨v, hv, rfl⟩, hle⟩ := exists_newest
      (fun a b => a.fileId = b.fileId) (P := fun k => ∃ v ∈ db.view p, v.key = k)
      (fun _ => rfl) (fun _ _ _ hab hbc => hab.trans hbc)
      (fun a ha => (h.exists_view ha).imp_right fun ⟨b, hb, hbelow⟩ =>
        ⟨b, List.mem_append_left _ hb, hbelow⟩) hk
    have hvfile : v.fileId = file := hsame.symm.trans hfile
    cases hlatest : db.latest p file with
    | none => exact absurd hvfile (latest_eq_none hlatest hv)
    | some latest =>
      exact ⟨latest, rfl, hle.trans ((latest_eq_some hlatest).2.2 v hv hvfile)⟩

/-- What is to be pruned of the rows that a session reads is superseded. -/
theorem superseded_of_mem_versionsToPrune (h : NumberingInv db gs) {file : FileId} {now : Seconds}
    {id : Nat} (hpending : db.pending p = [])
    (hid : id ∈ versionsToPrune (versionRows (db.view p) file) now) :
    Superseded db.created id := by
  have hrows := map_key_view (p := p) h.rows
  rw [hpending, List.append_nil] at hrows
  have hnumbered : Numbered db.created := by
    have hnumbered := h.numbered p
    rwa [hpending, List.append_nil] at hnumbered
  obtain ⟨row, hrow, hrowid, newer, hnewer, hlt, -⟩ :=
    exists_newer_of_mem_versionsToPrune (nodup_versionRows hnumbered hrows file) hid
  obtain ⟨v, hv, rfl⟩ := List.mem_map.1 hrow
  obtain ⟨w, hw, rfl⟩ := List.mem_map.1 hnewer
  obtain ⟨hv, hvfile⟩ := List.mem_filter.1 hv
  obtain ⟨hw, hwfile⟩ := List.mem_filter.1 hw
  refine ⟨v.key, hrows.subset (List.mem_map_of_mem hv), hrowid,
    w.key, hrows.subset (List.mem_map_of_mem hw), ?_, hlt⟩
  exact (of_decide_eq_true hvfile).trans (of_decide_eq_true hwfile).symm

end NumberingInv

/-! ## The outline -/

section Outline

variable {B : Type} [DecidableEq B] {truthy : B → Bool} {stored : StoredVersions B}

/-- A version is added with the number that follows the latest one. -/
def numberingProtocol (truthy : B → Bool) (stored : StoredVersions B) :
    Protocol (versioning truthy stored) (Writing B) where
  Inv := NumberingInv
  At _ _ g o := ∀ file number payload createdAt savedBy,
    o = some (.addVersion file number payload createdAt savedBy) →
      ∃ latest, g = .numbering file latest ∧ number = nextNumber latest
  ok _ _ _ _ _ := True

variable {p : Pid} {r : VersionRequest} {g : Writing B}

/-- The operations that write nothing and keep to themselves what they read. -/
def VersionOp.aside : VersionOp B → Bool
  | listRooms | docToBytes _ | clock | closeWindow _ | selectBusy => true
  | _ => false

omit [DecidableEq B] in
theorem eq_of_statement {α : Type} {env : VersionEnv B} {db db' : VersionDb B} {value : α}
    {x : Except PyError α} (h : statement env db value db = some (x, db')) : db' = db := by
  unfold statement at h
  split at h <;> cases h <;> rfl

theorem aside_numbering {o : VersionOp B} (h : o.aside = true) (g : Writing B) :
    (numberingProtocol truthy stored).Steady p r g (versionOp o) := by
  apply Protocol.Triple.call
  · intro file number payload createdAt savedBy ho
    cases ho
    cases h
  · intro env db gs hinv hg _ x db' hx
    obtain rfl : db' = db := by
      cases o with
      | listRooms | docToBytes file | clock =>
        cases hx
        rfl
      | closeWindow file | selectBusy => exact eq_of_statement hx
      | _ => cases h
    refine ⟨g, ?_, ?_⟩
    · rw [← hg, Function.update_eq_self]
      exact hinv
    · cases x <;> rfl

theorem lockCheckpoint_numbering :
    (numberingProtocol truthy stored).Triple p r .free (versionOp .lockCheckpoint)
      (fun _ g => g = .holding true) fun _ _ => False := by
  apply Protocol.Triple.call (fun _ _ _ _ _ ho => nomatch ho)
  intro env db gs hinv hg _ x db' hx
  change (match db.lock with
    | some _ => none
    | none => some (.ok (), { db with lock := some p })) = some (x, db') at hx
  split at hx
  · cases hx
  · next hl =>
    cases hx
    exact ⟨.holding true, NumberingInv.lock hinv hl, rfl⟩

theorem unlockCheckpoint_numbering :
    (numberingProtocol truthy stored).Triple p r (.holding true) (versionOp .unlockCheckpoint)
      (fun _ g => g = .free) fun _ _ => False := by
  apply Protocol.Triple.call (fun _ _ _ _ _ ho => nomatch ho)
  intro env db gs hinv hg _ x db' hx
  cases hx
  have hp := NumberingInv.holds hinv p
  rw [hg] at hp
  exact ⟨.free, NumberingInv.unlock hinv hp, rfl⟩

theorem selectLatest_numbering (hg : g.Locked) (file : FileId) :
    (numberingProtocol truthy stored).Triple p r g (versionOp (.selectLatest file))
      (fun latest g => g = .numbering file latest) fun _ g => g.Locked := by
  apply Protocol.Triple.call (fun _ _ _ _ _ ho => nomatch ho)
  intro env db gs hinv hgs _ x db' hx
  subst hgs
  obtain rfl := eq_of_statement hx
  have hl := hg.lock_eq (NumberingInv.holds hinv p)
  have hstay : NumberingInv db' (Function.update gs p (gs p)) := by
    rw [Function.update_eq_self]
    exact hinv
  change statement env db' (db'.latest p file) db' = some (x, db') at hx
  unfold statement at hx
  split at hx <;> cases hx
  · exact ⟨_, NumberingInv.stay hinv (NumberingInv.holds_numbering hinv hl file), rfl⟩
  · exact ⟨gs p, hstay, hg⟩
  · exact ⟨gs p, hstay, hg⟩

theorem addVersion_numbering (file : FileId) (latest : Option (DocumentVersion B)) (payload : B)
    (createdAt : Seconds) (savedBy : Option UserId) :
    (numberingProtocol truthy stored).Triple p r (.numbering file latest)
      (versionOp (.addVersion file (nextNumber latest) payload createdAt savedBy))
      (fun _ g => g.Locked) fun _ _ => False := by
  apply Protocol.Triple.call
  · intro file' number' payload' createdAt' savedBy' ho
    cases ho
    exact ⟨latest, rfl, rfl⟩
  · intro env db gs hinv hg _ x db' hx
    cases hx
    have hp := NumberingInv.holds hinv p
    rw [hg] at hp
    refine ⟨.holding false, NumberingInv.insert hinv hp.1 rfl ?_, trivial⟩
    intro k hk hfile
    obtain ⟨v, hv, hle⟩ := hp.2.2 k hk hfile
    cases hv
    exact Nat.lt_succ_of_le hle

theorem markSaved_numbering (hg : g.Locked) (id : Nat) (user : UserId) :
    (numberingProtocol truthy stored).Triple p r g (versionOp (.markSaved id user))
      (fun _ g => g.Locked) fun _ _ => False := by
  apply Protocol.Triple.call (fun _ _ _ _ _ ho => nomatch ho)
  intro env db gs hinv hgs _ x db' hx
  subst hgs
  cases hx
  exact ⟨gs p, NumberingInv.addWrite hinv rfl nofun (NumberingInv.holds hinv p), hg⟩

theorem commit_locked_numbering (hg : g.Locked) :
    (numberingProtocol truthy stored).Triple p r g (versionOp .commit)
      (fun _ g => g.Locked) fun _ g => g.Locked := by
  apply Protocol.Triple.call (fun _ _ _ _ _ ho => nomatch ho)
  intro env db gs hinv hgs _ x db' hx
  subst hgs
  have hl := hg.lock_eq (NumberingInv.holds hinv p)
  have hcommit : NumberingInv (db.commit p) (Function.update gs p (.holding false)) :=
    NumberingInv.commit hinv ⟨hl, nofun⟩
  have hstay : NumberingInv db (Function.update gs p (gs p)) := by
    rw [Function.update_eq_self]
    exact hinv
  change statement env db () (db.commit p) = some (x, db') at hx
  unfold statement at hx
  split at hx <;> cases hx
  · exact ⟨_, hcommit, trivial⟩
  · exact ⟨gs p, hstay, hg⟩
  · exact ⟨_, hcommit, trivial⟩

theorem closeSession_locked_numbering (hg : g.Locked) :
    (numberingProtocol truthy stored).Triple p r g (versionOp .closeSession)
      (fun _ g => g = .holding true) fun _ _ => False := by
  apply Protocol.Triple.call (fun _ _ _ _ _ ho => nomatch ho)
  intro env db gs hinv hgs _ x db' hx
  subst hgs
  cases hx
  have hl := hg.lock_eq (NumberingInv.holds hinv p)
  have hclose : NumberingInv (db.closeSession p) (Function.update gs p (.holding true)) :=
    NumberingInv.closeSession hinv ⟨hl, fun _ => NumberingInv.pending_closeSession_self⟩
  exact ⟨_, hclose, rfl⟩

theorem checkpointVersion_numbering (hg : g.Locked) (file : FileId) (closing : Bool)
    (savedBy : Option UserId) :
    (numberingProtocol truthy stored).Triple p r g (checkpointVersion truthy file closing savedBy)
      (fun _ g => g.Locked) fun _ g => g.Locked := by
  apply (aside_numbering rfl g).andThen (fun _ => hg)
  intro payload
  apply Protocol.Triple.bind (selectLatest_numbering hg file)
  rintro latest _ rfl
  have hlocked : (Writing.numbering file latest).Locked := trivial
  -- what comes after the version is the same on every branch
  extract_lets rest
  have hrest : ∀ number (g' : Writing B), g'.Locked →
      (numberingProtocol truthy stored).Triple p r g' (rest number) (fun _ g => g.Locked)
        fun _ g => g.Locked := by
    intro number g' hg'
    apply Protocol.Triple.ite
    · intro _
      apply (aside_numbering rfl g').andThen (fun _ => hg')
      intro _
      exact Protocol.Triple.pure hg'
    · intro _
      exact Protocol.Triple.pure hg'
  apply Protocol.Triple.ite
  · intro _
    apply (aside_numbering rfl _).andThen (fun _ => hlocked)
    intro now
    apply Protocol.Triple.bind ((addVersion_numbering file latest payload now savedBy).mono
      (fun _ _ h => h) fun _ _ h => h.elim)
    intro _ g' hg'
    exact hrest _ g' hg'
  · intro _
    split
    · next user v _ _ =>
      split
      · apply Protocol.Triple.bind ((markSaved_numbering hlocked v.id user).mono
          (fun _ _ h => h) fun _ _ h => h.elim)
        intro _ g' hg'
        exact hrest _ g' hg'
      · exact hrest _ _ hlocked
    · exact hrest _ _ hlocked

theorem checkpointVersions_numbering (due : FileId → Bool) (rooms : List FileId)
    (hg : g.Locked) :
    (numberingProtocol truthy stored).Triple p r g (checkpointVersions truthy due rooms)
      (fun _ g => g.Locked) fun _ g => g.Locked := by
  induction rooms generalizing g with
  | nil => exact Protocol.Triple.pure hg
  | cons file rest ih =>
    apply Protocol.Triple.bind (checkpointVersion_numbering hg file (due file) none)
    intro _ g' hg'
    exact ih hg'

/-- Whatever happens under the lock, the session is closed and the lock released. -/
theorem underLock_numbering {α : Type} {body : VersionPy B α}
    (hbody : (numberingProtocol truthy stored).Triple p r (.holding true) body
      (fun _ g => g.Locked) fun _ g => g.Locked) :
    (numberingProtocol truthy stored).Triple p r .free (underLock body)
      (fun _ g => g = .free) fun _ g => g = .free := by
  apply Protocol.Triple.bind (lockCheckpoint_numbering.mono (fun _ _ h => h) fun _ _ h => h.elim)
  rintro _ _ rfl
  apply Protocol.Triple.andFinally (Q := fun _ g => g = .holding true)
    (E := fun _ g => g = .holding true)
  · exact Protocol.Triple.andFinally hbody
      (fun _ _ hg => (closeSession_locked_numbering hg).mono (fun _ _ h => h) fun _ _ h => h.elim)
      fun _ _ hg => (closeSession_locked_numbering hg).mono (fun _ _ h => h) fun _ _ h => h.elim
  · rintro _ _ rfl
    exact unlockCheckpoint_numbering.mono (fun _ _ h => h) fun _ _ h => h.elim
  · rintro _ _ rfl
    exact unlockCheckpoint_numbering.mono (fun _ _ h => h) fun _ _ h => h.elim

theorem selectRows_numbering (hg : ¬g.Locked) (now : Seconds) (file : FileId) :
    (numberingProtocol truthy stored).Triple p r g (versionOp (.selectRows file))
      (fun rows g => g = .pruning (versionsToPrune rows now)) fun _ g => ¬g.Locked := by
  apply Protocol.Triple.call (fun _ _ _ _ _ ho => nomatch ho)
  intro env db gs hinv hgs _ x db' hx
  subst hgs
  obtain rfl := eq_of_statement hx
  have hl := Writing.lock_ne hg (NumberingInv.holds hinv p)
  have hstay : NumberingInv db' (Function.update gs p (gs p)) := by
    rw [Function.update_eq_self]
    exact hinv
  have hprune : (Writing.pruning (versionsToPrune (versionRows (db'.view p) file) now)).Holds
      db' p := by
    refine ⟨hl, fun id hid => ?_⟩
    exact NumberingInv.superseded_of_mem_versionsToPrune hinv (NumberingInv.only hinv p hl) hid
  change statement env db' (versionRows (db'.view p) file) db' = some (x, db') at hx
  unfold statement at hx
  split at hx <;> cases hx
  · exact ⟨_, NumberingInv.stay hinv hprune, rfl⟩
  · exact ⟨gs p, hstay, hg⟩
  · exact ⟨gs p, hstay, hg⟩

theorem deleteVersions_numbering {ids batch : List Nat} (hsub : batch ⊆ ids) :
    (numberingProtocol truthy stored).Steady p r (.pruning ids)
      (versionOp (.deleteVersions batch)) := by
  apply Protocol.Triple.call (fun _ _ _ _ _ ho => nomatch ho)
  intro env db gs hinv hgs _ x db' hx
  have hp := NumberingInv.holds hinv p
  rw [hgs] at hp
  have hdelete : NumberingInv (db.addWrite p (.delete batch))
      (Function.update gs p (.pruning ids)) := by
    apply NumberingInv.addWrite hinv rfl _ hp
    intro ids' hids' id hid
    cases hids'
    exact hp.2 id (hsub hid)
  change statement env db () (db.addWrite p (.delete batch)) = some (x, db') at hx
  unfold statement at hx
  split at hx <;> cases hx
  · exact ⟨_, hdelete, rfl⟩
  · exact ⟨_, NumberingInv.stay hinv hp, rfl⟩
  · exact ⟨_, hdelete, rfl⟩

theorem deleteBatches_numbering {ids : List Nat} {batches : List (List Nat)}
    (hsub : ∀ batch ∈ batches, batch ⊆ ids) :
    (numberingProtocol truthy stored).Steady p r (.pruning ids)
      (batches.forM fun batch => versionOp (.deleteVersions batch)) := by
  induction batches with
  | nil => exact Protocol.Steady.pure ()
  | cons batch rest ih =>
    rw [List.forM]
    apply (deleteVersions_numbering (hsub batch List.mem_cons_self)).bind
    intro _
    exact ih fun batch hbatch => hsub batch (List.mem_cons_of_mem _ hbatch)

theorem deleteOldVersions_numbering (hg : ¬g.Locked) (now : Seconds) (file : FileId) :
    (numberingProtocol truthy stored).Triple p r g (deleteOldVersions now file)
      (fun _ g => ¬g.Locked) fun _ g => ¬g.Locked := by
  apply Protocol.Triple.bind (selectRows_numbering hg now file)
  rintro rows _ rfl
  apply (deleteBatches_numbering _).triple (fun _ => nofun) fun _ => nofun
  intro batch hbatch id hid
  exact mem_of_mem_deleteBatches hbatch hid

theorem deleteOldVersions_forM_numbering (now : Seconds) (busy : List FileId)
    (hg : ¬g.Locked) :
    (numberingProtocol truthy stored).Triple p r g (busy.forM (deleteOldVersions now))
      (fun _ g => ¬g.Locked) fun _ g => ¬g.Locked := by
  induction busy generalizing g with
  | nil => exact Protocol.Triple.pure hg
  | cons file rest ih =>
    rw [List.forM]
    apply Protocol.Triple.bind (deleteOldVersions_numbering hg now file)
    intro _ g' hg'
    exact ih hg'

theorem commit_unlocked_numbering (hg : ¬g.Locked) :
    (numberingProtocol truthy stored).Triple p r g (versionOp .commit)
      (fun _ g => ¬g.Locked) fun _ g => ¬g.Locked := by
  apply Protocol.Triple.call (fun _ _ _ _ _ ho => nomatch ho)
  intro env db gs hinv hgs _ x db' hx
  subst hgs
  have hl := Writing.lock_ne hg (NumberingInv.holds hinv p)
  have hcommit : NumberingInv (db.commit p) (Function.update gs p .free) :=
    NumberingInv.commit hinv hl
  have hstay : NumberingInv db (Function.update gs p (gs p)) := by
    rw [Function.update_eq_self]
    exact hinv
  change statement env db () (db.commit p) = some (x, db') at hx
  unfold statement at hx
  split at hx <;> cases hx
  · exact ⟨_, hcommit, nofun⟩
  · exact ⟨gs p, hstay, hg⟩
  · exact ⟨_, hcommit, nofun⟩

theorem closeSession_unlocked_numbering (hg : ¬g.Locked) :
    (numberingProtocol truthy stored).Triple p r g (versionOp .closeSession)
      (fun _ _ => True) fun _ _ => True := by
  apply Protocol.Triple.call (fun _ _ _ _ _ ho => nomatch ho)
  intro env db gs hinv hgs _ x db' hx
  subst hgs
  cases hx
  have hl := Writing.lock_ne hg (NumberingInv.holds hinv p)
  exact ⟨.free, NumberingInv.closeSession hinv hl, trivial⟩

theorem pruneAll_numbering :
    (numberingProtocol truthy stored).Triple p r .free (pruneAll (B := B)) (fun _ _ => True)
      fun _ _ => True := by
  apply (aside_numbering rfl _).andThen (fun _ => trivial)
  intro now
  have hfree : ¬(Writing.free : Writing B).Locked := nofun
  have hbody : (numberingProtocol truthy stored).Triple p r .free
      (do
        let busy ← versionOp (B := B) .selectBusy
        busy.forM (deleteOldVersions now)
        versionOp .commit)
      (fun _ g => ¬g.Locked) fun _ g => ¬g.Locked := by
    apply (aside_numbering rfl _).andThen (fun _ => hfree)
    intro busy
    apply Protocol.Triple.bind (deleteOldVersions_forM_numbering now busy hfree)
    intro _ g' hg'
    exact commit_unlocked_numbering hg'
  exact Protocol.Triple.andFinally hbody (fun _ _ hg => closeSession_unlocked_numbering hg)
    fun _ _ hg => closeSession_unlocked_numbering hg

theorem VersionRequest.program_numbering (request : VersionRequest) :
    (numberingProtocol truthy stored).Triple p r .free (request.program truthy)
      (fun _ _ => True) fun _ _ => True := by
  have hheld : (Writing.holding true : Writing B).Locked := trivial
  cases request with
  | checkpointOnce due =>
    apply (aside_numbering rfl _).andThen (fun _ => trivial)
    intro rooms
    apply Protocol.Triple.ite
    · intro _
      exact Protocol.Triple.pure trivial
    · intro _
      apply (underLock_numbering _).mono (fun _ _ _ => trivial) fun _ _ _ => trivial
      apply (aside_numbering rfl _).andThen (fun _ => trivial)
      intro rooms
      apply Protocol.Triple.bind (checkpointVersions_numbering due rooms hheld)
      intro _ g' hg'
      exact commit_locked_numbering hg'
  | saveRoom file user =>
    apply (underLock_numbering _).mono (fun _ _ _ => trivial) fun _ _ _ => trivial
    apply Protocol.Triple.bind (checkpointVersion_numbering hheld file true user)
    intro _ g' hg'
    exact commit_locked_numbering hg'
  | pruneVersions => exact pruneAll_numbering

/-- The outline of version numbering. -/
def numberingOutline (truthy : B → Bool) (stored : StoredVersions B) :
    Outline (numberingProtocol truthy stored) where
  idle := .free
  start _ _ := .free
  done _ _ _ _ := True
  init := {
    numbered := fun _ => by
      rw [show (versioning truthy stored).init.pending _ = [] from rfl, List.append_nil]
      exact stored.numbered
    known := fun _ k hk => by
      rw [show (versioning truthy stored).init.pending _ = [] from rfl, List.append_nil] at hk
      obtain ⟨v, hv, rfl⟩ := List.mem_map.1 hk
      exact stored.known v hv
    only := fun _ _ => rfl
    rows := List.Sublist.refl _
    kept := fun k hk => .inl (List.mem_map.1 hk)
    doomed := fun _ _ hids => nomatch hids
    holds := fun _ => nofun }
  spawn _ _ _ _ h hg := by
    rw [← hg, Function.update_eq_self]
    exact h
  body _ request := Protocol.Follows.mono (VersionRequest.program_numbering request)
    fun _ _ _ => trivial
  at_end _ _ _ _ _ := nofun

end Outline

/-! ## The claim -/

section

variable {B : Type} [DecidableEq B] {truthy : B → Bool} {stored : StoredVersions B}

/-- A configuration of the writers. -/
abbrev VersionConfig (B : Type) : Type :=
  Config (VersionOp B) (fun o => Except PyError o.Val) (VersionDb B) VersionRequest
    (Except PyError Unit)

/-- What process `p` does next. -/
def VersionConfig.next? (cfg : VersionConfig B) (p : Pid) : Option (VersionOp B) :=
  (cfg.procs p).bind fun proc => proc.rest.next?

/-- **Version numbers are never reused.** A version is added with a number above every number that
was ever committed for its file, or that its session has added, and with 1 if there is none; no two
versions of a file have one number; and the version with the highest number of a file is there. -/
theorem version_numbers_increase {cfg : VersionConfig B}
    (h : (versioning truthy stored).system.Reachable cfg) :
    (∀ p file number payload createdAt savedBy,
      VersionConfig.next? cfg p = some (.addVersion file number payload createdAt savedBy) →
        (∀ k ∈ cfg.shared.created ++ cfg.shared.pending p, k.fileId = file →
          k.versionNumber < number) ∧
        ((∀ k ∈ cfg.shared.created ++ cfg.shared.pending p, k.fileId ≠ file) → number = 1)) ∧
    Numbered cfg.shared.created ∧
    (cfg.shared.versions.Pairwise fun v w =>
      v.fileId = w.fileId → v.versionNumber ≠ w.versionNumber) ∧
    ∀ k ∈ cfg.shared.created,
      (∀ k' ∈ cfg.shared.created, k'.fileId = k.fileId → k'.versionNumber ≤ k.versionNumber) →
        ∃ v ∈ cfg.shared.versions, v.key = k := by
  obtain ⟨gs, hfits⟩ := (numberingOutline truthy stored).sound
    (fun cfg l _ _ => Machine.guard_of_forall (fun _ _ _ _ _ => trivial) cfg l) h
  have hinv : NumberingInv cfg.shared gs := hfits.1
  have hnumbered : Numbered cfg.shared.created :=
    (hinv.numbered 0).sublist (List.sublist_append_left _ _)
  refine ⟨?_, hnumbered, ?_, ?_⟩
  · intro p file number payload createdAt savedBy hnext
    obtain ⟨⟨r, prog⟩, hp, hprog⟩ := Option.bind_eq_some_iff.1 hnext
    obtain ⟨latest, hg, rfl⟩ := hfits.at_next hp file number payload createdAt savedBy hprog
    have hheld := hinv.holds p
    rw [hg] at hheld
    obtain ⟨-, hlatest, habove⟩ := hheld
    constructor
    · intro k hk hfile
      obtain ⟨v, hv, hle⟩ := habove k hk hfile
      cases hv
      exact Nat.lt_succ_of_le hle
    · intro hnone
      cases latest with
      | none => rfl
      | some v =>
        obtain ⟨hfile, hmem⟩ := hlatest v rfl
        exact absurd hfile (hnone v.key hmem)
  · have hrows := List.Pairwise.sublist hinv.rows hnumbered
    apply (List.pairwise_map.1 hrows).imp
    intro v w hvw hfile
    exact Nat.ne_of_lt (hvw.2 hfile)
  · intro k hk htop
    rcases hinv.kept k hk with hv | ⟨k', hk', hfile, hlt⟩
    · exact hv
    · exact absurd (htop k' hk' hfile.symm) (Nat.not_le.2 hlt)

end

/-- Process `p` runs its operations undisturbed. -/
def undisturbedWriter (p : Pid) (payload : Nat) (n : Nat) :
    List (Label (VersionEnv Nat) VersionRequest) :=
  List.replicate n (.run p { payload })

/-- A second Save of a file is about to be numbered. -/
theorem version_numbers_increase_second : ∃ cfg : VersionConfig Nat,
    (VersionConfig.next? cfg 1).any (fun o => match o with
      | .addVersion 0 2 _ _ _ => true
      | _ => false) = true ∧
    cfg.shared.created = [⟨0, 0, 1, 0⟩] ∧ Numbered cfg.shared.created := by
  let stored : StoredVersions Nat := ⟨[], 0, List.Pairwise.nil, nofun⟩
  have hrun : ((versioning (fun _ => true) stored).system.replay System.anyStep
      (versioning (fun _ => true) stored).system.init
      (.spawn 0 (.saveRoom 0 (some 0)) :: undisturbedWriter 0 7 9 ++
        .spawn 1 (.saveRoom 0 (some 0)) :: undisturbedWriter 1 8 4)).any
      (fun cfg : VersionConfig Nat =>
        (VersionConfig.next? cfg 1).any (fun o => match o with
          | .addVersion 0 2 _ _ _ => true
          | _ => false) && cfg.shared.created = [⟨0, 0, 1, 0⟩]) = true := by decide
  obtain ⟨cfg, hcfg, hnext⟩ := System.exists_reachable hrun
  simp only [Bool.and_eq_true, decide_eq_true_eq] at hnext
  exact ⟨cfg, hnext.1, hnext.2, (version_numbers_increase hcfg).2.1⟩

end Concord
