import Concord.Base.Outline
import Concord.Realtime.Rooms

/-!
# The programs of the realtime service

`open_room` and `replace_text` of `realtime/rooms.py`, the checkpointer of
`realtime/checkpoint.py`, the loop of `collab_socket` in `realtime/gateway.py`, and the two requests
that save and restore a file.
-/

namespace Concord

open Concord.Base Async

section Programs

variable {B : Type} [DecidableEq B] (truthy : B → Bool)

/-- `open_room`: the file's live room, loaded from its latest checkpoint the first time. -/
def openRoom (file : FileId) : RoomPy B RoomRef := do
  let room ← awaitOp (.getOrCreateRoom file)
  awaitOp (.lockRoom room)
  andFinally
    (do
      let hydrated ← awaitOp (.readHydrated room)
      if hydrated then pure ()
      else do
        let latest ← awaitOp (.selectLatest file)
        awaitOp (.hydrate room latest))
    (awaitOp (.unlockRoom room))
  return room

/-- `replace_text`. -/
def replaceText (room : RoomRef) (newText : List Char) (user : UserId) : RoomPy B Bool := do
  awaitOp (.lockRoom room)
  andFinally
    (do
      let update ← awaitOp (.textEditUpdate room newText)
      match update with
      | none => return false
      | some update => do
        awaitOp (.applyEdit room user update)
        return true)
    (awaitOp (.unlockRoom room))

/-- `CheckpointResult`. -/
structure CheckpointResult where
  version : Option Nat
  created : Bool
  savedAt : Option Seconds
deriving DecidableEq, Repr

/-- `_checkpoint_room`: a new version, unless the latest one is the same. -/
def checkpointRoom (room : RoomRef) (savedBy : Option UserId) : RoomPy B CheckpointResult := do
  let payload ← awaitOp (.docToBytes room)
  let latest ← awaitOp (.selectLatest room.file)
  if truthy payload && latest.all (·.snapshotBytes ≠ payload) then do
    let number := match latest with
      | some v => v.versionNumber + 1
      | none => 1
    let now ← awaitOp .clock
    awaitOp (.write room.file (.insert
      { versionNumber := number, snapshotBytes := payload, createdAt := now, savedBy }))
    return ⟨some number, true, some now⟩
  else do
    match savedBy, latest with
    -- saving right after an autosave of the same text: that version is now a save
    | some user, some v =>
      if v.savedBy.isNone then awaitOp (.write room.file (.markSaved v.versionNumber user))
      else pure ()
    | _, _ => pure ()
    return ⟨latest.map (·.versionNumber), false, latest.map (·.createdAt)⟩

/-- `async with _lock, AsyncSessionLocal() as db: …`. -/
def withCheckpointLock {α : Type} (body : RoomPy B α) : RoomPy B α := do
  awaitOp .lockCheckpoint
  andFinally (andFinally body (awaitOp .closeSession)) (awaitOp .unlockCheckpoint)

/-- The loop of `checkpoint_once`. -/
def checkpointAll : List RoomRef → RoomPy B Unit
  | [] => pure ()
  | room :: rest => do
    let _ ← checkpointRoom truthy room none
    checkpointAll rest

/-- `checkpoint_once`. -/
def checkpointOnce : RoomPy B Unit := do
  let anyRooms ← awaitOp .hasRooms
  if anyRooms then
    withCheckpointLock do
      let rooms ← awaitOp .listRooms
      checkpointAll truthy rooms
      awaitOp .commit
  else
    pure ()

/-- `save_room`. -/
def saveRoom (room : RoomRef) (user : Option UserId) : RoomPy B CheckpointResult :=
  withCheckpointLock do
    let result ← checkpointRoom truthy room user
    awaitOp .commit
    return result

/-- `save_file`, as far as it saves a live room. -/
def saveFile (file : FileId) (user : UserId) : RoomPy B Unit := do
  let room ← awaitOp (.getRoom file)
  match room with
  | none => pure ()
  | some room => do
    let hydrated ← awaitOp (.readHydrated room)
    if hydrated then do
      let _ ← saveRoom truthy room (some user)
    else
      pure ()

/-- `restore_version`, and `restore_snapshot` for one of its files: `newText` is the text of the
version or of the snapshot. -/
def restoreFile (file : FileId) (newText : List Char) (user : UserId) : RoomPy B Unit := do
  let room ← openRoom file
  let _ ← replaceText room newText user
  let _ ← saveRoom truthy room (some user)

/-- What `collab_socket` does with an update: apply it under the room's lock and acknowledge it. The
`except` clause answers with an error message. -/
def handleUpdate (room : RoomRef) (user : UserId) (update : B) : RoomPy B Unit :=
  tryExcept
    (do
      awaitOp (.lockRoom room)
      andFinally (awaitOp (.applyEdit room user update)) (awaitOp (.unlockRoom room))
      awaitOp (.ack room update))
    (fun _ => true) fun _ => pure ()

/-- The loop of `collab_socket`, for at most `rounds` messages. -/
def receiveLoop (room : RoomRef) (user : UserId) (role : Role) : Nat → RoomPy B Unit
  | 0 => awaitOp .outOfRounds
  | rounds + 1 => do
    let message ← awaitOp .receive
    match message with
    | .disconnect => pure ()
    | .other => receiveLoop room user role rounds
    | .update data =>
      if role.rank < 1 then
        receiveLoop room user role rounds
      else do
        handleUpdate room user data
        receiveLoop room user role rounds

/-- `collab_socket`, once the client is admitted. -/
def collabSocket (file : FileId) (user : UserId) (role : Role) (rounds : Nat) :
    RoomPy B Unit := do
  let _ ← openRoom file
  let room ← awaitOp (.attach file)
  andFinally (receiveLoop room user role rounds) (awaitOp (.detach room))

end Programs

/-- What starts a process of the realtime service. -/
inductive RoomRequest
  | collabSocket (file : FileId) (user : UserId) (role : Role) (rounds : Nat)
  | saveFile (file : FileId) (user : UserId)
  | restoreFile (file : FileId) (newText : List Char) (user : UserId)
  | checkpointOnce
  | cleanupUnusedRooms (ttl : Seconds)

/-- The program of a request; what it has in local variables goes when it returns. -/
def RoomRequest.program {B : Type} [DecidableEq B] (truthy : B → Bool) :
    RoomRequest → RoomPy B Unit
  | collabSocket file user role rounds =>
    andFinally (Concord.collabSocket file user role rounds) (awaitOp .leave)
  | saveFile file user => andFinally (Concord.saveFile truthy file user) (awaitOp .leave)
  | restoreFile file newText user =>
    andFinally (Concord.restoreFile truthy file newText user) (awaitOp .leave)
  | checkpointOnce => Concord.checkpointOnce truthy
  | cleanupUnusedRooms ttl => do let _ ← awaitOp (.cleanupUnusedRooms ttl)

section Machine

variable {U B : Type} [DecidableEq U] [DecidableEq B] (C : Pycrdt U B)

/-- The versions stored before the process started, with histories that go forward. -/
structure Stored where
  versions : FileId → List (Version B)
  forward : ∀ f, C.Forward (versions f)

/-- The realtime service, started on stored versions, with no rooms. -/
def realtime (stored : Stored C) :
    Machine (RoomOp B) (fun o => Except PyError o.Val) (RoomEnv B) (Hub U B) RoomRequest
      (Except PyError Unit) where
  init := { versions := stored.versions }
  exec := fun p o env st => RoomOp.run C p env st o
  body := fun _ r => (r.program C.truthy).run

variable (U B) in
/-- A configuration of the realtime service. -/
abbrev RealtimeConfig :=
  Config (RoomOp B) (fun o => Except PyError o.Val) (Hub U B) RoomRequest (Except PyError Unit)

end Machine

end Concord
