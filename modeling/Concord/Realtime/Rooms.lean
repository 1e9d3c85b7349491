import Concord.Base.Program
import Concord.Realtime.Crdt
import Mathlib

/-!
# Live rooms

The registry of `realtime/manager.py` with its `Room` objects, and the database rows the
checkpointer writes. A room object lives on while somebody has got hold of it, also when the
registry has let go of it. Attribution windows, cursors, send queues and the project sockets are
left out: nothing here depends on them.

The operations are what one process does between two awaits, or less.
-/

namespace Concord

open Concord.Base

/-- A `Room` object, with the file it was made for. A file belongs to one project, so its id stands
for the key `(project_id, file_id)`. -/
structure RoomRef where
  id : Nat
  file : FileId
deriving DecidableEq, Repr

structure Room (U : Type) where
  doc : Finset U := ∅
  /-- The sockets attached, each named by the process that serves it. -/
  connections : List Pid := []
  lock : Option Pid := none
  lastAccessed : Seconds
  hydrated : Bool := false

/-- A write to `document_versions` that is not committed yet. -/
inductive VersionWrite (B : Type)
  /-- `db.add(DocumentVersion(…))`. -/
  | insert (row : Version B)
  /-- `latest.saved_by = …`. -/
  | markSaved (versionNumber : Nat) (user : UserId)
deriving DecidableEq, Repr

/-- One write to the rows of a file, applied. -/
def VersionWrite.apply {B : Type} (rows : List (Version B)) : VersionWrite B → List (Version B)
  | insert row => rows ++ [row]
  | markSaved number user => rows.map fun v =>
      if v.versionNumber = number then { v with savedBy := some user } else v

/-- What the processes share: the manager's registry and rooms, the checkpoint lock, and the
versions. `borrowed` lists the rooms that running requests have in a local variable, `acked` the
updates acknowledged so far. -/
structure Hub (U B : Type) where
  registry : List RoomRef := []
  room : RoomRef → Room U := fun _ => { lastAccessed := 0 }
  nextRoom : Nat := 0
  borrowed : List (Pid × RoomRef) := []
  checkpointLock : Option Pid := none
  versions : FileId → List (Version B)
  tx : Pid → FileId → List (VersionWrite B) := fun _ _ => []
  acked : FileId → Finset U := fun _ => ∅

namespace Hub

variable {U B : Type} (st : Hub U B) (p : Pid)

/-- The rows of a file as session `p` sees them. -/
def view (f : FileId) : List (Version B) := (st.tx p f).foldl VersionWrite.apply (st.versions f)

/-- `_rooms.get(key)`. -/
def registered? (f : FileId) : Option RoomRef := st.registry.find? (·.file = f)

def setRoom (r : RoomRef) (x : Room U) : Hub U B :=
  { st with room := Function.update st.room r x }

/-- The part of `get_or_create_room` that finds or makes the room. -/
def getOrCreateRoom (f : FileId) (now : Seconds) : RoomRef × Hub U B :=
  match st.registered? f with
  | some r => (r, st.setRoom r { st.room r with lastAccessed := now })
  | none =>
    (⟨st.nextRoom, f⟩,
      { st.setRoom ⟨st.nextRoom, f⟩ { lastAccessed := now } with
        registry := st.registry ++ [⟨st.nextRoom, f⟩]
        nextRoom := st.nextRoom + 1 })

/-- `p` has got hold of the room. -/
def borrow (r : RoomRef) : Hub U B := { st with borrowed := (p, r) :: st.borrowed }

/-- A write of session `p`. -/
def addWrite (f : FileId) (w : VersionWrite B) : Hub U B :=
  { st with
    tx := Function.update st.tx p (Function.update (st.tx p) f (st.tx p f ++ [w])) }

/-- The session of `p` is closed; what it has not committed is dropped. -/
def closeSession : Hub U B := { st with tx := Function.update st.tx p fun _ => [] }

def commit : Hub U B := { st.closeSession p with versions := st.view p }

/-- `not room.connections and (now - room.last_accessed) > ttl_seconds`. -/
def unused (now ttl : Seconds) (r : RoomRef) : Bool :=
  (st.room r).connections.isEmpty && ttl < now - (st.room r).lastAccessed

variable {st} {p}

theorem registered?_eq_some_iff (hk : (st.registry.map (·.file)).Nodup) {f : FileId}
    {r : RoomRef} : st.registered? f = some r ↔ r ∈ st.registry ∧ r.file = f := by
  unfold Hub.registered?
  constructor
  · intro h
    exact ⟨List.mem_of_find?_eq_some h, by simpa using List.find?_some h⟩
  · rintro ⟨hr, rfl⟩
    cases hf : st.registry.find? (·.file = r.file) with
    | none => simpa using List.find?_eq_none.1 hf r hr
    | some r' =>
      have hr' := List.mem_of_find?_eq_some hf
      have hfile : r'.file = r.file := by simpa using List.find?_some hf
      rw [List.inj_on_of_nodup_map hk hr' hr hfile]

theorem view_of_idle (hp : st.tx p = fun _ => []) (f : FileId) : st.view p f = st.versions f := by
  simp [view, hp]

end Hub

/-- What a connection receives from its client. -/
inductive SocketMessage (B : Type)
  /-- `op: update`, with its payload decoded from Base64 as far as that goes. -/
  | update (data : B)
  | other
  | disconnect
deriving DecidableEq, Repr

inductive RoomOp (B : Type)
  | getOrCreateRoom (file : FileId)
  | getRoom (file : FileId)
  | hasRooms
  | listRooms
  /-- `attach`: `get_or_create_room`, `touch` and the new connection. -/
  | attach (file : FileId)
  | detach (room : RoomRef)
  /-- `cleanup_unused_rooms`. -/
  | cleanupUnusedRooms (ttl : Seconds)
  | lockRoom (room : RoomRef)
  | unlockRoom (room : RoomRef)
  | readHydrated (room : RoomRef)
  /-- `room.doc = doc_from_bytes(…)` if there is a version; `room.hydrated = True`. -/
  | hydrate (room : RoomRef) (latest : Option (Version B))
  | receive
  | applyEdit (room : RoomRef) (user : UserId) (update : B)
  | ack (room : RoomRef) (update : B)
  | textEditUpdate (room : RoomRef) (newText : List Char)
  | lockCheckpoint
  | unlockCheckpoint
  | docToBytes (room : RoomRef)
  | selectLatest (file : FileId)
  | clock
  | write (file : FileId) (w : VersionWrite B)
  | commit
  | closeSession
  /-- The request returns, and its local variables with it. -/
  | leave
  /-- A socket has sent the messages it sends in this run. -/
  | outOfRounds
deriving DecidableEq

@[reducible] def RoomOp.Val {B : Type} : RoomOp B → Type
  | getOrCreateRoom _ | attach _ => RoomRef
  | getRoom _ => Option RoomRef
  | hasRooms | readHydrated _ => Bool
  | listRooms => List RoomRef
  | cleanupUnusedRooms _ => Nat
  | receive => SocketMessage B
  | textEditUpdate _ _ => Option B
  | docToBytes _ => B
  | selectLatest _ => Option (Version B)
  | clock => Seconds
  | _ => Unit

/-- What the environment decides for one operation. -/
structure RoomEnv (B : Type) where
  now : Seconds := 0
  message : SocketMessage B := .disconnect

namespace RoomOp

variable {U B : Type} [DecidableEq U] (C : Pycrdt U B) (p : Pid) (env : RoomEnv B) (st : Hub U B)

/-- The result and effect of an operation; `none` while it has to wait. -/
def run : (o : RoomOp B) → Option (Except PyError o.Val × Hub U B)
  | getOrCreateRoom f =>
    let (r, st') := st.getOrCreateRoom f env.now
    some (.ok r, st'.borrow p r)
  | getRoom f =>
    match st.registered? f with
    | some r => some (.ok (some r), st.borrow p r)
    | none => some (.ok none, st)
  | hasRooms => some (.ok (!st.registry.isEmpty), st)
  | listRooms => some (.ok st.registry, st)
  | attach f =>
    let (r, st') := st.getOrCreateRoom f env.now
    let room := st'.room r
    some (.ok r, (st'.setRoom r
      { room with lastAccessed := env.now, connections := p :: room.connections }).borrow p r)
  | detach r =>
    let room := st.room r
    some (.ok (), st.setRoom r { room with connections := room.connections.filter (· ≠ p) })
  | cleanupUnusedRooms ttl =>
    some (.ok (st.registry.filter (st.unused env.now ttl)).length,
      { st with registry := st.registry.filter fun r => !st.unused env.now ttl r })
  | lockRoom r =>
    match (st.room r).lock with
    | some _ => none
    | none => some (.ok (), st.setRoom r { st.room r with lock := some p })
  | unlockRoom r => some (.ok (), st.setRoom r { st.room r with lock := none })
  | readHydrated r => some (.ok (st.room r).hydrated, st)
  | hydrate r latest =>
    match latest with
    | none => some (.ok (), st.setRoom r { st.room r with hydrated := true })
    | some v =>
      match C.docFromBytes v.snapshotBytes with
      | some doc => some (.ok (), st.setRoom r { st.room r with doc, hydrated := true })
      | none => some (.error .other, st)
  | receive => some (.ok env.message, st)
  | applyEdit r _ update =>
    match C.decode update with
    | some added =>
      some (.ok (), st.setRoom r { st.room r with doc := (st.room r).doc ∪ added })
    | none => some (.error .other, st)
  | ack r update =>
    some (.ok (), { st with
      acked := Function.update st.acked r.file
        (st.acked r.file ∪ (C.decode update).getD ∅) })
  | textEditUpdate r newText => some (C.textEditUpdate (st.room r).doc newText, st)
  | lockCheckpoint =>
    match st.checkpointLock with
    | some _ => none
    | none => some (.ok (), { st with checkpointLock := some p })
  | unlockCheckpoint => some (.ok (), { st with checkpointLock := none })
  | docToBytes r => some (.ok (C.docToBytes (st.room r).doc), st)
  | selectLatest f => some (.ok (Pycrdt.latest (st.view p f)), st)
  | clock => some (.ok env.now, st)
  | write f w => some (.ok (), st.addWrite p f w)
  | commit => some (.ok (), st.commit p)
  | closeSession => some (.ok (), st.closeSession p)
  | leave => some (.ok (), { st with borrowed := st.borrowed.filter (·.1 ≠ p) })
  | outOfRounds => none

end RoomOp

/-- The programs of the realtime service. -/
abbrev RoomPy (B α : Type) := Async PyError (RoomOp B) RoomOp.Val α

/-- `await` of one operation. -/
abbrev awaitOp {B : Type} (o : RoomOp B) : RoomPy B o.Val := Async.call o

end Concord
