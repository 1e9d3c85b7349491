import Concord.Models
import Mathlib

/-!
# The database, with its open transactions

Each process has one database session. What a session writes stays in its transaction until the
commit; other sessions see committed rows only (read committed). A session that has written a row
of `executions` holds that row's lock until it commits or rolls back, and a conditional `UPDATE`
of a row that another session has locked waits.

Event rows take their id from a sequence when the session adds them, which is what orders them by
insertion.
-/

namespace Concord

abbrev SessionId := Nat

/-- A write to `debug_sessions` that is not committed yet. -/
inductive DebugWrite
  /-- `db.add(DebugSession(…))`. -/
  | insert (row : DebugSession)
  /-- `status = STOPPED, ended_at = …` for the rows of one execution. -/
  | stop (executionId : ExecutionId) (endedAt : Seconds)
deriving DecidableEq, Repr

/-- What a session has written since its last commit. -/
structure Transaction where
  executions : ExecutionId → Option Execution := fun _ => none
  events : List ExecutionEvent := []
  debugWrites : List DebugWrite := []

structure Database where
  members : List ProjectMember
  files : List File
  breakpoints : List Breakpoint
  executions : ExecutionId → Option Execution := fun _ => none
  events : List ExecutionEvent := []
  debugSessions : List DebugSession := []
  nextExecution : ExecutionId := 0
  nextEvent : Nat := 0
  tx : SessionId → Transaction := fun _ => {}
  locks : ExecutionId → Option SessionId := fun _ => none

/-- One write to `debug_sessions`, applied. -/
def DebugWrite.apply (rows : List DebugSession) : DebugWrite → List DebugSession
  | insert row => rows ++ [row]
  | stop e at_ => rows.map fun row =>
      if row.executionId = e then { row with status := .stopped, endedAt := some at_ } else row

namespace Database

variable (db : Database) (p : SessionId)

/-- The row session `p` reads: its own version, else the committed one. -/
def visible (e : ExecutionId) : Option Execution :=
  (db.tx p).executions e <|> db.executions e

/-- Another session has written the row and not committed yet. -/
def lockedByOther (e : ExecutionId) : Bool :=
  match db.locks e with
  | some q => q != p
  | none => false

/-- Session `p` writes a version of row `e`, taking its lock. -/
def write (e : ExecutionId) (row : Execution) : Database :=
  { db with
    tx := Function.update db.tx p
      { db.tx p with executions := Function.update (db.tx p).executions e (some row) }
    locks := Function.update db.locks e (some p) }

/-- `db.add(execution); await db.flush()`: the id comes from the sequence. -/
def insertExecution (row : Execution) : ExecutionId × Database :=
  (db.nextExecution,
    { db.write p db.nextExecution row with nextExecution := db.nextExecution + 1 })

/-- `UPDATE executions SET … WHERE id = e AND cond RETURNING id`: whether a row matched. It waits
while the matching row is locked by another session, and then looks again. -/
def updateWhere (e : ExecutionId) (cond : Execution → Bool) (set : Execution → Execution) :
    Option (Bool × Database) :=
  match db.visible p e with
  | none => some (false, db)
  | some row =>
    if cond row then
      if db.lockedByOther p e then none else some (true, db.write p e (set row))
    else some (false, db)

/-- `db.add(ExecutionEvent(…))`. -/
def addEvent (e : ExecutionId) (payload : EventPayload) : Database :=
  { db with
    tx := Function.update db.tx p
      { db.tx p with
        events := (db.tx p).events ++ [⟨db.nextEvent, e, payload.toStatus, payload⟩] }
    nextEvent := db.nextEvent + 1 }

def addDebugWrite (w : DebugWrite) : Database :=
  { db with
    tx := Function.update db.tx p
      { db.tx p with debugWrites := (db.tx p).debugWrites ++ [w] } }

/-- Drops what session `p` has written, and its locks. -/
def rollback : Database :=
  { db with
    tx := Function.update db.tx p {}
    locks := fun e => if db.locks e = some p then none else db.locks e }

/-- Makes what session `p` has written visible to all. -/
def commit : Database :=
  { db.rollback p with
    executions := db.visible p
    events := db.events ++ (db.tx p).events
    debugSessions := (db.tx p).debugWrites.foldl DebugWrite.apply db.debugSessions }

/-- The debug sessions session `p` sees. -/
def visibleDebugSessions : List DebugSession :=
  (db.tx p).debugWrites.foldl DebugWrite.apply db.debugSessions

/-- The committed events of an execution, in the order of their insertion. -/
def eventsOf (e : ExecutionId) : List ExecutionEvent :=
  (db.events.filter (·.executionId = e)).mergeSort (·.id ≤ ·.id)

def member? (project : ProjectId) (user : UserId) : Option ProjectMember :=
  db.members.find? fun m => m.projectId = project && m.userId = user

def file? (file : FileId) : Option File := db.files.find? (·.id = file)

/-- The rows `sweep_once` selects: active executions started before their threshold, which is the
longer one while the execution has a debug session that has not stopped. -/
def orphans (threshold debugThreshold : Seconds) : List (ExecutionId × Execution) :=
  (List.range db.nextExecution).filterMap fun e =>
    match db.visible p e with
    | none => none
    | some row =>
      let activeDebug := (db.visibleDebugSessions p).any fun ds =>
        ds.executionId = e && (ds.status = .active || ds.status = .paused)
      match row.startedAt with
      | none => none
      | some started =>
        if row.status.active && started < threshold && (!activeDebug || started < debugThreshold)
        then some (e, row) else none

variable {db p} {e : ExecutionId} {cond : Execution → Bool} {set : Execution → Execution}

/-- A conditional update that does not wait has written the matching row, or found none. -/
theorem updateWhere_eq_some {changed : Bool} {db' : Database}
    (h : db.updateWhere p e cond set = some (changed, db')) :
    changed = false ∧ db' = db ∨
      changed = true ∧ ∃ row, db.visible p e = some row ∧ cond row = true ∧
        db.lockedByOther p e = false ∧ db' = db.write p e (set row) := by
  unfold updateWhere at h
  split at h
  · simp only [Option.some.injEq, Prod.mk.injEq] at h
    exact .inl ⟨h.1.symm, h.2.symm⟩
  · next row hrow =>
    split at h
    · next hc =>
      split at h
      · cases h
      · next hl =>
        simp only [Option.some.injEq, Prod.mk.injEq] at h
        exact .inr ⟨h.1.symm, row, hrow, hc, by simpa using hl, h.2.symm⟩
    · simp only [Option.some.injEq, Prod.mk.injEq] at h
      exact .inl ⟨h.1.symm, h.2.symm⟩

/-- The row of an update that has changed nothing does not match. -/
theorem not_of_updateWhere_false {db' : Database} {row : Execution}
    (h : db.updateWhere p e cond set = some (false, db')) (hv : db.visible p e = some row) :
    cond row = false := by
  rcases hc : cond row with _ | _
  · rfl
  · simp only [updateWhere, hv, hc, if_true] at h
    split at h <;> cases h

end Database

end Concord
