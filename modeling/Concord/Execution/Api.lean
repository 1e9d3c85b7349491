import Concord.Execution.State
import Concord.Queue.Programs
import Concord.Debug.Control

/-!
# Starting and cancelling executions

The handlers of `api/executions.py`, one program each. A request has its own database session; the
programs here are what a handler does with it.
-/

namespace Concord

open Concord.Base Async

/-- What the endpoints return of an execution. -/
structure ExecutionOut where
  id : ExecutionId
  execution : Execution
deriving DecidableEq, Repr

/-- `except (RedisError, OSError)`. -/
def PyError.isTransport : PyError → Bool
  | redis | os => true
  | _ => false

/-- `get_member`. -/
def getMember (project : ProjectId) (user : UserId) : Py ProjectMember := do
  let member ← await (.getMember project user)
  orRaise member (.http 403 "Not a member of this project")

/-- `_require_runner`. -/
def requireRunner (project : ProjectId) (user : UserId) : Py ProjectMember := do
  let member ← getMember project user
  require (decide (member.role ∈ [Role.owner, .editor, .debugger]))
    (.http 403 "Requires editor+ role to run code")
  return member

/-- `_check_can_debug`. -/
def checkCanDebug (s : Settings) (member : ProjectMember) (file : File) : Py Unit := do
  require s.enableDebugger
    (.http 503 "The debugger is turned off on this server (ENABLE_DEBUGGER)")
  require (decide (member.role ∈ [Role.owner, .debugger]))
    (.http 403 "Debugging needs the debugger role")
  require (decide (file.language = .python)) (.http 400 "Only Python programs can be debugged")

/-- The part of `_claim_debug_slot` inside its `try`: `none` if the slot was taken, else the
session that holds it (which may have ended while we looked). -/
def takeDebugSlot (project : ProjectId) (info : ActiveInfo) : Py (Option (Option ActiveInfo)) := do
  let claimed ← claimActive project info
  if claimed then
    return none
  else do
    let current ← getActive project
    let running ← match current with
      | some active => await (.getExecution active.executionId)
      | none => pure none
    -- `running is None or running.status in FINISHED_STATUSES`: left over from a crashed worker
    if running.all (·.status.finished) then do
      setActive project info
      return none
    else
      return some current

/-- `_claim_debug_slot`: one debug session per project at a time. -/
def claimDebugSlot (project : ProjectId) (info : ActiveInfo) : Py Unit := do
  let refused ← tryExcept (takeDebugSlot project info) PyError.isTransport fun _ =>
    throw (.http 503 "The debugger is unavailable (no Redis)")
  match refused with
  | none => pure ()
  | some (some a) =>
    throw (.http 409 (a.username ++ " is already debugging " ++ a.path ++
      "; stop that session first"))
  | some none => throw (.http 409 "someone is already debugging a file; stop that session first")

/-- `breakpoints.setdefault(path, []).append(line)`. -/
def addBreakpoint (acc : List (String × List Nat)) (row : String × Nat) :
    List (String × List Nat) :=
  match acc.lookup row.1 with
  | none => acc ++ [(row.1, [row.2])]
  | some _ => acc.map fun entry => if entry.1 = row.1 then (entry.1, entry.2 ++ [row.2]) else entry

/-- `_debug_info`: every enabled breakpoint in the project, and each file's id by path. -/
def debugInfo (project : ProjectId) (user : UserId) (username : String) : Py DebugInfo := do
  let files ← await (.selectFiles project)
  let rows ← await (.selectBreakpoints project)
  return {
    breakpoints := rows.foldl addBreakpoint []
    fileIds := files.map fun f => (f.path, f.id)
    userId := user
    username := username }

/-- The debug part of `start_run`: the slot, the session row, and what the session needs. -/
def setUpDebug (project : ProjectId) (id : ExecutionId) (file : File) (user : UserId)
    (username : String) : Py (Option DebugInfo) := do
  claimDebugSlot project
    { executionId := id, fileId := file.id, path := file.path, userId := user, username }
  await (.addDebugSession
    { executionId := id, projectId := project, startedBy := user, currentFile := file.path,
      status := .active })
  let info ← debugInfo project user username
  return some info

/-- The end of `_fail_undelivered_run`, after its commit: a continuing outage of Redis must not
undo the recovery. -/
def forgetUndelivered (project : ProjectId) (id : ExecutionId) (debug : Bool) : Py Unit := do
  tryExcept (do let _ ← removeFromQueue id) PyError.isTransport fun _ => pure ()
  if debug then
    tryExcept (clearActive project id) PyError.isTransport fun _ => pure ()
  else
    pure ()

/-- The compare-and-set of `_fail_undelivered_run`, which competes with a worker's claim. -/
def failQueued (id : ExecutionId) (finishedAt : Seconds) : Py Bool := do
  let execution ← await (.getExecution id)
  match execution with
  | none => return false
  | some row =>
    if row.status = .queued then do
      let changed ← changeStatus id row .failed .api
        { finishedAt := some finishedAt
          stderr := some "Execution queue delivery failed; please try again" }
      return changed.1
    else
      return false

/-- `_fail_undelivered_run`. -/
def failUndeliveredRun (project : ProjectId) (id : ExecutionId) (debug : Bool) : Py Bool := do
  let finishedAt ← await .clock
  let failed ← failQueued id finishedAt
  if failed then do
    if debug then
      await (.stopDebugSessions id finishedAt)
    else
      pure ()
    await .commit
    forgetUndelivered project id debug
    return true
  else do
    await .rollback
    return false

/-- The delivery part of `start_run`: the queue entry, or the compensation. `none` when the entry
was delivered. -/
def deliver (project : ProjectId) (id : ExecutionId) (debug : Bool)
    (payload : Seconds → Payload) : Py (Option ExecutionOut) :=
  tryExcept
    (do
      enqueueExecution payload
      return none)
    PyError.isTransport fun _ => do
      let compensated ← failUndeliveredRun project id debug
      if compensated then
        throw (.http 503 "Execution queue unavailable; please try again")
      else do
        -- A worker claimed the run before the error reached us: leave it alone.
        let execution ← await (.refresh id)
        return some ⟨id, execution⟩

/-- A request to run a file. -/
structure RunRequest where
  project : ProjectId
  user : UserId
  username : String
  file : FileId
  stdin : Option String := none
  debug : Bool := false
  hostname : String := ""

/-- The checks of `start_run` before it writes anything. -/
def checkRun (s : Settings) (req : RunRequest) : Py (ProjectMember × File) := do
  let member ← requireRunner req.project req.user
  let found ← await (.getFile req.file)
  let file ← orRaise found (.http 404 "File not found")
  require (decide (file.projectId = req.project))
    (.http 400 "File does not belong to this project")
  require (decide (file.language ≠ .plaintext))
    (.http 400 (file.path ++ " can't be run: only Python, JavaScript and C/C++ files can"))
  if req.debug then checkCanDebug s member file else pure ()
  return (member, file)

/-- The transaction of `start_run`: the row, its first event, and for a debug run the slot and the
session row. -/
def createRun (req : RunRequest) (file : File) : Py (ExecutionId × Option DebugInfo) := do
  let queuedAt ← await .clock
  let id ← await (.insertExecution req.project req.file queuedAt)
  recordStatusEvent id none .queued .api
  let info ← if req.debug then setUpDebug req.project id file req.user req.username else pure none
  await .commit
  return (id, info)

/-- The queue payload of a run. -/
def RunRequest.payload (req : RunRequest) (id : ExecutionId) (sourceText : String)
    (info : Option DebugInfo) (language : Language) (role : Role) (now : Seconds) : Payload :=
  { executionId := id
    projectId := req.project
    fileId := req.file
    sourceText := some sourceText
    workerIdHint := some req.hostname
    debug := some req.debug
    debugSessionInfo := info
    language := some language
    stdin := if req.debug then none else req.stdin
    role := some role
    enqueuedAt := now }

/-- `start_run`: queues a run (or a debug session) of a file for the worker. -/
def startRun (s : Settings) (req : RunRequest) : Py ExecutionOut := do
  let (member, file) ← checkRun s req
  let sourceText ← await (.fileText req.project req.file)
  let (id, info) ← createRun req file
  let execution ← await (.refresh id)
  let undelivered ← deliver req.project id req.debug
    (req.payload id sourceText info file.language member.role)
  match undelivered with
  | some out => return out
  | none => do
    await (.notifyQueued id)
    return ⟨id, execution⟩

/-- The retry loop of `cancel_execution`, for at most `rounds` attempts: a worker can advance the
execution between the read and the conditional write. `none` once it is cancelled, else the row
another writer finished. -/
def cancelLoop (id : ExecutionId) : Nat → Execution → Py (Option Execution)
  | 0, execution =>
    if execution.status.finished then
      return some execution
    else do
      await .outOfRounds
      return some execution
  | rounds + 1, execution =>
    if execution.status.finished then
      return some execution
    else do
      let finishedAt ← await .clock
      let changed ← changeStatus id execution .cancelled .api { finishedAt := some finishedAt }
      if changed.1 then
        return none
      else do
        let execution ← await (.refresh id)
        cancelLoop id rounds execution

/-- `cancel_execution`. -/
def cancelExecution (project : ProjectId) (user : UserId) (id : ExecutionId) (rounds : Nat) :
    Py ExecutionOut := do
  let member ← getMember project user
  require (decide (member.role ∈ [Role.owner, .editor, .debugger]))
    (.http 403 "Requires editor+ role to cancel")
  let found ← await (.getExecution id)
  let execution ← orRaise (found.filter (·.projectId = project))
    (.http 404 "Execution not found")
  match ← cancelLoop id rounds execution with
  | some finished => return ⟨id, finished⟩
  | none => do
    await .commit
    let execution ← await (.refresh id)
    let _ ← removeFromQueue id
    signalCancel id
    publishProjectEvent project (.executionStatus id .cancelled)
    return ⟨id, execution⟩

end Concord
