import Concord.Base.Journal
import Concord.Debug.Session
import Concord.Execution.Api

/-!
# The breakpoints of a project, and its debugger

`api/breakpoints.py`, with what `start_run` does for a debug session (`api/executions.py`), `_run_debug`
(`worker/app/worker.py`) and `DebugRun.run` (`debug/session.py`). The breakpoints come to a session in two ways: as a
copy in the payload of the queue, and as commands on its channel, which those hear who have subscribed to it. Every
statement of the database, command of Redis and request to the adapter is an operation of its own, which can fail
before or after its effect.
-/

namespace Concord.Breakpoints

open Concord.Base Async

/-! ## State -/

/-- A row of `breakpoints`, with its id. -/
structure Row extends Breakpoint where
  id : Nat
  createdBy : UserId
deriving DecidableEq

/-- The files of all projects. -/
structure FileTable where
  files : List File
  nodup_ids : (files.map (·.id)).Nodup
  /-- `uq_project_path`. -/
  nodup_paths : (files.map fun file => (file.projectId, file.path)).Nodup
  /-- No path is empty or begins with a slash. -/
  relative : ∀ file ∈ files, file.path ≠ "" ∧ file.path.toList.head? ≠ some '/'

/-- The order in which a set is gone through. -/
structure SetOrder where
  order : Finset FileId → List FileId
  nodup : ∀ files, (order files).Nodup
  mem_order : ∀ files file, file ∈ order files ↔ file ∈ files

/-- What a session of the database has written since its last commit. -/
structure Transaction where
  deleted : List Row := []
  added : List Row := []

/-- What comes in on the channel of an execution: a command with the name of the member who sent it. -/
abbrev Sent := Option String × DebugCommand

/-- A `setBreakpoints` request. -/
abbrev LinesRequest := String × List Int

structure State where
  rows : List Row
  nextRow : Nat
  tx : Pid → Transaction := fun _ => {}
  /-- Who has deleted a row and not committed yet. -/
  locks : Row → Option Pid := fun _ => none
  /-- `concord:debug:active:{project_id}`. -/
  active : Option ActiveInfo := none
  queue : List Payload := []
  nextExecution : ExecutionId := 0
  /-- What has come in on a channel and not been taken, if there is a subscriber. -/
  channel : ExecutionId → Option (List Sent) := fun _ => none
  /-- The requests that the adapter of an execution was sent. -/
  sent : ExecutionId → List LinesRequest := fun _ => []

/-- `sorted(set(lines))`. -/
def sortedSet (lines : List Int) : List Int := lines.toFinset.sort

/-- The lines of the enabled breakpoints in a file. -/
def enabledLines (rows : List Row) (file : FileId) : List Int :=
  (rows.filter fun row => row.fileId = file && row.enabled).map fun row => Int.ofNat row.line

/-- The lines at which a file has enabled breakpoints that are committed. -/
def State.stored (st : State) (file : FileId) : List Int := sortedSet (enabledLines st.rows file)

/-- `_abs`. -/
def absPath (rel : String) : String := "/workspace/" ++ String.ofList (rel.toList.dropWhile (· = '/'))

/-! ## Operations -/

inductive Op
  -- the database
  | getMember (user : UserId)
  | getFile (file : FileId)
  /-- The rows that a `DELETE` has found. -/
  | selectRows (file : FileId)
  /-- It deletes them, once no other transaction has deleted one of them without a commit. -/
  | deleteRows (found : List Row)
  | addRows (file : FileId) (lines : List (Nat × Bool)) (user : UserId)
  | commit
  | refresh (row : Row)
  | close
  | insertExecution
  | getExecution (id : ExecutionId)
  | selectFiles
  | selectBreakpoints
  /-- The conditional write of `_fail_undelivered_run`, and that of a worker. -/
  | failQueued (id : ExecutionId)
  | claimQueued (id : ExecutionId)
  -- Redis
  | publishEvent (linesByFile : List (FileId × List Int))
  | getActive
  | setActiveNx (info : ActiveInfo)
  | setActive (info : ActiveInfo)
  | delActive
  | delState (id : ExecutionId)
  | sendCommand (id : ExecutionId) (username : Option String) (command : DebugCommand)
  | enqueue (payload : Payload)
  | removeFromQueue (id : ExecutionId)
  | dequeue
  | subscribe (id : ExecutionId)
  | unsubscribe (id : ExecutionId)
  -- the adapter
  /-- The other requests of the handshake. -/
  | handshake (id : ExecutionId)
  | setBreakpoints (id : ExecutionId) (path : String) (lines : List Int)
  /-- The wait of the main loop, for as long as the program may be `paused` yet. -/
  | round (id : ExecutionId) (paused : Bool)
  /-- A loop has used up the rounds it was given in this run: it takes no more steps. -/
  | outOfRounds
deriving DecidableEq

/-- What an operation returns when it succeeds. -/
@[reducible] def Op.Val : Op → Type
  | getMember _ => Option Role
  | getFile _ => Option File
  | selectRows _ | addRows _ _ _ => List Row
  | insertExecution => ExecutionId
  | getExecution _ => Option ExecutionStatus
  | selectFiles => List File
  | selectBreakpoints => List (String × Nat)
  | failQueued _ | claimQueued _ | setActiveNx _ => Bool
  | getActive => Option ActiveInfo
  | sendCommand _ _ _ => Nat
  | dequeue => Option Payload
  | setBreakpoints _ _ _ => Except DapFailure Unit
  | round _ _ => Except StopReason (List (DebugRun.Input × AdapterAnswers))
  | _ => Unit

/-- Where an operation goes, and so how it can fail. -/
def Op.target : Op → Target
  | getMember _ | getFile _ | selectRows _ | deleteRows _ | addRows _ _ _ | commit | refresh _ | insertExecution
  | getExecution _ | selectFiles | selectBreakpoints | failQueued _ | claimQueued _ => .database
  | publishEvent _ | getActive | setActiveNx _ | setActive _ | delActive | delState _ | sendCommand _ _ _ | enqueue _
  | removeFromQueue _ | dequeue | subscribe _ | unsubscribe _ => .redis
  | handshake _ => .outside
  | setBreakpoints _ _ _ | round _ _ | close | outOfRounds => .inProcess

/-- What one of the three tasks of a round has got. -/
inductive Taken
  | event (event : AdapterEvent)
  | command
  | cancel
deriving DecidableEq

/-- The task that has got it. -/
def Taken.task : Taken → Nat
  | event _ => 0
  | command => 1
  | cancel => 2

/-- What the environment decides for one operation. -/
structure Env where
  fault : Fault := .none
  osError : Bool := false
  member : Option Role := some .owner
  /-- The status of an execution, if there is its row. -/
  execution : Option ExecutionStatus := none
  /-- Whether a conditional write matches. -/
  matched : Bool := true
  /-- The entry that is taken from the queue. -/
  entry : Option Nat := some 0
  answer : Except DapFailure Unit := .ok ()
  /-- The time of the session is over, or it has been paused for too long. -/
  timeUp : Option StopReason := none
  taken : List (Taken × AdapterAnswers) := []

/-- What is raised. -/
def Env.error (env : Env) : Target → PyError
  | .database => if env.osError then .os else .database
  | .redis => if env.osError then .os else .redis
  | _ => if env.osError then .os else .other

/-- What a round hands to the main loop, and what it leaves on the channel. -/
def takeInputs (cmds : List Sent) :
    List (Taken × AdapterAnswers) → Option (List (DebugRun.Input × AdapterAnswers) × List Sent)
  | [] => some ([], cmds)
  | (.event event, answers) :: rest =>
    (takeInputs cmds rest).map fun (inputs, cmds) => ((.event event, answers) :: inputs, cmds)
  | (.cancel, answers) :: rest =>
    (takeInputs cmds rest).map fun (inputs, cmds) => ((.cancel, answers) :: inputs, cmds)
  | (.command, answers) :: rest =>
    match cmds with
    | [] => none
    | (username, command) :: cmds =>
      (takeInputs cmds rest).map fun (inputs, cmds) => ((.command username command, answers) :: inputs, cmds)

section Effects

variable (t : FileTable) (project : ProjectId) (p : Pid) (env : Env) (st : State)

namespace State

/-- The rows that a session sees. -/
def visible : List Row := st.rows.filter (· ∉ (st.tx p).deleted) ++ (st.tx p).added

/-- Deletes the rows that are still there. -/
def delete (found : List Row) : State :=
  let tx := st.tx p
  { st with
    tx := Function.update st.tx p
      { deleted := tx.deleted ++ found.filter (· ∈ st.rows), added := tx.added.filter (· ∉ found) }
    locks := fun row => if row ∈ found then some p else st.locks row }

/-- The new rows, in their order. -/
def newRows (file : FileId) (lines : List (Nat × Bool)) (user : UserId) : List Row :=
  lines.zipIdx.map fun ((line, enabled), i) =>
    { fileId := file, line, enabled, id := st.nextRow + i, createdBy := user }

def add (rows : List Row) : State :=
  { st with
    tx := Function.update st.tx p { st.tx p with added := (st.tx p).added ++ rows }
    nextRow := st.nextRow + rows.length }

/-- Drops what a session has written. -/
def rollback : State :=
  { st with
    tx := Function.update st.tx p {}
    locks := fun row => if st.locks row = some p then none else st.locks row }

/-- Makes what a session has written visible to all. -/
def commit : State := { st.rollback p with rows := st.visible p }

/-- The rows of the query in `_debug_info`. -/
def selectBreakpoints : List (String × Nat) :=
  (st.rows.filter (·.enabled)).filterMap fun row =>
    (t.files.find? fun file => file.id = row.fileId && file.projectId = project).map fun file => (file.path, row.line)

/-- A channel with one more command, if somebody listens, and how many do. -/
def publish (id : ExecutionId) (sent : Sent) : Nat × State :=
  match st.channel id with
  | none => (0, st)
  | some cmds => (1, { st with channel := Function.update st.channel id (some (cmds ++ [sent])) })

end State

namespace Op

/-- The result and the effect of an operation that does not fail; `none` while it has to wait. -/
def run : (o : Op) → Option (Except PyError o.Val × State)
  | getMember _ => some (.ok env.member, st)
  | getFile file => some (.ok (t.files.find? (·.id = file)), st)
  | selectRows file => some (.ok ((st.visible p).filter (·.fileId = file)), st)
  | deleteRows found =>
    if found.any fun row => (st.locks row).any (· ≠ p) then none else some (.ok (), st.delete p found)
  | addRows file lines user =>
    let rows := st.newRows file lines user
    some (.ok rows, st.add p rows)
  | commit => some (.ok (), st.commit p)
  | refresh row => some (if row ∈ st.visible p then .ok () else .error .database, st)
  | close => some (.ok (), st.rollback p)
  | insertExecution => some (.ok st.nextExecution, { st with nextExecution := st.nextExecution + 1 })
  | getExecution _ => some (.ok env.execution, st)
  | selectFiles => some (.ok (t.files.filter (·.projectId = project)), st)
  | selectBreakpoints => some (.ok (st.selectBreakpoints t project), st)
  | failQueued _ | claimQueued _ => some (.ok env.matched, st)
  | publishEvent _ | delState _ | handshake _ => some (.ok (), st)
  | getActive => some (.ok st.active, st)
  | setActiveNx info =>
    match st.active with
    | some _ => some (.ok false, st)
    | none => some (.ok true, { st with active := some info })
  | setActive info => some (.ok (), { st with active := some info })
  | delActive => some (.ok (), { st with active := none })
  | sendCommand id username command =>
    let (listeners, st) := st.publish id (username, command)
    some (.ok listeners, st)
  | enqueue payload => some (.ok (), { st with queue := st.queue ++ [payload] })
  | removeFromQueue id => some (.ok (), { st with queue := st.queue.filter (·.executionId ≠ id) })
  | dequeue =>
    match env.entry with
    | none => some (.ok none, st)
    | some i => some (.ok st.queue[i]?, { st with queue := st.queue.eraseIdx i })
  | subscribe id => some (.ok (), { st with channel := Function.update st.channel id (some []) })
  | unsubscribe id => some (.ok (), { st with channel := Function.update st.channel id none })
  | setBreakpoints id path lines =>
    some (.ok env.answer, { st with sent := Function.update st.sent id (st.sent id ++ [(path, lines)]) })
  | round id paused =>
    match env.timeUp with
    | some reason =>
      if reason = .timeout ∨ reason = .idle ∧ paused = true then some (.ok (.error reason), st) else none
    | none =>
      if (env.taken.map (·.1.task)).Nodup then
        (takeInputs ((st.channel id).getD []) env.taken).map fun (inputs, cmds) =>
          (.ok (.ok inputs),
            { st with channel := fun e => if e = id then (st.channel id).map fun _ => cmds else st.channel e })
      else none
  | outOfRounds => none

/-- One operation, with the fault the environment decides on. -/
def exec (o : Op) : Option (Except PyError o.Val × State) :=
  match env.fault, o.target with
  | .none, _ | _, .inProcess => run t project p env st o
  | .before, target => some (.error (env.error target), st)
  | .after, target => (run t project p env st o).map fun (_, st') => (.error (env.error target), st')

end Op

end Effects

/-- The programs of the API process and of the worker. -/
abbrev Py (α : Type) := Async PyError Op Op.Val α

/-- `await` of one operation. -/
abbrev await (o : Op) : Py o.Val := Async.call o

/-- `async with` a session of the database. -/
def withSession {α : Type} (x : Py α) : Py α := andFinally x (await .close)

/-! ## `api/breakpoints.py` -/

section Breakpoints

variable (project : ProjectId) (user : UserId)

/-- `get_member`. -/
def getMember : Py Role := do
  let member ← await (.getMember user)
  orRaise member (.http 403 "Not a member of this project")

/-- `_require_debugger`. -/
def requireDebugger : Py Unit := do
  let role ← getMember user
  require (decide (role ∈ [Role.owner, .debugger])) (.http 403 "Requires the debugger role")

/-- `_file_in_project`. -/
def fileInProject (file : FileId) : Py File := do
  let found ← await (.getFile file)
  orRaise (found.filter (·.projectId = project)) (.http 404 "File not found")

/-- `_replace`. -/
def replace (file : FileId) (lines : List (Nat × Bool)) : Py (List Row) := do
  let found ← await (.selectRows file)
  await (.deleteRows found)
  await (.addRows file lines user)

/-- The commands of `_announce`, one for each file. -/
def sendLines (id : ExecutionId) (rows : List Row) : List File → Py Unit
  | [] => pure ()
  | file :: files => do
    let _ ← await (.sendCommand id none (.setBreakpoints file.path (sortedSet (enabledLines rows file.id))))
    sendLines id rows files

/-- The commands of `_announce`, if a session is running. -/
def tellSession (files : List File) (rows : List Row) : Option ActiveInfo → Py Unit
  | none => pure ()
  | some info => sendLines info.executionId rows files

/-- `_announce`. -/
def announce (files : List File) (rows : List Row) : Py Unit :=
  tryExcept (do
    await (.publishEvent (files.map fun file => (file.id, enabledLines rows file.id)))
    let active ← await .getActive
    tellSession files rows active) PyError.isTransport fun _ => pure ()

/-- `for row in rows: await db.refresh(row)`. -/
def refreshAll : List Row → Py Unit
  | [] => pure ()
  | row :: rows => do
    await (.refresh row)
    refreshAll rows

/-- `FileBreakpoints`. -/
structure FileBreakpoints where
  lines : List Int := []
  bounded : lines.length ≤ 200

/-- `set_file_breakpoints`. -/
def setFileBreakpoints (fileId : FileId) (payload : FileBreakpoints) : Py (List Row) := do
  requireDebugger user
  let file ← fileInProject project fileId
  let lines := sortedSet (payload.lines.filter (1 ≤ ·))
  let rows ← replace user fileId (lines.map fun n => (n.toNat, true))
  await .commit
  refreshAll rows
  announce [file] rows
  return rows

/-- `BreakpointUpsert`. -/
structure BreakpointUpsert where
  fileId : FileId
  line : Nat
  enabled : Bool := true

/-- The files of a request, each of which has to be one of the project. -/
def findFiles : List FileId → Py (List File)
  | [] => pure []
  | id :: ids => do
    let file ← fileInProject project id
    let files ← findFiles ids
    return file :: files

/-- The loop of `upsert_breakpoints`. -/
def replaceAll (payload : List BreakpointUpsert) : List File → List Row → Py (List Row)
  | [], rows => pure rows
  | file :: files, rows => do
    let entries := (payload.filter fun bp => bp.fileId = file.id && 1 ≤ bp.line).map fun bp => (bp.line, bp.enabled)
    let new ← replace user file.id entries
    replaceAll payload files (rows ++ new)

/-- `upsert_breakpoints`. -/
def upsertBreakpoints (sets : SetOrder) (payload : List BreakpointUpsert) (fileId : List FileId) : Py (List Row) := do
  requireDebugger user
  let files ← findFiles project (sets.order ((payload.map (·.fileId)).toFinset ∪ fileId.toFinset))
  let rows ← replaceAll user payload files []
  await .commit
  refreshAll rows
  if files ≠ [] then announce files rows else pure ()
  return rows

/-- Whether a command is one of `STEP_COMMANDS`. -/
def isStepCommand : DebugCommand → Bool
  | .step _ | .pause | .stop => true
  | _ => false

/-- The commands of `DebugCommand`. -/
def isMemberCommand : DebugCommand → Bool
  | .setBreakpoints _ _ | .unknown => false
  | _ => true

/-- The part of `debug_command` that asks Redis. -/
def relayCommand (id : ExecutionId) (username : String) (command : DebugCommand) : Py Bool := do
  let active ← await .getActive
  require (active.any (·.executionId = id)) (.http 409 "That debug session has ended")
  let delivered ← await (.sendCommand id (some username) command)
  return decide (0 < delivered)

/-- `debug_command`. -/
def debugCommand (username : String) (id : ExecutionId) (command : DebugCommand) : Py Bool := do
  if isStepCommand command then requireDebugger user else (fun _ => ()) <$> getMember user
  tryExcept (relayCommand id username command) PyError.isTransport fun _ =>
    throw (.http 503 "The debugger is unavailable")

end Breakpoints

/-! ## `api/executions.py` -/

section StartRun

/-- `clear_active`. -/
def clearActive (id : ExecutionId) : Py Unit := do
  let active ← await .getActive
  if active.any (·.executionId = id) then await .delActive else pure ()
  await (.delState id)

/-- The row of the session that holds the slot. -/
def runningSession : Option ActiveInfo → Py (Option ExecutionStatus)
  | none => pure none
  | some current => await (.getExecution current.executionId)

/-- The part of `_claim_debug_slot` inside its `try`: `none` if the slot was taken, else the session that holds it,
which may have ended while we looked. -/
def takeDebugSlot (info : ActiveInfo) : Py (Option (Option ActiveInfo)) := do
  if ← await (.setActiveNx info) then return none
  else do
    let current ← await .getActive
    let running ← runningSession current
    if running.all (·.finished) then do
      await (.setActive info)
      return none
    else return some current

/-- The answer to a start that finds the slot taken. -/
def slotTaken (current : Option ActiveInfo) : PyError :=
  let (username, path) := (current.map fun info => (info.username, info.path)).getD ("someone", "a file")
  .http 409 (username ++ " is already debugging " ++ path ++ "; stop that session first")

/-- `_claim_debug_slot`. -/
def claimDebugSlot (info : ActiveInfo) : Py Unit := do
  let refused ← tryExcept (takeDebugSlot info) PyError.isTransport fun _ =>
    throw (.http 503 "The debugger is unavailable (no Redis)")
  require refused.isNone (slotTaken refused.join)

/-- `_debug_info`. -/
def debugInfo (user : UserId) (username : String) : Py DebugInfo := do
  let files ← await .selectFiles
  let rows ← await .selectBreakpoints
  return {
    breakpoints := rows.foldl addBreakpoint []
    fileIds := files.map fun file => (file.path, file.id)
    userId := user
    username }

/-- The end of `_fail_undelivered_run`, after its commit. -/
def forgetUndelivered (id : ExecutionId) : Py Unit := do
  tryExcept (await (.removeFromQueue id)) PyError.isTransport fun _ => pure ()
  tryExcept (clearActive id) PyError.isTransport fun _ => pure ()

/-- The delivery of `start_run`, or its compensation. -/
def deliver (payload : Payload) : Py Unit :=
  tryExcept (await (.enqueue payload)) PyError.isTransport fun _ => do
    if ← await (.failQueued payload.executionId) then do
      await .commit
      forgetUndelivered payload.executionId
      throw (.http 503 "Execution queue unavailable; please try again")
    else pure ()

/-- `start_run` of a debug session, once the request has passed its checks. -/
def startDebug (file : File) (user : UserId) (username : String) : Py ExecutionId := do
  let id ← await .insertExecution
  claimDebugSlot { executionId := id, fileId := file.id, path := file.path, userId := user, username }
  let info ← debugInfo user username
  await .commit
  deliver
    { executionId := id, projectId := file.projectId, fileId := file.id, debug := some true,
      debugSessionInfo := some info, language := some file.language, enqueuedAt := 0 }
  return id

end StartRun

/-! ## `debug/session.py` -/

/-- `info.get("breakpoints") or {}`, of a payload. -/
def payloadBreakpoints (payload : Payload) : List (String × List Nat) :=
  (payload.debugSessionInfo.map (·.breakpoints)).getD []

/-- What the handshake asks of the adapter for a copy of the breakpoints. -/
def copyRequests (breakpoints : List (String × List Nat)) : List LinesRequest :=
  breakpoints.map fun (rel, lines) => (absPath rel, sortedSet (lines.map Int.ofNat))

/-- What the main loop asks of the adapter for a command. -/
def lineRequest : DebugCommand → Option LinesRequest
  | .setBreakpoints path lines => if path = "" then none else some (absPath path, sortedSet lines)
  | _ => none

section DebugRun

variable (target : DebugTarget) (id : ExecutionId)

/-- A request of the handshake that has failed. -/
def raiseFailure : Except DapFailure Unit → Py Unit
  | .ok _ => pure ()
  | .error _ => throw .other

/-- `for rel, lines in self.t.breakpoints.items(): await self.dap.set_breakpoints(…)`. -/
def setAll : List LinesRequest → Py Unit
  | [] => pure ()
  | (path, lines) :: rest => do
    let answer ← await (.setBreakpoints id path lines)
    raiseFailure answer
    setAll rest

/-- The request for a command that sets breakpoints, and what the adapter answers to what is handled. -/
def answered (got : DebugRun.Input × AdapterAnswers) : Option LinesRequest → Py (Except DapFailure Unit)
  | none => pure got.2.control
  | some (path, lines) => await (.setBreakpoints id path lines)

/-- The request that is made for an input. -/
def inputRequest : DebugRun.Input → Option LinesRequest
  | .command _ command => lineRequest command
  | _ => none

/-- What has come in is handled, up to an exception. -/
def handleAll : List (DebugRun.Input × AdapterAnswers) → DebugRun → Py DebugRun
  | [], run => pure run
  | got :: rest, run =>
    if run.ended then pure run
    else do
      let control ← answered id got (inputRequest got.1)
      handleAll rest (run.handle target { got.2 with control } got.1)

/-- What a round comes to. -/
def afterRound (run : DebugRun) : Except StopReason (List (DebugRun.Input × AdapterAnswers)) → Py DebugRun
  | .error reason => pure { run with finished := some reason, ended := true }
  | .ok inputs => do
    let run ← handleAll target id inputs run
    return if run.finished.isSome then { run with ended := true } else run

/-- The main loop, for `rounds` rounds of a run. -/
def mainLoop : Nat → DebugRun → Py DebugRun
  | 0, run => do
    await .outOfRounds
    return run
  | rounds + 1, run => do
    let got ← await (.round id run.paused)
    let run ← afterRound target id run got
    if run.ended then return run else mainLoop rounds run

/-- `DebugRun.run`. -/
def debugRun (rounds : Nat) (breakpoints : List (String × List Nat)) : Py DebugRun :=
  tryExcept (do
    await (.handshake id)
    setAll id (copyRequests breakpoints)
    await (.handshake id)
    mainLoop target id rounds {}) (fun _ => true) fun _ => pure { finished := some .error, ended := true }

end DebugRun

/-! ## `worker/app/worker.py` -/

/-- `contextlib.suppress(Exception)`, as the `try … except Exception: log` blocks do. -/
def suppress (x : Py Unit) : Py Unit := tryExcept x (fun _ => true) fun _ => pure ()

/-- `_run_debug`, up to the end of the session. -/
def runDebug (rounds : Nat) (payload : Payload) : Py DebugRun := do
  let id := payload.executionId
  let target : DebugTarget := ⟨(payload.debugSessionInfo.map (·.fileIds)).getD []⟩
  await (.subscribe id)
  andFinally (debugRun target id rounds (payloadBreakpoints payload)) (do
    suppress (await (.unsubscribe id))
    suppress (clearActive id))

/-- `_run_one` of a debug session, with its claim. -/
def runOne (rounds : Nat) : Option Payload → Py (Option DebugRun)
  | none => pure none
  | some payload => do
    if ← await (.claimQueued payload.executionId) then
      some <$> andFinally (runDebug rounds payload) (suppress (clearActive payload.executionId))
    else pure none

/-- A round of the worker. -/
def workerRound (rounds : Nat) : Py (Option DebugRun) := do
  let payload ← await .dequeue
  runOne rounds payload

/-! ## The system -/

/-- What starts a process. -/
inductive Request
  | setFileBreakpoints (user : UserId) (fileId : FileId) (payload : FileBreakpoints)
  | upsertBreakpoints (user : UserId) (payload : List BreakpointUpsert) (fileId : List FileId)
  | debugCommand (user : UserId) (username : String) (id : ExecutionId) (command : DebugCommand)
      (allowed : isMemberCommand command = true)
  | startDebug (file : File) (user : UserId) (username : String)
  | work (rounds : Nat)
  /-- The slot of a session has expired. -/
  | expire

/-- What a process returns. -/
inductive Outcome
  | rows (rows : List Row)
  | delivered (delivered : Bool)
  | started (id : ExecutionId)
  | debugged (run : Option DebugRun)
  | expired

def Request.program (project : ProjectId) (sets : SetOrder) : Request → Py Outcome
  | setFileBreakpoints user fileId payload =>
    .rows <$> withSession (Breakpoints.setFileBreakpoints project user fileId payload)
  | upsertBreakpoints user payload fileId =>
    .rows <$> withSession (Breakpoints.upsertBreakpoints project user sets payload fileId)
  | debugCommand user username id command _ =>
    .delivered <$> withSession (Breakpoints.debugCommand user username id command)
  | startDebug file user username => .started <$> withSession (Breakpoints.startDebug file user username)
  | work rounds => .debugged <$> workerRound rounds
  | expire => (fun _ => .expired) <$> await .delActive

/-- The breakpoints and the debug sessions of a project, with any number of requests and workers. -/
def debugger (t : FileTable) (project : ProjectId) (sets : SetOrder) (rows : List Row) :
    Machine Op (fun o => Except PyError o.Val) Env State Request (Except PyError Outcome) where
  init := { rows, nextRow := (rows.map (·.id)).foldr max 0 + 1 }
  exec := fun p o env st => Op.exec t project p env st o
  body := fun _ r => (r.program project sets).run

end Concord.Breakpoints
