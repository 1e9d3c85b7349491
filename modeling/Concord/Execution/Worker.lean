import Concord.Execution.State
import Concord.Queue.Programs
import Concord.Debug.Control

/-!
# The worker

`worker/app/worker.py`: one round of the main loop takes an execution from the queue, claims it
with a conditional write and runs it. Docker, the workspace on disk and the debugger are calls to
the outside here; what matters is which statements and commands surround them, and in which order
failures unwind.
-/

namespace Concord

open Concord.Base Async

/-- `_transition`: commits an allowed transition together with its event. -/
def transition (id : ExecutionId) (status : ExecutionStatus) (fields : StatusFields := {}) :
    Py Bool :=
  withSession do
    let found ← await (.getExecution id)
    match found with
    | none => return false
    | some execution => do
      let changed ← changeStatus id execution status .worker fields
      if changed.1 then do
        await .commit
        return true
      else
        return false

/-- `_publish_status`. -/
def publishStatus (project : ProjectId) (id : ExecutionId) (status : ExecutionStatus) : Py Unit :=
  publishProjectEvent project (.executionStatus id status)

/-- The claim at the start of `_run_one`. -/
def claimRun (payload : Payload) (workerId : String) : Py Bool :=
  withSession do
    let startedAt ← await .clock
    let claimed ← await
      (.claimQueued payload.executionId payload.projectId payload.fileId workerId startedAt)
    if claimed then
      recordStatusEvent payload.executionId (some .queued) .starting .worker
        { workerId := some workerId }
    else
      pure ()
    await .commit
    return claimed

/-- A transition that the run cannot go on without. -/
def advance (project : ProjectId) (id : ExecutionId) (status : ExecutionStatus) : Py Unit := do
  let changed ← transition id status
  require changed .executionCancelled
  publishStatus project id status

/-- Records a final status, and tells the project if it was recorded. -/
def settle (project : ProjectId) (id : ExecutionId) (status : ExecutionStatus)
    (fields : Seconds → StatusFields) : Py Unit := do
  let now ← await .clock
  let changed ← transition id status (fields now)
  if changed then publishStatus project id status else pure ()

/-- `contextlib.suppress(Exception)`, as the `try … except Exception: log` blocks do. -/
def suppress (x : Py Unit) : Py Unit := tryExcept x (fun _ => true) fun _ => pure ()

/-- The status a debug session's outcome is recorded as. -/
def DebugOutcome.status (o : DebugOutcome) : ExecutionStatus :=
  match o.reason with
  | .stopped | .cancelled => .cancelled
  | .timeout | .idle => .timeout
  | .error => .failed
  | .exited => if o.exitCode = some 0 then .completed else .failed

/-- The outcome's stderr, with the debugger's own last line. -/
def DebugOutcome.report (s : Settings) (o : DebugOutcome) : String :=
  match o.error, o.reason with
  | some e, _ => o.stderr ++ "\n[debugger] " ++ e ++ "\n"
  | none, .idle =>
    o.stderr ++ "\n[debugger] stopped: nobody stepped for " ++
      toString s.sandboxDebugIdleSeconds ++ " s\n"
  | none, .timeout =>
    o.stderr ++ "\n[debugger] stopped after " ++ toString s.sandboxDebugTimeoutSeconds ++ " s\n"
  | none, _ => o.stderr

/-- The session of `_run_debug`; the slot is cleared when it ends, however it ends. -/
def debugSession (project : ProjectId) (id : ExecutionId) : Py DebugOutcome := do
  await (.subscribe (.debugCommand id))
  andFinally (await (.debugRun id)) (do
    suppress (await (.unsubscribe (.debugCommand id)))
    suppress (clearActive project id))

/-- `_run_debug`. -/
def runDebug (s : Settings) (project : ProjectId) (id : ExecutionId) : Py Unit := do
  let outcome ← debugSession project id
  let now ← await .clock
  let changed ← transition id outcome.status
    { exitCode := some outcome.exitCode, stdout := some outcome.stdout,
      stderr := some (outcome.report s), finishedAt := some now }
  withSession do
    await (.stopDebugSessions id now)
    await .commit
  if changed then do
    publishProjectEvent project (.executionOutput id outcome.stdout (outcome.report s)
      outcome.exitCode outcome.durationSeconds)
    publishStatus project id outcome.status
  else
    pure ()

/-- The status a sandbox result is recorded as. -/
def RunResult.status (r : RunResult) : ExecutionStatus :=
  if r.timedOut then .timeout else if r.exitCode = 0 then .completed else .failed

/-- The run of a program that is not debugged. -/
def runSandbox (project : ProjectId) (id : ExecutionId) : Py Unit := do
  let result ← await (.sandboxRun id)
  let now ← await .clock
  let changed ← transition id result.status
    { exitCode := some (some result.exitCode), stdout := some result.stdout,
      stderr := some result.stderr, finishedAt := some now }
  if changed then do
    publishProjectEvent project (.executionOutput id result.stdout result.stderr
      (some result.exitCode) result.durationSeconds)
    publishStatus project id result.status
  else
    pure ()

/-- What `_run_one` does inside its temporary directory. -/
def runInWorkspace (s : Settings) (payload : Payload) : Py Unit := do
  await (.mountWorkspace payload.projectId payload.fileId)
  let found ← withSession (await (.getFile payload.fileId))
  let _ ← orRaise (found.filter (·.projectId = payload.projectId)) PyError.other
  if payload.sourceText.getD "" ≠ "" then
    await (.writeSource (payload.sourceText.getD ""))
  else
    pure ()
  -- only C++ has a build command
  if payload.language.getD .python = .cpp then do
    advance payload.projectId payload.executionId .compiling
    await (.sandboxBuild payload.executionId)
  else
    pure ()
  advance payload.projectId payload.executionId .running
  if payload.debug.getD false then
    runDebug s payload.projectId payload.executionId
  else
    runSandbox payload.projectId payload.executionId

/-- The body of `_run_one`'s `try`. -/
def runClaimed (s : Settings) (payload : Payload) : Py Unit := do
  suppress (await (.subscribe (.cancel payload.executionId)))
  -- a cancel may have been persisted before the subscription opened
  let current ← withSession (await (.getExecution payload.executionId))
  require (current.any (·.status = .starting)) .executionCancelled
  andFinally (runInWorkspace s payload) (await .removeWorkspace)

/-- `_run_one`'s `try` with its two `except` clauses. -/
def runHandled (s : Settings) (payload : Payload) : Py Unit := do
  match ← attempt (runClaimed s payload) with
  | .ok () => pure ()
  | .error .executionCancelled =>
    settle payload.projectId payload.executionId .cancelled
      fun now => { finishedAt := some now }
  | .error e =>
    settle payload.projectId payload.executionId .failed
      fun now => { stderr := some ("Internal worker error: " ++ e.message), finishedAt := some now }

/-- The `finally` of `_run_one`. -/
def cleanUp (payload : Payload) : Py Unit := do
  await (.unsubscribe (.cancel payload.executionId))
  if payload.debug.getD false then
    suppress (clearActive payload.projectId payload.executionId)
  else
    pure ()

/-- `_run_one`. -/
def runOne (s : Settings) (payload : Payload) (workerId : String) : Py Unit := do
  let claimed ← claimRun payload workerId
  if claimed then do
    publishStatus payload.projectId payload.executionId .starting
    andFinally (runHandled s payload) (cleanUp payload)
  else
    pure ()

/-- One round of the worker's main loop; what it raises is logged and dropped. -/
def workerRound (s : Settings) (workerId : String) : Py Unit :=
  suppress do
    let payload ← dequeueExecution s
    match payload with
    | some payload => runOne s payload workerId
    | none => pure ()

end Concord
