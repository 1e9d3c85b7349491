import Concord.Base.Journal
import Concord.Execution.Operations

/-!
# The sandbox of one execution

`services/sandbox.py`: a run and a build of one execution, each in a container of its own, and the removal of both.
`worker/app/worker.py` runs them on a thread that it joins, also when the execution is cancelled
(`_run_cancellable`). Every call to Docker is an operation of its own, which can fail before or after its effect.
-/

namespace Concord.Sandbox

open Concord.Base Async

/-- The containers of an execution, `concord-exec-…` and `concord-build-…`. -/
inductive Kind
  | exec | build
deriving DecidableEq

/-- What is raised. -/
inductive Failure
  /-- Docker's `NotFound`, which is an `APIError`. -/
  | notFound
  /-- Any other `APIError`. -/
  | api
  /-- Docker could not be asked, or did not answer in time. -/
  | transport
  | runtimeError
  | executionCancelled
  /-- Raised by a statement of the database. -/
  | database
deriving DecidableEq

/-- `except APIError`. -/
def Failure.isApiError : Failure → Bool
  | notFound | api => true
  | _ => false

abbrev ContainerId := Nat

/-- What a thread ends with: the result of a run, none of a build. -/
abbrev Ending := Except Failure (Option RunResult)

/-- The task that `_run_cancellable` creates. -/
inductive Task
  | absent
  | scheduled (kind : Kind)
  | running (thread : Pid) (kind : Kind)
  | done (kind : Kind) (ending : Ending)
deriving DecidableEq

/-- Whether no thread is at work, or about to be. -/
def Task.settled : Task → Bool
  | absent | done _ _ => true
  | _ => false

/-- Whether `task.done()`. -/
def Task.isDone : Task → Bool
  | done _ _ => true
  | _ => false

structure State where
  /-- The worker that has claimed the execution. -/
  worker : Option Pid := none
  task : Task := .absent
  /-- The container that has the name. -/
  containers : Kind → Option ContainerId := fun _ => none
  nextContainer : ContainerId := 0
  /-- `cancel_event`. -/
  cancelled : Bool := false
  /-- The temporary directory is there. -/
  workspace : Bool := true

inductive Op
  -- the worker
  | claim
  /-- `_transition`, with whether it was made. -/
  | transition
  | cancelIsSet
  | createTask (kind : Kind)
  /-- `asyncio.wait({task, cancel_wait}, return_when=FIRST_COMPLETED)`. -/
  | waitFirst
  | taskDone
  /-- `asyncio.wait({task}, timeout=0.02)`. -/
  | waitTask
  /-- `asyncio.gather(task, return_exceptions=True)`. -/
  | gather
  /-- `await task`. -/
  | result
  | removeWorkspace
  /-- A loop has used up the rounds it was given in this run: it takes no more steps. -/
  | outOfRounds
  -- the thread
  | begin
  | finish (ending : Ending)
  | monotonic
  -- Docker
  | run (kind : Kind)
  | wait (container : ContainerId) (timeout : Option Nat)
  | kill (container : ContainerId)
  | logs (container : ContainerId)
  | get (kind : Kind)
  | remove (container : ContainerId)
  -- the listener of the cancel channel
  | setCancel
deriving DecidableEq

/-- What an operation returns when it succeeds. -/
@[reducible] def Op.Val : Op → Type
  | claim | transition | cancelIsSet | taskDone => Bool
  | result => Option RunResult
  | begin => Kind
  | monotonic => Seconds
  | run _ | get _ => ContainerId
  | wait _ _ => Option Int
  | logs _ => String
  | _ => Unit

/-- What the environment decides for one operation. -/
structure Env where
  fault : Fault := .none
  /-- Docker could not be reached, rather than having refused. -/
  unreachable : Bool := false
  changed : Bool := true
  /-- The `StatusCode` of a container, if there is one. -/
  statusCode : Option Int := some 0
  text : String := ""
  now : Seconds := 0

/-- What Docker raises when a call fails. -/
def Env.failure (env : Env) : Failure := if env.unreachable then .transport else .api

namespace State

variable (st : State)

/-- Whether a name leads to the container. -/
def holds (container : ContainerId) : Bool :=
  st.containers .exec = some container || st.containers .build = some container

/-- The state without the container. -/
def without (container : ContainerId) : State :=
  { st with containers := fun kind => (st.containers kind).filter (· ≠ container) }

/-- The state with a new container of that name. -/
def withNew (kind : Kind) : State :=
  { st with
    containers := Function.update st.containers kind (some st.nextContainer)
    nextContainer := st.nextContainer + 1 }

end State

namespace Op

variable (p : Pid) (env : Env) (st : State)

/-- A call about a container: it is not found, fails or goes through. -/
def onContainer {α : Type} (container : ContainerId) (a : α) (st' : State) : Option (Except Failure α × State) :=
  if st.holds container then
    match env.fault with
    | .none => some (.ok a, st')
    | .before => some (.error env.failure, st)
    | .after => some (.error env.failure, st')
  else some (.error .notFound, st)

/-- One operation, with what the environment decides; `none` while it has to wait. -/
def perform : (o : Op) → Option (Except Failure o.Val × State)
  | claim =>
    match st.worker with
    | some _ => some (.ok false, st)
    | none => some (.ok true, { st with worker := some p })
  | transition => some (if env.fault = .none then .ok env.changed else .error .database, st)
  | cancelIsSet => some (.ok st.cancelled, st)
  | createTask kind => some (.ok (), { st with task := .scheduled kind })
  | waitFirst => if st.cancelled || st.task.isDone then some (.ok (), st) else none
  | taskDone => some (.ok st.task.isDone, st)
  | waitTask => some (.ok (), st)
  | gather => if st.task.isDone then some (.ok (), st) else none
  | result =>
    match st.task with
    | .done _ ending => some (ending, st)
    | _ => none
  | removeWorkspace => some (.ok (), { st with workspace := false })
  | outOfRounds => none
  | begin =>
    match st.task with
    | .scheduled kind => some (.ok kind, { st with task := .running p kind })
    | _ => none
  | finish ending =>
    match st.task with
    | .running _ kind => some (.ok (), { st with task := .done kind ending })
    | _ => none
  | monotonic => some (.ok env.now, st)
  | run kind =>
    match env.fault, st.containers kind with
    -- the image may be missing, or the name taken
    | .before, _ => some (.error env.failure, st)
    | _, some _ => some (.error .api, st)
    | .none, none => some (.ok st.nextContainer, st.withNew kind)
    -- it was created, and not started
    | .after, none => some (.error env.failure, st.withNew kind)
  | wait container _ =>
    if env.fault = .none then some (.ok env.statusCode, st)
    else some (.error (if st.holds container then env.failure else .notFound), st)
  | kill container => onContainer env st container () st
  | logs container => onContainer env st container env.text st
  | get kind =>
    match st.containers kind with
    | none => some (.error .notFound, st)
    | some container => some (if env.fault = .none then .ok container else .error env.failure, st)
  | remove container => onContainer env st container () (st.without container)
  | setCancel => some (.ok (), { st with cancelled := true })

end Op

/-- The programs of the sandbox. -/
abbrev Py (α : Type) := Async Failure Op Op.Val α

/-- `await` of one operation, or a call that blocks the thread. -/
abbrev await (o : Op) : Py o.Val := Async.call o

/-! ## `services/sandbox.py` -/

/-- `container.wait` after a timeout: the container is killed, and given two more seconds. -/
def waitKilled (container : ContainerId) : Py Int := do
  tryExcept (await (.kill container)) Failure.isApiError fun _ => pure ()
  tryExcept (do
    let code ← await (.wait container (some 2))
    return code.getD 137) (fun _ => true) fun _ => pure 124

/-- The logs of a container, as far as they could be read. -/
def captureLogs (container : ContainerId) : Py (String × String) := do
  let stdout ← attempt (await (.logs container))
  match stdout with
  | .error e => if e.isApiError then return ("", "") else throw e
  | .ok stdout =>
    let stderr ← tryExcept (await (.logs container)) Failure.isApiError fun _ => pure ""
    return (stdout, stderr)

/-- `SandboxRunner._run_with_dir`. -/
def runWithDir (timeout : Nat) : Py RunResult := do
  let started ← await .monotonic
  let container ← tryExcept (await (.run .exec)) Failure.isApiError fun _ => throw .runtimeError
  let (timedOut, exitCode) ← tryExcept (do
    let code ← await (.wait container (some timeout))
    return (false, code.getD 1)) (fun _ => true) fun _ => do
      let code ← waitKilled container
      return (true, code)
  let (stdout, stderr) ← captureLogs container
  let ended ← await .monotonic
  tryExcept (await (.remove container)) Failure.isApiError fun _ => pure ()
  return { exitCode, stdout, stderr, timedOut, durationSeconds := ended - started }

/-- `SandboxRunner.build`. -/
def build : Py Unit :=
  tryExcept (do
    let container ← await (.run .build)
    let code ← await (.wait container none)
    if code.getD 1 ≠ 0 then do
      let _ ← await (.logs container)
      let _ ← await (.logs container)
      await (.remove container)
      throw .runtimeError
    else await (.remove container)) Failure.isApiError fun _ => throw .runtimeError

/-- One round of the loop of `kill_execution`. -/
def killKind (kind : Kind) : Py Unit :=
  tryExcept (do
    let container ← await (.get kind)
    await (.remove container)) (· = .notFound) fun _ => pure ()

/-- `SandboxRunner.kill_execution`. -/
def killExecution : Py Unit := do
  killKind .exec
  killKind .build

/-! ## `worker/app/worker.py` -/

/-- The operation of a task. -/
def operation (timeout : Nat) : Kind → Py (Option RunResult)
  | .exec => some <$> runWithDir timeout
  | .build => (fun _ => none) <$> build

/-- `asyncio.to_thread`: a thread of the pool takes the task on. -/
def thread (timeout : Nat) : Py Unit := do
  let kind ← await .begin
  let ending ← attempt (operation timeout kind)
  await (.finish ending)

/-- The loop of `_run_cancellable`, for `rounds` rounds of a run. -/
def killUntilDone : Nat → Py Unit
  | 0 => do
    if ← await .taskDone then pure () else await .outOfRounds
  | rounds + 1 => do
    if ← await .taskDone then pure ()
    else do
      killExecution
      await .waitTask
      killUntilDone rounds

/-- `_run_cancellable`. -/
def runCancellable (rounds : Nat) (kind : Kind) : Py (Option RunResult) := do
  require (!(← await .cancelIsSet)) .executionCancelled
  await (.createTask kind)
  await .waitFirst
  if ← await .cancelIsSet then do
    killUntilDone rounds
    killExecution
    await .gather
    throw .executionCancelled
  else await .result

/-- The build of `_run_one`, if the language has one, and its run. -/
def buildAndRun (rounds : Nat) (compiled : Bool) : Py (Option RunResult) := do
  if compiled then do
    require (← await .transition) .executionCancelled
    let _ ← runCancellable rounds .build
  else pure ()
  require (← await .transition) .executionCancelled
  runCancellable rounds .exec

/-- `_run_one` with its claim, as far as it has to do with the sandbox. -/
def runOne (rounds : Nat) (compiled : Bool) : Py (Option RunResult) := do
  if ← await .claim then
    andFinally (buildAndRun rounds compiled) (await .removeWorkspace)
  else return none

/-! ## The system -/

/-- What starts a process. -/
inductive Request
  | worker (rounds : Nat) (compiled : Bool)
  | thread (timeout : Nat)
  /-- The listener has received a cancel. -/
  | cancel
  /-- Another `kill_execution`, of the sweeper. -/
  | kill
deriving DecidableEq

def Request.program : Request → Py (Option RunResult)
  | worker rounds compiled => runOne rounds compiled
  | thread timeout => (fun _ => none) <$> Sandbox.thread timeout
  | cancel => (fun _ => none) <$> await .setCancel
  | kill => (fun _ => none) <$> killExecution

/-- The sandbox of one execution, with any number of workers, threads and others. -/
def sandbox : Machine Op (fun o => Except Failure o.Val) Env State Request Ending where
  init := {}
  exec := fun p o env st => Op.perform p env st o
  body := fun _ r => r.program.run

end Concord.Sandbox
