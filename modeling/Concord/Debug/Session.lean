import Concord.Base.Dict
import Concord.Base.Json
import Concord.Base.System
import Concord.Models

/-!
# A debug session

`DebugRun` of `debug/session.py`, from the first event after the handshake on. The main loop takes what
has come in, events of the adapter and commands of the members, from two queues, in any order, and
handles one after the other; what the adapter answers to a request on the way is up to the adapter.

`log` is what has been asked of the program, with the events that say that it has stopped or goes on. The
requests that only look at the program are not in it.
-/

namespace Concord

open Concord.Base

/-- `MAX_OUTPUT_CHARS`. -/
def maxOutputChars : Nat := 200000

/-- `MAX_VARIABLES`. -/
def maxVariables : Nat := 100

/-- `MAX_VALUE_CHARS`. -/
def maxValueChars : Nat := 300

/-- `HIDDEN_GROUPS`. -/
def hiddenGroups : List Str :=
  [Str.ofString "special variables", Str.ofString "function variables", Str.ofString "class variables"]

/-! ## What the adapter says -/

/-- The category of an `output` event. -/
inductive OutputCategory
  | stdout | stderr | other
deriving DecidableEq, Repr

/-- The events `DebugRun` has handlers for. `closed` is the client's own, when the adapter hangs up. -/
inductive AdapterEvent
  | output (category : OutputCategory) (text : Str)
  | threadStarted (threadId : Option Int)
  | stopped (threadId : Option Int) (reason : String) (text : Option String)
  | continued
  | exited (exitCode : Option Int)
  | terminated
  | closed
  | unknown
deriving DecidableEq, Repr

/-- A frame of a `stackTrace` response. -/
structure AdapterFrame where
  id : Int
  name : String
  line : Int
  path : Option String
deriving DecidableEq, Repr

/-- A variable, as the adapter or the `debug_*` events have it. -/
structure DebugVariable where
  name : Str
  value : Str
  type : Option String
  ref : Int
deriving DecidableEq, Repr

/-- How a request fails: with one of the errors that `_handle_command` reports, or with another. -/
inductive DapFailure
  | reported (text : String)
  | fatal
deriving DecidableEq, Repr

/-- What the adapter answers while one event or command is handled. -/
structure AdapterAnswers where
  control : Except DapFailure Unit := .ok ()
  frames : Except DapFailure (List AdapterFrame) := .ok []
  scopes : Except DapFailure (List (String × Int)) := .ok []
  vars : Except DapFailure (List DebugVariable) := .ok []

/-! ## What the members say and see -/

/-- `continue`, `next`, `stepIn` and `stepOut`. -/
inductive StepName
  | continue_ | next | stepIn | stepOut
deriving DecidableEq, Repr

/-- A command, with what it carries. -/
inductive DebugCommand
  | step (name : StepName)
  | pause
  | vars (ref : Int)
  | frame (frameId : Int)
  | setBreakpoints (path : String) (lines : List Int)
  | stop
  | unknown
deriving DecidableEq, Repr

/-- A frame in a `debug_paused` event. -/
structure StackFrame where
  id : Int
  name : String
  line : Int
  path : String
  fileId : Option FileId
deriving DecidableEq, Repr

/-- The fields of a `debug_paused` event. -/
structure PausedState where
  reason : String
  description : Option String
  lastBy : Option String
  stack : List StackFrame
  scopes : List (String × Int)
  vars : List DebugVariable
deriving DecidableEq, Repr

/-- An event that the session publishes. -/
inductive DebugEvent
  | outputChunk (stream : OutputCategory) (text : Str)
  | paused (state : PausedState)
  | running (lastBy : Option String)
  | vars (ref : Int) (vars : List DebugVariable)
  | frame (frameId : Int) (scopes : List (String × Int)) (vars : List DebugVariable)
  | message (text : String)
deriving DecidableEq, Repr

/-- Why the session is over. -/
inductive StopReason
  | exited | stopped | timeout | idle | cancelled | error
deriving DecidableEq, Repr

/-- What has been asked of the program, and what it did. -/
inductive DebugLog
  | step (name : StepName) (threadId : Int)
  | pause (threadId : Int)
  | stopped
  | continued
deriving DecidableEq, Repr

/-! ## The session -/

/-- `DebugTarget`, as far as the main loop reads it. -/
structure DebugTarget where
  fileIds : List (String × FileId)
deriving DecidableEq, Repr

/-- `DebugRun`. `finished` is set once the main loop is to be left, and `ended` when it has been. -/
structure DebugRun where
  paused : Bool := false
  threadId : Option Int := none
  lastBy : Option String := none
  exitCode : Option Int := none
  stdout : List Str := []
  stderr : List Str := []
  outChars : Nat := 0
  deferVariables : Bool := false
  detailsTask : Bool := false
  published : List DebugEvent := []
  log : List DebugLog := []
  finished : Option StopReason := none
  ended : Bool := false
deriving DecidableEq

/-- `a or b`, of numbers. -/
def orElse (a b : Option Int) : Option Int := if a = none ∨ a = some 0 then b else a

/-- `_clip`. -/
def clip (text : Str) (n : Nat) : Str :=
  if text.length ≤ n then text else text.take (n - 1) ++ [CodePoint.ofChar '…']

/-- `_rel`. -/
def relativePath (path : Option String) : Option String :=
  (path.filter (·.startsWith "/workspace/")).map fun path => (path.drop "/workspace/".length).toString

/-- `_variables`, of what the adapter has answered. -/
def shownVariables (vars : List DebugVariable) : List DebugVariable :=
  ((vars.take maxVariables).filter fun v => v.name ∉ hiddenGroups).map fun v =>
    { v with value := clip v.value maxValueChars }

/-- `_frame_scopes`. -/
def frameScopes (answers : AdapterAnswers) :
    Except DapFailure (List (String × Int) × List DebugVariable) := do
  let scopes ← answers.scopes
  match scopes with
  | [] => return (scopes, [])
  | (_, ref) :: _ =>
    if ref = 0 then return (scopes, [])
    else return (scopes, shownVariables (← answers.vars))

namespace DebugRun

variable (target : DebugTarget) (run : DebugRun)

/-- `publish`. -/
def publish (event : DebugEvent) : DebugRun := { run with published := run.published ++ [event] }

/-- `_cancel_details`. -/
def cancelDetails : DebugRun := { run with detailsTask := false }

/-- `_paused_state`. -/
def pausedState (reason : String) (text : Option String) (includeVariables : Bool)
    (answers : AdapterAnswers) : Except DapFailure PausedState := do
  let frames ← if run.threadId.isSome then answers.frames else .ok []
  let stack := frames.filterMap fun frame => (relativePath frame.path).map fun path =>
    { id := frame.id, name := frame.name, line := frame.line, path, fileId := target.fileIds.lookup path }
  let (scopes, vars) ←
    if stack.isEmpty || !includeVariables then .ok ([], []) else frameScopes answers
  return { reason, description := text, lastBy := run.lastBy, stack, scopes, vars }

/-- The branch of `_handle_event` for the program's output. -/
def handleOutput (category : OutputCategory) (text : Str) : DebugRun :=
  if category = .other then run
  else if run.outChars < maxOutputChars then
    let text := text.take (maxOutputChars - run.outChars)
    let run : DebugRun := { run with
      outChars := run.outChars + text.length
      stdout := if category = .stdout then run.stdout ++ [text] else run.stdout
      stderr := if category = .stdout then run.stderr else run.stderr ++ [text] }
    run.publish (.outputChunk category text)
  else run

/-- An exception that leaves the main loop. -/
def fail : DebugRun := { run with finished := some .error, ended := true }

/-- The branch of `_handle_event` for a stop. -/
def handleStopped (threadId : Option Int) (reason : String) (text : Option String)
    (answers : AdapterAnswers) : DebugRun :=
  let run : DebugRun := { run with
    paused := true
    threadId := orElse threadId run.threadId
    log := run.log ++ [.stopped] }
  match run.pausedState target reason text (!run.deferVariables) answers with
  | .error _ => run.fail
  | .ok state =>
    let run := run.publish (.paused state)
    if run.deferVariables && !state.stack.isEmpty then { run with detailsTask := true } else run

/-- `_handle_event`. -/
def handleEvent (answers : AdapterAnswers) : AdapterEvent → DebugRun
  | .output category text => run.handleOutput category text
  | .threadStarted threadId => { run with threadId := orElse run.threadId threadId }
  | .stopped threadId reason text => run.handleStopped target threadId reason text answers
  | .continued =>
    let run : DebugRun := { run.cancelDetails with log := run.log ++ [.continued] }
    if run.paused then
      let run : DebugRun := { run with paused := false }
      run.publish (.running run.lastBy)
    else run
  | .exited exitCode => { run with exitCode }
  | .terminated | .closed => { run with finished := some (run.finished.getD .exited) }
  | .unknown => run

/-- The `except` of `_handle_command`. -/
def report {α : Type} (result : Except DapFailure α) (next : α → DebugRun) : DebugRun :=
  match result with
  | .ok value => next value
  | .error (.reported text) => run.publish (.message text)
  | .error .fatal => run.fail

/-- `_handle_command` of a command that lets the program go on. -/
def handleStep (name : StepName) (username : Option String) (answers : AdapterAnswers) : DebugRun :=
  match run.paused, run.threadId with
  | true, some threadId =>
    let run : DebugRun := { run.cancelDetails with
      deferVariables := name ≠ .continue_
      lastBy := username
      log := run.log ++ [.step name threadId] }
    run.report answers.control fun _ => run
  | _, _ => run

/-- `_handle_command`, and the branch of the main loop for `stop`. -/
def handleCommand (username : Option String) (answers : AdapterAnswers) : DebugCommand → DebugRun
  | .step name => run.handleStep name username answers
  | .pause =>
    if run.paused then run
    else
      let run : DebugRun := { run.cancelDetails with
        deferVariables := false
        lastBy := username
        log := run.log ++ [.pause ((orElse run.threadId (some 1)).getD 1)] }
      run.report answers.control fun _ => run
  | .vars ref =>
    if run.paused && 0 < ref then
      run.report answers.vars fun found => run.publish (.vars ref (shownVariables found))
    else run
  | .frame frameId =>
    let run := run.cancelDetails
    if run.paused && frameId ≠ 0 then
      run.report (frameScopes answers) fun found => run.publish (.frame frameId found.1 found.2)
    else run
  | .setBreakpoints path _ => if path = "" then run else run.report answers.control fun _ => run
  | .stop => { run with finished := some .stopped }
  | .unknown => run

/-- What the main loop handles. -/
inductive Input
  | event (event : AdapterEvent)
  | command (username : Option String) (command : DebugCommand)
  | cancel
deriving DecidableEq, Repr

def handle (answers : AdapterAnswers) : Input → DebugRun
  | .event event => run.handleEvent target answers event
  | .command username command => run.handleCommand username answers command
  | .cancel => { run with finished := some .cancelled }

inductive Label
  | handle (input : Input) (answers : AdapterAnswers)
  /-- The round is over in which the session was finished; what else had come in has been handled. -/
  | leave
  /-- The time of the session is over, or it has been paused for too long. -/
  | timeUp (reason : StopReason)

def step : Label → Option DebugRun
  | .handle input answers => if run.ended then none else some (run.handle target answers input)
  | .leave => if run.finished.isSome ∧ run.ended = false then some { run with ended := true } else none
  | .timeUp reason =>
    if run.finished = none ∧ run.ended = false ∧
        (reason = .timeout ∨ reason = .idle ∧ run.paused = true) then
      some { run with finished := some reason, ended := true }
    else none

/-- What the session comes to, `DebugOutcome`. -/
structure Outcome where
  exitCode : Option Int
  stdout : Str
  stderr : Str
  reason : StopReason
deriving DecidableEq, Repr

def outcome : Outcome where
  exitCode := run.exitCode
  stdout := run.stdout.flatten
  stderr := run.stderr.flatten
  reason := run.finished.getD .exited

/-- The session, with all that can happen to it. -/
abbrev system : System DebugRun Label where
  init := {}
  step run := run.step target

end DebugRun

end Concord
