import Mathlib

/-!
# The rows of the database

The tables the execution service reads and writes, with the columns its code uses, and the
status machine of an execution (`models/execution.py`, `models/debug_session.py`,
`models/session.py`).
-/

namespace Concord

abbrev ExecutionId := Nat
abbrev ProjectId := Nat
abbrev FileId := Nat
abbrev UserId := Nat

/-- A point in time or a duration, in seconds. -/
abbrev Seconds := ℚ

/-- The settings of `core/config.py` that the modelled code reads. -/
structure Settings where
  priorityRoleWeight : ℚ := 10
  priorityWaitWeight : ℚ := 20
  priorityLangPenaltyWeight : ℚ := 2
  priorityWaitSaturationSeconds : Seconds := 30
  priorityDebugBonus : ℚ := 1 / 2
  enableDebugger : Bool := true
  sandboxDebugTimeoutSeconds : Nat := 600
  sandboxDebugIdleSeconds : Nat := 180

/-- The exceptions the modelled code raises or lets through. -/
inductive PyError
  | zeroDivision
  | database
  | redis
  | os
  | other
  | executionCancelled
  | http (status : Nat) (detail : String)
deriving DecidableEq, Repr

/-- `str(exc)`, as far as the modelled code shows it to users. -/
def PyError.message : PyError → String
  | zeroDivision => "float division by zero"
  | database => "database error"
  | redis => "redis error"
  | os => "os error"
  | other => "error"
  | executionCancelled => ""
  | http _ detail => detail

section Except

variable {ε α β : Type} {x : Except ε α}

theorem except_bind_ok {f : α → Except ε β} {b : β} (h : x.bind f = .ok b) :
    ∃ a, x = .ok a ∧ f a = .ok b := by
  cases x with
  | error e => cases h
  | ok a => exact ⟨a, rfl, h⟩

/-- A value that a test finds. -/
theorem except_exists_ok {p : α → Bool} (h : x.toOption.any p = true) : ∃ a, x = .ok a ∧ p a := by
  cases x with
  | error e => cases h
  | ok a => exact ⟨a, rfl, h⟩

end Except

/-- `models/session.py: Role`. -/
inductive Role
  | viewer | editor | debugger | owner
deriving DecidableEq, Repr

/-- `ROLE_RANK`. -/
def Role.rank : Role → Nat
  | viewer => 0
  | editor => 1
  | debugger => 2
  | owner => 3

/-- `Role.value`. -/
def Role.value : Role → String
  | viewer => "viewer"
  | editor => "editor"
  | debugger => "debugger"
  | owner => "owner"

/-- The values of `files.language` (`runtime/registry.py`). -/
inductive Language
  | python | nodejs | cpp | plaintext
deriving DecidableEq, Repr

/-- `models/execution.py: ExecutionStatus`. -/
inductive ExecutionStatus
  | queued | starting | compiling | running | completed | failed | timeout | cancelled
deriving DecidableEq, Repr

namespace ExecutionStatus

/-- `ALLOWED_TRANSITIONS`, the explicit transition table. -/
def allowedTransitions : ExecutionStatus → List ExecutionStatus
  | queued => [starting, compiling, cancelled, failed]
  | starting => [running, compiling, failed, timeout, cancelled]
  | compiling => [running, failed, timeout, cancelled]
  | running => [completed, failed, timeout, cancelled]
  | completed | failed | timeout | cancelled => []

/-- `can_transition`. -/
def canTransition (current target : ExecutionStatus) : Bool :=
  decide (target ∈ allowedTransitions current)

/-- `FINISHED_STATUSES`. -/
def finished (s : ExecutionStatus) : Bool :=
  decide (s ∈ [completed, failed, timeout, cancelled])

/-- The sweeper's `ACTIVE_STATUSES`. -/
def active (s : ExecutionStatus) : Bool := decide (s ∈ [starting, compiling, running])

/-- How far an execution is; every allowed transition makes it larger. -/
def rank : ExecutionStatus → Nat
  | queued => 0
  | starting => 1
  | compiling => 2
  | running => 3
  | completed | failed | timeout | cancelled => 4

theorem rank_lt_of_canTransition {s t : ExecutionStatus} (h : canTransition s t = true) :
    s.rank < t.rank := by
  cases s <;> cases t <;> first | decide | exact absurd h (by decide)

/-- The finished statuses are those no transition leaves. -/
theorem finished_iff {s : ExecutionStatus} : s.finished = true ↔ allowedTransitions s = [] := by
  cases s <;> decide

theorem not_canTransition_of_finished {s : ExecutionStatus} (h : s.finished = true)
    (t : ExecutionStatus) : canTransition s t = false := by
  simp [canTransition, finished_iff.1 h]

end ExecutionStatus

/-- Who made a transition, the `by` of an event. -/
inductive Actor
  | api | worker | sweeper
deriving DecidableEq, Repr

/-- The metadata a transition may set on its row (`allowed_fields` of `change_status`); a field
that is not passed is `none`. -/
structure StatusFields where
  exitCode : Option (Option Int) := none
  stdout : Option String := none
  stderr : Option String := none
  startedAt : Option Seconds := none
  finishedAt : Option Seconds := none
  workerId : Option String := none
deriving DecidableEq, Repr

/-- A row of `executions`. `createdBy` is the process whose session inserted it; it has no column
and serves the statements about that request. -/
structure Execution where
  projectId : ProjectId
  fileId : FileId
  status : ExecutionStatus
  exitCode : Option Int := none
  stdout : String := ""
  stderr : String := ""
  queuedAt : Seconds
  startedAt : Option Seconds := none
  finishedAt : Option Seconds := none
  workerId : Option String := none
  createdBy : Nat
deriving DecidableEq, Repr

/-- The row after `UPDATE … SET status = target, **fields`. -/
def Execution.set (row : Execution) (target : ExecutionStatus) (fields : StatusFields) :
    Execution :=
  { row with
    status := target
    exitCode := fields.exitCode.getD row.exitCode
    stdout := fields.stdout.getD row.stdout
    stderr := fields.stderr.getD row.stderr
    startedAt := fields.startedAt <|> row.startedAt
    finishedAt := fields.finishedAt <|> row.finishedAt
    workerId := fields.workerId <|> row.workerId }

@[simp] theorem Execution.set_status (row : Execution) (t : ExecutionStatus) (f : StatusFields) :
    (row.set t f).status = t := rfl

@[simp] theorem Execution.set_projectId (row : Execution) (t : ExecutionStatus)
    (f : StatusFields) : (row.set t f).projectId = row.projectId := rfl

@[simp] theorem Execution.set_createdBy (row : Execution) (t : ExecutionStatus)
    (f : StatusFields) : (row.set t f).createdBy = row.createdBy := rfl

/-- The payload of an `execution_events` row: `from`, `to`, `by` and the metadata. -/
structure EventPayload where
  fromStatus : Option ExecutionStatus
  toStatus : ExecutionStatus
  actor : Actor
  fields : StatusFields
deriving DecidableEq, Repr

/-- A row of `execution_events`, the append-only audit trail. -/
structure ExecutionEvent where
  id : Nat
  executionId : ExecutionId
  eventType : ExecutionStatus
  payload : EventPayload
deriving DecidableEq, Repr

/-- The move an event records. -/
def ExecutionEvent.move (ev : ExecutionEvent) :
    Option ExecutionStatus × Option ExecutionStatus :=
  (ev.payload.fromStatus, some ev.payload.toStatus)

/-- `models/debug_session.py: DebugStatus`. -/
inductive DebugStatus
  | active | paused | stopped
deriving DecidableEq, Repr

/-- A row of `debug_sessions`. -/
structure DebugSession where
  executionId : ExecutionId
  projectId : ProjectId
  startedBy : UserId
  currentFile : String
  status : DebugStatus
  endedAt : Option Seconds := none
deriving DecidableEq, Repr

/-- A row of `files`. -/
structure File where
  id : FileId
  projectId : ProjectId
  path : String
  language : Language
deriving DecidableEq, Repr

/-- A row of `breakpoints`. -/
structure Breakpoint where
  fileId : FileId
  line : Nat
  enabled : Bool
deriving DecidableEq, Repr

/-- A row of `project_members`. -/
structure ProjectMember where
  projectId : ProjectId
  userId : UserId
  role : Role
deriving DecidableEq, Repr

end Concord
