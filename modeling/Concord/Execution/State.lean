import Concord.Execution.Operations

/-!
# Checked transitions and their audit records

`services/execution_state.py`: a status never changes without its event, and never over a status
the writer has not seen.
-/

namespace Concord

open Concord.Base Async

/-- `record_status_event`: appends to the caller's transaction; it never commits. -/
def recordStatusEvent (id : ExecutionId) (previous : Option ExecutionStatus)
    (target : ExecutionStatus) (actor : Actor) (fields : StatusFields := {}) : Py Unit :=
  await (.addEvent id
    { fromStatus := previous, toStatus := target, actor := actor, fields := fields })

/-- `change_status`: applies an allowed change with a conditional write and leaves the commit to
the caller. `execution` is the caller's copy of the row; the copy it is refreshed to is returned
with whether the change was made. -/
def changeStatus (id : ExecutionId) (execution : Execution) (target : ExecutionStatus)
    (actor : Actor) (fields : StatusFields := {}) : Py (Bool × Execution) :=
  if execution.status.canTransition target then do
    let changed ← await (.updateStatus id execution.status target fields)
    let refreshed ← await (.refresh id)
    if changed then do
      recordStatusEvent id (some execution.status) target actor fields
      return (true, refreshed)
    else
      return (false, refreshed)
  else
    return (false, execution)

/-- `async with AsyncSessionLocal() as db: …`: the session is closed, and rolled back, however the
body ends. -/
def withSession {α : Type} (body : Py α) : Py α := andFinally body (await .close)

end Concord
