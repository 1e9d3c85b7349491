import Concord.Execution.Operations

/-!
# The debug slot of a project

The Redis keys of `debug/control.py`: a project's running debug session, at most one, is named by
`concord:debug:active:{project_id}`.
-/

namespace Concord

open Concord.Base Async

/-- `set_active`. -/
def setActive (project : ProjectId) (info : ActiveInfo) : Py Unit :=
  await (.setActive project info)

/-- `claim_active`: marks `info` as the project's debug session unless one is running. -/
def claimActive (project : ProjectId) (info : ActiveInfo) : Py Bool :=
  await (.setActiveNx project info)

/-- `get_active`. -/
def getActive (project : ProjectId) : Py (Option ActiveInfo) := await (.getActive project)

/-- `clear_active`: forgets the project's debug session if it is still execution `id`. The look-up
and the deletion are two commands. -/
def clearActive (project : ProjectId) (id : ExecutionId) : Py Unit := do
  let active ← getActive project
  if active.any (·.executionId = id) then
    await (.delActive project)
  else
    pure ()
  await (.delState id)

end Concord
