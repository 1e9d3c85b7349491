import Concord.Base.Outline
import Concord.Execution.Api
import Concord.Execution.Worker
import Concord.Execution.Sweep

/-!
# The execution service

Any number of API requests, worker rounds and sweeps over one database and one Redis, each in its
own database session, interleaved at every await.
-/

namespace Concord

open Concord.Base

/-- What starts a process. -/
inductive Request
  | startRun (req : RunRequest)
  | cancelExecution (project : ProjectId) (user : UserId) (id : ExecutionId) (rounds : Nat)
  | workerRound (workerId : String)
  | sweepOnce

/-- What a process returns. -/
inductive Outcome
  | started (out : ExecutionOut)
  | cancelled (out : ExecutionOut)
  | worked
  | swept (count : Nat)
deriving DecidableEq

/-- The program of a request, with the request's own session around it. -/
def Request.program (s : Settings) : Request → Py Outcome
  | startRun req => .started <$> withSession (Concord.startRun s req)
  | cancelExecution project user id rounds =>
    .cancelled <$> withSession (Concord.cancelExecution project user id rounds)
  | workerRound workerId => (fun _ => .worked) <$> Concord.workerRound s workerId
  | sweepOnce => .swept <$> withSession (Concord.sweepOnce s)

/-- The tables that the execution service only reads. -/
structure Tables where
  members : List ProjectMember
  files : List File
  breakpoints : List Breakpoint

/-- `db.get(File, …)` on tables that do not change. -/
def Tables.file? (t : Tables) (file : FileId) : Option File := t.files.find? (·.id = file)

/-- The service with settings `s`, on a database without executions. -/
def service (s : Settings) (t : Tables) :
    Machine Op (fun o => Except PyError o.Val) Env Service Request (Except PyError Outcome) where
  init := { db := { members := t.members, files := t.files, breakpoints := t.breakpoints } }
  exec := fun p o env st => Op.exec p env st o
  body := fun _ r => (r.program s).run

/-- A configuration of the service. -/
abbrev ServiceConfig :=
  Config Op (fun o => Except PyError o.Val) Service Request (Except PyError Outcome)

/-- A project with one owner and one Python file. -/
def Tables.single : Tables where
  members := [⟨0, 0, .owner⟩]
  files := [⟨0, 0, "main.py", .python⟩]
  breakpoints := []

/-- The next `n` operations of process `p`, none of which fails. -/
def undisturbed (p : Pid) (n : Nat) : List (Label Env Request) :=
  List.replicate n (.run p {})

end Concord
