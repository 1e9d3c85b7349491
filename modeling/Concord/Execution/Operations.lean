import Concord.Base.Program
import Concord.Execution.Database
import Concord.Queue.Priority

/-!
# What the execution service awaits

The operations of the API process, the workers and the sweeper: statements of their database
sessions, Redis commands, and calls to the rest of the world (clock, live documents, Docker,
project sockets). Each one is atomic. An operation on the database or on Redis can fail, before or
after it has had its effect, and then raises.
-/

namespace Concord

open Concord.Base

/-- The value of `concord:debug:active:{project_id}`. -/
structure ActiveInfo where
  executionId : ExecutionId
  fileId : FileId
  path : String
  userId : UserId
  username : String
deriving DecidableEq, Repr

/-- The commands on the queue hash, as Redis serves them. -/
inductive QueueCommand
  | hset (id : ExecutionId) (payload : Payload)
  | hgetall (snapshot : List (ExecutionId × Payload))
  | hdel (id : ExecutionId) (removed : Bool)
deriving DecidableEq, Repr

/-- The keys of Redis the service uses. `log` is the history of the commands on the queue hash
with the process that sent them. -/
structure Redis where
  queue : List (ExecutionId × Payload) := []
  notify : Nat := 0
  active : ProjectId → Option ActiveInfo := fun _ => none
  log : List (Pid × QueueCommand) := []

namespace Redis

variable (r : Redis) (p : Pid)

def logged (c : QueueCommand) : Redis := { r with log := r.log ++ [(p, c)] }

/-- `HSET concord:executions:meta id payload`. -/
def hset (id : ExecutionId) (payload : Payload) : Redis :=
  { r with
    queue := r.queue.filter (·.1 ≠ id) ++ [(id, payload)]
    log := r.log ++ [(p, .hset id payload)] }

/-- `HGETALL`: the whole hash, in an order Redis chooses. -/
def hgetall (order : List ExecutionId) : Option (List (ExecutionId × Payload)) :=
  if order.Perm (r.queue.map (·.1)) then
    some (order.filterMap fun id => (r.queue.lookup id).map fun payload => (id, payload))
  else none

/-- `HDEL`: whether it removed the field. -/
def hdel (id : ExecutionId) : Bool × Redis :=
  let removed := decide (id ∈ r.queue.map (·.1))
  (removed, { r with
    queue := r.queue.filter (·.1 ≠ id)
    log := r.log ++ [(p, .hdel id removed)] })

variable {r}

theorem mem_of_hgetall {order : List ExecutionId} {snapshot : List (ExecutionId × Payload)}
    (h : r.hgetall order = some snapshot) : ∀ entry ∈ snapshot, entry ∈ r.queue := by
  unfold hgetall at h
  split at h
  · cases h
    intro entry he
    simp only [List.mem_filterMap, Option.map_eq_some_iff] at he
    obtain ⟨id, -, payload, hlook, rfl⟩ := he
    obtain ⟨l₁, l₂, hsplit, -⟩ := List.lookup_eq_some_iff.1 hlook
    rw [hsplit]
    exact List.mem_append_right _ List.mem_cons_self
  · cases h

end Redis

/-- The state the processes of the execution service share. -/
structure Service where
  db : Database
  redis : Redis := {}

/-- What a worker and the sweeper tell a project (`publish_project_event`). -/
inductive ProjectEvent
  | executionStatus (id : ExecutionId) (status : ExecutionStatus)
  | executionOutput (id : ExecutionId) (stdout stderr : String) (exitCode : Option Int)
      (duration : Seconds)
deriving DecidableEq, Repr

/-- The pub/sub channels. -/
inductive Channel
  | cancel (id : ExecutionId)
  | exec (project : ProjectId) (event : ProjectEvent)
  | debugCommand (id : ExecutionId)
deriving DecidableEq, Repr

/-- `services/sandbox.py: RunResult`. -/
structure RunResult where
  exitCode : Int
  stdout : String
  stderr : String
  timedOut : Bool
  durationSeconds : Seconds
deriving DecidableEq, Repr

/-- Why a debug session ended (`debug/session.py: DebugOutcome.reason`). -/
inductive DebugReason
  | exited | stopped | cancelled | timeout | idle | error
deriving DecidableEq, Repr

/-- `debug/session.py: DebugOutcome`. -/
structure DebugOutcome where
  reason : DebugReason
  exitCode : Option Int
  stdout : String
  stderr : String
  error : Option String
  durationSeconds : Seconds
deriving DecidableEq, Repr

inductive Op
  -- statements of the process's database session
  | getMember (project : ProjectId) (user : UserId)
  | getFile (file : FileId)
  | getExecution (id : ExecutionId)
  | selectFiles (project : ProjectId)
  | selectBreakpoints (project : ProjectId)
  | insertExecution (project : ProjectId) (file : FileId) (queuedAt : Seconds)
  | updateStatus (id : ExecutionId) (current target : ExecutionStatus) (fields : StatusFields)
  | claimQueued (id : ExecutionId) (project : ProjectId) (file : FileId) (workerId : String)
      (startedAt : Seconds)
  | refresh (id : ExecutionId)
  | addEvent (id : ExecutionId) (payload : EventPayload)
  | addDebugSession (row : DebugSession)
  | stopDebugSessions (id : ExecutionId) (endedAt : Seconds)
  | selectOrphans (threshold debugThreshold : Seconds)
  | selectFinished (ids : List ExecutionId)
  | commit
  | rollback
  | close
  -- Redis commands
  | hset (id : ExecutionId) (payload : Payload)
  | lpush
  | blpop
  | hgetall
  | hdel (id : ExecutionId)
  | setActiveNx (project : ProjectId) (info : ActiveInfo)
  | setActive (project : ProjectId) (info : ActiveInfo)
  | getActive (project : ProjectId)
  | delActive (project : ProjectId)
  | delState (id : ExecutionId)
  | publish (channel : Channel)
  | subscribe (channel : Channel)
  | unsubscribe (channel : Channel)
  -- the rest of the world
  | clock
  | fileText (project : ProjectId) (file : FileId)
  | notifyQueued (id : ExecutionId)
  | mountWorkspace (project : ProjectId) (file : FileId)
  | writeSource (text : String)
  | removeWorkspace
  | sandboxBuild (id : ExecutionId)
  | sandboxRun (id : ExecutionId)
  | debugRun (id : ExecutionId)
  | containerIds
  | killExecution (id : ExecutionId)
  /-- A loop has used up the rounds it was given in this run: it takes no more steps. -/
  | outOfRounds
deriving DecidableEq

/-- What an operation returns when it succeeds. -/
@[reducible] def Op.Val : Op → Type
  | getMember _ _ => Option ProjectMember
  | getFile _ => Option File
  | getExecution _ => Option Execution
  | selectFiles _ => List File
  | selectBreakpoints _ => List (String × Nat)
  | insertExecution _ _ _ => ExecutionId
  | updateStatus _ _ _ _ => Bool
  | claimQueued _ _ _ _ _ => Bool
  | refresh _ => Execution
  | selectOrphans _ _ => List (ExecutionId × Execution)
  | selectFinished _ => List ExecutionId
  | hgetall => List (ExecutionId × Payload)
  | hdel _ => Bool
  | setActiveNx _ _ => Bool
  | getActive _ => Option ActiveInfo
  | clock => Seconds
  | fileText _ _ => String
  | sandboxRun _ => RunResult
  | debugRun _ => DebugOutcome
  | containerIds => List ExecutionId
  | _ => Unit

/-- Where an operation goes, and so how it can fail. -/
inductive Target
  /-- Nothing is awaited: the session object itself, a socket's send queue. -/
  | inProcess
  | database
  | redis
  | outside
deriving DecidableEq

def Op.target : Op → Target
  | getMember _ _ | getFile _ | getExecution _ | selectFiles _ | selectBreakpoints _
  | insertExecution _ _ _ | updateStatus _ _ _ _ | claimQueued _ _ _ _ _ | refresh _
  | stopDebugSessions _ _ | selectOrphans _ _ | selectFinished _ | commit => .database
  | hset _ _ | lpush | blpop | hgetall | hdel _ | setActiveNx _ _ | setActive _ _ | getActive _
  | delActive _ | delState _ | publish _ | subscribe _ | unsubscribe _ => .redis
  | addEvent _ _ | addDebugSession _ | rollback | close | clock | notifyQueued _
  | outOfRounds => .inProcess
  | fileText _ _ | mountWorkspace _ _ | writeSource _ | removeWorkspace | sandboxBuild _
  | sandboxRun _ | debugRun _ | containerIds | killExecution _ => .outside

/-- Whether an operation fails, and if so whether it has had its effect. -/
inductive Fault
  | none | before | after
deriving DecidableEq

/-- What the environment decides for one operation: whether it fails (with an `OSError` rather
than the library's own error), what the clock reads, the order of a hash's fields, and what the
rest of the world answers. -/
structure Env where
  fault : Fault := .none
  osError : Bool := false
  now : Seconds := 0
  order : List ExecutionId := []
  text : String := ""
  containers : List ExecutionId := []
  /-- A cancel reached the worker while the sandbox operation was running. -/
  cancelled : Bool := false
  result : RunResult := ⟨0, "", "", false, 0⟩
  outcome : DebugOutcome := ⟨.exited, some 0, "", "", none, 0⟩

def Target.error (env : Env) : Target → PyError
  | database => if env.osError then .os else .database
  | redis => if env.osError then .os else .redis
  | _ => if env.osError then .os else .other

namespace Op

variable (p : Pid) (env : Env) (st : Service)

/-- The row version after `UPDATE … SET status = 'starting', worker_id = …, started_at = …`. -/
def claimedRow (workerId : String) (startedAt : Seconds) (row : Execution) : Execution :=
  row.set .starting { workerId := some workerId, startedAt := some startedAt }

/-- The result and effect of an operation that does not fail; `none` while it has to wait. -/
def run : (o : Op) → Option (Except PyError o.Val × Service)
  | getMember project user => some (.ok (st.db.member? project user), st)
  | getFile file => some (.ok (st.db.file? file), st)
  | getExecution id => some (.ok (st.db.visible p id), st)
  | selectFiles project => some (.ok (st.db.files.filter (·.projectId = project)), st)
  | selectBreakpoints project =>
    some (.ok ((st.db.breakpoints.filter (·.enabled)).filterMap fun b =>
      match st.db.file? b.fileId with
      | some f => if f.projectId = project then some (f.path, b.line) else none
      | none => none), st)
  | insertExecution project file queuedAt =>
    let (id, db) := st.db.insertExecution p
      { projectId := project, fileId := file, status := .queued, queuedAt, createdBy := p }
    some (.ok id, { st with db })
  | updateStatus id current target fields =>
    (st.db.updateWhere p id (·.status = current) (·.set target fields)).map fun (changed, db) =>
      (.ok changed, { st with db })
  | claimQueued id project file workerId startedAt =>
    (st.db.updateWhere p id
      (fun row => row.projectId = project && row.fileId = file && row.status = .queued)
      (claimedRow workerId startedAt)).map fun (claimed, db) => (.ok claimed, { st with db })
  | refresh id =>
    match st.db.visible p id with
    | some row => some (.ok row, st)
    | none => some (.error .database, st)
  | addEvent id payload => some (.ok (), { st with db := st.db.addEvent p id payload })
  | addDebugSession row => some (.ok (), { st with db := st.db.addDebugWrite p (.insert row) })
  | stopDebugSessions id endedAt =>
    some (.ok (), { st with db := st.db.addDebugWrite p (.stop id endedAt) })
  | selectOrphans threshold debugThreshold =>
    some (.ok (st.db.orphans p threshold debugThreshold), st)
  | selectFinished ids =>
    some (.ok (ids.filter fun id => (st.db.visible p id).any (·.status.finished)), st)
  | commit => some (.ok (), { st with db := st.db.commit p })
  | rollback | close => some (.ok (), { st with db := st.db.rollback p })
  | hset id payload => some (.ok (), { st with redis := st.redis.hset p id payload })
  | lpush => some (.ok (), { st with redis.notify := st.redis.notify + 1 })
  | blpop => some (.ok (), { st with redis.notify := st.redis.notify - 1 })
  | hgetall =>
    (st.redis.hgetall env.order).map fun raw =>
      (.ok raw, { st with redis := st.redis.logged p (.hgetall raw) })
  | hdel id =>
    let (removed, redis) := st.redis.hdel p id
    some (.ok removed, { st with redis })
  | setActiveNx project info =>
    match st.redis.active project with
    | some _ => some (.ok false, st)
    | none =>
      some (.ok true, { st with
        redis.active := Function.update st.redis.active project (some info) })
  | setActive project info =>
    some (.ok (), { st with
      redis.active := Function.update st.redis.active project (some info) })
  | getActive project => some (.ok (st.redis.active project), st)
  | delActive project =>
    some (.ok (), { st with redis.active := Function.update st.redis.active project none })
  | clock => some (.ok env.now, st)
  | fileText _ _ => some (.ok env.text, st)
  | sandboxBuild _ =>
    some (if env.cancelled then .error .executionCancelled else .ok (), st)
  | sandboxRun _ =>
    some (if env.cancelled then .error .executionCancelled else .ok env.result, st)
  | debugRun _ => some (.ok env.outcome, st)
  | containerIds => some (.ok env.containers, st)
  | outOfRounds => none
  | delState _ | publish _ | subscribe _ | unsubscribe _ | notifyQueued _ | mountWorkspace _ _
  | writeSource _ | removeWorkspace | killExecution _ => some (.ok (), st)

/-- One operation, with the fault the environment decides on. -/
def exec (o : Op) : Option (Except PyError o.Val × Service) :=
  match env.fault, o.target with
  | .none, _ | _, .inProcess => run p env st o
  | .before, t => some (.error (t.error env), st)
  | .after, t => (run p env st o).map fun (_, st') => (.error (t.error env), st')

variable {p env st} {o : Op} {x : Except PyError o.Val} {st' : Service}

/-- An operation either goes through, or has raised its target's error, before or after its
effect. -/
theorem exec_cases (h : exec p env st o = some (x, st')) :
    (env.fault = .none ∨ o.target = .inProcess) ∧ run p env st o = some (x, st') ∨
      o.target ≠ .inProcess ∧ x = .error (o.target.error env) ∧
        (env.fault = .before ∧ st' = st ∨
          env.fault = .after ∧ ∃ y, run p env st o = some (y, st')) := by
  unfold exec at h
  split at h
  · next hf => exact .inl ⟨.inl hf, h⟩
  · next ht _ => exact .inl ⟨.inr ht, h⟩
  · next hf ht =>
    simp only [Option.some.injEq, Prod.mk.injEq] at h
    exact .inr ⟨ht, h.1.symm, .inl ⟨hf, h.2.symm⟩⟩
  · next hf ht =>
    simp only [Option.map_eq_some_iff, Prod.exists, Prod.mk.injEq] at h
    obtain ⟨y, st'', hy, hx, rfl⟩ := h
    exact .inr ⟨ht, hx.symm, .inr ⟨hf, y, hy⟩⟩

theorem exec_eq_some (h : exec p env st o = some (x, st')) :
    run p env st o = some (x, st') ∨
      o.target ≠ .inProcess ∧ x = .error (o.target.error env) ∧
        (env.fault = .before ∧ st' = st ∨
          env.fault = .after ∧ ∃ y, run p env st o = some (y, st')) :=
  (exec_cases h).imp_left And.right

/-- The operations after which the state of the service is as it was. -/
def reads : Op → Bool
  | getMember _ _ | getFile _ | getExecution _ | selectFiles _ | selectBreakpoints _ | refresh _
  | selectOrphans _ _ | selectFinished _ | getActive _ | delState _ | publish _ | subscribe _
  | unsubscribe _ | clock | fileText _ _ | notifyQueued _ | mountWorkspace _ _ | writeSource _
  | removeWorkspace | sandboxBuild _ | sandboxRun _ | debugRun _ | containerIds
  | killExecution _ | outOfRounds => true
  | _ => false

/-- The operations that only a `start_run` performs, and those that change the queue hash. -/
def ordinary : Op → Bool
  | insertExecution _ _ _ | addDebugSession _ | setActiveNx _ _ | setActive _ _ | hset _ _
  | hdel _ => false
  | _ => true

/-- The operations that write to the database, or end a transaction. -/
def writesDb : Op → Bool
  | insertExecution _ _ _ | updateStatus _ _ _ _ | claimQueued _ _ _ _ _ | addEvent _ _
  | addDebugSession _ | stopDebugSessions _ _ | commit | rollback | close => true
  | _ => false

theorem run_reads (ho : o.reads = true) (h : run p env st o = some (x, st')) : st' = st := by
  cases o <;> simp only [reads, Bool.false_eq_true] at ho <;>
    simp only [run, Option.some.injEq, Prod.mk.injEq, reduceCtorEq] at h <;>
    first
      | exact h.2.symm
      | (split at h <;> simp only [Option.some.injEq, Prod.mk.injEq] at h <;> exact h.2.symm)

theorem run_db (ho : o.writesDb = false) (h : run p env st o = some (x, st')) :
    st'.db = st.db := by
  cases hr : o.reads with
  | true => rw [run_reads hr h]
  | false =>
    cases o <;> simp only [reads, writesDb, Bool.true_eq_false] at hr ho <;>
      simp only [run, Option.some.injEq, Prod.mk.injEq, Option.map_eq_some_iff] at h <;>
      grind

theorem ordinary_of_reads (ho : o.reads = true) : o.ordinary = true := by
  cases o <;> first | rfl | cases ho

theorem writesDb_of_reads (ho : o.reads = true) : o.writesDb = false := by
  cases o <;> first | rfl | cases ho

theorem run_updateStatus {id : ExecutionId} {current target : ExecutionStatus} {fields : StatusFields}
    {x : Except PyError Bool} (h : run p env st (.updateStatus id current target fields) = some (x, st')) :
    ∃ changed db, st.db.updateWhere p id (·.status = current) (·.set target fields) = some (changed, db) ∧
      .ok changed = x ∧ { st with db } = st' := by
  obtain ⟨⟨changed, db⟩, hupdate, hx⟩ := Option.map_eq_some_iff.1 h
  exact ⟨changed, db, hupdate, Prod.mk.inj hx⟩

theorem run_claimQueued {id : ExecutionId} {project : ProjectId} {file : FileId} {workerId : String}
    {startedAt : Seconds} {x : Except PyError Bool}
    (h : run p env st (.claimQueued id project file workerId startedAt) = some (x, st')) :
    ∃ claimed db, st.db.updateWhere p id
        (fun row => row.projectId = project && row.fileId = file && row.status = .queued)
        (claimedRow workerId startedAt) = some (claimed, db) ∧ .ok claimed = x ∧ { st with db } = st' := by
  obtain ⟨⟨claimed, db⟩, hupdate, hx⟩ := Option.map_eq_some_iff.1 h
  exact ⟨claimed, db, hupdate, Prod.mk.inj hx⟩

theorem run_hgetall {x : Except PyError (List (ExecutionId × Payload))}
    (h : run p env st .hgetall = some (x, st')) :
    ∃ raw, st.redis.hgetall env.order = some raw ∧ .ok raw = x ∧
      { st with redis := st.redis.logged p (.hgetall raw) } = st' := by
  obtain ⟨raw, hread, hx⟩ := Option.map_eq_some_iff.1 h
  exact ⟨raw, hread, Prod.mk.inj hx⟩

/-- What an operation makes of the database. -/
theorem db_cases {P : Database → Prop} (h : run p env st o = some (x, st')) (same : P st.db)
    (insert : ∀ row, P (st.db.insertExecution p row).2) (write : ∀ id row, P (st.db.write p id row))
    (addEvent : ∀ id payload, P (st.db.addEvent p id payload))
    (addDebugSession : ∀ row, o = .addDebugSession row → P (st.db.addDebugWrite p (.insert row)))
    (stopDebugSessions : ∀ id endedAt, P (st.db.addDebugWrite p (.stop id endedAt)))
    (commit : o = .commit → P (st.db.commit p))
    (rollback : o = .rollback ∨ o = .close → P (st.db.rollback p)) : P st'.db := by
  have hupdate : ∀ {id cond set changed db}, st.db.updateWhere p id cond set = some (changed, db) → P db := by
    intro id cond set changed db hu
    rcases Database.updateWhere_eq_some hu with ⟨-, rfl⟩ | ⟨-, row, -, -, -, rfl⟩
    · exact same
    · exact write id (set row)
  cases hw : o.writesDb with
  | false => rwa [run_db hw h]
  | true =>
    cases o <;> simp only [writesDb, Bool.false_eq_true] at hw
    case updateStatus | claimQueued =>
      obtain ⟨⟨changed, db⟩, hu, hx⟩ := Option.map_eq_some_iff.1 h
      cases hx
      exact hupdate hu
    case insertExecution project file queuedAt =>
      cases h
      exact insert _
    case addEvent id payload =>
      cases h
      exact addEvent id payload
    case addDebugSession row =>
      cases h
      exact addDebugSession row rfl
    case stopDebugSessions id endedAt =>
      cases h
      exact stopDebugSessions id endedAt
    case commit =>
      cases h
      exact commit rfl
    case rollback =>
      cases h
      exact rollback (.inl rfl)
    case close =>
      cases h
      exact rollback (.inr rfl)

end Op

/-- The programs of the execution service. -/
abbrev Py (α : Type) := Async PyError Op Op.Val α

/-- `await` of one operation. -/
abbrev await (o : Op) : Py o.Val := Async.call o

end Concord
