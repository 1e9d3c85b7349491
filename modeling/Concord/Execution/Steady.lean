import Concord.Execution.Rules

/-!
# Programs that leave a protocol alone

Most of the service does not concern a given protocol: whatever the protocol, a program is steady if
the operations it is made of are. Here for everything that neither starts a run nor changes the
queue hash: first the programs that only ever finish an execution, then the worker's, and last what
removes entries from the hash as well.
-/

namespace Concord

open Concord.Base Async

variable {s : Settings} {t : Tables} {G : Type} {P : Protocol (service s t) G} {p : Pid}
  {r : Request} {g : G}

/-- A status is changed to a final one, if to any. -/
def Op.finishing : Op → Bool
  | updateStatus _ _ target _ => target.finished
  | claimQueued _ _ _ _ _ => false
  | _ => true

theorem Op.finishing_of_reads {o : Op} (ho : o.reads = true) : o.finishing = true := by
  cases o <;> first | rfl | cases ho

theorem finishing_of_ordinary (hop : ∀ o : Op, o.ordinary = true → P.Steady p r g (await o)) (o : Op)
    (ho : o.ordinary = true) (_ : o.finishing = true) : P.Steady p r g (await o) :=
  hop o ho

section Finishing

theorem reads_of_finishing
    (hfin : ∀ o : Op, o.ordinary = true → o.finishing = true → P.Steady p r g (await o)) (o : Op)
    (ho : o.reads = true) : P.Steady p r g (await o) :=
  hfin o (Op.ordinary_of_reads ho) (Op.finishing_of_reads ho)

variable (hfin : ∀ o : Op, o.ordinary = true → o.finishing = true → P.Steady p r g (await o))
include hfin

omit hfin in
theorem withSession_steady {α : Type} {x : Py α} (hclose : P.Steady p r g (await .close))
    (hx : P.Steady p r g x) : P.Steady p r g (withSession x) :=
  hx.andFinally hclose

theorem changeStatus_steady {id : ExecutionId} {target : ExecutionStatus} {fields : StatusFields}
    (hupdate : ∀ current, P.Steady p r g (await (.updateStatus id current target fields)))
    (execution : Execution) (actor : Actor) :
    P.Steady p r g (changeStatus id execution target actor fields) := by
  unfold changeStatus
  split
  · refine Protocol.Steady.bind (hupdate _) fun changed => ?_
    refine Protocol.Steady.bind (hfin _ rfl rfl) fun refreshed => ?_
    split
    · exact Protocol.Steady.bind (hfin _ rfl rfl) fun _ => .pure _
    · exact .pure _
  · exact .pure _

theorem failQueued_steady (id : ExecutionId) (finishedAt : Seconds) :
    P.Steady p r g (failQueued id finishedAt) := by
  refine Protocol.Steady.bind (hfin _ rfl rfl) fun execution => ?_
  cases execution with
  | none => exact .pure _
  | some row =>
    dsimp only
    split
    · exact (changeStatus_steady hfin (fun _ => hfin _ rfl rfl) _ _).bind fun _ => .pure _
    · exact .pure _

theorem cancelLoop_steady (id : ExecutionId) (rounds : Nat) (execution : Execution) :
    P.Steady p r g (cancelLoop id rounds execution) := by
  induction rounds generalizing execution with
  | zero =>
    unfold cancelLoop
    split
    · exact .pure _
    · exact (hfin _ rfl rfl).bind fun _ => .pure _
  | succ rounds ih =>
    unfold cancelLoop
    split
    · exact .pure _
    · refine Protocol.Steady.bind (hfin _ rfl rfl) fun finishedAt => ?_
      refine (changeStatus_steady hfin (fun _ => hfin _ rfl rfl) _ _).bind fun changed => ?_
      split
      · exact .pure _
      · exact Protocol.Steady.bind (hfin _ rfl rfl) ih

theorem failOrphans_steady (now : Seconds) (orphaned : List (ExecutionId × Execution)) :
    P.Steady p r g (failOrphans now orphaned) := by
  induction orphaned with
  | nil => exact .pure _
  | cons entry rest ih =>
    exact (changeStatus_steady hfin (fun _ => hfin _ rfl rfl) _ _).bind fun _ => ih.bind fun _ => .pure _

theorem sweepOnce_steady : P.Steady p r g (sweepOnce s) := by
  have hread := reads_of_finishing hfin
  refine Protocol.Steady.bind (hfin _ rfl rfl) fun now => ?_
  refine Protocol.Steady.bind (hfin _ rfl rfl) fun orphaned => ?_
  refine (failOrphans_steady hfin now orphaned).bind fun changed => ?_
  have hkill : ∀ finished : List ExecutionId, P.Steady p r g (do
      killAll ((changed ++ finished).dedup.mergeSort (· ≤ ·))
      signalAll changed
      return changed.length) := fun finished =>
    (killAll_steady hread _).bind fun _ => (signalAll_steady hread _).bind fun _ => .pure _
  have hcontainers : P.Steady p r g (do
      let containers ← tryExcept (await .containerIds) (fun _ => true) fun _ => pure []
      let remaining := containers.filter (· ∉ changed)
      let finished ← if remaining ≠ [] then await (.selectFinished remaining) else pure []
      killAll ((changed ++ finished).dedup.mergeSort (· ≤ ·))
      signalAll changed
      return changed.length) := by
    refine ((hfin _ rfl rfl).tryExcept fun _ => .pure _).bind fun containers => ?_
    refine Protocol.Steady.ite ?_ ?_
    · exact (hfin _ rfl rfl).bind hkill
    · exact (Protocol.Steady.pure []).bind hkill
  split
  · exact (hfin _ rfl rfl).bind fun _ => hcontainers
  · exact (Protocol.Steady.pure ()).bind fun _ => hcontainers

theorem transition_steady {id : ExecutionId} {status : ExecutionStatus} {fields : StatusFields}
    (hupdate : ∀ current, P.Steady p r g (await (.updateStatus id current status fields))) :
    P.Steady p r g (transition id status fields) := by
  refine withSession_steady (hfin _ rfl rfl)
    (Protocol.Steady.bind (hfin _ rfl rfl) fun found => ?_)
  cases found with
  | none => exact .pure _
  | some execution =>
    refine (changeStatus_steady hfin hupdate _ _).bind fun changed => ?_
    split
    · exact Protocol.Steady.bind (hfin _ rfl rfl) fun _ => .pure _
    · exact .pure _

theorem settle_steady (project : ProjectId) (id : ExecutionId) {status : ExecutionStatus}
    (hstatus : status.finished = true) (fields : Seconds → StatusFields) :
    P.Steady p r g (settle project id status fields) := by
  refine Protocol.Steady.bind (hfin _ rfl rfl) fun now => ?_
  refine (transition_steady hfin fun _ => hfin _ rfl hstatus).bind fun changed => ?_
  split
  · exact hfin _ rfl rfl
  · exact .pure _

variable (hdel : ∀ id, P.Steady p r g (await (.hdel id)))
include hdel

theorem failUndeliveredRun_steady (project : ProjectId) (id : ExecutionId) (debug : Bool) :
    P.Steady p r g (failUndeliveredRun project id debug) := by
  have hforget := forgetUndelivered_steady (reads_of_finishing hfin) (hdel id)
    (hfin (.delActive project) rfl rfl) debug
  have hcommit : P.Steady p r g (do
      await .commit
      forgetUndelivered project id debug
      return true) :=
    (hfin _ rfl rfl).bind fun _ => hforget.bind fun _ => .pure _
  refine Protocol.Steady.bind (hfin _ rfl rfl) fun finishedAt => ?_
  refine (failQueued_steady hfin id finishedAt).bind fun failed => ?_
  split
  · split
    · exact (hfin _ rfl rfl).bind fun _ => hcommit
    · exact (Protocol.Steady.pure ()).bind fun _ => hcommit
  · exact (hfin _ rfl rfl).bind fun _ => .pure _

theorem cancelExecution_steady (project : ProjectId) (user : UserId) (id : ExecutionId)
    (rounds : Nat) : P.Steady p r g (cancelExecution project user id rounds) := by
  have hread := reads_of_finishing hfin
  refine (getMember_steady hread project user).bind fun member => ?_
  refine (Protocol.Steady.require _ _).bind fun _ => ?_
  refine Protocol.Steady.bind (hfin _ rfl rfl) fun found => ?_
  refine (Protocol.Steady.orRaise _ _).bind fun execution => ?_
  refine (cancelLoop_steady hfin id rounds execution).bind fun cancelled => ?_
  cases cancelled with
  | some finished => exact .pure _
  | none =>
    refine Protocol.Steady.bind (hfin _ rfl rfl) fun _ => ?_
    refine Protocol.Steady.bind (hfin _ rfl rfl) fun execution => ?_
    refine Protocol.Steady.bind (hdel id) fun _ => ?_
    refine Protocol.Steady.bind (hfin _ rfl rfl) fun _ => ?_
    exact Protocol.Steady.bind (hfin _ rfl rfl) fun _ => .pure _

end Finishing

/-! Where starting a run is steady as well. -/

section Starting

variable (hall : ∀ o : Op, o.finishing = true → P.Steady p r g (await o))
include hall

theorem createRun_steady (req : RunRequest) (file : File) : P.Steady p r g (createRun req file) := by
  have hread := reads_of_finishing fun o _ ho => hall o ho
  refine Protocol.Steady.bind (hall _ rfl) fun queuedAt => ?_
  refine Protocol.Steady.bind (hall _ rfl) fun id => ?_
  refine Protocol.Steady.bind (hall _ rfl) fun _ => ?_
  have hcommit : ∀ info : Option DebugInfo, P.Steady p r g (do
      await .commit
      return (id, info)) := fun info => (hall _ rfl).bind fun _ => .pure _
  split
  · refine Protocol.Steady.bind ?_ hcommit
    refine (claimDebugSlot_steady hread (hall _ rfl) (hall _ rfl)).bind fun _ => ?_
    refine Protocol.Steady.bind (hall _ rfl) fun _ => ?_
    exact (debugInfo_steady hread _ _ _).bind fun _ => .pure _
  · exact (Protocol.Steady.pure none).bind hcommit

theorem deliver_steady (project : ProjectId) (id : ExecutionId) (debug : Bool)
    (payload : Seconds → Payload) : P.Steady p r g (deliver project id debug payload) := by
  have hread := reads_of_finishing fun o _ ho => hall o ho
  refine Protocol.Steady.tryExcept ((enqueueExecution_steady hread (fun _ _ => hall _ rfl)
    (hall _ rfl) payload).bind fun _ => .pure _) fun _ => ?_
  refine (failUndeliveredRun_steady (fun o _ ho => hall o ho) (fun _ => hall _ rfl) project id
    debug).bind fun compensated => ?_
  split
  · exact .throw _
  · exact Protocol.Steady.bind (hall _ rfl) fun _ => .pure _

theorem startRun_steady (req : RunRequest) : P.Steady p r g (startRun s req) := by
  have hread := reads_of_finishing fun o _ ho => hall o ho
  refine (checkRun_steady hread req).bind fun ⟨member, file⟩ => ?_
  refine Protocol.Steady.bind (hall _ rfl) fun sourceText => ?_
  refine (createRun_steady hall req file).bind fun ⟨id, info⟩ => ?_
  refine Protocol.Steady.bind (hall _ rfl) fun execution => ?_
  refine (deliver_steady hall _ _ _ _).bind fun undelivered => ?_
  cases undelivered with
  | some out => exact .pure _
  | none => exact Protocol.Steady.bind (hall _ rfl) fun _ => .pure _

end Starting

section Ordinary

theorem reads_of_ordinary (hop : ∀ o : Op, o.ordinary = true → P.Steady p r g (await o)) (o : Op)
    (ho : o.reads = true) : P.Steady p r g (await o) :=
  reads_of_finishing (finishing_of_ordinary hop) o ho

variable (hop : ∀ o : Op, o.ordinary = true → P.Steady p r g (await o))
include hop

theorem claimRun_steady (payload : Payload) (workerId : String) :
    P.Steady p r g (claimRun payload workerId) := by
  refine withSession_steady (hop _ rfl) (Protocol.Steady.bind (hop _ rfl) fun startedAt => ?_)
  refine Protocol.Steady.bind (hop _ rfl) fun claimed => ?_
  have hcommit : P.Steady p r g (do
      await .commit
      return claimed) := (hop _ rfl).bind fun _ => .pure _
  split
  · exact (hop _ rfl).bind fun _ => hcommit
  · exact (Protocol.Steady.pure ()).bind fun _ => hcommit

theorem advance_steady (project : ProjectId) (id : ExecutionId) (status : ExecutionStatus) :
    P.Steady p r g (advance project id status) :=
  (transition_steady (finishing_of_ordinary hop) fun _ => hop _ rfl).bind fun _ => (Protocol.Steady.require _ _).bind fun _ =>
    hop _ rfl

theorem runDebug_steady (project : ProjectId) (id : ExecutionId) :
    P.Steady p r g (runDebug s project id) := by
  have hsession : P.Steady p r g (debugSession project id) :=
    (hop _ rfl).bind fun _ => (hop _ rfl).andFinally
      ((suppress_steady (hop _ rfl)).bind fun _ =>
        suppress_steady (clearActive_steady (reads_of_ordinary hop) (hop _ rfl) _))
  refine hsession.bind fun outcome => ?_
  refine Protocol.Steady.bind (hop _ rfl) fun now => ?_
  refine (transition_steady (finishing_of_ordinary hop) fun _ => hop _ rfl).bind fun changed => ?_
  refine (withSession_steady (hop _ rfl) ((hop _ rfl).bind fun _ => hop _ rfl)).bind fun _ => ?_
  split
  · exact (hop _ rfl).bind fun _ => hop _ rfl
  · exact .pure _

theorem runSandbox_steady (project : ProjectId) (id : ExecutionId) :
    P.Steady p r g (runSandbox project id) := by
  refine Protocol.Steady.bind (hop _ rfl) fun result => ?_
  refine Protocol.Steady.bind (hop _ rfl) fun now => ?_
  refine (transition_steady (finishing_of_ordinary hop) fun _ => hop _ rfl).bind fun changed => ?_
  split
  · exact (hop _ rfl).bind fun _ => hop _ rfl
  · exact .pure _

theorem runInWorkspace_steady (payload : Payload) :
    P.Steady p r g (runInWorkspace s payload) := by
  have hrun : P.Steady p r g (do
      advance payload.projectId payload.executionId .running
      if payload.debug.getD false then
        runDebug s payload.projectId payload.executionId
      else
        runSandbox payload.projectId payload.executionId) := by
    refine (advance_steady hop _ _ _).bind fun _ => ?_
    split
    · exact runDebug_steady hop _ _
    · exact runSandbox_steady hop _ _
  have hbuild : P.Steady p r g
      (if payload.language.getD .python = .cpp then do
        advance payload.projectId payload.executionId .compiling
        await (.sandboxBuild payload.executionId)
        advance payload.projectId payload.executionId .running
        if payload.debug.getD false then
          runDebug s payload.projectId payload.executionId
        else
          runSandbox payload.projectId payload.executionId
      else do
        advance payload.projectId payload.executionId .running
        if payload.debug.getD false then
          runDebug s payload.projectId payload.executionId
        else
          runSandbox payload.projectId payload.executionId) :=
    Protocol.Steady.ite ((advance_steady hop _ _ _).bind fun _ => (hop _ rfl).bind fun _ => hrun)
      hrun
  refine Protocol.Steady.bind (hop _ rfl) fun _ => ?_
  refine (withSession_steady (hop _ rfl) (hop _ rfl)).bind fun found => ?_
  refine (Protocol.Steady.orRaise _ _).bind fun _ => ?_
  refine Protocol.Steady.ite ?_ ?_
  · exact (hop _ rfl).bind fun _ => hbuild
  · exact hbuild

theorem runHandled_steady (payload : Payload) : P.Steady p r g (runHandled s payload) := by
  have hclaimed : P.Steady p r g (runClaimed s payload) :=
    (suppress_steady (hop _ rfl)).bind fun _ =>
      (withSession_steady (hop _ rfl) (hop _ rfl)).bind fun _ =>
        (Protocol.Steady.require _ _).bind fun _ =>
          (runInWorkspace_steady hop payload).andFinally (hop _ rfl)
  refine Protocol.Triple.bind hclaimed.attempt fun res g' hg => ?_
  cases res with
  | ok _ =>
    cases hg
    exact Protocol.Steady.pure _
  | error e =>
    cases hg
    cases e <;> exact settle_steady (finishing_of_ordinary hop) _ _ rfl _

/-- All that a worker does with an execution it has claimed. -/
theorem runClaimedExecution_steady (payload : Payload) :
    P.Steady p r g (do
      publishStatus payload.projectId payload.executionId .starting
      andFinally (runHandled s payload) (cleanUp payload)) := by
  refine Protocol.Steady.bind (hop _ rfl) fun _ => (runHandled_steady hop payload).andFinally ?_
  refine Protocol.Steady.bind (hop _ rfl) fun _ => ?_
  split
  · exact suppress_steady (clearActive_steady (reads_of_ordinary hop) (hop _ rfl) _)
  · exact .pure _

/-! Where removing an entry from the queue is steady as well. -/

variable (hdel : ∀ id, P.Steady p r g (await (.hdel id)))
include hdel

theorem workerRound_steady (workerId : String) : P.Steady p r g (workerRound s workerId) := by
  have hread := reads_of_ordinary hop
  have hdequeue : P.Steady p r g (dequeueExecution s) :=
    dequeueExecution_steady hread hdel (hop _ rfl) (hop _ rfl)
  refine suppress_steady (hdequeue.bind fun payload => ?_)
  cases payload with
  | none => exact .pure _
  | some payload =>
    refine (claimRun_steady hop payload workerId).bind fun claimed => ?_
    split
    · exact runClaimedExecution_steady hop payload
    · exact .pure _

end Ordinary

end Concord
