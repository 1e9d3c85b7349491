import Concord.Execution.EventLog
import Concord.Execution.Rules

/-!
# Status and event log stay in step

The programs of the service follow the protocol of the event log: the ghost value of a process is
the event it owes, and a process commits only when it owes none. Whatever a request, a worker or
the sweeper does between two awaits, and wherever it fails, `LogInv` holds.
-/

namespace Concord

open Concord.Base Async ExecutionStatus

/-- The protocol of the event log. -/
def logProtocol (s : Settings) (t : Tables) : Protocol (service s t) Owed where
  Inv st owed := LogInv st.db owed
  At _ _ _ _ := True
  ok _ _ _ _ _ := True

/-- From owing nothing, `x` ends owing nothing; when it raises, what it owes meets `E`. -/
abbrev Keeps (s : Settings) (t : Tables) (p : Pid) (r : Request) (E : Owed → Prop) {α : Type}
    (x : Py α) : Prop :=
  (logProtocol s t).Triple p r none x (fun _ g => g = none) fun _ g => E g

section Statements

variable {s : Settings} {t : Tables} {p : Pid} {r : Request} {E : Owed → Prop}

/-! ## Statements -/

theorem quiet {o : Op} (ho : o.writesDb = false) (g : Owed) :
    (logProtocol s t).Steady p r g (await o) :=
  Steady.operation trivial fun env st gs hinv _ _ x st' hx => by
    show LogInv st'.db gs
    rw [Op.run_db ho hx]
    exact hinv

theorem reading (g : Owed) (o : Op) (ho : o.reads = true) :
    (logProtocol s t).Steady p r g (await o) :=
  quiet (Op.writesDb_of_reads ho) g

theorem addDebugSession_steady (row : DebugSession) (g : Owed) :
    (logProtocol s t).Steady p r g (await (.addDebugSession row)) :=
  Steady.operation trivial fun env st gs hinv _ _ x st' hx => by
    cases hx
    exact LogInv.addDebugWrite hinv _

theorem stopDebugSessions_steady (id : ExecutionId) (endedAt : Seconds) (g : Owed) :
    (logProtocol s t).Steady p r g (await (.stopDebugSessions id endedAt)) :=
  Steady.operation trivial fun env st gs hinv _ _ x st' hx => by
    cases hx
    exact LogInv.addDebugWrite hinv _

theorem insertExecution_owes (project : ProjectId) (file : FileId) (queuedAt : Seconds) :
    (logProtocol s t).Triple p r none (await (.insertExecution project file queuedAt))
      (fun id g => g = some (id, none, some queued)) fun _ _ => True := by
  refine Triple.operation trivial (fun _ _ => trivial) fun env st gs hinv hg _ x st' hx => ?_
  cases hx
  exact ⟨_, LogInv.insertExecution hinv hg rfl, rfl, fun _ _ => trivial⟩

theorem updateStatus_owes {id : ExecutionId} {current target : ExecutionStatus}
    (h : canTransition current target = true) (fields : StatusFields) :
    (logProtocol s t).Triple p r none (await (.updateStatus id current target fields))
      (fun changed g => g = if changed then some (id, some current, some target) else none)
      fun _ _ => True := by
  refine Triple.operation trivial (fun _ _ => trivial) fun env st gs hinv hg _ x st' hx => ?_
  obtain ⟨changed, db, hu, rfl, rfl⟩ := Op.run_updateStatus hx
  have hw : LogInv db (Function.update gs p
      (if changed then some (id, some current, some target) else none)) :=
    LogInv.updateWhere hinv hg hu (by simp) (fun _ => rfl) h
  exact ⟨_, hw, rfl, fun _ _ => trivial⟩

theorem claimQueued_owes (id : ExecutionId) (project : ProjectId) (file : FileId)
    (workerId : String) (startedAt : Seconds) :
    (logProtocol s t).Triple p r none (await (.claimQueued id project file workerId startedAt))
      (fun claimed g => g = if claimed then some (id, some queued, some starting) else none)
      fun _ _ => True := by
  refine Triple.operation trivial (fun _ _ => trivial) fun env st gs hinv hg _ x st' hx => ?_
  obtain ⟨claimed, db, hu, rfl, rfl⟩ := Op.run_claimQueued hx
  have hw : LogInv db (Function.update gs p
      (if claimed then some (id, some queued, some starting) else none)) :=
    LogInv.updateWhere hinv hg hu (by simp) (fun _ => rfl) (by decide)
  exact ⟨_, hw, rfl, fun _ _ => trivial⟩

theorem recordStatusEvent_pays (id : ExecutionId) (previous : Option ExecutionStatus)
    (target : ExecutionStatus) (actor : Actor) (fields : StatusFields) :
    (logProtocol s t).Triple p r (some (id, previous, some target))
      (recordStatusEvent id previous target actor fields) (fun _ g => g = none)
      fun _ g => E g := by
  refine Triple.operation trivial (fun h => absurd rfl h) fun env st gs hinv hg _ x st' hx => ?_
  cases hx
  exact ⟨none, LogInv.addEvent hinv hg, rfl, fun h => absurd rfl h⟩

theorem close_forgives (g : Owed) :
    (logProtocol s t).Triple p r g (await .close) (fun _ g => g = none) fun _ g => E g := by
  refine Triple.operation trivial (fun h => absurd rfl h) fun env st gs hinv hg _ x st' hx => ?_
  cases hx
  exact ⟨none, LogInv.rollback hinv, rfl, fun h => absurd rfl h⟩

theorem rollback_forgives (g : Owed) :
    (logProtocol s t).Triple p r g (await .rollback) (fun _ g => g = none) fun _ g => E g := by
  refine Triple.operation trivial (fun h => absurd rfl h) fun env st gs hinv hg _ x st' hx => ?_
  cases hx
  exact ⟨none, LogInv.rollback hinv, rfl, fun h => absurd rfl h⟩

theorem commit_keeps (hE : E none) : Keeps s t p r E (await .commit) := by
  refine Triple.operation trivial (fun _ _ => hE) fun env st gs hinv hg _ x st' hx => ?_
  cases hx
  refine ⟨none, ?_, rfl, fun _ _ => hE⟩
  rw [← hg, Function.update_eq_self]
  exact LogInv.commit hinv hg

end Statements

/-! ## Programs -/

section Programs

variable {s : Settings} {t : Tables} {p : Pid} {r : Request} {E : Owed → Prop} {α β : Type}

theorem Keeps.of_steady {x : Py α} (h : (logProtocol s t).Steady p r none x) (hE : E none) :
    Keeps s t p r E x :=
  h.triple (fun _ => rfl) fun _ => hE

theorem Keeps.mono {x : Py α} {E' : Owed → Prop} (h : Keeps s t p r E x)
    (hE : ∀ g, E g → E' g) : Keeps s t p r E' x :=
  Protocol.Triple.mono h (fun _ _ hg => hg) fun _ => hE

theorem Keeps.bind {x : Py α} {f : α → Py β} (h : Keeps s t p r E x)
    (hf : ∀ a, Keeps s t p r E (f a)) : Keeps s t p r E (x >>= f) := by
  refine Protocol.Triple.bind h fun a g hg => ?_
  subst hg
  exact hf a

theorem Keeps.pure (a : α) : Keeps s t p r E (Pure.pure a) := Protocol.Triple.pure rfl

theorem Keeps.throw (hE : E none) (e : PyError) :
    Keeps s t p r E (MonadExcept.throw e : Py α) :=
  Protocol.Triple.throw hE

theorem Keeps.ite {c : Prop} [Decidable c] {x y : Py α} (hx : Keeps s t p r E x)
    (hy : Keeps s t p r E y) : Keeps s t p r E (if c then x else y) :=
  Protocol.Triple.ite (fun _ => hx) fun _ => hy

theorem Keeps.orRaise (hE : E none) (x? : Option α) (e : PyError) :
    Keeps s t p r E (Async.orRaise x? e) :=
  .of_steady (.orRaise _ _) hE

theorem Keeps.require (hE : E none) (c : Bool) (e : PyError) :
    Keeps s t p r E (Async.require c e) :=
  .of_steady (.require _ _) hE

theorem Keeps.andFinally {x : Py α} {fin : Py Unit} (h : Keeps s t p r (· = none) x)
    (hfin : Keeps s t p r (· = none) fin) :
    Keeps s t p r (· = none) (Async.andFinally x fin) := by
  refine Protocol.Triple.andFinally h (fun _ g hg => ?_) fun _ g hg => ?_
  · subst hg
    exact hfin
  · subst hg
    exact hfin

theorem Keeps.tryExcept {x : Py α} {handled : PyError → Bool} {f : PyError → Py α}
    (h : Keeps s t p r (· = none) x) (hE : E none) (hf : ∀ e, Keeps s t p r E (f e)) :
    Keeps s t p r E (Async.tryExcept x handled f) := by
  refine Protocol.Triple.tryExcept h (fun e g _ hg => ?_) fun _ g _ hg => ?_
  · subst hg
    exact hf e
  · subst hg
    exact hE

/-- However a session ends, closing it leaves nothing owed. -/
theorem Keeps.withSession {x : Py α} (h : Keeps s t p r (fun _ => True) x) :
    Keeps s t p r (· = none) (Concord.withSession x) :=
  Protocol.Triple.andFinally h (fun _ g _ => close_forgives g) fun _ g _ => close_forgives g

theorem Keeps.suppress {x : Py Unit} (h : Keeps s t p r (· = none) x) :
    Keeps s t p r (· = none) (Concord.suppress x) :=
  h.tryExcept rfl fun _ => .pure ()

/-- A changed status gets its event before `change_status` returns. -/
theorem changeStatus_keeps (id : ExecutionId) (execution : Execution) (target : ExecutionStatus)
    (actor : Actor) (fields : StatusFields) :
    Keeps s t p r (fun _ => True) (changeStatus id execution target actor fields) := by
  unfold changeStatus
  split
  · next hct =>
    refine (updateStatus_owes hct fields).bind fun changed g hg => ?_
    refine (quiet rfl g).andThen (fun _ => trivial) fun refreshed => ?_
    subst hg
    cases changed with
    | true => exact (recordStatusEvent_pays _ _ _ _ _).bind fun _ _ hg => Protocol.Triple.pure hg
    | false => exact Keeps.pure _
  · exact .pure _

theorem failQueued_keeps (id : ExecutionId) (finishedAt : Seconds) :
    Keeps s t p r (fun _ => True) (failQueued id finishedAt) := by
  refine (Keeps.of_steady (quiet rfl none) trivial).bind fun execution => ?_
  cases execution with
  | none => exact .pure _
  | some row =>
    dsimp only
    split
    · exact (changeStatus_keeps _ _ _ _ _).bind fun _ => .pure _
    · exact .pure _

theorem failUndeliveredRun_keeps (project : ProjectId) (id : ExecutionId) (debug : Bool) :
    Keeps s t p r (fun _ => True) (failUndeliveredRun project id debug) := by
  refine (Keeps.of_steady (quiet rfl none) trivial).bind fun finishedAt => ?_
  refine (failQueued_keeps id finishedAt).bind fun failed => ?_
  have hforget := forgetUndelivered_steady (reading none) (quiet (o := .hdel id) rfl none)
    (s := s) (t := t) (p := p) (r := r) (quiet (o := .delActive project) rfl none) debug
  have hcommit : Keeps s t p r (fun _ => True) (do
      await .commit
      forgetUndelivered project id debug
      return true) :=
    (commit_keeps trivial).bind fun _ => (Keeps.of_steady hforget trivial).bind fun _ => .pure _
  split
  · split
    · exact (Keeps.of_steady (stopDebugSessions_steady id finishedAt none) trivial).bind
        fun _ => hcommit
    · exact (Keeps.pure ()).bind fun _ => hcommit
  · exact Protocol.Triple.bind (rollback_forgives none) fun _ _ hg => Protocol.Triple.pure hg

theorem deliver_keeps (project : ProjectId) (id : ExecutionId) (debug : Bool)
    (payload : Seconds → Payload) :
    Keeps s t p r (fun _ => True) (deliver project id debug payload) := by
  have henqueue := enqueueExecution_steady (reading none) (fun _ _ => quiet rfl none)
    (s := s) (t := t) (p := p) (r := r) (quiet rfl none) payload
  have hsend : Keeps s t p r (· = none) (do
      enqueueExecution payload
      return (none : Option ExecutionOut)) :=
    (Keeps.of_steady (E := (· = none)) henqueue rfl).bind fun _ => .pure _
  refine hsend.tryExcept trivial fun _ => ?_
  refine (failUndeliveredRun_keeps project id debug).bind fun compensated => ?_
  split
  · exact .throw trivial _
  · exact (Keeps.of_steady (quiet rfl none) trivial).bind fun _ => .pure _

theorem setUpDebug_steady (project : ProjectId) (id : ExecutionId) (file : File) (user : UserId)
    (username : String) (g : Owed) :
    (logProtocol s t).Steady p r g (setUpDebug project id file user username) := by
  refine (claimDebugSlot_steady (reading g) (quiet rfl g) (quiet rfl g)).bind fun _ => ?_
  refine (addDebugSession_steady _ g).bind fun _ => ?_
  exact (debugInfo_steady (reading g) _ _ _).bind fun _ => .pure _

theorem createRun_keeps (req : RunRequest) (file : File) :
    Keeps s t p r (fun _ => True) (createRun req file) := by
  refine (Keeps.of_steady (quiet rfl none) trivial).bind fun queuedAt => ?_
  refine (insertExecution_owes _ _ _).bind fun id g hg => ?_
  subst hg
  refine (recordStatusEvent_pays _ _ _ _ _).bind fun _ g hg => ?_
  subst hg
  have hcommit : ∀ info : Option DebugInfo, Keeps s t p r (fun _ => True) (do
      await .commit
      return (id, info)) :=
    fun info => (commit_keeps trivial).bind fun _ => .pure _
  split
  · exact (Keeps.of_steady (setUpDebug_steady _ _ _ _ _ none) trivial).bind hcommit
  · exact (Keeps.pure none).bind hcommit

theorem startRun_keeps (req : RunRequest) :
    Keeps s t p r (fun _ => True) (startRun s req) := by
  refine (Keeps.of_steady (checkRun_steady (reading none) req) trivial).bind fun ⟨member, file⟩ => ?_
  refine (Keeps.of_steady (quiet rfl none) trivial).bind fun sourceText => ?_
  refine (createRun_keeps req file).bind fun ⟨id, info⟩ => ?_
  refine (Keeps.of_steady (quiet rfl none) trivial).bind fun execution => ?_
  refine (deliver_keeps _ _ _ _).bind fun undelivered => ?_
  split
  · exact .pure _
  · exact (Keeps.of_steady (quiet rfl none) trivial).bind fun _ => .pure _

theorem cancelLoop_keeps (id : ExecutionId) (rounds : Nat) (execution : Execution) :
    Keeps s t p r (fun _ => True) (cancelLoop id rounds execution) := by
  induction rounds generalizing execution with
  | zero =>
    unfold cancelLoop
    split
    · exact .pure _
    · exact (Keeps.of_steady (quiet rfl none) trivial).bind fun _ => .pure _
  | succ rounds ih =>
    unfold cancelLoop
    split
    · exact .pure _
    · refine (Keeps.of_steady (quiet rfl none) trivial).bind fun finishedAt => ?_
      refine (changeStatus_keeps _ _ _ _ _).bind fun changed => ?_
      split
      · exact .pure _
      · exact (Keeps.of_steady (quiet rfl none) trivial).bind fun execution => ih execution

theorem cancelExecution_keeps (project : ProjectId) (user : UserId) (id : ExecutionId)
    (rounds : Nat) :
    Keeps s t p r (fun _ => True) (cancelExecution project user id rounds) := by
  refine (Keeps.of_steady (getMember_steady (reading none) _ _) trivial).bind fun member => ?_
  refine (Keeps.require trivial _ _).bind fun _ => ?_
  refine (Keeps.of_steady (quiet rfl none) trivial).bind fun found => ?_
  refine (Keeps.orRaise trivial _ _).bind fun execution => ?_
  refine (cancelLoop_keeps id rounds execution).bind fun cancelled => ?_
  cases cancelled with
  | some finished => exact .pure _
  | none =>
    refine (commit_keeps trivial).bind fun _ => ?_
    refine (Keeps.of_steady (quiet rfl none) trivial).bind fun execution => ?_
    refine (Keeps.of_steady (quiet rfl none) trivial).bind fun _ => ?_
    refine (Keeps.of_steady (quiet rfl none) trivial).bind fun _ => ?_
    exact (Keeps.of_steady (quiet rfl none) trivial).bind fun _ => .pure _

theorem failOrphans_keeps (now : Seconds) (orphaned : List (ExecutionId × Execution)) :
    Keeps s t p r (fun _ => True) (failOrphans now orphaned) := by
  induction orphaned with
  | nil => exact .pure _
  | cons entry rest ih =>
    exact (changeStatus_keeps _ _ _ _ _).bind fun _ => ih.bind fun _ => .pure _

theorem sweepOnce_keeps : Keeps s t p r (fun _ => True) (sweepOnce s) := by
  refine (Keeps.of_steady (quiet rfl none) trivial).bind fun now => ?_
  refine (Keeps.of_steady (quiet rfl none) trivial).bind fun orphaned => ?_
  refine (failOrphans_keeps now orphaned).bind fun changed => ?_
  have hcontainers : (logProtocol s t).Steady p r none (do
      let containers ← tryExcept (await .containerIds) (fun _ => true) fun _ => pure []
      let remaining := containers.filter (· ∉ changed)
      let finished ← if remaining ≠ [] then await (.selectFinished remaining) else pure []
      killAll ((changed ++ finished).dedup.mergeSort (· ≤ ·))
      signalAll changed
      return changed.length) := by
    refine ((quiet rfl none).tryExcept fun _ => .pure _).bind fun containers => ?_
    have hrest : ∀ finished : List ExecutionId, (logProtocol s t).Steady p r none (do
        killAll ((changed ++ finished).dedup.mergeSort (· ≤ ·))
        signalAll changed
        return changed.length) := fun finished =>
      (killAll_steady (reading none) _).bind fun _ =>
        (signalAll_steady (reading none) _).bind fun _ => .pure _
    dsimp only
    split
    · exact (quiet rfl none).bind hrest
    · exact (Protocol.Steady.pure []).bind hrest
  split
  · exact (commit_keeps trivial).bind fun _ => Keeps.of_steady hcontainers trivial
  · exact (Keeps.pure ()).bind fun _ => Keeps.of_steady hcontainers trivial

/-! The worker has a session for each statement and owes nothing between them. -/

theorem Keeps.quiet {o : Op} (ho : o.writesDb = false) :
    Keeps s t p r (· = none) (await o) :=
  .of_steady (Concord.quiet ho none) rfl

theorem transition_keeps (id : ExecutionId) (status : ExecutionStatus) (fields : StatusFields) :
    Keeps s t p r (· = none) (transition id status fields) := by
  refine Keeps.withSession ((Keeps.of_steady (Concord.quiet rfl none) trivial).bind fun found => ?_)
  cases found with
  | none => exact .pure _
  | some execution =>
    refine (changeStatus_keeps _ _ _ _ _).bind fun changed => ?_
    split
    · exact (commit_keeps trivial).bind fun _ => .pure _
    · exact .pure _

theorem claimRun_keeps (payload : Payload) (workerId : String) :
    Keeps s t p r (· = none) (claimRun payload workerId) := by
  refine Keeps.withSession ((Keeps.of_steady (Concord.quiet rfl none) trivial).bind
    fun startedAt => ?_)
  refine (claimQueued_owes _ _ _ _ _).bind fun claimed g hg => ?_
  subst hg
  have hcommit : Keeps s t p r (fun _ => True) (do
      await .commit
      return claimed) :=
    (commit_keeps trivial).bind fun _ => .pure _
  cases claimed with
  | true =>
    refine (recordStatusEvent_pays _ _ _ _ _).bind fun _ g hg => ?_
    subst hg
    exact hcommit
  | false => exact (Keeps.pure ()).bind fun _ => hcommit

theorem advance_keeps (project : ProjectId) (id : ExecutionId) (status : ExecutionStatus) :
    Keeps s t p r (· = none) (advance project id status) :=
  (transition_keeps id status _).bind fun _ => (Keeps.require (by rfl) _ _).bind fun _ => .quiet rfl

theorem settle_keeps (project : ProjectId) (id : ExecutionId) (status : ExecutionStatus)
    (fields : Seconds → StatusFields) :
    Keeps s t p r (· = none) (settle project id status fields) := by
  refine (Keeps.quiet rfl).bind fun now => ?_
  refine (transition_keeps id status _).bind fun changed => ?_
  split
  · exact .quiet rfl
  · exact .pure ()

theorem clearActive_keeps (project : ProjectId) (id : ExecutionId) :
    Keeps s t p r (· = none) (clearActive project id) :=
  .of_steady (clearActive_steady (reading none) (quiet rfl none) id) rfl

theorem debugSession_keeps (project : ProjectId) (id : ExecutionId) :
    Keeps s t p r (· = none) (debugSession project id) :=
  (Keeps.quiet rfl).bind fun _ => (Keeps.quiet rfl).andFinally
    ((Keeps.quiet rfl).suppress.bind fun _ => (clearActive_keeps project id).suppress)

theorem runDebug_keeps (project : ProjectId) (id : ExecutionId) :
    Keeps s t p r (· = none) (runDebug s project id) := by
  refine (debugSession_keeps project id).bind fun outcome => ?_
  refine (Keeps.quiet rfl).bind fun now => ?_
  refine (transition_keeps id _ _).bind fun changed => ?_
  have hstop : Keeps s t p r (fun _ => True) (do
      await (.stopDebugSessions id now)
      await .commit) :=
    (Keeps.of_steady (stopDebugSessions_steady id now none) trivial).bind fun _ =>
      commit_keeps trivial
  refine hstop.withSession.bind fun _ => ?_
  split
  · exact (Keeps.quiet rfl).bind fun _ => .quiet rfl
  · exact .pure ()

theorem runSandbox_keeps (project : ProjectId) (id : ExecutionId) :
    Keeps s t p r (· = none) (runSandbox project id) := by
  refine (Keeps.quiet rfl).bind fun result => ?_
  refine (Keeps.quiet rfl).bind fun now => ?_
  refine (transition_keeps id _ _).bind fun changed => ?_
  split
  · exact (Keeps.quiet rfl).bind fun _ => .quiet rfl
  · exact .pure ()

theorem look_keeps {o : Op} (ho : o.writesDb = false) :
    Keeps s t p r (· = none) (withSession (await o)) :=
  Keeps.withSession (.of_steady (Concord.quiet ho none) trivial)

theorem build_keeps (payload : Payload) {rest : Py Unit} (hrest : Keeps s t p r (· = none) rest) :
    Keeps s t p r (· = none)
      (if payload.language.getD .python = .cpp then do
        advance payload.projectId payload.executionId .compiling
        await (.sandboxBuild payload.executionId)
        rest
      else rest) := by
  split
  · exact (advance_keeps _ _ _).bind fun _ => (Keeps.quiet rfl).bind fun _ => hrest
  · exact hrest

theorem runInWorkspace_keeps (payload : Payload) :
    Keeps s t p r (· = none) (runInWorkspace s payload) := by
  have hrun : Keeps s t p r (· = none) (do
      advance payload.projectId payload.executionId .running
      if payload.debug.getD false then
        runDebug s payload.projectId payload.executionId
      else
        runSandbox payload.projectId payload.executionId) := by
    refine (advance_keeps _ _ _).bind fun _ => ?_
    split
    · exact runDebug_keeps _ _
    · exact runSandbox_keeps _ _
  refine (Keeps.quiet rfl).bind fun _ => ?_
  refine (look_keeps rfl).bind fun found => ?_
  refine (Keeps.orRaise (by rfl) _ _).bind fun _ => ?_
  refine Keeps.ite ?_ ?_
  · exact (Keeps.quiet rfl).bind fun _ => build_keeps payload hrun
  · exact build_keeps payload hrun

theorem runClaimed_keeps (payload : Payload) :
    Keeps s t p r (· = none) (runClaimed s payload) :=
  (Keeps.quiet rfl).suppress.bind fun _ => (look_keeps rfl).bind fun _ =>
    (Keeps.require (by rfl) _ _).bind fun _ => (runInWorkspace_keeps payload).andFinally (.quiet rfl)

theorem runHandled_keeps (payload : Payload) :
    Keeps s t p r (· = none) (runHandled s payload) := by
  refine Protocol.Triple.bind (runClaimed_keeps payload).attempt fun res g hg => ?_
  cases res with
  | ok _ =>
    cases hg
    exact Keeps.pure ()
  | error e =>
    cases hg
    cases e <;> exact settle_keeps _ _ _ _

theorem runOne_keeps (payload : Payload) (workerId : String) :
    Keeps s t p r (· = none) (runOne s payload workerId) := by
  refine (claimRun_keeps payload workerId).bind fun claimed => ?_
  split
  · refine (Keeps.quiet rfl).bind fun _ => (runHandled_keeps payload).andFinally ?_
    refine (Keeps.quiet rfl).bind fun _ => ?_
    split
    · exact (clearActive_keeps _ _).suppress
    · exact .pure ()
  · exact .pure ()

theorem workerRound_keeps (workerId : String) :
    Keeps s t p r (· = none) (workerRound s workerId) := by
  refine Keeps.suppress ?_
  have hdequeue := dequeueExecution_steady (reading none) (fun _ => quiet rfl none)
    (s := s) (t := t) (p := p) (r := r) (quiet rfl none) (quiet rfl none)
  refine (Keeps.of_steady hdequeue (by rfl)).bind fun payload => ?_
  cases payload with
  | some payload => exact runOne_keeps payload workerId
  | none => exact .pure ()

theorem request_keeps : Keeps s t p r (· = none) (r.program s) := by
  cases r with
  | startRun req => exact (startRun_keeps req).withSession.map fun _ _ hg => hg
  | cancelExecution project user id rounds =>
    exact (cancelExecution_keeps project user id rounds).withSession.map fun _ _ hg => hg
  | workerRound workerId => exact (workerRound_keeps workerId).map fun _ _ hg => hg
  | sweepOnce => exact sweepOnce_keeps.withSession.map fun _ _ hg => hg

end Programs

/-- The outline of the event log: every request begins and ends owing nothing. -/
def logOutline (s : Settings) (t : Tables) : Outline (logProtocol s t) where
  idle := none
  start _ _ := none
  done _ _ _ _ := True
  init := LogInv.empty rfl rfl rfl rfl
  spawn st owed p r hinv ho := by
    rw [← ho, Function.update_eq_self]
    exact hinv
  body p r := Protocol.Follows.mono request_keeps fun _ _ _ => trivial
  at_end _ _ _ _ _ := trivial

/-- **Rows and events are in step in every reachable configuration.** -/
theorem logInv_of_reachable {s : Settings} {t : Tables} {cfg : ServiceConfig}
    (h : (service s t).system.Reachable cfg) : ∃ owed, LogInv cfg.shared.db owed := by
  obtain ⟨owed, hfits⟩ := (logOutline s t).sound
    (fun cfg l _ _ => Machine.guard_of_forall (fun _ _ _ _ _ => trivial) cfg l) h
  exact ⟨owed, hfits.1⟩

end Concord
