import Concord.Execution.Beside

/-!
# Runs that were not delivered

A start whose queue entry could not be written competes with the worker for its row: the entry may have got through,
although Redis reported an error. Whoever commits first decides. Either the execution has failed, with its two
events, and no worker ever starts it, or somebody else has moved it on, and the start has changed nothing
(`undelivered_compensated`).
-/

namespace Concord

open Concord.Base Async ExecutionStatus

/-- Redis has reported an error for the entry or its wake-up. -/
def ServiceCall.isUndelivered : ServiceCall → Bool
  | ⟨.hset _ _, .error _⟩ | ⟨.lpush, .error _⟩ => true
  | _ => false

/-- Since the row of the execution was committed, the operations have changed no committed row. -/
def Quiet (id : ExecutionId) (entries : List ServiceEntry) : Prop :=
  ∀ e ∈ entries, Unseen e ∨ e.before.db.executions id = none

/-- An event of the API that the execution went from one status to the other. -/
def ApiEvent (id : ExecutionId) (fromStatus : Option ExecutionStatus) (toStatus : ExecutionStatus)
    (ev : ExecutionEvent) : Prop :=
  ev.executionId = id ∧ ev.payload.fromStatus = fromStatus ∧ ev.payload.toStatus = toStatus ∧ ev.payload.actor = .api

/-- What the start returns if it has failed its execution. -/
def queueUnavailable : PyError := .http 503 "Execution queue unavailable; please try again"

/-! ## How far a start is -/

/-- The row is committed, with its first event; a run without debugger has no session that is open. -/
structure Admitted (req : RunRequest) (id : ExecutionId) (entries : List ServiceEntry) (st : Service) : Prop where
  seen : st.db.executions id ≠ none
  recorded : ∃ ev ∈ st.db.events, ApiEvent id none .queued ev
  closed : req.debug = false → st.db.SessionsClosed id
  inserted : ∃ e ∈ entries, ∃ queuedAt, e.call = ⟨.insertExecution req.project req.file queuedAt, .ok id⟩

/-- Nothing is written. -/
structure Unborn (p : Pid) (entries : List ServiceEntry) (st : Service) : Prop where
  clean : st.db.tx p = {}
  unseen : ∀ e ∈ entries, Unseen e
  delivered : ∀ e ∈ entries, ServiceCall.isUndelivered e.call = false

/-- The row is written, and not committed; `noted` tells whether its event is. -/
structure Born (p : Pid) (req : RunRequest) (id : ExecutionId) (noted : Bool) (entries : List ServiceEntry)
    (st : Service) : Prop where
  written : ∃ row, (st.db.tx p).executions id = some row ∧ row.status = .queued
  noted : noted = true → ∃ ev ∈ (st.db.tx p).events, ApiEvent id none .queued ev
  plain : req.debug = false → (st.db.tx p).debugWrites = []
  inserted : ∃ e ∈ entries, ∃ queuedAt, e.call = ⟨.insertExecution req.project req.file queuedAt, .ok id⟩
  unseen : ∀ e ∈ entries, Unseen e
  delivered : ∀ e ∈ entries, ServiceCall.isUndelivered e.call = false

/-- The row is committed, and nothing else written. -/
structure Created (p : Pid) (req : RunRequest) (id : ExecutionId) (entries : List ServiceEntry) (st : Service) :
    Prop where
  clean : st.db.tx p = {}
  admitted : Admitted req id entries st
  quiet : Quiet id entries

/-- It is about to deliver the entry. -/
structure Ready (p : Pid) (req : RunRequest) (id : ExecutionId) (entries : List ServiceEntry) (st : Service) : Prop
    extends Created p req id entries st where
  delivered : ∀ e ∈ entries, ServiceCall.isUndelivered e.call = false

/-- Another process has moved the execution on. -/
structure Moved (p : Pid) (req : RunRequest) (id : ExecutionId) (entries : List ServiceEntry) (st : Service) : Prop
    extends Created p req id entries st where
  moved : ∃ now, st.db.status? id = some now ∧ 1 ≤ now.rank

/-- The row is written as failed, and not committed; `noted` and `stopped` tell whether its event is, and the end of
its session. -/
structure Failing (p : Pid) (req : RunRequest) (id : ExecutionId) (noted stopped : Bool) (entries : List ServiceEntry)
    (st : Service) : Prop where
  admitted : Admitted req id entries st
  written : ∃ row, (st.db.tx p).executions id = some row
  noted : noted = true → ∃ ev ∈ (st.db.tx p).events, ApiEvent id (some .queued) .failed ev
  stopped : stopped = true → st.db.stopsSessions p id = true
  unrecorded : (st.db.tx p).Unrecorded

/-- The failure is committed. -/
structure Compensated (req : RunRequest) (id : ExecutionId) (entries : List ServiceEntry) (st : Service) : Prop where
  admitted : Admitted req id entries st
  failed : ∃ ev ∈ st.db.events, ApiEvent id (some .queued) .failed ev
  closed : st.db.SessionsClosed id

section Phases

variable {p : Pid} {req : RunRequest} {id : ExecutionId} {noted stopped : Bool} {entries : List ServiceEntry}
  {e : ServiceEntry} {st st' : Service}

/-- The phases of a start, in which nothing is undelivered. -/
abbrev StartPhase (p : Pid) (I : List ServiceEntry → Service → Prop) : Prop :=
  Phase p (fun e => ServiceCall.isUndelivered e.call = false) (fun _ => True) I

theorem Quiet.concat (h : Quiet id entries) (he : Unseen e) : Quiet id (entries ++ [e]) :=
  forall_concat h (.inl he)

namespace Admitted

theorem concat (h : Admitted req id entries st) (e : ServiceEntry) : Admitted req id (entries ++ [e]) st where
  seen := h.seen
  recorded := h.recorded
  closed := h.closed
  inserted := by
    obtain ⟨e', he', hcall⟩ := h.inserted
    exact ⟨e', List.mem_append_left _ he', hcall⟩

theorem beside (h : Admitted req id entries st) (hst : Beside p st st') : Admitted req id entries st' where
  seen := exists_of_onward hst.onward h.seen
  recorded := by
    obtain ⟨ev, hev, hfirst⟩ := h.recorded
    exact ⟨ev, hst.events.subset hev, hfirst⟩
  closed hdebug := hst.sessions id h.seen (h.closed hdebug)
  inserted := h.inserted

/-- What is committed stays as it is. -/
theorem unseen (h : Admitted req id entries e.before) (he : Unseen e) : Admitted req id (entries ++ [e]) e.after where
  seen := he.executions ▸ h.seen
  recorded := he.events ▸ h.recorded
  closed hdebug := by
    unfold Database.SessionsClosed
    rw [he.debugSessions]
    exact h.closed hdebug
  inserted := (h.concat e).inserted

end Admitted

theorem Unborn.phase : StartPhase p (Unborn p) where
  always _ := trivial
  beside h hst := { h with clean := hst.tx.trans h.clean }
  aside h hdb hdelivered :=
    { clean := hdb ▸ h.clean
      unseen := forall_concat h.unseen (unseen_of_db hdb)
      delivered := forall_concat h.delivered hdelivered }

theorem Born.phase : StartPhase p (Born p req id noted) where
  always _ := trivial
  beside h hst := { h with
    written := hst.tx ▸ h.written
    noted := hst.tx ▸ h.noted
    plain := hst.tx ▸ h.plain }
  aside h hdb hdelivered :=
    { written := hdb ▸ h.written
      noted := hdb ▸ h.noted
      plain := hdb ▸ h.plain
      inserted := by
        obtain ⟨e, he, hcall⟩ := h.inserted
        exact ⟨e, List.mem_append_left _ he, hcall⟩
      unseen := forall_concat h.unseen (unseen_of_db hdb)
      delivered := forall_concat h.delivered hdelivered }

theorem Created.aside {c : ServiceCall} (h : Created p req id entries st) (hdb : st'.db = st.db) :
    Created p req id (entries ++ [⟨p, c, st, st'⟩]) st' where
  clean := hdb ▸ h.clean
  admitted := h.admitted.unseen (e := ⟨p, c, st, st'⟩) (unseen_of_db hdb)
  quiet := h.quiet.concat (unseen_of_db hdb)

theorem Created.phase : StartPhase p (Created p req id) where
  always _ := trivial
  beside h hst := { h with
    clean := hst.tx.trans h.clean
    admitted := h.admitted.beside hst }
  aside h hdb _ := h.aside hdb

theorem Ready.phase : StartPhase p (Ready p req id) where
  always _ := trivial
  beside h hst := { h with toCreated := Created.phase.beside h.toCreated hst }
  aside h hdb hdelivered :=
    { toCreated := Created.phase.aside h.toCreated hdb hdelivered
      delivered := forall_concat h.delivered hdelivered }

theorem Moved.phase : StartPhase p (Moved p req id) where
  always _ := trivial
  beside h hst :=
    { toCreated := Created.phase.beside h.toCreated hst
      moved := by
        obtain ⟨now, hnow, hrank⟩ := h.moved
        obtain ⟨now', hnow', rfl | hlt⟩ := hst.onward.exists_of_some hnow
        · exact ⟨now', hnow', hrank⟩
        · exact ⟨now', hnow', Nat.le_trans hrank (Nat.le_of_lt hlt)⟩ }
  aside h hdb hdelivered :=
    { toCreated := Created.phase.aside h.toCreated hdb hdelivered
      moved := hdb ▸ h.moved }

theorem Failing.phase : StartPhase p (Failing p req id noted stopped) where
  always _ := trivial
  beside h hst :=
    { admitted := h.admitted.beside hst
      written := hst.tx ▸ h.written
      noted := hst.tx ▸ h.noted
      stopped := fun hstopped => by
        unfold Database.stopsSessions
        rw [hst.tx]
        exact h.stopped hstopped
      unrecorded := hst.tx ▸ h.unrecorded }
  aside h hdb _ :=
    { admitted := h.admitted.unseen (e := ⟨p, _, _, _⟩) (unseen_of_db hdb)
      written := hdb ▸ h.written
      noted := hdb ▸ h.noted
      stopped := hdb ▸ h.stopped
      unrecorded := hdb ▸ h.unrecorded }

theorem Compensated.phase : StartPhase p (Compensated req id) where
  always _ := trivial
  beside h hst :=
    { admitted := h.admitted.beside hst
      failed := by
        obtain ⟨ev, hev, hfailed⟩ := h.failed
        exact ⟨ev, hst.events.subset hev, hfailed⟩
      closed := hst.sessions id h.admitted.seen h.closed }
  aside h hdb _ :=
    { admitted := h.admitted.unseen (e := ⟨p, _, _, _⟩) (unseen_of_db hdb)
      failed := hdb ▸ h.failed
      closed := hdb ▸ h.closed }

end Phases

/-! ## Operations -/

/-- Redis has taken all that it was given. -/
def AllDelivered (entries : List ServiceEntry) : Prop := ∀ e ∈ entries, ServiceCall.isUndelivered e.call = false

section Operations

variable {s : Settings} {t : Tables} {p : Pid} {req : RunRequest} {id : ExecutionId} {noted stopped : Bool}
  {past : List ServiceEntry} {st : Service} {I : List ServiceEntry → Service → Prop}

/-! ## Creating the run -/

/-- `db.add(execution); await db.flush()`. -/
theorem Unborn.meets_insertExecution (h : Unborn p past st) (queuedAt : Seconds) :
    (besideRely p).Meets (service s t) p past st (await (.insertExecution req.project req.file queuedAt))
      (fun _ _ => True) (fun id es u => Born p req id false es u) fun _ es _ => AllDelivered es := by
  refine Rely.Meets.call trivial fun before env x after hst _ _ hexec => ⟨trivial, fun u hu => ?_⟩
  have hbefore := Unborn.phase.beside h hst
  have hdelivered : AllDelivered
      (past ++ [⟨p, ⟨.insertExecution req.project req.file queuedAt, x⟩, before, after⟩]) :=
    forall_concat hbefore.delivered rfl
  cases x with
  | error e => exact hdelivered
  | ok id =>
    have hrun := run_of_exec_ok hexec
    have hunseen := unseen_of_exec (by simp) hexec
    cases hrun
    refine Born.phase.beside (?_ : Born p req before.db.nextExecution false _ { before with db := _ }) hu
    exact {
      written := ⟨{ projectId := req.project, fileId := req.file, status := .queued, queuedAt, createdBy := p },
        by simp [Database.write], rfl⟩
      noted := fun hnoted => absurd hnoted Bool.false_ne_true
      plain := fun _ => by simp [Database.write, hbefore.clean]
      inserted := ⟨_, List.mem_append_right _ List.mem_cons_self, queuedAt, rfl⟩
      unseen := forall_concat hbefore.unseen hunseen
      delivered := hdelivered }

/-- Its event. -/
theorem Born.meets_record (h : Born p req id noted past st) :
    (besideRely p).Meets (service s t) p past st (recordStatusEvent id none .queued .api)
      (fun _ _ => True) (fun _ es u => Born p req id true es u) fun _ es _ => AllDelivered es := by
  refine Rely.Meets.call trivial fun before env x after hst _ _ hexec => ⟨trivial, fun u hu => ?_⟩
  have hbefore := Born.phase.beside h hst
  have hunseen := unseen_of_exec (by simp) hexec
  have hrun : Op.run p env before _ = some (x, after) := run_of_inProcess rfl hexec
  cases hrun
  obtain ⟨row, hrow, hqueued⟩ := hbefore.written
  refine Born.phase.beside (?_ : Born p req id true _ { before with db := _ }) hu
  exact {
    written := ⟨row, by simpa [Database.addEvent] using hrow, hqueued⟩
    noted := fun _ => ⟨_, by simp [Database.addEvent]; exact .inr rfl, rfl, rfl, rfl, rfl⟩
    plain := fun hdebug => by simpa [Database.addEvent] using hbefore.plain hdebug
    inserted := by
      obtain ⟨e, he, hcall⟩ := hbefore.inserted
      exact ⟨e, List.mem_append_left _ he, hcall⟩
    unseen := forall_concat hbefore.unseen hunseen
    delivered := forall_concat hbefore.delivered rfl }

/-- The session of a debug run. -/
theorem Born.remains_addDebugSession (hdebug : req.debug = true) (row : DebugSession) :
    (Born.phase : StartPhase p (Born p req id noted)).Remains s t (fun _ => True) (await (.addDebugSession row)) :=
  fun past st h => by
  refine Rely.Meets.call trivial fun before env x after hst _ _ hexec => ⟨trivial, fun u hu => ?_⟩
  have hbefore := Born.phase.beside h hst
  have hunseen := unseen_of_exec (by simp) hexec
  have hrun : Op.run p env before _ = some (x, after) := run_of_inProcess rfl hexec
  cases hrun
  refine Born.phase.beside (?_ : Born p req id noted _ { before with db := _ }) hu
  exact {
    written := by simpa [Database.addDebugWrite] using hbefore.written
    noted := by simpa [Database.addDebugWrite] using hbefore.noted
    plain := fun hplain => absurd (hplain.symm.trans hdebug) Bool.false_ne_true
    inserted := by
      obtain ⟨e, he, hcall⟩ := hbefore.inserted
      exact ⟨e, List.mem_append_left _ he, hcall⟩
    unseen := forall_concat hbefore.unseen hunseen
    delivered := forall_concat hbefore.delivered rfl }

/-- A row whose first event is not committed is not committed. -/
theorem executions_eq_none (hlog : ∃ owed, LogInv st.db owed)
    (h : ∃ ev ∈ (st.db.tx p).events, ApiEvent id none .queued ev) : st.db.executions id = none := by
  obtain ⟨owed, hinv⟩ := hlog
  obtain ⟨ev, hev, hid, hfrom, hto, -⟩ := h
  have hmem : ev.move ∈ movesOf id (st.db.tx p).events :=
    List.mem_map_of_mem (List.mem_filter.2 ⟨hev, by simpa using hid⟩)
  have hmove : ev.move = (none, some .queued) := by rw [ExecutionEvent.move, hfrom, hto]
  rw [hmove] at hmem
  have hle := (hinv.pending p id).rank_le_of_mem progress_lt_of_step (List.mem_append_left _ hmem)
  by_contra hsome
  obtain ⟨row, hrow⟩ := Option.ne_none_iff_exists'.1 hsome
  rw [Database.status?, hrow] at hle
  exact absurd hle (Nat.not_succ_le_zero _)

/-- The commit of the run. -/
theorem Born.meets_commit (h : Born p req id true past st) :
    (besideRely p).Meets (service s t) p past st (await .commit)
      (fun _ _ => True) (fun _ es u => Ready p req id es u) fun _ es _ => AllDelivered es := by
  refine Rely.Meets.call trivial fun before env x after hst hknown _ hexec => ⟨trivial, fun u hu => ?_⟩
  have hbefore := Born.phase.beside h hst
  have hdelivered : AllDelivered (past ++ [⟨p, ⟨.commit, x⟩, before, after⟩]) := forall_concat hbefore.delivered rfl
  obtain ⟨hlog, horigins⟩ := hknown
  have hnone : before.db.executions id = none := executions_eq_none hlog (hbefore.noted rfl)
  cases x with
  | error e => exact hdelivered
  | ok v =>
    have hrun := run_of_exec_ok hexec
    cases hrun
    obtain ⟨row, hrow, -⟩ := hbefore.written
    obtain ⟨ev, hev, hfirst⟩ := hbefore.noted rfl
    refine Ready.phase.beside (?_ : Ready p req id _ { before with db := before.db.commit p }) hu
    exact {
      clean := by simp [Database.commit, Database.rollback]
      admitted :=
        { seen := by simp [Database.commit, Database.visible, hrow]
          recorded := ⟨ev, List.mem_append_right _ hev, hfirst⟩
          closed := fun hdebug ds hds hid => by
            -- a session of the execution would be older than the execution
            simp only [Database.commit, hbefore.plain hdebug, List.foldl_nil] at hds
            exact absurd (hid ▸ hnone) (horigins.known ds hds)
          inserted := by
            obtain ⟨e, he, hcall⟩ := hbefore.inserted
            exact ⟨e, List.mem_append_left _ he, hcall⟩ }
      quiet := forall_concat (fun e he => .inl (hbefore.unseen e he)) (.inr hnone)
      delivered := hdelivered }

/-! ## Failing the run -/

theorem ExecutionStatus.one_le_rank {status : ExecutionStatus} (h : status ≠ .queued) : 1 ≤ status.rank := by
  cases status <;> first | exact absurd rfl h | decide

/-- The row as it is committed. -/
theorem Created.meets_getExecution (h : Created p req id past st) :
    (besideRely p).Meets (service s t) p past st (await (.getExecution id)) (fun _ _ => True)
      (fun found es u => ∃ row, found = some row ∧ (row.status = .queued ∧ Created p req id es u ∨ Moved p req id es u))
      fun _ es _ => Broken es := by
  refine Created.phase.meets rfl (fun _ _ _ _ => rfl) h (fun found env before after hes hrun u hu => ?_)
    fun e _ before after _ _ _ => broken_concat rfl past e before after
  cases hrun
  obtain ⟨row, hrow⟩ := Option.ne_none_iff_exists'.1 hes.admitted.seen
  refine ⟨row, (visible_of_clean hes.clean).trans hrow, ?_⟩
  by_cases hqueued : row.status = .queued
  · exact .inl ⟨hqueued, Created.phase.beside hes hu⟩
  · refine .inr (Moved.phase.beside ⟨hes, row.status, ?_, one_le_rank hqueued⟩ hu)
    rw [Database.status?, hrow]
    rfl

/-- The conditional write of the failure. -/
theorem Created.meets_updateStatus (h : Created p req id past st) (fields : StatusFields) :
    (besideRely p).Meets (service s t) p past st (await (.updateStatus id .queued .failed fields)) (fun _ _ => True)
      (fun changed es u => if changed then Failing p req id false false es u else Moved p req id es u)
      fun _ es _ => Broken es := by
  refine Rely.Meets.call trivial fun before env x after hst _ _ hexec => ⟨trivial, fun u hu => ?_⟩
  have hbefore := Created.phase.beside h hst
  have hunseen := unseen_of_exec (by simp) hexec
  cases x with
  | error e => exact broken_concat rfl past e before after
  | ok changed =>
    obtain ⟨changed', db, hupdate, hok, rfl⟩ := Op.run_updateStatus (run_of_exec_ok hexec)
    obtain rfl := Except.ok.inj hok
    rcases Database.updateWhere_eq_some hupdate with ⟨rfl, rfl⟩ | ⟨rfl, row, -, -, -, rfl⟩
    · obtain ⟨row, hrow⟩ := Option.ne_none_iff_exists'.1 hbefore.admitted.seen
      have hmiss := Database.not_of_updateWhere_false hupdate ((visible_of_clean hbefore.clean).trans hrow)
      refine Moved.phase.beside (?_ : Moved p req id _ { before with db := before.db }) hu
      exact {
        clean := hbefore.clean
        admitted := hbefore.admitted.unseen hunseen
        quiet := hbefore.quiet.concat hunseen
        moved := ⟨row.status, by rw [Database.status?, hrow]; rfl, one_le_rank (of_decide_eq_false hmiss)⟩ }
    · refine Failing.phase.beside (?_ : Failing p req id false false _ { before with db := _ }) hu
      exact {
        admitted := hbefore.admitted.unseen hunseen
        written := ⟨row.set .failed fields, by simp [Database.write]⟩
        noted := fun hnoted => absurd hnoted Bool.false_ne_true
        stopped := fun hstopped => absurd hstopped Bool.false_ne_true
        unrecorded := by simp [Transaction.Unrecorded, Database.write, hbefore.clean] }

/-- The event of the failure. -/
theorem Failing.meets_record (h : Failing p req id noted stopped past st) (fields : StatusFields) :
    (besideRely p).Meets (service s t) p past st (recordStatusEvent id (some .queued) .failed .api fields)
      (fun _ _ => True) (fun _ es u => Failing p req id true stopped es u) fun _ es _ => Broken es := by
  refine Rely.Meets.call trivial fun before env x after hst _ _ hexec => ⟨trivial, fun u hu => ?_⟩
  have hbefore := Failing.phase.beside h hst
  have hunseen := unseen_of_exec (by simp) hexec
  have hrun : Op.run p env before _ = some (x, after) := run_of_inProcess rfl hexec
  cases hrun
  refine Failing.phase.beside (?_ : Failing p req id true stopped _ { before with db := _ }) hu
  exact {
    admitted := hbefore.admitted.unseen hunseen
    written := by simpa [Database.addEvent] using hbefore.written
    noted := fun _ => ⟨_, by simp [Database.addEvent]; exact .inr rfl, rfl, rfl, rfl, rfl⟩
    stopped := fun hstopped => by simpa [Database.addEvent, Database.stopsSessions] using hbefore.stopped hstopped
    unrecorded := by simpa [Database.addEvent, Transaction.Unrecorded] using hbefore.unrecorded }

/-- The end of the session. -/
theorem Failing.meets_stopDebugSessions (h : Failing p req id noted stopped past st) (endedAt : Seconds) :
    (besideRely p).Meets (service s t) p past st (await (.stopDebugSessions id endedAt)) (fun _ _ => True)
      (fun _ es u => Failing p req id noted true es u) fun _ es _ => Broken es := by
  refine Rely.Meets.call trivial fun before env x after hst _ _ hexec => ⟨trivial, fun u hu => ?_⟩
  have hbefore := Failing.phase.beside h hst
  have hunseen := unseen_of_exec (by simp) hexec
  cases x with
  | error e => exact broken_concat rfl past e before after
  | ok v =>
    have hrun := run_of_exec_ok hexec
    cases hrun
    refine Failing.phase.beside (?_ : Failing p req id noted true _ { before with db := _ }) hu
    exact {
      admitted := hbefore.admitted.unseen hunseen
      written := by simpa [Database.addDebugWrite] using hbefore.written
      noted := by simpa [Database.addDebugWrite] using hbefore.noted
      stopped := fun _ => by simp [Database.addDebugWrite, Database.stopsSessions, DebugWrite.stops]
      unrecorded := by simpa [Database.addDebugWrite, Transaction.Unrecorded] using hbefore.unrecorded }

/-- The commit of the failure. -/
theorem Failing.meets_commit (h : Failing p req id true stopped past st)
    (hstopped : req.debug = true → stopped = true) :
    (besideRely p).Meets (service s t) p past st (await .commit) (fun _ _ => True)
      (fun _ es u => Compensated req id es u) fun _ es _ => Broken es := by
  refine Rely.Meets.call trivial fun before env x after hst _ _ hexec => ⟨trivial, fun u hu => ?_⟩
  have hbefore := Failing.phase.beside h hst
  cases x with
  | error e => exact broken_concat rfl past e before after
  | ok v =>
    have hrun := run_of_exec_ok hexec
    cases hrun
    have hinserts := Database.not_inserts hbefore.unrecorded id
    have hclosed : (before.db.commit p).SessionsClosed id := by
      cases hdebug : req.debug with
      | true => exact Database.sessionsClosed_commit (hbefore.stopped (hstopped hdebug)) hinserts
      | false => exact (hbefore.admitted.closed hdebug).commit hinserts
    obtain ⟨row, hrow⟩ := hbefore.written
    obtain ⟨ev, hev, hfirst⟩ := hbefore.admitted.recorded
    obtain ⟨ev', hev', hfailed⟩ := hbefore.noted rfl
    refine Compensated.phase.beside (?_ : Compensated req id _ { before with db := before.db.commit p }) hu
    exact {
      admitted :=
        { seen := by simp [Database.commit, Database.visible, hrow]
          recorded := ⟨ev, List.mem_append_left _ hev, hfirst⟩
          closed := fun _ => hclosed
          inserted := (hbefore.admitted.concat _).inserted }
      failed := ⟨ev', List.mem_append_right _ hev', hfailed⟩
      closed := hclosed }

/-- Closing the session, or rolling it back, leaves what is committed as it is. -/
theorem Created.of_rollback (h : Created p req id past st) {c : ServiceCall} :
    Created p req id (past ++ [⟨p, c, st, { st with db := st.db.rollback p }⟩]) { st with db := st.db.rollback p } where
  clean := by simp [Database.rollback]
  admitted := h.admitted.unseen (e := ⟨p, c, st, { st with db := st.db.rollback p }⟩) ⟨rfl, rfl, rfl⟩
  quiet := h.quiet.concat ⟨rfl, rfl, rfl⟩

theorem Moved.of_rollback (h : Moved p req id past st) {c : ServiceCall} :
    Moved p req id (past ++ [⟨p, c, st, { st with db := st.db.rollback p }⟩]) { st with db := st.db.rollback p } :=
  ⟨h.toCreated.of_rollback, h.moved⟩

theorem Moved.meets_rollback (h : Moved p req id past st) {E : PyError → List ServiceEntry → Service → Prop} :
    (besideRely p).Meets (service s t) p past st (await .rollback) (fun _ _ => True)
      (fun _ es u => Moved p req id es u) E := by
  refine Rely.Meets.call trivial fun before env x after hst _ _ hexec => ⟨trivial, fun u hu => ?_⟩
  have hrun : Op.run p env before _ = some (x, after) := run_of_inProcess rfl hexec
  cases hrun
  exact Moved.phase.beside (Moved.phase.beside h hst).of_rollback hu

end Operations

/-! ## The request -/

section Request

variable {s : Settings} {t : Tables} {p : Pid} {req : RunRequest} {id : ExecutionId} {past : List ServiceEntry}
  {st : Service} {I : List ServiceEntry → Service → Prop}

theorem checkRun_remains (hI : StartPhase p I) : hI.Remains s t (fun _ => True) (checkRun s req) := by
  have hcall : ∀ o : Op, o.writesDb = false → (∀ x, ServiceCall.isUndelivered ⟨o, x⟩ = false) →
      hI.Remains s t (fun _ => True) (await o) :=
    fun o ho hdelivered => .call ho (fun x _ _ => hdelivered x) fun _ _ _ _ _ => trivial
  have hmember : hI.Remains s t (fun _ => True) (requireRunner req.project req.user) :=
    ((hcall (.getMember req.project req.user) rfl fun _ => rfl).bind fun _ => .orRaise _ trivial).bind fun member =>
      (Phase.Remains.require _ trivial).bind fun _ => .pure member
  refine hmember.bind fun member => (hcall (.getFile req.file) rfl fun _ => rfl).bind fun found => ?_
  refine (Phase.Remains.orRaise found trivial).bind fun file => (Phase.Remains.require _ trivial).bind fun _ => ?_
  refine (Phase.Remains.require _ trivial).bind fun _ => ?_
  split
  · refine Phase.Remains.bind ?_ fun _ => .pure _
    exact (Phase.Remains.require _ trivial).bind fun _ => (Phase.Remains.require _ trivial).bind fun _ =>
      .require _ trivial
  · exact (Phase.Remains.pure ()).bind fun _ => .pure _

theorem setUpDebug_remains (hdebug : req.debug = true) (file : File) :
    (Born.phase : StartPhase p (Born p req id true)).Remains s t (fun _ => True)
      (setUpDebug req.project id file req.user req.username) := by
  have hI : StartPhase p (Born p req id true) := Born.phase
  have hcall : ∀ o : Op, o.writesDb = false → (∀ x, ServiceCall.isUndelivered ⟨o, x⟩ = false) →
      hI.Remains s t (fun _ => True) (await o) :=
    fun o ho hdelivered => .call ho (fun x _ _ => hdelivered x) fun _ _ _ _ _ => trivial
  have htake : ∀ info : ActiveInfo, hI.Remains s t (fun _ => True) (takeDebugSlot req.project info) := by
    intro info
    refine Phase.Remains.bind (hcall (.setActiveNx req.project info) rfl fun _ => rfl) fun claimed => ?_
    refine .ite (.pure _) ?_
    refine Phase.Remains.bind (hcall (.getActive req.project) rfl fun _ => rfl) fun current => ?_
    have hrunning : ∀ running : Option Execution, hI.Remains s t (fun _ => True)
        (if running.all (·.status.finished) then do
          setActive req.project info
          return none
        else return some current) := fun running =>
      .ite (Phase.Remains.bind (hcall (.setActive req.project info) rfl fun _ => rfl) fun _ => .pure _) (.pure _)
    cases current with
    | some active => exact Phase.Remains.bind (hcall (.getExecution active.executionId) rfl fun _ => rfl) hrunning
    | none => exact Phase.Remains.bind (Phase.Remains.pure none) hrunning
  have hclaim : ∀ info : ActiveInfo, hI.Remains s t (fun _ => True) (claimDebugSlot req.project info) := by
    intro info
    refine Phase.Remains.bind ((htake info).tryExcept (fun _ _ => .throw trivial) fun _ _ _ => trivial)
      fun refused => ?_
    match refused with
    | none => exact .pure ()
    | some (some active) => exact .throw trivial
    | some none => exact .throw trivial
  refine (hclaim _).bind fun _ => (Born.remains_addDebugSession hdebug _).bind fun _ => Phase.Remains.bind ?_ fun _ =>
    .pure _
  exact Phase.Remains.bind (hcall (.selectFiles req.project) rfl fun _ => rfl) fun files =>
    Phase.Remains.bind (hcall (.selectBreakpoints req.project) rfl fun _ => rfl) fun rows => .pure _

/-- Creating the run. -/
theorem createRun_meets (file : File) (h : Unborn p past st) :
    (besideRely p).Meets (service s t) p past st (createRun req file) (fun _ _ => True)
      (fun created es u => Ready p req created.1 es u) fun _ es _ => AllDelivered es := by
  refine (Unborn.phase.meets_clock (fun _ _ _ => rfl) h).bind fun queuedAt es u _ hunborn => ?_
  refine ((hunborn u ((besideRely p).refl u)).meets_insertExecution queuedAt).bind fun id es u _ hborn => ?_
  refine (hborn u ((besideRely p).refl u)).meets_record.bind fun _ es u _ hnoted => ?_
  have hcommit : ∀ (info : Option DebugInfo) (es : List ServiceEntry) (u : Service), Born p req id true es u →
      (besideRely p).Meets (service s t) p es u (do
        await .commit
        return (id, info)) (fun _ _ => True) (fun created es u => Ready p req created.1 es u)
        fun _ es _ => AllDelivered es := by
    intro info es u hborn
    refine hborn.meets_commit.bind fun _ es u _ hready => ?_
    exact .pure trivial hready
  split
  · next hdebug =>
    refine ((setUpDebug_remains hdebug file) es u (hnoted u ((besideRely p).refl u))).mono
      (fun _ _ _ hnow => hnow) (fun _ _ _ hnow => hnow.2.delivered) |>.bind fun info es u _ hnow => ?_
    exact hcommit info es u (hnow u ((besideRely p).refl u))
  · exact Rely.Meets.bind (.pure trivial hnoted) fun info es u _ hnow =>
      hcommit info es u (hnow u ((besideRely p).refl u))

/-- The compare-and-set of the failure. -/
theorem failQueued_meets (h : Created p req id past st) (finishedAt : Seconds) :
    (besideRely p).Meets (service s t) p past st (failQueued id finishedAt) (fun _ _ => True)
      (fun failed es u => if failed then Failing p req id true false es u else Moved p req id es u)
      fun _ es _ => Broken es := by
  refine h.meets_getExecution.bind fun found es u _ hfound => ?_
  obtain ⟨row, rfl, -⟩ := hfound u ((besideRely p).refl u)
  have hnow : ∀ v, (besideRely p).step u v → row.status = .queued ∧ Created p req id es v ∨ Moved p req id es v := by
    intro v hv
    obtain ⟨row', hrow, hor⟩ := hfound v hv
    obtain rfl := Option.some.inj hrow
    exact hor
  dsimp only
  split
  · next hqueued =>
    have hcreated : Created p req id es u :=
      (hnow u ((besideRely p).refl u)).elim And.right fun hmoved => hmoved.toCreated
    refine Rely.Meets.bind (Q := fun changed es u =>
      if changed.1 then Failing p req id true false es u else Moved p req id es u) ?_ fun changed es u _ hchanged =>
        .pure trivial hchanged
    unfold changeStatus
    rw [hqueued, if_pos (by decide)]
    refine (hcreated.meets_updateStatus _).bind fun changed es u _ hchanged => ?_
    have hchanged := hchanged u ((besideRely p).refl u)
    cases changed with
    | true =>
      refine (Failing.phase.meets (o := .refresh id) rfl (fun _ _ _ _ => rfl) hchanged
        (Q := fun _ es u => Failing p req id false false es u)
        (fun _ _ _ _ hnow _ _ hu => Failing.phase.beside hnow hu)
        fun e _ before after _ _ _ => broken_concat rfl es e before after).bind fun refreshed es u _ hfailing => ?_
      refine ((hfailing u ((besideRely p).refl u)).meets_record _).bind fun _ es u _ hnoted => ?_
      exact .pure trivial hnoted
    | false =>
      refine (Moved.phase.meets (o := .refresh id) rfl (fun _ _ _ _ => rfl) hchanged
        (Q := fun _ es u => Moved p req id es u) (fun _ _ _ _ hnow _ _ hu => Moved.phase.beside hnow hu)
        fun e _ before after _ _ _ => broken_concat rfl es e before after).bind fun refreshed es u _ hmoved => ?_
      exact .pure trivial hmoved
  · next hqueued => exact .pure trivial fun v hv => (hnow v hv).resolve_left fun hor => hqueued hor.1

/-- The clean-up in Redis raises nothing. -/
theorem forgetUndelivered_remains :
    (Compensated.phase : StartPhase p (Compensated req id)).Remains s t (fun _ => False)
      (forgetUndelivered req.project id req.debug) := by
  have hI : StartPhase p (Compensated req id) := Compensated.phase
  have hcall : ∀ o : Op, o.target = .redis → (∀ env st e st', o.run p env st ≠ some (.error e, st')) →
      o.writesDb = false → (∀ x, ServiceCall.isUndelivered ⟨o, x⟩ = false) →
      hI.Remains s t (fun e => e.isTransport = true) (await o) := fun o ho hrun hdb hdelivered =>
    .call hdb (fun x _ _ => hdelivered x) fun _ _ _ _ hexec => isTransport_of_redis ho hrun hexec
  have hremove : hI.Remains s t (fun e => e.isTransport = true) (do
      let _ ← removeFromQueue id) :=
    Phase.Remains.bind (hcall (.hdel id) rfl (by simp [Op.run]) rfl fun _ => rfl) fun _ => .pure ()
  have hclear : hI.Remains s t (fun e => e.isTransport = true) (clearActive req.project id) := by
    refine Phase.Remains.bind (hcall (.getActive req.project) rfl (by simp [Op.run]) rfl fun _ => rfl) fun active => ?_
    have hstate := hcall (.delState id) rfl (by simp [Op.run]) rfl fun _ => rfl
    refine .ite ?_ hstate
    exact Phase.Remains.bind (hcall (.delActive req.project) rfl (by simp [Op.run]) rfl fun _ => rfl) fun _ => hstate
  refine Phase.Remains.bind (hremove.tryExcept (fun _ _ => .pure ()) fun e he hhandled => ?_) fun _ => ?_
  · exact absurd (he.symm.trans hhandled) Bool.false_ne_true.symm
  · refine .ite (hclear.tryExcept (fun _ _ => .pure ()) fun e he hhandled => ?_) (.pure ())
    exact absurd (he.symm.trans hhandled) Bool.false_ne_true.symm

theorem failUndeliveredRun_meets (h : Created p req id past st) :
    (besideRely p).Meets (service s t) p past st (failUndeliveredRun req.project id req.debug) (fun _ _ => True)
      (fun compensated es u => if compensated then Compensated req id es u else Moved p req id es u)
      fun _ es _ => Broken es := by
  refine (Created.phase.meets_clock (fun _ _ _ => rfl) h).bind fun finishedAt es u _ hcreated => ?_
  refine (failQueued_meets (hcreated u ((besideRely p).refl u)) finishedAt).bind fun failed es u _ hfailed => ?_
  have hcommit : ∀ (stopped : Bool) (es : List ServiceEntry) (u : Service), Failing p req id true stopped es u →
      (req.debug = true → stopped = true) → (besideRely p).Meets (service s t) p es u (do
        await .commit
        forgetUndelivered req.project id req.debug
        return true) (fun _ _ => True)
        (fun compensated es u => if compensated then Compensated req id es u else Moved p req id es u)
        fun _ es _ => Broken es := by
    intro stopped es u hfailing hstopped
    refine (hfailing.meets_commit hstopped).bind fun _ es u _ hcompensated => ?_
    refine ((forgetUndelivered_remains es u (hcompensated u ((besideRely p).refl u))).mono (fun _ _ _ hnow => hnow)
      fun _ _ _ hnow => hnow.1.elim).bind fun _ es u _ hnow => ?_
    exact .pure trivial hnow
  cases failed with
  | true =>
    have hfailing := hfailed u ((besideRely p).refl u)
    simp only [if_true]
    split
    · refine (hfailing.meets_stopDebugSessions finishedAt).bind fun _ es u _ hstopped => ?_
      exact hcommit true es u (hstopped u ((besideRely p).refl u)) fun _ => rfl
    · next hdebug => exact hcommit false es u hfailing fun hdebug' => absurd hdebug' hdebug
  | false =>
    refine Rely.Meets.bind (hfailed u ((besideRely p).refl u)).meets_rollback fun _ es u _ hmoved => ?_
    exact .pure trivial hmoved

/-- A command of the delivery. -/
theorem Ready.meets_command {o : Op} (ho : o.target = .redis)
    (hrun : ∀ env st e st', o.run p env st ≠ some (.error e, st')) (hdb : o.writesDb = false)
    (hdelivered : ∀ v, ServiceCall.isUndelivered ⟨o, .ok v⟩ = false)
    (h : Ready p req id past st) :
    (besideRely p).Meets (service s t) p past st (await o) (fun _ _ => True) (fun _ es u => Ready p req id es u)
      fun e es u => e.isTransport = true ∧ Created p req id es u := by
  refine Rely.Meets.call trivial fun before env x after hst _ _ hexec => ⟨trivial, fun u hu => ?_⟩
  have hbefore := Ready.phase.beside h hst
  have hsame := exec_db hdb hexec
  cases x with
  | error e =>
    exact ⟨isTransport_of_redis ho hrun hexec,
      Created.phase.beside (hbefore.toCreated.aside hsame) hu⟩
  | ok v => exact Ready.phase.beside (Ready.phase.aside hbefore hsame (hdelivered v)) hu

theorem enqueueExecution_meets (h : Ready p req id past st) (payload : Seconds → Payload) :
    (besideRely p).Meets (service s t) p past st (enqueueExecution payload) (fun _ _ => True)
      (fun _ es u => Ready p req id es u) fun e es u => e.isTransport = true ∧ Created p req id es u := by
  refine (Ready.phase.meets_clock (fun _ _ _ => rfl) h).bind fun now es u _ hready => ?_
  refine ((hready u ((besideRely p).refl u)).meets_command (o := .hset _ _) rfl (by simp [Op.run]) rfl
    fun _ => rfl).bind fun _ es u _ hready => ?_
  exact (hready u ((besideRely p).refl u)).meets_command (o := .lpush) rfl (by simp [Op.run]) rfl fun _ => rfl

/-- What the start returns of an execution that it has left alone. -/
structure LeftAlone (p : Pid) (req : RunRequest) (id : ExecutionId) (out : ExecutionOut) (entries : List ServiceEntry)
    (st : Service) : Prop extends Moved p req id entries st where
  same : out.id = id
  status : out.execution.status ≠ .queued

/-- The start raises before the delivery, for a statement that fails, or as it has failed its execution. -/
def Raises (req : RunRequest) (e : PyError) (entries : List ServiceEntry) (st : Service) : Prop :=
  AllDelivered entries ∨ Broken entries ∨ e = queueUnavailable ∧ ∃ id, Compensated req id entries st

/-- The row that the start returns. -/
theorem Moved.meets_refresh (h : Moved p req id past st) :
    (besideRely p).Meets (service s t) p past st (await (.refresh id)) (fun _ _ => True)
      (fun row es u => LeftAlone p req id ⟨id, row⟩ es u) fun e es u => Raises req e es u := by
  refine Moved.phase.meets rfl (fun _ _ _ _ => rfl) h (fun row env before after hes hrun u hu => ?_)
    fun e _ before after _ _ _ => .inr (.inl (broken_concat rfl past e before after))
  obtain rfl := Op.run_reads rfl hrun
  obtain ⟨now, hnow, hrank⟩ := hes.moved
  simp only [Op.run, visible_of_clean hes.clean] at hrun
  split at hrun
  · next row' hrow =>
    cases hrun
    rw [Database.status?, hrow] at hnow
    refine ⟨Moved.phase.beside hes hu, rfl, fun hqueued => ?_⟩
    rw [Option.map_some, Option.some.injEq, hqueued] at hnow
    rw [← hnow] at hrank
    exact absurd hrank (by decide)
  · cases hrun

/-- What the delivery ends with. -/
def Delivers (p : Pid) (req : RunRequest) (id : ExecutionId) : Option ExecutionOut → List ServiceEntry → Service → Prop
  | none, es, _ => AllDelivered es
  | some out, es, u => LeftAlone p req id out es u

theorem deliver_meets (h : Ready p req id past st) (payload : Seconds → Payload) :
    (besideRely p).Meets (service s t) p past st (deliver req.project id req.debug payload) (fun _ _ => True)
      (Delivers p req id) fun e es u => Raises req e es u := by
  have hsend : (besideRely p).Meets (service s t) p past st (do
      enqueueExecution payload
      return (none : Option ExecutionOut)) (fun _ _ => True) (Delivers p req id)
      fun e es u => e.isTransport = true ∧ Created p req id es u :=
    (enqueueExecution_meets h payload).bind fun _ es u _ hready => .pure trivial fun v hv => (hready v hv).delivered
  refine hsend.tryExcept ?_ ?_
  · intro e es u _ _ hcreated
    refine ((failUndeliveredRun_meets (hcreated u ((besideRely p).refl u)).2).mono (fun _ _ _ hnow => hnow)
      fun _ _ _ hbroken => .inr (.inl hbroken)).bind fun compensated es u _ hnow => ?_
    cases compensated with
    | true => exact .throw trivial fun v hv => .inr (.inr ⟨rfl, id, hnow v hv⟩)
    | false => exact (hnow u ((besideRely p).refl u)).meets_refresh.bind fun row es u _ hleft => .pure trivial hleft
  · intro e es u hhandled hE
    exact absurd (hE.1.symm.trans hhandled) Bool.false_ne_true.symm

theorem startRun_meets (h : Unborn p past st) :
    (besideRely p).Meets (service s t) p past st (startRun s req) (fun _ _ => True)
      (fun out es u => AllDelivered es ∨ ∃ id, LeftAlone p req id out es u) fun e es u => Raises req e es u := by
  have hchecked : (besideRely p).Meets (service s t) p past st (checkRun s req) (fun _ _ => True)
      (fun _ es u => Unborn p es u) fun e es u => Raises req e es u :=
    (checkRun_remains Unborn.phase past st h).mono (fun _ _ _ hnow => hnow) fun _ _ _ hnow => .inl hnow.2.delivered
  refine hchecked.bind fun checked es u _ hunborn => ?_
  have htext := Unborn.phase.meets (s := s) (t := t) (o := .fileText req.project req.file) rfl (fun _ _ _ _ => rfl)
    (hunborn u ((besideRely p).refl u)) (Q := fun _ es u => Unborn p es u) (E := fun e es u => Raises req e es u)
    (fun _ _ _ _ hnow _ _ hu => Unborn.phase.beside hnow hu) fun _ _ _ _ _ _ hnow => .inl hnow.delivered
  refine htext.bind fun sourceText es u _ hunborn => ?_
  refine ((createRun_meets checked.2 (hunborn u ((besideRely p).refl u))).mono (fun _ _ _ hnow => hnow)
    fun _ _ _ hdelivered => .inl hdelivered).bind fun created es u _ hready => ?_
  have hrefresh := Ready.phase.meets (s := s) (t := t) (o := .refresh created.1) rfl (fun _ _ _ _ => rfl)
    (hready u ((besideRely p).refl u)) (Q := fun _ es u => Ready p req created.1 es u)
    (E := fun e es u => Raises req e es u) (fun _ _ _ _ hnow _ _ hu => Ready.phase.beside hnow hu)
    fun _ _ _ _ _ _ hnow => .inl hnow.delivered
  refine hrefresh.bind fun execution es u _ hready => ?_
  refine (deliver_meets (hready u ((besideRely p).refl u)) _).bind fun undelivered es u _ hdelivered => ?_
  cases undelivered with
  | some out => exact .pure trivial fun v hv => .inr ⟨created.1, hdelivered v hv⟩
  | none =>
    refine Rely.Meets.bind (Q := fun _ es _ => AllDelivered es) (Rely.Meets.call trivial
      fun before env x after _ _ _ hexec => ⟨trivial, fun v _ => ?_⟩) fun _ es u _ hnow =>
      .pure trivial fun v hv => .inl (hnow v hv)
    have hrun : Op.run p env before _ = some (x, after) := run_of_inProcess rfl hexec
    cases hrun
    exact forall_concat (hdelivered u ((besideRely p).refl u)) rfl

theorem LeftAlone.beside {out : ExecutionOut} {st' : Service} (h : LeftAlone p req id out past st)
    (hst : Beside p st st') : LeftAlone p req id out past st' :=
  { h with toMoved := Moved.phase.beside h.toMoved hst }

theorem Raises.beside {e : PyError} {st' : Service} (h : Raises req e past st) (hst : Beside p st st') :
    Raises req e past st' :=
  h.imp_right (Or.imp_right fun ⟨he, id, hcompensated⟩ => ⟨he, id, Compensated.phase.beside hcompensated hst⟩)

theorem Raises.close {e : PyError} (h : Raises req e past st) :
    Raises req e (past ++ [⟨p, ⟨.close, .ok ()⟩, st, { st with db := st.db.rollback p }⟩])
      { st with db := st.db.rollback p } := by
  rcases h with hdelivered | ⟨e', he', hbroken⟩ | ⟨he, id, hcompensated⟩
  · exact .inl (forall_concat hdelivered rfl)
  · exact .inr (.inl ⟨e', List.mem_append_left _ he', hbroken⟩)
  · refine .inr (.inr ⟨he, id, ?_⟩)
    exact {
      admitted := hcompensated.admitted.unseen (e := ⟨p, _, st, { st with db := st.db.rollback p }⟩) ⟨rfl, rfl, rfl⟩
      failed := hcompensated.failed
      closed := hcompensated.closed }

/-- What a start has done when it ends. -/
theorem startRequest_meets :
    (besideRely p).Meets (service s t) p [] (service s t).init ((Request.startRun req).program s) (fun _ _ => True)
      (fun res es u => AllDelivered es ∨ ∃ out id, res = .started out ∧ LeftAlone p req id out es u)
      fun e es u => Raises req e es u := by
  have hunborn : Unborn p [] (service s t).init := ⟨rfl, (fun _ h => nomatch h), fun _ h => nomatch h⟩
  refine Rely.Meets.map (Rely.Meets.andFinally
    (fun out es u => AllDelivered es ∨ ∃ id, LeftAlone p req id out es u) (fun e es u => Raises req e es u)
    (startRun_meets hunborn) (fun out es u _ hends => ?_) fun e es u _ hraises => ?_) fun out es u hends => ?_
  · refine meets_closing (I := fun es u => AllDelivered es ∨ ∃ id, LeftAlone p req id out es u) (fun _ => trivial)
      (fun h hst => h.imp_right fun ⟨id, hleft⟩ => ⟨id, hleft.beside hst⟩) (fun h => ?_)
      (hends u ((besideRely p).refl u))
    rcases h with hdelivered | ⟨id, hleft⟩
    · exact .inl (forall_concat hdelivered rfl)
    · exact .inr ⟨id, hleft.toMoved.of_rollback, hleft.same, hleft.status⟩
  · exact meets_closing (fun _ => trivial) (fun h hst => h.beside hst) (fun h => h.close)
      (hraises u ((besideRely p).refl u))
  · exact hends.imp_right fun ⟨id, hleft⟩ => ⟨out, id, rfl, hleft⟩

end Request

/-! ## Runs -/

/-- The execution has failed by the API, and was never started. -/
structure Database.NeverStarted (db : Database) (id : ExecutionId) : Prop where
  status : db.status? id = some .failed
  events : (db.eventsOf id).map (fun ev => (ev.payload.fromStatus, ev.payload.toStatus, ev.payload.actor)) =
    [(none, .queued, .api), (some .queued, .failed, .api)]
  sessions : db.SessionsClosed id

/-- Another process has moved the execution on, and since it was committed this one has changed nothing. -/
def MovedByAnother (cfg : JournalConfig) (p : Pid) (id : ExecutionId) : Prop :=
  (∃ e ∈ cfg.shared.2, e.pid ≠ p ∧ e.before.db.status? id = some .queued ∧
    ∃ now, e.after.db.status? id = some now ∧ now ≠ .queued) ∧ Quiet id (operationsOf cfg p)

section Runs

variable {s : Settings} {t : Tables} {cfg : JournalConfig} {p : Pid} {req : RunRequest} {id : ExecutionId}
  {entries : List ServiceEntry}

/-- The moves of an execution that went from queued to failed. -/
theorem moves_of_failed {l : List Move} {status : Option ExecutionStatus} (h : Trail Step none l status)
    (hmem : (some .queued, some .failed) ∈ l) :
    status = some .failed ∧ l = [(none, some .queued), (some .queued, some .failed)] := by
  obtain ⟨before, after, rfl⟩ := List.append_of_mem hmem
  obtain ⟨mid, hbefore, rfl, -, hafter⟩ := Trail.append_iff.1 h
  obtain ⟨rfl, rfl⟩ := hafter.stuck (not_step_of_finished rfl)
  refine ⟨rfl, ?_⟩
  cases before with
  | nil => cases hbefore
  | cons move before =>
    obtain ⟨from_, to_⟩ := move
    obtain ⟨rfl, hfirst, hrest⟩ := hbefore
    cases hfirst
    rw [hrest.eq_nil_of_loop progress_lt_of_step]
    rfl

theorem Compensated.neverStarted (h : Compensated req id entries cfg.shared.1)
    (hlog : ∃ owed, LogInv cfg.shared.1.db owed) : cfg.shared.1.db.NeverStarted id := by
  obtain ⟨owed, hinv⟩ := hlog
  have hmem : ∀ {ev fromStatus toStatus}, ev ∈ cfg.shared.1.db.events → ApiEvent id fromStatus toStatus ev →
      ev ∈ cfg.shared.1.db.eventsOf id ∧ ev.move = (fromStatus, some toStatus) := by
    intro ev fromStatus toStatus hev hapi
    rw [hinv.eventsOf_eq]
    refine ⟨List.mem_filter.2 ⟨hev, decide_eq_true hapi.1⟩, ?_⟩
    rw [ExecutionEvent.move, hapi.2.1, hapi.2.2.1]
  obtain ⟨first, hfirst, hqueued⟩ := h.admitted.recorded
  obtain ⟨last, hlast, hfailed⟩ := h.failed
  obtain ⟨hfirst, hfirstMove⟩ := hmem hfirst hqueued
  obtain ⟨hlast, hlastMove⟩ := hmem hlast hfailed
  obtain ⟨hstatus, hmoves⟩ := moves_of_failed (hinv.trail_eventsOf id) (hlastMove ▸ List.mem_map_of_mem hlast)
  refine ⟨hstatus, ?_, h.closed⟩
  obtain ⟨ev, evs, hevents, hmove, hmoves⟩ := List.map_eq_cons_iff.1 hmoves
  obtain ⟨ev', evs', rfl, hmove', hmoves⟩ := List.map_eq_cons_iff.1 hmoves
  obtain rfl := List.map_eq_nil_iff.1 hmoves
  rw [hevents] at hfirst hlast ⊢
  have hsame : first = ev := by
    rcases List.mem_cons.1 hfirst with hsame | hother
    · exact hsame
    · rw [List.mem_singleton.1 hother, hmove'] at hfirstMove
      cases hfirstMove
  have hsame' : last = ev' := by
    rcases List.mem_cons.1 hlast with hother | hsame
    · rw [hother, hmove] at hlastMove
      cases hlastMove
    · exact List.mem_singleton.1 hsame
  subst hsame hsame'
  rw [List.map_cons, List.map_singleton, hqueued.2.1, hqueued.2.2.1, hqueued.2.2.2, hfailed.2.1, hfailed.2.2.1,
    hfailed.2.2.2]

/-- Whoever moves an execution on finds it queued. -/
theorem queued_of_turn (h : (journal s t).system.Reachable cfg) {e : ServiceEntry} (he : e ∈ cfg.shared.2)
    (hbefore : ¬∃ now, e.before.db.status? id = some now ∧ 1 ≤ now.rank)
    (hafter : ∃ now, e.after.db.status? id = some now ∧ 1 ≤ now.rank) :
    e.before.db.status? id = some .queued := by
  obtain ⟨before, after, env, hreachable, hshared, -, -, hexec⟩ := Machine.performed h he
  have horigins := origins_of_reachable hreachable
  rw [hshared] at horigins
  obtain ⟨now, hnow, hrank⟩ := hafter
  cases hstatus : e.before.db.status? id with
  | some status =>
    by_contra hother
    exact hbefore ⟨status, hstatus, one_le_rank fun hqueued => hother (congrArg some hqueued)⟩
  | none =>
    -- an execution is queued when it is committed for the first time
    have hnone : e.before.db.executions id = none := Option.map_eq_none_iff.1 hstatus
    by_cases ho : e.call.1 = .commit
    · obtain ⟨pid, ⟨o, x⟩, st, st'⟩ := e
      obtain rfl : o = .commit := ho
      have hkept := exec_keeps (P := fun u => ∀ now, u.db.status? id = some now → now = .queued) hexec
        (fun now hnow => by cases hstatus.symm.trans hnow) fun y hy now hnow => ?_
      · rw [hkept now hnow] at hrank
        exact absurd hrank (by decide)
      · have hcommitted : st' = { st with db := st.db.commit pid } := (Prod.mk.inj (Option.some.inj hy)).2.symm
        subst hcommitted
        obtain ⟨row, hrow, rfl⟩ := Option.map_eq_some_iff.1 hnow
        have hwritten : (st.db.tx pid).executions id = some row := by
          rcases (Option.orElse_eq_some _ _ _).1 hrow with hrow | ⟨-, hold⟩
          · exact hrow
          · cases hnone.symm.trans hold
        exact horigins.newborn pid id row hwritten hnone
    · have hunseen := unseen_of_exec ho hexec
      rw [Database.status?, hunseen.executions, hnone] at hnow
      cases hnow

theorem Moved.byAnother (h : (journal s t).system.Reachable cfg)
    (hmoved : Moved p req id (operationsOf cfg p) cfg.shared.1) : MovedByAnother cfg p id := by
  refine ⟨?_, hmoved.quiet⟩
  obtain ⟨e, he, hbefore, hafter⟩ := Machine.exists_turn
    (P := fun st => ∃ now, st.db.status? id = some now ∧ 1 ≤ now.rank) h
    (by simp [service, Database.status?]) hmoved.moved
  have hqueued := queued_of_turn h he hbefore hafter
  obtain ⟨now, hnow, hrank⟩ := hafter
  refine ⟨e, he, fun hpid => ?_, hqueued, now, hnow, ?_⟩
  · rcases hmoved.quiet e (List.mem_filter.2 ⟨he, by simpa using hpid⟩) with hunseen | hnone
    · rw [Database.status?, hunseen.executions] at hnow
      exact hbefore ⟨now, hnow, hrank⟩
    · rw [Database.status?, hnone] at hqueued
      cases hqueued
  · rintro rfl
    exact absurd hrank (by decide)

/-- **Undelivered runs are compensated or left alone.** A start for whose entry Redis has reported an error, and whose
statements do not fail, ends in one of two ways. It returns 503, and its execution has failed by the API without ever
being started, for the rest of the run, and its session is over. Or it returns the execution that another process has
moved on, and has changed nothing since the execution was committed. -/
theorem undelivered_compensated (h : (journal s t).system.Reachable cfg) {res : Except PyError Outcome}
    (hp : cfg.procs p = some ⟨.startRun req, .ret res⟩)
    (hundelivered : ∃ e ∈ operationsOf cfg p, ServiceCall.isUndelivered e.call = true)
    (hworks : ∀ e ∈ operationsOf cfg p, ServiceCall.isBroken e.call = false) :
    ∃ id, (∃ e ∈ operationsOf cfg p, ∃ queuedAt,
        e.call = ⟨.insertExecution req.project req.file queuedAt, .ok id⟩) ∧
      (res = .error queueUnavailable ∧ cfg.shared.1.db.NeverStarted id ∨
        ∃ out, res = .ok (.started out) ∧ out.id = id ∧ out.execution.status ≠ .queued ∧
          MovedByAnother cfg p id) := by
  have hsees := besideSees_of_journal h hp
  have hdelivered : ¬AllDelivered (operationsOf cfg p) := fun hall => by
    obtain ⟨e, he, hfailed⟩ := hundelivered
    exact Bool.false_ne_true ((hall e he).symm.trans hfailed)
  have hbroken : ¬Broken (operationsOf cfg p) := fun ⟨e, he, hfailed⟩ =>
    Bool.false_ne_true ((hworks e he).symm.trans hfailed)
  cases res with
  | ok outcome =>
    obtain ⟨out, id, rfl, hleft⟩ := (startRequest_meets.ok hsees).resolve_left hdelivered
    exact ⟨id, hleft.admitted.inserted, .inr ⟨out, rfl, hleft.same, hleft.status, hleft.toMoved.byAnother h⟩⟩
  | error e =>
    obtain ⟨rfl, id, hcompensated⟩ := ((startRequest_meets.error hsees).resolve_left hdelivered).resolve_left hbroken
    have hlog := logInv_of_reachable (Machine.reachable_forget h)
    exact ⟨id, hcompensated.admitted.inserted, .inl ⟨rfl, hcompensated.neverStarted hlog⟩⟩

end Runs

/-- The entry of a run is written, but its wake-up fails. -/
def startUndelivered : List (Label Env Request) :=
  .spawn 0 (.startRun { project := 0, user := 0, username := "ada", file := 0 }) :: undisturbed 0 10 ++
    .run 0 { fault := .before } :: undisturbed 0 8

/-- The start of process 0 has ended after an error of Redis, and no other. -/
def undeliveredOnly (cfg : JournalConfig) : Bool :=
  match cfg.procs 0 with
  | some ⟨.startRun _, .ret (.error e)⟩ => e = queueUnavailable &&
      ((operationsOf cfg 0).any fun e => ServiceCall.isUndelivered e.call) &&
      (operationsOf cfg 0).all fun e => !ServiceCall.isBroken e.call
  | _ => false

theorem undelivered_compensated_wakeUp : ∃ (cfg : JournalConfig) (id : ExecutionId),
    (journal {} .single).system.Reachable cfg ∧ cfg.shared.1.db.NeverStarted id := by
  have hrun : ((journal {} .single).system.replay System.anyStep (journal {} .single).system.init
      startUndelivered).any undeliveredOnly = true := by decide +kernel
  obtain ⟨cfg, hcfg, hends⟩ := System.exists_reachable hrun
  unfold undeliveredOnly at hends
  split at hends
  · next req e hp =>
    rw [Bool.and_eq_true, Bool.and_eq_true] at hends
    obtain ⟨⟨-, hundelivered⟩, hworks⟩ := hends
    obtain ⟨id, -, ⟨-, hnever⟩ | ⟨out, hres, -⟩⟩ := undelivered_compensated hcfg hp (List.any_eq_true.1 hundelivered)
      fun e he => by simpa using List.all_eq_true.1 hworks e he
    · exact ⟨cfg, id, hcfg, hnever⟩
    · cases hres
  · cases hends

end Concord
