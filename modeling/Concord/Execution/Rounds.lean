import Concord.Execution.Claimant

/-!
# A worker's round

The programs of `_run_one` follow the protocol of duties, from the transitions up to the round itself.
Where a program raises, the worker either has nothing to do any more (`Settled`) or still runs its
execution, which the `except` clauses then settle (`Dropped`); only a failure of the database can make
these clauses fail as well (`Lost`).
-/

namespace Concord

open Concord.Base Async ExecutionStatus

variable {settles closes : Prop} {s : Settings} {t : Tables} {p : Pid} {r : Request} {g : Duty}
  {payload : Payload} {status target : ExecutionStatus} {clear : Bool} {workerId : String}

namespace Duty

/-- The worker still runs the execution, or is done with it. -/
def Dropped (payload : Payload) (g : Duty) : Prop :=
  g = .free ∨ ∃ status, active status = true ∧ g = .running payload status true

/-- The worker still runs the execution because the database has failed, or is done with it. -/
def Lost (settles : Prop) (payload : Payload) (g : Duty) : Prop :=
  g = .free ∨ ¬settles ∧ ∃ status, active status = true ∧ g = .running payload status true

theorem Lost.dropped (h : g.Lost settles payload) : g.Dropped payload := h.imp_right And.right

theorem Dropped.free : Duty.free.Dropped payload := .inl rfl

theorem Dropped.running (ha : status.active = true) :
    (Duty.running payload status true).Dropped payload :=
  .inr ⟨status, ha, rfl⟩

end Duty

/-! ## Transitions -/

theorem refresh_after_duty :
    (dutyProtocol settles closes s t).Triple p (.workerRound workerId) (.after payload status clear)
      (await (.refresh payload.executionId)) (fun _ g => g = .after payload status clear)
      fun _ g => g = .free := by
  unfold Duty.after
  split
  · exact (refresh_duty rfl).mono (fun _ _ hg => hg) fun _ _ hg => hg.2
  · exact risky_duty rfl rfl (.inl rfl)

theorem changeStatus_duty {execution : Execution} (hs : execution.status = status)
    (hct : status.canTransition target = true) (fields : StatusFields) :
    (dutyProtocol settles closes s t).Triple p (.workerRound workerId) (.running payload status clear)
      (changeStatus payload.executionId execution target .worker fields)
      (fun changed g => g =
        if changed.1 then .moving payload status target clear else .after payload status clear)
      fun _ g => g = .free ∨ ¬settles ∧
        (g = .running payload status true ∨ g = .moving payload status target true) := by
  unfold changeStatus
  rw [hs, if_pos hct]
  refine ((updateStatus_duty hct fields).mono (fun _ _ h => h) fun _ _ h => .inr h).bind
    fun changed g hg => ?_
  subst hg
  cases changed with
  | true =>
    refine ((refresh_duty rfl).mono (fun _ _ h => h) fun _ _ h => .inr ⟨h.1, .inr h.2⟩).bind
      fun refreshed g hg => ?_
    subst hg
    exact (addEvent_duty _ _ (.worker _)).bind fun _ g hg => Protocol.Triple.pure hg
  | false =>
    exact (refresh_after_duty.mono (fun _ _ h => h) fun _ _ h => .inl h).bind
      fun refreshed g hg => Protocol.Triple.pure hg

theorem changeStatus_of_finished {id : ExecutionId} {execution : Execution}
    (h : execution.status.finished = true) (actor : Actor) (fields : StatusFields) :
    changeStatus id execution target actor fields = pure (false, execution) := by
  unfold changeStatus
  rw [if_neg (by simp [not_canTransition_of_finished h])]

/-- A transition leaves the worker with its execution in the next status, or with what there is to do
once it is finished. -/
theorem transition_duty (ha : status.active = true) (hct : status.canTransition target = true)
    (fields : StatusFields) :
    (dutyProtocol settles closes s t).Triple p (.workerRound workerId) (.running payload status clear)
      (transition payload.executionId target fields)
      (fun changed g => g = if changed = true ∧ target.finished = false then
        .running payload target clear else .after payload status clear)
      fun _ g => g.Lost settles payload := by
  have hrun : ∀ status', status'.active = true → ∀ g : Duty, ¬settles →
      g = .running payload status' true → g.Lost settles payload :=
    fun status' ha' g hns hg => .inr ⟨hns, status', ha', hg⟩
  refine withSession_duty (Protocol.Triple.bind
    ((getExecution_duty payload).mono (fun _ _ h => h) fun _ g hg => ?_)
    fun found g hg => ?_)
  · exact hrun status ha _ hg.1 (by rw [hg.2]; rfl)
  · obtain ⟨execution, rfl, ⟨hs, rfl⟩ | ⟨hfin, rfl⟩⟩ := hg
    · refine Protocol.Triple.bind ((changeStatus_duty hs hct fields).mono (fun _ _ h => h)
        fun _ g hg => ?_) fun changed g hg => ?_
      · rcases hg with rfl | ⟨hns, rfl | rfl⟩
        · exact .inl rfl
        · exact hrun status ha _ hns rfl
        · exact hrun status ha _ hns rfl
      · subst hg
        refine Protocol.Triple.ite (fun hc => ?_) fun hc => ?_
        · rw [if_pos hc]
          refine Protocol.Triple.bind (commit_moving_duty.mono (fun _ _ h => h)
            fun _ g hg => ?_) fun _ g hg => ?_
          · rcases hg with ⟨hns, rfl | rfl⟩
            · exact hrun status ha _ hns rfl
            · cases hf : target.finished with
              | true => exact .inl rfl
              | false => exact hrun target (active_of_canTransition ha hct hf) _ hns rfl
          · subst hg
            refine Protocol.Triple.pure ?_
            cases hf : target.finished with
            | true => simp
            | false => rfl
        · rw [if_neg hc]
          exact Protocol.Triple.pure (by simp)
    · dsimp only
      rw [changeStatus_of_finished hfin]
      exact Protocol.Triple.pure (by simp)

/-! ## Running the program -/

/-- Telling the project is risky for a worker that has a session to end. -/
theorem publish_duty (event : ProjectEvent) (project : ProjectId) :
    (dutyProtocol settles closes s t).Triple p (.workerRound workerId) g
      (publishProjectEvent project event) (fun _ g' => g' = g) fun _ g' => g' = g.cleared :=
  risky_duty rfl rfl (.inr fun _ _ _ _ hx => by
    cases hx
    exact ⟨_, rfl⟩)

theorem publish_free (event : ProjectEvent) (project : ProjectId) :
    (dutyProtocol settles closes s t).Steady p r .free (publishProjectEvent project event) :=
  free_duty _ rfl

/-- A transition that is not the last one. -/
theorem advance_duty (ha : status.active = true) (hct : status.canTransition target = true)
    (hf : target.finished = false) (project : ProjectId) :
    (dutyProtocol settles closes s t).Triple p (.workerRound workerId) (.running payload status clear)
      (advance project payload.executionId target) (fun _ g => g = .running payload target clear)
      fun _ g => g.Dropped payload := by
  have hne : status ≠ .running := by
    rintro rfl
    revert hct hf
    cases target <;> decide
  refine Protocol.Triple.bind ((transition_duty ha hct {}).mono (fun _ _ h => h)
    fun _ _ h => h.dropped) fun changed g hg => ?_
  subst hg
  cases changed with
  | true =>
    rw [if_pos ⟨rfl, hf⟩]
    refine Protocol.Triple.bind (Protocol.Triple.require (Q := fun _ g =>
      g = .running payload target clear) (fun _ => rfl) fun h => nomatch h) fun _ g hg => ?_
    subst hg
    refine (publish_duty _ project).mono (fun _ _ h => h) fun _ g hg => ?_
    exact hg ▸ .running (active_of_canTransition ha hct hf)
  | false =>
    rw [if_neg (by simp), Duty.after_of_ne hne]
    exact Protocol.Triple.bind (Protocol.Triple.require (Q := fun _ _ => False)
      (fun h => nomatch h) fun _ => .inl rfl) fun _ _ h => h.elim

/-- Telling the project how the execution has ended. -/
theorem report_duty (changed : Bool) (project : ProjectId) (event event' : ProjectEvent) :
    (dutyProtocol settles closes s t).Steady p r .free (if changed then do
      publishProjectEvent project event
      publishProjectEvent project event'
    else
      pure ()) :=
  Protocol.Steady.ite ((publish_free _ _).bind fun _ => publish_free _ _) (.pure _)

theorem RunResult.finished_status (result : RunResult) : result.status.finished = true := by
  unfold RunResult.status
  split
  · rfl
  · split <;> rfl

theorem RunResult.canTransition_status (result : RunResult) :
    running.canTransition result.status = true := by
  unfold RunResult.status
  split
  · rfl
  · split <;> rfl

theorem DebugOutcome.finished_status (o : DebugOutcome) : o.status.finished = true := by
  unfold DebugOutcome.status
  split
  case h_6 => split <;> rfl
  all_goals rfl

theorem DebugOutcome.canTransition_status (o : DebugOutcome) :
    running.canTransition o.status = true := by
  unfold DebugOutcome.status
  split
  case h_6 => split <;> rfl
  all_goals rfl

/-- The run of an execution without a session. -/
theorem runSandbox_duty (project : ProjectId) :
    (dutyProtocol settles closes s t).Triple p (.workerRound workerId) (.running payload running true)
      (runSandbox project payload.executionId) (fun _ g => g = .free)
      fun _ g => g.Dropped payload := by
  have hrunning : (Duty.running payload running true).Dropped payload := .running rfl
  refine Protocol.Triple.bind ((risky_duty rfl rfl (.inl rfl)).mono (fun _ _ h => h)
    fun _ _ hg => hg ▸ hrunning) fun result g hg => ?_
  subst hg
  refine (clock_duty (.worker _)).bind fun now g hg => ?_
  subst hg
  refine ((transition_duty rfl result.canTransition_status _).mono (fun _ _ h => h)
    fun _ _ h => h.dropped).bind fun changed g hg => ?_
  rw [result.finished_status, if_neg (by simp), Duty.after_clear] at hg
  subst hg
  exact (report_duty changed project _ _).triple (fun _ => rfl) fun _ => .inl rfl

/-- What the worker swallows does not change its duty. -/
theorem clearActive_duty (hs : g.Stands r) (project : ProjectId) (id : ExecutionId)
    {E : PyError → Duty → Prop} :
    (dutyProtocol settles closes s t).Triple p r g (suppress (clearActive project id))
      (fun _ g' => g' = g) E :=
  suppress_triple (clearActive_steady (reading_duty hs) (aside_duty hs rfl) id)

theorem debugSession_duty (project : ProjectId) :
    (dutyProtocol settles closes s t).Triple p (.workerRound workerId)
      (.running payload running clear) (debugSession project payload.executionId)
      (fun _ g => g = .running payload running clear) fun _ g => g.Dropped payload := by
  have hval : ∀ {o : Op}, o = .subscribe (.debugCommand payload.executionId) ∨
      o = .debugRun payload.executionId → ∀ env st x st',
        o.run p env st = some (x, st') → ∃ a, x = .ok a := by
    rintro o (rfl | rfl) env st x st' hx <;> cases hx <;> exact ⟨_, rfl⟩
  refine Protocol.Triple.bind ((risky_duty rfl rfl (.inr (hval (.inl rfl)))).mono
    (fun _ _ h => h) fun _ _ hg => hg ▸ .running rfl) fun _ g hg => ?_
  subst hg
  have hend : ∀ g : Duty, ∀ {E : PyError → Duty → Prop},
      (dutyProtocol settles closes s t).Triple p (.workerRound workerId) g (do
        suppress (await (.unsubscribe (.debugCommand payload.executionId)))
        suppress (clearActive project payload.executionId)) (fun _ g' => g' = g) E :=
    fun g _ => (suppress_triple (aside_duty (.worker _) rfl)).bind fun _ _ hg =>
      hg ▸ clearActive_duty (.worker _) project _
  refine (risky_duty rfl rfl (.inr (hval (.inr rfl)))).andFinally (fun _ g hg => ?_)
    fun _ g hg => ?_
  · exact hg ▸ hend _
  · subst hg
    exact (hend _).mono (fun _ _ hg => hg ▸ .running rfl) fun _ _ h => h

/-- The worker writes that the session has stopped. -/
theorem stopDebugSessions_duty (endedAt : Seconds) :
    (dutyProtocol settles closes s t).Triple p (.workerRound workerId) (.closing payload false)
      (await (.stopDebugSessions payload.executionId endedAt))
      (fun _ g => g = .closing payload true) fun _ g => g = .free := by
  refine Triple.fallible (Duty.Stands.worker _) (fun env st gs hinv hg hok x st' hx => ?_)
    (fun _ env st gs hinv hg hok hf => ?_) (fun _ env st gs hinv hg hok hf x st' hx => ?_)
  · have hh := (DutyInv.holds hinv p).aside rfl hx
    rw [hg] at hh
    obtain ⟨hb, ht, hfin, -⟩ := hh
    have hstep := hx
    cases hx
    refine ⟨.closing payload true, DutyInv.step hinv (by simp) hstep (fun e row he _ _ => ?_)
      (fun _ e row he _ _ _ => ?_) ⟨hb, ht, hfin, fun _ => ?_⟩, rfl⟩
    · rw [hg] at he
      cases he
    · rwa [hg] at he
    · simp [Database.stopsSessions, Database.addDebugWrite, DebugWrite.stops]
  · exact ⟨_, DutyInv.cleared_of_fault hinv hg hok (by simp [hf]) rfl (by simp), rfl⟩
  · exact ⟨_, (DutyInv.cleared_of_fault hinv hg hok (by simp [hf]) rfl (by simp)).aside rfl hx, rfl⟩

/-- The commit with which the session has ended. -/
theorem commit_closing_duty :
    (dutyProtocol settles closes s t).Triple p (.workerRound workerId) (.closing payload true)
      (await .commit) (fun _ g => g = .free) fun _ g => g = .free := by
  have hcommit : ∀ (env : Env) (st : Service) (gs : Pid → Duty), DutyInv settles closes st gs →
      gs p = .closing payload true →
      (dutyProtocol settles closes s t).ok st p (.workerRound workerId) .commit env →
      env.fault ≠ .before →
      DutyInv settles closes { st with db := st.db.commit p } (Function.update gs p .free) := by
    intro env st gs hinv hg hok hf
    have hgrace := graceful_of_ok hok hf
    obtain ⟨-, -, ho, owed, hlog⟩ := hok
    have hh := hinv.holds p
    rw [hg] at hh
    obtain ⟨hb, -, ⟨row, hrow, -⟩, hstops⟩ := hh
    refine hinv.commit ho hlog hgrace (fun e row' htx => ?_) (fun e row' _ hor _ => ?_)
      (fun _ e row' _ _ hopen hor => ?_) fun e row' htx => ?_
    · rw [hb e] at htx
      cases htx
    · rcases hor with hr | ⟨row₁, htx⟩
      · rw [hg] at hr
        cases hr
      · rw [hb e] at htx
        cases htx
    · rw [hg] at hor
      rcases hor with hc | hr
      · obtain rfl := Option.some.inj hc
        exact absurd (DutyInv.closed_commit ho (by simp [hrow]) (.inr (hstops rfl))) hopen
      · cases hr
    · rw [Database.blank_commit e] at htx
      cases htx
  refine Triple.faulting (Duty.Stands.worker _) (fun env st gs hinv hg hok hf x st' hx => ?_)
    (fun _ env st gs hinv hg hok hf => ?_) (fun _ env st gs hinv hg hok hf x st' hx => ?_)
  · cases hx
    refine ⟨_, hcommit env st gs hinv hg hok ?_, rfl⟩
    rcases hf with hf | hf <;> simp_all [Op.target]
  · have hh := DutyInv.holds hinv p
    rw [hg] at hh
    obtain ⟨ht, hq⟩ := hh.took rfl
    refine ⟨_, DutyInv.cleared hinv hg fun payload' hc hcl => ?_, rfl⟩
    obtain rfl := Option.some.inj hc
    exact closed_of_commit_fault hok ht hq (by simp [hf]) (.inl hf) hcl
  · cases hx
    exact ⟨_, hcommit env st gs hinv hg hok (by simp [hf]), rfl⟩

/-- The transaction that ends the session of a finished execution. -/
theorem endSession_duty (endedAt : Seconds) :
    (dutyProtocol settles closes s t).Triple p (.workerRound workerId) (.after payload status clear)
      (withSession do
        await (.stopDebugSessions payload.executionId endedAt)
        await .commit) (fun _ g => g = .free) fun _ g => g = .free := by
  refine withSession_duty ?_
  unfold Duty.after
  split
  · refine Protocol.Triple.bind ((stopDebugSessions_duty endedAt).mono (fun _ _ h => h)
      fun _ g hg => by rw [hg]; rfl) fun _ g hg => ?_
    subst hg
    exact commit_closing_duty.mono (fun _ _ hg => by rw [hg]; rfl) fun _ _ hg => by rw [hg]; rfl
  · exact ((free_duty (.stopDebugSessions payload.executionId endedAt) rfl).bind
      fun _ => commit_free).triple (fun _ => rfl) fun _ => rfl

/-- The run of a debugged execution. -/
theorem runDebug_duty (project : ProjectId) :
    (dutyProtocol settles closes s t).Triple p (.workerRound workerId)
      (.running payload running clear) (runDebug s project payload.executionId)
      (fun _ g => g = .free) fun _ g => g.Dropped payload := by
  refine (debugSession_duty project).bind fun outcome g hg => ?_
  subst hg
  refine (clock_duty (.worker _)).bind fun now g hg => ?_
  subst hg
  refine ((transition_duty rfl outcome.canTransition_status _).mono (fun _ _ h => h)
    fun _ _ h => h.dropped).bind fun changed g hg => ?_
  rw [outcome.finished_status, if_neg (by simp)] at hg
  subst hg
  refine ((endSession_duty now).mono (fun _ _ h => h) fun _ _ hg => .inl hg).bind fun _ g hg => ?_
  subst hg
  exact (report_duty changed project _ _).triple (fun _ => rfl) fun _ => .inl rfl

/-! ## Inside the workspace -/

/-- The file is there, and a debug run's file is a Python file. -/
theorem getFile_duty :
    (dutyProtocol settles closes s t).Triple p (.workerRound workerId) (.running payload status clear)
      (withSession (await (.getFile payload.fileId)))
      (fun found g => g = .running payload status clear ∧
        (∃ f, found = some f ∧ f.projectId = payload.projectId) ∧
        (payload.debug.getD false = true → payload.language.getD .python = .python))
      fun _ g => g = .running payload status true := by
  refine withSession_duty (Triple.fallible (Duty.Stands.worker _)
    (fun env st gs hinv hg hok x st' hx => ?_) (fun _ env st gs hinv hg hok hf => ?_)
    (fun _ env st gs hinv hg hok hf x st' hx => ?_))
  · have hh := DutyInv.holds hinv p
    rw [hg] at hh
    have honest := hok.2.2.1.honest_of_took hh.2.1
    cases hx
    refine ⟨.running payload status clear, ?_, rfl, honest.located, honest.python⟩
    rwa [← hg, Function.update_eq_self]
  · exact ⟨_, DutyInv.cleared_of_fault hinv hg hok (by simp [hf]) rfl (by simp), rfl⟩
  · cases hx
    exact ⟨_, DutyInv.cleared_of_fault hinv hg hok (by simp [hf]) rfl (by simp), rfl⟩

/-- The part of a run after the build. -/
theorem launch_duty (ha : status.active = true) (hct : status.canTransition running = true)
    (hclear : clear = !payload.debug.getD false) :
    (dutyProtocol settles closes s t).Triple p (.workerRound workerId) (.running payload status clear)
      (do
        advance payload.projectId payload.executionId .running
        if payload.debug.getD false then
          runDebug s payload.projectId payload.executionId
        else
          runSandbox payload.projectId payload.executionId)
      (fun _ g => g = .free) fun _ g => g.Dropped payload := by
  refine (advance_duty ha hct rfl payload.projectId).bind fun _ g hg => ?_
  subst hg
  refine Protocol.Triple.ite (fun _ => runDebug_duty _) fun hd => ?_
  rw [Bool.not_eq_true] at hd
  rw [hclear, hd]
  exact runSandbox_duty _

theorem runInWorkspace_duty :
    (dutyProtocol settles closes s t).Triple p (.workerRound workerId)
      (.running payload starting (!payload.debug.getD false)) (runInWorkspace s payload)
      (fun _ g => g = .free) fun _ g => g.Dropped payload := by
  have hval : ∀ {o : Op}, o = .mountWorkspace payload.projectId payload.fileId ∨
      o = .writeSource (payload.sourceText.getD "") → ∀ env st x st',
        o.run p env st = some (x, st') → ∃ a, x = .ok a := by
    rintro o (rfl | rfl) env st x st' hx <;> cases hx <;> exact ⟨_, rfl⟩
  refine Protocol.Triple.bind ((risky_duty rfl rfl (.inr (hval (.inl rfl)))).mono
    (fun _ _ h => h) fun _ _ hg => hg ▸ .running rfl) fun _ g hg => ?_
  subst hg
  refine (getFile_duty.mono (fun _ _ h => h) fun _ _ hg => hg ▸ .running rfl).bind
    fun found g hg => ?_
  obtain ⟨rfl, ⟨file, rfl, hproject⟩, hpython⟩ := hg
  refine Protocol.Triple.bind (Protocol.Triple.orRaise (Q := fun _ g =>
    g = .running payload starting (!payload.debug.getD false)) (fun _ _ => rfl) fun hn => ?_)
    fun _ g hg => ?_
  · simp [Option.filter, hproject] at hn
  subst hg
  have hbuild : (dutyProtocol settles closes s t).Triple p (.workerRound workerId)
      (.running payload starting (!payload.debug.getD false))
      (if payload.language.getD .python = .cpp then do
        advance payload.projectId payload.executionId .compiling
        await (.sandboxBuild payload.executionId)
        advance payload.projectId payload.executionId .running
        if payload.debug.getD false then
          runDebug s payload.projectId payload.executionId
        else
          runSandbox payload.projectId payload.executionId
      else do
        advance payload.projectId payload.executionId .running
        if payload.debug.getD false then
          runDebug s payload.projectId payload.executionId
        else
          runSandbox payload.projectId payload.executionId)
      (fun _ g => g = .free) fun _ g => g.Dropped payload := by
    refine Protocol.Triple.ite (fun hcpp => ?_) fun _ => launch_duty rfl rfl rfl
    refine (advance_duty rfl rfl rfl payload.projectId).bind fun _ g hg => ?_
    subst hg
    -- a C++ program is not debugged
    have hplain : payload.debug.getD false = false := by
      rw [← Bool.not_eq_true]
      intro hd
      rw [hpython hd] at hcpp
      cases hcpp
    refine Protocol.Triple.bind ((risky_duty rfl rfl (.inl (by rw [hplain]; rfl))).mono
      (fun _ _ h => h) fun _ g hg => ?_) fun _ g hg => ?_
    · exact hg ▸ .running rfl
    · exact hg ▸ launch_duty rfl rfl rfl
  refine Protocol.Triple.ite (fun _ => ?_) fun _ => hbuild
  exact Protocol.Triple.bind ((risky_duty rfl rfl (.inr (hval (.inr rfl)))).mono
    (fun _ _ h => h) fun _ _ hg => hg ▸ .running rfl) fun _ g hg => hg ▸ hbuild

theorem runClaimed_duty :
    (dutyProtocol settles closes s t).Triple p (.workerRound workerId)
      (.running payload starting (!payload.debug.getD false)) (runClaimed s payload)
      (fun _ g => g = .free) fun _ g => g.Dropped payload := by
  refine (suppress_triple (aside_duty (.worker _) rfl)).bind fun _ g hg => ?_
  subst hg
  refine Protocol.Triple.bind (withSession_duty ((getExecution_duty payload).mono
    (fun found g hg => ?_) fun _ g hg => ?_)) (Q := fun found g => ∃ row, found = some row ∧
      (row.status = starting ∧ g = .running payload starting (!payload.debug.getD false) ∨
        row.status.finished = true ∧ g = .free)) fun found g hg => ?_
  · obtain ⟨row, hfound, hor⟩ := hg
    refine ⟨row, hfound, hor.imp (fun ⟨hs, hg⟩ => ⟨hs, ?_⟩) fun ⟨hf, hg⟩ => ⟨hf, ?_⟩⟩
    · rw [hg]
      rfl
    · rw [hg, Duty.dropped_after, Duty.after_of_ne (by simp)]
  · rw [hg.2]
    exact .running rfl
  · obtain ⟨row, rfl, ⟨hs, rfl⟩ | ⟨hf, rfl⟩⟩ := hg
    · refine Protocol.Triple.bind (Protocol.Triple.require (Q := fun _ g =>
        g = .running payload starting (!payload.debug.getD false)) (fun _ => rfl)
        fun hc => ?_) fun _ g hg => ?_
      · simp [hs] at hc
      · subst hg
        refine runInWorkspace_duty.andFinally (fun _ g hg => ?_) fun _ g hg => ?_
        · subst hg
          exact (free_duty _ rfl).triple (fun _ => rfl) fun _ => .inl rfl
        · rcases hg with rfl | ⟨status, ha, rfl⟩
          · exact (free_duty _ rfl).triple (fun _ => .inl rfl) fun _ => .inl rfl
          · exact (aside_duty (.worker _) rfl).triple (fun _ => .running ha) fun _ => .running ha
    · refine Protocol.Triple.bind (Protocol.Triple.require (Q := fun _ _ => False)
        (fun hc => ?_) fun _ => .inl rfl) fun _ _ h => h.elim
      simp only [Option.any_some, decide_eq_true_eq] at hc
      rw [hc] at hf
      cases hf

/-! ## The round -/

/-- The `except` clauses settle what the worker still runs. -/
theorem settle_duty (hfin : target.finished = true)
    (hct : ∀ status : ExecutionStatus, status.active = true → status.canTransition target = true)
    (hg : g.Dropped payload) (project : ProjectId) (fields : Seconds → StatusFields) :
    (dutyProtocol settles closes s t).Triple p (.workerRound workerId) g
      (settle project payload.executionId target fields) (fun _ g => g = .free)
      fun _ g => g.Lost settles payload := by
  rcases hg with rfl | ⟨status, ha, rfl⟩
  · exact (settle_steady (fun o _ ho => free_duty o ho) project _ hfin fields).triple
      (fun _ => rfl) fun _ => .inl rfl
  · refine (clock_duty (.worker _)).bind fun now g hg => ?_
    subst hg
    refine (transition_duty ha (hct status ha) _).bind fun changed g hg => ?_
    rw [hfin, if_neg (by simp), Duty.after_clear] at hg
    subst hg
    refine Protocol.Triple.ite (fun _ => ?_) fun _ => Protocol.Triple.pure rfl
    exact (publish_free _ _).triple (fun _ => rfl) fun _ => .inl rfl

theorem runHandled_duty :
    (dutyProtocol settles closes s t).Triple p (.workerRound workerId)
      (.running payload starting (!payload.debug.getD false)) (runHandled s payload)
      (fun _ g => g = .free) fun _ g => g.Lost settles payload := by
  have hcancel : ∀ status : ExecutionStatus, status.active = true →
      status.canTransition .cancelled = true := by
    intro status ha
    cases status <;> first | rfl | cases ha
  have hfail : ∀ status : ExecutionStatus, status.active = true →
      status.canTransition .failed = true := by
    intro status ha
    cases status <;> first | rfl | cases ha
  refine Protocol.Triple.bind runClaimed_duty.attempt fun res g hg => ?_
  cases res with
  | ok _ => exact Protocol.Triple.pure hg
  | error e =>
    cases e with
    | executionCancelled => exact settle_duty rfl hcancel hg _ _
    | _ => exact settle_duty rfl hfail hg _ _

theorem cleanUp_duty (hs : g.Stands r) :
    (dutyProtocol settles closes s t).Steady p r g (cleanUp payload) := by
  refine Protocol.Steady.bind (aside_duty hs rfl) fun _ => ?_
  split
  · exact clearActive_duty hs _ _
  · exact .pure _

/-- The claim of a worker that holds the entry. -/
theorem claimQueued_duty (startedAt : Seconds) :
    (dutyProtocol settles closes s t).Triple p (.workerRound workerId) (.holding payload)
      (await (.claimQueued payload.executionId payload.projectId payload.fileId workerId startedAt))
      (fun claimed g => g = if claimed then .claiming payload else .free)
      fun _ g => g = .free ∨ g = .claiming payload := by
  have hfree : ∀ (st : Service) (gs : Pid → Duty), DutyInv settles closes st gs →
      gs p = .holding payload → DutyInv settles closes st (Function.update gs p .free) := by
    intro st gs hinv hg
    have hh := hinv.holds p
    rw [hg] at hh
    refine hinv.shift (fun e row he _ _ => ?_) (fun _ e row he _ _ _ => ?_) fun e row hrow => ?_
    · rw [hg] at he
      cases he
    · rw [hg] at he
      cases he
    · rw [hh.1 e] at hrow
      cases hrow
  have hclaim : ∀ (env : Env) (st : Service) (gs : Pid → Duty) x st',
      DutyInv settles closes st gs → gs p = .holding payload →
      (Op.claimQueued payload.executionId payload.projectId payload.fileId workerId startedAt).run p
        env st = some (x, st') → ∃ claimed, x = .ok claimed ∧
      DutyInv settles closes st' (Function.update gs p (if claimed then .claiming payload else .free)) := by
    intro env st gs x st' hinv hg hx
    have hstep := hx
    obtain ⟨claimed, db, hu, rfl, rfl⟩ := Op.run_claimQueued hx
    refine ⟨claimed, rfl, ?_⟩
    have hh := hinv.holds p
    rw [hg] at hh
    rcases Database.updateWhere_eq_some hu with ⟨rfl, rfl⟩ | ⟨rfl, row, -, -, -, rfl⟩
    · exact hfree st gs hinv hg
    · refine hinv.light hg rfl rfl (by simp) hstep ⟨hh.2, ⟨_, by simp [Database.write]; rfl, rfl⟩,
        fun e he => ?_⟩
      by_contra hne
      exact he (by simp [Database.write, hne, hh.1 e])
  refine Triple.fallible (Duty.Stands.worker _) (fun env st gs hinv hg hok x st' hx => ?_)
    (fun _ env st gs hinv hg hok hf => ⟨_, hfree st gs hinv hg, .inl rfl⟩)
    (fun _ env st gs hinv hg hok hf x st' hx => ?_)
  · obtain ⟨claimed, rfl, hinv'⟩ := hclaim env st gs x st' hinv hg hx
    exact ⟨_, hinv', rfl⟩
  · obtain ⟨claimed, -, hinv'⟩ := hclaim env st gs x st' hinv hg hx
    refine ⟨_, hinv', ?_⟩
    cases claimed with
    | true => exact .inr rfl
    | false => exact .inl rfl

/-- The commit of a claim. -/
theorem commit_claiming_duty :
    (dutyProtocol settles closes s t).Triple p (.workerRound workerId) (.claiming payload)
      (await .commit) (fun _ g => g = .running payload starting (!payload.debug.getD false))
      fun _ g => g = .free ∨ g = .claiming payload := by
  -- what comes of the commit, whether or not the worker learns of it
  have hcommit : ∀ (env : Env) (st : Service) (gs : Pid → Duty) (c : Duty),
      DutyInv settles closes st gs → gs p = .claiming payload →
      (dutyProtocol settles closes s t).ok st p (.workerRound workerId) .commit env →
      env.fault ≠ .before →
      (c = .running payload starting (!payload.debug.getD false) ∨ ¬settles ∧ c = .free) →
      DutyInv settles closes { st with db := st.db.commit p } (Function.update gs p c) := by
    intro env st gs c hinv hg hok hf hc
    have hgrace := graceful_of_ok hok hf
    obtain ⟨-, -, ho, owed, hlog⟩ := hok
    have hh := hinv.holds p
    rw [hg] at hh
    obtain ⟨ht, ⟨row, htx, hstarting⟩, honly⟩ := hh
    have hv : st.db.visible p payload.executionId = some row := by simp [Database.visible, htx]
    refine hinv.commit ho hlog hgrace (fun e row' he => ?_) (fun e row' hv' hor hpr => ?_)
      (fun _ e row' _ _ _ hor => ?_) ?_
    · exact .inr (.inr ⟨payload, ht, (honly e (by simp [he])).symm⟩)
    · rcases hor with hr | ⟨row₁, he⟩
      · rw [hg] at hr
        cases hr
      · obtain rfl := honly e (by simp [he])
        rw [hv] at hv'
        obtain rfl := Option.some.inj hv'
        rcases hc with rfl | ⟨hns, -⟩
        · rfl
        · rcases hpr.2 with hsettles | ⟨-, hrunning, -⟩
          · exact absurd hsettles hns
          · rw [hstarting] at hrunning
            cases hrunning
    · rw [hg] at hor
      rcases hor with hc | hr
      · cases hc
      · cases hr
    · rcases hc with rfl | ⟨-, rfl⟩
      · refine ⟨Database.blank_commit, ht, rfl, ⟨row, hv, .inl hstarting⟩, fun hplain _ => ?_⟩
        have honest := ho.honest_of_took ht
        obtain ⟨-, row₀, hrow₀, -⟩ := honest.known
        refine DutyInv.closed_commit ho (by simp [hrow₀]) (.inl ?_)
        exact (honest.plain (by simpa using hplain)).closed
      · intro e row' he
        rw [Database.blank_commit e] at he
        cases he
  refine Triple.faulting (Duty.Stands.worker _) (fun env st gs hinv hg hok hf x st' hx => ?_)
    (fun _ env st gs hinv hg hok hf => ⟨.claiming payload, ?_, .inr rfl⟩)
    (fun _ env st gs hinv hg hok hf x st' hx => ?_)
  · cases hx
    refine ⟨_, hcommit env st gs _ hinv hg hok ?_ (.inl rfl), rfl⟩
    rcases hf with hf | hf <;> simp_all [Op.target]
  · rwa [← hg, Function.update_eq_self]
  · cases hx
    have hns := settles_of_fault hok rfl (by simp [hf])
    exact ⟨_, hcommit env st gs _ hinv hg hok (by simp [hf]) (.inr ⟨hns, rfl⟩), .inl rfl⟩

theorem claimRun_duty :
    (dutyProtocol settles closes s t).Triple p (.workerRound workerId) (.holding payload)
      (claimRun payload workerId)
      (fun claimed g => g =
        if claimed then .running payload starting (!payload.debug.getD false) else .free)
      fun _ g => g = .free := by
  have hdropped : ∀ g : Duty, g = .free ∨ g = .claiming payload → g.dropped = .free := by
    rintro g (rfl | rfl) <;> rfl
  refine withSession_duty ?_
  refine (clock_duty (.worker _)).bind fun startedAt g hg => ?_
  subst hg
  refine ((claimQueued_duty startedAt).mono (fun _ _ h => h) fun _ g hg => hdropped g hg).bind
    fun claimed g hg => ?_
  refine Protocol.Triple.ite (fun hc => ?_) fun hc => ?_
  · rw [if_pos hc] at hg
    subst hg
    refine (addEvent_duty _ _ (.worker _)).bind fun _ g hg => ?_
    subst hg
    refine (commit_claiming_duty.mono (fun _ _ h => h) fun _ g hg => hdropped g hg).bind
      fun _ g hg => ?_
    subst hg
    exact Protocol.Triple.pure (by rw [if_pos hc]; rfl)
  · rw [if_neg hc] at hg
    subst hg
    exact commit_free.andThen (fun _ => rfl) fun _ =>
      Protocol.Triple.pure (by rw [if_neg hc]; rfl)

/-- The news that the execution starts is sent before anything handles its failure. -/
theorem announce_duty :
    (dutyProtocol settles closes s t).Triple p (.workerRound workerId)
      (.running payload starting clear)
      (publishStatus payload.projectId payload.executionId .starting)
      (fun _ g => g = .running payload starting clear) fun _ g => g = .free := by
  have hdrop : ∀ (env : Env) (st : Service) (gs : Pid → Duty), DutyInv settles closes st gs →
      gs p = .running payload starting clear →
      (dutyProtocol settles closes s t).ok st p (.workerRound workerId)
        (.publish (.exec payload.projectId (.executionStatus payload.executionId .starting))) env →
      env.fault ≠ .none → DutyInv settles closes st (Function.update gs p .free) := by
    intro env st gs hinv hg hok hf
    have hh := hinv.holds p
    rw [hg] at hh
    obtain ⟨ht, hq⟩ := hh.took rfl
    refine hinv.shift (fun e row he hrow hpr => ?_) (fun _ e row he _ _ _ => ?_) fun e row hrow => ?_
    · rw [hg] at he
      obtain rfl := Option.some.inj he
      obtain ⟨hactive, hs | ⟨hcl, -, hopen⟩⟩ := hpr
      · have hann := ((hok.1 hs).2).resolve_left hf
        simp only [hrow, Option.any_some] at hann
        cases hstat : row.status <;> simp_all [ExecutionStatus.active, ExecutionStatus.finished]
      · exact absurd (closed_of_fault hok ht hq hf rfl (by simp) hcl) hopen
    · rw [hg] at he
      cases he
    · rw [hh.1 e] at hrow
      cases hrow
  refine Triple.fallible (Duty.Stands.worker _) (fun env st gs hinv hg hok x st' hx => ?_)
    (fun _ env st gs hinv hg hok hf => ⟨_, hdrop env st gs hinv hg hok (by simp [hf]), rfl⟩)
    (fun _ env st gs hinv hg hok hf x st' hx => ?_)
  · cases hx
    refine ⟨_, ?_, rfl⟩
    rwa [← hg, Function.update_eq_self]
  · cases hx
    exact ⟨_, hdrop env st gs hinv hg hok (by simp [hf]), rfl⟩

/-- What a process has come to when it ends. -/
def Duty.Done (settles : Prop) (g : Duty) : Prop :=
  g.Idle ∨ ¬settles ∧ ∃ payload status, g = .running payload status true

theorem Duty.Lost.done (h : g.Lost settles payload) : g.Done settles := by
  rcases h with rfl | ⟨hns, status, -, rfl⟩
  · exact .inl (.inl rfl)
  · exact .inr ⟨hns, payload, status, rfl⟩

theorem runOne_duty :
    (dutyProtocol settles closes s t).Triple p (.workerRound workerId) (.holding payload)
      (runOne s payload workerId) (fun _ g => g.Done settles) fun _ g => g.Done settles := by
  have hfree : Duty.free.Done settles := .inl (.inl rfl)
  refine (claimRun_duty.mono (fun _ _ h => h) fun _ _ hg => hg ▸ hfree).bind fun claimed g hg => ?_
  subst hg
  refine Protocol.Triple.ite (fun hc => ?_) fun hc => ?_
  · rw [if_pos hc]
    refine (announce_duty.mono (fun _ _ h => h) fun _ _ hg => hg ▸ hfree).bind fun _ g hg => ?_
    subst hg
    refine (runHandled_duty.mono (fun _ _ hg => hg ▸ hfree) fun _ _ hg => hg.done).andFinally
      (fun _ g hg => ?_) fun _ g hg => ?_
    · exact (cleanUp_duty (.worker _)).triple (fun _ => hg) fun _ => hg
    · exact (cleanUp_duty (.worker _)).triple (fun _ => hg) fun _ => hg
  · rw [if_neg hc]
    exact Protocol.Triple.pure hfree

theorem workerRound_duty :
    (dutyProtocol settles closes s t).Triple p (.workerRound workerId) (.scanned [])
      (workerRound s workerId) (fun _ g => g.Done settles) fun _ g => g.Done settles := by
  refine Protocol.Triple.tryExcept (E := fun _ g => g.Done settles) ?_
    (fun _ _ _ hg => Protocol.Triple.pure hg) fun _ _ _ hg => hg
  have hdequeue : (dutyProtocol settles closes s t).Triple p (.workerRound workerId) (.scanned [])
      (dequeueExecution s) (Dequeued Duty.holding Duty.Idle) fun _ g => g.Idle :=
    dequeueExecution_taken Duty.scanned Duty.holding Duty.Idle (fun _ => .inr ⟨_, rfl⟩)
      (fun _ => reading_duty (.worker _) _ rfl) hgetall_duty (fun _ _ _ => hdel_duty)
      (aside_duty (.worker _) rfl)
  refine (hdequeue.mono (fun _ _ h => h) fun _ _ hg => .inl hg).bind fun taken g hg => ?_
  cases taken with
  | none => exact Protocol.Triple.pure (.inl hg)
  | some payload =>
    cases hg
    exact runOne_duty

/-! ## Every request -/

/-- What a process has to do when it begins. -/
def Request.duty : Request → Duty
  | workerRound _ => .scanned []
  | startRun _ | cancelExecution _ _ _ _ | sweepOnce => .free

theorem Request.program_duty (r : Request) :
    (dutyProtocol settles closes s t).Triple p r r.duty (r.program s)
      (fun _ g => g.Done settles ∧ g.Stands r) fun _ g => g.Done settles ∧ g.Stands r := by
  have hdone : Duty.free.Done settles ∧ Duty.free.Stands r := ⟨.inl (.inl rfl), .idle rfl rfl⟩
  have hfin : ∀ o : Op, o.ordinary = true → o.finishing = true →
      (dutyProtocol settles closes s t).Steady p r .free (await o) := fun o _ ho => free_duty o ho
  have hclosed : ∀ {α : Type} {x : Py α} {f : α → Outcome},
      (dutyProtocol settles closes s t).Steady p r .free x →
      (dutyProtocol settles closes s t).Triple p r .free (f <$> withSession x)
        (fun _ g => g.Done settles ∧ g.Stands r) fun _ g => g.Done settles ∧ g.Stands r :=
    fun hx => ((withSession_steady (free_duty .close rfl) hx).triple
      (Q := fun _ g => g.Done settles ∧ g.Stands r) (fun _ => hdone) fun _ => hdone).map fun _ _ h => h
  cases r with
  | startRun req => exact hclosed (startRun_steady free_duty req)
  | cancelExecution project user id rounds =>
    exact hclosed (cancelExecution_steady hfin (fun _ => free_duty _ rfl) project user id rounds)
  | workerRound workerId =>
    exact (workerRound_duty.mono (fun _ g h => ⟨h, .worker g⟩) fun _ g h => ⟨h, .worker g⟩).map
      fun _ _ h => h
  | sweepOnce => exact hclosed (sweepOnce_steady hfin)

/-- The outline of duties. -/
def dutyOutline (settles closes : Prop) (s : Settings) (t : Tables) :
    Outline (dutyProtocol settles closes s t) where
  idle := .scanned []
  start _ r := r.duty
  done _ r _ g := g.Done settles ∧ g.Stands r
  init := {
    owned := fun _ _ hrow => nomatch hrow
    attended := fun _ _ _ hrow => nomatch hrow
    holds := fun _ => ⟨fun _ => rfl, fun _ he => nomatch he⟩ }
  spawn st gs p r hinv hg := by
    have hh := hinv.holds p
    rw [hg] at hh
    have hfree : Duty.free.Holds closes st p := fun e row hrow => by
      rw [hh.1 e] at hrow
      cases hrow
    refine hinv.shift (fun e row he _ _ => ?_) (fun _ e row he _ _ _ => ?_) ?_
    · rw [hg] at he
      cases he
    · rw [hg] at he
      cases he
    · cases r with
      | workerRound workerId => exact hh
      | _ => exact hfree
  body p r := Protocol.Follows.mono r.program_duty fun res _ h => by cases res <;> exact h
  at_end _ _ _ _ h := h.2

/-- Every configuration reached under the conditions fits the outline of duties. -/
theorem duty_of_reachable (settles closes : Prop) {ok : Service → Pid → Request → Op → Env → Prop} {cfg : ServiceConfig}
    (hok : ∀ st p r o env, ok st p r o env →
      (settles → runsSettled st p r o env) ∧ (closes → sessionsKept st p r o env))
    (h : (service s t).system.ReachableUnder ((service s t).guard ok) cfg) :
    ∃ gs, (dutyOutline settles closes s t).Fits cfg gs := by
  refine (dutyOutline settles closes s t).sound (fun cfg l hcfg hl => ?_) h
  cases l with
  | spawn p r => trivial
  | run p env =>
    intro r o k hproc
    obtain ⟨hsettles, hcloses⟩ := hok _ _ _ _ _ (hl r o k hproc)
    exact ⟨hsettles, hcloses, origins_of_reachable hcfg.reachable,
      logInv_of_reachable hcfg.reachable⟩

end Concord
