import Concord.Debug.SingleSession
import Concord.Execution.Settled

/-!
# Debug sessions end with their execution

Five operations can finish an execution. Only a worker at the end of a debug run and the compensation
of a start end its session as well; a cancel, the sweep and the `except` clauses of `_run_one` leave
it open. So the sessions of a finished execution are over when it was finished while it was running,
or by who ends its session with it, and its worker has not failed before that.
-/

namespace Concord

open Concord.Base ExecutionStatus

namespace ServiceConfig

variable (cfg : ServiceConfig)

/-- The request is about execution `e`: it created it, cancels it, or has taken it from the queue. A
sweep is about every execution. -/
def ActsOn (p : Pid) (e : ExecutionId) : Request → Prop
  | .startRun _ => ∃ row, cfg.shared.db.executions e = some row ∧ row.createdBy = p
  | .cancelExecution _ _ id _ => id = e
  | .workerRound _ => (p, .hdel e true) ∈ cfg.shared.redis.log
  | .sweepOnce => True

/-- Process `p` has not ended and is about execution `e`. -/
def Acting (p : Pid) (e : ExecutionId) : Prop :=
  ∃ r o k, cfg.procs p = some ⟨r, .await o k⟩ ∧ cfg.ActsOn p e r

/-- The sessions of a finished execution that nobody is acting on are over. -/
def SessionsFollow : Prop :=
  ∀ e row, cfg.shared.db.executions e = some row → row.status.finished = true →
    (∀ p, ¬Acting cfg p e) → cfg.shared.db.SessionsClosed e

end ServiceConfig

/-- **Debug sessions follow their execution** when nothing takes from an open session whoever would
end it. -/
theorem sessions_follow_execution {s : Settings} {t : Tables} {cfg : ServiceConfig}
    (h : (service s t).system.ReachableUnder ((service s t).guard sessionsKept) cfg) :
    ServiceConfig.SessionsFollow cfg := by
  intro e row hrow hfin hnobody
  by_contra hopen
  obtain ⟨gs, hfits⟩ := duty_of_reachable False True
    (fun _ _ _ _ _ hok => ⟨fun hf => hf.elim, fun _ => hok⟩) h
  obtain ⟨q, hq⟩ := hfits.1.attended trivial e row hrow hfin hopen
  have hh := hfits.1.holds q
  -- the process that has to end the session has taken the execution, and has not cleared it
  have hduty : ∃ payload, (gs q).concern? = some payload ∧ payload.executionId = e := by
    cases hg : gs q <;> rw [hg] at hq <;>
      simp only [Duty.closes?, Option.ite_none_right_eq_some, Option.some.injEq, reduceCtorEq] at hq
    case closing payload stopping => exact ⟨payload, rfl, hq⟩
    all_goals exact ⟨_, rfl, hq.2⟩
  obtain ⟨payload, hconcern, rfl⟩ := hduty
  have hdel := (hh.took hconcern).1.1
  cases hproc : cfg.procs q with
  | none =>
    rw [hfits.2.1 q hproc] at hq
    cases hq
  | some proc =>
    obtain ⟨r, rest⟩ := proc
    obtain ⟨workerId, rfl⟩ := hfits.at_next hproc (.inr (by simp [hq]))
    cases rest with
    | await o k => exact hnobody q ⟨_, o, k, hproc, hdel⟩
    | ret a =>
      obtain ⟨(hidle | ⟨waiting, hidle⟩) | ⟨-, payload', status, hrun⟩, -⟩ := hfits.ended hproc
      · rw [hidle] at hq
        cases hq
      · rw [hidle] at hq
        cases hq
      · rw [hrun] at hconcern hh
        obtain rfl := Option.some.inj hconcern
        exact hopen (hh.2.2.2.2 rfl trivial)

namespace ServiceConfig

variable (cfg : ServiceConfig)

/-- Processes 0 and 1 have ended, and execution 0 is finished and has a session. -/
def wrappedUp : Bool :=
  ended cfg 0 && ended cfg 1 && (cfg.shared.db.executions 0).any (·.status.finished) &&
    cfg.shared.db.debugSessions.any (·.executionId = 0)

variable {cfg}

theorem not_acting_of_ended {p : Pid} (h : ended cfg p = true) (e : ExecutionId) :
    ¬Acting cfg p e := by
  rintro ⟨r, o, k, hproc, -⟩
  obtain ⟨r', a, hret⟩ := exists_of_ended h
  rw [hproc] at hret
  cases hret

/-- Nobody acts on an execution when the two processes of a schedule have ended. -/
theorem not_acting_of_replay {ok : ServiceConfig → Label Env Request → Prop}
    [∀ s l, Decidable (ok s l)] {ls : List (Label Env Request)}
    (h : (service {} .single).system.replay ok (service {} .single).system.init ls = some cfg)
    (hls : ls.filterMap Label.spawned? = [0, 1]) (hend : ended cfg 0 = true)
    (hend' : ended cfg 1 = true) (p : Pid) (e : ExecutionId) : ¬Acting cfg p e := by
  by_cases h0 : p = 0
  · exact h0 ▸ not_acting_of_ended hend e
  by_cases h1 : p = 1
  · exact h1 ▸ not_acting_of_ended hend' e
  rintro ⟨r, o, k, hproc, -⟩
  have hnone := Machine.procs_eq_none_of_replay h (p := p) rfl (by simp [hls, h0, h1])
  rw [hnone] at hproc
  cases hproc

end ServiceConfig

/-- A debug session that runs to its end. -/
theorem sessions_follow_execution_exited :
    ∃ cfg : ServiceConfig, (service {} .single).system.ReachableUnder
        ((service {} .single).guard sessionsKept) cfg ∧ ServiceConfig.wrappedUp cfg = true ∧
      cfg.shared.db.SessionsClosed 0 := by
  let schedule : List (Label Env Request) :=
    List.flatten [.spawn 0 debugRequest :: undisturbed 0 17,
      [.spawn 1 (.workerRound "w"), .run 1 {}, .run 1 { order := [0] }], undisturbed 1 43]
  have hrun : ((service {} .single).system.replay ((service {} .single).guard sessionsKept)
      (service {} .single).system.init schedule).any
      (fun cfg : ServiceConfig => ServiceConfig.wrappedUp cfg) = true := by
    decide
  obtain ⟨cfg, hcfg, h⟩ := (Option.any_eq_true _ _).1 hrun
  have hw := h
  simp only [ServiceConfig.wrappedUp, Bool.and_eq_true, Option.any_eq_true] at hw
  obtain ⟨⟨⟨hend, hend'⟩, row, hrow, hfin⟩, -⟩ := hw
  refine ⟨cfg, System.path_of_replay hcfg, h, ?_⟩
  exact sessions_follow_execution (System.path_of_replay hcfg) 0 row hrow hfin
    fun p => ServiceConfig.not_acting_of_replay hcfg rfl hend hend' p 0

/-- A debug run is cancelled while it is queued: its session stays active. -/
theorem session_left_open :
    ¬∀ cfg, (service {} .single).system.Reachable cfg → ServiceConfig.SessionsFollow cfg := by
  let schedule : List (Label Env Request) :=
    .spawn 0 debugRequest :: undisturbed 0 17 ++ .spawn 1 (.cancelExecution 0 0 0 1) ::
      undisturbed 1 12
  have hrun : ((service {} .single).system.replay System.anyStep
      (service {} .single).system.init schedule).any
      (fun cfg : ServiceConfig => ServiceConfig.wrappedUp cfg && cfg.shared.db.sessionOpen 0) =
        true := by
    decide
  intro hall
  obtain ⟨cfg, hcfg, h⟩ := (Option.any_eq_true _ _).1 hrun
  simp only [ServiceConfig.wrappedUp, Bool.and_eq_true, Option.any_eq_true] at h
  obtain ⟨⟨⟨⟨hend, hend'⟩, row, hrow, hfin⟩, -⟩, hopen⟩ := h
  have hclosed := hall cfg (System.path_of_replay hcfg) 0 row hrow hfin
    fun p => ServiceConfig.not_acting_of_replay hcfg rfl hend hend' p 0
  rw [← Database.sessionOpen_eq_false, hopen] at hclosed
  cases hclosed

end Concord
