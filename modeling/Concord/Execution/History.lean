import Concord.Execution.StatusLog
import Mathlib

/-!
# The history of an execution

What `LogInv` means for the committed events of one execution, read in the order of their
insertion, and for its status over the rest of the run.
-/

namespace Concord

open Concord.Base ExecutionStatus

/-- `log` is the history of an execution that has status `status`: it starts with the insertion,
every event starts where the one before it ended, every change is in the transition table, and the
last one leads to `status`. -/
structure IsHistory (log : List ExecutionEvent) (status : ExecutionStatus) : Prop where
  first : ∃ ev, log.head? = some ev ∧ ev.payload.fromStatus = none ∧ ev.payload.toStatus = queued
  linked : log.IsChain fun ev ev' => ev'.payload.fromStatus = some ev.payload.toStatus
  allowed : ∀ ev ∈ log.tail, ∃ previous, ev.payload.fromStatus = some previous ∧
    ev.payload.toStatus ∈ allowedTransitions previous
  last : ∃ ev, log.getLast? = some ev ∧ ev.payload.toStatus = status

namespace LogInv

variable {db : Database} {owed : SessionId → Owed} {e : ExecutionId}

/-- In the order of their ids the events of an execution are in the order of their insertion. -/
theorem eventsOf_eq (h : LogInv db owed) (e : ExecutionId) :
    db.eventsOf e = db.events.filter (·.executionId = e) := by
  have hsub : db.events.Sublist (db.events ++ (db.tx 0).events) := List.sublist_append_left _ _
  have hord := (h.ordered 0 e).sublist (hsub.filter _)
  exact List.mergeSort_of_pairwise (hord.imp fun hlt => by simpa using Nat.le_of_lt hlt)

theorem trail_eventsOf (h : LogInv db owed) (e : ExecutionId) :
    Trail Step none ((db.eventsOf e).map (·.move)) (db.status? e) := by
  rw [h.eventsOf_eq]
  exact h.committed e

end LogInv

/-- The events of a trail that leads from no row to a row are its history. -/
theorem isHistory_of_trail {log : List ExecutionEvent} {status : ExecutionStatus}
    (h : Trail Step none (log.map (·.move)) (some status)) : IsHistory log status := by
  have hne : log ≠ [] := by
    rintro rfl
    cases h
  refine ⟨?_, ?_, ?_, ?_⟩
  · obtain ⟨ev, rest, rfl⟩ := List.exists_cons_of_ne_nil hne
    obtain ⟨hfrom, hstep, -⟩ := h
    refine ⟨ev, rfl, hfrom.symm, ?_⟩
    generalize hto : some ev.payload.toStatus = target at hstep
    rw [← hfrom] at hstep
    cases hstep
    exact Option.some.inj hto
  · exact ((List.isChain_map _).1 h.isChain).imp fun _ _ heq => heq.symm
  · obtain ⟨ev₀, rest, rfl⟩ := List.exists_cons_of_ne_nil hne
    obtain ⟨-, -, hrest⟩ := h
    intro ev hev
    have hmem : ev.move ∈ rest.map (·.move) := List.mem_map_of_mem hev
    have hstep := hrest.step_of_mem hmem
    -- only the first event can start from no row
    have hprogress := hrest.rank_le_of_mem progress_lt_of_step hmem
    cases hfrom : ev.payload.fromStatus with
    | none => simp [hfrom, progress] at hprogress
    | some previous =>
      rw [hfrom] at hstep
      cases hstep with
      | change hct => exact ⟨previous, rfl, of_decide_eq_true hct⟩
  · refine ⟨log.getLast hne, List.getLast?_eq_getLast_of_ne_nil hne, ?_⟩
    have hlast := h.getLast_eq (by simpa using hne)
    rw [List.getLast_map] at hlast
    exact Option.some.inj hlast

/-- An event is recorded at most once in a history. -/
theorem countP_move_le_one {log : List ExecutionEvent} {status : Option ExecutionStatus}
    (h : Trail Step none (log.map (·.move)) status) (m : Move) :
    log.countP (fun ev => ev.move = m) ≤ 1 := by
  have hcount := List.nodup_iff_count_le_one.1 (h.nodup progress_lt_of_step) m
  rwa [List.count, List.countP_map, List.countP_congr fun ev _ => ?_] at hcount
  simp

/-- At most one event leads into a finished status. -/
theorem countP_finished_le_one {log : List ExecutionEvent} {status : Option ExecutionStatus}
    (h : Trail Step none (log.map (·.move)) status) :
    log.countP (·.payload.toStatus.finished) ≤ 1 := by
  have hcount := h.countP_stuck_le_one (fun m => m.2.any (·.finished)) ?_
  · rwa [List.countP_map] at hcount
  · rintro ⟨x, y⟩ hy z
    cases y with
    | none => cases hy
    | some y => exact not_step_of_finished (by simpa using hy) z

/-! ## The log only grows -/

theorem Op.run_events {p : Pid} {env : Env} {st st' : Service} {o : Op} {x : Except PyError o.Val}
    (h : o.run p env st = some (x, st')) : st.db.events <+: st'.db.events := by
  refine Op.db_cases (P := fun db => st.db.events <+: db.events) h List.prefix_rfl ?_ ?_ ?_ ?_ ?_
    (fun _ => List.prefix_append _ _) ?_
  all_goals
    intros
    exact List.prefix_rfl

theorem events_prefix {s : Settings} {t : Tables} {cfg cfg' : ServiceConfig}
    {ok : ServiceConfig → Label Env Request → Prop}
    (h : (service s t).system.Path ok cfg cfg') :
    cfg.shared.db.events <+: cfg'.shared.db.events := by
  refine h.relates (R := fun cfg cfg' => cfg.shared.db.events <+: cfg'.shared.db.events)
    (fun _ => List.prefix_rfl) (fun _ _ _ => List.IsPrefix.trans) ?_
  rintro cfg (⟨p, r⟩ | ⟨p, env⟩) cfg' - - hs
  · obtain ⟨-, rfl⟩ := Machine.step_spawn.1 hs
    exact List.prefix_rfl
  · obtain ⟨r, o, k, x, st, -, hx, rfl⟩ := Machine.step_run.1 hs
    rcases Op.exec_eq_some hx with hx | ⟨-, -, ⟨-, rfl⟩ | ⟨-, y, hy⟩⟩
    · exact Op.run_events hx
    · exact List.prefix_rfl
    · exact Op.run_events hy

/-- A finished status stays. -/
theorem status_of_finished {s : Settings} {t : Tables} {cfg cfg' : ServiceConfig}
    (h : (service s t).system.Reachable cfg)
    (hp : (service s t).system.Path System.anyStep cfg cfg') {e : ExecutionId}
    {status : ExecutionStatus} (hs : cfg.shared.db.status? e = some status)
    (hfin : status.finished = true) : cfg'.shared.db.status? e = some status := by
  obtain ⟨owed, hinv⟩ := logInv_of_reachable h
  obtain ⟨owed', hinv'⟩ := logInv_of_reachable (h.trans hp)
  obtain ⟨more, hmore⟩ := events_prefix hp
  have hlog := hinv.committed e
  have hlog' := hinv'.committed e
  rw [← hmore, movesOf_append] at hlog'
  obtain ⟨mid, hmid, hrest⟩ := Trail.append_iff.1 hlog'
  obtain rfl := hlog.end_unique hmid
  rw [hs] at hrest
  exact (hrest.stuck (not_step_of_finished hfin)).2.symm

/-- **Status and event log agree.** In every reachable configuration of the service, the committed
events of an execution, in the order of their insertion, are the history of its status (and an
execution without a row has none). It is claimed at most once, has at most one terminal event, and
keeps a terminal status for the rest of the run. -/
theorem status_agrees_with_events {s : Settings} {t : Tables} {cfg : ServiceConfig}
    (h : (service s t).system.Reachable cfg) (e : ExecutionId) :
    match cfg.shared.db.executions e with
    | none => cfg.shared.db.eventsOf e = []
    | some row =>
      IsHistory (cfg.shared.db.eventsOf e) row.status ∧
      (cfg.shared.db.eventsOf e).countP (fun ev => ev.move = (some queued, some starting)) ≤ 1 ∧
      (cfg.shared.db.eventsOf e).countP (·.payload.toStatus.finished) ≤ 1 ∧
      (row.status.finished = true → ∀ cfg', (service s t).system.Path System.anyStep cfg cfg' →
        ∃ row', cfg'.shared.db.executions e = some row' ∧ row'.status = row.status) := by
  obtain ⟨owed, hinv⟩ := logInv_of_reachable h
  have htrail := hinv.trail_eventsOf e
  split
  · next hrow =>
    rw [Database.status?, hrow] at htrail
    exact List.map_eq_nil_iff.1 (htrail.eq_nil_of_loop progress_lt_of_step)
  · next row hrow =>
    refine ⟨?_, countP_move_le_one htrail _, countP_finished_le_one htrail, ?_⟩
    · rw [Database.status?, hrow] at htrail
      exact isHistory_of_trail htrail
    · intro hfin cfg' hp
      have hs : cfg.shared.db.status? e = some row.status := by simp [Database.status?, hrow]
      simpa [Database.status?] using status_of_finished h hp hs hfin

/-- A request that starts a run of the project's file, then a worker that takes it from the queue
and claims it. -/
def startThenClaim : List (Label Env Request) :=
  .spawn 0 (.startRun { project := 0, user := 0, username := "ada", file := 0 }) ::
    undisturbed 0 13 ++ .spawn 1 (.workerRound "worker") ::
      undisturbed 1 1 ++ .run 1 { order := [0] } :: undisturbed 1 7

theorem status_agrees_with_events_claimed :
    ∃ cfg row, (service {} .single).system.Reachable cfg ∧
      cfg.shared.db.executions 0 = some row ∧ row.status = starting ∧
      IsHistory (cfg.shared.db.eventsOf 0) row.status := by
  have hrun : ((service {} .single).system.replay System.anyStep (service {} .single).system.init
      startThenClaim).any (fun cfg => cfg.shared.db.status? 0 = some starting) = true := by decide
  obtain ⟨cfg, hcfg, hs⟩ := System.exists_reachable hrun
  simp only [Database.status?, Option.map_eq_some_iff, decide_eq_true_eq] at hs
  obtain ⟨row, hrow, hstatus⟩ := hs
  have hagree := status_agrees_with_events hcfg 0
  rw [hrow] at hagree
  exact ⟨cfg, row, hcfg, hrow, hstatus, hagree.1⟩

end Concord
