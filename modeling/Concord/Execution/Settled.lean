import Concord.Execution.Rounds

/-!
# Claimed executions are settled

A worker that has claimed an execution and has ended leaves it in a final status, in every run in
which the database does not fail and the news that the execution is starting gets through. That news
is sent after the claim and before the `try` whose `except` clauses would settle the execution.
-/

namespace Concord

open Concord.Base ExecutionStatus QueueLog

/-- The move that a claim records. -/
def claimMove : Move := (some queued, some starting)

/-- Worker `p` has claimed execution `e`: it has removed the entry, and the claim is committed. -/
def Claimed (st : Service) (p : Pid) (e : ExecutionId) : Prop :=
  (p, .hdel e true) ∈ st.redis.log ∧ claimMove ∈ movesOf e st.db.events

namespace ServiceConfig

variable (cfg : ServiceConfig)

/-- Every execution that an ended worker has claimed is in a final status. -/
def ClaimedSettled : Prop :=
  ∀ p workerId a e, cfg.procs p = some ⟨.workerRound workerId, .ret a⟩ → Claimed cfg.shared p e →
    ∃ row, cfg.shared.db.executions e = some row ∧ row.status.finished = true

end ServiceConfig

/-- An execution that was claimed is started or finished. -/
theorem LogInv.started_of_claimed {db : Database} {owed : SessionId → Owed} {e : ExecutionId}
    (h : LogInv db owed) (hclaim : claimMove ∈ movesOf e db.events) :
    ∃ row, db.executions e = some row ∧ (row.status.active = true ∨ row.status.finished = true) := by
  have hrank := (h.committed e).rank_end_le_of_mem progress_lt_of_step hclaim
  cases hrow : db.executions e with
  | none => simp [Database.status?, hrow, progress] at hrank
  | some row =>
    refine ⟨row, rfl, ?_⟩
    simp only [Database.status?, hrow, Option.map_some, progress] at hrank
    cases hs : row.status <;> simp_all [rank, active, finished]

/-- **Claimed executions are settled** when nothing keeps the worker from it. -/
theorem claimed_runs_settled {s : Settings} {t : Tables} {cfg : ServiceConfig}
    (h : (service s t).system.ReachableUnder ((service s t).guard runsSettled) cfg) :
    ServiceConfig.ClaimedSettled cfg := by
  intro p workerId a e hproc hclaim
  obtain ⟨gs, hfits⟩ := duty_of_reachable True False
    (fun _ _ _ _ _ hok => ⟨fun _ => hok, fun hf => hf.elim⟩) h
  have horigins := origins_of_reachable h.reachable
  obtain ⟨owed, hlog⟩ := logInv_of_reachable h.reachable
  obtain ⟨row, hrow, hactive | hfin⟩ := hlog.started_of_claimed hclaim.2
  · -- somebody runs it, and it can only be the worker that removed the entry
    obtain ⟨q, hq⟩ := hfits.1.owned e row hrow ⟨hactive, .inl trivial⟩
    have htook : ∃ payload, Took cfg.shared q payload ∧ payload.executionId = e := by
      have hh := hfits.1.holds q
      cases hg : gs q with
      | running payload status clear =>
        rw [hg] at hq hh
        exact ⟨payload, hh.2.1, Option.some.inj hq⟩
      | moving payload status target clear =>
        rw [hg] at hq hh
        exact ⟨payload, hh.1, Option.some.inj hq⟩
      | _ =>
        rw [hg] at hq
        cases hq
    obtain ⟨payload, ht, rfl⟩ := htook
    have htook : Took cfg.shared p payload := ⟨hclaim.1, ht.2⟩
    obtain rfl : q = p := horigins.taker_unique ht htook rfl
    obtain ⟨hdone, -⟩ := hfits.ended hproc
    rcases hdone with (hidle | ⟨waiting, hidle⟩) | ⟨hns, -⟩
    · rw [hidle] at hq
      cases hq
    · rw [hidle] at hq
      cases hq
    · exact absurd trivial hns
  · exact ⟨row, hrow, hfin⟩

namespace ServiceConfig

variable (cfg : ServiceConfig)

/-- Worker 1 has ended and has claimed execution 0, which is in the given status. -/
def leftBehind (status : ExecutionStatus) : Bool :=
  (match cfg.procs 1 with
    | some ⟨.workerRound _, .ret _⟩ => true
    | _ => false) &&
  decide ((1, .hdel 0 true) ∈ cfg.shared.redis.log) &&
  decide (claimMove ∈ movesOf 0 cfg.shared.db.events) &&
  (cfg.shared.db.executions 0).any (·.status = status)

variable {cfg}

theorem exists_of_leftBehind {status : ExecutionStatus} (h : leftBehind cfg status = true) :
    (∃ workerId a, cfg.procs 1 = some ⟨.workerRound workerId, .ret a⟩) ∧ Claimed cfg.shared 1 0 ∧
      ∃ row, cfg.shared.db.executions 0 = some row ∧ row.status = status := by
  simp only [leftBehind, Bool.and_eq_true, decide_eq_true_eq, Option.any_eq_true] at h
  obtain ⟨⟨⟨hproc, hdel⟩, hmove⟩, row, hrow, hs⟩ := h
  refine ⟨?_, ⟨hdel, hmove⟩, row, hrow, by simpa using hs⟩
  split at hproc
  · next workerId a hp => exact ⟨workerId, a, hp⟩
  · cases hproc

end ServiceConfig

/-- A worker runs the execution it has claimed to its end. -/
theorem claimed_runs_settled_completed :
    ∃ cfg : ServiceConfig, (service {} .single).system.ReachableUnder
        ((service {} .single).guard runsSettled) cfg ∧
      ServiceConfig.leftBehind cfg .completed = true ∧ ServiceConfig.ClaimedSettled cfg := by
  have hrun : ((service {} .single).system.replay ((service {} .single).guard runsSettled)
      (service {} .single).system.init (handedOver ++ undisturbed 1 30)).any
      (fun cfg : ServiceConfig => ServiceConfig.leftBehind cfg .completed) = true := by
    decide
  obtain ⟨cfg, hcfg, h⟩ := System.exists_reachable hrun
  exact ⟨cfg, hcfg, h, claimed_runs_settled hcfg⟩

/-- The news that the execution starts does not get through. -/
def strayNews : List (Label Env Request) :=
  handedOver ++ undisturbed 1 4 ++ [.run 1 { fault := .before }]

/-- The worker's loop drops the exception, and the execution stays as it is. -/
theorem claimed_run_left_starting :
    ¬∀ cfg, (service {} .single).system.ReachableUnder
        ((service {} .single).guard fun _ _ _ o env => databaseAvailable o env) cfg →
      ServiceConfig.ClaimedSettled cfg := by
  have hrun : ((service {} .single).system.replay
      ((service {} .single).guard fun _ _ _ o env => databaseAvailable o env)
      (service {} .single).system.init strayNews).any
      (fun cfg : ServiceConfig => ServiceConfig.leftBehind cfg .starting) = true := by
    decide
  intro hall
  obtain ⟨cfg, hcfg, h⟩ := System.exists_reachable hrun
  obtain ⟨⟨workerId, a, hproc⟩, hclaim, row, hrow, hs⟩ := ServiceConfig.exists_of_leftBehind h
  obtain ⟨row', hrow', hfin⟩ := hall cfg hcfg 1 workerId a 0 hproc hclaim
  rw [hrow] at hrow'
  obtain rfl := Option.some.inj hrow'
  rw [hs] at hfin
  cases hfin

end Concord
