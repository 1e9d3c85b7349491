import Concord.Base.Journal
import Concord.Execution.Footprint
import Concord.Execution.History

/-!
# What a process of the service may rely on

Between two operations of a process the others leave its transaction alone, and the committed status of an
execution stays or moves on along the transition table.
-/

namespace Concord

open Concord.Base ExecutionStatus

/-! ## Statuses move on -/

/-- No status is taken back from one database to the other. -/
def Database.Onward (db db' : Database) : Prop :=
  ∀ e, db'.status? e = db.status? e ∨ progress (db.status? e) < progress (db'.status? e)

namespace Database.Onward

variable {db db' db'' : Database} {e : ExecutionId} {status : ExecutionStatus}

theorem refl (db : Database) : db.Onward db := fun _ => .inl rfl

theorem trans (h : db.Onward db') (h' : db'.Onward db'') : db.Onward db'' := by
  intro e
  rcases h e with hsame | hlt
  · rw [← hsame]
    exact h' e
  · rcases h' e with hsame | hlt'
    · rw [hsame]
      exact .inr hlt
    · exact .inr (Nat.lt_trans hlt hlt')

/-- A row does not go away, nor back. -/
theorem exists_of_some (h : db.Onward db') (hs : db.status? e = some status) :
    ∃ status', db'.status? e = some status' ∧ (status' = status ∨ status.rank < status'.rank) := by
  rcases h e with hsame | hlt
  · exact ⟨status, hsame.trans hs, .inl rfl⟩
  · rw [hs] at hlt
    cases hs' : db'.status? e with
    | none =>
      rw [hs'] at hlt
      exact absurd hlt (Nat.not_lt_zero _)
    | some status' =>
      rw [hs'] at hlt
      exact ⟨status', rfl, .inr (Nat.lt_of_succ_lt_succ hlt)⟩

end Database.Onward

theorem ExecutionStatus.rank_le (s : ExecutionStatus) : s.rank ≤ 4 := by
  cases s <;> decide

theorem ExecutionStatus.finished_iff_rank {s : ExecutionStatus} : s.finished = true ↔ s.rank = 4 := by
  cases s <;> decide

/-- Of two unfinished statuses with one rank there is only one. -/
theorem ExecutionStatus.rank_lt_of_ne {s t : ExecutionStatus} (h : s.finished = false) (hle : s.rank ≤ t.rank)
    (hne : t ≠ s) : s.rank < t.rank := by
  cases s <;> cases t <;> simp_all [finished, rank]

theorem ExecutionStatus.progress_of_trail {status status' : Option ExecutionStatus} {l : List Move}
    (h : Trail Step status l status') : status' = status ∨ progress status < progress status' := by
  cases l with
  | nil => exact .inl h.symm
  | cons move l =>
    obtain ⟨from_, to_⟩ := move
    obtain ⟨rfl, hstep, hrest⟩ := h
    exact .inr (Nat.lt_of_lt_of_le (progress_lt_of_step _ _ hstep) (hrest.rank_le progress_lt_of_step))

section Service

variable {s : Settings} {t : Tables} {cfg cfg' : ServiceConfig}

theorem onward_of_path (h : (service s t).system.Reachable cfg)
    (hp : (service s t).system.Path System.anyStep cfg cfg') : cfg.shared.db.Onward cfg'.shared.db := by
  intro e
  obtain ⟨owed, hinv⟩ := logInv_of_reachable h
  obtain ⟨owed', hinv'⟩ := logInv_of_reachable (h.trans hp)
  obtain ⟨more, hmore⟩ := events_prefix hp
  have hlog := hinv.committed e
  have hlog' := hinv'.committed e
  rw [← hmore, movesOf_append] at hlog'
  obtain ⟨mid, hmid, hrest⟩ := Trail.append_iff.1 hlog'
  obtain rfl := hlog.end_unique hmid
  exact progress_of_trail hrest

theorem onward_of_step {l : Label Env Request} (h : (service s t).system.Reachable cfg)
    (hs : (service s t).step cfg l = some cfg') : cfg.shared.db.Onward cfg'.shared.db :=
  onward_of_path h (System.Path.tail Relation.ReflTransGen.refl trivial hs)

/-! ## One process -/

/-- What process `p` relies on. -/
def relyOn (p : Pid) : Rely Service where
  known st := ∃ owed, LogInv st.db owed
  step st st' := st'.db.tx p = st.db.tx p ∧ st.db.Onward st'.db
  refl _ := ⟨rfl, .refl _⟩
  trans h h' := ⟨h'.1.trans h.1, h.2.trans h'.2⟩

/-- The service, keeping a journal. -/
abbrev journal (s : Settings) (t : Tables) := (service s t).journaled

/-- A configuration of the service with its journal. -/
abbrev JournalConfig :=
  Config Op (fun o => Except PyError o.Val)
    (Service × List (JournalEntry Op (fun o => Except PyError o.Val) Service)) Request (Except PyError Outcome)

theorem exec_tx_of_ne {p q : Pid} {env : Env} {st st' : Service} {o : Op} {x : Except PyError o.Val}
    (h : Op.exec q env st o = some (x, st')) (hq : p ≠ q) : st'.db.tx p = st.db.tx p := by
  rcases Op.exec_eq_some h with hx | ⟨-, -, ⟨-, rfl⟩ | ⟨-, y, hy⟩⟩
  · exact Op.run_tx_of_ne hx hq
  · rfl
  · exact Op.run_tx_of_ne hy hq

/-- What a process sees in a run of the service. -/
theorem sees_of_journal {cfg : JournalConfig} (h : (journal s t).system.Reachable cfg) {p : Pid} {r : Request}
    {rest : Program Op (fun o => Except PyError o.Val) (Except PyError Outcome)}
    (hp : cfg.procs p = some ⟨r, rest⟩) :
    (relyOn p).Sees (service s t) p (r.program s).run (service s t).init
      (cfg.shared.2.filter (·.pid = p)) rest cfg.shared.1 := by
  refine Rely.sees_of_reachable (fun cfg hcfg => logInv_of_reachable hcfg) ?_ h hp
  intro cfg q c cfg' hcfg hq hstep
  refine ⟨?_, onward_of_step hcfg hstep⟩
  obtain ⟨r, o, k, x, st, -, hexec, rfl⟩ := Machine.step_run.1 hstep
  exact exec_tx_of_ne hexec (Ne.symm hq)

end Service

end Concord
