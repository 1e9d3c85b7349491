import Concord.Execution.Settlement

/-!
# A worker and the execution it has claimed

What `_run_one` does with the execution, statement by statement. A failure leaves the worker with an
execution whose session is no longer its concern: if the run is known to end the sessions, it had none
that was open.
-/

namespace Concord

open Concord.Base Async ExecutionStatus QueueLog

variable {settles closes : Prop} {s : Settings} {t : Tables} {p : Pid} {r : Request} {g : Duty}
  {o : Op} {env : Env} {st st' : Service} {x : Except PyError o.Val} {payload : Payload}
  {status target : ExecutionStatus} {clear : Bool} {workerId : String}

/-- A started execution that is not finished stays a started one. -/
theorem ExecutionStatus.active_of_canTransition {s t : ExecutionStatus} (ha : s.active = true)
    (hct : s.canTransition t = true) (hf : t.finished = false) : t.active = true := by
  revert ha hct hf
  cases s <;> cases t <;> decide

namespace Duty

/-- The payload of the execution that the process runs, or whose session it ends. -/
def concern? : Duty → Option Payload
  | running payload _ _ | moving payload _ _ _ | closing payload _ => some payload
  | _ => none

/-- What is left of a duty when there is no session to end. -/
def cleared : Duty → Duty
  | running payload status _ => running payload status true
  | moving payload status target _ => moving payload status target true
  | closing _ _ => free
  | g => g

/-- What is left of a duty when the session's transaction is dropped. -/
def dropped : Duty → Duty
  | claiming _ => free
  | moving payload status _ clear => running payload status clear
  | closing payload _ => closing payload false
  | g => g

/-- What is left to do for an execution that was left in `status` and is finished. -/
def after (payload : Payload) (status : ExecutionStatus) (clear : Bool) : Duty :=
  if status = .running ∧ clear = false then closing payload false else free

@[simp] theorem after_clear : after payload status true = free := by simp [after]

theorem after_of_ne (h : status ≠ .running) : after payload status clear = free := by
  simp [after, h]

@[simp] theorem runs?_after : (after payload status clear).runs? = none := by
  unfold after
  split <;> rfl

@[simp] theorem cleared_after : (after payload status clear).cleared = free := by
  unfold after
  split <;> rfl

@[simp] theorem dropped_after : (after payload status clear).dropped = after payload status clear := by
  unfold after
  split <;> rfl

theorem Holds.took (h : g.Holds closes st p) (hg : g.concern? = some payload) :
    Took st p payload ∧ st.db.status? payload.executionId ≠ some queued := by
  cases g <;> first | (cases hg; done) | obtain rfl := Option.some.inj hg
  case running => exact ⟨h.2.1, h.2.2.2.1.not_queued h.2.2.1⟩
  case moving => exact ⟨h.1, h.2.2.2.1.not_queued h.2.1⟩
  case closing =>
    obtain ⟨-, ht, ⟨row, hrow, hf⟩, -⟩ := h
    refine ⟨ht, fun hq => ?_⟩
    have hq' : row.status = queued := by simpa [Database.status?, hrow] using hq
    rw [hq'] at hf
    cases hf

theorem Holds.visible (h : g.Holds closes st p) (hg : g.concern? = some payload) :
    ∃ row, st.db.visible p payload.executionId = some row := by
  cases g <;> first | (cases hg; done) | obtain rfl := Option.some.inj hg
  case running =>
    obtain ⟨hb, -, -, ⟨row, hrow, -⟩, -⟩ := h
    exact ⟨row, (hb.visible _).trans hrow⟩
  case moving =>
    obtain ⟨-, -, -, -, -, ⟨row, hrow, -⟩, -⟩ := h
    exact ⟨row, by simp [Database.visible, hrow]⟩
  case closing =>
    obtain ⟨hb, -, ⟨row, hrow, -⟩, -⟩ := h
    exact ⟨row, (hb.visible _).trans hrow⟩

theorem holds_after (hb : st.db.Blank p) (ht : Took st p payload)
    (hfin : ∃ row, st.db.executions payload.executionId = some row ∧ row.status.finished = true) :
    (after payload status clear).Holds closes st p := by
  unfold after
  split
  · exact ⟨hb, ht, hfin, fun h => nomatch h⟩
  · intro e row hrow
    rw [hb e] at hrow
    cases hrow

theorem Holds.cleared (h : g.Holds closes st p)
    (hclosed : ∀ payload, g.concern? = some payload → closes →
      st.db.SessionsClosed payload.executionId) : g.cleared.Holds closes st p := by
  cases g with
  | running payload status clear =>
    obtain ⟨hb, ht, ha, hl, -⟩ := h
    exact ⟨hb, ht, ha, hl, fun _ => hclosed payload rfl⟩
  | moving payload status target clear =>
    obtain ⟨ht, ha, hct, hl, -, hw⟩ := h
    exact ⟨ht, ha, hct, hl, fun _ => hclosed payload rfl, hw⟩
  | closing payload stopping =>
    intro e row hrow
    rw [h.1 e] at hrow
    cases hrow
  | _ => exact h

end Duty

namespace DutyInv

variable {gs : Pid → Duty} {c : Duty}

/-- The ghost value of `p` changes, and nothing else. -/
theorem shift (h : DutyInv settles closes st gs)
    (hruns : ∀ e row, (gs p).runs? = some e → st.db.executions e = some row →
      Pressing settles closes st e row → c.runs? = some e)
    (hcloses : closes → ∀ e row, (gs p).closes? = some e → st.db.executions e = some row →
      row.status.finished = true → ¬st.db.SessionsClosed e → c.closes? = some e)
    (hp : c.Holds closes st p) : DutyInv settles closes st (Function.update gs p c) :=
  h.own rfl rfl (fun _ _ => rfl) (fun _ hc => hc) hruns hcloses hp

/-- Where no session is open, none is to be ended. -/
theorem cleared (h : DutyInv settles closes st gs) (hg : gs p = g)
    (hclosed : ∀ payload, g.concern? = some payload → closes →
      st.db.SessionsClosed payload.executionId) :
    DutyInv settles closes st (Function.update gs p g.cleared) := by
  have hh := h.holds p
  rw [hg] at hh
  refine h.shift (fun e row he _ _ => ?_) (fun hcl e row he _ _ hopen => ?_) (hh.cleared hclosed)
  · rw [hg] at he
    cases g <;> exact he
  · rw [hg] at he
    cases g with
    | closing payload stopping =>
      obtain rfl := Option.some.inj he
      exact absurd (hclosed payload rfl hcl) hopen
    | _ => exact he

/-- A failure of a worker that it does not swallow. -/
theorem cleared_of_fault (h : DutyInv settles closes st gs) (hg : gs p = g)
    (hok : (dutyProtocol settles closes s t).ok st p r o env) (hf : env.fault ≠ .none)
    (hsw : o.swallowed = false) (hcommit : o ≠ .commit) :
    DutyInv settles closes st (Function.update gs p g.cleared) := by
  have hh := h.holds p
  rw [hg] at hh
  refine h.cleared hg fun payload hc hcl => ?_
  obtain ⟨ht, hq⟩ := hh.took hc
  exact closed_of_fault hok ht hq hf hsw hcommit hcl

/-- The worker sees that its execution is finished. -/
theorem released (h : DutyInv settles closes st gs) (hg : gs p = .running payload status clear)
    {row : Execution} (hrow : st.db.executions payload.executionId = some row)
    (hfin : row.status.finished = true) :
    DutyInv settles closes st (Function.update gs p (.after payload status clear)) := by
  have hh := h.holds p
  rw [hg] at hh
  obtain ⟨hb, ht, -, -, hclear⟩ := hh
  refine h.shift (fun e row' he hrow' hpr => ?_) (fun hcl e row' he _ _ hopen => ?_)
    (Duty.holds_after hb ht ⟨row, hrow, hfin⟩)
  · rw [hg] at he
    obtain rfl := Option.some.inj he
    rw [hrow] at hrow'
    obtain rfl := Option.some.inj hrow'
    have hactive := hpr.1
    cases hs : row.status <;> simp_all [ExecutionStatus.active, ExecutionStatus.finished]
  · rw [hg] at he
    by_cases hrun : status = .running
    · rw [Duty.closes?, if_pos hrun, Option.some.injEq] at he
      subst he
      cases clear with
      | true => exact absurd (hclear rfl hcl) hopen
      | false => rw [Duty.after, if_pos ⟨hrun, rfl⟩, Duty.closes?]
    · rw [Duty.closes?, if_neg hrun] at he
      cases he

/-- What comes of the worker's conditional update. -/
theorem updated (h : DutyInv settles closes st gs) (hg : gs p = .running payload status clear)
    (hct : status.canTransition target = true) {fields : StatusFields} {changed : Bool}
    {db : Database}
    (hu : st.db.updateWhere p payload.executionId (·.status = status) (·.set target fields) =
      some (changed, db)) :
    DutyInv settles closes { st with db := db } (Function.update gs p
      (if changed then .moving payload status target clear else .after payload status clear)) := by
  have hh := h.holds p
  rw [hg] at hh
  obtain ⟨hb, ht, ha, hl, hclear⟩ := hh
  rcases Database.updateWhere_eq_some hu with ⟨rfl, rfl⟩ | ⟨rfl, row, hv, -, -, rfl⟩
  · obtain ⟨row, hrow, hor⟩ := hl
    have hne := Database.not_of_updateWhere_false hu ((hb.visible _).trans hrow)
    rw [decide_eq_false_iff_not] at hne
    rcases hor with hs | ⟨hfin, -⟩
    · exact absurd hs hne
    · exact h.released hg hrow hfin
  · refine h.own rfl rfl (fun q hq => by simp [Database.write, hq]) (fun _ hc => hc)
      (fun e row he _ _ => ?_) (fun _ e row he _ _ _ => ?_)
      ⟨ht, ha, hct, hl, hclear, ⟨_, by simp [Database.write]; rfl, rfl⟩, fun e he => ?_⟩
    · rwa [hg] at he
    · rwa [hg] at he
    · by_contra hne
      exact he (by simp [Database.write, hne, hb e])

end DutyInv

section Operations

/-! ## Single operations -/

/-- An operation beside the rows whose failure the worker does not swallow. -/
theorem risky_duty (ho : o.touchesRows = false) (hsw : o.swallowed = false)
    (hval : g.cleared = g ∨ ∀ env st x st', o.run p env st = some (x, st') → ∃ a, x = .ok a) :
    (dutyProtocol settles closes s t).Triple p (.workerRound workerId) g (await o)
      (fun _ g' => g' = g) fun _ g' => g' = g.cleared := by
  have hcommit : o ≠ .commit := by
    rintro rfl
    cases ho
  refine Triple.fallible (Duty.Stands.worker _) (fun env st gs hinv hg hok x st' hx => ?_)
    (fun _ env st gs hinv hg hok hf => ?_) (fun _ env st gs hinv hg hok hf x st' hx => ?_)
  · refine ⟨g, ?_, ?_⟩
    · rw [← hg, Function.update_eq_self]
      exact DutyInv.aside hinv ho hx
    · rcases hval with hval | hval
      · cases x with
        | ok a => rfl
        | error e => exact hval.symm
      · obtain ⟨a, rfl⟩ := hval env st x st' hx
        rfl
  · exact ⟨_, DutyInv.cleared_of_fault hinv hg hok (by simp [hf]) hsw hcommit, rfl⟩
  · exact ⟨_, (DutyInv.cleared_of_fault hinv hg hok (by simp [hf]) hsw hcommit).aside ho hx, rfl⟩

/-- The worker reads the status of its execution. -/
theorem getExecution_duty (payload : Payload) :
    (dutyProtocol settles closes s t).Triple p (.workerRound workerId) (.running payload status clear)
      (await (.getExecution payload.executionId))
      (fun found g => ∃ row, found = some row ∧
        (row.status = status ∧ g = .running payload status clear ∨
          row.status.finished = true ∧ g = .after payload status clear))
      fun _ g => ¬settles ∧ g = .running payload status true := by
  refine Triple.fallible (Duty.Stands.worker _) (fun env st gs hinv hg hok x st' hx => ?_)
    (fun _ env st gs hinv hg hok hf => ?_) (fun _ env st gs hinv hg hok hf x st' hx => ?_)
  · cases hx
    have hh := DutyInv.holds hinv p
    rw [hg] at hh
    obtain ⟨hb, -, -, ⟨row, hrow, hor⟩, -⟩ := hh
    have hv : st.db.visible p payload.executionId = some row := (hb.visible _).trans hrow
    rcases hor with hs | ⟨hfin, -⟩
    · refine ⟨.running payload status clear, ?_, row, hv, .inl ⟨hs, rfl⟩⟩
      rwa [← hg, Function.update_eq_self]
    · exact ⟨_, DutyInv.released hinv hg hrow hfin, row, hv, .inr ⟨hfin, rfl⟩⟩
  · exact ⟨_, DutyInv.cleared_of_fault hinv hg hok (by simp [hf]) rfl (by simp),
      settles_of_fault hok rfl (by simp [hf]), rfl⟩
  · cases hx
    exact ⟨_, DutyInv.cleared_of_fault hinv hg hok (by simp [hf]) rfl (by simp),
      settles_of_fault hok rfl (by simp [hf]), rfl⟩

theorem updateStatus_duty (hct : status.canTransition target = true) (fields : StatusFields) :
    (dutyProtocol settles closes s t).Triple p (.workerRound workerId) (.running payload status clear)
      (await (.updateStatus payload.executionId status target fields))
      (fun changed g => g =
        if changed then .moving payload status target clear else .after payload status clear)
      fun _ g => ¬settles ∧
        (g = .running payload status true ∨ g = .moving payload status target true) := by
  refine Triple.fallible (Duty.Stands.worker _) (fun env st gs hinv hg hok x st' hx => ?_)
    (fun _ env st gs hinv hg hok hf => ?_) (fun _ env st gs hinv hg hok hf x st' hx => ?_)
  · obtain ⟨changed, db, hu, rfl, rfl⟩ := Op.run_updateStatus hx
    exact ⟨_, DutyInv.updated hinv hg hct hu, rfl⟩
  · exact ⟨_, DutyInv.cleared_of_fault hinv hg hok (by simp [hf]) rfl (by simp),
      settles_of_fault hok rfl (by simp [hf]), .inl rfl⟩
  · have hclear := DutyInv.cleared_of_fault hinv hg hok (by simp [hf]) rfl (by simp)
    have hsettles := settles_of_fault hok rfl (by simp [hf])
    obtain ⟨changed, db, hu, -, rfl⟩ := Op.run_updateStatus hx
    cases changed with
    | true =>
      have hmoved := hclear.updated (Function.update_self _ _ _) hct hu
      rw [Function.update_idem] at hmoved
      exact ⟨_, hmoved, hsettles, .inr rfl⟩
    | false =>
      rcases Database.updateWhere_eq_some hu with ⟨-, rfl⟩ | ⟨h, -⟩
      · exact ⟨_, hclear, hsettles, .inl rfl⟩
      · cases h

/-- The worker refreshes the row of its execution. -/
theorem refresh_duty (hg : g.concern? = some payload) :
    (dutyProtocol settles closes s t).Triple p (.workerRound workerId) g
      (await (.refresh payload.executionId)) (fun _ g' => g' = g)
      fun _ g' => ¬settles ∧ g' = g.cleared := by
  refine Triple.fallible (Duty.Stands.worker _) (fun env st gs hinv hp hok x st' hx => ?_)
    (fun _ env st gs hinv hp hok hf => ?_) (fun _ env st gs hinv hp hok hf x st' hx => ?_)
  · have hh := DutyInv.holds hinv p
    rw [hp] at hh
    obtain ⟨row, hrow⟩ := hh.visible hg
    simp only [Op.run, hrow] at hx
    cases hx
    refine ⟨_, ?_, rfl⟩
    rwa [← hp, Function.update_eq_self]
  · exact ⟨_, DutyInv.cleared_of_fault hinv hp hok (by simp [hf]) rfl (by simp),
      settles_of_fault hok rfl (by simp [hf]), rfl⟩
  · obtain rfl := Op.run_reads rfl hx
    exact ⟨_, DutyInv.cleared_of_fault hinv hp hok (by simp [hf]) rfl (by simp),
      settles_of_fault hok rfl (by simp [hf]), rfl⟩

/-- The commit of the worker's transition. -/
theorem DutyInv.commit_moving {gs : Pid → Duty} (clear' : Bool) (h : DutyInv settles closes st gs)
    (hg : gs p = .moving payload status target clear) (ho : Origins st)
    {owed : SessionId → Owed} (hlog : LogInv st.db owed) (hgrace : DutyInv.Graceful closes st p)
    (hclear : clear' = true → closes → (st.db.commit p).SessionsClosed payload.executionId) :
    DutyInv settles closes { st with db := st.db.commit p } (Function.update gs p
      (if target.finished then .after payload status clear' else .running payload target clear')) := by
  have hh := h.holds p
  rw [hg] at hh
  obtain ⟨ht, ha, hct, ⟨row, hrow, hor⟩, -, ⟨row', htx, hs'⟩, honly⟩ := hh
  have hv : st.db.visible p payload.executionId = some row' := by simp [Database.visible, htx]
  have hmine : ∀ e, (gs p).runs? = some e ∨ (∃ row, (st.db.tx p).executions e = some row) →
      e = payload.executionId := by
    rintro e (he | ⟨row, he⟩)
    · rw [hg] at he
      exact (Option.some.inj he).symm
    · exact honly e (by simp [he])
  have hblank : (st.db.commit p).Blank p := Database.blank_commit
  refine h.commit ho hlog hgrace (fun e row₁ he => ?_) (fun e row₁ hv₁ he hpr => ?_)
    (fun hcl e row₁ hv₁ hfin hopen he => ?_) ?_
  · exact .inr (.inr ⟨payload, ht, (honly e (by simp [he])).symm⟩)
  · obtain rfl := hmine e he
    rw [hv] at hv₁
    obtain rfl := Option.some.inj hv₁
    have hactive := hpr.1
    rw [hs'] at hactive
    have hunf : target.finished = false := by
      cases target <;> first | rfl | cases hactive
    rw [hunf]
    rfl
  · have hmoves : (gs p).closes? = some e → (gs p).runs? = some e := by
      rw [hg]
      intro hc
      by_cases hrun : status = .running
      · rwa [Duty.closes?, if_pos hrun] at hc
      · rw [Duty.closes?, if_neg hrun] at hc
        cases hc
    obtain rfl := hmine e (.inl (he.elim hmoves id))
    rw [hv] at hv₁
    obtain rfl := Option.some.inj hv₁
    have hopen' : ¬(st.db.SessionsClosed payload.executionId ∨
        st.db.stopsSessions p payload.executionId = true) :=
      fun hc => hopen (DutyInv.closed_commit ho (by simp [hrow]) hc)
    rw [not_or, Bool.not_eq_true] at hopen'
    have hrun : status = .running := by
      rcases hor with hs | ⟨-, hrun | hc⟩
      · have hunf : row.status.finished = false := by
          rw [hs]
          cases status <;> first | rfl | cases ha
        rw [← hs]
        exact hgrace hcl _ row row' htx hfin hrow hunf hopen'.1 hopen'.2
      · exact hrun
      · exact absurd (hc hcl) hopen'.1
    have hkept : clear' = false := by
      rw [← Bool.not_eq_true]
      exact fun hc => hopen (hclear hc hcl)
    rw [hs'] at hfin
    rw [if_pos hfin, Duty.after, if_pos ⟨hrun, hkept⟩, Duty.closes?]
  · cases hfin : target.finished with
    | true => exact Duty.holds_after hblank ht ⟨row', hv, hs' ▸ hfin⟩
    | false =>
      have hactive : target.active = true := active_of_canTransition ha hct hfin
      exact ⟨hblank, ht, hactive, ⟨row', hv, .inl hs'⟩, hclear⟩

theorem commit_moving_duty :
    (dutyProtocol settles closes s t).Triple p (.workerRound workerId)
      (.moving payload status target clear) (await .commit)
      (fun _ g => g =
        if target.finished then .after payload status clear else .running payload target clear)
      fun _ g => ¬settles ∧ (g = .moving payload status target true ∨
        g = if target.finished then .free else .running payload target true) := by
  refine Triple.faulting (Duty.Stands.worker _) (fun env st gs hinv hg hok hf x st' hx => ?_)
    (fun _ env st gs hinv hg hok hf => ?_) (fun _ env st gs hinv hg hok hf x st' hx => ?_)
  · cases hx
    have hh := DutyInv.holds hinv p
    rw [hg] at hh
    have hgrace := graceful_of_ok hok (by rcases hf with hf | hf <;> simp_all [Op.target])
    obtain ⟨-, -, ho, owed, hlog⟩ := hok
    obtain ⟨ht, -, -, ⟨row, hrow, -⟩, hclear, -⟩ := hh
    refine ⟨_, DutyInv.commit_moving _ hinv hg ho hlog hgrace fun hc hcl => ?_, rfl⟩
    exact DutyInv.closed_commit ho (by simp [hrow]) (.inl (hclear hc hcl))
  · have hh := DutyInv.holds hinv p
    rw [hg] at hh
    obtain ⟨ht, hq⟩ := hh.took rfl
    refine ⟨_, DutyInv.cleared hinv hg fun payload' hc hcl => ?_,
      settles_of_fault hok rfl (by simp [hf]), .inl rfl⟩
    obtain rfl := Option.some.inj hc
    exact closed_of_commit_fault hok ht hq (by simp [hf]) (.inl hf) hcl
  · cases hx
    have hh := DutyInv.holds hinv p
    rw [hg] at hh
    obtain ⟨ht, hq⟩ := hh.took rfl
    obtain ⟨-, -, -, ⟨row, hrow, -⟩, -⟩ := hh
    have hgrace := graceful_of_ok hok (by simp [hf])
    have hsettles := settles_of_fault hok rfl (by simp [hf])
    have hclosed : closes → (st.db.commit p).SessionsClosed payload.executionId := by
      intro hcl
      refine DutyInv.closed_commit hok.2.2.1 (by simp [hrow]) ?_
      cases hs : st.db.stopsSessions p payload.executionId with
      | true => exact .inr rfl
      | false => exact .inl (closed_of_commit_fault hok ht hq (by simp [hf]) (.inr hs) hcl)
    obtain ⟨-, -, ho, owed, hlog⟩ := hok
    refine ⟨_, DutyInv.commit_moving true hinv hg ho hlog hgrace fun _ => hclosed,
      hsettles, .inr ?_⟩
    rw [Duty.after_clear]

/-- The end of a session of the worker. -/
theorem close_duty {E : PyError → Duty → Prop} :
    (dutyProtocol settles closes s t).Triple p (.workerRound workerId) g (await .close)
      (fun _ g' => g' = g.dropped) E := by
  refine Triple.fallible (Duty.Stands.worker _) (fun env st gs hinv hg hok x st' hx => ?_)
    (fun h => absurd rfl h) fun h => absurd rfl h
  have hh := DutyInv.holds hinv p
  rw [hg] at hh
  have hstep := hx
  cases hx
  have hblank : (st.db.rollback p).Blank p := fun e => by simp [Database.rollback]
  refine ⟨_, DutyInv.step hinv (by simp) hstep (fun e row he _ _ => ?_)
    (fun _ e row he _ _ _ => ?_) ?_, rfl⟩
  · rw [hg] at he
    cases g <;> exact he
  · rw [hg] at he
    cases g <;> exact he
  · cases g with
    | free =>
      intro e row hrow
      rw [hblank e] at hrow
      cases hrow
    | claiming payload =>
      intro e row hrow
      rw [hblank e] at hrow
      cases hrow
    | scanned waiting => exact ⟨hblank, hh.2⟩
    | holding payload => exact ⟨hblank, hh.2⟩
    | running payload status clear => exact ⟨hblank, hh.2⟩
    | moving payload status target clear =>
      obtain ⟨ht, ha, -, hl, hc, -⟩ := hh
      exact ⟨hblank, ht, ha, hl, hc⟩
    | closing payload stopping =>
      obtain ⟨-, ht, hfin, -⟩ := hh
      exact ⟨hblank, ht, hfin, by rintro ⟨⟩⟩

theorem withSession_duty {α : Type} {x : Py α} {Q : α → Duty → Prop} {E : PyError → Duty → Prop}
    (h : (dutyProtocol settles closes s t).Triple p (.workerRound workerId) g x
      (fun a g' => Q a g'.dropped) fun e g' => E e g'.dropped) :
    (dutyProtocol settles closes s t).Triple p (.workerRound workerId) g (withSession x) Q E := by
  refine h.andFinally (fun a g' hQ => ?_) fun e g' hE => ?_
  · exact close_duty.mono (fun _ _ hg => hg ▸ hQ) fun _ _ hE => hE
  · exact close_duty.mono (fun _ _ hg => hg ▸ hE) fun _ _ hE => hE

end Operations

end Concord
