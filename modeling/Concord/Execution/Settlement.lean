import Concord.Execution.Duty

/-!
# Workers do their duty

The programs of the service follow the protocol of duties. A worker's duty is discharged by its own
final transition, by whoever finishes the execution before it, and for an open session by the commit
that stops it; a failure in between leaves it with an execution that it still settles in its `except`
clauses. The two conditions on a run that the protocol can make use of are stated first.
-/

namespace Concord

open Concord.Base Async ExecutionStatus QueueLog

/-- The database does not fail. -/
def databaseAvailable (o : Op) (env : Env) : Prop := o.target = .database → env.fault = .none

/-- The news that an execution is starting, which `_run_one` publishes before its `try`, gets through,
unless the execution has been finished by then. -/
def announced (st : Service) : Op → Env → Prop
  | .publish (.exec _ (.executionStatus id .starting)), env =>
    env.fault = .none ∨ (st.db.executions id).any (·.status.finished) = true
  | _, _ => True

/-- Nothing keeps a worker from settling what it has claimed. -/
def runsSettled (st : Service) (_ : Pid) (_ : Request) (o : Op) (env : Env) : Prop :=
  databaseAvailable o env ∧ announced st o env

instance (o : Op) (env : Env) : Decidable (databaseAvailable o env) :=
  inferInstanceAs (Decidable (_ → _))

instance (st : Service) (o : Op) (env : Env) : Decidable (announced st o env) := by
  unfold announced
  split <;> infer_instance

instance (st : Service) (p : Pid) (r : Request) (o : Op) (env : Env) :
    Decidable (runsSettled st p r o env) :=
  inferInstanceAs (Decidable (_ ∧ _))

/-- The operations of a worker whose failure it logs, and goes on. -/
def Op.swallowed : Op → Bool
  | subscribe (.cancel _) | unsubscribe (.debugCommand _) | getActive _ | delActive _
  | delState _ => true
  | _ => false

/-- The commit of `p` gives execution `e` its final status. -/
def Database.finishes (db : Database) (p : SessionId) (e : ExecutionId) : Bool :=
  ((db.tx p).executions e).any (·.status.finished) && (db.executions e).any (!·.status.finished)

/-- A commit that finishes an execution ends its session too, or the execution is running: then its
worker ends the session. -/
def finishesGracefully (st : Service) (p : Pid) (o : Op) (env : Env) (e : ExecutionId) : Prop :=
  o = .commit → env.fault ≠ .before → st.db.finishes p e = true →
    st.db.stopsSessions p e = false → st.db.status? e = some running

/-- The worker of a claimed execution does not fail until it has ended the session, but for what it
swallows. -/
def workerKept (st : Service) (p : Pid) (o : Op) (env : Env) (e : ExecutionId) : Prop :=
  (p, .hdel e true) ∈ st.redis.log → st.db.status? e ≠ some queued → env.fault ≠ .none →
    o.swallowed = true ∨ o = .commit ∧ env.fault = .after ∧ st.db.stopsSessions p e = true

/-- Nothing takes from an open session whoever would end it. -/
def sessionsKept (st : Service) (p : Pid) (_ : Request) (o : Op) (env : Env) : Prop :=
  ∀ e < st.db.nextExecution, st.db.sessionOpen e = true →
    finishesGracefully st p o env e ∧ workerKept st p o env e

instance (st : Service) (p : Pid) (o : Op) (env : Env) (e : ExecutionId) :
    Decidable (finishesGracefully st p o env e) :=
  inferInstanceAs (Decidable (_ → _))

instance (st : Service) (p : Pid) (o : Op) (env : Env) (e : ExecutionId) :
    Decidable (workerKept st p o env e) :=
  inferInstanceAs (Decidable (_ → _))

instance (st : Service) (p : Pid) (r : Request) (o : Op) (env : Env) :
    Decidable (sessionsKept st p r o env) :=
  inferInstanceAs (Decidable (∀ e < _, _ → _))

/-- Somebody who has an execution to run or a session to end is a worker. -/
def Duty.Stands (r : Request) (g : Duty) : Prop :=
  g.runs? ≠ none ∨ g.closes? ≠ none → ∃ workerId, r = .workerRound workerId

/-- The protocol of duties. The origins and the event log are known of every reachable
configuration. -/
def dutyProtocol (settles closes : Prop) (s : Settings) (t : Tables) :
    Protocol (service s t) Duty where
  Inv := DutyInv settles closes
  At _ r g _ := g.Stands r
  ok st p r o env := (settles → runsSettled st p r o env) ∧ (closes → sessionsKept st p r o env) ∧
    Origins st ∧ ∃ owed, LogInv st.db owed

theorem Duty.Stands.worker {workerId : String} (g : Duty) : g.Stands (.workerRound workerId) :=
  fun _ => ⟨workerId, rfl⟩

theorem Duty.Stands.idle {r : Request} {g : Duty} (hr : g.runs? = none) (hc : g.closes? = none) :
    g.Stands r :=
  fun h => h.elim (absurd hr) (absurd hc)

section Operations

variable {settles closes : Prop} {s : Settings} {t : Tables} {p : Pid} {r : Request} {g : Duty}
  {o : Op} {env : Env} {st st' : Service} {x : Except PyError o.Val}

/-! ## What the conditions say to one process -/

theorem settles_of_fault (hok : (dutyProtocol settles closes s t).ok st p r o env)
    (hdb : o.target = .database) (hf : env.fault ≠ .none) : ¬settles :=
  fun hs => hf ((hok.1 hs).1 hdb)

/-- An execution with a session has an id that was given out. -/
theorem lt_of_open (hok : (dutyProtocol settles closes s t).ok st p r o env) {e : ExecutionId}
    (hopen : st.db.sessionOpen e = true) : e < st.db.nextExecution := by
  obtain ⟨-, -, ho, owed, hlog⟩ := hok
  by_contra hlt
  simp only [Database.sessionOpen, List.any_eq_true, Bool.and_eq_true, decide_eq_true_eq] at hopen
  obtain ⟨ds, hds, rfl, -⟩ := hopen
  exact ho.known ds hds (hlog.fresh _ (Nat.le_of_not_lt hlt)).1

/-- A worker that fails has no open session to end. -/
theorem closed_of_fault (hok : (dutyProtocol settles closes s t).ok st p r o env)
    {payload : Payload} (ht : Took st p payload)
    (hq : st.db.status? payload.executionId ≠ some queued) (hf : env.fault ≠ .none)
    (hsw : o.swallowed = false) (hcommit : o ≠ .commit) (hcl : closes) :
    st.db.SessionsClosed payload.executionId := by
  rw [← Database.sessionOpen_eq_false, ← Bool.not_eq_true]
  intro hopen
  have h := ((hok.2.1 hcl) _ (lt_of_open hok hopen) hopen).2 ht.1 hq hf
  rcases h with h | ⟨h, -⟩
  · rw [hsw] at h
    cases h
  · exact hcommit h

/-- A worker whose commit fails has no open session to end, if it failed before or ends none. -/
theorem closed_of_commit_fault (hok : (dutyProtocol settles closes s t).ok st p r .commit env)
    {payload : Payload} (ht : Took st p payload)
    (hq : st.db.status? payload.executionId ≠ some queued) (hf : env.fault ≠ .none)
    (hor : env.fault = .before ∨ st.db.stopsSessions p payload.executionId = false)
    (hcl : closes) : st.db.SessionsClosed payload.executionId := by
  rw [← Database.sessionOpen_eq_false, ← Bool.not_eq_true]
  intro hopen
  have h := ((hok.2.1 hcl) _ (lt_of_open hok hopen) hopen).2 ht.1 hq hf
  rcases h with h | ⟨-, hafter, hstops⟩
  · cases h
  · rcases hor with hb | hs
    · rw [hb] at hafter
      cases hafter
    · rw [hs] at hstops
      cases hstops

/-- What `sessionsKept` says of a commit that goes through. -/
theorem graceful_of_ok (hok : (dutyProtocol settles closes s t).ok st p r .commit env)
    (hf : env.fault ≠ .before) : DutyInv.Graceful closes st p := by
  intro hcl e row row' htx hfin' hrow hfin hopen hstops
  rw [← Database.sessionOpen_eq_false, Bool.not_eq_false] at hopen
  have h := ((hok.2.1 hcl) e (lt_of_open hok hopen) hopen).1 rfl hf ?_ hstops
  · simpa [Database.status?, hrow] using h
  · simp [Database.finishes, htx, hrow, hfin', hfin]

theorem LeftIn.not_queued {e : ExecutionId} {status : ExecutionStatus}
    (h : LeftIn closes st e status) (ha : status.active = true) :
    st.db.status? e ≠ some queued := by
  obtain ⟨row, hrow, hor⟩ := h
  intro hq
  have hq' : row.status = queued := by simpa [Database.status?, hrow] using hq
  rcases hor with hs | ⟨hf, -⟩
  · rw [← hs, hq'] at ha
    cases ha
  · rw [hq'] at hf
    cases hf

/-! ## Operations beside the rows -/

theorem Duty.Holds.aside (h : g.Holds closes st p) (ho : o.touchesRows = false)
    (hx : o.run p env st = some (x, st')) : g.Holds closes st' p := by
  obtain ⟨hrows, htx, -, hlog⟩ := Op.run_beside ho hx
  have hend : o ≠ .commit ∧ o ≠ .rollback ∧ o ≠ .close := by
    refine ⟨?_, ?_, ?_⟩ <;> (rintro rfl; cases ho)
  have hsessions := (Op.run_committed hend.1 hx).2.2
  have hb : st.db.Blank p → st'.db.Blank p := fun hb e => by
    rw [htx]
    exact hb e
  have hc : ∀ e, st.db.SessionsClosed e → st'.db.SessionsClosed e := fun e hc => by
    unfold Database.SessionsClosed
    rw [hsessions]
    exact hc
  have ht : ∀ payload, Took st p payload → Took st' p payload :=
    fun payload ht => ht.mono fun c hc => hlog ▸ hc
  have hl : ∀ e status, LeftIn closes st e status → LeftIn closes st' e status := by
    rintro e status ⟨row, hrow, hor⟩
    exact ⟨row, hrows ▸ hrow, hor.imp_right fun ⟨hf, hev⟩ =>
      ⟨hf, hev.imp_right fun hc' hcl => hc e (hc' hcl)⟩⟩
  have hw : ∀ e status, st.db.WritesOnly p e status → st'.db.WritesOnly p e status := by
    intro e status hw
    unfold Database.WritesOnly
    rw [htx]
    exact hw
  cases g with
  | free =>
    intro e row hrow
    rw [htx] at hrow
    exact h e row hrow
  | scanned waiting => exact ⟨hb h.1, hlog ▸ h.2⟩
  | holding payload => exact ⟨hb h.1, ht _ h.2⟩
  | claiming payload => exact ⟨ht _ h.1, hw _ _ h.2⟩
  | running payload status clear =>
    exact ⟨hb h.1, ht _ h.2.1, h.2.2.1, hl _ _ h.2.2.2.1, fun hcr hcl => hc _ (h.2.2.2.2 hcr hcl)⟩
  | moving payload status target clear =>
    obtain ⟨h₁, h₂, h₃, h₄, h₅, h₆⟩ := h
    exact ⟨ht _ h₁, h₂, h₃, hl _ _ h₄, fun hcr hcl => hc _ (h₅ hcr hcl), hw _ _ h₆⟩
  | closing payload stopping =>
    obtain ⟨h₁, h₂, h₃, h₄⟩ := h
    refine ⟨hb h₁, ht _ h₂, hrows ▸ h₃, fun hs => ?_⟩
    obtain ⟨w, hw, hstop⟩ := List.any_eq_true.1 (h₄ hs)
    exact List.any_eq_true.2 ⟨w, Op.run_debugWrites hend hx hw, hstop⟩

/-- A step beside the rows, after which the duty of `p` is as much as it was. -/
theorem DutyInv.aside {gs : Pid → Duty} (h : DutyInv settles closes st gs)
    (ho : o.touchesRows = false) (hx : o.run p env st = some (x, st')) :
    DutyInv settles closes st' gs := by
  obtain ⟨hrows, -, -, hlog⟩ := Op.run_beside ho hx
  have hcommit : o ≠ .commit := by
    rintro rfl
    cases ho
  have hrun := h.own (p := p) (c := gs p) hrows (Op.run_committed hcommit hx).2.2
    (fun q hq => Op.run_tx_of_ne hx hq) (fun c hc => hlog ▸ hc) (fun _ _ hr _ _ => hr)
    (fun _ _ _ hc _ _ _ => hc) ((h.holds p).aside ho hx)
  rwa [Function.update_eq_self] at hrun

theorem aside_duty (hs : g.Stands r) (ho : o.touchesRows = false) :
    (dutyProtocol settles closes s t).Steady p r g (await o) :=
  Steady.operation hs fun _ _ _ hinv _ _ _ _ hx => DutyInv.aside hinv ho hx

theorem reading_duty (hs : g.Stands r) (o : Op) (ho : o.reads = true) :
    (dutyProtocol settles closes s t).Steady p r g (await o) :=
  aside_duty hs (Op.touchesRows_of_reads ho)

/-- An operation within the process does not fail. -/
theorem certain_duty {E : PyError → Duty → Prop} (hs : g.Stands r) (ht : o.target = .inProcess)
    (ho : o.touchesRows = false)
    (hval : ∀ env st x st', o.run p env st = some (x, st') → ∃ a, x = .ok a) :
    (dutyProtocol settles closes s t).Triple p r g (await o) (fun _ g' => g' = g) E := by
  refine Triple.fallible hs (fun env st gs hinv hg _ x st' hx => ?_) (fun h => absurd ht h)
    fun h => absurd ht h
  obtain ⟨a, rfl⟩ := hval env st x st' hx
  refine ⟨g, ?_, rfl⟩
  rw [← hg, Function.update_eq_self]
  exact DutyInv.aside hinv ho hx

theorem clock_duty {E : PyError → Duty → Prop} (hs : g.Stands r) :
    (dutyProtocol settles closes s t).Triple p r g (await .clock) (fun _ g' => g' = g) E :=
  certain_duty hs rfl rfl fun _ _ _ _ hx => by
    cases hx
    exact ⟨_, rfl⟩

theorem addEvent_duty (id : ExecutionId) (payload : EventPayload) {E : PyError → Duty → Prop}
    (hs : g.Stands r) :
    (dutyProtocol settles closes s t).Triple p r g (await (.addEvent id payload))
      (fun _ g' => g' = g) E :=
  certain_duty hs rfl rfl fun _ _ _ _ hx => by
    cases hx
    exact ⟨_, rfl⟩

/-! ## A process that runs nothing -/

/-- A step of `p` that commits nothing; it may drop a duty that is not pressing. -/
theorem DutyInv.step {gs : Pid → Duty} {c : Duty} (h : DutyInv settles closes st gs)
    (hcommit : o ≠ .commit) (hx : o.run p env st = some (x, st'))
    (hruns : ∀ e row, (gs p).runs? = some e → st.db.executions e = some row →
      Pressing settles closes st e row → c.runs? = some e)
    (hcloses : closes → ∀ e row, (gs p).closes? = some e → st.db.executions e = some row →
      row.status.finished = true → ¬st.db.SessionsClosed e → c.closes? = some e)
    (hp : c.Holds closes st' p) : DutyInv settles closes st' (Function.update gs p c) := by
  obtain ⟨hrows, -, hsessions⟩ := Op.run_committed hcommit hx
  exact h.own hrows hsessions (fun q hq => Op.run_tx_of_ne hx hq) (fun _ => Op.run_log hx) hruns
    hcloses hp

/-- A step that commits nothing, of a process that has no execution to finish and no session to
end. -/
theorem DutyInv.light {gs : Pid → Duty} {c : Duty} (h : DutyInv settles closes st gs)
    (hg : gs p = g) (hr : g.runs? = none) (hc : g.closes? = none) (hcommit : o ≠ .commit)
    (hx : o.run p env st = some (x, st')) (hp : c.Holds closes st' p) :
    DutyInv settles closes st' (Function.update gs p c) := by
  refine h.step hcommit hx (fun e row he _ _ => ?_) (fun _ e row he _ _ _ => ?_) hp
  · rw [hg, hr] at he
    cases he
  · rw [hg, hc] at he
    cases he

/-- A step that commits nothing, of a process that runs nothing. -/
theorem DutyInv.free {gs : Pid → Duty} (h : DutyInv settles closes st gs) (hg : gs p = .free)
    (hcommit : o ≠ .commit) (hx : o.run p env st = some (x, st'))
    (hp : Duty.free.Holds closes st' p) : DutyInv settles closes st' gs := by
  have hstep := h.light hg rfl rfl hcommit hx hp
  rwa [← hg, Function.update_eq_self] at hstep

/-- The commit of a process that has finished some executions, or queued one. -/
theorem commit_free :
    (dutyProtocol settles closes s t).Steady p r .free (await .commit) := by
  have hcommit : ∀ (env : Env) (st : Service) (gs : Pid → Duty), DutyInv settles closes st gs →
      gs p = .free → (dutyProtocol settles closes s t).ok st p r .commit env →
      env.fault ≠ .before →
      DutyInv settles closes { st with db := st.db.commit p } (Function.update gs p .free) := by
    intro env st gs hinv hg hok hf
    have hgrace := graceful_of_ok hok hf
    obtain ⟨-, -, ho, owed, hlog⟩ := hok
    have hh := hinv.holds p
    rw [hg] at hh
    refine hinv.commit ho hlog hgrace (fun e row' htx => (hh e row' htx).imp_right .inl)
      (fun e row' hv hor hpr => ?_) (fun _ e row' _ _ _ hor => ?_) fun e row hrow => ?_
    · rcases hor with hr | ⟨row, htx⟩
      · rw [hg] at hr
        cases hr
      · obtain rfl : row = row' := by simpa [Database.visible, htx] using hv
        have hactive := hpr.1
        rcases hh e row htx with hq | hfin
        · rw [hq] at hactive
          cases hactive
        · cases hs : row.status <;> simp_all [ExecutionStatus.active, ExecutionStatus.finished]
    · rw [hg] at hor
      rcases hor with hc | hr
      · cases hc
      · cases hr
    · simp [Database.commit, Database.rollback] at hrow
  refine Triple.faulting (Duty.Stands.idle rfl rfl) (fun env st gs hinv hg hok hf x st' hx => ?_)
    (fun _ env st gs hinv hg _ _ => ⟨.free, ?_, rfl⟩)
    (fun _ env st gs hinv hg hok hf x st' hx => ?_)
  · cases hx
    refine ⟨_, hcommit env st gs hinv hg hok ?_, rfl⟩
    rcases hf with hf | hf
    · simp [hf]
    · cases hf
  · rwa [← hg, Function.update_eq_self]
  · cases hx
    exact ⟨_, hcommit env st gs hinv hg hok (by simp [hf]), rfl⟩

/-- Whoever runs nothing may finish executions, and queue some. -/
theorem free_duty (o : Op) (ho : o.finishing = true) :
    (dutyProtocol settles closes s t).Steady p r .free (await o) := by
  have hstands : Duty.free.Stands r := Duty.Stands.idle rfl rfl
  cases hrows : o.touchesRows with
  | false => exact aside_duty hstands hrows
  | true =>
    cases o <;> simp only [Op.touchesRows, Op.finishing, Bool.false_eq_true] at hrows ho
    case commit => exact commit_free
    case insertExecution project file queuedAt =>
      refine Steady.operation hstands fun env st gs hinv hg _ x st' hx => ?_
      have hh := DutyInv.holds hinv p
      rw [hg] at hh
      refine DutyInv.free hinv hg (by simp) hx ?_
      cases hx
      intro e row hrow
      by_cases he : e = st.db.nextExecution
      · subst he
        simp only [Database.write, Function.update_self, Option.some.injEq] at hrow
        exact .inl (hrow ▸ rfl)
      · refine hh e row ?_
        simpa [Database.insertExecution, Database.write, he] using hrow
    case updateStatus id current target fields =>
      refine Steady.operation hstands fun env st gs hinv hg _ x st' hx => ?_
      have hh := DutyInv.holds hinv p
      rw [hg] at hh
      refine DutyInv.free hinv hg (by simp) hx ?_
      obtain ⟨changed, db, hu, -, rfl⟩ := Op.run_updateStatus hx
      rcases Database.updateWhere_eq_some hu with ⟨-, rfl⟩ | ⟨-, row, -, -, -, rfl⟩
      · exact hh
      · intro e row' hrow'
        by_cases he : e = id
        · subst he
          simp only [Database.write, Function.update_self, Option.some.injEq] at hrow'
          exact .inr (hrow' ▸ ho)
        · refine hh e row' ?_
          simpa [Database.write, he] using hrow'
    case rollback | close =>
      refine Steady.operation hstands fun env st gs hinv hg _ x st' hx => ?_
      refine DutyInv.free hinv hg (by simp) hx ?_
      cases hx
      intro e row hrow
      simp [Database.rollback] at hrow
    case hset | hdel =>
      refine Steady.operation hstands fun env st gs hinv hg _ x st' hx => ?_
      have hh := DutyInv.holds hinv p
      rw [hg] at hh
      refine DutyInv.free hinv hg (by simp) hx ?_
      cases hx
      exact hh
    case hgetall =>
      refine Steady.operation hstands fun env st gs hinv hg _ x st' hx => ?_
      have hh := DutyInv.holds hinv p
      rw [hg] at hh
      refine DutyInv.free hinv hg (by simp) hx ?_
      obtain ⟨raw, -, -, rfl⟩ := Op.run_hgetall hx
      exact hh

/-! ## Taking and claiming an execution -/

/-- The process has nothing to do. -/
def Duty.Idle (g : Duty) : Prop := g = .free ∨ ∃ waiting, g = .scanned waiting

theorem Duty.Idle.stands (h : g.Idle) : g.Stands r := by
  rcases h with rfl | ⟨waiting, rfl⟩ <;> exact Duty.Stands.idle rfl rfl

theorem hgetall_duty (waiting : List (ExecutionId × Payload)) :
    (dutyProtocol settles closes s t).Triple p r (.scanned waiting) (await .hgetall)
      (fun waiting' g => g = .scanned waiting') fun _ g => g.Idle := by
  refine Triple.operation (Duty.Stands.idle rfl rfl) (fun _ _ => .inr ⟨_, rfl⟩)
    fun env st gs hinv hg hok x st' hx => ?_
  have hh := DutyInv.holds hinv p
  rw [hg] at hh
  have hx' := hx
  obtain ⟨raw, hraw, rfl, rfl⟩ := Op.run_hgetall hx
  refine ⟨.scanned raw, DutyInv.light hinv hg rfl rfl (by simp) hx' ⟨hh.1, fun entry he => ?_⟩, rfl,
    fun _ _ => .inr ⟨_, rfl⟩⟩
  obtain ⟨q, hq⟩ := hok.2.2.1.ledger.entered entry (Redis.mem_of_hgetall hraw entry he)
  exact ⟨q, List.mem_append_left _ hq⟩

/-- Whoever removes the entry has taken the execution. -/
theorem hdel_duty {waiting : List (ExecutionId × Payload)} {best : ExecutionId}
    {payload : Payload} (hbest : waiting.lookup best = some payload) :
    (dutyProtocol settles closes s t).Triple p r (.scanned waiting) (await (.hdel best))
      (fun removed g => g = if removed then .holding payload else .scanned waiting)
      fun _ g => g.Idle := by
  have hscanned : ∀ (env : Env) (st : Service) (gs : Pid → Duty) x st',
      DutyInv settles closes st gs → gs p = .scanned waiting →
      (Op.hdel best).run p env st = some (x, st') →
      DutyInv settles closes st' (Function.update gs p (.scanned waiting)) := by
    intro env st gs x st' hinv hg hx
    have hh := hinv.holds p
    rw [hg] at hh
    refine hinv.light hg rfl rfl (by simp) hx ?_
    cases hx
    refine ⟨hh.1, fun entry he => ?_⟩
    obtain ⟨q, hq⟩ := hh.2 entry he
    exact ⟨q, List.mem_append_left _ hq⟩
  refine Triple.fallible (Duty.Stands.idle rfl rfl) (fun env st gs hinv hg hok x st' hx => ?_)
    (fun _ env st gs hinv hg hok hf => ⟨.scanned waiting, ?_, .inr ⟨_, rfl⟩⟩)
    (fun _ env st gs hinv hg hok hf x st' hx =>
      ⟨.scanned waiting, hscanned env st gs x st' hinv hg hx, .inr ⟨_, rfl⟩⟩)
  · by_cases hw : best ∈ st.redis.waitingIds
    · have hh := DutyInv.holds hinv p
      rw [hg] at hh
      have hmem : (best, payload) ∈ waiting := by
        obtain ⟨l₁, l₂, rfl, -⟩ := List.lookup_eq_some_iff.1 hbest
        exact List.mem_append_right _ List.mem_cons_self
      obtain ⟨q, hq⟩ := hh.2 _ hmem
      have hid : payload.executionId = best := hok.2.2.1.ledger.keyed _ _ ⟨q, hq⟩
      refine ⟨.holding payload, DutyInv.light hinv hg rfl rfl (by simp) hx ?_, ?_⟩
      · cases hx
        refine ⟨hh.1, List.mem_append_right _ ?_, q, List.mem_append_left _ (hid ▸ hq)⟩
        have hremoved : decide (best ∈ st.redis.queue.map (·.1)) = true := decide_eq_true hw
        simp [hid, hremoved]
      · cases hx
        exact (if_pos (decide_eq_true hw)).symm
    · refine ⟨.scanned waiting, hscanned env st gs x st' hinv hg hx, ?_⟩
      cases hx
      exact (if_neg fun h => hw (of_decide_eq_true h)).symm
  · rwa [← hg, Function.update_eq_self]

end Operations

end Concord
