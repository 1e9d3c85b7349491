import Concord.Execution.Onward

/-!
# Cancelling ends decided

What `cancel_execution` does among any other processes. As long as it has lost, the committed row is one
step further than the row it has read (`Waiting`), so its attempts are counted by the transition table.
Once its conditional write goes through it holds the row (`Holding`), and its commit is the one that
finishes the execution.
-/

namespace Concord

open Concord.Base Async ExecutionStatus

/-- An operation of the service with its result. -/
abbrev ServiceCall := Call Op (fun o => Except PyError o.Val)

/-- The operations a process of the service has performed. -/
abbrev ServiceEntry := JournalEntry Op (fun o => Except PyError o.Val) Service

/-- A conditional write that another writer has forestalled. -/
def ServiceCall.isLost : ServiceCall → Bool
  | ⟨.updateStatus _ _ _ _, .ok false⟩ => true
  | _ => false

/-- An operation that has failed. -/
def ServiceCall.isFailed : ServiceCall → Bool
  | ⟨_, .error _⟩ => true
  | _ => false

def Op.isPublish : Op → Bool
  | publish _ => true
  | _ => false

/-- The number of writes that others have forestalled. -/
def lostAttempts (entries : List ServiceEntry) : Nat := entries.countP fun e => ServiceCall.isLost e.call

/-- The operation has changed nothing that others see, and told them nothing. -/
structure Harmless (e : ServiceEntry) : Prop where
  executions : e.after.db.executions = e.before.db.executions
  events : e.after.db.events = e.before.db.events
  redis : e.after.redis = e.before.redis
  silent : e.call.1.isPublish = false

/-- The execution is finished in the committed tables. -/
def Service.isFinished (id : ExecutionId) (st : Service) : Bool := (st.db.status? id).any (·.finished)

/-- The operation by which the execution is finished. -/
def Finishes (id : ExecutionId) (e : ServiceEntry) : Prop :=
  e.before.isFinished id = false ∧ e.after.isFinished id = true

/-- The commit that cancels the execution. -/
structure Cancels (id : ExecutionId) (e : ServiceEntry) : Prop where
  commit : e.call = ⟨.commit, .ok ()⟩
  before : e.before.isFinished id = false
  after : e.after.db.status? id = some .cancelled

/-- The row that the request has read had a status of rank `k` at most, less the attempts lost since. -/
def Attempts (id : ExecutionId) (entries : List ServiceEntry) (k : Nat) : Prop :=
  ∀ e ∈ entries, ∀ row, e.call = ⟨.getExecution id, .ok (some row)⟩ →
    lostAttempts entries + row.status.rank ≤ k

/-- What holds at every point of a request that cancels. -/
structure Orderly (id : ExecutionId) (rounds : Nat) (entries : List ServiceEntry) (next : Option Op) :
    Prop where
  attempts : Attempts id entries 4
  goesOn : 4 ≤ rounds → next ≠ some .outOfRounds
  signals : (∃ e ∈ entries, e.call.1.isPublish = true) → ∃ e ∈ entries, Cancels id e

/-- The request is refused, or one of its operations has failed. -/
def Excused (e : PyError) (entries : List ServiceEntry) : Prop :=
  (∃ detail, e = .http 403 detail ∨ e = .http 404 detail) ∨
    ∃ e' ∈ entries, ServiceCall.isFailed e'.call = true

/-- The request has read no row yet. -/
structure Opening (p : Pid) (id : ExecutionId) (entries : List ServiceEntry) (st : Service) : Prop where
  clean : st.db.tx p = {}
  unread : ∀ e ∈ entries, e.call.1 ≠ .getExecution id
  untried : lostAttempts entries = 0
  harmless : ∀ e ∈ entries, Harmless e

/-- The request has changed nothing yet; the committed row has rank `k` at least. -/
structure Waiting (p : Pid) (id : ExecutionId) (k : Nat) (entries : List ServiceEntry) (st : Service) :
    Prop where
  clean : st.db.tx p = {}
  seen : ∃ now, st.db.status? id = some now ∧ k ≤ now.rank
  attempts : Attempts id entries k
  harmless : ∀ e ∈ entries, Harmless e

/-- The request has written the row, but not committed it. -/
structure Holding (p : Pid) (id : ExecutionId) (entries : List ServiceEntry) (st : Service) : Prop where
  written : ∃ row, (st.db.tx p).executions id = some row ∧ row.status = .cancelled
  seen : ∃ now, st.db.status? id = some now
  attempts : Attempts id entries 4
  harmless : ∀ e ∈ entries, Harmless e

/-- The request has written the row and its event, and is about to commit. -/
def Recorded (p : Pid) (id : ExecutionId) (entries : List ServiceEntry) (st : Service) : Prop :=
  Holding p id entries st ∧ ∃ ev ∈ (st.db.tx p).events, ev.executionId = id

/-- The request has cancelled the execution. -/
structure Cancelled (p : Pid) (id : ExecutionId) (entries : List ServiceEntry) (st : Service) : Prop where
  clean : st.db.tx p = {}
  status : st.db.status? id = some .cancelled
  cancels : ∃ e ∈ entries, Cancels id e
  attempts : Attempts id entries 4

/-- The request has cancelled the execution and told the worker and the project, or it has changed nothing
and told nobody; in either case the execution is finished. -/
structure Decides (project : ProjectId) (id : ExecutionId) (entries : List ServiceEntry) (st : Service)
    (out : ExecutionOut) : Prop where
  same : out.id = id
  finished : out.execution.status.finished = true
  isFinished : st.isFinished id = true
  either : (∃ e ∈ entries, Cancels id e) ∧ (∃ e ∈ entries, e.call = ⟨.publish (.cancel id), .ok ()⟩) ∧
      (∃ e ∈ entries, e.call = ⟨.publish (.exec project (.executionStatus id .cancelled)), .ok ()⟩) ∨
    ∀ e ∈ entries, Harmless e

/-! ## Bookkeeping -/

section Bookkeeping

variable {p : Pid} {id : ExecutionId} {k n rounds : Nat} {entries : List ServiceEntry} {e : ServiceEntry}
  {st st' : Service} {next : Option Op}

theorem Attempts.mono (h : Attempts id entries k) (hkn : k ≤ n) : Attempts id entries n :=
  fun e he row hrow => Nat.le_trans (h e he row hrow) hkn

/-- Only an operation on the database can be forestalled. -/
theorem ServiceCall.isLost_eq_false {o : Op} {x : Except PyError o.Val} (ho : o.writesDb = false) :
    ServiceCall.isLost ⟨o, x⟩ = false := by
  cases o <;> first | rfl | cases ho

theorem lostAttempts_concat (entries : List ServiceEntry) (e : ServiceEntry) :
    lostAttempts (entries ++ [e]) = lostAttempts entries + (if ServiceCall.isLost e.call then 1 else 0) := by
  rw [lostAttempts, List.countP_append, List.countP_singleton]
  rfl

/-- One more operation that reads no row of the execution. -/
theorem Attempts.concat (h : Attempts id entries k)
    (hread : ∀ row, e.call ≠ ⟨.getExecution id, .ok (some row)⟩)
    (hn : k + (if ServiceCall.isLost e.call then 1 else 0) ≤ n) : Attempts id (entries ++ [e]) n := by
  intro e' he' row hrow
  rcases List.mem_append.1 he' with he' | he'
  · have hle := h e' he' row hrow
    have hcount := lostAttempts_concat entries e
    omega
  · obtain rfl := List.mem_singleton.1 he'
    exact absurd hrow (hread row)

theorem forall_concat {P : ServiceEntry → Prop} (h : ∀ e ∈ entries, P e) {last : ServiceEntry}
    (hlast : P last) : ∀ e ∈ entries ++ [last], P e := by
  intro e he
  rcases List.mem_append.1 he with he | he
  · exact h e he
  · rwa [List.mem_singleton.1 he]

theorem Waiting.orderly (h : Waiting p id k entries st) (hnext : 4 ≤ rounds → next ≠ some .outOfRounds) :
    Orderly id rounds entries next where
  attempts := by
    obtain ⟨now, -, hk⟩ := h.seen
    exact h.attempts.mono (Nat.le_trans hk now.rank_le)
  goesOn := hnext
  signals := by
    rintro ⟨e, he, hpublish⟩
    rw [(h.harmless e he).silent] at hpublish
    cases hpublish

theorem Holding.orderly (h : Holding p id entries st) (hnext : 4 ≤ rounds → next ≠ some .outOfRounds) :
    Orderly id rounds entries next where
  attempts := h.attempts
  goesOn := hnext
  signals := by
    rintro ⟨e, he, hpublish⟩
    rw [(h.harmless e he).silent] at hpublish
    cases hpublish

theorem Waiting.rely (h : Waiting p id k entries st) (hst : (relyOn p).step st st') :
    Waiting p id k entries st' where
  clean := hst.1.trans h.clean
  seen := by
    obtain ⟨now, hnow, hk⟩ := h.seen
    obtain ⟨now', hnow', rfl | hlt⟩ := hst.2.exists_of_some hnow
    · exact ⟨now', hnow', hk⟩
    · exact ⟨now', hnow', Nat.le_trans hk (Nat.le_of_lt hlt)⟩
  attempts := h.attempts
  harmless := h.harmless

theorem Holding.rely (h : Holding p id entries st) (hst : (relyOn p).step st st') :
    Holding p id entries st' where
  written := by
    rw [hst.1]
    exact h.written
  seen := by
    obtain ⟨now, hnow⟩ := h.seen
    obtain ⟨now', hnow', -⟩ := hst.2.exists_of_some hnow
    exact ⟨now', hnow'⟩
  attempts := h.attempts
  harmless := h.harmless

/-- One more operation, which tells nobody anything and is not one that is counted. -/
theorem Orderly.concat (h : Orderly id rounds entries next) {last : ServiceEntry}
    (hsilent : last.call.1.isPublish = false) (hlost : ServiceCall.isLost last.call = false)
    (hread : ∀ row, last.call ≠ ⟨.getExecution id, .ok (some row)⟩) :
    Orderly id rounds (entries ++ [last]) none where
  attempts := h.attempts.concat hread (by simp [hlost])
  goesOn _ hnext := nomatch hnext
  signals := by
    rintro ⟨e, he, hpublish⟩
    rcases List.mem_append.1 he with he | he
    · obtain ⟨e', he', hcancels⟩ := h.signals ⟨e, he, hpublish⟩
      exact ⟨e', List.mem_append_left _ he', hcancels⟩
    · rw [List.mem_singleton.1 he, hsilent] at hpublish
      cases hpublish

/-- A session that has written nothing sees the committed rows. -/
theorem visible_of_clean (h : st.db.tx p = {}) : st.db.visible p id = st.db.executions id := by
  simp [Database.visible, h]

theorem Opening.rely (h : Opening p id entries st) (hst : (relyOn p).step st st') :
    Opening p id entries st' :=
  { h with clean := hst.1.trans h.clean }

theorem Opening.orderly (h : Opening p id entries st) (hnext : 4 ≤ rounds → next ≠ some .outOfRounds) :
    Orderly id rounds entries next where
  attempts := by
    intro e he row hrow
    exact absurd (by rw [hrow]) (h.unread e he)
  goesOn := hnext
  signals := by
    rintro ⟨e, he, hpublish⟩
    rw [(h.harmless e he).silent] at hpublish
    cases hpublish

theorem excused_concat (entries : List ServiceEntry) (p : Pid) (o : Op) (err : PyError) (st st' : Service) :
    Excused err (entries ++ [⟨p, ⟨o, .error err⟩, st, st'⟩]) :=
  .inr ⟨_, List.mem_append_right _ List.mem_cons_self, rfl⟩

theorem exec_reads {o : Op} {env : Env} {x : Except PyError o.Val} (ho : o.reads = true)
    (h : Op.exec p env st o = some (x, st')) : st' = st := by
  rcases Op.exec_eq_some h with hx | ⟨-, -, ⟨-, rfl⟩ | ⟨-, y, hy⟩⟩
  · exact Op.run_reads ho hx
  · rfl
  · exact Op.run_reads ho hy

theorem harmless_of_reads {o : Op} {x : Except PyError o.Val} (hsilent : o.isPublish = false) :
    Harmless ⟨p, ⟨o, x⟩, st, st⟩ := ⟨rfl, rfl, rfl, hsilent⟩

end Bookkeeping

/-! ## The operations of a request -/

section Operations

variable {s : Settings} {t : Tables} {p : Pid} {id : ExecutionId} {k rounds : Nat}
  {past : List ServiceEntry} {st : Service}

/-- The rule of an operation that leaves the service as it is. -/
theorem meets_reading {o : Op} (ho : o.reads = true) {A : List ServiceEntry → Option Op → Prop}
    {Q : o.Val → List ServiceEntry → Service → Prop} {E : PyError → List ServiceEntry → Service → Prop}
    (hA : A past (some o))
    (h : ∀ env before x, (relyOn p).step st before → (relyOn p).known before →
      Op.exec p env before o = some (x, before) → A (past ++ [⟨p, ⟨o, x⟩, before, before⟩]) none ∧
        ∀ u, (relyOn p).step before u →
          outcome (fun v u => Q v (past ++ [⟨p, ⟨o, x⟩, before, before⟩]) u)
            (fun e u => E e (past ++ [⟨p, ⟨o, x⟩, before, before⟩]) u) x u) :
    (relyOn p).Meets (service s t) p past st (await o) A Q E := by
  refine Rely.Meets.call hA fun before env x after hst hknown _ hexec => ?_
  obtain rfl := exec_reads ho hexec
  exact h env after x hst hknown hexec

/-- A stage of the request: what it says is orderly, is left alone by the others, and by a reading
operation. -/
structure CancelStage (p : Pid) (id : ExecutionId) (rounds : Nat) (I : List ServiceEntry → Service → Prop) :
    Prop where
  orderly : ∀ {entries st next}, I entries st → (4 ≤ rounds → next ≠ some .outOfRounds) →
    Orderly id rounds entries next
  rely : ∀ {entries st st'}, I entries st → (relyOn p).step st st' → I entries st'
  reads : ∀ {entries st} {o : Op} {x : Except PyError o.Val}, I entries st → Harmless ⟨p, ⟨o, x⟩, st, st⟩ →
    ServiceCall.isLost ⟨o, x⟩ = false → o ≠ .getExecution id → I (entries ++ [⟨p, ⟨o, x⟩, st, st⟩]) st

theorem Opening.stage : CancelStage p id rounds (Opening p id) where
  orderly h hnext := h.orderly hnext
  rely h hst := h.rely hst
  reads h hharmless hlost hother :=
    { clean := h.clean
      unread := forall_concat h.unread hother
      untried := by
        rw [lostAttempts_concat, h.untried, hlost]
        rfl
      harmless := forall_concat h.harmless hharmless }

theorem Waiting.stage : CancelStage p id rounds (Waiting p id k) where
  orderly h hnext := h.orderly hnext
  rely h hst := h.rely hst
  reads h hharmless hlost hother :=
    { h with
      attempts := h.attempts.concat (fun row hread => hother (congrArg Sigma.fst hread)) (by simp [hlost])
      harmless := forall_concat h.harmless hharmless }

theorem Holding.stage : CancelStage p id rounds (Holding p id) where
  orderly h hnext := h.orderly hnext
  rely h hst := h.rely hst
  reads h hharmless hlost hother :=
    { h with
      attempts := h.attempts.concat (fun row hread => hother (congrArg Sigma.fst hread)) (by simp [hlost])
      harmless := forall_concat h.harmless hharmless }

/-- A reading operation within a stage. -/
theorem CancelStage.meets_reading {I : List ServiceEntry → Service → Prop} (hI : CancelStage p id rounds I) {o : Op}
    (ho : o.reads = true) (hsilent : o.isPublish = false) (hother : o ≠ .getExecution id)
    (hround : o ≠ .outOfRounds) (h : I past st) {Q : o.Val → List ServiceEntry → Service → Prop}
    (hQ : ∀ v before es, I es before → (∃ env, Op.run p env before o = some (.ok v, before)) →
      ∀ u, (relyOn p).step before u → Q v es u) :
    (relyOn p).Meets (service s t) p past st (await o) (Orderly id rounds) Q (fun e es _ => Excused e es) := by
  refine Concord.meets_reading ho (hI.orderly h fun _ hnext => hround (Option.some.inj hnext)) ?_
  intro env before x hst _ hexec
  have hlost : ServiceCall.isLost ⟨o, x⟩ = false := ServiceCall.isLost_eq_false (Op.writesDb_of_reads ho)
  have hnow := hI.reads (x := x) (hI.rely h hst) (harmless_of_reads hsilent) hlost hother
  refine ⟨hI.orderly hnow (fun _ hnext => nomatch hnext), fun u hu => ?_⟩
  cases x with
  | error e => exact excused_concat past p o e before before
  | ok v =>
    refine hQ v before _ hnow ⟨env, ?_⟩ u hu
    rcases Op.exec_eq_some hexec with hx | ⟨-, hx, -⟩
    · exact hx
    · cases hx

/-- Reading the row. -/
theorem Opening.meets_getExecution (h : Opening p id past st) :
    (relyOn p).Meets (service s t) p past st (await (.getExecution id)) (Orderly id rounds)
      (fun found es u => ∀ row, found = some row → Waiting p id row.status.rank es u)
      (fun e es _ => Excused e es) := by
  refine Concord.meets_reading rfl (h.orderly fun _ hnext => nomatch hnext) ?_
  intro env before x hst _ hexec
  have hlost : lostAttempts (past ++ [⟨p, ⟨.getExecution id, x⟩, before, before⟩]) = 0 := by
    rw [lostAttempts_concat, h.untried]
    rfl
  have hread : Harmless ⟨p, ⟨.getExecution id, x⟩, before, before⟩ := harmless_of_reads rfl
  have hharmless := forall_concat h.harmless hread
  have hattempts : ∀ row k, (∀ row', x = .ok (some row') → row' = row) → row.status.rank ≤ k →
      Attempts id (past ++ [⟨p, ⟨.getExecution id, x⟩, before, before⟩]) k := by
    intro row k hrow hk e he row' hread
    rw [hlost]
    rcases List.mem_append.1 he with he | he
    · exact absurd (by rw [hread]) (h.unread e he)
    · obtain rfl := List.mem_singleton.1 he
      cases hread
      rw [hrow row' rfl]
      omega
  have horderly : Orderly id rounds (past ++ [⟨p, ⟨.getExecution id, x⟩, before, before⟩]) none := by
    refine ⟨?_, (fun _ hnext => nomatch hnext), ?_⟩
    · intro e he row hread
      rw [hlost]
      have := row.status.rank_le
      omega
    · rintro ⟨e, he, hpublish⟩
      rw [(hharmless e he).silent] at hpublish
      cases hpublish
  refine ⟨horderly, fun u hu => ?_⟩
  cases x with
  | error e => exact excused_concat past p _ e before before
  | ok found =>
    rintro row rfl
    have hrun : Op.run p env before (.getExecution id) = some (.ok (some row), before) := by
      rcases Op.exec_eq_some hexec with hx | ⟨-, hx, -⟩
      · exact hx
      · cases hx
    have hvisible : before.db.visible p id = some row := by
      simpa only [Op.run, Option.some.injEq, Prod.mk.injEq, Except.ok.injEq, and_true] using hrun
    have hclean := (h.rely hst).clean
    rw [visible_of_clean hclean] at hvisible
    have hwaiting : Waiting p id row.status.rank
        (past ++ [⟨p, ⟨.getExecution id, .ok (some row)⟩, before, before⟩]) before :=
      { clean := hclean
        seen := ⟨row.status, by rw [Database.status?, hvisible]; rfl, Nat.le_refl _⟩
        attempts := hattempts row _ (fun row' hrow => by cases hrow; rfl) (Nat.le_refl _)
        harmless := hharmless }
    exact hwaiting.rely hu

/-- The conditional write goes through, or another writer has been faster. -/
theorem Waiting.meets_updateStatus {status : ExecutionStatus} (hunfinished : status.finished = false)
    (h : Waiting p id status.rank past st) (fields : StatusFields) :
    (relyOn p).Meets (service s t) p past st (await (.updateStatus id status .cancelled fields))
      (Orderly id rounds)
      (fun changed es u => if changed then Holding p id es u else Waiting p id (status.rank + 1) es u)
      (fun e es _ => Excused e es) := by
  have horderly : Orderly id rounds past (some (.updateStatus id status .cancelled fields)) :=
    h.orderly (by rintro _ ⟨⟩)
  refine Rely.Meets.call horderly fun before env x after hst _ _ hexec => ?_
  have hbefore := h.rely hst
  cases x with
  | error e =>
    exact ⟨horderly.concat rfl rfl (by rintro _ ⟨⟩), fun u _ => excused_concat past p _ e before after⟩
  | ok changed =>
    have hrun : Op.run p env before (.updateStatus id status .cancelled fields) = some (.ok changed, after) := by
      rcases Op.exec_eq_some hexec with hx | ⟨-, hx, -⟩
      · exact hx
      · cases hx
    obtain ⟨changed', db, hupdate, hok, rfl⟩ := Op.run_updateStatus hrun
    obtain rfl := Except.ok.inj hok
    have hharmless : Harmless ⟨p, ⟨.updateStatus id status .cancelled fields, .ok changed'⟩, before,
        { before with db := db }⟩ := by
      rcases Database.updateWhere_eq_some hupdate with ⟨-, rfl⟩ | ⟨-, row, -, -, -, rfl⟩
      · exact ⟨rfl, rfl, rfl, rfl⟩
      · exact ⟨rfl, rfl, rfl, rfl⟩
    obtain ⟨now, hnow, hrank⟩ := hbefore.seen
    rcases Database.updateWhere_eq_some hupdate with ⟨rfl, rfl⟩ | ⟨rfl, row, hrow, hcond, hlock, rfl⟩
    · have hne : now ≠ status := by
        rintro rfl
        obtain ⟨row, hrow, hstatus⟩ := Option.map_eq_some_iff.1 hnow
        have hmiss := Database.not_of_updateWhere_false hupdate ((visible_of_clean hbefore.clean).trans hrow)
        simp [hstatus] at hmiss
      have hwaiting : Waiting p id (status.rank + 1)
          (past ++ [⟨p, ⟨.updateStatus id status .cancelled fields, .ok false⟩, before, before⟩]) before :=
        { clean := hbefore.clean
          seen := ⟨now, hnow, ExecutionStatus.rank_lt_of_ne hunfinished hrank hne⟩
          attempts := hbefore.attempts.concat (by rintro _ ⟨⟩) (Nat.le_refl _)
          harmless := forall_concat hbefore.harmless hharmless }
      exact ⟨hwaiting.orderly (by rintro _ ⟨⟩), fun u hu => hwaiting.rely hu⟩
    · have hholding : Holding p id
          (past ++ [⟨p, ⟨.updateStatus id status .cancelled fields, .ok true⟩, before,
            { before with db := before.db.write p id (row.set .cancelled fields) }⟩])
          { before with db := before.db.write p id (row.set .cancelled fields) } :=
        { written := ⟨row.set .cancelled fields, by simp [Database.write], rfl⟩
          seen := ⟨now, hnow⟩
          attempts := hbefore.attempts.concat (by rintro _ ⟨⟩) status.rank_le
          harmless := forall_concat hbefore.harmless hharmless }
      exact ⟨hholding.orderly (by rintro _ ⟨⟩), fun u hu => hholding.rely hu⟩

/-- The event of the change. -/
theorem Holding.meets_addEvent (h : Holding p id past st) (payload : EventPayload) :
    (relyOn p).Meets (service s t) p past st (await (.addEvent id payload)) (Orderly id rounds)
      (fun _ es u => Recorded p id es u) (fun e es _ => Excused e es) := by
  have horderly : Orderly id rounds past (some (.addEvent id payload)) := h.orderly (by rintro _ ⟨⟩)
  refine Rely.Meets.call horderly fun before env x after hst _ _ hexec => ?_
  have hbefore := h.rely hst
  have hrun : Op.run p env before (.addEvent id payload) = some (x, after) := by
    rcases Op.exec_eq_some hexec with hx | ⟨htarget, -⟩
    · exact hx
    · exact absurd rfl htarget
  cases hrun
  have hnow : Recorded p id (past ++ [⟨p, ⟨.addEvent id payload, .ok ()⟩, before,
      { before with db := before.db.addEvent p id payload }⟩])
      { before with db := before.db.addEvent p id payload } := by
    refine ⟨{ written := ?_, seen := hbefore.seen, attempts := ?_, harmless := ?_ }, ?_⟩
    · simpa [Database.addEvent] using hbefore.written
    · exact hbefore.attempts.concat (by rintro _ ⟨⟩) (Nat.le_refl _)
    · exact forall_concat hbefore.harmless ⟨rfl, rfl, rfl, rfl⟩
    · simp [Database.addEvent]
  exact ⟨hnow.1.orderly (by rintro _ ⟨⟩),
    fun u hu => ⟨hnow.1.rely hu, by rw [hu.1]; exact hnow.2⟩⟩

/-- Whoever has an event to commit commits it on a row that is not finished. -/
theorem isFinished_of_recorded (hknown : (relyOn p).known st)
    (h : ∃ ev ∈ (st.db.tx p).events, ev.executionId = id) : st.isFinished id = false := by
  obtain ⟨owed, hinv⟩ := hknown
  obtain ⟨ev, hev, hid⟩ := h
  have htrail := hinv.pending p id
  cases hstatus : st.db.status? id with
  | none => rw [Service.isFinished, hstatus]; rfl
  | some status =>
    cases hfin : status.finished with
    | false => rw [Service.isFinished, hstatus]; exact hfin
    | true =>
      rw [hstatus] at htrail
      have hnil := (List.append_eq_nil_iff.1 (htrail.stuck (not_step_of_finished hfin)).1).1
      have hmem : ev.move ∈ movesOf id (st.db.tx p).events :=
        List.mem_map_of_mem (List.mem_filter.2 ⟨hev, by simpa using hid⟩)
      rw [hnil] at hmem
      cases hmem

theorem Cancelled.rely {st' : Service} (h : Cancelled p id past st) (hst : (relyOn p).step st st') :
    Cancelled p id past st' where
  clean := hst.1.trans h.clean
  status := by
    obtain ⟨status, hstatus, rfl | hlt⟩ := hst.2.exists_of_some h.status
    · exact hstatus
    · have hle := status.rank_le
      have hgt : 4 < status.rank := hlt
      omega
  cancels := h.cancels
  attempts := h.attempts

theorem Cancelled.orderly {next : Option Op} (h : Cancelled p id past st)
    (hnext : 4 ≤ rounds → next ≠ some .outOfRounds) : Orderly id rounds past next where
  attempts := h.attempts
  goesOn := hnext
  signals _ := h.cancels

/-- The commit of the change. -/
theorem Recorded.meets_commit (h : Recorded p id past st) :
    (relyOn p).Meets (service s t) p past st (await .commit) (Orderly id rounds)
      (fun _ es u => Cancelled p id es u) (fun e es _ => Excused e es) := by
  have horderly : Orderly id rounds past (some .commit) := h.1.orderly (by rintro _ ⟨⟩)
  refine Rely.Meets.call horderly fun before env x after hst hknown _ hexec => ?_
  have hbefore := h.1.rely hst
  have hunfinished : before.isFinished id = false :=
    isFinished_of_recorded hknown (by rw [hst.1]; exact h.2)
  refine ⟨horderly.concat rfl rfl (by rintro _ ⟨⟩), fun u hu => ?_⟩
  cases x with
  | error e => exact excused_concat past p _ e before after
  | ok v =>
    have hrun : Op.run p env before .commit = some (.ok v, after) := by
      rcases Op.exec_eq_some hexec with hx | ⟨-, hx, -⟩
      · exact hx
      · cases hx
    cases hrun
    have hafter : (before.db.commit p).status? id = some .cancelled := by
      obtain ⟨row, hrow, hstatus⟩ := hbefore.written
      simp [Database.status?, Database.commit, Database.visible, hrow, hstatus]
    have hnow : Cancelled p id (past ++ [⟨p, ⟨.commit, .ok ()⟩, before,
        { before with db := before.db.commit p }⟩]) { before with db := before.db.commit p } :=
      { clean := by simp [Database.commit, Database.rollback]
        status := hafter
        cancels := ⟨_, List.mem_append_right _ List.mem_cons_self, rfl, hunfinished, hafter⟩
        attempts := hbefore.attempts.concat (by rintro _ ⟨⟩) (Nat.le_refl _) }
    exact hnow.rely hu

/-- What the request does once it has cancelled the execution. -/
theorem Cancelled.meets {o : Op} (ho : o.writesDb = false) (hother : o ≠ .getExecution id)
    (hround : o ≠ .outOfRounds) (h : Cancelled p id past st)
    {Q : o.Val → List ServiceEntry → Service → Prop}
    (hQ : ∀ v before after, (∃ env, Op.run p env before o = some (.ok v, after)) → before.db.tx p = {} →
      before.db.status? id = some .cancelled →
      Cancelled p id (past ++ [⟨p, ⟨o, .ok v⟩, before, after⟩]) after →
      ∀ u, (relyOn p).step after u → Q v (past ++ [⟨p, ⟨o, .ok v⟩, before, after⟩]) u) :
    (relyOn p).Meets (service s t) p past st (await o) (Orderly id rounds) Q (fun e es _ => Excused e es) := by
  refine Rely.Meets.call (h.orderly fun _ hnext => hround (Option.some.inj hnext))
    fun before env x after hst _ _ hexec => ?_
  have hbefore := h.rely hst
  have hdb : after.db = before.db := by
    rcases Op.exec_eq_some hexec with hx | ⟨-, -, ⟨-, rfl⟩ | ⟨-, y, hy⟩⟩
    · exact Op.run_db ho hx
    · rfl
    · exact Op.run_db ho hy
  have hlost : ServiceCall.isLost ⟨o, x⟩ = false := ServiceCall.isLost_eq_false ho
  have hnow : Cancelled p id (past ++ [⟨p, ⟨o, x⟩, before, after⟩]) after :=
    { clean := by rw [hdb]; exact hbefore.clean
      status := by rw [hdb]; exact hbefore.status
      cancels := by
        obtain ⟨e, he, hcancels⟩ := hbefore.cancels
        exact ⟨e, List.mem_append_left _ he, hcancels⟩
      attempts := hbefore.attempts.concat (fun row hread => hother (congrArg Sigma.fst hread))
        (by simp [hlost]) }
  refine ⟨hnow.orderly (fun _ hnext => nomatch hnext), fun u hu => ?_⟩
  cases x with
  | error e => exact excused_concat past p o e before after
  | ok v =>
    refine hQ v before after ⟨env, ?_⟩ hbefore.clean hbefore.status hnow u hu
    rcases Op.exec_eq_some hexec with hx | ⟨-, hx, -⟩
    · exact hx
    · cases hx

end Operations

/-! ## The request -/

section Request

variable {s : Settings} {t : Tables} {p : Pid} {project : ProjectId} {user : UserId} {id : ExecutionId}
  {rounds : Nat} {past : List ServiceEntry} {st : Service}

/-- `change_status` from a status that is not finished. -/
theorem changeStatus_meets {row : Execution} (hunfinished : row.status.finished = false)
    (h : Waiting p id row.status.rank past st) (fields : StatusFields) :
    (relyOn p).Meets (service s t) p past st (changeStatus id row .cancelled .api fields) (Orderly id rounds)
      (fun changed es u => if changed.1 then Recorded p id es u else Waiting p id (row.status.rank + 1) es u)
      (fun e es _ => Excused e es) := by
  have hallowed : row.status.canTransition .cancelled = true := by
    revert hunfinished
    cases row.status <;> decide
  unfold changeStatus
  rw [if_pos hallowed]
  refine (h.meets_updateStatus hunfinished fields).bind fun changed es u _ hchanged => ?_
  have hnow := hchanged u ((relyOn p).refl u)
  cases changed with
  | true =>
    refine (Holding.stage.meets_reading (o := .refresh id) rfl rfl (fun h => nomatch h) (fun h => nomatch h) hnow
      (Q := fun _ es u => Holding p id es u) fun _ before es hes _ u hu => hes.rely hu).bind
      fun refreshed es u _ hheld => ?_
    refine ((hheld u ((relyOn p).refl u)).meets_addEvent _).bind fun _ es u horderly hrecorded => ?_
    exact .pure horderly hrecorded
  | false =>
    refine (Waiting.stage.meets_reading (o := .refresh id) rfl rfl (fun h => nomatch h) (fun h => nomatch h) hnow
      (Q := fun _ es u => Waiting p id (row.status.rank + 1) es u) fun _ before es hes _ u hu => hes.rely hu).bind
      fun refreshed es u horderly hwaiting => ?_
    exact .pure horderly hwaiting

/-- The retry loop. Every round but the last finds the row one step further. -/
theorem cancelLoop_meets (n : Nat) {row : Execution} (hn : 4 ≤ rounds → 4 ≤ n + row.status.rank)
    (h : Waiting p id row.status.rank past st) (horderly : Orderly id rounds past none) :
    (relyOn p).Meets (service s t) p past st (cancelLoop id n row) (Orderly id rounds)
      (fun res es u => match res with
        | none => Recorded p id es u
        | some finished => finished.status.finished = true ∧ Waiting p id finished.status.rank es u)
      (fun e es _ => Excused e es) := by
  induction n generalizing row past st with
  | zero =>
    unfold cancelLoop
    split
    · next hfin => exact .pure horderly fun u hu => ⟨hfin, h.rely hu⟩
    · next hfin =>
      -- no round is left for a row that is not finished
      have hfew : ¬4 ≤ rounds := fun hmany => by
        have hrank := row.status.rank_le
        have := hn hmany
        exact hfin (ExecutionStatus.finished_iff_rank.2 (by omega))
      refine Rely.Meets.bind (Rely.Meets.call (h.orderly fun hmany => absurd hmany hfew)
        (Q := fun _ _ _ => False) fun before env x after _ _ _ hexec => ?_) fun _ es u _ hfalse => ?_
      · rcases Op.exec_eq_some hexec with hx | ⟨htarget, -⟩
        · cases hx
        · exact absurd rfl htarget
      · exact (hfalse u ((relyOn p).refl u)).elim
  | succ n ih =>
    unfold cancelLoop
    split
    · next hfin => exact .pure horderly fun u hu => ⟨hfin, h.rely hu⟩
    · next hfin =>
      have hunfinished : row.status.finished = false := by simpa using hfin
      refine (Waiting.stage.meets_reading (o := .clock) rfl rfl (by rintro ⟨⟩) (by rintro ⟨⟩) h
        (Q := fun _ es u => Waiting p id row.status.rank es u) fun _ before es hes _ u hu => hes.rely hu).bind
        fun finishedAt es u _ hwaiting => ?_
      refine (changeStatus_meets hunfinished (hwaiting u ((relyOn p).refl u)) _).bind
        fun changed es u horderly hchanged => ?_
      split
      · next hcancelled =>
        refine .pure horderly fun u' hu' => ?_
        simpa [hcancelled] using hchanged u' hu'
      · next hlost =>
        have hfurther : Waiting p id (row.status.rank + 1) es u := by
          simpa [hlost] using hchanged u ((relyOn p).refl u)
        refine (Waiting.stage.meets_reading (o := .refresh id) rfl rfl (by rintro ⟨⟩)
          (by rintro ⟨⟩) hfurther (Q := fun (row' : Execution) es u => row.status.rank + 1 ≤ row'.status.rank ∧
            Waiting p id row'.status.rank es u) ?_).bind fun row' es u horderly hread => ?_
        · rintro row' before es hes ⟨env, hrun⟩ u hu
          have hrow : before.db.executions id = some row' := by
            rw [← visible_of_clean hes.clean]
            simp only [Op.run] at hrun
            split at hrun
            · next hvisible =>
              cases hrun
              exact hvisible
            · cases hrun
          obtain ⟨now, hnow, hk⟩ := hes.seen
          obtain rfl : row'.status = now := by
            rw [Database.status?, hrow] at hnow
            exact Option.some.inj hnow
          exact ⟨hk, { hes with seen := ⟨_, hnow, Nat.le_refl _⟩, attempts := hes.attempts.mono hk }.rely hu⟩
        · obtain ⟨hrank, hwaiting⟩ := hread u ((relyOn p).refl u)
          exact ih (fun hmany => by have := hn hmany; omega) hwaiting horderly

/-- What the request does after its commit. -/
theorem Cancelled.meets_tell (h : Cancelled p id past st) :
    (relyOn p).Meets (service s t) p past st (do
        let execution ← await (.refresh id)
        let _ ← removeFromQueue id
        signalCancel id
        publishProjectEvent project (.executionStatus id .cancelled)
        return (⟨id, execution⟩ : ExecutionOut)) (Orderly id rounds)
      (fun out es u => Decides project id es u out) (fun e es _ => Excused e es) := by
  refine (h.meets (o := .refresh id) rfl (by rintro ⟨⟩) (by rintro ⟨⟩)
    (Q := fun (row : Execution) es u => row.status = .cancelled ∧ Cancelled p id es u)
    fun row before after hrun hclean hstatus hnow u hu => ⟨?_, hnow.rely hu⟩).bind fun row es u _ hread => ?_
  · obtain ⟨env, hrun⟩ := hrun
    simp only [Op.run, visible_of_clean hclean] at hrun
    split at hrun
    · next row' hrow =>
      cases hrun
      rw [Database.status?, hrow] at hstatus
      exact Option.some.inj hstatus
    · cases hrun
  obtain ⟨hrow, hcancelled⟩ := hread u ((relyOn p).refl u)
  refine (hcancelled.meets (o := .hdel id) rfl (by rintro ⟨⟩) (by rintro ⟨⟩)
    (Q := fun _ es u => Cancelled p id es u)
    fun _ before after _ _ _ hnow u hu => hnow.rely hu).bind fun _ es u _ hcancelled => ?_
  refine ((hcancelled u ((relyOn p).refl u)).meets (o := .publish (.cancel id)) rfl (by rintro ⟨⟩)
    (by rintro ⟨⟩) (Q := fun _ es u => Cancelled p id es u ∧
      ∃ e ∈ es, e.call = ⟨.publish (.cancel id), .ok ()⟩)
    fun _ before after _ _ _ hnow u hu =>
      ⟨hnow.rely hu, _, List.mem_append_right _ List.mem_cons_self, rfl⟩).bind fun _ es u _ hsignalled => ?_
  obtain ⟨hcancelled, e, he, hsignal⟩ := hsignalled u ((relyOn p).refl u)
  refine (hcancelled.meets (o := .publish (.exec project (.executionStatus id .cancelled))) rfl
    (by rintro ⟨⟩) (by rintro ⟨⟩) (Q := fun _ es u => Cancelled p id es u ∧
      (∃ e ∈ es, e.call = ⟨.publish (.cancel id), .ok ()⟩) ∧
      ∃ e ∈ es, e.call = ⟨.publish (.exec project (.executionStatus id .cancelled)), .ok ()⟩)
    fun _ before after _ _ _ hnow u hu => ⟨hnow.rely hu, ⟨e, List.mem_append_left _ he, hsignal⟩,
      _, List.mem_append_right _ List.mem_cons_self, rfl⟩).bind fun _ es u horderly htold => ?_
  refine .pure horderly fun v hv => ?_
  obtain ⟨hcancelled, hsignal, hpublish⟩ := htold v hv
  exact ⟨rfl, by rw [hrow]; rfl, by rw [Service.isFinished, hcancelled.status]; rfl,
    .inl ⟨hcancelled.cancels, hsignal, hpublish⟩⟩

/-- What the request has done when its session is closed. -/
theorem cancelExecution_meets (h : Opening p id past st) :
    (relyOn p).Meets (service s t) p past st (cancelExecution project user id rounds) (Orderly id rounds)
      (fun out es u => Decides project id es u out) (fun e es _ => Excused e es) := by
  have hrefused : ∀ (status : Nat) (detail : String) (es : List ServiceEntry), status = 403 ∨ status = 404 →
      Excused (.http status detail) es := by
    rintro status detail es (rfl | rfl)
    · exact .inl ⟨detail, .inl rfl⟩
    · exact .inl ⟨detail, .inr rfl⟩
  have hmember : (relyOn p).Meets (service s t) p past st (getMember project user) (Orderly id rounds)
      (fun _ es u => Opening p id es u) (fun e es _ => Excused e es) := by
    refine (Opening.stage.meets_reading (o := .getMember project user) rfl rfl (fun h => nomatch h)
      (fun h => nomatch h) h (Q := fun _ es u => Opening p id es u) fun _ before es hes _ u hu => hes.rely hu).bind
      fun member es u horderly hopening => ?_
    exact .orRaise horderly (fun _ _ => hopening) fun _ _ _ => hrefused 403 _ es (.inl rfl)
  refine hmember.bind fun member es u horderly hopening => ?_
  refine (Rely.Meets.require (Q := fun _ es u => Opening p id es u) horderly (fun _ => hopening)
    fun _ _ _ => hrefused 403 _ es (.inl rfl)).bind fun _ es u _ hopening => ?_
  refine (hopening u ((relyOn p).refl u)).meets_getExecution.bind fun found es u horderly hfound => ?_
  refine (Rely.Meets.orRaise (Q := fun row es u => Waiting p id row.status.rank es u) horderly
    (fun row hrow v hv => ?_) fun _ _ _ => hrefused 404 _ es (.inr rfl)).bind fun row es u horderly hwaiting => ?_
  · exact hfound v hv row (Option.filter_eq_some_iff.1 hrow).1
  refine (cancelLoop_meets rounds (fun hmany => Nat.le_trans hmany (Nat.le_add_right _ _))
    (hwaiting u ((relyOn p).refl u)) horderly).bind fun res es u horderly hres => ?_
  cases res with
  | some finished =>
    refine .pure horderly fun v hv => ?_
    obtain ⟨hfin, hwaiting⟩ := hres v hv
    obtain ⟨now, hnow, hrank⟩ := hwaiting.seen
    have hnowFinished : now.finished = true := by
      have := now.rank_le
      rw [ExecutionStatus.finished_iff_rank.1 hfin] at hrank
      exact ExecutionStatus.finished_iff_rank.2 (by omega)
    exact ⟨rfl, hfin, by rw [Service.isFinished, hnow]; exact hnowFinished, .inr hwaiting.harmless⟩
  | none =>
    refine (hres u ((relyOn p).refl u)).meets_commit.bind fun _ es u _ hcancelled => ?_
    exact (hcancelled u ((relyOn p).refl u)).meets_tell

/-- Closing the session changes nothing that others see. -/
theorem meets_close (horderly : Orderly id rounds past none)
    {Q : Unit → List ServiceEntry → Service → Prop}
    (hQ : ∀ before, (relyOn p).step st before →
      Harmless ⟨p, ⟨.close, .ok ()⟩, before, { before with db := before.db.rollback p }⟩ →
      ∀ u, (relyOn p).step { before with db := before.db.rollback p } u →
        Q () (past ++ [⟨p, ⟨.close, .ok ()⟩, before, { before with db := before.db.rollback p }⟩]) u)
    {E : PyError → List ServiceEntry → Service → Prop} :
    (relyOn p).Meets (service s t) p past st (await .close) (Orderly id rounds) Q E := by
  have hstart : Orderly id rounds past (some .close) :=
    { horderly with goesOn := fun _ hnext => nomatch hnext }
  refine Rely.Meets.call hstart fun before env x after hst _ _ hexec => ?_
  have hrun : Op.run p env before .close = some (x, after) := by
    rcases Op.exec_eq_some hexec with hx | ⟨htarget, -⟩
    · exact hx
    · exact absurd rfl htarget
  cases hrun
  exact ⟨horderly.concat rfl rfl (fun _ hread => nomatch hread), fun u hu => hQ before hst ⟨rfl, rfl, rfl, rfl⟩ u hu⟩

theorem isFinished_rely {st' : Service} (h : st.isFinished id = true) (hst : st.db.Onward st'.db) :
    st'.isFinished id = true := by
  obtain ⟨status, hstatus, hfin⟩ := (Option.any_eq_true _ _).1 h
  obtain ⟨status', hstatus', rfl | hlt⟩ := hst.exists_of_some hstatus
  · rw [Service.isFinished, hstatus']
    exact hfin
  · have hle := status'.rank_le
    rw [ExecutionStatus.finished_iff_rank.1 hfin] at hlt
    omega

/-- What a request that cancels has done at every point. -/
theorem request_meets :
    (relyOn p).Meets (service s t) p [] (service s t).init
      ((Request.cancelExecution project user id rounds).program s) (Orderly id rounds)
      (fun res es u => ∃ out, res = .cancelled out ∧ Decides project id es u out)
      (fun e es _ => Excused e es) := by
  have hopening : Opening p id [] (service s t).init := ⟨rfl, (fun _ h => nomatch h), rfl, (fun _ h => nomatch h)⟩
  refine Rely.Meets.map (Rely.Meets.andFinally (fun out es u => Decides project id es u out)
    (fun e es _ => Excused e es) (cancelExecution_meets hopening) (fun out es u horderly hdecides => ?_) fun e es u horderly hexcused => ?_)
    fun out es u hdecides => ⟨out, rfl, hdecides⟩
  · refine meets_close horderly fun before hst hharmless v hv => ?_
    obtain ⟨hsame, hfinished, hisFinished, heither⟩ := hdecides before hst
    refine ⟨hsame, hfinished, isFinished_rely hisFinished hv.2, ?_⟩
    rcases heither with ⟨⟨e₁, he₁, h₁⟩, ⟨e₂, he₂, h₂⟩, e₃, he₃, h₃⟩ | hnone
    · exact .inl ⟨⟨e₁, List.mem_append_left _ he₁, h₁⟩, ⟨e₂, List.mem_append_left _ he₂, h₂⟩,
        e₃, List.mem_append_left _ he₃, h₃⟩
    · exact .inr (forall_concat hnone hharmless)
  · refine meets_close horderly fun before hst _ v _ => ?_
    rcases hexcused before hst with hrefused | ⟨e', he', hfailed⟩
    · exact .inl hrefused
    · exact .inr ⟨e', List.mem_append_left _ he', hfailed⟩

end Request

/-! ## Runs -/

/-- The length of the status order that is left from a status on. -/
def ExecutionStatus.remaining (status : ExecutionStatus) : Nat := 4 - status.rank

/-- The operations of one process. -/
def operationsOf (cfg : JournalConfig) (p : Pid) : List ServiceEntry := cfg.shared.2.filter (·.pid = p)

/-- The process has made the only change that finishes the execution, has signalled and published it, and no
other request to cancel the execution has told anyone anything. -/
def CancelledBy (cfg : JournalConfig) (p : Pid) (project : ProjectId) (id : ExecutionId) : Prop :=
  (∃ e ∈ operationsOf cfg p, Cancels id e ∧ ∀ e' ∈ cfg.shared.2, Finishes id e' → e' = e) ∧
  (∃ e ∈ operationsOf cfg p, e.call = ⟨.publish (.cancel id), .ok ()⟩) ∧
  (∃ e ∈ operationsOf cfg p, e.call = ⟨.publish (.exec project (.executionStatus id .cancelled)), .ok ()⟩) ∧
  ∀ q ≠ p, ∀ project' user rounds rest,
    cfg.procs q = some ⟨.cancelExecution project' user id rounds, rest⟩ →
      ∀ e ∈ operationsOf cfg q, e.call.1.isPublish = false

/-- Another process has finished the execution, and this one has changed nothing and told nobody. -/
def FinishedByAnother (cfg : JournalConfig) (p : Pid) (id : ExecutionId) : Prop :=
  (∃ e ∈ cfg.shared.2, e.pid ≠ p ∧ Finishes id e) ∧ ∀ e ∈ operationsOf cfg p, Harmless e

section Runs

variable {s : Settings} {t : Tables} {cfg : JournalConfig} {p : Pid} {project : ProjectId} {user : UserId}
  {id : ExecutionId} {rounds : Nat}
  {rest : Program Op (fun o => Except PyError o.Val) (Except PyError Outcome)}

theorem Cancels.finishes {e : ServiceEntry} (h : Cancels id e) : Finishes id e :=
  ⟨h.before, by rw [Service.isFinished, h.after]; rfl⟩

/-- An execution is finished once. -/
theorem finishes_unique (h : (journal s t).system.Reachable cfg) {e e' : ServiceEntry}
    (he : e ∈ cfg.shared.2) (he' : e' ∈ cfg.shared.2) (hf : Finishes id e) (hf' : Finishes id e') : e' = e := by
  have hpairwise : cfg.shared.2.Pairwise fun e e' => e.after.db.Onward e'.before.db :=
    (Machine.journal_pairwise (fun st st' => st.db.Onward st'.db) (fun st => .refl st.db)
      (fun h h' => h.trans h') (fun _ _ _ _ hcfg hstep => onward_of_step hcfg hstep) h).1
  have honce : cfg.shared.2.Pairwise fun e e' => ¬(Finishes id e ∧ Finishes id e') := by
    refine hpairwise.imp fun {e e'} honward hboth => ?_
    have hstays := isFinished_rely hboth.1.2 honward
    rw [hboth.2.1] at hstays
    cases hstays
  by_contra hne
  have hsymm : Std.Symm fun e e' : ServiceEntry => ¬(Finishes id e ∧ Finishes id e') :=
    ⟨fun _ _ hnot hboth => hnot hboth.symm⟩
  exact honce.forall he' he hne ⟨hf', hf⟩

/-- **Cancelling ends decided.** A request that cancels an execution loses at most as many writes as there
are statuses left after the one it has read. When it ends, the execution is finished: either the request has
made the only change that finishes it, and has signalled it, or another writer has, and the request has
changed nothing. It fails only if it is refused, or if one of its own operations fails. -/
theorem cancel_ends_decided (h : (journal s t).system.Reachable cfg)
    (hp : cfg.procs p = some ⟨.cancelExecution project user id rounds, rest⟩) :
    (∀ e ∈ operationsOf cfg p, ∀ row, e.call = ⟨.getExecution id, .ok (some row)⟩ →
      lostAttempts (operationsOf cfg p) ≤ row.status.remaining) ∧
    (4 ≤ rounds → rest.next? ≠ some .outOfRounds) ∧
    (∀ error, rest = .ret (.error error) → Excused error (operationsOf cfg p)) ∧
    ∀ outcome, rest = .ret (.ok outcome) →
      ∃ out, outcome = .cancelled out ∧ out.id = id ∧ out.execution.status.finished = true ∧
        cfg.shared.1.isFinished id = true ∧
        (CancelledBy cfg p project id ∨ FinishedByAnother cfg p id) := by
  have hsees := sees_of_journal h hp
  have hmeets : (relyOn p).Meets (service s t) p [] (service s t).init
      ((Request.cancelExecution project user id rounds).program s) (Orderly id rounds)
      (fun res es u => ∃ out, res = .cancelled out ∧ Decides project id es u out)
      (fun e es _ => Excused e es) := request_meets
  have horderly : Orderly id rounds (operationsOf cfg p) rest.next? := hmeets.always hsees
  refine ⟨fun e he row hrow => ?_, horderly.goesOn, ?_, ?_⟩
  · have := horderly.attempts e he row hrow
    rw [ExecutionStatus.remaining]
    omega
  · rintro error rfl
    exact hmeets.error hsees
  · rintro outcome rfl
    obtain ⟨out, rfl, hsame, hfinished, hisFinished, heither⟩ := hmeets.ok hsees
    refine ⟨out, rfl, hsame, hfinished, hisFinished, ?_⟩
    rcases heither with ⟨⟨e, he, hcancels⟩, hsignal, hpublish⟩ | hharmless
    · have hmem : e ∈ cfg.shared.2 := List.mem_of_mem_filter he
      refine .inl ⟨⟨e, he, hcancels, fun e' he' hf' => finishes_unique h hmem he' hcancels.finishes hf'⟩,
        hsignal, hpublish, ?_⟩
      intro q hq project' user' rounds' rest' hq' e' he'
      have horderly' : Orderly id rounds' (operationsOf cfg q) rest'.next? :=
        request_meets.always (sees_of_journal h hq')
      by_contra hpublishes
      obtain ⟨e'', he'', hcancels''⟩ := horderly'.signals ⟨e', he', by simpa using hpublishes⟩
      have hsame := finishes_unique h hmem (List.mem_of_mem_filter he'') hcancels.finishes hcancels''.finishes
      have hpidq : e''.pid = q := by simpa using (List.mem_filter.1 he'').2
      have hpidp : e.pid = p := by simpa using (List.mem_filter.1 he).2
      exact hq (by rw [← hpidq, hsame, hpidp])
    · refine .inr ⟨?_, hharmless⟩
      obtain ⟨e, he, hbefore, hafter⟩ := Machine.exists_turn (P := fun st => st.isFinished id = true) h
        (by simp [service, Service.isFinished, Database.status?]) hisFinished
      refine ⟨e, he, fun hpid => ?_, by simpa using hbefore, hafter⟩
      have hsameRows := (hharmless e (List.mem_filter.2 ⟨he, by simpa using hpid⟩)).executions
      refine hbefore ?_
      simpa only [Service.isFinished, Database.status?, hsameRows] using hafter

end Runs

/-- A run is queued, a request to cancel it reads it, a worker claims it, and the request goes on. -/
def cancelBehindAWorker : List (Label Env Request) :=
  .spawn 0 (.startRun { project := 0, user := 0, username := "ada", file := 0 }) :: undisturbed 0 13 ++
    .spawn 2 (.cancelExecution 0 0 0 4) :: undisturbed 2 2 ++
    .spawn 1 (.workerRound "worker") :: undisturbed 1 1 ++ .run 1 { order := [0] } :: undisturbed 1 7 ++
    undisturbed 2 14

/-- The request of process 2 has ended well after one lost attempt, and has told someone. -/
def lostOnce (cfg : JournalConfig) : Bool :=
  match cfg.procs 2 with
  | some ⟨.cancelExecution 0 0 0 4, .ret (.ok _)⟩ =>
    lostAttempts (operationsOf cfg 2) = 1 && (operationsOf cfg 2).any fun e => e.call.1.isPublish
  | _ => false

theorem cancel_ends_decided_behind : ∃ (cfg : JournalConfig) (out : ExecutionOut),
    (journal {} .single).system.Reachable cfg ∧ lostAttempts (operationsOf cfg 2) = 1 ∧
      out.execution.status.finished = true ∧ CancelledBy cfg 2 0 0 := by
  have hrun : ((journal {} .single).system.replay System.anyStep (journal {} .single).system.init
      cancelBehindAWorker).any lostOnce = true := by decide +kernel
  obtain ⟨cfg, hcfg, hlost⟩ := System.exists_reachable hrun
  unfold lostOnce at hlost
  split at hlost
  · next outcome hp =>
    obtain ⟨hone, htold⟩ := Bool.and_eq_true_iff.1 hlost
    obtain ⟨out, -, -, hfinished, -, heither⟩ := (cancel_ends_decided hcfg hp).2.2.2 outcome rfl
    refine ⟨cfg, out, hcfg, of_decide_eq_true hone, hfinished, heither.resolve_right fun hanother => ?_⟩
    obtain ⟨e, he, hpublish⟩ := List.any_eq_true.1 htold
    rw [(hanother.2 e he).silent] at hpublish
    cases hpublish
  · cases hlost

end Concord
