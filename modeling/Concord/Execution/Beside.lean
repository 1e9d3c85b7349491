import Concord.Execution.Cancel
import Concord.Queue.Origins

/-!
# A process beside the others

What a process of the service relies on, with the events and the debug sessions. A phase of a process is a condition
on what it has done and on the shared state that the others leave alone, and so does every operation of its own that
does not concern the database (`Phase`); a program of such operations remains in its phase (`Remains`).
-/

namespace Concord

open Concord.Base Async ExecutionStatus

/-- What the others do while process `p` goes on. -/
structure Beside (p : Pid) (st st' : Service) : Prop where
  tx : st'.db.tx p = st.db.tx p
  onward : st.db.Onward st'.db
  events : st.db.events <+: st'.db.events
  sessions : ∀ e, st.db.executions e ≠ none → st.db.SessionsClosed e → st'.db.SessionsClosed e

theorem exists_of_onward {db db' : Database} (h : db.Onward db') {e : ExecutionId} (he : db.executions e ≠ none) :
    db'.executions e ≠ none := by
  obtain ⟨row, hrow⟩ := Option.ne_none_iff_exists'.1 he
  have hstatus : db.status? e = some row.status := by rw [Database.status?, hrow]; rfl
  obtain ⟨status, hstatus', -⟩ := h.exists_of_some hstatus
  obtain ⟨row', hrow', -⟩ := Option.map_eq_some_iff.1 hstatus'
  rw [hrow']
  exact Option.some_ne_none row'

theorem Beside.refl (p : Pid) (st : Service) : Beside p st st := ⟨rfl, .refl _, List.prefix_rfl, fun _ _ h => h⟩

theorem Beside.trans {p : Pid} {st st' st'' : Service} (h : Beside p st st') (h' : Beside p st' st'') :
    Beside p st st'' where
  tx := h'.tx.trans h.tx
  onward := h.onward.trans h'.onward
  events := h.events.trans h'.events
  sessions e he hclosed := h'.sessions e (exists_of_onward h.onward he) (h.sessions e he hclosed)

def besideRely (p : Pid) : Rely Service where
  known st := (∃ owed, LogInv st.db owed) ∧ Origins st
  step := Beside p
  refl := .refl p
  trans := .trans

/-! ## Operations -/

/-- A statement of the database that has failed. -/
def ServiceCall.isBroken (c : ServiceCall) : Bool := decide (c.1.target = .database) && c.isFailed

/-- A statement of the database has failed. -/
def Broken (entries : List ServiceEntry) : Prop := ∃ e ∈ entries, ServiceCall.isBroken e.call = true

/-- The operation has changed no committed row. -/
structure Unseen (e : ServiceEntry) : Prop where
  executions : e.after.db.executions = e.before.db.executions
  events : e.after.db.events = e.before.db.events
  debugSessions : e.after.db.debugSessions = e.before.db.debugSessions

theorem unseen_of_db {e : ServiceEntry} (h : e.after.db = e.before.db) : Unseen e :=
  ⟨congrArg _ h, congrArg _ h, congrArg _ h⟩

section Operations

variable {s : Settings} {t : Tables} {p q : Pid} {env : Env} {o : Op} {x : Except PyError o.Val} {st st' : Service}

/-- Whatever an operation keeps if it goes through, it keeps if it fails. -/
theorem exec_keeps {P : Service → Prop} (h : o.exec q env st = some (x, st')) (hst : P st)
    (hrun : ∀ y, o.run q env st = some (y, st') → P st') : P st' := by
  rcases Op.exec_eq_some h with hx | ⟨-, -, ⟨-, rfl⟩ | ⟨-, y, hy⟩⟩
  · exact hrun x hx
  · exact hst
  · exact hrun y hy

/-- Only a commit changes committed rows. -/
theorem unseen_of_exec (ho : o ≠ .commit) (h : o.exec p env st = some (x, st')) :
    Unseen ⟨p, ⟨o, x⟩, st, st'⟩ := by
  have hkept := exec_keeps (P := fun u => u.db.executions = st.db.executions ∧ u.db.events = st.db.events ∧
    u.db.debugSessions = st.db.debugSessions) h ⟨rfl, rfl, rfl⟩ fun y hy => Op.run_committed ho hy
  exact ⟨hkept.1, hkept.2.1, hkept.2.2⟩

theorem exec_db (ho : o.writesDb = false) (h : o.exec p env st = some (x, st')) : st'.db = st.db :=
  exec_keeps (P := fun u => u.db = st.db) h rfl fun _ hy => Op.run_db ho hy

/-- An operation that succeeds has gone through. -/
theorem run_of_exec_ok {v : o.Val} (h : o.exec p env st = some (.ok v, st')) : o.run p env st = some (.ok v, st') := by
  rcases Op.exec_eq_some h with hx | ⟨-, hx, -⟩
  · exact hx
  · cases hx

/-- Nothing keeps an operation within the process from going through. -/
theorem run_of_inProcess (ho : o.target = .inProcess) (h : o.exec p env st = some (x, st')) :
    o.run p env st = some (x, st') :=
  (Op.exec_eq_some h).resolve_right fun hfault => hfault.1 ho

theorem broken_concat (ho : o.target = .database) (past : List ServiceEntry) (e : PyError) (before after : Service) :
    Broken (past ++ [⟨p, ⟨o, .error e⟩, before, after⟩]) := by
  refine ⟨_, List.mem_append_right _ List.mem_cons_self, ?_⟩
  simp [ServiceCall.isBroken, ServiceCall.isFailed, ho]

/-- Redis raises what is handled as a failure of the transport. -/
theorem isTransport_of_redis (ho : o.target = .redis) (hrun : ∀ env st e st', o.run p env st ≠ some (.error e, st'))
    {e : PyError} (h : o.exec p env st = some (.error e, st')) : e.isTransport = true := by
  rcases Op.exec_eq_some h with hx | ⟨-, hx, -⟩
  · exact absurd hx (hrun env st e st')
  · obtain rfl := Except.error.inj hx
    rw [ho]
    unfold Target.error
    dsimp only
    split <;> rfl

theorem run_sessionsClosed (horigins : Origins st) (h : o.run q env st = some (x, st')) {e : ExecutionId}
    (he : st.db.executions e ≠ none) (hclosed : st.db.SessionsClosed e) : st'.db.SessionsClosed e := by
  by_cases ho : o = .commit
  · subst ho
    cases h
    exact hclosed.commit fun hinserts => he (horigins.recorded q e hinserts).1
  · unfold Database.SessionsClosed
    rw [(Op.run_committed ho h).2.2]
    exact hclosed

theorem beside_of_step {cfg cfg' : ServiceConfig} (hcfg : (service s t).system.Reachable cfg) (hq : q ≠ p)
    (hstep : (service s t).step cfg (.run q env) = some cfg') : Beside p cfg.shared cfg'.shared := by
  have honward := onward_of_step hcfg hstep
  have horigins := origins_of_reachable hcfg
  obtain ⟨r, o, k, x, st, -, hexec, rfl⟩ := Machine.step_run.1 hstep
  refine ⟨exec_tx_of_ne hexec (Ne.symm hq), honward, ?_, fun e he hclosed => ?_⟩
  · exact exec_keeps (P := fun st => cfg.shared.db.events <+: st.db.events) hexec List.prefix_rfl
      fun y hy => Op.run_events hy
  · exact exec_keeps (P := fun st => st.db.SessionsClosed e) hexec hclosed
      fun y hy => run_sessionsClosed horigins hy he hclosed

/-- What a process sees in a run of the service. -/
theorem besideSees_of_journal {cfg : JournalConfig} (h : (journal s t).system.Reachable cfg) {r : Request}
    {rest : Program Op (fun o => Except PyError o.Val) (Except PyError Outcome)} (hp : cfg.procs p = some ⟨r, rest⟩) :
    (besideRely p).Sees (service s t) p (r.program s).run (service s t).init (operationsOf cfg p) rest
      cfg.shared.1 :=
  Rely.sees_of_reachable (R := besideRely p)
    (fun _ hcfg => (⟨logInv_of_reachable hcfg, origins_of_reachable hcfg⟩ : _ ∧ _))
    (fun _ _ _ _ hcfg hq hstep => beside_of_step hcfg hq hstep) h hp

end Operations

/-! ## Phases -/

/-- A condition on what process `p` has done and on the shared state. It implies `always`, the others leave it alone,
and so do operations that do not concern the database and are `fine`. -/
structure Phase (p : Pid) (fine : ServiceEntry → Prop) (always : List ServiceEntry → Prop)
    (I : List ServiceEntry → Service → Prop) : Prop where
  always : ∀ {entries st}, I entries st → always entries
  beside : ∀ {entries st st'}, I entries st → Beside p st st' → I entries st'
  aside : ∀ {entries st st'} {o : Op} {x : Except PyError o.Val}, I entries st → st'.db = st.db →
    fine ⟨p, ⟨o, x⟩, st, st'⟩ → I (entries ++ [⟨p, ⟨o, x⟩, st, st'⟩]) st'

section Phases

variable {s : Settings} {t : Tables} {p : Pid} {fine : ServiceEntry → Prop} {always : List ServiceEntry → Prop}
  {I : List ServiceEntry → Service → Prop} {past : List ServiceEntry} {st : Service}

/-- The rule of an operation that does not concern the database. -/
theorem Phase.meets (hI : Phase p fine always I) {o : Op} (ho : o.writesDb = false)
    (hfine : ∀ x before after, I past before → fine ⟨p, ⟨o, x⟩, before, after⟩) (h : I past st)
    {Q : o.Val → List ServiceEntry → Service → Prop} {E : PyError → List ServiceEntry → Service → Prop}
    (hQ : ∀ v env before after, I (past ++ [⟨p, ⟨o, .ok v⟩, before, after⟩]) after →
      o.run p env before = some (.ok v, after) → ∀ u, Beside p after u →
        Q v (past ++ [⟨p, ⟨o, .ok v⟩, before, after⟩]) u)
    (hE : ∀ e env before after, o.exec p env before = some (.error e, after) → ∀ u,
      I (past ++ [⟨p, ⟨o, .error e⟩, before, after⟩]) u → E e (past ++ [⟨p, ⟨o, .error e⟩, before, after⟩]) u) :
    (besideRely p).Meets (service s t) p past st (await o) (fun es _ => always es) Q E := by
  refine Rely.Meets.call (hI.always h) fun before env x after hst _ _ hexec => ?_
  have hbefore := hI.beside h hst
  have hnow := hI.aside hbefore (exec_db ho hexec) (hfine x before after hbefore)
  refine ⟨hI.always hnow, fun u hu => ?_⟩
  cases x with
  | error e => exact hE e env before after hexec u (hI.beside hnow hu)
  | ok v => exact hQ v env before after hnow (run_of_exec_ok hexec) u hu

/-- The clock does not fail. -/
theorem Phase.meets_clock (hI : Phase p fine always I)
    (hfine : ∀ x before after, fine ⟨p, ⟨.clock, x⟩, before, after⟩) (h : I past st)
    {E : PyError → List ServiceEntry → Service → Prop} :
    (besideRely p).Meets (service s t) p past st (await .clock) (fun es _ => always es) (fun _ es u => I es u) E := by
  refine Rely.Meets.call (hI.always h) fun before env x after hst _ _ hexec => ?_
  have hrun := run_of_inProcess rfl hexec
  cases hrun
  have hnow := hI.aside (x := .ok env.now) (hI.beside h hst) rfl (hfine _ _ _)
  exact ⟨hI.always hnow, fun u hu => hI.beside hnow hu⟩

/-- Closing the session of a request. -/
theorem meets_closing (halways : ∀ {es st}, I es st → always es)
    (hbeside : ∀ {es st st'}, I es st → Beside p st st' → I es st')
    (hclose : ∀ {es st}, I es st →
      I (es ++ [⟨p, ⟨.close, .ok ()⟩, st, { st with db := st.db.rollback p }⟩]) { st with db := st.db.rollback p })
    (h : I past st) {F : PyError → List ServiceEntry → Service → Prop} :
    (besideRely p).Meets (service s t) p past st (await .close) (fun es _ => always es) (fun _ es u => I es u) F := by
  refine Rely.Meets.call (halways h) fun before env x after hst _ _ hexec => ?_
  have hrun : Op.run p env before _ = some (x, after) := run_of_inProcess rfl hexec
  cases hrun
  have hnow := hclose (hbeside h hst)
  exact ⟨halways hnow, fun u hu => hbeside hnow hu⟩

variable (s t) in
/-- Wherever it begins within a phase, the program stays there; it raises what `raises` allows. -/
def Phase.Remains (_ : Phase p fine always I) (raises : PyError → Prop) {α : Type} (x : Py α) : Prop :=
  ∀ past st, I past st → (besideRely p).Meets (service s t) p past st x (fun es _ => always es)
    (fun _ es u => I es u) fun e es u => raises e ∧ I es u

namespace Phase.Remains

variable {α β : Type} {raises : PyError → Prop} {hI : Phase p fine always I}

theorem call {o : Op} (ho : o.writesDb = false) (hfine : ∀ x before after, fine ⟨p, ⟨o, x⟩, before, after⟩)
    (hraises : ∀ e env before after, o.exec p env before = some (.error e, after) → raises e) :
    hI.Remains s t raises (await o) := fun _ _ h =>
  hI.meets ho (fun x before after _ => hfine x before after) h (fun _ _ _ _ hnow _ _ hu => hI.beside hnow hu)
    fun e env before after hexec _ hnow => ⟨hraises e env before after hexec, hnow⟩

theorem pure (a : α) : hI.Remains s t raises (Pure.pure a) := fun _ _ h =>
  .pure (hI.always h) fun _ hu => hI.beside h hu

theorem throw {e : PyError} (he : raises e) : hI.Remains s t raises (MonadExcept.throw e : Py α) := fun _ _ h =>
  .throw (hI.always h) fun _ hu => ⟨he, hI.beside h hu⟩

theorem bind {x : Py α} {f : α → Py β} (h : hI.Remains s t raises x) (hf : ∀ a, hI.Remains s t raises (f a)) :
    hI.Remains s t raises (x >>= f) := fun past st hst =>
  (h past st hst).bind fun a es u _ hQ => hf a es u (hQ u (.refl p u))

theorem ite {c : Prop} [Decidable c] {x y : Py α} (hx : hI.Remains s t raises x) (hy : hI.Remains s t raises y) :
    hI.Remains s t raises (if c then x else y) := by
  split
  · exact hx
  · exact hy

theorem require (c : Bool) {e : PyError} (he : raises e) : hI.Remains s t raises (Async.require c e) := by
  unfold Async.require
  exact .ite (.pure ()) (.throw he)

theorem orRaise (x? : Option α) {e : PyError} (he : raises e) : hI.Remains s t raises (Async.orRaise x? e) := by
  cases x? with
  | some a => exact .pure a
  | none => exact .throw he

theorem tryExcept {x : Py α} {handled : PyError → Bool} {f : PyError → Py α} {inner : PyError → Prop}
    (h : hI.Remains s t inner x) (hf : ∀ e, handled e = true → hI.Remains s t raises (f e))
    (hup : ∀ e, inner e → handled e = false → raises e) :
    hI.Remains s t raises (Async.tryExcept x handled f) := fun past st hst =>
  (h past st hst).tryExcept (fun e es u hhandled _ hE => hf e hhandled es u (hE u (.refl p u)).2)
    fun e _ _ hhandled hE => ⟨hup e hE.1 hhandled, hE.2⟩

end Phase.Remains

end Phases

end Concord
