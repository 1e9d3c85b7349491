import Concord.Execution.Steady
import Concord.Queue.Custody

/-!
# No stranded run

A start commits its execution before it sets the queue entry, a worker removes the entry before it
claims the execution. A failure in between leaves the execution queued with nobody to run it: the
worker's loop drops the exception, and the sweep looks at started executions only.
`_fail_undelivered_run` covers a failed `HSET`, but not a failure on its own way or before it. In
runs without these failures every queued execution is waiting or held by a worker.
-/

namespace Concord

open Concord.Base Async ExecutionStatus

namespace Service

variable (st : Service) (p : Pid) (e : ExecutionId)

/-- The execution is queued by `p`, and its entry was never set. -/
def stranding : Bool :=
  (st.db.executions e).any (fun row => row.status = queued && row.createdBy = p) &&
    st.redis.log.all fun c => !c.2.sets e

/-- The execution is queued, and `p` has written its claim and not committed it. -/
def claimPending : Bool :=
  st.db.status? e = some queued && ((st.db.tx p).executions e).any (·.status = starting)

/-- The execution is inserted by `p` and not committed. -/
def inserting : Bool := ((st.db.tx p).executions e).isSome && (st.db.executions e).isNone

end Service

/-- The operation, failing so, leaves the queued execution `e` to nobody: a worker's `HDEL` whose
answer is lost, a failed claim or a claim that is not committed, a start's commit whose answer is
lost, a statement that fails between a start's commit and its `HSET`, or in the compensation. -/
def Op.abandons (st : Service) (p : Pid) (e : ExecutionId) : Op → Fault → Bool
  | _, .none => false
  | .hdel id, .after => id = e && st.db.status? e = some queued && e ∈ st.redis.waitingIds
  | .hdel _, .before => false
  | .claimQueued id _ _ _ _, _ => id = e && st.db.status? e = some queued || st.stranding p e
  | .commit, .before => st.stranding p e || st.claimPending p e
  | .commit, .after => st.inserting p e
  | o, _ => o.target = .database && st.stranding p e

/-- No failure abandons an execution. -/
def deliveryKept (st : Service) (p : Pid) (_ : Request) (o : Op) (env : Env) : Prop :=
  ∀ e < st.db.nextExecution, o.abandons st p e env.fault = false

instance (st : Service) (p : Pid) (r : Request) (o : Op) (env : Env) :
    Decidable (deliveryKept st p r o env) :=
  inferInstanceAs (Decidable (∀ e < _, _ = false))

/-- Where a process stands while it holds an execution. -/
def Custody.Stands (r : Request) (o : Option Op) : Custody → Prop
  | holding payload => (∃ workerId, r = .workerRound workerId) ∧
      (o = some .clock ∨ ∃ project file workerId startedAt,
        o = some (.claimQueued payload.executionId project file workerId startedAt))
  | claiming _ => ∃ workerId, r = .workerRound workerId
  | _ => True

/-- The protocol of the delivery. That the event log is in step is known of every reachable
configuration. -/
def custodyProtocol (s : Settings) (t : Tables) : Protocol (service s t) Custody where
  Inv := CustodyInv
  At _ r g o := g.Stands r o
  ok st p r o env := deliveryKept st p r o env ∧ ∃ owed, LogInv st.db owed

theorem Custody.stands_of_keeps_none {g : Custody} (hg : g.keeps? = none) (r : Request)
    (o : Option Op) : g.Stands r o := by
  cases g with
  | holding | claiming => cases hg
  | _ => trivial

/-- Nobody answers for an execution that the failure would abandon. -/
theorem abandons_eq_false {st : Service} {p : Pid} {r : Request} {o : Op} {env : Env}
    (hok : deliveryKept st p r o env) {owed : SessionId → Owed} (hlog : LogInv st.db owed)
    {e : ExecutionId} {row : Execution} (hv : st.db.visible p e = some row) :
    o.abandons st p e env.fault = false :=
  hok e (hlog.lt_of_visible hv)

theorem Undelivered.stranding {st : Service} {p : Pid} {e : ExecutionId} {row : Execution}
    (hu : Undelivered st p e) (hrow : st.db.executions e = some row)
    (hqueued : row.status = queued) : st.stranding p e = true := by
  obtain ⟨⟨row', hrow', hby⟩, hset⟩ := hu
  rw [hrow] at hrow'
  obtain rfl := Option.some.inj hrow'
  simp only [Service.stranding, hrow, Option.any_some, hqueued, hby, decide_true, Bool.and_self,
    Bool.true_and, List.all_eq_true, Bool.not_eq_true']
  exact hset

/-- The operations that concern neither the rows of `executions` nor the queue hash. -/
def Op.touchesRows : Op → Bool
  | insertExecution _ _ _ | updateStatus _ _ _ _ | claimQueued _ _ _ _ _ | commit | rollback | close
  | hset _ _ | hgetall | hdel _ => true
  | _ => false

theorem Op.touchesRows_of_reads {o : Op} (ho : o.reads = true) : o.touchesRows = false := by
  cases o <;> first | rfl | cases ho

theorem Op.run_beside {p : Pid} {env : Env} {st st' : Service} {o : Op} {x : Except PyError o.Val}
    (ho : o.touchesRows = false) (h : o.run p env st = some (x, st')) :
    st'.db.executions = st.db.executions ∧
      (∀ q, (st'.db.tx q).executions = (st.db.tx q).executions) ∧
      st'.redis.queue = st.redis.queue ∧ st'.redis.log = st.redis.log := by
  cases hr : o.reads with
  | true =>
    rw [Op.run_reads hr h]
    exact ⟨rfl, fun _ => rfl, rfl, rfl⟩
  | false =>
    cases o <;> simp only [reads, touchesRows, Bool.true_eq_false] at hr ho <;>
      simp only [run, Option.some.injEq, Prod.mk.injEq] at h
    case addEvent id payload =>
      obtain ⟨-, rfl⟩ := h
      refine ⟨rfl, fun q => ?_, rfl, rfl⟩
      by_cases hq : q = p
      · subst hq
        simp [Database.addEvent]
      · simp [Database.addEvent, hq]
    case addDebugSession row =>
      obtain ⟨-, rfl⟩ := h
      exact ⟨rfl, fun q => Database.addDebugWrite_tx_executions _ _ _ _, rfl, rfl⟩
    case stopDebugSessions id endedAt =>
      obtain ⟨-, rfl⟩ := h
      exact ⟨rfl, fun q => Database.addDebugWrite_tx_executions _ _ _ _, rfl, rfl⟩
    case setActiveNx project info =>
      split at h <;> cases h <;> exact ⟨rfl, fun _ => rfl, rfl, rfl⟩
    all_goals
      obtain ⟨-, rfl⟩ := h
      exact ⟨rfl, fun _ => rfl, rfl, rfl⟩

section Operations

variable {s : Settings} {t : Tables} {p : Pid} {r : Request} {g : Custody}

/-! ## Operations beside the rows -/

theorem aside_custody {o : Op} (ho : o.touchesRows = false) (hs : g.Stands r (some o)) :
    (custodyProtocol s t).Steady p r g (await o) :=
  Steady.operation hs fun _ _ _ hinv _ _ _ _ hx =>
    have h := Op.run_beside ho hx
    CustodyInv.aside hinv h.1 h.2.1 h.2.2

theorem reading_custody (hg : g.keeps? = none) (o : Op) (ho : o.reads = true) :
    (custodyProtocol s t).Steady p r g (await o) :=
  aside_custody (Op.touchesRows_of_reads ho) (Custody.stands_of_keeps_none hg r _)

/-- An operation within the process does not fail. -/
theorem certain_custody {o : Op} {E : PyError → Custody → Prop} (ht : o.target = .inProcess)
    (ho : o.touchesRows = false) (hs : g.Stands r (some o))
    (hval : ∀ env st x st', o.run p env st = some (x, st') → ∃ a, x = .ok a) :
    (custodyProtocol s t).Triple p r g (await o) (fun _ g' => g' = g) E := by
  refine Triple.fallible hs (fun env st gs hinv hg _ x st' hx => ?_) (fun h => absurd ht h)
    fun h => absurd ht h
  have h := Op.run_beside ho hx
  obtain ⟨a, rfl⟩ := hval env st x st' hx
  refine ⟨g, ?_, rfl⟩
  rw [← hg, Function.update_eq_self]
  exact CustodyInv.aside hinv h.1 h.2.1 h.2.2

theorem clock_custody {E : PyError → Custody → Prop} (hs : g.Stands r (some .clock)) :
    (custodyProtocol s t).Triple p r g (await .clock) (fun _ g' => g' = g) E :=
  certain_custody rfl rfl hs fun _ _ _ _ hx => by
    cases hx
    exact ⟨_, rfl⟩

theorem addEvent_custody (id : ExecutionId) (payload : EventPayload) {E : PyError → Custody → Prop}
    (hs : g.Stands r (some (.addEvent id payload))) :
    (custodyProtocol s t).Triple p r g (await (.addEvent id payload)) (fun _ g' => g' = g) E :=
  certain_custody rfl rfl hs fun _ _ _ _ hx => by
    cases hx
    exact ⟨_, rfl⟩

/-! ## Delivering

A start that has committed its execution answers for it until the entry is set; from then on, or
when it is somebody else's, it is merely busy with it. -/

/-- A process that still owes the delivery of its execution, or does not. -/
def Custody.delivering (owed : Bool) (project : ProjectId) (file : FileId) (id : ExecutionId) :
    Custody :=
  if owed then .owing project file id else .busy

/-- What the process answers for was never set. -/
def Custody.Unsent (g : Custody) : Prop :=
  ∀ st p, g.Holds st p → st.db.NoInsert p ∧ ∀ id, g.keeps? = some id → Undelivered st p id

theorem Custody.unsent_delivering (owed : Bool) (project : ProjectId) (file : FileId)
    (id : ExecutionId) : (delivering owed project file id).Unsent := by
  intro st p h
  cases owed with
  | true => exact ⟨h.1.noInsert, fun id' hk => Option.some.inj hk ▸ h.2.2⟩
  | false => exact ⟨h, fun id' hk => nomatch hk⟩

theorem Custody.stands_delivering (owed : Bool) (project : ProjectId) (file : FileId)
    (id : ExecutionId) (r : Request) (o : Option Op) :
    (delivering owed project file id).Stands r o := by
  cases owed <;> trivial

theorem Custody.unsent_ending (owed : Bool) (id : ExecutionId) : (ending owed id).Unsent := by
  intro st p h
  cases owed with
  | true => exact ⟨h.1, fun id' hk => Option.some.inj hk ▸ h.2.2 rfl⟩
  | false => exact ⟨h.1, fun id' hk => nomatch hk⟩

/-- What a process answers for is not queued, if its operation fails and abandons nothing. -/
theorem Custody.Unsent.free (hg : g.Unsent) {st : Service} {gs : Pid → Custody}
    (hinv : CustodyInv st gs) (hgp : gs p = g)
    (hkept : ∀ e row, st.db.executions e = some row → st.stranding p e = false) :
    ∀ e row, (gs p).keeps? = some e → st.db.executions e = some row → row.status = queued →
      e ∈ st.redis.waitingIds ∨ Custody.busy.keeps? = some e := by
  intro e row hk hrow hqueued
  have hh := hinv.holds p
  rw [hgp] at hh hk
  have hs := ((hg st p hh).2 e hk).stranding hrow hqueued
  rw [hkept e row hrow] at hs
  cases hs

/-- A statement that fails and abandons nothing has left no execution undelivered. -/
theorem not_stranding {st : Service} {o : Op} {env : Env} (hok : (custodyProtocol s t).ok st p r o env)
    (hdb : o.target = .database) (hf : env.fault = .before ∨ env.fault = .after ∧ o ≠ .commit)
    (e : ExecutionId) (row : Execution) (hrow : st.db.executions e = some row) :
    st.stranding p e = false := by
  obtain ⟨hkept, owed, hlog⟩ := hok
  have hlt : e < st.db.nextExecution := by
    by_contra hlt
    rw [(hlog.fresh e (Nat.le_of_not_lt hlt)).1] at hrow
    cases hrow
  have h := hkept e hlt
  cases o <;> simp only [Op.target, reduceCtorEq] at hdb <;>
    rcases hf with hf | ⟨hf, hc⟩ <;> rw [hf] at h <;>
    simp_all [Op.abandons, Op.target]

/-- A statement that writes no execution, on the way of a delivery. -/
theorem look_custody {o : Op} (hg : g.Unsent) (ho : o.touchesRows = false)
    (hdb : o.target = .database) (hs : g.Stands r (some o))
    (hval : ∀ env st x st', g.Holds st p → o.run p env st = some (x, st') → ∃ a, x = .ok a) :
    (custodyProtocol s t).Triple p r g (await o) (fun _ g' => g' = g)
      fun _ g' => g'.keeps? = none := by
  have hnc : o ≠ .commit := by
    rintro rfl
    cases ho
  refine Triple.fallible hs (fun env st gs hinv hgp _ x st' hx => ?_)
    (fun _ env st gs hinv hgp hok hf => ?_) (fun _ env st gs hinv hgp hok hf x st' hx => ?_)
  · have h := Op.run_beside ho hx
    have hh := CustodyInv.holds hinv p
    rw [hgp] at hh
    obtain ⟨a, rfl⟩ := hval env st x st' hh hx
    refine ⟨g, ?_, rfl⟩
    rw [← hgp, Function.update_eq_self]
    exact CustodyInv.aside hinv h.1 h.2.1 h.2.2
  · have hh := CustodyInv.holds hinv p
    rw [hgp] at hh
    have hn := (hg st p hh).1
    refine ⟨.busy, CustodyInv.shift hinv hn (hg.free hinv hgp ?_), rfl⟩
    exact not_stranding hok hdb (.inl hf)
  · have h := Op.run_beside ho hx
    have hh := CustodyInv.holds hinv p
    rw [hgp] at hh
    have hn := (hg st p hh).1
    have hfree := hg.free hinv hgp (not_stranding hok hdb (.inr ⟨hf, hnc⟩))
    have hinv' := CustodyInv.shift hinv (c := .busy) hn hfree
    exact ⟨.busy, hinv'.aside h.1 h.2.1 h.2.2, rfl⟩

theorem insertExecution_custody (project : ProjectId) (file : FileId) (queuedAt : Seconds)
    (waiting : List (ExecutionId × Payload)) :
    (custodyProtocol s t).Triple p r (.scanned waiting)
      (await (.insertExecution project file queuedAt))
      (fun id g => g = .created project file id) fun _ g => g.keeps? = none := by
  refine Triple.operation trivial (fun _ _ => rfl) fun env st gs hinv hg hok x st' hx => ?_
  obtain ⟨-, owed, hlog⟩ := hok
  have hh := CustodyInv.holds hinv p
  rw [hg] at hh
  cases hx
  exact ⟨_, CustodyInv.insertExecution hinv hlog hh.1 (by rw [hg]; rfl) rfl, rfl, fun _ _ => rfl⟩

/-- A start's commit either fails, or its execution is queued and the start is told so. -/
theorem commit_created_custody (project : ProjectId) (file : FileId) (id : ExecutionId) :
    (custodyProtocol s t).Triple p r (.created project file id) (await .commit)
      (fun _ g => g = .owing project file id) fun _ g => g.keeps? = none := by
  refine Triple.fallible trivial (fun env st gs hinv hg hok x st' hx => ?_)
    (fun _ env st gs hinv hg _ _ => ⟨.created project file id, ?_, rfl⟩)
    (fun _ env st gs hinv hg hok hf x st' hx => ?_)
  · obtain ⟨-, owed, hlog⟩ := hok
    cases hx
    exact ⟨_, CustodyInv.commit_created hinv hlog hg, rfl⟩
  · rwa [← hg, Function.update_eq_self]
  · obtain ⟨hkept, owed, hlog⟩ := hok
    have hh := CustodyInv.holds hinv p
    rw [hg] at hh
    obtain ⟨hnone, ⟨row, hrow, -⟩, -⟩ := hh
    have hv : st.db.visible p id = some row := by simp [Database.visible, hrow]
    have hins := abandons_eq_false hkept hlog hv
    simp [hf, Op.abandons, Service.inserting, hrow, hnone] at hins

/-- A start whose delivery failed: the failure is one of Redis, unless it owes nothing. -/
def DeliveryFailed (project : ProjectId) (file : FileId) (id : ExecutionId) (e : PyError)
    (g : Custody) : Prop :=
  (∃ owed, g = .delivering owed project file id) ∧ (e.isTransport = false → g.keeps? = none)

theorem redis_isTransport (env : Env) : (Target.error env .redis).isTransport = true := by
  cases h : env.osError <;> simp [Target.error, h, PyError.isTransport]

/-- Once the entry is set, whatever is reported, the start owes nothing. -/
theorem hset_custody {payload : Payload} {project : ProjectId} {file : FileId}
    (hproject : payload.projectId = project) (hfile : payload.fileId = file) :
    (custodyProtocol s t).Triple p r (.owing project file payload.executionId)
      (await (.hset payload.executionId payload)) (fun _ g => g = .busy)
      (DeliveryFailed project file payload.executionId) := by
  refine Triple.fallible trivial (fun env st gs hinv hg _ x st' hx => ?_)
    (fun _ env st gs hinv hg _ _ => ?_) (fun _ env st gs hinv hg _ _ x st' hx => ?_)
  · cases hx
    exact ⟨_, CustodyInv.hset hinv hg rfl hproject hfile, rfl⟩
  · refine ⟨.owing project file payload.executionId, ?_, ⟨true, rfl⟩, fun he => ?_⟩
    · rwa [← hg, Function.update_eq_self]
    · rw [Op.target, redis_isTransport] at he
      cases he
  · cases hx
    exact ⟨_, CustodyInv.hset hinv hg rfl hproject hfile, ⟨false, rfl⟩, fun _ => rfl⟩

/-- A final status, written by the start or by anybody else: the row was not queued if it was not
written. -/
theorem updateStatus_custody (owed : Bool) (project : ProjectId) (file : FileId)
    (id : ExecutionId) {current target : ExecutionStatus} (fields : StatusFields)
    (hfin : target.finished = true) (hcurrent : owed = true → current = queued) :
    (custodyProtocol s t).Triple p r (.delivering owed project file id)
      (await (.updateStatus id current target fields))
      (fun changed g => g = if changed then .ending owed id else .busy)
      fun _ g => g.keeps? = none := by
  have hstands := Custody.stands_delivering owed project file id r
    (some (.updateStatus id current target fields))
  have hunsent := Custody.unsent_delivering owed project file id
  -- the update itself, before a process with ghost value `g'`
  have hwrite : ∀ (st : Service) (gs : Pid → Custody) (row : Execution) (g' : Custody),
      CustodyInv st gs → st.db.visible p id = some row →
      (∀ e row, (gs p).keeps? = some e → st.db.executions e = some row → row.status = queued →
        e ∈ st.redis.waitingIds ∨ g'.keeps? = some e) →
      g'.Holds { st with db := st.db.write p id (row.set target fields) } p →
      CustodyInv { st with db := st.db.write p id (row.set target fields) }
        (Function.update gs p g') :=
    fun st gs row g' hinv hv hfree hp => hinv.write hv (.set row target fields) hfree hp
  have hbusy : ∀ (st : Service) (gs : Pid → Custody) (row : Execution), CustodyInv st gs →
      gs p = .delivering owed project file id → st.db.visible p id = some row →
      (st.db.write p id (row.set target fields)).NoInsert p := by
    intro st gs row hinv hg hv
    have hh := hinv.holds p
    rw [hg] at hh
    exact (hunsent st p hh).1.write ((hunsent st p hh).1.committed hv) _
  refine Triple.fallible hstands (fun env st gs hinv hg hok x st' hx => ?_)
    (fun _ env st gs hinv hg hok hf => ?_) (fun _ env st gs hinv hg hok hf x st' hx => ?_)
  · have hh := CustodyInv.holds hinv p
    rw [hg] at hh
    obtain ⟨changed, db, hu, rfl, rfl⟩ := Op.run_updateStatus hx
    rcases Database.updateWhere_eq_some hu with ⟨rfl, hdb⟩ | ⟨rfl, row, hv, -, -, rfl⟩
    · rw [hdb]
      refine ⟨.busy, CustodyInv.shift hinv (hunsent st p hh).1 ?_, rfl⟩
      intro e row hk hrow hqueued
      -- only a row that was not queued does not match
      cases owed with
      | false =>
        rw [hg] at hk
        cases hk
      | true =>
        rw [hg] at hk
        obtain rfl := Option.some.inj hk
        have hne := Database.not_of_updateWhere_false hu ((hh.1.visible id).trans hrow)
        simp [hqueued, hcurrent rfl] at hne
    · refine ⟨.ending owed id, hwrite st gs row _ hinv hv ?_ ?_, rfl⟩
      · intro e row' hk _ _
        rw [hg] at hk
        cases owed with
        | true => exact .inr hk
        | false => cases hk
      · refine ⟨hbusy st gs row hinv hg hv,
          ⟨row.set target fields, by simp [Database.write], hfin⟩, ?_⟩
        rintro rfl
        exact ⟨hh.2.2.1, hh.2.2.2⟩
  · have hh := CustodyInv.holds hinv p
    rw [hg] at hh
    exact ⟨.busy, CustodyInv.shift hinv (hunsent st p hh).1
      (hunsent.free hinv hg (not_stranding hok rfl (.inl hf))), rfl⟩
  · have hfree := hunsent.free hinv hg (not_stranding hok rfl (.inr ⟨hf, by simp⟩))
    have hh := CustodyInv.holds hinv p
    rw [hg] at hh
    obtain ⟨changed, db, hu, rfl, rfl⟩ := Op.run_updateStatus hx
    rcases Database.updateWhere_eq_some hu with ⟨rfl, rfl⟩ | ⟨rfl, row, hv, -, -, rfl⟩
    · exact ⟨.busy, CustodyInv.shift hinv (hunsent st p hh).1 hfree, rfl⟩
    · exact ⟨.busy, hwrite st gs row _ hinv hv hfree (hbusy st gs row hinv hg hv), rfl⟩

/-- The commit of a final status. -/
theorem commit_ending_custody (owed : Bool) (id : ExecutionId) :
    (custodyProtocol s t).Triple p r (.ending owed id) (await .commit)
      (fun _ g => g = .settled id) fun _ g => g.keeps? = none := by
  have hunsent := Custody.unsent_ending owed id
  have hcommit : ∀ (st : Service) (gs : Pid → Custody), CustodyInv st gs → gs p = .ending owed id →
      (∃ owed, LogInv st.db owed) →
      CustodyInv { st with db := st.db.commit p } (Function.update gs p (.settled id)) := by
    rintro st gs hinv hg ⟨owed', hlog⟩
    have hh := hinv.holds p
    rw [hg] at hh
    obtain ⟨hn, ⟨row, hrow, hfin⟩, -⟩ := hh
    refine hinv.commit_written hlog hn hrow ?_ ?_
      ⟨Database.blank_commit.noInsert, row, by simp [Database.commit, Database.visible, hrow], hfin⟩
    · rintro hq
      rw [hq] at hfin
      cases hfin
    · intro e hk
      rw [hg] at hk
      cases owed with
      | true => exact (Option.some.inj hk).symm
      | false => cases hk
  refine Triple.fallible trivial (fun env st gs hinv hg hok x st' hx => ?_)
    (fun _ env st gs hinv hg hok hf => ?_) (fun _ env st gs hinv hg hok _ x st' hx => ?_)
  · cases hx
    exact ⟨_, hcommit st gs hinv hg hok.2, rfl⟩
  · have hh := CustodyInv.holds hinv p
    rw [hg] at hh
    exact ⟨.busy, CustodyInv.shift hinv hh.1
      (hunsent.free hinv hg (not_stranding hok rfl (.inl hf))), rfl⟩
  · cases hx
    exact ⟨_, hcommit st gs hinv hg hok.2, rfl⟩

/-- A session that answers for nothing closes. -/
theorem close_custody {E : PyError → Custody → Prop} (hg : g.keeps? = none) :
    (custodyProtocol s t).Triple p r g (await .close) (fun _ g' => g' = .busy) E := by
  refine Triple.fallible (Custody.stands_of_keeps_none hg r _)
    (fun env st gs hinv hgp _ x st' hx => ?_) (fun h => absurd rfl h) fun h => absurd rfl h
  cases hx
  refine ⟨.busy, CustodyInv.rollback hinv ?_ Database.blank_rollback.noInsert, rfl⟩
  intro e row hk
  rw [hgp, hg] at hk
  cases hk

theorem withSession_custody {α : Type} {x : Py α}
    (h : (custodyProtocol s t).Triple p r g x (fun _ g => g.keeps? = none)
      fun _ g => g.keeps? = none) :
    (custodyProtocol s t).Triple p r g (withSession x) (fun _ g => g = .busy)
      fun _ g => g = .busy :=
  h.andFinally (fun _ _ hg => close_custody hg) fun _ _ hg => close_custody hg

/-! ## Taking an entry and claiming its execution -/

theorem hgetall_scanned (waiting : List (ExecutionId × Payload)) :
    (custodyProtocol s t).Triple p r (.scanned waiting) (await .hgetall)
      (fun waiting' g => g = .scanned waiting') fun _ g => g.keeps? = none := by
  refine Triple.operation trivial (fun _ _ => rfl) fun env st gs hinv hg _ x st' hx => ?_
  have hh := CustodyInv.holds hinv p
  rw [hg] at hh
  obtain ⟨raw, hraw, rfl, rfl⟩ := Op.run_hgetall hx
  refine ⟨.scanned raw, CustodyInv.hgetall hinv (by rw [hg]; rfl) raw ⟨hh.1, fun entry he => ?_⟩, rfl,
    fun _ _ => rfl⟩
  exact CustodyInv.entries hinv entry (Redis.mem_of_hgetall hraw entry he)

/-- Whoever removes the entry answers for its execution. -/
theorem hdel_scanned {waiting : List (ExecutionId × Payload)} {best : ExecutionId}
    {payload : Payload} (hbest : waiting.lookup best = some payload) :
    (custodyProtocol s t).Triple p r (.scanned waiting) (await (.hdel best))
      (fun removed g => g = if removed then .holding payload else .scanned waiting)
      fun _ g => g.keeps? = none := by
  refine Triple.fallible trivial (fun env st gs hinv hg hok x st' hx => ?_)
    (fun _ env st gs hinv hg _ _ => ⟨.scanned waiting, ?_, rfl⟩)
    (fun _ env st gs hinv hg hok hf x st' hx => ?_)
  · have hh := CustodyInv.holds hinv p
    rw [hg] at hh
    have hmem : (best, payload) ∈ waiting := by
      obtain ⟨l₁, l₂, rfl, -⟩ := List.lookup_eq_some_iff.1 hbest
      exact List.mem_append_right _ List.mem_cons_self
    have hm := hh.2 _ hmem
    have hid : payload.executionId = best := hm.1
    have hkeep : (gs p).keeps? = none := by rw [hg]; rfl
    cases hx
    by_cases hw : best ∈ st.redis.waitingIds
    · refine ⟨.holding payload, CustodyInv.hdel hinv hkeep (fun _ _ _ _ => congrArg some hid)
        ⟨hh.1, hid ▸ hm, ?_⟩, ?_⟩
      · rw [hid, Redis.hdel_log]
        simp [hw]
      · exact (if_pos (decide_eq_true hw)).symm
    · refine ⟨.scanned waiting, CustodyInv.hdel hinv hkeep (fun _ _ _ hw' => absurd hw' hw) hh, ?_⟩
      exact (if_neg fun h => hw (of_decide_eq_true h)).symm
  · rwa [← hg, Function.update_eq_self]
  · obtain ⟨hkept, owed, hlog⟩ := hok
    have hh := CustodyInv.holds hinv p
    rw [hg] at hh
    cases hx
    refine ⟨.busy, CustodyInv.hdel hinv (by rw [hg]; rfl) (fun row hrow hqueued hw => ?_)
      hh.1.noInsert, rfl⟩
    have hfalse := abandons_eq_false hkept hlog ((hh.1.visible best).trans hrow)
    simp [hf, Op.abandons, Database.status?, hrow, hqueued, hw] at hfalse

/-- The entry of an execution that is finished may be removed. -/
theorem hdel_settled (id : ExecutionId) :
    (custodyProtocol s t).Steady p r (.settled id) (await (.hdel id)) := by
  refine Steady.operation trivial fun env st gs hinv hg _ x st' hx => ?_
  have hh := CustodyInv.holds hinv p
  rw [hg] at hh
  cases hx
  obtain ⟨row, hrow, hfin⟩ := hh.2
  have hdone : ∀ row, st.db.executions id = some row → row.status = queued →
      id ∈ st.redis.waitingIds → (Custody.settled id).keeps? = some id := by
    intro row' hrow' hqueued _
    rw [hrow] at hrow'
    cases hrow'
    rw [hqueued] at hfin
    cases hfin
  have hinv' := CustodyInv.hdel hinv (by rw [hg]; rfl) hdone hh
  rwa [← hg, Function.update_eq_self] at hinv'

/-- A claim that goes through or is made of an execution that is queued no more. -/
theorem claimQueued_custody (payload : Payload) (workerId : String) (startedAt : Seconds)
    {workerId' : String} :
    (custodyProtocol s t).Triple p (.workerRound workerId') (.holding payload)
      (await (.claimQueued payload.executionId payload.projectId payload.fileId workerId startedAt))
      (fun claimed g => g = if claimed then .claiming payload.executionId else .busy)
      fun _ g => g.keeps? = none := by
  -- the row of a claim that fails is not queued
  have hmissed : ∀ (st : Service) (gs : Pid → Custody) (env : Env), CustodyInv st gs →
      gs p = .holding payload → (custodyProtocol s t).ok st p (.workerRound workerId')
        (.claimQueued payload.executionId payload.projectId payload.fileId workerId startedAt) env →
      env.fault = .before ∨ env.fault = .after →
      ∀ row, st.db.executions payload.executionId = some row → row.status ≠ queued := by
    rintro st gs env hinv hg ⟨hkept, owed, hlog⟩ hf row hrow hqueued
    have hh := hinv.holds p
    rw [hg] at hh
    have hfalse := abandons_eq_false hkept hlog ((hh.1.visible payload.executionId).trans hrow)
    rcases hf with hf | hf <;> simp [hf, Op.abandons, Database.status?, hrow, hqueued] at hfalse
  have hbusy : ∀ (st : Service) (gs : Pid → Custody), CustodyInv st gs → gs p = .holding payload →
      (∀ row, st.db.executions payload.executionId = some row → row.status ≠ queued) →
      CustodyInv st (Function.update gs p .busy) := by
    intro st gs hinv hg hne
    have hh := hinv.holds p
    rw [hg] at hh
    refine hinv.shift hh.1.noInsert fun e row hk hrow hqueued => ?_
    rw [hg] at hk
    obtain rfl := Option.some.inj hk
    exact absurd hqueued (hne row hrow)
  refine Triple.fallible ⟨⟨_, rfl⟩, .inr ⟨_, _, _, _, rfl⟩⟩ (fun env st gs hinv hg hok x st' hx => ?_)
    (fun _ env st gs hinv hg hok hf => ?_) (fun _ env st gs hinv hg hok hf x st' hx => ?_)
  · have hh := CustodyInv.holds hinv p
    rw [hg] at hh
    obtain ⟨hb, ⟨-, row₀, hrow₀, hproject, hfile⟩, hlog⟩ := hh
    obtain ⟨claimed, db, hu, rfl, rfl⟩ := Op.run_claimQueued hx
    rcases Database.updateWhere_eq_some hu with ⟨rfl, hdb⟩ | ⟨rfl, row, hv, -, -, rfl⟩
    · rw [hdb]
      refine ⟨.busy, hbusy st gs hinv hg fun row hrow hqueued => ?_, rfl⟩
      have hne := Database.not_of_updateWhere_false hu ((hb.visible _).trans hrow)
      rw [hrow₀] at hrow
      obtain rfl := Option.some.inj hrow
      simp [hqueued, hproject, hfile] at hne
    · refine ⟨.claiming payload.executionId, CustodyInv.write hinv hv (.set row _ _) ?_
        ⟨?_, ⟨_, by simp [Database.write]; rfl, rfl⟩, hlog⟩, rfl⟩
      · intro e row' hk _ _
        rw [hg] at hk
        exact .inr hk
      · exact hb.noInsert.write (hb.noInsert.committed hv) _
  · exact ⟨.busy, hbusy st gs hinv hg (hmissed st gs env hinv hg hok (.inl hf)), rfl⟩
  · have hh := CustodyInv.holds hinv p
    rw [hg] at hh
    have hne := hmissed st gs env hinv hg hok (.inr hf)
    obtain ⟨claimed, db, hu, rfl, rfl⟩ := Op.run_claimQueued hx
    rcases Database.updateWhere_eq_some hu with ⟨rfl, rfl⟩ | ⟨rfl, row, hv, hc, -, rfl⟩
    · exact ⟨.busy, hbusy st gs hinv hg hne, rfl⟩
    · rw [hh.1.visible] at hv
      simp [hne row hv] at hc

/-- The commit of a claim. -/
theorem commit_claiming_custody (id : ExecutionId) {workerId : String} :
    (custodyProtocol s t).Triple p (.workerRound workerId) (.claiming id) (await .commit)
      (fun _ g => g = .busy) fun _ g => g.keeps? = none := by
  have hcommit : ∀ (st : Service) (gs : Pid → Custody), CustodyInv st gs → gs p = .claiming id →
      (∃ owed, LogInv st.db owed) →
      CustodyInv { st with db := st.db.commit p } (Function.update gs p .busy) := by
    rintro st gs hinv hg ⟨owed, hlog⟩
    have hh := hinv.holds p
    rw [hg] at hh
    obtain ⟨hn, ⟨row, hrow, hstarting⟩, -⟩ := hh
    refine hinv.commit_written hlog hn hrow (by simp [hstarting]) ?_
      Database.blank_commit.noInsert
    intro e hk
    rw [hg] at hk
    exact (Option.some.inj hk).symm
  refine Triple.fallible ⟨_, rfl⟩ (fun env st gs hinv hg hok x st' hx => ?_)
    (fun _ env st gs hinv hg hok hf => ?_) (fun _ env st gs hinv hg hok _ x st' hx => ?_)
  · cases hx
    exact ⟨_, hcommit st gs hinv hg hok.2, rfl⟩
  · have hh := CustodyInv.holds hinv p
    rw [hg] at hh
    obtain ⟨hn, ⟨row, hrow, hstarting⟩, -⟩ := hh
    obtain ⟨hkept, owed, hlog⟩ := hok
    refine ⟨.busy, CustodyInv.shift hinv hn fun e row' hk hrow' hqueued => ?_, rfl⟩
    rw [hg] at hk
    obtain rfl := Option.some.inj hk
    have hv : st.db.visible p id = some row := by simp [Database.visible, hrow]
    have hfalse := abandons_eq_false hkept hlog hv
    simp [hf, Op.abandons, Service.claimPending, Database.status?, hrow, hrow', hstarting,
      hqueued] at hfalse
  · cases hx
    exact ⟨_, hcommit st gs hinv hg hok.2, rfl⟩

/-! ## A process that answers for nothing -/

theorem update_busy {o : Op} (ho : ∀ env st x st', o.run p env st = some (x, st') →
      ∃ e cond set changed db, st.db.updateWhere p e cond set = some (changed, db) ∧
        (∀ row : Execution, row.SameOrigin (set row)) ∧ st' = { st with db }) :
    (custodyProtocol s t).Steady p r .busy (await o) :=
  Steady.operation trivial fun env st gs hinv hg _ x st' hx => by
    obtain ⟨e, cond, set, changed, db, hu, hsame, rfl⟩ := ho env st x st' hx
    have hh := CustodyInv.holds hinv p
    rw [hg] at hh
    rcases Database.updateWhere_eq_some hu with ⟨-, rfl⟩ | ⟨-, row, hv, -, -, rfl⟩
    · exact hinv
    · have hinv' := CustodyInv.write (c := .busy) hinv hv (hsame row)
        (fun e row hk => by rw [hg] at hk; cases hk) (hh.write (hh.committed hv) _)
      rwa [← hg, Function.update_eq_self] at hinv'

/-- The operations that neither start a run nor change the queue hash. -/
theorem ordinary_busy (o : Op) (ho : o.ordinary = true) :
    (custodyProtocol s t).Steady p r .busy (await o) := by
  cases hrows : o.touchesRows with
  | false => exact aside_custody hrows trivial
  | true =>
    cases o <;> simp only [Op.touchesRows, Op.ordinary, Bool.false_eq_true] at hrows ho
    case updateStatus =>
      refine update_busy fun env st x st' hx => ?_
      obtain ⟨changed, db, hu, -, rfl⟩ := Op.run_updateStatus hx
      exact ⟨_, _, _, _, _, hu, fun row => .set row _ _, rfl⟩
    case claimQueued =>
      refine update_busy fun env st x st' hx => ?_
      obtain ⟨changed, db, hu, -, rfl⟩ := Op.run_claimQueued hx
      exact ⟨_, _, _, _, _, hu, fun row => .set row _ _, rfl⟩
    case commit =>
      refine Steady.operation trivial fun env st gs hinv hg hok x st' hx => ?_
      obtain ⟨-, owed, hlog⟩ := hok
      cases hx
      have hh := CustodyInv.holds hinv p
      rw [hg] at hh
      have hinv' := CustodyInv.commit_busy (c := .busy) hinv hlog hh (by rw [hg]; rfl)
        Database.blank_commit.noInsert
      rwa [← hg, Function.update_eq_self] at hinv'
    case rollback | close =>
      refine Steady.operation trivial fun env st gs hinv hg _ x st' hx => ?_
      cases hx
      have hinv' := CustodyInv.rollback (c := .busy) hinv
        (fun e row hk => by rw [hg] at hk; cases hk) Database.blank_rollback.noInsert
      rwa [← hg, Function.update_eq_self] at hinv'
    case hgetall =>
      refine Steady.operation trivial fun env st gs hinv hg _ x st' hx => ?_
      have hh := CustodyInv.holds hinv p
      rw [hg] at hh
      obtain ⟨raw, -, -, rfl⟩ := Op.run_hgetall hx
      have hinv' := CustodyInv.hgetall (c := .busy) hinv (by rw [hg]; rfl) raw hh
      rwa [← hg, Function.update_eq_self] at hinv'

/-! ## The compensation -/

/-- The row as the compensation reads it. -/
theorem getExecution_custody (owed : Bool) (project : ProjectId) (file : FileId)
    (id : ExecutionId) :
    (custodyProtocol s t).Triple p r (.delivering owed project file id)
      (await (.getExecution id))
      (fun row g => g = .delivering (owed && row.any (·.status = queued)) project file id)
      fun _ g => g.keeps? = none := by
  have hunsent := Custody.unsent_delivering owed project file id
  refine Triple.fallible (Custody.stands_delivering owed project file id r _) (fun env st gs hinv hg _ x st' hx => ?_)
    (fun _ env st gs hinv hg hok hf => ?_) (fun _ env st gs hinv hg hok hf x st' hx => ?_)
  · have hh := CustodyInv.holds hinv p
    rw [hg] at hh
    cases hx
    refine ⟨_, ?_, rfl⟩
    cases hq : owed && (st.db.visible p id).any (·.status = queued) with
    | true =>
      rw [Bool.and_eq_true] at hq
      rwa [← hq.1, ← hg, Function.update_eq_self]
    | false =>
      refine CustodyInv.shift hinv (hunsent st p hh).1 fun e row hk hrow hqueued => ?_
      cases owed with
      | false =>
        rw [hg] at hk
        cases hk
      | true =>
        rw [hg] at hk
        obtain rfl := Option.some.inj hk
        simp [hh.1.visible, hrow, hqueued] at hq
  · have hh := CustodyInv.holds hinv p
    rw [hg] at hh
    exact ⟨.busy, CustodyInv.shift hinv (hunsent st p hh).1
      (hunsent.free hinv hg (not_stranding hok rfl (.inl hf))), rfl⟩
  · have hh := CustodyInv.holds hinv p
    rw [hg] at hh
    have hfree := hunsent.free hinv hg (not_stranding hok rfl (.inr ⟨hf, by simp⟩))
    cases hx
    exact ⟨.busy, CustodyInv.shift hinv (hunsent st p hh).1 hfree, rfl⟩

/-- A change to a final status, from a row that is queued if the process answers for it. -/
theorem changeStatus_custody (owed : Bool) (project : ProjectId) (file : FileId)
    (id : ExecutionId) (execution : Execution) {target : ExecutionStatus} (actor : Actor)
    (fields : StatusFields) (hfin : target.finished = true)
    (howed : owed = true → execution.status = queued ∧ target = failed) :
    (custodyProtocol s t).Triple p r (.delivering owed project file id)
      (changeStatus id execution target actor fields)
      (fun changed g => g = if changed.1 then .ending owed id else .busy)
      fun _ g => g.keeps? = none := by
  unfold changeStatus
  refine Protocol.Triple.ite (fun _ => ?_) fun hct => Protocol.Triple.pure ?_
  · refine (updateStatus_custody owed project file id fields hfin
      fun ho => (howed ho).1).bind fun changed g hg => ?_
    cases changed with
    | false =>
      subst hg
      refine (ordinary_busy _ rfl).andThen (fun _ => rfl) fun refreshed => ?_
      exact Protocol.Triple.pure rfl
    | true =>
      subst hg
      refine (look_custody (o := .refresh id) (Custody.unsent_ending owed id) rfl rfl trivial
        ?_).bind fun refreshed g hg => ?_
      · intro env st x st' hh hx
        obtain ⟨-, ⟨row, hrow, -⟩, -⟩ := hh
        have hv : st.db.visible p id = some row := by simp [Database.visible, hrow]
        simp only [Op.run, hv] at hx
        cases hx
        exact ⟨row, rfl⟩
      · subst hg
        exact (addEvent_custody (g := .ending owed id) _ _ trivial).bind
          fun _ g hg => Protocol.Triple.pure hg
  · cases owed with
    | false => rfl
    | true =>
      obtain ⟨hq, rfl⟩ := howed rfl
      rw [hq] at hct
      exact absurd rfl hct

theorem failQueued_custody (owed : Bool) (project : ProjectId) (file : FileId)
    (id : ExecutionId) (finishedAt : Seconds) :
    (custodyProtocol s t).Triple p r (.delivering owed project file id) (failQueued id finishedAt)
      (fun failed g => g = if failed then .ending owed id else .busy)
      fun _ g => g.keeps? = none := by
  refine (getExecution_custody owed project file id).bind fun execution g hg => ?_
  subst hg
  cases execution with
  | none =>
    rw [Option.any_none, Bool.and_false]
    exact Protocol.Triple.pure rfl
  | some row =>
    dsimp only [Option.any_some]
    refine Protocol.Triple.ite (fun hq => ?_) fun hq => Protocol.Triple.pure ?_
    · rw [decide_eq_true hq, Bool.and_true]
      exact (changeStatus_custody owed project file id row _ _ rfl fun _ => ⟨hq, rfl⟩).bind
        fun changed g hg => Protocol.Triple.pure hg
    · rw [decide_eq_false hq, Bool.and_false]
      rfl

/-- `_fail_undelivered_run`, by a start that owes the delivery or no longer does. -/
theorem failUndeliveredRun_custody (owed : Bool) (project : ProjectId) (file : FileId)
    (id : ExecutionId) (debug : Bool) :
    (custodyProtocol s t).Triple p r (.delivering owed project file id)
      (failUndeliveredRun project id debug) (fun _ g => g.keeps? = none)
      fun _ g => g.keeps? = none := by
  refine (clock_custody (Custody.stands_delivering owed project file id r _)).bind fun finishedAt g hg => ?_
  subst hg
  refine (failQueued_custody owed project file id finishedAt).bind fun failed g hg => ?_
  have hcommit : (custodyProtocol s t).Triple p r (.ending owed id) (do
      await .commit
      forgetUndelivered project id debug
      return true) (fun _ g => g.keeps? = none) fun _ g => g.keeps? = none := by
    refine (commit_ending_custody owed id).bind fun _ g hg => ?_
    subst hg
    refine (forgetUndelivered_steady (reading_custody rfl) (hdel_settled id)
      (aside_custody rfl trivial) debug).andThen (fun _ => rfl) fun _ => ?_
    exact Protocol.Triple.pure rfl
  refine Protocol.Triple.ite (fun hf => ?_) fun hf => ?_
  · rw [if_pos hf] at hg
    subst hg
    refine Protocol.Triple.ite (fun _ => ?_) fun _ => ?_
    · refine (look_custody (o := .stopDebugSessions id finishedAt) (Custody.unsent_ending owed id)
        rfl rfl trivial ?_).bind fun _ g hg => hg ▸ hcommit
      intro env st x st' _ hx
      cases hx
      exact ⟨_, rfl⟩
    · exact hcommit
  · rw [if_neg hf] at hg
    subst hg
    exact (ordinary_busy _ rfl).andThen (fun _ => rfl) fun _ => Protocol.Triple.pure rfl

/-! ## Starting a run -/

theorem enqueueExecution_custody {project : ProjectId} {file : FileId} {id : ExecutionId}
    {payload : Seconds → Payload} (hpayload : ∀ now, (payload now).executionId = id ∧
      (payload now).projectId = project ∧ (payload now).fileId = file) :
    (custodyProtocol s t).Triple p r (.owing project file id) (enqueueExecution payload)
      (fun _ g => g = .busy) (DeliveryFailed project file id) := by
  refine (clock_custody (g := .owing project file id) trivial).bind fun now g hg => ?_
  subst hg
  obtain ⟨rfl, hproject, hfile⟩ := hpayload now
  refine (hset_custody hproject hfile).bind fun _ g hg => ?_
  subst hg
  exact (ordinary_busy _ rfl).triple (fun _ => rfl) fun _ => ⟨⟨false, rfl⟩, fun _ => rfl⟩

theorem deliver_custody {project : ProjectId} {file : FileId} {id : ExecutionId} (debug : Bool)
    {payload : Seconds → Payload} (hpayload : ∀ now, (payload now).executionId = id ∧
      (payload now).projectId = project ∧ (payload now).fileId = file) :
    (custodyProtocol s t).Triple p r (.owing project file id) (deliver project id debug payload)
      (fun _ g => g.keeps? = none) fun _ g => g.keeps? = none := by
  have hsend : (custodyProtocol s t).Triple p r (.owing project file id) (do
      enqueueExecution payload
      return (none : Option ExecutionOut)) (fun _ g => g.keeps? = none)
      (DeliveryFailed project file id) :=
    (enqueueExecution_custody hpayload).bind fun _ g hg => Protocol.Triple.pure (hg ▸ rfl)
  refine hsend.tryExcept (fun e g _ hg => ?_) fun e g he hg => hg.2 he
  obtain ⟨⟨owed, rfl⟩, -⟩ := hg
  refine (failUndeliveredRun_custody owed project file id debug).bind fun compensated g hg => ?_
  refine Protocol.Triple.ite (fun _ => Protocol.Triple.throw hg) fun _ => ?_
  exact (reading_custody hg _ rfl).andThen (fun _ => hg) fun _ => Protocol.Triple.pure hg

theorem createRun_custody (req : RunRequest) (file : File) :
    (custodyProtocol s t).Triple p r (.scanned []) (createRun req file)
      (fun created g => g = .owing req.project req.file created.1)
      fun _ g => g.keeps? = none := by
  refine (reading_custody rfl _ rfl).andThen (fun _ => rfl) fun queuedAt => ?_
  refine (insertExecution_custody _ _ _ _).bind fun id g hg => ?_
  subst hg
  have haside : ∀ o : Op, o.touchesRows = false →
      (custodyProtocol s t).Steady p r (.created req.project req.file id) (await o) :=
    fun o ho => aside_custody ho trivial
  refine (haside _ rfl).andThen (fun _ => rfl) fun _ => ?_
  have hstart : ∀ info : Option DebugInfo, (custodyProtocol s t).Triple p r
      (.created req.project req.file id) (do
        await .commit
        return (id, info)) (fun created g => g = .owing req.project req.file created.1)
      fun _ g => g.keeps? = none :=
    fun info => (commit_created_custody _ _ _).bind fun _ g hg => Protocol.Triple.pure hg
  refine Protocol.Triple.ite (fun _ => ?_) fun _ => ?_
  · refine Protocol.Steady.andThen ?_ (fun _ => rfl) hstart
    have hread := reading_custody (s := s) (t := t) (p := p) (r := r)
      (g := .created req.project req.file id) rfl
    refine (claimDebugSlot_steady hread (haside _ rfl) (haside _ rfl)).bind fun _ => ?_
    refine (haside _ rfl).bind fun _ => ?_
    exact (debugInfo_steady hread _ _ _).bind fun _ => .pure _
  · exact (Protocol.Steady.pure none).andThen (fun _ => rfl) hstart

theorem startRun_custody (req : RunRequest) :
    (custodyProtocol s t).Triple p r (.scanned []) (startRun s req) (fun _ g => g.keeps? = none)
      fun _ g => g.keeps? = none := by
  refine (checkRun_steady (reading_custody rfl) req).andThen (fun _ => rfl) fun ⟨member, file⟩ => ?_
  refine (reading_custody rfl _ rfl).andThen (fun _ => rfl) fun sourceText => ?_
  refine (createRun_custody req file).bind fun ⟨id, info⟩ g hg => ?_
  subst hg
  have hunsent : (Custody.owing req.project req.file id).Unsent :=
    Custody.unsent_delivering true req.project req.file id
  refine (look_custody (o := .refresh id) hunsent rfl rfl trivial ?_).bind
    fun execution g hg => ?_
  · intro env st x st' hh hx
    obtain ⟨hb, ⟨row, hrow, -⟩, -⟩ := hh
    simp only [Op.run, hb.visible, hrow] at hx
    cases hx
    exact ⟨row, rfl⟩
  · subst hg
    refine (deliver_custody req.debug ?_).bind fun undelivered g hg => ?_
    · exact fun now => ⟨rfl, rfl, rfl⟩
    · cases undelivered with
      | some out => exact Protocol.Triple.pure hg
      | none =>
        exact (reading_custody hg _ rfl).andThen (fun _ => hg) fun _ => Protocol.Triple.pure hg

/-! ## Cancelling -/

theorem cancelLoop_custody (id : ExecutionId) (rounds : Nat) (execution : Execution) :
    (custodyProtocol s t).Triple p r .busy (cancelLoop id rounds execution)
      (fun finished g => g = if finished.isNone then .ending false id else .busy)
      fun _ g => g.keeps? = none := by
  induction rounds generalizing execution with
  | zero =>
    refine Protocol.Triple.ite (fun _ => Protocol.Triple.pure rfl) fun _ => ?_
    exact (ordinary_busy _ rfl).andThen (fun _ => rfl) fun _ => Protocol.Triple.pure rfl
  | succ rounds ih =>
    refine Protocol.Triple.ite (fun _ => Protocol.Triple.pure rfl) fun _ => ?_
    refine (ordinary_busy _ rfl).andThen (fun _ => rfl) fun finishedAt => ?_
    refine (changeStatus_custody false 0 0 id execution _ _ rfl nofun).bind fun changed g hg => ?_
    subst hg
    refine Protocol.Triple.ite (fun hc => Protocol.Triple.pure ?_) fun hc => ?_
    · rw [if_pos hc]
      rfl
    · rw [if_neg hc]
      exact (ordinary_busy _ rfl).andThen (fun _ => rfl) fun execution => ih execution

theorem cancelExecution_custody (project : ProjectId) (user : UserId) (id : ExecutionId)
    (rounds : Nat) :
    (custodyProtocol s t).Triple p r .busy (cancelExecution project user id rounds)
      (fun _ g => g.keeps? = none) fun _ g => g.keeps? = none := by
  have hread := reading_custody (s := s) (t := t) (p := p) (r := r) (g := .busy) rfl
  refine (getMember_steady hread project user).andThen (fun _ => rfl) fun member => ?_
  refine (Protocol.Steady.require _ _).andThen (fun _ => rfl) fun _ => ?_
  refine (hread _ rfl).andThen (fun _ => rfl) fun found => ?_
  refine (Protocol.Steady.orRaise _ _).andThen (fun _ => rfl) fun execution => ?_
  refine (cancelLoop_custody id rounds execution).bind fun finished g hg => ?_
  cases finished with
  | some row => exact Protocol.Triple.pure (hg ▸ rfl)
  | none =>
    subst hg
    refine (commit_ending_custody false id).bind fun _ g hg => ?_
    subst hg
    have hread := reading_custody (s := s) (t := t) (p := p) (r := r) (g := .settled id) rfl
    refine (hread _ rfl).andThen (fun _ => rfl) fun execution => ?_
    refine (hdel_settled id).andThen (fun _ => rfl) fun _ => ?_
    refine (hread _ rfl).andThen (fun _ => rfl) fun _ => ?_
    exact (hread _ rfl).andThen (fun _ => rfl) fun _ => Protocol.Triple.pure rfl

/-! ## The worker -/

/-- A worker that leaves the queue with a payload holds its execution. -/
def Taken : Option Payload → Custody → Prop
  | some payload, g => g = .holding payload
  | none, g => g.keeps? = none

theorem dequeueExecution_custody :
    (custodyProtocol s t).Triple p r (.scanned []) (dequeueExecution s) Taken
      fun _ g => g.keeps? = none := by
  refine (dequeueExecution_taken Custody.scanned Custody.holding (·.keeps? = none) (fun _ => rfl)
    (fun _ => reading_custody rfl _ rfl) hgetall_scanned (fun _ _ _ => hdel_scanned)
    (aside_custody rfl trivial)).mono (fun taken g hg => ?_) fun _ _ hg => hg
  cases taken with
  | none => exact hg
  | some payload => exact hg

theorem claimRun_custody (payload : Payload) (workerId : String) {w : String} :
    (custodyProtocol s t).Triple p (.workerRound w) (.holding payload) (claimRun payload workerId)
      (fun _ g => g = .busy) fun _ g => g = .busy := by
  refine withSession_custody ?_
  have hclock : (Custody.holding payload).Stands (.workerRound w) (some .clock) :=
    ⟨⟨w, rfl⟩, .inl rfl⟩
  refine (clock_custody hclock).bind fun startedAt g hg => ?_
  subst hg
  refine (claimQueued_custody payload workerId startedAt).bind fun claimed g hg => ?_
  refine Protocol.Triple.ite (fun hc => ?_) fun hc => ?_
  · rw [if_pos hc] at hg
    subst hg
    have hclaiming : ∀ o, (Custody.claiming payload.executionId).Stands (.workerRound w) (some o) :=
      fun o => ⟨w, rfl⟩
    refine (addEvent_custody _ _ (hclaiming _)).bind fun _ g hg => ?_
    subst hg
    exact (commit_claiming_custody _).bind fun _ g hg => Protocol.Triple.pure (hg ▸ rfl)
  · rw [if_neg hc] at hg
    subst hg
    exact (ordinary_busy _ rfl).andThen (fun _ => rfl) fun _ => Protocol.Triple.pure rfl

theorem workerRound_custody (workerId : String) {w : String} :
    (custodyProtocol s t).Triple p (.workerRound w) (.scanned []) (workerRound s workerId)
      (fun _ g => g.keeps? = none) fun _ g => g.keeps? = none := by
  refine Protocol.Triple.tryExcept (E := fun _ g => g.keeps? = none) ?_
    (fun _ _ _ hg => Protocol.Triple.pure hg) fun _ _ _ hg => hg
  refine dequeueExecution_custody.bind fun taken g hg => ?_
  cases taken with
  | none => exact Protocol.Triple.pure hg
  | some payload =>
    subst hg
    refine ((claimRun_custody payload workerId).mono (fun _ _ hg => hg)
      fun _ _ hg => hg ▸ rfl).bind fun claimed g hg => ?_
    subst hg
    refine Protocol.Triple.ite (fun _ => ?_) fun _ => Protocol.Triple.pure rfl
    exact (runClaimedExecution_steady ordinary_busy payload).triple (fun _ => rfl) fun _ => rfl

end Operations

/-- Where a request begins. -/
def Request.custody : Request → Custody
  | startRun _ | workerRound _ => .scanned []
  | cancelExecution _ _ _ _ | sweepOnce => .busy

theorem Request.program_custody {s : Settings} {t : Tables} {p : Pid} (r : Request) :
    (custodyProtocol s t).Triple p r r.custody (r.program s) (fun _ g => g.keeps? = none)
      fun _ g => g.keeps? = none := by
  have hclosed : ∀ {α : Type} {g : Custody} {x : Py α} {f : α → Outcome},
      (custodyProtocol s t).Triple p r g x (fun _ g => g.keeps? = none)
        (fun _ g => g.keeps? = none) →
      (custodyProtocol s t).Triple p r g (f <$> withSession x) (fun _ g => g.keeps? = none)
        fun _ g => g.keeps? = none :=
    fun h => ((withSession_custody h).mono (fun _ _ hg => hg) fun _ _ hg => hg ▸ rfl).map
      fun _ _ hg => hg ▸ rfl
  cases r with
  | startRun req => exact hclosed (startRun_custody req)
  | cancelExecution project user id rounds =>
    exact hclosed (cancelExecution_custody project user id rounds)
  | workerRound workerId => exact (workerRound_custody workerId).map fun _ _ hg => hg
  | sweepOnce =>
    exact hclosed ((sweepOnce_steady (finishing_of_ordinary ordinary_busy)).triple (fun _ => rfl) fun _ => rfl)

/-- The outline of the delivery: every request begins and ends answering for nothing. -/
def custodyOutline (s : Settings) (t : Tables) : Outline (custodyProtocol s t) where
  idle := .scanned []
  start _ r := r.custody
  done _ _ _ g := g.keeps? = none
  init := {
    covered := fun _ _ hrow => nomatch hrow
    entries := fun _ he => nomatch he
    unsent := fun _ _ _ hc => nomatch hc
    origin := fun _ _ _ _ hrow' => nomatch hrow'
    holds := fun _ => ⟨fun _ => rfl, fun _ he => nomatch he⟩ }
  spawn st gs p r hinv hg := by
    have hh := CustodyInv.holds hinv p
    rw [hg] at hh
    refine CustodyInv.shift hinv ?_ fun e row hk => ?_
    · cases r with
      | startRun req => exact hh
      | workerRound workerId => exact hh
      | cancelExecution project user id rounds => exact hh.1.noInsert
      | sweepOnce => exact hh.1.noInsert
    · rw [hg] at hk
      cases hk
  body p r := Protocol.Follows.mono r.program_custody fun a g h => by
    cases a <;> exact h
  at_end _ r _ _ hg := Custody.stands_of_keeps_none hg r none

/-! ## The claim -/

/-- A worker has removed the entry and its claim is still to be committed: it is about to make the
claim, or has made it in its own transaction. -/
def ServiceConfig.Held (cfg : ServiceConfig) (e : ExecutionId) : Prop :=
  ∃ q workerId rest, cfg.procs q = some ⟨.workerRound workerId, rest⟩ ∧
    (q, .hdel e true) ∈ cfg.shared.redis.log ∧
    (rest.next? = some .clock ∨
      (∃ project file workerId startedAt,
        rest.next? = some (.claimQueued e project file workerId startedAt)) ∨
      ∃ row, (cfg.shared.db.tx q).executions e = some row ∧ row.status = starting)

/-- Every execution whose start has returned and that is queued is waiting or held by a worker. -/
def ServiceConfig.NoStrandedRun (cfg : ServiceConfig) : Prop :=
  ∀ e row r a, cfg.shared.db.executions e = some row → row.status = queued →
    cfg.procs row.createdBy = some ⟨r, .ret a⟩ →
      e ∈ cfg.shared.redis.waitingIds ∨ ServiceConfig.Held cfg e

/-- **No stranded run, where no failure abandons an execution.** -/
theorem no_stranded_run {s : Settings} {t : Tables} {cfg : ServiceConfig}
    (h : (service s t).system.ReachableUnder ((service s t).guard deliveryKept) cfg) :
    ServiceConfig.NoStrandedRun cfg := by
  have hok : ∀ cfg l, (service s t).system.ReachableUnder ((service s t).guard deliveryKept) cfg →
      (service s t).guard deliveryKept cfg l →
        (service s t).guard (custodyProtocol s t).ok cfg l := by
    intro cfg l hcfg hl
    cases l with
    | spawn p r => trivial
    | run p env => exact fun r o k hp => ⟨hl r o k hp, logInv_of_reachable hcfg.reachable⟩
  obtain ⟨gs, hfits⟩ := (custodyOutline s t).sound hok h
  have hinv : CustodyInv cfg.shared gs := hfits.1
  intro e row r a hrow hqueued hended
  rcases hinv.covered e row hrow hqueued with hw | ⟨q, hk⟩
  · exact .inl hw
  refine .inr ?_
  have hh := hinv.holds q
  -- a process that has ended answers for nothing
  have hcreator : row.createdBy ≠ q := by
    rintro rfl
    have hdone := hfits.ended hended
    rw [show (gs row.createdBy).keeps? = none from hdone] at hk
    cases hk
  cases hproc : cfg.procs q with
  | none =>
    rw [hfits.2.1 q hproc] at hk
    cases hk
  | some process =>
    obtain ⟨r', rest⟩ := process
    have hstands : (gs q).Stands r' rest.next? := hfits.at_next hproc
    cases hg : gs q with
    | owing project file id =>
      rw [hg] at hk hh
      obtain rfl := Option.some.inj hk
      obtain ⟨-, -, ⟨row', hrow', hby⟩, -⟩ := hh
      rw [hrow] at hrow'
      obtain rfl := Option.some.inj hrow'
      exact absurd hby hcreator
    | ending owed id =>
      rw [hg] at hk hh
      cases owed with
      | false => cases hk
      | true =>
        obtain rfl := Option.some.inj hk
        obtain ⟨row', hrow', hby⟩ := (hh.2.2 rfl).1
        rw [hrow] at hrow'
        obtain rfl := Option.some.inj hrow'
        exact absurd hby hcreator
    | holding payload =>
      rw [hg] at hk hh hstands
      obtain rfl := Option.some.inj hk
      obtain ⟨⟨workerId, rfl⟩, hnext⟩ := hstands
      exact ⟨q, workerId, rest, hproc, hh.2.2, hnext.imp_right .inl⟩
    | claiming id =>
      rw [hg] at hk hh hstands
      obtain rfl := Option.some.inj hk
      obtain ⟨workerId, rfl⟩ := hstands
      exact ⟨q, workerId, rest, hproc, hh.2.2, .inr (.inr hh.2.1)⟩
    | _ =>
      rw [hg] at hk
      cases hk

/-- A request to run the project's file. -/
def runRequest : Request :=
  .startRun { project := 0, user := 0, username := "ada", file := 0 }

/-- A start that is answered, and a worker that has removed its entry and read the clock. -/
def handedOver : List (Label Env Request) :=
  .spawn 0 runRequest :: undisturbed 0 13 ++ [.spawn 1 (.workerRound "w"), .run 1 {},
    .run 1 { order := [0] }, .run 1 {}, .run 1 {}, .run 1 {}]

namespace ServiceConfig

variable (cfg : ServiceConfig)

/-- Process `p` has ended. -/
def ended (p : Pid) : Bool := (cfg.procs p).any (·.rest.result?.isSome)

/-- Execution 0 was queued by process 0 and its entry is gone. -/
def taken : Bool :=
  (cfg.shared.db.executions 0).any (fun row => row.status = queued && row.createdBy = 0) &&
    0 ∉ cfg.shared.redis.waitingIds

/-- Nobody but worker 1 has removed the entry of execution 0, and it has written nothing. -/
def dropped : Bool :=
  ((cfg.shared.db.tx 1).executions 0).isNone &&
    cfg.shared.redis.log.all fun c => c.2 ≠ .hdel 0 true || c.1 = 1

variable {cfg}

theorem exists_of_ended {p : Pid} (h : ended cfg p = true) :
    ∃ r a, cfg.procs p = some ⟨r, .ret a⟩ := by
  obtain ⟨⟨r, rest⟩, hproc, hres⟩ := (Option.any_eq_true _ _).1 h
  obtain ⟨a, ha⟩ := Option.isSome_iff_exists.1 hres
  obtain rfl := Program.result?_eq_some ha
  exact ⟨r, a, hproc⟩

theorem exists_of_taken (h : taken cfg = true) :
    (∃ row, cfg.shared.db.executions 0 = some row ∧ row.status = queued ∧ row.createdBy = 0) ∧
      0 ∉ cfg.shared.redis.waitingIds := by
  simpa [taken, Option.any_eq_true] using h

theorem not_held_of_dropped (h : dropped cfg = true) (hend : ended cfg 1 = true) :
    ¬Held cfg 0 := by
  simp only [dropped, Bool.and_eq_true, Option.isNone_iff_eq_none, List.all_eq_true,
    Bool.or_eq_true, decide_eq_true_eq] at h
  rintro ⟨q, workerId, rest, hproc, hdel, hnext⟩
  obtain rfl : q = 1 := (h.2 _ hdel).resolve_left (by simp)
  obtain ⟨r, a, hret⟩ := exists_of_ended hend
  rw [hproc] at hret
  cases hret
  rcases hnext with hclock | ⟨_, _, _, _, hclaim⟩ | ⟨row, hrow, -⟩
  · cases hclock
  · cases hclaim
  · rw [h.1] at hrow
    cases hrow

end ServiceConfig

/-- The statement that claims the execution fails; the worker's loop drops the exception. -/
theorem stranded_run :
    ¬∀ cfg, (service {} .single).system.Reachable cfg → ServiceConfig.NoStrandedRun cfg := by
  have hrun : ((service {} .single).system.replay System.anyStep
      (service {} .single).system.init
      (List.flatten [handedOver, [.run 1 { fault := .before }, .run 1 {}]])).any
      (fun cfg : ServiceConfig => ServiceConfig.ended cfg 0 && ServiceConfig.ended cfg 1 &&
        ServiceConfig.taken cfg && ServiceConfig.dropped cfg) = true := by
    decide
  intro hnone
  obtain ⟨cfg, hcfg, h⟩ := System.exists_reachable hrun
  simp only [Bool.and_eq_true] at h
  obtain ⟨⟨⟨hend₀, hend₁⟩, htaken⟩, hdropped⟩ := h
  obtain ⟨r, a, hproc⟩ := ServiceConfig.exists_of_ended hend₀
  obtain ⟨⟨row, hrow, hqueued, hby⟩, hgone⟩ := ServiceConfig.exists_of_taken htaken
  rcases hnone cfg hcfg 0 row r a hrow hqueued (hby ▸ hproc) with hw | hheld
  · exact hgone hw
  · exact ServiceConfig.not_held_of_dropped hdropped hend₁ hheld

/-- A start has been answered, its entry is taken, and the worker that took it is about to make the
claim. -/
theorem no_stranded_run_held :
    ∃ cfg : ServiceConfig, (service {} .single).system.ReachableUnder
        ((service {} .single).guard deliveryKept) cfg ∧
      ServiceConfig.taken cfg = true ∧ ServiceConfig.Held cfg 0 := by
  have hrun : ((service {} .single).system.replay ((service {} .single).guard deliveryKept)
      (service {} .single).system.init handedOver).any
      (fun cfg : ServiceConfig => ServiceConfig.ended cfg 0 && ServiceConfig.taken cfg) = true := by
    decide
  obtain ⟨cfg, hcfg, h⟩ := System.exists_reachable hrun
  simp only [Bool.and_eq_true] at h
  obtain ⟨r, a, hproc⟩ := ServiceConfig.exists_of_ended h.1
  obtain ⟨⟨row, hrow, hqueued, hby⟩, hgone⟩ := ServiceConfig.exists_of_taken h.2
  refine ⟨cfg, hcfg, h.2, ?_⟩
  exact (no_stranded_run hcfg 0 row r a hrow hqueued (hby ▸ hproc)).resolve_left hgone

end Concord
