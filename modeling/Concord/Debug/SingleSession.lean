import Concord.Debug.Slot
import Concord.Execution.Steady

/-!
# One debug session per project

`claim_active` gives the slot to one of several starts. Around it there are three windows: a start
that finds the slot taken may look the holder up before the holder has committed, and take it over;
`clear_active` deletes the key after a separate look-up; and a worker clears the key before it
records that the run has ended. Outside these windows at most one unfinished run of a project was
accepted as a debug run.
-/

namespace Concord

open Concord.Base Async ExecutionStatus

/-- The project whose slot an operation takes. -/
def Op.takesSlot? (r : Redis) : Op → Option ProjectId
  | setActiveNx project _ => if (r.active project).isNone then some project else none
  | setActive project _ => some project
  | _ => none

/-- The project whose key an operation overwrites or deletes. -/
def Op.overwritesSlot? : Op → Option ProjectId
  | setActive project _ | delActive project => some project
  | _ => none

theorem Op.keepsSlot_of_reads {o : Op} (ho : o.reads = true) : o.takesSlot? {} = none ∧ o.overwritesSlot? = none := by
  cases o <;> first | exact ⟨rfl, rfl⟩ | cases ho

theorem Op.takesSlot?_of_ordinary {o : Op} (ho : o.ordinary = true) : o.takesSlot? {} = none := by
  cases o <;> first | rfl | cases ho

/-- A start takes the slot of a project only while no committed debug run of it is unfinished, and
the key is overwritten or deleted only while it does not name a run that is still uncommitted. -/
def slotKept (st : Service) (_ : Pid) (_ : Request) (o : Op) (_ : Env) : Prop :=
  (∀ project ∈ o.takesSlot? st.redis, st.db.debugging project = []) ∧
    ∀ project ∈ o.overwritesSlot?, ∀ info ∈ st.redis.active project,
      st.db.uncommitted info.executionId = false

instance (st : Service) (p : Pid) (r : Request) (o : Op) (env : Env) :
    Decidable (slotKept st p r o env) :=
  inferInstanceAs (Decidable (_ ∧ _))

/-- The protocol of the debug slot. That the event log is in step is known of every reachable
configuration. -/
def slotProtocol (s : Settings) (t : Tables) : Protocol (service s t) SlotStage where
  Inv := SlotInv
  At _ _ _ _ := True
  ok st p r o env := slotKept st p r o env ∧ ∃ owed, LogInv st.db owed

section Operations

variable {s : Settings} {t : Tables} {p : Pid} {r : Request} {g : SlotStage}

/-! ## Operations -/

theorem Op.run_active {env : Env} {st st' : Service} {o : Op} {x : Except PyError o.Val}
    (ho : o.takesSlot? {} = none ∧ o.overwritesSlot? = none)
    (h : o.run p env st = some (x, st')) : st'.redis.active = st.redis.active := by
  cases hr : o.reads with
  | true => rw [Op.run_reads hr h]
  | false =>
    cases o <;> simp only [Op.reads, Op.takesSlot?, Op.overwritesSlot?, Bool.true_eq_false,
      reduceCtorEq, and_false, Option.isNone_none, if_true, false_and] at hr ho <;>
      simp only [Op.run, Option.some.injEq, Prod.mk.injEq, Option.map_eq_some_iff] at h <;>
      grind [Redis.logged, Redis.hset, Redis.hdel]

theorem aside_slot {o : Op} (hdb : o.writesDb = false)
    (ho : o.takesSlot? {} = none ∧ o.overwritesSlot? = none) (g : SlotStage) :
    (slotProtocol s t).Steady p r g (await o) :=
  Steady.operation trivial fun _ _ _ hinv _ _ _ _ hx =>
    SlotInv.congr hinv (Op.run_db hdb hx) (Op.run_active ho hx)

/-- A status change in the session's own transaction. -/
theorem update_slot {o : Op} (g : SlotStage) (ho : ∀ env st x st', o.run p env st = some (x, st') →
      ∃ e cond set changed db, st.db.updateWhere p e cond set = some (changed, db) ∧
        st' = { st with db }) :
    (slotProtocol s t).Steady p r g (await o) :=
  Steady.operation trivial fun env st gs hinv _ _ x st' hx => by
    obtain ⟨e, cond, set, changed, db, hu, rfl⟩ := ho env st x st' hx
    exact SlotInv.updateWhere hinv hu

theorem addEvent_slot (id : ExecutionId) (payload : EventPayload) (g : SlotStage) :
    (slotProtocol s t).Steady p r g (await (.addEvent id payload)) :=
  Steady.operation trivial fun _ _ _ hinv _ _ _ _ hx => by
    cases hx
    exact SlotInv.addEvent hinv _ _

theorem stop_slot (id : ExecutionId) (endedAt : Seconds) (g : SlotStage) :
    (slotProtocol s t).Steady p r g (await (.stopDebugSessions id endedAt)) :=
  Steady.operation trivial fun _ _ _ hinv _ _ _ _ hx => by
    cases hx
    exact SlotInv.stop hinv _ _

/-- However far a start has got, its session closes. -/
theorem close_slot (g : SlotStage) :
    (slotProtocol s t).Triple p r g (await .close) (fun _ g' => g' = g.closed) fun _ _ => True := by
  refine Triple.operation trivial (fun _ _ => trivial) fun env st gs hinv hg _ x st' hx => ?_
  cases hx
  exact ⟨_, SlotInv.rollback hinv, congrArg SlotStage.closed hg, fun _ _ => trivial⟩

/-- The operations that neither start a run nor change the queue hash leave a process alone that is
not in the middle of a start. -/
theorem ordinary_slot (hcalm : g.closed = g) (o : Op) (ho : o.ordinary = true) :
    (slotProtocol s t).Steady p r g (await o) := by
  have hupdate : ∀ gs : Pid → SlotStage, gs p = g →
      Function.update gs p (gs p).closed = gs := by
    intro gs hg
    rw [hg, hcalm, ← hg, Function.update_eq_self]
  cases hdb : o.writesDb with
  | false =>
    by_cases hslot : o.overwritesSlot? = none
    · exact aside_slot hdb ⟨Op.takesSlot?_of_ordinary ho, hslot⟩ g
    · cases o <;> simp only [Op.overwritesSlot?, Op.ordinary, reduceCtorEq, not_true_eq_false,
        Bool.false_eq_true] at hslot ho
      refine Steady.operation trivial fun env st gs hinv hg hok x st' hx => ?_
      obtain ⟨⟨-, hkey⟩, owed, hlog⟩ := hok
      cases hx
      exact SlotInv.release hinv hlog (by rw [hg, hcalm]) (hkey _ rfl)
  | true =>
    cases o <;> simp only [Op.writesDb, Op.ordinary, Bool.false_eq_true] at hdb ho
    case addEvent id payload => exact addEvent_slot id payload g
    case stopDebugSessions id endedAt => exact stop_slot id endedAt g
    case updateStatus =>
      refine update_slot g fun env st x st' hx => ?_
      obtain ⟨changed, db, hu, -, rfl⟩ := Op.run_updateStatus hx
      exact ⟨_, _, _, _, _, hu, rfl⟩
    case claimQueued =>
      refine update_slot g fun env st x st' hx => ?_
      obtain ⟨changed, db, hu, -, rfl⟩ := Op.run_claimQueued hx
      exact ⟨_, _, _, _, _, hu, rfl⟩
    case commit =>
      refine Steady.operation trivial fun env st gs hinv hg hok x st' hx => ?_
      obtain ⟨-, owed, hlog⟩ := hok
      cases hx
      have hun : (st.db.tx p).Unrecorded := by
        have hk := SlotInv.holds hinv p
        rw [hg] at hk
        cases g <;> first | exact hk.1 | exact hk | cases hcalm
      have hinv' := SlotInv.commit_unrecorded hinv hlog hun
      rwa [hupdate gs hg] at hinv'
    case rollback | close =>
      refine Steady.operation trivial fun env st gs hinv hg _ x st' hx => ?_
      cases hx
      have hinv' := SlotInv.rollback (p := p) hinv
      rwa [hupdate gs hg] at hinv'

/-! ## Starting a debug run -/

theorem reading_slot (g : SlotStage) (o : Op) (ho : o.reads = true) :
    (slotProtocol s t).Steady p r g (await o) :=
  aside_slot (Op.writesDb_of_reads ho) (Op.keepsSlot_of_reads ho) g

theorem insertExecution_slot (project : ProjectId) (file : FileId) (queuedAt : Seconds) :
    (slotProtocol s t).Triple p r .calm (await (.insertExecution project file queuedAt))
      (fun id g => g = .inserted id) fun _ _ => True := by
  refine Triple.operation trivial (fun _ _ => trivial) fun env st gs hinv hg hok x st' hx => ?_
  obtain ⟨-, owed, hlog⟩ := hok
  cases hx
  exact ⟨_, SlotInv.insertExecution hinv hg hlog _, rfl, fun _ _ => trivial⟩

theorem setActiveNx_slot {project : ProjectId} {info : ActiveInfo} :
    (slotProtocol s t).Triple p r (.inserted info.executionId)
      (await (.setActiveNx project info))
      (fun claimed g => g = if claimed = true then .taken project info.executionId
        else .inserted info.executionId) fun _ _ => True := by
  refine Triple.operation trivial (fun _ _ => trivial) fun env st gs hinv hg hok x st' hx => ?_
  obtain ⟨⟨htake, -⟩, owed, hlog⟩ := hok
  simp only [Op.run] at hx
  split at hx
  · cases hx
    refine ⟨_, ?_, rfl, fun _ _ => trivial⟩
    simpa [← hg] using hinv
  · next hnone =>
    cases hx
    have hfree : st.db.debugging project = [] := htake project (by simp [Op.takesSlot?, hnone])
    exact ⟨_, SlotInv.take hinv hlog hg (by simp [hnone]) hfree, rfl, fun _ _ => trivial⟩

theorem setActive_slot {project : ProjectId} {info : ActiveInfo} :
    (slotProtocol s t).Triple p r (.inserted info.executionId) (await (.setActive project info))
      (fun _ g => g = .taken project info.executionId) fun _ _ => True := by
  refine Triple.operation trivial (fun _ _ => trivial) fun env st gs hinv hg hok x st' hx => ?_
  obtain ⟨⟨htake, hkey⟩, owed, hlog⟩ := hok
  cases hx
  exact ⟨_, SlotInv.take hinv hlog hg (hkey project rfl) (htake project rfl), rfl,
    fun _ _ => trivial⟩

theorem addDebugSession_slot (row : DebugSession) :
    (slotProtocol s t).Triple p r (.taken row.projectId row.executionId)
      (await (.addDebugSession row))
      (fun _ g => g = .recorded row.projectId row.executionId) fun _ _ => True := by
  refine Triple.operation trivial (fun _ _ => trivial) fun env st gs hinv hg _ x st' hx => ?_
  cases hx
  exact ⟨_, SlotInv.addDebugSession hinv hg rfl rfl, rfl, fun _ _ => trivial⟩

theorem commit_recorded_slot (project : ProjectId) (id : ExecutionId) :
    (slotProtocol s t).Triple p r (.recorded project id) (await .commit)
      (fun _ g => g = .started project id) fun _ _ => True := by
  refine Triple.operation trivial (fun _ _ => trivial) fun env st gs hinv hg hok x st' hx => ?_
  obtain ⟨-, owed, hlog⟩ := hok
  cases hx
  exact ⟨_, SlotInv.commit_recorded hinv hlog hg, rfl, fun _ _ => trivial⟩

theorem commit_inserted_slot (id : ExecutionId) :
    (slotProtocol s t).Triple p r (.inserted id) (await .commit) (fun _ g => g = .calm)
      fun _ _ => True := by
  refine Triple.operation trivial (fun _ _ => trivial) fun env st gs hinv hg hok x st' hx => ?_
  obtain ⟨-, owed, hlog⟩ := hok
  cases hx
  have hk := SlotInv.holds hinv p
  rw [hg] at hk
  have hinv' := SlotInv.commit_unrecorded hinv hlog hk.1
  rw [hg] at hinv'
  exact ⟨_, hinv', rfl, fun _ _ => trivial⟩

/-- A start that goes on has taken the slot. -/
theorem claimDebugSlot_slot (project : ProjectId) (info : ActiveInfo) :
    (slotProtocol s t).Triple p r (.inserted info.executionId) (claimDebugSlot project info)
      (fun _ g => g = .taken project info.executionId) fun _ _ => True := by
  have htake : (slotProtocol s t).Triple p r (.inserted info.executionId)
      (takeDebugSlot project info)
      (fun refused g => refused = none → g = .taken project info.executionId)
      fun _ _ => True := by
    refine setActiveNx_slot.bind fun claimed g hg => ?_
    subst hg
    cases claimed with
    | true => exact Protocol.Triple.pure fun _ => rfl
    | false =>
      refine (reading_slot _ _ rfl).andThen (fun _ => trivial) fun current => ?_
      have hover : ∀ running : Option Execution, (slotProtocol s t).Triple p r
          (.inserted info.executionId)
          (if running.all (·.status.finished) then do
            setActive project info
            return none
          else return some current)
          (fun refused g => refused = none → g = .taken project info.executionId)
          fun _ _ => True := by
        intro running
        split
        · exact setActive_slot.bind fun _ g hg => Protocol.Triple.pure fun _ => hg
        · exact Protocol.Triple.pure fun hnone => nomatch hnone
      cases current with
      | some active => exact (reading_slot _ _ rfl).andThen (fun _ => trivial) hover
      | none => exact (Protocol.Steady.pure none).andThen (fun _ => trivial) hover
  refine (Protocol.Triple.tryExcept htake (fun _ _ _ _ => Protocol.Triple.throw trivial)
    fun _ _ _ _ => trivial).bind fun refused g hg => ?_
  cases refused with
  | none => exact Protocol.Triple.pure (hg rfl)
  | some active => cases active <;> exact Protocol.Triple.throw trivial

theorem setUpDebug_slot (project : ProjectId) (id : ExecutionId) (file : File) (user : UserId)
    (username : String) :
    (slotProtocol s t).Triple p r (.inserted id) (setUpDebug project id file user username)
      (fun _ g => g = .recorded project id) fun _ _ => True := by
  refine (claimDebugSlot_slot project
    ⟨id, file.id, file.path, user, username⟩).bind fun _ g hg => ?_
  subst hg
  refine (addDebugSession_slot _).bind fun _ g hg => ?_
  subst hg
  refine (debugInfo_steady (reading_slot _) _ _ _).andThen (fun _ => trivial) fun info => ?_
  exact Protocol.Triple.pure rfl

/-- What a start has once it has committed. -/
def RunRequest.stage (req : RunRequest) (id : ExecutionId) : SlotStage :=
  if req.debug then .started req.project id else .calm

theorem RunRequest.stage_closed (req : RunRequest) (id : ExecutionId) :
    (req.stage id).closed = req.stage id := by
  unfold stage
  split <;> rfl

theorem createRun_slot (req : RunRequest) (file : File) :
    (slotProtocol s t).Triple p r .calm (createRun req file)
      (fun created g => g = req.stage created.1) fun _ _ => True := by
  refine (reading_slot _ _ rfl).andThen (fun _ => trivial) fun queuedAt => ?_
  refine (insertExecution_slot _ _ _).bind fun id g hg => ?_
  subst hg
  refine (addEvent_slot _ _ _).andThen (fun _ => trivial) fun _ => ?_
  unfold RunRequest.stage
  split
  · refine (setUpDebug_slot _ _ _ _ _).bind fun info g hg => ?_
    subst hg
    exact (commit_recorded_slot _ _).bind fun _ g hg => Protocol.Triple.pure hg
  · refine (Protocol.Steady.pure none).andThen (fun _ => trivial) fun info => ?_
    exact (commit_inserted_slot _).bind fun _ g hg => Protocol.Triple.pure hg

/-- Whatever becomes of the delivery, what is returned is the run that was started. -/
theorem deliver_slot (hcalm : g.closed = g) (project : ProjectId) (id : ExecutionId)
    (debug : Bool) (payload : Seconds → Payload) :
    (slotProtocol s t).Triple p r g (deliver project id debug payload)
      (fun undelivered g' => g' = g ∧ ∀ out ∈ undelivered, out.id = id) fun _ _ => True := by
  have henqueue := enqueueExecution_steady (reading_slot g)
    (fun _ _ => aside_slot rfl ⟨rfl, rfl⟩ g) (aside_slot rfl ⟨rfl, rfl⟩ g)
    (s := s) (t := t) (p := p) (r := r) payload
  have hsend : (slotProtocol s t).Triple p r g (do
      enqueueExecution payload
      return (none : Option ExecutionOut))
      (fun undelivered g' => g' = g ∧ ∀ out ∈ undelivered, out.id = id) fun _ g' => g' = g :=
    Protocol.Triple.bind henqueue fun _ _ hg => Protocol.Triple.pure ⟨hg, by simp⟩
  refine hsend.tryExcept (fun e g' _ hg => ?_) fun _ _ _ _ => trivial
  subst hg
  refine (failUndeliveredRun_steady (finishing_of_ordinary (ordinary_slot hcalm))
    (fun _ => aside_slot rfl ⟨rfl, rfl⟩ _) project id debug).andThen (fun _ => trivial)
    fun compensated => ?_
  split
  · exact Protocol.Triple.throw trivial
  · refine (reading_slot _ _ rfl).andThen (fun _ => trivial) fun execution => ?_
    exact Protocol.Triple.pure ⟨rfl, by simp⟩

theorem startRun_slot (req : RunRequest) :
    (slotProtocol s t).Triple p r .calm (startRun s req) (fun out g => g = req.stage out.id)
      fun _ _ => True := by
  refine (checkRun_steady (reading_slot _) req).andThen (fun _ => trivial)
    fun ⟨member, file⟩ => ?_
  refine (reading_slot _ _ rfl).andThen (fun _ => trivial) fun sourceText => ?_
  refine (createRun_slot req file).bind fun ⟨id, info⟩ g hg => ?_
  subst hg
  refine (reading_slot _ _ rfl).andThen (fun _ => trivial) fun execution => ?_
  refine (deliver_slot (req.stage_closed id) _ _ _ _).bind fun undelivered g hg => ?_
  obtain ⟨rfl, hout⟩ := hg
  cases undelivered with
  | some out =>
    refine Protocol.Triple.pure ?_
    rw [hout out rfl]
  | none =>
    refine (reading_slot _ _ rfl).andThen (fun _ => trivial) fun _ => ?_
    exact Protocol.Triple.pure rfl

end Operations

/-- What is known of a process that has ended. -/
def Request.SlotDone (r : Request) (a : Except PyError Outcome) (g : SlotStage) : Prop :=
  match r with
  | .startRun req => ∀ out, a = .ok (.started out) → g = req.stage out.id
  | _ => True

theorem Request.program_slot {s : Settings} {t : Tables} {p : Pid} (r : Request) :
    (slotProtocol s t).Triple p r .calm (r.program s) (fun out g => r.SlotDone (.ok out) g)
      fun _ _ => True := by
  have hop := ordinary_slot (s := s) (t := t) (p := p) (r := r) (g := .calm) rfl
  have hdel : ∀ id, (slotProtocol s t).Steady p r .calm (await (.hdel id)) :=
    fun id => aside_slot rfl ⟨rfl, rfl⟩ _
  cases r with
  | startRun req =>
    have hsession : (slotProtocol s t).Triple p (.startRun req) .calm
        (withSession (Concord.startRun s req)) (fun out g => g = req.stage out.id)
        fun _ _ => True := by
      refine Protocol.Triple.andFinally (startRun_slot req) (fun out g hg => ?_)
        fun _ g _ => (close_slot g).mono (fun _ _ _ => trivial) fun _ _ h => h
      refine (close_slot g).mono (fun _ g' hg' => ?_) fun _ _ h => h
      rw [hg', hg, req.stage_closed]
    refine hsession.map fun out g hg out' hout => ?_
    cases hout
    exact hg
  | cancelExecution project user id rounds =>
    exact ((withSession_steady (hop _ rfl)
      (cancelExecution_steady (finishing_of_ordinary hop) hdel project user id rounds)).triple (Q := fun _ _ => True)
        (fun _ => trivial) fun _ => trivial).map fun _ _ _ => trivial
  | workerRound workerId =>
    exact ((workerRound_steady hop hdel workerId).triple (Q := fun _ _ => True) (fun _ => trivial)
      fun _ => trivial).map fun _ _ _ => trivial
  | sweepOnce =>
    exact ((withSession_steady (hop _ rfl) (sweepOnce_steady (finishing_of_ordinary hop))).triple (Q := fun _ _ => True)
      (fun _ => trivial) fun _ => trivial).map fun _ _ _ => trivial

/-- The outline of the debug slot. -/
def slotOutline (s : Settings) (t : Tables) : Outline (slotProtocol s t) where
  idle := .calm
  start _ _ := .calm
  done _ r := r.SlotDone
  init := {
    known := fun _ hds => nomatch hds
    single := fun _ _ he => nomatch he
    holds := fun _ _ hrow => nomatch hrow }
  spawn st gs p r hinv hg := by
    rw [← hg, Function.update_eq_self]
    exact hinv
  body p r := by
    refine Protocol.Follows.mono r.program_slot fun a g h => ?_
    cases a with
    | ok out => exact h
    | error e => cases r <;> first | trivial | exact fun out hout => nomatch hout
  at_end _ _ _ _ _ := trivial

/-! ## The claim -/

/-- Request `q` was answered that `e` has been queued as a debug run of the project. -/
def ServiceConfig.AcceptedDebug (cfg : ServiceConfig) (q : Pid) (project : ProjectId)
    (e : ExecutionId) : Prop :=
  ∃ req out, cfg.procs q = some ⟨.startRun req, .ret (.ok (.started out))⟩ ∧ req.debug = true ∧
    req.project = project ∧ out.id = e

/-- At most one unfinished execution of each project was accepted as a debug run. -/
def ServiceConfig.OneDebugSession (cfg : ServiceConfig) : Prop :=
  ∀ project q q' e e' status status', ServiceConfig.AcceptedDebug cfg q project e →
    ServiceConfig.AcceptedDebug cfg q' project e' → cfg.shared.db.status? e = some status →
      cfg.shared.db.status? e' = some status' → status.finished = false →
        status'.finished = false → e = e'

/-- **One debug session per project, outside the three windows.** -/
theorem one_debug_session {s : Settings} {t : Tables} {cfg : ServiceConfig}
    (h : (service s t).system.ReachableUnder ((service s t).guard slotKept) cfg) :
    ServiceConfig.OneDebugSession cfg := by
  have hok : ∀ cfg l, (service s t).system.ReachableUnder ((service s t).guard slotKept) cfg →
      (service s t).guard slotKept cfg l → (service s t).guard (slotProtocol s t).ok cfg l := by
    intro cfg l hcfg hl
    cases l with
    | spawn p r => trivial
    | run p env => exact fun r o k hp => ⟨hl r o k hp, logInv_of_reachable hcfg.reachable⟩
  obtain ⟨gs, hfits⟩ := (slotOutline s t).sound hok h
  have hinv : SlotInv cfg.shared gs := hfits.1
  -- an accepted run has a committed debug session
  have hmem : ∀ project q e status, ServiceConfig.AcceptedDebug cfg q project e →
      cfg.shared.db.status? e = some status → status.finished = false →
        e ∈ cfg.shared.db.debugging project := by
    rintro project q e status ⟨req, out, hproc, hdebug, rfl, rfl⟩ hstatus hfin
    have hend : gs q = req.stage out.id := hfits.ended hproc out rfl
    have hk := hinv.holds q
    rw [hend, RunRequest.stage, if_pos hdebug] at hk
    obtain ⟨row, hrow, rfl⟩ := Option.map_eq_some_iff.1 hstatus
    exact Database.mem_debugging.2 ⟨hk.2, row, hrow, hfin⟩
  intro project q q' e e' status status' ha ha' hs hs' hfin hfin'
  exact hinv.single project e (hmem project q e status ha hs hfin) e'
    (hmem project q' e' status' ha' hs' hfin')

/-- No Redis command fails. -/
def redisAvailable (_ : Service) (_ : Pid) (_ : Request) (o : Op) (env : Env) : Prop :=
  o.target = .redis → env.fault = .none

instance (st : Service) (p : Pid) (r : Request) (o : Op) (env : Env) :
    Decidable (redisAvailable st p r o env) :=
  inferInstanceAs (Decidable (_ → _))

/-- A request to debug the project's file. -/
def debugRequest : Request :=
  .startRun { project := 0, user := 0, username := "ada", file := 0, debug := true }

/-- The execution that request `q` was told has been queued. -/
def ServiceConfig.accepted? (cfg : ServiceConfig) (q : Pid) : Option ExecutionId :=
  match cfg.procs q with
  | some ⟨.startRun req, .ret (.ok (.started out))⟩ =>
    if req.debug && req.project = 0 then some out.id else none
  | _ => none

theorem ServiceConfig.acceptedDebug_of_accepted? {cfg : ServiceConfig} {q : Pid} {e : ExecutionId}
    (h : ServiceConfig.accepted? cfg q = some e) : ServiceConfig.AcceptedDebug cfg q 0 e := by
  unfold accepted? at h
  split at h
  · next req out hproc =>
    split at h
    · next hreq =>
      simp only [Bool.and_eq_true, decide_eq_true_eq] at hreq
      cases h
      exact ⟨req, out, hproc, hreq.1, hreq.2, rfl⟩
    · cases h
  · cases h

/-- Two members start a debug run. The first takes the slot; before it commits, the second finds the
slot taken, finds no row of the execution it names, and takes it over. Both are accepted. -/
theorem two_debug_sessions :
    ¬∀ cfg, (service {} .single).system.ReachableUnder
      ((service {} .single).guard redisAvailable) cfg → ServiceConfig.OneDebugSession cfg := by
  have hrun : ((service {} .single).system.replay ((service {} .single).guard redisAvailable)
      (service {} .single).system.init
      (.spawn 0 debugRequest :: undisturbed 0 7 ++ .spawn 1 debugRequest :: undisturbed 1 20 ++
        undisturbed 0 10)).any
      (fun cfg : ServiceConfig => ServiceConfig.accepted? cfg 0 = some 0 &&
        ServiceConfig.accepted? cfg 1 = some 1 && cfg.shared.db.status? 0 = some queued &&
        cfg.shared.db.status? 1 = some queued) = true := by decide
  intro hone
  obtain ⟨cfg, hcfg, hboth⟩ := System.exists_reachable hrun
  simp only [Bool.and_eq_true, decide_eq_true_eq] at hboth
  obtain ⟨⟨⟨h0, h1⟩, hs0⟩, hs1⟩ := hboth
  have heq := hone cfg hcfg 0 0 1 0 1 queued queued
    (ServiceConfig.acceptedDebug_of_accepted? h0) (ServiceConfig.acceptedDebug_of_accepted? h1)
    hs0 hs1 rfl rfl
  exact absurd heq (by decide)

/-- A debug run is accepted, and a second start is refused while it is queued. -/
theorem one_debug_session_refuses :
    ∃ cfg : ServiceConfig, (service {} .single).system.ReachableUnder
        ((service {} .single).guard slotKept) cfg ∧
      ServiceConfig.AcceptedDebug cfg 0 0 0 ∧ cfg.shared.db.status? 0 = some queued ∧
      ServiceConfig.OneDebugSession cfg := by
  have hrun : ((service {} .single).system.replay ((service {} .single).guard slotKept)
      (service {} .single).system.init
      (.spawn 0 debugRequest :: undisturbed 0 17 ++ .spawn 1 debugRequest ::
        undisturbed 1 10)).any
      (fun cfg : ServiceConfig => ServiceConfig.accepted? cfg 0 = some 0 &&
        cfg.shared.db.status? 0 = some queued) = true := by decide
  obtain ⟨cfg, hcfg, hone⟩ := System.exists_reachable hrun
  simp only [Bool.and_eq_true, decide_eq_true_eq] at hone
  exact ⟨cfg, hcfg, ServiceConfig.acceptedDebug_of_accepted? hone.1, hone.2,
    one_debug_session hcfg⟩

end Concord
