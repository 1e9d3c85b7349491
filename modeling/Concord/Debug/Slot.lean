import Concord.Execution.Footprint
import Concord.Execution.StatusLog

/-!
# Who holds the debug slot

The slot is a Redis key, the execution it names a row that at first only its own session sees, and
the session row a third thing that is committed with it. The ghost value of a process says how far a
start has got with the three; `SlotInv` says that at most one committed debug run of a project is
unfinished, and that the key guards a run from the moment it is taken until it is committed.
-/

namespace Concord

open Concord.Base ExecutionStatus

namespace Database

variable (db : Database)

/-- The committed debug runs of a project that have not finished. -/
def debugging (project : ProjectId) : List ExecutionId :=
  (db.debugSessions.filter fun ds => ds.projectId = project &&
    (db.executions ds.executionId).any fun row => !row.status.finished).map (·.executionId)

/-- The execution has a row that its session has not committed. -/
def uncommitted (e : ExecutionId) : Bool := (db.locks e).isSome && (db.executions e).isNone

/-- Session `p` has inserted `e` and not committed it. -/
def Inserting (p : SessionId) (e : ExecutionId) : Prop :=
  (db.tx p).executions e ≠ none ∧ db.executions e = none

variable {db}

theorem mem_debugging {project : ProjectId} {e : ExecutionId} :
    e ∈ db.debugging project ↔
      (∃ ds ∈ db.debugSessions, ds.executionId = e ∧ ds.projectId = project) ∧
        ∃ row, db.executions e = some row ∧ row.status.finished = false := by
  simp only [debugging, List.mem_map, List.mem_filter, Bool.and_eq_true, decide_eq_true_eq,
    Option.any_eq_true, Bool.not_eq_true']
  constructor
  · rintro ⟨ds, ⟨hmem, hproject, row, hrow, hfin⟩, rfl⟩
    exact ⟨⟨ds, hmem, rfl, hproject⟩, row, hrow, hfin⟩
  · rintro ⟨⟨ds, hmem, rfl, hproject⟩, row, hrow, hfin⟩
    exact ⟨ds, ⟨hmem, hproject, row, hrow, hfin⟩, rfl⟩

theorem Inserting.uncommitted {owed : SessionId → Owed} (h : LogInv db owed) {p : SessionId}
    {e : ExecutionId} (hi : db.Inserting p e) : db.uncommitted e = true := by
  simp [Database.uncommitted, (h.locked p e).1 hi.1, hi.2]

end Database

/-! ## Debug writes -/

/-- The rows belong to the same debug session. -/
def SameSession (ds ds' : DebugSession) : Prop :=
  ds'.executionId = ds.executionId ∧ ds'.projectId = ds.projectId

theorem DebugWrite.mem_apply {rows : List DebugSession} {w : DebugWrite} {ds' : DebugSession}
    (h : ds' ∈ w.apply rows) :
    (∃ ds ∈ rows, SameSession ds ds') ∨ ∃ row, w = .insert row ∧ SameSession row ds' := by
  cases w with
  | insert row =>
    rcases List.mem_append.1 h with h | h
    · exact .inl ⟨ds', h, rfl, rfl⟩
    · rw [List.mem_singleton.1 h]
      exact .inr ⟨row, rfl, rfl, rfl⟩
  | stop e at_ =>
    obtain ⟨ds, hmem, rfl⟩ := List.mem_map.1 h
    refine .inl ⟨ds, hmem, ?_⟩
    split <;> exact ⟨rfl, rfl⟩

theorem DebugWrite.apply_keeps {rows : List DebugSession} (w : DebugWrite) {ds : DebugSession}
    (h : ds ∈ rows) : ∃ ds' ∈ w.apply rows, SameSession ds ds' := by
  cases w with
  | insert row => exact ⟨ds, List.mem_append_left _ h, rfl, rfl⟩
  | stop e at_ =>
    refine ⟨_, List.mem_map_of_mem h, ?_⟩
    split <;> exact ⟨rfl, rfl⟩

theorem mem_foldl_apply {ws : List DebugWrite} {rows : List DebugSession} {ds' : DebugSession}
    (h : ds' ∈ ws.foldl DebugWrite.apply rows) :
    (∃ ds ∈ rows, SameSession ds ds') ∨ ∃ row, .insert row ∈ ws ∧ SameSession row ds' := by
  induction ws generalizing rows with
  | nil => exact .inl ⟨ds', h, rfl, rfl⟩
  | cons w ws ih =>
    rcases ih h with ⟨ds, hmem, hsame⟩ | ⟨row, hmem, hsame⟩
    · rcases DebugWrite.mem_apply hmem with ⟨ds₀, hmem₀, hsame₀⟩ | ⟨row, rfl, hsame₀⟩
      · exact .inl ⟨ds₀, hmem₀, hsame.1.trans hsame₀.1, hsame.2.trans hsame₀.2⟩
      · exact .inr ⟨row, List.mem_cons_self, hsame.1.trans hsame₀.1, hsame.2.trans hsame₀.2⟩
    · exact .inr ⟨row, List.mem_cons_of_mem _ hmem, hsame⟩

theorem foldl_apply_keeps (ws : List DebugWrite) {rows : List DebugSession} {ds : DebugSession}
    (h : ds ∈ rows) : ∃ ds' ∈ ws.foldl DebugWrite.apply rows, SameSession ds ds' := by
  induction ws generalizing rows ds with
  | nil => exact ⟨ds, h, rfl, rfl⟩
  | cons w ws ih =>
    obtain ⟨ds₁, hmem₁, hsame₁⟩ := w.apply_keeps h
    obtain ⟨ds₂, hmem₂, hsame₂⟩ := ih hmem₁
    exact ⟨ds₂, hmem₂, hsame₂.1.trans hsame₁.1, hsame₂.2.trans hsame₁.2⟩

theorem foldl_apply_inserts {ws : List DebugWrite} {row : DebugSession} (h : .insert row ∈ ws)
    (rows : List DebugSession) : ∃ ds' ∈ ws.foldl DebugWrite.apply rows, SameSession row ds' := by
  obtain ⟨l₁, l₂, rfl⟩ := List.append_of_mem h
  rw [List.foldl_append, List.foldl_cons]
  exact foldl_apply_keeps l₂ (List.mem_append_right _ List.mem_cons_self)

/-! ## The invariant -/

/-- How far a start has got. -/
inductive SlotStage
  | calm
  /-- Its row is inserted. -/
  | inserted (id : ExecutionId)
  /-- The key names it. -/
  | taken (project : ProjectId) (id : ExecutionId)
  /-- Its session row is added. -/
  | recorded (project : ProjectId) (id : ExecutionId)
  /-- All of it is committed. -/
  | started (project : ProjectId) (id : ExecutionId)

/-- Where a process stands once its session is rolled back. -/
def SlotStage.closed : SlotStage → SlotStage
  | started project id => started project id
  | _ => calm

/-- The key of the project names the row `p` is inserting, and no other run is being debugged. -/
def OwnsSlot (st : Service) (p : Pid) (project : ProjectId) (e : ExecutionId) : Prop :=
  st.db.Inserting p e ∧ (∃ info, st.redis.active project = some info ∧ info.executionId = e) ∧
    st.db.debugging project = []

/-- What is the case when `p` is so far. -/
def SlotStage.Holds (st : Service) (p : Pid) : SlotStage → Prop
  | calm => (st.db.tx p).Unrecorded
  | inserted e => (st.db.tx p).Unrecorded ∧ st.db.Inserting p e
  | taken project e => (st.db.tx p).Unrecorded ∧ OwnsSlot st p project e
  | recorded project e => OwnsSlot st p project e ∧
      (∃ row, .insert row ∈ (st.db.tx p).debugWrites) ∧
      ∀ row, .insert row ∈ (st.db.tx p).debugWrites →
        row.executionId = e ∧ row.projectId = project
  | started project e => (st.db.tx p).Unrecorded ∧
      ∃ ds ∈ st.db.debugSessions, ds.executionId = e ∧ ds.projectId = project

structure SlotInv (st : Service) (gs : Pid → SlotStage) : Prop where
  /-- Debug sessions belong to committed executions. -/
  known : ∀ ds ∈ st.db.debugSessions, st.db.executions ds.executionId ≠ none
  /-- At most one debug run of a project is committed and unfinished. -/
  single : ∀ project, ∀ e ∈ st.db.debugging project, ∀ e' ∈ st.db.debugging project, e = e'
  holds : ∀ p, (gs p).Holds st p

section Frame

variable {st st' : Service} {p q : Pid} {g : SlotStage}

/-- What others do leaves `q` where it is, unless they touch what it holds. -/
theorem SlotStage.Holds.frame (h : g.Holds st q) (htx : st'.db.tx q = st.db.tx q)
    (hins : ∀ e, st.db.Inserting q e → st'.db.executions e = none)
    (hkey : ∀ project info, st.redis.active project = some info →
      st.db.Inserting q info.executionId → st'.redis.active project = some info)
    (hdebug : ∀ project e, OwnsSlot st q project e → st'.db.debugging project = [])
    (hds : ∀ ds ∈ st.db.debugSessions, ∃ ds' ∈ st'.db.debugSessions, SameSession ds ds') :
    g.Holds st' q := by
  have hinserting : ∀ e, st.db.Inserting q e → st'.db.Inserting q e :=
    fun e he => ⟨htx ▸ he.1, hins e he⟩
  have howns : ∀ project e, OwnsSlot st q project e → OwnsSlot st' q project e := by
    rintro project e ⟨hi, ⟨info, hinfo, rfl⟩, hnone⟩
    exact ⟨hinserting _ hi, ⟨info, hkey _ _ hinfo hi, rfl⟩,
      hdebug project _ ⟨hi, ⟨info, hinfo, rfl⟩, hnone⟩⟩
  cases g with
  | calm =>
    show (st'.db.tx q).Unrecorded
    rw [htx]
    exact h
  | inserted e => exact ⟨htx ▸ h.1, hinserting e h.2⟩
  | taken project e => exact ⟨htx ▸ h.1, howns project e h.2⟩
  | recorded project e => exact ⟨howns project e h.1, htx ▸ h.2⟩
  | started project e =>
    obtain ⟨hun, ds, hmem, rfl, rfl⟩ := h
    obtain ⟨ds', hmem', hid, hproject⟩ := hds ds hmem
    exact ⟨htx ▸ hun, ds', hmem', hid, hproject⟩

/-- Work in its own transaction that inserts no debug session leaves `p` where it is. -/
theorem SlotStage.Holds.own (h : g.Holds st p)
    (hexec : ∀ e, (st.db.tx p).executions e ≠ none → (st'.db.tx p).executions e ≠ none)
    (hinsert : ∀ row, .insert row ∈ (st'.db.tx p).debugWrites ↔
      .insert row ∈ (st.db.tx p).debugWrites)
    (hcommitted : st'.db.executions = st.db.executions)
    (hsessions : st'.db.debugSessions = st.db.debugSessions)
    (hactive : st'.redis.active = st.redis.active) : g.Holds st' p := by
  have hun : (st.db.tx p).Unrecorded → (st'.db.tx p).Unrecorded :=
    fun hun row hmem => hun row ((hinsert row).1 hmem)
  have hi : ∀ e, st.db.Inserting p e → st'.db.Inserting p e :=
    fun e he => ⟨hexec e he.1, hcommitted ▸ he.2⟩
  have howns : ∀ project e, OwnsSlot st p project e → OwnsSlot st' p project e := by
    rintro project e ⟨hie, hinfo, hnone⟩
    refine ⟨hi e hie, hactive ▸ hinfo, ?_⟩
    simpa [Database.debugging, hcommitted, hsessions] using hnone
  cases g with
  | calm => exact hun h
  | inserted e => exact ⟨hun h.1, hi e h.2⟩
  | taken project e => exact ⟨hun h.1, howns project e h.2⟩
  | recorded project e =>
    obtain ⟨ho, ⟨row, hrow⟩, hall⟩ := h
    exact ⟨howns project e ho, ⟨row, (hinsert row).2 hrow⟩,
      fun row hrow => hall row ((hinsert row).1 hrow)⟩
  | started project e => exact ⟨hun h.1, hsessions ▸ h.2⟩

end Frame

namespace SlotInv

variable {st st' : Service} {gs : Pid → SlotStage} {p : Pid} {g' : SlotStage}

/-- A step of `p` that changes no committed table and no key. -/
theorem transaction (h : SlotInv st gs) {tx : Transaction}
    (htx : st'.db.tx = Function.update st.db.tx p tx)
    (hcommitted : st'.db.executions = st.db.executions)
    (hsessions : st'.db.debugSessions = st.db.debugSessions)
    (hactive : st'.redis.active = st.redis.active) (hp : g'.Holds st' p) :
    SlotInv st' (Function.update gs p g') := by
  have hdebugging : st'.db.debugging = st.db.debugging := by
    funext project
    simp [Database.debugging, hcommitted, hsessions]
  refine ⟨?_, ?_, fun q => ?_⟩
  · rw [hsessions, hcommitted]
    exact h.known
  · rw [hdebugging]
    exact h.single
  · by_cases hq : q = p
    · subst hq
      simpa using hp
    · rw [Function.update_of_ne hq]
      refine (h.holds q).frame ?_ ?_ ?_ ?_ ?_
      · rw [htx, Function.update_of_ne hq]
      · exact fun e he => hcommitted ▸ he.2
      · exact fun project info hinfo _ => hactive ▸ hinfo
      · exact fun project e ho => hdebugging ▸ ho.2.2
      · exact fun ds hds => ⟨ds, hsessions ▸ hds, rfl, rfl⟩

/-- Work in the transaction of `p` that inserts no debug session. -/
theorem own (h : SlotInv st gs) {tx : Transaction}
    (htx : st'.db.tx = Function.update st.db.tx p tx)
    (hexec : ∀ e, (st.db.tx p).executions e ≠ none → tx.executions e ≠ none)
    (hinsert : ∀ row, .insert row ∈ tx.debugWrites ↔ .insert row ∈ (st.db.tx p).debugWrites)
    (hcommitted : st'.db.executions = st.db.executions)
    (hsessions : st'.db.debugSessions = st.db.debugSessions)
    (hactive : st'.redis.active = st.redis.active) : SlotInv st' gs := by
  have hself : st'.db.tx p = tx := by rw [htx, Function.update_self]
  have hp : (gs p).Holds st' p :=
    (h.holds p).own (fun e he => hself ▸ hexec e he) (fun row => hself ▸ hinsert row) hcommitted
      hsessions hactive
  have hinv := h.transaction htx hcommitted hsessions hactive hp
  rwa [Function.update_eq_self] at hinv

theorem congr (h : SlotInv st gs) (hdb : st'.db = st.db)
    (hactive : st'.redis.active = st.redis.active) : SlotInv st' gs := by
  have htx : st'.db.tx = Function.update st.db.tx 0 (st.db.tx 0) := by
    rw [hdb, Function.update_eq_self]
  refine h.own htx (fun _ he => he) (fun _ => Iff.rfl) ?_ ?_ hactive
  · rw [hdb]
  · rw [hdb]

theorem write (h : SlotInv st gs) (e : ExecutionId) (row : Execution) :
    SlotInv { st with db := st.db.write p e row } gs := by
  refine h.own rfl (fun e' he' => ?_) (fun _ => Iff.rfl) rfl rfl rfl
  by_cases hee : e' = e
  · subst hee
    simp
  · simpa [Function.update_of_ne hee] using he'

theorem updateWhere (h : SlotInv st gs) {e : ExecutionId} {cond : Execution → Bool}
    {set : Execution → Execution} {changed : Bool} {db : Database}
    (hu : st.db.updateWhere p e cond set = some (changed, db)) :
    SlotInv { st with db } gs := by
  rcases Database.updateWhere_eq_some hu with ⟨-, rfl⟩ | ⟨-, row, -, -, -, rfl⟩
  · exact h
  · exact h.write e _

theorem addEvent (h : SlotInv st gs) (e : ExecutionId) (payload : EventPayload) :
    SlotInv { st with db := st.db.addEvent p e payload } gs :=
  h.own rfl (fun _ he => he) (fun _ => Iff.rfl) rfl rfl rfl

theorem stop (h : SlotInv st gs) (e : ExecutionId) (endedAt : Seconds) :
    SlotInv { st with db := st.db.addDebugWrite p (.stop e endedAt) } gs :=
  h.own rfl (fun _ he => he) (fun row => by simp) rfl rfl rfl

/-- An inserted row is seen by its own session only. -/
theorem insertExecution (h : SlotInv st gs) (hg : gs p = .calm) {owed : SessionId → Owed}
    (hlog : LogInv st.db owed) (row : Execution) :
    SlotInv { st with db := (st.db.insertExecution p row).2 }
      (Function.update gs p (.inserted st.db.nextExecution)) := by
  have hk : (st.db.tx p).Unrecorded := by
    have hk := h.holds p
    rwa [hg] at hk
  refine h.transaction rfl rfl rfl rfl ⟨?_, ?_, (hlog.fresh _ (Nat.le_refl _)).1⟩
  · simpa [Database.insertExecution, Database.write, Transaction.Unrecorded] using hk
  · simp [Database.insertExecution, Database.write]

/-- The session row of the execution that the key names is added. -/
theorem addDebugSession (h : SlotInv st gs) {project : ProjectId} {e : ExecutionId}
    (hg : gs p = .taken project e) {row : DebugSession} (hid : row.executionId = e)
    (hproject : row.projectId = project) :
    SlotInv { st with db := st.db.addDebugWrite p (.insert row) }
      (Function.update gs p (.recorded project e)) := by
  have hk := h.holds p
  rw [hg] at hk
  obtain ⟨hun, ho⟩ := hk
  refine h.transaction rfl rfl rfl rfl ⟨⟨⟨?_, ho.1.2⟩, ho.2⟩, ⟨row, ?_⟩, fun row' hrow' => ?_⟩
  · simpa using ho.1.1
  · simp [Database.addDebugWrite]
  · simp only [Database.addDebugWrite, Function.update_self, List.mem_append, List.mem_singleton,
      DebugWrite.insert.injEq] at hrow'
    rcases hrow' with hrow' | rfl
    · exact absurd hrow' (hun row')
    · exact ⟨hid, hproject⟩

theorem rollback (h : SlotInv st gs) :
    SlotInv { st with db := st.db.rollback p } (Function.update gs p (gs p).closed) := by
  have hun : ((st.db.rollback p).tx p).Unrecorded := by
    simp [Database.rollback, Transaction.Unrecorded]
  refine h.transaction rfl rfl rfl rfl ?_
  have hk := h.holds p
  cases hg : gs p with
  | started project e =>
    rw [hg] at hk
    exact ⟨hun, hk.2⟩
  | _ => exact hun

/-! ### Commits -/

/-- A debug run that is unfinished after a commit was so before, or the commit is its own. -/
theorem debugging_of_commit (h : SlotInv st gs) {owed : SessionId → Owed}
    (hlog : LogInv st.db owed) {project : ProjectId} {e : ExecutionId}
    (he : e ∈ (st.db.commit p).debugging project) :
    e ∈ st.db.debugging project ∨
      ∃ row, .insert row ∈ (st.db.tx p).debugWrites ∧ row.executionId = e ∧
        row.projectId = project := by
  obtain ⟨⟨ds', hmem, rfl, rfl⟩, row', hrow', hfin⟩ := Database.mem_debugging.1 he
  rcases mem_foldl_apply hmem with ⟨ds, hds, hid, hproject⟩ | ⟨row, hrow, hid, hproject⟩
  · obtain ⟨row, hrow⟩ := Option.ne_none_iff_exists'.1 (h.known ds hds)
    rw [hid] at hrow' ⊢
    refine .inl (Database.mem_debugging.2 ⟨⟨ds, hds, rfl, hproject.symm⟩, row, hrow, ?_⟩)
    exact hlog.unfinished_of_visible hrow hrow' hfin
  · exact .inr ⟨row, hrow, hid.symm, hproject.symm⟩

/-- A commit of `p`: what it inserts is its own run, in a project where no other is debugged. -/
theorem commit (h : SlotInv st gs) {owed : SessionId → Owed} (hlog : LogInv st.db owed)
    (hown : ∀ row, .insert row ∈ (st.db.tx p).debugWrites →
      OwnsSlot st p row.projectId row.executionId ∧
        ∀ row', .insert row' ∈ (st.db.tx p).debugWrites →
          row'.projectId = row.projectId → row'.executionId = row.executionId)
    (hp : g'.Holds { st with db := st.db.commit p } p) :
    SlotInv { st with db := st.db.commit p } (Function.update gs p g') := by
  -- a row that another session is inserting is not among those `p` commits
  have hother : ∀ q, q ≠ p → ∀ e, st.db.Inserting q e → (st.db.commit p).executions e = none := by
    intro q hq e he
    have hl := (hlog.locked q e).1 he.1
    have hne : st.db.locks e ≠ some p := by
      rw [hl]
      simpa using hq
    exact (hlog.visible_of_not_locked hne).trans he.2
  refine ⟨fun ds' hds' => ?_, fun project e he e' he' => ?_, fun q => ?_⟩
  · show st.db.visible p ds'.executionId ≠ none
    rcases mem_foldl_apply hds' with ⟨ds, hds, hid, -⟩ | ⟨row, hrow, hid, -⟩
    · have hknown := h.known ds hds
      rw [hid]
      cases hv : (st.db.tx p).executions ds.executionId <;>
        simp [Database.visible, hv, hknown]
    · obtain ⟨⟨⟨hins, -⟩, -⟩, -⟩ := hown row hrow
      rw [hid]
      obtain ⟨row', hrow'⟩ := Option.ne_none_iff_exists'.1 hins
      simp [Database.visible, hrow']
  · rcases h.debugging_of_commit hlog he with he | ⟨row, hrow, rfl, rfl⟩
    · rcases h.debugging_of_commit hlog he' with he' | ⟨row', hrow', rfl, rfl⟩
      · exact h.single project e he e' he'
      · rw [(hown row' hrow').1.2.2] at he
        cases he
    · rcases h.debugging_of_commit hlog he' with he' | ⟨row', hrow', rfl, hproject⟩
      · rw [(hown row hrow).1.2.2] at he'
        cases he'
      · exact ((hown row hrow).2 row' hrow' hproject).symm
  · by_cases hq : q = p
    · subst hq
      simpa using hp
    · rw [Function.update_of_ne hq]
      refine (h.holds q).frame ?_ (hother q hq) (fun _ _ hinfo _ => hinfo) ?_
        (fun ds hds => foldl_apply_keeps _ hds)
      · simp [Database.commit, Database.rollback, hq]
      · rintro project e ⟨hie, ⟨info, hinfo, rfl⟩, hnone⟩
        refine List.eq_nil_iff_forall_not_mem.2 fun e' he' => ?_
        rcases h.debugging_of_commit hlog he' with he' | ⟨row, hrow, rfl, rfl⟩
        · rw [hnone] at he'
          cases he'
        · -- then the key would name a row of `p` and one of `q`
          obtain ⟨⟨hip, ⟨info', hinfo', hid⟩, -⟩, -⟩ := hown row hrow
          rw [hinfo] at hinfo'
          obtain rfl := Option.some.inj hinfo'
          have hl := (hlog.locked q _).1 hie.1
          rw [hid, (hlog.locked p _).1 hip.1] at hl
          exact hq (Option.some.inj hl).symm

/-- A session that adds no debug session commits. -/
theorem commit_unrecorded (h : SlotInv st gs) {owed : SessionId → Owed} (hlog : LogInv st.db owed)
    (hun : (st.db.tx p).Unrecorded) :
    SlotInv { st with db := st.db.commit p } (Function.update gs p (gs p).closed) := by
  refine h.commit hlog (fun row hrow => absurd hrow (hun row)) ?_
  have hnone : ((st.db.commit p).tx p).Unrecorded := by
    simp [Database.commit, Database.rollback, Transaction.Unrecorded]
  have hk := h.holds p
  cases hg : gs p with
  | started project e =>
    rw [hg] at hk
    obtain ⟨-, ds, hmem, rfl, rfl⟩ := hk
    obtain ⟨ds', hmem', hid, hproject⟩ := foldl_apply_keeps (st.db.tx p).debugWrites hmem
    exact ⟨hnone, ds', hmem', hid, hproject⟩
  | _ => exact hnone

/-- A start commits its debug run. -/
theorem commit_recorded (h : SlotInv st gs) {owed : SessionId → Owed} (hlog : LogInv st.db owed)
    {project : ProjectId} {e : ExecutionId} (hg : gs p = .recorded project e) :
    SlotInv { st with db := st.db.commit p } (Function.update gs p (.started project e)) := by
  have hk := h.holds p
  rw [hg] at hk
  obtain ⟨ho, ⟨row, hrow⟩, hall⟩ := hk
  refine h.commit hlog (fun row' hrow' => ?_) ⟨?_, ?_⟩
  · obtain ⟨rfl, rfl⟩ := hall row' hrow'
    exact ⟨ho, fun row'' hrow'' _ => (hall row'' hrow'').1⟩
  · simp [Database.commit, Database.rollback, Transaction.Unrecorded]
  · obtain ⟨ds', hmem', hid, hproject⟩ := foldl_apply_inserts hrow st.db.debugSessions
    obtain ⟨rfl, rfl⟩ := hall row hrow
    exact ⟨ds', hmem', hid, hproject⟩

/-! ### The key -/

/-- The key of a project changes while it names no row that is being inserted. -/
theorem setKey (h : SlotInv st gs) {owed : SessionId → Owed} (hlog : LogInv st.db owed)
    {project : ProjectId} (hkey : ∀ info ∈ st.redis.active project,
      st.db.uncommitted info.executionId = false) (info? : Option ActiveInfo)
    (hp : g'.Holds
      { st with redis.active := Function.update st.redis.active project info? } p) :
    SlotInv { st with redis.active := Function.update st.redis.active project info? }
      (Function.update gs p g') := by
  refine ⟨h.known, h.single, fun q => ?_⟩
  by_cases hq : q = p
  · subst hq
    simpa using hp
  · rw [Function.update_of_ne hq]
    refine (h.holds q).frame rfl (fun _ he => he.2) (fun project' info hinfo hins => ?_)
      (fun _ _ ho => ho.2.2) fun ds hds => ⟨ds, hds, rfl, rfl⟩
    by_cases hpr : project' = project
    · subst hpr
      have hun := hkey info hinfo
      rw [hins.uncommitted hlog] at hun
      cases hun
    · simpa [Function.update_of_ne hpr] using hinfo

/-- A start takes the slot where no other run is debugged. -/
theorem take (h : SlotInv st gs) {owed : SessionId → Owed} (hlog : LogInv st.db owed)
    {project : ProjectId} {info : ActiveInfo} (hg : gs p = .inserted info.executionId)
    (hkey : ∀ info ∈ st.redis.active project, st.db.uncommitted info.executionId = false)
    (hnone : st.db.debugging project = []) :
    SlotInv { st with redis.active := Function.update st.redis.active project (some info) }
      (Function.update gs p (.taken project info.executionId)) := by
  have hk := h.holds p
  rw [hg] at hk
  exact h.setKey hlog hkey (some info) ⟨hk.1, hk.2, ⟨info, by simp, rfl⟩, hnone⟩

/-- Deleting the key leaves a process that is not about to commit where it is. -/
theorem release (h : SlotInv st gs) {owed : SessionId → Owed} (hlog : LogInv st.db owed)
    {project : ProjectId} (hcalm : (gs p).closed = gs p)
    (hkey : ∀ info ∈ st.redis.active project, st.db.uncommitted info.executionId = false) :
    SlotInv { st with redis.active := Function.update st.redis.active project none } gs := by
  have hk := h.holds p
  have hkeep : (gs p).Holds
      { st with redis.active := Function.update st.redis.active project none } p := by
    cases hg : gs p with
    | calm =>
      rw [hg] at hk
      exact hk
    | started project e =>
      rw [hg] at hk
      exact hk
    | _ =>
      rw [hg] at hcalm
      cases hcalm
  have hinv := h.setKey hlog hkey none hkeep
  rwa [Function.update_eq_self] at hinv

end SlotInv

end Concord
