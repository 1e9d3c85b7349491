import Concord.Execution.Footprint
import Concord.Queue.Delivery

/-!
# Where executions, entries and sessions come from

Whatever fails, an execution, its queue entry and its debug session are made by one start and by
nobody else: the row first, the session row with it, the entry after both are committed. So an entry
is set once and removed once, and its payload tells the truth about a committed execution. The ghost
value of a process says how far it is as a start; `Origins` is what follows for the state.
-/

namespace Concord

open Concord.Base Async ExecutionStatus QueueLog

/-- The payload is that of a committed execution of a file of the project, and tells what it is: only
a debug run has a debug session, and only Python programs are debugged. -/
structure Database.Honest (db : Database) (payload : Payload) : Prop where
  known : db.Matches payload.executionId payload
  located : ∃ f, db.file? payload.fileId = some f ∧ f.projectId = payload.projectId
  python : payload.debug.getD false = true → payload.language.getD .python = .python
  plain : payload.debug.getD false = false → db.NoSession payload.executionId

/-- What the state says about origins. -/
structure Origins (st : Service) : Prop where
  ledger : Ledger st.redis
  honest : ∀ id payload, Entered st.redis.log id payload → st.db.Honest payload
  /-- Debug sessions belong to committed executions. -/
  known : ∀ ds ∈ st.db.debugSessions, st.db.executions ds.executionId ≠ none
  /-- A debug session is added to the session that inserts its execution. -/
  recorded : ∀ p e, st.db.Inserts p e →
    st.db.executions e = none ∧ (st.db.tx p).executions e ≠ none
  /-- An execution is queued when it is committed for the first time. -/
  newborn : ∀ p e row, (st.db.tx p).executions e = some row → st.db.executions e = none →
    row.status = queued
  /-- No session changes a row's origin. -/
  kept : ∀ p e row row', (st.db.tx p).executions e = some row' →
    st.db.executions e = some row → row.SameOrigin row'
  /-- A process creates one execution at most. -/
  single : ∀ e e' row row', st.db.executions e = some row → st.db.executions e' = some row' →
    row.createdBy = row'.createdBy → e = e'

/-- How far a process is as a start. -/
inductive Birth
  /-- It has inserted nothing. -/
  | fresh
  /-- It has inserted its row, of this project and file, and not committed it; for a debug run it may
  have added the session. -/
  | inserted (project : ProjectId) (file : FileId) (debug : Bool) (id : ExecutionId)
  /-- It has committed them, and set no entry. -/
  | committed (project : ProjectId) (file : FileId) (debug : Bool) (id : ExecutionId)
  /-- It inserts nothing and sets no entry. -/
  | beside

namespace Birth

/-- What is the case when `p` is so far. -/
def Holds (st : Service) (p : Pid) : Birth → Prop
  | fresh => st.db.Blank p ∧ (st.db.tx p).Unrecorded ∧
      ∀ e row, st.db.executions e = some row → row.createdBy ≠ p
  | inserted project file debug id => st.db.executions id = none ∧
      (∃ row, (st.db.tx p).executions id = some row ∧ row.status = queued ∧
        row.projectId = project ∧ row.fileId = file ∧ row.createdBy = p) ∧
      (∀ e, (st.db.tx p).executions e ≠ none → e = id) ∧
      (∀ ds, .insert ds ∈ (st.db.tx p).debugWrites → debug = true ∧ ds.executionId = id) ∧
      ∀ e row, st.db.executions e = some row → row.createdBy ≠ p
  | committed project file debug id => st.db.NoInsert p ∧ (st.db.tx p).Unrecorded ∧
      (∃ row, st.db.executions id = some row ∧ row.projectId = project ∧ row.fileId = file ∧
        row.createdBy = p) ∧
      NeverSet st.redis.log id ∧ (debug = false → st.db.NoSession id)
  | beside => st.db.NoInsert p ∧ (st.db.tx p).Unrecorded

/-- Past the commit of its execution, or no start. -/
def Settled : Birth → Prop
  | committed _ _ _ _ | beside => True
  | _ => False

theorem Holds.settled {st : Service} {p : Pid} {g : Birth} (h : g.Holds st p) (hg : g.Settled) :
    st.db.NoInsert p ∧ (st.db.tx p).Unrecorded := by
  cases g with
  | committed => exact ⟨h.1, h.2.1⟩
  | beside => exact h
  | _ => exact hg.elim

end Birth

structure BirthInv (st : Service) (gs : Pid → Birth) : Prop where
  ledger : Ledger st.redis
  unsent : ∀ e, st.db.executions e = none → NeverSet st.redis.log e
  honest : ∀ id payload, Entered st.redis.log id payload → st.db.Honest payload
  known : ∀ ds ∈ st.db.debugSessions, st.db.executions ds.executionId ≠ none
  kept : ∀ p e row row', (st.db.tx p).executions e = some row' →
    st.db.executions e = some row → row.SameOrigin row'
  single : ∀ e e' row row', st.db.executions e = some row → st.db.executions e' = some row' →
    row.createdBy = row'.createdBy → e = e'
  holds : ∀ p, (gs p).Holds st p

theorem BirthInv.recorded {st : Service} {gs : Pid → Birth} (h : BirthInv st gs) {p : Pid}
    {e : ExecutionId} (hi : st.db.Inserts p e) :
    st.db.executions e = none ∧ (st.db.tx p).executions e ≠ none := by
  obtain ⟨ds, hds, rfl⟩ := hi
  have hh := h.holds p
  cases hg : gs p with
  | inserted project file debug id =>
    rw [hg] at hh
    obtain ⟨hnone, ⟨row, hrow, -⟩, -, hinserts, -⟩ := hh
    rw [(hinserts ds hds).2]
    exact ⟨hnone, by simp [hrow]⟩
  | fresh | committed =>
    rw [hg] at hh
    exact absurd hds (hh.2.1 ds)
  | beside =>
    rw [hg] at hh
    exact absurd hds (hh.2 ds)

theorem BirthInv.newborn {st : Service} {gs : Pid → Birth} (h : BirthInv st gs) {p : Pid}
    {e : ExecutionId} {row : Execution} (hrow : (st.db.tx p).executions e = some row)
    (hnone : st.db.executions e = none) : row.status = queued := by
  have hh := h.holds p
  cases hg : gs p with
  | inserted project file debug id =>
    rw [hg] at hh
    obtain ⟨-, ⟨row', hrow', hqueued, -⟩, honly, -⟩ := hh
    obtain rfl := honly e (by simp [hrow])
    rw [hrow] at hrow'
    cases hrow'
    exact hqueued
  | fresh =>
    rw [hg] at hh
    simp [hh.1 e] at hrow
  | committed | beside =>
    rw [hg] at hh
    exact absurd hnone (hh.1 e (by simp [hrow]))

theorem BirthInv.origins {st : Service} {gs : Pid → Birth} (h : BirthInv st gs) : Origins st where
  ledger := h.ledger
  honest := h.honest
  known := h.known
  recorded _ _ := h.recorded
  newborn _ _ _ := h.newborn
  kept := h.kept
  single := h.single

/-- What a step leaves to `q` of its own, and of the committed rows. -/
structure Passes (q : Pid) (st st' : Service) : Prop where
  tx : st'.db.tx q = st.db.tx q
  rows : ∀ e row, st.db.executions e = some row →
    ∃ row', st'.db.executions e = some row' ∧ row.SameOrigin row'
  back : ∀ e row', st'.db.executions e = some row' → row'.createdBy = q →
    ∃ row, st.db.executions e = some row ∧ row.createdBy = q
  fresh : ∀ e, (st.db.tx q).executions e ≠ none → st.db.executions e = none →
    st'.db.executions e = none
  plain : ∀ e, st.db.executions e ≠ none → st.db.NoSession e → st'.db.NoSession e
  unsent : ∀ e row, st.db.executions e = some row → row.createdBy = q →
    NeverSet st.redis.log e → NeverSet st'.redis.log e

section Frame

variable {st st' : Service} {p q : Pid} {g : Birth}

theorem Birth.Holds.frame (h : g.Holds st q) (hs : Passes q st st') : g.Holds st' q := by
  have hnoInsert : st.db.NoInsert q → st'.db.NoInsert q := by
    intro hn e he
    rw [hs.tx] at he
    obtain ⟨row, hrow⟩ := Option.ne_none_iff_exists'.1 (hn e he)
    obtain ⟨row', hrow', -⟩ := hs.rows e row hrow
    simp [hrow']
  have hunborn : (∀ e row, st.db.executions e = some row → row.createdBy ≠ q) →
      ∀ e row, st'.db.executions e = some row → row.createdBy ≠ q := by
    intro hnone e row' hrow' hby
    obtain ⟨row, hrow, hby⟩ := hs.back e row' hrow' hby
    exact hnone e row hrow hby
  cases g with
  | fresh =>
    refine ⟨fun e => ?_, hs.tx ▸ h.2.1, hunborn h.2.2⟩
    rw [hs.tx]
    exact h.1 e
  | inserted project file debug id =>
    obtain ⟨hnone, hrow, honly, hinserts, hunb⟩ := h
    refine ⟨hs.fresh id ?_ hnone, ?_⟩
    · obtain ⟨row, hrow, -⟩ := hrow
      simp [hrow]
    · rw [hs.tx]
      exact ⟨hrow, honly, hinserts, hunborn hunb⟩
  | committed project file debug id =>
    obtain ⟨hn, hun, ⟨row, hrow, hproject, hfile, hby⟩, hset, hplain⟩ := h
    obtain ⟨row', hrow', hsame⟩ := hs.rows id row hrow
    exact ⟨hnoInsert hn, hs.tx ▸ hun,
      ⟨row', hrow', hsame.1.trans hproject, hsame.2.1.trans hfile, hsame.2.2.trans hby⟩,
      hs.unsent id row hrow hby hset,
      fun hd => hs.plain id (by simp [hrow]) (hplain hd)⟩
  | beside => exact ⟨hnoInsert h.1, hs.tx ▸ h.2⟩

theorem Database.Honest.mono {payload : Payload} (h : st.db.Honest payload)
    (hfiles : st'.db.files = st.db.files)
    (hrows : ∀ e row, st.db.executions e = some row →
      ∃ row', st'.db.executions e = some row' ∧ row.SameOrigin row')
    (hplain : ∀ e, st.db.executions e ≠ none → st.db.NoSession e → st'.db.NoSession e) :
    st'.db.Honest payload := by
  obtain ⟨hid, row, hrow, hproject, hfile⟩ := h.known
  obtain ⟨row', hrow', hsame⟩ := hrows _ row hrow
  refine ⟨⟨hid, row', hrow', hsame.1.trans hproject, hsame.2.1.trans hfile⟩, ?_, h.python,
    fun hd => hplain _ (by simp [hrow]) (h.plain hd)⟩
  simpa only [Database.file?, hfiles] using h.located

end Frame

namespace BirthInv

variable {st st' : Service} {gs : Pid → Birth} {p : Pid} {c : Birth} {env : Env} {o : Op}
  {x : Except PyError o.Val}

/-- An operation that sets no entry leaves none in the history. -/
theorem sets_step (hset : ∀ id payload, o ≠ .hset id payload)
    (hx : o.run p env st = some (x, st')) :
    ∀ c ∈ st'.redis.log, c ∈ st.redis.log ∨ ∀ e, c.2.sets e = false := by
  intro c hc
  cases ho : o.touchesQueue with
  | false => exact .inl ((Op.run_queue ho hx).2 ▸ hc)
  | true =>
    cases o <;> simp only [Op.touchesQueue, Bool.false_eq_true] at ho
    case hset id payload => exact absurd rfl (hset id payload)
    case hgetall =>
      obtain ⟨raw, -, -, rfl⟩ := Op.run_hgetall hx
      rcases List.mem_append.1 hc with hc | hc
      · exact .inl hc
      · rw [List.mem_singleton.1 hc]
        exact .inr fun _ => rfl
    case hdel id =>
      cases hx
      rcases List.mem_append.1 hc with hc | hc
      · exact .inl hc
      · rw [List.mem_singleton.1 hc]
        exact .inr fun _ => rfl

theorem ledger_step (h : Ledger st.redis) (hset : ∀ id payload, o ≠ .hset id payload)
    (hx : o.run p env st = some (x, st')) : Ledger st'.redis := by
  cases ho : o.touchesQueue with
  | false => exact h.congr (Op.run_queue ho hx).1 (Op.run_queue ho hx).2
  | true =>
    cases o <;> simp only [Op.touchesQueue, Bool.false_eq_true] at ho
    case hset id payload => exact absurd rfl (hset id payload)
    case hgetall =>
      obtain ⟨raw, -, -, rfl⟩ := Op.run_hgetall hx
      exact h.logged raw
    case hdel id =>
      cases hx
      exact h.hdel id

theorem neverSet_of_sets {log log' : QueueLog} {e : ExecutionId} (h : NeverSet log e)
    (hlog : ∀ c ∈ log', c ∈ log ∨ ∀ e, c.2.sets e = false) : NeverSet log' e :=
  fun c hc => (hlog c hc).elim (h c) fun hs => hs e

theorem entered_of_sets {log log' : QueueLog} {id : ExecutionId} {payload : Payload}
    (hlog : ∀ c ∈ log', c ∈ log ∨ ∀ e, c.2.sets e = false) (h : Entered log' id payload) :
    Entered log id payload := by
  obtain ⟨q, hq⟩ := h
  rcases hlog _ hq with hq | hs
  · exact ⟨q, hq⟩
  · simpa [QueueCommand.sets] using hs id

theorem kept_write (h : BirthInv st gs) {e e₀ : ExecutionId} {row₀ row₀' row row' : Execution}
    (hv : st.db.visible p e₀ = some row₀) (hsame : row₀.SameOrigin row₀')
    (hrow' : ((st.db.write p e₀ row₀').tx p).executions e = some row')
    (hrow : st.db.executions e = some row) : row.SameOrigin row' := by
  by_cases he : e = e₀
  · subst he
    have heq : row₀' = row' := by simpa [Database.write] using hrow'
    subst heq
    cases htx : (st.db.tx p).executions e with
    | none =>
      have heq : row = row₀ := by simpa [Database.visible, htx, hrow] using hv
      exact heq ▸ hsame
    | some row₁ =>
      have heq : row₁ = row₀ := by simpa [Database.visible, htx] using hv
      exact (h.kept p e row row₁ htx hrow).trans (heq ▸ hsame)
  · refine h.kept p e row row' ?_ hrow
    simpa [Database.write, he] using hrow'

/-- What a session writes has the origin of the row it writes over. -/
theorem kept_step (h : BirthInv st gs) {owed : SessionId → Owed} (hlog : LogInv st.db owed)
    (hcommit : o ≠ .commit) (hx : o.run p env st = some (x, st')) {e : ExecutionId}
    {row row' : Execution} (hrow' : (st'.db.tx p).executions e = some row')
    (hrow : st.db.executions e = some row) : row.SameOrigin row' := by
  cases hrows : o.touchesRows with
  | false =>
    rw [(Op.run_beside hrows hx).2.1] at hrow'
    exact h.kept p e row row' hrow' hrow
  | true =>
    cases o <;> simp only [Op.touchesRows, Bool.false_eq_true] at hrows
    case commit => exact absurd rfl hcommit
    case rollback | close =>
      cases hx
      simp [Database.rollback] at hrow'
    case insertExecution project file queuedAt =>
      cases hx
      by_cases he : e = st.db.nextExecution
      · subst he
        rw [(hlog.fresh _ (Nat.le_refl _)).1] at hrow
        cases hrow
      · refine h.kept p e row row' ?_ hrow
        simpa [Database.insertExecution, Database.write, he] using hrow'
    case updateStatus | claimQueued =>
      obtain ⟨⟨changed, db⟩, hu, hx⟩ := Option.map_eq_some_iff.1 hx
      cases hx
      rcases Database.updateWhere_eq_some hu with ⟨-, rfl⟩ | ⟨-, row₀, hv, -, -, rfl⟩
      · exact h.kept p e row row' hrow' hrow
      · exact h.kept_write hv (.set row₀ _ _) hrow' hrow
    case hset =>
      cases hx
      exact h.kept p e row row' hrow' hrow
    case hgetall =>
      obtain ⟨raw, -, -, rfl⟩ := Op.run_hgetall hx
      exact h.kept p e row row' hrow' hrow
    case hdel =>
      cases hx
      exact h.kept p e row row' hrow' hrow

/-- A step of `p` that neither commits nor sets an entry. -/
theorem own (h : BirthInv st gs) {owed : SessionId → Owed} (hlog : LogInv st.db owed)
    (hx : o.run p env st = some (x, st')) (hcommit : o ≠ .commit)
    (hset : ∀ id payload, o ≠ .hset id payload) (hp : c.Holds st' p) :
    BirthInv st' (Function.update gs p c) := by
  obtain ⟨hrows, -, hsessions⟩ := Op.run_committed hcommit hx
  have hledger := ledger_step h.ledger hset hx
  have hsets := sets_step hset hx
  have hrows' : ∀ e row, st.db.executions e = some row →
      ∃ row', st'.db.executions e = some row' ∧ row.SameOrigin row' :=
    fun e row hrow => ⟨row, hrows ▸ hrow, .refl row⟩
  have hplain : ∀ e, st.db.executions e ≠ none → st.db.NoSession e → st'.db.NoSession e :=
    fun e _ hn => by
      unfold Database.NoSession
      rw [hsessions]
      exact hn
  refine ⟨hledger, fun e he => ?_, fun id payload he => ?_, ?_, fun q e row row' hrow' hrow => ?_,
    ?_, fun q => ?_⟩
  · rw [hrows] at he
    exact neverSet_of_sets (h.unsent e he) hsets
  · exact (h.honest id payload (entered_of_sets hsets he)).mono (Op.run_files hx) hrows' hplain
  · rw [hsessions, hrows]
    exact h.known
  · rw [hrows] at hrow
    by_cases hq : q = p
    · subst hq
      exact h.kept_step hlog hcommit hx hrow' hrow
    · rw [Op.run_tx_of_ne hx hq] at hrow'
      exact h.kept q e row row' hrow' hrow
  · rw [hrows]
    exact h.single
  · by_cases hq : q = p
    · subst hq
      rwa [Function.update_self]
    · rw [Function.update_of_ne hq]
      exact (h.holds q).frame {
        tx := Op.run_tx_of_ne hx hq
        rows := hrows'
        back := fun e row' hrow' hby => ⟨row', hrows ▸ hrow', hby⟩
        fresh := fun e _ hnone => hrows ▸ hnone
        plain := hplain
        unsent := fun e _ _ _ hn => neverSet_of_sets hn hsets }

/-- A row that a commit publishes for the first time is one `p` has created, and the only one. -/
def Births (st : Service) (p : Pid) : Prop :=
  ∀ e row, st.db.visible p e = some row → st.db.executions e ≠ none ∨
    row.createdBy = p ∧ ∀ e' row', st.db.visible p e' = some row' → row'.createdBy = p → e = e'

theorem committed_row (h : BirthInv st gs) {e : ExecutionId} {row : Execution}
    (hrow : st.db.executions e = some row) :
    ∃ row', (st.db.commit p).executions e = some row' ∧ row.SameOrigin row' := by
  cases htx : (st.db.tx p).executions e with
  | none => exact ⟨row, by simp [Database.commit, Database.visible, htx, hrow], .refl row⟩
  | some row' =>
    exact ⟨row', by simp [Database.commit, Database.visible, htx], h.kept p e row row' htx hrow⟩

theorem commit (h : BirthInv st gs) {owed : SessionId → Owed} (hlog : LogInv st.db owed)
    (hborn : Births st p) (hp : c.Holds { st with db := st.db.commit p } p) :
    BirthInv { st with db := st.db.commit p } (Function.update gs p c) := by
  have hplain : ∀ e, st.db.executions e ≠ none → st.db.NoSession e →
      (st.db.commit p).NoSession e :=
    fun e he hn => hn.commit fun hi => he (h.recorded hi).1
  have hback : ∀ e row', st.db.visible p e = some row' → st.db.executions e ≠ none →
      ∃ row, st.db.executions e = some row ∧ row.SameOrigin row' := by
    intro e row' hv hne
    obtain ⟨row, hrow⟩ := Option.ne_none_iff_exists'.1 hne
    obtain ⟨row₁, hrow₁, hsame⟩ := h.committed_row (p := p) hrow
    rw [show st.db.visible p e = some row₁ from hrow₁] at hv
    exact ⟨row, hrow, Option.some.inj hv ▸ hsame⟩
  refine ⟨h.ledger, fun e he => h.unsent e ?_, fun id payload he => ?_, fun ds hds => ?_,
    fun q e row row' hrow' hrow => ?_, fun e e' row row' hrow hrow' hby => ?_, fun q => ?_⟩
  · by_contra hne
    obtain ⟨row, hrow⟩ := Option.ne_none_iff_exists'.1 hne
    obtain ⟨row', hrow', -⟩ := h.committed_row (p := p) hrow
    simp [hrow'] at he
  · exact (h.honest id payload he).mono rfl (fun _ _ hrow => h.committed_row hrow) hplain
  · by_cases hi : st.db.Inserts p ds.executionId
    · obtain ⟨row, hrow⟩ := Option.ne_none_iff_exists'.1 (h.recorded hi).2
      simp [Database.commit, Database.visible, hrow]
    · obtain ⟨⟨ds₀, h₀, he₀, -⟩, -⟩ := Database.mem_commit_debugSessions hi hds rfl
      obtain ⟨row, hrow⟩ := Option.ne_none_iff_exists'.1 (h.known ds₀ h₀)
      obtain ⟨row', hrow', -⟩ := h.committed_row (p := p) hrow
      simp [← he₀, hrow']
  · by_cases hq : q = p
    · subst hq
      simp [Database.commit, Database.rollback] at hrow'
    · have hw : (st.db.tx q).executions e = some row' := by
        simpa [Database.commit, Database.rollback, hq] using hrow'
      have hv : st.db.visible p e = some row := hrow
      rw [hlog.visible_of_written_by_other hq (by simp [hw])] at hv
      exact h.kept q e row row' hw hv
  · rcases hborn e row hrow with hne | ⟨hp', honly⟩
    · rcases hborn e' row' hrow' with hne' | ⟨hp', honly⟩
      · obtain ⟨row₀, hrow₀, hsame⟩ := hback e row hrow hne
        obtain ⟨row₀', hrow₀', hsame'⟩ := hback e' row' hrow' hne'
        exact h.single e e' row₀ row₀' hrow₀ hrow₀' (by rw [← hsame.2.2, hby, hsame'.2.2])
      · exact (honly e row hrow (hby.trans hp')).symm
    · exact honly e' row' hrow' (hby.symm.trans hp')
  · by_cases hq : q = p
    · subst hq
      rwa [Function.update_self]
    · rw [Function.update_of_ne hq]
      refine (h.holds q).frame ⟨?_, fun _ _ hrow => h.committed_row hrow, fun e row' hrow' hby => ?_,
        fun e he hnone => ?_, hplain, fun _ _ _ _ hn => hn⟩
      · simp [Database.commit, Database.rollback, hq]
      · rcases hborn e row' hrow' with hne | ⟨hp', -⟩
        · obtain ⟨row, hrow, hsame⟩ := hback e row' hrow' hne
          exact ⟨row, hrow, hsame.2.2.symm.trans hby⟩
        · exact absurd (hby.symm.trans hp') hq
      · exact (hlog.visible_of_written_by_other hq he).trans hnone

theorem hset (h : BirthInv st gs) {project : ProjectId} {file : FileId} {debug : Bool}
    {payload : Payload} (hg : gs p = .committed project file debug payload.executionId)
    (hproject : payload.projectId = project) (hfile : payload.fileId = file)
    (hdebug : payload.debug.getD false = debug)
    (hpython : debug = true → payload.language.getD .python = .python)
    (hlocated : ∃ f, st.db.file? file = some f ∧ f.projectId = project) :
    BirthInv { st with redis := st.redis.hset p payload.executionId payload }
      (Function.update gs p .beside) := by
  have hh := h.holds p
  rw [hg] at hh
  obtain ⟨hn, hun, ⟨row, hrow, hproject', hfile', hby⟩, hnever, hplain⟩ := hh
  have hunset : ∀ e, e ≠ payload.executionId → NeverSet st.redis.log e →
      NeverSet (st.redis.hset p payload.executionId payload).log e := by
    intro e he hn c hc
    rcases List.mem_append.1 hc with hc | hc
    · exact hn c hc
    · rw [List.mem_singleton.1 hc]
      simpa [QueueCommand.sets] using Ne.symm he
  refine ⟨h.ledger.hset rfl hnever.not_entered, fun e hnone => ?_, fun id payload' he => ?_, h.known,
    h.kept, h.single, fun q => ?_⟩
  · refine hunset e ?_ (h.unsent e hnone)
    rintro rfl
    rw [hrow] at hnone
    cases hnone
  · by_cases hc : QueueCommand.hset payload.executionId payload = .hset id payload'
    · simp only [QueueCommand.hset.injEq] at hc
      obtain ⟨rfl, rfl⟩ := hc
      exact ⟨⟨rfl, row, hrow, hproject'.trans hproject.symm, hfile'.trans hfile.symm⟩,
        by rwa [hfile, hproject], fun hd => hpython (hdebug ▸ hd), fun hd => hplain (hdebug ▸ hd)⟩
    · exact h.honest id payload' (entered_append_of_not he hc)
  · by_cases hq : q = p
    · subst hq
      rw [Function.update_self]
      exact ⟨hn, hun⟩
    · rw [Function.update_of_ne hq]
      refine (h.holds q).frame ⟨rfl, fun e row hrow => ⟨row, hrow, .refl row⟩,
        fun e row' hrow' hby' => ⟨row', hrow', hby'⟩, fun _ _ hnone => hnone, fun _ _ hn => hn,
        fun e row' hrow' hby' hn => hunset e ?_ hn⟩
      rintro rfl
      rw [hrow] at hrow'
      cases hrow'
      exact hq (hby'.symm.trans hby)

end BirthInv

/-- The protocol of the origins. That the event log is in step and the files are those of the tables
is known of every reachable configuration. -/
def birthProtocol (s : Settings) (t : Tables) : Protocol (service s t) Birth where
  Inv := BirthInv
  At _ _ _ _ := True
  ok st _ _ _ _ := (∃ owed, LogInv st.db owed) ∧ st.db.files = t.files

/-- The operations that only a start performs, on its own execution. -/
def Op.births : Op → Bool
  | insertExecution _ _ _ | addDebugSession _ | hset _ _ => true
  | _ => false

theorem Op.births_of_ordinary {o : Op} (ho : o.ordinary = true) : o.births = false := by
  cases o <;> first | rfl | cases ho

section Operations

variable {s : Settings} {t : Tables} {p : Pid} {r : Request} {g : Birth}

/-- Work on committed rows leaves a settled process where it is. -/
theorem Birth.Holds.step {st st' : Service} {env : Env} {o : Op} {x : Except PyError o.Val}
    (h : g.Holds st p) (hg : g.Settled) (ho : o.births = false) (hcommit : o ≠ .commit)
    (hx : o.run p env st = some (x, st')) : g.Holds st' p := by
  obtain ⟨hn, hun⟩ := h.settled hg
  have hset : ∀ id payload, o ≠ .hset id payload := by
    rintro id payload rfl
    cases ho
  have hadd : ∀ row, o ≠ .addDebugSession row := by
    rintro row rfl
    cases ho
  have hun' : (st'.db.tx p).Unrecorded := fun ds hds => hun ds (Op.run_insert hadd hx hds)
  obtain ⟨hrows, -, hsessions⟩ := Op.run_committed hcommit hx
  have hn' : st'.db.NoInsert p := by
    cases htouch : o.touchesRows with
    | false =>
      unfold Database.NoInsert
      rw [hrows, (Op.run_beside htouch hx).2.1]
      exact hn
    | true =>
      cases o <;> simp only [Op.touchesRows, Op.births, Bool.false_eq_true, Bool.true_eq_false]
        at htouch ho
      case commit => exact absurd rfl hcommit
      case rollback | close =>
        cases hx
        exact Database.blank_rollback.noInsert
      case updateStatus | claimQueued =>
        obtain ⟨⟨changed, db⟩, hu, hx⟩ := Option.map_eq_some_iff.1 hx
        cases hx
        rcases Database.updateWhere_eq_some hu with ⟨-, rfl⟩ | ⟨-, row, hv, -, -, rfl⟩
        · exact hn
        · exact hn.write (hn.committed hv) _
      case hgetall =>
        obtain ⟨raw, -, -, rfl⟩ := Op.run_hgetall hx
        exact hn
      case hdel =>
        cases hx
        exact hn
  cases g with
  | committed project file debug id =>
    obtain ⟨-, -, hrow, hnever, hplain⟩ := h
    refine ⟨hn', hun', hrows ▸ hrow, ?_, fun hd => ?_⟩
    · exact BirthInv.neverSet_of_sets hnever (BirthInv.sets_step hset hx)
    · unfold Database.NoSession
      rw [hsessions]
      exact hplain hd
  | beside => exact ⟨hn', hun'⟩
  | _ => exact hg.elim

theorem Birth.Holds.commit {st : Service} {gs : Pid → Birth} (h : g.Holds st p)
    (hinv : BirthInv st gs) (hg : g.Settled) : g.Holds { st with db := st.db.commit p } p := by
  have hn' : (st.db.commit p).NoInsert p := Database.blank_commit.noInsert
  have hun' : ((st.db.commit p).tx p).Unrecorded := fun ds hds => by
    simp [Database.commit, Database.rollback] at hds
  cases g with
  | committed project file debug id =>
    obtain ⟨-, hun, ⟨row, hrow, hproject, hfile, hby⟩, hnever, hplain⟩ := h
    obtain ⟨row', hrow', hsame⟩ := hinv.committed_row (p := p) hrow
    exact ⟨hn', hun', ⟨row', hrow', hsame.1.trans hproject, hsame.2.1.trans hfile,
      hsame.2.2.trans hby⟩, hnever, fun hd => (hplain hd).commit (Database.not_inserts hun id)⟩
  | beside => exact ⟨hn', hun'⟩
  | _ => exact hg.elim

theorem settled_birth (hg : g.Settled) (o : Op) (ho : o.births = false) :
    (birthProtocol s t).Steady p r g (await o) := by
  by_cases hcommit : o = .commit
  · subst hcommit
    refine Steady.operation trivial fun env st gs hinv hgp hok x st' hx => ?_
    obtain ⟨⟨owed, hlog⟩, -⟩ := hok
    have hh := BirthInv.holds hinv p
    rw [hgp] at hh
    obtain ⟨hn, hun⟩ := hh.settled hg
    cases hx
    have hrun := BirthInv.commit (c := g) hinv hlog (p := p) (fun e row hv => .inl (hn.committed hv))
      (hh.commit hinv hg)
    rwa [← hgp, Function.update_eq_self] at hrun
  · refine Steady.operation trivial fun env st gs hinv hgp hok x st' hx => ?_
    obtain ⟨⟨owed, hlog⟩, -⟩ := hok
    have hh := BirthInv.holds hinv p
    rw [hgp] at hh
    have hrun := BirthInv.own (c := g) hinv hlog hx hcommit
      (fun id payload => by
        rintro rfl
        cases ho) (hh.step hg ho hcommit hx)
    rwa [← hgp, Function.update_eq_self] at hrun

/-! ## A start -/

/-- An operation that writes nothing, at any stage. -/
theorem quiet_birth (g : Birth) {o : Op} (hw : o.writesDb = false)
    (hset : ∀ id payload, o ≠ .hset id payload) :
    (birthProtocol s t).Steady p r g (await o) := by
  refine Steady.operation trivial fun env st gs hinv hgp hok x st' hx => ?_
  obtain ⟨⟨owed, hlog⟩, -⟩ := hok
  have hh := BirthInv.holds hinv p
  have hdb := Op.run_db hw hx
  have hcommit : o ≠ .commit := by
    rintro rfl
    cases hw
  have hh' : (gs p).Holds st' p := by
    cases hg : gs p with
    | committed project file debug id =>
      rw [hg] at hh
      obtain ⟨hn, hun, hrow, hnever, hplain⟩ := hh
      have hnever' := BirthInv.neverSet_of_sets hnever (BirthInv.sets_step hset hx)
      rw [Birth.Holds, hdb]
      exact ⟨hn, hun, hrow, hnever', hplain⟩
    | fresh | inserted | beside =>
      rw [hg] at hh
      rw [Birth.Holds, hdb]
      exact hh
  have hrun := BirthInv.own hinv hlog hx hcommit hset hh'
  rwa [Function.update_eq_self] at hrun

theorem reading_birth (g : Birth) (o : Op) (ho : o.reads = true) :
    (birthProtocol s t).Steady p r g (await o) := by
  refine quiet_birth g (Op.writesDb_of_reads ho) ?_
  rintro id payload rfl
  cases ho

theorem getFile_birth (g : Birth) (file : FileId) :
    (birthProtocol s t).Triple p r g (await (.getFile file))
      (fun found g' => g' = g ∧ found = t.file? file) fun _ g' => g' = g := by
  refine Triple.operation trivial (fun _ _ => rfl) fun env st gs hinv hg hok x st' hx => ?_
  cases hx
  refine ⟨g, ?_, ⟨rfl, ?_⟩, fun _ _ => rfl⟩
  · rwa [← hg, Function.update_eq_self]
  · rw [Database.file?, hok.2]
    rfl

theorem insertExecution_birth (project : ProjectId) (file : FileId) (queuedAt : Seconds)
    (debug : Bool) :
    (birthProtocol s t).Triple p r .fresh (await (.insertExecution project file queuedAt))
      (fun id g => g = .inserted project file debug id) fun _ _ => True := by
  refine Triple.operation trivial (fun _ _ => trivial) fun env st gs hinv hg hok x st' hx => ?_
  obtain ⟨⟨owed, hlog⟩, -⟩ := hok
  have hh := BirthInv.holds hinv p
  rw [hg] at hh
  obtain ⟨hb, hun, hunb⟩ := hh
  have hfresh := (hlog.fresh _ (Nat.le_refl _)).1
  have hx' := hx
  cases hx
  refine ⟨.inserted project file debug st.db.nextExecution,
    BirthInv.own hinv hlog hx' (by simp) (by simp) ⟨hfresh, ?_, fun e he => ?_, fun ds hds => ?_,
      hunb⟩, rfl, fun _ _ => trivial⟩
  · refine ⟨{ projectId := project, fileId := file, status := .queued, queuedAt, createdBy := p }, ?_,
      rfl, rfl, rfl, rfl⟩
    simp [Database.write]
  · by_contra hne
    simp [Database.write, hne, hb e] at he
  · exact absurd hds (by simpa [Database.insertExecution, Database.write] using hun ds)

theorem addEvent_birth (id id' : ExecutionId) (project : ProjectId) (file : FileId) (debug : Bool)
    (payload : EventPayload) :
    (birthProtocol s t).Steady p r (.inserted project file debug id)
      (await (.addEvent id' payload)) := by
  refine Steady.operation trivial fun env st gs hinv hg hok x st' hx => ?_
  obtain ⟨⟨owed, hlog⟩, -⟩ := hok
  have hh := BirthInv.holds hinv p
  rw [hg] at hh
  have hx' := hx
  cases hx
  have hrun := BirthInv.own (c := .inserted project file debug id) hinv hlog hx' (by simp) (by simp)
    (by simpa [Birth.Holds, Database.addEvent] using hh)
  rwa [← hg, Function.update_eq_self] at hrun

theorem addDebugSession_birth (project : ProjectId) (file : FileId) (row : DebugSession) :
    (birthProtocol s t).Steady p r (.inserted project file true row.executionId)
      (await (.addDebugSession row)) := by
  refine Steady.operation trivial fun env st gs hinv hg hok x st' hx => ?_
  obtain ⟨⟨owed, hlog⟩, -⟩ := hok
  have hh := BirthInv.holds hinv p
  rw [hg] at hh
  obtain ⟨hnone, hrow, honly, hinserts, hunb⟩ := hh
  have hx' := hx
  cases hx
  have hh' : (Birth.inserted project file true row.executionId).Holds
      { st with db := st.db.addDebugWrite p (.insert row) } p := by
    refine ⟨hnone, ?_, ?_, fun ds hds => ?_, hunb⟩
    · simpa using hrow
    · simpa using honly
    · simp only [Database.addDebugWrite, Function.update_self, List.mem_append,
        List.mem_singleton, DebugWrite.insert.injEq] at hds
      rcases hds with hds | rfl
      · exact hinserts ds hds
      · exact ⟨rfl, rfl⟩
  have hrun := BirthInv.own hinv hlog hx' (by simp) (by simp) hh'
  rwa [← hg, Function.update_eq_self] at hrun

/-- A start commits its row, with the session that belongs to it. -/
theorem commit_birth (project : ProjectId) (file : FileId) (debug : Bool) (id : ExecutionId) :
    (birthProtocol s t).Triple p r (.inserted project file debug id) (await .commit)
      (fun _ g => g = .committed project file debug id) fun _ _ => True := by
  refine Triple.operation trivial (fun _ _ => trivial) fun env st gs hinv hg hok x st' hx => ?_
  obtain ⟨⟨owed, hlog⟩, -⟩ := hok
  have hh := BirthInv.holds hinv p
  rw [hg] at hh
  obtain ⟨hnone, ⟨row, hrow, -, hproject, hfile, hby⟩, honly, hinserts, hunb⟩ := hh
  have hv : st.db.visible p id = some row := by simp [Database.visible, hrow]
  cases hx
  refine ⟨.committed project file debug id, BirthInv.commit hinv hlog (fun e row' hv' => ?_) ⟨Database.blank_commit.noInsert,
    fun ds hds => ?_, ⟨row, hv, hproject, hfile, hby⟩, hinv.unsent id hnone, fun hd ds hds he => ?_⟩,
    rfl, fun _ _ => trivial⟩
  · -- a row that is seen is committed, or the one that was inserted
    have hmine : ∀ e row', st.db.visible p e = some row' → st.db.executions e = none → e = id := by
      intro e row' hv' hne
      refine honly e fun htx => ?_
      simp [Database.visible, htx, hne] at hv'
    by_cases hne : st.db.executions e = none
    · obtain rfl := hmine e row' hv' hne
      rw [hv] at hv'
      cases hv'
      refine .inr ⟨hby, fun e' row' hv' hby' => ?_⟩
      by_cases hne' : st.db.executions e' = none
      · exact (hmine e' row' hv' hne').symm
      · obtain ⟨row₀, hrow₀⟩ := Option.ne_none_iff_exists'.1 hne'
        obtain ⟨row₁, hrow₁, hsame⟩ := hinv.committed_row (p := p) hrow₀
        rw [show st.db.visible p e' = some row₁ from hrow₁] at hv'
        cases hv'
        exact absurd (hsame.2.2.symm.trans hby') (hunb e' row₀ hrow₀)
    · exact .inl hne
  · simp [Database.commit, Database.rollback] at hds
  · have hi : ¬st.db.Inserts p id := by
      rintro ⟨ds, hds, -⟩
      rw [(hinserts ds hds).1] at hd
      cases hd
    obtain ⟨⟨ds₀, h₀, he₀, -⟩, -⟩ := Database.mem_commit_debugSessions hi hds he
    exact hinv.known ds₀ h₀ (he₀ ▸ hnone)

theorem hset_birth {payload : Payload} {project : ProjectId} {file : FileId} {debug : Bool}
    (hproject : payload.projectId = project) (hfile : payload.fileId = file)
    (hdebug : payload.debug.getD false = debug)
    (hpython : debug = true → payload.language.getD .python = .python)
    (hlocated : ∃ f, t.file? file = some f ∧ f.projectId = project) :
    (birthProtocol s t).Triple p r (.committed project file debug payload.executionId)
      (await (.hset payload.executionId payload)) (fun _ g => g = .beside) fun _ g => g.Settled := by
  refine Triple.operation trivial (fun _ _ => trivial) fun env st gs hinv hg hok x st' hx => ?_
  cases hx
  refine ⟨_, BirthInv.hset hinv hg hproject hfile hdebug hpython ?_, rfl, fun _ _ => trivial⟩
  simpa only [Database.file?, hok.2, Tables.file?] using hlocated

theorem close_birth (g : Birth) :
    (birthProtocol s t).Triple p r g (await .close) (fun _ g => g = .beside) fun _ _ => True := by
  refine Triple.operation trivial (fun _ _ => trivial) fun env st gs hinv hg hok x st' hx => ?_
  obtain ⟨⟨owed, hlog⟩, -⟩ := hok
  have hx' := hx
  cases hx
  refine ⟨.beside, BirthInv.own hinv hlog hx' (by simp) (by simp)
    ⟨Database.blank_rollback.noInsert, fun ds hds => ?_⟩, rfl, fun _ _ => trivial⟩
  simp [Database.rollback] at hds

theorem createRun_birth (req : RunRequest) (file : File) :
    (birthProtocol s t).Triple p r .fresh (createRun req file)
      (fun created g => g = .committed req.project req.file req.debug created.1)
      fun _ _ => True := by
  refine (reading_birth _ _ rfl).andThen (fun _ => trivial) fun queuedAt => ?_
  refine (insertExecution_birth _ _ _ req.debug).bind fun id g hg => ?_
  subst hg
  refine (addEvent_birth _ _ _ _ _ _).andThen (fun _ => trivial) fun _ => ?_
  have hcommit : ∀ info : Option DebugInfo, (birthProtocol s t).Triple p r
      (.inserted req.project req.file req.debug id) (do
        await .commit
        return (id, info))
      (fun created g => g = .committed req.project req.file req.debug created.1)
      fun _ _ => True :=
    fun info => (commit_birth _ _ _ _).bind fun _ g hg => Protocol.Triple.pure hg
  refine Protocol.Triple.ite (fun hd => ?_) fun _ => ?_
  · refine Protocol.Steady.andThen ?_ (fun _ => trivial) hcommit
    have hread := reading_birth (s := s) (t := t) (p := p) (r := r)
      (.inserted req.project req.file req.debug id)
    refine (claimDebugSlot_steady hread (quiet_birth _ rfl (by simp))
      (quiet_birth _ rfl (by simp))).bind fun _ => ?_
    rw [hd] at hread ⊢
    refine (addDebugSession_birth _ _ _).bind fun _ => ?_
    exact (debugInfo_steady hread _ _ _).bind fun _ => .pure _
  · exact (Protocol.Steady.pure none).andThen (fun _ => trivial) hcommit

theorem deliver_birth {project : ProjectId} {file : FileId} {debug : Bool} {id : ExecutionId}
    (debug' : Bool) {payload : Seconds → Payload}
    (hpayload : ∀ now, (payload now).executionId = id ∧ (payload now).projectId = project ∧
      (payload now).fileId = file ∧ (payload now).debug.getD false = debug ∧
      (debug = true → (payload now).language.getD .python = .python))
    (hlocated : ∃ f, t.file? file = some f ∧ f.projectId = project) :
    (birthProtocol s t).Triple p r (.committed project file debug id)
      (deliver project id debug' payload) (fun _ g => g.Settled) fun _ _ => True := by
  have henqueue : (birthProtocol s t).Triple p r (.committed project file debug id) (do
      enqueueExecution payload
      return (none : Option ExecutionOut)) (fun _ g => g.Settled) fun _ g => g.Settled := by
    refine Protocol.Triple.bind (Q := fun _ g => g.Settled) ?_ fun _ _ hg => Protocol.Triple.pure hg
    refine (reading_birth _ _ rfl).andThen (fun _ => trivial) fun now => ?_
    obtain ⟨rfl, hproject, hfile, hdebug, hpython⟩ := hpayload now
    refine (hset_birth hproject hfile hdebug hpython hlocated).bind fun _ g hg => ?_
    subst hg
    exact (quiet_birth _ rfl (by simp)).triple (fun _ => trivial) fun _ => trivial
  refine henqueue.tryExcept (fun e g _ hg => ?_) fun _ _ _ _ => trivial
  refine (failUndeliveredRun_steady (fun o ho _ => settled_birth hg o (Op.births_of_ordinary ho))
    (fun _ => settled_birth hg _ rfl) project id debug').andThen (fun _ => trivial)
    fun compensated => ?_
  split
  · exact Protocol.Triple.throw trivial
  · exact (settled_birth hg _ rfl).andThen (fun _ => trivial) fun _ => Protocol.Triple.pure hg

theorem startRun_birth (req : RunRequest) :
    (birthProtocol s t).Triple p r .fresh (startRun s req) (fun _ _ => True) fun _ _ => True := by
  refine Protocol.Triple.bind ((checkRun_checks (reading_birth _) (getFile_birth _) req).mono
    (fun _ _ h => h) fun _ _ _ => trivial) fun ⟨member, file⟩ g hg => ?_
  obtain ⟨rfl, hfile, hproject, hpython⟩ := hg
  refine (reading_birth _ _ rfl).andThen (fun _ => trivial) fun sourceText => ?_
  refine (createRun_birth req file).bind fun ⟨id, info⟩ g hg => ?_
  subst hg
  refine (reading_birth _ _ rfl).andThen (fun _ => trivial) fun execution => ?_
  have hpayload : ∀ now, let payload := req.payload id sourceText info file.language member.role now
      payload.executionId = id ∧ payload.projectId = req.project ∧ payload.fileId = req.file ∧
        payload.debug.getD false = req.debug ∧
        (req.debug = true → payload.language.getD .python = .python) :=
    fun now => ⟨rfl, rfl, rfl, rfl, hpython⟩
  refine (deliver_birth req.debug hpayload ⟨file, hfile, hproject⟩).bind fun undelivered g hg => ?_
  cases undelivered with
  | some out => exact Protocol.Triple.pure trivial
  | none =>
    exact (reading_birth _ _ rfl).andThen (fun _ => trivial) fun _ => Protocol.Triple.pure trivial

end Operations

/-- Where a request begins. -/
def Request.birth : Request → Birth
  | startRun _ => .fresh
  | cancelExecution _ _ _ _ | workerRound _ | sweepOnce => .beside

theorem Request.program_birth {s : Settings} {t : Tables} {p : Pid} (r : Request) :
    (birthProtocol s t).Triple p r r.birth (r.program s) (fun _ _ => True) fun _ _ => True := by
  have hclosed : ∀ {α : Type} {g : Birth} {x : Py α} {f : α → Outcome},
      (birthProtocol s t).Triple p r g x (fun _ _ => True) (fun _ _ => True) →
      (birthProtocol s t).Triple p r g (f <$> withSession x) (fun _ _ => True) fun _ _ => True :=
    fun h => (Protocol.Triple.andFinally h
      (fun _ g _ => (close_birth g).mono (fun _ _ _ => trivial) fun _ _ _ => trivial)
      fun _ g _ => (close_birth g).mono (fun _ _ _ => trivial) fun _ _ _ => trivial).map
        fun _ _ _ => trivial
  have hop : ∀ o : Op, o.ordinary = true → (birthProtocol s t).Steady p r .beside (await o) :=
    fun o ho => settled_birth (g := .beside) trivial o (Op.births_of_ordinary ho)
  have hdel : ∀ id, (birthProtocol s t).Steady p r .beside (await (.hdel id)) :=
    fun id => settled_birth (g := .beside) trivial _ rfl
  cases r with
  | startRun req => exact hclosed (startRun_birth req)
  | cancelExecution project user id rounds =>
    exact hclosed ((cancelExecution_steady (finishing_of_ordinary hop) hdel project user id rounds).triple
      (fun _ => trivial) fun _ => trivial)
  | workerRound workerId =>
    exact Protocol.Triple.map ((workerRound_steady hop hdel workerId).triple
      (Q := fun _ _ => True) (fun _ => trivial) fun _ => trivial) fun _ _ _ => trivial
  | sweepOnce =>
    exact hclosed ((sweepOnce_steady (finishing_of_ordinary hop)).triple (fun _ => trivial) fun _ => trivial)

def birthOutline (s : Settings) (t : Tables) : Outline (birthProtocol s t) where
  idle := .fresh
  start _ r := r.birth
  done _ _ _ _ := True
  init := {
    ledger := .empty
    unsent := fun _ _ _ hc => nomatch hc
    honest := fun _ _ he => by
      obtain ⟨q, hq⟩ := he
      cases hq
    known := fun _ hds => nomatch hds
    kept := fun _ _ _ _ hrow' => nomatch hrow'
    single := fun _ _ _ _ hrow => nomatch hrow
    holds := fun _ => by
      refine ⟨fun _ => rfl, fun _ hds => ?_, fun _ _ hrow => ?_⟩
      · cases hds
      · cases hrow }
  spawn st gs p r hinv hg := by
    have hh := BirthInv.holds hinv p
    rw [hg] at hh
    refine { hinv with holds := fun q => ?_ }
    by_cases hq : q = p
    · subst hq
      rw [Function.update_self]
      cases r with
      | startRun req => exact hh
      | _ => exact ⟨hh.1.noInsert, hh.2.1⟩
    · rw [Function.update_of_ne hq]
      exact hinv.holds q
  body p r := Protocol.Follows.mono r.program_birth fun _ _ _ => trivial
  at_end _ _ _ _ _ := trivial

theorem files_of_reachable {s : Settings} {t : Tables} {cfg : ServiceConfig}
    (h : (service s t).system.Reachable cfg) : cfg.shared.db.files = t.files := by
  refine h.induction (P := fun cfg => cfg.shared.db.files = t.files) rfl ?_
  rintro cfg (⟨p, r⟩ | ⟨p, env⟩) cfg' - ih - hs
  · obtain ⟨-, rfl⟩ := Machine.step_spawn.1 hs
    exact ih
  · obtain ⟨r, o, k, x, st, -, hx, rfl⟩ := Machine.step_run.1 hs
    rcases Op.exec_eq_some hx with hx | ⟨-, -, ⟨-, rfl⟩ | ⟨-, y, hy⟩⟩
    · exact (Op.run_files hx).trans ih
    · exact ih
    · exact (Op.run_files hy).trans ih

/-- **Origins.** In every run, whatever fails: an entry is that of a committed execution, is set
once and removed at most once, and debug sessions belong to committed executions. -/
theorem origins_of_reachable {s : Settings} {t : Tables} {cfg : ServiceConfig}
    (h : (service s t).system.Reachable cfg) : Origins cfg.shared := by
  obtain ⟨gs, hfits⟩ := (birthOutline s t).sound (fun cfg l hcfg _ => by
    cases l with
    | spawn p r => trivial
    | run p env => exact fun r o k _ => ⟨logInv_of_reachable hcfg, files_of_reachable hcfg⟩) h
  have hinv : BirthInv cfg.shared gs := hfits.1
  exact hinv.origins

end Concord
