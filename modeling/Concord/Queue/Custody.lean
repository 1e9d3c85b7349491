import Concord.Execution.StatusLog
import Concord.Queue.Ledger

/-!
# Custody of a queued execution

From the commit that queues an execution until a worker's claim is committed, somebody has to answer
for it: the start that is delivering it, the queue hash that holds its entry, or the worker that has
removed the entry. The ghost value of a process says what it answers for; `CustodyInv` says that
every queued execution is answered for.
-/

namespace Concord

open Concord.Base ExecutionStatus

/-- The columns of an execution that never change. -/
def Execution.SameOrigin (row row' : Execution) : Prop :=
  row'.projectId = row.projectId ∧ row'.fileId = row.fileId ∧ row'.createdBy = row.createdBy

theorem Execution.SameOrigin.refl (row : Execution) : row.SameOrigin row := ⟨rfl, rfl, rfl⟩

theorem Execution.SameOrigin.trans {a b c : Execution} (h : a.SameOrigin b)
    (h' : b.SameOrigin c) : a.SameOrigin c :=
  ⟨h'.1.trans h.1, h'.2.1.trans h.2.1, h'.2.2.trans h.2.2⟩

theorem Execution.SameOrigin.set (row : Execution) (target : ExecutionStatus)
    (fields : StatusFields) : row.SameOrigin (row.set target fields) := ⟨rfl, rfl, rfl⟩

namespace Database

variable (db : Database) (p : SessionId)

/-- The payload is that of a committed execution: a worker that claims with it finds the row. -/
def Matches (id : ExecutionId) (payload : Payload) : Prop :=
  payload.executionId = id ∧ ∃ row, db.executions id = some row ∧
    row.projectId = payload.projectId ∧ row.fileId = payload.fileId

/-- Session `p` has written no execution. -/
def Blank : Prop := ∀ e, (db.tx p).executions e = none

/-- Session `p` has inserted no execution. -/
def NoInsert : Prop := ∀ e, (db.tx p).executions e ≠ none → db.executions e ≠ none

variable {db p}

theorem Blank.noInsert (h : db.Blank p) : db.NoInsert p := fun e he => absurd (h e) he

theorem Blank.visible (h : db.Blank p) (e : ExecutionId) : db.visible p e = db.executions e := by
  simp [Database.visible, h e]

theorem blank_rollback : (db.rollback p).Blank p := fun _ => by simp [rollback]

theorem blank_commit : (db.commit p).Blank p := fun _ => by simp [commit, rollback]

/-- What a session that has inserted nothing sees is committed in some version. -/
theorem NoInsert.committed (h : db.NoInsert p) {e : ExecutionId} {row : Execution}
    (hv : db.visible p e = some row) : db.executions e ≠ none := by
  by_cases htx : (db.tx p).executions e = none
  · intro hnone
    simp [visible, htx, hnone] at hv
  · exact h e htx

theorem write_tx_executions_of_ne {q : SessionId} (hq : q ≠ p) (e : ExecutionId)
    (row : Execution) : ((db.write p e row).tx q).executions = (db.tx q).executions := by
  simp [write, hq]

theorem NoInsert.write (h : db.NoInsert p) {e : ExecutionId} (he : db.executions e ≠ none)
    (row : Execution) : (db.write p e row).NoInsert p := by
  intro e' he'
  by_cases hee : e' = e
  · exact hee ▸ he
  · exact h e' (by simpa [Database.write, hee] using he')

end Database

/-- How far a process is with the execution it deals with. -/
inductive Custody
  /-- It has written nothing, and read these entries of the hash. -/
  | scanned (waiting : List (ExecutionId × Payload))
  /-- It may have written, and answers for nothing. -/
  | busy
  /-- It has inserted a queued row of this project and file. -/
  | created (project : ProjectId) (file : FileId) (id : ExecutionId)
  /-- It has committed that row and is delivering it. -/
  | owing (project : ProjectId) (file : FileId) (id : ExecutionId)
  /-- It has written a final status; the flag tells whether it is the one that owes the delivery. -/
  | ending (owed : Bool) (id : ExecutionId)
  /-- It has committed a final status. -/
  | settled (id : ExecutionId)
  /-- It has removed the entry with this payload. -/
  | holding (payload : Payload)
  /-- It has written its claim. -/
  | claiming (id : ExecutionId)

/-- The execution was queued by `p` and no entry of it was ever set. -/
def Undelivered (st : Service) (p : Pid) (id : ExecutionId) : Prop :=
  (∃ row, st.db.executions id = some row ∧ row.createdBy = p) ∧
    QueueLog.NeverSet st.redis.log id

namespace Custody

/-- The execution a process answers for. -/
def keeps? : Custody → Option ExecutionId
  | owing _ _ id | ending true id | claiming id => some id
  | holding payload => some payload.executionId
  | _ => none

/-- What is the case when `p` is so far. -/
def Holds (st : Service) (p : Pid) : Custody → Prop
  | scanned waiting => st.db.Blank p ∧ ∀ entry ∈ waiting, st.db.Matches entry.1 entry.2
  | busy => st.db.NoInsert p
  | created project file id => st.db.executions id = none ∧
      (∃ row, (st.db.tx p).executions id = some row ∧ row.projectId = project ∧
        row.fileId = file ∧ row.createdBy = p) ∧
      ∀ e, (st.db.tx p).executions e ≠ none → e = id
  | owing project file id => st.db.Blank p ∧
      (∃ row, st.db.executions id = some row ∧ row.projectId = project ∧ row.fileId = file) ∧
      Undelivered st p id
  | ending owed id => st.db.NoInsert p ∧
      (∃ row, (st.db.tx p).executions id = some row ∧ row.status.finished = true) ∧
      (owed = true → Undelivered st p id)
  | settled id => st.db.NoInsert p ∧
      ∃ row, st.db.executions id = some row ∧ row.status.finished = true
  | holding payload => st.db.Blank p ∧ st.db.Matches payload.executionId payload ∧
      (p, .hdel payload.executionId true) ∈ st.redis.log
  | claiming id => st.db.NoInsert p ∧
      (∃ row, (st.db.tx p).executions id = some row ∧ row.status = starting) ∧
      (p, .hdel id true) ∈ st.redis.log

end Custody

structure CustodyInv (st : Service) (gs : Pid → Custody) : Prop where
  /-- Every queued execution is waiting in the hash, or a process answers for it. -/
  covered : ∀ e row, st.db.executions e = some row → row.status = queued →
    e ∈ st.redis.waitingIds ∨ ∃ p, (gs p).keeps? = some e
  /-- Entries are those of committed executions. -/
  entries : ∀ entry ∈ st.redis.queue, st.db.Matches entry.1 entry.2
  /-- An execution that is not committed was never set. -/
  unsent : ∀ e, st.db.executions e = none → QueueLog.NeverSet st.redis.log e
  /-- No session changes a row's origin. -/
  origin : ∀ p e row row', (st.db.tx p).executions e = some row' →
    st.db.executions e = some row → row.SameOrigin row'
  holds : ∀ p, (gs p).Holds st p

/-- What a step may do to the committed rows and the history. -/
structure Evolves (st st' : Service) : Prop where
  rows : ∀ e row, st.db.executions e = some row → ∃ row', st'.db.executions e = some row' ∧
    row.SameOrigin row' ∧ (row.status.finished = true → row'.status.finished = true)
  log : ∀ c ∈ st.redis.log, c ∈ st'.redis.log

/-- A step that leaves to `q` what is its own: its transaction and its undelivered executions. -/
structure Spares (q : Pid) (st st' : Service) : Prop extends Evolves st st' where
  tx : (st'.db.tx q).executions = (st.db.tx q).executions
  fresh : ∀ e, (st.db.tx q).executions e ≠ none → st.db.executions e = none →
    st'.db.executions e = none
  unsent : ∀ e, Undelivered st q e → QueueLog.NeverSet st'.redis.log e

section Frame

variable {st st' : Service} {p q : Pid} {g : Custody}

theorem Evolves.of_eq (hdb : st'.db.executions = st.db.executions)
    (hlog : ∀ c ∈ st.redis.log, c ∈ st'.redis.log) : Evolves st st' :=
  ⟨fun _ row hrow => ⟨row, hdb ▸ hrow, .refl row, id⟩, hlog⟩

theorem Evolves.matches (h : Evolves st st') {id : ExecutionId} {payload : Payload}
    (hm : st.db.Matches id payload) : st'.db.Matches id payload := by
  obtain ⟨hid, row, hrow, hproject, hfile⟩ := hm
  obtain ⟨row', hrow', hsame, -⟩ := h.rows id row hrow
  exact ⟨hid, row', hrow', hsame.1.trans hproject, hsame.2.1.trans hfile⟩

theorem Spares.undelivered (h : Spares q st st') {id : ExecutionId} (hu : Undelivered st q id) :
    Undelivered st' q id := by
  obtain ⟨row, hrow, hby⟩ := hu.1
  obtain ⟨row', hrow', hsame, -⟩ := h.rows id row hrow
  exact ⟨⟨row', hrow', hsame.2.2.trans hby⟩, h.unsent id hu⟩

theorem Spares.blank (h : Spares q st st') (hb : st.db.Blank q) : st'.db.Blank q := fun e => by
  rw [h.tx]
  exact hb e

theorem Spares.noInsert (h : Spares q st st') (hn : st.db.NoInsert q) : st'.db.NoInsert q := by
  intro e he
  rw [h.tx] at he
  obtain ⟨row, hrow⟩ := Option.ne_none_iff_exists'.1 (hn e he)
  obtain ⟨row', hrow', -⟩ := h.rows e row hrow
  simp [hrow']

/-- A process that is left what is its own stands where it stood. -/
theorem Custody.Holds.frame (h : g.Holds st q) (hs : Spares q st st') : g.Holds st' q := by
  cases g with
  | scanned waiting => exact ⟨hs.blank h.1, fun entry he => hs.matches (h.2 entry he)⟩
  | busy => exact hs.noInsert h
  | created project file id =>
    obtain ⟨hnone, ⟨row, hrow, horigin⟩, honly⟩ := h
    refine ⟨hs.fresh id (by simp [hrow]) hnone, ⟨row, ?_, horigin⟩, fun e he => ?_⟩
    · rw [hs.tx]
      exact hrow
    · rw [hs.tx] at he
      exact honly e he
  | owing project file id =>
    obtain ⟨hb, ⟨row, hrow, hproject, hfile⟩, hu⟩ := h
    obtain ⟨row', hrow', hsame, -⟩ := hs.rows id row hrow
    exact ⟨hs.blank hb, ⟨row', hrow', hsame.1.trans hproject, hsame.2.1.trans hfile⟩,
      hs.undelivered hu⟩
  | ending owed id =>
    obtain ⟨hn, hrow, hu⟩ := h
    refine ⟨hs.noInsert hn, ?_, fun ho => hs.undelivered (hu ho)⟩
    rw [hs.tx]
    exact hrow
  | settled id =>
    obtain ⟨hn, row, hrow, hfin⟩ := h
    obtain ⟨row', hrow', -, hfin'⟩ := hs.rows id row hrow
    exact ⟨hs.noInsert hn, row', hrow', hfin' hfin⟩
  | holding payload => exact ⟨hs.blank h.1, hs.matches h.2.1, hs.log _ h.2.2⟩
  | claiming id =>
    refine ⟨hs.noInsert h.1, ?_, hs.log _ h.2.2⟩
    rw [hs.tx]
    exact h.2.1

/-- Only a start that has inserted its row and not committed it sees more rows than there are. -/
theorem Custody.Holds.noInsert (h : g.Holds st p)
    (hg : ∀ project file id, g ≠ .created project file id) : st.db.NoInsert p := by
  cases g with
  | created project file id => exact absurd rfl (hg project file id)
  | scanned | owing | holding => exact h.1.noInsert
  | busy => exact h
  | ending | settled | claiming => exact h.1

end Frame

namespace CustodyInv

variable {st st' : Service} {gs : Pid → Custody} {p : Pid} {c : Custody}

/-- One step of `p`. -/
theorem step (h : CustodyInv st gs) (hev : Evolves st st')
    (hothers : ∀ q, q ≠ p → Spares q st st')
    (hcovered : ∀ e row, st'.db.executions e = some row → row.status = queued →
      e ∈ st'.redis.waitingIds ∨ c.keeps? = some e ∨ ∃ q, q ≠ p ∧ (gs q).keeps? = some e)
    (hentries : ∀ entry ∈ st'.redis.queue, entry ∈ st.redis.queue ∨
      st'.db.Matches entry.1 entry.2)
    (hunsent : ∀ e, st'.db.executions e = none → QueueLog.NeverSet st'.redis.log e)
    (horigin : ∀ q e row row', (st'.db.tx q).executions e = some row' →
      st'.db.executions e = some row → row.SameOrigin row')
    (hp : c.Holds st' p) : CustodyInv st' (Function.update gs p c) := by
  refine ⟨fun e row hrow hqueued => ?_, fun entry he => ?_, hunsent, horigin, fun q => ?_⟩
  · rcases hcovered e row hrow hqueued with hw | hk | ⟨q, hq, hk⟩
    · exact .inl hw
    · exact .inr ⟨p, by simpa using hk⟩
    · exact .inr ⟨q, by rwa [Function.update_of_ne hq]⟩
  · rcases hentries entry he with he | hm
    · exact hev.matches (h.entries entry he)
    · exact hm
  · by_cases hq : q = p
    · subst hq
      simpa using hp
    · rw [Function.update_of_ne hq]
      exact (h.holds q).frame (hothers q hq)

/-- Who answers for a queued execution, seen from `p`. -/
theorem covered_from (h : CustodyInv st gs) (p : Pid) {e : ExecutionId} {row : Execution}
    (hrow : st.db.executions e = some row) (hqueued : row.status = queued) :
    e ∈ st.redis.waitingIds ∨ (gs p).keeps? = some e ∨ ∃ q, q ≠ p ∧ (gs q).keeps? = some e := by
  rcases h.covered e row hrow hqueued with hw | ⟨q, hq⟩
  · exact .inl hw
  · by_cases hqp : q = p
    · subst hqp
      exact .inr (.inl hq)
    · exact .inr (.inr ⟨q, hqp, hq⟩)

/-! ### Work in one's own transaction -/

/-- A step of `p` that changes no committed row and no entry. -/
theorem own (h : CustodyInv st gs) (hdb : st'.db.executions = st.db.executions)
    (htx : ∀ q, q ≠ p → (st'.db.tx q).executions = (st.db.tx q).executions)
    (hqueue : st'.redis.queue = st.redis.queue)
    (hlog : ∀ c ∈ st.redis.log, c ∈ st'.redis.log)
    (hsets : ∀ c ∈ st'.redis.log, c ∈ st.redis.log ∨ ∀ e, c.2.sets e = false)
    (horigin : ∀ e row row', (st'.db.tx p).executions e = some row' →
      st.db.executions e = some row → row.SameOrigin row')
    (hfree : ∀ e row, (gs p).keeps? = some e → st.db.executions e = some row →
      row.status = queued → e ∈ st.redis.waitingIds ∨ c.keeps? = some e)
    (hp : c.Holds st' p) : CustodyInv st' (Function.update gs p c) := by
  have hwait : st'.redis.waitingIds = st.redis.waitingIds := by
    rw [Redis.waitingIds, Redis.waitingIds, hqueue]
  have hev : Evolves st st' := .of_eq hdb hlog
  have hunset : ∀ e, QueueLog.NeverSet st.redis.log e → QueueLog.NeverSet st'.redis.log e := by
    intro e hn c hc
    rcases hsets c hc with hc | hc
    · exact hn c hc
    · exact hc e
  refine h.step hev (fun q hq => ⟨hev, htx q hq, fun e _ hnone => hdb ▸ hnone,
    fun e hu => hunset e hu.2⟩) ?_ (fun entry he => .inl (hqueue ▸ he)) ?_ ?_ hp
  · intro e row hrow hqueued
    rw [hdb] at hrow
    rw [hwait]
    rcases h.covered_from p hrow hqueued with hw | hk | hother
    · exact .inl hw
    · exact (hfree e row hk hrow hqueued).imp_right .inl
    · exact .inr (.inr hother)
  · exact fun e hnone => hunset e (h.unsent e (hdb ▸ hnone))
  · intro q e row row' hrow' hrow
    rw [hdb] at hrow
    by_cases hq : q = p
    · subst hq
      exact horigin e row row' hrow' hrow
    · rw [htx q hq] at hrow'
      exact h.origin q e row row' hrow' hrow

/-- A step that concerns neither rows nor the queue. -/
theorem aside (h : CustodyInv st gs) (hdb : st'.db.executions = st.db.executions)
    (htx : ∀ q, (st'.db.tx q).executions = (st.db.tx q).executions)
    (hredis : st'.redis.queue = st.redis.queue ∧ st'.redis.log = st.redis.log) :
    CustodyInv st' gs := by
  have hp : (gs 0).Holds st' 0 := by
    refine (h.holds 0).frame ⟨.of_eq hdb fun c hc => hredis.2 ▸ hc, htx 0, ?_, ?_⟩
    · exact fun e _ hnone => hdb ▸ hnone
    · exact fun e hu => hredis.2 ▸ hu.2
  have hinv := h.own (p := 0) (c := gs 0) hdb (fun q _ => htx q) hredis.1
    (fun c hc => hredis.2 ▸ hc) (fun c hc => .inl (hredis.2 ▸ hc))
    (fun e row row' hrow' hrow => h.origin 0 e row row' (by rwa [htx] at hrow') hrow)
    (fun e _ hk _ _ => .inr hk) hp
  rwa [Function.update_eq_self] at hinv

/-- A process may stop answering for an execution that is not queued, or has its entry. -/
theorem shift (h : CustodyInv st gs) (hp : c.Holds st p)
    (hfree : ∀ e row, (gs p).keeps? = some e → st.db.executions e = some row →
      row.status = queued → e ∈ st.redis.waitingIds ∨ c.keeps? = some e) :
    CustodyInv st (Function.update gs p c) :=
  h.own rfl (fun _ _ => rfl) rfl (fun _ hc => hc) (fun _ hc => .inl hc)
    (fun e row row' hrow' hrow => h.origin p e row row' hrow' hrow) hfree hp

/-- A row is written by the session of `p`, with the origin it has. -/
theorem write (h : CustodyInv st gs) {e : ExecutionId} {row row' : Execution}
    (hv : st.db.visible p e = some row) (hsame : row.SameOrigin row')
    (hfree : ∀ e row, (gs p).keeps? = some e → st.db.executions e = some row →
      row.status = queued → e ∈ st.redis.waitingIds ∨ c.keeps? = some e)
    (hp : c.Holds { st with db := st.db.write p e row' } p) :
    CustodyInv { st with db := st.db.write p e row' } (Function.update gs p c) := by
  refine h.own rfl (fun q hq => Database.write_tx_executions_of_ne hq e row') rfl (fun _ hc => hc)
    (fun _ hc => .inl hc) ?_ hfree hp
  intro e₁ row₁ row₁' hrow₁' hrow₁
  by_cases hee : e₁ = e
  · subst hee
    simp only [Database.write, Function.update_self, Option.some.injEq] at hrow₁'
    subst hrow₁'
    by_cases htx : (st.db.tx p).executions e₁ = none
    · have hv₁ : row₁ = row := by simpa [Database.visible, htx, hrow₁] using hv
      exact hv₁ ▸ hsame
    · obtain ⟨row₀, hrow₀⟩ := Option.ne_none_iff_exists'.1 htx
      have hv₀ : row₀ = row := by simpa [Database.visible, hrow₀] using hv
      exact (h.origin p e₁ row₁ row₀ hrow₀ hrow₁).trans (hv₀ ▸ hsame)
  · refine h.origin p e₁ row₁ row₁' ?_ hrow₁
    simpa [Database.write, hee] using hrow₁'

/-- An inserted row is the session's own business until it is committed. -/
theorem insertExecution (h : CustodyInv st gs) {owed : SessionId → Owed}
    (hlog : LogInv st.db owed) (hb : st.db.Blank p) (hg : (gs p).keeps? = none) {row : Execution}
    (hby : row.createdBy = p) :
    CustodyInv { st with db := (st.db.insertExecution p row).2 }
      (Function.update gs p (.created row.projectId row.fileId st.db.nextExecution)) := by
  have hfresh := (hlog.fresh _ (Nat.le_refl _)).1
  refine h.own rfl (fun q hq => ?_) rfl (fun _ hc => hc) (fun _ hc => .inl hc) ?_ ?_
    ⟨hfresh, ⟨row, ?_, rfl, rfl, hby⟩, ?_⟩
  · simp [Database.insertExecution, Database.write, hq]
  · intro e row₁ row₁' hrow₁' hrow₁
    by_cases he : e = st.db.nextExecution
    · subst he
      rw [hfresh] at hrow₁
      cases hrow₁
    · simp [Database.insertExecution, Database.write, he, hb e] at hrow₁'
  · intro e _ hk
    rw [hg] at hk
    cases hk
  · simp [Database.insertExecution, Database.write]
  · intro e he
    by_contra hne
    simp [Database.insertExecution, Database.write, hne, hb e] at he

/-- A session that is rolled back has written nothing. -/
theorem rollback (h : CustodyInv st gs)
    (hfree : ∀ e row, (gs p).keeps? = some e → st.db.executions e = some row →
      row.status = queued → e ∈ st.redis.waitingIds ∨ c.keeps? = some e)
    (hp : c.Holds { st with db := st.db.rollback p } p) :
    CustodyInv { st with db := st.db.rollback p } (Function.update gs p c) := by
  refine h.own rfl (fun q hq => ?_) rfl (fun _ hc => hc) (fun _ hc => .inl hc) ?_ hfree hp
  · simp [Database.rollback, hq]
  · intro e row row' hrow'
    simp [Database.rollback] at hrow'

/-! ### Commits -/

/-- What a commit of `p` is to a session with other rows. -/
theorem spares_commit (h : CustodyInv st gs) {owed : SessionId → Owed} (hlog : LogInv st.db owed)
    {q : Pid} (hq : q ≠ p) : Spares q st { st with db := st.db.commit p } where
  rows e row hrow := by
    by_cases htx : (st.db.tx p).executions e = none
    · exact ⟨row, by simp [Database.commit, Database.visible, htx, hrow], .refl row, fun hf => hf⟩
    · obtain ⟨row', hrow'⟩ := Option.ne_none_iff_exists'.1 htx
      have hv : st.db.visible p e = some row' := by simp [Database.visible, hrow']
      exact ⟨row', hv, h.origin p e row row' hrow' hrow,
        fun hf => hlog.finished_of_committed hrow hv hf⟩
  log _ hc := hc
  tx := by simp [Database.commit, Database.rollback, hq]
  fresh e he hnone := (hlog.visible_of_written_by_other hq he).trans hnone
  unsent e hu := hu.2

/-- A commit of `p`, which from then on answers for the executions it has queued. -/
theorem commit (h : CustodyInv st gs) {owed : SessionId → Owed} (hlog : LogInv st.db owed)
    (hfree : ∀ e row, st.db.visible p e = some row → row.status = queued →
      st.db.executions e = none ∨ (gs p).keeps? = some e → c.keeps? = some e)
    (hp : c.Holds { st with db := st.db.commit p } p) :
    CustodyInv { st with db := st.db.commit p } (Function.update gs p c) := by
  have hev : Evolves st { st with db := st.db.commit p } :=
    (h.spares_commit hlog (Nat.succ_ne_self p)).toEvolves
  refine h.step hev (fun q hq => h.spares_commit hlog hq) ?_ (fun _ he => .inl he) ?_ ?_ hp
  · intro e row' hrow' hqueued
    have hv : st.db.visible p e = some row' := hrow'
    cases hrow : st.db.executions e with
    | none => exact .inr (.inl (hfree e row' hv hqueued (.inl hrow)))
    | some row =>
      have hq := hlog.queued_of_visible hrow hv hqueued
      rcases h.covered_from p hrow hq with hw | hk | hother
      · exact .inl hw
      · exact .inr (.inl (hfree e row' hv hqueued (.inr hk)))
      · exact .inr (.inr hother)
  · intro e hnone
    refine h.unsent e ?_
    have hv : st.db.visible p e = none := hnone
    by_contra hne
    obtain ⟨row, hrow⟩ := Option.ne_none_iff_exists'.1 hne
    cases htx : (st.db.tx p).executions e <;> simp [Database.visible, htx, hrow] at hv
  · intro q e row row' hrow' hrow
    by_cases hq : q = p
    · subst hq
      simp [Database.commit, Database.rollback] at hrow'
    · have htx : ((st.db.commit p).tx q).executions e = (st.db.tx q).executions e := by
        simp [Database.commit, Database.rollback, hq]
      have hw : (st.db.tx q).executions e = some row' := htx.symm.trans hrow'
      have hrow₀ : st.db.visible p e = some row := hrow
      rw [hlog.visible_of_written_by_other hq (by simp [hw])] at hrow₀
      exact h.origin q e row row' hw hrow₀

/-- The commit of a session that has inserted nothing, by a process that answers for nothing. -/
theorem commit_busy (h : CustodyInv st gs) {owed : SessionId → Owed} (hlog : LogInv st.db owed)
    (hn : st.db.NoInsert p) (hg : (gs p).keeps? = none)
    (hp : c.Holds { st with db := st.db.commit p } p) :
    CustodyInv { st with db := st.db.commit p } (Function.update gs p c) := by
  refine h.commit hlog (fun e row hv _ hor => ?_) hp
  rcases hor with hnone | hk
  · exact absurd hnone (hn.committed hv)
  · rw [hg] at hk
    cases hk

/-- A start commits the execution it has queued, and owes its delivery. -/
theorem commit_created (h : CustodyInv st gs) {owed : SessionId → Owed} (hlog : LogInv st.db owed)
    {project : ProjectId} {file : FileId} {id : ExecutionId} (hg : gs p = .created project file id) :
    CustodyInv { st with db := st.db.commit p }
      (Function.update gs p (.owing project file id)) := by
  have hk := h.holds p
  rw [hg] at hk
  obtain ⟨hnone, ⟨row, hrow, hproject, hfile, hby⟩, honly⟩ := hk
  have hv : st.db.visible p id = some row := by simp [Database.visible, hrow]
  refine h.commit hlog (fun e row' hv' _ hor => ?_)
    ⟨Database.blank_commit, ⟨row, hv, hproject, hfile⟩, ⟨row, hv, hby⟩, h.unsent id hnone⟩
  rcases hor with hnone' | hk'
  · have htx : (st.db.tx p).executions e ≠ none := by
      intro htx
      simp [Database.visible, htx, hnone'] at hv'
    rw [honly e htx]
    rfl
  · rw [hg] at hk'
    cases hk'

/-- Committing a row one has written as no longer queued discharges whoever answers for it. -/
theorem commit_written (h : CustodyInv st gs) {owed : SessionId → Owed} (hlog : LogInv st.db owed)
    (hn : st.db.NoInsert p) {id : ExecutionId} {row : Execution}
    (hrow : (st.db.tx p).executions id = some row) (hmoved : row.status ≠ queued)
    (hg : ∀ e, (gs p).keeps? = some e → e = id)
    (hp : c.Holds { st with db := st.db.commit p } p) :
    CustodyInv { st with db := st.db.commit p } (Function.update gs p c) := by
  refine h.commit hlog (fun e row' hv hqueued hor => ?_) hp
  rcases hor with hnone | hk
  · exact absurd hnone (hn.committed hv)
  · obtain rfl := hg e hk
    have hv₁ : row = row' := by simpa [Database.visible, hrow] using hv
    exact absurd hqueued (hv₁ ▸ hmoved)

/-! ### The queue hash -/

/-- The start that owes the delivery sets the entry. -/
theorem hset (h : CustodyInv st gs) {project : ProjectId} {file : FileId} {id : ExecutionId}
    (hg : gs p = .owing project file id) {payload : Payload} (hid : payload.executionId = id)
    (hproject : payload.projectId = project) (hfile : payload.fileId = file) :
    CustodyInv { st with redis := st.redis.hset p id payload } (Function.update gs p .busy) := by
  have hk := h.holds p
  rw [hg] at hk
  obtain ⟨hb, ⟨row, hrow, hproject', hfile'⟩, ⟨row₀, hrow₀, hby⟩, -⟩ := hk
  have hunset : ∀ e, e ≠ id → QueueLog.NeverSet st.redis.log e →
      QueueLog.NeverSet (st.redis.hset p id payload).log e := by
    intro e he hn c hc
    rcases List.mem_append.1 hc with hc | hc
    · exact hn c hc
    · rw [List.mem_singleton.1 hc]
      simpa [QueueCommand.sets] using Ne.symm he
  have hev : Evolves st { st with redis := st.redis.hset p id payload } :=
    .of_eq rfl fun c hc => List.mem_append_left _ hc
  refine h.step hev (fun q hq => ⟨hev, rfl, fun _ _ hnone => hnone, fun e hu => ?_⟩) ?_ ?_ ?_
    h.origin hb.noInsert
  · refine hunset e ?_ hu.2
    rintro rfl
    obtain ⟨row₁, hrow₁, hby₁⟩ := hu.1
    rw [hrow₀] at hrow₁
    obtain rfl := Option.some.inj hrow₁
    exact hq (hby₁.symm.trans hby)
  · intro e row' hrow' hqueued
    rcases h.covered_from p hrow' hqueued with hw | hk | hother
    · exact .inl (Redis.mem_waitingIds_hset.2 (.inl hw))
    · rw [hg] at hk
      exact .inl (Redis.mem_waitingIds_hset.2 (.inr (Option.some.inj hk).symm))
    · exact .inr (.inr hother)
  · intro entry he
    rcases List.mem_append.1 he with he | he
    · exact .inl (List.mem_of_mem_filter he)
    · rw [List.mem_singleton.1 he]
      exact .inr ⟨hid, row, hrow, hproject'.trans hproject.symm, hfile'.trans hfile.symm⟩
  · intro e hnone
    refine hunset e ?_ (h.unsent e hnone)
    rintro rfl
    rw [hrow] at hnone
    cases hnone

/-- Reading the hash leaves a trace in its history only. -/
theorem hgetall (h : CustodyInv st gs) (hg : (gs p).keeps? = none)
    (snapshot : List (ExecutionId × Payload))
    (hp : c.Holds { st with redis := st.redis.logged p (.hgetall snapshot) } p) :
    CustodyInv { st with redis := st.redis.logged p (.hgetall snapshot) }
      (Function.update gs p c) := by
  refine h.own rfl (fun _ _ => rfl) rfl (fun _ hm => List.mem_append_left _ hm) (fun m hm => ?_)
    (fun e row row' hrow' hrow => h.origin p e row row' hrow' hrow) ?_ hp
  · rcases List.mem_append.1 hm with hm | hm
    · exact .inl hm
    · rw [List.mem_singleton.1 hm]
      exact .inr fun _ => rfl
  · intro e row hk
    rw [hg] at hk
    cases hk

/-- `p` removes an entry; it answers for the execution from then on if that is queued. -/
theorem hdel (h : CustodyInv st gs) {id : ExecutionId} (hg : (gs p).keeps? = none)
    (hk : ∀ row, st.db.executions id = some row → row.status = queued →
      id ∈ st.redis.waitingIds → c.keeps? = some id)
    (hp : c.Holds { st with redis := (st.redis.hdel p id).2 } p) :
    CustodyInv { st with redis := (st.redis.hdel p id).2 } (Function.update gs p c) := by
  have hunset : ∀ e, QueueLog.NeverSet st.redis.log e →
      QueueLog.NeverSet (st.redis.hdel p id).2.log e := by
    intro e hn c hc
    rcases List.mem_append.1 hc with hc | hc
    · exact hn c hc
    · rw [List.mem_singleton.1 hc]
      rfl
  have hev : Evolves st { st with redis := (st.redis.hdel p id).2 } :=
    .of_eq rfl fun c hc => List.mem_append_left _ hc
  refine h.step hev (fun q _ => ⟨hev, rfl, fun _ _ hnone => hnone, fun e hu => hunset e hu.2⟩) ?_
    (fun entry he => .inl (List.mem_of_mem_filter he)) (fun e hnone => hunset e (h.unsent e hnone))
    h.origin hp
  intro e row hrow hqueued
  rcases h.covered_from p hrow hqueued with hw | hk' | hother
  · by_cases he : e = id
    · subst he
      exact .inr (.inl (hk row hrow hqueued hw))
    · exact .inl (Redis.mem_waitingIds_hdel.2 ⟨hw, he⟩)
  · rw [hg] at hk'
    cases hk'
  · exact .inr (.inr hother)

end CustodyInv

end Concord
