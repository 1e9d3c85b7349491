import Concord.Execution.Operations

/-!
# What an operation leaves alone

An operation writes to the transaction of its own process. What is committed changes with `commit`
only, the queue hash and its history with the commands on them, and a session row is added to a
transaction by `db.add` only. Then what a commit does to the debug sessions of an execution.
-/

namespace Concord

open Concord.Base

namespace Op

variable {p q : Pid} {env : Env} {st st' : Service} {o : Op} {x : Except PyError o.Val}

/-- The commands on the queue hash. -/
def touchesQueue : Op → Bool
  | hset _ _ | hgetall | hdel _ => true
  | _ => false

/-- Nobody writes to another session's transaction. -/
theorem run_tx_of_ne (h : o.run p env st = some (x, st')) (hq : q ≠ p) :
    st'.db.tx q = st.db.tx q := by
  have hupdate : ∀ tx, Function.update st.db.tx p tx q = st.db.tx q :=
    fun tx => Function.update_of_ne hq tx st.db.tx
  refine db_cases (P := fun db => db.tx q = st.db.tx q) h rfl ?_ ?_ ?_ ?_ ?_ ?_ ?_
  · exact fun row => hupdate _
  · exact fun id row => hupdate _
  · exact fun id payload => hupdate _
  · exact fun row _ => hupdate _
  · exact fun id endedAt => hupdate _
  · exact fun _ => hupdate _
  · exact fun _ => hupdate _

/-- Only a commit changes what is committed. -/
theorem run_committed (ho : o ≠ .commit) (h : o.run p env st = some (x, st')) :
    st'.db.executions = st.db.executions ∧ st'.db.events = st.db.events ∧
      st'.db.debugSessions = st.db.debugSessions := by
  refine db_cases (P := fun db => db.executions = st.db.executions ∧ db.events = st.db.events ∧
    db.debugSessions = st.db.debugSessions) h ⟨rfl, rfl, rfl⟩ ?_ ?_ ?_ ?_ ?_ (fun hc => absurd hc ho) ?_
  all_goals
    intros
    exact ⟨rfl, rfl, rfl⟩

/-- The service only reads the files. -/
theorem run_files (h : o.run p env st = some (x, st')) : st'.db.files = st.db.files := by
  refine db_cases (P := fun db => db.files = st.db.files) h rfl ?_ ?_ ?_ ?_ ?_ ?_ ?_
  all_goals
    intros
    rfl

/-- What a session has written to the debug sessions stays until its transaction ends. -/
theorem run_debugWrites (ho : o ≠ .commit ∧ o ≠ .rollback ∧ o ≠ .close)
    (h : o.run p env st = some (x, st')) {w : DebugWrite} (hw : w ∈ (st.db.tx p).debugWrites) :
    w ∈ (st'.db.tx p).debugWrites := by
  refine db_cases (P := fun db => w ∈ (db.tx p).debugWrites) h hw ?_ ?_ ?_ ?_ ?_
    (fun hc => absurd hc ho.1) fun hc => (hc.elim ho.2.1 ho.2.2).elim
  · intro row
    simpa [Database.insertExecution, Database.write] using hw
  · intro id row
    simpa [Database.write] using hw
  · intro id payload
    simpa [Database.addEvent] using hw
  · intro row _
    simp [Database.addDebugWrite, hw]
  · intro id endedAt
    simp [Database.addDebugWrite, hw]

/-- Only a command on the queue hash changes it or its history. -/
theorem run_queue (ho : o.touchesQueue = false) (h : o.run p env st = some (x, st')) :
    st'.redis.queue = st.redis.queue ∧ st'.redis.log = st.redis.log := by
  cases hr : o.reads with
  | true =>
    rw [run_reads hr h]
    exact ⟨rfl, rfl⟩
  | false =>
    cases o <;> simp only [reads, touchesQueue, Bool.true_eq_false] at hr ho
    case updateStatus | claimQueued =>
      obtain ⟨⟨changed, db⟩, -, h⟩ := Option.map_eq_some_iff.1 h
      cases h
      exact ⟨rfl, rfl⟩
    case setActiveNx project info =>
      simp only [run] at h
      split at h <;> cases h <;> exact ⟨rfl, rfl⟩
    all_goals
      cases h
      exact ⟨rfl, rfl⟩

/-- The history of the queue hash only grows. -/
theorem run_log (h : o.run p env st = some (x, st')) {c : Pid × QueueCommand}
    (hc : c ∈ st.redis.log) : c ∈ st'.redis.log := by
  cases ho : o.touchesQueue with
  | false => exact (run_queue ho h).2 ▸ hc
  | true =>
    cases o <;> simp only [touchesQueue, Bool.false_eq_true] at ho
    case hgetall =>
      obtain ⟨raw, -, -, rfl⟩ := run_hgetall h
      exact List.mem_append_left _ hc
    all_goals
      cases h
      exact List.mem_append_left _ hc

/-- A session row enters a transaction by `db.add` only. -/
theorem run_insert (ho : ∀ row, o ≠ .addDebugSession row) (h : o.run p env st = some (x, st'))
    {ds : DebugSession} (hds : .insert ds ∈ (st'.db.tx p).debugWrites) :
    .insert ds ∈ (st.db.tx p).debugWrites := by
  revert hds
  refine db_cases (P := fun db => .insert ds ∈ (db.tx p).debugWrites → .insert ds ∈ (st.db.tx p).debugWrites) h id
    ?_ ?_ ?_ (fun row hrow => absurd hrow (ho row)) ?_ ?_ ?_
  · intro row hds
    simpa [Database.insertExecution, Database.write] using hds
  · intro id row hds
    simpa [Database.write] using hds
  · intro id payload hds
    simpa [Database.addEvent] using hds
  · intro id endedAt hds
    simpa [Database.addDebugWrite] using hds
  · intro _ hds
    simp [Database.commit, Database.rollback] at hds
  · intro _ hds
    simp [Database.rollback] at hds

end Op

/-! ## Debug sessions over a commit -/

/-- The session adds no debug session. -/
def Transaction.Unrecorded (tx : Transaction) : Prop := ∀ row, .insert row ∉ tx.debugWrites

/-- The session is over: stopped, with the time it ended at. -/
def DebugSession.closed (ds : DebugSession) : Bool := ds.status = .stopped && ds.endedAt.isSome

namespace Database

variable (db : Database) (e : ExecutionId)

/-- No debug session belongs to the execution. -/
def NoSession : Prop := ∀ ds ∈ db.debugSessions, ds.executionId ≠ e

/-- Every debug session of the execution is over. -/
def SessionsClosed : Prop := ∀ ds ∈ db.debugSessions, ds.executionId = e → ds.closed = true

/-- A debug session of the execution is not over. -/
def sessionOpen : Bool := db.debugSessions.any fun ds => ds.executionId = e && !ds.closed

variable {db e}

theorem sessionOpen_eq_false : db.sessionOpen e = false ↔ db.SessionsClosed e := by
  simp [sessionOpen, SessionsClosed]

theorem NoSession.closed (h : db.NoSession e) : db.SessionsClosed e :=
  fun ds hds he => absurd he (h ds hds)

end Database

/-- The write ends the sessions of `e`. -/
def DebugWrite.stops (e : ExecutionId) : DebugWrite → Bool
  | stop e' _ => e' = e
  | insert _ => false

namespace DebugWrite

variable {rows : List DebugSession} {w : DebugWrite} {ws : List DebugWrite} {e : ExecutionId}
  {ds : DebugSession}

theorem mem_apply_closed (h : ds ∈ apply rows w) :
    w = .insert ds ∨ (∃ ds₀ ∈ rows, ds₀.executionId = ds.executionId ∧
      (ds₀.closed = true → ds.closed = true)) ∧ (w.stops ds.executionId = true → ds.closed = true) := by
  cases w with
  | insert row =>
    rcases List.mem_append.1 h with h | h
    · exact .inr ⟨⟨ds, h, rfl, id⟩, fun hs => nomatch hs⟩
    · rw [List.mem_singleton.1 h]
      exact .inl rfl
  | stop e' at_ =>
    obtain ⟨ds₀, h₀, rfl⟩ := List.mem_map.1 h
    refine .inr ⟨⟨ds₀, h₀, ?_, fun hc => ?_⟩, fun hs => ?_⟩
    · split <;> rfl
    · split
      · rfl
      · exact hc
    · split
      · rfl
      · next hne =>
        simp only [stops, decide_eq_true_eq, if_neg hne] at hs
        exact absurd hs.symm hne

/-- Unless one of some writes inserts a session of the execution, its sessions after them were there
before; they are over if they were over, or if one of the writes ended them. -/
theorem mem_foldl (h : ds ∈ ws.foldl apply rows) :
    (∃ row, .insert row ∈ ws ∧ row.executionId = ds.executionId) ∨
      (∃ ds₀ ∈ rows, ds₀.executionId = ds.executionId ∧ (ds₀.closed = true → ds.closed = true)) ∧
      (ws.any (·.stops ds.executionId) = true → ds.closed = true) := by
  induction ws generalizing rows with
  | nil => exact .inr ⟨⟨ds, h, rfl, id⟩, fun hs => nomatch hs⟩
  | cons w ws ih =>
    rcases ih h with ⟨row, hi, he⟩ | ⟨⟨ds₁, h₁, he₁, hc₁⟩, hs₁⟩
    · exact .inl ⟨row, List.mem_cons_of_mem _ hi, he⟩
    rcases mem_apply_closed h₁ with hw | ⟨⟨ds₀, h₀, he₀, hc₀⟩, hs₀⟩
    · subst hw
      exact .inl ⟨ds₁, List.mem_cons_self, he₁⟩
    · refine .inr ⟨⟨ds₀, h₀, he₀.trans he₁, hc₁ ∘ hc₀⟩, fun hs => ?_⟩
      rw [List.any_cons, Bool.or_eq_true] at hs
      rcases hs with hs | hs
      · exact hc₁ (hs₀ (he₁ ▸ hs))
      · exact hs₁ hs

end DebugWrite

namespace Database

variable {db : Database} {p : SessionId} {e : ExecutionId}

/-- The session has added a debug session of the execution. -/
def Inserts (db : Database) (p : SessionId) (e : ExecutionId) : Prop :=
  ∃ ds, .insert ds ∈ (db.tx p).debugWrites ∧ ds.executionId = e

theorem not_inserts (h : (db.tx p).Unrecorded) (e : ExecutionId) : ¬db.Inserts p e :=
  fun ⟨ds, hds, _⟩ => h ds hds

/-- The sessions of the execution end with the commit of `p`. -/
def stopsSessions (db : Database) (p : SessionId) (e : ExecutionId) : Bool :=
  (db.tx p).debugWrites.any (·.stops e)

theorem mem_commit_debugSessions (hi : ¬db.Inserts p e) {ds : DebugSession}
    (h : ds ∈ (db.commit p).debugSessions) (he : ds.executionId = e) :
    (∃ ds₀ ∈ db.debugSessions, ds₀.executionId = e ∧ (ds₀.closed = true → ds.closed = true)) ∧
      (db.stopsSessions p e = true → ds.closed = true) := by
  subst he
  rcases DebugWrite.mem_foldl h with ⟨row, hw, he⟩ | h
  · exact absurd ⟨row, hw, he⟩ hi
  · exact h

theorem NoSession.commit (h : db.NoSession e) (hi : ¬db.Inserts p e) :
    (db.commit p).NoSession e := fun ds hds he => by
  obtain ⟨⟨ds₀, h₀, he₀, -⟩, -⟩ := mem_commit_debugSessions hi hds he
  exact h ds₀ h₀ he₀

theorem SessionsClosed.commit (h : db.SessionsClosed e) (hi : ¬db.Inserts p e) :
    (db.commit p).SessionsClosed e := fun ds hds he => by
  obtain ⟨⟨ds₀, h₀, he₀, hc⟩, -⟩ := mem_commit_debugSessions hi hds he
  exact hc (h ds₀ h₀ he₀)

/-- A commit that ends the sessions of an execution leaves none open. -/
theorem sessionsClosed_commit (hs : db.stopsSessions p e = true) (hi : ¬db.Inserts p e) :
    (db.commit p).SessionsClosed e := fun _ hds he =>
  (mem_commit_debugSessions hi hds he).2 hs

end Database

end Concord
