import Concord.Queue.Origins

/-!
# Who still has to do something about an execution

A worker that has claimed an execution has to see it to a final status, and the worker of a debug run
has to end its session too. The ghost value of a process says what it still has to do. Two things can
be known of a run: that no failure keeps a worker from settling its executions (`settles`), and that
none keeps it from ending their sessions (`closes`). `DutyInv` says what follows for each: then a
started execution has a worker that settles it, and an open session of a finished one a worker that
ends it.
-/

namespace Concord

open Concord.Base ExecutionStatus QueueLog

/-- What a process still has to do. -/
inductive Duty
  /-- It finishes executions, or starts some, but runs none. -/
  | free
  /-- A worker that has read these entries. -/
  | scanned (waiting : List (ExecutionId × Payload))
  /-- It has removed the entry with this payload. -/
  | holding (payload : Payload)
  /-- It has written its claim. -/
  | claiming (payload : Payload)
  /-- It runs the execution, and has left it in this status; with `clear` it has no session to end. -/
  | running (payload : Payload) (status : ExecutionStatus) (clear : Bool)
  /-- It has written the next status. -/
  | moving (payload : Payload) (status target : ExecutionStatus) (clear : Bool)
  /-- The execution is finished, and its session is to be ended; with `stopping` that is written. -/
  | closing (payload : Payload) (stopping : Bool)

/-- Process `p` has removed the entry with this payload. -/
def Took (st : Service) (p : Pid) (payload : Payload) : Prop :=
  (p, .hdel payload.executionId true) ∈ st.redis.log ∧
    Entered st.redis.log payload.executionId payload

/-- Session `p` has written the execution in this status, and no other. -/
def Database.WritesOnly (db : Database) (p : SessionId) (e : ExecutionId)
    (status : ExecutionStatus) : Prop :=
  (∃ row, (db.tx p).executions e = some row ∧ row.status = status) ∧
    ∀ e', (db.tx p).executions e' ≠ none → e' = e

/-- The execution is in the status its worker has left it in, or finished: then it was running, or it
has no open session. -/
def LeftIn (closes : Prop) (st : Service) (e : ExecutionId) (status : ExecutionStatus) : Prop :=
  ∃ row, st.db.executions e = some row ∧ (row.status = status ∨ row.status.finished = true ∧
    (status = .running ∨ (closes → st.db.SessionsClosed e)))

namespace Duty

/-- The execution whose status is the process's to change. -/
def runs? : Duty → Option ExecutionId
  | running payload _ _ | moving payload _ _ _ => some payload.executionId
  | _ => none

/-- The execution whose session the process will end. -/
def closes? : Duty → Option ExecutionId
  | running payload status _ | moving payload status _ _ =>
    if status = .running then some payload.executionId else none
  | closing payload _ => some payload.executionId
  | _ => none

/-- What is the case when `p` has so much to do. -/
def Holds (closes : Prop) (st : Service) (p : Pid) : Duty → Prop
  | free => ∀ e row, (st.db.tx p).executions e = some row →
      row.status = .queued ∨ row.status.finished = true
  | scanned waiting => st.db.Blank p ∧ ∀ entry ∈ waiting, Entered st.redis.log entry.1 entry.2
  | holding payload => st.db.Blank p ∧ Took st p payload
  | claiming payload => Took st p payload ∧
      st.db.WritesOnly p payload.executionId .starting
  | running payload status clear => st.db.Blank p ∧ Took st p payload ∧ status.active = true ∧
      LeftIn closes st payload.executionId status ∧
      (clear = true → closes → st.db.SessionsClosed payload.executionId)
  | moving payload status target clear => Took st p payload ∧ status.active = true ∧
      status.canTransition target = true ∧
      LeftIn closes st payload.executionId status ∧
      (clear = true → closes → st.db.SessionsClosed payload.executionId) ∧
      st.db.WritesOnly p payload.executionId target
  | closing payload stopping => st.db.Blank p ∧ Took st p payload ∧
      (∃ row, st.db.executions payload.executionId = some row ∧ row.status.finished = true) ∧
      (stopping = true → st.db.stopsSessions p payload.executionId = true)

end Duty

/-- A started execution that somebody has to settle, where the run is known to settle them; or one
whose session somebody has to end, where it is known to end them. -/
def Pressing (settles closes : Prop) (st : Service) (e : ExecutionId) (row : Execution) : Prop :=
  row.status.active = true ∧
    (settles ∨ closes ∧ row.status = .running ∧ ¬st.db.SessionsClosed e)

structure DutyInv (settles closes : Prop) (st : Service) (gs : Pid → Duty) : Prop where
  owned : ∀ e row, st.db.executions e = some row → Pressing settles closes st e row →
    ∃ q, (gs q).runs? = some e
  attended : closes → ∀ e row, st.db.executions e = some row → row.status.finished = true →
    ¬st.db.SessionsClosed e → ∃ q, (gs q).closes? = some e
  holds : ∀ p, (gs p).Holds closes st p

/-- No entry is removed by two processes. -/
theorem Origins.taker_unique {st : Service} (h : Origins st) {p q : Pid} {payload payload' : Payload}
    (hp : Took st p payload) (hq : Took st q payload')
    (he : payload.executionId = payload'.executionId) : p = q := by
  have hle := h.ledger.removals_length_le_one payload.executionId
  have hmem : ∀ {q' : Pid}, (q', .hdel payload.executionId true) ∈ st.redis.log →
      (q', .hdel payload.executionId true) ∈ removals st.redis.log payload.executionId :=
    fun hq' => List.mem_filter.2 ⟨hq', by simp [QueueCommand.removes]⟩
  have hp' := hmem hp.1
  have hq' := hmem (he ▸ hq.1)
  rcases hr : removals st.redis.log payload.executionId with _ | ⟨c, _ | ⟨c', rest⟩⟩
  · rw [hr] at hp'
    cases hp'
  · rw [hr, List.mem_singleton] at hp' hq'
    exact (Prod.mk.inj (hp'.trans hq'.symm)).1
  · rw [hr] at hle
    simp at hle

/-- A worker's payload tells the truth about its execution. -/
theorem Origins.honest_of_took {st : Service} (h : Origins st) {p : Pid} {payload : Payload}
    (ht : Took st p payload) : st.db.Honest payload :=
  h.honest _ _ ht.2

section Frame

variable {settles closes : Prop} {st st' : Service} {p q : Pid} {g : Duty}

theorem Took.mono {payload : Payload} (h : Took st p payload)
    (hlog : ∀ c ∈ st.redis.log, c ∈ st'.redis.log) : Took st' p payload := by
  obtain ⟨hdel, q, hset⟩ := h
  exact ⟨hlog _ hdel, q, hlog _ hset⟩

/-- A process that keeps its transaction keeps its duty, if its execution stays where it is or is
finished as it should be. -/
theorem Duty.Holds.frame (h : g.Holds closes st q) (htx : st'.db.tx q = st.db.tx q)
    (hlog : ∀ c ∈ st.redis.log, c ∈ st'.redis.log)
    (hleft : ∀ payload status, Took st q payload → status.active = true →
      LeftIn closes st payload.executionId status → LeftIn closes st' payload.executionId status)
    (hclosed : ∀ payload, Took st q payload → st.db.SessionsClosed payload.executionId →
      st'.db.SessionsClosed payload.executionId)
    (hfin : ∀ e row, st.db.executions e = some row → row.status.finished = true →
      ∃ row', st'.db.executions e = some row' ∧ row'.status.finished = true) :
    g.Holds closes st' q := by
  cases g with
  | free =>
    intro e row hrow
    rw [htx] at hrow
    exact h e row hrow
  | scanned waiting =>
    refine ⟨fun e => ?_, fun entry he => ?_⟩
    · rw [htx]
      exact h.1 e
    · obtain ⟨q', hq'⟩ := h.2 entry he
      exact ⟨q', hlog _ hq'⟩
  | holding payload =>
    refine ⟨fun e => ?_, h.2.mono hlog⟩
    rw [htx]
    exact h.1 e
  | claiming payload =>
    refine ⟨h.1.mono hlog, ?_⟩
    unfold Database.WritesOnly
    rw [htx]
    exact h.2
  | running payload status clear =>
    obtain ⟨hb, ht, ha, hl, hc⟩ := h
    refine ⟨fun e => ?_, ht.mono hlog, ha, hleft payload status ht ha hl,
      fun hcl hcs => hclosed payload ht (hc hcl hcs)⟩
    rw [htx]
    exact hb e
  | moving payload status target clear =>
    obtain ⟨ht, ha, hct, hl, hc, hw⟩ := h
    refine ⟨ht.mono hlog, ha, hct, hleft payload status ht ha hl,
      fun hcl hcs => hclosed payload ht (hc hcl hcs), ?_⟩
    unfold Database.WritesOnly
    rw [htx]
    exact hw
  | closing payload stopping =>
    obtain ⟨hb, ht, ⟨row, hrow, hf⟩, hs⟩ := h
    refine ⟨fun e => ?_, ht.mono hlog, hfin _ row hrow hf, ?_⟩
    · rw [htx]
      exact hb e
    · unfold Database.stopsSessions
      rw [htx]
      exact hs

end Frame

namespace DutyInv

variable {settles closes : Prop} {st st' : Service} {gs : Pid → Duty} {p : Pid} {c : Duty}

/-- A step of `p` that commits nothing; it may drop a duty that is not pressing. -/
theorem own (h : DutyInv settles closes st gs) (hrows : st'.db.executions = st.db.executions)
    (hsessions : st'.db.debugSessions = st.db.debugSessions)
    (htx : ∀ q, q ≠ p → st'.db.tx q = st.db.tx q)
    (hlog : ∀ c ∈ st.redis.log, c ∈ st'.redis.log)
    (hruns : ∀ e row, (gs p).runs? = some e → st.db.executions e = some row →
      Pressing settles closes st e row → c.runs? = some e)
    (hcloses : closes → ∀ e row, (gs p).closes? = some e → st.db.executions e = some row →
      row.status.finished = true → ¬st.db.SessionsClosed e → c.closes? = some e)
    (hp : c.Holds closes st' p) : DutyInv settles closes st' (Function.update gs p c) := by
  have hsame : ∀ e, st'.db.SessionsClosed e ↔ st.db.SessionsClosed e := fun e => by
    unfold Database.SessionsClosed
    rw [hsessions]
  refine ⟨fun e row hrow hpr => ?_, fun hcl e row hrow hfin hopen => ?_, fun q => ?_⟩
  · rw [hrows] at hrow
    have hpr' : Pressing settles closes st e row := by
      unfold Pressing at hpr ⊢
      rwa [hsame] at hpr
    obtain ⟨q, hq⟩ := h.owned e row hrow hpr'
    by_cases hqp : q = p
    · subst hqp
      exact ⟨q, by rw [Function.update_self]; exact hruns e row hq hrow hpr'⟩
    · exact ⟨q, by rwa [Function.update_of_ne hqp]⟩
  · rw [hrows] at hrow
    rw [hsame] at hopen
    obtain ⟨q, hq⟩ := h.attended hcl e row hrow hfin hopen
    by_cases hqp : q = p
    · subst hqp
      exact ⟨q, by rw [Function.update_self]; exact hcloses hcl e row hq hrow hfin hopen⟩
    · exact ⟨q, by rwa [Function.update_of_ne hqp]⟩
  · by_cases hqp : q = p
    · subst hqp
      rwa [Function.update_self]
    · rw [Function.update_of_ne hqp]
      refine (h.holds q).frame (htx q hqp) hlog (fun payload status _ _ hl => ?_)
        (fun payload _ hc => (hsame _).2 hc) fun e row hrow hf => ⟨row, hrows ▸ hrow, hf⟩
      obtain ⟨row, hrow, hor⟩ := hl
      refine ⟨row, hrows ▸ hrow, hor.imp_right fun ⟨hf, hev⟩ => ⟨hf, hev.imp_right fun hc hcl => ?_⟩⟩
      exact (hsame _).2 (hc hcl)

/-- The commit of `p` finishes no execution with an open session, unless it ends the session or the
execution is running. -/
def Graceful (closes : Prop) (st : Service) (p : Pid) : Prop :=
  closes → ∀ e row row', (st.db.tx p).executions e = some row' → row'.status.finished = true →
    st.db.executions e = some row → row.status.finished = false → ¬st.db.SessionsClosed e →
      st.db.stopsSessions p e = false → row.status = .running

/-- A commit ends sessions, and inserts none of an execution that was committed before. -/
theorem closed_commit (ho : Origins st) {e : ExecutionId} (he : st.db.executions e ≠ none)
    (hc : st.db.SessionsClosed e ∨ st.db.stopsSessions p e = true) :
    (st.db.commit p).SessionsClosed e := by
  have hi : ¬st.db.Inserts p e := fun hi => he (ho.recorded p e hi).1
  rcases hc with hc | hs
  · exact hc.commit hi
  · exact Database.sessionsClosed_commit hs hi

/-- What a commit of `p` makes of an execution that is left in a status by another worker. -/
theorem leftIn_commit (ho : Origins st) {owed : SessionId → Owed} (hlog : LogInv st.db owed)
    (hgrace : Graceful closes st p) {e : ExecutionId} {status : ExecutionStatus}
    (hactive : status.active = true)
    (hw : ∀ row', (st.db.tx p).executions e = some row' →
      row'.status = .queued ∨ row'.status.finished = true)
    (hl : LeftIn closes st e status) : LeftIn closes { st with db := st.db.commit p } e status := by
  obtain ⟨row, hrow, hor⟩ := hl
  have hne : st.db.executions e ≠ none := by simp [hrow]
  cases htx : (st.db.tx p).executions e with
  | none =>
    refine ⟨row, ?_, hor.imp_right fun ⟨hf, hev⟩ => ⟨hf, hev.imp_right fun hc hcl => ?_⟩⟩
    · simp [Database.commit, Database.visible, htx, hrow]
    · exact closed_commit ho hne (.inl (hc hcl))
  | some row' =>
    have hv : st.db.visible p e = some row' := by simp [Database.visible, htx]
    have hfin' : row'.status.finished = true := by
      rcases hw row' htx with hq | hf
      · -- a row that is queued for its session is queued where it is committed
        have hq' := hlog.queued_of_visible hrow hv hq
        rcases hor with hs | ⟨hf, -⟩
        · rw [← hs, hq'] at hactive
          cases hactive
        · rw [hq'] at hf
          cases hf
      · exact hf
    refine ⟨row', hv, .inr ⟨hfin', ?_⟩⟩
    rcases hor with hs | ⟨hf, hev⟩
    · by_cases hrun : status = .running
      · exact .inl hrun
      refine .inr fun hcl => closed_commit ho hne ?_
      by_contra hopen
      rw [not_or, Bool.not_eq_true] at hopen
      have hunf : row.status.finished = false := by
        rw [hs]
        cases status <;> first | rfl | cases hactive
      exact hrun (hs ▸ hgrace hcl e row row' htx hfin' hrow hunf hopen.1 hopen.2)
    · exact hev.imp_right fun hc hcl => closed_commit ho hne (.inl (hc hcl))

/-- A commit of `p`. -/
theorem commit (h : DutyInv settles closes st gs) (ho : Origins st) {owed : SessionId → Owed}
    (hlog : LogInv st.db owed) (hgrace : Graceful closes st p)
    (hw : ∀ e row', (st.db.tx p).executions e = some row' →
      row'.status = .queued ∨ row'.status.finished = true ∨
        ∃ payload, Took st p payload ∧ payload.executionId = e)
    (hruns : ∀ e row', st.db.visible p e = some row' →
      (gs p).runs? = some e ∨ (∃ row, (st.db.tx p).executions e = some row) →
      Pressing settles closes { st with db := st.db.commit p } e row' → c.runs? = some e)
    (hcloses : closes → ∀ e row', st.db.visible p e = some row' → row'.status.finished = true →
      ¬(st.db.commit p).SessionsClosed e → (gs p).closes? = some e ∨ (gs p).runs? = some e →
        c.closes? = some e)
    (hp : c.Holds closes { st with db := st.db.commit p } p) :
    DutyInv settles closes { st with db := st.db.commit p } (Function.update gs p c) := by
  -- an execution with an open session after the commit had one before, if it was committed
  have hopen : ∀ {e : ExecutionId}, st.db.executions e ≠ none → ¬(st.db.commit p).SessionsClosed e →
      ¬st.db.SessionsClosed e ∧ st.db.stopsSessions p e = false := by
    intro e he hc
    refine ⟨fun hc' => hc (closed_commit ho he (.inl hc')), ?_⟩
    rw [← Bool.not_eq_true]
    exact fun hs => hc (closed_commit ho he (.inr hs))
  have hmine : ∀ {e : ExecutionId} {q : Pid}, (gs q).runs? = some e →
      q = p ∨ ∃ q, (Function.update gs p c q).runs? = some e := by
    intro e q hq
    by_cases hqp : q = p
    · exact .inl hqp
    · exact .inr ⟨q, by rwa [Function.update_of_ne hqp]⟩
  refine ⟨fun e row' hrow' hpr => ?_, fun hcl e row' hrow' hfin hop => ?_, fun q => ?_⟩
  · have hv : st.db.visible p e = some row' := hrow'
    have hp' : (gs p).runs? = some e ∨ (∃ row, (st.db.tx p).executions e = some row) →
        ∃ q, (Function.update gs p c q).runs? = some e :=
      fun hor => ⟨p, by rw [Function.update_self]; exact hruns e row' hv hor hpr⟩
    cases htx : (st.db.tx p).executions e with
    | some row => exact hp' (.inr ⟨row, htx⟩)
    | none =>
      have hrow : st.db.executions e = some row' := by simpa [Database.visible, htx] using hv
      have hpr' : Pressing settles closes st e row' :=
        ⟨hpr.1, hpr.2.imp_right fun hmust => ⟨hmust.1, hmust.2.1, (hopen (by simp [hrow]) hmust.2.2).1⟩⟩
      obtain ⟨q, hq⟩ := h.owned e row' hrow hpr'
      rcases hmine hq with rfl | hq'
      · exact hp' (.inl hq)
      · exact hq'
  · have hv : st.db.visible p e = some row' := hrow'
    have hp' : (gs p).closes? = some e ∨ (gs p).runs? = some e →
        ∃ q, (Function.update gs p c q).closes? = some e :=
      fun hor => ⟨p, by rw [Function.update_self]; exact hcloses hcl e row' hv hfin hop hor⟩
    have hold : ∀ row, st.db.executions e = some row → row.status.finished = true →
        ∃ q, (Function.update gs p c q).closes? = some e := by
      intro row hrow hf
      obtain ⟨q, hq⟩ := h.attended hcl e row hrow hf (hopen (by simp [hrow]) hop).1
      by_cases hqp : q = p
      · subst hqp
        exact hp' (.inl hq)
      · exact ⟨q, by rwa [Function.update_of_ne hqp]⟩
    cases htx : (st.db.tx p).executions e with
    | none =>
      have hrow : st.db.executions e = some row' := by simpa [Database.visible, htx] using hv
      exact hold row' hrow hfin
    | some row₁ =>
      obtain rfl : row₁ = row' := by simpa [Database.visible, htx] using hv
      cases hrow : st.db.executions e with
      | none =>
        rw [ho.newborn p e row₁ htx hrow] at hfin
        cases hfin
      | some row =>
        cases hf : row.status.finished with
        | true => exact hold row hrow hf
        | false =>
          obtain ⟨hop', hns⟩ := hopen (by simp [hrow]) hop
          have hr := hgrace hcl e row row₁ htx hfin hrow hf hop' hns
          obtain ⟨q, hq⟩ := h.owned e row hrow ⟨by rw [hr]; rfl, .inr ⟨hcl, hr, hop'⟩⟩
          by_cases hqp : q = p
          · subst hqp
            exact hp' (.inr hq)
          · refine ⟨q, ?_⟩
            rw [Function.update_of_ne hqp]
            have hh := h.holds q
            -- it is left running by its worker, who will end the session
            cases hgq : gs q with
            | running payload status clear =>
              rw [hgq] at hq hh
              obtain rfl := Option.some.inj hq
              obtain ⟨-, -, -, ⟨row₀, hrow₀, hor⟩, -⟩ := hh
              rw [hrow] at hrow₀
              obtain rfl := Option.some.inj hrow₀
              rcases hor with hs | ⟨hf', -⟩
              · rw [← hs, hr]
                rfl
              · rw [hf] at hf'
                cases hf'
            | moving payload status target clear =>
              rw [hgq] at hq hh
              obtain rfl := Option.some.inj hq
              obtain ⟨-, -, -, ⟨row₀, hrow₀, hor⟩, -⟩ := hh
              rw [hrow] at hrow₀
              obtain rfl := Option.some.inj hrow₀
              rcases hor with hs | ⟨hf', -⟩
              · rw [← hs, hr]
                rfl
              · rw [hf] at hf'
                cases hf'
            | _ =>
              rw [hgq] at hq
              cases hq
  · by_cases hqp : q = p
    · subst hqp
      rwa [Function.update_self]
    · rw [Function.update_of_ne hqp]
      refine (h.holds q).frame ?_ (fun _ hc => hc) (fun payload status ht ha hl => ?_)
        (fun payload ht hc => ?_) fun e row hrow hf => ?_
      · simp [Database.commit, Database.rollback, hqp]
      · refine leftIn_commit ho hlog hgrace ha (fun row' htx => ?_) hl
        rcases hw _ row' htx with hq | hf | ⟨payload', ht', he⟩
        · exact .inl hq
        · exact .inr hf
        · exact absurd (ho.taker_unique ht ht' he.symm) hqp
      · obtain ⟨-, row, hrow, -⟩ := (ho.honest_of_took ht).known
        exact closed_commit ho (by simp [hrow]) (.inl hc)
      · cases htx : (st.db.tx p).executions e with
        | none => exact ⟨row, by simp [Database.commit, Database.visible, htx, hrow], hf⟩
        | some row' =>
          have hv : st.db.visible p e = some row' := by simp [Database.visible, htx]
          exact ⟨row', hv, hlog.finished_of_committed hrow hv hf⟩

end DutyInv

end Concord
