import Concord.Base.Trail
import Concord.Execution.Database

/-!
# The event log of an execution

Every statement that changes a row's status is followed by the event that records the change, in
the same transaction. Between the two the session owes that event. `LogInv` says that, with what
is owed counted in, the events of an execution are the log of a walk through the transition table
from no row at all to the row's status, in the committed tables and in what each session sees; one
lemma for each statement shows that it stays so.
-/

namespace Concord

open Concord.Base

/-- A change of status as an event records it: the status before, if any, and the one after. -/
abbrev Move := Option ExecutionStatus × Option ExecutionStatus

namespace ExecutionStatus

/-- The moves a row may make: it is inserted as queued and then follows the transition table. -/
inductive Step : Option ExecutionStatus → Option ExecutionStatus → Prop
  | insert : Step none (some queued)
  | change {s t : ExecutionStatus} (h : canTransition s t = true) : Step (some s) (some t)

/-- How far a row is, counting the absent row. -/
def progress : Option ExecutionStatus → Nat
  | none => 0
  | some s => s.rank + 1

theorem progress_lt_of_step (x y : Option ExecutionStatus) (h : Step x y) :
    progress x < progress y := by
  cases h with
  | insert => decide
  | change h => exact Nat.succ_lt_succ (rank_lt_of_canTransition h)

theorem not_step_of_finished {s : ExecutionStatus} (h : s.finished = true)
    (y : Option ExecutionStatus) : ¬Step (some s) y := by
  rintro ⟨⟩
  next t ht => simp [not_canTransition_of_finished h t] at ht

end ExecutionStatus

open ExecutionStatus (Step)

/-- The moves that the events of execution `e` record. -/
def movesOf (e : ExecutionId) (events : List ExecutionEvent) : List Move :=
  (events.filter (·.executionId = e)).map (·.move)

@[simp] theorem movesOf_nil (e : ExecutionId) : movesOf e [] = [] := rfl

@[simp] theorem movesOf_append (e : ExecutionId) (l l' : List ExecutionEvent) :
    movesOf e (l ++ l') = movesOf e l ++ movesOf e l' := by
  simp [movesOf]

theorem movesOf_singleton (e : ExecutionId) (ev : ExecutionEvent) :
    movesOf e [ev] = if ev.executionId = e then [ev.move] else [] := by
  by_cases h : ev.executionId = e <;> simp [movesOf, h]

/-- A status change whose event the session has not added yet. -/
abbrev Owed := Option (ExecutionId × Move)

/-- What is owed to the log of execution `e`. -/
def owedMoves (e : ExecutionId) : Owed → List Move
  | some (e', m) => if e' = e then [m] else []
  | none => []

@[simp] theorem owedMoves_none (e : ExecutionId) : owedMoves e none = [] := rfl

@[simp] theorem owedMoves_self (e : ExecutionId) (m : Move) : owedMoves e (some (e, m)) = [m] :=
  if_pos rfl

theorem owedMoves_of_ne {e e' : ExecutionId} (h : e' ≠ e) (m : Move) :
    owedMoves e (some (e', m)) = [] :=
  if_neg h

namespace Database

variable (db : Database) (p : SessionId)

/-- The committed status of an execution. -/
def status? (e : ExecutionId) : Option ExecutionStatus := (db.executions e).map (·.status)

/-- The status session `p` sees. -/
def visibleStatus? (e : ExecutionId) : Option ExecutionStatus := (db.visible p e).map (·.status)

variable (q : SessionId) (w : DebugWrite)

@[simp] theorem addDebugWrite_executions : (db.addDebugWrite p w).executions = db.executions := rfl

@[simp] theorem addDebugWrite_events : (db.addDebugWrite p w).events = db.events := rfl

@[simp] theorem addDebugWrite_locks : (db.addDebugWrite p w).locks = db.locks := rfl

@[simp] theorem addDebugWrite_tx_executions :
    ((db.addDebugWrite p w).tx q).executions = (db.tx q).executions := by
  by_cases hq : q = p
  · subst hq
    simp [addDebugWrite]
  · simp [addDebugWrite, hq]

@[simp] theorem addDebugWrite_tx_events :
    ((db.addDebugWrite p w).tx q).events = (db.tx q).events := by
  by_cases hq : q = p
  · subst hq
    simp [addDebugWrite]
  · simp [addDebugWrite, hq]

end Database

/-- Rows and events are in step; `owed` tells for each session which event it still owes. -/
structure LogInv (db : Database) (owed : SessionId → Owed) : Prop where
  /-- The committed events lead to the committed row. -/
  committed : ∀ e, Trail Step none (movesOf e db.events) (db.status? e)
  /-- What a session has added and owes leads from the committed row to the one it sees. -/
  pending : ∀ p e, Trail Step (db.status? e) (movesOf e (db.tx p).events ++ owedMoves e (owed p))
    (db.visibleStatus? p e)
  /-- A session has written exactly the rows it has locked. -/
  locked : ∀ p e, (db.tx p).executions e ≠ none ↔ db.locks e = some p
  /-- Ids the sequence has not given out are unused. -/
  fresh : ∀ e, db.nextExecution ≤ e → db.executions e = none ∧ db.locks e = none
  /-- The events of an execution stand in the order of their ids. -/
  ordered : ∀ p e, ((db.events ++ (db.tx p).events).filter (·.executionId = e)).Pairwise
    (·.id < ·.id)
  /-- Event ids come from the sequence. -/
  drawn : ∀ p, ∀ ev ∈ db.events ++ (db.tx p).events, ev.id < db.nextEvent

namespace LogInv

variable {db : Database} {owed : SessionId → Owed} {p : SessionId} {e : ExecutionId}

theorem visible_of_not_locked (h : LogInv db owed) (hl : db.locks e ≠ some p) :
    db.visible p e = db.executions e := by
  have htx : (db.tx p).executions e = none := by
    by_contra hne
    exact hl ((h.locked p e).1 hne)
  simp [Database.visible, htx]

/-- A session has added no events for rows it has not locked, and owes none. -/
theorem moves_of_not_locked (h : LogInv db owed) (hl : db.locks e ≠ some p) :
    movesOf e (db.tx p).events = [] ∧ owedMoves e (owed p) = [] := by
  have hp := h.pending p e
  rw [Database.visibleStatus?, h.visible_of_not_locked hl] at hp
  exact List.append_eq_nil_iff.1 (hp.eq_nil_of_loop ExecutionStatus.progress_lt_of_step)

theorem events_of_not_locked (h : LogInv db owed) (hl : db.locks e ≠ some p) :
    (db.tx p).events.filter (·.executionId = e) = [] :=
  List.map_eq_nil_iff.1 (h.moves_of_not_locked hl).1

/-- On an empty database nothing is owed. -/
theorem empty {db : Database} (hx : db.executions = fun _ => none) (hev : db.events = [])
    (htx : db.tx = fun _ => {}) (hl : db.locks = fun _ => none) : LogInv db fun _ => none where
  committed e := by simp [hev, hx, Database.status?]
  pending p e := by simp [htx, hx, Database.status?, Database.visibleStatus?, Database.visible]
  locked p e := by simp [htx, hl]
  fresh e _ := by simp [hx, hl]
  ordered p e := by simp [hev, htx]
  drawn p ev hm := by simp [hev, htx] at hm

/-- Drawing an execution id changes no row. -/
theorem drawExecution (h : LogInv db owed) :
    LogInv { db with nextExecution := db.nextExecution + 1 } owed :=
  { h with fresh := fun e he => h.fresh e (Nat.le_of_succ_le he) }

/-- Writing a row one step further leaves the session owing that step's event. -/
theorem write (h : LogInv db owed) (ho : owed p = none) (hl : db.lockedByOther p e = false)
    (hlt : e < db.nextExecution) {row : Execution}
    (hs : Step (db.visibleStatus? p e) (some row.status)) :
    LogInv (db.write p e row)
      (Function.update owed p (some (e, db.visibleStatus? p e, some row.status))) := by
  have hother : ∀ q, q ≠ p → db.locks e ≠ some q := by
    intro q hq hlq
    simp [Database.lockedByOther, hlq, hq] at hl
  refine { h with committed := h.committed, pending := ?_, locked := ?_, fresh := ?_,
                  ordered := ?_, drawn := ?_ }
  · intro q e'
    have hq' := h.pending q e'
    by_cases hq : q = p
    · subst hq
      simp only [ho, owedMoves_none, List.append_nil] at hq'
      by_cases he : e' = e
      · subst he
        simpa [Database.write, Database.visibleStatus?, Database.visible, Database.status?] using
          hq'.snoc hs
      · simpa [Database.write, Database.visibleStatus?, Database.visible, Database.status?,
          owedMoves_of_ne (Ne.symm he), Function.update_of_ne he] using hq'
    · simpa [Database.write, Database.visibleStatus?, Database.visible, Database.status?, hq]
        using hq'
  · intro q e'
    have hq' := h.locked q e'
    by_cases hq : q = p
    · subst hq
      by_cases he : e' = e
      · subst he
        simp [Database.write]
      · simpa [Database.write, Function.update_of_ne he] using hq'
    · by_cases he : e' = e
      · subst he
        have hn := hother q hq
        simp only [Database.write, Function.update_of_ne hq, Function.update_self]
        simp only [Option.some.injEq, Ne.symm hq, iff_false, not_not]
        simpa [hn] using hq'
      · simpa [Database.write, Function.update_of_ne he, Function.update_of_ne hq] using hq'
  · intro e' he'
    have hne : e' ≠ e := Nat.ne_of_gt (Nat.lt_of_lt_of_le hlt he')
    simpa [Database.write, Function.update_of_ne hne] using h.fresh e' he'
  · intro q e'
    by_cases hq : q = p
    · subst hq
      simpa [Database.write] using h.ordered q e'
    · simpa [Database.write, hq] using h.ordered q e'
  · intro q
    by_cases hq : q = p
    · subst hq
      simpa [Database.write] using h.drawn q
    · simpa [Database.write, hq] using h.drawn q

/-- A row that a session sees as unfinished is unfinished where it is committed. -/
theorem unfinished_of_visible (h : LogInv db owed) {row row' : Execution}
    (hrow : db.executions e = some row) (hrow' : db.visible p e = some row')
    (hfin : row'.status.finished = false) : row.status.finished = false := by
  have hp := h.pending p e
  simp only [Database.status?, Database.visibleStatus?, hrow, hrow', Option.map_some] at hp
  by_contra hne
  have hstuck := (hp.stuck (ExecutionStatus.not_step_of_finished (by simpa using hne))).2
  rw [Option.some.inj hstuck] at hne
  exact hne hfin

/-- A row that a session sees queued is queued where it is committed. -/
theorem queued_of_visible (h : LogInv db owed) {row row' : Execution}
    (hrow : db.executions e = some row) (hrow' : db.visible p e = some row')
    (hqueued : row'.status = .queued) : row.status = .queued := by
  have hp := h.pending p e
  simp only [Database.status?, Database.visibleStatus?, hrow, hrow', Option.map_some,
    hqueued] at hp
  have hle := hp.rank_le ExecutionStatus.progress_lt_of_step
  cases hs : row.status with
  | queued => rfl
  | _ =>
    rw [hs] at hle
    exact absurd hle (by decide)

/-- A row that is finished where it is committed is finished for every session. -/
theorem finished_of_committed (h : LogInv db owed) {row row' : Execution}
    (hrow : db.executions e = some row) (hrow' : db.visible p e = some row')
    (hfin : row.status.finished = true) : row'.status.finished = true := by
  cases hfin' : row'.status.finished with
  | true => rfl
  | false =>
    rw [h.unfinished_of_visible hrow hrow' hfin'] at hfin
    cases hfin

/-- A row that a session has written and another has not committed is not seen by that other. -/
theorem visible_of_written_by_other (h : LogInv db owed) {q : SessionId} (hq : q ≠ p)
    (hw : (db.tx q).executions e ≠ none) : db.visible p e = db.executions e := by
  refine h.visible_of_not_locked ?_
  rw [(h.locked q e).1 hw]
  simpa using hq

/-- A row that a session sees has an id the sequence has given out. -/
theorem lt_of_visible (h : LogInv db owed) {row : Execution} (hv : db.visible p e = some row) :
    e < db.nextExecution := by
  by_contra hlt
  obtain ⟨hx, hl⟩ := h.fresh e (Nat.le_of_not_lt hlt)
  rw [h.visible_of_not_locked (by simp [hl]), hx] at hv
  cases hv

/-- An inserted row owes its first event. -/
theorem insertExecution (h : LogInv db owed) (ho : owed p = none) {row : Execution}
    (hrow : row.status = .queued) :
    LogInv (db.insertExecution p row).2
      (Function.update owed p (some (db.nextExecution, none, some .queued))) := by
  obtain ⟨hx, hl⟩ := h.fresh db.nextExecution (Nat.le_refl _)
  have hv : db.visibleStatus? p db.nextExecution = none := by
    rw [Database.visibleStatus?, h.visible_of_not_locked (by simp [hl]), hx]
    rfl
  have hstep : Step (db.visibleStatus? p db.nextExecution) (some row.status) := by
    rw [hv, hrow]
    exact .insert
  have hw := h.drawExecution.write ho (e := db.nextExecution) (by simp [Database.lockedByOther, hl])
    (Nat.lt_succ_self _) hstep
  rw [hrow] at hw
  exact hv ▸ hw

/-- A conditional update from a status to one the table allows owes that event if a row matched. -/
theorem updateWhere (h : LogInv db owed) (ho : owed p = none) {cond : Execution → Bool}
    {set : Execution → Execution} {changed : Bool} {db' : Database}
    (hu : db.updateWhere p e cond set = some (changed, db')) {current target : ExecutionStatus}
    (hcond : ∀ row, cond row = true → row.status = current)
    (hset : ∀ row, (set row).status = target)
    (hct : ExecutionStatus.canTransition current target = true) :
    LogInv db' (Function.update owed p
      (if changed then some (e, some current, some target) else none)) := by
  rcases Database.updateWhere_eq_some hu with ⟨rfl, rfl⟩ | ⟨rfl, row, hrow, hc, hl, rfl⟩
  · simpa [← ho] using h
  · have hv : db.visibleStatus? p e = some current := by
      simp [Database.visibleStatus?, hrow, hcond row hc]
    have hstep : Step (db.visibleStatus? p e) (some (set row).status) := by
      rw [hv, hset]
      exact .change hct
    have hw := h.write ho hl (h.lt_of_visible hrow) hstep
    rwa [hv, hset] at hw

/-- Adding the owed event settles the debt. -/
theorem addEvent (h : LogInv db owed) {payload : EventPayload}
    (ho : owed p = some (e, payload.fromStatus, some payload.toStatus)) :
    LogInv (db.addEvent p e payload) (Function.update owed p none) := by
  refine { h with committed := h.committed, pending := ?_, locked := ?_, fresh := h.fresh,
                  ordered := ?_, drawn := ?_ }
  · intro q e'
    have hq' := h.pending q e'
    by_cases hq : q = p
    · subst hq
      have hmoves : movesOf e' [⟨db.nextEvent, e, payload.toStatus, payload⟩] =
          owedMoves e' (owed q) := by
        rw [movesOf_singleton, ho]
        rfl
      simpa [Database.addEvent, Database.visibleStatus?, Database.visible, Database.status?,
        hmoves] using hq'
    · simpa [Database.addEvent, Database.visibleStatus?, Database.visible, Database.status?, hq]
        using hq'
  · intro q e'
    by_cases hq : q = p
    · subst hq
      simpa [Database.addEvent] using h.locked q e'
    · simpa [Database.addEvent, hq] using h.locked q e'
  · intro q e'
    by_cases hq : q = p
    · subst hq
      simp only [Database.addEvent, Function.update_self, ← List.append_assoc]
      rw [List.filter_append, List.pairwise_append]
      refine ⟨h.ordered q e', List.Pairwise.filter _ (List.pairwise_singleton _ _), ?_⟩
      intro a ha b hb
      simp only [List.mem_filter, List.mem_singleton] at hb
      rw [hb.1]
      exact h.drawn q a (List.mem_of_mem_filter ha)
    · simpa [Database.addEvent, hq] using h.ordered q e'
  · intro q ev hev
    by_cases hq : q = p
    · subst hq
      simp only [Database.addEvent, Function.update_self, ← List.append_assoc] at hev
      rcases List.mem_append.1 hev with hev | hev
      · exact Nat.lt_succ_of_lt (h.drawn q ev hev)
      · rw [List.mem_singleton.1 hev]
        exact Nat.lt_succ_self _
    · simp only [Database.addEvent, Function.update_of_ne hq] at hev
      exact Nat.lt_succ_of_lt (h.drawn q ev hev)

/-- Writes to `debug_sessions` do not concern the log. -/
theorem addDebugWrite (h : LogInv db owed) (w : DebugWrite) :
    LogInv (db.addDebugWrite p w) owed where
  committed := h.committed
  pending q e' := by
    simpa [Database.visibleStatus?, Database.visible, Database.status?] using h.pending q e'
  locked q e' := by simpa using h.locked q e'
  fresh := h.fresh
  ordered q e' := by simpa using h.ordered q e'
  drawn q ev hev := h.drawn q ev (by simpa using hev)

/-- A rollback drops what was written together with what was owed. -/
theorem rollback (h : LogInv db owed) :
    LogInv (db.rollback p) (Function.update owed p none) := by
  refine { committed := h.committed, pending := ?_, locked := ?_, fresh := ?_, ordered := ?_,
           drawn := ?_ }
  · intro q e'
    by_cases hq : q = p
    · subst hq
      simp [Database.rollback, Database.visibleStatus?, Database.visible, Database.status?]
    · simpa [Database.rollback, Database.visibleStatus?, Database.visible, Database.status?, hq]
        using h.pending q e'
  · intro q e'
    have hq' := h.locked q e'
    by_cases hq : q = p
    · subst hq
      by_cases hl : db.locks e' = some q <;> simp [Database.rollback, hl]
    · by_cases hl : db.locks e' = some p
      · simpa [Database.rollback, hq, hl, Ne.symm hq] using hq'
      · simpa [Database.rollback, hq, hl] using hq'
  · intro e' he'
    simpa [Database.rollback, (h.fresh e' he').2] using (h.fresh e' he').1
  · intro q e'
    by_cases hq : q = p
    · subst hq
      have hsub : db.events.Sublist (db.events ++ (db.tx q).events) :=
        List.sublist_append_left _ _
      simpa [Database.rollback] using (h.ordered q e').sublist (hsub.filter _)
    · simpa [Database.rollback, hq] using h.ordered q e'
  · intro q ev hev
    by_cases hq : q = p
    · subst hq
      simp only [Database.rollback, Function.update_self, List.append_nil] at hev
      exact h.drawn q ev (List.mem_append_left _ hev)
    · simp only [Database.rollback, Function.update_of_ne hq] at hev
      exact h.drawn q ev hev

/-- A session that owes nothing may commit. -/
theorem commit (h : LogInv db owed) (ho : owed p = none) : LogInv (db.commit p) owed := by
  -- the rows and events of an execution change for the others only if `p` has locked it
  have hlocked : ∀ q e', q ≠ p → db.locks e' = some p → db.locks e' ≠ some q := by
    intro q e' hq hl
    rw [hl]
    simpa using Ne.symm hq
  refine { committed := ?_, pending := ?_, locked := ?_, fresh := ?_, ordered := ?_,
           drawn := ?_ }
  · intro e'
    have hp := h.pending p e'
    rw [ho, owedMoves_none, List.append_nil] at hp
    simpa [Database.commit, Database.status?, Database.visibleStatus?] using
      (h.committed e').append hp
  · intro q e'
    by_cases hq : q = p
    · subst hq
      simp [Database.commit, Database.rollback, Database.visibleStatus?, Database.visible,
        Database.status?, ho]
    · by_cases hl : db.locks e' = some p
      · have hn := hlocked q e' hq hl
        have htx : (db.tx q).executions e' = none := by
          by_contra hne
          exact hn ((h.locked q e').1 hne)
        obtain ⟨hm, hom⟩ := h.moves_of_not_locked hn
        simp [Database.commit, Database.rollback, Database.visibleStatus?, Database.visible,
          Database.status?, hq, htx, hm, hom]
      · have hv := h.visible_of_not_locked hl
        have hq' := h.pending q e'
        simp only [Database.commit, Database.rollback, Database.visibleStatus?, Database.visible,
          Database.status?, Function.update_of_ne hq] at hv hq' ⊢
        rwa [hv]
  · exact h.rollback.locked
  · intro e' he'
    obtain ⟨hx, hl⟩ := h.fresh e' he'
    have hv := h.visible_of_not_locked (p := p) (e := e') (by simp [hl])
    exact ⟨hv.trans hx, by simp [Database.commit, Database.rollback, hl]⟩
  · intro q e'
    by_cases hq : q = p
    · subst hq
      simpa [Database.commit, Database.rollback] using h.ordered q e'
    · simp only [Database.commit, Database.rollback, Function.update_of_ne hq]
      by_cases hl : db.locks e' = some p
      · have hnone := h.events_of_not_locked (hlocked q e' hq hl)
        have hp := h.ordered p e'
        rw [List.filter_append, hnone, List.append_nil]
        exact hp
      · have hnone := h.events_of_not_locked hl
        have hq' := h.ordered q e'
        rw [List.filter_append] at hq' ⊢
        rw [List.filter_append, hnone, List.append_nil]
        exact hq'
  · intro q ev hev
    by_cases hq : q = p
    · subst hq
      simp only [Database.commit, Database.rollback, Function.update_self, List.append_nil] at hev
      exact h.drawn q ev hev
    · simp only [Database.commit, Database.rollback, Function.update_of_ne hq] at hev
      rcases List.mem_append.1 hev with hev | hev
      · exact h.drawn p ev hev
      · exact h.drawn q ev (List.mem_append_right _ hev)

end LogInv

end Concord
