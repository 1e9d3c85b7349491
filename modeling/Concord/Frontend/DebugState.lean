import Concord.Base.Dict

/-!
# The debug session as the page shows it

`lib/debug.ts` of the frontend: the state of the Debug panel, folded from the `debug_*` events. Every event of
a session carries its execution id (`publish` of the session sets it). A list that an event leaves out counts
as an empty one. Which session is active is `activeId`; each event leaves it as it is, sets it to its own
session or to none (`Effect`), and only the active session can be paused (`PausedActive`).
-/

namespace Concord.DebugPanel

open Concord.Base

/-! ## State and events -/

/-- `DebugVariable`. -/
structure DebugVariable where
  name : String
  value : String
  type : Option String
  ref : Int
deriving DecidableEq

/-- `DebugFrame`. -/
structure DebugFrame where
  id : Int
  name : String
  line : Int
  path : String
  fileId : Option Int
deriving DecidableEq

/-- `DebugScope`. -/
structure DebugScope where
  name : String
  ref : Int
deriving DecidableEq

/-- What a `debug_paused` event says besides its id. -/
structure Pause where
  reason : String
  description : Option String
  byUser : Option String
  path : Option String
  fileId : Option Int
  line : Option Int
  stack : List DebugFrame
  scopes : List DebugScope
  vars : List DebugVariable
deriving DecidableEq

/-- `PausedState`. -/
structure PausedState extends Pause where
  executionId : Int
deriving DecidableEq

/-- `ActiveSession`. -/
structure ActiveSession where
  executionId : Int
  fileId : Int
  path : String
  userId : Option Int
  username : Option String
deriving DecidableEq

/-- `lastStopped` of the state. -/
structure LastStopped where
  reason : String
  exitCode : Option Int
  byUser : Option String
deriving DecidableEq

/-- `DebugState`. -/
structure DebugState where
  active : Option ActiveSession
  paused : Option PausedState
  frameId : Option Int
  scopes : List DebugScope
  children : Dict Int (List DebugVariable)
  message : Option String
  lastStopped : Option LastStopped

/-- `emptyDebug`. -/
def emptyDebug : DebugState where
  active := none
  paused := none
  frameId := none
  scopes := []
  children := ∅
  message := none
  lastStopped := none

inductive DebugEventBody
  | debugStarted (fileId : Int) (path : String) (userId : Option Int) (username : Option String)
  | debugPaused (pause : Pause)
  | debugRunning (byUser : Option String)
  | debugFrame (frameId : Int) (scopes : List DebugScope) (vars : List DebugVariable)
  | debugVariables (ref : Int) (vars : List DebugVariable)
  | debugMessage (text : String)
  | debugStopped (reason : String) (exitCode : Option Int) (byUser error : Option String)
  | other
deriving DecidableEq

/-- `Event`. -/
structure DebugEvent where
  executionId : Int
  body : DebugEventBody
deriving DecidableEq

/-- What counts as true in JavaScript. -/
def truthy (text : Option String) : Option String := text.filter (· ≠ "")

/-- `stoppedMessage`. -/
def stoppedMessage (reason : String) (exitCode : Option Int) (byUser error : Option String) : String :=
  if reason = "exited" then
    "The program finished (exit code " ++ (exitCode.map toString).getD "?" ++ ")."
  else if reason = "stopped" then byUser.getD "Someone" ++ " stopped the debugger."
  else if reason = "idle" then "Stopped: nobody stepped for a few minutes."
  else if reason = "timeout" then "Stopped: the debug session hit its time limit."
  else if reason = "cancelled" then "The debug run was cancelled."
  else "The debugger stopped" ++ ((truthy error).map (": " ++ ·)).getD "."

/-- The variables of the first scope, if there is one with a reference. -/
def firstChildren (scopes : List DebugScope) (vars : List DebugVariable) : Dict Int (List DebugVariable) :=
  match scopes.head? with
  | none => ∅
  | some scope => if scope.ref = 0 then ∅ else Dict.set ∅ scope.ref vars

namespace DebugState

variable (state : DebugState)

/-- The session that is active. -/
def activeId : Option Int := state.active.map ActiveSession.executionId

/-- The session that is paused. -/
def pausedId : Option Int := state.paused.map PausedState.executionId

end DebugState

/-- `applyDebugEvent`. -/
def applyDebugEvent (state : DebugState) (e : DebugEvent) : DebugState :=
  match e.body with
  | .debugStarted fileId path userId username =>
    { emptyDebug with
      active := some ⟨e.executionId, fileId, path, userId, username⟩
      message := some (username.getD "Someone" ++ " started debugging " ++ path) }
  | .debugPaused pause =>
    if state.active.any (·.executionId ≠ e.executionId) then state
    else
      -- The session is adopted if none is active.
      let active := state.active.getD ⟨e.executionId, pause.fileId.getD 0, pause.path.getD "", none, none⟩
      { state with
        active := some active
        paused := some ⟨pause, e.executionId⟩
        frameId := pause.stack.head?.map DebugFrame.id
        scopes := pause.scopes
        children := firstChildren pause.scopes pause.vars
        message := none }
  | .debugRunning byUser =>
    if state.activeId ≠ some e.executionId then state
    else
      { state with
        paused := none
        children := ∅
        message := some (((truthy byUser).map ("Running (" ++ · ++ ")")).getD "Running") }
  | .debugFrame frameId scopes vars =>
    if state.pausedId ≠ some e.executionId then state
    else { state with frameId := some frameId, scopes := scopes, children := firstChildren scopes vars }
  | .debugVariables ref vars =>
    if state.pausedId ≠ some e.executionId then state
    else { state with children := state.children.set ref vars }
  | .debugMessage text =>
    if state.activeId = some e.executionId then { state with message := some text } else state
  | .debugStopped reason exitCode byUser error =>
    if state.active.any (·.executionId ≠ e.executionId) then state
    else
      { emptyDebug with
        lastStopped := some ⟨reason, exitCode, byUser⟩
        message := some (stoppedMessage reason exitCode byUser error) }
  | .other => state

/-- A `debug_started` event. -/
def DebugEvent.starts (e : DebugEvent) : Bool :=
  match e.body with
  | .debugStarted .. => true
  | _ => false

/-- A `debug_stopped` event. -/
def DebugEvent.stops (e : DebugEvent) : Bool :=
  match e.body with
  | .debugStopped .. => true
  | _ => false

section Events

variable {state : DebugState} {e : DebugEvent} {id : Int}

theorem any_active_ne_iff :
    state.active.any (·.executionId ≠ id) = true ↔ ∃ other, state.activeId = some other ∧ other ≠ id := by
  unfold DebugState.activeId
  cases state.active with
  | none => simp
  | some a => simp

/-- Only the active session is paused. -/
def PausedActive (state : DebugState) : Prop := ∀ id, state.pausedId = some id → state.activeId = some id

theorem pausedActive_empty : PausedActive emptyDebug := by
  intro id h
  cases h

/-- What an event comes to. It is about the session that is active or that it makes active, or it changes
nothing. -/
inductive Effect (state : DebugState) (e : DebugEvent) : DebugState → Prop
  | same (hstart : e.starts = false) (hstop : e.stops = true → state.activeId ≠ some e.executionId) :
    Effect state e state
  | started {next : DebugState} (hstart : e.starts = true) (hactive : next.activeId = some e.executionId)
    (hpaused : next.pausedId = none) : Effect state e next
  | paused {next : DebugState} (hown : ∀ id, state.activeId = some id → id = e.executionId) (hstop : e.stops = false)
    (hactive : next.activeId = some e.executionId) (hpaused : next.pausedId = some e.executionId) : Effect state e next
  | moved {next : DebugState} (hown : state.activeId = some e.executionId ∨ state.pausedId = some e.executionId)
    (hstop : e.stops = false) (hactive : next.activeId = state.activeId)
    (hpaused : next.pausedId = none ∨ next.pausedId = state.pausedId) : Effect state e next
  | stopped {next : DebugState} (hown : ∀ id, state.activeId = some id → id = e.executionId) (hstop : e.stops = true)
    (hactive : next.activeId = none) (hpaused : next.pausedId = none) : Effect state e next

theorem effect (state : DebugState) (e : DebugEvent) : Effect state e (applyDebugEvent state e) := by
  have hadopts : ¬state.active.any (·.executionId ≠ e.executionId) = true →
      ∀ id, state.activeId = some id → id = e.executionId := by
    intro hany id hid
    by_contra hne
    exact hany (any_active_ne_iff.2 ⟨id, hid, hne⟩)
  obtain ⟨own, body⟩ := e
  unfold applyDebugEvent
  cases body with
  | debugStarted fileId path userId username => exact .started rfl rfl rfl
  | debugPaused pause =>
    dsimp only
    split
    · exact .same rfl (by rintro ⟨⟩)
    · next hany =>
      refine .paused (hadopts hany) rfl ?_ rfl
      have hown := hadopts hany
      unfold DebugState.activeId at hown ⊢
      cases hactive : state.active with
      | none => rfl
      | some active => exact congrArg some (hown active.executionId (by rw [hactive]; rfl))
  | debugRunning byUser =>
    dsimp only
    split
    · exact .same rfl (by rintro ⟨⟩)
    · next hown => exact .moved (.inl (not_not.1 hown)) rfl rfl (.inl rfl)
  | debugFrame frameId scopes vars =>
    dsimp only
    split
    · exact .same rfl (by rintro ⟨⟩)
    · next hown => exact .moved (.inr (not_not.1 hown)) rfl rfl (.inr rfl)
  | debugVariables ref vars =>
    dsimp only
    split
    · exact .same rfl (by rintro ⟨⟩)
    · next hown => exact .moved (.inr (not_not.1 hown)) rfl rfl (.inr rfl)
  | debugMessage text =>
    dsimp only
    split
    · next hown => exact .moved (.inl hown) rfl rfl (.inr rfl)
    · exact .same rfl (by rintro ⟨⟩)
  | debugStopped reason exitCode byUser error =>
    dsimp only
    split
    · next hany =>
      obtain ⟨other, hactive, hne⟩ := any_active_ne_iff.1 hany
      refine .same rfl fun _ hown => hne ?_
      exact Option.some.inj (hactive.symm.trans hown)
    · next hany => exact .stopped (hadopts hany) rfl rfl rfl
  | other => exact .same rfl (by rintro ⟨⟩)

namespace Effect

variable {next : DebugState}

/-- The active session is the one it was, or the event's own, or none. -/
theorem activeId (h : Effect state e next) :
    next.activeId = state.activeId ∨ next.activeId = some e.executionId ∨ next.activeId = none := by
  cases h with
  | same hstart hstop => exact .inl rfl
  | started hstart hactive hpaused => exact .inr (.inl hactive)
  | paused hown hstop hactive hpaused => exact .inr (.inl hactive)
  | moved hown hstop hactive hpaused => exact .inl hactive
  | stopped hown hstop hactive hpaused => exact .inr (.inr hactive)

/-- After `debug_stopped` its session is not active. -/
theorem activeId_of_stops (h : Effect state e next) (hstops : e.stops = true) : next.activeId ≠ some e.executionId := by
  cases h with
  | same hstart hstop => exact hstop hstops
  | started hstart hactive hpaused =>
    obtain ⟨own, body⟩ := e
    cases body with
    | debugStarted fileId path userId username => cases hstops
    | _ => cases hstart
  | paused hown hstop hactive hpaused => exact absurd hstops (Bool.eq_false_iff.1 hstop)
  | moved hown hstop hactive hpaused => exact absurd hstops (Bool.eq_false_iff.1 hstop)
  | stopped hown hstop hactive hpaused =>
    rw [hactive]
    exact (Option.some_ne_none _).symm

/-- While a session is active, an event of another one changes nothing, unless it starts that one. -/
theorem eq_of_foreign (h : Effect state e next) (hpaused : PausedActive state) (hactive : state.activeId = some id)
    (hne : e.executionId ≠ id) (hstart : e.starts = false) : next = state := by
  have hforeign : ¬∀ other, state.activeId = some other → other = e.executionId :=
    fun hown => hne (hown id hactive).symm
  cases h with
  | same _ _ => rfl
  | started hstarts _ _ =>
    rw [hstart] at hstarts
    cases hstarts
  | paused hown _ _ _ => exact absurd hown hforeign
  | moved hown _ _ _ =>
    have hown : state.activeId = some e.executionId := hown.elim (fun h => h) (hpaused _)
    exact absurd (Option.some.inj (hown.symm.trans hactive)) hne
  | stopped hown _ _ _ => exact absurd hown hforeign

/-- A session stays active until it stops or the next one starts. -/
theorem activeId_of_active (h : Effect state e next) (hactive : state.activeId = some id) (hstart : e.starts = false)
    (hstop : ¬(e.stops = true ∧ e.executionId = id)) : next.activeId = some id := by
  cases h with
  | same _ _ => exact hactive
  | started hstarts _ _ =>
    rw [hstart] at hstarts
    cases hstarts
  | paused hown _ hnext _ => rw [hnext, hown id hactive]
  | moved _ _ hnext _ => rw [hnext, hactive]
  | stopped hown hstops _ _ => exact absurd ⟨hstops, (hown id hactive).symm⟩ hstop

theorem pausedActive (h : Effect state e next) (hpaused : PausedActive state) : PausedActive next := by
  have hnone : next.pausedId = none → PausedActive next := by
    intro hnone id hid
    rw [hnone] at hid
    cases hid
  cases h with
  | same _ _ => exact hpaused
  | started _ _ hnext => exact hnone hnext
  | paused _ _ hactive hnext =>
    intro id hid
    rw [hactive, ← hnext, hid]
  | moved _ _ hactive hnext =>
    rcases hnext with hnext | hnext
    · exact hnone hnext
    · intro id hid
      rw [hactive]
      exact hpaused id (hnext.symm.trans hid)
  | stopped _ _ _ hnext => exact hnone hnext

end Effect

theorem pausedActive_foldl (events : List DebugEvent) (h : PausedActive state) :
    PausedActive (events.foldl applyDebugEvent state) := by
  induction events generalizing state with
  | nil => exact h
  | cons e events ih => exact ih ((effect state e).pausedActive h)

theorem activeId_foldl {events : List DebugEvent} (hactive : state.activeId = some id)
    (hevents : ∀ e ∈ events, e.starts = false ∧ ¬(e.stops = true ∧ e.executionId = id)) :
    (events.foldl applyDebugEvent state).activeId = some id := by
  induction events generalizing state with
  | nil => exact hactive
  | cons e events ih =>
    obtain ⟨hstart, hstop⟩ := hevents e List.mem_cons_self
    have hnext := (effect state e).activeId_of_active hactive hstart hstop
    exact ih hnext fun e he => hevents e (List.mem_cons_of_mem _ he)

end Events

end Concord.DebugPanel
