import Concord.Base.System
import Concord.Frontend.DebugState

/-!
# The Debug panel of a page

A page folds the events of its project in the order in which they are published, and it asks for the debug
session (`loadDebug`) when it opens and whenever its socket is back. The reply is not numbered and goes
another way than the events. `panel` has both: the sessions with the events that each has published, the keys
of the running session in Redis (`control.py`), the events on their way, and the requests.

A reply that still reports a session as running may arrive after the page has folded its `debug_stopped`;
`loadDebug` then takes the session as running again, and nothing will stop it any more. Where no such reply
arrives, an ended session stays ended (`debug_panel_live`).
-/

namespace Concord.DebugPanel

open Concord.Base

/-- `loadDebug`, once the reply is here. -/
def loadDebug (prev : DebugState) (active : Option ActiveSession) (paused : Option PausedState) : DebugState :=
  match active with
  | none => if prev.active.isSome then emptyDebug else prev
  | some a =>
    let st := applyDebugEvent emptyDebug ⟨a.executionId, .debugStarted a.fileId a.path none a.username⟩
    match paused with
    | none => st
    | some paused => applyDebugEvent st ⟨paused.executionId, .debugPaused paused.toPause⟩

/-! ## The system -/

/-- How far a session is with its events. -/
inductive Stage
  | waiting
  | running
  | stopped
deriving DecidableEq

/-- A request for the debug session: `debug_state` reads the active session, and then where that is paused. -/
inductive Request
  | sent
  | looked (active : ActiveSession)
  | replied (active : Option ActiveSession) (paused : Option PausedState)
  | arrived
deriving DecidableEq

structure Panel where
  stage : Int → Stage
  /-- The key of the project's debug session. -/
  active : Option ActiveSession
  /-- The keys with the last `debug_paused` of each session. -/
  state : Int → Option PausedState
  /-- The events on their way, the oldest first. -/
  channel : List DebugEvent
  requests : List Request
  debug : DebugState
  /-- The sessions whose `debug_stopped` the page has folded. -/
  ended : List Int

inductive Label
  | claimActive (info : ActiveSession)
  /-- The slot is taken over from a session that is found to be over. -/
  | setActive (info : ActiveSession)
  | clearActive (executionId : Int)
  | setState (executionId : Int) (paused : Option PausedState)
  | publish (e : DebugEvent)
  | deliver
  /-- The socket is down. -/
  | miss
  | request
  | readActive (n : Nat)
  | readState (n : Nat)
  /-- Redis is down. -/
  | readFails (n : Nat)
  | arrive (n : Nat)

/-- What a session publishes at a stage, and the stage after it. A session that fails to start only stops. -/
def Stage.after (stage : Stage) (e : DebugEvent) : Option Stage :=
  match stage with
  | .waiting => if e.starts then some .running else if e.stops then some .stopped else none
  | .running => if e.starts then none else if e.stops then some .stopped else some .running
  | .stopped => none

namespace Panel

variable (s : Panel)

def setRequest (n : Nat) (request : Request) : Panel := { s with requests := s.requests.set n request }

/-- The first event on its way reaches the page. -/
def fold (e : DebugEvent) (rest : List DebugEvent) : Panel :=
  { s with
    channel := rest
    debug := applyDebugEvent s.debug e
    ended := if e.stops then e.executionId :: s.ended else s.ended }

def step (s : Panel) : Label → Option Panel
  | .claimActive info => if s.active = none then some { s with active := some info } else none
  | .setActive info => some { s with active := some info }
  | .clearActive executionId =>
    some { s with
      active := if s.active.any (·.executionId = executionId) then none else s.active
      state := Function.update s.state executionId none }
  | .setState executionId paused => some { s with state := Function.update s.state executionId paused }
  | .publish e =>
    ((s.stage e.executionId).after e).map fun stage =>
      { s with stage := Function.update s.stage e.executionId stage, channel := s.channel ++ [e] }
  | .deliver =>
    match s.channel with
    | [] => none
    | e :: rest => some (s.fold e rest)
  | .miss =>
    match s.channel with
    | [] => none
    | _ :: rest => some { s with channel := rest }
  | .request => some { s with requests := s.requests ++ [.sent] }
  | .readActive n =>
    match s.requests[n]? with
    | some .sent =>
      match s.active with
      | none => some (s.setRequest n (.replied none none))
      | some active => some (s.setRequest n (.looked active))
    | _ => none
  | .readState n =>
    match s.requests[n]? with
    | some (.looked active) => some (s.setRequest n (.replied (some active) (s.state active.executionId)))
    | _ => none
  | .readFails n =>
    match s.requests[n]? with
    | some .sent | some (.looked _) => some (s.setRequest n (.replied none none))
    | _ => none
  | .arrive n =>
    match s.requests[n]? with
    | some (.replied active paused) =>
      some { s.setRequest n .arrived with debug := loadDebug s.debug active paused }
    | _ => none

end Panel

/-- A page that has just opened, in a project in which nothing has been debugged yet. -/
def panel : System Panel Label where
  init := ⟨fun _ => .waiting, none, fun _ => none, [], [], emptyDebug, []⟩
  step := Panel.step

/-! ## Ended sessions -/

/-- No session whose `debug_stopped` the page has folded is active. -/
def StaysEnded (s : Panel) : Prop := ∀ id ∈ s.ended, s.debug.activeId ≠ some id

instance (s : Panel) : Decidable (StaysEnded s) := inferInstanceAs (Decidable (∀ id ∈ s.ended, _))

/-- No reply arrives that reports a session as active whose `debug_stopped` the page has folded. -/
def UpToDate (s : Panel) (l : Label) : Prop :=
  ∀ n, l = .arrive n → ∀ active paused, s.requests[n]? = some (.replied (some active) paused) →
    active.executionId ∉ s.ended

/-- Nothing comes of a session after its `debug_stopped`. -/
structure PanelInv (s : Panel) : Prop where
  ended : StaysEnded s
  stopped : ∀ id ∈ s.ended, s.stage id = .stopped ∧ ∀ e ∈ s.channel, e.executionId ≠ id
  published : ∀ e ∈ s.channel, e.stops = true → s.stage e.executionId = .stopped
  last : s.channel.Pairwise fun e later => e.stops = true → later.executionId ≠ e.executionId

section Invariant

variable {s s' : Panel} {l : Label}

theorem starts_of_stops {e : DebugEvent} (h : e.stops = true) : e.starts = false := by
  obtain ⟨id, body⟩ := e
  cases body with
  | debugStopped reason exitCode byUser error => rfl
  | _ => cases h

theorem Stage.after_eq_some {stage next : Stage} {e : DebugEvent} (h : stage.after e = some next) :
    stage ≠ .stopped ∧ (e.stops = true → next = .stopped) := by
  unfold Stage.after at h
  cases stage with
  | waiting =>
    refine ⟨Stage.noConfusion, fun hstop => ?_⟩
    simpa [hstop, starts_of_stops hstop, eq_comm] using h
  | running =>
    refine ⟨Stage.noConfusion, fun hstop => ?_⟩
    simpa [hstop, starts_of_stops hstop, eq_comm] using h
  | stopped => cases h

theorem activeId_loadDebug (prev : DebugState) (active : Option ActiveSession) (paused : Option PausedState)
    {id : Int} (h : (loadDebug prev active paused).activeId = some id) :
    prev.activeId = some id ∨ ∃ a, active = some a ∧ a.executionId = id := by
  cases active with
  | none =>
    unfold loadDebug at h
    dsimp only at h
    split at h
    · cases h
    · exact .inl h
  | some a =>
    refine .inr ⟨a, rfl, ?_⟩
    cases paused with
    | none => exact Option.some.inj h
    | some paused =>
      have hstarted : (applyDebugEvent emptyDebug
          ⟨a.executionId, .debugStarted a.fileId a.path none a.username⟩).activeId = some a.executionId := rfl
      have hsame := (effect (applyDebugEvent emptyDebug
        ⟨a.executionId, .debugStarted a.fileId a.path none a.username⟩)
          ⟨paused.executionId, .debugPaused paused.toPause⟩).activeId_of_active hstarted rfl (by rintro ⟨⟨⟩, -⟩)
      exact Option.some.inj (hsame.symm.trans h)

/-- A reply that reports a session makes it active. -/
theorem activeId_loadDebug_some (prev : DebugState) (a : ActiveSession) (paused : Option PausedState) :
    (loadDebug prev (some a) paused).activeId = some a.executionId := by
  cases paused with
  | none => rfl
  | some paused =>
    exact (effect (applyDebugEvent emptyDebug ⟨a.executionId, .debugStarted a.fileId a.path none a.username⟩)
      ⟨paused.executionId, .debugPaused paused.toPause⟩).activeId_of_active rfl rfl (by rintro ⟨⟨⟩, -⟩)

namespace PanelInv

/-- What happens on the server and to the requests is nothing to the sessions. -/
theorem congr (h : PanelInv s) (hstage : s'.stage = s.stage) (hchannel : s'.channel = s.channel)
    (hdebug : s'.debug = s.debug) (hended : s'.ended = s.ended) : PanelInv s' where
  ended := by simpa only [StaysEnded, hended, hdebug] using h.ended
  stopped := by simpa only [hended, hstage, hchannel] using h.stopped
  published := by simpa only [hstage, hchannel] using h.published
  last := hchannel ▸ h.last

theorem setRequest (h : PanelInv s) (n : Nat) (request : Request) : PanelInv (s.setRequest n request) :=
  h.congr rfl rfl rfl rfl

/-- A session that has stopped publishes nothing. -/
theorem publish {e : DebugEvent} {next : Stage} (h : PanelInv s)
    (hnext : (s.stage e.executionId).after e = some next) :
    PanelInv { s with stage := Function.update s.stage e.executionId next, channel := s.channel ++ [e] } := by
  obtain ⟨hopen, hstopped⟩ := Stage.after_eq_some hnext
  refine ⟨h.ended, fun id hid => ?_, fun e' he' hstop => ?_, ?_⟩
  · obtain ⟨hstage, hchannel⟩ := h.stopped id hid
    have hne : e.executionId ≠ id := by
      rintro rfl
      exact hopen hstage
    refine ⟨(Function.update_of_ne hne.symm _ _).trans hstage, fun e' he' => ?_⟩
    rcases List.mem_append.1 he' with he' | he'
    · exact hchannel e' he'
    · rw [List.mem_singleton.1 he']
      exact hne
  · dsimp only
    rcases List.mem_append.1 he' with he' | he'
    · have hstage := h.published e' he' hstop
      have hne : e'.executionId ≠ e.executionId := by
        intro hsame
        exact hopen (hsame ▸ hstage)
      rw [Function.update_of_ne hne, hstage]
    · obtain rfl := List.mem_singleton.1 he'
      rw [Function.update_self, hstopped hstop]
  · refine List.pairwise_append.2 ⟨h.last, List.pairwise_singleton _ _, fun e' he' later hlater hstop => ?_⟩
    obtain rfl := List.mem_singleton.1 hlater
    intro hsame
    exact hopen (hsame ▸ h.published e' he' hstop)

/-- The page folds the first event on its way. -/
theorem fold {e : DebugEvent} {rest : List DebugEvent} (h : PanelInv s) (hchannel : s.channel = e :: rest) :
    PanelInv (s.fold e rest) := by
  have he : e ∈ s.channel := by rw [hchannel]; exact List.mem_cons_self
  have hrest : ∀ e' ∈ rest, e' ∈ s.channel := fun e' he' => by rw [hchannel]; exact List.mem_cons_of_mem _ he'
  have hlast := h.last
  rw [hchannel, List.pairwise_cons] at hlast
  have hbefore : ∀ id ∈ s.ended, (applyDebugEvent s.debug e).activeId ≠ some id := by
    intro id hid
    rcases (effect s.debug e).activeId with hsame | hown | hnone
    · rw [hsame]
      exact h.ended id hid
    · rw [hown]
      exact fun hid' => (h.stopped id hid).2 e he (Option.some.inj hid')
    · rw [hnone]
      exact (Option.some_ne_none id).symm
  have hmem : ∀ id, id ∈ (s.fold e rest).ended → id ∈ s.ended ∨ e.stops = true ∧ id = e.executionId := by
    intro id hid
    unfold Panel.fold at hid
    dsimp only at hid
    split at hid
    · next hstop =>
      rcases List.mem_cons.1 hid with hid | hid
      · exact .inr ⟨hstop, hid⟩
      · exact .inl hid
    · exact .inl hid
  refine ⟨fun id hid => ?_, fun id hid => ?_, fun e' he' => h.published e' (hrest e' he'), hlast.2⟩
  · rcases hmem id hid with hid | ⟨hstop, rfl⟩
    · exact hbefore id hid
    · exact (effect s.debug e).activeId_of_stops hstop
  · rcases hmem id hid with hid | ⟨hstop, rfl⟩
    · exact ⟨(h.stopped id hid).1, fun e' he' => (h.stopped id hid).2 e' (hrest e' he')⟩
    · exact ⟨h.published e he hstop, fun e' he' => hlast.1 e' he' hstop⟩

theorem miss {e : DebugEvent} {rest : List DebugEvent} (h : PanelInv s) (hchannel : s.channel = e :: rest) :
    PanelInv { s with channel := rest } := by
  have hrest : ∀ e' ∈ rest, e' ∈ s.channel := fun e' he' => by rw [hchannel]; exact List.mem_cons_of_mem _ he'
  have hlast := h.last
  rw [hchannel, List.pairwise_cons] at hlast
  exact ⟨h.ended, fun id hid => ⟨(h.stopped id hid).1, fun e' he' => (h.stopped id hid).2 e' (hrest e' he')⟩,
    fun e' he' => h.published e' (hrest e' he'), hlast.2⟩

/-- A reply that is up to date brings no session back. -/
theorem arrive {n : Nat} {active : Option ActiveSession} {paused : Option PausedState} (h : PanelInv s)
    (hfresh : ∀ a, active = some a → a.executionId ∉ s.ended) :
    PanelInv { s.setRequest n .arrived with debug := loadDebug s.debug active paused } := by
  refine ⟨fun id hid hactive => ?_, h.stopped, h.published, h.last⟩
  rcases activeId_loadDebug s.debug active paused hactive with hprev | ⟨a, ha, rfl⟩
  · exact h.ended id hid hprev
  · exact hfresh a ha hid

theorem step (h : PanelInv s) (hok : UpToDate s l) (hstep : s.step l = some s') : PanelInv s' := by
  unfold Panel.step at hstep
  cases l with
  | claimActive info =>
    dsimp only at hstep
    split at hstep
    · obtain rfl := Option.some.inj hstep
      exact h.congr rfl rfl rfl rfl
    · cases hstep
  | setActive info =>
    obtain rfl := Option.some.inj hstep
    exact h.congr rfl rfl rfl rfl
  | clearActive executionId =>
    obtain rfl := Option.some.inj hstep
    exact h.congr rfl rfl rfl rfl
  | setState executionId paused =>
    obtain rfl := Option.some.inj hstep
    exact h.congr rfl rfl rfl rfl
  | publish e =>
    obtain ⟨next, hnext, rfl⟩ := Option.map_eq_some_iff.1 hstep
    exact h.publish hnext
  | deliver =>
    dsimp only at hstep
    split at hstep
    · cases hstep
    · next e rest hchannel =>
      obtain rfl := Option.some.inj hstep
      exact h.fold hchannel
  | miss =>
    dsimp only at hstep
    split at hstep
    · cases hstep
    · next e rest hchannel =>
      obtain rfl := Option.some.inj hstep
      exact h.miss hchannel
  | request =>
    obtain rfl := Option.some.inj hstep
    exact h.congr rfl rfl rfl rfl
  | readActive n =>
    dsimp only at hstep
    split at hstep
    · split at hstep
      · obtain rfl := Option.some.inj hstep
        exact h.setRequest n _
      · obtain rfl := Option.some.inj hstep
        exact h.setRequest n _
    · cases hstep
  | readState n =>
    dsimp only at hstep
    split at hstep
    · obtain rfl := Option.some.inj hstep
      exact h.setRequest n _
    · cases hstep
  | readFails n =>
    dsimp only at hstep
    split at hstep
    · obtain rfl := Option.some.inj hstep
      exact h.setRequest n _
    · obtain rfl := Option.some.inj hstep
      exact h.setRequest n _
    · cases hstep
  | arrive n =>
    dsimp only at hstep
    split at hstep
    · next active paused hrequest =>
      obtain rfl := Option.some.inj hstep
      refine h.arrive fun a ha => ?_
      exact hok n rfl a paused (ha ▸ hrequest)
    · cases hstep

end PanelInv

theorem panelInv_init : PanelInv panel.init where
  ended := by simp [StaysEnded, panel]
  stopped := by simp [panel]
  published := by simp [panel]
  last := .nil

theorem panelInv_of_reachable (h : panel.ReachableUnder UpToDate s) : PanelInv s :=
  h.induction panelInv_init fun _ _ _ _ hinv hok hstep => hinv.step hok hstep

/-- A reply that is not up to date brings a session back. -/
theorem not_staysEnded_of_late (hstep : s.step l = some s') (hlate : ¬UpToDate s l) : ¬StaysEnded s' := by
  unfold UpToDate at hlate
  push Not at hlate
  obtain ⟨n, rfl, active, paused, hrequest, hended⟩ := hlate
  unfold Panel.step at hstep
  dsimp only at hstep
  rw [hrequest] at hstep
  obtain rfl := Option.some.inj hstep
  exact fun hstays => hstays active.executionId hended (activeId_loadDebug_some s.debug active paused)

end Invariant

/-! ## The panel -/

/-- **The debug panel shows one live session.** Whatever events are folded, only the active session is paused,
and from its `debug_started` to its `debug_stopped` or to the next `debug_started` an event of another session
changes nothing. On a page that only gets replies that are up to date, a session whose `debug_stopped` has been
folded is never active again; and it is active as soon as a reply arrives that is not. -/
theorem debug_panel_live (events : List DebugEvent) (s : Panel) :
    (∀ paused, (events.foldl applyDebugEvent emptyDebug).paused = some paused →
      ∃ active, (events.foldl applyDebugEvent emptyDebug).active = some active ∧
        active.executionId = paused.executionId) ∧
    (∀ (start e : DebugEvent) (during : List DebugEvent), start.starts = true →
      (∀ e ∈ during, e.starts = false ∧ ¬(e.stops = true ∧ e.executionId = start.executionId)) →
      e.starts = false → e.executionId ≠ start.executionId →
        (events ++ start :: during ++ [e]).foldl applyDebugEvent emptyDebug =
          (events ++ start :: during).foldl applyDebugEvent emptyDebug) ∧
    (panel.ReachableUnder UpToDate s → StaysEnded s) ∧
    ∀ l s', panel.step s l = some s' → ¬UpToDate s l → ¬StaysEnded s' := by
  refine ⟨fun paused hpaused => ?_, fun start e during hstart hduring he hne => ?_,
    fun h => (panelInv_of_reachable h).ended, fun l s' hstep hlate => not_staysEnded_of_late hstep hlate⟩
  · have hid : (events.foldl applyDebugEvent emptyDebug).pausedId = some paused.executionId := by
      rw [DebugState.pausedId, hpaused, Option.map_some]
    obtain ⟨active, hactive, hsame⟩ := Option.map_eq_some_iff.1 (pausedActive_foldl events pausedActive_empty _ hid)
    exact ⟨active, hactive, hsame⟩
  · have hpaused := pausedActive_foldl (events ++ start :: during) pausedActive_empty
    have hactive :
        ((events ++ start :: during).foldl applyDebugEvent emptyDebug).activeId = some start.executionId := by
      rw [List.foldl_append, List.foldl_cons]
      refine activeId_foldl ?_ hduring
      obtain ⟨id, body⟩ := start
      cases body with
      | debugStarted fileId path userId username => rfl
      | _ => cases hstart
    rw [List.foldl_append]
    exact (effect _ e).eq_of_foreign hpaused hactive hne he

/-- A reply that has read the active session just before the session ends, and arrives after its
`debug_stopped`: the session is active again, and stays so. -/
theorem ended_session_comes_back : ∃ s, panel.Reachable s ∧ ¬StaysEnded s := by
  let info : ActiveSession := ⟨1, 5, "main.py", some 2, some "alice"⟩
  let run : List Label :=
    [.claimActive info, .publish ⟨1, .debugStarted 5 "main.py" (some 2) (some "alice")⟩, .deliver, .request,
      .readActive 0, .readState 0, .publish ⟨1, .debugStopped "exited" (some 0) none none⟩, .deliver,
      .clearActive 1, .arrive 0]
  have hend : (panel.replay System.anyStep panel.init run).any (fun s => !decide (StaysEnded s)) = true := by
    decide
  obtain ⟨s, hs, hlate⟩ := System.exists_reachable hend
  exact ⟨s, hs, by simpa using hlate⟩

end Concord.DebugPanel
