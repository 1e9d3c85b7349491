import Concord.Assistant.Requests

/-!
# The course of a request

What one request to the assistant puts on record, beside any number of others: the events it sends to the project's
sockets and the rows it adds to the log. A request that has started sends a step for every tool it has run and is
finished exactly once, and last (`assistant_course`). It says that all went well exactly when it returns a response,
but for a response with a step that cannot be shown.
-/

namespace Concord.Assistant

open Concord.Base Async Agent
open Str (ofString)

/-- What a request has done. -/
abbrev Entry (F : Type) := JournalEntry (Op F) (fun o => Except Raised o.Val) State

/-- The assistant with its journal. -/
abbrev JournalConfig (F : Type) :=
  Config (Op F) (fun o => Except Raised o.Val) (State × List (Entry F)) Ask (Except Raised AIAssistantResponse)

/-- What a request has put on record. -/
structure Record where
  broadcasts : List (ProjectId × Event) := []
  /-- The rows that it has added to the log. -/
  rows : List AIAssistantRequest := []
  /-- The projects whose limiter has let it through. -/
  granted : List ProjectId := []
  /-- What the addition of a row has raised. -/
  unrecorded : List Raised := []

section Record

variable {F : Type}

/-- The project whose limiter lets a request through, or does not work. -/
def grants (s : AssistantSettings) : Call (Op F) (fun o => Except Raised o.Val) → List ProjectId
  | ⟨.countRequest project _, .ok (current, _)⟩ => if current ≤ s.rateLimitRequests then [project] else []
  | ⟨.countRequest project _, .error _⟩ => [project]
  | _ => []

/-- What a failed addition of a row has raised. -/
def unrecorded : Call (Op F) (fun o => Except Raised o.Val) → List Raised
  | ⟨.insertRequest _, .error e⟩ => [e]
  | _ => []

/-- The record with one more operation. -/
def Record.add (s : AssistantSettings) (g : Record) (e : Entry F) : Record where
  broadcasts := g.broadcasts ++ e.after.broadcasts.drop e.before.broadcasts.length
  rows := g.rows ++ e.after.requests.drop e.before.requests.length
  granted := g.granted ++ grants s e.call
  unrecorded := g.unrecorded ++ Assistant.unrecorded e.call

/-- The record of process `p`. -/
def recordOf (s : AssistantSettings) (p : Pid) (l : List (Entry F)) : Record :=
  (l.filter (·.pid = p)).foldl (Record.add s) {}

theorem recordOf_concat {s : AssistantSettings} {p : Pid} {l : List (Entry F)} {e : Entry F} :
    recordOf s p (l ++ [e]) = if e.pid = p then (recordOf s p l).add s e else recordOf s p l := by
  unfold recordOf
  rw [List.filter_append, List.foldl_append]
  by_cases hp : e.pid = p <;> simp [hp]

end Record

/-! ## Courses -/

section Courses

variable (s : AssistantSettings) (ask : Ask)

/-- The events of a request that has started and has run these tools. -/
def Ask.script (requestId : Str) (steps : List Step) : List (ProjectId × Event) :=
  (ask.project, .started requestId ask.user.id ask.user.username ask.payload.mode ask.payload.fileId) ::
    steps.map fun step => (ask.project, .step requestId ask.user.id step)

/-- The record of a request that is being answered. -/
def Ask.telling (requestId : Str) (granted : List ProjectId) (steps : List Step) : Record :=
  { broadcasts := ask.script requestId steps, granted }

/-- The event of a request that was not answered. -/
def Ask.unanswered (requestId : Str) : ProjectId × Event :=
  (ask.project, .finished requestId ask.user.id false false ask.payload.fileId)

/-- The event of a request that was answered: its file is the one of the proposal, if there is one. -/
def Ask.answered (requestId : Str) (response : AIAssistantResponse) : ProjectId × Event :=
  (ask.project, .finished requestId ask.user.id true response.proposal.isSome
    ((response.proposal.map fun proposal => (proposal.fileId : Int)).orElse fun _ => ask.payload.fileId))

/-- The row of an answered request. -/
def Ask.rowOf (response : AIAssistantResponse) : AIAssistantRequest where
  projectId := ask.project
  userId := ask.user.id
  fileId := ask.payload.fileId
  mode := ask.payload.mode
  prompt := ask.payload.prompt
  response := response.response
  provider := response.provider
  modelUsed := response.modelUsed
  promptTokens := some response.promptTokens
  completionTokens := some response.completionTokens
  totalTokens := some response.totalTokens
  latencyMs := response.latencyMs
  isSuccessful := true
  errorMessage := none

/-- Only a request that the limiter has let through starts. -/
def Granted (granted : List ProjectId) : Prop := s.rateLimitEnabled = true → granted = [ask.project]

/-- How a request that has started can fail, with what it has put on record up to then. -/
inductive Unanswered (validationError : Str) (requestId : Str) (granted : List ProjectId) : Raised → Record → Prop
  /-- The provider has failed, or a tool, and that is on record. -/
  | failed (resolved : ResolvedProvider) (steps : List Step) (text : Str) :
      Unanswered validationError requestId granted (.http 502 (ofString "AI assistant error: " ++ text) [])
        { ask.telling requestId granted steps with rows := [ask.failedRow resolved text] }
  | cancelled (steps : List Step) :
      Unanswered validationError requestId granted .cancelled (ask.telling requestId granted steps)
  /-- The row could not be added, or it was not known that it could. -/
  | unrecorded (steps : List Step) (row : AIAssistantRequest) (rows : List AIAssistantRequest) (e : Raised)
      (hrows : rows = [] ∨ rows = [row]) :
      Unanswered validationError requestId granted e
        { ask.telling requestId granted steps with rows, unrecorded := [e] }
  /-- The proposal of the model does not pass its checks, and the request is on record as a success. -/
  | rejected (steps : List Step) (row : AIAssistantRequest) (hrow : row.isSuccessful = true) :
      Unanswered validationError requestId granted (.exception validationError)
        { ask.telling requestId granted steps with rows := [row] }

/-- What a request has put on record before it ends. -/
inductive Underway : Record → Prop
  | notStarted (granted : List ProjectId) : Underway { granted }
  | started (requestId : Str) (steps : List Step) (g : Record) (hscript : g.broadcasts = ask.script requestId steps)
      (hrows : g.rows.length ≤ 1) (hgranted : Granted s ask g.granted) : Underway g

/-- How a request ends, with what it has put on record. -/
inductive Concluded (validationError : Str) : Except Raised AIAssistantResponse → Record → Prop
  /-- It never started. -/
  | refused (e : Raised) (granted : List ProjectId) : Concluded validationError (.error e) { granted }
  | answered (requestId : Str) (granted : List ProjectId) (response : AIAssistantResponse)
      (hgranted : Granted s ask granted) :
      Concluded validationError (.ok response)
        { broadcasts := ask.script requestId response.steps ++ [ask.answered requestId response]
          rows := [ask.rowOf response]
          granted }
  | unanswered (requestId : Str) (granted : List ProjectId) (e : Raised) (g : Record)
      (hgranted : Granted s ask granted) (h : Unanswered ask validationError requestId granted e g) :
      Concluded validationError (.error e) { g with broadcasts := g.broadcasts ++ [ask.unanswered requestId] }
  /-- A text of the response does not pass its checks, when all were told that it had gone well. -/
  | unshown (requestId : Str) (granted : List ProjectId) (response : AIAssistantResponse)
      (hgranted : Granted s ask granted) (h : ¬response.Shown) :
      Concluded validationError (.error (.exception validationError))
        { broadcasts := ask.script requestId response.steps ++ [ask.answered requestId response]
          rows := [ask.rowOf response]
          granted }

end Courses

/-- The script of the limiter is run for this project, and with this window. -/
def Op.counts {F : Type} (project : ProjectId) (window : Int) : Op F → Prop
  | countRequest q w => q = project ∧ w = window
  | _ => True

/-- The protocol of the assistant: every request keeps its own record. -/
def assistantProtocol {F : Type} (s : AssistantSettings) (lib : Library F) :
    Protocol (assistant s lib).journaled Record where
  Inv st gs := ∀ p, recordOf s p st.2 = gs p
  At _ ask g o := (o ≠ none → Underway s ask g) ∧ ∀ o' ∈ o, o'.counts ask.project s.rateLimitWindow
  ok _ _ _ _ _ := True

/-! ## Operations -/

section Operations

variable {F : Type} {s : AssistantSettings} {lib : Library F} {p : Pid} {ask : Ask} {g : Record} {o : Op F}

/-- The operations that put nothing on record. -/
def Op.isQuiet : Op F → Bool
  | broadcast _ _ | insertRequest _ | countRequest _ _ => false
  | _ => true

/-- The rule of an operation. -/
theorem call_rule {Q : o.Val → Record → Prop} {E : Raised → Record → Prop} (hat : Underway s ask g)
    (ho : o.counts ask.project s.rateLimitWindow)
    (h : ∀ env st x st', o.perform lib env st = (x, st') → outcome Q E x (g.add s ⟨p, ⟨o, x⟩, st, st'⟩)) :
    (assistantProtocol s lib).Triple p ask g (await o) Q E := by
  refine Protocol.Triple.call ⟨fun _ => hat, fun o' ho' => Option.some.inj ho' ▸ ho⟩
    fun env st gs hinv hg _ x st' hexec => ?_
  cases hperform : o.perform lib env st.1 with | mk y after => ?_
  simp only [Machine.journaled, assistant, hperform, Option.map_some, Option.some.injEq, Prod.mk.injEq] at hexec
  obtain ⟨rfl, rfl⟩ := hexec
  refine ⟨g.add s ⟨p, ⟨o, y⟩, st.1, after⟩, fun q => ?_, h env st.1 y after hperform⟩
  rw [recordOf_concat]
  by_cases hq : p = q
  · subst hq
    rw [if_pos rfl, Function.update_self, hinv p, hg]
  · rw [if_neg hq, Function.update_of_ne (Ne.symm hq)]
    exact hinv q

theorem run_quiet (lib : Library F) (ho : o.isQuiet = true) (env : Env) (st : State) : (o.run lib env st).2 = st := by
  cases o <;> first | rfl | cases ho

theorem perform_quiet {env : Env} {st st' : State} {x : Except Raised o.Val} (ho : o.isQuiet = true)
    (h : o.perform lib env st = (x, st')) : st'.broadcasts = st.broadcasts ∧ st'.requests = st.requests := by
  have hrun := run_quiet lib ho env { st with now := st.now + env.elapsed }
  unfold Op.perform at h
  dsimp only at h
  split at h
  · split at h
    · obtain rfl := congrArg Prod.snd h
      dsimp only
      split
      · rw [hrun]
        exact ⟨rfl, rfl⟩
      · exact ⟨rfl, rfl⟩
    · obtain rfl := congrArg Prod.snd h
      rw [hrun]
      exact ⟨rfl, rfl⟩
  · obtain rfl := congrArg Prod.snd h
    rw [hrun]
    exact ⟨rfl, rfl⟩

theorem add_quiet {st st' : State} {x : Except Raised o.Val} (ho : o.isQuiet = true)
    (h : st'.broadcasts = st.broadcasts ∧ st'.requests = st.requests) : g.add s ⟨p, ⟨o, x⟩, st, st'⟩ = g := by
  have hgrants : grants s ⟨o, x⟩ = [] := by cases o <;> first | rfl | cases ho
  have hunrecorded : unrecorded ⟨o, x⟩ = [] := by cases o <;> first | rfl | cases ho
  unfold Record.add
  dsimp only
  rw [h.1, h.2, hgrants, hunrecorded, List.drop_length, List.drop_length, List.append_nil, List.append_nil,
    List.append_nil, List.append_nil]

/-- An operation that puts nothing on record. -/
theorem quiet_rule {Q : o.Val → Record → Prop} {E : Raised → Record → Prop} (hat : Underway s ask g)
    (ho : o.isQuiet = true) (hQ : ∀ v, Q v g) (hE : ∀ e, E e g) :
    (assistantProtocol s lib).Triple p ask g (await o) Q E := by
  have hcounts : o.counts ask.project s.rateLimitWindow := by cases o <;> trivial
  refine call_rule hat hcounts fun env st x st' hperform => ?_
  rw [add_quiet ho (perform_quiet ho hperform)]
  cases x with
  | ok v => exact hQ v
  | error e => exact hE e

/-- Telling the project's sockets. -/
theorem broadcast_rule {E : Raised → Record → Prop} (hat : Underway s ask g) (project : ProjectId) (event : Event) :
    (assistantProtocol s lib).Triple p ask g (await (.broadcast project event))
      (fun _ g' => g' = { g with broadcasts := g.broadcasts ++ [(project, event)] }) E := by
  refine call_rule hat trivial fun env st x st' hperform => ?_
  have hrun : (x, st') = Op.run lib env { st with now := st.now + env.elapsed } (.broadcast project event) := by
    rw [← hperform]
    unfold Op.perform
    dsimp only
    split <;> rfl
  obtain ⟨rfl, rfl⟩ := Prod.mk.inj hrun
  have hnew : (st.broadcasts ++ [(project, event)]).drop st.broadcasts.length = [(project, event)] := List.drop_left
  simp [outcome, Record.add, grants, unrecorded, hnew]

/-- Adding a row. -/
theorem insertRequest_rule (hat : Underway s ask g) (row : AIAssistantRequest) :
    (assistantProtocol s lib).Triple p ask g (await (.insertRequest row))
      (fun _ g' => g' = { g with rows := g.rows ++ [row] }) fun e g' =>
        ∃ rows, (rows = [] ∨ rows = [row]) ∧
          g' = { g with rows := g.rows ++ rows, unrecorded := g.unrecorded ++ [e] } := by
  refine call_rule hat trivial fun env st x st' hperform => ?_
  have hnew : (st.requests ++ [row]).drop st.requests.length = [row] := List.drop_left
  unfold Op.perform at hperform
  dsimp only [Op.canFail] at hperform
  split at hperform
  · obtain ⟨rfl, rfl⟩ := Prod.mk.inj hperform
    refine ⟨if env.late then [row] else [], by split <;> simp, ?_⟩
    cases hlate : env.late <;> simp [Record.add, Op.run, grants, unrecorded, hnew]
  · obtain ⟨rfl, rfl⟩ := Prod.mk.inj hperform
    simp [outcome, Record.add, grants, unrecorded, hnew]

/-- Asking the limiter. -/
theorem countRequest_rule (hat : Underway s ask g) :
    (assistantProtocol s lib).Triple p ask g (await (.countRequest ask.project s.rateLimitWindow))
      (fun answer g' => g' = { g with
        granted := g.granted ++ if answer.1 ≤ s.rateLimitRequests then [ask.project] else [] })
      fun _ g' => g' = { g with granted := g.granted ++ [ask.project] } := by
  refine call_rule hat ⟨rfl, rfl⟩ fun env st x st' hperform => ?_
  unfold Op.perform at hperform
  dsimp only [Op.canFail] at hperform
  split at hperform
  · obtain ⟨rfl, rfl⟩ := Prod.mk.inj hperform
    cases hlate : env.late <;> simp [outcome, Record.add, Op.run, grants, unrecorded, State.countRequest]
  · obtain ⟨rfl, rfl⟩ := Prod.mk.inj hperform
    simp [outcome, Record.add, grants, unrecorded]

end Operations

/-! ## Programs -/

section Programs

variable {F : Type} {s : AssistantSettings} {lib : Library F} {p : Pid} {ask : Ask} {resolved : ResolvedProvider}
  {requestId : Str} {granted : List ProjectId} {steps : List Step} {g : Record}

theorem underway_telling (hgranted : Granted s ask granted) (steps : List Step) :
    Underway s ask (ask.telling requestId granted steps) :=
  .started requestId steps _ rfl (Nat.zero_le _) hgranted

theorem telling_concat (step : Step) :
    { ask.telling requestId granted steps with
      broadcasts := (ask.telling requestId granted steps).broadcasts ++
        [(ask.project, .step requestId ask.user.id step)] } = ask.telling requestId granted (steps ++ [step]) := by
  simp [Ask.telling, Ask.script]

/-- What a request has told when it gives the answer up. -/
def Told (ask : Ask) (requestId : Str) (granted : List ProjectId) (_ : Raised) (g : Record) : Prop :=
  ∃ steps, g = ask.telling requestId granted steps

/-- An operation while the request is being answered. -/
theorem telling_rule {o : Op F} (hgranted : Granted s ask granted) (ho : o.isQuiet = true) :
    (assistantProtocol s lib).Triple p ask (ask.telling requestId granted steps) (await o)
      (fun _ g => g = ask.telling requestId granted steps) (Told ask requestId granted) :=
  quiet_rule (underway_telling hgranted steps) ho (fun _ => rfl) fun _ => ⟨steps, rfl⟩

theorem raised_triple {α : Type} {x : Except Raised α} {Q : α → Record → Prop} {E : Raised → Record → Prop}
    (hQ : ∀ a, Q a g) (hE : ∀ e, E e g) : (assistantProtocol s lib).Triple p ask g (raised x : Py F α) Q E := by
  cases x with
  | ok a => exact .pure (hQ a)
  | error e => exact .throw (hE e)

/-- A tool call tells one step, or none if it raises. -/
theorem runCall_triple (hgranted : Granted s ask granted) (mode : String) (st : Progress F) (tc : ToolCall) :
    (assistantProtocol s lib).Triple p ask (ask.telling requestId granted st.steps)
      (runCall lib (fun step => await (.broadcast ask.project (.step requestId ask.user.id step))) mode st tc)
      (fun st' g => g = ask.telling requestId granted st'.steps) (Told ask requestId granted) := by
  refine (telling_rule hgranted rfl).bind fun result g hg => ?_
  obtain ⟨output, ok, ctx⟩ := result
  subst hg
  refine Protocol.Triple.bind (raised_triple (fun _ => rfl) fun _ => ⟨_, rfl⟩ :
    (assistantProtocol s lib).Triple p ask _ _ (fun _ g => g = ask.telling requestId granted st.steps) _)
    fun summary g hg => ?_
  subst hg
  have hstep : (assistantProtocol s lib).Triple p ask (ask.telling requestId granted st.steps)
      (await (.broadcast ask.project (.step requestId ask.user.id ⟨tc.name, summary, ok⟩)))
      (fun _ g => g = ask.telling requestId granted (st.steps ++ [⟨tc.name, summary, ok⟩])) fun _ _ => False :=
    (broadcast_rule (underway_telling hgranted _) _ _).mono (fun _ _ hg => hg.trans (telling_concat _))
      fun _ _ hE => hE
  refine (hstep.tryExcept (fun _ _ _ hE => hE.elim) fun _ _ _ hE => hE.elim).bind fun _ g hg => ?_
  exact .pure hg

theorem runCalls_triple (hgranted : Granted s ask granted) (mode : String) (calls : List ToolCall)
    (st : Progress F) :
    (assistantProtocol s lib).Triple p ask (ask.telling requestId granted st.steps)
      (calls.foldlM
        (runCall lib (fun step => await (.broadcast ask.project (.step requestId ask.user.id step))) mode) st)
      (fun st' g => g = ask.telling requestId granted st'.steps) (Told ask requestId granted) := by
  induction calls generalizing st with
  | nil => exact .pure rfl
  | cons tc calls ih =>
    rw [List.foldlM_cons]
    refine (runCall_triple hgranted mode st tc).bind fun st' g hg => ?_
    subst hg
    exact ih st'

/-- The loop tells the steps that it has taken. -/
theorem chatLoop_triple (hgranted : Granted s ask granted) (mode : String) (n : Nat) (st : Progress F) :
    (assistantProtocol s lib).Triple p ask (ask.telling requestId granted st.steps)
      (chatLoop lib resolved (fun step => await (.broadcast ask.project (.step requestId ask.user.id step))) mode n st)
      (fun result g => g = ask.telling requestId granted result.1.steps) (Told ask requestId granted) := by
  induction n generalizing st with
  | zero => exact .pure rfl
  | succ n ih =>
    refine (telling_rule hgranted rfl).bind fun reply g hg => ?_
    subst hg
    refine .ite (fun _ => .pure rfl) fun _ => ?_
    refine (runCalls_triple hgranted mode reply.toolCalls
      ((st.ask (toolSpecs mode) reply).append (.assistant reply.content reply.toolCalls))).bind fun st' g hg => ?_
    subst hg
    exact ih st'

theorem runAgent_triple (hgranted : Granted s ask granted) (mode : String) (ctx : AgentContext F) (prompt : Str)
    (history : List Turn) (maxSteps : Int) (selection : Option Selection) :
    (assistantProtocol s lib).Triple p ask (ask.telling requestId granted [])
      (runAgent lib resolved (fun step => await (.broadcast ask.project (.step requestId ask.user.id step))) mode ctx
        prompt history maxSteps selection)
      (fun result g => g = ask.telling requestId granted result.steps) (Told ask requestId granted) := by
  refine (telling_rule hgranted rfl).bind fun started g hg => ?_
  subst hg
  refine (telling_rule hgranted rfl).bind fun message g hg => ?_
  subst hg
  refine (chatLoop_triple hgranted mode _ _).bind fun result g hg => ?_
  subst hg
  refine (telling_rule hgranted rfl).bind fun ended g hg => ?_
  exact .pure hg

theorem completion_triple (hgranted : Granted s ask granted) :
    (assistantProtocol s lib).Triple p ask (ask.telling requestId granted []) (completion s ask resolved)
      (fun result g => g = ask.telling requestId granted result.steps) (Told ask requestId granted) := by
  have hcontext : (assistantProtocol s lib).Triple p ask (ask.telling requestId granted []) (context ask)
      (fun _ g => g = ask.telling requestId granted []) (Told ask requestId granted) := by
    unfold context
    split
    · exact (telling_rule hgranted rfl).map fun _ _ hg => hg
    · exact .pure rfl
  refine hcontext.bind fun context g hg => ?_
  subst hg
  refine (telling_rule hgranted rfl).bind fun started g hg => ?_
  subst hg
  refine (telling_rule hgranted rfl).bind fun reply g hg => ?_
  subst hg
  refine (telling_rule hgranted rfl).bind fun ended g hg => ?_
  exact .pure hg

theorem generate_triple (hgranted : Granted s ask granted) :
    (assistantProtocol s lib).Triple p ask (ask.telling requestId granted []) (generate s lib ask resolved requestId)
      (fun result g => g = ask.telling requestId granted result.steps) (Told ask requestId granted) :=
  .ite (fun _ => runAgent_triple hgranted _ _ _ _ _ _) fun _ => completion_triple hgranted

/-- An answer is put on record before its proposal is checked. -/
theorem answer_triple (hgranted : Granted s ask granted) :
    (assistantProtocol s lib).Triple p ask (ask.telling requestId granted []) (answer s lib ask resolved requestId)
      (fun result g => g = { ask.telling requestId granted result.1.steps with
        rows := [ask.answeredRow resolved result.1] })
      (Unanswered ask lib.validationError requestId granted) := by
  have hgenerate : (assistantProtocol s lib).Triple p ask (ask.telling requestId granted [])
      (tryExcept (generate s lib ask resolved requestId) Raised.isException fun e => do
        await (.insertRequest (ask.failedRow resolved e.str))
        throw (.http 502 (ofString "AI assistant error: " ++ e.str) []))
      (fun result g => g = ask.telling requestId granted result.steps)
      (Unanswered ask lib.validationError requestId granted) := by
    refine (generate_triple hgranted).tryExcept (fun e g _ htold => ?_) fun e g hexception htold => ?_
    · obtain ⟨steps, rfl⟩ := htold
      refine ((insertRequest_rule (underway_telling hgranted steps) _).mono (fun _ _ hg => hg) fun e g hE => ?_).bind
        fun _ g hg => ?_
      · obtain ⟨rows, hrows, rfl⟩ := hE
        exact .unrecorded steps _ rows e hrows
      · subst hg
        exact .throw (.failed resolved steps _)
    · obtain ⟨steps, rfl⟩ := htold
      cases e with
      | cancelled => exact .cancelled steps
      | http | exception => cases hexception
  refine hgenerate.bind fun result g hg => ?_
  subst hg
  refine ((insertRequest_rule (underway_telling hgranted _) _).mono (fun _ _ hg => hg) fun e g hE => ?_).bind
    fun _ g hg => ?_
  · obtain ⟨rows, hrows, rfl⟩ := hE
    exact .unrecorded result.steps _ rows e hrows
  · subst hg
    cases result.proposal with
    | none => exact .pure rfl
    | some proposal =>
      refine Protocol.Triple.bind (Protocol.Triple.orRaise
        (Q := fun _ g => g = { ask.telling requestId granted result.steps with
          rows := [ask.answeredRow resolved result] })
        (fun _ _ => rfl) fun _ => .rejected result.steps _ rfl) fun proposal g hg => ?_
      exact .pure hg

theorem Unanswered.underway {validationError : Str} {e : Raised} (hgranted : Granted s ask granted)
    (h : Unanswered ask validationError requestId granted e g) : Underway s ask g := by
  cases h with
  | failed resolved steps text => exact .started requestId steps _ rfl (Nat.le_refl 1) hgranted
  | cancelled steps => exact underway_telling hgranted steps
  | unrecorded steps row rows e hrows =>
    refine .started requestId steps _ rfl ?_ hgranted
    rcases hrows with rfl | rfl
    · exact Nat.zero_le 1
    · exact Nat.le_refl 1
  | rejected steps row hrow => exact .started requestId steps _ rfl (Nat.le_refl 1) hgranted

/-- A request that has started is finished once, at its end. -/
theorem announced_triple (hgranted : Granted s ask granted) :
    (assistantProtocol s lib).Triple p ask { granted } (announced s lib ask resolved requestId)
      (fun response g => Concluded s ask lib.validationError (.ok response) g)
      fun e g => Concluded s ask lib.validationError (.error e) g := by
  refine (broadcast_rule (.notStarted granted) _ _).bind fun _ g hg => ?_
  obtain rfl : g = ask.telling requestId granted [] := hg
  refine (answer_triple hgranted).attempt.bind fun res g hres => ?_
  cases res with
  | error e =>
    refine (broadcast_rule (hres.underway hgranted) _ _).bind fun _ g' hg' => ?_
    subst hg'
    exact .throw (.unanswered requestId granted e g hgranted hres)
  | ok answered =>
    obtain ⟨result, proposal⟩ := answered
    obtain rfl : g = _ := hres
    have hunderway : Underway s ask { ask.telling requestId granted result.steps with
        rows := [ask.answeredRow resolved result] } := .started requestId result.steps _ rfl (Nat.le_refl 1) hgranted
    have hshown : (assistantProtocol s lib).Triple p ask { ask.telling requestId granted result.steps with
          rows := [ask.answeredRow resolved result] } (do
          require (decide (response resolved result proposal).Shown) (.exception lib.validationError)
          return response resolved result proposal)
        (fun shown g => shown = response resolved result proposal ∧
          g = { ask.telling requestId granted result.steps with rows := [ask.answeredRow resolved result] })
        fun e g => e = .exception lib.validationError ∧ ¬(response resolved result proposal).Shown ∧
          g = { ask.telling requestId granted result.steps with rows := [ask.answeredRow resolved result] } := by
      refine Protocol.Triple.bind (Q := fun _ g =>
        g = { ask.telling requestId granted result.steps with rows := [ask.answeredRow resolved result] })
        (.require (fun _ => rfl) fun hfalse => ⟨rfl, of_decide_eq_false hfalse, rfl⟩) fun _ g hg => .pure ⟨rfl, hg⟩
    refine hshown.andFinally (fun shown g hg => ?_) fun e g hg => ?_
    · obtain ⟨rfl, rfl⟩ := hg
      refine (broadcast_rule hunderway _ _).mono (fun _ g hg => ?_) fun _ _ hE => hE
      subst hg
      exact .answered requestId granted (response resolved result proposal) hgranted
    · obtain ⟨rfl, hnot, rfl⟩ := hg
      refine (broadcast_rule hunderway _ _).mono (fun _ g hg => ?_) fun _ _ hE => hE
      subst hg
      exact .unshown requestId granted (response resolved result proposal) hgranted hnot

/-- What a request has put on record that has not started. -/
def Quiet (g : Record) : Prop := ∃ granted, g = { granted }

theorem Quiet.underway (h : Quiet g) : Underway s ask g := by
  obtain ⟨granted, rfl⟩ := h
  exact .notStarted granted

/-- An operation of a request that has not started. -/
theorem early_rule {o : Op F} (hg : Quiet g) (ho : o.isQuiet = true) :
    (assistantProtocol s lib).Triple p ask g (await o) (fun _ g' => g' = g) fun _ g => Quiet g :=
  quiet_rule hg.underway ho (fun _ => rfl) fun _ => hg

/-- The limiter grants a request what it lets through. -/
theorem checkRateLimit_triple :
    (assistantProtocol s lib).Triple p ask {} (checkRateLimit s ask.project)
      (fun answer g => ∃ granted, g = { granted } ∧ (answer.1 = true → Granted s ask granted)) fun _ g => Quiet g := by
  refine .ite (fun _ => ?_) fun hdisabled => .pure ⟨[], rfl, fun _ henabled => absurd henabled hdisabled⟩
  refine ((countRequest_rule (.notStarted [])).bind fun answer g hg => ?_).tryExcept (fun e g _ hE => ?_)
    fun e g _ hE => ⟨_, hE⟩
  · refine .pure ⟨_, hg, fun hallowed henabled => ?_⟩
    exact if_pos (of_decide_eq_true hallowed)
  · exact .pure ⟨_, hE, fun _ _ => rfl⟩

theorem checkFile_triple (hg : Quiet g) :
    (assistantProtocol s lib).Triple p ask g (checkFile ask) (fun _ g' => g' = g) fun _ g => Quiet g := by
  unfold checkFile
  split
  · refine (early_rule hg rfl).bind fun found g' hg' => ?_
    subst hg'
    exact .require (fun _ => rfl) fun _ => hg
  · exact .pure rfl

theorem resolveProvider_triple (hg : Quiet g) :
    (assistantProtocol s lib).Triple p ask g (resolveProvider s lib ask.project) (fun _ g' => g' = g)
      fun _ g => Quiet g := by
  refine (early_rule hg rfl).bind fun config g' hg' => ?_
  subst hg'
  cases config with
  | some config =>
    refine Protocol.Triple.bind (Protocol.Triple.require (Q := fun _ g => g = g') (fun _ => rfl) fun _ => hg)
      fun _ g hg' => ?_
    subst hg'
    exact Protocol.Triple.bind (Protocol.Triple.orRaise (Q := fun _ g' => g' = g) (fun _ _ => rfl) fun _ => hg)
      fun _ g hg' => .pure hg'
  | none =>
    exact Protocol.Triple.bind (Protocol.Triple.orRaise (Q := fun _ g => g = g') (fun _ _ => rfl) fun _ => hg)
      fun _ g hg' => .pure hg'

theorem requestId_triple (hg : Quiet g) :
    (assistantProtocol s lib).Triple p ask g (Assistant.requestId ask) (fun _ g' => g' = g) fun _ g => Quiet g := by
  unfold Assistant.requestId
  split
  · exact .pure rfl
  · exact early_rule hg rfl

/-- A request follows its course. -/
theorem requestAssistant_triple :
    (assistantProtocol s lib).Triple p ask {} (requestAssistant s lib ask)
      (fun response g => Concluded s ask lib.validationError (.ok response) g)
      fun e g => Concluded s ask lib.validationError (.error e) g := by
  have hrefused : ∀ (e : Raised) (g : Record), Quiet g → Concluded s ask lib.validationError (.error e) g := by
    rintro e g ⟨granted, rfl⟩
    exact .refused e granted
  have hquiet : Quiet {} := ⟨[], rfl⟩
  refine Protocol.Triple.bind (Protocol.Triple.require (Q := fun _ g => g = {}) (fun _ => rfl)
    fun _ => hrefused _ _ hquiet) fun _ g hg => ?_
  subst hg
  refine ((early_rule hquiet rfl).mono (fun _ _ hg => hg) hrefused).bind fun _ g hg => ?_
  subst hg
  refine (checkRateLimit_triple.mono (fun _ _ hg => hg) hrefused).bind fun answer g hg => ?_
  obtain ⟨granted, rfl, hallowed⟩ := hg
  have hquiet : Quiet { granted } := ⟨granted, rfl⟩
  refine Protocol.Triple.bind (Protocol.Triple.require
    (Q := fun _ g => g = { granted } ∧ Granted s ask granted) (fun htrue => ⟨rfl, hallowed htrue⟩)
    fun _ => hrefused _ _ hquiet) fun _ g hg => ?_
  obtain ⟨rfl, hgranted⟩ := hg
  refine ((checkFile_triple hquiet).mono (fun _ _ hg => hg) hrefused).bind fun _ g hg => ?_
  subst hg
  refine ((resolveProvider_triple hquiet).mono (fun _ _ hg => hg) hrefused).bind fun resolved g hg => ?_
  subst hg
  refine ((requestId_triple hquiet).mono (fun _ _ hg => hg) hrefused).bind fun requestId g hg => ?_
  subst hg
  exact announced_triple hgranted

end Programs

/-! ## Runs -/

/-- The outline of the assistant. -/
def assistantOutline {F : Type} (s : AssistantSettings) (lib : Library F) : Outline (assistantProtocol s lib) where
  idle := {}
  start _ _ := {}
  done _ ask res g := Concluded s ask lib.validationError res g
  init _ := rfl
  spawn st gs p ask hinv hg := by
    rw [← hg, Function.update_eq_self]
    exact hinv
  body _ _ := Protocol.Follows.mono requestAssistant_triple fun res g h => by cases res <;> exact h
  at_end _ _ _ _ _ := ⟨fun hnone => absurd rfl hnone, fun _ ho => by cases ho⟩

section Runs

variable {F : Type} {s : AssistantSettings} {lib : Library F} {cfg : JournalConfig F}

theorem fits_of_reachable (h : (assistant s lib).journaled.system.Reachable cfg) :
    ∃ gs, (assistantOutline s lib).Fits cfg gs :=
  (assistantOutline s lib).sound (fun cfg l _ _ => Machine.guard_of_forall (fun _ _ _ _ _ => trivial) cfg l) h

/-- Events and rows are only ever added. -/
theorem perform_extends {o : Op F} {env : Env} {st st' : State} {x : Except Raised o.Val}
    (h : o.perform lib env st = (x, st')) : st.broadcasts <+: st'.broadcasts ∧ st.requests <+: st'.requests := by
  have hrun : ∀ st : State, st.broadcasts <+: (o.run lib env st).2.broadcasts ∧
      st.requests <+: (o.run lib env st).2.requests := by
    intro st
    cases o with
    | broadcast project event => exact ⟨List.prefix_append _ _, List.prefix_rfl⟩
    | insertRequest row => exact ⟨List.prefix_rfl, List.prefix_append _ _⟩
    | _ => exact ⟨List.prefix_rfl, List.prefix_rfl⟩
  have hrun := hrun { st with now := st.now + env.elapsed }
  obtain rfl := congrArg Prod.snd h
  unfold Op.perform
  dsimp only
  split
  · split
    · dsimp only
      split
      · exact hrun
      · exact ⟨List.prefix_rfl, List.prefix_rfl⟩
    · exact hrun
  · exact hrun

theorem mem_drop_of_prefix {α : Type} {l l' : List α} {a : α} (h : l <+: l') (ha : a ∈ l') :
    a ∈ l ∨ a ∈ l'.drop l.length := by
  obtain ⟨rest, rfl⟩ := h
  rw [List.drop_left]
  exact List.mem_append.1 ha

/-- Only requests send events and add rows. -/
theorem recorded_of_reachable (h : (assistant s lib).journaled.system.Reachable cfg) :
    (∀ event ∈ cfg.shared.1.broadcasts, ∃ p, event ∈ (recordOf s p cfg.shared.2).broadcasts) ∧
      ∀ row ∈ cfg.shared.1.requests, ∃ p, row ∈ (recordOf s p cfg.shared.2).rows := by
  refine h.induction (P := fun cfg =>
    (∀ event ∈ cfg.shared.1.broadcasts, ∃ p, event ∈ (recordOf s p cfg.shared.2).broadcasts) ∧
      ∀ row ∈ cfg.shared.1.requests, ∃ p, row ∈ (recordOf s p cfg.shared.2).rows) ?_ fun cfg l cfg' _ ih _ hstep => ?_
  · exact ⟨fun event hevent => absurd hevent List.not_mem_nil, fun row hrow => absurd hrow List.not_mem_nil⟩
  · rcases Machine.journaled_step hstep with ⟨p, r, rfl, -, rfl⟩ | ⟨p, env, r, o, k, x, st', rfl, -, hexec, rfl⟩
    · exact ih
    · obtain ⟨hbroadcasts, hrequests⟩ := perform_extends (Option.some.inj hexec)
      dsimp only
      constructor
      · intro event hevent
        rcases mem_drop_of_prefix hbroadcasts hevent with hold | hnew
        · obtain ⟨q, hq⟩ := ih.1 event hold
          refine ⟨q, ?_⟩
          rw [recordOf_concat]
          split
          · exact List.mem_append_left _ hq
          · exact hq
        · refine ⟨p, ?_⟩
          rw [recordOf_concat, if_pos rfl]
          exact List.mem_append_right _ hnew
      · intro row hrow
        rcases mem_drop_of_prefix hrequests hrow with hold | hnew
        · obtain ⟨q, hq⟩ := ih.2 row hold
          refine ⟨q, ?_⟩
          rw [recordOf_concat]
          split
          · exact List.mem_append_left _ hq
          · exact hq
        · refine ⟨p, ?_⟩
          rw [recordOf_concat, if_pos rfl]
          exact List.mem_append_right _ hnew

end Runs

/-- A library for runs on fixed inputs. -/
def plainLibrary : Library Empty where
  python := plainPython
  runError _ := ofString "error"
  validationError := ofString "validation error"
  decrypt := some

/-- An operation that goes through while the model answers with these calls. -/
def goesOn (toolCalls : List ToolCall) : Env where
  requestId := ofString "r"
  reads := oneFile []
  reply := { content := ofString "done", toolCalls, promptTokens := 1, completionTokens := 1 }

/-- Requests 0 and 1 are answered at the same time: one after a tool call, the other by an error of the provider. -/
def twoRequests : List (Label Env Ask) :=
  let ask : Ask := { project := 1, user := { id := 1, username := [] }, payload := { prompt := ofString "?" } }
  let call : ToolCall := { id := [], name := ofString "list_files", arguments := [] }
  .spawn 0 ask :: .spawn 1 ask :: (List.replicate 7 [.run 0 (goesOn []), .run 1 (goesOn [])]).flatten ++
    .run 0 (goesOn [call]) :: .run 1 { goesOn [] with fault := some (.exception (ofString "busy")) } ::
      List.replicate 3 (.run 0 (goesOn [])) ++ .run 1 (goesOn []) :: List.replicate 3 (.run 0 (goesOn [])) ++
        [.run 1 (goesOn [])]

def withKey : AssistantSettings := { mistralApiKey := some (ofString "key") }

/-- Request 0 has been answered in one step, and request 1 has failed. -/
def bothEnded (cfg : JournalConfig Empty) : Bool :=
  match cfg.procs 0, cfg.procs 1 with
  | some ⟨_, .ret (.ok response)⟩, some ⟨_, .ret (.error (.http 502 _ _))⟩ => response.steps.length = 1
  | _, _ => false

end Concord.Assistant
