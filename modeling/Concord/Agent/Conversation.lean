import Concord.Agent.Runner

/-!
# Conversations

What `run_agent` does in a run in which no tool handler raises. Its conversation is well formed and its result is
about all that the model asked for, if there is a result: `_summarize` looks for `"file_id"` in whatever the arguments
of a call are, and raises where they are a number, for example, which `run_tool` has just answered with an error
(`conversation_well_formed`).
-/

namespace Concord.Agent

open Concord.Base
open Str (ofString)

/-! ## Conversations -/

/-- The message answers the call. -/
def Answers : Message → ToolCall → Prop
  | .tool toolCallId _ _, call => toolCallId = call.id
  | _, _ => False

/-- No tool. -/
def Message.IsTool : Message → Prop
  | .tool _ _ _ => True
  | _ => False

/-- Each assistant message with tool calls is followed by one tool message for each call, in order, and by no other
one. -/
def WellFormed (messages : List Message) : Prop :=
  ∀ before content calls after, messages = before ++ .assistant content calls :: after →
    ∃ answers rest, after = answers ++ rest ∧ List.Forall₂ Answers answers calls ∧
      ∀ message ∈ rest.head?, ¬message.IsTool

/-- Messages that are no answers, and rounds of tool calls with their answers. -/
inductive Rounds : List Message → Prop
  | nil : Rounds []
  | system (content : Str) {rest : List Message} (h : Rounds rest) : Rounds (.system content :: rest)
  | turn (role content : Str) {rest : List Message} (h : Rounds rest) : Rounds (.turn role content :: rest)
  | user (content : Str) {rest : List Message} (h : Rounds rest) : Rounds (.user content :: rest)
  | round (content : Str) {calls : List ToolCall} {answers rest : List Message}
    (hanswers : List.Forall₂ Answers answers calls) (h : Rounds rest) :
    Rounds (.assistant content calls :: (answers ++ rest))

namespace Rounds

variable {messages messages' answers : List Message} {calls : List ToolCall}

theorem append (h : Rounds messages) (h' : Rounds messages') : Rounds (messages ++ messages') := by
  induction h with
  | nil => exact h'
  | system content _ ih => exact .system content ih
  | turn role content _ ih => exact .turn role content ih
  | user content _ ih => exact .user content ih
  | round content hanswers _ ih =>
    rw [List.cons_append, List.append_assoc]
    exact .round content hanswers ih

/-- A conversation that goes on by one round. -/
theorem append_round (h : Rounds messages) (content : Str) (hanswers : List.Forall₂ Answers answers calls) :
    Rounds (messages ++ .assistant content calls :: answers) := by
  have hround := Rounds.round content hanswers .nil
  rw [List.append_nil] at hround
  exact h.append hround

theorem head_not_tool (h : Rounds messages) : ∀ message ∈ messages.head?, ¬message.IsTool := by
  intro message hmem htool
  cases h with
  | nil => cases hmem
  | system | turn | user | round =>
    rw [List.head?_cons, Option.mem_some_iff] at hmem
    subst hmem
    exact htool

theorem not_assistant_mem (hanswers : List.Forall₂ Answers answers calls) {content : Str} {calls' : List ToolCall} :
    Message.assistant content calls' ∉ answers := by
  intro hmem
  induction hanswers with
  | nil => cases hmem
  | cons hanswer _ ih =>
    rcases List.mem_cons.1 hmem with rfl | hmem
    · exact hanswer
    · exact ih hmem

theorem wellFormed (h : Rounds messages) : WellFormed messages := by
  intro before content calls after hsplit
  induction h generalizing before with
  | nil => cases List.append_eq_nil_iff.1 hsplit.symm |>.2
  | system _ _ ih | turn _ _ _ ih | user _ _ ih =>
    cases before with
    | nil => cases hsplit
    | cons m before =>
      obtain ⟨-, hsplit⟩ := List.cons_eq_cons.1 hsplit
      exact ih before hsplit
  | @round content' calls' answers rest hanswers hrest ih =>
    cases before with
    | nil =>
      obtain ⟨hsame, rfl⟩ := List.cons_eq_cons.1 hsplit
      cases hsame
      exact ⟨answers, rest, rfl, hanswers, hrest.head_not_tool⟩
    | cons m before =>
      obtain ⟨-, hsplit⟩ := List.cons_eq_cons.1 hsplit
      -- the assistant message is none of the answers
      rcases List.append_eq_append_iff.1 hsplit with ⟨middle, rfl, hrest'⟩ | ⟨middle, rfl, hafter⟩
      · exact ih middle hrest'
      · cases middle with
        | nil =>
          rw [List.nil_append] at hafter
          exact ih [] hafter.symm
        | cons m middle =>
          obtain ⟨rfl, -⟩ := List.cons_eq_cons.1 hafter
          exact absurd (List.mem_append_right _ List.mem_cons_self) (not_assistant_mem hanswers)

end Rounds

/-! ## Tools that record no proposal -/

section Keeps

variable {F α : Type} {python : Python F} {reads : Reads} {ctx : AgentContext F}

/-- If there is a result, the proposal is what it was. -/
def Keeps (ctx : AgentContext F) (result : Result (Str × AgentContext F)) : Prop :=
  ∀ output ctx', result = .ok (output, ctx') → ctx'.proposal = ctx.proposal

theorem keeps_ok {output : Str} {ctx' : AgentContext F} (h : ctx'.proposal = ctx.proposal) :
    Keeps ctx (.ok (output, ctx')) := by
  rintro _ _ ⟨⟩
  exact h

theorem keeps_error {e : Failure} : Keeps ctx (.error e) := by
  rintro _ _ ⟨⟩

theorem keeps_bind {x : Result α} {f : α → Result (Str × AgentContext F)} (h : ∀ a, Keeps ctx (f a)) :
    Keeps ctx (x >>= f) := by
  cases x with
  | error e => exact keeps_error
  | ok a => exact h a

theorem keeps_readFile (fileId : Json (PyFloat F)) : Keeps ctx (readFile python reads ctx fileId) := by
  refine keeps_bind fun file => keeps_bind fun text => ?_
  dsimp only
  split
  · exact keeps_ok rfl
  · exact keeps_ok rfl

theorem keeps_getLastExecution (fileId : Json (PyFloat F)) :
    Keeps ctx (getLastExecution python reads ctx fileId) := by
  unfold getLastExecution
  dsimp only
  split
  · exact keeps_error
  · refine keeps_bind fun file => keeps_bind fun summary => ?_
    cases summary with
    | none => exact keeps_ok rfl
    | some summary => exact keeps_ok rfl

theorem keeps_checkSyntax (code language : Json (PyFloat F)) : Keeps ctx (checkSyntax python ctx code language) := by
  unfold checkSyntax
  split
  · split
    · exact keeps_ok rfl
    · split
      · exact keeps_bind fun err => keeps_ok rfl
      · exact keeps_error
  · exact keeps_error

/-- Only `propose_edit` records a proposal. -/
theorem keeps_call {tool : Tool} (h : tool ≠ .proposeEdit) (args : Arguments F) :
    Keeps ctx (tool.call python reads ctx args) := by
  unfold Tool.call
  dsimp only
  split
  · cases tool with
    | listFiles => exact keeps_bind fun files => keeps_ok rfl
    | readFile => exact keeps_readFile _
    | getLastExecution => exact keeps_getLastExecution _
    | checkSyntax => exact keeps_checkSyntax _ _
    | proposeEdit => exact absurd rfl h
  · exact keeps_error

/-- A mode without `propose_edit` records none. -/
theorem proposal_runTool {mode : String} (hmode : .proposeEdit ∉ modeTools mode) {name rawArgs output : Str} {ok : Bool}
    {ctx' : AgentContext F} (h : runTool python reads ctx mode name rawArgs = .ok (output, ok, ctx')) :
    ctx'.proposal = ctx.proposal := by
  unfold runTool at h
  split at h
  · cases h
    rfl
  · next tool htool =>
    have hother : tool ≠ .proposeEdit := fun heq => hmode (heq ▸ List.mem_of_find?_eq_some htool)
    split at h
    · cases h
      rfl
    · cases h
    · next args hargs =>
      split at h
      · next output ctx' hcall =>
        cases h
        exact keeps_call hother args _ _ hcall
      · cases h
        rfl
      · cases h
        rfl
      · cases h

theorem proposeEdit_not_mem {mode : String} (h : mode = "explain" ∨ mode = "review") :
    .proposeEdit ∉ modeTools mode := by
  rcases h with rfl | rfl
  · decide
  · decide

end Keeps

/-! ## Calls -/

section Calls

variable {F : Type}

/-- `_summarize` can look for `"file_id"` in the arguments of a call. Either they are no JSON, or an object, whose
`"file_id"` has a text, or a list or a string that has no `"file_id"` in it. -/
def Summarizable (python : Python F) (arguments : Str) : Prop :=
  match python.loads (argumentsText arguments) with
  | .error (.valueError _) => True
  | .error (.other _) => False
  | .ok (.obj fields) =>
    ∀ fileId, (Dict.ofItems fields).get? (ofString "file_id") = some fileId → ∃ text, python.format fileId = .ok text
  | .ok (.arr elems) => elems.any fileIdArgument.isFileId = false
  | .ok (.str s) => ¬ofString "file_id" <:+: s
  | .ok .null | .ok (.bool _) | .ok (.int _) | .ok (.float _) => False

theorem summarizable_iff {python : Python F} {arguments : Str} (name : Str) :
    Summarizable python arguments ↔ ∃ summary, summarize python name arguments = .ok summary := by
  unfold Summarizable summarize
  cases hloads : python.loads (argumentsText arguments) with
  | error e =>
    cases e with
    | valueError text => exact iff_of_true trivial ⟨_, rfl⟩
    | other e => exact iff_of_false id (by rintro ⟨_, ⟨⟩⟩)
  | ok args =>
    cases args with
    | null | bool | int | float => exact iff_of_false id (by rintro ⟨_, ⟨⟩⟩)
    | str s =>
      dsimp only [fileIdArgument]
      by_cases hin : ofString "file_id" <:+: s
      · rw [if_pos hin]
        exact iff_of_false (not_not_intro hin) (by rintro ⟨_, ⟨⟩⟩)
      · rw [if_neg hin]
        exact iff_of_true hin ⟨_, rfl⟩
    | arr elems =>
      dsimp only [fileIdArgument]
      cases elems.any fileIdArgument.isFileId with
      | false => exact iff_of_true rfl ⟨_, rfl⟩
      | true => exact iff_of_false Bool.noConfusion (by rintro ⟨_, ⟨⟩⟩)
    | obj fields =>
      dsimp only [fileIdArgument]
      cases hget : (Dict.ofItems fields).get? (ofString "file_id") with
      | none => exact iff_of_true (by rintro _ ⟨⟩) ⟨_, rfl⟩
      | some fileId =>
        constructor
        · intro h
          obtain ⟨text, htext⟩ := h fileId rfl
          refine ⟨name ++ ofString "(file " ++ text ++ ofString ")", ?_⟩
          change (python.format fileId).bind _ = _
          rw [htext]
          rfl
        · rintro ⟨summary, h⟩ _ ⟨⟩
          change (python.format fileId).bind _ = _ at h
          obtain ⟨text, htext, -⟩ := except_bind_ok h
          exact ⟨text, htext⟩

/-- The arguments that `run_tool` reads raise nothing that is not caught. -/
theorem loadArgs_of_summarizable {python : Python F} {arguments : Str} (h : Summarizable python arguments)
    (e : PyError) : loadArgs python arguments ≠ .error (.other e) := by
  unfold Summarizable argumentsText at h
  unfold loadArgs
  split
  · rintro ⟨⟩
  · next hsome =>
    rw [if_neg hsome] at h
    cases hloads : python.loads arguments with
    | error e' =>
      rw [hloads] at h
      cases e' with
      | valueError text => rintro ⟨⟩
      | other e' => exact h.elim
    | ok args => cases args <;> rintro ⟨⟩

/-- What `run_tool` raises is raised by a handler, or while the arguments are read. -/
theorem runTool_error {python : Python F} {reads : Reads} {ctx : AgentContext F} {mode : String} {name rawArgs : Str}
    {e : RunError} (h : runTool python reads ctx mode name rawArgs = .error e) :
    (∃ raised, e = .handler raised) ∨ ∃ raised, loadArgs python rawArgs = .error (.other raised) := by
  unfold runTool at h
  split at h
  · cases h
  · split at h
    · cases h
    · next raised hraised => exact .inr ⟨raised, hraised⟩
    · split at h
      · cases h
      · cases h
      · cases h
      · next raised _ =>
        cases h
        exact .inl ⟨raised, rfl⟩

variable (input : Input F)

/-- The step of a call. -/
def StepOf (step : Step) (call : ToolCall) : Prop :=
  step.tool = call.name ∧ summarize input.python call.name call.arguments = .ok step.summary ∧
    ∃ reads ctx output ctx',
      runTool input.python reads ctx input.mode call.name call.arguments = .ok (output, step.ok, ctx')

/-- What some calls add to a run. -/
structure Ran (st st' : Progress F) (calls : List ToolCall) : Prop where
  messages : ∃ answers, st'.messages = st.messages ++ answers ∧ List.Forall₂ Answers answers calls
  steps : ∃ steps, st'.steps = st.steps ++ steps ∧ List.Forall₂ (StepOf input) steps calls
  requests : st'.requests = st.requests
  promptTokens : st'.promptTokens = st.promptTokens
  completionTokens : st'.completionTokens = st.completionTokens
  proposal : .proposeEdit ∉ modeTools input.mode → st'.ctx.proposal = st.ctx.proposal

section Report

variable (st : Progress F) (onStep : Option (Step → Except PyError Unit)) (step : Step)

/-- A report changes only what is reported and logged. -/
theorem report_eq : ∃ reported logged, st.report onStep step = { st with reported, logged } := by
  unfold Progress.report
  cases onStep with
  | none => exact ⟨_, _, rfl⟩
  | some onStep =>
    dsimp only
    split
    · exact ⟨_, _, rfl⟩
    · exact ⟨_, _, rfl⟩

end Report

variable {input} {st st' st'' : Progress F} {call : ToolCall} {calls calls' : List ToolCall}

theorem Ran.refl (st : Progress F) : Ran input st st [] :=
  ⟨⟨[], (List.append_nil _).symm, .nil⟩, ⟨[], (List.append_nil _).symm, .nil⟩, rfl, rfl, rfl, fun _ => rfl⟩

theorem Ran.trans (h : Ran input st st' calls) (h' : Ran input st' st'' calls') :
    Ran input st st'' (calls ++ calls') := by
  obtain ⟨answers, hmessages, hanswers⟩ := h.messages
  obtain ⟨answers', hmessages', hanswers'⟩ := h'.messages
  obtain ⟨steps, hsteps, hof⟩ := h.steps
  obtain ⟨steps', hsteps', hof'⟩ := h'.steps
  exact
    { messages := ⟨answers ++ answers', by rw [hmessages', hmessages, List.append_assoc],
        List.rel_append hanswers hanswers'⟩
      steps := ⟨steps ++ steps', by rw [hsteps', hsteps, List.append_assoc], List.rel_append hof hof'⟩
      requests := h'.requests.trans h.requests
      promptTokens := h'.promptTokens.trans h.promptTokens
      completionTokens := h'.completionTokens.trans h.completionTokens
      proposal := fun hmode => (h'.proposal hmode).trans (h.proposal hmode) }

theorem record_ran {reads : Reads} {ctx : AgentContext F} {output summary : Str} {ok : Bool}
    (hsummarize : summarize input.python call.name call.arguments = .ok summary)
    (hrun : runTool input.python reads st.ctx input.mode call.name call.arguments = .ok (output, ok, ctx)) :
    Ran input st (st.record input.onStep call ctx { tool := call.name, summary, ok } output) [call] := by
  unfold Progress.record Progress.append
  obtain ⟨reported, logged, hreport⟩ := report_eq
    ({ st with ctx, steps := st.steps ++ [{ tool := call.name, summary, ok }] } : Progress F) input.onStep
    { tool := call.name, summary, ok }
  rw [hreport]
  exact
    { messages := ⟨[.tool call.id call.name output], rfl, .cons rfl .nil⟩
      steps := ⟨[{ tool := call.name, summary, ok }], rfl,
        .cons ⟨rfl, hsummarize, reads, st.ctx, output, ctx, hrun⟩ .nil⟩
      requests := rfl
      promptTokens := rfl
      completionTokens := rfl
      proposal := fun hmode => proposal_runTool hmode hrun }

theorem runCall_ran (h : runCall input st call = .ok st') :
    Ran input st st' [call] ∧ Summarizable input.python call.arguments := by
  obtain ⟨⟨output, ok, ctx⟩, hrun, h⟩ := except_bind_ok h
  obtain ⟨summary, hsummary, h⟩ := except_bind_ok h
  have hsummarize : summarize input.python call.name call.arguments = .ok summary := by
    cases hresult : summarize input.python call.name call.arguments with
    | error e =>
      rw [hresult] at hsummary
      cases hsummary
    | ok summary' =>
      rw [hresult] at hsummary
      cases hsummary
      rfl
  cases h
  exact ⟨record_ran hsummarize hrun, (summarizable_iff call.name).2 ⟨summary, hsummarize⟩⟩

/-- A call raises nothing but what its handler raises, if its arguments can be summarized. -/
theorem runCall_ok (hcall : Summarizable input.python call.arguments)
    (hhandler : ∀ e, runCall input st call ≠ .error (.handler e)) : ∃ st', runCall input st call = .ok st' := by
  obtain ⟨summary, hsummary⟩ := (summarizable_iff call.name).1 hcall
  unfold runCall at hhandler ⊢
  cases hrun : runTool input.python (input.callReads st.steps.length) st.ctx input.mode call.name call.arguments with
  | error e =>
    rw [hrun] at hhandler
    rcases runTool_error hrun with ⟨raised, rfl⟩ | ⟨raised, hraised⟩
    · exact absurd rfl (hhandler raised)
    · exact absurd hraised (loadArgs_of_summarizable hcall raised)
  | ok result =>
    obtain ⟨output, ok, ctx⟩ := result
    rw [hsummary]
    exact ⟨_, rfl⟩

/-- The calls of one reply, if they all have a step. -/
theorem foldlM_ran (h : calls.foldlM (runCall input) st = .ok st') :
    Ran input st st' calls ∧ ∀ call ∈ calls, Summarizable input.python call.arguments := by
  induction calls generalizing st with
  | nil =>
    cases h
    exact ⟨Ran.refl _, by rintro call ⟨⟩⟩
  | cons call calls ih =>
    obtain ⟨middle, hcall, h⟩ := except_bind_ok h
    obtain ⟨hran, hsummarizable⟩ := runCall_ran hcall
    obtain ⟨hrest, hall⟩ := ih h
    exact ⟨hran.trans hrest, List.forall_mem_cons.2 ⟨hsummarizable, hall⟩⟩

theorem foldlM_ok (hall : ∀ call ∈ calls, Summarizable input.python call.arguments)
    (hhandler : ∀ e, calls.foldlM (runCall input) st ≠ .error (.handler e)) :
    ∃ st', calls.foldlM (runCall input) st = .ok st' := by
  induction calls generalizing st with
  | nil => exact ⟨st, rfl⟩
  | cons call calls ih =>
    obtain ⟨hcall, hrest⟩ := List.forall_mem_cons.1 hall
    have hfirst : ∀ e, runCall input st call ≠ .error (.handler e) := by
      intro e he
      refine hhandler e ?_
      rw [List.foldlM_cons, he]
      rfl
    obtain ⟨middle, hmiddle⟩ := runCall_ok hcall hfirst
    have hfold : (call :: calls).foldlM (runCall input) st = calls.foldlM (runCall input) middle := by
      rw [List.foldlM_cons, hmiddle]
      rfl
    rw [hfold] at hhandler ⊢
    exact ih hrest hhandler

end Calls

/-! ## Runs -/

/-- The replies to the next requests, at most `n` of them, after `k` requests: those that ask for tools, and the
first one that does not. -/
def received (replies : Nat → ChatResult) : Nat → Nat → List ChatResult
  | 0, _ => []
  | n + 1, k => replies k :: if (replies k).toolCalls = [] then [] else received replies n (k + 1)

theorem length_received_le (replies : Nat → ChatResult) (n k : Nat) : (received replies n k).length ≤ n := by
  induction n generalizing k with
  | zero => exact le_rfl
  | succ n ih =>
    unfold received
    split
    · exact Nat.succ_le_succ (Nat.zero_le n)
    · exact Nat.succ_le_succ (ih (k + 1))

section Runs

variable {F : Type}

/-- The state before the tool calls of a reply. -/
def Progress.begin (st : Progress F) (tools : List (Json (PyFloat F))) (reply : ChatResult) : Progress F :=
  (st.ask tools reply).append (.assistant reply.content reply.toolCalls)

/-- The next reply. -/
def Input.reply (input : Input F) (st : Progress F) : ChatResult := input.replies st.requests.length

/-- What holds of a run that began with `ctx` and has had these replies. -/
structure Inv (input : Input F) (ctx : AgentContext F) (st : Progress F) (replies : List ChatResult) : Prop where
  count : st.requests.length = replies.length
  rounds : Rounds st.messages
  requests : ∀ request ∈ st.requests, Rounds request.messages
  steps : List.Forall₂ (StepOf input) st.steps (replies.flatMap ChatResult.toolCalls)
  promptTokens : st.promptTokens = (replies.map ChatResult.promptTokens).sum
  completionTokens : st.completionTokens = (replies.map ChatResult.completionTokens).sum
  proposal : .proposeEdit ∉ modeTools input.mode → st.ctx.proposal = ctx.proposal

variable {input : Input F} {ctx : AgentContext F} {st st' : Progress F} {replies : List ChatResult}
  {reply : ChatResult} {tools : List (Json (PyFloat F))} {n : Nat} {ended : Option Str}

theorem sum_concat (f : ChatResult → Int) (replies : List ChatResult) (reply : ChatResult) :
    ((replies ++ [reply]).map f).sum = (replies.map f).sum + f reply := by
  rw [List.map_append, List.sum_append, List.map_singleton, List.sum_singleton]

theorem requests_ask (h : Inv input ctx st replies) :
    ∀ request ∈ (st.ask tools reply).requests, Rounds request.messages := by
  intro request hrequest
  rcases List.mem_append.1 hrequest with hrequest | hrequest
  · exact h.requests request hrequest
  · rw [List.mem_singleton.1 hrequest]
    exact h.rounds

/-- The run after a reply that asks for no tool. -/
theorem Inv.answer (h : Inv input ctx st replies) (hreply : reply.toolCalls = []) :
    Inv input ctx (st.ask tools reply) (replies ++ [reply]) where
  count := by rw [List.length_append, ← h.count]; exact List.length_append
  rounds := h.rounds
  requests := requests_ask h
  steps := by
    rw [List.flatMap_append, List.flatMap_singleton, hreply, List.append_nil]
    exact h.steps
  promptTokens := by rw [sum_concat, ← h.promptTokens]; rfl
  completionTokens := by rw [sum_concat, ← h.completionTokens]; rfl
  proposal := h.proposal

/-- The run after a round of tool calls. -/
theorem Inv.round (h : Inv input ctx st replies) (hran : Ran input (st.begin tools reply) st' reply.toolCalls) :
    Inv input ctx st' (replies ++ [reply]) := by
  obtain ⟨answers, hmessages, hanswers⟩ := hran.messages
  obtain ⟨steps, hsteps, hof⟩ := hran.steps
  exact
    { count := by rw [hran.requests, List.length_append, ← h.count]; exact List.length_append
      rounds := by
        rw [hmessages]
        exact List.append_assoc st.messages _ answers ▸ h.rounds.append_round reply.content hanswers
      requests := by
        rw [hran.requests]
        change ∀ request ∈ (st.ask tools reply).requests, Rounds request.messages
        exact requests_ask h
      steps := by
        rw [hsteps, List.flatMap_append, List.flatMap_singleton]
        exact List.rel_append h.steps hof
      promptTokens := by rw [hran.promptTokens, sum_concat, ← h.promptTokens]; rfl
      completionTokens := by rw [hran.completionTokens, sum_concat, ← h.completionTokens]; rfl
      proposal := fun hmode => (hran.proposal hmode).trans (h.proposal hmode) }

/-- The loop at a reply that asks for no tool. -/
theorem chatLoop_answer (hreply : (input.reply st).toolCalls = []) :
    chatLoop input (n + 1) st = (st.ask (toolSpecs input.mode) (input.reply st), .ok (some (input.reply st).content)) := by
  rw [chatLoop]
  exact if_pos hreply

/-- The loop at a reply whose tool calls all have a step. -/
theorem chatLoop_round (hreply : (input.reply st).toolCalls ≠ [])
    (hcalls : (input.reply st).toolCalls.foldlM (runCall input) (st.begin (toolSpecs input.mode) (input.reply st)) =
      .ok st') :
    chatLoop input (n + 1) st = chatLoop input n st' := by
  unfold Progress.begin Input.reply at hcalls
  rw [chatLoop, if_neg (show ¬(input.replies st.requests.length).toolCalls = [] from hreply), hcalls]

/-- The loop at a reply with a tool call that raises. -/
theorem chatLoop_error {e : RunError} (hreply : (input.reply st).toolCalls ≠ [])
    (hcalls : (input.reply st).toolCalls.foldlM (runCall input) (st.begin (toolSpecs input.mode) (input.reply st)) =
      .error e) :
    (chatLoop input (n + 1) st).2 = .error e := by
  unfold Progress.begin Input.reply at hcalls
  rw [chatLoop, if_neg (show ¬(input.replies st.requests.length).toolCalls = [] from hreply), hcalls]

/-- A run that returns has had all its replies, and no reply with arguments that cannot be summarized. -/
theorem chatLoop_inv (h : Inv input ctx st replies) (hloop : chatLoop input n st = (st', .ok ended)) :
    Inv input ctx st' (replies ++ received input.replies n replies.length) ∧
      (ended = none ↔ ∀ j < n, (input.replies (replies.length + j)).toolCalls ≠ []) ∧
      ∀ reply ∈ received input.replies n replies.length, ∀ call ∈ reply.toolCalls,
        Summarizable input.python call.arguments := by
  induction n generalizing st replies with
  | zero =>
    cases hloop
    refine ⟨?_, iff_of_true rfl (by rintro j ⟨⟩), by rintro reply ⟨⟩⟩
    rw [received, List.append_nil]
    exact h
  | succ n ih =>
    have hnext : input.replies replies.length = input.reply st := by rw [Input.reply, h.count]
    rw [received, hnext]
    by_cases hreply : (input.reply st).toolCalls = []
    · rw [chatLoop_answer hreply] at hloop
      cases hloop
      rw [if_pos hreply]
      refine ⟨h.answer hreply, iff_of_false (Option.some_ne_none _) fun hall => hall 0 (Nat.succ_pos n) ?_, ?_⟩
      · rw [Nat.add_zero, hnext, hreply]
      · intro reply hmem call hcall
        rw [List.mem_singleton.1 hmem, hreply] at hcall
        cases hcall
    · cases hcalls : (input.reply st).toolCalls.foldlM (runCall input)
        (st.begin (toolSpecs input.mode) (input.reply st)) with
      | error e =>
        have herror := chatLoop_error (n := n) hreply hcalls
        rw [hloop] at herror
        cases herror
      | ok middle =>
        rw [chatLoop_round hreply hcalls] at hloop
        obtain ⟨hran, hsummarizable⟩ := foldlM_ran hcalls
        obtain ⟨hinv, hended, hall⟩ := ih (h.round hran) hloop
        rw [List.length_append, List.length_singleton] at hinv hended hall
        rw [if_neg hreply, List.append_cons]
        refine ⟨hinv, hended.trans ?_, List.forall_mem_cons.2 ⟨hsummarizable, hall⟩⟩
        have hfirst : (input.replies (replies.length + 0)).toolCalls ≠ [] := by
          rw [Nat.add_zero, hnext]
          exact hreply
        have hshift : ∀ j, replies.length + 1 + j = replies.length + (j + 1) := fun j => by omega
        rw [Nat.forall_lt_succ_left, and_iff_right hfirst]
        simp only [hshift]

/-- A run in which no handler raises returns, if all arguments can be summarized. -/
theorem chatLoop_ok (hall : ∀ reply ∈ received input.replies n st.requests.length, ∀ call ∈ reply.toolCalls,
      Summarizable input.python call.arguments)
    (hhandler : ∀ e, (chatLoop input n st).2 ≠ .error (.handler e)) :
    ∃ st' ended, chatLoop input n st = (st', .ok ended) := by
  induction n generalizing st with
  | zero => exact ⟨st, none, rfl⟩
  | succ n ih =>
    rw [received] at hall
    obtain ⟨hfirst, hrest⟩ := List.forall_mem_cons.1 hall
    by_cases hreply : (input.reply st).toolCalls = []
    · exact ⟨_, _, chatLoop_answer hreply⟩
    · obtain ⟨middle, hcalls⟩ := foldlM_ok hfirst fun e he => hhandler e (chatLoop_error hreply he)
      have hcount : middle.requests.length = st.requests.length + 1 := by
        rw [(foldlM_ran hcalls).1.requests]
        exact List.length_append
      rw [chatLoop_round hreply hcalls] at hhandler ⊢
      rw [if_neg (show ¬(input.replies st.requests.length).toolCalls = [] from hreply), ← hcount] at hrest
      exact ih hrest hhandler

end Runs

/-! ## The agent -/

section Agent

variable {F : Type} (input : Input F)

/-- The replies that the model gives in a run. -/
def Input.received (input : Input F) : List ChatResult := Agent.received input.replies input.maxSteps.toNat 0

/-- A result about all that the model has asked for. -/
structure IsResult (result : AgentResult F) : Prop where
  steps : List.Forall₂ (StepOf input) result.steps (input.received.flatMap ChatResult.toolCalls)
  promptTokens : result.promptTokens = (input.received.map ChatResult.promptTokens).sum
  completionTokens : result.completionTokens = (input.received.map ChatResult.completionTokens).sum
  truncated_iff : result.truncated = true ↔ ∀ k < input.maxSteps.toNat, (input.replies k).toolCalls ≠ []
  proposal : input.mode = "explain" ∨ input.mode = "review" → input.ctx.proposal = none → result.proposal = none

/-- A conversation that is well formed and bounded, with its result. -/
structure IsConversation (run : List (Request F) × Except RunError (AgentResult F)) : Prop where
  calls : run.1.length ≤ input.maxSteps.toNat
  wellFormed : ∀ request ∈ run.1, WellFormed request.messages
  returns : ∃ result, run.2 = .ok result ∧ IsResult input result

variable {input} {content : Str} {ctx : AgentContext F}

theorem rounds_firstMessages (content : Str) : Rounds (firstMessages input content) := by
  have huser : Rounds [.user content] := .user content .nil
  refine Rounds.system _ ?_
  induction input.history with
  | nil => exact huser
  | cons turn history ih => exact .turn turn.role turn.text ih

/-- The first message records no proposal. -/
theorem userMessage_proposal {python : Python F} {reads : Reads} {ctx ctx' : AgentContext F} {prompt content : Str}
    {mode : String} {selection : Option Selection}
    (h : userMessage python reads ctx prompt mode selection = .ok (content, ctx')) : ctx'.proposal = ctx.proposal := by
  unfold userMessage at h
  obtain ⟨file, -, h⟩ := except_bind_ok h
  cases file with
  | none =>
    cases h
    rfl
  | some file =>
    obtain ⟨text, -, h⟩ := except_bind_ok h
    dsimp only at h
    split at h
    · obtain ⟨last, -, h⟩ := except_bind_ok h
      cases last with
      | none =>
        cases h
        rfl
      | some last =>
        cases h
        rfl
    · cases h
      rfl

/-- The state before the first request. -/
def Input.start (input : Input F) (content : Str) (ctx : AgentContext F) : Progress F :=
  { ctx, messages := firstMessages input content }

theorem inv_start (h : ctx.proposal = input.ctx.proposal) : Inv input input.ctx (input.start content ctx) [] where
  count := rfl
  rounds := rounds_firstMessages content
  requests := by rintro request ⟨⟩
  steps := .nil
  promptTokens := rfl
  completionTokens := rfl
  proposal := fun _ => h

/-- The result of a loop that has ended. -/
def Progress.result (st : Progress F) (ended : Option Str) : AgentResult F :=
  { answer := ended.getD truncatedAnswer
    steps := st.steps
    proposal := st.ctx.proposal
    promptTokens := st.promptTokens
    completionTokens := st.completionTokens
    truncated := ended.isNone }

theorem runAgent_of (h : userMessage input.python input.reads input.ctx input.prompt input.mode input.selection =
      .ok (content, ctx)) {st : Progress F} {outcome : Except RunError (Option Str)}
    (hloop : chatLoop input input.maxSteps.toNat (input.start content ctx) = (st, outcome)) :
    runAgent input = (st.requests, outcome.map st.result) := by
  unfold Input.start at hloop
  unfold runAgent
  rw [h]
  dsimp only
  rw [hloop]
  rfl

theorem runAgent_error {e : PyError}
    (h : userMessage input.python input.reads input.ctx input.prompt input.mode input.selection = .error e) :
    runAgent input = ([], .error (.userMessage e)) := by
  unfold runAgent
  rw [h]

/-- The conversation of a loop that has ended. -/
theorem isConversation_of_inv {st : Progress F} {ended : Option Str}
    (hinv : Inv input input.ctx st input.received)
    (hended : ended = none ↔ ∀ k < input.maxSteps.toNat, (input.replies k).toolCalls ≠ []) :
    IsConversation input (st.requests, .ok (st.result ended)) where
  calls := by
    rw [hinv.count]
    exact length_received_le _ _ _
  wellFormed := fun request hrequest => (hinv.requests request hrequest).wellFormed
  returns := ⟨st.result ended, rfl,
    { steps := hinv.steps
      promptTokens := hinv.promptTokens
      completionTokens := hinv.completionTokens
      truncated_iff := Option.isNone_iff_eq_none.trans hended
      proposal := fun hmode hnone => (hinv.proposal (proposeEdit_not_mem hmode)).trans hnone }⟩

/-- **The agent's conversation is well formed and bounded**, if no tool handler raises, exactly where the first
message can be put together and the arguments of all tool calls can be summarized. -/
theorem conversation_well_formed (input : Input F) (hhandler : ∀ e, (runAgent input).2 ≠ .error (.handler e)) :
    IsConversation input (runAgent input) ↔
      (∃ first, userMessage input.python input.reads input.ctx input.prompt input.mode input.selection = .ok first) ∧
        ∀ reply ∈ input.received, ∀ call ∈ reply.toolCalls, Summarizable input.python call.arguments := by
  cases huser : userMessage input.python input.reads input.ctx input.prompt input.mode input.selection with
  | error e =>
    rw [runAgent_error huser]
    refine iff_of_false (fun h => ?_) (by rintro ⟨⟨first, ⟨⟩⟩, -⟩)
    obtain ⟨result, ⟨⟩, -⟩ := h.returns
  | ok first =>
    obtain ⟨content, ctx⟩ := first
    have hstart : Inv input input.ctx (input.start content ctx) [] := inv_start (userMessage_proposal huser)
    constructor
    · intro h
      refine ⟨⟨_, rfl⟩, ?_⟩
      obtain ⟨result, hresult, -⟩ := h.returns
      cases hloop : chatLoop input input.maxSteps.toNat (input.start content ctx) with
      | mk st outcome =>
        rw [runAgent_of huser hloop] at hresult
        cases outcome with
        | error e => cases hresult
        | ok ended => exact (chatLoop_inv hstart hloop).2.2
    · rintro ⟨-, hall⟩
      have hloop : ∀ e, (chatLoop input input.maxSteps.toNat (input.start content ctx)).2 ≠ .error (.handler e) := by
        intro e he
        refine hhandler e ?_
        rw [runAgent_of huser (Prod.mk.eta).symm]
        dsimp only
        rw [he]
        rfl
      obtain ⟨st, ended, hst⟩ : ∃ st ended,
          chatLoop input input.maxSteps.toNat (input.start content ctx) = (st, .ok ended) := chatLoop_ok hall hloop
      obtain ⟨hinv, hended, -⟩ := chatLoop_inv hstart hst
      rw [runAgent_of huser hst]
      simp only [List.length_nil, Nat.zero_add] at hended
      exact isConversation_of_inv hinv hended

end Agent

/-- A run in which the model first calls a tool with these arguments, and then answers. -/
def oneCall (arguments : Str) : Input Empty where
  python := plainPython
  ctx := { projectId := 1, activeFileId := none, maxFileChars := 100 }
  prompt := ofString "hello"
  mode := "explain"
  history := []
  maxSteps := 2
  onStep := none
  selection := none
  replies k :=
    if k = 0 then ⟨[], [⟨ofString "c1", ofString "get_last_execution", arguments⟩], 3, 1⟩
    else ⟨ofString "done", [], 2, 1⟩
  reads := oneFile []
  callReads _ := oneFile []

/-- A run with one tool call, without arguments. -/
theorem conversation_well_formed_oneCall : IsConversation (oneCall []) (runAgent (oneCall [])) := by
  have hrun : ∃ result, (runAgent (oneCall [])).2 = .ok result := ⟨_, rfl⟩
  obtain ⟨result, hresult⟩ := hrun
  have hhandler : ∀ e, (runAgent (oneCall [])).2 ≠ .error (.handler e) := by
    intro e he
    rw [hresult] at he
    cases he
  have hcalls : (oneCall []).received.flatMap ChatResult.toolCalls =
      [⟨ofString "c1", ofString "get_last_execution", []⟩] := rfl
  refine (conversation_well_formed (oneCall []) hhandler).2 ⟨⟨_, rfl⟩, fun reply hreply call hcall => ?_⟩
  have hmem := List.mem_flatMap.2 ⟨reply, hreply, hcall⟩
  rw [hcalls, List.mem_singleton] at hmem
  rw [hmem]
  exact (summarizable_iff []).2 ⟨_, rfl⟩

/-- A tool call whose arguments are the number 5. The handler is not even called, and the run has no result. -/
theorem number_ends_conversation :
    (∀ e, (runAgent (oneCall (ofString "5"))).2 ≠ .error (.handler e)) ∧
      ¬IsConversation (oneCall (ofString "5")) (runAgent (oneCall (ofString "5"))) := by
  have herror : (runAgent (oneCall (ofString "5"))).2 = .error (.summarize .other) := rfl
  rw [herror]
  constructor
  · rintro e ⟨⟩
  · intro h
    obtain ⟨result, hresult, -⟩ := h.returns
    rw [herror] at hresult
    cases hresult

end Concord.Agent
