import Concord.Agent.Prompts

/-!
# The agent loop

`run_agent` of `agent/runner.py`: it asks the model, runs the tools that the model calls and asks again, as often as
its budget allows. `runAgent` has the requests to the provider beside its result, so that they are there also when it
raises.
-/

namespace Concord.Agent

open Concord.Base
open Str (ofString)

/-- `TRUNCATED_ANSWER`. -/
def truncatedAnswer : Str :=
  ofString ("I ran out of steps before finishing. Try a narrower question, " ++ "or ask me to continue.")

/-- `ToolCall`. -/
structure ToolCall where
  id : Str
  name : Str
  arguments : Str

/-- `ChatResult`, with what the loop reads of it. -/
structure ChatResult where
  content : Str
  toolCalls : List ToolCall
  promptTokens : Int
  completionTokens : Int

/-- A message of a conversation. -/
inductive Message
  | system (content : Str)
  /-- A turn of the history. -/
  | turn (role content : Str)
  | user (content : Str)
  | assistant (content : Str) (toolCalls : List ToolCall)
  | tool (toolCallId name content : Str)

/-- What `provider.chat` is given. -/
structure Request (F : Type) where
  messages : List Message
  tools : List (Json (PyFloat F))

structure Step where
  tool : Str
  summary : Str
  ok : Bool

/-- `AgentResult`, without the time. -/
structure AgentResult (F : Type) where
  answer : Str
  steps : List Step
  proposal : Option (Proposal F)
  promptTokens : Int
  completionTokens : Int
  truncated : Bool

/-! ## Summaries -/

section Summarize

variable {F : Type} (python : Python F)

/-- `args["file_id"]`, if `"file_id" in args`. Only a dictionary has both; a list or a string that has the text in it
cannot be asked for it, and any other value not even whether it has it, which are `TypeError`s. -/
def fileIdArgument : Json (PyFloat F) → Except PyError (Option (Json (PyFloat F)))
  | .obj fields => .ok ((Dict.ofItems fields).get? (ofString "file_id"))
  | .arr elems => if elems.any isFileId then .error .other else .ok none
  | .str s => if ofString "file_id" <:+: s then .error .other else .ok none
  | .null | .bool _ | .int _ | .float _ => .error .other
where
  isFileId : Json (PyFloat F) → Bool
    | .str s => s = ofString "file_id"
    | _ => false

/-- The arguments that `_summarize` reads. -/
def argumentsText (arguments : Str) : Str := if arguments = [] then ofString "\x7b\x7d" else arguments

/-- `_summarize`. -/
def summarize (name arguments : Str) : Except PyError Str :=
  match python.loads (argumentsText arguments) with
  | .error (.valueError _) => .ok (name ++ ofString "()")
  | .error (.other e) => .error e
  | .ok args => do
    match ← fileIdArgument args with
    | some fileId => return name ++ ofString "(file " ++ (← python.format fileId) ++ ofString ")"
    | none => return name ++ ofString "()"

end Summarize

/-! ## The loop -/

/-- A turn of the history. -/
structure Turn where
  role : Str
  text : Str

/-- What a run is given, with the answers of the provider and of the database. -/
structure Input (F : Type) where
  python : Python F
  ctx : AgentContext F
  prompt : Str
  mode : String
  history : List Turn
  maxSteps : Int
  /-- `on_step`, with what it raises. -/
  onStep : Option (Step → Except PyError Unit)
  selection : Option Selection
  /-- The reply to each request. -/
  replies : Nat → ChatResult
  /-- What the database answers before the first request. -/
  reads : Reads
  /-- What it answers during each tool call. -/
  callReads : Nat → Reads

/-- How far a run has come. -/
structure Progress (F : Type) where
  ctx : AgentContext F
  messages : List Message
  requests : List (Request F) := []
  steps : List Step := []
  promptTokens : Int := 0
  completionTokens : Int := 0
  /-- The steps that `on_step` was called with, and what it raised. -/
  reported : List Step := []
  logged : List PyError := []

namespace Progress

variable {F : Type} (st : Progress F)

/-- One request, and the reply to it. -/
def ask (tools : List (Json (PyFloat F))) (reply : ChatResult) : Progress F :=
  { st with
    requests := st.requests ++ [{ messages := st.messages, tools }]
    promptTokens := st.promptTokens + reply.promptTokens
    completionTokens := st.completionTokens + reply.completionTokens }

def append (message : Message) : Progress F := { st with messages := st.messages ++ [message] }

/-- `on_step`, whose exceptions are only logged. -/
def report (onStep : Option (Step → Except PyError Unit)) (step : Step) : Progress F :=
  match onStep with
  | none => st
  | some onStep =>
    let st := { st with reported := st.reported ++ [step] }
    match onStep step with
    | .ok () => st
    | .error e => { st with logged := st.logged ++ [e] }

/-- The step of a tool call, and its answer to the model. -/
def record (onStep : Option (Step → Except PyError Unit)) (tc : ToolCall) (ctx : AgentContext F) (step : Step)
    (output : Str) : Progress F :=
  let st := ({ st with ctx, steps := st.steps ++ [step] } : Progress F).report onStep step
  st.append (.tool tc.id tc.name output)

end Progress

section Run

variable {F : Type} (input : Input F)

/-- One tool call. -/
def runCall (st : Progress F) (tc : ToolCall) : Except RunError (Progress F) := do
  let (output, ok, ctx) ←
    runTool input.python (input.callReads st.steps.length) st.ctx input.mode tc.name tc.arguments
  let summary ← (summarize input.python tc.name tc.arguments).mapError .summarize
  return st.record input.onStep tc ctx { tool := tc.name, summary, ok } output

/-- The loop of `run_agent`, with the number of requests left. It ends with an answer, or without one. -/
def chatLoop : Nat → Progress F → Progress F × Except RunError (Option Str)
  | 0, st => (st, .ok none)
  | n + 1, st =>
    let reply := input.replies st.requests.length
    let st := st.ask (toolSpecs input.mode) reply
    if reply.toolCalls = [] then (st, .ok (some reply.content))
    else
      match reply.toolCalls.foldlM (runCall input) (st.append (.assistant reply.content reply.toolCalls)) with
      | .error e => (st, .error e)
      | .ok st => chatLoop n st

/-- The messages of the first request. -/
def firstMessages (content : Str) : List Message :=
  .system (systemPrompt input.mode) :: input.history.map (fun turn => .turn turn.role turn.text) ++ [.user content]

/-- `run_agent`. -/
def runAgent : List (Request F) × Except RunError (AgentResult F) :=
  match userMessage input.python input.reads input.ctx input.prompt input.mode input.selection with
  | .error e => ([], .error (.userMessage e))
  | .ok (content, ctx) =>
    let (st, outcome) := chatLoop input input.maxSteps.toNat { ctx, messages := firstMessages input content }
    (st.requests, outcome.map fun answer =>
      { answer := answer.getD truncatedAnswer
        steps := st.steps
        proposal := st.ctx.proposal
        promptTokens := st.promptTokens
        completionTokens := st.completionTokens
        truncated := answer.isNone })

end Run

end Concord.Agent
