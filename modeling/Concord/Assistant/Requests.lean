import Concord.Agent.Runner
import Concord.Base.Counters
import Concord.Base.Journal
import Concord.Base.Utf8

/-!
# Requests to the assistant

`api/assistant.py: request_assistant`, with `check_rate_limit` of `llm/manager.py`, `resolve_provider` and
`log_request` of `llm/service.py` and `run_agent`. A request reads the database and asks the provider while others do
the same; it adds a row to the log, and tells the project's sockets when it starts, what tools it has run and when it
has finished. What the tables and the provider answer is up to the environment, as is the failure of any operation,
before or after its effect, and the cancellation of the request.
-/

namespace Concord.Assistant

open Concord.Base Async Agent
open Str (ofString)

/-- What is raised. -/
inductive Raised
  /-- `HTTPException`. -/
  | http (status : Nat) (detail : Str) (headers : List (String × String))
  /-- Another exception, with its text. -/
  | exception (text : Str)
  /-- `CancelledError`, which is no `Exception`. -/
  | cancelled

/-- `except Exception`. -/
def Raised.isException : Raised → Bool
  | cancelled => false
  | _ => true

/-- `str(e)`. -/
def Raised.str : Raised → Str
  | http status detail _ => decimal status ++ ofString ": " ++ detail
  | exception text => text
  | cancelled => []

def Raised.ofPyError : PyError → Raised
  | .http status detail => .http status (ofString detail) []
  | e => .exception (ofString e.message)

/-- `AIProvider`. -/
inductive AIProvider
  | mistral | huggingface
deriving DecidableEq

/-- `AIAssistantConfig`, with what is read of it. -/
structure AIAssistantConfig where
  provider : AIProvider
  encryptedApiKey : Str
  modelName : Option Str
  isActive : Bool

inductive Source
  | project | server
deriving DecidableEq

/-- `ResolvedProvider`. -/
structure ResolvedProvider where
  apiKey : Str
  kind : AIProvider
  model : Str
  source : Source

structure User where
  id : UserId
  username : Str

/-- `AIAssistantRequestCreate`. -/
structure AIAssistantRequestCreate where
  prompt : Str
  mode : String := "ask"
  fileId : Option Int := none
  history : List Turn := []
  contextCode : Option Str := none
  selection : Option Selection := none
  requestId : Option Str := none

/-- `AIAssistantRequest`, a row of the log. -/
structure AIAssistantRequest where
  projectId : ProjectId
  userId : UserId
  fileId : Option Int
  mode : String
  prompt : Str
  response : Str
  provider : AIProvider
  modelUsed : Str
  promptTokens : Option Int
  completionTokens : Option Int
  totalTokens : Option Int
  latencyMs : Nat
  isSuccessful : Bool
  errorMessage : Option Str

/-- `AIDiffProposal`. -/
structure AIDiffProposal where
  fileId : FileId
  originalText : Str
  proposedText : Str
  explanation : Option Str
  syntaxOk : Bool

/-- `AIAssistantResponse`. -/
structure AIAssistantResponse where
  response : Str
  provider : AIProvider
  modelUsed : Str
  promptTokens : Int
  completionTokens : Int
  totalTokens : Int
  latencyMs : Nat
  proposal : Option AIDiffProposal
  steps : List Step
  truncated : Bool

/-- An event of the project's socket. -/
inductive Event
  | started (requestId : Str) (userId : UserId) (username : Str) (mode : String) (fileId : Option Int)
  | step (requestId : Str) (userId : UserId) (step : Step)
  | finished (requestId : Str) (userId : UserId) (ok hasProposal : Bool) (fileId : Option Int)

/-- The settings that a request reads. -/
structure AssistantSettings where
  enabled : Bool := true
  rateLimitEnabled : Bool := true
  rateLimitRequests : Int := 10
  /-- In seconds. -/
  rateLimitWindow : Int := 60
  mistralApiKey : Option Str := none
  mistralModel : Str := ofString "codestral-latest"
  maxSteps : Int := 6
  maxFileChars : Nat := 20000
  historyTurns : Int := 6

/-- What a request uses of libraries. -/
structure Library (F : Type) where
  python : Python F
  /-- The text of what a run lets through. -/
  runError : RunError → Str
  /-- The text of a `ValidationError`. -/
  validationError : Str
  /-- `_decrypt_api_key`. -/
  decrypt : Str → Option Str

structure State where
  /-- In milliseconds. -/
  now : Nat := 0
  quota : Counters ProjectId := fun _ => none
  requests : List AIAssistantRequest := []
  broadcasts : List (ProjectId × Event) := []

inductive Op (F : Type)
  | getMember (project : ProjectId) (user : UserId)
  /-- The script of `check_rate_limit`. -/
  | countRequest (project : ProjectId) (window : Int)
  | getFile (file : Int)
  | projectConfig (project : ProjectId)
  /-- `uuid4().hex`. -/
  | newRequestId
  | broadcast (project : ProjectId) (event : Event)
  | userMessage (ctx : AgentContext F) (prompt : Str) (mode : String) (selection : Option Selection)
  | chat (provider : ResolvedProvider) (request : Request F)
  | runTool (ctx : AgentContext F) (mode : String) (name arguments : Str)
  | getFileText (project : ProjectId) (file : FileId)
  | monotonic
  | insertRequest (row : AIAssistantRequest)

/-- What an operation returns when it succeeds. -/
@[reducible] def Op.Val {F : Type} : Op F → Type
  | countRequest _ _ => Nat × Int
  | getFile _ => Option File
  | projectConfig _ => Option AIAssistantConfig
  | newRequestId | getFileText _ _ => Str
  | userMessage _ _ _ _ => Str × AgentContext F
  | chat _ _ => ChatResult
  | runTool _ _ _ _ => Str × Bool × AgentContext F
  | monotonic => Nat
  | _ => Unit

/-- What the environment decides for one operation. -/
structure Env where
  /-- The milliseconds that pass before it. -/
  elapsed : Nat := 0
  fault : Option Raised := none
  /-- The operation has had its effect when it fails. -/
  late : Bool := false
  member : Bool := true
  config : Option AIAssistantConfig := none
  requestId : Str := []
  reads : Reads
  reply : ChatResult

section Perform

variable {F : Type} (lib : Library F) (env : Env) (st : State)

/-- The script of `check_rate_limit`: `INCR`, `EXPIRE` for a counter that is new, and `TTL`. -/
def State.countRequest (project : ProjectId) (window : Int) : (Nat × Int) × State :=
  let (current, quota) := st.quota.incr project st.now
  let quota := if current = 1 then quota.expire project st.now window else quota
  ((current, quota.ttl project st.now), { st with quota })

/-- Whether an operation can fail. A broadcast only puts the event into queues. -/
def Op.canFail : Op F → Bool
  | broadcast _ _ => false
  | _ => true

/-- An operation that goes through. -/
def Op.run : (o : Op F) → Except Raised o.Val × State
  | getMember _ _ =>
    (if env.member then .ok () else .error (.http 403 (ofString "Not a member of this project") []), st)
  | countRequest project window =>
    let (answer, st) := st.countRequest project window
    (.ok answer, st)
  | getFile file => ((env.reads.getFile file).mapError Raised.ofPyError, st)
  | projectConfig _ => (.ok env.config, st)
  | newRequestId => (.ok env.requestId, st)
  | broadcast project event => (.ok (), { st with broadcasts := st.broadcasts ++ [(project, event)] })
  | userMessage ctx prompt mode selection =>
    ((Agent.userMessage lib.python env.reads ctx prompt mode selection).mapError
      fun e => .exception (lib.runError (.userMessage e)), st)
  | chat _ _ => (.ok env.reply, st)
  | runTool ctx mode name arguments =>
    ((Agent.runTool lib.python env.reads ctx mode name arguments).mapError fun e => .exception (lib.runError e), st)
  | getFileText project file => ((env.reads.getFileText project file).mapError Raised.ofPyError, st)
  | monotonic => (.ok st.now, st)
  | insertRequest row => (.ok (), { st with requests := st.requests ++ [row] })

/-- One operation, with what the environment decides. -/
def Op.perform (o : Op F) : Except Raised o.Val × State :=
  let st := { st with now := st.now + env.elapsed }
  match env.fault with
  | some e => if o.canFail then (.error e, if env.late then (o.run lib env st).2 else st) else o.run lib env st
  | none => o.run lib env st

end Perform

/-- The programs of a request. -/
abbrev Py (F α : Type) := Async Raised (Op F) Op.Val α

/-- `await` of one operation, or a call that blocks. -/
abbrev await {F : Type} (o : Op F) : Py F o.Val := Async.call o

/-- Raises what was raised elsewhere. -/
def raised {F α : Type} : Except Raised α → Py F α
  | .ok a => pure a
  | .error e => throw e

/-! ## `llm/manager.py` and `llm/service.py` -/

section Service

variable {F : Type} (s : AssistantSettings) (lib : Library F)

/-- What `check_rate_limit` tells of a limit. -/
structure RateLimitInfo where
  limit : Int
  window : Int
  remaining : Int
  resetTime : Int

/-- `check_rate_limit`. A limiter that does not work lets every request through. -/
def checkRateLimit (project : ProjectId) : Py F (Bool × RateLimitInfo) :=
  let unlimited : RateLimitInfo :=
    { limit := s.rateLimitRequests, window := s.rateLimitWindow, remaining := s.rateLimitRequests, resetTime := 0 }
  if s.rateLimitEnabled then
    tryExcept (do
      let (current, ttl) ← await (.countRequest project s.rateLimitWindow)
      return (decide (current ≤ s.rateLimitRequests),
        { unlimited with remaining := max 0 (s.rateLimitRequests - current), resetTime := ttl })) Raised.isException
      fun _ => pure (true, unlimited)
  else return (true, unlimited)

/-- The model of an adapter that is given none. -/
def AIProvider.defaultModel : AIProvider → Str
  | mistral => ofString "codestral-latest"
  | huggingface => ofString "HuggingFaceH4/zephyr-7b-beta"

/-- `supports_tools`. -/
def AIProvider.supportsTools : AIProvider → Bool
  | mistral => true
  | huggingface => false

/-- The provider of that kind, with the model that it uses. -/
def resolved (apiKey : Str) (kind : AIProvider) (model : Option Str) (source : Source) : ResolvedProvider :=
  { apiKey, kind, source, model := (model.filter (· ≠ [])).getD kind.defaultModel }

/-- `resolve_provider`. -/
def resolveProvider (project : ProjectId) : Py F ResolvedProvider := do
  match ← await (.projectConfig project) with
  | some config =>
    require config.isActive (.http 400 (ofString "AI assistant is disabled for this project") [])
    let apiKey ← orRaise (lib.decrypt config.encryptedApiKey)
      (.http 500 (ofString "AI assistant configuration error") [])
    return resolved apiKey config.provider config.modelName .project
  | none =>
    let apiKey ← orRaise (s.mistralApiKey.filter (· ≠ []))
      (.http 400 (ofString "AI assistant not configured for this project.") [])
    return resolved apiKey .mistral (some s.mistralModel) .server

end Service

/-! ## `agent/runner.py` -/

/-- `AgentResult`, with the time. -/
structure Answer (F : Type) extends AgentResult F where
  latencyMs : Nat

section Runner

variable {F : Type} (lib : Library F) (provider : ResolvedProvider) (onStep : Step → Py F Unit) (mode : String)

/-- One tool call. -/
def runCall (st : Progress F) (tc : ToolCall) : Py F (Progress F) := do
  let (output, ok, ctx) ← await (.runTool st.ctx mode tc.name tc.arguments)
  let summary ← raised ((summarize lib.python tc.name tc.arguments).mapError
    fun e => .exception (lib.runError (.summarize e)))
  let step : Step := { tool := tc.name, summary, ok }
  tryExcept (onStep step) Raised.isException fun _ => pure ()
  return ({ st with ctx, steps := st.steps ++ [step] } : Progress F).append (.tool tc.id tc.name output)

/-- The loop of `run_agent`, with the number of requests left. It ends with an answer, or without one. -/
def chatLoop : Nat → Progress F → Py F (Progress F × Option Str)
  | 0, st => return (st, none)
  | n + 1, st => do
    let reply ← await (.chat provider { messages := st.messages, tools := toolSpecs mode })
    let st := st.ask (toolSpecs mode) reply
    if reply.toolCalls = [] then return (st, some reply.content)
    else do
      let st ← reply.toolCalls.foldlM (runCall lib onStep mode) (st.append (.assistant reply.content reply.toolCalls))
      chatLoop n st

/-- `run_agent`. -/
def runAgent (ctx : AgentContext F) (prompt : Str) (history : List Turn) (maxSteps : Int)
    (selection : Option Selection) : Py F (Answer F) := do
  let started ← await .monotonic
  let (content, ctx) ← await (.userMessage ctx prompt mode selection)
  let messages := .system (systemPrompt mode) :: history.map (fun turn => .turn turn.role turn.text) ++ [.user content]
  let (st, answer) ← chatLoop lib provider onStep mode maxSteps.toNat { ctx, messages }
  let ended ← await .monotonic
  return {
    answer := answer.getD truncatedAnswer
    steps := st.steps
    proposal := st.ctx.proposal
    promptTokens := st.promptTokens
    completionTokens := st.completionTokens
    truncated := answer.isNone
    latencyMs := ended - started }

end Runner

/-! ## `api/assistant.py` -/

/-- `l[start:]`. -/
def sliceFrom {α : Type} (start : Int) (l : List α) : List α :=
  if start < 0 then l.drop (l.length - start.natAbs) else l.drop start.toNat

/-- `_legacy_prompt`. -/
def legacyPrompt (prompt : Str) (contextCode : Option Str) : Str :=
  match contextCode.filter (· ≠ []) with
  | none => prompt
  | some code =>
    ofString "Current content of the user's active file:\n```\n" ++ code ++ ofString "\n```\n\nQuestion: " ++ prompt

/-- `AIDiffProposal(**asdict(proposal))`, if the proposal passes its checks. -/
def AIDiffProposal.validate {F : Type} (proposal : Proposal F) : Option AIDiffProposal :=
  let { fileId, originalText, proposedText, explanation, syntaxOk } := proposal
  if IsText originalText ∧ IsText proposedText then
    match explanation with
    | .null => some { fileId, originalText, proposedText, explanation := none, syntaxOk }
    | .str explanation =>
      if IsText explanation then some { fileId, originalText, proposedText, explanation := some explanation, syntaxOk }
      else none
    | _ => none
  else none

/-- Whether the texts of a response pass its checks. -/
def AIAssistantResponse.Shown (response : AIAssistantResponse) : Prop :=
  IsText response.response ∧ ∀ step ∈ response.steps, IsText step.tool ∧ IsText step.summary

instance decidableShown (response : AIAssistantResponse) : Decidable response.Shown :=
  inferInstanceAs (Decidable (_ ∧ _))

/-- A request: the project and the user of its path and token, and its body. -/
structure Ask where
  project : ProjectId
  user : User
  payload : AIAssistantRequestCreate

section Endpoint

variable {F : Type} (s : AssistantSettings) (lib : Library F) (ask : Ask) (resolved : ResolvedProvider)

/-- The turns of the history that are sent. -/
def Ask.history : List Turn := sliceFrom (-s.historyTurns * 2) ask.payload.history

/-- The row of a request that was answered. -/
def Ask.answeredRow (result : Answer F) : AIAssistantRequest where
  projectId := ask.project
  userId := ask.user.id
  fileId := ask.payload.fileId
  mode := ask.payload.mode
  prompt := ask.payload.prompt
  response := result.answer
  provider := resolved.kind
  modelUsed := resolved.model
  promptTokens := some result.promptTokens
  completionTokens := some result.completionTokens
  totalTokens := some (result.promptTokens + result.completionTokens)
  latencyMs := result.latencyMs
  isSuccessful := true
  errorMessage := none

/-- The row of a request that has failed. -/
def Ask.failedRow (error : Str) : AIAssistantRequest where
  projectId := ask.project
  userId := ask.user.id
  fileId := ask.payload.fileId
  mode := ask.payload.mode
  prompt := ask.payload.prompt
  response := []
  provider := resolved.kind
  modelUsed := resolved.model
  promptTokens := none
  completionTokens := none
  totalTokens := none
  latencyMs := 0
  isSuccessful := false
  errorMessage := some error

/-- The text that a provider is sent that takes no tools. -/
def context : Py F (Option Str) :=
  match ask.payload.fileId with
  | some file => some <$> await (.getFileText ask.project file.toNat)
  | none => pure ask.payload.contextCode

/-- The answer of a provider that takes no tools. -/
def completion : Py F (Answer F) := do
  let context ← context ask
  let messages := .system (systemPrompt ask.payload.mode) ::
    (ask.history s).map (fun turn => .turn turn.role turn.text) ++ [.user (legacyPrompt ask.payload.prompt context)]
  let started ← await .monotonic
  let reply ← await (.chat resolved { messages, tools := [] })
  let ended ← await .monotonic
  return {
    answer := reply.content
    steps := []
    proposal := none
    promptTokens := reply.promptTokens
    completionTokens := reply.completionTokens
    truncated := false
    latencyMs := ended - started }

/-- The answer of the provider, by the agent if it takes tools. -/
def generate (requestId : Str) : Py F (Answer F) :=
  if resolved.kind.supportsTools then
    let prompt :=
      if ask.payload.fileId = none then legacyPrompt ask.payload.prompt ask.payload.contextCode else ask.payload.prompt
    let ctx : AgentContext F :=
      { projectId := ask.project, activeFileId := ask.payload.fileId.map Int.toNat, maxFileChars := s.maxFileChars }
    runAgent lib resolved (fun step => await (.broadcast ask.project (.step requestId ask.user.id step)))
      ask.payload.mode ctx prompt (ask.history s) s.maxSteps ask.payload.selection
  else completion s ask resolved

/-- The answer and its proposal, once they are on record. -/
def answer (requestId : Str) : Py F (Answer F × Option AIDiffProposal) := do
  let result ← tryExcept (generate s lib ask resolved requestId) Raised.isException fun e => do
    await (.insertRequest (ask.failedRow resolved e.str))
    throw (.http 502 (ofString "AI assistant error: " ++ e.str) [])
  await (.insertRequest (ask.answeredRow resolved result))
  match result.proposal with
  | none => return (result, none)
  | some proposal =>
    let proposal ← orRaise (AIDiffProposal.validate proposal) (.exception lib.validationError)
    return (result, some proposal)

/-- The response to a request that was answered. -/
def response (result : Answer F) (proposal : Option AIDiffProposal) : AIAssistantResponse where
  response := result.answer
  provider := resolved.kind
  modelUsed := resolved.model
  promptTokens := result.promptTokens
  completionTokens := result.completionTokens
  totalTokens := result.promptTokens + result.completionTokens
  latencyMs := result.latencyMs
  proposal := proposal
  steps := result.steps
  truncated := result.truncated

/-- `request_assistant`, once it is known who answers. -/
def announced (requestId : Str) : Py F AIAssistantResponse := do
  let { project, user, payload } := ask
  await (.broadcast project (.started requestId user.id user.username payload.mode payload.fileId))
  match ← attempt (answer s lib ask resolved requestId) with
  | .error e => do
    await (.broadcast project (.finished requestId user.id false false payload.fileId))
    throw e
  | .ok (result, proposal) =>
    -- `finished` says that all went well before the response is built
    let fileId := (proposal.map fun proposal => (proposal.fileId : Int)).orElse fun _ => payload.fileId
    let response := response resolved result proposal
    andFinally (do
      require (decide response.Shown) (.exception lib.validationError)
      return response) (await (.broadcast project (.finished requestId user.id true proposal.isSome fileId)))

/-- The error for a project that has used up its requests. -/
def tooManyRequests (info : RateLimitInfo) : Raised :=
  let retryAfter := max 1 info.resetTime
  .http 429 (ofString ("The AI assistant allows " ++ toString info.limit ++ " requests per " ++
      toString info.window ++ " s per project. Try again in " ++ toString retryAfter ++ " s."))
    [("Retry-After", toString retryAfter), ("X-RateLimit-Limit", toString info.limit),
      ("X-RateLimit-Remaining", toString info.remaining), ("X-RateLimit-Reset", toString info.resetTime)]

/-- The file of a request must be one of the project. -/
def checkFile : Py F Unit :=
  match ask.payload.fileId with
  | some file => do
    let found ← await (.getFile file)
    require (found.any fun found => found.projectId = ask.project) (.http 404 (ofString "File not found") [])
  | none => pure ()

/-- The id of a request, the client's or a new one. -/
def requestId : Py F Str :=
  match ask.payload.requestId.filter (· ≠ []) with
  | some requestId => pure requestId
  | none => await .newRequestId

/-- `request_assistant`. -/
def requestAssistant : Py F AIAssistantResponse := do
  require s.enabled (.http 503 (ofString "AI Assistant is currently disabled") [])
  await (.getMember ask.project ask.user.id)
  let (allowed, info) ← checkRateLimit s ask.project
  require allowed (tooManyRequests info)
  checkFile ask
  let resolved ← resolveProvider s lib ask.project
  let requestId ← requestId ask
  announced s lib ask resolved requestId

end Endpoint

/-- The assistant, with any number of requests at a time. -/
def assistant {F : Type} (s : AssistantSettings) (lib : Library F) :
    Machine (Op F) (fun o => Except Raised o.Val) Env State Ask (Except Raised AIAssistantResponse) where
  init := {}
  exec := fun _ o env st => some (o.perform lib env st)
  body := fun _ ask => (requestAssistant s lib ask).run

end Concord.Assistant
