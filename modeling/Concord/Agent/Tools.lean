import Concord.Base.JsonText
import Concord.Base.Matches
import Concord.Models

/-!
# The tools of the agent

`agent/tools.py`: what the model may call, with the arguments that it writes. All tools but `propose_edit` only
read; that one records a proposal.

A handler that cannot do what it is asked raises a `ToolError` or a `TypeError`, which `run_tool` makes an answer
for the model (`Failure`). What else it raises leaves `run_tool`.
-/

namespace Concord

open Concord.Base

/-- The text of `files.language`. -/
def Language.value : Language → String
  | python => "python"
  | nodejs => "nodejs"
  | cpp => "cpp"
  | plaintext => "plaintext"

/-- `ExecutionStatus.value`. -/
def ExecutionStatus.value : ExecutionStatus → String
  | queued => "queued"
  | starting => "starting"
  | compiling => "compiling"
  | running => "running"
  | completed => "completed"
  | failed => "failed"
  | timeout => "timeout"
  | cancelled => "cancelled"

namespace Agent

open Str (ofString)

/-- What `json.loads` raises: a `ValueError` with its text, or something else, such as a `RecursionError`. -/
inductive LoadsError
  | valueError (text : Str)
  | other (e : PyError)

/-- What `ast.parse` raises. -/
inductive ParseError
  | syntaxError (msg lineno : Str)
  | other (e : PyError)

/-- What the agent uses of Python and its library, with the finite floats `F`. -/
structure Python (F : Type) where
  /-- `json.loads`. -/
  loads : Str → Except LoadsError (Json (PyFloat F))
  /-- `json.dumps`. -/
  dumps : Json (PyFloat F) → Str
  /-- `json.dumps(…, indent=1)`. -/
  dumpsIndented : Json (PyFloat F) → Str
  /-- `ast.parse`. -/
  parse : Str → Except ParseError Unit
  /-- `repr`. -/
  repr : Json (PyFloat F) → Except PyError Str
  /-- `str`, as in an f-string. -/
  format : Json (PyFloat F) → Except PyError Str
  /-- `repr` of a string. -/
  quote : Str → Str
  /-- `int` of a string. -/
  intOfStr : Str → Option Int
  /-- `int` of a finite float. -/
  trunc : F → Int
  isZero : F → Bool
  /-- `lower` of a string. -/
  lower : Str → Str
  /-- The text of the `TypeError` for a call of a function with keywords it does not take. -/
  keywordError : String → List Str → Str
  /-- The text of the `TypeError` for an argument that is no string. -/
  notStrError : Json (PyFloat F) → Str

/-- `Proposal`. -/
structure Proposal (F : Type) where
  fileId : FileId
  originalText : Str
  proposedText : Str
  explanation : Json (PyFloat F)
  syntaxOk : Bool

/-- `AgentContext`, without the database. -/
structure AgentContext (F : Type) where
  projectId : ProjectId
  activeFileId : Option FileId
  maxFileChars : Nat
  proposal : Option (Proposal F) := none
  activeTextOverride : Option Str := none
  filesRead : Finset FileId := ∅

/-- What the database and the rooms answer while a tool runs. -/
structure Reads where
  /-- `db.get(File, id)`. -/
  getFile : Int → Except PyError (Option File)
  /-- The files of the project, by path. -/
  projectFiles : ProjectId → Except PyError (List File)
  /-- `get_file_text`. -/
  getFileText : ProjectId → FileId → Except PyError Str
  /-- The file's latest execution. -/
  latestExecution : FileId → Except PyError (Option Execution)

/-- What a handler raises. -/
inductive Failure
  | toolError (text : Str)
  | typeError (text : Str)
  | other (e : PyError)

/-- What a handler has, if it may raise. -/
abbrev Result (α : Type) := Except Failure α

/-- What is not caught. -/
def Result.ofPyError {α : Type} (x : Except PyError α) : Result α := x.mapError .other

/-- The arguments of a call. -/
abbrev Arguments (F : Type) := JsonObject (PyFloat F)

section Handlers

variable {F : Type} (python : Python F) (reads : Reads) (ctx : AgentContext F)

/-- `check_python_syntax`. -/
def checkPythonSyntax (code : Str) : Except PyError (Option Str) :=
  match python.parse code with
  | .ok () => .ok none
  | .error (.syntaxError msg lineno) =>
    .ok (some (ofString "SyntaxError: " ++ msg ++ ofString " (line " ++ lineno ++ ofString ")"))
  | .error (.other e) => .error e

/-- `int`, with `none` for a `TypeError` or a `ValueError`. -/
def toInt : Json (PyFloat F) → Result (Option Int)
  | .int n => .ok (some n)
  | .bool b => .ok (some (if b then 1 else 0))
  | .float (.finite x) => .ok (some (python.trunc x))
  | .float .nan => .ok none
  -- an `OverflowError`
  | .float .infinity | .float .negInfinity => .error (.other .other)
  | .str s => .ok (python.intOfStr s)
  | .null | .arr _ | .obj _ => .ok none

/-- `_project_file`. -/
def projectFile (fileId : Json (PyFloat F)) : Result File := do
  match ← toInt python fileId with
  | none =>
    let shown ← Result.ofPyError (python.repr fileId)
    throw (.toolError (ofString "file_id must be an integer, got " ++ shown))
  | some fid =>
    match ← Result.ofPyError (reads.getFile fid) with
    | none => throw (.toolError (missing fid))
    | some file => if file.projectId = ctx.projectId then return file else throw (.toolError (missing fid))
where
  /-- The text for a file that is not there. -/
  missing (fid : Int) : Str :=
    ofString "no file with id " ++ writeInt fid ++ ofString " in this project; call list_files"

/-- `file_text`. -/
def fileText (file : File) : Except PyError Str :=
  match (if some file.id = ctx.activeFileId then ctx.activeTextOverride else none) with
  | some text => .ok text
  | none => reads.getFileText ctx.projectId file.id

/-- `list_files`. -/
def listFiles : Result (Str × AgentContext F) := do
  let files ← Result.ofPyError (reads.projectFiles ctx.projectId)
  let entries := files.map fun f => Json.obj
    [(ofString "id", .int f.id), (ofString "path", .str (ofString f.path)),
      (ofString "language", .str (ofString f.language.value)),
      (ofString "active", .bool (decide (some f.id = ctx.activeFileId)))]
  return (python.dumps (.arr entries), ctx)

/-- `text.count("\n")`. -/
def countNewlines (text : Str) : Nat := text.count (CodePoint.ofChar '\n')

/-- `read_file`. -/
def readFile (fileId : Json (PyFloat F)) : Result (Str × AgentContext F) := do
  let file ← projectFile python reads ctx fileId
  let text ← Result.ofPyError (fileText reads ctx file)
  let ctx := { ctx with filesRead := insert file.id ctx.filesRead }
  let header := ofString "# " ++ ofString file.path ++ ofString " (" ++ ofString file.language.value ++
    ofString ", " ++ decimal (countNewlines text + 1) ++ ofString " lines)\n"
  if ctx.maxFileChars < text.length then
    return (header ++ text.take ctx.maxFileChars ++ ofString "\n... [truncated]", ctx)
  else return (header ++ text, ctx)

/-- The last characters of a text. -/
def tail (n : Nat) (text : Str) : Str := text.drop (text.length - n)

/-- `last_execution`. -/
def lastExecution (file : File) : Except PyError (Option (Json (PyFloat F))) :=
  (reads.latestExecution file.id).map fun latest => latest.map fun execution => .obj
    [(ofString "file", .str (ofString file.path)), (ofString "status", .str (ofString execution.status.value)),
      (ofString "exit_code", match execution.exitCode with | some n => .int n | none => .null),
      (ofString "stdout_tail", .str (tail 2000 (ofString execution.stdout))),
      (ofString "stderr_tail", .str (tail 4000 (ofString execution.stderr)))]

/-- `get_last_execution`. -/
def getLastExecution (fileId : Json (PyFloat F)) : Result (Str × AgentContext F) := do
  let fid : Json (PyFloat F) := match fileId, ctx.activeFileId with
    | .null, some active => .int active
    | fileId, _ => fileId
  match fid with
  | .null => throw (.toolError (ofString "no active file; pass file_id"))
  | fid =>
    let file ← projectFile python reads ctx fid
    match ← Result.ofPyError (lastExecution reads file) with
    | none => return (ofString file.path ++ ofString " has not been run yet.", ctx)
    | some summary => return (python.dumps summary, ctx)

/-- `check_syntax`. A language that is no string has no `lower`, which is an `AttributeError`. -/
def checkSyntax (code language : Json (PyFloat F)) : Result (Str × AgentContext F) :=
  match language with
  | .str language =>
    if python.lower language ≠ ofString "python" then
      .ok (ofString "Syntax checking is only available for python, not " ++ language ++ ofString ".", ctx)
    else
      match code with
      | .str code => do
        let err ← Result.ofPyError (checkPythonSyntax python code)
        return (err.getD (ofString "OK: parses cleanly."), ctx)
      | code => .error (.typeError (python.notStrError code))
  | _ => .error (.other .other)

/-- `bool`. -/
def truthy : Json (PyFloat F) → Bool
  | .null => false
  | .bool b => b
  | .int n => n ≠ 0
  | .float (.finite x) => !python.isZero x
  | .float _ => true
  | .str s => s ≠ []
  | .arr elems => !elems.isEmpty
  | .obj fields => !fields.isEmpty

/-- The answer of `propose_edit` once it has recorded a proposal, and the context with it. -/
def recorded (file : File) (original proposed : Str) (explanation : Json (PyFloat F)) (syntaxError : Option Str) :
    Str × AgentContext F :=
  let answer := match syntaxError with
    | some err =>
      ofString "Proposal recorded, but the file would not parse afterwards: " ++ err ++
        ofString ". Fix it with another propose_edit call."
    | none => ofString "Proposal recorded. The user will review and apply it; do not repeat the code in full."
  let proposal : Proposal F :=
    { fileId := file.id
      originalText := original
      proposedText := proposed
      explanation := explanation
      syntaxOk := syntaxError.isNone }
  (answer, { ctx with proposal := some proposal })

/-- The end of `propose_edit`, for a text that has the original once. -/
def recordProposal (file : File) (text original proposed : Str) (explanation : Json (PyFloat F)) :
    Result (Str × AgentContext F) := do
  let newText := replaceFirst original proposed text
  let syntaxError ←
    if file.language = .python then Result.ofPyError (checkPythonSyntax python newText) else .ok none
  return recorded ctx file original proposed explanation syntaxError

/-- `propose_edit`. -/
def proposeEdit (fileId original proposed explanation : Json (PyFloat F)) : Result (Str × AgentContext F) := do
  let file ← projectFile python reads ctx fileId
  if !truthy python original then
    throw (.toolError (ofString "original must be the exact existing text to replace (non-empty)"))
  let text ← Result.ofPyError (fileText reads ctx file)
  match original with
  | .str original =>
    let n := count original text
    if n = 0 then
      throw (.toolError (ofString ("original was not found verbatim in the file. Call read_file and copy the " ++
        "exact lines, including indentation.")))
    else if 1 < n then
      throw (.toolError (ofString "original appears " ++ decimal n ++
        ofString " times; include more surrounding lines so it is unique."))
    else
      match proposed with
      | .str proposed => recordProposal python ctx file text original proposed explanation
      | proposed => throw (.typeError (python.notStrError proposed))
  | original => throw (.typeError (python.notStrError original))

end Handlers

/-! ## Registry -/

/-- The names of `TOOLS`, in their order. -/
inductive Tool
  | listFiles | readFile | getLastExecution | checkSyntax | proposeEdit
deriving DecidableEq

namespace Tool

/-- The tool's key in `TOOLS`, which is also the name of its handler. -/
def key : Tool → String
  | listFiles => "list_files"
  | readFile => "read_file"
  | getLastExecution => "get_last_execution"
  | checkSyntax => "check_syntax"
  | proposeEdit => "propose_edit"

def all : List Tool := [listFiles, readFile, getLastExecution, checkSyntax, proposeEdit]

/-- The parameters that a call must have. -/
def required : Tool → List String
  | listFiles | getLastExecution => []
  | readFile => ["file_id"]
  | checkSyntax => ["code"]
  | proposeEdit => ["file_id", "original", "proposed"]

/-- The parameters that have a default. -/
def optional : Tool → List String
  | listFiles | readFile => []
  | getLastExecution => ["file_id"]
  | checkSyntax => ["language"]
  | proposeEdit => ["explanation"]

section Spec

variable {F : Type}

/-- A text in a specification. -/
def text (s : String) : Json (PyFloat F) := .str (ofString s)

/-- A dictionary in a specification. -/
def dict (items : List (String × Json (PyFloat F))) : Json (PyFloat F) :=
  .obj (items.map fun item => (ofString item.1, item.2))

/-- `_FILE_ID`. -/
def fileIdSpec : Json (PyFloat F) := dict [("type", text "integer"), ("description", text "File id from list_files")]

def description : Tool → String
  | listFiles => "List the project's files with their ids and languages."
  | readFile => "Read the current content of a file."
  | getLastExecution => "Get the result of the most recent run of a file: status, exit code, " ++
    "and the tail of stdout/stderr. Defaults to the active file."
  | checkSyntax => "Check whether a code snippet parses (python only)."
  | proposeEdit => "Propose replacing an exact, unique span of a file with new text. " ++
    "The user reviews and applies it. This is the only way to change code."

def properties : Tool → List (String × Json (PyFloat F))
  | listFiles => []
  | readFile | getLastExecution => [("file_id", fileIdSpec)]
  | checkSyntax =>
    [("code", dict [("type", text "string")]),
      ("language", dict [("type", text "string"), ("default", text "python")])]
  | proposeEdit =>
    [("file_id", fileIdSpec),
      ("original", dict [("type", text "string"),
        ("description", text "Exact existing text to replace, copied verbatim from read_file")]),
      ("proposed", dict [("type", text "string"), ("description", text "Replacement text")]),
      ("explanation", dict [("type", text "string"), ("description", text "One sentence: why")])]

/-- What the model is told to give. -/
def requested : Tool → List String
  | proposeEdit => ["file_id", "original", "proposed", "explanation"]
  | tool => tool.required

/-- The tool's entry in `tool_specs`. -/
def spec (tool : Tool) : Json (PyFloat F) :=
  let requested := if tool.requested = [] then [] else [("required", Json.arr (tool.requested.map text))]
  dict [("type", text "function"),
    ("function", dict [("name", text tool.key), ("description", text tool.description),
      ("parameters", dict ([("type", text "object"), ("properties", dict tool.properties)] ++ requested))])]

end Spec

variable {F : Type} (python : Python F) (reads : Reads) (ctx : AgentContext F)

/-- `handler(ctx, **args)`. -/
def call (tool : Tool) (args : Arguments F) : Result (Str × AgentContext F) :=
  let arg (name : String) (default : Json (PyFloat F)) := (args.get? (ofString name)).getD default
  if (∀ name ∈ tool.required, ofString name ∈ args.keys) ∧
      ∀ key ∈ args.keys, ∃ name ∈ tool.required ++ tool.optional, key = ofString name then
    match tool with
    | listFiles => Agent.listFiles python reads ctx
    | readFile => Agent.readFile python reads ctx (arg "file_id" .null)
    | getLastExecution => Agent.getLastExecution python reads ctx (arg "file_id" .null)
    | checkSyntax => Agent.checkSyntax python ctx (arg "code" .null) (arg "language" (.str (ofString "python")))
    | proposeEdit =>
      Agent.proposeEdit python reads ctx (arg "file_id" .null) (arg "original" .null) (arg "proposed" .null)
        (arg "explanation" (.str []))
  else .error (.typeError (python.keywordError tool.key args.keys))

end Tool

/-- `MODE_TOOLS.get(mode, list(TOOLS))`. -/
def modeTools (mode : String) : List Tool :=
  if mode = "explain" then [.listFiles, .readFile, .getLastExecution]
  else if mode = "review" then [.listFiles, .readFile, .getLastExecution, .checkSyntax]
  else Tool.all

/-- `tool_specs`. -/
def toolSpecs {F : Type} (mode : String) : List (Json (PyFloat F)) := (modeTools mode).map Tool.spec

/-- What a run lets through. -/
inductive RunError
  /-- Raised by a tool's handler. -/
  | handler (e : PyError)
  /-- Raised by `json.loads`, other than a `ValueError`. -/
  | loads (e : PyError)
  /-- Raised while a call was summarized. -/
  | summarize (e : PyError)
  /-- Raised while the first message was put together. -/
  | userMessage (e : PyError)

section RunTool

variable {F : Type} (python : Python F) (reads : Reads) (ctx : AgentContext F)

/-- The arguments of a call as `run_tool` reads them. -/
def loadArgs (rawArgs : Str) : Except LoadsError (Arguments F) :=
  if rawArgs = [] then .ok ∅
  else do
    match ← python.loads rawArgs with
    | .obj fields => return Dict.ofItems fields
    | _ => throw (.valueError (ofString "arguments must be a JSON object"))

/-- `run_tool`. -/
def runTool (mode : String) (name rawArgs : Str) : Except RunError (Str × Bool × AgentContext F) :=
  match (modeTools mode).find? fun tool => ofString tool.key = name with
  | none =>
    .ok (ofString "Error: tool " ++ python.quote name ++ ofString " is not available in " ++ ofString mode ++
      ofString " mode.", false, ctx)
  | some tool =>
    match loadArgs python rawArgs with
    | .error (.valueError text) => .ok (ofString "Error: invalid arguments JSON (" ++ text ++ ofString ").", false, ctx)
    | .error (.other e) => .error (.loads e)
    | .ok args =>
      match tool.call python reads ctx args with
      | .ok (output, ctx) => .ok (output, true, ctx)
      | .error (.toolError text) => .ok (ofString "Error: " ++ text, false, ctx)
      | .error (.typeError text) =>
        .ok (ofString "Error: bad arguments for " ++ name ++ ofString ": " ++ text, false, ctx)
      | .error (.other e) => .error (.handler e)

end RunTool

/-! ## Python for runs on fixed inputs -/

/-- No float but the infinite ones. -/
def noFloats : Floats Empty where
  ofText _ := .infinity
  repr := Empty.elim
  ofText_repr := by rintro ⟨⟩

/-- Python, as far as runs on fixed inputs need it. Every source parses. -/
def plainPython : Python Empty where
  loads s := match Json.loads noFloats true s with
    | some v => .ok v
    | none => .error (.valueError (ofString "Expecting value"))
  dumps := Json.dumps noFloats
  dumpsIndented := Json.dumps noFloats
  parse _ := .ok ()
  repr v := .ok (Json.dumps noFloats v)
  format v := .ok (Json.dumps noFloats v)
  quote s := ofString "'" ++ s ++ ofString "'"
  intOfStr _ := none
  trunc := Empty.elim
  isZero := Empty.elim
  lower := id
  keywordError _ _ := ofString "unexpected keyword argument"
  notStrError _ := ofString "must be str"

/-- A project with one file. -/
def oneFile (text : Str) : Reads where
  getFile id := .ok (if id = 1 then some ⟨1, 1, "a.py", .python⟩ else none)
  projectFiles _ := .ok [⟨1, 1, "a.py", .python⟩]
  getFileText _ _ := .ok text
  latestExecution _ := .ok none

end Agent

end Concord
