import Concord.Agent.Conversation

/-!
# The agent sees only its project

The tools look files up by their id alone and ask for the project afterwards, and versions and executions by the id of
a file. A run in a project is still the same over any two databases that have the same of the project
(`agent_sees_only_its_project`): what the model is told, its proposal and the result. So a file of another project is
like one that is not there.
-/

namespace Concord.Agent

open Concord.Base
open Str (ofString)

/-! ## Databases -/

/-- What a tool may ask the database and the rooms for. -/
structure Rows where
  files : List File
  nodup : (files.map File.id).Nodup
  /-- The text of a live document. -/
  room? : ProjectId → FileId → Option Str
  /-- The text of the latest version. -/
  version? : FileId → Option Str
  executions : List (ExecutionId × Execution)

namespace Rows

variable (rows rows' : Rows)

/-- The files of a project. -/
def filesOf (project : ProjectId) : List File := rows.files.filter fun file => file.projectId = project

def executionsOf (file : FileId) : List (ExecutionId × Execution) :=
  rows.executions.filter fun row => row.2.fileId = file

/-- `queued_at DESC, id DESC`. -/
def newerFirst (row row' : ExecutionId × Execution) : Bool :=
  row'.2.queuedAt < row.2.queuedAt || row'.2.queuedAt = row.2.queuedAt && row'.1 ≤ row.1

/-- What is read of the tables. -/
def reads : Reads where
  getFile id := .ok (rows.files.find? fun file => (file.id : Int) = id)
  projectFiles project := .ok ((rows.filesOf project).mergeSort fun file file' => file.path ≤ file'.path)
  getFileText project file := .ok ((rows.room? project file).getD ((rows.version? file).getD []))
  latestExecution file := .ok (((rows.executionsOf file).mergeSort newerFirst).head?.map Prod.snd)

/-- Both have the same of a project. -/
structure SameIn (project : ProjectId) : Prop where
  files : rows.filesOf project = rows'.filesOf project
  room? : ∀ file ∈ rows.filesOf project, rows.room? project file.id = rows'.room? project file.id
  version? : ∀ file ∈ rows.filesOf project, rows.version? file.id = rows'.version? file.id
  executions : ∀ file ∈ rows.filesOf project, rows.executionsOf file.id = rows'.executionsOf file.id

end Rows

/-- Both answer the same about a project. A file of another one is not told from none. -/
structure Reads.SameIn (reads reads' : Reads) (project : ProjectId) : Prop where
  getFile : ∀ id, (reads.getFile id).map (Option.filter fun file => file.projectId = project) =
    (reads'.getFile id).map (Option.filter fun file => file.projectId = project)
  projectFiles : reads.projectFiles project = reads'.projectFiles project
  getFileText : ∀ id file, reads.getFile id = .ok (some file) → file.projectId = project →
    reads.getFileText project file.id = reads'.getFileText project file.id
  latestExecution : ∀ id file, reads.getFile id = .ok (some file) → file.projectId = project →
    reads.latestExecution file.id = reads'.latestExecution file.id

namespace Rows

variable {rows rows' : Rows} {project : ProjectId}

/-- A file of the project is found among those of the project. -/
theorem filter_find? (rows : Rows) (project : ProjectId) (id : Int) :
    (rows.files.find? fun file => (file.id : Int) = id).filter (fun file => file.projectId = project) =
      (rows.filesOf project).find? fun file => (file.id : Int) = id := by
  have hnodup := rows.nodup
  unfold filesOf
  generalize rows.files = files at hnodup ⊢
  induction files with
  | nil => rfl
  | cons file files ih =>
    rw [List.map_cons] at hnodup
    obtain ⟨hnew, hnodup⟩ := List.nodup_cons.1 hnodup
    rw [List.find?_cons, List.filter_cons]
    by_cases hid : (file.id : Int) = id
    · simp only [hid, decide_true]
      by_cases hproject : file.projectId = project
      · simp [hproject, hid]
      · have hnone : (files.filter fun file => file.projectId = project).find? (fun file => (file.id : Int) = id) =
            none := by
          rw [List.find?_eq_none]
          intro other hother hsame
          have hsame : other.id = file.id := Int.ofNat.inj ((of_decide_eq_true hsame).trans hid.symm)
          exact hnew (List.mem_map.2 ⟨other, List.mem_of_mem_filter hother, hsame⟩)
        simp [hproject, hnone]
    · simp only [hid, decide_false]
      rw [ih hnodup]
      by_cases hproject : file.projectId = project
      · simp [hproject, hid]
      · simp [hproject]

theorem mem_filesOf {id : Int} {file : File} (h : rows.reads.getFile id = .ok (some file))
    (hproject : file.projectId = project) : file ∈ rows.filesOf project :=
  List.mem_filter.2 ⟨List.mem_of_find?_eq_some (Except.ok.inj h), decide_eq_true hproject⟩

theorem SameIn.reads (h : rows.SameIn rows' project) : rows.reads.SameIn rows'.reads project where
  getFile id := by
    change Except.ok ((rows.files.find? _).filter _) = Except.ok ((rows'.files.find? _).filter _)
    rw [filter_find?, filter_find?, h.files]
  projectFiles := by
    unfold Rows.reads
    dsimp only
    rw [h.files]
  getFileText id file hfile hproject := by
    have hmem := mem_filesOf hfile hproject
    unfold Rows.reads
    dsimp only
    rw [h.room? file hmem, h.version? file hmem]
  latestExecution id file hfile hproject := by
    unfold Rows.reads
    dsimp only
    rw [h.executions file (mem_filesOf hfile hproject)]

end Rows

/-! ## Tools -/

section Tools

variable {F : Type} {python : Python F} {reads reads' : Reads} {ctx : AgentContext F}

theorem bind_congr_ok {ε α β : Type} {x x' : Except ε α} {f f' : α → Except ε β} (hx : x = x')
    (hf : ∀ a, x = .ok a → f a = f' a) : x >>= f = x' >>= f' := by
  subst hx
  cases x with
  | error e => rfl
  | ok a => exact hf a rfl

theorem projectFile_ok {fileId : Json (PyFloat F)} {file : File} (h : projectFile python reads ctx fileId = .ok file) :
    (∃ id, reads.getFile id = .ok (some file)) ∧ file.projectId = ctx.projectId := by
  obtain ⟨n, -, h⟩ := except_bind_ok h
  cases n with
  | none =>
    obtain ⟨shown, -, ⟨⟩⟩ := except_bind_ok h
  | some id =>
    obtain ⟨found, hfound, h⟩ := except_bind_ok h
    cases found with
    | none => cases h
    | some found =>
      dsimp only at h
      split at h
      · next hproject =>
        cases h
        refine ⟨⟨id, ?_⟩, hproject⟩
        cases hget : reads.getFile id with
        | error e =>
          rw [hget] at hfound
          cases hfound
        | ok found' =>
          rw [hget] at hfound
          cases hfound
          rfl
      · cases h

/-- A file of another project is told from none only by what looks at it. -/
theorem ofPyError_bind_congr {α : Type} {project : ProjectId} {x y : Except PyError (Option File)}
    {k : Option File → Result α} (hk : ∀ file, file.projectId ≠ project → k (some file) = k none)
    (hxy : x.map (Option.filter fun file => file.projectId = project) =
      y.map (Option.filter fun file => file.projectId = project)) :
    (Result.ofPyError x >>= k) = Result.ofPyError y >>= k := by
  have hfiltered : ∀ found : Option File, k (found.filter fun file => file.projectId = project) = k found := by
    intro found
    cases found with
    | none => rfl
    | some file =>
      by_cases hproject : file.projectId = project
      · simp [Option.filter, hproject]
      · simp [Option.filter, hproject, hk file hproject]
  have hbind : ∀ x : Except PyError (Option File), (Result.ofPyError x >>= k) =
      Result.ofPyError (x.map (Option.filter fun file => file.projectId = project)) >>= k := by
    intro x
    cases x with
    | error e => rfl
    | ok found => exact (hfiltered found).symm
  rw [hbind x, hxy, ← hbind y]

theorem projectFile_congr (h : reads.SameIn reads' ctx.projectId) (fileId : Json (PyFloat F)) :
    projectFile python reads ctx fileId = projectFile python reads' ctx fileId := by
  refine bind_congr_ok rfl fun n _ => ?_
  cases n with
  | none => rfl
  | some id => exact ofPyError_bind_congr (fun file hother => if_neg hother) (h.getFile id)

/-- A file of the project. -/
def Reads.Has (reads : Reads) (project : ProjectId) (file : File) : Prop :=
  (∃ id, reads.getFile id = .ok (some file)) ∧ file.projectId = project

theorem fileText_congr (h : reads.SameIn reads' ctx.projectId) {file : File} (hfile : reads.Has ctx.projectId file) :
    fileText reads ctx file = fileText reads' ctx file := by
  obtain ⟨⟨id, hid⟩, hproject⟩ := hfile
  unfold fileText
  split
  · rfl
  · exact h.getFileText id file hid hproject

theorem lastExecution_congr (h : reads.SameIn reads' ctx.projectId) {file : File}
    (hfile : reads.Has ctx.projectId file) : lastExecution (F := F) reads file = lastExecution reads' file := by
  obtain ⟨⟨id, hid⟩, hproject⟩ := hfile
  unfold lastExecution
  rw [h.latestExecution id file hid hproject]

theorem readFile_congr (h : reads.SameIn reads' ctx.projectId) (fileId : Json (PyFloat F)) :
    readFile python reads ctx fileId = readFile python reads' ctx fileId := by
  refine bind_congr_ok (projectFile_congr h fileId) fun file hfile => ?_
  rw [fileText_congr h (projectFile_ok hfile)]

theorem getLastExecution_congr (h : reads.SameIn reads' ctx.projectId) (fileId : Json (PyFloat F)) :
    getLastExecution python reads ctx fileId = getLastExecution python reads' ctx fileId := by
  unfold getLastExecution
  dsimp only
  split
  · rfl
  · refine bind_congr_ok (projectFile_congr h _) fun file hfile => ?_
    rw [lastExecution_congr h (projectFile_ok hfile)]

theorem proposeEdit_congr (h : reads.SameIn reads' ctx.projectId)
    (fileId original proposed explanation : Json (PyFloat F)) :
    proposeEdit python reads ctx fileId original proposed explanation =
      proposeEdit python reads' ctx fileId original proposed explanation := by
  refine bind_congr_ok (projectFile_congr h fileId) fun file hfile => ?_
  dsimp only
  rw [fileText_congr h (projectFile_ok hfile)]

theorem call_congr (h : reads.SameIn reads' ctx.projectId) (tool : Tool) (args : Arguments F) :
    tool.call python reads ctx args = tool.call python reads' ctx args := by
  unfold Tool.call
  dsimp only
  split
  · cases tool with
    | listFiles =>
      unfold listFiles
      rw [h.projectFiles]
    | readFile => exact readFile_congr h _
    | getLastExecution => exact getLastExecution_congr h _
    | checkSyntax => rfl
    | proposeEdit => exact proposeEdit_congr h _ _ _ _
  · rfl

/-- A tool answers the same. -/
theorem runTool_congr (h : reads.SameIn reads' ctx.projectId) (mode : String) (name rawArgs : Str) :
    runTool python reads ctx mode name rawArgs = runTool python reads' ctx mode name rawArgs := by
  unfold runTool
  split
  · rfl
  · split
    · rfl
    · rfl
    · rw [call_congr h]

/-- If there is a result, it is still about the project. -/
def Within (ctx : AgentContext F) (result : Result (Str × AgentContext F)) : Prop :=
  ∀ output ctx', result = .ok (output, ctx') → ctx'.projectId = ctx.projectId

theorem within_ok {output : Str} {ctx' : AgentContext F} (h : ctx'.projectId = ctx.projectId) :
    Within ctx (.ok (output, ctx')) := by
  rintro _ _ ⟨⟩
  exact h

theorem within_error {e : Failure} : Within ctx (.error e) := by
  rintro _ _ ⟨⟩

theorem within_bind {α : Type} {x : Result α} {f : α → Result (Str × AgentContext F)} (h : ∀ a, Within ctx (f a)) :
    Within ctx (x >>= f) := by
  cases x with
  | error e => exact within_error
  | ok a => exact h a

theorem within_readFile (fileId : Json (PyFloat F)) : Within ctx (readFile python reads ctx fileId) := by
  refine within_bind fun file => within_bind fun text => ?_
  dsimp only
  split
  · exact within_ok rfl
  · exact within_ok rfl

theorem within_getLastExecution (fileId : Json (PyFloat F)) :
    Within ctx (getLastExecution python reads ctx fileId) := by
  unfold getLastExecution
  dsimp only
  split
  · exact within_error
  · refine within_bind fun file => within_bind fun summary => ?_
    cases summary with
    | none => exact within_ok rfl
    | some summary => exact within_ok rfl

theorem within_checkSyntax (code language : Json (PyFloat F)) : Within ctx (checkSyntax python ctx code language) := by
  unfold checkSyntax
  split
  · split
    · exact within_ok rfl
    · split
      · exact within_bind fun err => within_ok rfl
      · exact within_error
  · exact within_error

theorem within_recordProposal (file : File) (text old new : Str) (explanation : Json (PyFloat F)) :
    Within ctx (recordProposal python ctx file text old new explanation) := by
  unfold recordProposal
  dsimp only
  split
  · exact within_bind fun err => within_ok rfl
  · exact within_ok rfl

theorem within_proposeEdit (fileId original proposed explanation : Json (PyFloat F)) :
    Within ctx (proposeEdit python reads ctx fileId original proposed explanation) := by
  refine within_bind fun file => ?_
  dsimp only
  split
  · exact within_error
  · refine within_bind fun text => ?_
    split
    · split
      · exact within_error
      · split
        · exact within_error
        · split
          · exact within_recordProposal _ _ _ _ _
          · exact within_error
    · exact within_error

theorem within_call (tool : Tool) (args : Arguments F) : Within ctx (tool.call python reads ctx args) := by
  unfold Tool.call
  dsimp only
  split
  · cases tool with
    | listFiles => exact within_bind fun files => within_ok rfl
    | readFile => exact within_readFile _
    | getLastExecution => exact within_getLastExecution _
    | checkSyntax => exact within_checkSyntax _ _
    | proposeEdit => exact within_proposeEdit _ _ _ _
  · exact within_error

theorem projectId_runTool {mode : String} {name rawArgs output : Str} {ok : Bool} {ctx' : AgentContext F}
    (h : runTool python reads ctx mode name rawArgs = .ok (output, ok, ctx')) : ctx'.projectId = ctx.projectId := by
  unfold runTool at h
  split at h
  · cases h
    rfl
  · split at h
    · cases h
      rfl
    · cases h
    · split at h
      · next hcall =>
        cases h
        exact within_call _ _ _ _ hcall
      · cases h
        rfl
      · cases h
        rfl
      · cases h

end Tools

/-! ## Runs -/

section Runs

variable {F : Type} {input : Input F} {reads reads' : Reads} {callReads callReads' : Nat → Reads}
  {st st' : Progress F}

/-- The run with other answers of the database. -/
def Input.over (input : Input F) (reads : Reads) (callReads : Nat → Reads) : Input F := { input with reads, callReads }

theorem projectId_runCall {call : ToolCall} (h : runCall input st call = .ok st') :
    st'.ctx.projectId = st.ctx.projectId := by
  obtain ⟨⟨output, ok, ctx⟩, hrun, hnext⟩ := except_bind_ok h
  obtain ⟨summary, -, hnext⟩ := except_bind_ok hnext
  cases hnext
  unfold Progress.record Progress.append
  obtain ⟨reported, logged, hreport⟩ := report_eq
    ({ st with ctx, steps := st.steps ++ [{ tool := call.name, summary, ok }] } : Progress F) input.onStep
    { tool := call.name, summary, ok }
  rw [hreport]
  exact projectId_runTool hrun

theorem runCall_congr (h : ∀ k, (callReads k).SameIn (callReads' k) st.ctx.projectId) (call : ToolCall) :
    runCall (input.over reads callReads) st call = runCall (input.over reads' callReads') st call := by
  unfold runCall Input.over
  dsimp only
  rw [runTool_congr (h _)]

theorem foldlM_congr {project : ProjectId} (h : ∀ k, (callReads k).SameIn (callReads' k) project)
    (hst : st.ctx.projectId = project) (calls : List ToolCall) :
    calls.foldlM (runCall (input.over reads callReads)) st =
      calls.foldlM (runCall (input.over reads' callReads')) st := by
  induction calls generalizing st with
  | nil => rfl
  | cons call calls ih =>
    rw [List.foldlM_cons, List.foldlM_cons]
    refine bind_congr_ok (runCall_congr (hst ▸ h) call) fun middle hmiddle => ?_
    exact ih ((projectId_runCall hmiddle).trans hst)

theorem projectId_foldlM {calls : List ToolCall} (h : calls.foldlM (runCall input) st = .ok st') :
    st'.ctx.projectId = st.ctx.projectId := by
  induction calls generalizing st with
  | nil =>
    cases h
    rfl
  | cons call calls ih =>
    obtain ⟨middle, hcall, h⟩ := except_bind_ok h
    exact (ih h).trans (projectId_runCall hcall)

theorem chatLoop_succ (input : Input F) (n : Nat) (st : Progress F) : chatLoop input (n + 1) st =
    if (input.reply st).toolCalls = [] then
      (st.ask (toolSpecs input.mode) (input.reply st), .ok (some (input.reply st).content))
    else
      match (input.reply st).toolCalls.foldlM (runCall input) (st.begin (toolSpecs input.mode) (input.reply st)) with
      | .error e => (st.ask (toolSpecs input.mode) (input.reply st), .error e)
      | .ok st => chatLoop input n st := rfl

theorem chatLoop_congr {project : ProjectId} (h : ∀ k, (callReads k).SameIn (callReads' k) project) (n : Nat)
    (hst : st.ctx.projectId = project) :
    chatLoop (input.over reads callReads) n st = chatLoop (input.over reads' callReads') n st := by
  induction n generalizing st with
  | zero => rfl
  | succ n ih =>
    have hreply : (input.over reads' callReads').reply st = (input.over reads callReads).reply st := rfl
    have hmode : (input.over reads' callReads').mode = (input.over reads callReads).mode := rfl
    rw [chatLoop_succ, chatLoop_succ, hreply, hmode]
    split
    · rfl
    · have hfold : ∀ begun : Progress F, begun.ctx.projectId = project → ∀ calls : List ToolCall,
          calls.foldlM (runCall (input.over reads' callReads')) begun =
            calls.foldlM (runCall (input.over reads callReads)) begun :=
        fun begun hbegun calls => (foldlM_congr h hbegun calls).symm
      rw [hfold (st.begin _ _) hst]
      split
      · rfl
      · next hround => exact ih ((projectId_foldlM hround).trans hst)

theorem userMessage_congr {python : Python F} {ctx : AgentContext F} (h : reads.SameIn reads' ctx.projectId)
    (prompt : Str) (mode : String) (selection : Option Selection) :
    userMessage python reads ctx prompt mode selection = userMessage python reads' ctx prompt mode selection := by
  have hactive : activeFile reads ctx = activeFile reads' ctx := by
    unfold activeFile
    cases ctx.activeFileId with
    | none => rfl
    | some id => exact h.getFile id
  refine bind_congr_ok hactive fun file hfile => ?_
  cases file with
  | none => rfl
  | some file =>
    have hhas : reads.Has ctx.projectId file := by
      unfold activeFile at hfile
      cases hactive : ctx.activeFileId with
      | none =>
        rw [hactive] at hfile
        cases hfile
      | some id =>
        rw [hactive] at hfile
        obtain ⟨found, hfound, hkept⟩ := except_bind_ok hfile
        have hkept : found.filter (fun file => file.projectId = ctx.projectId) = some file := Except.ok.inj hkept
        obtain ⟨rfl, hproject⟩ := Option.filter_eq_some_iff.1 hkept
        exact ⟨⟨id, hfound⟩, of_decide_eq_true hproject⟩
    refine bind_congr_ok (fileText_congr h hhas) fun text _ => ?_
    rw [lastExecution_congr h hhas]

/-- The first message is about the project. -/
theorem projectId_userMessage {python : Python F} {ctx ctx' : AgentContext F} {prompt content : Str} {mode : String}
    {selection : Option Selection} (h : userMessage python reads ctx prompt mode selection = .ok (content, ctx')) :
    ctx'.projectId = ctx.projectId := by
  unfold userMessage at h
  obtain ⟨file, -, h⟩ := except_bind_ok h
  cases file with
  | none =>
    cases h
    rfl
  | some file =>
    obtain ⟨text, -, h⟩ := except_bind_ok h
    dsimp only at h
    split at h
    · obtain ⟨last, -, h⟩ := except_bind_ok h
      cases last with
      | none =>
        cases h
        rfl
      | some last =>
        cases h
        rfl
    · cases h
      rfl

/-- **The agent sees only its project**: over databases that have the same of the project, at the beginning and at each
call, a run sends the model the same and ends with the same result. -/
theorem agent_sees_only_its_project (input : Input F) {rows rows' : Rows} {callRows callRows' : Nat → Rows}
    (hrows : rows.SameIn rows' input.ctx.projectId)
    (hcalls : ∀ k, (callRows k).SameIn (callRows' k) input.ctx.projectId) :
    runAgent (input.over rows.reads fun k => (callRows k).reads) =
      runAgent (input.over rows'.reads fun k => (callRows' k).reads) := by
  have hsame : userMessage input.python rows'.reads input.ctx input.prompt input.mode input.selection =
      userMessage input.python rows.reads input.ctx input.prompt input.mode input.selection :=
    (userMessage_congr hrows.reads _ _ _).symm
  cases huser : userMessage input.python rows.reads input.ctx input.prompt input.mode input.selection with
  | error e =>
    rw [huser] at hsame
    exact (runAgent_error huser).trans (runAgent_error hsame).symm
  | ok first =>
    obtain ⟨content, ctx⟩ := first
    rw [huser] at hsame
    have hproject : ctx.projectId = input.ctx.projectId := projectId_userMessage huser
    have hloop : chatLoop (input.over rows'.reads fun k => (callRows' k).reads) input.maxSteps.toNat
        (input.start content ctx) =
          chatLoop (input.over rows.reads fun k => (callRows k).reads) input.maxSteps.toNat (input.start content ctx) :=
      (chatLoop_congr (fun k => (hcalls k).reads) _ hproject).symm
    exact (runAgent_of huser rfl).trans (runAgent_of hsame hloop).symm

end Runs

/-- Two projects with a file each. -/
def twoProjects (text : Str) : Rows where
  files := [⟨1, 1, "a.py", .python⟩, ⟨2, 2, "b.py", .python⟩]
  nodup := by decide
  room? _ _ := none
  version? file := if file = 1 then some (ofString "pass") else some text
  executions := []

/-- The model reads the file of the other project, whose text differs. -/
theorem agent_sees_only_its_project_other :
    let input := oneCall (ofString "\x7b\"file_id\": 2\x7d")
    let rows := twoProjects []
    let rows' := twoProjects (ofString "secret")
    runAgent (input.over rows.reads fun _ => rows.reads) = runAgent (input.over rows'.reads fun _ => rows'.reads) := by
  have hsame : (twoProjects []).SameIn (twoProjects (ofString "secret")) 1 := by
    refine ⟨rfl, fun _ _ => rfl, fun file hfile => ?_, fun _ _ => rfl⟩
    obtain rfl := List.mem_singleton.1 hfile
    rfl
  exact agent_sees_only_its_project _ hsame fun _ => hsame

end Concord.Agent
