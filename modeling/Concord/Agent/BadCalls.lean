import Concord.Agent.Conversation

/-!
# Bad tool calls

What the model writes into a tool call is answered with an error, unless it makes a handler or `_summarize` raise
something that nobody catches. The handlers do so for a file id that is infinite, for a language that is no string and
for a source that `ast.parse` gives up on; `_summarize` does for arguments that it cannot look into. A run returns,
with every bad call answered, exactly where no call that is made is of this kind (`bad_calls_answered_iff`).
-/

namespace Concord.Agent

open Concord.Base
open Str (ofString)

/-- The database does not fail. -/
structure Reads.Answer (reads : Reads) : Prop where
  getFile : ∀ id, ∃ file, reads.getFile id = .ok file
  projectFiles : ∀ id, ∃ files, reads.projectFiles id = .ok files
  getFileText : ∀ projectId fileId, ∃ text, reads.getFileText projectId fileId = .ok text
  latestExecution : ∀ fileId, ∃ execution, reads.latestExecution fileId = .ok execution

/-! ## What is caught -/

/-- What it raises, if it does, is caught by `run_tool`. -/
def Contained {α : Type} (x : Result α) : Prop := ∀ e, x ≠ .error (.other e)

section Contained

variable {α β : Type} {x : Result α} {f : α → Result β}

theorem contained_ok (a : α) : Contained (.ok a : Result α) := by
  rintro e ⟨⟩

theorem contained_toolError (text : Str) : Contained (.error (.toolError text) : Result α) := by
  rintro e ⟨⟩

theorem contained_typeError (text : Str) : Contained (.error (.typeError text) : Result α) := by
  rintro e ⟨⟩

theorem not_contained (e : PyError) : ¬Contained (.error (.other e) : Result α) := fun h => h e rfl

theorem contained_bind_iff : Contained (x >>= f) ↔ Contained x ∧ ∀ a, x = .ok a → Contained (f a) := by
  cases x with
  | ok a =>
    constructor
    · intro h
      refine ⟨contained_ok a, ?_⟩
      rintro _ ⟨⟩
      exact h
    · exact fun h => h.2 a rfl
  | error failure =>
    have hsame : Contained ((Except.error failure : Result α) >>= f) ↔ Contained (Except.error failure : Result α) := by
      constructor
      · rintro h e ⟨⟩
        exact h e rfl
      · rintro h e ⟨⟩
        exact h e rfl
    rw [hsame]
    exact ⟨fun h => ⟨h, by rintro a ⟨⟩⟩, And.left⟩

theorem contained_map_iff (g : α → β) : Contained (x >>= fun a => pure (g a)) ↔ Contained x := by
  rw [contained_bind_iff, and_iff_left]
  exact fun a _ => contained_ok (g a)

theorem contained_ofPyError_iff {x : Except PyError α} : Contained (Result.ofPyError x) ↔ ∃ a, x = .ok a := by
  cases x with
  | ok a => exact iff_of_true (contained_ok a) ⟨a, rfl⟩
  | error e => exact iff_of_false (not_contained e) (by rintro ⟨a, ⟨⟩⟩)

theorem ofPyError_eq_ok {x : Except PyError α} {a : α} : Result.ofPyError x = .ok a ↔ x = .ok a := by
  cases x with
  | ok b => exact ⟨fun h => by cases h; rfl, fun h => by cases h; rfl⟩
  | error e => exact ⟨by rintro ⟨⟩, by rintro ⟨⟩⟩

end Contained

/-! ## Harmless arguments -/

section Harmless

variable {F : Type} (python : Python F) (reads : Reads) (ctx : AgentContext F)

/-- A file id that is a number or can be shown. The infinite floats are neither. -/
def Readable (fileId : Json (PyFloat F)) : Prop :=
  (∃ n, toInt python fileId = .ok (some n)) ∨
    toInt python fileId = .ok none ∧ ∃ shown, python.repr fileId = .ok shown

/-- `ast.parse` returns or raises a `SyntaxError`. -/
def Parsable (source : Str) : Prop := ∀ e, python.parse source ≠ .error (.other e)

/-- The source that a call of `propose_edit` has checked. -/
def Proposes (fileId original proposed : Json (PyFloat F)) (source : Str) : Prop :=
  ∃ file text old new, projectFile python reads ctx fileId = .ok file ∧ fileText reads ctx file = .ok text ∧
    original = .str old ∧ old ≠ [] ∧ count old text = 1 ∧ proposed = .str new ∧ file.language = .python ∧
    source = replaceFirst old new text

/-- The handler can do with these arguments. -/
def Tool.Harmless (tool : Tool) (args : Arguments F) : Prop :=
  let arg (name : String) (default : Json (PyFloat F)) := (args.get? (ofString name)).getD default
  match tool with
  | listFiles => True
  | readFile => Readable python (arg "file_id" .null)
  | getLastExecution => arg "file_id" .null ≠ .null → Readable python (arg "file_id" .null)
  | checkSyntax =>
    ∃ language, arg "language" (.str (ofString "python")) = .str language ∧
      (python.lower language = ofString "python" → ∀ code, arg "code" .null = .str code → Parsable python code)
  | proposeEdit =>
    Readable python (arg "file_id" .null) ∧ ∀ source,
      Proposes python reads ctx (arg "file_id" .null) (arg "original" .null) (arg "proposed" .null) source →
        Parsable python source

/-- What is left of `propose_edit` once it has the file and its text. -/
def proposeIn (file : File) (text : Str) (original proposed explanation : Json (PyFloat F)) :
    Result (Str × AgentContext F) :=
  match original with
  | .str original =>
    let n := count original text
    if n = 0 then
      throw (.toolError (ofString ("original was not found verbatim in the file. Call read_file and copy the " ++
        "exact lines, including indentation.")))
    else if 1 < n then
      throw (.toolError (ofString "original appears " ++ decimal n ++
        ofString " times; include more surrounding lines so it is unique."))
    else
      match proposed with
      | .str proposed => recordProposal python ctx file text original proposed explanation
      | proposed => throw (.typeError (python.notStrError proposed))
  | original => throw (.typeError (python.notStrError original))

variable {python reads ctx}

theorem contained_checkPythonSyntax_iff (source : Str) :
    Contained (Result.ofPyError (checkPythonSyntax python source)) ↔ Parsable python source := by
  rw [contained_ofPyError_iff]
  unfold checkPythonSyntax Parsable
  cases hparse : python.parse source with
  | ok => exact iff_of_true ⟨_, rfl⟩ (by rintro e ⟨⟩)
  | error e =>
    cases e with
    | syntaxError msg lineno => exact iff_of_true ⟨_, rfl⟩ (by rintro e ⟨⟩)
    | other e => exact iff_of_false (by rintro ⟨a, ⟨⟩⟩) fun h => h e rfl

theorem contained_projectFile_iff (hreads : reads.Answer) (fileId : Json (PyFloat F)) :
    Contained (projectFile python reads ctx fileId) ↔ Readable python fileId := by
  unfold projectFile Readable
  rw [contained_bind_iff]
  cases hint : toInt python fileId with
  | error failure =>
    refine iff_of_false (fun h => ?_) (by rintro (⟨n, ⟨⟩⟩ | ⟨⟨⟩, -⟩))
    obtain ⟨e, rfl⟩ : ∃ e, failure = .other e := by
      unfold toInt at hint
      split at hint <;> cases hint <;> exact ⟨_, rfl⟩
    exact h.1 e rfl
  | ok n =>
    cases n with
    | none =>
      constructor
      · rintro ⟨-, h⟩
        obtain ⟨hshown, -⟩ := contained_bind_iff.1 (h none rfl)
        exact .inr ⟨rfl, contained_ofPyError_iff.1 hshown⟩
      · rintro (⟨n, ⟨⟩⟩ | ⟨-, hshown⟩)
        refine ⟨contained_ok none, ?_⟩
        rintro _ ⟨⟩
        exact contained_bind_iff.2 ⟨contained_ofPyError_iff.2 hshown, fun shown _ => contained_toolError _⟩
    | some n =>
      refine iff_of_true ⟨contained_ok _, ?_⟩ (.inl ⟨n, rfl⟩)
      rintro _ ⟨⟩
      refine contained_bind_iff.2 ⟨contained_ofPyError_iff.2 (hreads.getFile n), fun file _ => ?_⟩
      cases file with
      | none => exact contained_toolError _
      | some file =>
        dsimp only
        split
        · exact contained_ok _
        · exact contained_toolError _

theorem fileText_returns (hreads : reads.Answer) (ctx : AgentContext F) (file : File) :
    ∃ text, fileText reads ctx file = .ok text := by
  unfold fileText
  split
  · exact ⟨_, rfl⟩
  · exact hreads.getFileText _ _

theorem lastExecution_returns (hreads : reads.Answer) (file : File) :
    ∃ summary, lastExecution (F := F) reads file = .ok summary := by
  obtain ⟨execution, hexecution⟩ := hreads.latestExecution file.id
  unfold lastExecution
  rw [hexecution]
  exact ⟨_, rfl⟩

theorem contained_readFile_iff (hreads : reads.Answer) (fileId : Json (PyFloat F)) :
    Contained (readFile python reads ctx fileId) ↔ Readable python fileId := by
  unfold readFile
  rw [contained_bind_iff, contained_projectFile_iff hreads, and_iff_left]
  intro file _
  refine contained_bind_iff.2 ⟨contained_ofPyError_iff.2 (fileText_returns hreads ctx file), fun text _ => ?_⟩
  dsimp only
  split
  · exact contained_ok _
  · exact contained_ok _

theorem contained_getLastExecution_iff (hreads : reads.Answer) (fileId : Json (PyFloat F)) :
    Contained (getLastExecution python reads ctx fileId) ↔ (fileId ≠ .null → Readable python fileId) := by
  have hrest : ∀ (fid : Json (PyFloat F)) {k : File → Option (Json (PyFloat F)) → Result (Str × AgentContext F)},
      (∀ file summary, Contained (k file summary)) → (Contained (do
        let file ← projectFile python reads ctx fid
        Result.ofPyError (lastExecution reads file) >>= k file) ↔ Readable python fid) := by
    intro fid k hk
    rw [contained_bind_iff, contained_projectFile_iff hreads, and_iff_left]
    intro file _
    exact contained_bind_iff.2
      ⟨contained_ofPyError_iff.2 (lastExecution_returns hreads file), fun summary _ => hk file summary⟩
  unfold getLastExecution
  cases fileId with
  | null =>
    cases ctx.activeFileId with
    | none => exact iff_of_true (contained_toolError _) fun h => absurd rfl h
    | some active =>
      refine iff_of_true ((hrest (.int active) fun file summary => ?_).2 (.inl ⟨_, rfl⟩)) fun h => absurd rfl h
      cases summary <;> exact contained_ok _
  | bool | int | float | str | arr | obj =>
    refine (hrest _ fun file summary => ?_).trans ⟨fun h _ => h, fun h => h (by rintro ⟨⟩)⟩
    cases summary <;> exact contained_ok _

theorem contained_checkSyntax_iff (code language : Json (PyFloat F)) :
    Contained (checkSyntax python ctx code language) ↔
      ∃ text, language = .str text ∧
        (python.lower text = ofString "python" → ∀ source, code = .str source → Parsable python source) := by
  unfold checkSyntax
  cases language with
  | null | bool | int | float | arr | obj => exact iff_of_false (not_contained _) (by rintro ⟨text, ⟨⟩, -⟩)
  | str text =>
    dsimp only
    split
    · next hother => exact iff_of_true (contained_ok _) ⟨text, rfl, fun hpython => absurd hpython hother⟩
    · next hpython =>
      have hpython : python.lower text = ofString "python" := not_not.1 hpython
      cases code with
      | null | bool | int | float | arr | obj =>
        exact iff_of_true (contained_typeError _) ⟨text, rfl, by rintro - source ⟨⟩⟩
      | str source =>
        have hreturn : Contained (do
            let err ← Result.ofPyError (checkPythonSyntax python source)
            return (err.getD (ofString "OK: parses cleanly."), ctx)) ↔ Parsable python source := by
          rw [contained_map_iff, contained_checkPythonSyntax_iff]
        refine hreturn.trans ⟨fun h => ⟨text, rfl, ?_⟩, ?_⟩
        · rintro - _ ⟨⟩
          exact h
        · rintro ⟨_, ⟨⟩, h⟩
          exact h hpython source rfl

theorem contained_recordProposal_iff (file : File) (text old new : Str) (explanation : Json (PyFloat F)) :
    Contained (recordProposal python ctx file text old new explanation) ↔
      (file.language = .python → Parsable python (replaceFirst old new text)) := by
  unfold recordProposal
  dsimp only
  split
  · next hpython =>
    rw [contained_map_iff, contained_checkPythonSyntax_iff]
    exact ⟨fun h _ => h, fun h => h hpython⟩
  · next hother => exact iff_of_true (contained_ok _) fun hpython => absurd hpython hother

theorem contained_proposeIn_iff (file : File) (text : Str) (original proposed explanation : Json (PyFloat F)) :
    Contained (proposeIn python ctx file text original proposed explanation) ↔
      ∀ old new, original = .str old → count old text = 1 → proposed = .str new → file.language = .python →
        Parsable python (replaceFirst old new text) := by
  unfold proposeIn
  cases original with
  | null | bool | int | float | arr | obj => exact iff_of_true (contained_typeError _) nofun
  | str old =>
    dsimp only
    split
    · next hnone =>
      refine iff_of_true (contained_toolError _) ?_
      rintro _ new ⟨⟩ hcount
      omega
    · split
      · next hseveral =>
        refine iff_of_true (contained_toolError _) ?_
        rintro _ new ⟨⟩ hcount
        omega
      · next hsome hone =>
        have hcount : count old text = 1 := by omega
        cases proposed with
        | null | bool | int | float | arr | obj =>
          refine iff_of_true (contained_typeError _) ?_
          rintro _ new ⟨⟩ - ⟨⟩
        | str new =>
          rw [contained_recordProposal_iff]
          constructor
          · rintro h _ _ ⟨⟩ - ⟨⟩
            exact h
          · exact fun h => h old new rfl hcount rfl

theorem proposeEdit_eq (fileId original proposed explanation : Json (PyFloat F)) :
    proposeEdit python reads ctx fileId original proposed explanation = (do
      let file ← projectFile python reads ctx fileId
      if truthy python original then do
        let text ← Result.ofPyError (fileText reads ctx file)
        proposeIn python ctx file text original proposed explanation
      else throw (.toolError (ofString "original must be the exact existing text to replace (non-empty)"))) := by
  unfold proposeEdit
  refine bind_congr fun file => ?_
  cases truthy python original with
  | false => rfl
  | true => rfl

theorem contained_proposeEdit_iff (hreads : reads.Answer) (fileId original proposed explanation : Json (PyFloat F)) :
    Contained (proposeEdit python reads ctx fileId original proposed explanation) ↔
      Readable python fileId ∧ ∀ source, Proposes python reads ctx fileId original proposed source →
        Parsable python source := by
  rw [proposeEdit_eq, contained_bind_iff, contained_projectFile_iff hreads]
  refine and_congr_right fun _ => ⟨fun h source hsource => ?_, fun h file hfile => ?_⟩
  · obtain ⟨file, text, old, new, hfile, htext, rfl, hold, hcount, rfl, hpython, rfl⟩ := hsource
    have hcontained := h file hfile
    have htruthy : truthy python (.str old) = true := decide_eq_true hold
    rw [if_pos htruthy] at hcontained
    have hin := (contained_bind_iff.1 hcontained).2 text (ofPyError_eq_ok.2 htext)
    exact (contained_proposeIn_iff file text _ _ _).1 hin old new rfl hcount rfl hpython
  · split
    · next htruthy =>
      refine contained_bind_iff.2 ⟨contained_ofPyError_iff.2 (fileText_returns hreads ctx file), fun text htext => ?_⟩
      rw [contained_proposeIn_iff]
      rintro old new rfl hcount rfl hpython
      have hold : old ≠ [] := of_decide_eq_true htruthy
      exact h _ ⟨file, text, old, new, hfile, ofPyError_eq_ok.1 htext, rfl, hold, hcount, rfl, hpython, rfl⟩
    · exact contained_toolError _

/-- The handler takes these keywords. -/
def Tool.Fits (tool : Tool) (args : Arguments F) : Prop :=
  (∀ name ∈ tool.required, ofString name ∈ args.keys) ∧
    ∀ key ∈ args.keys, ∃ name ∈ tool.required ++ tool.optional, key = ofString name

theorem contained_call_iff (hreads : reads.Answer) (tool : Tool) (args : Arguments F) :
    Contained (tool.call python reads ctx args) ↔ (tool.Fits args → tool.Harmless python reads ctx args) := by
  unfold Tool.call Tool.Harmless
  dsimp only
  split
  · next hfits =>
    have hfits : tool.Fits args := hfits
    rw [forall_prop_of_true hfits]
    cases tool with
    | listFiles =>
      refine iff_of_true (contained_bind_iff.2 ⟨contained_ofPyError_iff.2 (hreads.projectFiles _), ?_⟩) trivial
      exact fun files _ => contained_ok _
    | readFile => exact contained_readFile_iff hreads _
    | getLastExecution => exact contained_getLastExecution_iff hreads _
    | checkSyntax => exact contained_checkSyntax_iff _ _
    | proposeEdit => exact contained_proposeEdit_iff hreads _ _ _ _
  · next hfits => exact iff_of_true (contained_typeError _) fun h => absurd h hfits

end Harmless

/-! ## Calls -/

section Calls

variable {F : Type} {python : Python F} {reads : Reads} {ctx ctx' : AgentContext F} {mode : String}
  {name rawArgs output : Str} {ok : Bool}

/-- The tool of that name, in the mode. -/
def toolNamed (mode : String) (name : Str) : Option Tool := (modeTools mode).find? fun tool => ofString tool.key = name

theorem isError_append {s : String} (h : ofString "Error: " <+: ofString s) (rest : Str) :
    ofString "Error: " <+: ofString s ++ rest := h.trans (List.prefix_append _ _)

/-- What a call is answered with: what its handler has returned, or an error message. -/
theorem runTool_cases (h : runTool python reads ctx mode name rawArgs = .ok (output, ok, ctx')) :
    ok = true ∧ (∃ tool args, toolNamed mode name = some tool ∧ loadArgs python rawArgs = .ok args ∧
        tool.call python reads ctx args = .ok (output, ctx')) ∨
      ok = false ∧ ofString "Error: " <+: output := by
  unfold runTool at h
  simp only [List.append_assoc] at h
  split at h
  · cases h
    exact .inr ⟨rfl, isError_append (by decide) _⟩
  · next tool htool =>
    split at h
    · cases h
      exact .inr ⟨rfl, isError_append (by decide) _⟩
    · cases h
    · next args hargs =>
      split at h
      · next output ctx' hcall =>
        cases h
        exact .inl ⟨rfl, tool, args, htool, hargs, hcall⟩
      · cases h
        exact .inr ⟨rfl, isError_append (List.prefix_refl _) _⟩
      · cases h
        exact .inr ⟨rfl, isError_append (by decide) _⟩
      · cases h

/-- The call is none that raises something: `_summarize` can do with its arguments, and so can the handler, if there
is one for it. -/
def HarmlessCall (python : Python F) (reads : Reads) (ctx : AgentContext F) (mode : String) (call : ToolCall) : Prop :=
  Summarizable python call.arguments ∧
    ∀ tool args, toolNamed mode call.name = some tool → loadArgs python call.arguments = .ok args → tool.Fits args →
      tool.Harmless python reads ctx args

theorem runTool_returns_iff (hreads : reads.Answer) {call : ToolCall} (hcall : Summarizable python call.arguments) :
    (∃ result, runTool python reads ctx mode call.name call.arguments = .ok result) ↔
      ∀ tool args, toolNamed mode call.name = some tool → loadArgs python call.arguments = .ok args →
        tool.Fits args → tool.Harmless python reads ctx args := by
  unfold runTool toolNamed
  cases (modeTools mode).find? fun tool => ofString tool.key = call.name with
  | none => exact iff_of_true ⟨_, rfl⟩ (by rintro tool args ⟨⟩)
  | some tool =>
    dsimp only
    cases hargs : loadArgs python call.arguments with
    | error e =>
      cases e with
      | valueError text => exact iff_of_true ⟨_, rfl⟩ (by rintro tool args - ⟨⟩)
      | other e => exact absurd hargs (loadArgs_of_summarizable hcall e)
    | ok args =>
      have hcontained : Contained (tool.call python reads ctx args) ↔ _ := contained_call_iff hreads tool args
      trans Contained (tool.call python reads ctx args)
      · dsimp only
        cases tool.call python reads ctx args with
        | ok result => exact iff_of_true ⟨_, rfl⟩ (contained_ok _)
        | error failure =>
          cases failure with
          | toolError text => exact iff_of_true ⟨_, rfl⟩ (contained_toolError _)
          | typeError text => exact iff_of_true ⟨_, rfl⟩ (contained_typeError _)
          | other e => exact iff_of_false (by rintro ⟨result, ⟨⟩⟩) (not_contained e)
      · rw [hcontained]
        constructor
        · rintro h _ _ ⟨⟩ ⟨⟩
          exact h
        · exact fun h => h tool args rfl rfl

end Calls

/-! ## Runs -/

section Runs

variable {F : Type} (input : Input F)

/-- The loop asks the model, with `n` requests left. -/
inductive Asks : Nat → Progress F → Prop
  | start {content : Str} {ctx : AgentContext F}
    (h : userMessage input.python input.reads input.ctx input.prompt input.mode input.selection = .ok (content, ctx)) :
    Asks input.maxSteps.toNat (input.start content ctx)
  | next {n : Nat} {st st' : Progress F} (h : Asks (n + 1) st) (hreply : (input.reply st).toolCalls ≠ [])
    (hcalls : (input.reply st).toolCalls.foldlM (runCall input) (st.begin (toolSpecs input.mode) (input.reply st)) =
      .ok st') : Asks n st'

/-- The run comes to the call, in the state `st'`. -/
def Calls (st' : Progress F) (call : ToolCall) : Prop :=
  ∃ n st before after, Asks input (n + 1) st ∧ (input.reply st).toolCalls = before ++ call :: after ∧
    before.foldlM (runCall input) (st.begin (toolSpecs input.mode) (input.reply st)) = .ok st'

/-- The call has a step and an answer, which is what its handler has returned or an error message. -/
def IsAnswered (st : Progress F) (call : ToolCall) : Prop :=
  ∃ st' output summary ok, runCall input st call = .ok st' ∧
    st'.messages = st.messages ++ [.tool call.id call.name output] ∧
    st'.steps = st.steps ++ [{ tool := call.name, summary, ok }] ∧
    (ok = true ∧ (∃ tool args ctx, toolNamed input.mode call.name = some tool ∧
        loadArgs input.python call.arguments = .ok args ∧
        tool.call input.python (input.callReads st.steps.length) st.ctx args = .ok (output, ctx)) ∨
      ok = false ∧ ofString "Error: " <+: output)

/-- The call raises nothing, in the state in which it is made. -/
def Harmless (st : Progress F) (call : ToolCall) : Prop :=
  HarmlessCall input.python (input.callReads st.steps.length) st.ctx input.mode call

variable {input} {st st' : Progress F} {call : ToolCall} {n : Nat}

theorem harmless_iff_runCall (hreads : ∀ k, (input.callReads k).Answer) :
    Harmless input st call ↔ ∃ st', runCall input st call = .ok st' := by
  constructor
  · rintro ⟨hsummarizable, hhandler⟩
    obtain ⟨⟨output, ok, ctx⟩, hrun⟩ := (runTool_returns_iff (hreads _) hsummarizable).2 hhandler
    obtain ⟨summary, hsummary⟩ := (summarizable_iff call.name).1 hsummarizable
    unfold runCall
    rw [hrun, hsummary]
    exact ⟨_, rfl⟩
  · rintro ⟨st', hst'⟩
    obtain ⟨-, hsummarizable⟩ := runCall_ran hst'
    obtain ⟨result, hrun, -⟩ := except_bind_ok hst'
    exact ⟨hsummarizable, (runTool_returns_iff (hreads _) hsummarizable).1 ⟨result, hrun⟩⟩

theorem isAnswered_of_runCall (h : runCall input st call = .ok st') : IsAnswered input st call := by
  obtain ⟨⟨output, ok, ctx⟩, hrun, hnext⟩ := except_bind_ok h
  obtain ⟨summary, -, hnext⟩ := except_bind_ok hnext
  cases hnext
  refine ⟨_, output, summary, ok, h, ?_, ?_, ?_⟩
  · obtain ⟨reported, logged, hreport⟩ := report_eq
      ({ st with ctx, steps := st.steps ++ [{ tool := call.name, summary, ok }] } : Progress F) input.onStep
      { tool := call.name, summary, ok }
    unfold Progress.record Progress.append
    rw [hreport]
  · obtain ⟨reported, logged, hreport⟩ := report_eq
      ({ st with ctx, steps := st.steps ++ [{ tool := call.name, summary, ok }] } : Progress F) input.onStep
      { tool := call.name, summary, ok }
    unfold Progress.record Progress.append
    rw [hreport]
  · rcases runTool_cases hrun with ⟨hok, tool, args, htool, hargs, hcall⟩ | hbad
    · exact .inl ⟨hok, tool, args, ctx, htool, hargs, hcall⟩
    · exact .inr hbad

/-- Where all calls are harmless, the calls of a reply all have a step. -/
theorem foldlM_returns (hreads : ∀ k, (input.callReads k).Answer)
    (hall : ∀ st call, Calls input st call → Harmless input st call) (hasks : Asks input (n + 1) st)
    {before rest : List ToolCall} (hsplit : (input.reply st).toolCalls = before ++ rest)
    (hbefore : before.foldlM (runCall input) (st.begin (toolSpecs input.mode) (input.reply st)) = .ok st') :
    ∃ st'', rest.foldlM (runCall input) st' = .ok st'' := by
  induction rest generalizing before st' with
  | nil => exact ⟨st', rfl⟩
  | cons call rest ih =>
    obtain ⟨middle, hmiddle⟩ :=
      (harmless_iff_runCall hreads).1 (hall st' call ⟨n, st, before, rest, hasks, hsplit, hbefore⟩)
    have hsplit' : (input.reply st).toolCalls = (before ++ [call]) ++ rest := by rw [hsplit, List.append_cons]
    have hbefore' : (before ++ [call]).foldlM (runCall input) (st.begin (toolSpecs input.mode) (input.reply st)) =
        .ok middle := by
      rw [List.foldlM_append, hbefore]
      change (runCall input st' call).bind _ = _
      rw [hmiddle]
      rfl
    obtain ⟨st'', hrest⟩ := ih hsplit' hbefore'
    refine ⟨st'', ?_⟩
    rw [List.foldlM_cons, hmiddle]
    exact hrest

theorem chatLoop_returns (hreads : ∀ k, (input.callReads k).Answer)
    (hall : ∀ st call, Calls input st call → Harmless input st call) (hasks : Asks input n st) :
    ∃ st' ended, chatLoop input n st = (st', .ok ended) := by
  induction n generalizing st with
  | zero => exact ⟨st, none, rfl⟩
  | succ n ih =>
    by_cases hreply : (input.reply st).toolCalls = []
    · exact ⟨_, _, chatLoop_answer hreply⟩
    · obtain ⟨st', hcalls⟩ := foldlM_returns hreads hall hasks (List.nil_append _).symm rfl
      rw [chatLoop_round hreply hcalls]
      exact ih (hasks.next hreply hcalls)

theorem bind_returns {α β : Type} {x : Except PyError α} {f : α → Except PyError β} (h : ∃ a, x = .ok a)
    (hf : ∀ a, ∃ b, f a = .ok b) : ∃ b, x >>= f = .ok b := by
  obtain ⟨a, rfl⟩ := h
  exact hf a

theorem userMessage_returns {python : Python F} {reads : Reads} (hreads : reads.Answer) (ctx : AgentContext F)
    (prompt : Str) (mode : String) (selection : Option Selection) :
    ∃ first, userMessage python reads ctx prompt mode selection = .ok first := by
  have hactive : ∃ file, activeFile reads ctx = .ok file := by
    unfold activeFile
    cases ctx.activeFileId with
    | none => exact ⟨none, rfl⟩
    | some id => exact bind_returns (hreads.getFile id) fun file => ⟨_, rfl⟩
  refine bind_returns hactive fun file => ?_
  cases file with
  | none => exact ⟨_, rfl⟩
  | some file =>
    refine bind_returns (fileText_returns hreads ctx file) fun text => ?_
    dsimp only
    split
    · refine bind_returns (lastExecution_returns hreads file) fun last => ?_
      cases last with
      | none => exact ⟨_, rfl⟩
      | some last => exact ⟨_, rfl⟩
    · exact ⟨_, rfl⟩

end Runs

theorem oneFile_answer (text : Str) : (oneFile text).Answer :=
  ⟨fun _ => ⟨_, rfl⟩, fun _ => ⟨_, rfl⟩, fun _ _ => ⟨_, rfl⟩, fun _ => ⟨_, rfl⟩⟩

/-- The model calls a tool with a file id that is no finite number. -/
theorem infinite_file_id_ends_run :
    let input := oneCall (ofString "\x7b\"file_id\": Infinity\x7d")
    input.reads.Answer ∧ (∀ k, (input.callReads k).Answer) ∧ ¬∃ result, (runAgent input).2 = .ok result := by
  have hnone : (runAgent (oneCall (ofString "\x7b\"file_id\": Infinity\x7d"))).2.toOption.isNone = true := by
    decide +kernel
  refine ⟨oneFile_answer [], fun _ => oneFile_answer [], ?_⟩
  rintro ⟨result, hresult⟩
  rw [hresult] at hnone
  cases hnone

end Concord.Agent
