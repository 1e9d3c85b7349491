import Concord.Base.Json
import Concord.Models
import Mathlib

/-!
# Runs in the console

`lib/runs.ts` of the frontend: the runs that the console shows, assembled from the events about them. The
output of a run is a string of JavaScript, a list of UTF-16 units.
-/

namespace Concord

open Concord.Base

/-! ## Strings -/

/-- A string of JavaScript. -/
abbrev JsString := List UInt16

/-- The UTF-16 units of a code point. Half a surrogate pair is a unit of its own. -/
def utf16Units (c : CodePoint) : JsString :=
  if c.val < 0x10000 then [UInt16.ofNat c.val]
  else [UInt16.ofNat (0xD800 + (c.val - 0x10000) / 0x400), UInt16.ofNat (0xDC00 + (c.val - 0x10000) % 0x400)]

/-- What a Python string comes to in JavaScript, through JSON. -/
def utf16 (s : Str) : JsString := s.flatMap utf16Units

@[simp] theorem utf16_nil : utf16 [] = [] := rfl

@[simp] theorem utf16_append (s t : Str) : utf16 (s ++ t) = utf16 s ++ utf16 t := List.flatMap_append

/-! ## Runs and events -/

/-- `Run`. -/
structure Run where
  id : Int
  fileId : Option Int
  path : Option String
  username : Option String
  status : String
  stdout : JsString
  stderr : JsString
  exitCode : Option Int
  duration : Option ℚ
  startedAt : Int
  withInput : Bool
  notes : List String
deriving DecidableEq

/-- What an event says. `otherOp` has an `op` and no `type`, `other` has a `type` that the console does
not know. -/
inductive RunEventBody
  | executionQueued (fileId : Int) (path : Option String) (username : String)
  | otherOp
  | localQueued (fileId : Int) (path : String) (username : Option String) (withInput : Bool)
  | executionStatus (status : String)
  | executionOutput (stdout stderr : Option JsString) (exitCode : Option Int) (duration : Option ℚ)
  | executionOutputChunk (stream : String) (text : Option JsString)
  | debugStarted
  | debugPaused
  | other
deriving DecidableEq

/-- `RunEvent`. -/
structure RunEvent where
  executionId : Option Int
  body : RunEventBody
deriving DecidableEq

/-- `FINISHED`. -/
def finishedStatuses : List String := ["completed", "failed", "timeout", "cancelled"]

/-- `blank`, at the time `now`. -/
def blank (now : Int) (id : Int) : Run where
  id := id
  fileId := none
  path := none
  username := none
  status := "queued"
  stdout := []
  stderr := []
  exitCode := none
  duration := none
  startedAt := now
  withInput := false
  notes := []

/-- `next` of `applyRunEvent`, if the event changes the runs at all. -/
def Run.next (run : Run) : RunEventBody → Option Run
  | .executionQueued fileId path username =>
    some { run with fileId := some fileId, path := path.or run.path, username := some username }
  | .otherOp => some run
  | .localQueued fileId path username withInput =>
    some { run with fileId := some fileId, path := some path, username := run.username.or username, withInput }
  | .executionStatus status =>
    -- A late `running` must not undo a finished status.
    if run.status ∈ finishedStatuses ∧ status ∉ finishedStatuses then some run
    else some { run with status }
  | .executionOutput stdout stderr exitCode duration =>
    some { run with
      stdout := stdout.getD []
      stderr := stderr.getD []
      exitCode := exitCode.or run.exitCode
      duration := duration.or run.duration }
  | .executionOutputChunk stream text =>
    let text := text.getD []
    if stream = "stderr" then some { run with stderr := run.stderr ++ text }
    else some { run with stdout := run.stdout ++ text }
  | .debugStarted => some { run with notes := run.notes ++ ["under the debugger"] }
  | .debugPaused =>
    if "paused at a breakpoint" ∉ run.notes then
      some { run with notes := run.notes ++ ["paused at a breakpoint"] }
    else none
  | .other => none

/-- `applyRunEvent`, at the time `now`. -/
def applyRunEvent (now : Int) (runs : List Run) (event : RunEvent) : List Run :=
  match event.executionId with
  | none => runs
  | some id =>
    match runs.findIdx? (·.id = id) with
    | none =>
      match (blank now id).next event.body with
      | none => runs
      | some next => runs ++ [next]
    | some idx =>
      match (runs.getD idx (blank now id)).next event.body with
      | none => runs
      | some next => runs.set idx next

/-- The events, each with the time at which it comes. -/
def applyRunEvents (runs : List Run) (events : List (Int × RunEvent)) : List Run :=
  events.foldl (fun runs event => applyRunEvent event.1 runs event.2) runs

/-! ## Events about one run -/

variable {runs : List Run} {run next : Run} {body : RunEventBody}

@[simp] theorem applyRunEvents_nil : applyRunEvents runs [] = runs := rfl

@[simp] theorem applyRunEvents_cons (event : Int × RunEvent) (events : List (Int × RunEvent)) :
    applyRunEvents runs (event :: events) = applyRunEvents (applyRunEvent event.1 runs event.2) events :=
  rfl

/-- An event about the last run of the list changes that run alone. -/
theorem applyRunEvent_concat (now : Int) (hfresh : ∀ other ∈ runs, other.id ≠ run.id) (h : run.next body = some next) :
    applyRunEvent now (runs ++ [run]) ⟨some run.id, body⟩ = runs ++ [next] := by
  have hbefore : runs.findIdx? (fun other => decide (other.id = run.id)) = none :=
    List.findIdx?_eq_none_iff.2 fun other hother => decide_eq_false (hfresh other hother)
  have hidx : (runs ++ [run]).findIdx? (fun other => decide (other.id = run.id)) = some runs.length := by
    rw [List.findIdx?_append, hbefore]
    simp
  have hget : (runs ++ [run]).getD runs.length (blank now run.id) = run := by simp
  unfold applyRunEvent
  dsimp only
  rw [hidx]
  dsimp only
  rw [hget, h]
  simp

/-- The event about a part of the output. -/
def chunkEvent (id : Int) (stream : String) (text : JsString) : RunEvent :=
  ⟨some id, .executionOutputChunk stream text⟩

/-- A run after parts of its output. -/
def Run.withChunks (run : Run) (chunks : List (String × JsString)) : Run :=
  { run with
    stdout := run.stdout ++ (chunks.filter (·.1 ≠ "stderr")).flatMap (·.2)
    stderr := run.stderr ++ (chunks.filter (·.1 = "stderr")).flatMap (·.2) }

@[simp] theorem Run.withChunks_id (run : Run) (chunks : List (String × JsString)) :
    (run.withChunks chunks).id = run.id := rfl

@[simp] theorem Run.withChunks_nil (run : Run) : run.withChunks [] = run := by
  simp [withChunks]

theorem Run.withChunks_cons (run : Run) (chunk : String × JsString) (chunks : List (String × JsString)) :
    run.withChunks (chunk :: chunks) = (run.withChunks [chunk]).withChunks chunks := by
  by_cases h : chunk.1 = "stderr"
  · simp [withChunks, h]
  · simp [withChunks, h]

theorem Run.next_chunk (run : Run) (stream : String) (text : JsString) :
    run.next (.executionOutputChunk stream text) = some (run.withChunks [(stream, text)]) := by
  unfold next
  dsimp only
  by_cases h : stream = "stderr"
  · simp [withChunks, h]
  · simp [withChunks, h]

/-- The parts of the output of a run are put together by stream, in their order. -/
theorem applyRunEvents_chunks {chunks : List (String × JsString)} {events : List (Int × RunEvent)}
    (hfresh : ∀ other ∈ runs, other.id ≠ run.id)
    (hevents : events.map Prod.snd = chunks.map fun chunk => chunkEvent run.id chunk.1 chunk.2) :
    applyRunEvents (runs ++ [run]) events = runs ++ [run.withChunks chunks] := by
  induction chunks generalizing run events with
  | nil =>
    rw [List.map_nil, List.map_eq_nil_iff] at hevents
    simp [hevents]
  | cons chunk chunks ih =>
    obtain ⟨⟨now, event⟩, events, rfl, rfl, hrest⟩ := List.map_eq_cons_iff.1 hevents
    have hone := applyRunEvent_concat now hfresh (run.next_chunk chunk.1 chunk.2)
    rw [applyRunEvents_cons]
    dsimp only
    rw [chunkEvent, hone, run.withChunks_cons chunk chunks]
    exact ih hfresh hrest

end Concord
