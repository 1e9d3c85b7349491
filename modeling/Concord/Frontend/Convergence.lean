import Concord.Base.Interleaving
import Concord.Frontend.Runs

/-!
# Two sources of one run

The page that starts a run hears of it twice: from the project socket, as everyone does, and from its own
requests, the one that starts the run and those that poll it (`runActive` of `SessionPage.tsx`). Each source
comes in its own order, and they are delayed independently. `RunRecord` is what both are about. However the
two are mixed, the console ends with `RunRecord.settled`.
-/

namespace Concord

open Concord.Base

attribute [ext] Run

/-! ## One run of the list -/

/-- The run with this id in the list. -/
def runOf (id : Int) (runs : List Run) : Option Run := runs.find? (·.id = id)

/-- The run after an event about it. -/
def Run.apply (run : Run) (body : RunEventBody) : Run := (run.next body).getD run

section List

variable {runs : List Run} {run next : Run} {id : Int} {body : RunEventBody}

theorem Run.next_id (h : run.next body = some next) : next.id = run.id := by
  unfold Run.next at h
  cases body with
  | executionQueued fileId path username => obtain rfl := Option.some.inj h; rfl
  | otherOp => obtain rfl := Option.some.inj h; rfl
  | localQueued fileId path username withInput => obtain rfl := Option.some.inj h; rfl
  | executionStatus status =>
    dsimp only at h
    split at h
    · obtain rfl := Option.some.inj h; rfl
    · obtain rfl := Option.some.inj h; rfl
  | executionOutput stdout stderr exitCode duration => obtain rfl := Option.some.inj h; rfl
  | executionOutputChunk stream text =>
    dsimp only at h
    split at h
    · obtain rfl := Option.some.inj h; rfl
    · obtain rfl := Option.some.inj h; rfl
  | debugStarted => obtain rfl := Option.some.inj h; rfl
  | debugPaused =>
    dsimp only at h
    split at h
    · obtain rfl := Option.some.inj h; rfl
    · cases h
  | other => cases h

/-- No event takes the status of a finished run back. -/
theorem Run.next_finished (h : run.next body = some next) (hrun : run.status ∈ finishedStatuses) :
    next.status ∈ finishedStatuses := by
  unfold Run.next at h
  cases body with
  | executionQueued fileId path username => obtain rfl := Option.some.inj h; exact hrun
  | otherOp => obtain rfl := Option.some.inj h; exact hrun
  | localQueued fileId path username withInput => obtain rfl := Option.some.inj h; exact hrun
  | executionStatus status =>
    dsimp only at h
    split at h
    · obtain rfl := Option.some.inj h; exact hrun
    · next hlate =>
      obtain rfl := Option.some.inj h
      by_contra hstatus
      exact hlate ⟨hrun, hstatus⟩
  | executionOutput stdout stderr exitCode duration => obtain rfl := Option.some.inj h; exact hrun
  | executionOutputChunk stream text =>
    dsimp only at h
    split at h
    · obtain rfl := Option.some.inj h; exact hrun
    · obtain rfl := Option.some.inj h; exact hrun
  | debugStarted => obtain rfl := Option.some.inj h; exact hrun
  | debugPaused =>
    dsimp only at h
    split at h
    · obtain rfl := Option.some.inj h; exact hrun
    · cases h
  | other => cases h

/-- An event about a run that is in the list. -/
theorem runOf_set {idx : Nat} (hidx : runs.findIdx? (fun run => decide (run.id = id)) = some idx)
    (hnext : next.id = id) :
    runOf id (runs.set idx next) = some next := by
  obtain ⟨hlt, -, hbefore⟩ := List.findIdx?_eq_some_iff_getElem.1 hidx
  rw [runOf, List.find?_eq_some_iff_getElem]
  refine ⟨decide_eq_true hnext, idx, by simpa using hlt, by simp, fun j hj => ?_⟩
  have hne := hbefore j hj
  rw [List.getElem_set_of_ne (Nat.ne_of_gt hj)]
  simpa using hne

theorem runOf_eq_getElem {idx : Nat} (hidx : runs.findIdx? (fun run => decide (run.id = id)) = some idx) :
    runOf id runs = runs[idx]? := by
  obtain ⟨hlt, hid, hbefore⟩ := List.findIdx?_eq_some_iff_getElem.1 hidx
  rw [List.getElem?_eq_getElem hlt, runOf, List.find?_eq_some_iff_getElem]
  refine ⟨hid, idx, hlt, rfl, fun j hj => ?_⟩
  simpa using hbefore j hj

theorem runOf_applyRunEvent (now : Int) (h : ((runOf id runs).getD (blank now id)).next body = some next) :
    runOf id (applyRunEvent now runs ⟨some id, body⟩) = some next := by
  unfold applyRunEvent
  dsimp only
  cases hidx : runs.findIdx? (fun run => decide (run.id = id)) with
  | none =>
    have hnone : runOf id runs = none := by
      rw [runOf, List.find?_eq_none]
      exact fun run hrun => by simpa using List.findIdx?_eq_none_iff.1 hidx run hrun
    rw [hnone, Option.getD_none] at h
    dsimp only
    rw [h]
    have hnext : next.id = id := Run.next_id h
    rw [runOf] at hnone
    rw [runOf, List.find?_append, hnone]
    simp [hnext]
  | some idx =>
    have hrun := runOf_eq_getElem hidx
    obtain ⟨hlt, hid, -⟩ := List.findIdx?_eq_some_iff_getElem.1 hidx
    rw [hrun, List.getElem?_eq_getElem hlt, Option.getD_some] at h
    dsimp only
    rw [List.getD_eq_getElem _ _ hlt, h]
    exact runOf_set hidx ((Run.next_id h).trans (of_decide_eq_true hid))

/-- An event changes no run but its own. -/
theorem filter_applyRunEvent (now : Int) (runs : List Run) (id : Int) (body : RunEventBody) :
    (applyRunEvent now runs ⟨some id, body⟩).filter (·.id ≠ id) = runs.filter (·.id ≠ id) := by
  unfold applyRunEvent
  dsimp only
  cases hidx : runs.findIdx? (fun run => decide (run.id = id)) with
  | none =>
    dsimp only
    cases h : (blank now id).next body with
    | none => rfl
    | some next =>
      have hnext : next.id = id := Run.next_id h
      simp [List.filter_append, hnext]
  | some idx =>
    obtain ⟨hlt, hid, -⟩ := List.findIdx?_eq_some_iff_getElem.1 hidx
    dsimp only
    rw [List.getD_eq_getElem _ _ hlt]
    cases h : runs[idx].next body with
    | none => rfl
    | some next =>
      have hold : runs[idx].id = id := of_decide_eq_true hid
      have hnext : next.id = id := (Run.next_id h).trans hold
      have hsplit : runs.filter (·.id ≠ id) =
          (runs.take idx).filter (·.id ≠ id) ++ (runs.drop (idx + 1)).filter (·.id ≠ id) := by
        conv_lhs => rw [← List.take_append_drop idx runs, List.drop_eq_getElem_cons hlt]
        rw [List.filter_append, List.filter_cons_of_neg (by simpa using hold)]
      dsimp only
      rw [hsplit, List.set_eq_take_append_cons_drop, if_pos hlt, List.filter_append,
        List.filter_cons_of_neg (by simpa using hnext)]

theorem applyRunEvent_of_none (now : Int) (h : ((runOf id runs).getD (blank now id)).next body = none) :
    applyRunEvent now runs ⟨some id, body⟩ = runs := by
  unfold applyRunEvent
  dsimp only
  cases hidx : runs.findIdx? (fun run => decide (run.id = id)) with
  | none =>
    have hnone : runOf id runs = none := by
      rw [runOf, List.find?_eq_none]
      exact fun run hrun => by simpa using List.findIdx?_eq_none_iff.1 hidx run hrun
    rw [hnone, Option.getD_none] at h
    dsimp only
    rw [h]
  | some idx =>
    obtain ⟨hlt, -, -⟩ := List.findIdx?_eq_some_iff_getElem.1 hidx
    rw [runOf_eq_getElem hidx, List.getElem?_eq_getElem hlt, Option.getD_some] at h
    dsimp only
    rw [List.getD_eq_getElem _ _ hlt, h]

/-- The other runs are found as they were where they have not changed. -/
theorem runOf_of_filter {runs' : List Run} {other : Int}
    (h : runs'.filter (·.id ≠ id) = runs.filter (·.id ≠ id)) (hne : other ≠ id) :
    runOf other runs' = runOf other runs := by
  have hfind : ∀ runs : List Run, runOf other runs = (runs.filter (·.id ≠ id)).find? (·.id = other) := by
    intro runs
    rw [List.find?_filter, runOf]
    congr 1
    funext run
    by_cases hrun : run.id = other
    · simp [hrun, hne]
    · simp [hrun]
  rw [hfind, hfind, h]

/-- A finished run stays in the list, and finished. -/
theorem runOf_finished (now : Int) (event : RunEvent) (h : runOf id runs = some run)
    (hfinished : run.status ∈ finishedStatuses) :
    ∃ later, runOf id (applyRunEvent now runs event) = some later ∧ later.status ∈ finishedStatuses := by
  obtain ⟨executionId, body⟩ := event
  cases executionId with
  | none => exact ⟨run, h, hfinished⟩
  | some changed =>
    by_cases hid : id = changed
    · subst hid
      have hbase : (runOf id runs).getD (blank now id) = run := by rw [h, Option.getD_some]
      cases hnext : run.next body with
      | none =>
        rw [applyRunEvent_of_none now (by rw [hbase, hnext])]
        exact ⟨run, h, hfinished⟩
      | some next =>
        have hself := runOf_applyRunEvent now (by rw [hbase, hnext])
        exact ⟨next, hself, Run.next_finished hnext hfinished⟩
    · have hother := runOf_of_filter (filter_applyRunEvent now runs changed body) hid
      exact ⟨run, hother.trans h, hfinished⟩

theorem nodup_applyRunEvent (now : Int) (h : (runs.map Run.id).Nodup) :
    ((applyRunEvent now runs ⟨some id, body⟩).map Run.id).Nodup := by
  unfold applyRunEvent
  dsimp only
  cases hidx : runs.findIdx? (fun run => decide (run.id = id)) with
  | none =>
    dsimp only
    cases hnext : (blank now id).next body with
    | none => exact h
    | some next =>
      have hid : next.id = id := Run.next_id hnext
      have hfresh : id ∉ runs.map Run.id := by
        intro hmem
        obtain ⟨other, hother, hsame⟩ := List.mem_map.1 hmem
        have := List.findIdx?_eq_none_iff.1 hidx other hother
        exact of_decide_eq_false this hsame
      rw [List.map_append, List.map_singleton, hid, List.nodup_append]
      refine ⟨h, List.nodup_singleton id, fun a ha b hb => ?_⟩
      rw [List.mem_singleton.1 hb]
      exact ne_of_mem_of_not_mem ha hfresh
  | some idx =>
    obtain ⟨hlt, -, -⟩ := List.findIdx?_eq_some_iff_getElem.1 hidx
    dsimp only
    rw [List.getD_eq_getElem _ _ hlt]
    cases hnext : runs[idx].next body with
    | none => exact h
    | some next =>
      dsimp only
      rw [List.map_set, Run.next_id hnext]
      have hsame : (runs.map Run.id).set idx runs[idx].id = runs.map Run.id := by
        rw [← List.getElem_map Run.id (h := by simpa using hlt), List.set_getElem_self]
      rw [hsame]
      exact h

end List

/-! ## Events about one run, one after the other -/

/-- The events that give a run whatever the run was. -/
def Total (body : RunEventBody) : Prop := ∀ run : Run, run.next body = some (run.apply body)

section Events

variable {runs : List Run} {id : Int} {timed : List (Int × RunEvent)} {bodies : List RunEventBody}

/-- Events about one run fold into it alone, and into a blank run if it was not in the list. -/
theorem runOf_applyRunEvents (hbodies : ∀ body ∈ bodies, Total body)
    (htimed : timed.map Prod.snd = bodies.map fun body => ⟨some id, body⟩) {run : Run}
    (hrun : runOf id runs = some run) :
    runOf id (applyRunEvents runs timed) = some (bodies.foldl Run.apply run) := by
  induction bodies generalizing runs run timed with
  | nil =>
    rw [List.map_nil, List.map_eq_nil_iff] at htimed
    simpa [htimed] using hrun
  | cons body bodies ih =>
    obtain ⟨⟨now, event⟩, timed, rfl, rfl, hrest⟩ := List.map_eq_cons_iff.1 htimed
    have hnext : ((runOf id runs).getD (blank now id)).next body = some (run.apply body) := by
      rw [hrun]
      exact hbodies body List.mem_cons_self run
    rw [applyRunEvents_cons, List.foldl_cons]
    exact ih (fun body h => hbodies body (List.mem_cons_of_mem _ h)) hrest (runOf_applyRunEvent now hnext)

theorem exists_runOf_applyRunEvents (hbodies : ∀ body ∈ bodies, Total body) (hne : bodies ≠ [])
    (htimed : timed.map Prod.snd = bodies.map fun body => ⟨some id, body⟩) :
    ∃ now, runOf id (applyRunEvents runs timed) =
      some (bodies.foldl Run.apply ((runOf id runs).getD (blank now id))) := by
  cases bodies with
  | nil => exact absurd rfl hne
  | cons body bodies =>
    obtain ⟨⟨now, event⟩, timed, rfl, rfl, hrest⟩ := List.map_eq_cons_iff.1 htimed
    refine ⟨now, ?_⟩
    rw [applyRunEvents_cons, List.foldl_cons]
    have hnext := hbodies body List.mem_cons_self ((runOf id runs).getD (blank now id))
    exact runOf_applyRunEvents (fun body h => hbodies body (List.mem_cons_of_mem _ h)) hrest
      (runOf_applyRunEvent now hnext)

theorem filter_applyRunEvents (htimed : ∀ event ∈ timed, event.2.executionId = some id) :
    (applyRunEvents runs timed).filter (·.id ≠ id) = runs.filter (·.id ≠ id) := by
  induction timed generalizing runs with
  | nil => rfl
  | cons event timed ih =>
    obtain ⟨now, executionId, body⟩ := event
    obtain rfl : executionId = some id := htimed _ List.mem_cons_self
    rw [applyRunEvents_cons, ih fun event h => htimed event (List.mem_cons_of_mem _ h)]
    exact filter_applyRunEvent now runs id body

theorem nodup_applyRunEvents (htimed : ∀ event ∈ timed, event.2.executionId = some id)
    (h : (runs.map Run.id).Nodup) : ((applyRunEvents runs timed).map Run.id).Nodup := by
  induction timed generalizing runs with
  | nil => exact h
  | cons event timed ih =>
    obtain ⟨now, executionId, body⟩ := event
    obtain rfl : executionId = some id := htimed _ List.mem_cons_self
    rw [applyRunEvents_cons]
    exact ih (fun event h => htimed event (List.mem_cons_of_mem _ h)) (nodup_applyRunEvent now h)

/-- Whatever happens, a finished run stays finished. -/
theorem runOf_applyRunEvents_finished {run : Run} {other : Int} (h : runOf other runs = some run)
    (hfinished : run.status ∈ finishedStatuses) :
    ∃ later, runOf other (applyRunEvents runs timed) = some later ∧ later.status ∈ finishedStatuses := by
  induction timed generalizing runs run with
  | nil => exact ⟨run, h, hfinished⟩
  | cons event timed ih =>
    obtain ⟨next, hnext, hnextFinished⟩ := runOf_finished event.1 event.2 h hfinished
    exact ih hnext hnextFinished

theorem applyRunEvents_append (runs : List Run) (before after : List (Int × RunEvent)) :
    applyRunEvents runs (before ++ after) = applyRunEvents (applyRunEvents runs before) after :=
  List.foldl_append

end Events

/-! ## What the two sources say -/

/-- A run that is not debugged, once it has ended. -/
structure RunRecord where
  id : Int
  fileId : Int
  path : String
  username : String
  withInput : Bool
  stdout : JsString
  stderr : JsString
  exitCode : Option Int
  duration : Option ℚ
  status : String
  finished : status ∈ finishedStatuses

namespace RunRecord

variable (record : RunRecord)

/-- An event on the project socket before the terminal status. -/
inductive OnSocket : RunEventBody → Prop
  | queued (path : Option String) (hpath : ∀ p ∈ path, p = record.path) :
    OnSocket (.executionQueued record.fileId path record.username)
  | status (status : String) (hstatus : status ∉ finishedStatuses) : OnSocket (.executionStatus status)
  | output (stdout stderr : Option JsString) (hout : stdout.getD [] = record.stdout)
    (herr : stderr.getD [] = record.stderr) :
    OnSocket (.executionOutput stdout stderr record.exitCode record.duration)

/-- What comes over the project socket: the terminal status last, and before it, in any order, that the run
is queued, its output, and other statuses. -/
structure SocketStream (events : List RunEventBody) : Prop where
  ends : ∃ before, events = before ++ [.executionStatus record.status] ∧ ∀ body ∈ before, record.OnSocket body
  queued : ∃ path, .executionQueued record.fileId path record.username ∈ events
  output : ∃ stdout stderr, .executionOutput stdout stderr record.exitCode record.duration ∈ events ∧
    stdout.getD [] = record.stdout ∧ stderr.getD [] = record.stderr

/-- What the page tells itself: `local_queued`, and what each poll finds that comes after the end of the
run. A poll does not tell the duration. -/
inductive PageStream : List RunEventBody → Prop
  | started (username : Option String) (husername : ∀ u ∈ username, u = record.username) :
    PageStream [.localQueued record.fileId record.path username record.withInput]
  | polled {events : List RunEventBody} (h : PageStream events) (stdout stderr : Option JsString)
    (hout : stdout.getD [] = record.stdout) (herr : stderr.getD [] = record.stderr) :
    PageStream (events ++
      [.executionOutput stdout stderr record.exitCode none, .executionStatus record.status])

/-- An event of either source. -/
inductive Tells : RunEventBody → Prop
  | socket {body : RunEventBody} (h : record.OnSocket body) : Tells body
  | terminal : Tells (.executionStatus record.status)
  | started (username : Option String) (husername : ∀ u ∈ username, u = record.username) :
    Tells (.localQueued record.fileId record.path username record.withInput)
  | polled (stdout stderr : Option JsString) (hout : stdout.getD [] = record.stdout)
    (herr : stderr.getD [] = record.stderr) : Tells (.executionOutput stdout stderr record.exitCode none)

/-- What the console ends with, if it began with `run`. -/
def settled (run : Run) : Run :=
  { run with
    fileId := some record.fileId
    path := some record.path
    username := some record.username
    status := record.status
    stdout := record.stdout
    stderr := record.stderr
    exitCode := record.exitCode.or run.exitCode
    duration := record.duration.or run.duration
    withInput := record.withInput }

end RunRecord

/-! ## One event -/

section Apply

variable (run : Run)

@[simp] theorem Run.apply_executionQueued (fileId : Int) (path : Option String) (username : String) :
    run.apply (.executionQueued fileId path username) =
      { run with fileId := some fileId, path := path.or run.path, username := some username } := rfl

@[simp] theorem Run.apply_localQueued (fileId : Int) (path : String) (username : Option String) (withInput : Bool) :
    run.apply (.localQueued fileId path username withInput) =
      { run with
        fileId := some fileId, path := some path, username := run.username.or username, withInput := withInput } :=
  rfl

@[simp] theorem Run.apply_executionOutput (stdout stderr : Option JsString) (exitCode : Option Int)
    (duration : Option ℚ) : run.apply (.executionOutput stdout stderr exitCode duration) =
      { run with
        stdout := stdout.getD []
        stderr := stderr.getD []
        exitCode := exitCode.or run.exitCode
        duration := duration.or run.duration } := rfl

/-- The status that a status event leaves. -/
def Run.statusAfter (status : String) : String :=
  if run.status ∈ finishedStatuses ∧ status ∉ finishedStatuses then run.status else status

theorem Run.next_executionStatus (status : String) :
    run.next (.executionStatus status) = some { run with status := run.statusAfter status } := by
  unfold Run.next Run.statusAfter
  dsimp only
  split
  · rfl
  · rfl

@[simp] theorem Run.apply_executionStatus (status : String) :
    run.apply (.executionStatus status) = { run with status := run.statusAfter status } := by
  rw [Run.apply, next_executionStatus, Option.getD_some]

theorem Run.statusAfter_finished {status : String} (h : status ∈ finishedStatuses) : run.statusAfter status = status :=
  if_neg fun hlate => hlate.2 h

theorem Run.statusAfter_late {status : String} (hrun : run.status ∈ finishedStatuses) (h : status ∉ finishedStatuses) :
    run.statusAfter status = run.status :=
  if_pos ⟨hrun, h⟩

end Apply

namespace RunRecord

variable {record : RunRecord} {body : RunEventBody} {bodies : List RunEventBody} {run : Run}

theorem Tells.total (h : record.Tells body) : Total body := by
  intro run
  cases h with
  | socket h =>
    cases h with
    | queued path hpath => rfl
    | status status hstatus => rw [Run.next_executionStatus, Run.apply_executionStatus]
    | output stdout stderr hout herr => rfl
  | terminal => rw [Run.next_executionStatus, Run.apply_executionStatus]
  | started username husername => rfl
  | polled stdout stderr hout herr => rfl

theorem Tells.fileId (h : record.Tells body) (hrun : run.fileId = some record.fileId) :
    (run.apply body).fileId = some record.fileId := by
  rcases h with (h | _ | _ | _)
  · rcases h with (_ | _ | _) <;> simp [hrun]
  all_goals simp [hrun]

theorem Tells.path (h : record.Tells body) (hrun : run.path = some record.path) :
    (run.apply body).path = some record.path := by
  rcases h with (h | _ | _ | _)
  · rcases h with (⟨path, hpath⟩ | _ | _)
    · cases path with
      | none => simpa using hrun
      | some p => simp [hpath p rfl]
    all_goals simpa using hrun
  all_goals simp [hrun]

theorem Tells.username (h : record.Tells body) (hrun : run.username = some record.username) :
    (run.apply body).username = some record.username := by
  rcases h with (h | _ | _ | _)
  · rcases h with (_ | _ | _) <;> simp [hrun]
  all_goals simp [hrun]

theorem Tells.status (h : record.Tells body) (hrun : run.status = record.status) :
    (run.apply body).status = record.status := by
  have hfinished : run.status ∈ finishedStatuses := hrun ▸ record.finished
  rcases h with (h | _ | _ | _)
  · rcases h with (_ | ⟨status, hstatus⟩ | _)
    · simpa using hrun
    · simpa [run.statusAfter_late hfinished hstatus] using hrun
    · simpa using hrun
  · simpa using run.statusAfter_finished record.finished
  all_goals simpa using hrun

theorem Tells.stdout (h : record.Tells body) (hrun : run.stdout = record.stdout) :
    (run.apply body).stdout = record.stdout := by
  rcases h with (h | _ | _ | ⟨stdout, stderr, hout, herr⟩)
  · rcases h with (_ | _ | ⟨stdout, stderr, hout, herr⟩)
    · simpa using hrun
    · simpa using hrun
    · simpa using hout
  · simpa using hrun
  · simpa using hrun
  · simpa using hout

theorem Tells.stderr (h : record.Tells body) (hrun : run.stderr = record.stderr) :
    (run.apply body).stderr = record.stderr := by
  rcases h with (h | _ | _ | ⟨stdout, stderr, hout, herr⟩)
  · rcases h with (_ | _ | ⟨stdout, stderr, hout, herr⟩)
    · simpa using hrun
    · simpa using hrun
    · simpa using herr
  · simpa using hrun
  · simpa using hrun
  · simpa using herr

/-- The exit code is the one that is told, or else the one from before. -/
theorem Tells.exitCode (h : record.Tells body) (before : Option Int) (hrun : run.exitCode = record.exitCode.or before) :
    (run.apply body).exitCode = record.exitCode.or before := by
  have hsame : record.exitCode.or (record.exitCode.or before) = record.exitCode.or before := by
    cases record.exitCode <;> rfl
  rcases h with (h | _ | _ | _)
  · rcases h with (_ | _ | _) <;> simp [hrun, hsame]
  all_goals simp [hrun, hsame]

theorem Tells.duration (h : record.Tells body) (before : Option ℚ) (hrun : run.duration = record.duration.or before) :
    (run.apply body).duration = record.duration.or before := by
  have hsame : record.duration.or (record.duration.or before) = record.duration.or before := by
    cases record.duration <;> rfl
  rcases h with (h | _ | _ | _)
  · rcases h with (_ | _ | _) <;> simp [hrun, hsame]
  all_goals simp [hrun]

theorem Tells.withInput (h : record.Tells body) (hrun : run.withInput = record.withInput) :
    (run.apply body).withInput = record.withInput := by
  rcases h with (h | _ | _ | _)
  · rcases h with (_ | _ | _) <;> simp [hrun]
  all_goals simp [hrun]

/-- No event changes what identifies the run, when it was first heard of, or its notes. -/
theorem Tells.same (h : record.Tells body) :
    (run.apply body).id = run.id ∧ (run.apply body).startedAt = run.startedAt ∧ (run.apply body).notes = run.notes := by
  rcases h with (h | _ | _ | _)
  · rcases h with (_ | _ | _) <;> simp
  all_goals simp

/-- Events of the two sources, among which are those that tell each part of the record, in any order. -/
theorem foldl_settled (hall : ∀ body ∈ bodies, record.Tells body)
    (hqueued : ∃ path, .executionQueued record.fileId path record.username ∈ bodies)
    (houtput : ∃ stdout stderr, .executionOutput stdout stderr record.exitCode record.duration ∈ bodies ∧
      stdout.getD [] = record.stdout ∧ stderr.getD [] = record.stderr)
    (hstatus : .executionStatus record.status ∈ bodies)
    (hstarted : ∃ username, .localQueued record.fileId record.path username record.withInput ∈ bodies) (run : Run) :
    bodies.foldl Run.apply run = record.settled run := by
  obtain ⟨queuedPath, hqueued⟩ := hqueued
  obtain ⟨stdout, stderr, houtput, hout, herr⟩ := houtput
  obtain ⟨localName, hstarted⟩ := hstarted
  apply Run.ext
  · exact foldl_keeps (f := Run.id) (fun body h s hs => (hall body h).same.1.trans hs) rfl
  · exact foldl_settles (f := Run.fileId) (fun body h s hs => (hall body h).fileId hs) hstarted fun s => rfl
  · exact foldl_settles (f := Run.path) (fun body h s hs => (hall body h).path hs) hstarted fun s => rfl
  · exact foldl_settles (f := Run.username) (fun body h s hs => (hall body h).username hs) hqueued fun s => rfl
  · refine foldl_settles (f := Run.status) (fun body h s hs => (hall body h).status hs) hstatus fun s => ?_
    rw [Run.apply_executionStatus]
    exact s.statusAfter_finished record.finished
  · exact foldl_settles (f := Run.stdout) (fun body h s hs => (hall body h).stdout hs) houtput fun s => hout
  · exact foldl_settles (f := Run.stderr) (fun body h s hs => (hall body h).stderr hs) houtput fun s => herr
  · change (bodies.foldl Run.apply run).exitCode = record.exitCode.or run.exitCode
    cases hcode : record.exitCode with
    | none =>
      have hkeep := foldl_keeps (f := Run.exitCode) (s := run)
        (fun body h s hs => (hall body h).exitCode run.exitCode hs) (by rw [hcode, Option.none_or])
      rwa [hcode] at hkeep
    | some code =>
      have hset := foldl_settles (f := Run.exitCode) (s := run)
        (fun body h s hs => (hall body h).exitCode run.exitCode hs) houtput fun s => by simp [hcode]
      rwa [hcode] at hset
  · change (bodies.foldl Run.apply run).duration = record.duration.or run.duration
    cases hduration : record.duration with
    | none =>
      have hkeep := foldl_keeps (f := Run.duration) (s := run)
        (fun body h s hs => (hall body h).duration run.duration hs) (by rw [hduration, Option.none_or])
      rwa [hduration] at hkeep
    | some duration =>
      have hset := foldl_settles (f := Run.duration) (s := run)
        (fun body h s hs => (hall body h).duration run.duration hs) houtput fun s => by simp [hduration]
      rwa [hduration] at hset
  · exact foldl_keeps (f := Run.startedAt) (fun body h s hs => (hall body h).same.2.1.trans hs) rfl
  · exact foldl_settles (f := Run.withInput) (fun body h s hs => (hall body h).withInput hs) hstarted fun s => rfl
  · exact foldl_keeps (f := Run.notes) (fun body h s hs => (hall body h).same.2.2.trans hs) rfl

theorem SocketStream.tells {socket : List RunEventBody} (h : record.SocketStream socket) :
    ∀ body ∈ socket, record.Tells body := by
  obtain ⟨before, rfl, hbefore⟩ := h.ends
  intro body hbody
  rcases List.mem_append.1 hbody with hbody | hbody
  · exact .socket (hbefore body hbody)
  · rw [List.mem_singleton.1 hbody]
    exact .terminal

theorem SocketStream.terminal {socket : List RunEventBody} (h : record.SocketStream socket) :
    .executionStatus record.status ∈ socket := by
  obtain ⟨before, rfl, -⟩ := h.ends
  exact List.mem_append_right _ List.mem_cons_self

theorem PageStream.tells {page : List RunEventBody} (h : record.PageStream page) :
    ∀ body ∈ page, record.Tells body := by
  induction h with
  | started username husername =>
    intro body hbody
    rw [List.mem_singleton.1 hbody]
    exact .started username husername
  | polled h stdout stderr hout herr ih =>
    intro body hbody
    rcases List.mem_append.1 hbody with hbody | hbody
    · exact ih body hbody
    · rcases List.mem_cons.1 hbody with rfl | hbody
      · exact .polled stdout stderr hout herr
      · rw [List.mem_singleton.1 hbody]
        exact .terminal

theorem PageStream.isStarted {page : List RunEventBody} (h : record.PageStream page) :
    ∃ username, .localQueued record.fileId record.path username record.withInput ∈ page := by
  induction h with
  | started username husername => exact ⟨username, List.mem_cons_self⟩
  | polled h stdout stderr hout herr ih =>
    obtain ⟨username, hmem⟩ := ih
    exact ⟨username, List.mem_append_left _ hmem⟩

theorem foldl_merged {socket page merged : List RunEventBody} (hsocket : record.SocketStream socket)
    (hpage : record.PageStream page) (h : Interleaves socket page merged) (run : Run) :
    merged.foldl Run.apply run = record.settled run := by
  obtain ⟨path, hqueued⟩ := hsocket.queued
  obtain ⟨stdout, stderr, houtput, hout, herr⟩ := hsocket.output
  obtain ⟨username, hstarted⟩ := hpage.isStarted
  refine foldl_settled (fun body hbody => ?_) ⟨path, h.mem_iff.2 (.inl hqueued)⟩
    ⟨stdout, stderr, h.mem_iff.2 (.inl houtput), hout, herr⟩ (h.mem_iff.2 (.inl hsocket.terminal))
    ⟨username, h.mem_iff.2 (.inr hstarted)⟩ run
  rcases h.mem_iff.1 hbody with hbody | hbody
  · exact hsocket.tells body hbody
  · exact hpage.tells body hbody

end RunRecord

/-! ## The console -/

/-- **The console converges.** Whatever order the two sources come in, and whatever other runs there are,
the console has the same run for the id in the end, but for the time at which it first heard of it; the other
runs are as they were, ids stay unique, and nothing takes back that a run has finished. -/
theorem console_converges (record : RunRecord) {runs : List Run} (hruns : (runs.map Run.id).Nodup)
    {socket page : List RunEventBody} (hsocket : record.SocketStream socket) (hpage : record.PageStream page) :
    ∃ run : Run, ∀ merged, Interleaves socket page merged →
      ∀ timed : List (Int × RunEvent), timed.map Prod.snd = merged.map (fun body => ⟨some record.id, body⟩) →
        (∃ startedAt, runOf record.id (applyRunEvents runs timed) = some { run with startedAt := startedAt }) ∧
        (applyRunEvents runs timed).filter (·.id ≠ record.id) = runs.filter (·.id ≠ record.id) ∧
        ((applyRunEvents runs timed).map Run.id).Nodup ∧
        ∀ before after, timed = before ++ after → ∀ id earlier,
          runOf id (applyRunEvents runs before) = some earlier → earlier.status ∈ finishedStatuses →
            ∃ later, runOf id (applyRunEvents runs timed) = some later ∧ later.status ∈ finishedStatuses := by
  refine ⟨record.settled ((runOf record.id runs).getD (blank 0 record.id)), fun merged hmerged timed htimed => ?_⟩
  have hids : ∀ event ∈ timed, event.2.executionId = some record.id := by
    intro event hevent
    have hmem : event.2 ∈ merged.map fun body => (⟨some record.id, body⟩ : RunEvent) :=
      htimed ▸ List.mem_map_of_mem hevent
    obtain ⟨body, -, hbody⟩ := List.mem_map.1 hmem
    rw [← hbody]
  have htotal : ∀ body ∈ merged, Total body := by
    intro body hbody
    rcases hmerged.mem_iff.1 hbody with hbody | hbody
    · exact (hsocket.tells body hbody).total
    · exact (hpage.tells body hbody).total
  have hne : merged ≠ [] := List.ne_nil_of_mem (hmerged.mem_iff.2 (.inl hsocket.terminal))
  refine ⟨?_, filter_applyRunEvents hids, nodup_applyRunEvents hids hruns, ?_⟩
  · have hlast : ∃ now, runOf record.id (applyRunEvents runs timed) =
        some (merged.foldl Run.apply ((runOf record.id runs).getD (blank now record.id))) :=
      exists_runOf_applyRunEvents htotal hne htimed
    obtain ⟨now, hrun⟩ := hlast
    rw [RunRecord.foldl_merged hsocket hpage hmerged] at hrun
    refine ⟨((runOf record.id runs).getD (blank now record.id)).startedAt, hrun.trans (congrArg some ?_)⟩
    cases runOf record.id runs with
    | none => rfl
    | some run => rfl
  · rintro before after rfl id earlier hearlier hfinished
    rw [applyRunEvents_append]
    exact runOf_applyRunEvents_finished hearlier hfinished

/-- A run of `main.py` that has printed a line. -/
def printedRun : RunRecord where
  id := 7
  fileId := 3
  path := "main.py"
  username := "alice"
  withInput := false
  stdout := [104, 105, 10]
  stderr := []
  exitCode := some 0
  duration := some (1 / 4)
  status := "completed"
  finished := by decide

/-- The page's `local_queued` and a poll, mixed with the socket's events in any way. -/
theorem console_converges_printed :
    let socket : List RunEventBody :=
      [.executionQueued 3 none "alice", .executionStatus "running",
        .executionOutput (some [104, 105, 10]) none (some 0) (some (1 / 4)), .executionStatus "completed"]
    let page : List RunEventBody :=
      [.localQueued 3 "main.py" (some "alice") false,
        .executionOutput (some [104, 105, 10]) (some []) (some 0) none, .executionStatus "completed"]
    ∃ run : Run, ∀ merged, Interleaves socket page merged →
      ∀ timed : List (Int × RunEvent), timed.map Prod.snd = merged.map (fun body => ⟨some 7, body⟩) →
        (∃ startedAt, runOf 7 (applyRunEvents [] timed) = some { run with startedAt := startedAt }) ∧
        (applyRunEvents [] timed).filter (·.id ≠ 7) = [] ∧
        ((applyRunEvents [] timed).map Run.id).Nodup ∧
        ∀ before after, timed = before ++ after → ∀ id earlier,
          runOf id (applyRunEvents [] before) = some earlier → earlier.status ∈ finishedStatuses →
            ∃ later, runOf id (applyRunEvents [] timed) = some later ∧ later.status ∈ finishedStatuses := by
  have hsocket : printedRun.SocketStream
      [.executionQueued 3 none "alice", .executionStatus "running",
        .executionOutput (some [104, 105, 10]) none (some 0) (some (1 / 4)), .executionStatus "completed"] := by
    refine ⟨⟨[.executionQueued 3 none "alice", .executionStatus "running",
      .executionOutput (some [104, 105, 10]) none (some 0) (some (1 / 4))], rfl, ?_⟩, ⟨none, List.mem_cons_self⟩,
      ⟨some [104, 105, 10], none, by simp [printedRun], rfl, rfl⟩⟩
    intro body hbody
    simp only [List.mem_cons, List.not_mem_nil, or_false] at hbody
    rcases hbody with rfl | rfl | rfl
    · exact .queued none (by simp)
    · exact .status "running" (by decide)
    · exact .output (some [104, 105, 10]) none rfl rfl
  have hpage : printedRun.PageStream
      [.localQueued 3 "main.py" (some "alice") false,
        .executionOutput (some [104, 105, 10]) (some []) (some 0) none, .executionStatus "completed"] :=
    .polled (.started (some "alice") (by simp [printedRun])) (some [104, 105, 10]) (some []) rfl rfl
  have hruns : (([] : List Run).map Run.id).Nodup := List.nodup_nil
  exact console_converges printedRun hruns hsocket hpage

end Concord
