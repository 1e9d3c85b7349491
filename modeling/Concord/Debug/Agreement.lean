import Concord.Debug.AnnouncementRules
import Mathlib

/-!
# The debugger and the stored breakpoints

What the adapter of a session is asked for is its copy of the breakpoints and then what was announced while its worker
listened, each once and in order (`session_requests`). When no edit is under way and the session has nothing left to
handle, it has the lines that are stored, but for files whose last edit was announced when nobody listened
(`session_agrees`).
-/

namespace Concord.Breakpoints

open Concord.Base Async

section Programs

variable {t : FileTable} {project : ProjectId} {sets : SetOrder} {rows₀ : List Row} {p : Pid} {r : Request} {g : Stage}

/-- The process has nothing to tell. -/
def Stage.Quiet (g : Stage) : Prop := ∀ id file, ¬g.WillTell id file

theorem Stage.quiet_plain : Stage.plain.Quiet := fun _ _ hwill => hwill

theorem Stage.quiet_spoiled : Stage.spoiled.Quiet := fun _ _ hwill => hwill

/-- What fails at a stage with nothing to tell, fails quietly. -/
theorem fails_quietly {α : Type} {x : Py α} {Q : α → Stage → Prop} {g₀ : Stage} (hg₀ : g₀.Quiet)
    (h : (debuggerProtocol t project sets rows₀).Triple p r g x Q fun _ g' => g' = g₀) :
    (debuggerProtocol t project sets rows₀).Triple p r g x Q fun _ g' => g'.Quiet :=
  h.mono (fun _ _ hQ => hQ) fun _ _ hg' => hg' ▸ hg₀

/-! ## `api/breakpoints.py` -/

section Edits

variable {user : UserId} {files : List FileId} {rows : List Row}

theorem getMember_steady : (debuggerProtocol t project sets rows₀).Steady p r g (getMember user) :=
  Protocol.Steady.bind (steady_rule rfl) fun _ => Protocol.Steady.orRaise _ _

theorem requireDebugger_steady : (debuggerProtocol t project sets rows₀).Steady p r g (requireDebugger user) :=
  Protocol.Steady.bind getMember_steady fun _ => Protocol.Steady.require _ _

/-- A file that is found is one of the project. -/
theorem fileInProject_triple (id : FileId) :
    (debuggerProtocol t project sets rows₀).Triple p r g (fileInProject project id)
      (fun file g' => g' = g ∧ file ∈ t.files ∧ file.projectId = project ∧ file.id = id) fun _ g' => g' = g := by
  have hget : (debuggerProtocol t project sets rows₀).Triple p r g (await (.getFile id))
      (fun found g' => g' = g ∧ found = t.files.find? (·.id = id)) fun _ g' => g' = g := by
    refine inert_rule rfl fun env st l y _ hexec x _ hkept =>
      ⟨g, hkept, .inl rfl, fun _ hc => hc, fun _ _ hwill _ => .inl hwill, ?_⟩
    rcases exec_cases hexec with hrun | ⟨⟨e, rfl⟩, -⟩
    · obtain ⟨rfl, -⟩ := Prod.mk.inj (Option.some.inj hrun)
      exact ⟨rfl, rfl⟩
    · rfl
  refine hget.bind fun found g' hg' => ?_
  obtain ⟨rfl, hfound⟩ := hg'
  refine Protocol.Triple.orRaise (fun file hfile => ?_) fun _ => rfl
  obtain ⟨hsome, hproject⟩ := Option.filter_eq_some_iff.1 hfile
  rw [hfound] at hsome
  have hid := List.find?_some hsome
  exact ⟨rfl, List.mem_of_find?_eq_some hsome, of_decide_eq_true hproject, of_decide_eq_true hid⟩

theorem findFiles_triple (ids : List FileId) :
    (debuggerProtocol t project sets rows₀).Triple p r g (findFiles project ids)
      (fun files g' => g' = g ∧ (∀ file ∈ files, file ∈ t.files ∧ file.projectId = project) ∧ files.map (·.id) = ids)
      fun _ g' => g' = g := by
  induction ids with
  | nil => exact .pure ⟨rfl, fun _ hfile => (by cases hfile), rfl⟩
  | cons id ids ih =>
    refine (fileInProject_triple id).bind fun file g' hfile => ?_
    obtain ⟨rfl, hmem, hproject, rfl⟩ := hfile
    refine ih.bind fun files g' hfiles => ?_
    obtain ⟨rfl, hall, rfl⟩ := hfiles
    refine .pure ⟨rfl, fun other hother => ?_, rfl⟩
    rcases List.mem_cons.1 hother with rfl | hother
    · exact ⟨hmem, hproject⟩
    · exact hall other hother

/-- The breakpoints of a file are replaced. -/
theorem replace_triple {file : FileId} {lines : List (Nat × Bool)} (hg : g.Written files rows) (hfile : file ∉ files) :
    (debuggerProtocol t project sets rows₀).Triple p r g (replace user file lines)
      (fun new g' => g' = .replacing (file :: files) (rows ++ new)) fun _ g' => g'.Quiet := by
  have hquiet : g.Quiet := fun _ _ => hg.not_told
  refine (fails_quietly hquiet (selectRows_rule hg hfile)).bind fun found g' hg' => ?_
  obtain rfl := hg'
  refine (fails_quietly Stage.quiet_spoiled deleteRows_rule).bind fun _ g' hg' => ?_
  obtain rfl := hg'
  exact fails_quietly Stage.quiet_spoiled (addRows_rule List.mem_cons_self)

/-- The loop of `upsert_breakpoints`, over files that are all different. -/
theorem replaceAll_triple {payload : List BreakpointUpsert} (new : List File) (hg : g.Written files rows)
    (hnodup : (new.map (·.id) ++ files).Nodup) :
    (debuggerProtocol t project sets rows₀).Triple p r g (replaceAll user payload new rows)
      (fun rows' g' => ∃ files', g'.Written files' rows' ∧ ∀ file, file ∈ files' ↔ file ∈ new.map (·.id) ++ files)
      fun _ g' => g'.Quiet := by
  induction new generalizing g files rows with
  | nil => exact .pure ⟨files, hg, fun _ => Iff.rfl⟩
  | cons file new ih =>
    rw [List.map_cons, List.cons_append, List.nodup_cons] at hnodup
    have hfile : file.id ∉ files := fun hmem => hnodup.1 (List.mem_append_right _ hmem)
    refine (replace_triple hg hfile).bind fun found g' hg' => ?_
    obtain rfl := hg'
    have hmoved : (new.map (·.id) ++ file.id :: files).Nodup :=
      (List.perm_middle.nodup_iff).2 (List.nodup_cons.2 hnodup)
    have hwritten : (Stage.replacing (file.id :: files) (rows ++ found)).Written (file.id :: files) (rows ++ found) :=
      ⟨rfl, rfl⟩
    refine (ih hwritten hmoved).mono (fun rows' g' hdone => ?_) fun _ _ hquiet => hquiet
    obtain ⟨files', hwritten, hmem⟩ := hdone
    refine ⟨files', hwritten, fun other => (hmem other).trans ?_⟩
    rw [List.map_cons, List.cons_append, List.perm_middle.mem_iff]

theorem refreshAll_triple {all : List Row} :
    (debuggerProtocol t project sets rows₀).Triple p r (.committed files all) (refreshAll rows)
      (fun _ g' => g' = .committed files all) fun _ g' => g' = .plain := by
  induction rows with
  | nil => exact .pure rfl
  | cons row rows ih =>
    refine (tell_rule (g := .committed files all) rfl fun _ _ h => h.1).bind fun _ g' hg' => ?_
    obtain rfl := hg'
    exact ih

/-- A session is told of the files. -/
theorem sendLines_triple {id : ExecutionId} (new : List File)
    (hfiles : ∀ file ∈ new, file ∈ t.files ∧ file.projectId = project ∧ file.id ∈ files)
    (hnodup : (new.map (·.id)).Nodup) :
    (debuggerProtocol t project sets rows₀).Triple p r (.informing files rows id (new.map (·.id)))
      (sendLines id rows new) (fun _ g' => g'.Quiet) fun _ g' => g'.Quiet := by
  induction new with
  | nil => exact .pure fun _ _ hwill => by cases hwill.2
  | cons file new ih =>
    rw [List.map_cons, List.nodup_cons] at hnodup
    obtain ⟨hmem, hproject, hfile⟩ := hfiles file List.mem_cons_self
    refine (fails_quietly Stage.quiet_plain (tellFile_rule hmem hproject hfile hnodup.1)).bind fun _ g' hg' => ?_
    obtain rfl := hg'
    exact ih (fun other hother => hfiles other (List.mem_cons_of_mem _ hother)) hnodup.2

/-- An edit that is committed is announced. -/
theorem announce_triple {all : List File} (hfiles : ∀ file ∈ all, file ∈ t.files ∧ file.projectId = project)
    (hids : ∀ file, file ∈ all.map (·.id) ↔ file ∈ files) (hnodup : (all.map (·.id)).Nodup) :
    (debuggerProtocol t project sets rows₀).Triple p r (.committed files rows) (announce all rows)
      (fun _ g' => g'.Quiet) fun _ g' => g'.Quiet := by
  refine Protocol.Triple.tryExcept (E := fun _ g' => g'.Quiet) ?_ (fun _ _ _ hquiet => .pure hquiet)
    fun _ _ _ hquiet => hquiet
  refine (fails_quietly Stage.quiet_plain (tell_rule (g := .committed files rows) rfl fun _ _ h => h.1)).bind
    fun _ g' hg' => ?_
  obtain rfl := hg'
  refine (fails_quietly Stage.quiet_plain (getActive_rule hids)).bind fun active g' hg' => ?_
  obtain rfl := hg'
  cases active with
  | none => exact .pure Stage.quiet_plain
  | some info =>
    exact sendLines_triple all (fun file hfile => ⟨(hfiles file hfile).1, (hfiles file hfile).2,
      (hids file.id).1 (List.mem_map_of_mem hfile)⟩) hnodup

theorem setFileBreakpoints_triple {fileId : FileId} {payload : FileBreakpoints} :
    (debuggerProtocol t project sets rows₀).Triple p r .plain (setFileBreakpoints project user fileId payload)
      (fun _ g' => g'.Quiet) fun _ g' => g'.Quiet := by
  refine requireDebugger_steady.andThen (fun _ => Stage.quiet_plain) fun _ => ?_
  refine (fails_quietly Stage.quiet_plain (fileInProject_triple fileId)).bind fun file g' hfile => ?_
  obtain ⟨rfl, hmem, hproject, rfl⟩ := hfile
  have hwritten : Stage.plain.Written [] [] := ⟨rfl, rfl⟩
  refine (replace_triple hwritten List.not_mem_nil).bind fun rows g' hg' => ?_
  obtain rfl := hg'
  rw [List.nil_append]
  have hwritten : (Stage.replacing [file.id] rows).Written [file.id] rows := ⟨rfl, rfl⟩
  refine (fails_quietly Stage.quiet_spoiled (commit_rule hwritten)).bind fun _ g' hg' => ?_
  obtain rfl := hg'
  refine (fails_quietly Stage.quiet_plain refreshAll_triple).bind fun _ g' hg' => ?_
  obtain rfl := hg'
  have hfiles : ∀ other ∈ [file], other ∈ t.files ∧ other.projectId = project := by
    intro other hother
    obtain rfl := List.mem_singleton.1 hother
    exact ⟨hmem, hproject⟩
  exact (announce_triple hfiles (fun _ => Iff.rfl) (List.nodup_singleton _)).bind fun _ g' hquiet => .pure hquiet

theorem upsertBreakpoints_triple {payload : List BreakpointUpsert} {fileId : List FileId} :
    (debuggerProtocol t project sets rows₀).Triple p r .plain (upsertBreakpoints project user sets payload fileId)
      (fun _ g' => g'.Quiet) fun _ g' => g'.Quiet := by
  refine requireDebugger_steady.andThen (fun _ => Stage.quiet_plain) fun _ => ?_
  refine (fails_quietly Stage.quiet_plain (findFiles_triple _)).bind fun files g' hfiles => ?_
  obtain ⟨rfl, hall, hids⟩ := hfiles
  have hnodup : (files.map (·.id)).Nodup := hids ▸ sets.nodup _
  have hwritten : Stage.plain.Written [] [] := ⟨rfl, rfl⟩
  refine (replaceAll_triple files hwritten (by rwa [List.append_nil])).bind fun rows g' hdone => ?_
  obtain ⟨files', hwritten, hmem⟩ := hdone
  rw [List.append_nil] at hmem
  refine (fails_quietly Stage.quiet_spoiled (commit_rule hwritten)).bind fun _ g' hg' => ?_
  obtain rfl := hg'
  refine (fails_quietly Stage.quiet_plain refreshAll_triple).bind fun _ g' hg' => ?_
  obtain rfl := hg'
  refine .ite (fun _ => (announce_triple hall (fun file => (hmem file).symm) hnodup).bind fun _ g' hquiet =>
    .pure hquiet) fun hnil => .pure ?_
  have hfiles : files = [] := not_not.1 hnil
  intro id file hwill
  have hfile := (hmem file).1 hwill
  rw [hfiles] at hfile
  cases hfile

theorem debugCommand_triple {username : String} {id : ExecutionId} {command : DebugCommand}
    (hcommand : isMemberCommand command = true) :
    (debuggerProtocol t project sets rows₀).Triple p r .plain (debugCommand user username id command)
      (fun _ g' => g'.Quiet) fun _ g' => g'.Quiet := by
  have hrelayed : (debuggerProtocol t project sets rows₀).Triple p r .plain
      (tryExcept (relayCommand id username command) PyError.isTransport fun _ =>
        throw (.http 503 "The debugger is unavailable")) (fun _ g' => g'.Quiet) fun _ g' => g'.Quiet := by
    refine Protocol.Triple.tryExcept (E := fun _ g' => g'.Quiet) ?_ (fun _ _ _ hquiet => .throw hquiet)
      fun _ _ _ hquiet => hquiet
    refine Protocol.Steady.andThen (steady_rule rfl) (fun _ => Stage.quiet_plain) fun active => ?_
    refine Protocol.Steady.andThen (Protocol.Steady.require _ _) (fun _ => Stage.quiet_plain) fun _ => ?_
    refine (fails_quietly Stage.quiet_plain (memberCommand_rule hcommand)).bind fun _ g' hg' => ?_
    exact .pure (hg' ▸ Stage.quiet_plain)
  refine .ite (fun _ => ?_) fun _ => ?_
  · exact requireDebugger_steady.andThen (fun _ => Stage.quiet_plain) fun _ => hrelayed
  · have hmember : (debuggerProtocol t project sets rows₀).Steady p r .plain ((fun _ => ()) <$> getMember user) :=
      Protocol.Triple.map getMember_steady fun _ _ hg' => hg'
    exact hmember.andThen (fun _ => Stage.quiet_plain) fun _ => hrelayed

end Edits

/-! ## `api/executions.py` -/

section StartRun

variable {id : ExecutionId} {info : ActiveInfo}

theorem clearActive_steady : (debuggerProtocol t project sets rows₀).Steady p r g (clearActive id) := by
  refine Protocol.Steady.bind (steady_rule rfl) fun active => ?_
  refine Protocol.Steady.ite ?_ (steady_rule rfl)
  exact Protocol.Steady.bind delActive_rule fun _ => steady_rule rfl

theorem runningSession_steady (current : Option ActiveInfo) :
    (debuggerProtocol t project sets rows₀).Steady p r g (runningSession current) := by
  cases current with
  | none => exact Protocol.Steady.pure _
  | some current => exact steady_rule rfl

/-- A session that takes the slot has not read its copy yet. -/
theorem claimDebugSlot_steady :
    (debuggerProtocol t project sets rows₀).Steady p r (.starting info.executionId) (claimDebugSlot info) := by
  have htake :
      (debuggerProtocol t project sets rows₀).Steady p r (.starting info.executionId) (takeDebugSlot info) := by
    refine Protocol.Steady.bind (takeSlot_rule (.inl rfl)) fun claimed => ?_
    refine Protocol.Steady.ite (Protocol.Steady.pure _) ?_
    refine Protocol.Steady.bind (steady_rule rfl) fun current => ?_
    refine Protocol.Steady.bind (runningSession_steady current) fun running => ?_
    refine Protocol.Steady.ite ?_ (Protocol.Steady.pure _)
    exact Protocol.Steady.bind (takeSlot_rule (.inr rfl)) fun _ => Protocol.Steady.pure _
  refine Protocol.Steady.bind (Protocol.Steady.tryExcept htake fun _ => Protocol.Steady.throw _) fun refused => ?_
  exact Protocol.Steady.require _ _

theorem debugInfo_triple {user : UserId} {username : String} :
    (debuggerProtocol t project sets rows₀).Triple p r (.starting id) (debugInfo user username)
      (fun info g' => g' = .copied ⟨id, info.breakpoints⟩) fun _ g' => g' = .starting id := by
  refine Protocol.Steady.andThen (steady_rule rfl) (fun _ => rfl) fun files => ?_
  refine selectBreakpoints_rule.bind fun rows g' hg' => ?_
  exact .pure hg'

theorem deliver_triple {payload : Payload} :
    (debuggerProtocol t project sets rows₀).Triple p r (.copied (payloadCopy payload)) (deliver payload)
      (fun _ g' => g' = .plain) fun _ g' => g' = .plain := by
  refine Protocol.Triple.tryExcept enqueue_rule (fun e g' _ hg' => ?_) fun _ _ _ hg' => hg'
  obtain rfl := hg'
  refine Protocol.Steady.bind (steady_rule rfl) fun failed => ?_
  refine Protocol.Steady.ite ?_ (Protocol.Steady.pure _)
  refine Protocol.Steady.bind (commitIdle_rule fun _ _ h => h) fun _ => ?_
  refine Protocol.Steady.bind ?_ fun _ => Protocol.Steady.throw _
  have hremove : (debuggerProtocol t project sets rows₀).Steady p r .plain
      (tryExcept (await (.removeFromQueue payload.executionId)) PyError.isTransport fun _ => pure ()) :=
    Protocol.Steady.tryExcept removeFromQueue_rule fun _ => Protocol.Steady.pure _
  refine Protocol.Steady.bind hremove fun _ => ?_
  exact Protocol.Steady.tryExcept clearActive_steady fun _ => Protocol.Steady.pure _

theorem startDebug_triple {file : File} {user : UserId} {username : String} :
    (debuggerProtocol t project sets rows₀).Triple p r .plain (startDebug file user username)
      (fun _ g' => g'.Quiet) fun _ g' => g'.Quiet := by
  refine (fails_quietly Stage.quiet_plain insertExecution_rule).bind fun id g' hg' => ?_
  obtain rfl := hg'
  have hquiet : (Stage.starting id).Quiet := fun _ _ hwill => hwill
  refine Protocol.Steady.andThen claimDebugSlot_steady (fun _ => hquiet) fun _ => ?_
  refine (fails_quietly hquiet debugInfo_triple).bind fun info g' hg' => ?_
  obtain rfl := hg'
  refine Protocol.Steady.andThen (commitIdle_rule (g := .copied ⟨id, info.breakpoints⟩) fun _ _ h => h.1)
    (fun _ => fun _ _ hwill => hwill) fun _ => ?_
  have hdelivered : ∀ payload, payloadCopy payload = ⟨id, info.breakpoints⟩ →
      (debuggerProtocol t project sets rows₀).Triple p r (.copied ⟨id, info.breakpoints⟩) (deliver payload)
        (fun _ g' => g'.Quiet) fun _ g' => g'.Quiet := fun payload hpayload =>
    hpayload ▸ deliver_triple.mono (fun _ _ hg' => hg' ▸ Stage.quiet_plain) fun _ _ hg' => hg' ▸ Stage.quiet_plain
  exact (hdelivered _ rfl).bind fun _ g' hquiet => .pure hquiet

end StartRun

/-! ## `debug/session.py` and `worker/app/worker.py` -/

section Worker

variable {c : Copy} {target : DebugTarget}

/-- The worker of an execution, from when it has begun to listen. -/
def Stage.AtWork (c : Copy) (g : Stage) : Prop := (∃ rest, g = .attending c rest) ∨ g = .leaving c.execution

theorem Stage.AtWork.execution (h : g.AtWork c) : g.execution? = some c.execution := by
  obtain ⟨rest, rfl⟩ | rfl := h <;> rfl

theorem Stage.AtWork.quiet (h : g.AtWork c) : g.Quiet := by
  obtain ⟨rest, rfl⟩ | rfl := h <;> exact fun _ _ hwill => hwill

theorem Stage.AtWork.idle (h : g.AtWork c) {st : State} {l : List Entry} (hholds : g.Holds t project p st l) :
    Idle p st l := by
  obtain ⟨rest, rfl⟩ | rfl := h
  · exact hholds.1
  · exact hholds

theorem outOfRounds_rule {Q : Unit → Stage → Prop} {E : PyError → Stage → Prop} :
    (debuggerProtocol t project sets rows₀).Triple p r g (await .outOfRounds) Q E := by
  refine call_rule (fun _ _ ho => (by cases ho)) fun env st l y st' gs _ _ _ hexec _ _ => ?_
  unfold Op.exec at hexec
  split at hexec
  · cases hexec
  · cases hexec
  · next hne => exact absurd rfl hne
  · next hne => exact absurd rfl hne

theorem setAll_triple (requests : List LinesRequest) :
    (debuggerProtocol t project sets rows₀).Triple p r (.attending c requests) (setAll c.execution requests)
      (fun _ g' => g' = .attending c []) fun _ g' => g'.AtWork c := by
  induction requests with
  | nil => exact .pure rfl
  | cons request requests ih =>
    refine setBreakpoints_rule.bind fun answer g' hg' => ?_
    obtain rfl := hg'
    have hraise : (debuggerProtocol t project sets rows₀).Steady p r (.attending c requests) (raiseFailure answer) := by
      cases answer with
      | ok _ => exact Protocol.Steady.pure _
      | error _ => exact Protocol.Steady.throw _
    exact hraise.andThen (fun _ => .inl ⟨_, rfl⟩) fun _ => ih

/-- The main loop has handled all of a round, or has been left. -/
def Handled (c : Copy) (run : DebugRun) (g : Stage) : Prop := g.AtWork c ∧ (run.ended = false → g = .attending c [])

theorem handleAll_triple (inputs : List (DebugRun.Input × AdapterAnswers)) (run : DebugRun) :
    (debuggerProtocol t project sets rows₀).Triple p r (.attending c (inputRequests inputs))
      (handleAll target c.execution inputs run) (Handled c) fun _ g' => g'.AtWork c := by
  induction inputs generalizing run with
  | nil => exact .pure ⟨.inl ⟨_, rfl⟩, fun _ => rfl⟩
  | cons got inputs ih =>
    refine .ite (fun hended => .pure ⟨.inl ⟨_, rfl⟩, fun hnot => ?_⟩) fun _ => ?_
    · exact absurd (hended.symm.trans hnot) (by simp)
    · have hanswered : (debuggerProtocol t project sets rows₀).Triple p r
          (.attending c (inputRequests (got :: inputs))) (answered c.execution got (inputRequest got.1))
          (fun _ g' => g' = .attending c (inputRequests inputs)) fun _ g' => g'.AtWork c := by
        rw [inputRequests, List.filterMap_cons]
        cases inputRequest got.1 with
        | none => exact .pure rfl
        | some request => exact setBreakpoints_rule
      refine hanswered.bind fun control g' hg' => ?_
      obtain rfl := hg'
      exact ih _

theorem afterRound_triple (run : DebugRun) (got : Except StopReason (List (DebugRun.Input × AdapterAnswers))) :
    (debuggerProtocol t project sets rows₀).Triple p r (.attending c (inputRequests (got.toOption.getD [])))
      (afterRound target c.execution run got) (Handled c) fun _ g' => g'.AtWork c := by
  cases got with
  | error reason => exact .pure ⟨.inl ⟨_, rfl⟩, fun hnot => by cases hnot⟩
  | ok inputs =>
    refine (handleAll_triple inputs run).bind fun run' g' hhandled => .pure ?_
    split
    · exact ⟨hhandled.1, fun hnot => by cases hnot⟩
    · exact hhandled

theorem mainLoop_triple (rounds : Nat) (run : DebugRun) :
    (debuggerProtocol t project sets rows₀).Triple p r (.attending c []) (mainLoop target c.execution rounds run)
      (fun _ g' => g'.AtWork c) fun _ g' => g'.AtWork c := by
  induction rounds generalizing run with
  | zero => exact outOfRounds_rule.bind fun _ _ (hfalse : False) => hfalse.elim
  | succ rounds ih =>
    refine round_rule.bind fun got g' hg' => ?_
    obtain rfl := hg'
    refine (afterRound_triple run got).bind fun run' g' hhandled => ?_
    refine .ite (fun _ => .pure hhandled.1) fun hnot => ?_
    rw [hhandled.2 (by simpa using hnot)]
    exact ih run'

theorem debugRun_triple {rounds : Nat} {breakpoints : List (String × List Nat)}
    (hc : copyRequests breakpoints = c.requests) :
    (debuggerProtocol t project sets rows₀).Triple p r (.attending c c.requests)
      (debugRun target c.execution rounds breakpoints) (fun _ g' => g'.AtWork c) fun _ g' => g'.AtWork c := by
  refine Protocol.Triple.tryExcept (E := fun _ g' => g'.AtWork c) ?_ (fun _ _ _ hwork => .pure hwork)
    fun _ _ _ hwork => hwork
  refine Protocol.Steady.andThen (steady_rule rfl) (fun _ => .inl ⟨_, rfl⟩) fun _ => ?_
  rw [hc]
  refine (setAll_triple c.requests).bind fun _ g' hg' => ?_
  obtain rfl := hg'
  refine Protocol.Steady.andThen (steady_rule rfl) (fun _ => .inl ⟨_, rfl⟩) fun _ => ?_
  exact mainLoop_triple rounds {}

theorem suppress_steady {x : Py Unit} (h : (debuggerProtocol t project sets rows₀).Steady p r g x) :
    (debuggerProtocol t project sets rows₀).Steady p r g (suppress x) :=
  Protocol.Steady.tryExcept h fun _ => Protocol.Steady.pure _

theorem runDebug_triple {rounds : Nat} {payload : Payload} :
    (debuggerProtocol t project sets rows₀).Triple p r (.taken (payloadCopy payload)) (runDebug rounds payload)
      (fun _ g' => g'.AtWork (payloadCopy payload)) fun _ g' => g'.AtWork (payloadCopy payload) := by
  refine ((subscribe_rule (c := payloadCopy payload)).mono (fun _ _ hg' => hg') fun _ _ hg' => .inr hg').bind
    fun _ g' hg' => ?_
  obtain rfl := hg'
  -- what is done at the end, from wherever the session is left
  have hfinally : ∀ {g' : Stage}, g'.AtWork (payloadCopy payload) →
      (debuggerProtocol t project sets rows₀).Triple p r g' (do
        suppress (await (.unsubscribe payload.executionId))
        suppress (clearActive payload.executionId)) (fun _ g' => g'.AtWork (payloadCopy payload))
        fun _ g' => g'.AtWork (payloadCopy payload) := by
    intro g' hwork
    have hunsubscribe : (debuggerProtocol t project sets rows₀).Triple p r g'
        (suppress (await (.unsubscribe payload.executionId))) (fun _ g' => g' = .leaving payload.executionId)
        fun _ g' => g'.AtWork (payloadCopy payload) :=
      Protocol.Triple.tryExcept (unsubscribe_rule hwork.execution hwork.quiet fun _ _ hholds => hwork.idle hholds)
        (fun _ _ _ hg' => .pure hg') fun _ _ _ hg' => .inr hg'
    refine hunsubscribe.bind fun _ g'' hg'' => ?_
    obtain rfl := hg''
    exact (suppress_steady clearActive_steady).triple (fun _ => .inr rfl) fun _ => .inr rfl
  exact (debugRun_triple (c := payloadCopy payload) rfl).andFinally (fun _ _ hwork => hfinally hwork)
    fun _ _ hwork => hfinally hwork

theorem workerRound_triple {rounds : Nat} :
    (debuggerProtocol t project sets rows₀).Triple p r .plain (workerRound rounds) (fun _ _ => True)
      fun _ _ => True := by
  refine (dequeue_rule.mono (fun _ _ hg' => hg') fun _ _ _ => trivial).bind fun payload g' hg' => ?_
  obtain rfl := hg'
  cases payload with
  | none => exact .pure trivial
  | some payload =>
    refine Protocol.Steady.andThen (steady_rule rfl) (fun _ => trivial) fun claimed => ?_
    refine .ite (fun _ => ?_) fun _ => .pure trivial
    have hclear : ∀ {g' : Stage}, (debuggerProtocol t project sets rows₀).Triple p r g'
        (suppress (clearActive payload.executionId)) (fun _ _ => True) fun _ _ => True := fun {g'} =>
      (suppress_steady clearActive_steady).triple (fun _ => trivial) fun _ => trivial
    exact (runDebug_triple.andFinally (fun _ _ _ => hclear) fun _ _ _ => hclear).map fun _ _ _ => trivial

end Worker

/-! ## The system -/

/-- A handler with its session of the database. -/
theorem withSession_triple {α : Type} {x : Py α}
    (h : (debuggerProtocol t project sets rows₀).Triple p r .plain x (fun _ g' => g'.Quiet) fun _ g' => g'.Quiet) :
    (debuggerProtocol t project sets rows₀).Triple p r .plain (withSession x) (fun _ _ => True) fun _ _ => True :=
  h.andFinally (fun _ _ hquiet => (close_rule hquiet).mono (fun _ _ _ => trivial) fun _ _ hE => hE)
    fun _ _ hquiet => (close_rule hquiet).mono (fun _ _ _ => trivial) fun _ _ hE => hE

theorem request_triple (req : Request) :
    (debuggerProtocol t project sets rows₀).Triple p r .plain (req.program project sets) (fun _ _ => True)
      fun _ _ => True := by
  cases req with
  | setFileBreakpoints user fileId payload =>
    exact (withSession_triple setFileBreakpoints_triple).map fun _ _ _ => trivial
  | upsertBreakpoints user payload fileId =>
    exact (withSession_triple upsertBreakpoints_triple).map fun _ _ _ => trivial
  | debugCommand user username id command allowed =>
    exact (withSession_triple (debugCommand_triple allowed)).map fun _ _ _ => trivial
  | startDebug file user username => exact (withSession_triple startDebug_triple).map fun _ _ _ => trivial
  | work rounds => exact workerRound_triple.map fun _ _ _ => trivial
  | expire => exact (delActive_rule.mono (fun _ _ _ => trivial) fun _ _ _ => trivial).map fun _ _ _ => trivial

/-- The outline of the debugger. -/
def debuggerOutline (t : FileTable) (project : ProjectId) (sets : SetOrder) (rows : List Row) :
    Outline (debuggerProtocol t project sets rows) where
  idle := .plain
  start _ _ := .plain
  done _ _ _ _ := True
  init := by
    refine ⟨⟨⟨fun _ _ _ hnone => ?_, fun _ _ hnone => ?_, fun _ hnil => ?_, List.nodup_nil⟩, fun _ hnil => ?_,
      fun _ _ => ⟨rfl, rfl, rfl⟩, fun _ c hc => ?_⟩, fun q => ⟨rfl, fun _ hnil => ?_⟩⟩
    · cases hnone
    · cases hnone
    · cases hnil
    · cases hnil
    · rcases hc with ⟨q, hnone⟩ | ⟨payload, hnil, -⟩
      · cases hnone
      · cases hnil
    · cases hnil
  spawn s gs p r hinv hg := by
    rw [← hg, Function.update_eq_self]
    exact hinv
  body p r := Protocol.Follows.mono (request_triple r) fun _ _ _ => trivial
  at_end _ _ _ _ _ := fun _ _ hnone => by cases hnone

end Programs

/-! ## Runs -/

/-- The debugger with its journal. -/
abbrev DebuggerConfig := Config Op (fun o => Except PyError o.Val) (State × List Entry) Request (Except PyError Outcome)

section Runs

variable {t : FileTable} {project : ProjectId} {sets : SetOrder} {rows : List Row} {cfg : DebuggerConfig} {p : Pid}
  {r : Request} {prog : Program Op (fun o => Except PyError o.Val) (Except PyError Outcome)} {id : ExecutionId}
  {paused : Bool}

theorem fits_of_reachable (h : (debugger t project sets rows).journaled.system.Reachable cfg) :
    ∃ gs, (debuggerOutline t project sets rows).Fits cfg gs :=
  (debuggerOutline t project sets rows).sound
    (fun cfg l _ _ => Machine.guard_of_forall (fun _ _ _ _ _ => trivial) cfg l) h

/-- A session that waits in its main loop has nothing of its copy left to ask for. -/
theorem attending_of_round {gs : Pid → Stage} (hfits : (debuggerOutline t project sets rows).Fits cfg gs)
    (hp : cfg.procs p = some ⟨r, prog⟩) (hnext : prog.next? = some (.round id paused)) :
    ∃ c, gs p = .attending c [] ∧ c.execution = id ∧
      (Stage.attending c []).Holds t project p cfg.shared.1 cfg.shared.2 := by
  obtain ⟨c, hc, hid⟩ := hfits.at_next hp id paused hnext
  exact ⟨c, hc, hid, hc ▸ hfits.1.2 p⟩

/-- **A session asks for its copy, and then for what it hears.** Whenever it waits in its main loop, what its adapter
was asked for, with what still waits on its channel, is the copy of the payload that it took and then what was heard
on its channel, each once and in order; and the copy holds the lines that were stored when it was read. -/
theorem session_requests (h : (debugger t project sets rows).journaled.system.Reachable cfg)
    (hp : cfg.procs p = some ⟨r, prog⟩) (hnext : prog.next? = some (.round id paused)) :
    ∃ payload cmds, (∃ y ∈ cfg.shared.2, y.pid = p ∧ y.call = ⟨.dequeue, .ok (some payload)⟩) ∧
      payload.executionId = id ∧ cfg.shared.1.channel id = some cmds ∧
      cfg.shared.1.sent id ++ requestsOf cmds = copyRequests (payloadBreakpoints payload) ++ heard id cfg.shared.2 ∧
      ∃ x ∈ cfg.shared.2, x.call.1 = .selectBreakpoints ∧ ∀ file ∈ t.files, file.projectId = project →
        linesOf (copyRequests (payloadBreakpoints payload)) file = x.before.stored file.id := by
  obtain ⟨gs, hfits⟩ := fits_of_reachable h
  obtain ⟨c, -, rfl, -, hread, ⟨y, hy, hpid, payload, hcall, rfl⟩, cmds, hchannel, hstream⟩ :=
    attending_of_round hfits hp hnext
  rw [List.append_nil] at hstream
  exact ⟨payload, cmds, ⟨y, hy, hpid, hcall⟩, rfl, hchannel, hstream, hread⟩

/-- **The debugger has the breakpoints that are stored.** If requests have edited the files one after the other, and
none is under way, then a session that has the slot and waits with nothing on its channel has set the lines that are
stored, but for a file whose last edit was announced when nobody was listening yet. -/
theorem session_agrees (h : (debugger t project sets rows).journaled.system.Reachable cfg)
    (hp : cfg.procs p = some ⟨r, prog⟩) (hnext : prog.next? = some (.round id paused))
    (horderly : Orderly cfg.shared.2) (hsettled : Settled cfg.shared.2) (hchannel : cfg.shared.1.channel id = some [])
    (hactive : cfg.shared.1.active.map (·.executionId) = some id) {file : File} (hfile : file ∈ t.files)
    (hproject : file.projectId = project) :
    linesOf (cfg.shared.1.sent id) file = cfg.shared.1.stored file.id ∨ Unheard id file cfg.shared.2 := by
  obtain ⟨gs, hfits⟩ := fits_of_reachable h
  obtain ⟨c, hc, rfl, -, -, -, cmds, hcmds, hstream⟩ := attending_of_round hfits hp hnext
  obtain rfl : [] = cmds := Option.some.inj (hchannel.symm.trans hcmds)
  have hcopied : Copied cfg.shared.1 gs c := .inl ⟨p, by rw [hc]; rfl⟩
  rcases hfits.1.1.agreed horderly c hcopied hactive file hfile hproject with hlines | ⟨q, hwill⟩ | hunheard
  · rw [requestsOf, List.filterMap_nil, List.append_nil, List.append_nil] at hstream
    exact .inl (by rw [hstream, hlines])
  · exact absurd ((hfits.1.2 q).editing hwill) (hsettled q file.id)
  · exact .inr hunheard

end Runs

/-- A project with one file. -/
def oneFile : FileTable where
  files := [⟨1, 0, "main.py", .python⟩]
  nodup_ids := by decide
  nodup_paths := by decide
  relative := by decide

/-- Sets of files in the order of their ids. -/
def byId : SetOrder where
  order files := files.sort
  nodup files := Finset.sort_nodup files _
  mem_order files file := Finset.mem_sort _

/-- A breakpoint of the file is set, and then a session is started. -/
def sessionStarts : List (Label Env Request) :=
  .spawn 0 (.setFileBreakpoints 7 1 ⟨[3], by decide⟩) :: List.replicate 10 (.run 0 {}) ++
    .spawn 1 (.startDebug ⟨1, 0, "main.py", .python⟩ 7 "ada") :: List.replicate 7 (.run 1 {})

/-- The worker of the session runs up to its main loop. -/
def sessionRuns : List (Label Env Request) := .spawn 2 (.work 2) :: List.replicate 6 (.run 2 {})

/-- The breakpoint is moved, while there is a session. -/
def breakpointMoves : List (Label Env Request) :=
  .spawn 3 (.setFileBreakpoints 7 1 ⟨[5], by decide⟩) :: List.replicate 11 (.run 3 {})

/-- Process 2 waits in the main loop of execution 0. -/
def waits (cfg : DebuggerConfig) : Bool :=
  match cfg.procs 2 with
  | some ⟨_, prog⟩ => prog.next? = some (.round 0 false)
  | none => false

theorem exists_of_waits {cfg : DebuggerConfig} (h : waits cfg = true) :
    ∃ r prog, cfg.procs 2 = some ⟨r, prog⟩ ∧ prog.next? = some (.round 0 false) := by
  unfold waits at h
  split at h
  · next r prog hp => exact ⟨r, prog, hp, of_decide_eq_true h⟩
  · cases h

/-- The session hears of the breakpoint that was moved. -/
theorem session_requests_moved : ∃ cfg : DebuggerConfig,
    (debugger oneFile 0 byId []).journaled.system.Reachable cfg ∧
      cfg.shared.1.sent 0 = [("/workspace/main.py", [3])] ∧ ∃ payload cmds,
        (∃ y ∈ cfg.shared.2, y.pid = 2 ∧ y.call = ⟨.dequeue, .ok (some payload)⟩) ∧ payload.executionId = 0 ∧
        cfg.shared.1.channel 0 = some cmds ∧
        cfg.shared.1.sent 0 ++ requestsOf cmds = copyRequests (payloadBreakpoints payload) ++ heard 0 cfg.shared.2 ∧
        ∃ x ∈ cfg.shared.2, x.call.1 = .selectBreakpoints ∧ ∀ file ∈ oneFile.files, file.projectId = 0 →
          linesOf (copyRequests (payloadBreakpoints payload)) file = x.before.stored file.id := by
  have hrun : ((debugger oneFile 0 byId []).journaled.system.replay System.anyStep
      (debugger oneFile 0 byId []).journaled.system.init (sessionStarts ++ sessionRuns ++ breakpointMoves)).any
        (fun cfg => waits cfg && decide (cfg.shared.1.sent 0 = [("/workspace/main.py", [3])])) = true := by
    decide +kernel
  obtain ⟨cfg, hcfg, hends⟩ := System.exists_reachable hrun
  obtain ⟨hwaits, hsent⟩ := (Bool.and_eq_true _ _).mp hends
  obtain ⟨r, prog, hp, hnext⟩ := exists_of_waits hwaits
  exact ⟨cfg, hcfg, of_decide_eq_true hsent, session_requests hcfg hp hnext⟩

/-- Process 2 waits with nothing on its channel and has the slot, and nobody edits. -/
def atRest (cfg : DebuggerConfig) : Bool :=
  waits cfg && decide (Orderly cfg.shared.2 ∧ Settled cfg.shared.2 ∧ cfg.shared.1.channel 0 = some [] ∧
    cfg.shared.1.active.map (·.executionId) = some 0)

theorem session_agrees_moved : ∃ cfg : DebuggerConfig,
    (debugger oneFile 0 byId []).journaled.system.Reachable cfg ∧ cfg.shared.1.stored 1 = [5] ∧
      (linesOf (cfg.shared.1.sent 0) ⟨1, 0, "main.py", .python⟩ = cfg.shared.1.stored 1 ∨
        Unheard 0 ⟨1, 0, "main.py", .python⟩ cfg.shared.2) := by
  have hrun : ((debugger oneFile 0 byId []).journaled.system.replay System.anyStep
      (debugger oneFile 0 byId []).journaled.system.init (sessionStarts ++ sessionRuns ++ breakpointMoves ++
        [.run 2 { taken := [(.command, {})] }, .run 2 {}])).any
          (fun cfg => atRest cfg && decide (cfg.shared.1.stored 1 = [5])) = true := by decide +kernel
  obtain ⟨cfg, hcfg, hends⟩ := System.exists_reachable hrun
  obtain ⟨hrest, hstored⟩ := (Bool.and_eq_true _ _).mp hends
  obtain ⟨hwaits, hrest⟩ := (Bool.and_eq_true _ _).mp hrest
  obtain ⟨horderly, hsettled, hchannel, hactive⟩ := of_decide_eq_true hrest
  obtain ⟨r, prog, hp, hnext⟩ := exists_of_waits hwaits
  have hfile : (⟨1, 0, "main.py", .python⟩ : File) ∈ oneFile.files := List.mem_singleton.2 rfl
  exact ⟨cfg, hcfg, of_decide_eq_true hstored,
    session_agrees hcfg hp hnext horderly hsettled hchannel hactive hfile rfl⟩

/-- The exception is real: a breakpoint that is moved between the copy and the subscription is never told. -/
example : ((debugger oneFile 0 byId []).journaled.system.replay System.anyStep
    (debugger oneFile 0 byId []).journaled.system.init (sessionStarts ++ breakpointMoves ++ sessionRuns)).any
      (fun cfg => atRest cfg && decide (cfg.shared.1.stored 1 = [5] ∧
        cfg.shared.1.sent 0 = [("/workspace/main.py", [3])])) = true := by decide +kernel

end Concord.Breakpoints
