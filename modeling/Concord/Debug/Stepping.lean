import Concord.Debug.Session

/-!
# One step per stop

A command that lets the program go on is passed on while the session is paused, and the session is paused
until the adapter's `continued` event has been handled. Two such commands that are handled before that
are both passed on. `one_step_per_stop` says that nothing else can go wrong: if every command that finds
the session paused comes after the event that answers the last step, then no two steps are requested on
one stop.
-/

namespace Concord

open Concord.Base

/-- The log goes on with a step only after a stop that no other step has used. -/
def StopBefore (log : List DebugLog) : Prop :=
  ∃ pre post, log = pre ++ .stopped :: post ∧ ∀ name id, .step name id ∉ post

/-- Between two stops at most one step is requested, and none before the first. -/
def OneStepPerStop (log : List DebugLog) : Prop :=
  ∀ pre name id post, log = pre ++ .step name id :: post → StopBefore pre

/-- Whether a step is still unanswered after one more entry. -/
def unansweredAfter (unanswered : Bool) : DebugLog → Bool
  | .step _ _ => true
  | .stopped | .continued => false
  | .pause _ => unanswered

/-- The last step has been requested, and the program has neither stopped nor gone on since. -/
def unanswered (log : List DebugLog) : Bool := log.foldl unansweredAfter false

variable {log : List DebugLog}

theorem unanswered_concat (log : List DebugLog) (entry : DebugLog) :
    unanswered (log ++ [entry]) = unansweredAfter (unanswered log) entry := by
  unfold unanswered
  rw [List.foldl_append]
  rfl

theorem unanswered_of_stopBefore (h : StopBefore log) : unanswered log = false := by
  obtain ⟨pre, post, rfl, hpost⟩ := h
  have hkept : ∀ post : List DebugLog, (∀ name id, .step name id ∉ post) →
      post.foldl unansweredAfter false = false := by
    intro post hpost
    induction post with
    | nil => rfl
    | cons entry post ih =>
      have hrest := ih fun name id hmem => hpost name id (List.mem_cons_of_mem _ hmem)
      cases entry with
      | step name id => exact absurd List.mem_cons_self (hpost name id)
      | stopped => exact hrest
      | continued => exact hrest
      | pause id => exact hrest
  unfold unanswered
  rw [List.foldl_append, List.foldl_cons]
  exact hkept post hpost

theorem OneStepPerStop.concat (h : OneStepPerStop log) {entry : DebugLog}
    (hentry : ∀ name id, entry = .step name id → StopBefore log) : OneStepPerStop (log ++ [entry]) := by
  intro pre name id post hsplit
  rcases List.eq_nil_or_concat post with rfl | ⟨post, last, rfl⟩
  · obtain ⟨rfl, hlast⟩ := List.append_inj' hsplit rfl
    exact hentry name id (List.cons.inj hlast).1
  · rw [List.concat_eq_append, ← List.cons_append, ← List.append_assoc] at hsplit
    exact h pre name id post (List.append_inj' hsplit rfl).1

/-- A log that has gone wrong stays wrong. -/
theorem OneStepPerStop.of_prefix {more : List DebugLog} (h : OneStepPerStop (log ++ more)) :
    OneStepPerStop log := by
  rintro pre name id post rfl
  exact h pre name id (post ++ more) (by simp)

namespace DebugRun

variable {target : DebugTarget} {run run' : DebugRun}

/-! ## What leaves the log alone -/

/-- Two runs that have asked the same of the program and have it paused alike. -/
def SameCourse (run run' : DebugRun) : Prop := run'.log = run.log ∧ run'.paused = run.paused

theorem handleOutput_sameCourse (run : DebugRun) (category : OutputCategory) (text : Str) :
    run.SameCourse (run.handleOutput category text) := by
  unfold handleOutput
  split
  · exact ⟨rfl, rfl⟩
  · split
    · exact ⟨rfl, rfl⟩
    · exact ⟨rfl, rfl⟩

theorem report_sameCourse {α : Type} (run : DebugRun) (result : Except DapFailure α)
    {next : α → DebugRun} (hnext : ∀ value, run.SameCourse (next value)) :
    run.SameCourse (run.report result next) := by
  cases result with
  | ok value => exact hnext value
  | error failure =>
    cases failure with
    | reported text => exact ⟨rfl, rfl⟩
    | fatal => exact ⟨rfl, rfl⟩

theorem handleStopped_course (target : DebugTarget) (run : DebugRun) (threadId : Option Int) (reason : String)
    (text : Option String) (answers : AdapterAnswers) :
    (run.handleStopped target threadId reason text answers).log = run.log ++ [.stopped] ∧
      (run.handleStopped target threadId reason text answers).paused = true := by
  unfold handleStopped
  dsimp only
  split
  · exact ⟨rfl, rfl⟩
  · split
    · exact ⟨rfl, rfl⟩
    · exact ⟨rfl, rfl⟩

/-! ## One step of the session -/

/-- What a step of the session can do to the log and to the flag. -/
inductive Course (run run' : DebugRun) (l : Label) : Prop
  | same (h : run.SameCourse run')
  | stopped (hlog : run'.log = run.log ++ [.stopped]) (hpaused : run'.paused = true)
  | continued (hlog : run'.log = run.log ++ [.continued]) (hpaused : run'.paused = false)
  | pause (id : Int) (hlog : run'.log = run.log ++ [.pause id]) (hpaused : run'.paused = false)
  | step (name : StepName) (id : Int) (username : Option String) (answers : AdapterAnswers)
      (hlabel : l = .handle (.command username (.step name)) answers) (hpaused : run.paused = true)
      (hthread : run.threadId = some id) (hlog : run'.log = run.log ++ [.step name id])

theorem handleEvent_course (event : AdapterEvent) (answers : AdapterAnswers) (l : Label) :
    Course run (run.handleEvent target answers event) l := by
  cases event with
  | output category text => exact .same (run.handleOutput_sameCourse category text)
  | threadStarted threadId => exact .same ⟨rfl, rfl⟩
  | stopped threadId reason text =>
    have h := handleStopped_course target run threadId reason text answers
    exact .stopped h.1 h.2
  | continued =>
    cases hpaused : run.paused with
    | false =>
      refine .continued ?_ ?_
      · simp [handleEvent, cancelDetails, hpaused]
      · simp [handleEvent, cancelDetails, hpaused]
    | true =>
      refine .continued ?_ ?_
      · simp [handleEvent, cancelDetails, publish, hpaused]
      · simp [handleEvent, cancelDetails, publish, hpaused]
  | exited exitCode => exact .same ⟨rfl, rfl⟩
  | terminated => exact .same ⟨rfl, rfl⟩
  | closed => exact .same ⟨rfl, rfl⟩
  | unknown => exact .same ⟨rfl, rfl⟩

/-- A command that lets the program go on is passed on exactly if the session is paused in a thread. -/
theorem handleStep_log (name : StepName) (username : Option String) (answers : AdapterAnswers)
    {id : Int} (hpaused : run.paused = true) (hthread : run.threadId = some id) :
    (run.handleStep name username answers).log = run.log ++ [.step name id] := by
  unfold handleStep
  rw [hpaused, hthread]
  exact (report_sameCourse _ answers.control fun _ => ⟨rfl, rfl⟩).1

theorem handleStep_of_not {name : StepName} {username : Option String} {answers : AdapterAnswers}
    (h : run.paused = true → run.threadId = none) : run.handleStep name username answers = run := by
  unfold handleStep
  split
  · next hpaused hthread => simp [h hpaused] at hthread
  · rfl

theorem handleCommand_course (username : Option String) (answers : AdapterAnswers)
    (command : DebugCommand) :
    Course run (run.handleCommand username answers command) (.handle (.command username command) answers) := by
  cases command with
  | step name =>
    cases hpaused : run.paused with
    | false =>
      have hsame : run.handleStep name username answers = run :=
        handleStep_of_not fun h => by simp [hpaused] at h
      rw [handleCommand, hsame]
      exact .same ⟨rfl, rfl⟩
    | true =>
      cases hthread : run.threadId with
      | none =>
        rw [handleCommand, handleStep_of_not fun _ => hthread]
        exact .same ⟨rfl, rfl⟩
      | some id =>
        exact .step name id username answers rfl hpaused hthread
          (handleStep_log name username answers hpaused hthread)
  | pause =>
    cases hpaused : run.paused with
    | true =>
      rw [handleCommand, if_pos hpaused]
      exact .same ⟨rfl, rfl⟩
    | false =>
      rw [handleCommand, if_neg (by simp [hpaused])]
      have h := report_sameCourse
        { run.cancelDetails with
          deferVariables := false
          lastBy := username
          log := run.log ++ [.pause ((orElse run.threadId (some 1)).getD 1)] }
        answers.control fun _ => ⟨rfl, rfl⟩
      exact .pause _ h.1 (h.2.trans hpaused)
  | vars ref =>
    rw [handleCommand]
    split
    · exact .same (report_sameCourse run answers.vars fun found => ⟨rfl, rfl⟩)
    · exact .same ⟨rfl, rfl⟩
  | frame frameId =>
    rw [handleCommand]
    split
    · exact .same (report_sameCourse run.cancelDetails _ fun found => ⟨rfl, rfl⟩)
    · exact .same ⟨rfl, rfl⟩
  | setBreakpoints path lines =>
    rw [handleCommand]
    split
    · exact .same ⟨rfl, rfl⟩
    · exact .same (report_sameCourse run answers.control fun _ => ⟨rfl, rfl⟩)
  | stop => exact .same ⟨rfl, rfl⟩
  | unknown => exact .same ⟨rfl, rfl⟩

theorem step_course {l : Label} (h : run.step target l = some run') : Course run run' l := by
  cases l with
  | handle input answers =>
    rw [DebugRun.step, Option.ite_none_left_eq_some] at h
    obtain ⟨-, h⟩ := h
    obtain rfl := Option.some.inj h
    cases input with
    | event event => exact handleEvent_course event answers _
    | command username command => exact handleCommand_course username answers command
    | cancel => exact .same ⟨rfl, rfl⟩
  | leave =>
    rw [DebugRun.step, Option.ite_none_right_eq_some] at h
    obtain ⟨-, h⟩ := h
    obtain rfl := Option.some.inj h
    exact .same ⟨rfl, rfl⟩
  | timeUp reason =>
    rw [DebugRun.step, Option.ite_none_right_eq_some] at h
    obtain ⟨-, h⟩ := h
    obtain rfl := Option.some.inj h
    exact .same ⟨rfl, rfl⟩

/-! ## Runs -/

/-- A command that lets the program go on, and that finds the session paused in a thread, comes after the
event that answers the last step. -/
def Answered (run : DebugRun) : Label → Prop
  | .handle (.command _ (.step _)) _ =>
    run.paused = true → run.threadId.isSome = true → unanswered run.log = false
  | _ => True

instance (run : DebugRun) (l : Label) : Decidable (Answered run l) := by
  unfold Answered
  split <;> infer_instance

/-- The requests so far are in order, and a paused session that waits for no answer has stopped since the
last of them. -/
structure CourseInv (run : DebugRun) : Prop where
  inOrder : OneStepPerStop run.log
  stopped : run.paused = true → unanswered run.log = false → StopBefore run.log

theorem stopBefore_concat_stopped (log : List DebugLog) : StopBefore (log ++ [.stopped]) :=
  ⟨log, [], rfl, fun _ _ hmem => nomatch hmem⟩

theorem CourseInv.step {l : Label} (hinv : run.CourseInv) (hok : Answered run l)
    (h : run.step target l = some run') : run'.CourseInv := by
  cases step_course h with
  | same hsame =>
    obtain ⟨hlog, hpaused⟩ := hsame
    refine ⟨?_, ?_⟩
    · rw [hlog]
      exact hinv.inOrder
    · rw [hlog, hpaused]
      exact hinv.stopped
  | stopped hlog _ =>
    refine ⟨?_, fun _ _ => ?_⟩
    · rw [hlog]
      exact hinv.inOrder.concat fun _ _ hentry => nomatch hentry
    · rw [hlog]
      exact stopBefore_concat_stopped run.log
  | continued hlog hpaused =>
    refine ⟨?_, fun h _ => ?_⟩
    · rw [hlog]
      exact hinv.inOrder.concat fun _ _ hentry => nomatch hentry
    · simp [hpaused] at h
  | pause id hlog hpaused =>
    refine ⟨?_, fun h _ => ?_⟩
    · rw [hlog]
      exact hinv.inOrder.concat fun _ _ hentry => nomatch hentry
    · simp [hpaused] at h
  | step name id username answers hlabel hpaused hthread hlog =>
    subst hlabel
    have hanswered : unanswered run.log = false := hok hpaused (by simp [hthread])
    refine ⟨?_, fun _ hopen => ?_⟩
    · rw [hlog]
      exact hinv.inOrder.concat fun _ _ _ => hinv.stopped hpaused hanswered
    · rw [hlog, unanswered_concat] at hopen
      cases hopen

theorem courseInv_init : CourseInv {} where
  inOrder := by
    intro pre name id post h
    exact absurd h (by simp)
  stopped h := nomatch h

/-- A step that comes too early is the second one on the same stop. -/
theorem not_oneStepPerStop_of_not_answered {l : Label} (h : run.step target l = some run')
    (hnot : ¬Answered run l) : ¬OneStepPerStop run'.log := by
  intro horder
  unfold Answered at hnot
  split at hnot
  · next username name answers =>
    simp only [Classical.not_imp, Bool.not_eq_false] at hnot
    obtain ⟨hpaused, hthread, hopen⟩ := hnot
    obtain ⟨id, hid⟩ := Option.isSome_iff_exists.1 hthread
    rw [DebugRun.step, Option.ite_none_left_eq_some] at h
    obtain rfl := Option.some.inj h.2
    have hlog : (run.handle target answers (.command username (.step name))).log =
        run.log ++ [.step name id] := handleStep_log name username answers hpaused hid
    have hstop : StopBefore run.log := horder run.log name id [] hlog
    have hclosed := unanswered_of_stopBefore hstop
    rw [hopen] at hclosed
    cases hclosed
  · exact hnot trivial

/-- Between two stops at most one step is requested, and none before the first, in every run in which
every command that finds the session paused comes after the answer to the last step; the first command
that comes earlier is a second step on one stop. -/
theorem one_step_per_stop (target : DebugTarget) :
    (∀ run : DebugRun, (system target).ReachableUnder Answered run → OneStepPerStop run.log) ∧
      ∀ (run : DebugRun) (l : Label) (run' : DebugRun), run.step target l = some run' →
        ¬Answered run l → ¬OneStepPerStop run'.log := by
  refine ⟨fun run hrun => ?_, fun run l run' hstep hnot => not_oneStepPerStop_of_not_answered hstep hnot⟩
  have hinv : CourseInv run := System.ReachableUnder.induction hrun courseInv_init
    fun _ _ _ _ hinv hok hstep => hinv.step hok hstep
  exact hinv.inOrder

/-- A program that is stepped twice, and is asked for a third step before the second is answered. -/
def steppedTwice : List Label :=
  [.handle (.event (.stopped (some 1) "breakpoint" none)) {},
    .handle (.command (some "ann") (.step .next)) {},
    .handle (.event .continued) {},
    .handle (.command (some "bob") (.step .next)) {},
    .handle (.event (.stopped none "step" none)) {},
    .handle (.command (some "bob") (.step .stepIn)) {}]

theorem one_step_per_stop_twice :
    ∃ run run' : DebugRun,
      run.log = [.stopped, .step .next 1, .continued, .stopped, .step .stepIn 1] ∧
        run'.log = run.log ++ [.step .stepOut 1] ∧ OneStepPerStop run.log ∧ ¬OneStepPerStop run'.log := by
  have hrun : ((system ⟨[]⟩).replay Answered {} steppedTwice).any
      (fun run => decide (run.log = [.stopped, .step .next 1, .continued, .stopped, .step .stepIn 1] ∧
        run.paused = true ∧ run.threadId = some 1 ∧ run.ended = false)) = true := by
    decide +kernel
  obtain ⟨run, hreach, hstate⟩ := System.exists_reachable hrun
  obtain ⟨hlog, hpaused, hthread, hended⟩ := of_decide_eq_true hstate
  have hstep : run.step ⟨[]⟩ (.handle (.command none (.step .stepOut)) {}) =
      some (run.handleStep .stepOut none {}) := by
    rw [DebugRun.step, if_neg (by simp [hended])]
    rfl
  refine ⟨run, _, hlog, handleStep_log .stepOut none {} hpaused hthread,
    (one_step_per_stop ⟨[]⟩).1 run hreach, (one_step_per_stop ⟨[]⟩).2 run _ _ hstep ?_⟩
  intro hanswered
  have hclosed : unanswered run.log = false := hanswered hpaused (by simp [hthread])
  rw [hlog] at hclosed
  cases hclosed

/-- Two members press a button each on the first stop. -/
def pressedTwice : List Label :=
  [.handle (.event (.stopped (some 1) "breakpoint" none)) {},
    .handle (.command (some "ann") (.step .next)) {},
    .handle (.command (some "bob") (.step .next)) {},
    .handle (.event .continued) {}]

theorem two_steps_on_one_stop :
    ¬∀ run : DebugRun, (system ⟨[]⟩).Reachable run → OneStepPerStop run.log := by
  intro h
  have hrun : ((system ⟨[]⟩).replay System.anyStep {} pressedTwice).any
      (fun run => decide (run.log = [.stopped, .step .next 1, .step .next 1, .continued])) = true := by
    decide +kernel
  obtain ⟨run, hreach, hlog⟩ := System.exists_reachable hrun
  have horder := h run hreach
  rw [of_decide_eq_true hlog] at horder
  have hstop := horder [.stopped, .step .next 1] .next 1 [.continued] rfl
  exact absurd (unanswered_of_stopBefore hstop) (by decide)

end DebugRun

end Concord
