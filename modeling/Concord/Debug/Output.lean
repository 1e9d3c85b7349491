import Concord.Debug.Session
import Concord.Frontend.Runs

/-!
# The output of a debug session

A session keeps the first `maxOutputChars` characters of what the program writes, whichever stream they
go to, and publishes what it keeps, part by part. `OutputInv` says so of a session and of all that has
been written so far. A console that puts the published parts together has then, for each stream, what the
session comes to.
-/

namespace Concord

open Concord.Base

/-- The `stream` of an `execution_output_chunk` event. -/
def OutputCategory.name : OutputCategory → String
  | stdout => "stdout"
  | stderr => "stderr"
  | other => "console"

theorem name_eq_stderr_iff {stream : OutputCategory} (h : stream ≠ .other) :
    stream.name = "stderr" ↔ stream = .stderr := by
  cases stream with
  | stdout => simp [OutputCategory.name]
  | stderr => simp [OutputCategory.name]
  | other => exact absurd rfl h

theorem name_ne_stderr_iff {stream : OutputCategory} (h : stream ≠ .other) :
    stream.name ≠ "stderr" ↔ stream = .stdout := by
  cases stream with
  | stdout => simp [OutputCategory.name]
  | stderr => simp [OutputCategory.name]
  | other => exact absurd rfl h

/-- The program's output, in the order in which it is written. -/
abbrev Output := List (OutputCategory × CodePoint)

/-- What goes to one stream. -/
def ofStream (stream : OutputCategory) (output : Output) : Str :=
  (output.filter (·.1 = stream)).map Prod.snd

/-- Text that is written to one stream. -/
def written (stream : OutputCategory) (text : Str) : Output := text.map (stream, ·)

/-! ## Streams -/

section Streams

variable {stream stream' : OutputCategory}

@[simp] theorem ofStream_nil (stream : OutputCategory) : ofStream stream [] = [] := rfl

@[simp] theorem ofStream_append (stream : OutputCategory) (output more : Output) :
    ofStream stream (output ++ more) = ofStream stream output ++ ofStream stream more := by
  simp [ofStream]

@[simp] theorem length_written (stream : OutputCategory) (text : Str) :
    (written stream text).length = text.length := List.length_map _

theorem take_written (stream : OutputCategory) (text : Str) (n : Nat) :
    (written stream text).take n = written stream (text.take n) := List.map_take.symm

theorem ofStream_written_self (stream : OutputCategory) (text : Str) :
    ofStream stream (written stream text) = text := by
  induction text with
  | nil => rfl
  | cons char text ih => simpa [ofStream, written] using ih

theorem ofStream_written_of_ne (h : stream' ≠ stream) (text : Str) :
    ofStream stream (written stream' text) = [] := by
  simp [ofStream, written, h]

/-- No character goes to both streams. -/
theorem length_ofStream_add (output : Output) :
    (ofStream .stdout output).length + (ofStream .stderr output).length ≤ output.length := by
  induction output with
  | nil => simp
  | cons entry output ih =>
    obtain ⟨stream, char⟩ := entry
    have hone : (ofStream .stdout [(stream, char)]).length + (ofStream .stderr [(stream, char)]).length ≤ 1 := by
      cases stream <;> simp [ofStream]
    rw [← List.singleton_append, ofStream_append, ofStream_append]
    simp only [List.length_append, List.length_singleton]
    omega

end Streams

namespace DebugRun

variable {target : DebugTarget} {run run' : DebugRun} {output : Output}

/-- The parts of the output in what has been published. -/
def chunks (published : List DebugEvent) : List (OutputCategory × Str) :=
  published.filterMap fun
    | .outputChunk stream text => some (stream, text)
    | _ => none

/-- The `execution_output_chunk` events in what has been published, as the frontend has them. -/
def chunkEvents (executionId : Int) (published : List DebugEvent) : List RunEvent :=
  (chunks published).map fun chunk => chunkEvent executionId chunk.1.name (utf16 chunk.2)

/-- What a label has the program write to one of the two streams. -/
def Label.writes : Label → Output
  | .handle (.event (.output category text)) _ => if category = .other then [] else written category text
  | _ => []

/-- A session, and what the program has written so far. -/
structure OutputInv (output : Output) (run : DebugRun) : Prop where
  chars : run.outChars = min maxOutputChars output.length
  stdout : run.stdout.flatten = ofStream .stdout (output.take maxOutputChars)
  stderr : run.stderr.flatten = ofStream .stderr (output.take maxOutputChars)
  published : (chunks run.published).flatMap (fun chunk => written chunk.1 chunk.2) =
    output.take maxOutputChars
  streams : ∀ chunk ∈ chunks run.published, chunk.1 ≠ .other

theorem outputInv_init : OutputInv [] {} where
  chars := rfl
  stdout := rfl
  stderr := rfl
  published := rfl
  streams := fun _ hchunk => nomatch hchunk

/-- What is left of the budget is spent on the text, from its start. -/
theorem take_output_append (output : Output) (stream : OutputCategory) (text : Str) :
    (output ++ written stream text).take maxOutputChars =
      output.take maxOutputChars ++ written stream (text.take (maxOutputChars - output.length)) := by
  rw [List.take_append, take_written]

@[simp] theorem chunks_append (published more : List DebugEvent) :
    chunks (published ++ more) = chunks published ++ chunks more := by
  simp [chunks]

theorem handleOutput_of_lt {category : OutputCategory} {text : Str} (hcategory : category ≠ .other)
    (h : run.outChars < maxOutputChars) :
    run.handleOutput category text =
      { run with
        outChars := run.outChars + (text.take (maxOutputChars - run.outChars)).length
        stdout := if category = .stdout then run.stdout ++ [text.take (maxOutputChars - run.outChars)]
          else run.stdout
        stderr := if category = .stdout then run.stderr
          else run.stderr ++ [text.take (maxOutputChars - run.outChars)]
        published := run.published ++ [.outputChunk category (text.take (maxOutputChars - run.outChars))] } := by
  unfold handleOutput
  rw [if_neg hcategory, if_pos h]
  rfl

theorem OutputInv.handleOutput {category : OutputCategory} (text : Str) (hcategory : category ≠ .other)
    (h : OutputInv output run) :
    OutputInv (output ++ written category text) (run.handleOutput category text) := by
  by_cases hroom : run.outChars < maxOutputChars
  · have hlength : run.outChars = output.length := by
      have := h.chars
      omega
    have htake := take_output_append output category text
    rw [handleOutput_of_lt hcategory hroom, hlength]
    refine ⟨?_, ?_, ?_, ?_, ?_⟩
    · simp only [List.length_take, List.length_append, length_written]
      omega
    · rw [htake, ofStream_append, ← h.stdout]
      cases category with
      | stdout => simp [ofStream_written_self]
      | stderr => simp [ofStream_written_of_ne]
      | other => exact absurd rfl hcategory
    · rw [htake, ofStream_append, ← h.stderr]
      cases category with
      | stdout => simp [ofStream_written_of_ne]
      | stderr => simp [ofStream_written_self]
      | other => exact absurd rfl hcategory
    · rw [htake, ← h.published]
      simp [chunks]
    · intro chunk hchunk
      rw [chunks_append, List.mem_append] at hchunk
      rcases hchunk with hchunk | hchunk
      · exact h.streams chunk hchunk
      · rw [List.mem_singleton.1 hchunk]
        exact hcategory
  · have hfull : maxOutputChars ≤ output.length := by
      have := h.chars
      omega
    have htake : (output ++ written category text).take maxOutputChars = output.take maxOutputChars :=
      List.take_append_of_le_length hfull
    have hsame : run.handleOutput category text = run := by
      unfold DebugRun.handleOutput
      rw [if_neg hcategory, if_neg hroom]
    rw [hsame]
    exact {
      chars := by
        rw [h.chars, List.length_append]
        omega
      stdout := by rw [htake, h.stdout]
      stderr := by rw [htake, h.stderr]
      published := by rw [htake, h.published]
      streams := h.streams }

/-! ## One step of the session -/

/-- Two runs that have kept and published the same output. -/
def SameOutput (run run' : DebugRun) : Prop :=
  run'.outChars = run.outChars ∧ run'.stdout = run.stdout ∧ run'.stderr = run.stderr ∧
    chunks run'.published = chunks run.published

theorem SameOutput.rfl : run.SameOutput run := ⟨Eq.refl _, Eq.refl _, Eq.refl _, Eq.refl _⟩

theorem OutputInv.of_same (h : OutputInv output run) (hsame : run.SameOutput run') : OutputInv output run' := by
  obtain ⟨hchars, hout, herr, hchunks⟩ := hsame
  exact {
    chars := hchars.trans h.chars
    stdout := by rw [hout, h.stdout]
    stderr := by rw [herr, h.stderr]
    published := by rw [hchunks, h.published]
    streams := by
      rw [hchunks]
      exact h.streams }

theorem publish_sameOutput (run : DebugRun) {event : DebugEvent} (h : chunks [event] = []) :
    run.SameOutput (run.publish event) :=
  ⟨Eq.refl _, Eq.refl _, Eq.refl _, by rw [publish, chunks_append, h, List.append_nil]⟩

theorem SameOutput.trans {run'' : DebugRun} (h : run.SameOutput run') (h' : run'.SameOutput run'') :
    run.SameOutput run'' :=
  ⟨h'.1.trans h.1, h'.2.1.trans h.2.1, h'.2.2.1.trans h.2.2.1, h'.2.2.2.trans h.2.2.2⟩

theorem report_sameOutput {α : Type} (run : DebugRun) (result : Except DapFailure α)
    {next : α → DebugRun} (hnext : ∀ value, run.SameOutput (next value)) :
    run.SameOutput (run.report result next) := by
  cases result with
  | ok value => exact hnext value
  | error failure =>
    cases failure with
    | reported text => exact run.publish_sameOutput (Eq.refl _)
    | fatal => exact .rfl

theorem handleStopped_sameOutput (run : DebugRun) (threadId : Option Int) (reason : String)
    (text : Option String) (answers : AdapterAnswers) :
    run.SameOutput (run.handleStopped target threadId reason text answers) := by
  unfold handleStopped
  dsimp only
  split
  · exact .rfl
  · next state _ =>
    have hpublished : run.SameOutput (run.publish (.paused state)) := run.publish_sameOutput (Eq.refl _)
    split
    · exact hpublished
    · exact hpublished

theorem handleCommand_sameOutput (run : DebugRun) (username : Option String) (answers : AdapterAnswers)
    (command : DebugCommand) : run.SameOutput (run.handleCommand username answers command) := by
  cases command with
  | step name =>
    rw [handleCommand, handleStep]
    split
    · exact report_sameOutput _ answers.control fun _ => .rfl
    · exact .rfl
  | pause =>
    rw [handleCommand]
    split
    · exact .rfl
    · exact report_sameOutput _ answers.control fun _ => .rfl
  | vars ref =>
    rw [handleCommand]
    split
    · exact report_sameOutput run answers.vars fun _ => run.publish_sameOutput (Eq.refl _)
    · exact .rfl
  | frame frameId =>
    rw [handleCommand]
    split
    · exact report_sameOutput run.cancelDetails _ fun _ => run.cancelDetails.publish_sameOutput (Eq.refl _)
    · exact .rfl
  | setBreakpoints path lines =>
    rw [handleCommand]
    split
    · exact .rfl
    · exact report_sameOutput run answers.control fun _ => .rfl
  | stop => exact .rfl
  | unknown => exact .rfl

theorem handleEvent_sameOutput (run : DebugRun) {event : AdapterEvent} (answers : AdapterAnswers)
    (h : ∀ category text, event = .output category text → category = .other) :
    run.SameOutput (run.handleEvent target answers event) := by
  cases event with
  | output category text =>
    have hsame : run.handleOutput category text = run := by
      rw [handleOutput, if_pos (h category text (Eq.refl _))]
    rw [handleEvent, hsame]
    exact .rfl
  | stopped threadId reason text => exact run.handleStopped_sameOutput threadId reason text answers
  | continued =>
    rw [handleEvent]
    split
    · exact publish_sameOutput _ (Eq.refl _)
    · exact .rfl
  | threadStarted threadId => exact .rfl
  | exited exitCode => exact .rfl
  | terminated => exact .rfl
  | closed => exact .rfl
  | unknown => exact .rfl

theorem OutputInv.step {l : Label} (h : OutputInv output run) (hstep : run.step target l = some run') :
    OutputInv (output ++ l.writes) run' := by
  have hquiet (hsame : run.SameOutput run') : OutputInv (output ++ []) run' := by
    rw [List.append_nil]
    exact h.of_same hsame
  cases l with
  | handle input answers =>
    rw [DebugRun.step, Option.ite_none_left_eq_some] at hstep
    obtain ⟨-, hstep⟩ := hstep
    obtain rfl := Option.some.inj hstep
    cases input with
    | event event =>
      by_cases hevent : ∃ category text, event = .output category text ∧ category ≠ .other
      · obtain ⟨category, text, rfl, hcategory⟩ := hevent
        rw [Label.writes, if_neg hcategory]
        exact h.handleOutput text hcategory
      · have hwrites : Label.writes (.handle (.event event) answers) = [] := by
          unfold Label.writes
          split
          · next category text _ hlabel =>
            by_cases hcategory : category = .other
            · exact if_pos hcategory
            · cases hlabel
              exact absurd ⟨category, text, Eq.refl _, hcategory⟩ hevent
          · exact Eq.refl _
        rw [hwrites]
        refine hquiet (run.handleEvent_sameOutput answers fun category text hout => ?_)
        by_contra hcategory
        exact hevent ⟨category, text, hout, hcategory⟩
    | command username command => exact hquiet (run.handleCommand_sameOutput username answers command)
    | cancel => exact hquiet .rfl
  | leave =>
    rw [DebugRun.step, Option.ite_none_right_eq_some] at hstep
    obtain rfl := Option.some.inj hstep.2
    exact hquiet .rfl
  | timeUp reason =>
    rw [DebugRun.step, Option.ite_none_right_eq_some] at hstep
    obtain rfl := Option.some.inj hstep.2
    exact hquiet .rfl

/-! ## Runs -/

/-- What a run of the session has the program write. -/
def outputOf (labels : List Label) : Output := labels.flatMap Label.writes

theorem OutputInv.replay {labels : List Label} (h : OutputInv output run)
    (hreplay : (system target).replay System.anyStep run labels = some run') :
    OutputInv (output ++ outputOf labels) run' := by
  induction labels generalizing output run with
  | nil =>
    obtain rfl := Option.some.inj hreplay
    rw [outputOf, List.flatMap_nil, List.append_nil]
    exact h
  | cons label labels ih =>
    rw [System.replay, if_pos (show System.anyStep run label from trivial)] at hreplay
    obtain ⟨run₁, hstep, hrest⟩ := Option.bind_eq_some_iff.1 hreplay
    rw [outputOf, List.flatMap_cons, ← List.append_assoc]
    exact ih (h.step hstep) hrest

/-- What the parts of the output come to on a stream of the console. -/
theorem flatMap_chunks (pieces : List (OutputCategory × Str)) (stream : OutputCategory) (p : String → Bool)
    (hpieces : ∀ piece ∈ pieces, p piece.1.name = decide (piece.1 = stream)) :
    ((pieces.map fun piece => (piece.1.name, utf16 piece.2)).filter (fun chunk => p chunk.1)).flatMap (·.2) =
      utf16 (ofStream stream (pieces.flatMap fun piece => written piece.1 piece.2)) := by
  induction pieces with
  | nil => rfl
  | cons piece pieces ih =>
    have hrest := ih fun piece hpiece => hpieces piece (List.mem_cons_of_mem _ hpiece)
    have hp := hpieces piece List.mem_cons_self
    rw [List.map_cons, List.flatMap_cons, ofStream_append, utf16_append, ← hrest]
    by_cases hstream : piece.1 = stream
    · rw [decide_eq_true hstream] at hp
      rw [List.filter_cons_of_pos (by simpa using hp), List.flatMap_cons, hstream, ofStream_written_self]
    · rw [decide_eq_false hstream] at hp
      rw [List.filter_cons_of_neg (by simp [hp]), ofStream_written_of_ne hstream]
      rfl

/-- What a debug session keeps of the output is its start, up to the limit, split by stream; and a
console that puts the published parts together has what the session comes to. -/
theorem debug_output_consistent (target : DebugTarget) (labels : List Label) (run : DebugRun)
    (h : (system target).replay System.anyStep {} labels = some run) :
    run.outcome.stdout.length + run.outcome.stderr.length ≤ maxOutputChars ∧
      run.outcome.stdout = ofStream .stdout ((outputOf labels).take maxOutputChars) ∧
      run.outcome.stderr = ofStream .stderr ((outputOf labels).take maxOutputChars) ∧
      ∀ (executionId now : Int) (runs : List Run) (events : List (Int × RunEvent)),
        (∀ other ∈ runs, other.id ≠ executionId) →
        events.map Prod.snd = chunkEvents executionId run.published →
        applyRunEvents (runs ++ [blank now executionId]) events =
          runs ++ [{ blank now executionId with
            stdout := utf16 run.outcome.stdout
            stderr := utf16 run.outcome.stderr }] := by
  have hinv : OutputInv (outputOf labels) run := outputInv_init.replay h
  have hout : run.outcome.stdout = ofStream .stdout ((outputOf labels).take maxOutputChars) := hinv.stdout
  have herr : run.outcome.stderr = ofStream .stderr ((outputOf labels).take maxOutputChars) := hinv.stderr
  refine ⟨?_, hout, herr, ?_⟩
  · have hlength := length_ofStream_add ((outputOf labels).take maxOutputChars)
    have htake := List.length_take_le maxOutputChars (outputOf labels)
    rw [hout, herr]
    omega
  · intro executionId now runs events hfresh hevents
    have hpieces : events.map Prod.snd =
        ((chunks run.published).map fun piece => (piece.1.name, utf16 piece.2)).map
          fun chunk => chunkEvent (blank now executionId).id chunk.1 chunk.2 := by
      rw [hevents, List.map_map]
      rfl
    rw [applyRunEvents_chunks hfresh hpieces]
    have hstdout := flatMap_chunks (chunks run.published) .stdout (fun name => name ≠ "stderr") ?_
    have hstderr := flatMap_chunks (chunks run.published) .stderr (fun name => name = "stderr") ?_
    · rw [hinv.published, ← hout] at hstdout
      rw [hinv.published, ← herr] at hstderr
      rw [Run.withChunks, hstdout, hstderr]
      rfl
    · intro piece hpiece
      exact decide_eq_decide.2 (name_eq_stderr_iff (hinv.streams piece hpiece))
    · intro piece hpiece
      exact decide_eq_decide.2 (name_ne_stderr_iff (hinv.streams piece hpiece))

/-- A program that writes a line to each stream, while a telemetry event of the adapter comes in. -/
def twoLines : List Label :=
  [.handle (.event (.output .stdout ("sum 6".toList.map CodePoint.ofChar))) {},
    .handle (.event (.output .other ("ptvsd".toList.map CodePoint.ofChar))) {},
    .handle (.event (.output .stderr ("😀".toList.map CodePoint.ofChar))) {},
    .handle (.event .terminated) {}]

theorem debug_output_consistent_two :
    ∃ run : DebugRun, run.outcome.stdout = "sum 6".toList.map CodePoint.ofChar ∧
      run.outcome.stdout.length + run.outcome.stderr.length = 6 ∧
      applyRunEvents [blank 0 4] ((chunkEvents 4 run.published).map (1, ·)) =
        [{ blank 0 4 with
          stdout := utf16 ("sum 6".toList.map CodePoint.ofChar)
          stderr := [0xD83D, 0xDE00] }] := by
  have hrun : ((system ⟨[]⟩).replay System.anyStep {} twoLines).any
      (fun run => decide (run.outcome.stdout = "sum 6".toList.map CodePoint.ofChar ∧
        run.outcome.stdout.length + run.outcome.stderr.length = 6 ∧
        utf16 run.outcome.stderr = [0xD83D, 0xDE00])) = true := by
    decide +kernel
  obtain ⟨run, hreplay, hstate⟩ := (Option.any_eq_true _ _).1 hrun
  obtain ⟨hout, hlength, herr⟩ := of_decide_eq_true hstate
  have hconsole := (debug_output_consistent ⟨[]⟩ twoLines run hreplay).2.2.2 4 0 []
    ((chunkEvents 4 run.published).map (1, ·)) (fun _ h => nomatch h)
    (by rw [List.map_map]; exact List.map_id _)
  rw [hout, herr] at hconsole
  exact ⟨run, hout, hlength, hconsole⟩

end DebugRun

end Concord
