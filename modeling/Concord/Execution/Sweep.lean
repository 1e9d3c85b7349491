import Concord.Execution.State
import Concord.Execution.Worker
import Mathlib

/-!
# The orphan sweep

`realtime/orphan_sweep.py`: executions stuck in a started status past the threshold are marked
failed, in one transaction, and their containers removed.
-/

namespace Concord

open Concord.Base Async

/-- `ORPHAN_THRESHOLD`. -/
def orphanThreshold : Seconds := 300

/-- The loop of `sweep_once` over the selected rows: the executions it marked. -/
def failOrphans (now : Seconds) : List (ExecutionId × Execution) → Py (List ExecutionId)
  | [] => return []
  | (id, execution) :: rest => do
    let changed ← changeStatus id execution .failed .sweeper
      { finishedAt := some now, stderr := some "Worker died mid-execution (orphan sweep)" }
    let others ← failOrphans now rest
    return if changed.1 then id :: others else others

/-- `kill_execution` for each id; a failure does not stop the others. -/
def killAll : List ExecutionId → Py Unit
  | [] => pure ()
  | id :: rest => do
    suppress (await (.killExecution id))
    killAll rest

/-- `signal_cancel` for each id; a failure does not stop the others. -/
def signalAll : List ExecutionId → Py Unit
  | [] => pure ()
  | id :: rest => do
    suppress (signalCancel id)
    signalAll rest

/-- `sweep_once`: the number of executions marked failed. -/
def sweepOnce (s : Settings) : Py Nat := do
  let now ← await .clock
  let threshold := now - orphanThreshold
  let orphaned ← await (.selectOrphans threshold (threshold - s.sandboxDebugTimeoutSeconds))
  let changed ← failOrphans now orphaned
  if changed ≠ [] then await .commit else pure ()
  let containers ← tryExcept (await .containerIds) (fun _ => true) fun _ => pure []
  let remaining := containers.filter (· ∉ changed)
  let finished ← if remaining ≠ [] then await (.selectFinished remaining) else pure []
  killAll ((changed ++ finished).dedup.mergeSort (· ≤ ·))
  signalAll changed
  return changed.length

end Concord
