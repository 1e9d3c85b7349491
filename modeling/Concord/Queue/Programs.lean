import Concord.Execution.Operations

/-!
# The execution queue

The queue and pub/sub helpers of `realtime/execution_queue.py`. Waiting executions live in a Redis
hash; whichever process's `HDEL` removes an entry has it.
-/

namespace Concord

open Concord.Base Async

/-- `_MAX_DEQUEUE_ATTEMPTS`. -/
def maxDequeueAttempts : Nat := 8

/-- `enqueue_execution`: the entry first, then the wake-up. The payload's `enqueued_at` is read
here. -/
def enqueueExecution (payload : Seconds → Payload) : Py Unit := do
  let now ← await .clock
  await (.hset (payload now).executionId (payload now))
  await .lpush

/-- The outcome of `_select_highest_priority` in a program: its exception is raised there. -/
def select (s : Settings) (waiting : List (ExecutionId × Payload)) (now : Seconds) :
    Py (Option ExecutionId) :=
  match s.selectHighestPriority waiting now with
  | .ok best => pure best
  | .error e => throw e

/-- The loop of `_pop_highest_priority`, with `n` attempts left. -/
def popAttempts (s : Settings) : Nat → Py (Option Payload)
  | 0 => pure none
  | n + 1 => do
    let waiting ← await .hgetall
    if waiting = [] then
      return none
    else do
      let now ← await .clock
      match ← select s waiting now with
      | none => return none
      | some best =>
        let removed ← await (.hdel best)
        if removed then
          return waiting.lookup best
        else
          popAttempts s n

/-- `_pop_highest_priority`. -/
def popHighestPriority (s : Settings) : Py (Option Payload) := popAttempts s maxDequeueAttempts

/-- `dequeue_execution`: waits for a wake-up or a timeout, then takes the best entry. -/
def dequeueExecution (s : Settings) : Py (Option Payload) := do
  await .blpop
  popHighestPriority s

/-- `remove_from_queue`: whether the execution was still waiting. -/
def removeFromQueue (id : ExecutionId) : Py Bool := await (.hdel id)

/-- `signal_cancel`. -/
def signalCancel (id : ExecutionId) : Py Unit := await (.publish (.cancel id))

/-- `publish_project_event`. -/
def publishProjectEvent (project : ProjectId) (event : ProjectEvent) : Py Unit :=
  await (.publish (.exec project event))

end Concord
