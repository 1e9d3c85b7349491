import Concord.Base.Dict
import Concord.Base.System

/-!
# Requests to the debug adapter and their answers

`DapClient` of `debug/dap.py`: the requests that are sent, the read loop that hands out the answers, and
what becomes of the requests when the adapter hangs up or the client is closed. Between two awaits a
coroutine runs alone, so each step here is what one of them does between two awaits.

A future has the number of the request that it was created for. The handlers of events do not touch the
futures and are left out.
-/

namespace Concord

open Concord.Base

/-- What a message has at `request_seq`. -/
inductive RequestSeq
  | int (n : Int)
  | bool (b : Bool)
  | other
deriving DecidableEq, Repr

/-- The key of `_pending` that is looked up. `True` is an `int`, and as a key it is 1. -/
def RequestSeq.key : RequestSeq → Option Int
  | int n => some n
  | bool b => some (if b then 1 else 0)
  | other => none

/-- A message of type `response`. -/
structure DapResponse where
  requestSeq : RequestSeq
  success : Bool
deriving DecidableEq, Repr

/-- A message of the adapter. One that is not an object makes the read loop crash. -/
inductive DapMessage
  | response (response : DapResponse)
  | event (event : String)
  | unknown
  | malformed
deriving DecidableEq, Repr

/-- How a future was completed. -/
inductive DapOutcome
  | response (response : DapResponse)
  | connectionError (text : String)
deriving DecidableEq, Repr

/-- A future. It is cancelled when whoever awaits it gives up. -/
inductive FutureState
  | waiting
  | done (outcome : DapOutcome)
  | cancelled
deriving DecidableEq, Repr

/-- Where `_read_loop` is. -/
inductive ReadLoop
  | absent | created | reading | ended
deriving DecidableEq, Repr

/-- `DapClient`, with the requests it has sent and the futures it has completed. -/
structure DapClient where
  connected : Bool := false
  seq : Int := 1
  pending : Dict Int Int := ∅
  futures : Dict Int FutureState := ∅
  closed : Bool := false
  loop : ReadLoop := .absent
  sent : List (Int × String) := []
  completed : List (Int × DapOutcome) := []
deriving DecidableEq

namespace DapClient

variable (c : DapClient)

/-- `fut.set_result` and `fut.set_exception`. -/
def complete (future : Int) (outcome : DapOutcome) : DapClient :=
  { c with
    futures := c.futures.set future (.done outcome)
    completed := c.completed ++ [(future, outcome)] }

/-- The future is completed unless it is done. -/
def settle (future : Int) (outcome : DapOutcome) : DapClient :=
  if c.futures.get? future = some .waiting then c.complete future outcome else c

/-- `_fail_pending`. -/
def failPending (text : String) : DapClient :=
  { c.pending.values.foldl (fun c future => c.settle future (.connectionError text)) c with
    pending := ∅ }

/-- The end of `_read_loop`: nobody will answer the requests still waiting. -/
def endLoop : DapClient := { c.failPending "debug adapter disconnected" with loop := .ended }

/-- What the loop does with a response. -/
def handleResponse (response : DapResponse) : DapClient :=
  match response.requestSeq.key with
  | none => c
  | some key =>
    match c.pending.get? key with
    | none => c
    | some future => { c with pending := c.pending.erase key }.settle future (.response response)

/-- One round of `_read_loop`, up to the next `await`. -/
def handleMessage : DapMessage → DapClient
  | .response response =>
    let c := c.handleResponse response
    if c.closed then c.endLoop else c
  | .event _ | .unknown => if c.closed then c.endLoop else c
  | .malformed => c.endLoop

/-- `start_request` and `_request`, up to `writer.write`, which may fail. -/
def request (command : String) (written : Bool) : DapClient :=
  { c with
    seq := c.seq + 1
    pending := c.pending.set c.seq c.seq
    futures := c.futures.set c.seq .waiting
    sent := if written then c.sent ++ [(c.seq, command)] else c.sent }

/-- `close`, up to the writer. -/
def close : DapClient := { c with closed := true }.failPending "DAP connection closed"

inductive Label
  /-- `connect` or `attach_streams`. -/
  | attach
  /-- The task of the read loop begins to run. -/
  | start
  | request (command : String) (written : Bool)
  | message (message : DapMessage)
  /-- The stream ends or fails. -/
  | hangUp
  | close
  /-- The 60 seconds of `_request` are over, or the task that awaits the future is cancelled. -/
  | giveUp (future : Int)
deriving DecidableEq, Repr

def step : Label → Option DapClient
  | .attach =>
    if c.loop = .absent then some { c with connected := true, loop := .created } else none
  | .start =>
    if c.loop = .created then
      some (if c.closed then c.endLoop else { c with loop := .reading })
    else none
  | .request command written => if c.connected then some (c.request command written) else none
  | .message message => if c.loop = .reading then some (c.handleMessage message) else none
  | .hangUp => if c.loop = .reading then some c.endLoop else none
  | .close => some c.close
  | .giveUp future =>
    if c.futures.get? future = some .waiting then
      some { c with futures := c.futures.set future .cancelled }
    else none

/-- A client, with all that can happen to it. -/
abbrev system : System DapClient Label where
  init := {}
  step := step

/-! ## What holds of the futures -/

/-- Every future is completed at most once, with the response to its own request or with a connection
error. -/
structure AnsweredOnce : Prop where
  once : (c.completed.map Prod.fst).Nodup
  own : ∀ future outcome, (future, outcome) ∈ c.completed →
    (∃ response, outcome = .response response ∧ response.requestSeq.key = some future) ∨
      ∃ text, outcome = .connectionError text

/-- When the read loop has ended or the client is closed, no request still waits. -/
def Settled : Prop :=
  c.loop = .ended ∨ c.closed = true → ∀ future, c.futures.get? future ≠ some .waiting

/-- What is true of the futures whatever is pending. -/
structure FuturesInv : Prop where
  fresh : ∀ future state, c.futures.get? future = some state → future < c.seq
  done : ∀ future outcome, (future, outcome) ∈ c.completed →
    c.futures.get? future = some (.done outcome)
  answered : c.AnsweredOnce

/-- Every request is pending under its own number until its future is done. -/
structure ClientInv : Prop extends FuturesInv c where
  named : ∀ key future, c.pending.get? key = some future → future = key
  waits : ∀ future, c.futures.get? future = some .waiting → c.pending.get? future = some future

variable {c} {c' : DapClient} {future : Int} {outcome : DapOutcome}

theorem FuturesInv.complete (h : c.FuturesInv) (hwaiting : c.futures.get? future = some .waiting)
    (hown : (∃ response, outcome = .response response ∧ response.requestSeq.key = some future) ∨
      ∃ text, outcome = .connectionError text) : (c.complete future outcome).FuturesInv := by
  have hnew : ∀ f o, (f, o) ∈ c.completed → f ≠ future := by
    rintro f o hmem rfl
    rw [h.done f o hmem] at hwaiting
    cases hwaiting
  constructor
  · intro f state hf
    rw [DapClient.complete, Dict.get?_set] at hf
    split at hf
    · next heq =>
      subst heq
      exact h.fresh f .waiting hwaiting
    · exact h.fresh f state hf
  · intro f o hmem
    rcases List.mem_append.1 hmem with hmem | hmem
    · rw [DapClient.complete, Dict.get?_set_of_ne (hnew f o hmem)]
      exact h.done f o hmem
    · cases List.mem_singleton.1 hmem
      exact Dict.get?_set_self
  · constructor
    · have hfresh : future ∉ c.completed.map Prod.fst := by
        intro hmem
        obtain ⟨⟨f, o⟩, hitem, rfl⟩ := List.mem_map.1 hmem
        exact hnew f o hitem rfl
      unfold DapClient.complete
      rw [List.map_append, List.nodup_append_comm]
      exact List.nodup_cons.2 ⟨hfresh, h.answered.once⟩
    · intro f o hmem
      rcases List.mem_append.1 hmem with hmem | hmem
      · exact h.answered.own f o hmem
      · cases List.mem_singleton.1 hmem
        exact hown

theorem FuturesInv.settle (h : c.FuturesInv)
    (hown : (∃ response, outcome = .response response ∧ response.requestSeq.key = some future) ∨
      ∃ text, outcome = .connectionError text) : (c.settle future outcome).FuturesInv := by
  unfold DapClient.settle
  split
  · next hwaiting => exact h.complete hwaiting hown
  · exact h

/-- Which futures wait does not depend on what is pending. -/
theorem FuturesInv.of_same (h : c.FuturesInv) (hseq : c'.seq = c.seq) (hfutures : c'.futures = c.futures)
    (hcompleted : c'.completed = c.completed) : c'.FuturesInv := by
  constructor
  · rw [hseq, hfutures]
    exact h.fresh
  · rw [hfutures, hcompleted]
    exact h.done
  · constructor
    · rw [hcompleted]
      exact h.answered.once
    · rw [hcompleted]
      exact h.answered.own

theorem waiting_settle {f : Int} : (c.settle future outcome).futures.get? f = some .waiting ↔
    f ≠ future ∧ c.futures.get? f = some .waiting := by
  unfold settle
  split
  · next hwaiting =>
    rw [complete, Dict.get?_set]
    split
    · next heq => simp [heq]
    · next hne => simp [hne]
  · next hwaiting =>
    constructor
    · rintro hf
      refine ⟨?_, hf⟩
      rintro rfl
      exact hwaiting hf
    · exact And.right

@[simp] theorem settle_pending : (c.settle future outcome).pending = c.pending := by
  unfold settle
  split <;> rfl

@[simp] theorem settle_closed : (c.settle future outcome).closed = c.closed := by
  unfold settle
  split <;> rfl

@[simp] theorem settle_loop : (c.settle future outcome).loop = c.loop := by
  unfold settle
  split <;> rfl

/-- The futures that are failed one after the other do not wait any more. -/
theorem failAll (h : c.FuturesInv) (text : String) (futures : List Int) :
    let failed := futures.foldl (fun c future => c.settle future (.connectionError text)) c
    failed.FuturesInv ∧ failed.closed = c.closed ∧ failed.loop = c.loop ∧
      ∀ f, failed.futures.get? f = some .waiting → f ∉ futures ∧ c.futures.get? f = some .waiting := by
  induction futures generalizing c with
  | nil => exact ⟨h, rfl, rfl, fun f hf => ⟨nofun, hf⟩⟩
  | cons future futures ih =>
    have hsettled : (c.settle future (.connectionError text)).FuturesInv :=
      h.settle (.inr ⟨text, rfl⟩)
    obtain ⟨hinv, hclosed, hloop, hwaiting⟩ := ih hsettled
    refine ⟨hinv, hclosed.trans settle_closed, hloop.trans settle_loop, fun f hf => ?_⟩
    obtain ⟨hnot, hf⟩ := hwaiting f hf
    obtain ⟨hne, hf⟩ := waiting_settle.1 hf
    exact ⟨fun hmem => (List.mem_cons.1 hmem).elim hne hnot, hf⟩

/-- After `_fail_pending` no future waits. -/
theorem ClientInv.failPending (h : c.ClientInv) (text : String) :
    (c.failPending text).ClientInv ∧ (c.failPending text).closed = c.closed ∧
      (c.failPending text).loop = c.loop ∧
      ∀ f, (c.failPending text).futures.get? f ≠ some .waiting := by
  obtain ⟨hinv, hclosed, hloop, hwaiting⟩ := failAll h.toFuturesInv text c.pending.values
  have hnone : ∀ f, (c.failPending text).futures.get? f ≠ some .waiting := by
    intro f hf
    obtain ⟨hnot, hf⟩ := hwaiting f hf
    refine hnot ?_
    exact List.mem_map.2 ⟨(f, f), Dict.mem_items_iff.2 (h.waits f hf), rfl⟩
  refine ⟨⟨hinv.of_same rfl rfl rfl, ?_, ?_⟩, hclosed, hloop, hnone⟩
  · exact fun key future hkey => nomatch hkey
  · exact fun f hf => absurd hf (hnone f)

theorem ClientInv.endLoop (h : c.ClientInv) :
    c.endLoop.ClientInv ∧ ∀ f, c.endLoop.futures.get? f ≠ some .waiting := by
  obtain ⟨hinv, -, -, hnone⟩ := h.failPending "debug adapter disconnected"
  exact ⟨⟨hinv.toFuturesInv.of_same rfl rfl rfl, hinv.named, hinv.waits⟩, hnone⟩

theorem ClientInv.handleResponse (h : c.ClientInv) (response : DapResponse) :
    (c.handleResponse response).ClientInv ∧ (c.handleResponse response).closed = c.closed ∧
      (c.handleResponse response).loop = c.loop := by
  unfold DapClient.handleResponse
  split
  · exact ⟨h, rfl, rfl⟩
  · next key hkey =>
    split
    · exact ⟨h, rfl, rfl⟩
    · next future hfuture =>
      obtain rfl := h.named key future hfuture
      have hpopped : ({ c with pending := c.pending.erase future } : DapClient).FuturesInv :=
        h.toFuturesInv.of_same rfl rfl rfl
      refine ⟨⟨hpopped.settle (.inl ⟨response, rfl, hkey⟩), ?_, ?_⟩, settle_closed, settle_loop⟩
      · intro k f hk
        rw [settle_pending, Dict.get?_erase] at hk
        split at hk
        · cases hk
        · exact h.named k f hk
      · intro f hf
        obtain ⟨hne, hf⟩ := waiting_settle.1 hf
        rw [settle_pending, Dict.get?_erase_of_ne hne]
        exact h.waits f hf

/-- When the client is closed, the round is the last one. -/
theorem ClientInv.handleMessage (h : c.ClientInv) (hloop : c.loop = .reading) (message : DapMessage) :
    (c.handleMessage message).ClientInv ∧ (c.handleMessage message).Settled := by
  have hlast : ∀ c : DapClient, c.ClientInv → c.loop = .reading →
      (if c.closed then c.endLoop else c).ClientInv ∧ (if c.closed then c.endLoop else c).Settled := by
    intro c h hloop
    split
    · obtain ⟨hinv, hnone⟩ := h.endLoop
      exact ⟨hinv, fun _ => hnone⟩
    · next hopen =>
      refine ⟨h, ?_⟩
      rintro (hended | hclosed)
      · rw [hloop] at hended
        cases hended
      · exact absurd hclosed hopen
  cases message with
  | response response =>
    obtain ⟨hinv, -, hsame⟩ := h.handleResponse response
    exact hlast _ hinv (hsame.trans hloop)
  | event event => exact hlast c h hloop
  | unknown => exact hlast c h hloop
  | malformed =>
    obtain ⟨hinv, hnone⟩ := h.endLoop
    exact ⟨hinv, fun _ => hnone⟩

theorem ClientInv.request (h : c.ClientInv) (command : String) (written : Bool) :
    (c.request command written).ClientInv := by
  have hunused : c.futures.get? c.seq = none := by
    cases hget : c.futures.get? c.seq with
    | none => rfl
    | some state => exact absurd (h.fresh _ _ hget) (Int.lt_irrefl _)
  have hother : ∀ f state, c.futures.get? f = some state → f ≠ c.seq := by
    rintro f state hf rfl
    rw [hunused] at hf
    cases hf
  constructor
  · constructor
    · intro f state hf
      rw [DapClient.request, Dict.get?_set] at hf
      have hlt : f < c.seq + 1 := by
        split at hf
        · omega
        · have := h.fresh f state hf
          omega
      exact hlt
    · intro f o hmem
      have hdone := h.done f o hmem
      rw [DapClient.request, Dict.get?_set_of_ne (hother f _ hdone)]
      exact hdone
    · exact ⟨h.answered.once, h.answered.own⟩
  · intro key f hkey
    rw [DapClient.request, Dict.get?_set] at hkey
    split at hkey
    · next heq =>
      cases hkey
      exact heq.symm
    · exact h.named key f hkey
  · intro f hf
    rw [DapClient.request, Dict.get?_set] at hf ⊢
    split
    · next heq => rw [heq]
    · next hne =>
      rw [if_neg hne] at hf
      exact h.waits f hf

theorem ClientInv.giveUp (h : c.ClientInv) (hwaiting : c.futures.get? future = some .waiting) :
    ({ c with futures := c.futures.set future .cancelled } : DapClient).ClientInv := by
  constructor
  · constructor
    · intro f state hf
      rw [Dict.get?_set] at hf
      split at hf
      · next heq =>
        subst heq
        exact h.fresh f .waiting hwaiting
      · exact h.fresh f state hf
    · intro f o hmem
      have hdone := h.done f o hmem
      have hne : f ≠ future := by
        rintro rfl
        rw [hwaiting] at hdone
        cases hdone
      rw [Dict.get?_set_of_ne hne]
      exact hdone
    · exact ⟨h.answered.once, h.answered.own⟩
  · exact h.named
  · intro f hf
    rw [Dict.get?_set] at hf
    split at hf
    · cases hf
    · exact h.waits f hf

/-! ## Every run -/

/-- The client as it is when a request is sent: neither closed nor left by the adapter. -/
def Open (c : DapClient) : Label → Prop
  | .request _ _ => c.loop ≠ .ended ∧ c.closed = false
  | _ => True

instance (c : DapClient) (l : Label) : Decidable (Open c l) := by
  cases l <;> unfold Open <;> infer_instance

theorem ClientInv.step (h : c.ClientInv) {l : Label} (hstep : c.step l = some c') : c'.ClientInv := by
  cases l with
  | attach =>
    obtain ⟨-, hstep⟩ := Option.ite_none_right_eq_some.1 hstep
    cases hstep
    exact ⟨h.toFuturesInv.of_same rfl rfl rfl, h.named, h.waits⟩
  | start =>
    obtain ⟨-, hstep⟩ := Option.ite_none_right_eq_some.1 hstep
    cases hstep
    split
    · exact h.endLoop.1
    · exact ⟨h.toFuturesInv.of_same rfl rfl rfl, h.named, h.waits⟩
  | request command written =>
    obtain ⟨-, hstep⟩ := Option.ite_none_right_eq_some.1 hstep
    cases hstep
    exact h.request command written
  | message message =>
    obtain ⟨hloop, hstep⟩ := Option.ite_none_right_eq_some.1 hstep
    cases hstep
    exact (h.handleMessage hloop message).1
  | hangUp =>
    obtain ⟨-, hstep⟩ := Option.ite_none_right_eq_some.1 hstep
    cases hstep
    exact h.endLoop.1
  | close =>
    cases hstep
    have hclosed : ({ c with closed := true } : DapClient).ClientInv :=
      ⟨h.toFuturesInv.of_same rfl rfl rfl, h.named, h.waits⟩
    exact (hclosed.failPending _).1
  | giveUp future =>
    obtain ⟨hwaiting, hstep⟩ := Option.ite_none_right_eq_some.1 hstep
    cases hstep
    exact h.giveUp hwaiting

theorem Settled.step (h : c.Settled) (hinv : c.ClientInv) {l : Label} (hopen : c.Open l)
    (hstep : c.step l = some c') : c'.Settled := by
  cases l with
  | attach =>
    obtain ⟨-, hstep⟩ := Option.ite_none_right_eq_some.1 hstep
    cases hstep
    rintro (hended | hclosed)
    · cases hended
    · exact h (.inr hclosed)
  | start =>
    obtain ⟨-, hstep⟩ := Option.ite_none_right_eq_some.1 hstep
    cases hstep
    split
    · exact fun _ => hinv.endLoop.2
    · next hnot =>
      rintro (hended | hclosed)
      · cases hended
      · exact absurd hclosed hnot
  | request command written =>
    obtain ⟨-, hstep⟩ := Option.ite_none_right_eq_some.1 hstep
    cases hstep
    obtain ⟨hreading, hopen⟩ := hopen
    rintro (hended | hclosed)
    · exact absurd hended hreading
    · exact absurd hclosed (by simp [DapClient.request, hopen])
  | message message =>
    obtain ⟨hloop, hstep⟩ := Option.ite_none_right_eq_some.1 hstep
    cases hstep
    exact (hinv.handleMessage hloop message).2
  | hangUp =>
    obtain ⟨-, hstep⟩ := Option.ite_none_right_eq_some.1 hstep
    cases hstep
    exact fun _ => hinv.endLoop.2
  | close =>
    cases hstep
    have hclosed : ({ c with closed := true } : DapClient).ClientInv :=
      ⟨hinv.toFuturesInv.of_same rfl rfl rfl, hinv.named, hinv.waits⟩
    exact fun _ => (hclosed.failPending _).2.2.2
  | giveUp future =>
    obtain ⟨-, hstep⟩ := Option.ite_none_right_eq_some.1 hstep
    cases hstep
    intro hover f hf
    rw [Dict.get?_set] at hf
    split at hf
    · cases hf
    · exact h hover f hf

theorem clientInv_init : DapClient.ClientInv {} where
  fresh _ _ h := nomatch h
  done _ _ h := nomatch h
  answered := ⟨.nil, fun _ _ h => nomatch h⟩
  named _ _ h := nomatch h
  waits _ h := nomatch h

theorem clientInv_of_reachable (h : system.Reachable c) : c.ClientInv :=
  System.ReachableUnder.induction h clientInv_init fun _ _ _ _ hinv _ hstep => hinv.step hstep

/-- **Every request gets its own answer** or a connection error, at most once, in every run; and no
request still waits after the end in every run in which no request is sent after the end. -/
theorem dap_requests_answered (c : DapClient) :
    (system.Reachable c → c.AnsweredOnce) ∧
      (system.ReachableUnder Open c → c.AnsweredOnce ∧ c.Settled) := by
  have hanswered (h : system.Reachable c) : c.AnsweredOnce := (clientInv_of_reachable h).answered
  refine ⟨hanswered, fun h => ⟨hanswered h.reachable, ?_⟩⟩
  refine h.induction (fun _ _ hf => nomatch hf) fun s l t hs hsettled hopen hstep => ?_
  exact hsettled.step (clientInv_of_reachable hs.reachable) hopen hstep

/-- Two requests are answered in the other order, the second twice, and a third fails when the adapter
hangs up. -/
theorem dap_requests_answered_three : ∃ c : DapClient,
    c.completed = [(2, .response ⟨.int 2, true⟩), (1, .response ⟨.int 1, true⟩),
      (3, .connectionError "debug adapter disconnected")] ∧ c.AnsweredOnce ∧ c.Settled := by
  have hrun : (system.replay Open system.init
      [.attach, .start, .request "next" true, .request "scopes" true,
        .message (.response ⟨.int 2, true⟩), .message (.response ⟨.int 2, true⟩),
        .message (.response ⟨.int 7, true⟩), .message (.event "stopped"),
        .message (.response ⟨.int 1, true⟩), .request "continue" true, .hangUp]).any
      (fun c => c.completed = [(2, .response ⟨.int 2, true⟩), (1, .response ⟨.int 1, true⟩),
        (3, .connectionError "debug adapter disconnected")]) = true := by
    decide +kernel
  obtain ⟨c, hc, hcompleted⟩ := System.exists_reachable hrun
  exact ⟨c, of_decide_eq_true hcompleted, (dap_requests_answered c).2 hc⟩

/-- A request is sent after the adapter has hung up, and waits for ever. -/
theorem dap_request_after_hang_up :
    ¬∀ c, system.Reachable c → c.AnsweredOnce ∧ c.Settled := by
  have hrun : (system.replay System.anyStep system.init
      [.attach, .start, .hangUp, .request "setBreakpoints" true]).any
      (fun c => c.loop = .ended ∧ c.futures.get? 1 = some .waiting) = true := by
    decide +kernel
  intro hall
  obtain ⟨c, hc, hwaits⟩ := System.exists_reachable hrun
  obtain ⟨hended, hwaiting⟩ := of_decide_eq_true hwaits
  exact (hall c hc).2 (.inl hended) 1 hwaiting

end DapClient

end Concord
