import Concord.Base.System
import Mathlib

/-!
# Outbound frames

The send queues of a room's connections and the tasks that empty them (`Connection`, `broadcast`,
`_safe_send_bytes`, `_safe_send_text` and `_connection_writer` of `realtime/manager.py`). A frame is
named by its place in the queue's history, so that frames with the same payload differ.
-/

namespace Concord

open Concord.Base

structure Frame (P : Type) where
  seq : Nat
  payload : P
deriving DecidableEq, Repr

/-- How a send to a socket ends, and whether the frame reached the socket where it does not succeed. -/
inductive SendResult
  | ok
  | timeout (reached : Bool)
  | failed (reached : Bool)
deriving DecidableEq, Repr

def SendResult.reached : SendResult → Bool
  | ok => true
  | timeout reached | failed reached => reached

/-- Where `_connection_writer` is. -/
inductive Writer (P : Type)
  /-- In `conn.queue.get()`. -/
  | waiting
  /-- In `_safe_send_bytes` or `_safe_send_text`. -/
  | sending (frame : Frame P)
  | finished
deriving DecidableEq, Repr

/-- `Connection`, with its writer task. `queued` and `sends` are the frames put in the queue so far
and those that were sent, each with the result. -/
structure Connection (P : Type) where
  queue : List (Frame P) := []
  writer : Writer P := .waiting
  attached : Bool := false
  queued : List (Frame P) := []
  sends : List (Frame P × SendResult) := []
deriving DecidableEq

namespace Connection

variable {P : Type} (c : Connection P)

/-- The frames that reached the socket. -/
def delivered : List (Frame P) := (c.sends.filter fun send => send.2.reached).map Prod.fst

/-- `queue.put_nowait(payload)`. -/
def putNowait (payload : P) : Connection P :=
  let frame := ⟨c.queued.length, payload⟩
  { c with queue := c.queue ++ [frame], queued := c.queued ++ [frame] }

/-- The writer takes a message from the queue, if it waits for one. -/
def get : Option (Connection P) :=
  match c.writer, c.queue with
  | .waiting, frame :: rest => some { c with queue := rest, writer := .sending frame }
  | _, _ => none

/-- The writer's send ends. `_safe_send_bytes` and `_safe_send_text` catch whatever it raises, and the
writer goes on with the next message. -/
def send (result : SendResult) : Option (Connection P) :=
  match c.writer with
  | .sending frame => some { c with writer := .waiting, sends := c.sends ++ [(frame, result)] }
  | _ => none

/-- `conn.writer_task.cancel()`, by `detach`: ends the writer if it waits for a message; a send that is
cancelled is caught like one that fails. -/
def cancel (reached : Bool) : Connection P :=
  match c.writer with
  | .waiting => { c with attached := false, writer := .finished }
  | .sending frame =>
    { c with attached := false, writer := .waiting, sends := c.sends ++ [(frame, .failed reached)] }
  | .finished => { c with attached := false }

end Connection

/-- What happens to the connections of a room. -/
inductive OutboundEvent (W P : Type)
  | attach (ws : W)
  /-- `Connection.send`. -/
  | send (ws : W) (payload : P)
  | broadcast (payload : P) (exclude : Option W)
  | writerGets (ws : W)
  | writerSends (ws : W) (result : SendResult)
  | detach (ws : W) (reached : Bool)

/-- The connections of a room. -/
abbrev Outbound (W P : Type) := W → Connection P

namespace Outbound

variable {W P : Type} [DecidableEq W] (conns : Outbound W P)

/-- `broadcast`. -/
def broadcast (payload : P) (exclude : Option W) : Outbound W P := fun ws =>
  if (conns ws).attached ∧ exclude ≠ some ws then (conns ws).putNowait payload else conns ws

def step : OutboundEvent W P → Option (Outbound W P)
  | .attach ws => some (Function.update conns ws { attached := true })
  | .send ws payload => some (Function.update conns ws ((conns ws).putNowait payload))
  | .broadcast payload exclude => some (conns.broadcast payload exclude)
  | .writerGets ws => (conns ws).get.map (Function.update conns ws)
  | .writerSends ws result => ((conns ws).send result).map (Function.update conns ws)
  | .detach ws reached => some (Function.update conns ws ((conns ws).cancel reached))

end Outbound

def outbound (W P : Type) [DecidableEq W] : System (Outbound W P) (OutboundEvent W P) where
  init := fun _ => {}
  step := Outbound.step

section Prefix

variable {W P : Type} [DecidableEq W] {c : Connection P}

/-- What the writer has taken is what was queued first, in order. -/
structure Connection.Ordered (c : Connection P) : Prop where
  split : c.queued = c.sends.map Prod.fst ++
    (match c.writer with | .sending frame => [frame] | _ => []) ++ c.queue
  seq : ∀ (i : Nat) (frame : Frame P), c.queued[i]? = some frame → frame.seq = i

theorem Connection.Ordered.putNowait (h : c.Ordered) (payload : P) : (c.putNowait payload).Ordered where
  split := by
    unfold Connection.putNowait
    dsimp only
    rw [← List.append_assoc, ← h.split]
  seq := by
    intro i frame hget
    change (c.queued ++ [_])[i]? = some frame at hget
    rw [List.getElem?_append] at hget
    split at hget
    · exact h.seq i frame hget
    · next hi =>
      rw [List.getElem?_singleton] at hget
      split at hget
      · cases hget
        dsimp only
        omega
      · cases hget

theorem Connection.Ordered.get {c' : Connection P} (h : c.Ordered) (hget : c.get = some c') :
    c'.Ordered := by
  unfold Connection.get at hget
  split at hget
  · next frame rest hwriter hqueue =>
    cases hget
    constructor
    · have hsplit := h.split
      rw [hwriter, hqueue] at hsplit
      simpa using hsplit
    · exact h.seq
  · cases hget

theorem Connection.Ordered.send {c' : Connection P} {result : SendResult} (h : c.Ordered)
    (hsend : c.send result = some c') : c'.Ordered := by
  unfold Connection.send at hsend
  split at hsend
  · next frame hwriter =>
    cases hsend
    constructor
    · have hsplit := h.split
      rw [hwriter] at hsplit
      simpa using hsplit
    · exact h.seq
  · cases hsend

theorem Connection.Ordered.cancel (h : c.Ordered) (reached : Bool) : (c.cancel reached).Ordered := by
  unfold Connection.cancel
  split
  · next hwriter =>
    constructor
    · have hsplit := h.split
      rw [hwriter] at hsplit
      exact hsplit
    · exact h.seq
  · next frame hwriter =>
    constructor
    · have hsplit := h.split
      rw [hwriter] at hsplit
      simpa using hsplit
    · exact h.seq
  · exact ⟨h.split, h.seq⟩

theorem ordered_of_reachable {conns : Outbound W P} (h : (outbound W P).Reachable conns) (ws : W) :
    (conns ws).Ordered := by
  have hnew : ∀ attached, ({ attached } : Connection P).Ordered := fun attached => ⟨rfl, nofun⟩
  revert ws
  apply h.induction (P := fun conns => ∀ ws, (conns ws).Ordered)
  · exact fun ws => hnew false
  · rintro conns event conns' - hall - hstep other
    have hone : ∀ ws c, c.Ordered → (Function.update conns ws c other).Ordered := by
      intro ws c hc
      by_cases heq : other = ws
      · subst heq
        rwa [Function.update_self]
      · rw [Function.update_of_ne heq]
        exact hall other
    cases event with
    | attach ws =>
      cases hstep
      exact hone ws _ (hnew true)
    | send ws payload =>
      cases hstep
      exact hone ws _ ((hall ws).putNowait payload)
    | broadcast payload exclude =>
      cases hstep
      change (if _ then _ else _ : Connection P).Ordered
      split
      · exact (hall other).putNowait payload
      · exact hall other
    | writerGets ws =>
      obtain ⟨c, hc, rfl⟩ := Option.map_eq_some_iff.1 hstep
      exact hone ws c ((hall ws).get hc)
    | writerSends ws result =>
      obtain ⟨c, hc, rfl⟩ := Option.map_eq_some_iff.1 hstep
      exact hone ws c ((hall ws).send hc)
    | detach ws reached =>
      cases hstep
      exact hone ws _ ((hall ws).cancel reached)

/-- Of items that all differ, those that `p` picks are the first ones if and only if none of them comes
after one that `p` leaves out. -/
theorem map_filter_prefix_iff {α β : Type} {p : α → Bool} {f : α → β} {l : List α} {rest : List β}
    (hn : (l.map f ++ rest).Nodup) :
    (l.filter p).map f <+: l.map f ++ rest ↔ l.Pairwise fun a b => p b = true → p a = true := by
  induction l with
  | nil => simp
  | cons a l ih =>
    rw [List.map_cons, List.cons_append, List.nodup_cons] at hn
    rw [List.pairwise_cons, ← ih hn.2, List.map_cons, List.cons_append]
    cases ha : p a with
    | true => simp [ha]
    | false =>
      rw [List.filter_cons_of_neg (by simp [ha])]
      constructor
      · intro hstarts
        cases hpicked : l.filter p with
        | nil =>
          rw [hpicked] at hstarts
          refine ⟨fun b hb hpb => ?_, by simp⟩
          exact absurd hpb (List.filter_eq_nil_iff.1 hpicked b hb)
        | cons b picked =>
          -- the first item picked is not the first of all
          rw [hpicked, List.map_cons, List.cons_prefix_cons] at hstarts
          have hb : b ∈ l.filter p := hpicked ▸ List.mem_cons_self
          refine absurd ?_ hn.1
          rw [← hstarts.1]
          exact List.mem_append_left _ (List.mem_map_of_mem (List.mem_filter.1 hb).1)
      · rintro ⟨hnone, -⟩
        have hpicked : l.filter p = [] := by
          rw [List.filter_eq_nil_iff]
          intro b hb hpb
          exact absurd (hnone b hb hpb) (by simp)
        rw [hpicked]
        exact List.nil_prefix

theorem Connection.Ordered.nodup (h : c.Ordered) : c.queued.Nodup := by
  rw [List.Nodup, List.pairwise_iff_getElem]
  intro i j hi hj hlt heq
  have hi := h.seq i _ (List.getElem?_eq_getElem hi)
  have hj := h.seq j _ (List.getElem?_eq_getElem hj)
  rw [heq] at hi
  omega

/-- **What reaches a socket is what was queued for it**, in order and nothing twice, less the frames
whose sends time out or fail without reaching it; it is a prefix of what was queued, so that nothing is
skipped, if and only if no frame reaches the socket after one that does not. -/
theorem delivered_prefix_iff {conns : Outbound W P} (h : (outbound W P).Reachable conns) (ws : W) :
    (conns ws).delivered.Sublist (conns ws).queued ∧ (conns ws).queued.Nodup ∧
      ((conns ws).delivered <+: (conns ws).queued ↔
        (conns ws).sends.Pairwise fun earlier later =>
          later.2.reached = true → earlier.2.reached = true) := by
  have hordered := ordered_of_reachable h ws
  have hnodup := hordered.nodup
  rw [hordered.split, List.append_assoc] at hnodup ⊢
  refine ⟨?_, hnodup, map_filter_prefix_iff hnodup⟩
  exact (List.filter_sublist.map _).trans (List.sublist_append_left _ _)

/-- A connection that was sent one frame, with success. -/
theorem delivered_prefix_sent : ∃ conns : Outbound Unit String,
    (conns ()).sends = [(⟨0, "edit 1"⟩, .ok)] ∧
      (conns ()).delivered <+: (conns ()).queued := by
  have hrun : (((outbound Unit String).replay System.anyStep (fun _ => {})
      [.attach (), .broadcast "edit 1" none, .broadcast "edit 2" none,
        .writerGets (), .writerSends () .ok]).any fun conns =>
          (conns ()).sends = [(⟨0, "edit 1"⟩, .ok)]) = true := by
    decide
  obtain ⟨conns, hreach, hsends⟩ := System.exists_reachable hrun
  have hsends : (conns ()).sends = [(⟨0, "edit 1"⟩, .ok)] := by simpa using hsends
  refine ⟨conns, hsends, (delivered_prefix_iff hreach ()).2.2.2 ?_⟩
  rw [hsends]
  exact List.pairwise_singleton _ _

/-- A send that times out is followed by one that reaches the socket, and the connection stays. -/
theorem delivered_skips : ∃ conns : Outbound Unit String, (outbound Unit String).Reachable conns ∧
    ∃ ws, (conns ws).attached = true ∧ ¬(conns ws).delivered <+: (conns ws).queued := by
  have hrun : (((outbound Unit String).replay System.anyStep (fun _ => {})
      [.attach (), .broadcast "edit 1" none, .broadcast "edit 2" none,
        .writerGets (), .writerSends () (.timeout false),
        .writerGets (), .writerSends () .ok]).any fun conns =>
          (conns ()).attached && !decide ((conns ()).delivered <+: (conns ()).queued)) = true := by
    decide
  obtain ⟨conns, hreach, hgap⟩ := System.exists_reachable hrun
  simp only [Bool.and_eq_true, Bool.not_eq_true', decide_eq_false_iff_not] at hgap
  exact ⟨conns, hreach, (), hgap⟩

end Prefix

end Concord
