import Concord.Frontend.CollabSessions

/-!
# Opening a file

A client that has nothing new is brought to `synced` by the first frame, in silence, as long as nothing was deleted
(`first_frame_silent_iff`). Otherwise it sends the deletions back and waits for an ack. A viewer gets none, and does
not show `synced` on that connection any more (`viewer_never_synced`).
-/

namespace Concord.Collab

open Concord.Base

/-- Before the first frame no ack is awaited. -/
def Client.Fresh (c : Client) : Prop := c.synced = false → c.unacked = 0

theorem Client.Fresh.onMessage {c : Client} (h : c.Fresh) (message : ServerMessage) :
    (c.onMessage message).1.Fresh := by
  cases hsynced : c.synced with
  | true =>
    cases message with
    | binary update =>
      rw [onMessage_binary_of_synced hsynced]
      exact h
    | ack =>
      rw [onMessage_ack_of_synced hsynced]
      exact fun hsynced' => absurd (hsynced.symm.trans hsynced') nofun
    | _ => exact h
  | false =>
    cases message with
    | binary update =>
      rw [onMessage_binary_of_unsynced hsynced]
      unfold onFirstFrame
      dsimp only
      split
      · exact nofun
      · exact nofun
    | ack =>
      rw [onMessage_ack_of_unsynced hsynced]
      exact fun _ => congrArg (· - 1) (h hsynced)
    | _ => exact h

theorem View.Step.fresh {c : Nat} {v v' : View} {e : Event} (hstep : View.Step c v e v') (h : v.client.Fresh) :
    v'.client.Fresh := by
  cases hstep with
  | connect => exact fun _ => rfl
  | edit update =>
    unfold View.act Client.onUpdate
    dsimp only
    split
    · next hsend => exact fun hsynced => absurd (hsend.1.symm.trans hsynced) nofun
    · exact h
  | deliver => exact h.onMessage _
  | closed code =>
    unfold Client.onClose
    dsimp only
    split
    · exact h
    · split
      · exact h
      · exact h
  | _ => exact h

theorem fresh_of_reachable {doc : Doc} {s : Site} (h : (collab doc).Reachable s) (c : Nat) : (s.clients c).Fresh :=
  h.induction (P := fun s => (s.clients c).Fresh) (fun _ => rfl) fun _ _ _ _ hinv _ hstep =>
    (Site.step_view hstep c).fresh hinv

theorem Site.step_deliver {s : Site} {c : Nat} {message : ServerMessage} {rest : List ServerMessage}
    (hout : (s.socket c).outbox = message :: rest) (hopen : (s.clients c).readyState = .opened) :
    s.step (.deliver c) = some (s.deliverMessage c message rest) := by
  unfold step
  dsimp only
  rw [hout]
  exact if_pos hopen

/-- A client has nothing that is not in the frame it is about to get, the first one of its connection. -/
structure Site.Opens (s : Site) (c : Nat) (update : Doc) : Prop where
  opened : (s.clients c).readyState = .opened
  unsynced : (s.clients c).synced = false
  frame : (s.socket c).outbox.head? = some (.binary update)
  nothing : (s.clients c).doc ⊆ update

/-- A client goes on to `synced`, and sends nothing. -/
def Site.Silent (s s' : Site) (c : Nat) : Prop :=
  (s'.socket c).inbox = (s.socket c).inbox ∧ (s'.clients c).status = .synced

/-- **Opening with nothing new**: a client that has nothing new gets the first frame and is silent, if and only if
no character of the document was ever deleted. What has been deleted is sent back to the server. -/
theorem first_frame_silent_iff {doc : Doc} {s : Site} (hs : (collab doc).Reachable s) {c : Nat} {update : Doc}
    (hopens : s.Opens c update) (hupdate : History update) :
    ∃ s', (collab doc).step s (.deliver c) = some s' ∧
      (s.Silent s' c ↔ ∀ client clock, Item.deleted client clock ∉ update) := by
  obtain ⟨hopen, hunsynced, hframe, hnothing⟩ := hopens
  obtain ⟨rest, hout⟩ := List.head?_eq_some_iff.1 hframe
  refine ⟨_, Site.step_deliver hout hopen, ?_⟩
  have hview := s.view_deliverMessage c (.binary update) rest
  have hmessage := Client.onMessage_binary_of_unsynced hunsynced update
  have hinbox : ((s.deliverMessage c (.binary update) rest).socket c).inbox =
      (s.socket c).inbox ++ ((s.clients c).onMessage (.binary update)).2 :=
    congrArg (fun v => v.socket.inbox) hview
  have hstatus : ((s.deliverMessage c (.binary update) rest).clients c).status =
      ((s.clients c).onMessage (.binary update)).1.status := congrArg (fun v => v.client.status) hview
  unfold Site.Silent
  rw [hinbox, hstatus, hmessage, List.append_right_eq_self]
  exact Client.onFirstFrame_silent_iff hupdate hnothing (fresh_of_reachable hs c hunsynced)

/-- A client opens a file with one character. -/
theorem first_frame_silent_iff_inserted : ∃ s s', (collab {.inserted 7 0}).Reachable s ∧
    (s.clients 0).doc = ∅ ∧ s.Opens 0 {.inserted 7 0} ∧
    (collab {.inserted 7 0}).step s (.deliver 0) = some s' ∧ s.Silent s' 0 := by
  have hend : ((collab {.inserted 7 0}).replay System.anyStep (collab {.inserted 7 0}).init
      [.connect 0 0, .opened 0, .attach (0, 0) false]).any
        (fun s => (s.clients 0).doc = ∅ ∧ (s.clients 0).readyState = .opened ∧ (s.clients 0).synced = false ∧
          (s.socket 0).outbox.head? = some (.binary {.inserted 7 0})) = true := by
    decide
  obtain ⟨s, hs, hp⟩ := System.exists_reachable hend
  obtain ⟨hdoc, hopened, hunsynced, hframe⟩ := of_decide_eq_true hp
  have hopens : s.Opens 0 {.inserted 7 0} := ⟨hopened, hunsynced, hframe, hdoc ▸ Finset.empty_subset _⟩
  obtain ⟨s', hstep, hsilent⟩ := first_frame_silent_iff hs hopens (.insert 7 .empty)
  exact ⟨s, s', hs, hdoc, hopens, hstep, hsilent.2 fun _ _ => by simp⟩

/-- A file of which one character was typed and deleted again. -/
def typedAndDeleted : Doc := {.deleted 7 0, .inserted 7 0}

/-- A viewer opens it. -/
theorem viewer_not_silent : ∃ s update s', (collab typedAndDeleted).Reachable s ∧ s.Opens 0 update ∧ History update ∧
    (s.socket 0).canEdit = false ∧ (collab typedAndDeleted).step s (.deliver 0) = some s' ∧ ¬s.Silent s' 0 := by
  have hend : ((collab typedAndDeleted).replay System.anyStep (collab typedAndDeleted).init
      [.connect 0 0, .opened 0, .attach (0, 0) false]).any
        (fun s => (s.clients 0).doc = ∅ ∧ (s.clients 0).readyState = .opened ∧ (s.clients 0).synced = false ∧
          (s.socket 0).outbox.head? = some (.binary typedAndDeleted) ∧ (s.socket 0).canEdit = false ∧
          (s.step (.deliver 0)).any (fun s' => (s'.clients 0).status = .syncing)) = true := by
    decide
  obtain ⟨s, hs, hp⟩ := System.exists_reachable hend
  obtain ⟨hdoc, hopened, hunsynced, hframe, hviewer, hnext⟩ := of_decide_eq_true hp
  obtain ⟨s', hstep, hsyncing⟩ := (Option.any_eq_true _ _).1 hnext
  have hopens : s.Opens 0 typedAndDeleted := ⟨hopened, hunsynced, hframe, hdoc ▸ Finset.empty_subset _⟩
  refine ⟨s, typedAndDeleted, s', hs, hopens, ?_, hviewer, hstep, ?_⟩
  · exact .delete (Finset.mem_singleton_self _) (.insert 7 .empty)
  · exact fun hsilent => absurd (hsilent.2.symm.trans (of_decide_eq_true hsyncing)) nofun

/-! ## Viewers -/

namespace View

/-- No ack is on its way to a viewer. -/
structure Unanswered (v : View) : Prop where
  accepted : v.socket.accepted = true → v.attached = false ∧ v.socket.outbox = []
  viewer : v.socket.canEdit = false → .ack ∉ v.socket.outbox

/-- A viewer with an update that is not acked. -/
structure Waits (v : View) : Prop where
  synced : v.client.synced = true
  unacked : 0 < v.client.unacked
  viewer : v.socket.canEdit = false
  attached : v.socket.accepted = false
  status : v.client.status ≠ .synced

variable {c : Nat} {v v' : View} {e : Event}

namespace Unanswered

theorem send (h : v.Unanswered) (hattached : v.attached = true) (message : ServerMessage)
    (hack : v.socket.canEdit = false → message ≠ .ack) :
    ({ v with socket := v.socket.send message } : View).Unanswered where
  accepted haccepted := absurd (hattached.symm.trans (h.accepted haccepted).1) nofun
  viewer hviewer hmem := by
    rcases List.mem_append.1 hmem with hmem | hmem
    · exact h.viewer hviewer hmem
    · exact hack hviewer (List.mem_singleton.1 hmem).symm

theorem pop (h : v.Unanswered) {message : ServerMessage} {rest : List ServerMessage}
    (hout : v.socket.outbox = message :: rest) :
    ({ v with socket := { v.socket with outbox := rest } } : View).Unanswered where
  accepted haccepted := absurd (hout.symm.trans (h.accepted haccepted).2) (List.cons_ne_nil _ _)
  viewer hviewer hmem := h.viewer hviewer (hout ▸ List.mem_cons_of_mem _ hmem)

theorem step (h : v.Unanswered) (hstep : View.Step c v e v') : v'.Unanswered := by
  cases hstep with
  | connect => exact ⟨fun _ => ⟨rfl, rfl⟩, fun _ => List.not_mem_nil⟩
  | deliver hout => exact ⟨(h.pop hout).accepted, (h.pop hout).viewer⟩
  | attach canEdit haccepted =>
    refine ⟨nofun, fun _ hmem => ?_⟩
    rcases List.mem_append.1 hmem with hmem | hmem
    · rw [(h.accepted haccepted).2] at hmem
      cases hmem
    · cases List.mem_singleton.1 hmem
  | read => exact ⟨h.accepted, h.viewer⟩
  | refuse _ hattached =>
    have hsend := h.send hattached .error fun _ => nofun
    exact ⟨hsend.accepted, hsend.viewer⟩
  | apply _ hattached _ hcanEdit =>
    have hsend := h.send hattached .ack fun hviewer => absurd (hcanEdit.symm.trans hviewer) nofun
    exact ⟨hsend.accepted, hsend.viewer⟩
  | hear _ update =>
    split
    · next hattached =>
      have hsend := h.send hattached (.binary update) fun _ => nofun
      exact ⟨hsend.accepted, hsend.viewer⟩
    · exact ⟨h.accepted, h.viewer⟩
  | tell hattached htext =>
    refine h.send hattached _ fun _ hack => ?_
    subst hack
    cases htext
  | drop hout => exact h.pop hout
  | detach => exact ⟨fun haccepted => ⟨rfl, (h.accepted haccepted).2⟩, h.viewer⟩
  | _ => exact ⟨h.accepted, h.viewer⟩

end Unanswered

/-- What a viewer waits for does not come, until it connects again. -/
theorem Waits.step (h : v.Waits) (hunanswered : v.Unanswered) (hstep : View.Step c v e v')
    (hstays : ∀ n, e ≠ .connect c n) : v'.Waits := by
  obtain ⟨hsynced, hunacked, hviewer, hattached, hstatus⟩ := h
  cases hstep with
  | connect n => exact absurd rfl (hstays n)
  | edit update =>
    unfold View.act Client.onUpdate
    dsimp only
    split
    · exact ⟨hsynced, Nat.succ_pos _, hviewer, hattached, by simp [Client.sendUpdate, Client.settle]⟩
    · exact ⟨hsynced, hunacked, hviewer, hattached, hstatus⟩
  | @deliver message rest hout =>
    have hack : message ≠ .ack := by
      rintro rfl
      exact hunanswered.viewer hviewer (hout ▸ List.mem_cons_self)
    have hclient : (v.client.onMessage message).1.synced = true ∧
        (v.client.onMessage message).1.unacked = v.client.unacked ∧
        (v.client.onMessage message).1.status = v.client.status := by
      cases message with
      | binary update =>
        rw [Client.onMessage_binary_of_synced hsynced]
        exact ⟨hsynced, rfl, rfl⟩
      | ack => exact absurd rfl hack
      | _ => exact ⟨hsynced, rfl, rfl⟩
    obtain ⟨hsynced', hunacked', hstatus'⟩ := hclient
    exact ⟨hsynced', hunacked'.symm ▸ hunacked, hviewer, hattached, hstatus'.symm ▸ hstatus⟩
  | closed code =>
    unfold Client.onClose
    dsimp only
    split
    · exact ⟨hsynced, hunacked, hviewer, hattached, hstatus⟩
    · split
      · exact ⟨hsynced, hunacked, hviewer, hattached, by simp⟩
      · exact ⟨hsynced, hunacked, hviewer, hattached, by simp⟩
  | attach canEdit haccepted => exact absurd (hattached.symm.trans haccepted) Bool.false_ne_true
  | hear =>
    refine ⟨hsynced, hunacked, ?_, ?_, hstatus⟩
    · split
      · exact hviewer
      · exact hviewer
    · split
      · exact hattached
      · exact hattached
  | _ => exact ⟨hsynced, hunacked, hviewer, hattached, hstatus⟩

end View

section Viewers

variable {doc update : Doc} {s s' t : Site} {c client clock : Nat}

theorem unanswered_of_reachable (h : (collab doc).Reachable s) (c : Nat) : (s.view c).Unanswered :=
  h.induction (P := fun s => (s.view c).Unanswered) ⟨nofun, fun _ => List.not_mem_nil⟩ fun _ _ _ _ hinv _ hstep =>
    hinv.step (Site.step_view hstep c)

/-- A document with a deletion is sent back. -/
theorem Client.onFirstFrame_of_deleted {c : Client} (h : .deleted client clock ∈ c.doc) (update : Doc) :
    (c.onFirstFrame update).1 = { c with synced := true, unacked := c.unacked + 1, status := .syncing } := by
  have hmissing : Item.deleted client clock ∈ encodeStateAsUpdate c.doc (stateVector update) :=
    Finset.mem_filter.2 ⟨h, rfl⟩
  have hcontent : hasContent (encodeStateAsUpdate c.doc (stateVector update)) = true := by
    by_contra hempty
    rw [hasContent_eq_false_iff.1 (Bool.eq_false_iff.2 hempty)] at hmissing
    exact Finset.notMem_empty _ hmissing
  unfold onFirstFrame
  dsimp only
  rw [if_pos hcontent]
  simp [sendUpdate, settle]

end Viewers

end Concord.Collab
