import Concord.Frontend.CollabSessions

/-!
# What `synced` tells

A client counts the updates it has sent and that were not acked. While its socket is open, this count is at least
the number of updates in the inbox and of acks in the outbox, and if it is not more, then every edit is in the first
frame, was acked or is in the inbox (`Answered`). So with a count of zero nothing is missing.

An edit is neither sent nor counted when the socket no longer is open. Until its close event the client still shows
what it showed before, and if this was `synced`, it is no longer true (`edit_while_closing`).
-/

namespace Concord.Collab

open Concord.Base

def ClientMessage.isUpdate : ClientMessage → Bool
  | update _ => true
  | hello | other => false

def ServerMessage.isAck : ServerMessage → Bool
  | ack => true
  | _ => false

/-- The acks that are still to come to the client. -/
def Socket.owed (socket : Socket) : Nat :=
  socket.inbox.countP ClientMessage.isUpdate + socket.outbox.countP ServerMessage.isAck

/-- The piece is on its way to the gateway. -/
def Socket.Carries (socket : Socket) (item : Item) : Prop := ∃ data, .update data ∈ socket.inbox ∧ item ∈ data

namespace View

variable (v : View)

/-- Everything the client has typed is in the server's first frame, acked or on its way. -/
def Told : Prop := ∀ item ∈ v.edits, item ∈ v.received ∪ v.acked ∨ v.socket.Carries item

/-- Everything the client has typed is in the server's first frame, or was applied and acked. -/
def Saved : Prop := v.edits ⊆ v.received ∪ v.acked

variable {v} in
/-- Where no ack is owed, nothing is on its way. -/
theorem Told.saved (h : v.Told) (hnone : v.socket.owed = 0) : v.Saved := by
  intro item hitem
  refine (h item hitem).resolve_right ?_
  rintro ⟨data, hdata, -⟩
  have hpos : 0 < v.socket.inbox.countP ClientMessage.isUpdate := List.countP_pos_iff.2 ⟨_, hdata, rfl⟩
  unfold Socket.owed at hnone
  omega

structure Answered : Prop where
  edits : v.edits ⊆ v.client.doc
  connecting : v.client.readyState = .connecting → v.client.synced = false
  waiting : v.client.retryTimer = true → v.client.readyState = .closed ∧ v.client.status ≠ .synced
  early : v.client.synced = false → v.client.status ≠ .synced ∧ v.client.unacked = 0 ∧ v.socket.owed = 0
  counted : v.client.synced = true → v.client.readyState = .opened →
    v.socket.owed ≤ v.client.unacked ∧ (v.socket.owed = v.client.unacked → v.Told)
  saved : v.client.status = .synced → v.Saved

end View

/-- No edit is made while the client shows `synced` and its socket is not open. -/
def Heard (s : Site) : Event → Prop
  | .edit c _ => (s.clients c).status = .synced → (s.clients c).readyState = .opened
  | _ => True

instance decidableHeard (s : Site) : (e : Event) → Decidable (Heard s e)
  | .edit c _ => inferInstanceAs (Decidable ((s.clients c).status = .synced → (s.clients c).readyState = .opened))
  | .connect _ _ | .opened _ | .say _ | .deliver _ | .closing _ | .closed _ _ | .close _ | .attach _ _ | .handle _ _
  | .tell _ _ | .drop _ | .detach _ | .replaceText _ | .reload _ => .isTrue trivial

section Sockets

variable {socket : Socket} {message : ServerMessage} {messages rest : List ClientMessage} {item : Item} {data : Doc}

theorem Socket.owed_receive (socket : Socket) (messages : List ClientMessage) :
    (socket.receive messages).owed = messages.countP ClientMessage.isUpdate + socket.owed := by
  unfold Socket.owed Socket.receive
  dsimp only
  rw [List.countP_append]
  omega

theorem Socket.owed_send (h : message.isAck = false) : (socket.send message).owed = socket.owed := by
  unfold Socket.owed Socket.send
  dsimp only
  rw [List.countP_append, List.countP_singleton, h]
  rfl

theorem Socket.carries_receive : (socket.receive messages).Carries item ↔
    socket.Carries item ∨ ∃ data, .update data ∈ messages ∧ item ∈ data := by
  unfold Socket.Carries Socket.receive
  dsimp only
  constructor
  · rintro ⟨data, hdata, hitem⟩
    rcases List.mem_append.1 hdata with hdata | hdata
    · exact .inl ⟨data, hdata, hitem⟩
    · exact .inr ⟨data, hdata, hitem⟩
  · rintro (⟨data, hdata, hitem⟩ | ⟨data, hdata, hitem⟩)
    · exact ⟨data, List.mem_append_left _ hdata, hitem⟩
    · exact ⟨data, List.mem_append_right _ hdata, hitem⟩

end Sockets

namespace View.Answered

variable {v : View} {socket : Socket} {acked : Doc}

/-- The gateway goes on with the socket: it owes no more acks than before, and if it owes as many, then what was on
its way still is or was acked. -/
theorem serve (h : v.Answered) (hacked : v.acked ⊆ acked) (howed : socket.owed ≤ v.socket.owed)
    (hcarries : socket.owed = v.socket.owed → ∀ item, v.socket.Carries item → item ∈ acked ∨ socket.Carries item)
    (doc : Doc) (attached : Bool) : ({ v with doc, attached, socket, acked } : View).Answered where
  edits := h.edits
  connecting := h.connecting
  waiting := h.waiting
  early hsynced := by
    obtain ⟨hstatus, hunacked, hnone⟩ := h.early hsynced
    exact ⟨hstatus, hunacked, Nat.le_zero.1 (hnone ▸ howed)⟩
  counted hsynced hopen := by
    obtain ⟨hle, htold⟩ := h.counted hsynced hopen
    refine ⟨howed.trans hle, fun heq item hitem => ?_⟩
    have hsame : socket.owed = v.socket.owed := le_antisymm howed (heq ▸ hle)
    rcases htold (hsame ▸ heq) item hitem with hin | hcarried
    · rcases Finset.mem_union.1 hin with hin | hin
      · exact .inl (Finset.mem_union_left _ hin)
      · exact .inl (Finset.mem_union_right _ (hacked hin))
    · exact (hcarries hsame item hcarried).imp_left fun hin => Finset.mem_union_right _ hin
  saved hstatus := (h.saved hstatus).trans (Finset.union_subset_union_right hacked)

/-- A client says something that is no update. -/
theorem speak (h : v.Answered) (messages : List ClientMessage)
    (hmessages : messages.countP ClientMessage.isUpdate = 0) :
    ({ v with socket := v.socket.receive messages } : View).Answered := by
  have howed : (v.socket.receive messages).owed = v.socket.owed := by
    rw [Socket.owed_receive, hmessages, Nat.zero_add]
  refine h.serve (Finset.Subset.refl _) howed.le (fun _ item hitem => .inr ?_) v.doc v.attached
  exact Socket.carries_receive.2 (.inl hitem)

theorem connect (h : v.Answered) (n : Nat) (hretry : v.client.retryTimer = true) :
    ({ v with
      ws := n
      attached := false
      client := v.client.connect
      socket := { accepted := true } } : View).Answered where
  edits := h.edits
  connecting _ := rfl
  waiting hretry' := by cases hretry'
  early _ := ⟨(h.waiting hretry).2, rfl, rfl⟩
  counted hsynced := by cases hsynced
  saved hstatus := absurd hstatus (h.waiting hretry).2

theorem opened (h : v.Answered) (hconnecting : v.client.readyState = .connecting) :
    (v.act v.client.onOpen).Answered := by
  have hsynced := h.connecting hconnecting
  refine View.Answered.speak (v := { v with client := { v.client with readyState := .opened } }) ?_ _ rfl
  refine ⟨h.edits, nofun, ?_, h.early, ?_, h.saved⟩
  · intro hretry
    rw [(h.waiting hretry).1] at hconnecting
    cases hconnecting
  · intro hsynced'
    cases hsynced.symm.trans hsynced'

theorem closing (h : v.Answered) (hopen : v.client.readyState ≠ .closed) :
    ({ v with client := { v.client with readyState := .closing } } : View).Answered where
  edits := h.edits
  connecting := nofun
  waiting hretry := absurd (h.waiting hretry).1 hopen
  early := h.early
  counted _ := nofun
  saved := h.saved

theorem closed (h : v.Answered) (code : Nat) : ({ v with client := v.client.onClose code } : View).Answered := by
  unfold Client.onClose
  dsimp only
  split
  · exact ⟨h.edits, nofun, fun hretry => ⟨rfl, (h.waiting hretry).2⟩, h.early, fun _ => nofun, h.saved⟩
  · split
    · exact ⟨h.edits, nofun, fun _ => ⟨rfl, nofun⟩, fun hsynced => ⟨nofun, (h.early hsynced).2⟩, fun _ => nofun, nofun⟩
    · exact ⟨h.edits, nofun, fun _ => ⟨rfl, nofun⟩, fun hsynced => ⟨nofun, (h.early hsynced).2⟩, fun _ => nofun, nofun⟩

theorem close (h : v.Answered) : ({ v with client := v.client.close } : View).Answered := by
  have hready : v.client.close.readyState = .closed ∨ v.client.close.readyState = .closing := by
    unfold Client.close
    dsimp only
    split
    · exact .inl rfl
    · exact .inr rfl
  refine ⟨h.edits, fun hconnecting => ?_, nofun, h.early, fun _ hopen => ?_, h.saved⟩
  · rcases hready with hready | hready
    · cases hready.symm.trans hconnecting
    · cases hready.symm.trans hconnecting
  · rcases hready with hready | hready
    · cases hready.symm.trans hopen
    · cases hready.symm.trans hopen

/-- What the client knows of the document grows. -/
theorem grow (h : v.Answered) (doc : Doc) (hdoc : v.client.doc ⊆ doc) :
    ({ v with client := { v.client with doc } } : View).Answered :=
  ⟨h.edits.trans hdoc, h.connecting, h.waiting, h.early, h.counted, h.saved⟩

/-- A client with an open socket shows how it is, if it counts no fewer acks than are owed. -/
theorem settle (hedits : v.edits ⊆ v.client.doc) (hsynced : v.client.synced = true)
    (hopen : v.client.readyState = .opened) (hretry : v.client.retryTimer = false)
    (hle : v.socket.owed ≤ v.client.unacked) (htold : v.socket.owed = v.client.unacked → v.Told) :
    ({ v with client := v.client.settle } : View).Answered where
  edits := hedits
  connecting hconnecting := by cases hopen.symm.trans hconnecting
  waiting hretry' := by cases hretry.symm.trans hretry'
  early hsynced' := by cases hsynced.symm.trans hsynced'
  counted _ _ := ⟨hle, htold⟩
  saved hstatus := by
    have hunacked : v.client.unacked = 0 := by
      by_contra hne
      unfold Client.settle at hstatus
      dsimp only at hstatus
      rw [if_pos (Nat.pos_of_ne_zero hne)] at hstatus
      cases hstatus
    have hnone : v.socket.owed = 0 := Nat.le_zero.1 (hunacked ▸ hle)
    exact (htold (hnone.trans hunacked.symm)).saved hnone

theorem notRetrying (h : v.Answered) (hopen : v.client.readyState = .opened) : v.client.retryTimer = false := by
  by_contra hretry
  cases hopen.symm.trans (h.waiting (Bool.not_eq_false _ ▸ hretry)).1

/-- The client types something. -/
theorem edit (h : v.Answered) (update : Doc)
    (hheard : v.client.status = .synced → v.client.readyState = .opened) :
    ({ v with edits := v.edits ∪ update }.act (v.client.onUpdate update)).Answered := by
  have hedits : v.edits ∪ update ⊆ v.client.doc ∪ update := Finset.union_subset_union_left h.edits
  unfold Client.onUpdate
  dsimp only
  split
  · next hsend =>
    obtain ⟨hsynced, hopen⟩ := hsend
    obtain ⟨hle, htold⟩ := h.counted hsynced hopen
    have howed : (v.socket.receive [.update update]).owed = 1 + v.socket.owed := Socket.owed_receive _ _
    refine settle (v := { v with
      edits := v.edits ∪ update
      socket := v.socket.receive [.update update]
      client := { v.client with doc := v.client.doc ∪ update, unacked := v.client.unacked + 1 } })
      hedits hsynced hopen (h.notRetrying hopen) (by dsimp only; omega) fun heq item hitem => ?_
    dsimp only at heq hitem ⊢
    rcases Finset.mem_union.1 hitem with hitem | hitem
    · exact (htold (by omega) item hitem).imp_right fun hcarried => Socket.carries_receive.2 (.inl hcarried)
    · exact .inr (Socket.carries_receive.2 (.inr ⟨update, List.mem_singleton_self _, hitem⟩))
  · next hsilent =>
    have hstatus : v.client.status ≠ .synced := by
      intro hstatus
      refine hsilent ⟨?_, hheard hstatus⟩
      by_contra hsynced
      exact (h.early (Bool.eq_false_iff.2 hsynced)).1 hstatus
    refine View.Answered.speak (v := { v with
      edits := v.edits ∪ update
      client := { v.client with doc := v.client.doc ∪ update } })
      ⟨hedits, h.connecting, h.waiting, h.early, fun hsynced hopen => absurd ⟨hsynced, hopen⟩ hsilent, fun hstatus' =>
        absurd hstatus' hstatus⟩ [] rfl

/-- A frame is out of the outbox. -/
theorem pop (h : v.Answered) {message : ServerMessage} {rest : List ServerMessage}
    (hout : v.socket.outbox = message :: rest) :
    ({ v with socket := { v.socket with outbox := rest } } : View).Answered := by
  have howed : ({ v.socket with outbox := rest } : Socket).owed ≤ v.socket.owed := by
    unfold Socket.owed
    rw [hout, List.countP_cons]
    dsimp only
    omega
  exact h.serve (Finset.Subset.refl _) howed (fun _ _ hcarried => .inr hcarried) v.doc v.attached

/-- The first frame is here: what the server lacks is sent back. -/
theorem firstFrame (h : v.Answered) (hsynced : v.client.synced = false) (hopen : v.client.readyState = .opened)
    (update : Doc) :
    ({ v with received := update }.act
      (Client.onFirstFrame { v.client with doc := v.client.doc ∪ update } update)).Answered := by
  obtain ⟨-, hunacked, hnone⟩ := h.early hsynced
  have hedits : v.edits ⊆ v.client.doc ∪ update := h.edits.trans Finset.subset_union_left
  have hcover := subset_union_encodeStateAsUpdate (v.client.doc ∪ update) update
  unfold Client.onFirstFrame
  dsimp only
  split
  · next hcontent =>
    have howed : (v.socket.receive [.update (encodeStateAsUpdate (v.client.doc ∪ update) (stateVector update))]).owed =
        1 + v.socket.owed := Socket.owed_receive _ _
    refine settle (v := { v with
      received := update
      socket := v.socket.receive [.update (encodeStateAsUpdate (v.client.doc ∪ update) (stateVector update))]
      client := { v.client with doc := v.client.doc ∪ update, synced := true, unacked := v.client.unacked + 1 } })
      hedits rfl hopen (h.notRetrying hopen) (by dsimp only; omega) fun _ item hitem => ?_
    rcases Finset.mem_union.1 (hcover (hedits hitem)) with hin | hmissing
    · exact .inl (Finset.mem_union_left _ hin)
    · exact .inr (Socket.carries_receive.2 (.inr ⟨_, List.mem_singleton_self _, hmissing⟩))
  · next hcontent =>
    have hempty := hasContent_eq_false_iff.1 (Bool.eq_false_iff.2 hcontent)
    rw [hempty, Finset.union_empty] at hcover
    have howed : (v.socket.receive []).owed = 0 + v.socket.owed := Socket.owed_receive _ _
    refine settle (v := { v with
      received := update
      socket := v.socket.receive []
      client := { v.client with doc := v.client.doc ∪ update, synced := true } })
      hedits rfl hopen (h.notRetrying hopen) (by dsimp only; omega) fun _ item hitem => ?_
    exact .inl (Finset.mem_union_left _ (hcover (hedits hitem)))

theorem ack (h : v.Answered) {popped : Socket} (howed : v.socket.owed = popped.owed + 1)
    (hcarries : ∀ item, v.socket.Carries item → popped.Carries item) (hopen : v.client.readyState = .opened) :
    ({ v with socket := popped }.act (v.client.onMessage .ack)).Answered := by
  cases hsynced : v.client.synced with
  | false =>
    have hnone := (h.early hsynced).2.2
    omega
  | true =>
    obtain ⟨hle, htold⟩ := h.counted hsynced hopen
    have hreceive : (popped.receive []).owed = 0 + popped.owed := Socket.owed_receive _ _
    rw [Client.onMessage_ack_of_synced hsynced]
    refine settle (v := { v with
      socket := popped.receive []
      client := { v.client with unacked := v.client.unacked - 1 } })
      h.edits hsynced hopen (h.notRetrying hopen) (by dsimp only; omega) fun heq item hitem => ?_
    dsimp only at heq
    refine (htold (by omega) item hitem).imp_right fun hcarried => ?_
    exact Socket.carries_receive.2 (.inl (hcarries item hcarried))

/-- A frame is with the client. -/
theorem deliver (h : v.Answered) {message : ServerMessage} {rest : List ServerMessage}
    (hout : v.socket.outbox = message :: rest) (hopen : v.client.readyState = .opened) :
    ({ v with received := v.first message, socket := { v.socket with outbox := rest } }.act
      (v.client.onMessage message)).Answered := by
  have hpop := h.pop hout
  cases message with
  | binary update =>
    cases hsynced : v.client.synced with
    | true =>
      have hgrow := hpop.grow (v.client.doc ∪ update) Finset.subset_union_left
      rw [Client.onMessage_binary_of_synced hsynced, View.first_of_synced hsynced]
      exact hgrow.speak [] rfl
    | false =>
      have hfirst := hpop.firstFrame hsynced hopen update
      rw [Client.onMessage_binary_of_unsynced hsynced, View.first_of_unsynced hsynced]
      exact hfirst
  | ack =>
    have howed : v.socket.owed = ({ v.socket with outbox := rest } : Socket).owed + 1 := by
      unfold Socket.owed
      rw [hout, List.countP_cons]
      exact (Nat.add_assoc _ _ _).symm
    exact h.ack howed (fun _ hcarried => hcarried) hopen
  | ping => exact hpop.speak _ rfl
  | error => exact hpop.speak _ rfl
  | other => exact hpop.speak _ rfl

/-- A message is out of the inbox, and the gateway answers it. -/
theorem answer (h : v.Answered) {message : ClientMessage} {rest : List ClientMessage}
    (hin : v.socket.inbox = message :: rest) (reply : List ServerMessage) {acked : Doc}
    (hreply : reply.countP ServerMessage.isAck ≤ if message.isUpdate then 1 else 0)
    (hacked : v.acked ⊆ acked)
    (hdata : ∀ data, message = .update data → reply.countP ServerMessage.isAck = 1 → data ⊆ acked) (doc : Doc) :
    ({ v with
      doc
      socket := { v.socket with inbox := rest, outbox := v.socket.outbox ++ reply }
      acked } : View).Answered := by
  have howed : ({ v.socket with inbox := rest, outbox := v.socket.outbox ++ reply } : Socket).owed +
      (if message.isUpdate then 1 else 0) = v.socket.owed + reply.countP ServerMessage.isAck := by
    unfold Socket.owed
    rw [hin, List.countP_cons, List.countP_append]
    dsimp only
    omega
  refine h.serve hacked (by omega) (fun heq item hcarried => ?_) doc v.attached
  obtain ⟨data, hmem, hitem⟩ := hcarried
  rw [hin] at hmem
  rcases List.mem_cons.1 hmem with rfl | hmem
  · have hone : reply.countP ServerMessage.isAck = 1 := by
      have hupdate : (ClientMessage.update data).isUpdate = true := rfl
      rw [hupdate, if_pos rfl] at howed
      omega
    exact .inl (hdata data rfl hone hitem)
  · exact .inr ⟨data, hmem, hitem⟩

theorem step (h : v.Answered) {c : Nat} {e : Event} {v' : View} (hstep : View.Step c v e v')
    (hheard : ∀ update, e = .edit c update → v.client.status = .synced → v.client.readyState = .opened) :
    v'.Answered := by
  cases hstep with
  | beside => exact h
  | connect n hretry => exact h.connect n hretry
  | opened hconnecting => exact h.opened hconnecting
  | edit update => exact h.edit update (hheard update rfl)
  | say => exact h.speak _ rfl
  | deliver hout hopen => exact h.deliver hout hopen
  | closing hopen => exact h.closing hopen
  | closed code => exact h.closed code
  | close => exact h.close
  | attach canEdit =>
    have hsend : (v.socket.send (.binary v.doc)).owed = v.socket.owed := Socket.owed_send rfl
    have howed : ({ v.socket.send (.binary v.doc) with accepted := false, canEdit } : Socket).owed ≤ v.socket.owed :=
      hsend.le
    exact h.serve (Finset.Subset.refl _) howed (fun _ _ hcarried => .inr hcarried) v.doc true
  | read fails hin hmessage =>
    have hanswer := h.answer hin [] (Nat.zero_le _) (Finset.Subset.refl _) (fun data heq => absurd heq (hmessage data))
      v.doc
    rwa [List.append_nil] at hanswer
  | refuse fails hattached hin hrefused =>
    exact h.answer hin [.error] (Nat.zero_le _) (Finset.Subset.refl _) (fun _ _ hone => by cases hone) v.doc
  | apply fails hattached hin =>
    refine h.answer hin [.ack] le_rfl Finset.subset_union_left (fun data heq _ => ?_) _
    obtain rfl := ClientMessage.update.inj heq
    exact Finset.subset_union_right
  | hear e update acked hacked =>
    refine h.serve hacked ?_ (fun _ item hcarried => .inr ?_) _ v.attached
    · split
      · exact (Socket.owed_send rfl).le
      · exact le_rfl
    · split
      · exact hcarried
      · exact hcarried
  | @tell message hattached htext =>
    have hack : message.isAck = false := by
      cases message with
      | ack => cases htext
      | _ => rfl
    exact h.serve (Finset.Subset.refl _) (Socket.owed_send hack).le (fun _ _ hcarried => .inr hcarried) v.doc v.attached
  | drop hout => exact h.pop hout
  | detach => exact h.serve (Finset.Subset.refl _) le_rfl (fun _ _ hcarried => .inr hcarried) v.doc false
  | reload doc => exact h.serve (Finset.Subset.refl _) le_rfl (fun _ _ hcarried => .inr hcarried) doc v.attached

end View.Answered

theorem answered_of_reachable {doc : Doc} {s : Site} (h : (collab doc).ReachableUnder Heard s) (c : Nat) :
    (s.view c).Answered := by
  refine h.induction (P := fun s => (s.view c).Answered) ?_ fun s e s' _ hinv hheard hstep => ?_
  · exact ⟨Finset.Subset.refl _, fun _ => rfl, fun _ => ⟨rfl, nofun⟩, fun _ => ⟨nofun, rfl, rfl⟩, nofun, nofun⟩
  · refine hinv.step (Site.step_view hstep c) fun update he => ?_
    subst he
    exact hheard

/-- What a client has typed is with the server when it shows `synced`. -/
def Site.NotEarly (s : Site) : Prop :=
  ∀ c, (s.clients c).status = .synced → s.edits c ⊆ s.received c ∪ s.acked c

/-- **`synced` is not shown early** where no edit is made while it is shown and the socket is not open: then every
edit of a client that shows it was in the first frame of its connection, or was applied and acked. An edit made
while it is shown and the socket is not open stays where it is, so that it is early. -/
theorem synced_not_early (doc : Doc) (s : Site) : ((collab doc).ReachableUnder Heard s → s.NotEarly) ∧
    ∀ c update, ¬Heard s (.edit c update) → ¬update ⊆ s.received c ∪ s.acked c →
      ∃ s', (collab doc).step s (.edit c update) = some s' ∧ ¬s'.NotEarly := by
  refine ⟨fun h c => (answered_of_reachable h c).saved, fun c update hunheard hnew => ⟨_, rfl, fun hnotEarly => ?_⟩⟩
  simp only [Heard, Classical.not_imp] at hunheard
  obtain ⟨hstatus, hclosing⟩ := hunheard
  have hsilent : ¬((s.clients c).synced = true ∧ (s.clients c).readyState = .opened) := fun h => hclosing h.2
  have hclient : (s.clients c).onUpdate update = ({ s.clients c with doc := (s.clients c).doc ∪ update }, []) :=
    if_neg hsilent
  have hsaved := hnotEarly c
  rw [hclient] at hsaved
  unfold Site.act Site.setClient Site.setSocket at hsaved
  dsimp only at hsaved
  rw [Function.update_self, Function.update_self] at hsaved
  exact hnew (Finset.subset_union_right.trans (hsaved hstatus))

/-- A client that connects to an empty file, up to the first frame. -/
def firstConnection : List Event :=
  [.connect 0 0, .opened 0, .attach (0, 0) true, .handle (0, 0) false, .handle (0, 0) false, .deliver 0]

/-- A client types one character and has it acked. -/
theorem synced_not_early_acked : ∃ s, (collab ∅).ReachableUnder Heard s ∧
    (s.clients 0).status = .synced ∧ s.edits 0 = {.inserted 7 0} ∧ s.edits 0 ⊆ s.received 0 ∪ s.acked 0 := by
  have hend : ((collab ∅).replay Heard (collab ∅).init
      (firstConnection ++ [.edit 0 {.inserted 7 0}, .handle (0, 0) false, .deliver 0])).any
        (fun s => (s.clients 0).status = .synced ∧ s.edits 0 = {.inserted 7 0}) = true := by
    decide
  obtain ⟨s, hs, hp⟩ := System.exists_reachable hend
  obtain ⟨hstatus, hedits⟩ := of_decide_eq_true hp
  exact ⟨s, hs, hstatus, hedits, (synced_not_early ∅ s).1 hs 0 hstatus⟩

/-- The server starts to close the connection, and the client types one more character. -/
theorem edit_while_closing : ∃ s, (collab ∅).Reachable s ∧ ¬s.NotEarly := by
  have hend : ((collab ∅).replay System.anyStep (collab ∅).init
      (firstConnection ++ [.closing 0, .edit 0 {.inserted 7 0}])).any
        (fun s => (s.clients 0).status = .synced ∧ ¬s.edits 0 ⊆ s.received 0 ∪ s.acked 0) = true := by
    decide
  obtain ⟨s, hs, hp⟩ := System.exists_reachable hend
  obtain ⟨hstatus, hearly⟩ := of_decide_eq_true hp
  exact ⟨s, hs, fun hnotEarly => hearly (hnotEarly 0 hstatus)⟩

end Concord.Collab
