import Concord.Frontend.CollabSessions

/-!
# Editors converge

What is in the document of a room and not in that of a client is in a frame on its way to the client. What a client
with an open socket has and the room lacks is in an update on its way to the room, once the first frame is here
(`Spread`). So the two are the same when nothing is on its way.

The first frame is the whole document, a client is in the room from then on, and it is left out of a broadcast only
for its own updates. A client that comes back with edits sends them upon the first frame.
-/

namespace Concord.Collab

open Concord.Base

/-- The piece is on its way to the client. -/
def Socket.Brings (socket : Socket) (item : Item) : Prop := ∃ update, .binary update ∈ socket.outbox ∧ item ∈ update

theorem Socket.Brings.pop {socket : Socket} {item : Item} (h : socket.Brings item) {update : Doc}
    {rest : List ServerMessage} (hout : socket.outbox = .binary update :: rest) :
    item ∈ update ∨ ({ socket with outbox := rest } : Socket).Brings item := by
  obtain ⟨update', hmem, hitem⟩ := h
  rw [hout] at hmem
  rcases List.mem_cons.1 hmem with heq | hmem
  · obtain rfl := ServerMessage.binary.inj heq
    exact .inl hitem
  · exact .inr ⟨update', hmem, hitem⟩

/-- The socket is there and has not begun to close. -/
def Client.Live (c : Client) : Prop := c.readyState = .connecting ∨ c.readyState = .opened

instance Client.decidableLive (c : Client) : Decidable c.Live := inferInstanceAs (Decidable (_ ∨ _))

namespace View

structure Spread (v : View) : Prop where
  editor : v.attached = true → v.socket.canEdit = true
  told : ∀ data, .update data ∈ v.socket.inbox → data ⊆ v.client.doc
  known : ∀ update, .binary update ∈ v.socket.outbox → update ⊆ v.doc
  connecting : v.client.readyState = .connecting → v.client.synced = false
  first : v.attached = true → v.client.Live → v.client.synced = false → ∃ update, .binary update ∈ v.socket.outbox
  reached : v.attached = true → v.client.Live → ∀ item ∈ v.doc, item ∈ v.client.doc ∨ v.socket.Brings item
  sent : v.client.synced = true → v.client.readyState = .opened →
    ∀ item ∈ v.client.doc, item ∈ v.doc ∨ ∃ data, .update data ∈ v.socket.inbox ∧ item ∈ data

end View

/-- All clients are editors, no update fails, and the room is not evicted. A frame is dropped only when its socket is
closing or gone. -/
def Sound (s : Site) : Event → Prop
  | .attach _ canEdit => canEdit = true
  | .handle _ fails => fails = false
  | .drop k => s.ws k.1 = k.2 → ¬(s.clients k.1).Live
  | .reload _ => False
  | _ => True

instance decidableSound (s : Site) (e : Event) : Decidable (Sound s e) := by
  cases e with
  | attach k canEdit => exact inferInstanceAs (Decidable (canEdit = true))
  | handle k fails => exact inferInstanceAs (Decidable (fails = false))
  | drop k => exact inferInstanceAs (Decidable (s.ws k.1 = k.2 → ¬(s.clients k.1).Live))
  | reload doc => exact .isFalse id
  | _ => exact .isTrue trivial

namespace View.Spread

variable {v : View} {c : Nat}

/-- A frame that is no update is added. -/
theorem say (h : v.Spread) (frames : List ServerMessage) (hframes : ∀ update, .binary update ∉ frames) :
    ({ v with socket := { v.socket with outbox := v.socket.outbox ++ frames } } : View).Spread where
  editor := h.editor
  told := h.told
  known update hmem := h.known update ((List.mem_append.1 hmem).resolve_right (hframes update))
  connecting := h.connecting
  first hattached hlive hunsynced := (h.first hattached hlive hunsynced).imp fun _ hmem => List.mem_append_left _ hmem
  reached hattached hlive item hitem := by
    refine (h.reached hattached hlive item hitem).imp_right ?_
    exact fun ⟨update, hmem, hin⟩ => ⟨update, List.mem_append_left _ hmem, hin⟩
  sent := h.sent

/-- A frame that is no update is out of the outbox. -/
theorem pop (h : v.Spread) {message : ServerMessage} {rest : List ServerMessage}
    (hout : v.socket.outbox = message :: rest) (hmessage : ∀ update, message ≠ .binary update) (received : Doc) :
    ({ v with received, socket := { v.socket with outbox := rest } } : View).Spread where
  editor := h.editor
  told := h.told
  known update hmem := h.known update (hout ▸ List.mem_cons_of_mem _ hmem)
  connecting := h.connecting
  first hattached hlive hunsynced := by
    obtain ⟨update, hmem⟩ := h.first hattached hlive hunsynced
    rw [hout] at hmem
    exact ⟨update, (List.mem_cons.1 hmem).resolve_left (hmessage update).symm⟩
  reached hattached hlive item hitem := by
    refine (h.reached hattached hlive item hitem).imp_right ?_
    rintro ⟨update, hmem, hin⟩
    rw [hout] at hmem
    exact ⟨update, (List.mem_cons.1 hmem).resolve_left (hmessage update).symm, hin⟩
  sent := h.sent

/-- The client sends messages about what it has. -/
theorem speak (h : v.Spread) (messages : List ClientMessage)
    (hmessages : ∀ data, .update data ∈ messages → data ⊆ v.client.doc) :
    ({ v with socket := v.socket.receive messages } : View).Spread where
  editor := h.editor
  told data hmem := (List.mem_append.1 hmem).elim (h.told data) (hmessages data)
  known := h.known
  connecting := h.connecting
  first := h.first
  reached := h.reached
  sent hsynced hopen item hitem := by
    refine (h.sent hsynced hopen item hitem).imp_right ?_
    exact fun ⟨data, hmem, hin⟩ => ⟨data, List.mem_append_left _ hmem, hin⟩

/-- An update is applied that is not from the client's socket. -/
theorem hear (h : v.Spread) (update acked : Doc) :
    ({ v with
      doc := v.doc ∪ update
      socket := if v.attached then v.socket.send (.binary update) else v.socket
      acked } : View).Spread := by
  cases hattached : v.attached with
  | true =>
    refine ⟨fun _ => h.editor hattached, h.told, fun update' hmem => ?_, h.connecting, fun _ hlive hunsynced => ?_,
      fun _ hlive item hitem => ?_, fun hsynced hopen item hitem => ?_⟩
    · rcases List.mem_append.1 hmem with hmem | hmem
      · exact (h.known update' hmem).trans Finset.subset_union_left
      · obtain rfl := ServerMessage.binary.inj (List.mem_singleton.1 hmem)
        exact Finset.subset_union_right
    · exact (h.first hattached hlive hunsynced).imp fun _ hmem => List.mem_append_left _ hmem
    · rcases Finset.mem_union.1 hitem with hitem | hitem
      · refine (h.reached hattached hlive item hitem).imp_right ?_
        exact fun ⟨update', hmem, hin⟩ => ⟨update', List.mem_append_left _ hmem, hin⟩
      · exact .inr ⟨update, List.mem_append_right _ (List.mem_singleton_self _), hitem⟩
    · exact (h.sent hsynced hopen item hitem).imp_left fun hin => Finset.mem_union_left _ hin
  | false =>
    refine ⟨nofun, h.told, fun update' hmem => ?_, h.connecting, nofun, nofun, fun hsynced hopen item hitem => ?_⟩
    · exact (h.known update' hmem).trans Finset.subset_union_left
    · exact (h.sent hsynced hopen item hitem).imp_left fun hin => Finset.mem_union_left _ hin

/-- The client's own update is applied. -/
theorem apply (h : v.Spread) {data acked : Doc} {rest : List ClientMessage}
    (hin : v.socket.inbox = .update data :: rest) :
    ({ v with
      doc := v.doc ∪ data
      socket := { v.socket with inbox := rest }
      acked } : View).Spread where
  editor := h.editor
  told data' hmem := h.told data' (hin ▸ List.mem_cons_of_mem _ hmem)
  known update hmem := (h.known update hmem).trans Finset.subset_union_left
  connecting := h.connecting
  first := h.first
  reached hattached hlive item hitem := by
    rcases Finset.mem_union.1 hitem with hitem | hitem
    · exact h.reached hattached hlive item hitem
    · exact .inl (h.told data (hin ▸ List.mem_cons_self) hitem)
  sent hsynced hopen item hitem := by
    rcases h.sent hsynced hopen item hitem with hthere | ⟨data', hmem, hdata⟩
    · exact .inl (Finset.mem_union_left _ hthere)
    · rw [hin] at hmem
      rcases List.mem_cons.1 hmem with heq | hmem
      · obtain rfl := ClientMessage.update.inj heq
        exact .inl (Finset.mem_union_right _ hdata)
      · exact .inr ⟨data', hmem, hdata⟩

/-- A message that is no update is out of the inbox. -/
theorem read (h : v.Spread) {message : ClientMessage} {rest : List ClientMessage}
    (hin : v.socket.inbox = message :: rest) (hmessage : ∀ data, message ≠ .update data) :
    ({ v with socket := { v.socket with inbox := rest } } : View).Spread where
  editor := h.editor
  told data hmem := h.told data (hin ▸ List.mem_cons_of_mem _ hmem)
  known := h.known
  connecting := h.connecting
  first := h.first
  reached := h.reached
  sent hsynced hopen item hitem := by
    refine (h.sent hsynced hopen item hitem).imp_right ?_
    rintro ⟨data, hmem, hitem⟩
    rw [hin] at hmem
    exact ⟨data, (List.mem_cons.1 hmem).resolve_left (hmessage data).symm, hitem⟩

theorem attach (h : v.Spread) :
    ({ v with
      attached := true
      socket := { v.socket.send (.binary v.doc) with accepted := false, canEdit := true } } : View).Spread where
  editor _ := rfl
  told := h.told
  known update hmem := by
    rcases List.mem_append.1 hmem with hmem | hmem
    · exact h.known update hmem
    · obtain rfl := ServerMessage.binary.inj (List.mem_singleton.1 hmem)
      exact Finset.Subset.refl _
  connecting := h.connecting
  first _ _ _ := ⟨v.doc, List.mem_append_right _ (List.mem_singleton_self _)⟩
  reached _ _ item hitem := .inr ⟨v.doc, List.mem_append_right _ (List.mem_singleton_self _), hitem⟩
  sent := h.sent

/-- The socket is closing or gone: nothing has to arrive any more. -/
theorem leave (h : v.Spread) {client : Client} (hdoc : client.doc = v.client.doc) (hlive : ¬client.Live) :
    ({ v with client } : View).Spread where
  editor := h.editor
  told := hdoc ▸ h.told
  known := h.known
  connecting hconnecting := absurd (.inl hconnecting) hlive
  first _ hlive' := absurd hlive' hlive
  reached _ hlive' := absurd hlive' hlive
  sent _ hopen := absurd (.inr hopen) hlive

/-- The count of acks and what is shown of it do not matter. -/
theorem settle (h : v.Spread) (status : SyncStatus) (unacked : Nat) :
    ({ v with client := { v.client with status, unacked } } : View).Spread :=
  ⟨h.editor, h.told, h.known, h.connecting, h.first, h.reached, h.sent⟩

theorem edit (h : v.Spread) (update : Doc) :
    ({ v with edits := v.edits ∪ update }.act (v.client.onUpdate update)).Spread := by
  unfold Client.onUpdate
  dsimp only
  split
  · next hsend =>
    refine ⟨h.editor, fun data hmem => ?_, h.known, h.connecting, ?_, fun hattached hlive item hitem => ?_,
      fun _ _ item hitem => ?_⟩
    · rcases List.mem_append.1 hmem with hmem | hmem
      · exact (h.told data hmem).trans Finset.subset_union_left
      · obtain rfl := ClientMessage.update.inj (List.mem_singleton.1 hmem)
        exact Finset.subset_union_right
    · exact h.first
    · exact (h.reached hattached hlive item hitem).imp_left fun hin => Finset.mem_union_left _ hin
    · rcases Finset.mem_union.1 hitem with hitem | hitem
      · refine (h.sent hsend.1 hsend.2 item hitem).imp_right ?_
        exact fun ⟨data, hmem, hin⟩ => ⟨data, List.mem_append_left _ hmem, hin⟩
      · exact .inr ⟨update, List.mem_append_right _ (List.mem_singleton_self _), hitem⟩
  · next hsilent =>
    refine View.Spread.speak (v := { v with
      edits := v.edits ∪ update
      client := { v.client with doc := v.client.doc ∪ update } }) ?_ [] nofun
    refine ⟨h.editor, fun data hmem => (h.told data hmem).trans Finset.subset_union_left, h.known, h.connecting,
      h.first, fun hattached hlive item hitem => ?_, fun hsynced hopen => absurd ⟨hsynced, hopen⟩ hsilent⟩
    exact (h.reached hattached hlive item hitem).imp_left fun hin => Finset.mem_union_left _ hin

/-- Another update is here. -/
theorem update (h : v.Spread) {update : Doc} {rest : List ServerMessage}
    (hout : v.socket.outbox = .binary update :: rest) (hsynced : v.client.synced = true) (received : Doc) :
    ({ v with
      received
      socket := { v.socket with outbox := rest }
      client := { v.client with doc := v.client.doc ∪ update } } : View).Spread where
  editor := h.editor
  told data hmem := (h.told data hmem).trans Finset.subset_union_left
  known update' hmem := h.known update' (hout ▸ List.mem_cons_of_mem _ hmem)
  connecting := h.connecting
  first _ _ hunsynced := absurd (hsynced.symm.trans hunsynced) nofun
  reached hattached hlive item hitem := by
    rcases h.reached hattached hlive item hitem with hthere | hbrings
    · exact .inl (Finset.mem_union_left _ hthere)
    · exact (hbrings.pop hout).imp_left fun hin => Finset.mem_union_right _ hin
  sent hsynced hopen item hitem := by
    rcases Finset.mem_union.1 hitem with hitem | hitem
    · exact h.sent hsynced hopen item hitem
    · exact .inl (h.known update (hout ▸ List.mem_cons_self) hitem)

/-- The first frame is here: what the room lacks is on its way to it now. -/
theorem firstFrame (h : v.Spread) {update : Doc} {rest : List ServerMessage}
    (hout : v.socket.outbox = .binary update :: rest) (hopen : v.client.readyState = .opened) (received : Doc) :
    ({ v with received, socket := { v.socket with outbox := rest } }.act
      (Client.onFirstFrame { v.client with doc := v.client.doc ∪ update } update)).Spread := by
  have hupdate : update ⊆ v.doc := h.known update (hout ▸ List.mem_cons_self)
  have hcover := subset_union_encodeStateAsUpdate (v.client.doc ∪ update) update
  have hreached : v.attached = true → v.client.Live → ∀ item ∈ v.doc,
      item ∈ v.client.doc ∪ update ∨ ({ v.socket with outbox := rest } : Socket).Brings item := by
    intro hattached hlive item hitem
    rcases h.reached hattached hlive item hitem with hthere | hbrings
    · exact .inl (Finset.mem_union_left _ hthere)
    · exact (hbrings.pop hout).imp_left fun hin => Finset.mem_union_right _ hin
  have hconnecting : v.client.readyState ≠ .connecting := fun hconnecting => absurd (hopen.symm.trans hconnecting) nofun
  unfold Client.onFirstFrame
  dsimp only
  split
  · refine ⟨h.editor, fun data hmem => ?_, fun update' hmem => ?_, fun hconnecting' => absurd hconnecting' hconnecting,
      nofun, hreached, fun _ _ item hitem => ?_⟩
    · rcases List.mem_append.1 hmem with hmem | hmem
      · exact (h.told data hmem).trans Finset.subset_union_left
      · obtain rfl := ClientMessage.update.inj (List.mem_singleton.1 hmem)
        exact Finset.filter_subset _ _
    · exact h.known update' (hout ▸ List.mem_cons_of_mem _ hmem)
    · rcases Finset.mem_union.1 (hcover hitem) with hitem | hmissing
      · exact .inl (hupdate hitem)
      · exact .inr ⟨_, List.mem_append_right _ (List.mem_singleton_self _), hmissing⟩
  · next hcontent =>
    rw [hasContent_eq_false_iff.1 (Bool.eq_false_iff.2 hcontent), Finset.union_empty] at hcover
    refine ⟨h.editor, fun data hmem => ?_, fun update' hmem => ?_, fun hconnecting' => absurd hconnecting' hconnecting,
      nofun, hreached, fun _ _ item hitem => .inl (hupdate (hcover hitem))⟩
    · have hmem := (List.mem_append.1 hmem).resolve_right List.not_mem_nil
      exact (h.told data hmem).trans Finset.subset_union_left
    · exact h.known update' (hout ▸ List.mem_cons_of_mem _ hmem)

theorem deliver (h : v.Spread) {message : ServerMessage} {rest : List ServerMessage}
    (hout : v.socket.outbox = message :: rest) (hopen : v.client.readyState = .opened) (received : Doc) :
    ({ v with received, socket := { v.socket with outbox := rest } }.act (v.client.onMessage message)).Spread := by
  cases message with
  | binary update =>
    cases hsynced : v.client.synced with
    | true =>
      have hupdate := h.update hout hsynced received
      rw [Client.onMessage_binary_of_synced hsynced]
      exact hupdate.speak [] nofun
    | false =>
      have hfirst := h.firstFrame hout hopen received
      rw [Client.onMessage_binary_of_unsynced hsynced]
      exact hfirst
  | ack =>
    have hpop := h.pop hout nofun received
    cases hsynced : v.client.synced with
    | true =>
      have hsettle := hpop.settle (if 0 < v.client.unacked - 1 then .syncing else .synced) (v.client.unacked - 1)
      rw [Client.onMessage_ack_of_synced hsynced]
      exact hsettle.speak [] nofun
    | false =>
      have hsettle := hpop.settle v.client.status (v.client.unacked - 1)
      rw [Client.onMessage_ack_of_unsynced hsynced]
      exact hsettle.speak [] nofun
  | ping => exact (h.pop hout nofun received).speak [.other] nofun
  | error => exact (h.pop hout nofun received).speak [] nofun
  | other => exact (h.pop hout nofun received).speak [] nofun

/-- A frame of a socket that is closing or gone is dropped. -/
theorem drop (h : v.Spread) {message : ServerMessage} {rest : List ServerMessage}
    (hout : v.socket.outbox = message :: rest) (hlive : ¬v.client.Live) :
    ({ v with socket := { v.socket with outbox := rest } } : View).Spread where
  editor := h.editor
  told := h.told
  known update hmem := h.known update (hout ▸ List.mem_cons_of_mem _ hmem)
  connecting := h.connecting
  first _ hlive' := absurd hlive' hlive
  reached _ hlive' := absurd hlive' hlive
  sent := h.sent

/-- A client whose socket is open and has nothing on its way has what the room has. -/
theorem doc_eq (h : v.Spread) (hattached : v.attached = true) (hopen : v.client.readyState = .opened)
    (hin : v.socket.inbox = []) (hout : v.socket.outbox = []) : v.client.doc = v.doc := by
  have hlive : v.client.Live := .inr hopen
  have hsynced : v.client.synced = true := by
    by_contra hunsynced
    obtain ⟨update, hmem⟩ := h.first hattached hlive (Bool.eq_false_iff.2 hunsynced)
    rw [hout] at hmem
    cases hmem
  refine Finset.Subset.antisymm (fun item hitem => ?_) fun item hitem => ?_
  · refine (h.sent hsynced hopen item hitem).resolve_right ?_
    rintro ⟨data, hmem, -⟩
    rw [hin] at hmem
    cases hmem
  · refine (h.reached hattached hlive item hitem).resolve_right ?_
    rintro ⟨update, hmem, -⟩
    rw [hout] at hmem
    cases hmem

end View.Spread

variable {doc : Doc} {s s' : Site} {e : Event}

theorem Site.spread_step {c : Nat} (h : (s.view c).Spread) (hsound : Sound s e) (hstep : s.step e = some s') :
    (s'.view c).Spread := by
  have hview := Site.step_view hstep c
  generalize s'.view c = v' at hview ⊢
  clear hstep
  cases hview with
  | beside => exact h
  | connect n => exact ⟨nofun, nofun, nofun, fun _ => rfl, nofun, nofun, nofun⟩
  | opened hconnecting =>
    have hunsynced := h.connecting hconnecting
    refine View.Spread.speak (v := { s.view c with client := { (s.view c).client with readyState := .opened } }) ?_
      [.hello, .other] (by simp)
    exact ⟨h.editor, h.told, h.known, nofun, fun hattached _ => h.first hattached (.inl hconnecting),
      fun hattached _ => h.reached hattached (.inl hconnecting), fun hsynced =>
      absurd (hunsynced.symm.trans hsynced) nofun⟩
  | edit update => exact h.edit update
  | say => exact h.speak [.other] (by simp)
  | deliver hout hopen => exact h.deliver hout hopen _
  | closing => exact h.leave rfl (by simp [Client.Live])
  | closed code =>
    unfold Client.onClose
    dsimp only
    split
    · exact h.leave rfl (by simp [Client.Live])
    · split
      · exact h.leave rfl (by simp [Client.Live])
      · exact h.leave rfl (by simp [Client.Live])
  | close =>
    refine h.leave rfl ?_
    unfold Client.close Client.Live
    dsimp only
    split
    · simp
    · simp
  | attach canEdit =>
    obtain rfl : canEdit = true := hsound
    exact h.attach
  | read fails hin hmessage => exact h.read hin hmessage
  | refuse fails hattached hin hrefused =>
    rcases hrefused with hviewer | hfails
    · exact absurd ((h.editor hattached).symm.trans hviewer) nofun
    · exact absurd (hfails.symm.trans hsound) nofun
  | apply fails hattached hin => exact (h.apply hin).say [.ack] (by simp)
  | hear _ update acked => exact h.hear update acked
  | @tell message hattached htext =>
    refine h.say [message] fun update hmem => ?_
    obtain rfl := List.mem_singleton.1 hmem
    cases htext
  | drop hout => exact h.drop hout (hsound rfl)
  | detach => exact ⟨nofun, h.told, h.known, h.connecting, nofun, nofun, h.sent⟩
  | reload => exact hsound.elim

/-- The room has what was acked or broadcast. -/
theorem Site.shared_subset_step (h : s.shared ⊆ s.doc) (hsound : Sound s e) (hstep : s.step e = some s') :
    s'.shared ⊆ s'.doc := by
  unfold step at hstep
  cases e with
  | edit | close =>
    obtain rfl := Option.some.inj hstep
    exact h
  | deliver c =>
    dsimp only at hstep
    split at hstep
    · cases hstep
    · split at hstep
      · obtain rfl := Option.some.inj hstep
        exact h
      · cases hstep
  | closed c code =>
    dsimp only at hstep
    split at hstep
    · cases hstep
    · obtain rfl := Option.some.inj hstep
      exact h
  | handle k fails =>
    dsimp only at hstep
    split at hstep
    · cases hstep
    · next message rest hin =>
      split at hstep
      · obtain rfl := Option.some.inj hstep
        cases message with
        | update data =>
          unfold handleMessage
          dsimp only
          split
          · exact h
          · exact Finset.union_subset_union_left h
        | _ => exact h
      · cases hstep
  | drop k =>
    dsimp only at hstep
    split at hstep
    · cases hstep
    · obtain rfl := Option.some.inj hstep
      exact h
  | replaceText update =>
    obtain rfl := Option.some.inj hstep
    exact Finset.union_subset_union_left h
  | reload doc => exact hsound.elim
  | _ =>
    dsimp only at hstep
    split at hstep
    · obtain rfl := Option.some.inj hstep
      exact h
    · cases hstep

theorem spread_of_reachable (h : (collab doc).ReachableUnder Sound s) (c : Nat) : (s.view c).Spread := by
  refine h.induction (P := fun s => (s.view c).Spread) ?_ fun _ _ _ _ hinv hsound hstep =>
    Site.spread_step hinv hsound hstep
  exact ⟨nofun, nofun, nofun, fun _ => rfl, nofun, nofun, nofun⟩

theorem shared_subset_of_reachable (h : (collab doc).ReachableUnder Sound s) : s.shared ⊆ s.doc :=
  h.induction (P := fun s => s.shared ⊆ s.doc) (Finset.empty_subset _) fun _ _ _ _ hinv hsound hstep =>
    Site.shared_subset_step hinv hsound hstep

/-- No message is on its way between the client and the room. -/
def Site.Quiet (s : Site) (c : Nat) : Prop := (s.socket c).inbox = [] ∧ (s.socket c).outbox = []

/-- The client's socket is open and in the room. -/
def Site.Connected (s : Site) (c : Nat) : Prop := (c, s.ws c) ∈ s.connections ∧ (s.clients c).readyState = .opened

/-- **Editors converge**: whatever they did, and in whatever order it was handled, a connected client with no message
on its way has what the room has, and this is all that was ever acked or broadcast. -/
theorem editors_converge (h : (collab doc).ReachableUnder Sound s) {c : Nat} (hconnected : s.Connected c)
    (hquiet : s.Quiet c) : (s.clients c).doc = s.doc ∧ s.shared ⊆ (s.clients c).doc := by
  obtain ⟨hattached, hopen⟩ := hconnected
  obtain ⟨hin, hout⟩ := hquiet
  have hdoc : (s.clients c).doc = s.doc :=
    (spread_of_reachable h c).doc_eq (decide_eq_true hattached) hopen hin hout
  exact ⟨hdoc, hdoc ▸ shared_subset_of_reachable h⟩

/-- Two clients in a file. The first types, loses its connection before this is handled, types again and comes back,
while the second types and the file is restored. -/
def comeBack : List Event :=
  [.connect 0 0, .opened 0, .attach (0, 0) true, .deliver 0, .connect 1 0, .opened 1, .attach (1, 0) true, .deliver 1,
    .handle (0, 0) false, .handle (0, 0) false, .handle (1, 0) false, .handle (1, 0) false,
    .edit 0 {.inserted 7 0}, .closing 0, .edit 1 {.inserted 8 0}, .handle (1, 0) false, .closed 0 1006, .drop (0, 0),
    .detach (0, 0), .edit 0 {.inserted 7 1}, .connect 0 1, .attach (0, 1) true, .replaceText {.deleted 8 0}, .opened 0,
    .deliver 0, .deliver 0, .handle (0, 1) false, .handle (0, 1) false, .handle (0, 1) false, .deliver 0, .deliver 1,
    .deliver 1, .deliver 1]

theorem editors_converge_comeBack : ∃ s, (collab ∅).ReachableUnder Sound s ∧ s.Connected 0 ∧ s.Connected 1 ∧
    (s.clients 0).doc = s.doc ∧ (s.clients 1).doc = s.doc ∧ s.doc.card = 4 := by
  have hend : ((collab ∅).replay Sound (collab ∅).init comeBack).any
      (fun s => (0, s.ws 0) ∈ s.connections ∧ (s.clients 0).readyState = .opened ∧ (s.socket 0).inbox = [] ∧
        (s.socket 0).outbox = [] ∧ (1, s.ws 1) ∈ s.connections ∧ (s.clients 1).readyState = .opened ∧
        (s.socket 1).inbox = [] ∧ (s.socket 1).outbox = [] ∧ s.doc.card = 4) = true := by
    decide
  obtain ⟨s, hs, hp⟩ := System.exists_reachable hend
  obtain ⟨hroom, hopen, hin, hout, hroom', hopen', hin', hout', hcard⟩ := of_decide_eq_true hp
  exact ⟨s, hs, ⟨hroom, hopen⟩, ⟨hroom', hopen'⟩, (editors_converge hs ⟨hroom, hopen⟩ ⟨hin, hout⟩).1,
    (editors_converge hs ⟨hroom', hopen'⟩ ⟨hin', hout'⟩).1, hcard⟩

end Concord.Collab
