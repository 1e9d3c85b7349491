import Concord.Base.System
import Concord.Frontend.CollabClient

/-!
# Editors and the gateway of a file

Any number of clients of one room: they connect, edit, drop and connect again, each time with a new socket, while
the gateway attaches the sockets, handles what they send and passes it on (`collab_socket`, `attach`, `broadcast`
and `replace_text`). A message stays in the inbox of its socket until its update is applied under the lock of the
room, and in the outbox until it is with the client, so the handlers may take turns in any order.

Edits, first frames and updates that were acked or broadcast are kept besides, to say what comes of them.
-/

namespace Concord.Collab

open Concord.Base

/-- A client, and which of its sockets. -/
abbrev SocketId := Nat × Nat

structure Socket where
  /-- The gateway has accepted it, and has yet to attach it. -/
  accepted : Bool := false
  /-- `_role_rank(member.role) >= 1`. -/
  canEdit : Bool := false
  inbox : List ClientMessage := []
  outbox : List ServerMessage := []
deriving DecidableEq

/-- `Connection.send`. -/
def Socket.send (socket : Socket) (message : ServerMessage) : Socket :=
  { socket with outbox := socket.outbox ++ [message] }

/-- `ws.send`, by the client. -/
def Socket.receive (socket : Socket) (messages : List ClientMessage) : Socket :=
  { socket with inbox := socket.inbox ++ messages }

structure Site where
  /-- `room.doc`. -/
  doc : Doc
  /-- `room.connections`. -/
  connections : Finset SocketId := ∅
  sockets : SocketId → Socket := fun _ => {}
  clients : Nat → Client := fun _ => {}
  /-- The client's last socket. -/
  ws : Nat → Nat := fun _ => 0
  /-- What a client has typed. -/
  edits : Nat → Doc := fun _ => ∅
  /-- The first frame of a client's socket. -/
  received : Nat → Doc := fun _ => ∅
  /-- What was applied and acked of a client. -/
  acked : Nat → Doc := fun _ => ∅
  /-- What was acked or broadcast. -/
  shared : Doc := ∅

inductive Event
  /-- `connect`, by `connectCollab` or by the timer, makes a new socket. -/
  | connect (c n : Nat)
  | opened (c : Nat)
  | edit (c : Nat) (update : Doc)
  /-- A cursor or a ping. -/
  | say (c : Nat)
  /-- The next frame reaches the client. -/
  | deliver (c : Nat)
  /-- The socket starts to close, from either side. -/
  | closing (c : Nat)
  | closed (c code : Nat)
  | close (c : Nat)
  | attach (k : SocketId) (canEdit : Bool)
  /-- The gateway is through with the next message; `fails` if the update cannot be decoded or applied. -/
  | handle (k : SocketId) (fails : Bool)
  /-- A frame that is neither an update nor an ack. -/
  | tell (k : SocketId) (message : ServerMessage)
  /-- A frame is dropped, as its send times out or fails. -/
  | drop (k : SocketId)
  | detach (k : SocketId)
  | replaceText (update : Doc)
  /-- The room is evicted, and opened again with the latest version. -/
  | reload (doc : Doc)

def ServerMessage.isText : ServerMessage → Bool
  | error | ping | other => true
  | binary _ | ack => false

namespace Site

variable (s : Site)

/-- The client's last socket. -/
def socket (c : Nat) : Socket := s.sockets (c, s.ws c)

def setClient (c : Nat) (client : Client) : Site := { s with clients := Function.update s.clients c client }

def setSocket (k : SocketId) (socket : Socket) : Site := { s with sockets := Function.update s.sockets k socket }

/-- A client goes on, and sends something. -/
def act (c : Nat) (next : Client × List ClientMessage) : Site :=
  (s.setClient c next.1).setSocket (c, s.ws c) ((s.socket c).receive next.2)

/-- `broadcast`. -/
def broadcast (update : Doc) (exclude : Option SocketId) : Site :=
  { s with
    sockets := fun k =>
      if k ∈ s.connections ∧ exclude ≠ some k then (s.sockets k).send (.binary update) else s.sockets k
    shared := s.shared ∪ update }

/-- The update of a client is applied, broadcast and acked. -/
def applyUpdate (k : SocketId) (update : Doc) : Site :=
  let s := ({ s with doc := s.doc ∪ update } : Site).broadcast update (some k)
  let s := s.setSocket k ((s.sockets k).send .ack)
  { s with acked := Function.update s.acked k.1 (s.acked k.1 ∪ update) }

/-- What the gateway does with a message, once it is out of the inbox. -/
def handleMessage (k : SocketId) (fails : Bool) : ClientMessage → Site
  | .update data =>
    if (s.sockets k).canEdit = false ∨ fails = true then s.setSocket k ((s.sockets k).send .error)
    else s.applyUpdate k data
  | .hello | .other => s

/-- A frame is with the client. -/
def deliverMessage (c : Nat) (message : ServerMessage) (rest : List ServerMessage) : Site :=
  let first : Doc := match message with
    | .binary update => if (s.clients c).synced then s.received c else update
    | _ => s.received c
  (({ s with received := Function.update s.received c first } : Site).setSocket (c, s.ws c)
    { s.socket c with outbox := rest }).act c ((s.clients c).onMessage message)

def step : Event → Option Site
  | .connect c n =>
    if (s.clients c).retryTimer ∧ (c, n) ∉ s.connections ∧ s.sockets (c, n) = {} then
      some ((({ s with ws := Function.update s.ws c n } : Site).setClient c (s.clients c).connect).setSocket (c, n)
        { accepted := true })
    else none
  | .opened c => if (s.clients c).readyState = .connecting then some (s.act c (s.clients c).onOpen) else none
  | .edit c update =>
    some (({ s with edits := Function.update s.edits c (s.edits c ∪ update) } : Site).act c
      ((s.clients c).onUpdate update))
  | .say c => if (s.clients c).readyState = .opened then some (s.act c (s.clients c, [.other])) else none
  | .deliver c =>
    match (s.socket c).outbox with
    | [] => none
    | message :: rest => if (s.clients c).readyState = .opened then some (s.deliverMessage c message rest) else none
  | .closing c =>
    if (s.clients c).readyState = .connecting ∨ (s.clients c).readyState = .opened then
      some (s.setClient c { s.clients c with readyState := .closing })
    else none
  | .closed c code =>
    if (s.clients c).readyState = .closed then none else some (s.setClient c ((s.clients c).onClose code))
  | .close c => some (s.setClient c (s.clients c).close)
  | .attach k canEdit =>
    if (s.sockets k).accepted then
      some ({ s with connections := insert k s.connections }.setSocket k
        { (s.sockets k).send (.binary s.doc) with accepted := false, canEdit })
    else none
  | .handle k fails =>
    match (s.sockets k).inbox with
    | [] => none
    | message :: rest =>
      if k ∈ s.connections then some ((s.setSocket k { s.sockets k with inbox := rest }).handleMessage k fails message)
      else none
  | .tell k message =>
    if k ∈ s.connections ∧ message.isText then some (s.setSocket k ((s.sockets k).send message)) else none
  | .drop k =>
    match (s.sockets k).outbox with
    | [] => none
    | _ :: rest => some (s.setSocket k { s.sockets k with outbox := rest })
  | .detach k => if k ∈ s.connections then some { s with connections := s.connections.erase k } else none
  | .replaceText update => some (({ s with doc := s.doc ∪ update } : Site).broadcast update none)
  | .reload doc => if s.connections = ∅ then some { s with doc } else none

end Site

/-- The clients of a room that is opened with a document. -/
def collab (doc : Doc) : System Site Event where
  init := { doc }
  step := Site.step

/-! ## What a step is to one client -/

/-- A client with its last socket, and what there is of it in the room. -/
structure View where
  doc : Doc
  ws : Nat
  attached : Bool
  client : Client
  socket : Socket
  edits : Doc
  received : Doc
  acked : Doc

def Site.view (s : Site) (c : Nat) : View where
  doc := s.doc
  ws := s.ws c
  attached := (c, s.ws c) ∈ s.connections
  client := s.clients c
  socket := s.socket c
  edits := s.edits c
  received := s.received c
  acked := s.acked c

namespace View

/-- The client goes on, and sends something. -/
def act (v : View) (next : Client × List ClientMessage) : View :=
  { v with client := next.1, socket := v.socket.receive next.2 }

/-- The first frame, if it is not there yet and the message is one. -/
def first (v : View) : ServerMessage → Doc
  | .binary update => if v.client.synced then v.received else update
  | _ => v.received

theorem first_of_synced {v : View} (h : v.client.synced = true) (message : ServerMessage) :
    v.first message = v.received := by
  cases message with
  | binary update => exact if_pos h
  | _ => rfl

theorem first_of_unsynced {v : View} (h : v.client.synced = false) (update : Doc) :
    v.first (.binary update) = update := if_neg (by simp [h])

/-- What a step of the site is to the client `c`. -/
inductive Step (c : Nat) (v : View) : Event → View → Prop
  | beside (e : Event) : Step c v e v
  | connect (n : Nat) (h : v.client.retryTimer = true) :
    Step c v (.connect c n) { v with
      ws := n
      attached := false
      client := v.client.connect
      socket := { accepted := true } }
  | opened (h : v.client.readyState = .connecting) : Step c v (.opened c) (v.act v.client.onOpen)
  | edit (update : Doc) :
    Step c v (.edit c update) ({ v with edits := v.edits ∪ update }.act (v.client.onUpdate update))
  | say (h : v.client.readyState = .opened) : Step c v (.say c) (v.act (v.client, [.other]))
  | deliver {message : ServerMessage} {rest : List ServerMessage} (hout : v.socket.outbox = message :: rest)
    (hopen : v.client.readyState = .opened) :
    Step c v (.deliver c) ({ v with received := v.first message, socket := { v.socket with outbox := rest } }.act
      (v.client.onMessage message))
  | closing (h : v.client.readyState ≠ .closed) :
    Step c v (.closing c) { v with client := { v.client with readyState := .closing } }
  | closed (code : Nat) : Step c v (.closed c code) { v with client := v.client.onClose code }
  | close : Step c v (.close c) { v with client := v.client.close }
  | attach (canEdit : Bool) (h : v.socket.accepted = true) :
    Step c v (.attach (c, v.ws) canEdit) { v with
      attached := true
      socket := { v.socket.send (.binary v.doc) with accepted := false, canEdit } }
  /-- A message that is no update. -/
  | read (fails : Bool) {message : ClientMessage} {rest : List ClientMessage}
    (hin : v.socket.inbox = message :: rest) (hmessage : ∀ data, message ≠ .update data) :
    Step c v (.handle (c, v.ws) fails) { v with socket := { v.socket with inbox := rest } }
  | refuse (fails : Bool) {data : Doc} {rest : List ClientMessage} (hattached : v.attached = true)
    (hin : v.socket.inbox = .update data :: rest) (hrefused : v.socket.canEdit = false ∨ fails = true) :
    Step c v (.handle (c, v.ws) fails) { v with socket := { v.socket with inbox := rest }.send .error }
  | apply (fails : Bool) {data : Doc} {rest : List ClientMessage} (hattached : v.attached = true)
    (hin : v.socket.inbox = .update data :: rest) (hcanEdit : v.socket.canEdit = true) :
    Step c v (.handle (c, v.ws) fails) { v with
      doc := v.doc ∪ data
      socket := { v.socket with inbox := rest }.send .ack
      acked := v.acked ∪ data }
  /-- Somebody else's update, or one that came by an earlier socket. -/
  | hear (e : Event) (update acked : Doc) (hacked : v.acked ⊆ acked) :
    Step c v e { v with
      doc := v.doc ∪ update
      socket := if v.attached then v.socket.send (.binary update) else v.socket
      acked }
  | tell {message : ServerMessage} (hattached : v.attached = true) (h : message.isText = true) :
    Step c v (.tell (c, v.ws) message) { v with socket := v.socket.send message }
  | drop {message : ServerMessage} {rest : List ServerMessage} (hout : v.socket.outbox = message :: rest) :
    Step c v (.drop (c, v.ws)) { v with socket := { v.socket with outbox := rest } }
  | detach : Step c v (.detach (c, v.ws)) { v with attached := false }
  | reload (doc : Doc) : Step c v (.reload doc) { v with doc }

end View

namespace Site

variable {s s' : Site} {c c' : Nat} {k : SocketId} {e : Event}

theorem view_setClient (s : Site) (c : Nat) (client : Client) :
    (s.setClient c client).view c = { s.view c with client } := by
  unfold view setClient socket
  dsimp only
  rw [Function.update_self]

theorem view_setClient_of_ne (s : Site) (client : Client) (hne : c' ≠ c) :
    (s.setClient c client).view c' = s.view c' := by
  unfold view setClient socket
  dsimp only
  rw [Function.update_of_ne hne]

theorem view_setSocket (s : Site) (c : Nat) (socket : Socket) :
    (s.setSocket (c, s.ws c) socket).view c = { s.view c with socket } := by
  unfold view setSocket Site.socket
  dsimp only
  rw [Function.update_self]

theorem view_setSocket_of_ne (s : Site) (socket : Socket) (hne : (c, s.ws c) ≠ k) :
    (s.setSocket k socket).view c = s.view c := by
  unfold view setSocket Site.socket
  dsimp only
  rw [Function.update_of_ne hne]

theorem view_act (s : Site) (c : Nat) (next : Client × List ClientMessage) :
    (s.act c next).view c = (s.view c).act next := by
  have hws : (s.setClient c next.1).ws c = s.ws c := rfl
  rw [act, ← hws, view_setSocket, view_setClient]
  rfl

theorem view_act_of_ne (s : Site) (next : Client × List ClientMessage) (hne : c' ≠ c) :
    (s.act c next).view c' = s.view c' := by
  rw [act, view_setSocket_of_ne, view_setClient_of_ne s next.1 hne]
  exact fun h => hne (congrArg Prod.fst h)

/-- A change of a socket that is not the client's last one is nothing to it. -/
theorem step_setSocket {socket : Socket} (h : k = (c, s.ws c) → View.Step c (s.view c) e { s.view c with socket }) :
    View.Step c (s.view c) e ((s.setSocket k socket).view c) := by
  by_cases hk : k = (c, s.ws c)
  · rw [hk, view_setSocket]
    exact h hk
  · rw [view_setSocket_of_ne s socket (Ne.symm hk)]
    exact .beside e

theorem step_setClient {client : Client} (h : c = c' → View.Step c (s.view c) e { s.view c with client }) :
    View.Step c (s.view c) e ((s.setClient c' client).view c) := by
  by_cases hc : c = c'
  · subst hc
    rw [view_setClient]
    exact h rfl
  · rw [view_setClient_of_ne s client hc]
    exact .beside e

theorem view_broadcast (s : Site) (doc update : Doc) (exclude : Option SocketId) (c : Nat) :
    (({ s with doc } : Site).broadcast update exclude).view c = { s.view c with
      doc
      socket :=
        if (s.view c).attached ∧ exclude ≠ some (c, s.ws c) then (s.socket c).send (.binary update)
        else s.socket c } := by
  unfold view broadcast socket
  simp

theorem view_applyUpdate (update : Doc) (hk : k = (c, s.ws c)) : (s.applyUpdate k update).view c =
    { s.view c with
      doc := (s.view c).doc ∪ update
      socket := (s.view c).socket.send .ack
      acked := (s.view c).acked ∪ update } := by
  subst hk
  unfold applyUpdate view broadcast setSocket socket
  simp

theorem view_applyUpdate_of_ne (update : Doc) (hk : k ≠ (c, s.ws c)) : (s.applyUpdate k update).view c =
    { s.view c with
      doc := (s.view c).doc ∪ update
      socket := if (s.view c).attached then (s.view c).socket.send (.binary update) else (s.view c).socket
      acked := if c = k.1 then s.acked k.1 ∪ update else (s.view c).acked } := by
  unfold applyUpdate view broadcast setSocket socket
  simp [hk, Ne.symm hk, Function.update_apply]

theorem view_deliverMessage (s : Site) (c : Nat) (message : ServerMessage) (rest : List ServerMessage) :
    (s.deliverMessage c message rest).view c =
      { s.view c with
        received := (s.view c).first message
        socket := { (s.view c).socket with outbox := rest } }.act ((s.view c).client.onMessage message) := by
  unfold deliverMessage
  rw [view_act]
  unfold view setSocket socket View.first
  cases message <;> simp

theorem view_deliverMessage_of_ne (s : Site) (message : ServerMessage) (rest : List ServerMessage) (hne : c ≠ c') :
    (s.deliverMessage c' message rest).view c = s.view c := by
  unfold deliverMessage
  rw [view_act_of_ne _ _ hne]
  unfold view setSocket socket
  simp [hne]

/-- What the gateway does with a message. -/
theorem step_handle {fails : Bool} {message : ClientMessage} {rest : List ClientMessage}
    (hin : (s.sockets k).inbox = message :: rest) (hattached : k ∈ s.connections) :
    View.Step c (s.view c) (.handle k fails)
      (((s.setSocket k { s.sockets k with inbox := rest }).handleMessage k fails message).view c) := by
  have hread : (∀ data, message ≠ .update data) → View.Step c (s.view c) (.handle k fails)
      ((s.setSocket k { s.sockets k with inbox := rest }).view c) := by
    intro hmessage
    refine step_setSocket fun hk => ?_
    subst hk
    exact .read fails hin hmessage
  cases message with
  | hello => exact hread fun _ => nofun
  | other => exact hread fun _ => nofun
  | update data =>
    have hself : (s.setSocket k { s.sockets k with inbox := rest }).sockets k = { s.sockets k with inbox := rest } :=
      Function.update_self _ _ _
    unfold handleMessage
    dsimp only
    rw [hself]
    split
    · next hrefused =>
      have htwice : (s.setSocket k { s.sockets k with inbox := rest }).setSocket k
          (Socket.send { s.sockets k with inbox := rest } .error) =
            s.setSocket k (Socket.send { s.sockets k with inbox := rest } .error) := by
        unfold setSocket
        dsimp only
        rw [Function.update_idem]
      rw [htwice]
      refine step_setSocket fun hk => ?_
      subst hk
      exact .refuse fails (decide_eq_true hattached) hin hrefused
    · next hrefused =>
      by_cases hk : k = (c, s.ws c)
      · rw [view_applyUpdate (s := s.setSocket k _) data hk]
        subst hk
        rw [view_setSocket]
        have hcanEdit : (s.socket c).canEdit = true :=
          Bool.not_eq_false _ ▸ fun hcanEdit => hrefused (.inl hcanEdit)
        exact .apply fails (decide_eq_true hattached) hin hcanEdit
      · rw [view_applyUpdate_of_ne (s := s.setSocket k _) data hk, view_setSocket_of_ne s _ (Ne.symm hk)]
        refine .hear _ data _ ?_
        split
        · next hc =>
          subst hc
          exact Finset.subset_union_left
        · exact Finset.Subset.refl _

theorem step_view (h : s.step e = some s') (c : Nat) : View.Step c (s.view c) e (s'.view c) := by
  unfold step at h
  cases e with
  | connect c' n =>
    dsimp only at h
    split at h
    · next hnew =>
      obtain rfl := Option.some.inj h
      obtain ⟨hretry, hconnections, -⟩ := hnew
      by_cases hc : c = c'
      · subst hc
        have hview : ((({ s with ws := Function.update s.ws c n } : Site).setClient c (s.clients c).connect).setSocket
            (c, n) { accepted := true }).view c = { s.view c with
              ws := n, attached := false, client := (s.clients c).connect, socket := { accepted := true } } := by
          unfold view setSocket setClient socket
          simp [hconnections]
        rw [hview]
        exact .connect n hretry
      · have hview : ((({ s with ws := Function.update s.ws c' n } : Site).setClient c' (s.clients c').connect).setSocket
            (c', n) { accepted := true }).view c = s.view c := by
          unfold view setSocket setClient socket
          simp [hc]
        rw [hview]
        exact .beside _
    · cases h
  | opened c' =>
    dsimp only at h
    split at h
    · next hconnecting =>
      obtain rfl := Option.some.inj h
      by_cases hc : c = c'
      · subst hc
        rw [view_act]
        exact .opened hconnecting
      · rw [view_act_of_ne s _ hc]
        exact .beside _
    · cases h
  | edit c' update =>
    obtain rfl := Option.some.inj h
    by_cases hc : c = c'
    · subst hc
      rw [view_act]
      have hview : ({ s with edits := Function.update s.edits c (s.edits c ∪ update) } : Site).view c =
          { s.view c with edits := s.edits c ∪ update } := by
        unfold view
        simp [socket]
      rw [hview]
      exact .edit update
    · rw [view_act_of_ne _ _ hc]
      have hview : ({ s with edits := Function.update s.edits c' (s.edits c' ∪ update) } : Site).view c = s.view c := by
        unfold view
        simp [socket, hc]
      rw [hview]
      exact .beside _
  | say c' =>
    dsimp only at h
    split at h
    · next hopen =>
      obtain rfl := Option.some.inj h
      by_cases hc : c = c'
      · subst hc
        rw [view_act]
        exact .say hopen
      · rw [view_act_of_ne s _ hc]
        exact .beside _
    · cases h
  | deliver c' =>
    dsimp only at h
    split at h
    · cases h
    · next message rest hout =>
      split at h
      · next hopen =>
        obtain rfl := Option.some.inj h
        by_cases hc : c = c'
        · subst hc
          rw [view_deliverMessage]
          exact .deliver hout hopen
        · rw [view_deliverMessage_of_ne s message rest hc]
          exact .beside _
      · cases h
  | closing c' =>
    dsimp only at h
    split at h
    · next hlive =>
      obtain rfl := Option.some.inj h
      refine step_setClient fun hc => ?_
      subst hc
      refine .closing fun hclosed => ?_
      have hclosed : (s.clients c).readyState = .closed := hclosed
      rw [hclosed] at hlive
      exact hlive.elim nofun nofun
    · cases h
  | closed c' code =>
    dsimp only at h
    split at h
    · cases h
    · obtain rfl := Option.some.inj h
      refine step_setClient fun hc => ?_
      subst hc
      exact .closed code
  | close c' =>
    obtain rfl := Option.some.inj h
    refine step_setClient fun hc => ?_
    subst hc
    exact .close
  | attach k canEdit =>
    dsimp only at h
    split at h
    · next haccepted =>
      obtain rfl := Option.some.inj h
      by_cases hk : k = (c, s.ws c)
      · subst hk
        have hview : ({ s with connections := insert (c, s.ws c) s.connections } : Site).view c =
            { s.view c with attached := true } := by
          unfold view
          simp [socket]
        rw [view_setSocket, hview]
        exact .attach canEdit haccepted
      · have hview : ({ s with connections := insert k s.connections } : Site).view c = s.view c := by
          unfold view
          simp [socket, Ne.symm hk]
        rw [view_setSocket_of_ne (s := { s with connections := insert k s.connections }) _ (Ne.symm hk), hview]
        exact .beside _
    · cases h
  | handle k fails =>
    dsimp only at h
    split at h
    · cases h
    · next message rest hin =>
      split at h
      · next hattached =>
        obtain rfl := Option.some.inj h
        exact step_handle hin hattached
      · cases h
  | tell k message =>
    dsimp only at h
    split at h
    · next htell =>
      obtain rfl := Option.some.inj h
      refine step_setSocket fun hk => ?_
      subst hk
      exact .tell (decide_eq_true htell.1) htell.2
    · cases h
  | drop k =>
    dsimp only at h
    split at h
    · cases h
    · next message rest hout =>
      obtain rfl := Option.some.inj h
      refine step_setSocket fun hk => ?_
      subst hk
      exact .drop hout
  | detach k =>
    dsimp only at h
    split at h
    · obtain rfl := Option.some.inj h
      by_cases hk : k = (c, s.ws c)
      · subst hk
        have hview : ({ s with connections := s.connections.erase (c, s.ws c) } : Site).view c =
            { s.view c with attached := false } := by
          unfold view
          simp [socket]
        rw [hview]
        exact .detach
      · have hview : ({ s with connections := s.connections.erase k } : Site).view c = s.view c := by
          unfold view
          simp [socket, Ne.symm hk]
        rw [hview]
        exact .beside _
    · cases h
  | replaceText update =>
    obtain rfl := Option.some.inj h
    rw [view_broadcast]
    simp only [ne_eq, reduceCtorEq, not_false_eq_true, and_true]
    exact .hear _ update _ (Finset.Subset.refl _)
  | reload doc =>
    dsimp only at h
    split at h
    · obtain rfl := Option.some.inj h
      exact .reload doc
    · cases h

end Site

end Concord.Collab
