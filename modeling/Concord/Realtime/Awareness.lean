import Concord.Base.Json
import Concord.Base.System
import Concord.Models

/-!
# Cursors in a file

`RoomAwareness` of `realtime/awareness.py`: the cursors shown in one file, keyed by Yjs client id.
A socket announces its cursors as the user it is logged in as (`collab_socket` in
`realtime/gateway.py`), and announces their removal when it is gone.
-/

namespace Concord

open Concord.Base

abbrev ClientId := Nat

/-- `AwarenessEntry`; a client that is gone has no state. -/
structure AwarenessEntry (F : Type) where
  clientId : ClientId
  clock : Nat
  state : Option (JsonObject F)

/-- `MAX_CLIENTS_PER_CONNECTION`. -/
def maxClientsPerConnection : Nat := 4

/-- Who a socket is logged in as. -/
structure Login where
  userId : UserId
  username : String
deriving DecidableEq, Repr

/-- `_PASSTHROUGH`: what y-monaco and the editor put in the state besides who the user is. -/
def passthrough : List Str := [Str.ofString "selection", Str.ofString "cursor"]

def isHexDigit (c : CodePoint) : Bool :=
  48 ≤ c.val && c.val ≤ 57 || 97 ≤ c.val && c.val ≤ 102 || 65 ≤ c.val && c.val ≤ 70

/-- `_COLOR.match(color)`; its `$` also matches before a newline at the end. -/
def matchesColor (color : Str) : Bool :=
  match color with
  | hash :: rest =>
    hash == CodePoint.ofChar '#' && (rest.take 6).length == 6 && (rest.take 6).all isHexDigit &&
      (rest.drop 6 == [] || rest.drop 6 == Str.ofString "\n")
  | [] => false

section CleanState

variable {F : Type} (state : JsonObject F)

/-- `if key in state: clean[key] = state[key]`. -/
def copyField (clean : JsonObject F) (key : Str) : JsonObject F :=
  match state.get? key with
  | some value => clean.set key value
  | none => clean

/-- `_clean_state`: who this cursor belongs to comes from the login, never from the client. -/
def cleanState (login : Login) : JsonObject F :=
  let identity := ((∅ : JsonObject F).set (Str.ofString "user_id") (.int login.userId)).set
    (Str.ofString "username") (.str (Str.ofString login.username))
  let colored := match state.get? (Str.ofString "color") with
    | some (.str color) =>
      if matchesColor color then identity.set (Str.ofString "color") (.str color) else identity
    | _ => identity
  passthrough.foldl (copyField state) colored

end CleanState

/-- `_Peer`. -/
structure Peer (W F : Type) where
  clock : Nat
  state : JsonObject F
  ws : W
  userId : UserId

/-- `RoomAwareness`, with sockets named by `W`. -/
structure RoomAwareness (W F : Type) where
  peers : Dict ClientId (Peer W F) := ∅

namespace RoomAwareness

variable {W F : Type} [DecidableEq W] (ws : W)

/-- How many entries a socket owns. -/
def owns (peers : Dict ClientId (Peer W F)) : Nat :=
  peers.items.countP fun item => item.2.ws = ws

/-- The variables of the loop in `accept`. -/
structure Accepting (W F : Type) where
  peers : Dict ClientId (Peer W F)
  /-- The code's count of what the socket owns. -/
  owned : Int
  accepted : List (AwarenessEntry F) := []

/-- The body of the loop in `accept`. -/
def acceptEntry (login : Login) (s : Accepting W F) (entry : AwarenessEntry F) : Accepting W F :=
  match s.peers.get? entry.clientId, entry.state with
  | some peer, state =>
    if peer.userId ≠ login.userId then s -- another user's cursor: not ours to move or erase
    else if entry.clock < peer.clock then s -- an older announcement arriving late
    else match state with
      | none =>
        { peers := s.peers.erase entry.clientId
          owned := if peer.ws = ws then s.owned - 1 else s.owned
          accepted := s.accepted ++ [{ entry with state := none }] }
      | some state =>
        -- a second tab or a reconnect of the same user takes the cursor over
        let clean := cleanState state login
        { s with
          peers := s.peers.set entry.clientId ⟨entry.clock, clean, ws, login.userId⟩
          accepted := s.accepted ++ [{ entry with state := some clean }] }
  | none, none => s
  | none, some state =>
    if s.owned ≥ maxClientsPerConnection then s
    else
      let clean := cleanState state login
      { peers := s.peers.set entry.clientId ⟨entry.clock, clean, ws, login.userId⟩
        owned := s.owned + 1
        accepted := s.accepted ++ [{ entry with state := some clean }] }

variable (room : RoomAwareness W F)

/-- The loop of `accept`, from the room's entries. -/
def accepting (login : Login) (entries : List (AwarenessEntry F)) : Accepting W F :=
  entries.foldl (acceptEntry ws login) { peers := room.peers, owned := owns ws room.peers }

/-- `accept`: records what `ws` announced and returns what is safe to relay to the others. -/
def accept (login : Login) (entries : List (AwarenessEntry F)) :
    List (AwarenessEntry F) × RoomAwareness W F :=
  let s := accepting ws room login entries
  (s.accepted, { peers := s.peers })

/-- `snapshot`: every cursor in the file, to bring a newcomer up to date. -/
def snapshot (exclude : Option W) : List (AwarenessEntry F) :=
  (room.peers.items.filter fun item => exclude ≠ some item.2.ws).map fun item =>
    ⟨item.1, item.2.clock, some item.2.state⟩

/-- The loop of `drop`, over a copy of the items. -/
def dropItems : List (ClientId × Peer W F) → Dict ClientId (Peer W F) →
    List (AwarenessEntry F) × Dict ClientId (Peer W F)
  | [], peers => ([], peers)
  | (clientId, peer) :: rest, peers =>
    if peer.ws = ws then
      let (gone, peers) := dropItems rest (peers.erase clientId)
      (⟨clientId, peer.clock + 1, none⟩ :: gone, peers)
    else dropItems rest peers

/-- `drop`: forgets everything `ws` owned; the result tells the others it is gone. -/
def drop : List (AwarenessEntry F) × RoomAwareness W F :=
  let (gone, peers) := dropItems ws room.peers.items room.peers
  (gone, { peers })

end RoomAwareness

/-- What a socket makes the room do. -/
inductive CursorCall (W F : Type)
  | accept (ws : W) (entries : List (AwarenessEntry F))
  | drop (ws : W)

namespace CursorCall

variable {W F : Type} [DecidableEq W] (logins : W → Login) (room : RoomAwareness W F)

/-- The socket of a call. -/
def socket : CursorCall W F → W
  | accept ws _ | drop ws => ws

/-- What a call relays to the others, and the room after it. -/
def run : CursorCall W F → List (AwarenessEntry F) × RoomAwareness W F
  | accept ws entries => room.accept ws (logins ws) entries
  | drop ws => room.drop ws

end CursorCall

/-- The cursors of a file, over the calls its sockets make. -/
def cursors {W F : Type} [DecidableEq W] (logins : W → Login) :
    System (RoomAwareness W F) (CursorCall W F) where
  init := {}
  step room call := some (call.run logins room).2

namespace RoomAwareness

variable {W F : Type} [DecidableEq W] {ws : W} {login : Login}

/-! ## One entry -/

/-- What the loop of `accept` does with an entry. -/
inductive EntryStep (ws : W) (login : Login) (s : Accepting W F) (entry : AwarenessEntry F) :
    Accepting W F → Prop
  | ignored : EntryStep ws login s entry s
  | removed (peer : Peer W F) (hget : s.peers.get? entry.clientId = some peer)
      (huser : peer.userId = login.userId) (hclock : peer.clock ≤ entry.clock)
      (hstate : entry.state = none) :
      EntryStep ws login s entry
        { peers := s.peers.erase entry.clientId
          owned := if peer.ws = ws then s.owned - 1 else s.owned
          accepted := s.accepted ++ [⟨entry.clientId, entry.clock, none⟩] }
  | moved (peer : Peer W F) (state : JsonObject F) (hget : s.peers.get? entry.clientId = some peer)
      (huser : peer.userId = login.userId) (hclock : peer.clock ≤ entry.clock)
      (hstate : entry.state = some state) :
      EntryStep ws login s entry
        { peers := s.peers.set entry.clientId
            ⟨entry.clock, cleanState state login, ws, login.userId⟩
          owned := s.owned
          accepted := s.accepted ++
            [⟨entry.clientId, entry.clock, some (cleanState state login)⟩] }
  | added (state : JsonObject F) (hget : s.peers.get? entry.clientId = none)
      (howned : s.owned < maxClientsPerConnection) (hstate : entry.state = some state) :
      EntryStep ws login s entry
        { peers := s.peers.set entry.clientId
            ⟨entry.clock, cleanState state login, ws, login.userId⟩
          owned := s.owned + 1
          accepted := s.accepted ++
            [⟨entry.clientId, entry.clock, some (cleanState state login)⟩] }

theorem entryStep (s : Accepting W F) (entry : AwarenessEntry F) :
    EntryStep ws login s entry (acceptEntry ws login s entry) := by
  obtain ⟨clientId, clock, state⟩ := entry
  cases hget : s.peers.get? clientId with
  | none =>
    cases state with
    | none =>
      rw [acceptEntry, hget]
      exact .ignored
    | some state =>
      simp only [acceptEntry, hget]
      split
      · exact .ignored
      · next howned => exact .added state hget (by omega) rfl
  | some peer =>
    simp only [acceptEntry, hget]
    split
    · exact .ignored
    · next huser =>
      split
      · exact .ignored
      · next hclock =>
        cases state with
        | none => exact .removed peer hget (not_not.1 huser) (not_lt.1 hclock) rfl
        | some state => exact .moved peer state hget (not_not.1 huser) (not_lt.1 hclock) rfl

/-- What the first state of the loop has and every entry keeps, its last state has. -/
theorem accepting_induction {P : Accepting W F → Prop} {room : RoomAwareness W F}
    {entries : List (AwarenessEntry F)}
    (h0 : P { peers := room.peers, owned := owns ws room.peers })
    (hstep : ∀ s entry s', entry ∈ entries → P s → EntryStep ws login s entry s' → P s') :
    P (accepting ws room login entries) := by
  unfold accepting
  generalize ({ peers := room.peers, owned := owns ws room.peers } : Accepting W F) = s at h0
  induction entries generalizing s with
  | nil => exact h0
  | cons entry rest ih =>
    apply ih
    · intro s e s' he
      exact hstep s e s' (List.mem_cons_of_mem _ he)
    · exact hstep s entry _ List.mem_cons_self h0 (entryStep s entry)

/-! ## Dropping a socket -/

theorem dropItems_fst (l : List (ClientId × Peer W F)) (peers : Dict ClientId (Peer W F)) :
    (dropItems ws l peers).1 = (l.filter fun item => item.2.ws = ws).map fun item =>
      ⟨item.1, item.2.clock + 1, none⟩ := by
  induction l generalizing peers with
  | nil => rfl
  | cons item rest ih =>
    unfold dropItems
    split
    · next h => simp [h, ih]
    · next h => simp [h, ih]

theorem get?_dropItems (l : List (ClientId × Peer W F)) (peers : Dict ClientId (Peer W F))
    (clientId : ClientId) :
    (dropItems ws l peers).2.get? clientId =
      if (l.any fun item => item.1 == clientId && item.2.ws == ws) then none
      else peers.get? clientId := by
  induction l generalizing peers with
  | nil => rfl
  | cons item rest ih =>
    unfold dropItems
    split
    · next h =>
      rw [ih, Dict.get?_erase, List.any_cons]
      by_cases hid : clientId = item.1
      · simp [hid, h]
      · have hne : (item.1 == clientId) = false := beq_false_of_ne (Ne.symm hid)
        rw [if_neg hid, hne, Bool.false_and, Bool.false_or]
    · next h =>
      have hne : (item.2.ws == ws) = false := beq_false_of_ne h
      rw [ih, List.any_cons, hne, Bool.and_false, Bool.false_or]

/-- Dropping a socket removes what it owns. -/
theorem get?_drop (room : RoomAwareness W F) (clientId : ClientId) :
    (room.drop ws).2.peers.get? clientId =
      (room.peers.get? clientId).filter fun peer => peer.ws ≠ ws := by
  have hpeers : (room.drop ws).2.peers = (dropItems ws room.peers.items room.peers).2 := rfl
  rw [hpeers, get?_dropItems]
  cases hget : room.peers.get? clientId with
  | none =>
    rw [ite_self]
    rfl
  | some peer =>
    have hmem := Dict.mem_items_iff.2 hget
    by_cases h : peer.ws = ws
    · rw [if_pos (List.any_eq_true.2 ⟨_, hmem, by simp [h]⟩)]
      simp [Option.filter, h]
    · rw [if_neg]
      · simp [Option.filter, h]
      · intro hany
        obtain ⟨⟨id, other⟩, hother, hws⟩ := List.any_eq_true.1 hany
        simp only [Bool.and_eq_true, beq_iff_eq] at hws
        obtain ⟨rfl, hws⟩ := hws
        rw [Dict.mem_items_iff, hget] at hother
        cases hother
        exact h hws

/-- Dropping a socket announces what it owns, each at its last clock plus one. -/
theorem drop_fst (room : RoomAwareness W F) :
    (room.drop ws).1 = (room.peers.items.filter fun item => item.2.ws = ws).map fun item =>
      ⟨item.1, item.2.clock + 1, none⟩ :=
  dropItems_fst room.peers.items room.peers

/-- What `drop` announces: each entry of the socket, once, at its last clock plus one. -/
theorem mem_drop_iff {room : RoomAwareness W F} {entry : AwarenessEntry F} :
    entry ∈ (room.drop ws).1 ↔ ∃ peer, room.peers.get? entry.clientId = some peer ∧ peer.ws = ws ∧
      entry.clock = peer.clock + 1 ∧ entry.state = none := by
  rw [drop_fst, List.mem_map]
  constructor
  · rintro ⟨⟨id, peer⟩, hmem, rfl⟩
    rw [List.mem_filter, Dict.mem_items_iff] at hmem
    exact ⟨peer, hmem.1, by simpa using hmem.2, rfl, rfl⟩
  · rintro ⟨peer, hget, hws, hclock, hstate⟩
    refine ⟨(entry.clientId, peer), ?_, ?_⟩
    · rw [List.mem_filter, Dict.mem_items_iff]
      exact ⟨hget, by simpa using hws⟩
    · cases entry
      cases hclock
      cases hstate
      rfl

theorem nodup_drop (room : RoomAwareness W F) : ((room.drop ws).1.map (·.clientId)).Nodup := by
  rw [drop_fst, List.map_map]
  exact room.peers.nodup.sublist (List.filter_sublist.map _)

/-- `accept` leaves what is not announced as it is. -/
theorem get?_accepting_of_not_mem {room : RoomAwareness W F} {entries : List (AwarenessEntry F)}
    {id : ClientId} (h : id ∉ entries.map (·.clientId)) :
    (accepting ws room login entries).peers.get? id = room.peers.get? id := by
  apply accepting_induction (P := fun s => s.peers.get? id = room.peers.get? id)
  · rfl
  · intro s entry s' hentry hs hstep
    have hne : id ≠ entry.clientId := by
      rintro rfl
      exact h (List.mem_map_of_mem hentry)
    cases hstep with
    | ignored => exact hs
    | removed peer => exact (Dict.get?_erase_of_ne hne).trans hs
    | moved peer state => exact (Dict.get?_set_of_ne hne).trans hs
    | added state => exact (Dict.get?_set_of_ne hne).trans hs

end RoomAwareness

end Concord
