import Concord.Realtime.Awareness

/-!
# What clients show

The awareness of a y-protocols client that is sent the cursors of a file when its socket joins, and
then every update the server relays, in order. A client applies an entry if its clock is newer than
the last one it has seen of that id, where 0 stands for an id it has not seen, or as new if the entry
removes an id it shows.

What it shows is what the server has, so long as clients announce with growing clocks from 1 on and
come back after a removal as `reannounceAwareness` of `frontend/src/lib/ws.ts` does.
-/

namespace Concord

open Concord.Base RoomAwareness

/-- `Awareness` of y-protocols: the last clock seen of each client id, and the states shown. -/
structure ClientAwareness (F : Type) where
  clock : ClientId → Nat := fun _ => 0
  states : ClientId → Option (JsonObject F) := fun _ => none

namespace ClientAwareness

variable {F : Type} (a : ClientAwareness F)

/-- One entry of `applyAwarenessUpdate`. -/
def applyEntry (e : AwarenessEntry F) : ClientAwareness F :=
  if a.clock e.clientId < e.clock ∨
      a.clock e.clientId = e.clock ∧ e.state.isNone ∧ (a.states e.clientId).isSome then
    { clock := Function.update a.clock e.clientId e.clock
      states := Function.update a.states e.clientId e.state }
  else a

/-- `applyAwarenessUpdate`. -/
def applyUpdate (entries : List (AwarenessEntry F)) : ClientAwareness F := entries.foldl applyEntry a

variable {a}

theorem applyEntry_of_lt {e : AwarenessEntry F} (h : a.clock e.clientId < e.clock) :
    a.applyEntry e = { clock := Function.update a.clock e.clientId e.clock
                       states := Function.update a.states e.clientId e.state } :=
  if_pos (.inl h)

theorem applyUpdate_of_not_mem {entries : List (AwarenessEntry F)} {id : ClientId}
    (h : id ∉ entries.map (·.clientId)) :
    (a.applyUpdate entries).states id = a.states id ∧
      (a.applyUpdate entries).clock id = a.clock id := by
  induction entries generalizing a with
  | nil => exact ⟨rfl, rfl⟩
  | cons e rest ih =>
    rw [List.map_cons, List.mem_cons, not_or] at h
    have hentry : (a.applyEntry e).states id = a.states id ∧
        (a.applyEntry e).clock id = a.clock id := by
      unfold applyEntry
      split
      · exact ⟨Function.update_of_ne h.1 _ _, Function.update_of_ne h.1 _ _⟩
      · exact ⟨rfl, rfl⟩
    have hrest := ih (a := a.applyEntry e) h.2
    exact ⟨hrest.1.trans hentry.1, hrest.2.trans hentry.2⟩

/-- An entry newer than what the client has seen is applied, if it is the only one of its id. -/
theorem applyUpdate_of_mem {entries : List (AwarenessEntry F)} {e : AwarenessEntry F}
    (hn : (entries.map (·.clientId)).Nodup) (he : e ∈ entries)
    (hlt : a.clock e.clientId < e.clock) :
    (a.applyUpdate entries).states e.clientId = e.state ∧
      (a.applyUpdate entries).clock e.clientId = e.clock := by
  induction entries generalizing a with
  | nil => cases he
  | cons e' rest ih =>
    rw [List.map_cons, List.nodup_cons] at hn
    rcases List.mem_cons.1 he with rfl | he
    · have hrest := applyUpdate_of_not_mem (a := a.applyEntry e) hn.1
      rw [applyEntry_of_lt hlt] at hrest
      simpa [applyUpdate, applyEntry_of_lt hlt] using hrest
    · have hne : e.clientId ≠ e'.clientId := by
        intro heq
        exact hn.1 (heq ▸ List.mem_map_of_mem he)
      apply ih hn.2 he
      have hmem : e.clientId ∉ [e'].map (·.clientId) := by simpa using hne
      have hclock : (a.applyUpdate [e']).clock e.clientId = a.clock e.clientId :=
        (applyUpdate_of_not_mem hmem).2
      exact hclock.trans_lt hlt

end ClientAwareness

/-- What the sockets of a file announced of each client id: the last clock, and whether the server has
removed it since. -/
structure Announcements where
  last : ClientId → Option Nat := fun _ => none
  removed : ClientId → Bool := fun _ => false

namespace Announcements

variable {F : Type} (k : Announcements)

def announce (e : AwarenessEntry F) : Announcements where
  last := Function.update k.last e.clientId (some e.clock)
  removed := Function.update k.removed e.clientId false

/-- The server announces that the ids are gone. -/
def remove (gone : List (AwarenessEntry F)) : Announcements :=
  { k with removed := fun id => k.removed id || gone.any (·.clientId == id) }

/-- Each client id's clocks grow, by two or more after a removal by the server. -/
def Increasing : Announcements → List (AwarenessEntry F) → Prop
  | _, [] => True
  | k, e :: rest =>
    (∀ c, k.last e.clientId = some c → (if k.removed e.clientId then c + 2 else c + 1) ≤ e.clock) ∧
      Increasing (k.announce e) rest

/-- The largest clock that anybody may have seen of an id. -/
def bound (id : ClientId) : Nat :=
  match k.last id with
  | none => 0
  | some c => if k.removed id then c + 1 else c

variable {k}

theorem Increasing.lt {e : AwarenessEntry F} {rest : List (AwarenessEntry F)}
    (h : k.Increasing (e :: rest)) (hpos : 0 < e.clock) : k.bound e.clientId < e.clock := by
  unfold bound
  cases hlast : k.last e.clientId with
  | none => exact hpos
  | some c =>
    have hle := h.1 c hlast
    dsimp only
    split at hle
    · next hremoved =>
      rw [if_pos hremoved]
      omega
    · next hremoved =>
      rw [if_neg hremoved]
      omega

@[simp] theorem bound_announce_self (e : AwarenessEntry F) :
    (k.announce e).bound e.clientId = e.clock := by
  simp [bound, announce]

theorem bound_announce_of_ne {e : AwarenessEntry F} {id : ClientId} (h : id ≠ e.clientId) :
    (k.announce e).bound id = k.bound id := by
  simp [bound, announce, h]

theorem bound_remove (gone : List (AwarenessEntry F)) (id : ClientId) :
    k.bound id ≤ (k.remove gone).bound id := by
  unfold bound remove
  cases k.last id with
  | none => exact le_refl _
  | some c =>
    cases hremoved : k.removed id with
    | true => simp [hremoved]
    | false =>
      dsimp only
      split
      · next h => cases h
      · split
        · exact Nat.le_succ c
        · exact le_refl c

/-- What is announced of other ids changes nothing. -/
theorem bound_foldl_announce {entries : List (AwarenessEntry F)} {id : ClientId}
    (h : id ∉ entries.map (·.clientId)) : (entries.foldl announce k).bound id = k.bound id := by
  induction entries generalizing k with
  | nil => rfl
  | cons e rest ih =>
    rw [List.map_cons, List.mem_cons, not_or] at h
    rw [List.foldl_cons, ih h.2, bound_announce_of_ne h.1]

end Announcements

/-- A file with its sockets. `clients` are those of the sockets attached; `announced` and
`announcements` keep what was announced, by each socket and of each client id. -/
structure Meeting (W F : Type) where
  room : RoomAwareness W F := {}
  clients : W → Option (ClientAwareness F) := fun _ => none
  announced : W → List ClientId := fun _ => []
  announcements : Announcements := {}

inductive MeetingEvent (W F : Type)
  /-- `collab_socket` sends the cursors already in the file to a new socket. -/
  | join (ws : W)
  /-- The socket sends an `awareness_update`. -/
  | announce (ws : W) (entries : List (AwarenessEntry F))
  /-- The socket is gone. -/
  | leave (ws : W)

namespace Meeting

variable {W F : Type} [DecidableEq W] (m : Meeting W F)

/-- Every other client applies a frame. -/
def relay (sender : W) (frame : List (AwarenessEntry F)) : W → Option (ClientAwareness F) :=
  fun ws => if ws = sender then m.clients ws else (m.clients ws).map (·.applyUpdate frame)

variable (logins : W → Login)

def step : MeetingEvent W F → Meeting W F
  | .join ws =>
    { m with
      clients := Function.update m.clients ws
        (some (({} : ClientAwareness F).applyUpdate (m.room.snapshot (some ws)))) }
  | .announce ws entries =>
    let (accepted, room) := m.room.accept ws (logins ws) entries
    { room
      clients := m.relay ws accepted
      announced := Function.update m.announced ws (m.announced ws ++ entries.map (·.clientId))
      announcements := entries.foldl Announcements.announce m.announcements }
  | .leave ws =>
    let (gone, room) := m.room.drop ws
    { m with
      room
      clients := Function.update (m.relay ws gone) ws none
      announcements := m.announcements.remove gone }

/-- Each client id's announcements carry strictly increasing clocks, and come two ticks above the last
one after a removal by the server. -/
def Increasing (m : Meeting W F) : MeetingEvent W F → Prop
  | .announce _ entries => m.announcements.Increasing entries
  | _ => True

/-- No announcement carries clock 0. -/
def Positive (_ : Meeting W F) : MeetingEvent W F → Prop
  | .announce _ entries => ∀ e ∈ entries, 0 < e.clock
  | _ => True

end Meeting

/-- The cursors of a file, with the clients that show them. -/
def presence {W F : Type} [DecidableEq W] (logins : W → Login) :
    System (Meeting W F) (MeetingEvent W F) where
  init := {}
  step m event := some (m.step logins event)

section Simulation

variable {W F : Type} [DecidableEq W] {logins : W → Login} {ws : W} {login : Login}

/-- The entries of the room are no newer than what was announced, and of ids not removed since. -/
def Current (peers : Dict ClientId (Peer W F)) (k : Announcements) : Prop :=
  ∀ id peer, peers.get? id = some peer →
    0 < peer.clock ∧ peer.clock ≤ k.bound id ∧ k.removed id = false

/-- A client shows the entries of the room, but for some ids, and has seen nothing newer. -/
structure Follows (own : List ClientId) (peers : Dict ClientId (Peer W F)) (k : Announcements)
    (a : ClientAwareness F) : Prop where
  shows : ∀ id, id ∉ own → a.states id = (peers.get? id).map (·.state)
  clock_le : ∀ id, id ∉ own → a.clock id ≤ k.bound id
  clock_le_peer : ∀ id, id ∉ own → ∀ peer, peers.get? id = some peer → a.clock id ≤ peer.clock

variable {k : Announcements} {own : List ClientId} {s s' : Accepting W F} {e : AwarenessEntry F}
  {a : ClientAwareness F}

theorem Current.step (h : Current s.peers k) (hlt : k.bound e.clientId < e.clock)
    (hstep : EntryStep ws login s e s') : Current s'.peers (k.announce e) := by
  have hother : ∀ id, id ≠ e.clientId → ∀ peer, s.peers.get? id = some peer →
      0 < peer.clock ∧ peer.clock ≤ (k.announce e).bound id ∧ (k.announce e).removed id = false := by
    intro id hid peer hget
    rw [Announcements.bound_announce_of_ne hid]
    simpa [Announcements.announce, hid] using h id peer hget
  have hself : 0 < e.clock ∧ e.clock ≤ (k.announce e).bound e.clientId ∧
      (k.announce e).removed e.clientId = false := by
    refine ⟨by omega, ?_, ?_⟩
    · rw [Announcements.bound_announce_self]
    · simp [Announcements.announce]
  have hset : ∀ new : Peer W F, new.clock = e.clock →
      Current (s.peers.set e.clientId new) (k.announce e) := by
    intro new hnew id peer hget
    rw [Dict.get?_set] at hget
    split at hget
    · next hid =>
      cases hget
      rw [hid, hnew]
      exact hself
    · next hid => exact hother id hid peer hget
  cases hstep with
  | ignored =>
    intro id peer hget
    by_cases hid : id = e.clientId
    · subst hid
      refine ⟨(h _ peer hget).1, ?_, hself.2.2⟩
      have hle := (h _ peer hget).2.1
      rw [Announcements.bound_announce_self]
      omega
    · exact hother id hid peer hget
  | removed p =>
    intro id peer hget
    rw [Dict.get?_erase] at hget
    split at hget
    · cases hget
    · next hid => exact hother id hid peer hget
  | moved p state => exact hset _ rfl
  | added state => exact hset _ rfl

/-- A client that applies what one entry makes the server relay goes on following it. -/
theorem Follows.step (h : Follows own s.peers k a) (hlt : k.bound e.clientId < e.clock)
    (hstep : EntryStep ws login s e s') :
    ∃ frame, s'.accepted = s.accepted ++ frame ∧
      Follows own s'.peers (k.announce e) (a.applyUpdate frame) := by
  -- an entry that is relayed is newer than all the client has seen
  have hnew : ∀ (state : Option (JsonObject F)) (peers : Dict ClientId (Peer W F)),
      (∀ id, peers.get? id = if id = e.clientId
        then state.map fun st => ⟨e.clock, st, ws, login.userId⟩ else s.peers.get? id) →
      Follows own peers (k.announce e) (a.applyUpdate [⟨e.clientId, e.clock, state⟩]) := by
    intro state peers hpeers
    by_cases hown : e.clientId ∈ own
    · -- the client does whatever it does with an id of its own
      have hsame : ∀ id, id ∉ own → (a.applyEntry ⟨e.clientId, e.clock, state⟩).states id =
          a.states id ∧ (a.applyEntry ⟨e.clientId, e.clock, state⟩).clock id = a.clock id := by
        intro id hid
        have hne : id ≠ e.clientId := fun heq => hid (heq ▸ hown)
        unfold ClientAwareness.applyEntry
        split
        · exact ⟨Function.update_of_ne hne _ _, Function.update_of_ne hne _ _⟩
        · exact ⟨rfl, rfl⟩
      constructor
      · intro id hid
        have hne : id ≠ e.clientId := fun heq => hid (heq ▸ hown)
        rw [hpeers, if_neg hne, ← h.shows id hid]
        exact (hsame id hid).1
      · intro id hid
        have hne : id ≠ e.clientId := fun heq => hid (heq ▸ hown)
        rw [Announcements.bound_announce_of_ne hne]
        exact (hsame id hid).2 ▸ h.clock_le id hid
      · intro id hid peer hget
        have hne : id ≠ e.clientId := fun heq => hid (heq ▸ hown)
        rw [hpeers, if_neg hne] at hget
        exact (hsame id hid).2 ▸ h.clock_le_peer id hid peer hget
    · have happly : a.applyUpdate [⟨e.clientId, e.clock, state⟩] =
          { clock := Function.update a.clock e.clientId e.clock
            states := Function.update a.states e.clientId state } :=
        ClientAwareness.applyEntry_of_lt ((h.clock_le _ hown).trans_lt hlt)
      rw [happly]
      constructor
      · intro id hid
        by_cases heq : id = e.clientId
        · subst heq
          simp [hpeers, Function.comp_def]
        · simp [hpeers, heq, h.shows id hid]
      · intro id hid
        by_cases heq : id = e.clientId
        · subst heq
          simp
        · rw [Announcements.bound_announce_of_ne heq]
          simpa [heq] using h.clock_le id hid
      · intro id hid peer hget
        rw [hpeers] at hget
        split at hget
        · next heq =>
          subst heq
          obtain ⟨st, -, rfl⟩ := Option.map_eq_some_iff.1 hget
          simp
        · next heq => simpa [heq] using h.clock_le_peer id hid peer hget
  cases hstep with
  | ignored =>
    refine ⟨[], (List.append_nil _).symm, h.shows, ?_, h.clock_le_peer⟩
    intro id hid
    by_cases heq : id = e.clientId
    · subst heq
      rw [Announcements.bound_announce_self]
      exact ((h.clock_le _ hid).trans_lt hlt).le
    · rw [Announcements.bound_announce_of_ne heq]
      exact h.clock_le id hid
  | removed p => exact ⟨_, rfl, hnew none _ fun id => Dict.get?_erase⟩
  | moved p state => exact ⟨_, rfl, hnew (some _) _ fun id => Dict.get?_set⟩
  | added state => exact ⟨_, rfl, hnew (some _) _ fun id => Dict.get?_set⟩

theorem Current.accepting {room : RoomAwareness W F} {entries : List (AwarenessEntry F)}
    (h : Current room.peers k) (hinc : k.Increasing entries) (hpos : ∀ e ∈ entries, 0 < e.clock) :
    Current (accepting ws room login entries).peers (entries.foldl Announcements.announce k) := by
  have hloop : ∀ (entries : List (AwarenessEntry F)) (s : Accepting W F) (k : Announcements),
      k.Increasing entries → (∀ e ∈ entries, 0 < e.clock) → Current s.peers k →
      Current (entries.foldl (acceptEntry ws login) s).peers
        (entries.foldl Announcements.announce k) := by
    intro entries
    induction entries with
    | nil =>
      intro s k _ _ h
      exact h
    | cons e rest ih =>
      intro s k hinc hpos h
      apply ih _ _ hinc.2
      · intro e' he'
        exact hpos e' (List.mem_cons_of_mem _ he')
      · exact h.step (hinc.lt (hpos e List.mem_cons_self)) (entryStep s e)
  exact hloop entries { peers := room.peers, owned := owns ws room.peers } k hinc hpos h

/-- A client that applies what `accept` returns goes on following the server. -/
theorem Follows.accepting {room : RoomAwareness W F} {entries : List (AwarenessEntry F)}
    (h : Follows own room.peers k a) (hinc : k.Increasing entries)
    (hpos : ∀ e ∈ entries, 0 < e.clock) :
    Follows own (accepting ws room login entries).peers (entries.foldl Announcements.announce k)
      (a.applyUpdate (accepting ws room login entries).accepted) := by
  have hloop : ∀ (entries : List (AwarenessEntry F)) (s : Accepting W F) (k : Announcements),
      k.Increasing entries → (∀ e ∈ entries, 0 < e.clock) →
      Follows own s.peers k (a.applyUpdate s.accepted) →
      Follows own (entries.foldl (acceptEntry ws login) s).peers
        (entries.foldl Announcements.announce k)
        (a.applyUpdate (entries.foldl (acceptEntry ws login) s).accepted) := by
    intro entries
    induction entries with
    | nil =>
      intro s k _ _ h
      exact h
    | cons e rest ih =>
      intro s k hinc hpos h
      have hentry : EntryStep ws login s e (acceptEntry ws login s e) := entryStep s e
      obtain ⟨frame, hframe, hfollows⟩ := h.step (hinc.lt (hpos e List.mem_cons_self)) hentry
      apply ih _ _ hinc.2
      · intro e' he'
        exact hpos e' (List.mem_cons_of_mem _ he')
      · rw [hframe, ClientAwareness.applyUpdate, List.foldl_append]
        exact hfollows
  exact hloop entries { peers := room.peers, owned := owns ws room.peers } k hinc hpos h

/-- A new client shows what the others have in the file. -/
theorem Follows.snapshot {room : RoomAwareness W F} (hcur : Current room.peers k)
    (howner : ∀ id peer, room.peers.get? id = some peer → peer.ws = ws → id ∈ own) :
    Follows own room.peers k
      (({} : ClientAwareness F).applyUpdate (room.snapshot (some ws))) := by
  have hmem : ∀ id peer, room.peers.get? id = some peer → peer.ws ≠ ws →
      ⟨id, peer.clock, some peer.state⟩ ∈ room.snapshot (some ws) := by
    intro id peer hget hws
    refine List.mem_map.2 ⟨(id, peer), List.mem_filter.2 ⟨Dict.mem_items_iff.2 hget, ?_⟩, rfl⟩
    simpa using Ne.symm hws
  have hnodup : ((room.snapshot (some ws)).map (·.clientId)).Nodup := by
    rw [RoomAwareness.snapshot, List.map_map]
    exact room.peers.nodup.sublist (List.filter_sublist.map _)
  have hnone : ∀ id, room.peers.get? id = none →
      id ∉ (room.snapshot (some ws)).map (·.clientId) := by
    intro id hget hid
    rw [RoomAwareness.snapshot, List.map_map] at hid
    obtain ⟨item, hitem, rfl⟩ := List.mem_map.1 hid
    exact Dict.get?_eq_none_iff.1 hget (List.mem_map_of_mem (List.mem_of_mem_filter hitem))
  have happly : ∀ id, id ∉ own → ∀ peer, room.peers.get? id = some peer →
      (({} : ClientAwareness F).applyUpdate (room.snapshot (some ws))).states id =
          some peer.state ∧
        (({} : ClientAwareness F).applyUpdate (room.snapshot (some ws))).clock id =
          peer.clock := by
    intro id hid peer hget
    exact ClientAwareness.applyUpdate_of_mem hnodup
      (hmem id peer hget fun hws => hid (howner id peer hget hws)) (hcur id peer hget).1
  constructor
  · intro id hid
    cases hget : room.peers.get? id with
    | none => exact (ClientAwareness.applyUpdate_of_not_mem (hnone id hget)).1
    | some peer => exact (happly id hid peer hget).1
  · intro id hid
    cases hget : room.peers.get? id with
    | none =>
      rw [(ClientAwareness.applyUpdate_of_not_mem (hnone id hget)).2]
      exact Nat.zero_le _
    | some peer =>
      rw [(happly id hid peer hget).2]
      exact (hcur id peer hget).2.1
  · intro id hid peer hget
    rw [(happly id hid peer hget).2]

theorem mem_map_drop_iff {room : RoomAwareness W F} {id : ClientId} :
    id ∈ (room.drop ws).1.map (·.clientId) ↔
      ∃ peer, room.peers.get? id = some peer ∧ peer.ws = ws := by
  rw [List.mem_map]
  constructor
  · rintro ⟨e, he, rfl⟩
    obtain ⟨peer, hget, hws, -⟩ := mem_drop_iff.1 he
    exact ⟨peer, hget, hws⟩
  · rintro ⟨peer, hget, hws⟩
    exact ⟨⟨id, peer.clock + 1, none⟩, mem_drop_iff.2 ⟨peer, hget, hws, rfl, rfl⟩, rfl⟩

/-- Clients forget the cursors of a socket that is gone. -/
theorem Follows.drop {room : RoomAwareness W F} (h : Follows own room.peers k a)
    (hcur : Current room.peers k) :
    Follows own (room.drop ws).2.peers (k.remove (room.drop ws).1)
      (a.applyUpdate (room.drop ws).1) := by
  have hgone : ∀ id, id ∉ own → ∀ peer, room.peers.get? id = some peer → peer.ws = ws →
      (a.applyUpdate (room.drop ws).1).states id = none ∧
        (a.applyUpdate (room.drop ws).1).clock id = peer.clock + 1 := by
    intro id hid peer hget hws
    exact ClientAwareness.applyUpdate_of_mem (e := ⟨id, peer.clock + 1, none⟩) (nodup_drop room)
      (mem_drop_iff.2 ⟨peer, hget, hws, rfl, rfl⟩)
      (Nat.lt_succ_of_le (h.clock_le_peer id hid peer hget))
  have hkept : ∀ id, (∀ peer, room.peers.get? id = some peer → peer.ws ≠ ws) →
      (room.drop ws).2.peers.get? id = room.peers.get? id ∧
      (a.applyUpdate (room.drop ws).1).states id = a.states id ∧
        (a.applyUpdate (room.drop ws).1).clock id = a.clock id := by
    intro id hothers
    refine ⟨?_, ClientAwareness.applyUpdate_of_not_mem ?_⟩
    · rw [get?_drop]
      cases hget : room.peers.get? id with
      | none => rfl
      | some peer => simp [Option.filter, hothers peer hget]
    · rw [mem_map_drop_iff]
      rintro ⟨peer, hget, hws⟩
      exact hothers peer hget hws
  have hsplit : ∀ id, (∃ peer, room.peers.get? id = some peer ∧ peer.ws = ws) ∨
      ∀ peer, room.peers.get? id = some peer → peer.ws ≠ ws := by
    intro id
    by_cases hex : ∃ peer, room.peers.get? id = some peer ∧ peer.ws = ws
    · exact .inl hex
    · exact .inr fun peer hget hws => hex ⟨peer, hget, hws⟩
  constructor
  · intro id hid
    rcases hsplit id with ⟨peer, hget, hws⟩ | hothers
    · rw [(hgone id hid peer hget hws).1, get?_drop, hget]
      simp [Option.filter, hws]
    · obtain ⟨hpeers, hstates, -⟩ := hkept id hothers
      rw [hpeers, hstates]
      exact h.shows id hid
  · intro id hid
    rcases hsplit id with ⟨peer, hget, hws⟩ | hothers
    · rw [(hgone id hid peer hget hws).2]
      obtain ⟨hpos, hle, hremoved⟩ := hcur id peer hget
      have hany : (room.drop ws).1.any (·.clientId == id) = true :=
        List.any_eq_true.2 ⟨⟨id, peer.clock + 1, none⟩,
          mem_drop_iff.2 ⟨peer, hget, hws, rfl, rfl⟩, beq_self_eq_true id⟩
      unfold Announcements.bound at hle ⊢
      cases hlast : k.last id with
      | none =>
        rw [hlast] at hle
        dsimp only at hle
        omega
      | some c =>
        rw [hlast] at hle
        simp only [hremoved, Bool.false_eq_true, if_false] at hle
        simp only [Announcements.remove, hlast, hany, Bool.or_true, if_true]
        omega
    · rw [(hkept id hothers).2.2]
      exact (h.clock_le id hid).trans (Announcements.bound_remove _ id)
  · intro id hid peer hget
    rw [get?_drop] at hget
    obtain ⟨hold, hws⟩ := Option.filter_eq_some_iff.1 hget
    have hothers : ∀ p, room.peers.get? id = some p → p.ws ≠ ws := by
      intro p hp
      rw [hold] at hp
      cases hp
      simpa using hws
    rw [(hkept id hothers).2.2]
    exact h.clock_le_peer id hid peer hold

theorem Current.drop {room : RoomAwareness W F} (h : Current room.peers k) :
    Current (room.drop ws).2.peers (k.remove (room.drop ws).1) := by
  intro id peer hget
  rw [get?_drop] at hget
  obtain ⟨hold, hws⟩ := Option.filter_eq_some_iff.1 hget
  obtain ⟨hpos, hle, hremoved⟩ := h id peer hold
  refine ⟨hpos, hle.trans (Announcements.bound_remove _ id), ?_⟩
  have hany : (room.drop ws).1.any (·.clientId == id) = false := by
    rw [List.any_eq_false]
    intro e he heq
    have heq : e.clientId = id := by simpa using heq
    obtain ⟨p, hp, hpws, -⟩ := mem_drop_iff.1 he
    rw [heq, hold] at hp
    cases hp
    simp [hpws] at hws
  simp [Announcements.remove, hremoved, hany]

/-- What is the case of a file and its clients between two events. -/
structure MeetingInv (m : Meeting W F) : Prop where
  current : Current m.room.peers m.announcements
  /-- What a socket owns it announced. -/
  owner : ∀ id peer, m.room.peers.get? id = some peer → id ∈ m.announced peer.ws
  follows : ∀ ws a, m.clients ws = some a →
    Follows (m.announced ws) m.room.peers m.announcements a

theorem MeetingInv.announce {m : Meeting W F} (h : MeetingInv m)
    {entries : List (AwarenessEntry F)} (hinc : m.announcements.Increasing entries)
    (hpos : ∀ e ∈ entries, 0 < e.clock) : MeetingInv (m.step logins (.announce ws entries)) where
  current := h.current.accepting hinc hpos
  owner := by
    have hmono : ∀ other id, id ∈ m.announced other →
        id ∈ Function.update m.announced ws (m.announced ws ++ entries.map (·.clientId)) other := by
      intro other id hid
      by_cases heq : other = ws
      · subst heq
        rw [Function.update_self]
        exact List.mem_append_left _ hid
      · rwa [Function.update_of_ne heq]
    change ∀ id peer, (accepting ws m.room (logins ws) entries).peers.get? id = some peer →
      id ∈ Function.update m.announced ws (m.announced ws ++ entries.map (·.clientId)) peer.ws
    apply accepting_induction (P := fun s => ∀ id peer, s.peers.get? id = some peer →
      id ∈ Function.update m.announced ws (m.announced ws ++ entries.map (·.clientId)) peer.ws)
    · intro id peer hget
      exact hmono _ _ (h.owner id peer hget)
    · intro s e s' he hs hstep
      have hset : ∀ new : Peer W F, new.ws = ws → ∀ id peer,
          (s.peers.set e.clientId new).get? id = some peer →
          id ∈ Function.update m.announced ws (m.announced ws ++ entries.map (·.clientId))
            peer.ws := by
        intro new hnew id peer hget
        rw [Dict.get?_set] at hget
        split at hget
        · next hid =>
          cases hget
          rw [hnew, Function.update_self, hid]
          exact List.mem_append_right _ (List.mem_map_of_mem he)
        · exact hs id peer hget
      cases hstep with
      | ignored => exact hs
      | removed p =>
        intro id peer hget
        rw [Dict.get?_erase] at hget
        split at hget
        · cases hget
        · exact hs id peer hget
      | moved p state => exact hset _ rfl
      | added state => exact hset _ rfl
  follows := by
    intro other a hclient
    by_cases heq : other = ws
    · -- the socket itself is sent nothing, and what it announced is its own
      subst heq
      have hclient : m.clients other = some a := by
        simpa [Meeting.step, Meeting.relay] using hclient
      have hfollows := h.follows other a hclient
      have hown : ∀ id, id ∉ (m.step logins (.announce other entries)).announced other →
          id ∉ m.announced other ∧ id ∉ entries.map (·.clientId) := by
        intro id hid
        simpa [Meeting.step] using hid
      have hsame : ∀ id, id ∉ entries.map (·.clientId) →
          (m.step logins (.announce other entries)).room.peers.get? id =
            m.room.peers.get? id := fun id hid => get?_accepting_of_not_mem hid
      constructor
      · intro id hid
        rw [hsame id (hown id hid).2]
        exact hfollows.shows id (hown id hid).1
      · intro id hid
        exact (hfollows.clock_le id (hown id hid).1).trans_eq
          (Announcements.bound_foldl_announce (hown id hid).2).symm
      · intro id hid peer hget
        rw [hsame id (hown id hid).2] at hget
        exact hfollows.clock_le_peer id (hown id hid).1 peer hget
    · have hclient : (m.clients other).map (·.applyUpdate
          (accepting ws m.room (logins ws) entries).accepted) = some a := by
        simpa [Meeting.step, Meeting.relay, heq, accept] using hclient
      obtain ⟨a, hold, rfl⟩ := Option.map_eq_some_iff.1 hclient
      have hfollows : Follows (m.announced other) (accepting ws m.room (logins ws) entries).peers
          _ (a.applyUpdate (accepting ws m.room (logins ws) entries).accepted) :=
        (h.follows other a hold).accepting hinc hpos
      have hown : (m.step logins (.announce ws entries)).announced other = m.announced other :=
        Function.update_of_ne heq _ _
      rw [hown]
      exact hfollows

theorem MeetingInv.join {m : Meeting W F} (h : MeetingInv m) :
    MeetingInv (m.step logins (.join ws)) where
  current := h.current
  owner := h.owner
  follows := by
    intro other a hclient
    by_cases heq : other = ws
    · subst heq
      have ha : ({} : ClientAwareness F).applyUpdate (m.room.snapshot (some other)) = a := by
        simpa [Meeting.step] using hclient
      subst ha
      apply Follows.snapshot h.current
      rintro id peer hget rfl
      exact h.owner id peer hget
    · apply h.follows other a
      simpa [Meeting.step, heq] using hclient

theorem MeetingInv.leave {m : Meeting W F} (h : MeetingInv m) :
    MeetingInv (m.step logins (.leave ws)) where
  current := h.current.drop
  owner := by
    intro id peer hget
    have hget : (m.room.drop ws).2.peers.get? id = some peer := hget
    rw [get?_drop] at hget
    exact h.owner id peer (Option.filter_eq_some_iff.1 hget).1
  follows := by
    intro other a hclient
    by_cases heq : other = ws
    · subst heq
      simp [Meeting.step] at hclient
    · have hclient : (m.clients other).map (·.applyUpdate (m.room.drop ws).1) = some a := by
        simpa [Meeting.step, Meeting.relay, heq] using hclient
      obtain ⟨a, hold, rfl⟩ := Option.map_eq_some_iff.1 hclient
      exact (h.follows other a hold).drop h.current

/-- **Clients show the server's roster**: in every run whose announcements carry positive and growing
clocks, two ticks ahead after a removal by the server, the client of every socket attached shows exactly
the ids and states of the room's entries, its own aside. -/
theorem clients_show_roster {m : Meeting W F}
    (h : (presence logins).ReachableUnder (fun m event => m.Increasing event ∧ m.Positive event) m)
    {a : ClientAwareness F} (hclient : m.clients ws = some a) {id : ClientId}
    (hid : id ∉ m.announced ws) : a.states id = (m.room.peers.get? id).map (·.state) := by
  have hinv : MeetingInv m := by
    apply h.induction
    · exact ⟨nofun, nofun, nofun⟩
    · rintro m event m' - hm hok ⟨⟩
      cases event with
      | join ws => exact hm.join
      | announce ws entries => exact hm.announce hok.1 hok.2
      | leave ws => exact hm.leave
  exact (hinv.follows ws a hclient).shows id hid

/-- A client that joins before another one announces its cursor at clock 1. -/
theorem clients_show_roster_announced :
    ((({ clock := fun _ => 0 } : ClientAwareness Empty).applyUpdate
      [⟨7, 1, some (cleanState ∅ ⟨1, "alice"⟩)⟩]).states 7) =
        some (cleanState ∅ ⟨1, "alice"⟩) := by
  have hrun : (presence (F := Empty) fun _ : Nat => ⟨1, "alice"⟩).ReachableUnder
      (fun m event => m.Increasing event ∧ m.Positive event)
      ((({} : Meeting Nat Empty).step (fun _ => ⟨1, "alice"⟩) (.join 0)).step
        (fun _ => ⟨1, "alice"⟩) (.announce 1 [⟨7, 1, some ∅⟩])) := by
    apply Relation.ReflTransGen.tail (b := ({} : Meeting Nat Empty).step
      (fun _ => ⟨1, "alice"⟩) (.join 0))
    · exact Relation.ReflTransGen.single ⟨.join 0, ⟨trivial, trivial⟩, rfl⟩
    · refine ⟨.announce 1 [⟨7, 1, some ∅⟩], ⟨⟨nofun, trivial⟩, ?_⟩, rfl⟩
      intro e he
      rw [List.mem_singleton.1 he]
      exact Nat.one_pos
  have hclient : ((({} : Meeting Nat Empty).step (fun _ => ⟨1, "alice"⟩) (.join 0)).step
      (fun _ => ⟨1, "alice"⟩) (.announce 1 [⟨7, 1, some ∅⟩])).clients 0 =
        some (({ clock := fun _ => 0 } : ClientAwareness Empty).applyUpdate
          [⟨7, 1, some (cleanState ∅ ⟨1, "alice"⟩)⟩]) := rfl
  exact clients_show_roster hrun hclient (by decide)

/-- A cursor announced at clock 0 is in the room, and no client shows it. -/
theorem clients_miss_clock_zero : ∃ m : Meeting Nat Empty,
    (presence fun _ => ⟨1, "alice"⟩).ReachableUnder Meeting.Increasing m ∧
      ∃ ws a id, m.clients ws = some a ∧ id ∉ m.announced ws ∧
        a.states id ≠ (m.room.peers.get? id).map (·.state) := by
  refine ⟨(({} : Meeting Nat Empty).step (fun _ => ⟨1, "alice"⟩) (.join 0)).step
    (fun _ => ⟨1, "alice"⟩) (.announce 1 [⟨7, 0, some ∅⟩]), ?_, 0, _, 7, rfl, by decide, nofun⟩
  apply Relation.ReflTransGen.tail (b := ({} : Meeting Nat Empty).step
    (fun _ => ⟨1, "alice"⟩) (.join 0))
  · exact Relation.ReflTransGen.single ⟨.join 0, trivial, rfl⟩
  · exact ⟨.announce 1 [⟨7, 0, some ∅⟩], ⟨nofun, trivial⟩, rfl⟩

end Simulation

end Concord
