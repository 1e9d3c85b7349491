import Concord.Realtime.Awareness
import Mathlib

/-!
# Whose cursors they are

What the calls of sockets leave of other users' cursors, what they stamp on their own, and how many
cursors a socket comes to own.
-/

namespace Concord

open Concord.Base RoomAwareness

section Stamped

variable {F : Type} {login : Login} {state : JsonObject F}

/-- The keys a stored or relayed state may have. -/
def stateKeys : List Str := ["user_id", "username", "color", "selection", "cursor"].map Str.ofString

/-- The state says whose it is and has nothing else but a color, a selection and a cursor. -/
structure Stamped (login : Login) (state : JsonObject F) : Prop where
  userId : state.get? (Str.ofString "user_id") = some (.int login.userId)
  username : state.get? (Str.ofString "username") = some (.str (Str.ofString login.username))
  keys : ∀ key ∈ state.keys, key ∈ stateKeys

theorem Stamped.set (h : Stamped login state) {key : Str} (hkey : key ∈ stateKeys)
    (huser : key ≠ Str.ofString "user_id") (hname : key ≠ Str.ofString "username")
    (value : Json F) : Stamped login (state.set key value) where
  userId := by rw [Dict.get?_set_of_ne huser.symm, h.userId]
  username := by rw [Dict.get?_set_of_ne hname.symm, h.username]
  keys := by
    intro key' hkey'
    rcases Dict.mem_keys_set.1 hkey' with rfl | hkey'
    · exact hkey
    · exact h.keys key' hkey'

theorem Stamped.copyField {clean : JsonObject F} (h : Stamped login clean) {key : Str}
    (hkey : key ∈ passthrough) : Stamped login (copyField state clean key) := by
  unfold Concord.copyField
  split
  · have hdistinct : ∀ key ∈ passthrough, key ∈ stateKeys ∧ key ≠ Str.ofString "user_id" ∧
        key ≠ Str.ofString "username" := by decide
    obtain ⟨hmem, huser, hname⟩ := hdistinct key hkey
    exact h.set hmem huser hname _
  · exact h

theorem stamped_identity :
    Stamped login (((∅ : JsonObject F).set (Str.ofString "user_id") (.int login.userId)).set
      (Str.ofString "username") (.str (Str.ofString login.username))) where
  userId := by
    rw [Dict.get?_set_of_ne (by decide), Dict.get?_set_self]
  username := Dict.get?_set_self
  keys := by
    intro key hkey
    rcases Dict.mem_keys_set.1 hkey with rfl | hkey
    · decide
    · rcases Dict.mem_keys_set.1 hkey with rfl | hkey
      · decide
      · cases hkey

/-- What `_clean_state` makes of a state is stamped. -/
theorem stamped_cleanState : Stamped login (cleanState state login) := by
  have hcopied : ∀ (keys : List Str), (∀ key ∈ keys, key ∈ passthrough) →
      ∀ clean : JsonObject F, Stamped login clean →
        Stamped login (keys.foldl (copyField state) clean) := by
    intro keys
    induction keys with
    | nil =>
      intro _ clean h
      exact h
    | cons key rest ih =>
      intro hkeys clean h
      apply ih
      · intro key' hkey'
        exact hkeys key' (List.mem_cons_of_mem _ hkey')
      · exact h.copyField (hkeys key List.mem_cons_self)
  apply hcopied passthrough (fun _ h => h)
  split
  · split
    · exact stamped_identity.set (by decide) (by decide) (by decide) _
    · exact stamped_identity
  · exact stamped_identity

end Stamped

section Ownership

variable {W F : Type} {logins : W → Login}

/-- Every entry is its socket's user's, and stamped as such. -/
def PeersStamped (logins : W → Login) (peers : Dict ClientId (Peer W F)) : Prop :=
  ∀ id peer, peers.get? id = some peer →
    peer.userId = (logins peer.ws).userId ∧ Stamped (logins peer.ws) peer.state

theorem PeersStamped.erase {peers : Dict ClientId (Peer W F)} (h : PeersStamped logins peers)
    (id : ClientId) : PeersStamped logins (peers.erase id) := by
  intro id' peer hget
  rw [Dict.get?_erase] at hget
  split at hget
  · cases hget
  · exact h id' peer hget

theorem PeersStamped.set {peers : Dict ClientId (Peer W F)} (h : PeersStamped logins peers)
    (ws : W) (id : ClientId) (clock : Nat) (state : JsonObject F) :
    PeersStamped logins
      (peers.set id ⟨clock, cleanState state (logins ws), ws, (logins ws).userId⟩) := by
  intro id' peer hget
  rw [Dict.get?_set] at hget
  split at hget
  · cases hget
    exact ⟨rfl, stamped_cleanState⟩
  · exact h id' peer hget

variable [DecidableEq W] {room : RoomAwareness W F}

/-- What `accept` stores and relays is stamped. -/
theorem accepting_stamped (h : PeersStamped logins room.peers) (ws : W)
    (entries : List (AwarenessEntry F)) :
    PeersStamped logins (accepting ws room (logins ws) entries).peers ∧
      ∀ e ∈ (accepting ws room (logins ws) entries).accepted, ∀ state, e.state = some state →
        Stamped (logins ws) state := by
  apply accepting_induction (P := fun s => PeersStamped logins s.peers ∧
    ∀ e ∈ s.accepted, ∀ state, e.state = some state → Stamped (logins ws) state)
  · exact ⟨h, nofun⟩
  · intro s entry s' _ hs hstep
    have hconcat : ∀ e' : AwarenessEntry F, (∀ state, e'.state = some state →
        Stamped (logins ws) state) → ∀ e ∈ s.accepted ++ [e'], ∀ state, e.state = some state →
          Stamped (logins ws) state := by
      intro e' he' e he
      rcases List.mem_append.1 he with he | he
      · exact hs.2 e he
      · rwa [List.mem_singleton.1 he]
    cases hstep with
    | ignored => exact hs
    | removed peer =>
      exact ⟨hs.1.erase _, hconcat _ nofun⟩
    | moved peer state =>
      refine ⟨hs.1.set ws _ _ _, hconcat _ ?_⟩
      rintro _ ⟨⟩
      exact stamped_cleanState
    | added state =>
      refine ⟨hs.1.set ws _ _ _, hconcat _ ?_⟩
      rintro _ ⟨⟩
      exact stamped_cleanState

theorem peersStamped_drop (h : PeersStamped logins room.peers) (ws : W) :
    PeersStamped logins (room.drop ws).2.peers := by
  intro id peer hget
  rw [get?_drop] at hget
  exact h id peer (Option.filter_eq_some_iff.1 hget).1

theorem peersStamped_of_reachable (h : (cursors (F := F) logins).Reachable room) :
    PeersStamped logins room.peers := by
  apply h.induction
  · exact nofun
  · rintro room call room' - hroom - ⟨⟩
    cases call with
    | accept ws entries => exact (accepting_stamped hroom ws entries).1
    | drop ws => exact peersStamped_drop hroom ws

/-- `accept` leaves the entries of other users alone, and relays none of them. -/
theorem accepting_frame {ws : W} {login : Login} {entries : List (AwarenessEntry F)} {id : ClientId}
    {peer : Peer W F} (hget : room.peers.get? id = some peer) (huser : peer.userId ≠ login.userId) :
    (accepting ws room login entries).peers.get? id = some peer ∧
      ∀ e ∈ (accepting ws room login entries).accepted, e.clientId ≠ id := by
  apply accepting_induction (P := fun s => s.peers.get? id = some peer ∧
    ∀ e ∈ s.accepted, e.clientId ≠ id)
  · exact ⟨hget, nofun⟩
  · intro s entry s' _ hs hstep
    -- the entry is of another id, for what its id has is the user's own or nothing
    have hconcat : ∀ e' : AwarenessEntry F, e'.clientId ≠ id →
        ∀ e ∈ s.accepted ++ [e'], e.clientId ≠ id := by
      intro e' he' e he
      rcases List.mem_append.1 he with he | he
      · exact hs.2 e he
      · rwa [List.mem_singleton.1 he]
    have hother : ∀ other, s.peers.get? entry.clientId = other →
        (∀ p, other = some p → p.userId = login.userId) → id ≠ entry.clientId := by
      rintro other hother hown rfl
      rw [hs.1] at hother
      exact huser (hown peer hother.symm)
    cases hstep with
    | ignored => exact hs
    | removed p hp hu =>
      have hne := hother _ hp (by rintro _ ⟨⟩; exact hu)
      exact ⟨(Dict.get?_erase_of_ne hne).trans hs.1, hconcat _ hne.symm⟩
    | moved p state hp hu =>
      have hne := hother _ hp (by rintro _ ⟨⟩; exact hu)
      exact ⟨(Dict.get?_set_of_ne hne).trans hs.1, hconcat _ hne.symm⟩
    | added state hp =>
      have hne := hother _ hp nofun
      exact ⟨(Dict.get?_set_of_ne hne).trans hs.1, hconcat _ hne.symm⟩

/-- **Cursors cannot be forged or tampered with**, whoever announces and leaves in whatever order: the
state of every entry says who its socket is logged in as, no call changes, removes or relays an entry
of another user, what is relayed says who its socket is, and a socket that leaves takes exactly its
own entries with it. -/
theorem cursors_not_forged (h : (cursors (F := F) logins).Reachable room) :
    PeersStamped logins room.peers ∧
    (∀ call : CursorCall W F,
      (∀ id peer, room.peers.get? id = some peer →
        peer.userId ≠ (logins call.socket).userId →
          (call.run logins room).2.peers.get? id = some peer ∧
            ∀ e ∈ (call.run logins room).1, e.clientId ≠ id) ∧
      ∀ e ∈ (call.run logins room).1, ∀ state, e.state = some state →
        Stamped (logins call.socket) state) ∧
    ∀ ws : W,
      (∀ id, (room.drop ws).2.peers.get? id =
        (room.peers.get? id).filter fun peer => peer.ws ≠ ws) ∧
      (∀ e, e ∈ (room.drop ws).1 ↔ ∃ peer, room.peers.get? e.clientId = some peer ∧ peer.ws = ws ∧
        e.clock = peer.clock + 1 ∧ e.state = none) ∧
      ((room.drop ws).1.map (·.clientId)).Nodup := by
  have hroom := peersStamped_of_reachable h
  refine ⟨hroom, ?_, fun ws => ⟨get?_drop room, fun e => mem_drop_iff, nodup_drop room⟩⟩
  intro call
  cases call with
  | accept ws entries =>
    exact ⟨fun id peer hget huser => accepting_frame hget huser,
      (accepting_stamped hroom ws entries).2⟩
  | drop ws =>
    constructor
    · intro id peer hget huser
      -- an entry of another user is not of this socket
      have hws : peer.ws ≠ ws := by
        rintro rfl
        exact huser (hroom id peer hget).1
      constructor
      · change (room.drop ws).2.peers.get? id = some peer
        simp [get?_drop, hget, Option.filter, hws]
      · intro e he heq
        obtain ⟨peer', hget', hws', -⟩ := mem_drop_iff.1 he
        rw [heq, hget] at hget'
        cases hget'
        exact hws hws'
    · intro e he state hstate
      obtain ⟨peer', -, -, -, hnone⟩ := mem_drop_iff.1 he
      rw [hnone] at hstate
      cases hstate

/-- A socket that announced a cursor at clock 3 leaves. -/
theorem cursors_not_forged_drop :
    ⟨7, 4, none⟩ ∈ ((({} : RoomAwareness Nat Empty).accept 0 ⟨1, "alice"⟩
      [⟨7, 3, some ∅⟩]).2.drop 0).1 := by
  have hstep : (cursors (F := Empty) fun _ : Nat => ⟨1, "alice"⟩).Reachable
      (({} : RoomAwareness Nat Empty).accept 0 ⟨1, "alice"⟩ [⟨7, 3, some ∅⟩]).2 :=
    Relation.ReflTransGen.single ⟨.accept 0 [⟨7, 3, some ∅⟩], trivial, rfl⟩
  exact (((cursors_not_forged hstep).2.2 0).2.1 _).2 ⟨_, rfl, rfl, rfl, rfl⟩

end Ownership

section Cap

variable {W F : Type} [DecidableEq W] {ws ws' : W} {login : Login} {room : RoomAwareness W F}
  {peers : Dict ClientId (Peer W F)} {entries : List (AwarenessEntry F)}

variable (ws) in
theorem owns_set_of_none {id : ClientId} (h : peers.get? id = none) (peer : Peer W F) :
    owns ws (peers.set id peer) = owns ws peers + if peer.ws = ws then 1 else 0 := by
  unfold owns
  rw [Dict.countP_set_of_none _ h]
  simp

variable (ws) in
theorem owns_set_of_some {id : ClientId} {old : Peer W F} (h : peers.get? id = some old)
    (peer : Peer W F) :
    owns ws (peers.set id peer) + (if old.ws = ws then 1 else 0) =
      owns ws peers + if peer.ws = ws then 1 else 0 := by
  unfold owns
  simpa using Dict.countP_set_of_some (v := peer) (fun item => item.2.ws = ws) h

variable (ws) in
theorem owns_erase_of_some {id : ClientId} {peer : Peer W F} (h : peers.get? id = some peer) :
    owns ws (peers.erase id) + (if peer.ws = ws then 1 else 0) = owns ws peers := by
  unfold owns
  simpa using Dict.countP_erase_of_some (fun item => item.2.ws = ws) h

/-- No socket comes to own more by what another one announces. -/
theorem owns_accepting_le (hne : ws' ≠ ws) :
    owns ws' (accepting ws room login entries).peers ≤ owns ws' room.peers := by
  apply accepting_induction (P := fun s => owns ws' s.peers ≤ owns ws' room.peers)
  · exact le_refl _
  · intro s entry s' _ hs hstep
    cases hstep with
    | ignored => exact hs
    | removed peer hget =>
      have hcount := owns_erase_of_some ws' hget
      dsimp only
      omega
    | moved peer state hget =>
      have hcount := owns_set_of_some ws' hget
        ⟨entry.clock, cleanState state login, ws, login.userId⟩
      rw [if_neg (Ne.symm hne)] at hcount
      dsimp only
      omega
    | added state hget =>
      dsimp only
      rw [owns_set_of_none _ hget, if_neg (Ne.symm hne)]
      exact hs

/-- The update takes a cursor over from another socket of the same user. -/
def TakesOver (room : RoomAwareness W F) (ws : W) (login : Login)
    (entries : List (AwarenessEntry F)) : Prop :=
  ∃ e ∈ entries, e.state.isSome ∧ ∃ peer, room.peers.get? e.clientId = some peer ∧
    peer.userId = login.userId ∧ peer.ws ≠ ws ∧ peer.clock ≤ e.clock

/-- The cursors a socket owns and those an update announces that are not another user's. -/
def ownedOrAnnounced (room : RoomAwareness W F) (ws : W) (login : Login)
    (entries : List (AwarenessEntry F)) : List ClientId :=
  (((room.peers.items.filter fun item => item.2.ws = ws).map Prod.fst) ++
    ((entries.filter fun e => e.state.isSome &&
      (room.peers.get? e.clientId).all fun peer => peer.userId = login.userId).map
        (·.clientId))).dedup

/-- An update that takes a cursor over leaves its socket with no more than it may own. -/
def CursorCall.Counted (logins : W → Login) (room : RoomAwareness W F) : CursorCall W F → Prop
  | accept ws entries => TakesOver room ws (logins ws) entries →
      (ownedOrAnnounced room ws (logins ws) entries).length ≤ maxClientsPerConnection
  | drop _ => True

/-- What the loop of `accept` leaves of the room's entries. -/
structure KeepsPeers (room : RoomAwareness W F) (ws : W) (login : Login)
    (peers : Dict ClientId (Peer W F)) : Prop where
  /-- What another socket owns it owned before. -/
  others : ∀ id peer, peers.get? id = some peer → peer.ws ≠ ws → room.peers.get? id = some peer
  /-- What another user owns it still owns. -/
  foreign : ∀ id peer, room.peers.get? id = some peer → peer.userId ≠ login.userId →
    peers.get? id = some peer

theorem KeepsPeers.step {s s' : Accepting W F} {entry : AwarenessEntry F}
    (h : KeepsPeers room ws login s.peers) (hstep : EntryStep ws login s entry s') :
    KeepsPeers room ws login s'.peers := by
  have hown : ∀ other, s.peers.get? entry.clientId = other →
      (∀ p, other = some p → p.userId = login.userId) → ∀ id peer,
        room.peers.get? id = some peer → peer.userId ≠ login.userId → id ≠ entry.clientId := by
    rintro other hother hp id peer hget huser rfl
    rw [h.foreign _ peer hget huser] at hother
    exact huser (hp peer hother.symm)
  have hset : ∀ peer : Peer W F, peer.ws = ws → ∀ id p,
      (s.peers.set entry.clientId peer).get? id = some p → p.ws ≠ ws →
        room.peers.get? id = some p := by
    intro peer hpeer id p hget hws
    rw [Dict.get?_set] at hget
    split at hget
    · cases hget
      exact absurd hpeer hws
    · exact h.others id p hget hws
  cases hstep with
  | ignored => exact h
  | removed p hp hu =>
    constructor
    · intro id peer hget hws
      rw [Dict.get?_erase] at hget
      split at hget
      · cases hget
      · exact h.others id peer hget hws
    · intro id peer hget huser
      have hne := hown _ hp (by rintro _ ⟨⟩; exact hu) id peer hget huser
      rw [Dict.get?_erase_of_ne hne]
      exact h.foreign id peer hget huser
  | moved p state hp hu =>
    constructor
    · exact hset _ rfl
    · intro id peer hget huser
      have hne := hown _ hp (by rintro _ ⟨⟩; exact hu) id peer hget huser
      rw [Dict.get?_set_of_ne hne]
      exact h.foreign id peer hget huser
  | added state hp =>
    constructor
    · exact hset _ rfl
    · intro id peer hget huser
      have hne := hown _ hp (by rintro _ ⟨⟩) id peer hget huser
      rw [Dict.get?_set_of_ne hne]
      exact h.foreign id peer hget huser

/-- Where no cursor is taken over, the loop's count is right, and the socket stays below its limit. -/
theorem owns_accepting_of_not_takesOver (h : owns ws room.peers ≤ maxClientsPerConnection)
    (htake : ¬TakesOver room ws login entries) :
    owns ws (accepting ws room login entries).peers ≤ maxClientsPerConnection := by
  have hloop : KeepsPeers room ws login (accepting ws room login entries).peers ∧
      (accepting ws room login entries).owned =
        owns ws (accepting ws room login entries).peers ∧
      owns ws (accepting ws room login entries).peers ≤ maxClientsPerConnection := by
    apply accepting_induction (P := fun s => KeepsPeers room ws login s.peers ∧
      s.owned = owns ws s.peers ∧ owns ws s.peers ≤ maxClientsPerConnection)
    · exact ⟨⟨fun _ _ hget _ => hget, fun _ _ hget _ => hget⟩, rfl, h⟩
    · rintro s entry s' hentry ⟨hkeeps, howned, hle⟩ hstep
      refine ⟨hkeeps.step hstep, ?_⟩
      cases hstep with
      | ignored => exact ⟨howned, hle⟩
      | removed peer hget =>
        have hcount := owns_erase_of_some ws hget
        dsimp only
        split at hcount
        · next hws =>
          rw [if_pos hws]
          omega
        · next hws =>
          rw [if_neg hws]
          omega
      | moved peer state hget huser hclock hstate =>
        have hws : peer.ws = ws := by
          by_contra hws
          exact htake ⟨entry, hentry, by rw [hstate]; rfl, peer,
            hkeeps.others _ _ hget hws, huser, hws, hclock⟩
        have hcount := owns_set_of_some ws hget
          ⟨entry.clock, cleanState state login, ws, login.userId⟩
        rw [if_pos hws, if_pos rfl] at hcount
        dsimp only
        omega
      | added state hget hlimit =>
        have hcount := owns_set_of_none ws hget
          ⟨entry.clock, cleanState state login, ws, login.userId⟩
        rw [if_pos rfl] at hcount
        dsimp only
        omega
  exact hloop.2.2

/-- What a socket owns after `accept` it owned or announced. -/
theorem mem_ownedOrAnnounced {id : ClientId} {peer : Peer W F}
    (hget : (accepting ws room login entries).peers.get? id = some peer) (hws : peer.ws = ws) :
    id ∈ ownedOrAnnounced room ws login entries := by
  have hloop : KeepsPeers room ws login (accepting ws room login entries).peers ∧
      ∀ id peer, (accepting ws room login entries).peers.get? id = some peer → peer.ws = ws →
        id ∈ ownedOrAnnounced room ws login entries := by
    apply accepting_induction (P := fun s => KeepsPeers room ws login s.peers ∧
      ∀ id peer, s.peers.get? id = some peer → peer.ws = ws → id ∈ ownedOrAnnounced room ws login entries)
    · refine ⟨⟨fun _ _ hget _ => hget, fun _ _ hget _ => hget⟩, ?_⟩
      intro id peer hget hws
      apply List.mem_dedup.2
      apply List.mem_append_left
      rw [List.mem_map]
      exact ⟨(id, peer), List.mem_filter.2 ⟨Dict.mem_items_iff.2 hget, by simpa using hws⟩, rfl⟩
    · rintro s entry s' hentry ⟨hkeeps, hmem⟩ hstep
      refine ⟨hkeeps.step hstep, ?_⟩
      have hannounced : entry.state.isSome → (∀ p, s.peers.get? entry.clientId = some p →
          p.userId = login.userId) → entry.clientId ∈ ownedOrAnnounced room ws login entries := by
        intro hstate hown
        apply List.mem_dedup.2
        apply List.mem_append_right
        rw [List.mem_map]
        refine ⟨entry, List.mem_filter.2 ⟨hentry, ?_⟩, rfl⟩
        rw [hstate, Bool.true_and, Option.all_eq_true]
        intro p hp
        by_contra huser
        have huser : p.userId ≠ login.userId := by simpa using huser
        exact huser (hown p (hkeeps.foreign _ p hp huser))
      have hset : entry.clientId ∈ ownedOrAnnounced room ws login entries → ∀ new : Peer W F, ∀ id peer,
          (s.peers.set entry.clientId new).get? id = some peer → peer.ws = ws →
            id ∈ ownedOrAnnounced room ws login entries := by
        intro hentry new id peer hget hws
        rw [Dict.get?_set] at hget
        split at hget
        · next hid =>
          rw [hid]
          exact hentry
        · exact hmem id peer hget hws
      cases hstep with
      | ignored => exact hmem
      | removed p hp =>
        intro id peer hget hws
        rw [Dict.get?_erase] at hget
        split at hget
        · cases hget
        · exact hmem id peer hget hws
      | moved p state hp huser hclock hstate =>
        apply hset
        apply hannounced
        · rw [hstate]
          rfl
        · intro q hq
          rw [hp] at hq
          cases hq
          exact huser
      | added state hp hlimit hstate =>
        apply hset
        apply hannounced
        · rw [hstate]
          rfl
        · intro q hq
          rw [hp] at hq
          cases hq
  exact hloop.2 id peer hget hws

theorem owns_accepting_le_ownedOrAnnounced :
    owns ws (accepting ws room login entries).peers ≤ (ownedOrAnnounced room ws login entries).length := by
  unfold owns
  rw [List.countP_eq_length_filter, ← List.length_map (f := Prod.fst)]
  apply List.Subperm.length_le
  apply List.subperm_of_subset
  · exact (accepting ws room login entries).peers.nodup.sublist (List.filter_sublist.map _)
  · intro id hid
    obtain ⟨⟨id', peer⟩, hmem, rfl⟩ := List.mem_map.1 hid
    rw [List.mem_filter, Dict.mem_items_iff] at hmem
    exact mem_ownedOrAnnounced hmem.1 (by simpa using hmem.2)

theorem owns_drop_le (room : RoomAwareness W F) :
    owns ws' (room.drop ws).2.peers ≤ owns ws' room.peers := by
  unfold owns
  rw [List.countP_eq_length_filter, List.countP_eq_length_filter]
  apply List.Subperm.length_le
  apply List.subperm_of_subset
  · exact (Dict.nodup_items _).filter _
  · rintro ⟨id, peer⟩ hmem
    rw [List.mem_filter, Dict.mem_items_iff, get?_drop] at hmem
    rw [List.mem_filter, Dict.mem_items_iff]
    exact ⟨(Option.filter_eq_some_iff.1 hmem.1).1, hmem.2⟩

/-- **A socket owns no more cursors than it may**, in every run whose updates take a cursor over from
another socket only where what their socket owns and announces is within its limit. -/
theorem connection_cap {logins : W → Login}
    (h : (cursors logins).ReachableUnder (CursorCall.Counted logins) room) (ws : W) :
    owns ws room.peers ≤ maxClientsPerConnection := by
  revert ws
  apply h.induction (P := fun room => ∀ ws, owns ws room.peers ≤ maxClientsPerConnection)
  · intro ws
    exact Nat.zero_le _
  · rintro room call room' - hroom hcounted ⟨⟩ ws'
    cases call with
    | accept ws entries =>
      change owns ws' (accepting ws room (logins ws) entries).peers ≤ _
      by_cases hws : ws' = ws
      · subst hws
        by_cases htake : TakesOver room ws' (logins ws') entries
        · exact owns_accepting_le_ownedOrAnnounced.trans (hcounted htake)
        · exact owns_accepting_of_not_takesOver (hroom ws') htake
      · exact (owns_accepting_le hws).trans (hroom ws')
    | drop ws => exact (owns_drop_le room).trans (hroom ws')

/-- Two sockets of one user, one of which takes the other's only cursor over. -/
theorem connection_cap_reconnect :
    owns 1 (((({} : RoomAwareness Nat Empty).accept 0 ⟨1, "alice"⟩ [⟨7, 3, some ∅⟩]).2.accept 1
      ⟨1, "alice"⟩ [⟨7, 5, some ∅⟩]).2).peers ≤ maxClientsPerConnection := by
  have hrun : (cursors fun _ : Nat => ⟨1, "alice"⟩).ReachableUnder
      (CursorCall.Counted fun _ => ⟨1, "alice"⟩)
      ((({} : RoomAwareness Nat Empty).accept 0 ⟨1, "alice"⟩ [⟨7, 3, some ∅⟩]).2.accept 1
        ⟨1, "alice"⟩ [⟨7, 5, some ∅⟩]).2 := by
    apply Relation.ReflTransGen.tail (b := (({} : RoomAwareness Nat Empty).accept 0 ⟨1, "alice"⟩
      [⟨7, 3, some ∅⟩]).2)
    · apply Relation.ReflTransGen.single
      refine ⟨.accept 0 [⟨7, 3, some ∅⟩], ?_, rfl⟩
      intro _
      decide
    · refine ⟨.accept 1 [⟨7, 5, some ∅⟩], ?_, rfl⟩
      intro _
      decide
  exact connection_cap hrun 1

/-- A socket of a user announces four cursors and takes another four over. -/
theorem connection_cap_exceeded : ∃ room : RoomAwareness Nat Empty,
    (cursors fun _ => ⟨1, "alice"⟩).Reachable room ∧ ∃ ws, maxClientsPerConnection < owns ws room.peers := by
  have hrun : (((cursors fun _ : Nat => ⟨1, "alice"⟩).replay System.anyStep {}
      [.accept 0 [⟨1, 1, some ∅⟩, ⟨2, 1, some ∅⟩, ⟨3, 1, some ∅⟩, ⟨4, 1, some ∅⟩],
        .accept 1 [⟨5, 1, some ∅⟩, ⟨6, 1, some ∅⟩, ⟨7, 1, some ∅⟩, ⟨8, 1, some ∅⟩],
        .accept 1 [⟨1, 3, some ∅⟩, ⟨2, 3, some ∅⟩, ⟨3, 3, some ∅⟩, ⟨4, 3, some ∅⟩]]).any
      fun room : RoomAwareness Nat Empty => maxClientsPerConnection < owns 1 room.peers) = true := by
    decide
  obtain ⟨room, hreach, howns⟩ := System.exists_reachable hrun
  exact ⟨room, hreach, 1, by simpa using howns⟩

end Cap

end Concord
