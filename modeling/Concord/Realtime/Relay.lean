import Concord.Realtime.Cursors
import Concord.Realtime.Wire

/-!
# What can be relayed

Python's reader of JSON takes more than its writer and UTF-8 allow, and `_clean_state` passes a
selection and a cursor on as they were read. An update is relayed exactly when there is no surrogate
and no `NaN` or infinity in what it takes of them.
-/

namespace Concord

open Concord.Base RoomAwareness

section Clean

variable {F : Type} {login : Login} {state : JsonObject F}

theorem get?_copyField {clean : JsonObject F} {key key' : Str} :
    (copyField state clean key).get? key' =
      if key' = key then (state.get? key).or (clean.get? key) else clean.get? key' := by
  unfold copyField
  cases hget : state.get? key with
  | none =>
    dsimp only
    split
    · next h => rw [h, Option.none_or]
    · rfl
  | some v =>
    dsimp only
    rw [Dict.get?_set, Option.some_or]

theorem isText_of_matchesColor {color : Str} (h : matchesColor color = true) : IsText color := by
  cases color with
  | nil => exact isText_nil
  | cons hash rest =>
    simp only [matchesColor, Bool.and_eq_true, Bool.or_eq_true, beq_iff_eq, List.all_eq_true] at h
    obtain ⟨⟨⟨rfl, -⟩, hdigits⟩, hend⟩ := h
    have htake : IsText (rest.take 6) := by
      intro c hc
      have hdigit := hdigits c hc
      simp only [isHexDigit, Bool.or_eq_true, Bool.and_eq_true, decide_eq_true_eq] at hdigit
      simp only [isSurrogate, Bool.and_eq_false_iff, decide_eq_false_iff_not]
      omega
    have hdrop : IsText (rest.drop 6) := by
      rcases hend with hend | hend
      · rw [hend]
        exact isText_nil
      · rw [hend]
        exact isText_ofString _
    rw [← List.take_append_drop 6 rest]
    exact isText_cons.2 ⟨by decide, isText_append.2 ⟨htake, hdrop⟩⟩

/-- The values are numbers and texts, and none is in the place of one that is passed through. -/
def FromLogin (clean : JsonObject F) : Prop :=
  ∀ key v, clean.get? key = some v →
    key ∉ passthrough ∧ ((∃ n, v = .int n) ∨ ∃ s, v = .str s ∧ IsText s)

theorem FromLogin.set_str {clean : JsonObject F} (h : FromLogin clean) {key s : Str}
    (hkey : key ∉ passthrough) (hs : IsText s) : FromLogin (clean.set key (.str s)) := by
  intro key' v hget
  rw [Dict.get?_set] at hget
  split at hget
  · next heq =>
    cases hget
    exact ⟨heq ▸ hkey, .inr ⟨s, rfl, hs⟩⟩
  · exact h key' v hget

theorem fromLogin_userId (n : Int) :
    FromLogin ((∅ : JsonObject F).set (Str.ofString "user_id") (.int n)) := by
  intro key v hget
  rw [Dict.get?_set] at hget
  split at hget
  · next heq =>
    cases hget
    exact ⟨by rw [heq]; decide, .inl ⟨n, rfl⟩⟩
  · cases hget

variable (login state) in
/-- `_clean_state` passes values through on top of what the login and the color give. -/
theorem cleanState_eq : ∃ clean : JsonObject F, FromLogin clean ∧
    cleanState state login = passthrough.foldl (copyField state) clean := by
  have hname : Str.ofString "username" ∉ passthrough := by decide
  have hidentity := (fromLogin_userId (F := F) login.userId).set_str hname
    (isText_ofString login.username)
  refine ⟨_, ?_, rfl⟩
  split
  · split
    · next hcolor => exact hidentity.set_str (by decide) (isText_of_matchesColor hcolor)
    · exact hidentity
  · exact hidentity

/-- The values of a clean state are what is passed through, numbers and texts. -/
theorem get?_cleanState {key : Str} {v : Json F} (h : (cleanState state login).get? key = some v) :
    (key ∈ passthrough ∧ state.get? key = some v) ∨ (∃ n, v = .int n) ∨
      ∃ s, v = .str s ∧ IsText s := by
  obtain ⟨clean, hclean, heq⟩ := cleanState_eq login state
  have hcopied : ∀ (keys : List Str) (d : JsonObject F), (keys.foldl (copyField state) d).get? key =
      some v → key ∈ keys ∧ state.get? key = some v ∨ d.get? key = some v := by
    intro keys
    induction keys with
    | nil => exact fun _ h => .inr h
    | cons head keys ih =>
      intro d h
      rcases ih _ h with ⟨hmem, hget⟩ | hget
      · exact .inl ⟨List.mem_cons_of_mem _ hmem, hget⟩
      · rw [get?_copyField] at hget
        split at hget
        · next hkey =>
          subst hkey
          rcases Option.or_eq_some_iff.1 hget with hget | ⟨-, hget⟩
          · exact .inl ⟨List.mem_cons_self, hget⟩
          · exact .inr hget
        · exact .inr hget
  rw [heq] at h
  rcases hcopied passthrough clean h with h | h
  · exact .inl h
  · exact .inr (hclean key v h).2

theorem get?_cleanState_of_mem {key : Str} {v : Json F} (hkey : key ∈ passthrough)
    (h : state.get? key = some v) : (cleanState state login).get? key = some v := by
  have hfold : ∀ colored : JsonObject F,
      (passthrough.foldl (copyField state) colored).get? key = some v := by
    intro colored
    simp only [passthrough, List.mem_cons, List.not_mem_nil, or_false] at hkey
    rcases hkey with rfl | rfl
    · simp only [passthrough, List.foldl_cons, List.foldl_nil]
      rw [get?_copyField, if_neg (by decide), get?_copyField, if_pos rfl, h, Option.some_or]
    · simp only [passthrough, List.foldl_cons, List.foldl_nil]
      rw [get?_copyField, if_pos rfl, h, Option.some_or]
  exact hfold _

/-- What holds of numbers, of texts and of the clean state itself holds everywhere in the clean state
exactly when it does in what is passed through. -/
theorem everywhere_cleanState {P : Json F → Prop} (hint : ∀ n, P (.int n))
    (hstr : ∀ s, IsText s → P (.str s)) (hobj : P (.obj (cleanState state login).items)) :
    (Json.obj (cleanState state login).items).Everywhere P ↔
      ∀ key ∈ passthrough, ∀ v, state.get? key = some v → v.Everywhere P := by
  rw [Json.everywhere_iff]
  constructor
  · rintro ⟨-, h⟩ key hkey v hget
    exact h v (List.mem_map_of_mem (Dict.mem_items_iff.2 (get?_cleanState_of_mem hkey hget)))
  · intro h
    refine ⟨hobj, List.forall_mem_map.2 ?_⟩
    rintro ⟨key, v⟩ hmem
    rcases get?_cleanState (Dict.mem_items_iff.1 hmem) with ⟨hkey, hget⟩ | ⟨n, rfl⟩ | ⟨s, rfl, hs⟩
    · exact h key hkey v hget
    · exact Json.everywhere_iff.2 ⟨hint n, nofun⟩
    · exact Json.everywhere_iff.2 ⟨hstr s hs, nofun⟩

theorem distinctKeys_cleanState (h : (Json.obj state.items).Everywhere Json.DistinctKeys) :
    (Json.obj (cleanState state login).items).Everywhere Json.DistinctKeys := by
  rw [everywhere_cleanState (fun _ => trivial) (fun _ _ => trivial) (cleanState state login).nodup]
  intro key _ v hget
  exact (Json.everywhere_iff.1 h).2 v (List.mem_map_of_mem (Dict.mem_items_iff.2 hget))

end Clean

/-- Everything in the selection and the cursor of a state is of standard JSON, and UTF-8 can write
it. -/
def Relayable {F : Type} (state : JsonObject (PyFloat F)) : Prop :=
  ∀ key ∈ passthrough, ∀ v, state.get? key = some v → v.Everywhere StandardNode

theorem standard_cleanState {F : Type} {login : Login} {state : JsonObject (PyFloat F)} :
    (Json.obj (cleanState state login).items).Everywhere StandardNode ↔ Relayable state := by
  apply everywhere_cleanState
  · exact fun _ => ⟨trivial, trivial⟩
  · exact fun _ hs => ⟨hs, trivial⟩
  · refine ⟨?_, trivial⟩
    rintro ⟨key, v⟩ hmem
    have hkeys : ∀ key ∈ stateKeys, IsText key := List.forall_mem_map.2 fun s _ => isText_ofString s
    exact hkeys key (stamped_cleanState.keys key (List.mem_map_of_mem hmem))

namespace RoomAwareness

variable {W F : Type}

/-- The entry is not of another user's cursor, nor older than what the room has, nor of a cursor that
is unknown and gone or one too many. -/
def takes (login : Login) (s : Accepting W F) (entry : AwarenessEntry F) : Bool :=
  match s.peers.get? entry.clientId with
  | some peer => peer.userId = login.userId && peer.clock ≤ entry.clock
  | none => entry.state.isSome && s.owned < maxClientsPerConnection

/-- What `accept` relays of an entry that it takes. -/
def relayed (login : Login) (entry : AwarenessEntry F) : AwarenessEntry F :=
  ⟨entry.clientId, entry.clock, entry.state.map (cleanState · login)⟩

variable [DecidableEq W] {ws : W} {login : Login}

theorem accepted_acceptEntry (s : Accepting W F) (entry : AwarenessEntry F) :
    (acceptEntry ws login s entry).accepted =
      s.accepted ++ if takes login s entry then [relayed login entry] else [] := by
  obtain ⟨clientId, clock, state⟩ := entry
  cases hget : s.peers.get? clientId with
  | none =>
    cases state with
    | none => simp [acceptEntry, takes, hget]
    | some state =>
      simp only [acceptEntry, takes, hget]
      split
      · next h => simp [h]
      · next h => simp [relayed, not_le.1 h]
  | some peer =>
    simp only [acceptEntry, takes, hget]
    split
    · next h => simp [h]
    split
    · next h => simp [h]
    · next huser hclock =>
      cases state with
      | none => simp [relayed, not_not.1 huser, not_lt.1 hclock]
      | some state => simp [relayed, not_not.1 huser, not_lt.1 hclock]

/-- What the loop of `accept` takes from here on, each entry as the room is when its turn comes, can
be relayed. -/
def RelayableEntries (ws : W) (login : Login) :
    Accepting W (PyFloat F) → List (AwarenessEntry (PyFloat F)) → Prop
  | _, [] => True
  | s, entry :: rest =>
    (takes login s entry → ∀ state, entry.state = some state → Relayable state) ∧
      RelayableEntries ws login (acceptEntry ws login s entry) rest

/-- What `accept` takes of an update can be relayed. -/
def RelayableUpdate (room : RoomAwareness W (PyFloat F)) (ws : W) (login : Login)
    (entries : List (AwarenessEntry (PyFloat F))) : Prop :=
  RelayableEntries ws login { peers := room.peers, owned := owns ws room.peers } entries

variable (login) in
omit [DecidableEq W] in
theorem standard_relayed {entry : AwarenessEntry (PyFloat F)} :
    (stateJson (relayed login entry).state).Everywhere StandardNode ↔
      ∀ state, entry.state = some state → Relayable state := by
  unfold relayed
  cases entry.state with
  | none =>
    constructor
    · intro _
      exact nofun
    · intro _
      exact Json.everywhere_iff.2 ⟨⟨trivial, trivial⟩, nofun⟩
  | some state =>
    rw [Option.map_some, stateJson, standard_cleanState]
    simp

theorem standard_foldl_iff {s : Accepting W (PyFloat F)} {entries : List (AwarenessEntry (PyFloat F))} :
    (∀ e ∈ (entries.foldl (acceptEntry ws login) s).accepted,
      (stateJson e.state).Everywhere StandardNode) ↔
    (∀ e ∈ s.accepted, (stateJson e.state).Everywhere StandardNode) ∧
      RelayableEntries ws login s entries := by
  induction entries generalizing s with
  | nil => exact (and_iff_left trivial).symm
  | cons entry rest ih =>
    have hentry : (∀ e ∈ (if takes login s entry then [relayed login entry] else []),
        (stateJson e.state).Everywhere StandardNode) ↔
          (takes login s entry → ∀ state, entry.state = some state → Relayable state) := by
      rw [← standard_relayed login]
      split
      · next h => simp [h]
      · next h => simp [h]
    rw [List.foldl_cons, ih, accepted_acceptEntry, List.forall_mem_append, hentry, and_assoc,
      RelayableEntries]

/-- What `accept` returns has no key twice if what it was given has none. -/
theorem distinctKeys_accepted {room : RoomAwareness W (PyFloat F)}
    {entries : List (AwarenessEntry (PyFloat F))}
    (h : ∀ e ∈ entries, (stateJson e.state).Everywhere Json.DistinctKeys) :
    ∀ e ∈ (room.accept ws login entries).1, (stateJson e.state).Everywhere Json.DistinctKeys := by
  apply accepting_induction (P := fun s => ∀ e ∈ s.accepted,
    (stateJson e.state).Everywhere Json.DistinctKeys)
  · exact nofun
  · intro s entry s' hentry hs hstep
    cases hstep with
    | ignored => exact hs
    | removed peer =>
      rw [List.forall_mem_append]
      exact ⟨hs, List.forall_mem_singleton.2 (Json.everywhere_iff.2 ⟨trivial, nofun⟩)⟩
    | moved peer state hget huser hclock hstate =>
      rw [List.forall_mem_append]
      have hdistinct := h entry hentry
      rw [hstate] at hdistinct
      exact ⟨hs, List.forall_mem_singleton.2 (distinctKeys_cleanState hdistinct)⟩
    | added state hget howned hstate =>
      rw [List.forall_mem_append]
      have hdistinct := h entry hentry
      rw [hstate] at hdistinct
      exact ⟨hs, List.forall_mem_singleton.2 (distinctKeys_cleanState hdistinct)⟩

/-! ## Over runs -/

/-- What the room has of its cursors can be relayed. -/
def PeersRelayable (peers : Dict ClientId (Peer W (PyFloat F))) : Prop :=
  ∀ id peer, peers.get? id = some peer →
    (Json.obj peer.state.items).Everywhere Json.DistinctKeys ∧
      (Json.obj peer.state.items).Everywhere StandardNode

omit [DecidableEq W] in
theorem PeersRelayable.erase {peers : Dict ClientId (Peer W (PyFloat F))}
    (h : PeersRelayable peers) (id : ClientId) : PeersRelayable (peers.erase id) := by
  intro id' peer hget
  rw [Dict.get?_erase] at hget
  split at hget
  · cases hget
  · exact h id' peer hget

omit [DecidableEq W] in
theorem PeersRelayable.set {peers : Dict ClientId (Peer W (PyFloat F))} (h : PeersRelayable peers)
    (id : ClientId) {peer : Peer W (PyFloat F)}
    (hdistinct : (Json.obj peer.state.items).Everywhere Json.DistinctKeys)
    (hstandard : (Json.obj peer.state.items).Everywhere StandardNode) :
    PeersRelayable (peers.set id peer) := by
  intro id' peer' hget
  rw [Dict.get?_set] at hget
  split at hget
  · cases hget
    exact ⟨hdistinct, hstandard⟩
  · exact h id' peer' hget

theorem peersRelayable_acceptEntry {s : Accepting W (PyFloat F)}
    {entry : AwarenessEntry (PyFloat F)} (h : PeersRelayable s.peers)
    (hdistinct : (stateJson entry.state).Everywhere Json.DistinctKeys)
    (htakes : takes login s entry → ∀ state, entry.state = some state → Relayable state) :
    PeersRelayable (acceptEntry ws login s entry).peers := by
  have hclean : ∀ state, entry.state = some state → takes login s entry →
      (Json.obj (cleanState state login).items).Everywhere Json.DistinctKeys ∧
        (Json.obj (cleanState state login).items).Everywhere StandardNode := by
    intro state hstate htaken
    rw [hstate] at hdistinct
    exact ⟨distinctKeys_cleanState hdistinct, standard_cleanState.2 (htakes htaken state hstate)⟩
  have hstep : EntryStep ws login s entry (acceptEntry ws login s entry) := entryStep s entry
  generalize acceptEntry ws login s entry = s' at hstep ⊢
  cases hstep with
  | ignored => exact h
  | removed peer => exact h.erase _
  | moved peer state hget huser hclock hstate =>
    have htaken : takes login s entry = true := by simp [takes, hget, huser, hclock]
    exact h.set _ (hclean state hstate htaken).1 (hclean state hstate htaken).2
  | added state hget howned hstate =>
    have htaken : takes login s entry = true := by simp [takes, hget, hstate, howned]
    exact h.set _ (hclean state hstate htaken).1 (hclean state hstate htaken).2

theorem peersRelayable_foldl {s : Accepting W (PyFloat F)}
    {entries : List (AwarenessEntry (PyFloat F))} (h : PeersRelayable s.peers)
    (hdistinct : ∀ e ∈ entries, (stateJson e.state).Everywhere Json.DistinctKeys)
    (hrelayable : RelayableEntries ws login s entries) :
    PeersRelayable (entries.foldl (acceptEntry ws login) s).peers := by
  induction entries generalizing s with
  | nil => exact h
  | cons entry rest ih =>
    apply ih
    · exact peersRelayable_acceptEntry h (hdistinct entry List.mem_cons_self) hrelayable.1
    · exact fun e he => hdistinct e (List.mem_cons_of_mem _ he)
    · exact hrelayable.2

theorem distinctKeys_snapshot {room : RoomAwareness W (PyFloat F)} (h : PeersRelayable room.peers)
    (exclude : Option W) : ∀ e ∈ room.snapshot exclude,
      (stateJson e.state).Everywhere Json.DistinctKeys ∧
        (stateJson e.state).Everywhere StandardNode := by
  refine List.forall_mem_map.2 ?_
  rintro ⟨id, peer⟩ hmem
  exact h id peer (Dict.mem_items_iff.1 (List.mem_of_mem_filter hmem))

end RoomAwareness

/-- What a socket announces was decoded, and what is taken of it can be relayed. -/
def CursorCall.Relayable {W F : Type} [DecidableEq W] (floats : Floats F) (logins : W → Login)
    (room : RoomAwareness W (PyFloat F)) : CursorCall W (PyFloat F) → Prop
  | accept ws entries => (∃ data, decodeUpdate floats data = .ok entries) ∧
      room.RelayableUpdate ws (logins ws) entries
  | drop _ => True

section Relay

variable {W F : Type} [DecidableEq W] (floats : Floats F) (logins : W → Login)

theorem peersRelayable_of_reachable {room : RoomAwareness W (PyFloat F)}
    (h : (cursors logins).ReachableUnder (CursorCall.Relayable floats logins) room) :
    PeersRelayable room.peers := by
  apply h.induction
  · exact nofun
  · rintro room call room' - hroom hcall ⟨⟩
    cases call with
    | accept ws entries =>
      obtain ⟨⟨data, hdata⟩, hrelayable⟩ := hcall
      exact peersRelayable_foldl hroom (distinctKeys_decodeUpdate floats hdata) hrelayable
    | drop ws =>
      intro id peer hget
      change (room.drop ws).2.peers.get? id = some peer at hget
      rw [get?_drop] at hget
      exact hroom id peer (Option.filter_eq_some_iff.1 hget).1

/-- **What the server accepts it can relay, exactly when it takes no surrogate and no `NaN` or
infinity**: what `accept` returns of an update that was decoded is encoded without raising and read
back by a decoder that keeps to the standards, whatever the room has, exactly when everything it
takes in a selection or a cursor is of standard JSON and has UTF-8; and where that holds of every
update so far, every snapshot is relayed as well. -/
theorem relays_iff :
    (∀ (room : RoomAwareness W (PyFloat F)) (ws : W) (login : Login) data entries,
      decodeUpdate floats data = .ok entries →
        (Relays floats (room.accept ws login entries).1 ↔
          room.RelayableUpdate ws login entries)) ∧
    ∀ room, (cursors logins).ReachableUnder (CursorCall.Relayable floats logins) room →
      ∀ exclude, Relays floats (room.snapshot exclude) := by
  constructor
  · intro room ws login data entries hdata
    rw [relays_iff_standard floats
      (distinctKeys_accepted (distinctKeys_decodeUpdate floats hdata))]
    exact standard_foldl_iff.trans (and_iff_right nofun)
  · intro room hroom exclude
    have hsnapshot := distinctKeys_snapshot (peersRelayable_of_reachable floats logins hroom) exclude
    exact (relays_iff_standard floats fun e he => (hsnapshot e he).1).2 fun e he =>
      (hsnapshot e he).2

/-! ## An update that is accepted and cannot be relayed -/

/-- Floats of which only `0.5` is finite. -/
def halves : Floats Unit where
  ofText text := if text = Str.ofString "0.5" then .finite () else .infinity
  repr _ := ⟨false, 0, [5], none, by decide, nofun⟩
  ofText_repr := by
    rintro ⟨⟩
    rfl

/-! ## One update that is relayed and one that is not -/

/-- One entry of client 7 at clock 1. -/
def oneEntry (state : String) : List UInt8 :=
  let raw := state.toList.map fun c => UInt8.ofNat c.toNat
  [1, 7, 1, UInt8.ofNat raw.length] ++ raw

/-- What is passed through of the state are finite floats. -/
def passesFloats {F : Type} (state : JsonObject (PyFloat F)) : Bool :=
  passthrough.all fun key => (state.get? key).all fun
    | .float (.finite _) => true
    | _ => false

theorem relayable_of_passesFloats {F : Type} {state : JsonObject (PyFloat F)}
    (h : passesFloats state = true) : Relayable state := by
  intro key hkey v hget
  have hv := List.all_eq_true.1 h key hkey
  rw [hget, Option.all_some] at hv
  split at hv
  · next x => exact Json.everywhere_iff.2 ⟨⟨trivial, x, rfl⟩, nofun⟩
  · cases hv

/-- A cursor at 0.5. -/
theorem relays_iff_half : ∃ entries,
    decodeUpdate halves (oneEntry "\x7b\"cursor\":0.5\x7d") = .ok entries ∧
      Relays halves (({} : RoomAwareness Nat (PyFloat Unit)).accept 0 ⟨1, "alice"⟩ entries).1 := by
  obtain ⟨entries, hdecode, hentries⟩ := except_exists_ok
    (x := decodeUpdate halves (oneEntry "\x7b\"cursor\":0.5\x7d"))
    (p := fun entries => entries.length == 1 && entries.all fun entry => entry.state.all passesFloats)
    (by decide +kernel)
  refine ⟨entries, hdecode, ((relays_iff halves fun _ : Nat => ⟨1, "alice"⟩).1 _ _ _ _ _ hdecode).2 ?_⟩
  obtain ⟨hone, hpass⟩ := (Bool.and_eq_true _ _).mp hentries
  obtain ⟨entry, rfl⟩ := List.length_eq_one_iff.1 (eq_of_beq hone)
  refine ⟨fun _ state hstate => ?_, trivial⟩
  have hstatePass := List.all_eq_true.1 hpass entry List.mem_cons_self
  rw [hstate, Option.all_some] at hstatePass
  exact relayable_of_passesFloats hstatePass

/-- A selection that is half a surrogate pair is accepted, and encoding what is relayed raises. -/
theorem relays_iff_surrogate : ∃ entries,
    decodeUpdate halves (oneEntry "\x7b\"selection\":\"\\ud800\"\x7d") = .ok entries ∧
      ¬Relays halves
        (({} : RoomAwareness Nat (PyFloat Unit)).accept 0 ⟨1, "alice"⟩ entries).1 := by
  obtain ⟨entries, hdecode, hencode⟩ := except_exists_ok
    (x := decodeUpdate halves (oneEntry "\x7b\"selection\":\"\\ud800\"\x7d"))
    (p := fun entries => (encodeUpdate halves
      (({} : RoomAwareness Nat (PyFloat Unit)).accept 0 ⟨1, "alice"⟩ entries).1).isNone)
    (by decide +kernel)
  refine ⟨entries, hdecode, ?_⟩
  rintro ⟨data, hdata, -⟩
  rw [hdata] at hencode
  cases hencode

end Relay

end Concord
