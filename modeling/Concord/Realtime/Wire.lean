import Concord.Base.JsonTexts
import Concord.Realtime.Awareness

/-!
# Awareness updates on the wire

`decode_update` and `encode_update` of `realtime/awareness.py`. The wire format is the y-protocols
one: a varint entry count, then per entry a varint client id, a varint clock and a length-prefixed
JSON state, `null` for a client that is gone.
-/

namespace Concord

open Concord.Base

/-- `AwarenessError`. -/
structure AwarenessError where
  message : String
deriving DecidableEq, Repr

def maxUpdateBytes : Nat := 8 * 1024

def maxStateBytes : Nat := 4 * 1024

def maxEntriesPerUpdate : Nat := 8

/-- `_MAX_VARINT_BITS`: five bytes, enough for any uint32 id or clock. -/
def maxVarintBits : Nat := 28

/-- The loop of `_read_var_uint`; a reader need not bound the bits. -/
def readVarUint (maxBits : Option Nat) :
    Nat → Nat → List UInt8 → Except AwarenessError (Nat × List UInt8)
  | _, _, [] => .error ⟨"truncated update"⟩
  | result, shift, byte :: rest =>
    let result := result ||| (byte.toNat &&& 0x7F) <<< shift
    if byte.toNat < 0x80 then .ok (result, rest)
    else if maxBits.any (· < shift + 7) then .error ⟨"number too long"⟩
    else readVarUint maxBits result (shift + 7) rest

/-- `_write_var_uint`. -/
def writeVarUint (n : Nat) : List UInt8 :=
  if n > 0x7F then UInt8.ofNat (0x80 ||| n &&& 0x7F) :: writeVarUint (n >>> 7)
  else [UInt8.ofNat n]
termination_by n
decreasing_by
  rw [Nat.shiftRight_eq_div_pow]
  omega

section Codec

variable {F : Type} (floats : Floats F)

/-- The state of an entry; `constants` says whether the reader of JSON knows Python's. -/
def readState (constants : Bool) (raw : List UInt8) :
    Except AwarenessError (Option (JsonObject (PyFloat F))) :=
  match (decodeUtf8 raw).bind (Json.loads floats constants) with
  | none => .error ⟨"state is not JSON"⟩
  | some .null => .ok none
  | some (.obj fields) => .ok (some (Dict.ofItems fields))
  | some _ => .error ⟨"state must be an object or null"⟩

/-- The body of the loop in `decode_update`. -/
def decodeEntry (data : List UInt8) :
    Except AwarenessError (AwarenessEntry (PyFloat F) × List UInt8) := do
  let (clientId, data) ← readVarUint (some maxVarintBits) 0 0 data
  let (clock, data) ← readVarUint (some maxVarintBits) 0 0 data
  let (length, data) ← readVarUint (some maxVarintBits) 0 0 data
  if clientId ≥ 2 ^ 32 ∨ clock ≥ 2 ^ 32 then .error ⟨"id or clock out of range"⟩
  else if length > maxStateBytes ∨ length > data.length then .error ⟨"bad state length"⟩
  else do
    let state ← readState floats true (data.take length)
    pure (⟨clientId, clock, state⟩, data.drop length)

/-- The loop of `decode_update`. -/
def decodeEntries : Nat → List UInt8 →
    Except AwarenessError (List (AwarenessEntry (PyFloat F)) × List UInt8)
  | 0, data => pure ([], data)
  | count + 1, data => do
    let (entry, data) ← decodeEntry floats data
    let (entries, data) ← decodeEntries count data
    pure (entry :: entries, data)

/-- `decode_update`: parses an awareness update, rejecting anything oversized or malformed. -/
def decodeUpdate (data : List UInt8) : Except AwarenessError (List (AwarenessEntry (PyFloat F))) :=
  if data.length > maxUpdateBytes then .error ⟨"update too large"⟩
  else do
    let (count, data) ← readVarUint (some maxVarintBits) 0 0 data
    if count > maxEntriesPerUpdate then .error ⟨"too many entries"⟩
    else do
      let (entries, data) ← decodeEntries floats count data
      if data ≠ [] then .error ⟨"trailing bytes"⟩ else pure entries

/-- A state as a value of JSON. -/
def stateJson : Option (JsonObject (PyFloat F)) → Json (PyFloat F)
  | none => .null
  | some state => .obj state.items

/-- The bytes of an entry, unless encoding its state raises. -/
def encodeEntry (entry : AwarenessEntry (PyFloat F)) : Option (List UInt8) :=
  (encodeUtf8 (Json.dumps floats (stateJson entry.state))).map fun raw =>
    writeVarUint entry.clientId ++ writeVarUint entry.clock ++ writeVarUint raw.length ++ raw

/-- `encode_update`, unless it raises. -/
def encodeUpdate (entries : List (AwarenessEntry (PyFloat F))) : Option (List UInt8) :=
  (entries.mapM (encodeEntry floats)).map fun encoded =>
    writeVarUint entries.length ++ encoded.flatten

/-! ## What the other side reads -/

/-- An entry as a decoder reads it that keeps to the standards of UTF-8 and JSON. -/
def standardEntry (data : List UInt8) : Option (AwarenessEntry (PyFloat F) × List UInt8) := do
  let (clientId, data) ← (readVarUint none 0 0 data).toOption
  let (clock, data) ← (readVarUint none 0 0 data).toOption
  let (length, data) ← (readVarUint none 0 0 data).toOption
  if length > data.length then none
  else (readState floats false (data.take length)).toOption.map fun state =>
    (⟨clientId, clock, state⟩, data.drop length)

def standardEntries : Nat → List UInt8 → Option (List (AwarenessEntry (PyFloat F)) × List UInt8)
  | 0, data => some ([], data)
  | count + 1, data => do
    let (entry, data) ← standardEntry floats data
    let (entries, data) ← standardEntries count data
    some (entry :: entries, data)

/-- An update as such a decoder reads it. -/
def standardUpdate (data : List UInt8) : Option (List (AwarenessEntry (PyFloat F))) := do
  let (count, data) ← (readVarUint none 0 0 data).toOption
  let (entries, data) ← standardEntries floats count data
  if data = [] then some entries else none

/-- The entries can be encoded, and are what a decoder reads of their encoding that keeps to the
standards. -/
def Relays (entries : List (AwarenessEntry (PyFloat F))) : Prop :=
  ∃ data, encodeUpdate floats entries = some data ∧ standardUpdate floats data = some entries

end Codec

/-! ## Varints -/

theorem shiftLeft_low_or_high (n shift : Nat) :
    (n % 128) <<< shift ||| (n >>> 7) <<< (shift + 7) = n <<< shift := by
  have hsplit : n % 128 ||| (n >>> 7) <<< 7 = n := by
    rw [Nat.or_comm, ← Nat.shiftLeft_add_eq_or_of_lt (Nat.mod_lt n (by decide)),
      Nat.shiftLeft_eq, Nat.shiftRight_eq_div_pow]
    omega
  rw [Nat.add_comm shift 7, Nat.shiftLeft_add, ← Nat.shiftLeft_or_distrib, hsplit]

/-- What is written is read back, whatever follows it. -/
theorem readVarUint_writeVarUint (n result shift : Nat) (rest : List UInt8) :
    readVarUint none result shift (writeVarUint n ++ rest) = .ok (result ||| n <<< shift, rest) := by
  induction n using Nat.strong_induction_on generalizing result shift with
  | _ n ih =>
    have hlow : ∀ m, m &&& 0x7F = m % 128 := fun m => Nat.and_two_pow_sub_one_eq_mod m 7
    unfold writeVarUint
    split
    · next hn =>
      have hbyte : (UInt8.ofNat (0x80 ||| n &&& 0x7F)).toNat = 128 + n % 128 := by
        have hor : 0x80 ||| n % 128 = 128 + n % 128 :=
          (Nat.two_pow_add_eq_or_of_lt (i := 7) (Nat.mod_lt n (by decide)) 1).symm
        rw [hlow, hor, UInt8.toNat_ofNat']
        omega
      have hhigh : n >>> 7 < n := by
        rw [Nat.shiftRight_eq_div_pow]
        omega
      rw [List.cons_append, readVarUint, hbyte, if_neg (by omega)]
      dsimp only [Option.any]
      rw [if_neg Bool.false_ne_true, ih _ hhigh, hlow, Nat.add_mod_left, Nat.mod_mod,
        Nat.or_assoc, shiftLeft_low_or_high]
    · next hn =>
      have hbyte : (UInt8.ofNat n).toNat = n := by
        rw [UInt8.toNat_ofNat']
        omega
      rw [List.singleton_append, readVarUint, hbyte, if_pos (by omega), hlow,
        Nat.mod_eq_of_lt (by omega)]

theorem readVarUint_written (n : Nat) (rest : List UInt8) :
    (readVarUint none 0 0 (writeVarUint n ++ rest)).toOption = some (n, rest) := by
  rw [readVarUint_writeVarUint, Nat.zero_or, Nat.shiftLeft_zero]
  rfl

/-! ## What is written is read back -/

/-- The value itself is one of standard JSON that UTF-8 can write. -/
def StandardNode {F : Type} (v : Json (PyFloat F)) : Prop := v.TextNode ∧ v.FiniteFloat

section RoundTrip

variable {F : Type} (floats : Floats F)

theorem readState_dumps {state : Option (JsonObject (PyFloat F))} {raw : List UInt8}
    (hdistinct : (stateJson state).Everywhere Json.DistinctKeys)
    (hraw : encodeUtf8 (Json.dumps floats (stateJson state)) = some raw) :
    ((stateJson state).Everywhere Json.FiniteFloat →
      (readState floats false raw).toOption = some state) ∧
    (¬(stateJson state).Everywhere Json.FiniteFloat →
      (readState floats false raw).toOption = none) := by
  obtain ⟨hsome, hnone⟩ := Json.loads_dumps floats hdistinct
  unfold readState
  rw [decodeUtf8_encodeUtf8 hraw, Option.bind_some]
  constructor
  · intro hfin
    rw [hsome hfin]
    cases state with
    | none => rfl
    | some state =>
      dsimp only [stateJson]
      rw [Dict.ofItems_items]
      rfl
  · intro hnot
    rw [hnone hnot]
    rfl

theorem standardEntry_encoded {entry : AwarenessEntry (PyFloat F)} {encoded : List UInt8}
    (hdistinct : (stateJson entry.state).Everywhere Json.DistinctKeys)
    (h : encodeEntry floats entry = some encoded) (rest : List UInt8) :
    ((stateJson entry.state).Everywhere Json.FiniteFloat →
      standardEntry floats (encoded ++ rest) = some (entry, rest)) ∧
    (¬(stateJson entry.state).Everywhere Json.FiniteFloat →
      standardEntry floats (encoded ++ rest) = none) := by
  obtain ⟨raw, hraw, rfl⟩ := Option.map_eq_some_iff.1 h
  obtain ⟨hsome, hnone⟩ := readState_dumps floats hdistinct hraw
  have hread : standardEntry floats (writeVarUint entry.clientId ++ writeVarUint entry.clock ++
      writeVarUint raw.length ++ raw ++ rest) =
        (readState floats false raw).toOption.map fun state =>
          (⟨entry.clientId, entry.clock, state⟩, rest) := by
    have hlen : ¬raw.length > (raw ++ rest).length := by
      rw [List.length_append]
      omega
    simp only [standardEntry, List.append_assoc, readVarUint_written, Option.bind_eq_bind,
      Option.bind_some, if_neg hlen, List.take_left, List.drop_left]
  rw [hread]
  constructor
  · intro hfin
    rw [hsome hfin]
    rfl
  · intro hnot
    rw [hnone hnot]
    rfl

theorem standardEntries_encoded {entries : List (AwarenessEntry (PyFloat F))}
    {encoded : List (List UInt8)}
    (hdistinct : ∀ e ∈ entries, (stateJson e.state).Everywhere Json.DistinctKeys)
    (h : entries.mapM (encodeEntry floats) = some encoded) :
    ((∀ e ∈ entries, (stateJson e.state).Everywhere Json.FiniteFloat) →
      standardEntries floats entries.length encoded.flatten = some (entries, [])) ∧
    ((¬∀ e ∈ entries, (stateJson e.state).Everywhere Json.FiniteFloat) →
      standardEntries floats entries.length encoded.flatten = none) := by
  induction entries generalizing encoded with
  | nil =>
    cases h
    exact ⟨fun _ => rfl, fun hnot => (hnot nofun).elim⟩
  | cons entry entries ih =>
    rw [List.mapM_cons] at h
    obtain ⟨first, hfirst, h⟩ := Option.bind_eq_some_iff.1 h
    obtain ⟨others, hothers, ⟨⟩⟩ := Option.bind_eq_some_iff.1 h
    obtain ⟨ihsome, ihnone⟩ := ih (fun e he => hdistinct e (List.mem_cons_of_mem _ he)) hothers
    obtain ⟨hsome, hnone⟩ :=
      standardEntry_encoded floats (hdistinct entry List.mem_cons_self) hfirst others.flatten
    rw [List.flatten_cons, List.length_cons, standardEntries]
    by_cases hfin : (stateJson entry.state).Everywhere Json.FiniteFloat
    · rw [hsome hfin, Option.bind_eq_bind, Option.bind_some]
      dsimp only
      constructor
      · intro hall
        rw [ihsome fun e he => hall e (List.mem_cons_of_mem _ he)]
        rfl
      · intro hnot
        rw [ihnone]
        · rfl
        · intro hall
          exact hnot (List.forall_mem_cons.2 ⟨hfin, hall⟩)
    · constructor
      · intro hall
        exact absurd (hall entry List.mem_cons_self) hfin
      · intro _
        rw [hnone hfin]
        rfl

theorem encodeUpdate_isSome_iff {entries : List (AwarenessEntry (PyFloat F))} :
    (encodeUpdate floats entries).isSome ↔
      ∀ e ∈ entries, (stateJson e.state).Everywhere Json.TextNode := by
  have hentry : ∀ e : AwarenessEntry (PyFloat F),
      (encodeEntry floats e).isSome ↔ (stateJson e.state).Everywhere Json.TextNode := by
    intro e
    rw [encodeEntry, Option.isSome_map, encodeUtf8_isSome_iff, Json.isText_dumps]
  rw [encodeUpdate, Option.isSome_map]
  induction entries with
  | nil => simp
  | cons entry entries ih =>
    have hcons : ((entry :: entries).mapM (encodeEntry floats)).isSome ↔
        (encodeEntry floats entry).isSome ∧ (entries.mapM (encodeEntry floats)).isSome := by
      rw [List.mapM_cons]
      cases encodeEntry floats entry with
      | none => simp
      | some first => cases entries.mapM (encodeEntry floats) <;> simp
    rw [hcons, List.forall_mem_cons, hentry]
    exact and_congr Iff.rfl ih

/-- Entries are relayed exactly when everything in their states is of standard JSON and UTF-8 can
write it. -/
theorem relays_iff_standard {entries : List (AwarenessEntry (PyFloat F))}
    (hdistinct : ∀ e ∈ entries, (stateJson e.state).Everywhere Json.DistinctKeys) :
    Relays floats entries ↔ ∀ e ∈ entries, (stateJson e.state).Everywhere StandardNode := by
  have hstandard : (∀ e ∈ entries, (stateJson e.state).Everywhere StandardNode) ↔
      (∀ e ∈ entries, (stateJson e.state).Everywhere Json.TextNode) ∧
        ∀ e ∈ entries, (stateJson e.state).Everywhere Json.FiniteFloat := by
    rw [← forall₂_and]
    exact forall₂_congr fun e _ => Json.everywhere_and
  rw [hstandard, ← encodeUpdate_isSome_iff floats]
  have hread : ∀ encoded, entries.mapM (encodeEntry floats) = some encoded →
      (standardUpdate floats (writeVarUint entries.length ++ encoded.flatten) = some entries ↔
        ∀ e ∈ entries, (stateJson e.state).Everywhere Json.FiniteFloat) := by
    intro encoded hencoded
    obtain ⟨hsome, hnone⟩ := standardEntries_encoded floats hdistinct hencoded
    simp only [standardUpdate, readVarUint_written, Option.bind_eq_bind, Option.bind_some]
    by_cases hfin : ∀ e ∈ entries, (stateJson e.state).Everywhere Json.FiniteFloat
    · simpa [hsome hfin] using hfin
    · simp [hnone hfin, hfin]
  constructor
  · rintro ⟨data, hdata, hupdate⟩
    obtain ⟨encoded, hencoded, rfl⟩ := Option.map_eq_some_iff.1 hdata
    exact ⟨by rw [hdata]; rfl, (hread encoded hencoded).1 hupdate⟩
  · rintro ⟨hdata, hfin⟩
    obtain ⟨data, hdata⟩ := Option.isSome_iff_exists.1 hdata
    obtain ⟨encoded, hencoded, rfl⟩ := Option.map_eq_some_iff.1 hdata
    exact ⟨_, hdata, (hread encoded hencoded).2 hfin⟩

end RoundTrip

/-! ## What is decoded -/

section Decoded

variable {F : Type} (floats : Floats F)

theorem distinctKeys_readState {constants : Bool} {raw : List UInt8}
    {state : Option (JsonObject (PyFloat F))} (h : readState floats constants raw = .ok state) :
    (stateJson state).Everywhere Json.DistinctKeys := by
  unfold readState at h
  split at h
  · cases h
  · cases h
    exact Json.everywhere_iff.2 ⟨trivial, nofun⟩
  · next fields hloads =>
    cases h
    obtain ⟨s, -, hs⟩ := Option.bind_eq_some_iff.1 hloads
    have hdistinct := Json.distinctKeys_loads floats hs
    rw [stateJson, Dict.items_ofItems (Json.everywhere_iff.1 hdistinct).1]
    exact hdistinct
  · cases h

theorem distinctKeys_decodeEntry {data rest : List UInt8} {entry : AwarenessEntry (PyFloat F)}
    (h : decodeEntry floats data = .ok (entry, rest)) :
    (stateJson entry.state).Everywhere Json.DistinctKeys := by
  unfold decodeEntry at h
  obtain ⟨⟨clientId, data1⟩, -, h⟩ := except_bind_ok h
  obtain ⟨⟨clock, data2⟩, -, h⟩ := except_bind_ok h
  obtain ⟨⟨length, data3⟩, -, h⟩ := except_bind_ok h
  dsimp only at h
  split at h
  · cases h
  split at h
  · cases h
  · obtain ⟨state, hstate, h⟩ := except_bind_ok h
    cases h
    exact distinctKeys_readState floats hstate

theorem distinctKeys_decodeEntries {count : Nat} {data rest : List UInt8}
    {entries : List (AwarenessEntry (PyFloat F))}
    (h : decodeEntries floats count data = .ok (entries, rest)) :
    ∀ e ∈ entries, (stateJson e.state).Everywhere Json.DistinctKeys := by
  induction count generalizing data entries with
  | zero =>
    cases h
    exact nofun
  | succ count ih =>
    obtain ⟨⟨entry, data1⟩, hentry, h⟩ := except_bind_ok h
    obtain ⟨⟨others, data2⟩, hothers, h⟩ := except_bind_ok h
    cases h
    exact List.forall_mem_cons.2 ⟨distinctKeys_decodeEntry floats hentry, ih hothers⟩

/-- No object that `decode_update` returns has a key twice. -/
theorem distinctKeys_decodeUpdate {data : List UInt8} {entries : List (AwarenessEntry (PyFloat F))}
    (h : decodeUpdate floats data = .ok entries) :
    ∀ e ∈ entries, (stateJson e.state).Everywhere Json.DistinctKeys := by
  unfold decodeUpdate at h
  split at h
  · cases h
  obtain ⟨⟨count, data1⟩, -, h⟩ := except_bind_ok h
  dsimp only at h
  split at h
  · cases h
  obtain ⟨⟨decoded, data2⟩, hdecoded, h⟩ := except_bind_ok h
  dsimp only at h
  split at h
  · cases h
  · cases h
    exact distinctKeys_decodeEntries floats hdecoded

end Decoded

end Concord
