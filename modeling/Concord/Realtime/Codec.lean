import Concord.Realtime.Relay

/-!
# The awareness codec

`encode_update` and `decode_update` of `realtime/awareness.py` against each other. What the encoder
writes of entries within the limits is read back (`decodeUpdate_encoded`), varints of up to five bytes
included (`readVarUint_bounded`). Each reader goes on from where the one before it stopped and does not
look at what follows (`readVarUint_extend`, `decodeEntries_extend`), so an update that is read to its end
is no longer one when bytes are added or missing (`decodeUpdate_extended`).
-/

namespace Concord

open Concord.Base

/-! ## Varints of five bytes -/

/-- What the check of the bits lets through: with `k` bytes read, `j + 1` more. -/
theorem readVarUint_bounded {j k n : Nat} (hjk : j + k = 4) (hn : n < 128 ^ (j + 1)) (result : Nat)
    (rest : List UInt8) :
    readVarUint (some maxVarintBits) result (7 * k) (writeVarUint n ++ rest) =
      readVarUint none result (7 * k) (writeVarUint n ++ rest) := by
  induction j generalizing k n result with
  | zero =>
    have hsmall : ¬n > 0x7F := by omega
    have hbyte : (UInt8.ofNat n).toNat = n := by
      rw [UInt8.toNat_ofNat']
      omega
    rw [writeVarUint, if_neg hsmall, List.singleton_append, readVarUint, readVarUint, hbyte,
      if_pos (by omega), if_pos (by omega)]
  | succ j ih =>
    unfold writeVarUint
    split
    · next hbig =>
      have hrest : n >>> 7 < 128 ^ (j + 1) := by
        rw [Nat.shiftRight_eq_div_pow]
        apply Nat.div_lt_of_lt_mul
        calc n < 128 ^ (j + 1 + 1) := hn
          _ = 2 ^ 7 * 128 ^ (j + 1) := by rw [Nat.pow_succ 128 (j + 1), Nat.mul_comm]; norm_num
      have hbits : (some maxVarintBits).any (· < 7 * k + 7) = false := by
        simp only [Option.any_some, maxVarintBits, decide_eq_false_iff_not]
        omega
      have hstep : 7 * k + 7 = 7 * (k + 1) := by omega
      rw [List.cons_append, readVarUint, readVarUint, hbits, hstep]
      dsimp only [Option.any]
      rw [ih (by omega) hrest]
    · next hsmall =>
      have hbyte : (UInt8.ofNat n).toNat = n := by
        rw [UInt8.toNat_ofNat']
        omega
      rw [List.singleton_append, readVarUint, readVarUint, hbyte, if_pos (by omega),
        if_pos (by omega)]

/-- A number of up to 35 bits is read back. -/
theorem readVarUint_of_lt {n : Nat} (hn : n < 2 ^ 35) (rest : List UInt8) :
    readVarUint (some maxVarintBits) 0 0 (writeVarUint n ++ rest) = .ok (n, rest) := by
  have hbounded := readVarUint_bounded (j := 4) (k := 0) rfl (n := n) (by norm_num; omega) 0 rest
  rw [Nat.mul_zero] at hbounded
  rw [hbounded, readVarUint_writeVarUint, Nat.zero_or, Nat.shiftLeft_zero]

theorem readVarUint_extend {maxBits : Option Nat} {result shift n : Nat} {data rest : List UInt8}
    (h : readVarUint maxBits result shift data = .ok (n, rest)) (more : List UInt8) :
    readVarUint maxBits result shift (data ++ more) = .ok (n, rest ++ more) := by
  induction data generalizing result shift with
  | nil => cases h
  | cons byte data ih =>
    rw [readVarUint] at h
    rw [List.cons_append, readVarUint]
    split at h
    · next hlast =>
      cases h
      rw [if_pos hlast]
    · next hmore =>
      rw [if_neg hmore]
      split at h
      · cases h
      · next hbits =>
        rw [if_neg hbits]
        exact ih h

section Codec

variable {F : Type} (floats : Floats F)

/-! ## Reading back what was written -/

/-- A state that the encoder writes in the limits and the reader of JSON reads back. -/
structure Encodable (state : Option (JsonObject (PyFloat F))) : Prop where
  roundTrips : Json.loads floats true (Json.dumps floats (stateJson state)) = some (stateJson state)
  fits : ∀ raw, encodeUtf8 (Json.dumps floats (stateJson state)) = some raw →
    raw.length ≤ maxStateBytes

/-- An entry of a client id and a clock of 32 bits. -/
structure Sendable (entry : AwarenessEntry (PyFloat F)) : Prop where
  clientId : entry.clientId < 2 ^ 32
  clock : entry.clock < 2 ^ 32
  state : Encodable floats entry.state

variable {floats}

theorem readState_encoded {state : Option (JsonObject (PyFloat F))} {raw : List UInt8}
    (h : Encodable floats state)
    (hraw : encodeUtf8 (Json.dumps floats (stateJson state)) = some raw) :
    readState floats true raw = .ok state := by
  unfold readState
  rw [decodeUtf8_encodeUtf8 hraw, Option.bind_some, h.roundTrips]
  cases state with
  | none => rfl
  | some state =>
    dsimp only [stateJson]
    rw [Dict.ofItems_items]

theorem decodeEntry_encoded {entry : AwarenessEntry (PyFloat F)} {encoded : List UInt8}
    (h : Sendable floats entry) (hencoded : encodeEntry floats entry = some encoded)
    (rest : List UInt8) : decodeEntry floats (encoded ++ rest) = .ok (entry, rest) := by
  obtain ⟨raw, hraw, rfl⟩ := Option.map_eq_some_iff.1 hencoded
  have hfits := h.state.fits raw hraw
  have hlength : raw.length < 2 ^ 35 := by
    unfold maxStateBytes at hfits
    omega
  have hid := h.clientId
  have hclock := h.clock
  have hrange : ¬(entry.clientId ≥ 2 ^ 32 ∨ entry.clock ≥ 2 ^ 32) :=
    not_or.2 ⟨Nat.not_le.2 hid, Nat.not_le.2 hclock⟩
  have hbounds : ¬(raw.length > maxStateBytes ∨ raw.length > (raw ++ rest).length) := by
    rw [List.length_append]
    omega
  have hstate := readState_encoded h.state hraw
  unfold decodeEntry
  rw [List.append_assoc, List.append_assoc, List.append_assoc,
    readVarUint_of_lt (hid.trans (by norm_num))]
  dsimp only [Bind.bind, Except.bind]
  rw [readVarUint_of_lt (hclock.trans (by norm_num))]
  dsimp only
  rw [readVarUint_of_lt hlength]
  dsimp only
  rw [if_neg hrange, if_neg hbounds, List.take_left, hstate, List.drop_left]
  rfl

theorem decodeEntries_encoded {entries : List (AwarenessEntry (PyFloat F))}
    {encoded : List (List UInt8)} (h : ∀ e ∈ entries, Sendable floats e)
    (hencoded : entries.mapM (encodeEntry floats) = some encoded) :
    decodeEntries floats entries.length encoded.flatten = .ok (entries, []) := by
  induction entries generalizing encoded with
  | nil =>
    cases hencoded
    rfl
  | cons entry entries ih =>
    rw [List.mapM_cons] at hencoded
    obtain ⟨first, hfirst, hencoded⟩ := Option.bind_eq_some_iff.1 hencoded
    obtain ⟨others, hothers, ⟨⟩⟩ := Option.bind_eq_some_iff.1 hencoded
    have hentry := decodeEntry_encoded (h entry List.mem_cons_self) hfirst others.flatten
    have hrest := ih (fun e he => h e (List.mem_cons_of_mem _ he)) hothers
    rw [List.flatten_cons, List.length_cons, decodeEntries, hentry]
    dsimp only [Bind.bind, Except.bind]
    rw [hrest]
    rfl

/-- What is encoded in the limits is decoded. -/
theorem decodeUpdate_encoded {entries : List (AwarenessEntry (PyFloat F))} {data : List UInt8}
    (hcount : entries.length ≤ maxEntriesPerUpdate) (h : ∀ e ∈ entries, Sendable floats e)
    (hencoded : encodeUpdate floats entries = some data) (hsize : data.length ≤ maxUpdateBytes) :
    decodeUpdate floats data = .ok entries := by
  obtain ⟨encoded, hentries, rfl⟩ := Option.map_eq_some_iff.1 hencoded
  have hcount35 : entries.length < 2 ^ 35 := by
    unfold maxEntriesPerUpdate at hcount
    omega
  unfold decodeUpdate
  rw [if_neg (Nat.not_lt.2 hsize), readVarUint_of_lt hcount35]
  dsimp only [Bind.bind, Except.bind]
  rw [if_neg (Nat.not_lt.2 hcount), decodeEntries_encoded h hentries]
  dsimp only
  rw [if_neg (not_not.2 rfl)]
  rfl

/-! ## Bytes that are missing or added -/

theorem decodeEntry_extend {data rest : List UInt8} {entry : AwarenessEntry (PyFloat F)}
    (h : decodeEntry floats data = .ok (entry, rest)) (more : List UInt8) :
    decodeEntry floats (data ++ more) = .ok (entry, rest ++ more) := by
  unfold decodeEntry at h ⊢
  obtain ⟨⟨clientId, data1⟩, hid, h⟩ := except_bind_ok h
  obtain ⟨⟨clock, data2⟩, hclock, h⟩ := except_bind_ok h
  obtain ⟨⟨length, data3⟩, hlength, h⟩ := except_bind_ok h
  rw [readVarUint_extend hid more]
  dsimp only [Bind.bind, Except.bind] at h ⊢
  rw [readVarUint_extend hclock more]
  dsimp only
  rw [readVarUint_extend hlength more]
  dsimp only
  split at h
  · cases h
  next hrange =>
  split at h
  · cases h
  next hbounds =>
  obtain ⟨state, hstate, h⟩ := except_bind_ok h
  cases h
  have hinside : length ≤ data3.length := by omega
  have hbounds' : ¬(length > maxStateBytes ∨ length > (data3 ++ more).length) := by
    rw [List.length_append]
    omega
  rw [if_neg hrange, if_neg hbounds', List.take_append_of_le_length hinside, hstate,
    List.drop_append_of_le_length hinside]
  rfl

theorem decodeEntries_extend {count : Nat} {data rest : List UInt8}
    {entries : List (AwarenessEntry (PyFloat F))}
    (h : decodeEntries floats count data = .ok (entries, rest)) (more : List UInt8) :
    decodeEntries floats count (data ++ more) = .ok (entries, rest ++ more) := by
  induction count generalizing data entries with
  | zero =>
    cases h
    rfl
  | succ count ih =>
    obtain ⟨⟨entry, data1⟩, hentry, h⟩ := except_bind_ok h
    obtain ⟨⟨others, data2⟩, hothers, h⟩ := except_bind_ok h
    cases h
    rw [decodeEntries, decodeEntry_extend hentry more]
    dsimp only [Bind.bind, Except.bind]
    rw [ih hothers]
    rfl

/-- An accepted update has been read to its end: with more bytes it is rejected. -/
theorem decodeUpdate_extended {data more : List UInt8} {entries : List (AwarenessEntry (PyFloat F))}
    (h : decodeUpdate floats data = .ok entries) (hmore : more ≠ []) :
    ∃ e, decodeUpdate floats (data ++ more) = .error e := by
  unfold decodeUpdate at h ⊢
  split at h
  · cases h
  obtain ⟨⟨count, data1⟩, hcount, h⟩ := except_bind_ok h
  dsimp only at h
  split at h
  · cases h
  next hfew =>
  obtain ⟨⟨decoded, data2⟩, hdecoded, h⟩ := except_bind_ok h
  dsimp only at h
  split at h
  · cases h
  next hend =>
  have hdata2 : data2 = [] := not_not.1 hend
  subst hdata2
  split
  · exact ⟨_, rfl⟩
  · have hrest : [] ++ more ≠ [] := hmore
    rw [readVarUint_extend hcount more]
    dsimp only [Bind.bind, Except.bind]
    rw [if_neg hfew, decodeEntries_extend hdecoded more]
    dsimp only
    rw [if_pos hrest]
    exact ⟨_, rfl⟩

/-- **The codec round-trips, and is exact**: entries within the limits are read back from their
encoding, and an accepted update is rejected when bytes of it are missing at the end or others are
added. -/
theorem awareness_codec_exact (floats : Floats F) :
    (∀ entries data, entries.length ≤ maxEntriesPerUpdate → (∀ e ∈ entries, Sendable floats e) →
      encodeUpdate floats entries = some data → data.length ≤ maxUpdateBytes →
      decodeUpdate floats data = .ok entries) ∧
    ∀ data entries, decodeUpdate floats data = .ok entries →
      (∀ part, part <+: data → part ≠ data → ∃ e, decodeUpdate floats part = .error e) ∧
      ∀ more, more ≠ [] → ∃ e, decodeUpdate floats (data ++ more) = .error e := by
  refine ⟨fun entries data => decodeUpdate_encoded, ?_⟩
  intro data entries h
  constructor
  · rintro part ⟨more, rfl⟩ hne
    cases hpart : decodeUpdate floats part with
    | error e => exact ⟨e, rfl⟩
    | ok entries' =>
      have hmore : more ≠ [] := by
        rintro rfl
        exact hne (List.append_nil part).symm
      obtain ⟨e, he⟩ := decodeUpdate_extended hpart hmore
      rw [h] at he
      cases he
  · exact fun more => decodeUpdate_extended h

/-- Of a client that is gone, with the least numbers, and of one without a state, with a large id. -/
def twoEntries : List (AwarenessEntry (PyFloat Unit)) := [⟨0, 0, none⟩, ⟨2 ^ 32 - 1, 300, some ∅⟩]

theorem sendable_twoEntries : ∀ e ∈ twoEntries, Sendable halves e := by
  have hfits : ∀ text : Str, (encodeUtf8 text).all (·.length ≤ maxStateBytes) = true →
      ∀ raw, encodeUtf8 text = some raw → raw.length ≤ maxStateBytes := by
    intro text h raw hraw
    rw [hraw] at h
    exact of_decide_eq_true h
  intro e he
  rcases List.mem_cons.1 he with rfl | he
  · exact ⟨by decide, by decide, ⟨rfl, hfits _ (by decide +kernel)⟩⟩
  · rw [List.mem_singleton.1 he]
    exact ⟨by decide, by decide, ⟨rfl, hfits _ (by decide +kernel)⟩⟩

theorem awareness_codec_exact_two : ∃ data, encodeUpdate halves twoEntries = some data ∧
    decodeUpdate halves data = .ok twoEntries ∧
      ∃ e, decodeUpdate halves (data ++ [0]) = .error e := by
  obtain ⟨data, hdata, hsize⟩ : ∃ data, encodeUpdate halves twoEntries = some data ∧
      data.length ≤ maxUpdateBytes := by
    refine ⟨[2, 0, 0, 4, 110, 117, 108, 108, 255, 255, 255, 255, 15, 172, 2, 2, 123, 125], ?_, ?_⟩
    · decide +kernel
    · decide
  have hdecode := (awareness_codec_exact halves).1 twoEntries data (by decide) sendable_twoEntries
    hdata hsize
  exact ⟨data, hdata, hdecode,
    ((awareness_codec_exact halves).2 data twoEntries hdecode).2 [0] (by decide)⟩

end Codec

end Concord
