import Mathlib

/-!
# Keyed writes and groups

A list of writes, each of a value to a key: the last one to a key decides what it holds (`latest`). And a list of
pairs, gathered into one list of values for each key in the order in which the keys come first (`collect`, the
`setdefault(k, []).append(v)` of Python).
-/

namespace Concord.Base

variable {K V W : Type} [DecidableEq K]

/-! ## The last write -/

/-- The value that was last written to a key. -/
def latest (writes : List (K × V)) (k : K) : Option V :=
  writes.foldl (fun found write => if write.1 = k then some write.2 else found) none

section Latest

variable {writes more : List (K × V)} {k : K} {v : V}

theorem foldl_latest (found : Option V) :
    writes.foldl (fun found write => if write.1 = k then some write.2 else found) found =
      (latest writes k).or found := by
  induction writes generalizing found with
  | nil => rfl
  | cons write writes ih =>
    rw [latest, List.foldl_cons, List.foldl_cons, ih, ih]
    split
    · cases latest writes k <;> rfl
    · cases latest writes k <;> rfl

@[simp] theorem latest_nil : latest ([] : List (K × V)) k = none := rfl

theorem latest_append : latest (writes ++ more) k = (latest more k).or (latest writes k) := by
  rw [latest, List.foldl_append, foldl_latest]
  rfl

theorem latest_cons {write : K × V} :
    latest (write :: writes) k = (latest writes k).or (if write.1 = k then some write.2 else none) := by
  rw [latest, List.foldl_cons, foldl_latest]

theorem latest_append_of_ne {write : K × V} (hne : write.1 ≠ k) : latest (writes ++ [write]) k = latest writes k := by
  rw [latest_append, latest_cons, if_neg hne]
  rfl

theorem latest_append_self : latest (writes ++ [(k, v)]) k = some v := by
  rw [latest_append, latest_cons, if_pos rfl]
  rfl

theorem latest_eq_none (h : ∀ write ∈ writes, write.1 ≠ k) : latest writes k = none := by
  induction writes with
  | nil => rfl
  | cons write writes ih =>
    rw [latest_cons, ih fun other hother => h other (List.mem_cons_of_mem _ hother),
      if_neg (h write List.mem_cons_self)]
    rfl

/-- Writes to different keys, whose keys are then renamed. -/
theorem latest_map_of_nodup {f : K → K} {g : V → W} (hnodup : (writes.map Prod.fst).Nodup)
    (hinj : ∀ write ∈ writes, f write.1 = f k → write.1 = k) :
    latest (writes.map fun write => (f write.1, g write.2)) (f k) = (writes.lookup k).map g := by
  induction writes with
  | nil => rfl
  | cons write writes ih =>
    rw [List.map_cons, List.nodup_cons] at hnodup
    have hrest := ih hnodup.2 fun other hother => hinj other (List.mem_cons_of_mem _ hother)
    rw [List.map_cons, latest_cons, hrest, List.lookup_cons]
    by_cases hk : write.1 = k
    · subst hk
      have hnone : writes.lookup write.1 = none := by
        rw [List.lookup_eq_none_iff]
        intro other hother
        have hne : write.1 ≠ other.1 := fun heq => hnodup.1 (heq ▸ List.mem_map_of_mem hother)
        simpa using hne
      simp [hnone]
    · have hne : f write.1 ≠ f k := fun heq => hk (hinj write List.mem_cons_self heq)
      simp [hne, beq_eq_false_iff_ne.2 (Ne.symm hk)]

end Latest

/-! ## Groups -/

/-- `groups.setdefault(k, []).append(v)`. -/
def collect (groups : List (K × List V)) (pair : K × V) : List (K × List V) :=
  match groups.lookup pair.1 with
  | none => groups ++ [(pair.1, [pair.2])]
  | some _ => groups.map fun group => if group.1 = pair.1 then (group.1, group.2 ++ [pair.2]) else group

section Collect

variable {groups : List (K × List V)} {pairs : List (K × V)} {pair : K × V} {k : K}

theorem collect_of_none (h : groups.lookup pair.1 = none) : collect groups pair = groups ++ [(pair.1, [pair.2])] := by
  rw [collect, h]

theorem collect_of_some {values : List V} (h : groups.lookup pair.1 = some values) :
    collect groups pair =
      groups.map fun group => if group.1 = pair.1 then (group.1, group.2 ++ [pair.2]) else group := by
  rw [collect, h]

theorem map_fst_extend : (groups.map fun group => if group.1 = pair.1 then (group.1, group.2 ++ [pair.2]) else group).map
    Prod.fst = groups.map Prod.fst := by
  rw [List.map_map]
  refine List.map_congr_left fun group _ => ?_
  dsimp only [Function.comp]
  split <;> rfl

theorem lookup_extend : (groups.map fun group => if group.1 = pair.1 then (group.1, group.2 ++ [pair.2]) else group).lookup
    k = (groups.lookup k).map fun values => if k = pair.1 then values ++ [pair.2] else values := by
  induction groups with
  | nil => rfl
  | cons group groups ih =>
    rw [List.map_cons, List.lookup_cons, List.lookup_cons, ih]
    have hfst : (if group.1 = pair.1 then (group.1, group.2 ++ [pair.2]) else group).1 = group.1 := by
      split <;> rfl
    rw [hfst]
    by_cases hk : k = group.1
    · subst hk
      by_cases hpair : group.1 = pair.1
      · simp [hpair]
      · simp [hpair]
    · simp [beq_eq_false_iff_ne.2 hk]

/-- Gathering a pair adds its value to its key. -/
theorem lookup_collect :
    ((collect groups pair).lookup k).getD [] =
      (groups.lookup k).getD [] ++ if pair.1 = k then [pair.2] else [] := by
  cases h : groups.lookup pair.1 with
  | none =>
    rw [collect_of_none h, List.lookup_append, List.lookup_cons]
    by_cases hk : pair.1 = k
    · subst hk
      simp [h]
    · simp [hk, beq_eq_false_iff_ne.2 (Ne.symm hk)]
  | some values =>
    rw [collect_of_some h, lookup_extend]
    by_cases hk : pair.1 = k
    · subst hk
      simp [h]
    · simp only [if_neg hk, if_neg (Ne.symm hk), List.append_nil, Option.map_id']

theorem nodup_collect (h : (groups.map Prod.fst).Nodup) : ((collect groups pair).map Prod.fst).Nodup := by
  cases hlookup : groups.lookup pair.1 with
  | none =>
    rw [collect_of_none hlookup, List.map_append, List.map_singleton]
    refine List.nodup_append.2 ⟨h, List.nodup_singleton _, fun k hk k' hk' => ?_⟩
    obtain rfl := List.mem_singleton.1 hk'
    rintro rfl
    obtain ⟨group, hgroup, hkey⟩ := List.mem_map.1 hk
    have hne := List.lookup_eq_none_iff.1 hlookup group hgroup
    simp [hkey] at hne
  | some values => rwa [collect_of_some hlookup, map_fst_extend]

theorem mem_keys_collect {key : K} (h : key ∈ (collect groups pair).map Prod.fst) :
    key ∈ groups.map Prod.fst ∨ key = pair.1 := by
  cases hlookup : groups.lookup pair.1 with
  | none =>
    rw [collect_of_none hlookup, List.map_append, List.mem_append] at h
    exact h.imp_right fun hkey => List.mem_singleton.1 hkey
  | some values =>
    rw [collect_of_some hlookup, map_fst_extend] at h
    exact .inl h

/-- The values gathered under a key are those of its pairs, in their order. -/
theorem lookup_foldl_collect : ((pairs.foldl collect groups).lookup k).getD [] =
    (groups.lookup k).getD [] ++ (pairs.filter (·.1 = k)).map Prod.snd := by
  induction pairs generalizing groups with
  | nil => simp
  | cons pair pairs ih =>
    rw [List.foldl_cons, ih, lookup_collect, List.append_assoc, List.filter_cons]
    by_cases hk : pair.1 = k <;> simp [hk]

theorem nodup_foldl_collect (h : (groups.map Prod.fst).Nodup) : ((pairs.foldl collect groups).map Prod.fst).Nodup := by
  induction pairs generalizing groups with
  | nil => exact h
  | cons pair pairs ih => exact ih (nodup_collect h)

theorem mem_keys_foldl_collect {key : K} (h : key ∈ (pairs.foldl collect groups).map Prod.fst) :
    key ∈ groups.map Prod.fst ∨ key ∈ pairs.map Prod.fst := by
  induction pairs generalizing groups with
  | nil => exact .inl h
  | cons pair pairs ih =>
    rcases ih h with h | h
    · refine (mem_keys_collect h).imp_right fun hkey => ?_
      rw [hkey]
      exact List.mem_cons_self
    · exact .inr (List.mem_cons_of_mem _ h)

end Collect

end Concord.Base
