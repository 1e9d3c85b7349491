import Concord.Base.Double
import Concord.Realtime.Pruning

/-!
# What a pass over the versions of a file selects

`versions_to_prune` of `realtime/checkpoint.py`, on the datetimes it is given. Over exact seconds its
loop selects the redundant rows and no others (`versionsToPrune_eq`). On datetimes it does the same
(`selectVersions_eq`) as long as a timestamp as a double has the seconds of the time it stands for,
which is so before `2 ^ 34` seconds after 1970 (`truncate_timestamp`), and an age is the time that has
passed, which it is not where the offset of a shared `tzinfo` has changed in between.
-/

namespace Concord

open Concord.Base

/-! ## The rows that are redundant -/

/-- An autosave old enough to be thinned, in a slot that has a newer version of that age. -/
def Redundant (now : Seconds) (rows : List VersionRow) (row : VersionRow) : Prop :=
  row.savedBy = none ∧ keepAllFor ≤ now - row.createdAt ∧
    ∃ newer ∈ rows, row.versionNumber < newer.versionNumber ∧
      keepAllFor ≤ now - newer.createdAt ∧ newer.slot now = row.slot now

instance (now : Seconds) (rows : List VersionRow) (row : VersionRow) :
    Decidable (Redundant now rows row) :=
  inferInstanceAs (Decidable (_ ∧ _ ∧ _))

/-- `sorted(rows, key=lambda r: r.version_number, reverse=True)`. -/
def newestFirst (rows : List VersionRow) : List VersionRow :=
  rows.insertionSort fun a b => b.versionNumber ≤ a.versionNumber

/-- The versions come one after the other, the newest first. -/
def Descending (rows : List VersionRow) : Prop :=
  rows.Pairwise fun a b => b.versionNumber < a.versionNumber

section Exact

variable {now : Seconds} {rows : List VersionRow}

theorem perm_newestFirst (rows : List VersionRow) : (newestFirst rows).Perm rows :=
  rows.perm_insertionSort _

theorem mem_newestFirst {row : VersionRow} : row ∈ newestFirst rows ↔ row ∈ rows :=
  (perm_newestFirst rows).mem_iff

theorem descending_newestFirst (hn : (rows.map (·.versionNumber)).Nodup) :
    Descending (newestFirst rows) := by
  have htotal : Std.Total fun a b : VersionRow => b.versionNumber ≤ a.versionNumber :=
    ⟨fun a b => le_total b.versionNumber a.versionNumber⟩
  have htrans : IsTrans VersionRow fun a b => b.versionNumber ≤ a.versionNumber :=
    ⟨fun a b c hab hbc => le_trans hbc hab⟩
  have hsorted := rows.pairwise_insertionSort fun a b => b.versionNumber ≤ a.versionNumber
  have hdistinct := ((perm_newestFirst rows).map (·.versionNumber)).nodup_iff.2 hn
  rw [List.Nodup, List.pairwise_map] at hdistinct
  apply (hsorted.and hdistinct).imp
  rintro a b ⟨hle, hne⟩
  omega

theorem redundant_congr {rows' : List VersionRow} (h : ∀ r, r ∈ rows ↔ r ∈ rows')
    (row : VersionRow) : Redundant now rows row ↔ Redundant now rows' row := by
  simp only [Redundant, h]

/-- The versions newer than a row are those that come before it. -/
theorem redundant_iff_of_descending (now : Seconds) (before : List VersionRow)
    {rest : List VersionRow} {row : VersionRow}
    (h : Descending (before ++ row :: rest)) :
    Redundant now (before ++ row :: rest) row ↔
      row.savedBy = none ∧ keepAllFor ≤ now - row.createdAt ∧
        ∃ newer ∈ before, keepAllFor ≤ now - newer.createdAt ∧ newer.slot now = row.slot now := by
  obtain ⟨-, hrest, hbefore⟩ := List.pairwise_append.1 h
  constructor
  · rintro ⟨hauto, hold, newer, hmem, hlt, hnewer⟩
    refine ⟨hauto, hold, newer, ?_, hnewer⟩
    rcases List.mem_append.1 hmem with hmem | hmem
    · exact hmem
    · rcases List.mem_cons.1 hmem with rfl | hmem
      · omega
      · have hgt := List.rel_of_pairwise_cons hrest hmem
        omega
  · rintro ⟨hauto, hold, newer, hmem, hnewer⟩
    exact ⟨hauto, hold, newer, List.mem_append_left _ hmem,
      hbefore newer hmem row List.mem_cons_self, hnewer⟩

/-- The slots of the versions in `before` that are old enough to be thinned. -/
def Seen (now : Seconds) (before : List VersionRow) (seen : List Slot) : Prop :=
  ∀ slot, slot ∈ seen ↔ ∃ row ∈ before, keepAllFor ≤ now - row.createdAt ∧ row.slot now = slot

theorem Seen.young {before : List VersionRow} {seen : List Slot} {row : VersionRow}
    (h : Seen now before seen) (hyoung : now - row.createdAt < keepAllFor) :
    Seen now (before ++ [row]) seen := by
  intro slot
  rw [h slot]
  constructor
  · rintro ⟨r, hr, hslot⟩
    exact ⟨r, List.mem_append_left _ hr, hslot⟩
  · rintro ⟨r, hr, hold, hslot⟩
    rcases List.mem_append.1 hr with hr | hr
    · exact ⟨r, hr, hold, hslot⟩
    · rw [List.mem_singleton.1 hr] at hold
      exact absurd hold (not_le.2 hyoung)

theorem Seen.old {before : List VersionRow} {seen : List Slot} {row : VersionRow}
    (h : Seen now before seen) (hold : keepAllFor ≤ now - row.createdAt) :
    Seen now (before ++ [row]) (row.slot now :: seen) := by
  intro slot
  rw [List.mem_cons, h slot]
  constructor
  · rintro (rfl | ⟨r, hr, hslot⟩)
    · exact ⟨row, by simp, hold, rfl⟩
    · exact ⟨r, List.mem_append_left _ hr, hslot⟩
  · rintro ⟨r, hr, hold', hslot⟩
    rcases List.mem_append.1 hr with hr | hr
    · exact .inr ⟨r, hr, hold', hslot⟩
    · rw [List.mem_singleton.1 hr] at hslot
      exact .inl hslot.symm

/-- A row of a slot already seen leaves the slots as they are. -/
theorem Seen.again {before : List VersionRow} {seen : List Slot} {row : VersionRow}
    (h : Seen now before seen) (hold : keepAllFor ≤ now - row.createdAt) (hslot : row.slot now ∈ seen) :
    Seen now (before ++ [row]) seen := by
  intro slot
  rw [← h.old hold slot, List.mem_cons]
  constructor
  · exact .inr
  · rintro (rfl | hseen)
    · exact hslot
    · exact hseen

/-- The loop, past the first row: by induction over what is left, `before` being what it has been over. -/
theorem pruneLoop_eq (before : List VersionRow) {rest : List VersionRow} {seen : List Slot}
    (hdesc : Descending (before ++ rest)) (hseen : Seen now before seen) :
    pruneLoop now false seen rest =
      (rest.filter fun row => Redundant now (before ++ rest) row).map (·.id) := by
  induction rest generalizing before seen with
  | nil => rfl
  | cons row rest ih =>
    have hred := redundant_iff_of_descending now before hdesc
    have hassoc : before ++ row :: rest = (before ++ [row]) ++ rest := by simp
    have hnext : ∀ seen', Seen now (before ++ [row]) seen' →
        pruneLoop now false seen' rest =
          (rest.filter fun r => Redundant now (before ++ row :: rest) r).map (·.id) := by
      intro seen' hseen'
      rw [hassoc]
      exact ih (before ++ [row]) (hassoc ▸ hdesc) hseen'
    unfold pruneLoop
    split
    · next hyoung =>
      have hkept : ¬ Redundant now (before ++ row :: rest) row := fun h =>
        absurd h.2.1 (not_le.2 hyoung)
      rw [List.filter_cons_of_neg (by simpa using hkept)]
      exact hnext seen (hseen.young hyoung)
    · next hyoung =>
      have hold : keepAllFor ≤ now - row.createdAt := not_lt.1 hyoung
      rw [Bool.false_or]
      split
      · next hsaved =>
        have hkept : ¬ Redundant now (before ++ row :: rest) row := by
          intro h
          rw [h.1] at hsaved
          cases hsaved
        rw [List.filter_cons_of_neg (by simpa using hkept)]
        exact hnext _ (hseen.old hold)
      · next hauto =>
        split
        · next hslot =>
          have hgone : Redundant now (before ++ row :: rest) row :=
            hred.2 ⟨by simpa using hauto, hold, (hseen _).1 hslot⟩
          rw [List.filter_cons_of_pos (by simpa using hgone), List.map_cons]
          congr 1
          exact hnext seen (hseen.again hold hslot)
        · next hslot =>
          have hkept : ¬ Redundant now (before ++ row :: rest) row := fun h =>
            hslot ((hseen _).2 (hred.1 h).2.2)
          rw [List.filter_cons_of_neg (by simpa using hkept)]
          exact hnext _ (hseen.old hold)

/-- The first row is kept, and stands for its slot as the others do. -/
theorem pruneLoop_latest (now : Seconds) (row : VersionRow) (rest : List VersionRow) :
    ∃ seen, Seen now [row] seen ∧
      pruneLoop now true [] (row :: rest) = pruneLoop now false seen rest := by
  have hnone : Seen now [] [] := by
    intro slot
    simp
  by_cases hyoung : now - row.createdAt < keepAllFor
  · refine ⟨[], hnone.young hyoung, ?_⟩
    rw [pruneLoop, if_pos hyoung]
  · refine ⟨[row.slot now], hnone.old (not_lt.1 hyoung), ?_⟩
    rw [pruneLoop, if_neg hyoung, Bool.true_or, if_pos rfl]

theorem versionsToPrune_eq (hn : (rows.map (·.versionNumber)).Nodup) :
    versionsToPrune rows now =
      ((newestFirst rows).filter fun row => Redundant now rows row).map (·.id) := by
  have hdesc := descending_newestFirst hn
  have hsame : ∀ row, Redundant now rows row ↔ Redundant now (newestFirst rows) row :=
    redundant_congr fun _ => mem_newestFirst.symm
  unfold versionsToPrune
  simp only [hsame]
  change pruneLoop now true [] (newestFirst rows) = _
  cases hrows : newestFirst rows with
  | nil => rfl
  | cons row rest =>
    rw [hrows] at hdesc
    obtain ⟨seen, hseen, heq⟩ := pruneLoop_latest now row rest
    have hkept : ¬ Redundant now (row :: rest) row := by
      have hnewest := redundant_iff_of_descending now [] hdesc
      intro h
      obtain ⟨-, -, newer, hmem, -⟩ := hnewest.1 h
      cases hmem
    rw [heq, pruneLoop_eq [row] hdesc hseen,
      List.filter_cons_of_neg (by simpa using hkept)]
    rfl

end Exact

/-! ## Datetimes -/

/-- A `tzinfo` with the offset it has at one datetime: UTC, or another object. Durations and times since
1970 are in microseconds. -/
inductive Tzinfo
  | utc
  | zone (object : Nat) (utcoffset : Int)
deriving DecidableEq, Repr

def Tzinfo.utcoffset : Tzinfo → Int
  | .utc => 0
  | .zone _ offset => offset

/-- `a is b`. -/
def Tzinfo.same : Tzinfo → Tzinfo → Bool
  | .utc, .utc => true
  | .zone a _, .zone b _ => a = b
  | _, _ => false

/-- A `datetime`, naive or aware; `wall` is the time on the clock. -/
structure Datetime where
  wall : Int
  tzinfo : Option Tzinfo := none
deriving DecidableEq, Repr

/-- An aware `datetime`. -/
structure Aware where
  wall : Int
  tzinfo : Tzinfo
deriving DecidableEq, Repr

/-- `_aware`: naive datetimes are UTC. -/
def Datetime.aware (dt : Datetime) : Aware := ⟨dt.wall, dt.tzinfo.getD .utc⟩

/-- The time since 1970 that a datetime stands for. -/
def Aware.instant (a : Aware) : Int := a.wall - a.tzinfo.utcoffset

/-- `a - b`. Two datetimes of the same `tzinfo` are subtracted as the clock shows them. -/
def Aware.sub (a b : Aware) : Int :=
  if a.tzinfo.same b.tzinfo then a.wall - b.wall else a.instant - b.instant

def Aware.epoch : Aware := ⟨0, .utc⟩

/-- `datetime.timestamp`: `total_seconds` divides in double precision. -/
def Aware.timestamp (a : Aware) : ℚ := toDouble (a.sub .epoch / 10 ^ 6)

/-- The fields of `VersionRow`. -/
structure DatedVersion where
  id : Nat
  versionNumber : Nat
  createdAt : Datetime
  savedBy : Option UserId := none
deriving DecidableEq, Repr

/-- `timedelta(hours=1)`. -/
def hour : Int := 3600 * 10 ^ 6

/-- `timedelta(days=1)`. -/
def day : Int := 86400 * 10 ^ 6

namespace DatedVersion

variable (now : Datetime) (row : DatedVersion)

def age : Int := now.aware.sub row.createdAt.aware

/-- `slot`. -/
def slot : Slot :=
  let ts := truncate row.createdAt.aware.timestamp
  if row.age now < day then .tenMinutes (ts / 600) else .day (ts / 86400)

end DatedVersion

/-- The loop of `versions_to_prune`; `latest` while it is at the first row. -/
def selectLoop (now : Datetime) : Bool → List Slot → List DatedVersion → List Nat
  | _, _, [] => []
  | latest, seen, row :: rest =>
    if row.age now < hour then selectLoop now false seen rest
    else if latest || row.savedBy.isSome then selectLoop now false (row.slot now :: seen) rest
    else if row.slot now ∈ seen then row.id :: selectLoop now false seen rest
    else selectLoop now false (row.slot now :: seen) rest

/-- `sorted(rows, key=lambda r: r.version_number, reverse=True)`. -/
def latestFirst (rows : List DatedVersion) : List DatedVersion :=
  rows.insertionSort fun a b => b.versionNumber ≤ a.versionNumber

/-- `versions_to_prune`. -/
def selectVersions (rows : List DatedVersion) (now : Datetime) : List Nat :=
  selectLoop now true [] (latestFirst rows)

/-! ## What is to be selected of dated versions -/

namespace DatedVersion

variable (now : Datetime) (rows : List DatedVersion) (row : DatedVersion)

/-- The time the version was created. -/
def instant : Int := row.createdAt.aware.instant

/-- How long ago that is. -/
def since : Int := now.aware.instant - row.instant

/-- Ten minutes of a version younger than a day, and otherwise a UTC day. -/
def timeSlot : Slot :=
  if row.since now < day then .tenMinutes (row.instant / (600 * 10 ^ 6))
  else .day (row.instant / day)

/-- An autosave at least an hour old, in a slot that has a newer version at least an hour old. -/
def Expendable : Prop :=
  row.savedBy = none ∧ hour ≤ row.since now ∧
    ∃ newer ∈ rows, row.versionNumber < newer.versionNumber ∧ hour ≤ newer.since now ∧
      newer.timeSlot now = row.timeSlot now

instance : Decidable (row.Expendable now rows) := inferInstanceAs (Decidable (_ ∧ _ ∧ _))

/-- From 1970 to the year 2514, and where `now` has the very same `tzinfo` it has one offset for both. -/
structure Plain : Prop where
  epoch : 0 ≤ row.instant
  early : row.instant < 2 ^ 34 * 10 ^ 6
  offset : now.aware.tzinfo.same row.createdAt.aware.tzinfo = true →
    now.aware.tzinfo.utcoffset = row.createdAt.aware.tzinfo.utcoffset

/-- The row in exact seconds. -/
def inSeconds : VersionRow := ⟨row.id, row.versionNumber, row.instant / 10 ^ 6, row.savedBy⟩

end DatedVersion

/-! ## What is selected of dated versions -/

section Dated

variable {now : Datetime} {rows : List DatedVersion} {row : DatedVersion}

theorem Aware.sub_epoch (a : Aware) : a.sub .epoch = a.instant := by
  obtain ⟨wall, tzinfo⟩ := a
  cases tzinfo with
  | utc => rfl
  | zone object offset => exact sub_zero _

/-- A microsecond less than a second is not rounded up to it before `2 ^ 34`. -/
theorem floor_micros {m : Nat} (h : m < 2 ^ 34 * 10 ^ 6) :
    ⌊toDouble ((m : ℚ) / 10 ^ 6)⌋ = (m / 10 ^ 6 : Nat) := by
  have hwhole : m / 10 ^ 6 * 10 ^ 6 + m % 10 ^ 6 = m := Nat.div_add_mod' m (10 ^ 6)
  have hpart : m % 10 ^ 6 < 10 ^ 6 := Nat.mod_lt _ (by norm_num)
  generalize m / 10 ^ 6 = n at hwhole
  rcases Nat.eq_zero_or_pos m with rfl | hpos
  · have hzero : n = 0 := by omega
    simp [hzero, toDouble, roundHalfEven]
  · have hpos' : (0 : ℚ) < m := by exact_mod_cast hpos
    have hlow : (n : ℚ) * 10 ^ 6 ≤ m := by exact_mod_cast (by omega : n * 10 ^ 6 ≤ m)
    have hhigh : (m : ℚ) + 1 ≤ (n + 1) * 10 ^ 6 := by
      exact_mod_cast (by omega : m + 1 ≤ (n + 1) * 10 ^ 6)
    have hbound : (m : ℚ) < 2 ^ 34 * 10 ^ 6 := by exact_mod_cast h
    have hulp : ulp ((m : ℚ) / 10 ^ 6) ≤ 2 ^ (33 - 52 : ℤ) := by
      apply ulp_le_of_lt (by positivity)
      rw [div_lt_iff₀ (by norm_num)]
      norm_num
      linarith
    -- half of the last place is less than a microsecond
    have hplace : (2 : ℚ) ^ (33 - 52 : ℤ) / 2 < 1 / 10 ^ 6 := by norm_num
    apply floor_toDouble
    · rw [le_div_iff₀ (by norm_num)]
      exact hlow
    · linarith
    · rw [div_lt_iff₀ (by norm_num)]
      linarith

theorem truncate_timestamp {a : Aware} (hepoch : 0 ≤ a.instant) (hearly : a.instant < 2 ^ 34 * 10 ^ 6) :
    truncate a.timestamp = a.instant / 10 ^ 6 := by
  unfold Aware.timestamp
  rw [Aware.sub_epoch]
  obtain ⟨m, hm⟩ : ∃ m : Nat, a.instant = m := ⟨a.instant.toNat, by omega⟩
  rw [hm] at hearly ⊢
  have hnonneg : 0 ≤ toDouble ((m : ℚ) / 10 ^ 6) := toDouble_nonneg (by positivity)
  have hfloor : truncate (toDouble ((m : ℚ) / 10 ^ 6)) = (m / 10 ^ 6 : Nat) := by
    rw [truncate, if_pos hnonneg, floor_micros (by exact_mod_cast hearly)]
  rw [Int.cast_natCast, hfloor]
  exact_mod_cast rfl

namespace DatedVersion.Plain

/-- Ages are differences of times. -/
theorem age_eq (h : row.Plain now) : row.age now = row.since now := by
  unfold age since instant Aware.sub
  split
  · next hsame =>
    have hoffset := h.offset hsame
    unfold Aware.instant
    omega
  · rfl

theorem slot_eq (h : row.Plain now) : row.slot now = row.timeSlot now := by
  unfold slot timeSlot
  dsimp only
  rw [truncate_timestamp h.epoch h.early, h.age_eq]
  change (if row.since now < day then Slot.tenMinutes (row.instant / 10 ^ 6 / 600)
    else Slot.day (row.instant / 10 ^ 6 / 86400)) = _
  rw [Int.ediv_ediv_of_nonneg (by norm_num), Int.ediv_ediv_of_nonneg (by norm_num)]
  rfl

end DatedVersion.Plain

/-- `now` in exact seconds. -/
def inSeconds (now : Datetime) : Seconds := now.aware.instant / 10 ^ 6

theorem inSeconds_sub (row : DatedVersion) :
    inSeconds now - row.inSeconds.createdAt = row.since now / 10 ^ 6 := by
  unfold inSeconds DatedVersion.inSeconds DatedVersion.since
  push_cast
  ring

theorem since_lt_hour : inSeconds now - row.inSeconds.createdAt < keepAllFor ↔ row.since now < hour := by
  rw [inSeconds_sub, div_lt_iff₀ (by norm_num), keepAllFor, hour]
  exact_mod_cast Iff.rfl

theorem hour_le_since : keepAllFor ≤ inSeconds now - row.inSeconds.createdAt ↔ hour ≤ row.since now := by
  rw [← not_lt, since_lt_hour, not_lt]

theorem since_lt_day :
    inSeconds now - row.inSeconds.createdAt < keepTenMinutelyFor ↔ row.since now < day := by
  rw [inSeconds_sub, div_lt_iff₀ (by norm_num), keepTenMinutelyFor, day]
  exact_mod_cast Iff.rfl

theorem slot_inSeconds (h : 0 ≤ row.instant) : row.inSeconds.slot (inSeconds now) = row.timeSlot now := by
  have htruncate : truncate row.inSeconds.createdAt = row.instant / 10 ^ 6 := by
    have hnonneg : (0 : ℚ) ≤ (row.instant : ℚ) / 10 ^ 6 := by
      have hcast : (0 : ℚ) ≤ row.instant := by exact_mod_cast h
      positivity
    change truncate ((row.instant : ℚ) / 10 ^ 6) = _
    rw [truncate, if_pos hnonneg]
    exact_mod_cast Rat.floor_intCast_div_natCast row.instant (10 ^ 6)
  unfold VersionRow.slot DatedVersion.timeSlot
  dsimp only
  simp only [since_lt_day]
  rw [htruncate, Int.ediv_ediv_of_nonneg (by norm_num), Int.ediv_ediv_of_nonneg (by norm_num)]
  rfl

theorem redundant_inSeconds (now : Datetime) (hepoch : ∀ r ∈ rows, 0 ≤ r.instant) (hrow : row ∈ rows) :
    Redundant (inSeconds now) (rows.map (·.inSeconds)) row.inSeconds ↔ row.Expendable now rows := by
  unfold Redundant DatedVersion.Expendable
  rw [hour_le_since, slot_inSeconds (hepoch row hrow)]
  constructor
  · rintro ⟨hauto, hold, newer, hmem, hlt, hold', hslot⟩
    obtain ⟨r, hr, rfl⟩ := List.mem_map.1 hmem
    rw [slot_inSeconds (hepoch r hr)] at hslot
    exact ⟨hauto, hold, r, hr, hlt, hour_le_since.1 hold', hslot⟩
  · rintro ⟨hauto, hold, newer, hmem, hlt, hold', hslot⟩
    refine ⟨hauto, hold, newer.inSeconds, List.mem_map_of_mem hmem, hlt, hour_le_since.2 hold', ?_⟩
    rw [slot_inSeconds (hepoch newer hmem)]
    exact hslot

/-- On plain datetimes the loop goes as over exact seconds. -/
theorem selectLoop_eq (hplain : ∀ r ∈ rows, r.Plain now) (latest : Bool) (seen : List Slot) :
    selectLoop now latest seen rows =
      pruneLoop (inSeconds now) latest seen (rows.map (·.inSeconds)) := by
  induction rows generalizing latest seen with
  | nil => rfl
  | cons row rest ih =>
    have hrow := hplain row List.mem_cons_self
    have hrest := ih fun r hr => hplain r (List.mem_cons_of_mem _ hr)
    rw [List.map_cons, selectLoop, pruneLoop, hrow.age_eq, hrow.slot_eq, slot_inSeconds hrow.epoch]
    simp only [since_lt_hour, hrest]
    rfl

theorem map_latestFirst :
    (latestFirst rows).map (·.inSeconds) = newestFirst (rows.map (·.inSeconds)) :=
  List.map_insertionSort _ _ DatedVersion.inSeconds rows fun _ _ _ _ => Iff.rfl

theorem selectVersions_eq_inSeconds (hplain : ∀ r ∈ rows, r.Plain now) :
    selectVersions rows now = versionsToPrune (rows.map (·.inSeconds)) (inSeconds now) := by
  have hmem : ∀ r ∈ latestFirst rows, r.Plain now := fun r hr =>
    hplain r ((rows.perm_insertionSort _).mem_iff.1 hr)
  unfold selectVersions versionsToPrune
  rw [selectLoop_eq hmem, map_latestFirst]
  rfl

theorem nodup_inSeconds (hn : (rows.map (·.versionNumber)).Nodup) :
    ((rows.map (·.inSeconds)).map (·.versionNumber)).Nodup := by
  rw [List.map_map]
  exact hn

theorem mem_latestFirst : row ∈ latestFirst rows ↔ row ∈ rows := (rows.perm_insertionSort _).mem_iff

/-- What is selected is what is expendable. -/
theorem selectVersions_eq (hn : (rows.map (·.versionNumber)).Nodup)
    (hplain : ∀ r ∈ rows, r.Plain now) :
    selectVersions rows now =
      ((latestFirst rows).filter fun row => row.Expendable now rows).map (·.id) := by
  rw [selectVersions_eq_inSeconds hplain, versionsToPrune_eq (nodup_inSeconds hn), ← map_latestFirst,
    List.filter_map, List.map_map]
  have hfilter : (latestFirst rows).filter
      ((fun r => decide (Redundant (inSeconds now) (rows.map (·.inSeconds)) r)) ∘ (·.inSeconds)) =
        (latestFirst rows).filter fun row => row.Expendable now rows := by
    apply List.filter_congr
    intro r hr
    have hred := redundant_inSeconds now (fun r hr => (hplain r hr).epoch)
      (mem_latestFirst.1 hr)
    simp [hred]
  rw [hfilter]
  rfl

theorem DatedVersion.Expendable.mono {rows' : List DatedVersion} (hsub : ∀ r ∈ rows', r ∈ rows)
    (h : row.Expendable now rows') : row.Expendable now rows := by
  obtain ⟨hauto, hold, newer, hmem, hnewer⟩ := h
  exact ⟨hauto, hold, newer, hsub newer hmem, hnewer⟩

/-- What a pass has left is thinned. -/
theorem selectVersions_remaining (hn : (rows.map (·.versionNumber)).Nodup)
    (hplain : ∀ r ∈ rows, r.Plain now) :
    selectVersions (rows.filter fun row => row.id ∉ selectVersions rows now) now = [] := by
  have hsub : ∀ r ∈ rows.filter fun row => row.id ∉ selectVersions rows now, r ∈ rows :=
    fun r hr => (List.mem_filter.1 hr).1
  rw [selectVersions_eq (hn.sublist (List.filter_sublist.map _)) fun r hr => hplain r (hsub r hr),
    List.map_eq_nil_iff, List.filter_eq_nil_iff]
  intro row hrow
  obtain ⟨hrow, hleft⟩ := List.mem_filter.1 (mem_latestFirst.1 hrow)
  have hnot : row.id ∉ selectVersions rows now := of_decide_eq_true hleft
  rw [decide_eq_true_eq]
  intro h
  apply hnot
  rw [selectVersions_eq hn hplain]
  apply List.mem_map_of_mem
  exact List.mem_filter.2 ⟨mem_latestFirst.2 hrow, decide_eq_true (h.mono hsub)⟩

/-- **A pass selects what is expendable, and no more**: never the latest version, a Save or a version
younger than an hour; and it leaves nothing for another pass at the same time. -/
theorem versions_to_prune_exact (hn : (rows.map (·.versionNumber)).Nodup)
    (hplain : ∀ r ∈ rows, r.Plain now) :
    selectVersions rows now =
        ((latestFirst rows).filter fun row => row.Expendable now rows).map (·.id) ∧
      (∀ row ∈ rows, row.Expendable now rows → row.savedBy = none ∧ hour ≤ row.since now ∧
        ∃ newer ∈ rows, row.versionNumber < newer.versionNumber) ∧
      selectVersions (rows.filter fun row => row.id ∉ selectVersions rows now) now = [] := by
  refine ⟨selectVersions_eq hn hplain, ?_, selectVersions_remaining hn hplain⟩
  rintro row - ⟨hauto, hold, newer, hmem, hlt, -⟩
  exact ⟨hauto, hold, newer, hmem, hlt⟩

/-- Two autosaves of one slot and the latest version, all of them three hours old or more. -/
def threeVersions : List DatedVersion :=
  [⟨7, 1, ⟨hour, none⟩, none⟩, ⟨8, 2, ⟨hour + 10 ^ 6, some .utc⟩, none⟩, ⟨9, 3, ⟨2 * hour, none⟩, none⟩]

theorem versions_to_prune_exact_three :
    threeVersions.all (fun row => 0 ≤ row.instant) = true ∧
      selectVersions threeVersions ⟨5 * hour, none⟩ = [7] := by
  have hplain : ∀ r ∈ threeVersions, r.Plain ⟨5 * hour, none⟩ := by
    intro r hr
    simp only [threeVersions, List.mem_cons, List.not_mem_nil, or_false] at hr
    rcases hr with rfl | rfl | rfl
    · exact ⟨by decide, by decide, fun _ => rfl⟩
    · exact ⟨by decide, by decide, fun _ => rfl⟩
    · exact ⟨by decide, by decide, fun _ => rfl⟩
  refine ⟨by decide, ?_⟩
  rw [(versions_to_prune_exact (by decide) hplain).1]
  decide

/-- The last microsecond of the year 2999, and two versions of the next day. -/
def millennium : List DatedVersion :=
  [⟨7, 1, ⟨32503680000 * 10 ^ 6 - 1, none⟩, none⟩, ⟨8, 2, ⟨32503680000 * 10 ^ 6, none⟩, none⟩,
    ⟨9, 3, ⟨32503680001 * 10 ^ 6, none⟩, none⟩]

/-- Three versions within a second, at two o'clock. -/
def clocksBack : List DatedVersion :=
  [⟨7, 1, ⟨7200 * 10 ^ 6, some (.zone 1 (2 * hour))⟩, none⟩,
    ⟨8, 2, ⟨7201 * 10 ^ 6, some (.zone 1 (2 * hour))⟩, none⟩,
    ⟨9, 3, ⟨7201 * 10 ^ 6, some (.zone 1 (2 * hour))⟩, none⟩]

/-- As a double the last microsecond of a year is of the next year, and its only version goes. At half
past two, after the clocks have gone back to two, what was written at two is thirty minutes old. -/
theorem versions_to_prune_rounds :
    (selectVersions millennium ⟨32503680000 * 10 ^ 6 + 2 * day, none⟩ = [8, 7] ∧
      ((latestFirst millennium).filter fun row =>
        row.Expendable ⟨32503680000 * 10 ^ 6 + 2 * day, none⟩ millennium).map (·.id) = [8]) ∧
    (selectVersions clocksBack ⟨9000 * 10 ^ 6, some (.zone 1 hour)⟩ = [] ∧
      ((latestFirst clocksBack).filter fun row =>
        row.Expendable ⟨9000 * 10 ^ 6, some (.zone 1 hour)⟩ clocksBack).map (·.id) = [8, 7]) := by
  decide +kernel

end Dated

end Concord
