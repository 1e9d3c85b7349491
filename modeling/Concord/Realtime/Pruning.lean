import Concord.Base.System
import Concord.Models
import Mathlib

/-!
# Thinning out old autosaves

`versions_to_prune` and `prune_versions` of `realtime/checkpoint.py`, over the table
`document_versions`. What a pass deletes stands in a slot, of ten minutes or a day, in which the file
has a version with a higher number (`exists_newer_of_mem_versionsToPrune`). As either kind of slot lies
within a day, the highest-numbered version that a file ever had of a day is never deleted.
-/

namespace Concord

open Concord.Base

/-- `KEEP_ALL_FOR`. -/
def keepAllFor : Seconds := 3600

/-- `KEEP_TEN_MINUTELY_FOR`. -/
def keepTenMinutelyFor : Seconds := 86400

/-- `PRUNE_MIN_VERSIONS`: files with fewer versions than this aren't worth looking at. -/
def pruneMinVersions : Nat := 30

structure VersionRow where
  id : Nat
  versionNumber : Nat
  createdAt : Seconds
  savedBy : Option UserId := none
deriving DecidableEq, Repr

/-- The slots of the history: each ten minutes, and each day. -/
inductive Slot
  | tenMinutes (n : Int)
  | day (n : Int)
deriving DecidableEq, Repr

/-- `int(…)` of a number: towards zero. -/
def truncate (x : ℚ) : Int := if 0 ≤ x then ⌊x⌋ else ⌈x⌉

/-- The slot of a version older than `KEEP_ALL_FOR`. Times are in seconds since 1970. -/
def VersionRow.slot (now : Seconds) (row : VersionRow) : Slot :=
  let ts := truncate row.createdAt
  if now - row.createdAt < keepTenMinutelyFor then .tenMinutes (ts / 600) else .day (ts / 86400)

/-- The loop of `versions_to_prune`; `latest` while it is at the first row. -/
def pruneLoop (now : Seconds) : Bool → List Slot → List VersionRow → List Nat
  | _, _, [] => []
  | latest, seen, row :: rest =>
    if now - row.createdAt < keepAllFor then pruneLoop now false seen rest
    else if latest || row.savedBy.isSome then
      -- kept regardless, and it stands for its slot
      pruneLoop now false (row.slot now :: seen) rest
    else if row.slot now ∈ seen then
      -- an older autosave in a slot that already has a newer one
      row.id :: pruneLoop now false seen rest
    else pruneLoop now false (row.slot now :: seen) rest

/-- `versions_to_prune`: ids of one file's autosaves that the history no longer needs. -/
def versionsToPrune (rows : List VersionRow) (now : Seconds) : List Nat :=
  pruneLoop now true [] (rows.insertionSort fun a b => b.versionNumber ≤ a.versionNumber)

/-- `ids[i:i + 500] for i in range(0, len(ids), 500)`. -/
def deleteBatches (ids : List Nat) : List (List Nat) :=
  (List.range ((ids.length + 499) / 500)).map fun j => (ids.drop (500 * j)).take 500

/-- A row of `document_versions`. -/
structure DocumentVersion (B : Type) extends VersionRow where
  fileId : FileId
  snapshotBytes : B
deriving DecidableEq, Repr

section Table

variable {B : Type} (table : List (DocumentVersion B))

/-- The rows that `prune_versions` reads of a file. -/
def versionRows (file : FileId) : List VersionRow :=
  (table.filter fun v => v.fileId = file).map (·.toVersionRow)

/-- The files with enough versions to look at. -/
def busyFiles : List FileId :=
  ((table.map (·.fileId)).dedup).filter fun file =>
    pruneMinVersions ≤ table.countP fun v => v.fileId = file

/-- `delete(DocumentVersion).where(DocumentVersion.id.in_(ids))`. -/
def deleteIds (ids : List Nat) : List (DocumentVersion B) := table.filter fun v => v.id ∉ ids

/-- What `prune_versions` does to a busy file. -/
def pruneFile (now : Seconds) (table : List (DocumentVersion B)) (file : FileId) :
    List (DocumentVersion B) :=
  (deleteBatches (versionsToPrune (versionRows table file) now)).foldl deleteIds table

/-- `prune_versions`, with nothing else going on. -/
def pruneVersions (now : Seconds) : List (DocumentVersion B) :=
  (busyFiles table).foldl (pruneFile now) table

end Table

/-! ## What a pass deletes -/

section Prune

variable {now : Seconds} {rows : List VersionRow} {id : Nat}

/-- What the loop finds in a slot already seen comes after a row of this slot. -/
theorem exists_of_mem_pruneLoop {latest : Bool} {seen : List Slot}
    (h : id ∈ pruneLoop now latest seen rows) :
    ∃ before row after, rows = before ++ row :: after ∧ row.id = id ∧
      (row.slot now ∈ seen ∨ ∃ newer ∈ before, newer.slot now = row.slot now) := by
  induction rows generalizing latest seen with
  | nil => cases h
  | cons head rest ih =>
    have hrest : ∀ seen', (∀ s ∈ seen', s ∈ seen ∨ s = head.slot now) →
        id ∈ pruneLoop now false seen' rest →
        ∃ before row after, head :: rest = before ++ row :: after ∧ row.id = id ∧
          (row.slot now ∈ seen ∨ ∃ newer ∈ before, newer.slot now = row.slot now) := by
      intro seen' hseen hmem
      obtain ⟨before, row, after, rfl, hid, hslot⟩ := ih hmem
      refine ⟨head :: before, row, after, rfl, hid, ?_⟩
      rcases hslot with hslot | ⟨newer, hnewer, hslot⟩
      · rcases hseen _ hslot with hslot | hslot
        · exact .inl hslot
        · exact .inr ⟨head, List.mem_cons_self, hslot.symm⟩
      · exact .inr ⟨newer, List.mem_cons_of_mem _ hnewer, hslot⟩
    have hkept : ∀ s ∈ head.slot now :: seen, s ∈ seen ∨ s = head.slot now := by
      intro s hs
      rcases List.mem_cons.1 hs with hs | hs
      · exact .inr hs
      · exact .inl hs
    unfold pruneLoop at h
    split at h
    · exact hrest seen (fun _ hs => .inl hs) h
    · split at h
      · exact hrest _ hkept h
      · split at h
        · next hseen =>
          rcases List.mem_cons.1 h with rfl | h
          · exact ⟨[], head, rest, rfl, rfl, .inl hseen⟩
          · exact hrest seen (fun _ hs => .inl hs) h
        · exact hrest _ hkept h

/-- A version is only deleted where its slot has one with a higher number. -/
theorem exists_newer_of_mem_versionsToPrune (hn : (rows.map (·.versionNumber)).Nodup)
    (h : id ∈ versionsToPrune rows now) :
    ∃ row ∈ rows, row.id = id ∧ ∃ newer ∈ rows, row.versionNumber < newer.versionNumber ∧
      newer.slot now = row.slot now := by
  have hperm := rows.perm_insertionSort fun a b => b.versionNumber ≤ a.versionNumber
  have htotal : Std.Total fun a b : VersionRow => b.versionNumber ≤ a.versionNumber :=
    ⟨fun a b => le_total b.versionNumber a.versionNumber⟩
  have htrans : IsTrans VersionRow fun a b => b.versionNumber ≤ a.versionNumber :=
    ⟨fun a b c hab hbc => le_trans hbc hab⟩
  have hsorted := rows.pairwise_insertionSort fun a b => b.versionNumber ≤ a.versionNumber
  obtain ⟨before, row, after, hsplit, hid, hslot⟩ := exists_of_mem_pruneLoop h
  rcases hslot with hslot | ⟨newer, hnewer, hslot⟩
  · cases hslot
  · have hmem : ∀ x ∈ before ++ row :: after, x ∈ rows := fun x hx =>
      hperm.mem_iff.1 (hsplit ▸ hx)
    have hle : row.versionNumber ≤ newer.versionNumber := by
      rw [hsplit] at hsorted
      exact (List.pairwise_append.1 hsorted).2.2 newer hnewer row List.mem_cons_self
    have hne : newer.versionNumber ≠ row.versionNumber := by
      have hnodup := (hperm.map (·.versionNumber)).nodup_iff.2 hn
      rw [hsplit, List.map_append, List.map_cons] at hnodup
      exact (List.nodup_append.1 hnodup).2.2 _ (List.mem_map_of_mem hnewer) _ List.mem_cons_self
    exact ⟨row, hmem row (by simp), hid, newer, hmem newer (List.mem_append_left _ hnewer),
      lt_of_le_of_ne hle hne.symm, hslot⟩

/-- The UTC day of a time, counted from 1970. -/
def utcDay (t : Seconds) : Int := ⌊t / 86400⌋

theorem utcDay_eq {t : Seconds} (h : 0 ≤ t) : utcDay t = truncate t / 86400 := by
  unfold utcDay truncate
  rw [if_pos h]
  exact_mod_cast Int.floor_div_natCast t 86400

/-- Times of one slot are times of one day. -/
theorem utcDay_eq_of_slot_eq {row newer : VersionRow} (hrow : 0 ≤ row.createdAt)
    (hnewer : 0 ≤ newer.createdAt) (h : newer.slot now = row.slot now) :
    utcDay newer.createdAt = utcDay row.createdAt := by
  rw [utcDay_eq hrow, utcDay_eq hnewer]
  unfold VersionRow.slot at h
  dsimp only at h
  split at h
  · split at h
    · have hslot := Slot.tenMinutes.inj h
      omega
    · cases h
  · split at h
    · cases h
    · exact Slot.day.inj h

theorem mem_of_mem_deleteBatches {ids batch : List Nat} (hbatch : batch ∈ deleteBatches ids)
    (h : id ∈ batch) : id ∈ ids := by
  obtain ⟨j, -, rfl⟩ := List.mem_map.1 hbatch
  exact List.mem_of_mem_drop (List.mem_of_mem_take h)

end Prune

/-! ## The versions a file ever had -/

/-- What stays the same of a version as long as it exists. -/
structure VersionKey where
  id : Nat
  fileId : FileId
  versionNumber : Nat
  createdAt : Seconds
deriving DecidableEq, Repr

def DocumentVersion.key {B : Type} (v : DocumentVersion B) : VersionKey :=
  ⟨v.id, v.fileId, v.versionNumber, v.createdAt⟩

/-- `a` and `b` are versions of one file, and `b` is the newer one. -/
def VersionKey.Below (a b : VersionKey) : Prop :=
  a.fileId = b.fileId ∧ a.versionNumber < b.versionNumber

/-- Versions in the order they were created: ids differ, and the numbers of a file grow. -/
def Numbered (created : List VersionKey) : Prop :=
  created.Pairwise fun a b => a.id ≠ b.id ∧ (a.fileId = b.fileId → a.versionNumber < b.versionNumber)

section Created

variable {created : List VersionKey}

theorem Numbered.eq_of_id_eq (h : Numbered created) {a b : VersionKey} (ha : a ∈ created)
    (hb : b ∈ created) (hid : a.id = b.id) : a = b := by
  by_contra hne
  have hids : created.Pairwise fun a b => a.id ≠ b.id := h.imp fun hab => hab.1
  have hsymm : Std.Symm fun a b : VersionKey => a.id ≠ b.id := ⟨fun _ _ hab => hab.symm⟩
  exact hids.forall ha hb hne hid

theorem Numbered.eq_of_number_eq (h : Numbered created) {a b : VersionKey} (ha : a ∈ created)
    (hb : b ∈ created) (hfile : a.fileId = b.fileId) (hnumber : a.versionNumber = b.versionNumber) :
    a = b := by
  by_contra hne
  have hnumbers : created.Pairwise fun a b => a.fileId = b.fileId →
      a.versionNumber ≠ b.versionNumber := h.imp fun hab hfile => (hab.2 hfile).ne
  have hsymm : Std.Symm fun a b : VersionKey => a.fileId = b.fileId →
      a.versionNumber ≠ b.versionNumber := ⟨fun _ _ hab hfile => (hab hfile.symm).symm⟩
  exact hnumbers.forall ha hb hne hfile hnumber

theorem exists_top (created : List VersionKey) : ∃ top, ∀ k ∈ created, k.versionNumber ≤ top := by
  induction created with
  | nil => exact ⟨0, nofun⟩
  | cons k rest ih =>
    obtain ⟨top, htop⟩ := ih
    refine ⟨max k.versionNumber top, ?_⟩
    intro k' hk'
    rcases List.mem_cons.1 hk' with rfl | hk'
    · exact le_max_left _ _
    · exact (htop k' hk').trans (le_max_right _ _)

/-- The numbers of a file's rows differ. -/
theorem nodup_versionRows {B : Type} {table : List (DocumentVersion B)} (h : Numbered created)
    (hrows : (table.map (·.key)).Sublist created) (file : FileId) :
    ((versionRows table file).map (·.versionNumber)).Nodup := by
  have hkeys := List.Pairwise.sublist hrows h
  rw [List.pairwise_map] at hkeys
  unfold versionRows
  rw [List.Nodup, List.pairwise_map, List.pairwise_map, List.pairwise_filter]
  apply hkeys.imp
  intro v w hvw hv hw
  have hfile : v.fileId = w.fileId := by
    rw [of_decide_eq_true hv, of_decide_eq_true hw]
  exact (hvw.2 hfile).ne

/-- Where every version that does not have `P` has a newer one of its kind, every version has one with
`P` of its kind that is as new. -/
theorem exists_newest (kind : VersionKey → VersionKey → Prop) {P : VersionKey → Prop}
    (hrefl : ∀ a, kind a a) (htrans : ∀ a b c, kind a b → kind b c → kind a c)
    (hstep : ∀ a ∈ created, P a ∨ ∃ b ∈ created, kind a b ∧ a.versionNumber < b.versionNumber)
    {a : VersionKey} (ha : a ∈ created) :
    ∃ b ∈ created, kind a b ∧ P b ∧ a.versionNumber ≤ b.versionNumber := by
  obtain ⟨top, htop⟩ := exists_top created
  generalize hroom : top - a.versionNumber = room
  induction room using Nat.strong_induction_on generalizing a with
  | _ room ih =>
    rcases hstep a ha with hP | ⟨b, hb, hkind, hlt⟩
    · exact ⟨a, ha, hrefl a, hP, le_refl _⟩
    · have hle := htop b hb
      obtain ⟨c, hc, hkind', hP, hle'⟩ := ih (top - b.versionNumber) (by omega) hb rfl
      exact ⟨c, hc, htrans a b c hkind hkind', hP, by omega⟩

end Created

/-- The table `document_versions`, with the versions that were ever created. -/
structure VersionHistory (B : Type) where
  table : List (DocumentVersion B) := []
  created : List VersionKey := []

inductive VersionEvent (B : Type)
  /-- An autosave or a Save. -/
  | insert (v : DocumentVersion B)
  /-- Saving right after an autosave of the same text. -/
  | markSaved (id : Nat) (user : UserId)
  | prune (now : Seconds)

/-- `latest.saved_by = saved_by`. -/
def markSaved {B : Type} (table : List (DocumentVersion B)) (id : Nat) (user : UserId) :
    List (DocumentVersion B) :=
  table.map fun v => if v.id = id then { v with savedBy := some user } else v

/-- Versions are inserted with new ids and numbers that grow, at any time from 1970 on. -/
def VersionHistory.step {B : Type} (s : VersionHistory B) : VersionEvent B →
    Option (VersionHistory B)
  | .insert v =>
    if (∀ k ∈ s.created, k.id ≠ v.id ∧ (k.fileId = v.fileId → k.versionNumber < v.versionNumber)) ∧
        0 ≤ v.createdAt then
      some { table := s.table ++ [v], created := s.created ++ [v.key] }
    else none
  | .markSaved id user => some { s with table := markSaved s.table id user }
  | .prune now => some { s with table := pruneVersions s.table now }

def versionHistory (B : Type) : System (VersionHistory B) (VersionEvent B) where
  init := {}
  step := VersionHistory.step

section History

variable {B : Type} {s : VersionHistory B} {now : Seconds}

/-- Versions of one file, created on one UTC day. -/
def VersionKey.SameDay (a b : VersionKey) : Prop :=
  a.fileId = b.fileId ∧ utcDay a.createdAt = utcDay b.createdAt

/-- Each version that is not in the table has a newer one of its day. -/
structure HistoryInv (s : VersionHistory B) : Prop where
  numbered : Numbered s.created
  epoch : ∀ k ∈ s.created, 0 ≤ k.createdAt
  rows : (s.table.map (·.key)).Sublist s.created
  kept : ∀ k ∈ s.created, (∃ v ∈ s.table, v.key = k) ∨
    ∃ k' ∈ s.created, k.SameDay k' ∧ k.versionNumber < k'.versionNumber

theorem HistoryInv.key_mem (h : HistoryInv s) {v : DocumentVersion B} (hv : v ∈ s.table) :
    v.key ∈ s.created :=
  h.rows.subset (List.mem_map_of_mem hv)

theorem HistoryInv.deleteIds (h : HistoryInv s) {ids : List Nat}
    (hids : ∀ k ∈ s.created, k.id ∈ ids →
      ∃ k' ∈ s.created, k.SameDay k' ∧ k.versionNumber < k'.versionNumber) :
    HistoryInv { s with table := deleteIds s.table ids } where
  numbered := h.numbered
  epoch := h.epoch
  rows := (List.filter_sublist.map _).trans h.rows
  kept := by
    intro k hk
    by_cases hdeleted : k.id ∈ ids
    · exact .inr (hids k hk hdeleted)
    · rcases h.kept k hk with ⟨v, hv, rfl⟩ | hnewer
      · left
        have hid : v.id ∉ ids := hdeleted
        exact ⟨v, List.mem_filter.2 ⟨hv, by simpa using hid⟩, rfl⟩
      · exact .inr hnewer

theorem HistoryInv.pruneFile (h : HistoryInv s) (file : FileId) :
    HistoryInv { s with table := pruneFile now s.table file } := by
  have hids : ∀ k ∈ s.created, k.id ∈ versionsToPrune (versionRows s.table file) now →
      ∃ k' ∈ s.created, k.SameDay k' ∧ k.versionNumber < k'.versionNumber := by
    intro k hk hid
    obtain ⟨row, hrow, hrowid, newer, hnewer, hlt, hslot⟩ :=
      exists_newer_of_mem_versionsToPrune (nodup_versionRows h.numbered h.rows file) hid
    obtain ⟨v, hv, rfl⟩ := List.mem_map.1 hrow
    obtain ⟨w, hw, rfl⟩ := List.mem_map.1 hnewer
    obtain ⟨hv, hvfile⟩ := List.mem_filter.1 hv
    obtain ⟨hw, hwfile⟩ := List.mem_filter.1 hw
    have hkey : v.key = k := h.numbered.eq_of_id_eq (h.key_mem hv) hk hrowid
    subst hkey
    refine ⟨w.key, h.key_mem hw, ⟨?_, ?_⟩, hlt⟩
    · exact (of_decide_eq_true hvfile).trans (of_decide_eq_true hwfile).symm
    · exact (utcDay_eq_of_slot_eq (h.epoch _ (h.key_mem hv)) (h.epoch _ (h.key_mem hw)) hslot).symm
  have hbatches : ∀ (batches : List (List Nat)) (s' : VersionHistory B),
      (∀ batch ∈ batches, ∀ id ∈ batch, id ∈ versionsToPrune (versionRows s.table file) now) →
      HistoryInv s' → s'.created = s.created →
      HistoryInv { s' with table := batches.foldl Concord.deleteIds s'.table } := by
    intro batches
    induction batches with
    | nil =>
      intro s' _ h' _
      exact h'
    | cons batch rest ih =>
      intro s' hbatch h' hcreated
      apply ih { s' with table := Concord.deleteIds s'.table batch }
      · intro batch' hbatch'
        exact hbatch batch' (List.mem_cons_of_mem _ hbatch')
      · apply h'.deleteIds
        intro k hk hid
        rw [hcreated] at hk ⊢
        exact hids k hk (hbatch batch List.mem_cons_self _ hid)
      · exact hcreated
  exact hbatches _ s (fun batch hbatch id hid => mem_of_mem_deleteBatches hbatch hid) h rfl

theorem HistoryInv.prune (h : HistoryInv s) (now : Seconds) :
    HistoryInv { s with table := pruneVersions s.table now } := by
  have hfiles : ∀ (files : List FileId) (s' : VersionHistory B), HistoryInv s' →
      HistoryInv { s' with table := files.foldl (Concord.pruneFile now) s'.table } := by
    intro files
    induction files with
    | nil =>
      intro s' h'
      exact h'
    | cons file rest ih =>
      intro s' h'
      exact ih { s' with table := Concord.pruneFile now s'.table file } (h'.pruneFile file)
  exact hfiles _ s h

theorem map_key_markSaved (table : List (DocumentVersion B)) (id : Nat) (user : UserId) :
    (markSaved table id user).map (·.key) = table.map (·.key) := by
  unfold markSaved
  rw [List.map_map]
  apply List.map_congr_left
  intro v _
  dsimp only [Function.comp_apply]
  split
  · rfl
  · rfl

theorem HistoryInv.markSaved (h : HistoryInv s) (id : Nat) (user : UserId) :
    HistoryInv { s with table := markSaved s.table id user } where
  numbered := h.numbered
  epoch := h.epoch
  rows := by
    rw [map_key_markSaved]
    exact h.rows
  kept := by
    intro k hk
    rcases h.kept k hk with ⟨v, hv, hkey⟩ | hnewer
    · left
      have hmem : k ∈ (Concord.markSaved s.table id user).map (·.key) := by
        rw [map_key_markSaved, ← hkey]
        exact List.mem_map_of_mem hv
      exact List.mem_map.1 hmem
    · exact .inr hnewer

theorem HistoryInv.insert (h : HistoryInv s) {v : DocumentVersion B}
    (hnew : ∀ k ∈ s.created, k.id ≠ v.id ∧ (k.fileId = v.fileId → k.versionNumber < v.versionNumber))
    (hepoch : 0 ≤ v.createdAt) :
    HistoryInv { table := s.table ++ [v], created := s.created ++ [v.key] } where
  numbered := by
    apply List.pairwise_append.2
    refine ⟨h.numbered, List.pairwise_singleton _ _, ?_⟩
    intro k hk k' hk'
    rw [List.mem_singleton.1 hk']
    exact hnew k hk
  epoch := by
    intro k hk
    rcases List.mem_append.1 hk with hk | hk
    · exact h.epoch k hk
    · rw [List.mem_singleton.1 hk]
      exact hepoch
  rows := by
    rw [List.map_append]
    exact h.rows.append (List.Sublist.refl _)
  kept := by
    intro k hk
    rcases List.mem_append.1 hk with hk | hk
    · rcases h.kept k hk with ⟨w, hw, hkey⟩ | ⟨k', hk', hnewer⟩
      · exact .inl ⟨w, List.mem_append_left _ hw, hkey⟩
      · exact .inr ⟨k', List.mem_append_left _ hk', hnewer⟩
    · rw [List.mem_singleton.1 hk]
      exact .inl ⟨v, List.mem_append_right _ List.mem_cons_self, rfl⟩

theorem historyInv_of_reachable (h : (versionHistory B).Reachable s) : HistoryInv s := by
  apply h.induction
  · exact ⟨.nil, nofun, .slnil, nofun⟩
  · intro s event s' _ hs _ hstep
    cases event with
    | insert v =>
      simp only [versionHistory, VersionHistory.step] at hstep
      split at hstep
      · next hguard =>
        cases hstep
        exact hs.insert hguard.1 hguard.2
      · cases hstep
    | markSaved id user =>
      cases hstep
      exact hs.markSaved id user
    | prune now =>
      cases hstep
      exact hs.prune now

end History

end Concord
