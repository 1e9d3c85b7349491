import Mathlib

/-!
# File trees

A directory tree is a map from paths, lists of names, to directories and files; the empty path is the
root. `create` makes the missing directories above a path and writes a file there, as
`mkdir(parents=True, exist_ok=True)` and `write_text` do: it fails if a file stands where a directory
is needed, or a directory where the file is to be, or a name is not one.

Files can be written to an empty tree, in whatever order, if and only if none of them stands above
another (`createAll_eq_some_iff`).
-/

namespace Concord.Base

universe u v

inductive Entry (β : Type v)
  | directory
  | file (content : β)
deriving DecidableEq

/-- What stands at each path. -/
abbrev FileTree (σ : Type u) (β : Type v) := List σ → Option (Entry β)

namespace FileTree

variable {σ : Type u} {β : Type v} [DecidableEq σ]

/-- The tree with nothing but its root. -/
def empty : FileTree σ β := fun q => if q = [] then some .directory else none

/-- The content of the file at a path. -/
def read (t : FileTree σ β) (q : List σ) : Option β :=
  match t q with
  | some (.file c) => some c
  | _ => none

variable (nameOk : σ → Bool) (t : FileTree σ β)

/-- `mkdir(parents=True, exist_ok=True)`. -/
def mkdirs (path : List σ) : Option (FileTree σ β) :=
  if path.all nameOk && path.inits.all fun q => (read t q).isNone then
    some fun q => if (t q).isNone && q.isPrefixOf path then some .directory else t q
  else none

/-- `write_text`. -/
def writeFile (path : List σ) (content : β) : Option (FileTree σ β) :=
  match t path, t path.dropLast with
  | some .directory, _ => none
  | _, some .directory =>
    if path.all nameOk then some (Function.update t path (some (.file content))) else none
  | _, _ => none

/-- The directories above a file, then the file. -/
def create (file : List σ × β) : Option (FileTree σ β) :=
  (mkdirs nameOk t file.1.dropLast).bind fun t' => writeFile nameOk t' file.1 file.2

/-- The files, one after the other, in an empty tree. -/
def createAll (files : List (List σ × β)) : Option (FileTree σ β) :=
  files.foldlM (create nameOk) empty

/-- The tree of these files and the directories above them. -/
def layout (files : List (List σ × β)) : FileTree σ β := fun q =>
  match files.lookup q with
  | some c => some (.file c)
  | none => if q = [] ∨ ∃ f ∈ files, q <+: f.1 then some .directory else none

/-- No path stands above the other. -/
def Apart (p q : List σ) : Prop := ¬p <+: q ∧ ¬q <+: p

instance (p q : List σ) : Decidable (Apart p q) := inferInstanceAs (Decidable (_ ∧ _))

/-- The files have proper names and none stands above another. -/
structure Compatible (nameOk : σ → Bool) (files : List (List σ × β)) : Prop where
  names : ∀ f ∈ files, f.1.all nameOk = true
  apart : files.Pairwise fun f g => Apart f.1 g.1

variable {nameOk} {t} {files : List (List σ × β)} {p q : List σ} {c : β}

theorem lookup_of_mem (hn : (files.map (·.1)).Nodup) (h : (q, c) ∈ files) :
    files.lookup q = some c := by
  obtain ⟨l₁, l₂, rfl⟩ := List.append_of_mem h
  refine List.lookup_eq_some_iff.2 ⟨l₁, l₂, rfl, fun f hf => ?_⟩
  rw [List.map_append, List.nodup_append] at hn
  exact bne_iff_ne.2 (hn.2.2 f.1 (List.mem_map_of_mem hf) q (by simp)).symm

theorem layout_of_mem (hn : (files.map (·.1)).Nodup) (h : (q, c) ∈ files) :
    layout files q = some (.file c) := by
  simp only [layout, lookup_of_mem hn h]

theorem lookup_of_not_mem (h : q ∉ files.map (·.1)) : files.lookup q = none := by
  rw [List.lookup_eq_none_iff]
  intro f hf
  rw [bne_iff_ne]
  rintro rfl
  exact h (List.mem_map_of_mem hf)

theorem layout_of_not_mem (h : q ∉ files.map (·.1)) : layout files q =
    if q = [] ∨ ∃ f ∈ files, q <+: f.1 then some .directory else none := by
  simp only [layout, lookup_of_not_mem h]

theorem layout_ne_none_of_prefix (h : ∃ f ∈ files, q <+: f.1) : layout files q ≠ none := by
  unfold layout
  split
  · simp
  · rw [if_pos (.inr h)]
    simp

/-- A file of the layout is one of the files. -/
theorem mem_of_layout (h : layout files q = some (.file c)) : (q, c) ∈ files := by
  unfold layout at h
  split at h
  · next c' hl =>
    cases h
    obtain ⟨l₁, l₂, rfl, -⟩ := List.lookup_eq_some_iff.1 hl
    exact List.mem_append_right _ List.mem_cons_self
  · split at h
    · cases h
    · cases h

theorem read_layout (hn : (files.map (·.1)).Nodup) :
    read (layout files) q = some c ↔ (q, c) ∈ files := by
  constructor
  · intro h
    unfold read at h
    split at h
    · next c' hc =>
      cases h
      exact mem_of_layout hc
    · cases h
  · intro h
    simp only [read, layout_of_mem hn h]

/-- One file more, and the directories above it. -/
theorem layout_concat (hnew : p ∉ files.map (·.1)) (q : List σ) :
    layout (files ++ [(p, c)]) q =
      if q = p then some (.file c)
      else if layout files q = none ∧ q <+: p then some .directory else layout files q := by
  by_cases hq : q = p
  · subst hq
    have hlook : (files ++ [(q, c)]).lookup q = some c := by
      rw [List.lookup_append, lookup_of_not_mem hnew, Option.none_or, List.lookup_cons_self]
    rw [if_pos rfl]
    simp only [layout, hlook]
  · rw [if_neg hq]
    by_cases hmem : q ∈ files.map (·.1)
    · obtain ⟨f, hf, rfl⟩ := List.mem_map.1 hmem
      have hlook : (files ++ [(p, c)]).lookup f.1 = files.lookup f.1 := by
        have hb : (f.1 == p) = false := beq_eq_false_iff_ne.2 hq
        rw [List.lookup_append, List.lookup_cons, hb, List.lookup_nil, Option.or_none]
      rw [if_neg fun h => layout_ne_none_of_prefix ⟨f, hf, List.prefix_rfl⟩ h.1]
      have hsome : files.lookup f.1 ≠ none := fun hnone => by
        rw [List.lookup_eq_none_iff] at hnone
        simpa using hnone f hf
      obtain ⟨d, hd⟩ := Option.ne_none_iff_exists'.1 hsome
      simp only [layout, hlook, hd]
    · have hmem' : q ∉ (files ++ [(p, c)]).map (·.1) := by
        rw [List.map_append, List.mem_append, not_or]
        exact ⟨hmem, by simpa using hq⟩
      have hor : (∃ f ∈ files ++ [(p, c)], q <+: f.1) ↔ (∃ f ∈ files, q <+: f.1) ∨ q <+: p := by
        simp [or_and_right, exists_or]
      rw [layout_of_not_mem hmem, layout_of_not_mem hmem']
      simp only [hor]
      by_cases hroot : q = [] ∨ ∃ f ∈ files, q <+: f.1
      · rw [if_pos hroot, if_pos (hroot.imp_right .inl)]
        simp
      · rw [if_neg hroot]
        rw [not_or] at hroot
        by_cases hp : q <+: p
        · rw [if_pos (.inr (.inr hp)), if_pos ⟨rfl, hp⟩]
        · rw [if_neg fun h => h.elim hroot.1 fun h => h.elim hroot.2 hp, if_neg fun h => hp h.2]

/-- A written file holds what was written; nothing else changes. -/
theorem writeFile_eq_some {t' : FileTree σ β} (h : writeFile nameOk t p c = some t') :
    t' = Function.update t p (some (.file c)) := by
  unfold writeFile at h
  split at h
  · cases h
  · split at h
    · exact (Option.some.inj h).symm
    · cases h
  · cases h

@[simp] theorem read_update_self : read (Function.update t p (some (.file c))) p = some c := by
  simp [read]

section Create

variable {dir : List σ} {x : σ}

/-- The directories above a file can be made if no file stands there. -/
theorem mkdirs_layout (hn : (files.map (·.1)).Nodup) :
    mkdirs nameOk (layout files) dir =
      if dir.all nameOk ∧ ∀ f ∈ files, ¬f.1 <+: dir then
        some fun q => if (layout files q).isNone && q.isPrefixOf dir then some .directory
          else layout files q
      else none := by
  have hcond : ((dir.all nameOk && dir.inits.all fun q => (read (layout files) q).isNone) = true) ↔
      dir.all nameOk ∧ ∀ f ∈ files, ¬f.1 <+: dir := by
    simp only [Bool.and_eq_true, List.all_eq_true (l := dir.inits), List.mem_inits,
      Option.isNone_iff_eq_none]
    refine and_congr_right fun _ => ⟨fun h f hf hpre => ?_, fun h q hq => ?_⟩
    · have hread := (read_layout hn).2 hf
      rw [h f.1 hpre] at hread
      cases hread
    · cases hr : read (layout files) q with
      | none => rfl
      | some c => exact absurd hq (h _ ((read_layout hn).1 hr))
  unfold mkdirs
  simp only [hcond]

theorem create_layout (hn : (files.map (·.1)).Nodup) (hnew : dir ++ [x] ∉ files.map (·.1)) :
    create nameOk (layout files) (dir ++ [x], c) =
      if (dir ++ [x]).all nameOk ∧ ∀ f ∈ files, Apart f.1 (dir ++ [x]) then
        some (layout (files ++ [(dir ++ [x], c)]))
      else none := by
  have hpre : ∀ f ∈ files, f.1 <+: dir ↔ f.1 <+: dir ++ [x] := by
    intro f hf
    rw [List.prefix_concat_iff]
    refine (or_iff_right ?_).symm
    rintro heq
    exact hnew (heq ▸ List.mem_map_of_mem hf)
  have hlong : ¬dir ++ [x] <+: dir := fun h => by
    have hle := h.length_le
    rw [List.length_append, List.length_singleton] at hle
    omega
  unfold create
  rw [List.dropLast_concat, mkdirs_layout hn]
  by_cases hdir : dir.all nameOk ∧ ∀ f ∈ files, ¬f.1 <+: dir
  · rw [if_pos hdir]
    by_cases hup : ∃ f ∈ files, dir ++ [x] <+: f.1
    · have hisdir : layout files (dir ++ [x]) = some .directory := by
        rw [layout_of_not_mem hnew, if_pos (.inr hup)]
      rw [if_neg]
      · simp [writeFile, hisdir]
      · rintro ⟨-, hapart⟩
        obtain ⟨f, hf, hpf⟩ := hup
        exact (hapart f hf).2 hpf
    · have hnone : layout files (dir ++ [x]) = none := by
        rw [layout_of_not_mem hnew, if_neg]
        simpa using hup
      -- the directory is there once the missing ones are made
      have hparent : (if (layout files dir).isNone && dir.isPrefixOf dir then
          some Entry.directory else layout files dir) = some .directory := by
        cases hd : layout files dir with
        | none => simp
        | some entry =>
          cases entry with
          | directory => simp
          | file c' => exact absurd List.prefix_rfl (hdir.2 _ (mem_of_layout hd))
      have hself : (if (layout files (dir ++ [x])).isNone && (dir ++ [x]).isPrefixOf dir then
          some Entry.directory else layout files (dir ++ [x])) = none := by
        rw [hnone, if_neg]
        simpa using hlong
      have hapart : ∀ f ∈ files, Apart f.1 (dir ++ [x]) := fun f hf =>
        ⟨fun h => hdir.2 f hf ((hpre f hf).2 h), fun h => hup ⟨f, hf, h⟩⟩
      rw [Option.bind_some, writeFile]
      simp only [hself, List.dropLast_concat, hparent]
      by_cases hx : (dir ++ [x]).all nameOk
      · rw [if_pos hx, if_pos ⟨hx, hapart⟩]
        congr 1
        funext q
        rw [layout_concat hnew]
        by_cases hq : q = dir ++ [x]
        · rw [if_pos hq, hq, Function.update_self]
        · rw [Function.update_of_ne hq, if_neg hq]
          simp only [Bool.and_eq_true, Option.isNone_iff_eq_none, List.isPrefixOf_iff_prefix,
            List.prefix_concat_iff, hq, false_or]
      · rw [if_neg hx, if_neg fun h => hx h.1]
  · rw [if_neg hdir, if_neg]
    · rfl
    · rintro ⟨hnames, hapart⟩
      refine hdir ⟨?_, fun f hf h => (hapart f hf).1 ((hpre f hf).1 h)⟩
      rw [List.all_append, Bool.and_eq_true] at hnames
      exact hnames.1

end Create

theorem layout_nil : layout ([] : List (List σ × β)) = empty := by
  funext q
  simp [layout, empty]

/-- **Files can be laid out if and only if none stands above another**, and then nothing else is in
the tree. -/
theorem createAll_eq_some_iff (hn : (files.map (·.1)).Nodup) (hne : ∀ f ∈ files, f.1 ≠ []) :
    createAll nameOk files = some t ↔ Compatible nameOk files ∧ t = layout files := by
  induction files using List.reverseRecOn generalizing t with
  | nil =>
    have hcompatible : Compatible nameOk ([] : List (List σ × β)) := ⟨nofun, .nil⟩
    rw [layout_nil]
    exact ⟨fun h => ⟨hcompatible, (Option.some.inj h).symm⟩, fun h => congrArg some h.2.symm⟩
  | append_singleton files f ih =>
    obtain ⟨path, c⟩ := f
    rw [List.map_append, List.nodup_append] at hn
    have hnew : path ∉ files.map (·.1) := fun h => hn.2.2 path h path (by simp) rfl
    obtain ⟨dir, x, hpath⟩ := (List.eq_nil_or_concat path).resolve_left (hne (path, c) (by simp))
    rw [List.concat_eq_append] at hpath
    subst hpath
    have hrun : createAll nameOk (files ++ [(dir ++ [x], c)]) =
        (createAll nameOk files).bind fun t => create nameOk t (dir ++ [x], c) := by
      unfold createAll
      rw [List.foldlM_append]
      simp
    have hsplit : Compatible nameOk (files ++ [(dir ++ [x], c)]) ↔ Compatible nameOk files ∧
        (dir ++ [x]).all nameOk ∧ ∀ f ∈ files, Apart f.1 (dir ++ [x]) := by
      constructor
      · rintro ⟨hnames, hapart⟩
        rw [List.pairwise_append] at hapart
        exact ⟨⟨fun f hf => hnames f (List.mem_append_left _ hf), hapart.1⟩,
          hnames (dir ++ [x], c) (by simp), fun f hf => hapart.2.2 f hf (dir ++ [x], c) (by simp)⟩
      · rintro ⟨⟨hnames, hapart⟩, hx, hnew⟩
        refine ⟨fun f hf => ?_, List.pairwise_append.2 ⟨hapart, List.pairwise_singleton _ _, ?_⟩⟩
        · rcases List.mem_append.1 hf with hf | hf
          · exact hnames f hf
          · rw [List.mem_singleton.1 hf]
            exact hx
        · intro f hf g hg
          rw [List.mem_singleton.1 hg]
          exact hnew f hf
    rw [hrun, hsplit, Option.bind_eq_some_iff]
    constructor
    · rintro ⟨t₀, ht₀, ht⟩
      obtain ⟨hcompatible, rfl⟩ := (ih hn.1 fun f hf => hne f (List.mem_append_left _ hf)).1 ht₀
      rw [create_layout hn.1 hnew] at ht
      split at ht
      · next hok => exact ⟨⟨hcompatible, hok⟩, (Option.some.inj ht).symm⟩
      · cases ht
    · rintro ⟨⟨hcompatible, hok⟩, rfl⟩
      refine ⟨_, (ih hn.1 fun f hf => hne f (List.mem_append_left _ hf)).2 ⟨hcompatible, rfl⟩, ?_⟩
      rw [create_layout hn.1 hnew, if_pos hok]

end FileTree

end Concord.Base
