import Concord.Models
import Concord.Realtime.Crdt
import Mathlib

/-!
# Paths of a project's files

The path rules of `schemas/__init__.py` and the operations of `api/files.py` that give a file its
path. A `ProjectFiles` is what these can bring a project to: its paths were accepted one at a time and
the table keeps them distinct.
-/

namespace Concord

/-- A segment of a path. -/
abbrev Segment := List Char

/-- `value.split("/")`. -/
def segments (path : String) : List Segment := path.toList.splitOn '/'

theorem segments_ne_nil (path : String) : segments path ≠ [] := List.splitOn_ne_nil _ _

theorem segments_injective : Function.Injective segments := by
  intro p q h
  have hjoin : ∀ path : String, ['/'].intercalate (segments path) = path.toList := fun path =>
    List.intercalate_splitOn '/'
  have hlist : p.toList = q.toList := by rw [← hjoin p, ← hjoin q, h]
  exact String.toList_injective hlist

/-! ## `_ProjectPathModel._validate_project_path` -/

section Validation

-- `str.isalpha` of one character, from the Unicode tables
variable (isAlpha : Char → Bool)

/-- The fields that the validator is attached to. -/
inductive PathField
  | path | name
deriving DecidableEq

def PathField.label : PathField → String
  | path => "file path"
  | name => "folder name"

/-- `unicodedata.category(char) == "Cc"`. -/
def isControl (c : Char) : Bool := c.toNat < 32 || (127 ≤ c.toNat && c.toNat < 160)

/-- A drive letter and `:/`. -/
def hasDrive : List Char → Bool
  | c :: ':' :: '/' :: _ => isAlpha c
  | _ => false

/-- `_validate_project_path`; the value `None` it returns as it is. -/
def validateProjectPath (field : PathField) (value : String) : Except String String :=
  if value.toList.any isControl then
    .error (field.label ++ " must not contain control characters")
  else if '\\' ∈ value.toList then
    .error (field.label ++ " must use forward slashes, not backslashes")
  else if value.toList.head? = some '/' || hasDrive isAlpha value.toList then
    .error (field.label ++ " must be relative")
  else if field = .name ∧ '/' ∈ value.toList then
    .error "folder name must not contain slashes"
  else if [] ∈ segments value then
    .error (field.label ++ " must not contain empty segments")
  else if ['.'] ∈ segments value then
    .error (field.label ++ " must not contain '.' segments")
  else if ['.', '.'] ∈ segments value then
    .error (field.label ++ " must not contain '..' segments")
  else .ok value

/-- The path fields of `FileCreate` and `FileUpdate`. -/
def filePath (value : String) : Except String String :=
  if value.length < 1 then .error "String should have at least 1 character"
  else if 512 < value.length then .error "String should have at most 512 characters"
  else validateProjectPath isAlpha .path value

/-- What an accepted path looks like. -/
structure ProperPath (path : String) : Prop where
  relative : path.toList.head? ≠ some '/'
  nonempty : [] ∉ segments path
  noDot : ['.'] ∉ segments path
  noDotDot : ['.', '.'] ∉ segments path

variable {isAlpha} {path : String}

/-- The validators return the value they were given. -/
theorem validateProjectPath_ok {field : PathField} {value : String}
    (h : validateProjectPath isAlpha field path = .ok value) : value = path ∧ ProperPath path := by
  unfold validateProjectPath at h
  by_cases h1 : path.toList.any isControl = true
  · simp [h1] at h
  by_cases h2 : '\\' ∈ path.toList
  · simp [h1, h2] at h
  by_cases h3 : (path.toList.head? = some '/' || hasDrive isAlpha path.toList) = true
  · simp only [h1, h2, h3, if_true, if_false, Bool.false_eq_true] at h
    cases h
  by_cases h4 : field = .name ∧ '/' ∈ path.toList
  · simp only [h1, h2, h3, h4, if_false, Bool.false_eq_true, and_self, if_true] at h
    cases h
  by_cases h5 : [] ∈ segments path
  · simp only [h1, h2, h3, h4, h5, if_false, Bool.false_eq_true, if_true] at h
    cases h
  by_cases h6 : ['.'] ∈ segments path
  · simp only [h1, h2, h3, h4, h5, h6, if_false, Bool.false_eq_true, if_true] at h
    cases h
  by_cases h7 : ['.', '.'] ∈ segments path
  · simp only [h1, h2, h3, h4, h5, h6, h7, if_false, Bool.false_eq_true, if_true] at h
    cases h
  simp only [h1, h2, h3, h4, h5, h6, h7, if_false, Bool.false_eq_true] at h
  refine ⟨(Except.ok.inj h).symm, fun hhead => h3 ?_, h5, h6, h7⟩
  simp [hhead]

theorem properPath_of_filePath (h : filePath isAlpha path = .ok path) : ProperPath path := by
  unfold filePath at h
  split at h
  · cases h
  · split at h
    · cases h
    · exact (validateProjectPath_ok h).2

end Validation

/-! ## Languages by extension -/

/-- `extension_map`, by the extension's characters without the dot. -/
def extensionMap : List (List Char × Language) :=
  [("py".toList, .python), ("js".toList, .nodejs), ("cpp".toList, .cpp), ("c".toList, .cpp),
    ("cc".toList, .cpp), ("cxx".toList, .cpp)]

/-- `get_language_from_file_path`; `none` for the paths it refuses. -/
def getLanguageFromFilePath (path : String) : Option Language :=
  if path.toList = [] then some .python
  else if '.' ∉ path.toList then none
  else extensionMap.lookup (((path.toList.splitOn '.').getLast?.getD []).map Char.toLower)

/-- `language_for_path`. -/
def languageForPath (path : String) : Language := (getLanguageFromFilePath path).getD .plaintext

/-! ## The files of a project -/

variable {U B : Type} [DecidableEq U]

/-- The files of one project and their versions. -/
structure ProjectFiles (isAlpha : Char → Bool) (C : Pycrdt U B) where
  files : List File
  versions : FileId → List (Version B)
  ids : (files.map (·.id)).Nodup
  /-- Every path passed the schema it came in with. -/
  accepted : ∀ f ∈ files, filePath isAlpha f.path = .ok f.path
  /-- `uq_project_path`. -/
  distinct : (files.map (·.path)).Nodup
  /-- A version is written with the bytes of a document. -/
  encoded : ∀ f ∈ files, ∀ v ∈ versions f.id, ∃ doc, v.snapshotBytes = C.docToBytes doc

/-- The rows `create_file` and `update_file` check a request against. -/
structure Access where
  projectId : ProjectId
  owner : UserId
  members : List ProjectMember
  folders : List Nat

namespace Access

variable (access : Access) (user : UserId)

/-- The role check of `create_file`. -/
def checkCreate : Except PyError Unit :=
  if access.owner = user then .ok ()
  else match access.members.find? fun m => m.projectId = access.projectId ∧ m.userId = user with
    | none => .error (.http 403 "Not authorized to create files in this project")
    | some member =>
      if Role.editor.rank ≤ member.role.rank then .ok ()
      else .error (.http 403 "Editor role required to create files")

/-- The role check of `update_file`. -/
def checkUpdate : Except PyError Unit :=
  if access.owner = user then .ok ()
  else match access.members.find? fun m => m.projectId = access.projectId ∧ m.userId = user with
    | some member =>
      if Role.editor.rank ≤ member.role.rank then .ok ()
      else .error (.http 403 "Editor role required to update files")
    | none => .error (.http 403 "Editor role required to update files")

/-- The folder check of both; `create_file` takes the id 0 for none. -/
def checkFolder (folder : Option Nat) : Except PyError Unit :=
  match folder with
  | none => .ok ()
  | some id => if id ∈ access.folders then .ok () else .error (.http 404 "Folder not found in project")

end Access

/-- A path that its schema accepted. -/
abbrev AcceptedPath (isAlpha : Char → Bool) := { path : String // filePath isAlpha path = .ok path }

namespace ProjectFiles

variable {isAlpha : Char → Bool} {C : Pycrdt U B}

/-- A project without files. -/
def empty : ProjectFiles isAlpha C := ⟨[], fun _ => [], .nil, nofun, .nil, nofun⟩

variable (project : ProjectFiles isAlpha C) (access : Access) (user : UserId)

/-- An id that no row has. -/
def nextId (files : List File) : FileId := (files.map (·.id)).foldr max 0 + 1

theorem nextId_not_mem (files : List File) : nextId files ∉ files.map (·.id) := by
  have hle : ∀ ids : List FileId, ∀ i ∈ ids, i ≤ ids.foldr max 0 := by
    intro ids
    induction ids with
    | nil => exact nofun
    | cons j ids ih =>
      intro i hi
      rw [List.foldr_cons]
      rcases List.mem_cons.1 hi with rfl | hi
      · exact Nat.le_max_left _ _
      · exact Nat.le_trans (ih i hi) (Nat.le_max_right _ _)
  exact fun h => Nat.not_succ_le_self _ (hle _ _ h)

/-- `create_file`. -/
def createFile (path : AcceptedPath isAlpha) (folder : Option Nat) :
    Except PyError (ProjectFiles isAlpha C) := do
  access.checkCreate user
  access.checkFolder (folder.filter (· ≠ 0))
  if h : path.1 ∈ project.files.map (·.path) then
    throw (.http 409 "A file with that path already exists")
  else
    pure
      { files := project.files ++
          [⟨nextId project.files, access.projectId, path.1, languageForPath path.1⟩]
        versions := Function.update project.versions (nextId project.files) []
        ids := by
          rw [List.map_append, List.nodup_append]
          refine ⟨project.ids, by simp, ?_⟩
          rintro i hi j hj rfl
          rw [List.map_singleton, List.mem_singleton] at hj
          subst hj
          exact nextId_not_mem _ hi
        accepted := by
          intro f hf
          rcases List.mem_append.1 hf with hf | hf
          · exact project.accepted f hf
          · rw [List.mem_singleton.1 hf]
            exact path.2
        distinct := by
          rw [List.map_append, List.nodup_append]
          refine ⟨project.distinct, by simp, ?_⟩
          rintro p hp q hq rfl
          rw [List.map_singleton, List.mem_singleton] at hq
          subst hq
          exact h hp
        encoded := by
          intro f hf v hv
          by_cases hid : f.id = nextId project.files
          · rw [hid, Function.update_self] at hv
            cases hv
          · rw [Function.update_of_ne hid] at hv
            rcases List.mem_append.1 hf with hf | hf
            · exact project.encoded f hf v hv
            · rw [List.mem_singleton.1 hf] at hid
              exact absurd rfl hid }

/-- The rows after a file got a new path. -/
def renamed (files : List File) (file : FileId) (path : String) : List File :=
  files.map fun f =>
    if f.id = file then { f with path := path, language := languageForPath path } else f

theorem renamed_ids (files : List File) (file : FileId) (path : String) :
    (renamed files file path).map (·.id) = files.map (·.id) := by
  rw [renamed, List.map_map]
  refine List.map_congr_left fun f _ => ?_
  by_cases hid : f.id = file
  · simp [hid]
  · simp [hid]

/-- A file of the new rows, as it was. -/
theorem exists_of_mem_renamed {files : List File} {file : FileId} {path : String} {f : File}
    (h : f ∈ renamed files file path) :
    ∃ g ∈ files, f.id = g.id ∧ (f.path = g.path ∨ f.id = file ∧ f.path = path) := by
  obtain ⟨g, hg, rfl⟩ := List.mem_map.1 h
  refine ⟨g, hg, ?_⟩
  by_cases hid : g.id = file
  · simp [hid]
  · simp [hid]

theorem renamed_nodup {files : List File} {file : FileId} {path : String}
    (hids : (files.map (·.id)).Nodup) (hpaths : (files.map (·.path)).Nodup)
    (hfree : ∀ f ∈ files, f.path = path → f.id = file) :
    ((renamed files file path).map (·.path)).Nodup := by
  have hmap : (renamed files file path).map (·.path) =
      files.map fun f => if f.id = file then path else f.path := by
    rw [renamed, List.map_map]
    refine List.map_congr_left fun f _ => ?_
    by_cases hid : f.id = file
    · simp [hid]
    · simp [hid]
  rw [hmap]
  refine hids.of_map.map_on fun f hf g hg heq => ?_
  by_cases hidf : f.id = file
  · by_cases hidg : g.id = file
    · exact List.inj_on_of_nodup_map hids hf hg (hidf.trans hidg.symm)
    · rw [if_pos hidf, if_neg hidg] at heq
      exact absurd (hfree g hg heq.symm) hidg
  · by_cases hidg : g.id = file
    · rw [if_neg hidf, if_pos hidg] at heq
      exact absurd (hfree f hf heq) hidf
    · rw [if_neg hidf, if_neg hidg] at heq
      exact List.inj_on_of_nodup_map hpaths hf hg heq

/-- `update_file`; `folder` is given only if the request sets it. -/
def updateFile (file : FileId) (path : Option (AcceptedPath isAlpha))
    (folder : Option (Option Nat)) : Except PyError (ProjectFiles isAlpha C) := do
  access.checkUpdate user
  if file ∉ project.files.map (·.id) then
    throw (.http 404 "File not found")
  access.checkFolder (folder.getD none)
  match path with
  | none => pure project
  | some path =>
    if h : ∃ f ∈ project.files, f.path = path.1 ∧ f.id ≠ file then throw .database
    else
      pure
        { files := renamed project.files file path.1
          versions := project.versions
          ids := by
            rw [renamed_ids]
            exact project.ids
          accepted := by
            intro f hf
            obtain ⟨g, hg, hid, hpath | ⟨-, hpath⟩⟩ := exists_of_mem_renamed hf
            · rw [hpath]
              exact project.accepted g hg
            · rw [hpath]
              exact path.2
          distinct := renamed_nodup project.ids project.distinct fun f hf hpath =>
            Decidable.byContradiction fun hid => h ⟨f, hf, hpath, hid⟩
          encoded := by
            intro f hf v hv
            obtain ⟨g, hg, hid, -⟩ := exists_of_mem_renamed hf
            rw [hid] at hv
            exact project.encoded g hg v hv }

end ProjectFiles

end Concord
