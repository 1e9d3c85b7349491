import Concord.Access.Endpoints
import Concord.Base.Relational

/-!
# Deletion of a folder with what is in it

`delete_folder` of `api/folders.py`, with the tables that refer to folders and to files. A commit that
fails leaves every row as it was. The relationships of `Folder` have delete cascade. Those of `File` have
none, and the `file_id` of their rows may not be `NULL`: a file that has a row in one of them cannot be
detached from it, and so neither it nor a folder above it can be deleted.

`C` stands for the columns that no code here reads.
-/

namespace Concord.Access

open Concord.Base

/-! ## The rows -/

/-- A row of `files`. -/
structure FolderFile (C : Type) where
  projectId : ProjectId
  folderId : Option FolderId
  columns : C
deriving DecidableEq

/-- A row of `document_versions`, `executions`, `breakpoints`, `file_changes` or `snapshot_files`. -/
structure OfFile (C : Type) where
  fileId : FileId
  columns : C
deriving DecidableEq

/-- A row of `execution_events`. -/
structure OfExecution (C : Type) where
  executionId : ExecutionId
  columns : C
deriving DecidableEq

/-- A row of `debug_sessions`. -/
structure DebugRow (C : Type) where
  executionId : Option ExecutionId
  columns : C
deriving DecidableEq

/-- A row of `ai_assistant_requests`. -/
structure AssistantRequest (C : Type) where
  fileId : Option FileId
  columns : C
deriving DecidableEq

/-- `folders.parent_folder_id`. -/
def Folder.parentFolderKey : ForeignKey FolderId Folder where
  ref row := row.parentFolderId
  clear := some fun row => { row with parentFolderId := none }
  onDelete := .cascade

/-- `files.folder_id`. -/
def FolderFile.folderKey {C : Type} : ForeignKey FolderId (FolderFile C) where
  ref row := row.folderId
  clear := some fun row => { row with folderId := none }
  onDelete := .setNull

/-- `file_id` of the tables with `OfFile` rows. -/
def OfFile.fileKey {C : Type} : ForeignKey FileId (OfFile C) where
  ref row := some row.fileId
  clear := none
  onDelete := .cascade

/-- `execution_events.execution_id`. -/
def OfExecution.executionKey {C : Type} : ForeignKey ExecutionId (OfExecution C) where
  ref row := some row.executionId
  clear := none
  onDelete := .cascade

/-- `debug_sessions.execution_id`. -/
def DebugRow.executionKey {C : Type} : ForeignKey ExecutionId (DebugRow C) where
  ref row := row.executionId
  clear := some fun row => { row with executionId := none }
  onDelete := .cascade

/-- `ai_assistant_requests.file_id`. -/
def AssistantRequest.fileKey {C : Type} : ForeignKey FileId (AssistantRequest C) where
  ref row := row.fileId
  clear := some fun row => { row with fileId := none }
  onDelete := .setNull

/-- `Folder.subfolders`, with `cascade="all, delete-orphan"`. -/
def Folder.subfolders : Relationship FolderId Folder := ⟨Folder.parentFolderKey, true⟩

/-- `Folder.files`, with `cascade="all, delete-orphan"`. -/
def Folder.files {C : Type} : Relationship FolderId (FolderFile C) := ⟨FolderFile.folderKey, true⟩

/-- `File.versions`. -/
def FolderFile.versions {C : Type} : Relationship FileId (OfFile C) := ⟨OfFile.fileKey, false⟩

/-- `File.executions`. -/
def FolderFile.executions {C : Type} : Relationship FileId (OfFile C) := ⟨OfFile.fileKey, false⟩

/-- `File.breakpoints`. -/
def FolderFile.breakpoints {C : Type} : Relationship FileId (OfFile C) := ⟨OfFile.fileKey, false⟩

/-- The tables that `delete_folder` reads or that a deletion comes to. -/
structure Tables (C : Type) where
  projects : Dict ProjectId Project := ∅
  members : Dict MemberId ProjectMember := ∅
  folders : Dict FolderId Folder := ∅
  files : Dict FileId (FolderFile C) := ∅
  versions : Dict Nat (OfFile C) := ∅
  executions : Dict ExecutionId (OfFile C) := ∅
  events : Dict Nat (OfExecution C) := ∅
  debugSessions : Dict Nat (DebugRow C) := ∅
  breakpoints : Dict Nat (OfFile C) := ∅
  changes : Dict Nat (OfFile C) := ∅
  snapshotFiles : Dict Nat (OfFile C) := ∅
  requests : Dict Nat (AssistantRequest C) := ∅

/-! ## The commit -/

namespace Tables

variable {C : Type} (t : Tables C)

/-- Some folder is below itself. The unit of work deletes children before their parents, and has no order
then (`CircularDependencyError`). -/
def circular (folders : List FolderId) : Bool :=
  folders.any fun k => k ∈
    Folder.parentFolderKey.subtrees t.folders (Folder.parentFolderKey.referring [k] t.folders)

/-- What the unit of work does to the rows of the relationships before it deletes their parents. -/
def detach (folders : List FolderId) (files : List FileId) : Option (Tables C) := do
  let subfolders ← Folder.subfolders.detach folders t.folders
  let folderFiles ← Folder.files.detach folders t.files
  let versions ← FolderFile.versions.detach files t.versions
  let executions ← FolderFile.executions.detach files t.executions
  let breakpoints ← FolderFile.breakpoints.detach files t.breakpoints
  return { t with folders := subfolders, files := folderFiles, versions, executions, breakpoints }

/-- `DELETE FROM files WHERE id IN …`. -/
def deleteFiles (gone : List FileId) : Option (Tables C) := do
  -- the executions go with their files, and take the rows that refer to them along
  let lost := OfFile.fileKey.referring gone t.executions
  let versions ← OfFile.fileKey.enforce gone t.versions
  let executions ← OfFile.fileKey.enforce gone t.executions
  let events ← OfExecution.executionKey.enforce lost t.events
  let debugSessions ← DebugRow.executionKey.enforce lost t.debugSessions
  let breakpoints ← OfFile.fileKey.enforce gone t.breakpoints
  let changes ← OfFile.fileKey.enforce gone t.changes
  let snapshotFiles ← OfFile.fileKey.enforce gone t.snapshotFiles
  let requests ← AssistantRequest.fileKey.enforce gone t.requests
  return { t with
    files := t.files.eraseAll gone
    versions, executions, events, debugSessions, breakpoints, changes, snapshotFiles, requests }

/-- `DELETE FROM folders WHERE id IN …`. -/
def deleteFolders (gone : List FolderId) : Option (Tables C) := do
  let lost := Folder.parentFolderKey.subtrees t.folders gone
  let files ← FolderFile.folderKey.enforce lost t.files
  return { t with folders := t.folders.eraseAll lost, files }

/-- `await db.delete(folder)` and `await db.commit()`. -/
def delete (id : FolderId) : Except PyError (Tables C) :=
  let folders := Folder.subfolders.collect t.folders [id]
  let files := Folder.files.cascaded folders t.files
  if t.circular folders then throw .other
  else match (t.detach folders files).bind fun t =>
      (t.deleteFiles files).bind fun t => t.deleteFolders folders with
    | some t => return t
    | none => throw .database

/-- The membership rows of one user in one project. -/
def membersOf (project : ProjectId) (user : UserId) : List (MemberId × ProjectMember) :=
  t.members.items.filter fun item => item.2.projectId = project ∧ item.2.userId = user

/-- The check of the role. -/
def requireEditor (row : Project) (project : ProjectId) (user : UserId) : Except PyError Unit :=
  if row.ownerId = user then return ()
  else match t.membersOf project user with
    | [] => throw (.http 403 "Editor role required to delete folders")
    | [member] =>
      if atLeast member.2.role .editor then return ()
      else throw (.http 403 "Editor role required to delete folders")
    -- `scalar_one_or_none()` of more than one row
    | _ :: _ :: _ => throw .other

/-- `delete_folder`: the response, the message to the project and the tables after it. -/
def deleteFolder (user : UserId) (project : ProjectId) (id : FolderId) :
    Except PyError (Response × FolderEvent × Tables C) :=
  match (t.folders.get? id).filter (·.projectId = project) with
  | none => throw (.http 404 "Folder not found")
  | some _ =>
    match t.projects.get? project with
    | none => throw (.http 404 "Project not found")
    | some row => do
      t.requireEditor row project user
      let t' ← t.delete id
      return (.noContent, .deleted id, t')

/-! ## What is to be deleted -/

/-- The folders with their parents. -/
def parents : FolderId → Option (Option FolderId) := Folder.parentFolderKey.parents t.folders

/-- The file is in the folder or in one below it. -/
def FileBelow (id : FolderId) (file : FileId) : Prop :=
  ∃ row, t.files.get? file = some row ∧ ∃ k, row.folderId = some k ∧ Under t.parents id k

/-- The execution is one of a file in the folder or below it. -/
def ExecutionBelow (id : FolderId) (execution : ExecutionId) : Prop :=
  ∃ row, t.executions.get? execution = some row ∧ t.FileBelow id row.fileId

/-- The user may delete the folder. -/
structure MayDelete (user : UserId) (project : ProjectId) (id : FolderId) : Prop where
  folder : ∃ row, t.folders.get? id = some row ∧ row.projectId = project
  editor : ∃ row, t.projects.get? project = some row ∧
    (row.ownerId = user ∨
      ∃ member, t.membersOf project user = [member] ∧ Role.editor.rank ≤ member.2.role.rank)

open Classical in
/-- `t'` is without the folder, the folders below it, the files in them and the rows of these files.
The requests to the assistant are rows of their project; they stay, and forget the file. -/
structure WithoutSubtree (id : FolderId) (t' : Tables C) : Prop where
  folders : t.folders.Keeps t'.folders fun k _ => ¬Under t.parents id k
  files : t.files.Keeps t'.files fun file _ => ¬t.FileBelow id file
  versions : t.versions.Keeps t'.versions fun _ row => ¬t.FileBelow id row.fileId
  executions : t.executions.Keeps t'.executions fun _ row => ¬t.FileBelow id row.fileId
  events : t.events.Keeps t'.events fun _ row => ¬t.ExecutionBelow id row.executionId
  debugSessions : t.debugSessions.Keeps t'.debugSessions fun _ row =>
    ∀ execution, row.executionId = some execution → ¬t.ExecutionBelow id execution
  breakpoints : t.breakpoints.Keeps t'.breakpoints fun _ row => ¬t.FileBelow id row.fileId
  changes : t.changes.Keeps t'.changes fun _ row => ¬t.FileBelow id row.fileId
  snapshotFiles : t.snapshotFiles.Keeps t'.snapshotFiles fun _ row => ¬t.FileBelow id row.fileId
  requests : ∀ k, t'.requests.get? k = (t.requests.get? k).map fun row =>
    { row with fileId := row.fileId.filter fun file => ¬t.FileBelow id file }
  projects : t'.projects = t.projects
  members : t'.members = t.members

/-- No folder of the subtree is below one of its own subfolders, and no file in it has a version, an
execution or a breakpoint. -/
structure Deletable (id : FolderId) : Prop where
  acyclic : ∀ k c, Under t.parents id k → t.parents c = some (some k) → ¬Under t.parents c k
  versions : ∀ k row, t.versions.get? k = some row → ¬t.FileBelow id row.fileId
  executions : ∀ k row, t.executions.get? k = some row → ¬t.FileBelow id row.fileId
  breakpoints : ∀ k row, t.breakpoints.get? k = some row → ¬t.FileBelow id row.fileId

/-! ## What is deleted -/

variable {t} {t' : Tables C} {id : FolderId} {folders : List FolderId} {gone : List FileId}

theorem mem_collect {k : FolderId} :
    k ∈ Folder.subfolders.collect t.folders [id] ↔ Under t.parents id k := by
  rw [Relationship.collect_of_cascade rfl]
  refine ForeignKey.mem_subtrees.trans ?_
  constructor
  · rintro ⟨s, hs, hunder⟩
    obtain rfl := List.mem_singleton.1 hs
    exact hunder
  · exact fun hunder => ⟨id, List.mem_singleton_self id, hunder⟩

theorem mem_cascaded {file : FileId} :
    file ∈ Folder.files.cascaded (Folder.subfolders.collect t.folders [id]) t.files ↔
      t.FileBelow id file := by
  rw [Relationship.cascaded_of_cascade rfl]
  refine ForeignKey.mem_referring.trans ⟨?_, ?_⟩
  · rintro ⟨row, hrow, k, hk, href⟩
    exact ⟨row, hrow, k, href, mem_collect.1 hk⟩
  · rintro ⟨row, hrow, k, href, hk⟩
    exact ⟨row, hrow, k, mem_collect.2 hk, href⟩

theorem circular_eq_false_iff (hfolders : ∀ k, k ∈ folders ↔ Under t.parents id k) :
    t.circular folders = false ↔
      ∀ k c, Under t.parents id k → t.parents c = some (some k) → ¬Under t.parents c k := by
  unfold circular
  rw [List.any_eq_false]
  constructor
  · intro h k c hk hc hunder
    exact h k ((hfolders k).2 hk) (decide_eq_true
      (ForeignKey.mem_subtrees.2 ⟨c, ForeignKey.mem_referring_singleton.2 hc, hunder⟩))
  · intro h k hk hloop
    obtain ⟨c, hc, hunder⟩ := ForeignKey.mem_subtrees.1 (of_decide_eq_true hloop)
    exact h k c ((hfolders k).1 hk) (ForeignKey.mem_referring_singleton.1 hc) hunder

/-- The rows of a relationship of `File` are detached only where there are none. -/
theorem detach_fileKey_eq_some {rows rows' : Dict Nat (OfFile C)} :
    (Relationship.mk OfFile.fileKey false).detach gone rows = some rows' ↔
      rows' = rows ∧ ∀ k row, rows.get? k = some row → row.fileId ∉ gone := by
  rw [Relationship.detach_of_required rfl rfl]
  have hnil : OfFile.fileKey.referring gone rows = [] ↔
      ∀ k row, rows.get? k = some row → row.fileId ∉ gone := by
    rw [ForeignKey.referring_eq_nil_iff]
    constructor
    · exact fun h k row hrow hgone => h k row hrow row.fileId hgone rfl
    · rintro h k row hrow file hgone ⟨⟩
      exact h k row hrow hgone
  rw [Option.ite_none_right_eq_some, hnil, Option.some.injEq, and_comm, eq_comm]

theorem detach_eq_some_iff : t.detach folders gone = some t' ↔ t' = t ∧
    (∀ k row, t.versions.get? k = some row → row.fileId ∉ gone) ∧
    (∀ k row, t.executions.get? k = some row → row.fileId ∉ gone) ∧
    ∀ k row, t.breakpoints.get? k = some row → row.fileId ∉ gone := by
  have hdetach : t.detach folders gone =
      (FolderFile.versions.detach gone t.versions).bind fun versions =>
        (FolderFile.executions.detach gone t.executions).bind fun executions =>
          (FolderFile.breakpoints.detach gone t.breakpoints).bind fun breakpoints =>
            some { t with versions, executions, breakpoints } := rfl
  rw [hdetach]
  constructor
  · intro h
    obtain ⟨versions, hversions, h⟩ := Option.bind_eq_some_iff.1 h
    obtain ⟨executions, hexecutions, h⟩ := Option.bind_eq_some_iff.1 h
    obtain ⟨breakpoints, hbreakpoints, h⟩ := Option.bind_eq_some_iff.1 h
    obtain ⟨rfl, hnoversion⟩ := detach_fileKey_eq_some.1 hversions
    obtain ⟨rfl, hnoexecution⟩ := detach_fileKey_eq_some.1 hexecutions
    obtain ⟨rfl, hnobreakpoint⟩ := detach_fileKey_eq_some.1 hbreakpoints
    exact ⟨(Option.some.inj h).symm, hnoversion, hnoexecution, hnobreakpoint⟩
  · rintro ⟨rfl, hversions, hexecutions, hbreakpoints⟩
    refine Option.bind_eq_some_iff.2 ⟨_, detach_fileKey_eq_some.2 ⟨rfl, hversions⟩, ?_⟩
    refine Option.bind_eq_some_iff.2 ⟨_, detach_fileKey_eq_some.2 ⟨rfl, hexecutions⟩, ?_⟩
    exact Option.bind_eq_some_iff.2 ⟨_, detach_fileKey_eq_some.2 ⟨rfl, hbreakpoints⟩, rfl⟩

section Delete

variable (hfolders : ∀ k, k ∈ folders ↔ Under t.parents id k)
  (hgone : ∀ file, file ∈ gone ↔ t.FileBelow id file)

include hgone in
theorem keeps_fileKey (rows : Dict Nat (OfFile C)) :
    rows.Keeps (rows.filterValues fun row => !OfFile.fileKey.refersTo gone row) fun _ row =>
      ¬t.FileBelow id row.fileId := by
  intro k row
  rw [Dict.get?_filterValues, Bool.not_eq_true', ← Bool.not_eq_true, ForeignKey.refersTo_iff]
  refine and_congr_right fun _ => not_congr ?_
  rw [← hgone]
  constructor
  · rintro ⟨file, hfile, ⟨⟩⟩
    exact hfile
  · exact fun hfile => ⟨row.fileId, hfile, rfl⟩

include hgone in
theorem mem_lost {execution : ExecutionId} :
    execution ∈ OfFile.fileKey.referring gone t.executions ↔ t.ExecutionBelow id execution := by
  rw [ForeignKey.mem_referring]
  constructor
  · rintro ⟨row, hrow, file, hfile, ⟨⟩⟩
    exact ⟨row, hrow, (hgone _).1 hfile⟩
  · rintro ⟨row, hrow, hbelow⟩
    exact ⟨row, hrow, row.fileId, (hgone _).2 hbelow, rfl⟩

include hgone in
theorem keeps_events :
    t.events.Keeps (t.events.filterValues fun row =>
        !OfExecution.executionKey.refersTo (OfFile.fileKey.referring gone t.executions) row)
      fun _ row => ¬t.ExecutionBelow id row.executionId := by
  intro k row
  rw [Dict.get?_filterValues, Bool.not_eq_true', ← Bool.not_eq_true, ForeignKey.refersTo_iff]
  refine and_congr_right fun _ => not_congr ?_
  rw [← mem_lost hgone]
  constructor
  · rintro ⟨execution, hexecution, ⟨⟩⟩
    exact hexecution
  · exact fun hexecution => ⟨row.executionId, hexecution, rfl⟩

include hgone in
theorem keeps_debugSessions :
    t.debugSessions.Keeps (t.debugSessions.filterValues fun row =>
        !DebugRow.executionKey.refersTo (OfFile.fileKey.referring gone t.executions) row)
      fun _ row => ∀ execution, row.executionId = some execution → ¬t.ExecutionBelow id execution := by
  intro k row
  rw [Dict.get?_filterValues, Bool.not_eq_true', ← Bool.not_eq_true, ForeignKey.refersTo_iff]
  refine and_congr_right fun _ => ?_
  constructor
  · exact fun h execution href hbelow => h ⟨execution, (mem_lost hgone).2 hbelow, href⟩
  · rintro h ⟨execution, hlost, href⟩
    exact h execution href ((mem_lost hgone).1 hlost)

include hfolders in
theorem mem_lostFolders {k : FolderId} :
    k ∈ Folder.parentFolderKey.subtrees t.folders folders ↔ Under t.parents id k := by
  rw [ForeignKey.mem_subtrees]
  constructor
  · rintro ⟨s, hs, hunder⟩
    exact hunder.trans ((hfolders s).1 hs)
  · exact fun hunder => ⟨id, (hfolders id).2 .top, hunder⟩

include hfolders hgone in
/-- A file that is not deleted keeps its folder. -/
theorem keeps_files :
    t.files.Keeps ((t.files.eraseAll gone).mapValues fun row =>
        if FolderFile.folderKey.refersTo (Folder.parentFolderKey.subtrees t.folders folders) row then
          { row with folderId := none }
        else row)
      fun file _ => ¬t.FileBelow id file := by
  have hkept : ∀ file row, (t.files.eraseAll gone).get? file = some row →
      FolderFile.folderKey.refersTo (Folder.parentFolderKey.subtrees t.folders folders) row = false := by
    intro file row hrow
    obtain ⟨hrow, hstays⟩ := Dict.get?_eraseAll.1 hrow
    rw [← Bool.not_eq_true, ForeignKey.refersTo_iff]
    rintro ⟨k, hk, href⟩
    exact hstays ((hgone file).2 ⟨row, hrow, k, href, (mem_lostFolders hfolders).1 hk⟩)
  intro file row
  rw [Dict.get?_mapValues]
  refine Iff.trans ?_ (and_congr_right fun _ => not_congr (hgone file))
  constructor
  · intro h
    obtain ⟨old, hold, rfl⟩ := Option.map_eq_some_iff.1 h
    rw [hkept file old hold]
    exact Dict.get?_eraseAll.1 hold
  · intro h
    have hrow := Dict.get?_eraseAll.2 h
    rw [hrow, Option.map_some, hkept file row hrow]
    rfl

include hgone in
open Classical in
theorem forgets_requests (k : Nat) :
    (t.requests.mapValues fun row =>
        if AssistantRequest.fileKey.refersTo gone row then { row with fileId := none } else row).get? k =
      (t.requests.get? k).map fun row =>
        { row with fileId := row.fileId.filter fun file => ¬t.FileBelow id file } := by
  rw [Dict.get?_mapValues]
  congr 1
  funext row
  obtain ⟨file?, columns⟩ := row
  cases file? with
  | none => rfl
  | some file =>
    by_cases hfile : t.FileBelow id file
    · have hrefers : AssistantRequest.fileKey.refersTo gone ⟨some file, columns⟩ = true :=
        ForeignKey.refersTo_iff.2 ⟨file, (hgone file).2 hfile, rfl⟩
      rw [if_pos hrefers]
      simp [Option.filter_some, hfile]
    · have hrefers : ¬AssistantRequest.fileKey.refersTo gone ⟨some file, columns⟩ = true := by
        rw [ForeignKey.refersTo_iff]
        rintro ⟨_, hmem, ⟨⟩⟩
        exact hfile ((hgone file).1 hmem)
      rw [if_neg hrefers]
      simp [Option.filter_some, hfile]

include hfolders hgone in
/-- The database deletes the files and the folders with the rows that only belong to them. -/
theorem delete_removes : ∃ t', ((t.deleteFiles gone).bind fun u => u.deleteFolders folders) = some t' ∧
    t.WithoutSubtree id t' := by
  refine ⟨_, rfl, ?_⟩
  exact {
    folders := fun k row => by
      refine Dict.get?_eraseAll.trans (and_congr_right fun _ => not_congr ?_)
      exact mem_lostFolders hfolders
    files := keeps_files hfolders hgone
    versions := keeps_fileKey hgone t.versions
    executions := keeps_fileKey hgone t.executions
    events := keeps_events hgone
    debugSessions := keeps_debugSessions hgone
    breakpoints := keeps_fileKey hgone t.breakpoints
    changes := keeps_fileKey hgone t.changes
    snapshotFiles := keeps_fileKey hgone t.snapshotFiles
    requests := forgets_requests hgone
    projects := rfl
    members := rfl }

end Delete

theorem deletable_of_delete (h : t.delete id = .ok t') : t.Deletable id := by
  unfold delete at h
  dsimp only at h
  split at h
  · cases h
  · next hcircular =>
    split at h
    · next u hdeleted =>
      obtain ⟨u, hdetach, -⟩ := Option.bind_eq_some_iff.1 hdeleted
      obtain ⟨-, hversions, hexecutions, hbreakpoints⟩ := detach_eq_some_iff.1 hdetach
      exact {
        acyclic := (circular_eq_false_iff fun _ => mem_collect).1 (Bool.not_eq_true _ ▸ hcircular)
        versions := fun k row hrow hbelow => hversions k row hrow (mem_cascaded.2 hbelow)
        executions := fun k row hrow hbelow => hexecutions k row hrow (mem_cascaded.2 hbelow)
        breakpoints := fun k row hrow hbelow => hbreakpoints k row hrow (mem_cascaded.2 hbelow) }
    · cases h

theorem delete_of_deletable (h : t.Deletable id) :
    ∃ t', t.delete id = .ok t' ∧ t.WithoutSubtree id t' := by
  have hfolders : ∀ k, k ∈ Folder.subfolders.collect t.folders [id] ↔ Under t.parents id k :=
    fun _ => mem_collect
  obtain ⟨t', hdeleted, hwithout⟩ := delete_removes hfolders fun _ => mem_cascaded
  have hcircular := (circular_eq_false_iff hfolders).2 h.acyclic
  have hdetach : t.detach (Folder.subfolders.collect t.folders [id])
      (Folder.files.cascaded (Folder.subfolders.collect t.folders [id]) t.files) = some t := by
    refine detach_eq_some_iff.2 ⟨rfl, ?_, ?_, ?_⟩
    · exact fun k row hrow hgone => h.versions k row hrow (mem_cascaded.1 hgone)
    · exact fun k row hrow hgone => h.executions k row hrow (mem_cascaded.1 hgone)
    · exact fun k row hrow hgone => h.breakpoints k row hrow (mem_cascaded.1 hgone)
  refine ⟨t', ?_, hwithout⟩
  unfold delete
  dsimp only
  rw [hcircular, hdetach, Option.bind_some, hdeleted]
  rfl

/-- A user who may delete the folder gets as far as the commit. -/
theorem deleteFolder_of_mayDelete {user : UserId} {project : ProjectId}
    (hmay : t.MayDelete user project id) :
    t.deleteFolder user project id =
      (t.delete id).map fun t' => (.noContent, .deleted id, t') := by
  obtain ⟨folder, hfolder, hproject⟩ := hmay.folder
  obtain ⟨row, hrow, heditor⟩ := hmay.editor
  have hcheck : t.requireEditor row project user = .ok () := by
    unfold requireEditor
    rcases heditor with howner | ⟨member, hmember, hrank⟩
    · rw [if_pos howner]
      rfl
    · rw [hmember]
      dsimp only
      rw [atLeast, if_pos (decide_eq_true hrank), ite_self]
      rfl
  unfold deleteFolder
  rw [hfolder, Option.filter_some, if_pos (decide_eq_true hproject), hrow]
  dsimp only
  rw [hcheck]
  cases t.delete id with
  | error e => rfl
  | ok t' => rfl

/-- **A folder is deleted with what is in it just when no file in it has a version, an execution or a
breakpoint** (and no folder of it is below itself). Then the folder, the folders below it, the files in
them and the rows of these files are gone, and nothing else. -/
theorem delete_folder_removes_subtree {user : UserId} {project : ProjectId}
    (hmay : t.MayDelete user project id) :
    (∃ event t', t.deleteFolder user project id = .ok (.noContent, event, t') ∧
      t.WithoutSubtree id t') ↔ t.Deletable id := by
  rw [deleteFolder_of_mayDelete hmay]
  constructor
  · rintro ⟨event, t', h, -⟩
    cases hdelete : t.delete id with
    | error e =>
      rw [hdelete] at h
      cases h
    | ok u => exact deletable_of_delete hdelete
  · intro h
    obtain ⟨t', hdelete, hwithout⟩ := delete_of_deletable h
    exact ⟨.deleted id, t', by rw [hdelete]; rfl, hwithout⟩

/-- A folder with a subfolder that has a file in it, of which a change has been recorded. -/
def nested : Tables Unit where
  projects := .ofItems [(1, ⟨1, "p"⟩)]
  folders := .ofItems [(1, ⟨1, none, "a"⟩), (2, ⟨1, some 1, "b"⟩)]
  files := .ofItems [(1, ⟨1, some 2, ()⟩), (2, ⟨1, none, ()⟩)]
  changes := .ofItems [(1, ⟨1, ()⟩), (2, ⟨2, ()⟩)]

theorem nested_mayDelete : nested.MayDelete 1 1 1 :=
  ⟨⟨_, rfl, rfl⟩, _, rfl, .inl rfl⟩

theorem delete_folder_removes_subtree_two :
    ∃ event t', nested.deleteFolder 1 1 1 = .ok (.noContent, event, t') ∧
      nested.WithoutSubtree 1 t' := by
  refine (delete_folder_removes_subtree nested_mayDelete).2 ?_
  exact {
    acyclic := (circular_eq_false_iff fun _ => mem_collect).1 (by decide +kernel)
    versions := nofun
    executions := nofun
    breakpoints := nofun }

/-- The file in the subfolder has been saved. -/
def saved : Tables Unit := { nested with versions := .ofItems [(1, ⟨1, ()⟩)] }

theorem delete_folder_fails_on_versions :
    ¬∀ (t : Tables Unit) user project id, t.MayDelete user project id →
      ∃ event t', t.deleteFolder user project id = .ok (.noContent, event, t') ∧
        t.WithoutSubtree id t' := by
  intro h
  have hmay : saved.MayDelete 1 1 1 := ⟨⟨_, rfl, rfl⟩, _, rfl, .inl rfl⟩
  obtain ⟨event, t', hok, -⟩ := h saved 1 1 1 hmay
  have hfails : (saved.deleteFolder 1 1 1).toOption.isNone = true := by decide +kernel
  rw [hok] at hfails
  cases hfails

end Tables

end Concord.Access
