import Concord.Access.Endpoints

/-!
# Folders

The handlers of `api/folders.py` that write. The walk of `_check_parent` and the cascade of
`db.delete(folder)` read one row, or the rows below one, at a time; in a run each of them is given a
number of rounds.
-/

namespace Concord.Access

open Concord.Base Async

/-- The check of the three handlers: editor or higher. -/
def requireEditor (row : Project) (project : ProjectId) (user : UserId) (detail : String) :
    Py Unit :=
  if row.ownerId = user then pure ()
  else do
    let found ← await (.selectMember project user)
    let member ← orRaise found (.http 403 detail)
    require (atLeast member.2.role .editor) (.http 403 detail)

/-- `current`, if the loop of `_check_parent` goes on with it. -/
def unseen (visits : List (Visit FolderId)) (current : Option FolderId) : Option FolderId :=
  current.filter fun id => id ∉ visits.map Prod.fst

/-- The loop of `_check_parent`, for at most `rounds` parents: what it has read in all. -/
def walkParents (project : ProjectId) (moving : Option FolderId) :
    Nat → List (Visit FolderId) → Option FolderId → Py (List (Visit FolderId))
  | 0, visits, current =>
    match unseen visits current with
    | none => return visits
    | some _ => do
      await .outOfRounds
      return visits
  | rounds + 1, visits, current =>
    match unseen visits current with
    | none => return visits
    | some id => do
      require (decide (some id ≠ moving)) (.http 400 "A folder can't be moved into itself")
      let found ← await (.getFolder id)
      let parent ← orRaise (found.filter (·.projectId = project))
        (.http 400 "Parent folder not found in this project")
      walkParents project moving rounds (visits ++ [(id, parent.parentFolderId)])
        parent.parentFolderId

/-- `_check_parent`: the parent must be a folder of this project and, when moving a folder, not the
folder itself or one of its descendants. -/
def checkParent (project : ProjectId) (moving : Option FolderId) (parent : Option FolderId)
    (rounds : Nat) : Py (List (Visit FolderId)) :=
  walkParents project moving rounds [] parent

/-- `create_folder`. -/
def createFolder (user : UserId) (project : ProjectId) (name : String) (parent : Option FolderId)
    (rounds : Nat) : Py Response := do
  let _ ← getCurrentUser user
  let row ← requireProject project
  requireEditor row project user "Editor role required to create folders"
  let _ ← checkParent project none parent rounds
  let inserted ← await (.commit [.insertFolder ⟨project, parent, name⟩])
  let id ← orRaise inserted .other
  let refreshed ← await (.getFolder id)
  let folder ← orRaise refreshed .other
  await (.broadcast project (.created id folder))
  return .folder id folder

/-- The `UPDATE` of the columns that are set to something else, if there are any. -/
def folderWrites (id : FolderId) (row : Folder) (name : Option String)
    (parent : Option (Option FolderId)) (visits : List (Visit FolderId)) : List Write :=
  let name := name.filter (· ≠ row.name)
  let parent := parent.filter (· ≠ row.parentFolderId)
  if name = none ∧ parent = none then [] else [.updateFolder id name parent visits]

/-- `update_folder`. `parent` is `payload.parent_id` if that was set. -/
def updateFolder (user : UserId) (project : ProjectId) (id : FolderId) (name : Option String)
    (parent : Option (Option FolderId)) (rounds : Nat) : Py Response := do
  let _ ← getCurrentUser user
  let found ← await (.getFolder id)
  let folder ← orRaise (found.filter (·.projectId = project)) (.http 404 "Folder not found")
  let row ← requireProject project
  requireEditor row project user "Editor role required to modify folders"
  let visits ← checkParent project (some id) parent.join rounds
  let _ ← await (.commit (folderWrites id folder name parent visits))
  let refreshed ← await (.getFolder id)
  let folder ← orRaise refreshed .other
  await (.broadcast project (.updated id folder))
  return .folder id folder

/-- The folders that `db.delete(folder)` finds by loading `subfolders`, for at most `rounds` folders. -/
def collectSubfolders : Nat → List FolderId → List FolderId → Py (List FolderId)
  | _, [], found => return found
  | 0, _ :: _, found => do
    await .outOfRounds
    return found
  | rounds + 1, id :: todo, found =>
    if id ∈ found then collectSubfolders rounds todo found
    else do
      let subfolders ← await (.selectSubfolders id)
      collectSubfolders rounds (todo ++ subfolders) (found ++ [id])

/-- `delete_folder`. -/
def deleteFolder (user : UserId) (project : ProjectId) (id : FolderId) (rounds : Nat) :
    Py Response := do
  let _ ← getCurrentUser user
  let found ← await (.getFolder id)
  let _ ← orRaise (found.filter (·.projectId = project)) (.http 404 "Folder not found")
  let row ← requireProject project
  requireEditor row project user "Editor role required to delete folders"
  let ids ← collectSubfolders rounds [id] []
  let _ ← await (.commit [.deleteFolders ids])
  await (.broadcast project (.deleted id))
  return .noContent

/-- The requests that change folders. -/
inductive FolderCall
  | create (user : UserId) (project : ProjectId) (name : String) (parent : Option FolderId)
      (rounds : Nat)
  | update (user : UserId) (project : ProjectId) (id : FolderId) (name : Option String)
      (parent : Option (Option FolderId)) (rounds : Nat)
  | delete (user : UserId) (project : ProjectId) (id : FolderId) (rounds : Nat)

def FolderCall.body : FolderCall → Py Response
  | create user project name parent rounds => createFolder user project name parent rounds
  | update user project id name parent rounds => updateFolder user project id name parent rounds
  | delete user project id rounds => deleteFolder user project id rounds

/-- Any members create, move, rename and delete folders. -/
abbrev foldering (t₀ : Store) :
    Machine Op (fun o => Except PyError o.Val) Env Store FolderCall (Except PyError Response) :=
  machine t₀ FolderCall.body

end Concord.Access
