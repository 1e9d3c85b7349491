import Concord.Base.Dict
import Concord.Base.Forest
import Concord.Models

/-!
# Projects, members, join requests, invitations and folders

The rows behind the access endpoints, and what a transaction does to them. A session sends its writes
in one flush when it commits (`create_project` alone flushes its project before), and a row that it
writes stays locked until then, so the writes of a transaction take effect together in the commit, or
not at all when one of them breaks a constraint.

`uq_project_user` is in the migrations and not in the ORM model: `uniqueMembers` says whether the
database has it.
-/

namespace Concord.Access

open Concord.Base

abbrev MemberId := Nat
abbrev RequestId := Nat
abbrev InvitationId := Nat
abbrev FolderId := Nat

/-- A row of `users`. -/
structure User where
  username : String
deriving DecidableEq, Repr

/-- A row of `projects`. `ownerId` is the user who created it; no endpoint changes it. -/
structure Project where
  ownerId : UserId
  name : String
deriving DecidableEq, Repr

inductive JoinRequestStatus
  | pending | approved | rejected
deriving DecidableEq, Repr

/-- `JoinRequestStatus.value`. -/
def JoinRequestStatus.value : JoinRequestStatus → String
  | pending => "pending"
  | approved => "approved"
  | rejected => "rejected"

/-- A row of `project_join_requests`: a non-member asking the project owner for access. -/
structure JoinRequest where
  projectId : ProjectId
  userId : UserId
  status : JoinRequestStatus := .pending
  decidedAt : Option Seconds := none
deriving DecidableEq, Repr

/-- A row of `invitations`. -/
structure Invitation where
  projectId : ProjectId
  token : String
  role : Role
  expiresAt : Seconds
deriving DecidableEq, Repr

/-- A row of `folders`. -/
structure Folder where
  projectId : ProjectId
  parentFolderId : Option FolderId
  name : String
deriving DecidableEq, Repr

/-- What a session has pending for its commit. -/
inductive Write
  /-- `db.add(project)`; the flush before has fixed its id. -/
  | insertProject (id : ProjectId) (row : Project)
  | insertMember (row : ProjectMember)
  | updateRole (id : MemberId) (role : Role)
  | deleteMember (id : MemberId)
  | insertRequest (row : JoinRequest)
  | decide (id : RequestId) (status : JoinRequestStatus) (decidedAt : Seconds)
  | insertInvitation (row : Invitation)
  | deleteInvitation (id : InvitationId)
  | insertFile (project : ProjectId) (path : String) (language : Language)
  | insertFolder (row : Folder)
  /-- `UPDATE folders SET …` with the columns that are set. `visits` is the path the check of the new
  parent has read; it has no column and serves the statements about that check. -/
  | updateFolder (id : FolderId) (name : Option String) (parent : Option (Option FolderId))
      (visits : List (Visit FolderId))
  /-- `DELETE` of the folders that `db.delete(folder)` has found below it. -/
  | deleteFolders (ids : List FolderId)
deriving DecidableEq, Repr

/-- The committed rows. `committed` is the history of the transactions. -/
structure Store where
  users : Dict UserId User := ∅
  projects : Dict ProjectId Project := ∅
  members : Dict MemberId ProjectMember := ∅
  requests : Dict RequestId JoinRequest := ∅
  invitations : Dict InvitationId Invitation := ∅
  files : List File := []
  folders : Dict FolderId Folder := ∅
  nextProject : ProjectId := 1
  nextMember : MemberId := 1
  nextRequest : RequestId := 1
  nextInvitation : InvitationId := 1
  nextFile : FileId := 1
  nextFolder : FolderId := 1
  uniqueMembers : Bool := true
  committed : List (List Write) := []
deriving DecidableEq

/-- The row after `UPDATE folders`. -/
def Folder.set (row : Folder) (name : Option String) (parent : Option (Option FolderId)) : Folder :=
  { row with
    name := name.getD row.name
    parentFolderId := parent.getD row.parentFolderId }

/-- The folder's parent, if it has one, is there. -/
def attached (folders : Dict FolderId Folder) (row : Folder) : Bool :=
  row.parentFolderId.all fun parent => (folders.get? parent).isSome

/-- `ON DELETE CASCADE` of `folders.parent_folder_id`: folders whose parent is gone go too, round by
round. -/
def cascade : Nat → Dict FolderId Folder → Dict FolderId Folder
  | 0, folders => folders
  | rounds + 1, folders => cascade rounds (folders.filterValues (attached folders))

namespace Store

variable (t : Store)

/-- The membership rows of one user in one project. -/
def membersOf (project : ProjectId) (user : UserId) : List (MemberId × ProjectMember) :=
  t.members.items.filter fun item => item.2.projectId = project ∧ item.2.userId = user

/-- The pending requests of one user for one project. -/
def pendingOf (project : ProjectId) (user : UserId) : List (RequestId × JoinRequest) :=
  t.requests.items.filter fun item =>
    item.2.projectId = project ∧ item.2.userId = user ∧ item.2.status = .pending

/-- The invitations with a token. -/
def invitationsOf (token : String) : List (InvitationId × Invitation) :=
  t.invitations.items.filter fun item => item.2.token = token

/-- The folders after `DELETE FROM folders WHERE id IN ids`. -/
def withoutFolders (ids : List FolderId) : Dict FolderId Folder :=
  let kept := ids.foldl Dict.erase t.folders
  cascade kept.items.length kept

/-- The project and the user that a row refers to are there. -/
def refersTo (project : ProjectId) (user : UserId) : Bool :=
  (t.projects.get? project).isSome && (t.users.get? user).isSome

/-- One write; `none` if it breaks a constraint or updates a row that is not there. -/
def apply : Write → Option Store
  | .insertProject id row =>
    if t.projects.get? id = none ∧ (t.users.get? row.ownerId).isSome then
      some { t with projects := t.projects.set id row }
    else none
  | .insertMember row =>
    if t.members.get? t.nextMember = none ∧ t.refersTo row.projectId row.userId ∧
        (t.uniqueMembers → t.membersOf row.projectId row.userId = []) then
      some { t with members := t.members.set t.nextMember row, nextMember := t.nextMember + 1 }
    else none
  | .updateRole id role =>
    (t.members.get? id).map fun row =>
      { t with members := t.members.set id { row with role } }
  -- a `DELETE` that finds no row does not fail the transaction
  | .deleteMember id => some { t with members := t.members.erase id }
  | .insertRequest row =>
    if t.requests.get? t.nextRequest = none ∧ t.refersTo row.projectId row.userId then
      some { t with requests := t.requests.set t.nextRequest row, nextRequest := t.nextRequest + 1 }
    else none
  | .decide id status decidedAt =>
    (t.requests.get? id).map fun row =>
      { t with requests := t.requests.set id { row with status, decidedAt := some decidedAt } }
  | .insertInvitation row =>
    if t.invitations.get? t.nextInvitation = none ∧ (t.projects.get? row.projectId).isSome ∧
        t.invitationsOf row.token = [] then
      some { t with
        invitations := t.invitations.set t.nextInvitation row
        nextInvitation := t.nextInvitation + 1 }
    else none
  | .deleteInvitation id => some { t with invitations := t.invitations.erase id }
  | .insertFile project path language =>
    if t.files.all fun file => file.projectId ≠ project ∨ file.path ≠ path then
      some { t with
        files := t.files ++ [⟨t.nextFile, project, path, language⟩]
        nextFile := t.nextFile + 1 }
    else none
  | .insertFolder row =>
    if t.folders.get? t.nextFolder = none ∧ (t.projects.get? row.projectId).isSome ∧
        attached t.folders row then
      some { t with folders := t.folders.set t.nextFolder row, nextFolder := t.nextFolder + 1 }
    else none
  | .updateFolder id name parent _ =>
    (t.folders.get? id).bind fun row =>
      if attached t.folders (row.set name parent) then
        some { t with folders := t.folders.set id (row.set name parent) }
      else none
  | .deleteFolders ids => some { t with folders := t.withoutFolders ids }

/-- The writes of a transaction, one after the other. -/
def applyAll : List Write → Store → Option Store
  | [], t => some t
  | w :: ws, t => (t.apply w).bind (applyAll ws)

/-- The transaction takes effect; `none` if it fails as a whole. -/
def transact (ws : List Write) : Option Store :=
  (applyAll ws t).map fun t' => { t' with committed := t.committed ++ [ws] }

/-- The id the commit gives to the row of a write that inserts one. -/
def newId? : Write → Option Nat
  | .insertMember _ => some t.nextMember
  | .insertRequest _ => some t.nextRequest
  | .insertInvitation _ => some t.nextInvitation
  | .insertFile _ _ _ => some t.nextFile
  | .insertFolder _ => some t.nextFolder
  | _ => none

/-! ## What a write does -/

section Apply

variable {t} {t' : Store}

theorem apply_insertProject {id : ProjectId} {row : Project}
    (h : t.apply (.insertProject id row) = some t') :
    t.projects.get? id = none ∧ t' = { t with projects := t.projects.set id row } := by
  simp only [apply] at h
  split at h
  · next hc => exact ⟨hc.1, (Option.some.inj h).symm⟩
  · cases h

theorem apply_insertMember {row : ProjectMember} (h : t.apply (.insertMember row) = some t') :
    t.members.get? t.nextMember = none ∧ (t.projects.get? row.projectId).isSome ∧
      (t.uniqueMembers → t.membersOf row.projectId row.userId = []) ∧
      t' = { t with members := t.members.set t.nextMember row, nextMember := t.nextMember + 1 } := by
  simp only [apply] at h
  split at h
  · next hc =>
    simp only [refersTo, Bool.and_eq_true] at hc
    exact ⟨hc.1, hc.2.1.1, hc.2.2, (Option.some.inj h).symm⟩
  · cases h

theorem apply_updateRole {id : MemberId} {role : Role}
    (h : t.apply (.updateRole id role) = some t') :
    ∃ row, t.members.get? id = some row ∧
      t' = { t with members := t.members.set id { row with role } } := by
  obtain ⟨row, hrow, rfl⟩ := Option.map_eq_some_iff.1 h
  exact ⟨row, hrow, rfl⟩

theorem apply_insertRequest {row : JoinRequest} (h : t.apply (.insertRequest row) = some t') :
    t.requests.get? t.nextRequest = none ∧ (t.projects.get? row.projectId).isSome ∧
      t' = { t with
        requests := t.requests.set t.nextRequest row, nextRequest := t.nextRequest + 1 } := by
  simp only [apply] at h
  split at h
  · next hc =>
    simp only [refersTo, Bool.and_eq_true] at hc
    exact ⟨hc.1, hc.2.1, (Option.some.inj h).symm⟩
  · cases h

theorem apply_decide {id : RequestId} {status : JoinRequestStatus} {decidedAt : Seconds}
    (h : t.apply (.decide id status decidedAt) = some t') :
    ∃ row, t.requests.get? id = some row ∧
      t' = { t with
        requests := t.requests.set id { row with status, decidedAt := some decidedAt } } := by
  obtain ⟨row, hrow, rfl⟩ := Option.map_eq_some_iff.1 h
  exact ⟨row, hrow, rfl⟩

theorem apply_insertInvitation {row : Invitation}
    (h : t.apply (.insertInvitation row) = some t') :
    t.invitations.get? t.nextInvitation = none ∧
      t' = { t with
        invitations := t.invitations.set t.nextInvitation row
        nextInvitation := t.nextInvitation + 1 } := by
  simp only [apply] at h
  split at h
  · next hc => exact ⟨hc.1, (Option.some.inj h).symm⟩
  · cases h

theorem apply_insertFile {project : ProjectId} {path : String} {language : Language}
    (h : t.apply (.insertFile project path language) = some t') :
    t' = { t with
      files := t.files ++ [⟨t.nextFile, project, path, language⟩]
      nextFile := t.nextFile + 1 } := by
  simp only [apply] at h
  split at h
  · exact (Option.some.inj h).symm
  · cases h

theorem apply_insertFolder {row : Folder} (h : t.apply (.insertFolder row) = some t') :
    t.folders.get? t.nextFolder = none ∧ attached t.folders row ∧
      t' = { t with
        folders := t.folders.set t.nextFolder row, nextFolder := t.nextFolder + 1 } := by
  simp only [apply] at h
  split at h
  · next hc => exact ⟨hc.1, hc.2.2, (Option.some.inj h).symm⟩
  · cases h

theorem apply_updateFolder {id : FolderId} {name : Option String}
    {parent : Option (Option FolderId)} {visits : List (Visit FolderId)}
    (h : t.apply (.updateFolder id name parent visits) = some t') :
    ∃ row, t.folders.get? id = some row ∧ attached t.folders (row.set name parent) ∧
      t' = { t with folders := t.folders.set id (row.set name parent) } := by
  obtain ⟨row, hrow, h⟩ := Option.bind_eq_some_iff.1 h
  split at h
  · next hc => exact ⟨row, hrow, hc, (Option.some.inj h).symm⟩
  · cases h

theorem cascade_of_attached {folders : Dict FolderId Folder}
    (h : ∀ id row, folders.get? id = some row → attached folders row = true) (rounds : Nat) :
    cascade rounds folders = folders := by
  induction rounds with
  | zero => rfl
  | succ rounds ih =>
    have hsame : folders.filterValues (attached folders) = folders := by
      have hitems : (folders.filterValues (attached folders)).items = folders.items :=
        List.filter_eq_self.2 fun item hitem => h item.1 item.2 (Dict.mem_items_iff.1 hitem)
      cases hf : folders.filterValues (attached folders)
      rw [hf] at hitems
      cases folders
      cases hitems
      rfl
    rw [cascade, hsame, ih]

theorem get?_cascade {id : FolderId} {row : Folder} {rounds : Nat} {folders : Dict FolderId Folder}
    (h : (cascade rounds folders).get? id = some row) : folders.get? id = some row := by
  induction rounds generalizing folders with
  | zero => exact h
  | succ rounds ih => exact (Dict.get?_filterValues.1 (ih h)).1

/-- As many rounds as there are folders leave none without its parent. -/
theorem attached_cascade {id : FolderId} {row : Folder} {rounds : Nat}
    {folders : Dict FolderId Folder} (hrounds : folders.items.length ≤ rounds)
    (h : (cascade rounds folders).get? id = some row) :
    attached (cascade rounds folders) row = true := by
  induction rounds generalizing folders with
  | zero =>
    have hnil : folders.items = [] := List.length_eq_zero_iff.1 (Nat.le_zero.1 hrounds)
    rw [cascade, ← Dict.mem_items_iff, hnil] at h
    cases h
  | succ rounds ih =>
    rw [cascade] at h ⊢
    by_cases hall : ∀ item ∈ folders.items, attached folders item.2 = true
    · have hitems : (folders.filterValues (attached folders)).items = folders.items :=
        List.filter_eq_self.2 hall
      have hattached : ∀ id row, (folders.filterValues (attached folders)).get? id = some row →
          attached (folders.filterValues (attached folders)) row = true := by
        intro id row hrow
        have hrow := Dict.get?_filterValues.1 hrow
        have hsame : ∀ parent, (folders.filterValues (attached folders)).get? parent =
            folders.get? parent := fun parent => by rw [Dict.get?, hitems]; rfl
        change (row.parentFolderId.all fun parent =>
          ((folders.filterValues (attached folders)).get? parent).isSome) = true
        simp only [hsame]
        exact hrow.2
      rw [cascade_of_attached hattached] at h ⊢
      exact hattached id row h
    · -- a folder goes in this round
      refine ih ?_ h
      push Not at hall
      obtain ⟨item, hitem, hnot⟩ := hall
      have hlt : (folders.filterValues (attached folders)).items.length < folders.items.length :=
        List.length_filter_lt_length_iff_exists.2 ⟨item, hitem, hnot⟩
      omega

/-- What is left of the folders, and that no parent of it is missing. -/
theorem get?_withoutFolders {ids : List FolderId} {id : FolderId} {row : Folder}
    (h : (t.withoutFolders ids).get? id = some row) :
    t.folders.get? id = some row ∧ attached (t.withoutFolders ids) row = true := by
  have hkept : ∀ (ids : List FolderId) (folders : Dict FolderId Folder),
      (ids.foldl Dict.erase folders).get? id = some row → folders.get? id = some row := by
    intro ids
    induction ids with
    | nil => exact fun _ h => h
    | cons i ids ih =>
      intro folders h
      have herase := ih _ h
      rw [Dict.get?_erase] at herase
      split at herase
      · cases herase
      · exact herase
  exact ⟨hkept ids _ (get?_cascade h), attached_cascade le_rfl h⟩

theorem applyAll_append {ws ws' : List Write} :
    applyAll (ws ++ ws') t = (applyAll ws t).bind (applyAll ws') := by
  induction ws generalizing t with
  | nil => rfl
  | cons w ws ih =>
    rw [List.cons_append, applyAll, applyAll, Option.bind_assoc]
    congr 1
    exact funext fun _ => ih

theorem transact_eq_some {ws : List Write} (h : t.transact ws = some t') :
    ∃ u, applyAll ws t = some u ∧ t' = { u with committed := t.committed ++ [ws] } := by
  obtain ⟨u, hu, rfl⟩ := Option.map_eq_some_iff.1 h
  exact ⟨u, hu, rfl⟩

end Apply

end Store

/-- Four users, and nothing else yet. -/
def fourUsers : Store :=
  { users := .ofItems [(1, ⟨"ann"⟩), (2, ⟨"bob"⟩), (3, ⟨"cat"⟩), (4, ⟨"dan"⟩)] }

/-- A project of the first user, of which the second one is an editor. -/
def sharedProject : Store :=
  { fourUsers with
    projects := .ofItems [(1, ⟨1, "p"⟩)]
    members := .ofItems [(1, ⟨1, 1, .owner⟩), (2, ⟨1, 2, .editor⟩)]
    nextProject := 2
    nextMember := 3 }

end Concord.Access
