import Concord.Access.Operations

/-!
# Projects, members, join requests and invitations

The handlers of `api/projects.py` that write, and of `api/invitations.py`, one program each. A request
has its own database session.
-/

namespace Concord.Access

open Concord.Base Async

/-- What the endpoints return. -/
inductive Response
  | project (id : ProjectId) (row : Project)
  | joinRequest (id : RequestId) (row : JoinRequest) (user : User)
  | member (user : User) (role : Role)
  | invitation (token url : String)
  | folder (id : FolderId) (row : Folder)
  | message (text : String)
  | noContent
deriving DecidableEq, Repr

/-- The functions of Python's `str` that `add_project_member` calls; `int` gives `none` where it
raises a `ValueError`. -/
structure PyText where
  strip : String → String
  isdigit : String → Bool
  int : String → Option Nat

/-- The functions as they are on ASCII texts. -/
def PyText.ascii : PyText where
  strip s := String.ofList
    ((s.toList.dropWhile Char.isWhitespace).reverse.dropWhile Char.isWhitespace).reverse
  isdigit s := !s.isEmpty && s.toList.all Char.isDigit
  int s :=
    if s.toList.all Char.isDigit then
      some (s.toList.foldl (fun n c => 10 * n + (c.toNat - '0'.toNat)) 0)
    else none

/-- `at_least`. -/
def atLeast (role minRole : Role) : Bool := decide (minRole.rank ≤ role.rank)

/-- `get_current_user`, of a token that is valid. -/
def getCurrentUser (user : UserId) : Py User := do
  let found ← await (.getUser user)
  orRaise found (.http 401 "User not found")

/-- `db.get(Project, project_id)`, and the check that it is there. -/
def requireProject (project : ProjectId) : Py Project := do
  let found ← await (.getProject project)
  orRaise found (.http 404 "Project not found")

/-- `create_project`. -/
def createProject (user : UserId) (name : String) : Py Response := do
  let _ ← getCurrentUser user
  let id ← await .flushProject
  let _ ← await (.commit [
    .insertProject id ⟨user, name⟩,
    .insertMember ⟨id, user, .owner⟩,
    .insertFile id "main.py" .python])
  let refreshed ← await (.getProject id)
  let project ← orRaise refreshed .other
  return .project id project

/-- `_get_owned_project`. -/
def getOwnedProject (project : ProjectId) (user : UserId) : Py Project := do
  let row ← requireProject project
  require (decide (row.ownerId = user)) (.http 403 "Only the project owner can review join requests")
  return row

/-- `_get_pending_request`. -/
def getPendingRequest (project : ProjectId) (request : RequestId) :
    Py (JoinRequest × Option User) := do
  let found ← await (.selectRequest project request)
  let joinRequest ← orRaise found (.http 404 "Join request not found")
  require (decide (joinRequest.1.status = .pending))
    (.http 409 ("Join request is already " ++ joinRequest.1.status.value))
  return joinRequest

/-- `request_to_join`. -/
def requestToJoin (user : UserId) (project : ProjectId) : Py Response := do
  let current ← getCurrentUser user
  let _ ← requireProject project
  let member ← await (.selectMember project user)
  require member.isNone (.http 409 "You are already a member of this project")
  let pending ← await (.selectPending project user)
  require pending.isNone (.http 409 "You already have a pending request for this project")
  let inserted ← await (.commit [.insertRequest { projectId := project, userId := user }])
  let id ← orRaise inserted .other
  let refreshed ← await (.selectRequest project id)
  let joinRequest ← orRaise refreshed .other
  return .joinRequest id joinRequest.1 current

/-- `member.role = role` for the member that was read, or a new `ProjectMember`. The unit of work
leaves a role alone that is the same. -/
def assignRole (project : ProjectId) (user : UserId) (role : Role) :
    Option (MemberId × ProjectMember) → List Write
  | some (id, member) => if member.role = role then [] else [.updateRole id role]
  | none => [.insertMember ⟨project, user, role⟩]

/-- `approve_join_request`. `JoinRequestDecision` excludes the role of an owner: ownership is never
transferred by approving a request. -/
def approveJoinRequest (user : UserId) (project : ProjectId) (request : RequestId)
    (role : { role : Role // role ≠ .owner }) : Py Response := do
  let _ ← getCurrentUser user
  let _ ← getOwnedProject project user
  let (joinRequest, requester) ← getPendingRequest project request
  -- the owner may have added this user directly while the request was pending
  let member ← await (.selectMember project joinRequest.userId)
  let decidedAt ← await .now
  let _ ← await (.commit (assignRole project joinRequest.userId role member ++
    [.decide request .approved decidedAt]))
  let requester ← orRaise requester .other
  return .member requester role

/-- `reject_join_request`. -/
def rejectJoinRequest (user : UserId) (project : ProjectId) (request : RequestId) :
    Py Response := do
  let _ ← getCurrentUser user
  let _ ← getOwnedProject project user
  let (joinRequest, _) ← getPendingRequest project request
  let decidedAt ← await .now
  let _ ← await (.commit [.decide request .rejected decidedAt])
  let refreshed ← await (.getUser joinRequest.userId)
  let requester ← orRaise refreshed .other
  return .joinRequest request
    { joinRequest with status := .rejected, decidedAt := some decidedAt } requester

/-- The user that `MemberAdd.user_id` names: by id if it is numeric, else (or failing that) by
username. -/
def findUser (text : PyText) (raw : String) : Py (Option (UserId × User)) := do
  let byId ← if text.isdigit raw then do
      let id ← orRaise (text.int raw) .other
      let found ← await (.getUser id)
      pure (found.map (id, ·))
    else pure none
  match byId with
  | some found => return some found
  | none => if raw = "" then return none else await (.selectUser raw)

/-- `add_project_member`. `userId` is the text of `payload.user_id`. -/
def addProjectMember (text : PyText) (user : UserId) (project : ProjectId) (userId : String)
    (role : Role) : Py Response := do
  let _ ← getCurrentUser user
  let row ← requireProject project
  require (decide (row.ownerId = user)) (.http 403 "Only the project owner can add members")
  let found ← findUser text (text.strip userId)
  let target ← orRaise found
    (.http 404 "User not found. Please provide a valid User ID or Username.")
  require (decide (target.1 ≠ row.ownerId)) (.http 400 "Cannot change the role of the project owner")
  let member ← await (.selectMember project target.1)
  let _ ← await (.commit (assignRole project target.1 role member))
  return .message ("User " ++ target.2.username ++ " added as " ++ role.value)

/-- `remove_project_member`. -/
def removeProjectMember (user : UserId) (project : ProjectId) (target : UserId) : Py Response := do
  let _ ← getCurrentUser user
  let row ← requireProject project
  require (decide (row.ownerId = user)) (.http 403 "Only the project owner can remove members")
  require (decide (target ≠ row.ownerId)) (.http 400 "Cannot remove the project owner")
  let found ← await (.selectMember project target)
  let member ← orRaise found (.http 404 "Member not found")
  let _ ← await (.commit [.deleteMember member.1])
  return .noContent

/-- `update_project_member_role`. -/
def updateProjectMemberRole (user : UserId) (project : ProjectId) (target : UserId) (role : Role) :
    Py Response := do
  let _ ← getCurrentUser user
  let row ← requireProject project
  require (decide (row.ownerId = user)) (.http 403 "Only the project owner can change member roles")
  let found ← await (.selectMember project target)
  let member ← orRaise found (.http 404 "Member not found in this project")
  require (decide (target ≠ row.ownerId)) (.http 400 "Cannot change the role of the project owner")
  let _ ← await (.commit (assignRole project target role (some member)))
  let refreshed ← await (.getMember member.1)
  let _ ← orRaise refreshed .other
  let again ← await (.selectMember project target)
  let member ← orRaise again .other
  let memberUser ← await (.getUser target)
  let memberUser ← orRaise memberUser .other
  return .member memberUser member.2.role

/-- How long an invitation is good for: `timedelta(days=7)`. -/
def invitationLifetime : Seconds := 7 * 24 * 3600

/-- The check of `create_invitation`: editor or higher can invite, and never to a role above their
own. -/
def checkInviter (row : Project) (project : ProjectId) (user : UserId) (role : Role) : Py Unit :=
  if row.ownerId = user then pure ()
  else do
    let found ← await (.selectMember project user)
    let member ← orRaise found (.http 403 "Insufficient permissions to invite")
    require (atLeast member.2.role .editor) (.http 403 "Insufficient permissions to invite")
    require (decide (role.rank ≤ member.2.role.rank))
      (.http 403 "You cannot invite someone to a role above your own")

/-- `create_invitation`. -/
def createInvitation (user : UserId) (project : ProjectId) (role : Role) : Py Response := do
  let _ ← getCurrentUser user
  let row ← requireProject project
  checkInviter row project user role
  let token ← await .tokenUrlsafe
  let now ← await .now
  let _ ← await (.commit [.insertInvitation ⟨project, token, role, now + invitationLifetime⟩])
  let refreshed ← await (.selectInvitation token)
  let _ ← orRaise refreshed .other
  return .invitation token ("/join?token=" ++ token)

/-- `accept_invitation`. -/
def acceptInvitation (user : UserId) (token : String) : Py Response := do
  let _ ← getCurrentUser user
  let found ← await (.selectInvitation token)
  let (id, inv) ← orRaise found (.http 404 "Invitation not found")
  let now ← await .now
  require (decide (now ≤ inv.expiresAt)) (.http 410 "Invitation expired")
  let row ← requireProject inv.projectId
  require (decide (row.ownerId ≠ user)) (.http 409 "You are already a member of this project")
  let member ← await (.selectMemberId inv.projectId user)
  require member.isNone (.http 409 "You are already a member of this project")
  let _ ← await (.commit [.insertMember ⟨inv.projectId, user, inv.role⟩, .deleteInvitation id])
  return .message "Joined project successfully"

end Concord.Access
