import Concord.Access.Store
import Concord.Base.Program

/-!
# What the access endpoints await

The statements of a request's database session, the clock, the token generator and the project's
sockets. A select sees the committed rows. A statement can fail, before or after it has had its
effect, and then raises.
-/

namespace Concord.Access

open Concord.Base

/-- `WORKSPACE_FOLDER_…`, as broadcast to a project. -/
inductive FolderEvent
  | created (id : FolderId) (folder : Folder)
  | updated (id : FolderId) (folder : Folder)
  | deleted (id : FolderId)
deriving DecidableEq, Repr

inductive Op
  /-- `db.get(User, id)`, and so on. -/
  | getUser (id : UserId)
  | getProject (id : ProjectId)
  | getMember (id : MemberId)
  | getFolder (id : FolderId)
  /-- `select(User).where(User.username == …)`. -/
  | selectUser (username : String)
  /-- `scalar_one_or_none()` of a user's membership. -/
  | selectMember (project : ProjectId) (user : UserId)
  /-- `db.scalar(select(ProjectMember.id)…)`. -/
  | selectMemberId (project : ProjectId) (user : UserId)
  | selectPending (project : ProjectId) (user : UserId)
  /-- A join request of a project, with its user. -/
  | selectRequest (project : ProjectId) (id : RequestId)
  | selectInvitation (token : String)
  | selectSubfolders (parent : FolderId)
  /-- `db.add(project); await db.flush()`. -/
  | flushProject
  | commit (writes : List Write)
  | now
  | tokenUrlsafe
  | broadcast (project : ProjectId) (event : FolderEvent)
  /-- A loop has used up the rounds it was given in this run: it takes no more steps. -/
  | outOfRounds
deriving DecidableEq

/-- What an operation returns when it succeeds. A commit returns the id of the first row it has
inserted. -/
@[reducible] def Op.Val : Op → Type
  | getUser _ => Option User
  | getProject _ => Option Project
  | getMember _ => Option ProjectMember
  | getFolder _ => Option Folder
  | selectUser _ => Option (UserId × User)
  | selectMember _ _ => Option (MemberId × ProjectMember)
  | selectMemberId _ _ => Option MemberId
  | selectPending _ _ => Option (RequestId × JoinRequest)
  | selectRequest _ _ => Option (JoinRequest × Option User)
  | selectInvitation _ => Option (InvitationId × Invitation)
  | selectSubfolders _ => List FolderId
  | flushProject => ProjectId
  | commit _ => Option Nat
  | now => Seconds
  | tokenUrlsafe => String
  | broadcast _ _ | outOfRounds => Unit

/-- Whether a statement fails, and if so whether it has had its effect. -/
inductive Fault
  | none | before | after
deriving DecidableEq

/-- What the environment decides for one operation. -/
structure Env where
  fault : Fault := .none
  now : Seconds := 0
  token : String := ""

/-- `scalar_one_or_none()`. -/
def oneOrNone {α : Type} : List α → Except PyError (Option α)
  | [] => .ok none
  | [row] => .ok (some row)
  | _ => .error .other

theorem oneOrNone_none {α : Type} {l : List α} (h : oneOrNone l = .ok none) : l = [] := by
  match l with
  | [] => rfl
  | [_] | _ :: _ :: _ => cases h

theorem oneOrNone_some {α : Type} {l : List α} {row : α} (h : oneOrNone l = .ok (some row)) :
    l = [row] := by
  match l with
  | [_] =>
    cases h
    rfl
  | [] | _ :: _ :: _ => cases h

namespace Op

/-- The rows a select finds in `t`; `none` for what is not a select. -/
def select (t : Store) : (o : Op) → Option (Except PyError o.Val)
  | getUser id => some (.ok (t.users.get? id))
  | getProject id => some (.ok (t.projects.get? id))
  | getMember id => some (.ok (t.members.get? id))
  | getFolder id => some (.ok (t.folders.get? id))
  | selectUser username =>
    some (oneOrNone (t.users.items.filter fun item => item.2.username = username))
  | selectMember project user => some (oneOrNone (t.membersOf project user))
  | selectMemberId project user => some (.ok ((t.membersOf project user).head?.map Prod.fst))
  | selectPending project user => some (oneOrNone (t.pendingOf project user))
  | selectRequest project id =>
    some (.ok (((t.requests.get? id).filter fun row => row.projectId = project).map fun row =>
      (row, t.users.get? row.userId)))
  | selectInvitation token => some (oneOrNone (t.invitationsOf token))
  | selectSubfolders parent =>
    some (.ok ((t.folders.items.filter fun item => item.2.parentFolderId = some parent).map
      Prod.fst))
  | _ => none

variable (env : Env) (t : Store)

/-- One operation, with the fault the environment decides on. -/
def exec : (o : Op) → Option (Except PyError o.Val × Store)
  | flushProject =>
    some (if env.fault = .none then .ok t.nextProject else .error .database,
      { t with nextProject := t.nextProject + 1 })
  | commit writes =>
    match env.fault, t.transact writes with
    | .before, _ | _, none => some (.error .database, t)
    | .after, some t' => some (.error .database, t')
    | .none, some t' => some (.ok (writes.findSome? t.newId?), t')
  | now => some (.ok env.now, t)
  | tokenUrlsafe => some (.ok env.token, t)
  | broadcast _ _ => some (.ok (), t)
  | outOfRounds => none
  | o => (select t o).map fun rows => (if env.fault = .none then rows else .error .database, t)

variable {env t}

theorem exec_select {o : Op} {rows : Except PyError o.Val} (h : select t o = some rows) :
    exec env t o = some (if env.fault = .none then rows else .error .database, t) := by
  cases o <;> cases h <;> rfl

/-- A commit takes effect as a whole and is acknowledged, or takes effect and raises, or does
neither. -/
theorem exec_commit {ws : List Write} {x : Except PyError (Option Nat)} {t' : Store}
    (h : exec env t (commit ws) = some (x, t')) :
    t.transact ws = some t' ∧ (x = .ok (ws.findSome? t.newId?) ∨ x = .error .database) ∨
      t' = t ∧ x = .error .database := by
  simp only [exec] at h
  split at h <;> simp only [Option.some.injEq, Prod.mk.injEq] at h
  · exact .inr ⟨h.2.symm, h.1.symm⟩
  · exact .inr ⟨h.2.symm, h.1.symm⟩
  · next heq => exact .inl ⟨h.2 ▸ heq, .inr h.1.symm⟩
  · next heq => exact .inl ⟨h.2 ▸ heq, .inl h.1.symm⟩

end Op

/-- The programs of the access endpoints. -/
abbrev Py (α : Type) := Async PyError Op Op.Val α

/-- `await` of one operation. -/
abbrev await (o : Op) : Py o.Val := Async.call o

/-- Endpoints over the committed rows, with the rows there are at first. -/
def machine {Req Resp : Type} (t : Store) (body : Req → Py Resp) :
    Machine Op (fun o => Except PyError o.Val) Env Store Req (Except PyError Resp) where
  init := t
  exec _ o env t := o.exec env t
  body _ r := (body r).run

/-- Process `p` takes `n` steps in which nothing fails. -/
def undisturbed {Req : Type} (p : Pid) (n : Nat) : List (Label Env Req) :=
  List.replicate n (.run p {})

end Concord.Access
