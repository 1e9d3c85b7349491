import Concord.Realtime.Survival

/-!
# Sockets and memberships

The realtime service next to the table of members that `api/projects.py` changes. A connection is admitted
with the role its user has at that moment, and keeps that role for as long as its socket is open; the owner
may change or remove memberships at any time.

`editors_only`: as long as nobody loses the editor role while a socket of theirs is open that was admitted
with it, an update is applied only for a current editor.
-/

namespace Concord

open Concord.Base

/-! ## Memberships -/

/-- The rows of `projects`, `files` and `users` that the checks read. -/
structure Directory where
  owner : ProjectId → Option UserId
  projectOf : FileId → Option ProjectId
  /-- The user of this id, or else of this name. -/
  user? : String → Option UserId

section Members

variable (d : Directory) (members : List ProjectMember)

/-- `_resolve_member`, and the member that the requests below select. -/
def resolveMember (project : ProjectId) (user : UserId) : Option ProjectMember :=
  members.find? fun m => m.projectId = project ∧ m.userId = user

/-- The rows after `member.role = role`. -/
def setMemberRole (project : ProjectId) (user : UserId) (role : Role) : List ProjectMember :=
  members.map fun m => if m.projectId = project ∧ m.userId = user then { m with role } else m

/-- The check that only the owner changes memberships. -/
def checkOwner (project : ProjectId) (caller : UserId) (detail : String) : Except PyError UserId :=
  match d.owner project with
  | none => .error (.http 404 "Project not found")
  | some owner => if owner = caller then .ok owner else .error (.http 403 detail)

/-- `add_project_member`. -/
def addProjectMember (project : ProjectId) (caller : UserId) (target : String) (role : Role) :
    Except PyError (List ProjectMember) := do
  let owner ← checkOwner d project caller "Only the project owner can add members"
  match d.user? target with
  | none => throw (.http 404 "User not found. Please provide a valid User ID or Username.")
  | some user =>
    if user = owner then throw (.http 400 "Cannot change the role of the project owner")
    else match resolveMember members project user with
      | some _ => pure (setMemberRole members project user role)
      | none => pure (members ++ [{ projectId := project, userId := user, role }])

/-- `remove_project_member`. -/
def removeProjectMember (project : ProjectId) (caller user : UserId) :
    Except PyError (List ProjectMember) := do
  let owner ← checkOwner d project caller "Only the project owner can remove members"
  if user = owner then throw (.http 400 "Cannot remove the project owner")
  else match resolveMember members project user with
    | none => throw (.http 404 "Member not found")
    | some _ => pure (members.filter fun m => ¬(m.projectId = project ∧ m.userId = user))

/-- `update_project_member_role`. -/
def updateProjectMemberRole (project : ProjectId) (caller user : UserId) (role : Role) :
    Except PyError (List ProjectMember) := do
  let owner ← checkOwner d project caller "Only the project owner can change member roles"
  match resolveMember members project user with
  | none => throw (.http 404 "Member not found in this project")
  | some _ =>
    if user = owner then throw (.http 400 "Cannot change the role of the project owner")
    else pure (setMemberRole members project user role)

end Members

inductive MemberRequest
  | add (project : ProjectId) (caller : UserId) (target : String) (role : Role)
  | remove (project : ProjectId) (caller user : UserId)
  | updateRole (project : ProjectId) (caller user : UserId) (role : Role)

namespace MemberRequest

variable (d : Directory)

def run (members : List ProjectMember) : MemberRequest → Except PyError (List ProjectMember)
  | add project caller target role => addProjectMember d members project caller target role
  | remove project caller user => removeProjectMember d members project caller user
  | updateRole project caller user role => updateProjectMemberRole d members project caller user role

/-- Whether the request takes the right to edit from the user, if it has it. -/
def demotes (project : ProjectId) (user : UserId) : MemberRequest → Bool
  | add project' _ target role =>
    decide (project' = project ∧ d.user? target = some user) && decide (role.rank < 1)
  | remove project' _ user' => decide (project' = project ∧ user' = user)
  | updateRole project' _ user' role =>
    decide (project' = project ∧ user' = user) && decide (role.rank < 1)

end MemberRequest

/-- The user is a member of the project with role editor, debugger or owner. -/
def Edits (members : List ProjectMember) (project : ProjectId) (user : UserId) : Prop :=
  ∃ m ∈ members, m.projectId = project ∧ m.userId = user ∧ m.role ∈ [Role.editor, .debugger, .owner]

instance (members : List ProjectMember) (project : ProjectId) (user : UserId) :
    Decidable (Edits members project user) := inferInstanceAs (Decidable (∃ m ∈ members, _ ∧ _ ∧ _))

theorem mem_editors_iff (role : Role) : role ∈ [Role.editor, .debugger, .owner] ↔ 1 ≤ role.rank := by
  cases role <;> decide

section Members

variable {d : Directory} {members members' : List ProjectMember} {project : ProjectId} {user : UserId}

theorem edits_setMemberRole {project' : ProjectId} {user' : UserId} {role : Role}
    (h : Edits members project user) (hrole : project' = project ∧ user' = user → 1 ≤ role.rank) :
    Edits (setMemberRole members project' user' role) project user := by
  obtain ⟨m, hm, rfl, rfl, hm'⟩ := h
  refine ⟨_, List.mem_map_of_mem hm, ?_⟩
  by_cases hsame : m.projectId = project' ∧ m.userId = user'
  · rw [if_pos hsame]
    exact ⟨rfl, rfl, (mem_editors_iff role).2 (hrole ⟨hsame.1.symm, hsame.2.symm⟩)⟩
  · rw [if_neg hsame]
    exact ⟨rfl, rfl, hm'⟩

/-- A request that does not demote a user leaves them an editor. -/
theorem edits_run {m : MemberRequest} (h : Edits members project user)
    (hm : m.demotes d project user = false) (hrun : m.run d members = .ok members') :
    Edits members' project user := by
  cases m with
  | add project' caller target role =>
    obtain ⟨owner, -, hrun⟩ := except_bind_ok hrun
    split at hrun
    · cases hrun
    · next user' htarget =>
      split at hrun
      · cases hrun
      · split at hrun
        · cases hrun
          refine edits_setMemberRole h fun hsame => ?_
          simp only [MemberRequest.demotes, Bool.and_eq_false_iff, decide_eq_false_iff_not] at hm
          rcases hm with hm | hm
          · exact absurd ⟨hsame.1, htarget.trans (congrArg some hsame.2)⟩ hm
          · omega
        · cases hrun
          obtain ⟨m, hmem, hrest⟩ := h
          exact ⟨m, List.mem_append_left _ hmem, hrest⟩
  | remove project' caller user' =>
    obtain ⟨owner, -, hrun⟩ := except_bind_ok hrun
    split at hrun
    · cases hrun
    · split at hrun
      · cases hrun
      · cases hrun
        obtain ⟨m, hmem, rfl, rfl, hrole⟩ := h
        refine ⟨m, List.mem_filter.2 ⟨hmem, decide_eq_true fun hsame => ?_⟩, rfl, rfl, hrole⟩
        exact of_decide_eq_false hm ⟨hsame.1.symm, hsame.2.symm⟩
  | updateRole project' caller user' role =>
    obtain ⟨owner, -, hrun⟩ := except_bind_ok hrun
    split at hrun
    · cases hrun
    · split at hrun
      · cases hrun
      · cases hrun
        refine edits_setMemberRole h fun hsame => ?_
        simp only [MemberRequest.demotes, Bool.and_eq_false_iff, decide_eq_false_iff_not] at hm
        rcases hm with hm | hm
        · exact absurd hsame hm
        · omega

end Members

/-! ## Which processes edit -/

section Edits

variable {U B : Type} [DecidableEq U] [DecidableEq B] (C : Pycrdt U B) (stored : Stored C)

/-- The edits that the program of a request may make: a socket edits its own file as its own user, if it
was admitted with at least the editor role. -/
def RoomRequest.MayEdit (room : RoomRef) (user : UserId) : RoomRequest → Prop
  | collabSocket file user' role _ => user = user' ∧ room.file = file ∧ 1 ≤ role.rank
  | restoreFile _ _ _ => True
  | _ => False

/-- Processes that make only the edits of their requests. -/
def editsProtocol : Protocol (realtime C stored) Unit where
  Inv _ _ := True
  At _ r _ o := ∀ room user update, o = some (.applyEdit room user update) → r.MayEdit room user
  ok _ _ _ _ _ := True

variable {C} {stored} {p : Pid} {r : RoomRequest}

/-- The rule of an operation. -/
theorem edits_call {o : RoomOp B} {Q : o.Val → Unit → Prop} {E : PyError → Unit → Prop}
    (hedit : ∀ room user update, o = .applyEdit room user update → r.MayEdit room user)
    (hQ : ∀ env st v st', RoomOp.run C p env st o = some (.ok v, st') → Q v ())
    (hE : ∀ e, E e ()) : (editsProtocol C stored).Triple p r () (awaitOp o) Q E := by
  refine Protocol.Triple.call (fun room user update ho => hedit room user update (Option.some.inj ho))
    fun env st gs _ _ _ x st' hx => ⟨(), trivial, ?_⟩
  cases x with
  | ok v => exact hQ env st v st' hx
  | error e => exact hE e

/-- An operation that is no edit is steady. -/
theorem edits_steady {o : RoomOp B}
    (h : ∀ room user update, o ≠ .applyEdit room user update) :
    (editsProtocol C stored).Steady p r () (awaitOp o) :=
  edits_call (fun room user update ho => absurd ho (h room user update)) (fun _ _ _ _ _ => rfl)
    fun _ => rfl

omit [DecidableEq U] [DecidableEq B] in
theorem getOrCreateRoom_file (st : Hub U B) (f : FileId) (now : Seconds) :
    (st.getOrCreateRoom f now).1.file = f := by
  unfold Hub.getOrCreateRoom
  cases h : st.registered? f with
  | some r => simpa using List.find?_some h
  | none => rfl

/-- `open_room` makes no edit. -/
theorem openRoom_steady (f : FileId) : (editsProtocol C stored).Steady p r () (openRoom f) := by
  unfold openRoom
  refine .bind (edits_steady nofun) fun room => .bind (edits_steady nofun) fun _ => .bind
    (.andFinally (.bind (edits_steady nofun) fun hydrated => ?_) (edits_steady nofun)) fun _ => .pure _
  split
  · exact .pure _
  · exact .bind (edits_steady nofun) fun _ => edits_steady nofun

/-- An edit that the request may make is steady. -/
theorem applyEdit_steady {room : RoomRef} {user : UserId} {update : B} (h : r.MayEdit room user) :
    (editsProtocol C stored).Steady p r () (awaitOp (.applyEdit room user update)) := by
  refine edits_call (fun room' user' update' ho => ?_) (fun _ _ _ _ _ => rfl) fun _ => rfl
  cases ho
  exact h

theorem replaceText_steady {room : RoomRef} {user : UserId} {newText : List Char}
    (h : r.MayEdit room user) : (editsProtocol C stored).Steady p r () (replaceText room newText user) := by
  unfold replaceText
  refine .bind (edits_steady nofun) fun _ => .andFinally (.bind (edits_steady nofun) fun update => ?_)
    (edits_steady nofun)
  cases update with
  | none => exact .pure _
  | some update => exact .bind (applyEdit_steady h) fun _ => .pure _

theorem checkpointRoom_steady (truthy : B → Bool) (room : RoomRef) (savedBy : Option UserId) :
    (editsProtocol C stored).Steady p r () (checkpointRoom truthy room savedBy) := by
  unfold checkpointRoom
  refine .bind (edits_steady nofun) fun payload => .bind (edits_steady nofun) fun latest =>
    .ite ?_ ?_
  · exact .bind (edits_steady nofun) fun _ => .bind (edits_steady nofun) fun _ => .pure _
  · dsimp only
    split
    · exact .ite (.bind (edits_steady nofun) fun _ => .pure _) (.pure _)
    · exact .pure _

theorem withCheckpointLock_steady {α : Type} {body : RoomPy B α}
    (h : (editsProtocol C stored).Steady p r () body) :
    (editsProtocol C stored).Steady p r () (withCheckpointLock body) :=
  .bind (edits_steady nofun) fun _ => .andFinally (.andFinally h (edits_steady nofun))
    (edits_steady nofun)

theorem saveRoom_steady (truthy : B → Bool) (room : RoomRef) (user : Option UserId) :
    (editsProtocol C stored).Steady p r () (saveRoom truthy room user) :=
  withCheckpointLock_steady (.bind (checkpointRoom_steady truthy room user) fun _ =>
    .bind (edits_steady nofun) fun _ => .pure _)

theorem checkpointAll_steady (truthy : B → Bool) (rooms : List RoomRef) :
    (editsProtocol C stored).Steady p r () (checkpointAll truthy rooms) := by
  induction rooms with
  | nil => exact .pure _
  | cons room rooms ih => exact .bind (checkpointRoom_steady truthy room none) fun _ => ih

theorem handleUpdate_steady {room : RoomRef} {user : UserId} {update : B} (h : r.MayEdit room user) :
    (editsProtocol C stored).Steady p r () (handleUpdate room user update) :=
  .tryExcept (.bind (edits_steady nofun) fun _ => .bind
    (.andFinally (applyEdit_steady h) (edits_steady nofun)) fun _ => edits_steady nofun) fun _ => .pure _

/-- The loop of a socket edits only if the role it was admitted with allows that. -/
theorem receiveLoop_steady {room : RoomRef} {user : UserId} {role : Role}
    (h : 1 ≤ role.rank → r.MayEdit room user) (rounds : Nat) :
    (editsProtocol C stored).Steady p r () (receiveLoop room user role rounds) := by
  induction rounds with
  | zero => exact edits_steady nofun
  | succ rounds ih =>
    refine .bind (edits_steady nofun) fun message => ?_
    cases message with
    | disconnect => exact .pure _
    | other => exact ih
    | update data =>
      by_cases hrole : role.rank < 1
      · simpa only [hrole, if_true] using ih
      · simpa only [hrole, if_false] using
          Protocol.Steady.bind (handleUpdate_steady (h (Nat.le_of_not_lt hrole))) fun _ => ih

theorem collabSocket_steady (file : FileId) (user : UserId) (role : Role) (rounds : Nat) :
    (editsProtocol C stored).Steady p (.collabSocket file user role rounds) ()
      (collabSocket file user role rounds) := by
  refine .bind (openRoom_steady file) fun _ => Protocol.Triple.bind (Q := fun room _ => room.file = file)
    ?_ fun room _ hroom => ?_
  · refine edits_call (by rintro _ _ _ ⟨⟩) (fun env st v st' hrun => ?_) fun _ => rfl
    simp only [RoomOp.run, Option.some.injEq, Prod.mk.injEq, Except.ok.injEq] at hrun
    rw [← hrun.1]
    exact getOrCreateRoom_file st file env.now
  · have hmay : 1 ≤ role.rank →
        (RoomRequest.collabSocket file user role rounds).MayEdit room user := fun hrole =>
      ⟨rfl, hroom, hrole⟩
    exact Protocol.Steady.andFinally (receiveLoop_steady hmay rounds) (edits_steady (by rintro _ _ _ ⟨⟩))

theorem program_steady (p : Pid) (r : RoomRequest) :
    (editsProtocol C stored).Steady p r () (r.program C.truthy) := by
  cases r with
  | collabSocket file user role rounds =>
    exact .andFinally (collabSocket_steady file user role rounds) (edits_steady nofun)
  | saveFile file user =>
    refine .andFinally (.bind (edits_steady nofun) fun room => ?_) (edits_steady nofun)
    cases room with
    | none => exact .pure _
    | some room =>
      refine .bind (edits_steady nofun) fun hydrated => ?_
      exact .ite (.bind (saveRoom_steady C.truthy room (some user)) fun _ => .pure _) (.pure _)
  | restoreFile file newText user =>
    refine .andFinally (.bind (openRoom_steady file) fun room => .bind (replaceText_steady ?_)
      fun _ => .bind (saveRoom_steady C.truthy room (some user)) fun _ => .pure _) (edits_steady nofun)
    trivial
  | checkpointOnce =>
    exact .bind (edits_steady nofun) fun any => .ite (withCheckpointLock_steady
      (.bind (edits_steady nofun) fun rooms => .bind (checkpointAll_steady C.truthy rooms)
        fun _ => edits_steady nofun)) (.pure _)
  | cleanupUnusedRooms ttl => exact .bind (edits_steady nofun) fun _ => .pure _

variable (C stored) in
def editsOutline : Outline (editsProtocol C stored) where
  idle := ()
  start _ _ := ()
  done _ _ _ _ := True
  init := trivial
  spawn _ _ _ _ _ _ := trivial
  body p r := Protocol.Follows.mono (program_steady p r) fun _ _ _ => trivial
  at_end _ _ _ _ _ := nofun

/-- A process that is about to edit makes an edit of its request. -/
theorem mayEdit_of_reachable {cfg : RealtimeConfig U B}
    (h : (realtime C stored).system.Reachable cfg) {prog : Program (RoomOp B)
      (fun o => Except PyError o.Val) (Except PyError Unit)} (hp : cfg.procs p = some ⟨r, prog⟩)
    {room : RoomRef} {user : UserId} {update : B}
    (hnext : prog.next? = some (.applyEdit room user update)) : r.MayEdit room user := by
  obtain ⟨gs, hfits⟩ := (editsOutline C stored).sound
    (fun _ _ _ _ => Machine.guard_of_forall (fun _ _ _ _ _ => trivial) _ _) h
  exact hfits.at_next hp room user update hnext

end Edits

/-! ## The system -/

/-- A socket that was admitted. -/
structure Socket where
  pid : Pid
  projectId : ProjectId
  file : FileId
  user : UserId
  role : Role
deriving DecidableEq, Repr

section Site

variable {U B : Type} [DecidableEq U] [DecidableEq B] (C : Pycrdt U B) (stored : Stored C)
  (d : Directory)

/-- The realtime service, the memberships and the sockets admitted so far. -/
structure Site (U B : Type) [DecidableEq U] where
  rt : RealtimeConfig U B
  members : List ProjectMember
  sockets : List Socket

inductive SiteLabel (B : Type)
  /-- A connection of `collab_socket`, up to the checks of the membership and the file. -/
  | connect (p : Pid) (project : ProjectId) (file : FileId) (user : UserId) (rounds : Nat)
  /-- Any other request of the realtime service. -/
  | request (p : Pid) (r : RoomRequest)
  | run (p : Pid) (env : RoomEnv B)
  | member (m : MemberRequest)

variable {d} in
/-- Whether the process has not ended. -/
def RealtimeConfig.running (rt : RealtimeConfig U B) (p : Pid) : Bool :=
  (rt.procs p).any fun proc => proc.rest.next?.isSome

def Site.step (s : Site U B) : SiteLabel B → Option (Site U B)
  | .connect p project file user rounds =>
    match resolveMember s.members project user with
    -- "not a project member"
    | none => some s
    | some m =>
      -- "file not found"
      if d.projectOf file ≠ some project then some s
      else ((realtime C stored).system.step s.rt (.spawn p (.collabSocket file user m.role rounds))).map
        fun rt => { s with rt, sockets := ⟨p, project, file, user, m.role⟩ :: s.sockets }
  | .request p r =>
    match r with
    | .collabSocket _ _ _ _ => none
    | r => ((realtime C stored).system.step s.rt (.spawn p r)).map fun rt => { s with rt }
  | .run p env => ((realtime C stored).system.step s.rt (.run p env)).map fun rt => { s with rt }
  | .member m =>
    match m.run d s.members with
    | .ok members => some { s with members }
    | .error _ => some s

/-- The realtime service and the member requests, started with these memberships. -/
def site (members : List ProjectMember) : System (Site U B) (SiteLabel B) where
  init := { rt := (realtime C stored).system.init, members, sockets := [] }
  step := Site.step C stored d

/-- Nobody loses the right to edit while a socket is open that was admitted with it. -/
def editorsKept (s : Site U B) : SiteLabel B → Prop
  | .member m => ∀ c ∈ s.sockets, 1 ≤ c.role.rank → s.rt.running c.pid = true →
      m.demotes d c.projectId c.user = false
  | _ => True

instance (s : Site U B) : (l : SiteLabel B) → Decidable (editorsKept d s l)
  | .member m => inferInstanceAs (Decidable (∀ c ∈ s.sockets, 1 ≤ c.role.rank →
      s.rt.running c.pid = true → m.demotes d c.projectId c.user = false))
  | .connect _ _ _ _ _ | .request _ _ | .run _ _ => .isTrue trivial

variable {C} {stored} {d} {members : List ProjectMember} {s s' : Site U B}

structure SiteInv (C : Pycrdt U B) (stored : Stored C) (d : Directory) (s : Site U B) : Prop where
  reachable : (realtime C stored).system.Reachable s.rt
  /-- A process that serves a socket was admitted. -/
  admitted : ∀ p file user role rounds prog,
    s.rt.procs p = some ⟨.collabSocket file user role rounds, prog⟩ →
      ∃ project, d.projectOf file = some project ∧ ⟨p, project, file, user, role⟩ ∈ s.sockets
  started : ∀ c ∈ s.sockets, s.rt.procs c.pid ≠ none
  /-- Whose socket is open and was admitted with the right to edit, has it still. -/
  editors : ∀ c ∈ s.sockets, 1 ≤ c.role.rank → s.rt.running c.pid = true →
    Edits s.members c.projectId c.user

theorem siteInv_init : SiteInv C stored d (site C stored d members).init where
  reachable := Relation.ReflTransGen.refl
  admitted _ _ _ _ _ _ h := nomatch h
  started := nofun
  editors := nofun

namespace SiteInv

variable {rt : RealtimeConfig U B} {p : Pid}

/-- A process is started that serves no socket, or one just admitted. -/
theorem spawn (h : SiteInv C stored d s) {r : RoomRequest} {sockets : List Socket}
    (hs : (realtime C stored).system.step s.rt (.spawn p r) = some rt)
    (hold : ∀ c ∈ s.sockets, c ∈ sockets)
    (hnew : ∀ c ∈ sockets, c ∈ s.sockets ∨
      c.pid = p ∧ (1 ≤ c.role.rank → Edits s.members c.projectId c.user))
    (hadmitted : ∀ file user role rounds, r = .collabSocket file user role rounds →
      ∃ project, d.projectOf file = some project ∧ ⟨p, project, file, user, role⟩ ∈ sockets) :
    SiteInv C stored d { s with rt, sockets } := by
  have hreach := System.Path.tail h.reachable trivial hs
  obtain ⟨hfree, rfl⟩ := Machine.step_spawn.1 hs
  refine ⟨hreach, fun q file user role rounds prog hq => ?_, fun c hc => ?_, fun c hc hrole hrun => ?_⟩
  · dsimp only at hq
    by_cases hqp : q = p
    · subst hqp
      rw [Function.update_self, Option.some.injEq, Process.mk.injEq] at hq
      exact hadmitted file user role rounds hq.1
    · rw [Function.update_of_ne hqp] at hq
      obtain ⟨project, hproject, hmem⟩ := h.admitted q file user role rounds prog hq
      exact ⟨project, hproject, hold _ hmem⟩
  · dsimp only
    by_cases hcp : c.pid = p
    · rw [hcp, Function.update_self]
      simp
    · rw [Function.update_of_ne hcp]
      exact h.started c ((hnew c hc).resolve_right fun hc => hcp hc.1)
  · rcases hnew c hc with hc | ⟨-, hc⟩
    · have hcp : c.pid ≠ p := fun hcp => h.started c hc (hcp ▸ hfree)
      refine h.editors c hc hrole ?_
      simp only [RealtimeConfig.running, Function.update_of_ne hcp] at hrun
      exact hrun
    · exact hc hrole

theorem run (h : SiteInv C stored d s) {env : RoomEnv B}
    (hs : (realtime C stored).system.step s.rt (.run p env) = some rt) :
    SiteInv C stored d { s with rt } := by
  have hreach := System.Path.tail h.reachable trivial hs
  obtain ⟨r, o, k, x, st, hp, -, rfl⟩ := Machine.step_run.1 hs
  refine ⟨hreach, fun q file user role rounds prog hq => ?_, fun c hc => ?_, fun c hc hrole hrun => ?_⟩
  · dsimp only at hq
    by_cases hqp : q = p
    · subst hqp
      rw [Function.update_self, Option.some.injEq, Process.mk.injEq] at hq
      rw [hq.1] at hp
      exact h.admitted q file user role rounds _ hp
    · rw [Function.update_of_ne hqp] at hq
      exact h.admitted q file user role rounds prog hq
  · dsimp only
    by_cases hcp : c.pid = p
    · rw [hcp, Function.update_self]
      simp
    · rw [Function.update_of_ne hcp]
      exact h.started c hc
  · refine h.editors c hc hrole ?_
    by_cases hcp : c.pid = p
    · rw [RealtimeConfig.running, hcp, hp]
      rfl
    · simp only [RealtimeConfig.running, Function.update_of_ne hcp] at hrun
      exact hrun

theorem member (h : SiteInv C stored d s) {m : MemberRequest} {members' : List ProjectMember}
    (hok : editorsKept (B := B) d s (.member m)) (hrun : m.run d s.members = .ok members') :
    SiteInv C stored d { s with members := members' } :=
  ⟨h.reachable, h.admitted, h.started, fun c hc hrole hopen =>
    edits_run (h.editors c hc hrole hopen) (hok c hc hrole hopen) hrun⟩

theorem step (h : SiteInv C stored d s) {l : SiteLabel B} (hok : editorsKept d s l)
    (hs : (site C stored d members).step s l = some s') : SiteInv C stored d s' := by
  cases l with
  | connect p project file user rounds =>
    simp only [site, Site.step] at hs
    split at hs
    · cases hs
      exact h
    · next m hm =>
      split at hs
      · cases hs
        exact h
      · next hfile =>
        obtain ⟨rt, hspawn, rfl⟩ := Option.map_eq_some_iff.1 hs
        refine h.spawn hspawn (fun c hc => List.mem_cons_of_mem _ hc) (fun c hc => ?_) ?_
        · rcases List.mem_cons.1 hc with rfl | hc
          · refine .inr ⟨rfl, fun hrole => ⟨m, List.mem_of_find?_eq_some hm, ?_⟩⟩
            have hfound := List.find?_some hm
            simp only [Bool.decide_and, Bool.and_eq_true, decide_eq_true_eq] at hfound
            exact ⟨hfound.1, hfound.2, (mem_editors_iff m.role).2 hrole⟩
          · exact .inl hc
        · rintro file' user' role rounds' heq
          cases heq
          exact ⟨project, not_not.1 hfile, List.mem_cons_self⟩
  | request p r =>
    simp only [site, Site.step] at hs
    split at hs
    · cases hs
    · next r hr =>
      obtain ⟨rt, hspawn, rfl⟩ := Option.map_eq_some_iff.1 hs
      exact h.spawn hspawn (fun c hc => hc) (fun c hc => .inl hc) fun file user role rounds heq =>
        absurd heq (hr file user role rounds)
  | run p env =>
    obtain ⟨rt, hrun, rfl⟩ := Option.map_eq_some_iff.1 hs
    exact h.run hrun
  | member m =>
    simp only [site, Site.step] at hs
    split at hs
    · next members' hrun =>
      cases hs
      exact h.member hok hrun
    · cases hs
      exact h

end SiteInv

/-- **Only current editors write**, as long as nobody loses the right to edit while a socket is open that
was admitted with it: whenever a socket's process is about to apply an update, its user is a member of
the file's project with role editor, debugger or owner. -/
theorem editors_only (h : (site C stored d members).ReachableUnder (editorsKept d) s) {p : Pid}
    {file : FileId} {user' : UserId} {role : Role} {rounds : Nat} {prog : Program (RoomOp B)
      (fun o => Except PyError o.Val) (Except PyError Unit)}
    (hp : s.rt.procs p = some ⟨.collabSocket file user' role rounds, prog⟩) {room : RoomRef}
    {user : UserId} {update : B} (hnext : prog.next? = some (.applyEdit room user update)) :
    ∃ project, d.projectOf room.file = some project ∧ Edits s.members project user := by
  have hinv : SiteInv C stored d s := h.induction siteInv_init fun _ _ _ _ hs hok hstep =>
    hs.step hok hstep
  obtain ⟨rfl, rfl, hrole⟩ := mayEdit_of_reachable hinv.reachable hp hnext
  obtain ⟨project, hproject, hsocket⟩ := hinv.admitted p _ _ role rounds prog hp
  refine ⟨project, hproject, hinv.editors _ hsocket hrole ?_⟩
  simp [RealtimeConfig.running, hp, hnext]

end Site

/-! ## Runs -/

/-- One project, of user 0. -/
def oneProject : Directory where
  owner project := if project = 0 then some 0 else none
  projectOf _ := some 0
  user? name := if name = "ana" then some 1 else none

/-- User 1 is an editor. -/
def twoMembers : List ProjectMember := [⟨0, 0, .owner⟩, ⟨0, 1, .editor⟩]

/-- The process 0, which serves the socket of user 1, is about to apply an update. -/
def aboutToEdit (s : Site Nat (Finset Nat)) : Bool :=
  (s.rt.procs 0).any fun proc =>
    decide (proc.rest.next? = some (.applyEdit ⟨0, 0⟩ 1 {7})) &&
      match proc.req with
      | .collabSocket 0 1 .editor 1 => true
      | _ => false

theorem exists_of_aboutToEdit {s : Site Nat (Finset Nat)} (h : aboutToEdit s = true) :
    ∃ prog, s.rt.procs 0 = some ⟨.collabSocket 0 1 .editor 1, prog⟩ ∧
      prog.next? = some (.applyEdit ⟨0, 0⟩ 1 {7}) := by
  obtain ⟨⟨req, prog⟩, hproc, hedit⟩ := (Option.any_eq_true _ _).1 h
  rw [Bool.and_eq_true] at hedit
  obtain ⟨hnext, hreq⟩ := hedit
  split at hreq
  · next heq =>
    cases heq
    exact ⟨prog, hproc, of_decide_eq_true hnext⟩
  · cases hreq

/-- The owner removes a member whose socket is open, and the socket sends an update. -/
theorem removed_member_edits :
    ∃ s : Site Nat (Finset Nat),
      (site setPycrdt noVersions oneProject twoMembers).Reachable s ∧
        (∃ prog, s.rt.procs 0 = some ⟨.collabSocket 0 1 .editor 1, prog⟩ ∧
          prog.next? = some (.applyEdit ⟨0, 0⟩ 1 {7})) ∧ ¬Edits s.members 0 1 := by
  have hrun : ((site setPycrdt noVersions oneProject twoMembers).replay System.anyStep
      (site setPycrdt noVersions oneProject twoMembers).init
      (List.flatten [[.connect 0 0 0 1 1], List.replicate 7 (.run 0 {}),
        [.member (.remove 0 0 1), .run 0 { message := .update {7} }, .run 0 {}]])).any
      (fun s => aboutToEdit s && decide (¬Edits s.members 0 1)) = true := by decide
  obtain ⟨s, hs, hend⟩ := System.exists_reachable hrun
  rw [Bool.and_eq_true] at hend
  exact ⟨s, hs, exists_of_aboutToEdit hend.1, of_decide_eq_true hend.2⟩

/-- A member whose socket is open is made a debugger, and the socket sends an update. -/
theorem promoted_member_edits :
    ∃ s : Site Nat (Finset Nat),
      (site setPycrdt noVersions oneProject twoMembers).ReachableUnder (editorsKept oneProject) s ∧
        ∃ project, oneProject.projectOf 0 = some project ∧ Edits s.members project 1 := by
  have hrun : ((site setPycrdt noVersions oneProject twoMembers).replay (editorsKept oneProject)
      (site setPycrdt noVersions oneProject twoMembers).init
      (List.flatten [[.connect 0 0 0 1 1], List.replicate 7 (.run 0 {}),
        [.member (.updateRole 0 0 1 .debugger), .run 0 { message := .update {7} }, .run 0 {}]])).any
      aboutToEdit = true := by decide
  obtain ⟨s, hs, hend⟩ := System.exists_reachable hrun
  obtain ⟨prog, hproc, hnext⟩ := exists_of_aboutToEdit hend
  exact ⟨s, hs, editors_only hs hproc hnext⟩

end Concord
