import Concord.Access.Endpoints
import Concord.Base.Alone

/-!
# What a request may commit

A sequence of complete requests, in which each runs alone. `Permitted t user ws`: the writes `ws` are
those of a request of `user` that has found in `t` what its checks ask for. `outcome_of_step` says that
a request leaves the store as it found it or commits such writes, and the statements about sequences
follow from it.
-/

namespace Concord.Access

open Concord.Base Async

/-- The requests about members, join requests and invitations. -/
inductive Request
  | createProject (user : UserId) (name : String)
  | requestToJoin (user : UserId) (project : ProjectId)
  | approveJoinRequest (user : UserId) (project : ProjectId) (request : RequestId)
      (role : { role : Role // role ≠ .owner })
  | rejectJoinRequest (user : UserId) (project : ProjectId) (request : RequestId)
  | addProjectMember (user : UserId) (project : ProjectId) (userId : String) (role : Role)
  | removeProjectMember (user : UserId) (project : ProjectId) (target : UserId)
  | updateProjectMemberRole (user : UserId) (project : ProjectId) (target : UserId) (role : Role)
  | createInvitation (user : UserId) (project : ProjectId) (role : Role)
  | acceptInvitation (user : UserId) (token : String)

/-- The user who makes the request. -/
def Request.user : Request → UserId
  | createProject user _ | requestToJoin user _ | approveJoinRequest user _ _ _
  | rejectJoinRequest user _ _ | addProjectMember user _ _ _ | removeProjectMember user _ _
  | updateProjectMemberRole user _ _ _ | createInvitation user _ _ | acceptInvitation user _ => user

def Request.body (text : PyText) : Request → Py Response
  | createProject user name => Access.createProject user name
  | requestToJoin user project => Access.requestToJoin user project
  | approveJoinRequest user project request role =>
    Access.approveJoinRequest user project request role
  | rejectJoinRequest user project request => Access.rejectJoinRequest user project request
  | addProjectMember user project userId role =>
    Access.addProjectMember text user project userId role
  | removeProjectMember user project target => Access.removeProjectMember user project target
  | updateProjectMemberRole user project target role =>
    Access.updateProjectMemberRole user project target role
  | createInvitation user project role => Access.createInvitation user project role
  | acceptInvitation user token => Access.acceptInvitation user token

/-- Sequences of requests: a step is one request, with what the environment decides for each of its
operations. -/
def requests (text : PyText) (t : Store) : System Store (Request × (Nat → Env)) where
  init := t
  step s l := ((l.1.body text).run.alone (fun o env t => o.exec env t) (l.2, s)).map (·.2.2)

/-- A request for which nothing fails. -/
def Request.calm (r : Request) (token : String) : Request × (Nat → Env) := (r, fun _ => { token })

namespace Store

variable (t : Store)

/-- The store with another next project id: what a flush that is not committed leaves. -/
def drawn (n : ProjectId) : Store := { t with nextProject := n }

/-- What a select of the membership of a user in a project has found. -/
def Found (project : ProjectId) (user : UserId) (member : Option (MemberId × ProjectMember)) :
    Prop :=
  oneOrNone (t.membersOf project user) = .ok member

variable {t} {project : ProjectId} {user : UserId}

theorem mem_membersOf {item : MemberId × ProjectMember} :
    item ∈ t.membersOf project user ↔
      t.members.get? item.1 = some item.2 ∧ item.2.projectId = project ∧ item.2.userId = user := by
  simp [membersOf, ← Dict.mem_items_iff]

theorem membersOf_eq_nil :
    t.membersOf project user = [] ↔
      ∀ id m, t.members.get? id = some m → m.projectId = project → m.userId ≠ user := by
  rw [List.eq_nil_iff_forall_not_mem]
  constructor
  · intro h id m hm hp hu
    exact h (id, m) (mem_membersOf.2 ⟨hm, hp, hu⟩)
  · intro h item hitem
    obtain ⟨hm, hp, hu⟩ := mem_membersOf.1 hitem
    exact h item.1 item.2 hm hp hu

theorem Found.none (h : t.Found project user none) : t.membersOf project user = [] :=
  oneOrNone_none h

theorem Found.some {item : MemberId × ProjectMember} (h : t.Found project user (some item)) :
    t.members.get? item.1 = some item.2 ∧ item.2.projectId = project ∧ item.2.userId = user :=
  mem_membersOf.1 (oneOrNone_some h ▸ List.mem_singleton_self item)

end Store

/-- What a request of `user` may commit in `t`. -/
inductive Permitted (t : Store) (user : UserId) : List Write → Prop
  | createProject (id : ProjectId) (name : String) :
    Permitted t user [.insertProject id ⟨user, name⟩, .insertMember ⟨id, user, .owner⟩,
      .insertFile id "main.py" .python]
  | requestToJoin (project : ProjectId) (hmember : t.Found project user none) :
    Permitted t user [.insertRequest { projectId := project, userId := user }]
  | approve (project : ProjectId) (row : Project) (request : RequestId) (joinRequest : JoinRequest)
      (role : { role : Role // role ≠ .owner }) (member : Option (MemberId × ProjectMember))
      (decidedAt : Seconds) (hproject : t.projects.get? project = some row)
      (howner : row.ownerId = user) (hrequest : t.requests.get? request = some joinRequest)
      (hof : joinRequest.projectId = project) (hpending : joinRequest.status = .pending)
      (hmember : t.Found project joinRequest.userId member) :
    Permitted t user (assignRole project joinRequest.userId role member ++
      [.decide request .approved decidedAt])
  | reject (project : ProjectId) (row : Project) (request : RequestId) (joinRequest : JoinRequest)
      (decidedAt : Seconds) (hproject : t.projects.get? project = some row)
      (howner : row.ownerId = user) (hrequest : t.requests.get? request = some joinRequest)
      (hof : joinRequest.projectId = project) :
    Permitted t user [.decide request .rejected decidedAt]
  /-- `add_project_member` and `update_project_member_role`. -/
  | assign (project : ProjectId) (row : Project) (target : UserId) (role : Role)
      (member : Option (MemberId × ProjectMember)) (hproject : t.projects.get? project = some row)
      (howner : row.ownerId = user) (htarget : target ≠ row.ownerId)
      (hmember : t.Found project target member) :
    Permitted t user (assignRole project target role member)
  | remove (project : ProjectId) (row : Project) (target : UserId)
      (member : MemberId × ProjectMember) (hproject : t.projects.get? project = some row)
      (howner : row.ownerId = user) (htarget : target ≠ row.ownerId)
      (hmember : t.Found project target (some member)) :
    Permitted t user [.deleteMember member.1]
  | invite (project : ProjectId) (row : Project) (token : String) (role : Role) (expiresAt : Seconds)
      (hproject : t.projects.get? project = some row)
      (hrank : row.ownerId = user ∨
        ∃ member, t.Found project user (some member) ∧ role.rank ≤ member.2.role.rank) :
    Permitted t user [.insertInvitation ⟨project, token, role, expiresAt⟩]
  | accept (id : InvitationId) (inv : Invitation) (row : Project)
      (hinv : t.invitations.get? id = some inv)
      (hproject : t.projects.get? inv.projectId = some row) (howner : row.ownerId ≠ user)
      (hmember : t.membersOf inv.projectId user = []) :
    Permitted t user [.insertMember ⟨inv.projectId, user, inv.role⟩, .deleteInvitation id]

/-- What a request of `user` makes of the store `t`. -/
def Outcome (t : Store) (user : UserId) (t' : Store) : Prop :=
  ∃ n, t' = t.drawn n ∨ ∃ ws, Permitted (t.drawn n) user ws ∧ (t.drawn n).transact ws = some t'

theorem Outcome.refl (t : Store) (user : UserId) : Outcome t user t := ⟨t.nextProject, .inl rfl⟩

/-! ## A request that runs alone -/

/-- What is left of a request of `user` that began in `t`, now in `s`. -/
abbrev Makes (t : Store) (user : UserId) (s : Store) {α : Type} (x : Py α) : Prop :=
  Leaves (fun o env t => Op.exec env t o) s x (fun _ => Outcome t user) fun _ => Outcome t user

/-- The program does not write. -/
def Reads {α : Type} (x : Py α) : Prop :=
  ∀ s, Leaves (fun o env t => Op.exec env t o) s x (fun _ t => t = s) fun _ t => t = s

namespace Reads

variable {α β : Type}

theorem pure (a : α) : Reads (Pure.pure a : Py α) := fun _ => Leaves.pure rfl

theorem bind {x : Py α} {f : α → Py β} (h : Reads x) (hf : ∀ a, Reads (f a)) : Reads (x >>= f) :=
  fun s => Leaves.bind (h s) fun a t ht => by
    subst ht
    exact hf a t

theorem orRaise (x? : Option α) (e : PyError) : Reads (Async.orRaise x? e) :=
  fun _ => Leaves.orRaise (fun _ _ => rfl) fun _ => rfl

theorem select {o : Op} (ho : ∀ t, (o.select t).isSome) : Reads (await o) := by
  intro s
  obtain ⟨rows, hrows⟩ := Option.isSome_iff_exists.1 (ho s)
  refine Leaves.call fun env r t h => ?_
  rw [Op.exec_select hrows] at h
  cases h
  split
  · cases rows <;> rfl
  · rfl

end Reads

namespace Makes

variable {t s : Store} {user : UserId} {α β : Type}

theorem reads {x : Py α} (h : Outcome t user s) (hx : Reads x) : Makes t user s x :=
  Leaves.mono (hx s) (fun _ _ ht => ht ▸ h) fun _ _ ht => ht ▸ h

theorem pure {a : α} (h : Outcome t user s) : Makes t user s (Pure.pure a) := Leaves.pure h

/-- A select, and what comes after it. -/
theorem select {o : Op} {rows : Except PyError o.Val} {f : o.Val → Py β} (h : Outcome t user s)
    (ho : o.select s = some rows) (hf : ∀ v, rows = .ok v → Makes t user s (f v)) :
    Makes t user s (await o >>= f) := by
  refine Leaves.bind (Q := fun v u => u = s ∧ rows = .ok v) (Leaves.call fun env r u hu => ?_)
    fun v u ⟨hu, hv⟩ => hu ▸ hf v hv
  rw [Op.exec_select ho] at hu
  cases hu
  split
  · cases hrows : rows with
    | ok v => exact ⟨rfl, rfl⟩
    | error e => exact h
  · exact h

theorem require {c : Bool} {e : PyError} {f : Unit → Py β} (h : Outcome t user s)
    (hf : c = true → Makes t user s (f ())) : Makes t user s (Async.require c e >>= f) :=
  Leaves.bind (Q := fun _ u => u = s ∧ c = true) (Leaves.require (fun hc => ⟨rfl, hc⟩) fun _ => h)
    fun _ _ ⟨hu, hc⟩ => hu ▸ hf hc

theorem orRaise {x? : Option α} {e : PyError} {f : α → Py β} (h : Outcome t user s)
    (hf : ∀ a, x? = some a → Makes t user s (f a)) : Makes t user s (Async.orRaise x? e >>= f) :=
  Leaves.bind (Q := fun a u => u = s ∧ x? = some a) (Leaves.orRaise (fun _ ha => ⟨rfl, ha⟩) fun _ => h)
    fun a _ ⟨hu, ha⟩ => hu ▸ hf a ha

theorem now {f : Seconds → Py β} (hf : ∀ v, Makes t user s (f v)) :
    Makes t user s (await .now >>= f) :=
  Leaves.bind (Q := fun _ u => u = s) (Leaves.call fun env r u hu => by cases hu; rfl)
    fun v _ hu => hu ▸ hf v

theorem tokenUrlsafe {f : String → Py β} (hf : ∀ v, Makes t user s (f v)) :
    Makes t user s (await .tokenUrlsafe >>= f) :=
  Leaves.bind (Q := fun _ u => u = s) (Leaves.call fun env r u hu => by cases hu; rfl)
    fun v _ hu => hu ▸ hf v

/-- The commit of a request, after which it only reads. -/
theorem commit {n : ProjectId} {ws : List Write} {f : Option Nat → Py β} (hws : Permitted (t.drawn n) user ws)
    (hf : ∀ v, Reads (f v)) : Makes t user (t.drawn n) (await (.commit ws) >>= f) := by
  refine Leaves.bind (Q := fun _ => Outcome t user) (Leaves.call fun env r u hu => ?_)
    fun v u hu => reads hu (hf v)
  rcases Op.exec_commit hu with ⟨htx, rfl | rfl⟩ | ⟨rfl, rfl⟩
  · exact ⟨n, .inr ⟨ws, hws, htx⟩⟩
  · exact ⟨n, .inr ⟨ws, hws, htx⟩⟩
  · exact ⟨n, .inl rfl⟩

theorem currentUser {f : User → Py β} (h : Outcome t user s) (hf : ∀ v, Makes t user s (f v)) :
    Makes t user s (getCurrentUser user >>= f) := by
  unfold getCurrentUser
  rw [bind_assoc]
  exact select h rfl fun found _ => orRaise h fun a _ => hf a

theorem requireProject {project : ProjectId} {f : Project → Py β} (h : Outcome t user s)
    (hf : ∀ row, s.projects.get? project = some row → Makes t user s (f row)) :
    Makes t user s (Access.requireProject project >>= f) := by
  unfold Access.requireProject
  rw [bind_assoc]
  refine select h rfl fun found hfound => orRaise h fun row hrow => hf row ?_
  cases hfound
  exact hrow

theorem getOwnedProject {project : ProjectId} {f : Project → Py β} (h : Outcome t user s)
    (hf : ∀ row, s.projects.get? project = some row → row.ownerId = user →
      Makes t user s (f row)) :
    Makes t user s (Access.getOwnedProject project user >>= f) := by
  unfold Access.getOwnedProject
  simp only [bind_assoc, pure_bind]
  exact requireProject h fun row hrow => require h fun howner => hf row hrow (by simpa using howner)

theorem getPendingRequest {project : ProjectId} {request : RequestId}
    {f : JoinRequest × Option User → Py β} (h : Outcome t user s)
    (hf : ∀ row requester, s.requests.get? request = some row → row.projectId = project →
      row.status = .pending → Makes t user s (f (row, requester))) :
    Makes t user s (Access.getPendingRequest project request >>= f) := by
  unfold Access.getPendingRequest
  simp only [bind_assoc, pure_bind]
  refine select h rfl fun found hfound => orRaise h fun joinRequest hsome =>
    require h fun hpending => ?_
  cases hfound
  obtain ⟨row, hrow, rfl⟩ := Option.map_eq_some_iff.1 hsome
  obtain ⟨hget, hof⟩ := Option.filter_eq_some_iff.1 hrow
  exact hf row _ hget (by simpa using hof) (by simpa using hpending)

theorem checkInviter {row : Project} {project : ProjectId} {role : Role} {f : Unit → Py β}
    (h : Outcome t user s)
    (hf : (row.ownerId = user ∨
      ∃ member, s.Found project user (some member) ∧ role.rank ≤ member.2.role.rank) →
      Makes t user s (f ())) :
    Makes t user s (Access.checkInviter row project user role >>= f) := by
  unfold Access.checkInviter
  split
  · next howner => exact hf (.inl howner)
  · simp only [bind_assoc]
    refine select h rfl fun found hfound => orRaise h fun member hsome => ?_
    subst hsome
    refine require h fun _ => require h fun hrank => ?_
    exact hf (.inr ⟨member, hfound, by simpa using hrank⟩)

end Makes

section Endpoints

variable {t : Store} {user : UserId}

theorem makes_createProject {name : String} : Makes t user t (createProject user name) := by
  unfold createProject
  refine Makes.currentUser (.refl t user) fun _ => ?_
  refine Leaves.bind (Q := fun _ u => ∃ n, u = t.drawn n) (Leaves.call fun env r u hu => ?_) ?_
  · cases hu
    split
    · exact ⟨_, rfl⟩
    · exact ⟨_, .inl rfl⟩
  · rintro id _ ⟨n, rfl⟩
    refine Makes.commit (.createProject id name) fun _ => ?_
    exact .bind (.select fun _ => rfl) fun _ => .bind (.orRaise _ _) fun _ => .pure _

theorem makes_requestToJoin {project : ProjectId} :
    Makes t user t (requestToJoin user project) := by
  unfold requestToJoin
  have h := Outcome.refl t user
  refine Makes.currentUser h fun _ => Makes.requireProject h fun _ _ => ?_
  refine Makes.select h rfl fun member hmember => Makes.require h fun hnone => ?_
  refine Makes.select h rfl fun _ _ => Makes.require h fun _ => ?_
  obtain rfl := Option.isNone_iff_eq_none.1 hnone
  refine Makes.commit (n := t.nextProject) (.requestToJoin project hmember) fun _ => ?_
  exact .bind (.orRaise _ _) fun _ => .bind (.select fun _ => rfl) fun _ =>
    .bind (.orRaise _ _) fun _ => .pure _

theorem makes_approveJoinRequest {project : ProjectId} {request : RequestId}
    {role : { role : Role // role ≠ .owner }} :
    Makes t user t (approveJoinRequest user project request role) := by
  unfold approveJoinRequest
  have h := Outcome.refl t user
  refine Makes.currentUser h fun _ => Makes.getOwnedProject h fun row hrow howner => ?_
  refine Makes.getPendingRequest h fun joinRequest requester hrequest hof hpending => ?_
  refine Makes.select h rfl fun member hmember => Makes.now fun decidedAt => ?_
  refine Makes.commit (n := t.nextProject)
    (.approve project row request joinRequest role member decidedAt hrow howner hrequest hof hpending
      hmember) fun _ => ?_
  exact .bind (.orRaise _ _) fun _ => .pure _

theorem makes_rejectJoinRequest {project : ProjectId} {request : RequestId} :
    Makes t user t (rejectJoinRequest user project request) := by
  unfold rejectJoinRequest
  have h := Outcome.refl t user
  refine Makes.currentUser h fun _ => Makes.getOwnedProject h fun row hrow howner => ?_
  refine Makes.getPendingRequest h fun joinRequest _ hrequest hof _ => Makes.now fun decidedAt => ?_
  refine Makes.commit (n := t.nextProject)
    (.reject project row request joinRequest decidedAt hrow howner hrequest hof) fun _ => ?_
  exact .bind (.select fun _ => rfl) fun _ => .bind (.orRaise _ _) fun _ => .pure _

theorem reads_findUser (text : PyText) (raw : String) : Reads (findUser text raw) := by
  unfold findUser
  have hname : ∀ byId : Option (UserId × User), Reads (match byId with
      | some found => Pure.pure (some found)
      | none => if raw = "" then Pure.pure none else await (.selectUser raw)) := by
    intro byId
    cases byId with
    | some found => exact .pure _
    | none =>
      dsimp only
      split
      · exact .pure _
      · exact .select fun _ => rfl
  dsimp only
  split
  · exact .bind (.orRaise _ _) fun _ => .bind (.select fun _ => rfl) fun _ => .bind (.pure _) hname
  · exact .bind (.pure _) hname

theorem makes_addProjectMember {text : PyText} {project : ProjectId} {userId : String}
    {role : Role} : Makes t user t (addProjectMember text user project userId role) := by
  unfold addProjectMember
  have h := Outcome.refl t user
  refine Makes.currentUser h fun _ => Makes.requireProject h fun row hrow => ?_
  refine Makes.require h fun howner => ?_
  refine Leaves.bind (Leaves.mono (reads_findUser text _ t) (fun _ _ hu => hu) fun _ _ hu => hu ▸ h)
    fun found s hs => ?_
  subst hs
  refine Makes.orRaise h fun target _ => Makes.require h fun htarget => ?_
  refine Makes.select h rfl fun member hmember => ?_
  exact Makes.commit (n := s.nextProject)
    (.assign project row target.1 role member hrow (by simpa using howner) (by simpa using htarget)
      hmember) fun _ => .pure _

theorem makes_removeProjectMember {project : ProjectId} {target : UserId} :
    Makes t user t (removeProjectMember user project target) := by
  unfold removeProjectMember
  have h := Outcome.refl t user
  refine Makes.currentUser h fun _ => Makes.requireProject h fun row hrow => ?_
  refine Makes.require h fun howner => Makes.require h fun htarget => ?_
  refine Makes.select h rfl fun found hfound => Makes.orRaise h fun member hsome => ?_
  subst hsome
  exact Makes.commit (n := t.nextProject)
    (.remove project row target member hrow (by simpa using howner) (by simpa using htarget) hfound)
    fun _ => .pure _

theorem makes_updateProjectMemberRole {project : ProjectId} {target : UserId} {role : Role} :
    Makes t user t (updateProjectMemberRole user project target role) := by
  unfold updateProjectMemberRole
  have h := Outcome.refl t user
  refine Makes.currentUser h fun _ => Makes.requireProject h fun row hrow => ?_
  refine Makes.require h fun howner => ?_
  refine Makes.select h rfl fun found hfound => Makes.orRaise h fun member hsome => ?_
  refine Makes.require h fun htarget => ?_
  subst hsome
  refine Makes.commit (n := t.nextProject)
    (.assign project row target role (some member) hrow (by simpa using howner)
      (by simpa using htarget) hfound) fun _ => ?_
  exact .bind (.select fun _ => rfl) fun _ => .bind (.orRaise _ _) fun _ =>
    .bind (.select fun _ => rfl) fun _ => .bind (.orRaise _ _) fun _ =>
    .bind (.select fun _ => rfl) fun _ => .bind (.orRaise _ _) fun _ => .pure _

theorem makes_createInvitation {project : ProjectId} {role : Role} :
    Makes t user t (createInvitation user project role) := by
  unfold createInvitation
  have h := Outcome.refl t user
  refine Makes.currentUser h fun _ => Makes.requireProject h fun row hrow => ?_
  refine Makes.checkInviter h fun hrank => ?_
  refine Makes.tokenUrlsafe fun token => Makes.now fun now => ?_
  refine Makes.commit (n := t.nextProject) (.invite project row token role _ hrow hrank) fun _ => ?_
  exact .bind (.select fun _ => rfl) fun _ => .bind (.orRaise _ _) fun _ => .pure _

theorem makes_acceptInvitation {token : String} :
    Makes t user t (acceptInvitation user token) := by
  unfold acceptInvitation
  have h := Outcome.refl t user
  refine Makes.currentUser h fun _ => ?_
  refine Makes.select h rfl fun found hfound => Makes.orRaise h fun item hsome => ?_
  refine Makes.now fun now => Makes.require h fun _ => ?_
  refine Makes.requireProject h fun row hrow => Makes.require h fun howner => ?_
  refine Makes.select h rfl fun member hmember => Makes.require h fun hnone => ?_
  subst hsome
  have hitem : item ∈ t.invitationsOf token := by
    rw [oneOrNone_some hfound]
    exact List.mem_singleton_self item
  have hinv : t.invitations.get? item.1 = some item.2 :=
    Dict.mem_items_iff.1 (List.mem_filter.1 hitem).1
  have hnobody : t.membersOf item.2.projectId user = [] := by
    cases hmember
    simpa using hnone
  exact Makes.commit (n := t.nextProject)
    (.accept item.1 item.2 row hinv hrow (by simpa using howner) hnobody) fun _ => .pure _

end Endpoints

/-- **What a request does**: it leaves the store as it found it, or commits what it may. -/
theorem outcome_of_step {text : PyText} {t₀ t t' : Store} {l : Request × (Nat → Env)}
    (h : (requests text t₀).step t l = some t') : Outcome t l.1.user t' := by
  obtain ⟨r, c⟩ := l
  obtain ⟨⟨res, c', u⟩, halone, rfl⟩ := Option.map_eq_some_iff.1 h
  have hmakes : Makes t r.user t (r.body text) := by
    cases r with
    | createProject user name => exact makes_createProject
    | requestToJoin user project => exact makes_requestToJoin
    | approveJoinRequest user project request role => exact makes_approveJoinRequest
    | rejectJoinRequest user project request => exact makes_rejectJoinRequest
    | addProjectMember user project userId role => exact makes_addProjectMember
    | removeProjectMember user project target => exact makes_removeProjectMember
    | updateProjectMemberRole user project target role => exact makes_updateProjectMemberRole
    | createInvitation user project role => exact makes_createInvitation
    | acceptInvitation user token => exact makes_acceptInvitation
  have hres := hmakes c res (c', u) halone
  cases res with
  | ok a => exact hres
  | error e => exact hres

end Concord.Access
