import Concord.Access.Requests

/-!
# The owner keeps the project

Six endpoints write memberships. The creator's row is made with the project; after that, what a request
writes is the membership of somebody else. For an approval this rests on the creator having no pending
request, which is so because `request_to_join` refuses members.
-/

namespace Concord.Access

open Concord.Base

namespace Store

variable (t : Store)

/-- Each user has at most one membership row in a project, and the creator of a project has exactly
one, with role owner. -/
def OwnerKept : Prop :=
  (∀ project user, (t.membersOf project user).length ≤ 1) ∧
    ∀ project row, t.projects.get? project = some row →
      ∃ id, t.membersOf project row.ownerId = [(id, ⟨project, row.ownerId, .owner⟩)]

/-- What the memberships of projects with an owner are like between two requests. -/
structure Owned : Prop where
  unique : ∀ id id' m m', t.members.get? id = some m → t.members.get? id' = some m' →
    m.projectId = m'.projectId → m.userId = m'.userId → id = id'
  owner : ∀ project row, t.projects.get? project = some row →
    ∃ id, t.members.get? id = some ⟨project, row.ownerId, .owner⟩
  /-- The creator has no pending request. -/
  pending : ∀ id request row, t.requests.get? id = some request → request.status = .pending →
    t.projects.get? request.projectId = some row → request.userId ≠ row.ownerId
  ofMember : ∀ id m, t.members.get? id = some m → (t.projects.get? m.projectId).isSome
  ofRequest : ∀ id request, t.requests.get? id = some request →
    (t.projects.get? request.projectId).isSome

namespace Owned

variable {t} {t' : Store} (h : t.Owned)

include h

/-- Whoever the creator is not can get a new row, if they have none. -/
theorem insertMember {row : ProjectMember} {id : MemberId} (hid : t.members.get? id = none)
    (hproject : (t.projects.get? row.projectId).isSome)
    (hnone : t.membersOf row.projectId row.userId = []) (n : MemberId) :
    Owned { t with members := t.members.set id row, nextMember := n } where
  unique i j m m' hm hm' hp hu := by
    have hfresh := membersOf_eq_nil.1 hnone
    simp only [Dict.get?_set] at hm hm'
    split at hm <;> split at hm'
    · next hi hj => exact hi.trans hj.symm
    · cases hm
      exact absurd hu.symm (hfresh j m' hm' hp.symm)
    · cases hm'
      exact absurd hu (hfresh i m hm hp)
    · exact h.unique i j m m' hm hm' hp hu
  owner project p hp := by
    obtain ⟨i, hi⟩ := h.owner project p hp
    have hne : i ≠ id := by
      rintro rfl
      rw [hid] at hi
      cases hi
    exact ⟨i, (Dict.get?_set_of_ne hne).trans hi⟩
  pending := h.pending
  ofMember i m hm := by
    simp only [Dict.get?_set] at hm
    split at hm
    · cases hm
      exact hproject
    · exact h.ofMember i m hm
  ofRequest := h.ofRequest

/-- The role of whoever is not the creator can change. -/
theorem updateRole {id : MemberId} {m : ProjectMember} {row : Project} (role : Role)
    (hm : t.members.get? id = some m) (hrow : t.projects.get? m.projectId = some row)
    (hne : m.userId ≠ row.ownerId) :
    Owned { t with members := t.members.set id { m with role } } where
  unique i j a b ha hb hp hu := by
    -- the rows have the projects and the users they had
    have hold : ∀ k c, (t.members.set id { m with role }).get? k = some c →
        ∃ c', t.members.get? k = some c' ∧ c'.projectId = c.projectId ∧ c'.userId = c.userId := by
      intro k c hc
      rw [Dict.get?_set] at hc
      split at hc
      · next hk =>
        cases hc
        exact ⟨m, hk ▸ hm, rfl, rfl⟩
      · exact ⟨c, hc, rfl, rfl⟩
    obtain ⟨a', ha', hap, hau⟩ := hold i a ha
    obtain ⟨b', hb', hbp, hbu⟩ := hold j b hb
    exact h.unique i j a' b' ha' hb' (hap.trans (hp.trans hbp.symm)) (hau.trans (hu.trans hbu.symm))
  owner project p hp := by
    obtain ⟨i, hi⟩ := h.owner project p hp
    have hid : i ≠ id := by
      rintro rfl
      rw [hm] at hi
      cases hi
      rw [hrow] at hp
      cases hp
      exact hne rfl
    exact ⟨i, (Dict.get?_set_of_ne hid).trans hi⟩
  pending := h.pending
  ofMember i a ha := by
    rw [Dict.get?_set] at ha
    split at ha
    · cases ha
      exact h.ofMember id m hm
    · exact h.ofMember i a ha
  ofRequest := h.ofRequest

theorem deleteMember {id : MemberId} {m : ProjectMember} {row : Project}
    (hm : t.members.get? id = some m) (hrow : t.projects.get? m.projectId = some row)
    (hne : m.userId ≠ row.ownerId) : Owned { t with members := t.members.erase id } where
  unique i j a b ha hb := by
    rw [Dict.get?_erase] at ha hb
    split at ha
    · cases ha
    · split at hb
      · cases hb
      · exact h.unique i j a b ha hb
  owner project p hp := by
    obtain ⟨i, hi⟩ := h.owner project p hp
    have hid : i ≠ id := by
      rintro rfl
      rw [hm] at hi
      cases hi
      rw [hrow] at hp
      cases hp
      exact hne rfl
    exact ⟨i, (Dict.get?_erase_of_ne hid).trans hi⟩
  pending := h.pending
  ofMember i a ha := by
    rw [Dict.get?_erase] at ha
    split at ha
    · cases ha
    · exact h.ofMember i a ha
  ofRequest := h.ofRequest

/-- A request of whoever is not the creator, or one that is decided. -/
theorem setRequest {id : RequestId} (request : JoinRequest)
    (hproject : (t.projects.get? request.projectId).isSome)
    (hne : request.status = .pending → ∀ row, t.projects.get? request.projectId = some row →
      request.userId ≠ row.ownerId) (n : RequestId) :
    Owned { t with requests := t.requests.set id request, nextRequest := n } where
  unique := h.unique
  owner := h.owner
  pending i r row hr hp hrow := by
    simp only [Dict.get?_set] at hr
    split at hr
    · cases hr
      exact hne hp row hrow
    · exact h.pending i r row hr hp hrow
  ofMember := h.ofMember
  ofRequest i r hr := by
    simp only [Dict.get?_set] at hr
    split at hr
    · cases hr
      exact hproject
    · exact h.ofRequest i r hr

theorem decideRequest {id : RequestId} {request : JoinRequest} {status : JoinRequestStatus}
    (hrequest : t.requests.get? id = some request) (hstatus : status ≠ .pending)
    (decidedAt : Option Seconds) :
    Owned { t with requests := t.requests.set id { request with status, decidedAt } } :=
  h.setRequest { request with status, decidedAt } (h.ofRequest id request hrequest)
    (fun hp => absurd hp hstatus) t.nextRequest

/-- A new project comes with the membership of its creator. -/
theorem createProject {id : ProjectId} {m : MemberId} (user : UserId) (name : String)
    (hid : t.projects.get? id = none) (hm : t.members.get? m = none) (n : MemberId) :
    Owned { t with
      projects := t.projects.set id ⟨user, name⟩
      members := t.members.set m ⟨id, user, .owner⟩
      nextMember := n } where
  unique i j a b ha hb hp hu := by
    -- no row is of the project that was not there
    have hother : ∀ k c, t.members.get? k = some c → c.projectId ≠ id := by
      rintro k c hc rfl
      exact absurd hid (Option.isSome_iff_ne_none.1 (h.ofMember k c hc))
    simp only [Dict.get?_set] at ha hb
    split at ha <;> split at hb
    · next hi hj => exact hi.trans hj.symm
    · cases ha
      exact absurd hp.symm (hother j b hb)
    · cases hb
      exact absurd hp (hother i a ha)
    · exact h.unique i j a b ha hb hp hu
  owner project p hp := by
    simp only [Dict.get?_set] at hp
    split at hp
    · next hproject =>
      cases hp
      exact ⟨m, by simp [hproject]⟩
    · obtain ⟨i, hi⟩ := h.owner project p hp
      have hne : i ≠ m := by
        rintro rfl
        rw [hm] at hi
        cases hi
      exact ⟨i, (Dict.get?_set_of_ne hne).trans hi⟩
  pending i r row hr hp hrow := by
    simp only [Dict.get?_set] at hrow
    split at hrow
    · next hproject =>
      exact absurd (hproject ▸ hid) (Option.isSome_iff_ne_none.1 (h.ofRequest i r hr))
    · exact h.pending i r row hr hp hrow
  ofMember i a ha := by
    simp only [Dict.get?_set] at ha ⊢
    split at ha
    · cases ha
      simp
    · split
      · rfl
      · exact h.ofMember i a ha
  ofRequest i r hr := by
    simp only [Dict.get?_set]
    split
    · rfl
    · exact h.ofRequest i r hr

/-- A role given to whoever is not the creator. -/
theorem assignRole {project : ProjectId} {target : UserId} {role : Role} {row : Project}
    {member : Option (MemberId × ProjectMember)} (hrow : t.projects.get? project = some row)
    (hne : target ≠ row.ownerId) (hfound : t.Found project target member)
    (happly : applyAll (Access.assignRole project target role member) t = some t') :
    t'.Owned ∧ t'.projects = t.projects ∧ t'.requests = t.requests := by
  cases member with
  | none =>
    obtain ⟨u, hu, happly⟩ := Option.bind_eq_some_iff.1 happly
    obtain rfl := Option.some.inj happly
    obtain ⟨hid, hproject, -, rfl⟩ := apply_insertMember hu
    exact ⟨h.insertMember hid hproject hfound.none _, rfl, rfl⟩
  | some item =>
    obtain ⟨id, m⟩ := item
    simp only [Access.assignRole] at happly
    split at happly
    · obtain rfl := Option.some.inj happly
      exact ⟨h, rfl, rfl⟩
    · obtain ⟨u, hset, happly⟩ := Option.bind_eq_some_iff.1 happly
      obtain rfl := Option.some.inj happly
      obtain ⟨m', hm', rfl⟩ := apply_updateRole hset
      obtain ⟨hm, hp, hu⟩ := hfound.some
      obtain rfl := Option.some.inj (hm.symm.trans hm')
      have hproject : t.projects.get? m.projectId = some row := by
        rw [show m.projectId = project from hp]
        exact hrow
      have huser : m.userId ≠ row.ownerId := by
        rw [show m.userId = target from hu]
        exact hne
      exact ⟨h.updateRole role hm' hproject huser, rfl, rfl⟩

/-- What a request may commit keeps the creators' memberships. -/
theorem permitted {user : UserId} {ws : List Write} (hws : Permitted t user ws)
    (happly : applyAll ws t = some t') : t'.Owned := by
  cases hws with
  | createProject id name =>
    obtain ⟨u, hproject, happly⟩ := Option.bind_eq_some_iff.1 happly
    obtain ⟨v, hmember, happly⟩ := Option.bind_eq_some_iff.1 happly
    obtain ⟨w, hfile, happly⟩ := Option.bind_eq_some_iff.1 happly
    obtain rfl := Option.some.inj happly
    obtain ⟨hid, rfl⟩ := apply_insertProject hproject
    obtain ⟨hm, -, -, rfl⟩ := apply_insertMember hmember
    obtain rfl := apply_insertFile hfile
    obtain ⟨unique, owner, pending, ofMember, ofRequest⟩ := h.createProject user name hid hm
      (t.nextMember + 1)
    exact ⟨unique, owner, pending, ofMember, ofRequest⟩
  | requestToJoin project hmember =>
    obtain ⟨u, hu, happly⟩ := Option.bind_eq_some_iff.1 happly
    obtain rfl := Option.some.inj happly
    obtain ⟨-, hproject, rfl⟩ := apply_insertRequest hu
    refine h.setRequest _ hproject (fun _ row hrow => ?_) _
    -- the creator is a member, and a member is refused
    rintro rfl
    obtain ⟨i, hi⟩ := h.owner project row hrow
    exact membersOf_eq_nil.1 hmember.none i _ hi rfl rfl
  | approve project row request joinRequest role member decidedAt hproject howner hrequest hof
      hpending hmember =>
    rw [applyAll_append] at happly
    obtain ⟨u, hassign, happly⟩ := Option.bind_eq_some_iff.1 happly
    obtain ⟨v, hdecide, happly⟩ := Option.bind_eq_some_iff.1 happly
    obtain rfl := Option.some.inj happly
    obtain ⟨r, hr, rfl⟩ := apply_decide hdecide
    have hne : joinRequest.userId ≠ row.ownerId :=
      h.pending request joinRequest row hrequest hpending (hof ▸ hproject)
    obtain ⟨hu, -, -⟩ := h.assignRole hproject hne hmember hassign
    exact hu.decideRequest hr (by decide) _
  | reject project row request joinRequest decidedAt hproject howner hrequest hof =>
    obtain ⟨u, hu, happly⟩ := Option.bind_eq_some_iff.1 happly
    obtain rfl := Option.some.inj happly
    obtain ⟨r, hr, rfl⟩ := apply_decide hu
    exact h.decideRequest hr (by decide) _
  | assign project row target role member hproject howner htarget hmember =>
    exact (h.assignRole hproject htarget hmember happly).1
  | remove project row target member hproject howner htarget hmember =>
    obtain ⟨u, hu, happly⟩ := Option.bind_eq_some_iff.1 happly
    obtain rfl := Option.some.inj happly
    obtain rfl := Option.some.inj hu
    obtain ⟨hm, hp, huser⟩ := hmember.some
    exact h.deleteMember hm (hp ▸ hproject) (huser ▸ htarget)
  | invite project row token role expiresAt hproject hrank =>
    obtain ⟨u, hu, happly⟩ := Option.bind_eq_some_iff.1 happly
    obtain rfl := Option.some.inj happly
    obtain ⟨-, rfl⟩ := apply_insertInvitation hu
    exact ⟨h.unique, h.owner, h.pending, h.ofMember, h.ofRequest⟩
  | accept id inv row hinv hproject howner hmember =>
    obtain ⟨u, hu, happly⟩ := Option.bind_eq_some_iff.1 happly
    obtain ⟨v, hv, happly⟩ := Option.bind_eq_some_iff.1 happly
    obtain rfl := Option.some.inj happly
    obtain rfl := Option.some.inj hv
    obtain ⟨hid, hp, -, rfl⟩ := apply_insertMember hu
    obtain ⟨unique, owner, pending, ofMember, ofRequest⟩ := h.insertMember hid hp hmember
      (t.nextMember + 1)
    exact ⟨unique, owner, pending, ofMember, ofRequest⟩

theorem ownerKept : t.OwnerKept := by
  have hlength : ∀ project user, (t.membersOf project user).length ≤ 1 := by
    intro project user
    refine Dict.length_filter_le_one fun a ha b hb hpa hpb => ?_
    obtain ⟨hap, hau⟩ := of_decide_eq_true hpa
    obtain ⟨hbp, hbu⟩ := of_decide_eq_true hpb
    exact h.unique a.1 b.1 a.2 b.2 (Dict.mem_items_iff.1 ha) (Dict.mem_items_iff.1 hb)
      (hap.trans hbp.symm) (hau.trans hbu.symm)
  refine ⟨hlength, fun project row hrow => ?_⟩
  obtain ⟨id, hid⟩ := h.owner project row hrow
  refine ⟨id, ?_⟩
  have hmem : (id, ⟨project, row.ownerId, .owner⟩) ∈ t.membersOf project row.ownerId :=
    mem_membersOf.2 ⟨hid, rfl, rfl⟩
  obtain ⟨a, ha⟩ := List.length_eq_one_iff.1
    (Nat.le_antisymm (hlength project row.ownerId) (List.length_pos_of_mem hmem))
  rw [ha, List.mem_singleton] at hmem
  rw [ha, hmem]

end Owned

end Store

/-- A request keeps what the store knows about the creators. -/
theorem owned_of_outcome {t t' : Store} {user : UserId} (h : t.Owned) (hout : Outcome t user t') :
    t'.Owned := by
  obtain ⟨n, rfl | ⟨ws, hws, htx⟩⟩ := hout
  · exact ⟨h.unique, h.owner, h.pending, h.ofMember, h.ofRequest⟩
  · obtain ⟨u, hu, rfl⟩ := Store.transact_eq_some htx
    have hdrawn : (t.drawn n).Owned := ⟨h.unique, h.owner, h.pending, h.ofMember, h.ofRequest⟩
    obtain ⟨unique, owner, pending, ofMember, ofRequest⟩ := hdrawn.permitted hws hu
    exact ⟨unique, owner, pending, ofMember, ofRequest⟩

/-- **The owner keeps the project**, whatever requests the users make in whatever order. -/
theorem owner_keeps_project {text : PyText} {users : Dict UserId User} {uniqueMembers : Bool}
    {t : Store} (h : (requests text { users, uniqueMembers }).Reachable t) : t.OwnerKept := by
  have h0 : Store.Owned { users, uniqueMembers } :=
    { unique := fun _ _ _ _ h => nomatch h
      owner := fun _ _ h => nomatch h
      pending := fun _ _ _ h => nomatch h
      ofMember := fun _ _ h => nomatch h
      ofRequest := fun _ _ h => nomatch h }
  exact Store.Owned.ownerKept (h.induction (P := Store.Owned) h0 fun s l t _ hs _ ht =>
    owned_of_outcome hs (outcome_of_step ht))

/-- A member is made by an approval, mints an invitation, and both are added and removed. -/
theorem owner_keeps_project_shared : ∃ t, (requests .ascii fourUsers).Reachable t ∧
    t.members.items = [(1, ⟨1, 1, .owner⟩), (2, ⟨1, 2, .viewer⟩)] ∧ t.OwnerKept := by
  have hrun : ((requests .ascii fourUsers).replay System.anyStep fourUsers [
      (Request.createProject 1 "p").calm "",
      (Request.requestToJoin 2 1).calm "",
      (Request.approveJoinRequest 1 1 1 ⟨.editor, by decide⟩).calm "",
      (Request.createInvitation 2 1 .editor).calm "t",
      (Request.acceptInvitation 3 "t").calm "",
      (Request.addProjectMember 1 1 " 2 " .viewer).calm "",
      (Request.removeProjectMember 1 1 3).calm ""]).any
      (fun t => decide (t.members.items = [(1, ⟨1, 1, .owner⟩), (2, ⟨1, 2, .viewer⟩)])) = true := by
    decide +kernel
  obtain ⟨t, ht, hmembers⟩ := System.exists_reachable (T := requests .ascii fourUsers) hrun
  exact ⟨t, ht, of_decide_eq_true hmembers, owner_keeps_project ht⟩

end Concord.Access
