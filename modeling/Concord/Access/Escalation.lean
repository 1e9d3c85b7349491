import Concord.Access.Requests

/-!
# No privilege escalation without the creator

While the creator of a project makes no request, its memberships stay, and new ones come from
invitations. An invitation is minted by a member who is not the creator, for a role up to their own,
so the roles of the new members and of the outstanding invitations stay below one that a member other
than the creator or an invitation had at first.
-/

namespace Concord.Access

open Concord.Base

namespace Store

variable (t : Store) (project : ProjectId) (creator : UserId)

/-- The ranks of the members other than the creator and of the outstanding invitations. -/
def outsideRanks : List Nat :=
  (t.members.items.filter fun item =>
      item.2.projectId = project ∧ item.2.userId ≠ creator).map (·.2.role.rank) ++
    (t.invitations.items.filter fun item => item.2.projectId = project).map (·.2.role.rank)

/-- A role that the members other than the creator can pass on. -/
def Grantable (role : Role) : Prop := ∃ rank ∈ t.outsideRanks project creator, role.rank ≤ rank

/-- The memberships of `project` in `t` are those of `t₀`, and others with a role that was
grantable. -/
structure Guarded (t₀ t : Store) : Prop where
  owner : ∃ row, t.projects.get? project = some row ∧ row.ownerId = creator
  kept : ∀ id m, t₀.members.get? id = some m → m.projectId = project → t.members.get? id = some m
  member : ∀ id m, t.members.get? id = some m → m.projectId = project →
    t₀.members.get? id = some m ∨ t₀.Grantable project creator m.role
  invitation : ∀ id inv, t.invitations.get? id = some inv → inv.projectId = project →
    t₀.Grantable project creator inv.role

/-- A write that does not touch the memberships of `project`, or adds a grantable role. -/
def Harmless (t₀ t : Store) : Write → Prop
  | .insertMember row => row.projectId = project → t₀.Grantable project creator row.role
  | .updateRole id _ | .deleteMember id => ∀ m, t.members.get? id = some m → m.projectId ≠ project
  | .insertInvitation row => row.projectId = project → t₀.Grantable project creator row.role
  | _ => True

variable {t project creator} {t₀ t' : Store}

theorem Grantable.mono {role role' : Role} (h : t.Grantable project creator role)
    (hle : role'.rank ≤ role.rank) : t.Grantable project creator role' := by
  obtain ⟨rank, hmem, hrank⟩ := h
  exact ⟨rank, hmem, hle.trans hrank⟩

theorem grantable_of_member {id : MemberId} {m : ProjectMember} (hm : t.members.get? id = some m)
    (hp : m.projectId = project) (hu : m.userId ≠ creator) : t.Grantable project creator m.role := by
  refine ⟨m.role.rank, List.mem_append_left _ (List.mem_map.2 ⟨(id, m), ?_, rfl⟩), le_refl _⟩
  exact List.mem_filter.2 ⟨Dict.mem_items_iff.2 hm, by simp [hp, hu]⟩

theorem grantable_of_invitation {id : InvitationId} {inv : Invitation}
    (hinv : t.invitations.get? id = some inv) (hp : inv.projectId = project) :
    t.Grantable project creator inv.role := by
  refine ⟨inv.role.rank, List.mem_append_right _ (List.mem_map.2 ⟨(id, inv), ?_, rfl⟩), le_refl _⟩
  exact List.mem_filter.2 ⟨Dict.mem_items_iff.2 hinv, by simp [hp]⟩

namespace Guarded

theorem start {row : Project} (h : t.projects.get? project = some row) :
    Guarded project row.ownerId t t where
  owner := ⟨row, h, rfl⟩
  kept _ _ hm _ := hm
  member _ _ hm _ := .inl hm
  invitation _ _ hinv hp := grantable_of_invitation hinv hp

variable (h : Guarded project creator t₀ t)

include h

/-- What a member other than the creator has is grantable. -/
theorem grantable {id : MemberId} {m : ProjectMember} (hm : t.members.get? id = some m)
    (hp : m.projectId = project) (hu : m.userId ≠ creator) : t₀.Grantable project creator m.role := by
  rcases h.member id m hm hp with h0 | hgrant
  · exact grantable_of_member h0 hp hu
  · exact hgrant

theorem setMember (id : MemberId) (row : ProjectMember)
    (hid : ∀ m, t.members.get? id = some m → m.projectId ≠ project)
    (hrow : row.projectId = project → t₀.Grantable project creator row.role) (n : MemberId) :
    Guarded project creator t₀ { t with members := t.members.set id row, nextMember := n } where
  owner := h.owner
  kept i m hm hp := by
    have hold := h.kept i m hm hp
    have hne : i ≠ id := by
      rintro rfl
      exact hid m hold hp
    exact (Dict.get?_set_of_ne hne).trans hold
  member i m hm hp := by
    simp only [Dict.get?_set] at hm
    split at hm
    · cases hm
      exact .inr (hrow hp)
    · exact h.member i m hm hp
  invitation := h.invitation

/-- A harmless write keeps the memberships guarded. -/
theorem apply {w : Write} (hw : Harmless project creator t₀ t w) (happly : t.apply w = some t') :
    Guarded project creator t₀ t' := by
  cases w with
  | insertProject id row =>
    obtain ⟨hid, rfl⟩ := apply_insertProject happly
    obtain ⟨p, hp, howner⟩ := h.owner
    have hne : project ≠ id := by
      rintro rfl
      rw [hid] at hp
      cases hp
    exact ⟨⟨p, (Dict.get?_set_of_ne hne).trans hp, howner⟩, h.kept, h.member, h.invitation⟩
  | insertMember row =>
    obtain ⟨hid, -, -, rfl⟩ := apply_insertMember happly
    refine h.setMember _ row (fun m hm => ?_) hw _
    rw [hid] at hm
    cases hm
  | updateRole id role =>
    obtain ⟨m, hm, rfl⟩ := apply_updateRole happly
    exact h.setMember id { m with role } hw (fun hp => absurd hp (hw m hm))
      t.nextMember
  | deleteMember id =>
    obtain rfl := Option.some.inj happly
    refine ⟨h.owner, fun i m hm hp => ?_, fun i m hm hp => ?_, h.invitation⟩
    · have hold := h.kept i m hm hp
      have hne : i ≠ id := by
        rintro rfl
        exact hw m hold hp
      exact (Dict.get?_erase_of_ne hne).trans hold
    · simp only [Dict.get?_erase] at hm
      split at hm
      · cases hm
      · exact h.member i m hm hp
  | insertInvitation row =>
    obtain ⟨hid, rfl⟩ := apply_insertInvitation happly
    refine ⟨h.owner, h.kept, h.member, fun i inv hinv hp => ?_⟩
    simp only [Dict.get?_set] at hinv
    split at hinv
    · cases hinv
      exact hw hp
    · exact h.invitation i inv hinv hp
  | deleteInvitation id =>
    obtain rfl := Option.some.inj happly
    refine ⟨h.owner, h.kept, h.member, fun i inv hinv hp => ?_⟩
    simp only [Dict.get?_erase] at hinv
    split at hinv
    · cases hinv
    · exact h.invitation i inv hinv hp
  | insertRequest row =>
    obtain ⟨-, -, rfl⟩ := apply_insertRequest happly
    exact ⟨h.owner, h.kept, h.member, h.invitation⟩
  | decide id status decidedAt =>
    obtain ⟨row, -, rfl⟩ := apply_decide happly
    exact ⟨h.owner, h.kept, h.member, h.invitation⟩
  | insertFile project path language =>
    obtain rfl := apply_insertFile happly
    exact ⟨h.owner, h.kept, h.member, h.invitation⟩
  | insertFolder row =>
    obtain ⟨-, -, rfl⟩ := apply_insertFolder happly
    exact ⟨h.owner, h.kept, h.member, h.invitation⟩
  | updateFolder id name parent visits =>
    obtain ⟨row, -, -, rfl⟩ := apply_updateFolder happly
    exact ⟨h.owner, h.kept, h.member, h.invitation⟩
  | deleteFolders ids =>
    obtain rfl := Option.some.inj happly
    exact ⟨h.owner, h.kept, h.member, h.invitation⟩

theorem single (w : Write) (hw : Harmless project creator t₀ t w)
    (happly : Store.applyAll [w] t = some t') : Guarded project creator t₀ t' := by
  obtain ⟨u, hu, happly⟩ := Option.bind_eq_some_iff.1 happly
  obtain rfl := Option.some.inj happly
  exact h.apply hw hu

/-- A role given in another project. -/
theorem assignRole {other : ProjectId} {target : UserId} {role : Role}
    {member : Option (MemberId × ProjectMember)} (hother : other ≠ project)
    (hfound : t.Found other target member)
    (happly : Store.applyAll (Access.assignRole other target role member) t = some t') :
    Guarded project creator t₀ t' := by
  cases member with
  | none => exact h.single (.insertMember ⟨other, target, role⟩) (fun hp => absurd hp hother) happly
  | some item =>
    simp only [Access.assignRole] at happly
    split at happly
    · obtain rfl := Option.some.inj happly
      exact h
    · refine h.single (.updateRole item.1 role) (fun m hm => ?_) happly
      obtain ⟨hitem, hp, -⟩ := hfound.some
      obtain rfl := Option.some.inj (hitem.symm.trans hm)
      rw [hp]
      exact hother

/-- Only the creator can act on the project as its owner. -/
theorem other_of_owner {other : ProjectId} {row : Project} {user : UserId} (huser : user ≠ creator)
    (hrow : t.projects.get? other = some row) (howner : row.ownerId = user) : other ≠ project := by
  rintro rfl
  obtain ⟨row', hrow', hcreator⟩ := h.owner
  rw [hrow] at hrow'
  cases hrow'
  exact huser (howner.symm.trans hcreator)

/-- What a request of somebody else may commit keeps the memberships guarded. -/
theorem permitted {user : UserId} {ws : List Write} (huser : user ≠ creator)
    (hws : Permitted t user ws) (happly : Store.applyAll ws t = some t') :
    Guarded project creator t₀ t' := by
  cases hws with
  | createProject id name =>
    obtain ⟨u, hproject, happly⟩ := Option.bind_eq_some_iff.1 happly
    obtain ⟨v, hmember, happly⟩ := Option.bind_eq_some_iff.1 happly
    have hne : id ≠ project := by
      rintro rfl
      obtain ⟨row, hrow, -⟩ := h.owner
      rw [(apply_insertProject hproject).1] at hrow
      cases hrow
    have hu := h.apply (w := .insertProject id ⟨user, name⟩) trivial hproject
    have hv := hu.apply (w := .insertMember ⟨id, user, .owner⟩) (fun hp => absurd hp hne) hmember
    exact hv.single (.insertFile id "main.py" .python) trivial happly
  | requestToJoin other hmember =>
    exact h.single (.insertRequest _) trivial happly
  | approve other row request joinRequest role member decidedAt hproject howner hrequest hof hpending
      hmember =>
    rw [applyAll_append] at happly
    obtain ⟨u, hassign, happly⟩ := Option.bind_eq_some_iff.1 happly
    have hu := h.assignRole (h.other_of_owner huser hproject howner) hmember hassign
    exact hu.single (.decide request .approved decidedAt) trivial happly
  | reject other row request joinRequest decidedAt hproject howner hrequest hof =>
    exact h.single (.decide request .rejected decidedAt) trivial happly
  | assign other row target role member hproject howner htarget hmember =>
    exact h.assignRole (h.other_of_owner huser hproject howner) hmember happly
  | remove other row target member hproject howner htarget hmember =>
    refine h.single (.deleteMember member.1) (fun m hm => ?_) happly
    obtain ⟨hitem, hp, -⟩ := hmember.some
    obtain rfl := Option.some.inj (hitem.symm.trans hm)
    rw [hp]
    exact h.other_of_owner huser hproject howner
  | invite other row token role expiresAt hproject hrank =>
    refine h.single (.insertInvitation ⟨other, token, role, expiresAt⟩) (fun hp => ?_) happly
    obtain rfl : other = project := hp
    rcases hrank with howner | ⟨member, hmember, hrank⟩
    · exact absurd rfl (h.other_of_owner huser hproject howner)
    · obtain ⟨hm, hp, hu⟩ := hmember.some
      exact (h.grantable hm hp (hu ▸ huser)).mono hrank
  | accept id inv row hinv hproject howner hmember =>
    obtain ⟨u, hinsert, happly⟩ := Option.bind_eq_some_iff.1 happly
    have hu := h.apply (w := .insertMember ⟨inv.projectId, user, inv.role⟩)
      (fun hp => h.invitation id inv hinv hp) hinsert
    exact hu.single (.deleteInvitation id) trivial happly

end Guarded

end Store

/-- **No privilege escalation without the creator**: in any sequence of requests of other users the
memberships of the project stay as they are, and a new one has at most the highest rank that a member
other than the creator or an outstanding invitation had at the start. -/
theorem no_escalation {text : PyText} {t₀ t : Store} {project : ProjectId} {row : Project}
    (hrow : t₀.projects.get? project = some row)
    (h : (requests text t₀).Path (fun _ l => l.1.user ≠ row.ownerId) t₀ t) :
    (∀ id m, t₀.members.get? id = some m → m.projectId = project →
      t.members.get? id = some m) ∧
    ∀ id m, t.members.get? id = some m → m.projectId = project → t₀.members.get? id = none →
      ∃ top, (t₀.outsideRanks project row.ownerId).max? = some top ∧ m.role.rank ≤ top := by
  have hguard : Store.Guarded project row.ownerId t₀ t := by
    refine h.induction (P := Store.Guarded project row.ownerId t₀) (.start hrow) ?_
    rintro s l u hs huser hu
    obtain ⟨n, rfl | ⟨ws, hws, htx⟩⟩ := outcome_of_step hu
    · exact ⟨hs.owner, hs.kept, hs.member, hs.invitation⟩
    · obtain ⟨v, hv, rfl⟩ := Store.transact_eq_some htx
      have hdrawn : Store.Guarded project row.ownerId t₀ (s.drawn n) :=
        ⟨hs.owner, hs.kept, hs.member, hs.invitation⟩
      have hguard := hdrawn.permitted huser hws hv
      exact ⟨hguard.owner, hguard.kept, hguard.member, hguard.invitation⟩
  refine ⟨hguard.kept, fun id m hm hp hnew => ?_⟩
  rcases hguard.member id m hm hp with h0 | ⟨rank, hmem, hrank⟩
  · rw [hnew] at h0
    cases h0
  · obtain ⟨top, htop⟩ := Option.isSome_iff_exists.1 (List.isSome_max?_of_mem hmem)
    exact ⟨top, htop, hrank.trans ((List.max?_le_iff htop).1 le_rfl rank hmem)⟩

/-- An editor mints an invitation, and it makes an editor. -/
theorem no_escalation_shared : ∃ t : Store,
    t.members.get? 3 = some ⟨1, 3, .editor⟩ ∧
      ∃ top, (sharedProject.outsideRanks 1 1).max? = some top ∧ Role.editor.rank ≤ top := by
  have hrun : ((requests .ascii sharedProject).replay (fun _ l => l.1.user ≠ 1) sharedProject [
      (Request.createInvitation 2 1 .editor).calm "t",
      (Request.acceptInvitation 3 "t").calm ""]).any
      (fun t => decide (t.members.get? 3 = some ⟨1, 3, .editor⟩)) = true := by
    decide +kernel
  obtain ⟨t, ht, hm⟩ := (Option.any_eq_true _ _).1 hrun
  have hm := of_decide_eq_true hm
  have hrow : sharedProject.projects.get? 1 = some ⟨1, "p"⟩ := by decide
  have hguard := no_escalation hrow (System.path_of_replay ht)
  exact ⟨t, hm, hguard.2 3 _ hm rfl (by decide)⟩

end Concord.Access
