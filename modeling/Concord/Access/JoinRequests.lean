import Concord.Access.Rules

/-!
# Join requests are decided once

`request_to_join`, `approve_join_request` and `reject_join_request` check what they have read and
commit later, with no conditional update and no lock. Two requests of one user can both find none
pending, and two decisions can both find the request pending. If what a request has found still holds
when it commits, each user has at most one pending request per project, each request is decided at
most once, and one that was rejected has given no membership.
-/

namespace Concord.Access

open Concord.Base Async

/-- The requests about joining. -/
inductive JoinCall
  | requestToJoin (user : UserId) (project : ProjectId)
  | approve (user : UserId) (project : ProjectId) (request : RequestId)
      (role : { role : Role // role ≠ .owner })
  | reject (user : UserId) (project : ProjectId) (request : RequestId)

def JoinCall.body : JoinCall → Py Response
  | requestToJoin user project => Access.requestToJoin user project
  | approve user project request role => approveJoinRequest user project request role
  | reject user project request => rejectJoinRequest user project request

/-- Any users ask to join, and any users decide. -/
abbrev joining (t₀ : Store) :
    Machine Op (fun o => Except PyError o.Val) Env Store JoinCall (Except PyError Response) :=
  machine t₀ JoinCall.body

/-- The write decides the join request. -/
def Write.decides (id : RequestId) : Write → Bool
  | .decide request _ _ => request == id
  | _ => false

/-- The write gives a membership or a role. -/
def Write.grants : Write → Bool
  | .insertMember _ | .updateRole _ _ => true
  | _ => false

namespace Store

/-- The transactions that have decided the join request. -/
def decisions (t : Store) (id : RequestId) : List (List Write) :=
  t.committed.filter fun ws => ws.any (Write.decides id)

/-- Each user has at most one pending request per project, each request has been decided at most
once, and no transaction has both decided a request that is rejected and given a membership. -/
structure DecidedOnce (t : Store) : Prop where
  pending : ∀ project user, (t.pendingOf project user).length ≤ 1
  once : ∀ id, (t.decisions id).length ≤ 1
  rejected : ∀ id row, t.requests.get? id = some row → row.status = .rejected →
    ∀ ws ∈ t.decisions id, ws.any Write.grants = false

/-- What the write rests on still holds: the user of a new request has no other one pending, and a
request that is decided is pending. -/
def stillHolds (t : Store) : Write → Bool
  | .insertRequest row => (t.pendingOf row.projectId row.userId).isEmpty
  | .decide id _ _ => (t.requests.get? id).any fun row => row.status = .pending
  | _ => true

end Store

/-- What a request has found out about join requests still holds when it commits. -/
abbrev stillPending : Store → Pid → JoinCall → Op → Env → Prop :=
  Commits fun t w => t.stillHolds w = true

namespace Store

/-- The join requests and their decisions, in a run that begins with none. -/
structure Decisions (t : Store) : Prop where
  unique : ∀ i j a b, t.requests.get? i = some a → t.requests.get? j = some b →
    a.status = .pending → b.status = .pending → a.projectId = b.projectId → a.userId = b.userId →
    i = j
  once : ∀ id, (t.decisions id).length ≤ 1
  settled : ∀ id, ∀ ws ∈ t.decisions id, ∃ row, t.requests.get? id = some row ∧
    row.status ≠ .pending ∧ (row.status = .rejected → ws.any Write.grants = false)

variable {t t' : Store}

theorem mem_pendingOf {project : ProjectId} {user : UserId} {item : RequestId × JoinRequest} :
    item ∈ t.pendingOf project user ↔ t.requests.get? item.1 = some item.2 ∧
      item.2.projectId = project ∧ item.2.userId = user ∧ item.2.status = .pending := by
  simp [pendingOf, ← Dict.mem_items_iff]

theorem decisions_append {id : RequestId} {ws : List Write}
    (h : t'.committed = t.committed ++ [ws]) :
    t'.decisions id = t.decisions id ++ if ws.any (Write.decides id) then [ws] else [] := by
  rw [decisions, h, List.filter_append, List.filter_cons, List.filter_nil]
  rfl

namespace Decisions

variable (h : t.Decisions)

include h

/-- A new request of a user who has none pending. -/
theorem inserted {row : JoinRequest} (hid : t.requests.get? t.nextRequest = none)
    (hnone : t.pendingOf row.projectId row.userId = [])
    (hrequests : t'.requests = t.requests.set t.nextRequest row)
    (hcommitted : t'.committed = t.committed ++ [[.insertRequest row]]) : t'.Decisions := by
  have hdecisions : ∀ id, t'.decisions id = t.decisions id := fun id => by
    rw [decisions_append hcommitted]
    simp [Write.decides]
  have hother : ∀ i a, t.requests.get? i = some a → a.status = .pending →
      a.projectId = row.projectId → a.userId ≠ row.userId := by
    intro i a ha hp hproject huser
    have hmem : (i, a) ∈ t.pendingOf row.projectId row.userId :=
      mem_pendingOf.2 ⟨ha, hproject, huser, hp⟩
    rw [hnone] at hmem
    cases hmem
  refine ⟨fun i j a b ha hb hpa hpb hproject huser => ?_, fun id => ?_, fun id ws hws => ?_⟩
  · rw [hrequests, Dict.get?_set] at ha hb
    split at ha <;> split at hb
    · next hi hj => exact hi.trans hj.symm
    · cases ha
      exact absurd huser.symm (hother j b hb hpb hproject.symm)
    · cases hb
      exact absurd huser (hother i a ha hpa hproject)
    · exact h.unique i j a b ha hb hpa hpb hproject huser
  · rw [hdecisions]
    exact h.once id
  · rw [hdecisions] at hws
    obtain ⟨old, hold, hsettled⟩ := h.settled id ws hws
    have hne : id ≠ t.nextRequest := by
      rintro rfl
      rw [hid] at hold
      cases hold
    exact ⟨old, by rw [hrequests, Dict.get?_set_of_ne hne, hold], hsettled⟩

/-- The decision of a pending request. -/
theorem decided {id : RequestId} {row : JoinRequest} (row' : JoinRequest) {ws : List Write}
    (hrow : t.requests.get? id = some row) (hpending : row.status = .pending)
    (hdecided : row'.status ≠ .pending) (hws : ∀ i, ws.any (Write.decides i) = (i == id))
    (hgrants : row'.status = .rejected → ws.any Write.grants = false)
    (hrequests : t'.requests = t.requests.set id row')
    (hcommitted : t'.committed = t.committed ++ [ws]) : t'.Decisions := by
  -- it has not been decided before
  have hnone : t.decisions id = [] := by
    rw [List.eq_nil_iff_forall_not_mem]
    intro old hold
    obtain ⟨row', hrow', hne, -⟩ := h.settled id old hold
    rw [hrow] at hrow'
    obtain rfl := Option.some.inj hrow'
    exact hne hpending
  refine ⟨fun i j a b ha hb hpa hpb hproject huser => ?_, fun i => ?_, fun i old hold => ?_⟩
  · rw [hrequests, Dict.get?_set] at ha hb
    split at ha
    · cases ha
      exact absurd hpa hdecided
    · split at hb
      · cases hb
        exact absurd hpb hdecided
      · exact h.unique i j a b ha hb hpa hpb hproject huser
  · rw [decisions_append hcommitted, hws]
    by_cases hi : i = id
    · simp [hi, hnone]
    · simp [hi, h.once i]
  · rw [decisions_append hcommitted, hws] at hold
    rw [hrequests]
    by_cases hi : i = id
    · subst hi
      rw [hnone] at hold
      simp only [beq_self_eq_true, if_true, List.nil_append, List.mem_singleton] at hold
      subst hold
      exact ⟨row', Dict.get?_set_self, hdecided, hgrants⟩
    · rw [if_neg (by simpa using hi), List.append_nil] at hold
      rw [Dict.get?_set_of_ne hi]
      exact h.settled i old hold

theorem decidedOnce : t.DecidedOnce where
  pending project user := by
    refine Dict.length_filter_le_one fun a ha b hb hpa hpb => ?_
    obtain ⟨hap, hau, has⟩ := of_decide_eq_true hpa
    obtain ⟨hbp, hbu, hbs⟩ := of_decide_eq_true hpb
    exact h.unique a.1 b.1 a.2 b.2 (Dict.mem_items_iff.1 ha) (Dict.mem_items_iff.1 hb) has hbs
      (hap.trans hbp.symm) (hau.trans hbu.symm)
  once := h.once
  rejected id row hrow hstatus ws hws := by
    obtain ⟨row', hrow', -, hgrants⟩ := h.settled id ws hws
    rw [hrow] at hrow'
    obtain rfl := Option.some.inj hrow'
    exact hgrants hstatus

end Decisions

theorem requests_of_assignRole {project : ProjectId} {target : UserId} {role : Role}
    {member : Option (MemberId × ProjectMember)}
    (h : applyAll (assignRole project target role member) t = some t') :
    t'.requests = t.requests := by
  cases member with
  | none =>
    obtain ⟨u, hu, h⟩ := Option.bind_eq_some_iff.1 h
    obtain rfl := Option.some.inj h
    obtain ⟨-, -, -, rfl⟩ := apply_insertMember hu
    rfl
  | some item =>
    simp only [assignRole] at h
    split at h
    · rw [← Option.some.inj h]
    · obtain ⟨u, hu, h⟩ := Option.bind_eq_some_iff.1 h
      obtain rfl := Option.some.inj h
      obtain ⟨m, -, rfl⟩ := apply_updateRole hu
      rfl

end Store

/-- The invariant of the store, with nothing to know about the processes. -/
def decisionProtocol (t₀ : Store) : Protocol (joining t₀) Unit where
  Inv t _ := t.Decisions
  At _ _ _ _ := True
  ok := stillPending

section Programs

variable {t₀ : Store} {p : Pid} {r : JoinCall}

theorem requestToJoin_decides (user : UserId) (project : ProjectId) :
    (decisionProtocol t₀).Steady p r () (requestToJoin user project) := by
  unfold requestToJoin
  have hat : ∀ o, (decisionProtocol t₀).At p r () o := fun _ => trivial
  refine (getCurrentUser_steady (fun o => hat _) user).bind fun current => ?_
  refine (requireProject_steady (fun o => hat _) project).bind fun _ => ?_
  refine (Steady.select (hat _) fun _ => rfl).bind fun member => ?_
  refine (Protocol.Steady.require _ _).bind fun _ => ?_
  refine (Steady.select (hat _) fun _ => rfl).bind fun pending => ?_
  refine (Protocol.Steady.require _ _).bind fun _ => ?_
  refine (Steady.commit (hat _) fun env t gs hinv _ hok t' htx => ?_).bind fun inserted => ?_
  · obtain ⟨u, hu, rfl⟩ := Store.transact_eq_some htx
    obtain ⟨v, hv, hu⟩ := Option.bind_eq_some_iff.1 hu
    obtain rfl := Option.some.inj hu
    obtain ⟨hid, -, rfl⟩ := Store.apply_insertRequest hv
    have hnone := hok _ List.mem_cons_self
    exact Store.Decisions.inserted hinv hid (List.isEmpty_iff.1 hnone) rfl rfl
  · refine (Protocol.Steady.orRaise _ _).bind fun id => ?_
    refine (Steady.select (hat _) fun _ => rfl).bind fun refreshed => ?_
    exact (Protocol.Steady.orRaise _ _).bind fun _ => .pure _

theorem getPendingRequest_decides (project : ProjectId) (request : RequestId) :
    (decisionProtocol t₀).Steady p r () (getPendingRequest project request) :=
  Protocol.Steady.bind (Steady.select trivial fun _ => rfl) fun _ =>
    Protocol.Steady.bind (Protocol.Steady.orRaise _ _) fun _ =>
      Protocol.Steady.bind (Protocol.Steady.require _ _) fun _ => .pure _

/-- A commit that decides a pending request, and may give a membership if it does not reject it. -/
theorem commit_decides (ws : List Write) (status : JoinRequestStatus) {request : RequestId}
    {decidedAt : Seconds} (hstatus : status ≠ .pending) (hgrants : status = .rejected → ws = [])
    (hdecides : ∀ i, ws.any (Write.decides i) = false)
    (hws : ∀ t t', Store.applyAll ws t = some t' → t'.requests = t.requests) :
    (decisionProtocol t₀).Steady p r ()
      (await (.commit (ws ++ [.decide request status decidedAt]))) := by
  refine Steady.commit trivial fun env t gs hinv _ hok t' htx => ?_
  obtain ⟨u, hu, rfl⟩ := Store.transact_eq_some htx
  rw [Store.applyAll_append] at hu
  obtain ⟨v, hv, hu⟩ := Option.bind_eq_some_iff.1 hu
  obtain ⟨w, hw, hu⟩ := Option.bind_eq_some_iff.1 hu
  obtain rfl := Option.some.inj hu
  obtain ⟨row, hrow, rfl⟩ := Store.apply_decide hw
  rw [hws t v hv] at hrow
  have hpending : row.status = .pending := by
    have hok := hok (.decide request status decidedAt) (by simp)
    simpa [Store.stillHolds, hrow] using hok
  refine Store.Decisions.decided hinv { row with status, decidedAt := some decidedAt } hrow hpending
    hstatus (fun i => ?_) (fun hrejected => ?_) ?_ rfl
  · rw [List.any_append, hdecides]
    simp [Write.decides, eq_comm]
  · rw [hgrants hrejected]
    rfl
  · rw [← hws t v hv]

theorem assignRole_decides_nothing {project : ProjectId} {target : UserId} {role : Role}
    {member : Option (MemberId × ProjectMember)} (i : RequestId) :
    (assignRole project target role member).any (Write.decides i) = false := by
  cases member with
  | none => rfl
  | some item =>
    simp only [assignRole]
    split <;> rfl

theorem approveJoinRequest_decides (user : UserId) (project : ProjectId) (request : RequestId)
    (role : { role : Role // role ≠ .owner }) :
    (decisionProtocol t₀).Steady p r () (approveJoinRequest user project request role) := by
  unfold approveJoinRequest
  have hat : ∀ o, (decisionProtocol t₀).At p r () o := fun _ => trivial
  refine (getCurrentUser_steady (fun o => hat _) user).bind fun _ => ?_
  refine (getOwnedProject_steady (fun o => hat _) project user).bind fun _ => ?_
  refine (getPendingRequest_decides project request).bind fun joinRequest => ?_
  refine (Steady.select (hat _) fun _ => rfl).bind fun member => ?_
  refine (Steady.now (hat _)).bind fun decidedAt => ?_
  refine (commit_decides _ .approved (by decide) (fun h => by cases h) assignRole_decides_nothing
    fun _ _ => Store.requests_of_assignRole).bind fun _ => ?_
  exact (Protocol.Steady.orRaise _ _).bind fun _ => .pure _

theorem rejectJoinRequest_decides (user : UserId) (project : ProjectId) (request : RequestId) :
    (decisionProtocol t₀).Steady p r () (rejectJoinRequest user project request) := by
  unfold rejectJoinRequest
  have hat : ∀ o, (decisionProtocol t₀).At p r () o := fun _ => trivial
  refine (getCurrentUser_steady (fun o => hat _) user).bind fun _ => ?_
  refine (getOwnedProject_steady (fun o => hat _) project user).bind fun _ => ?_
  refine (getPendingRequest_decides project request).bind fun joinRequest => ?_
  refine (Steady.now (hat _)).bind fun decidedAt => ?_
  refine (commit_decides [] .rejected (by decide) (fun _ => rfl) (fun _ => rfl) ?_).bind fun _ => ?_
  · rintro t t' h
    rw [← Option.some.inj h]
  · refine (Steady.select (hat _) fun _ => rfl).bind fun refreshed => ?_
    exact (Protocol.Steady.orRaise _ _).bind fun _ => .pure _

theorem joinCall_decides (r : JoinCall) : (decisionProtocol t₀).Steady p r () r.body := by
  cases r with
  | requestToJoin user project => exact requestToJoin_decides user project
  | approve user project request role => exact approveJoinRequest_decides user project request role
  | reject user project request => exact rejectJoinRequest_decides user project request

end Programs

/-- **Join requests are decided once** in every run in which what a request has found out about join
requests still holds when it commits. -/
theorem join_requests_decided_once {t₀ : Store}
    {cfg : Config Op (fun o => Except PyError o.Val) Store JoinCall (Except PyError Response)}
    (hpending : ∀ project user, (t₀.pendingOf project user).length ≤ 1)
    (hcommitted : t₀.committed = [])
    (h : (joining t₀).system.ReachableUnder ((joining t₀).guard stillPending) cfg) :
    cfg.shared.DecidedOnce := by
  have hdecisions : ∀ id, t₀.decisions id = [] := fun id => by rw [Store.decisions, hcommitted]; rfl
  have hinit : t₀.Decisions := by
    refine ⟨fun i j a b ha hb hpa hpb hproject huser => ?_, fun id => ?_, fun id ws hws => ?_⟩
    · have hone := hpending b.projectId b.userId
      have hmemi : (i, a) ∈ t₀.pendingOf b.projectId b.userId :=
        Store.mem_pendingOf.2 ⟨ha, hproject, huser, hpa⟩
      have hmemj : (j, b) ∈ t₀.pendingOf b.projectId b.userId :=
        Store.mem_pendingOf.2 ⟨hb, rfl, rfl, hpb⟩
      obtain ⟨x, hx⟩ :=
        List.length_eq_one_iff.1 (Nat.le_antisymm hone (List.length_pos_of_mem hmemi))
      rw [hx, List.mem_singleton] at hmemi hmemj
      exact congrArg Prod.fst (hmemi.trans hmemj.symm)
    · simp [hdecisions]
    · rw [hdecisions] at hws
      cases hws
  obtain ⟨gs, hfits⟩ := (storeOutline (P := decisionProtocol t₀) hinit (fun _ _ _ _ => trivial)
    fun p r => joinCall_decides r).sound (fun _ _ _ hok => hok) h
  exact Store.Decisions.decidedOnce hfits.1

/-- Two users ask, one after the other; one is approved and then the other is rejected. -/
theorem join_requests_decided_in_turn : ∃ cfg : Config Op (fun o => Except PyError o.Val) Store
      JoinCall (Except PyError Response),
    cfg.shared.requests.items.map (·.2.status) = [.approved, .rejected] ∧
      cfg.shared.DecidedOnce := by
  have hrun : ((joining sharedProject).system.replay ((joining sharedProject).guard stillPending)
      (joining sharedProject).system.init
      (List.flatten [.spawn 0 (.requestToJoin 3 1) :: undisturbed 0 6,
        .spawn 1 (.requestToJoin 4 1) :: undisturbed 1 6,
        .spawn 2 (.approve 1 1 1 ⟨.editor, by decide⟩) :: undisturbed 2 6,
        .spawn 3 (.reject 1 1 2) :: undisturbed 3 6])).any
      (fun cfg => cfg.shared.requests.items.map (·.2.status) = [.approved, .rejected]) = true := by
    decide +kernel
  obtain ⟨cfg, hcfg, hstatus⟩ := System.exists_reachable hrun
  have hpending : ∀ project user, (sharedProject.pendingOf project user).length ≤ 1 :=
    fun _ _ => Nat.zero_le 1
  exact ⟨cfg, of_decide_eq_true hstatus, join_requests_decided_once hpending rfl hcfg⟩

/-- A user asks twice at once, and has two requests; a request is approved and rejected at once, and
its user stays a member although it is rejected. -/
theorem join_requests_decided_twice :
    ¬(∀ cfg, (joining sharedProject).system.Reachable cfg →
        ∀ project user, (cfg.shared.pendingOf project user).length ≤ 1) ∧
      ¬(∀ cfg, (joining sharedProject).system.Reachable cfg →
        ∀ id, (cfg.shared.decisions id).length ≤ 1) ∧
      ¬∀ cfg, (joining sharedProject).system.Reachable cfg →
        ∀ id row, cfg.shared.requests.get? id = some row → row.status = .rejected →
          ∀ ws ∈ cfg.shared.decisions id, ws.any Write.grants = false := by
  have hask : ((joining sharedProject).system.replay System.anyStep
      (joining sharedProject).system.init
      (List.flatten [.spawn 0 (.requestToJoin 3 1) :: undisturbed 0 4,
        .spawn 1 (.requestToJoin 3 1) :: undisturbed 1 4, undisturbed 0 1, undisturbed 1 1])).any
      (fun cfg => (cfg.shared.pendingOf 1 3).length = 2) = true := by
    decide +kernel
  have hdecide : ((joining sharedProject).system.replay System.anyStep
      (joining sharedProject).system.init
      (List.flatten [.spawn 0 (.requestToJoin 3 1) :: undisturbed 0 6,
        .spawn 1 (.approve 1 1 1 ⟨.editor, by decide⟩) :: undisturbed 1 5,
        .spawn 2 (.reject 1 1 1) :: undisturbed 2 4, undisturbed 1 1, undisturbed 2 1])).any
      (fun cfg => cfg.shared.requests.get? 1 = some ⟨1, 3, .rejected, some 0⟩ ∧
        cfg.shared.decisions 1 = [[.insertMember ⟨1, 3, .editor⟩, .decide 1 .approved 0],
          [.decide 1 .rejected 0]]) = true := by
    decide +kernel
  obtain ⟨asked, hasked, htwo⟩ := System.exists_reachable hask
  obtain ⟨decided, hdecided, hboth⟩ := System.exists_reachable hdecide
  have htwo := of_decide_eq_true htwo
  obtain ⟨hrow, hlog⟩ := of_decide_eq_true hboth
  refine ⟨fun hone => ?_, fun honce => ?_, fun hrejected => ?_⟩
  · have hle := hone asked hasked 1 3
    omega
  · have hle := honce decided hdecided 1
    rw [hlog] at hle
    exact absurd hle (by decide)
  · have hnone := hrejected decided hdecided 1 _ hrow rfl _ (hlog ▸ List.mem_cons_self)
    exact absurd hnone (by decide)

end Concord.Access
