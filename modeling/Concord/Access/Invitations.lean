import Concord.Access.Rules

/-!
# An invitation admits at most one user

`accept_invitation` reads the invitation, inserts the membership and deletes the invitation in one
transaction, but its `DELETE` does not fail when the row has gone. Two users who have both read the
invitation before one of them commits are both admitted. If each commit finds the invitation that its
request has read, the token admits one user at most.
-/

namespace Concord.Access

open Concord.Base Async

/-- Any users accept the invitation with this token. -/
abbrev accepting (t₀ : Store) (token : String) :
    Machine Op (fun o => Except PyError o.Val) Env Store UserId (Except PyError Response) :=
  machine t₀ fun user => acceptInvitation user token

/-- The invitation that the write deletes, if it deletes one, is there. -/
def Store.stillInvites (t : Store) : Write → Bool
  | .deleteInvitation id => (t.invitations.get? id).isSome
  | _ => true

/-- The invitation that a request has read is still there when it commits. -/
abbrev stillInvited : Store → Pid → UserId → Op → Env → Prop :=
  Commits fun t w => t.stillInvites w = true

namespace Store

/-- From `t₀` to `t`, the token has admitted nobody and is there, or one user and has gone. -/
def Admitted (t₀ : Store) (token : String) (t : Store) : Prop :=
  t.members.items.length = t₀.members.items.length ∧ t.invitations = t₀.invitations ∨
    t.members.items.length = t₀.members.items.length + 1 ∧ t.invitationsOf token = [] ∧
      ∀ id inv, t.invitations.get? id = some inv → t₀.invitations.get? id = some inv

variable {t₀ t t' : Store} {token : String}

theorem mem_invitationsOf {item : InvitationId × Invitation} :
    item ∈ t.invitationsOf token ↔
      t.invitations.get? item.1 = some item.2 ∧ item.2.token = token := by
  simp [invitationsOf, ← Dict.mem_items_iff]

/-- A request that has read the only invitation with the token commits while it is there. -/
theorem Admitted.accept (h : Admitted t₀ token t) {item : InvitationId × Invitation}
    {row : ProjectMember} (hitem : t₀.invitationsOf token = [item])
    (hthere : (t.invitations.get? item.1).isSome)
    (htx : t.transact [.insertMember row, .deleteInvitation item.1] = some t') :
    Admitted t₀ token t' := by
  obtain ⟨u, hu, rfl⟩ := transact_eq_some htx
  obtain ⟨v, hv, hu⟩ := Option.bind_eq_some_iff.1 hu
  obtain rfl := Option.some.inj hu
  obtain ⟨hfresh, -, -, rfl⟩ := apply_insertMember hv
  obtain ⟨hget, htoken⟩ := mem_invitationsOf.1 (hitem ▸ List.mem_singleton_self item)
  rcases h with ⟨hlength, hinv⟩ | ⟨-, hnone, hold⟩
  · refine .inr ⟨?_, ?_, fun id inv hid => ?_⟩
    · have hset := Dict.items_set_of_not_mem (v := row) (Dict.get?_eq_none_iff.1 hfresh)
      simp [hset, hlength]
    · rw [List.eq_nil_iff_forall_not_mem]
      intro other hother
      obtain ⟨hother, htoken⟩ := mem_invitationsOf.1 hother
      simp only [Dict.get?_erase, hinv] at hother
      split at hother
      · cases hother
      · next hne =>
        have hmem : other ∈ t₀.invitationsOf token := mem_invitationsOf.2 ⟨hother, htoken⟩
        rw [hitem, List.mem_singleton] at hmem
        exact hne (congrArg Prod.fst hmem)
    · simp only [Dict.get?_erase, hinv] at hid
      split at hid
      · cases hid
      · exact hid
  · obtain ⟨inv, hinv⟩ := Option.isSome_iff_exists.1 hthere
    have hsame := hold item.1 inv hinv
    rw [hget] at hsame
    obtain rfl := Option.some.inj hsame
    have hmem : item ∈ t.invitationsOf token := mem_invitationsOf.2 ⟨hinv, htoken⟩
    rw [hnone] at hmem
    cases hmem

/-- Who finds the invitation finds the one there was. -/
theorem Admitted.found (h : Admitted t₀ token t) {item : InvitationId × Invitation}
    (hitem : t.invitationsOf token = [item]) : t₀.invitationsOf token = [item] := by
  rcases h with ⟨-, hinv⟩ | ⟨-, hnone, -⟩
  · rw [← hitem, invitationsOf, invitationsOf, hinv]
  · rw [hnone] at hitem
    cases hitem

end Store

/-- The invariant of the store, with nothing to know about the processes. -/
def admittedProtocol (t₀ : Store) (token : String) : Protocol (accepting t₀ token) Unit where
  Inv t _ := t₀.Admitted token t
  At _ _ _ _ := True
  ok := stillInvited

theorem acceptInvitation_admits (t₀ : Store) (token : String) (p : Pid) (user : UserId) :
    (admittedProtocol t₀ token).Steady p user () (acceptInvitation user token) := by
  unfold acceptInvitation
  have hat : ∀ o, (admittedProtocol t₀ token).At p user () o := fun _ => trivial
  have hselect : (admittedProtocol t₀ token).Triple p user () (await (.selectInvitation token))
      (fun found _ => ∀ item, found = some item → t₀.invitationsOf token = [item])
      fun _ g => g = () := by
    refine Triple.select (.selectInvitation token) (fun t => oneOrNone (t.invitationsOf token)) (hat _) (fun _ => rfl)
      (fun _ => rfl) fun t gs hinv _ found hfound => ⟨(), hinv, fun item hitem => ?_⟩
    exact hinv.found (oneOrNone_some (hitem ▸ hfound))
  refine (getCurrentUser_steady (fun o => hat _) user).bind fun _ => ?_
  refine Protocol.Triple.bind hselect fun found _ hfound => ?_
  refine Protocol.Triple.bind (Protocol.Triple.orRaise
    (Q := fun item _ => t₀.invitationsOf token = [item]) hfound fun _ => rfl) fun item _ hitem => ?_
  refine (Steady.now (hat _)).bind fun now => ?_
  refine (Protocol.Steady.require _ _).bind fun _ => ?_
  refine (requireProject_steady (fun o => hat _) _).bind fun row => ?_
  refine (Protocol.Steady.require _ _).bind fun _ => ?_
  refine (Steady.select (hat _) fun _ => rfl).bind fun member => ?_
  refine (Protocol.Steady.require _ _).bind fun _ => ?_
  refine (Steady.commit (hat _) fun env t gs hinv _ hok t' htx => ?_).bind fun _ => .pure _
  exact hinv.accept hitem (hok (.deleteInvitation item.1) (by simp)) htx

/-- **An invitation admits at most one user** in every run in which a request that commits still
finds the invitation it has read. -/
theorem invitation_admits_one {t₀ : Store} {token : String}
    {cfg : Config Op (fun o => Except PyError o.Val) Store UserId (Except PyError Response)}
    (h : (accepting t₀ token).system.ReachableUnder ((accepting t₀ token).guard stillInvited) cfg) :
    cfg.shared.members.items.length ≤ t₀.members.items.length + 1 := by
  have hinit : t₀.Admitted token t₀ := .inl ⟨rfl, rfl⟩
  obtain ⟨gs, hfits⟩ := (storeOutline (P := admittedProtocol t₀ token) hinit
    (fun _ _ _ _ => trivial) (acceptInvitation_admits t₀ token)).sound (fun _ _ _ hok => hok) h
  rcases hfits.1 with ⟨hlength, -⟩ | ⟨hlength, -⟩ <;> omega

/-- The shared project with an invitation to it. -/
def invitedProject : Store :=
  { sharedProject with invitations := .ofItems [(1, ⟨1, "t", .viewer, 100⟩)], nextInvitation := 2 }

/-- The second user comes when the first one has been admitted. -/
theorem invitation_admits_one_in_turn : ∃ cfg : Config Op (fun o => Except PyError o.Val) Store UserId
      (Except PyError Response),
    cfg.shared.members.items.length = 3 ∧
      cfg.shared.members.items.length ≤ invitedProject.members.items.length + 1 := by
  have hrun : ((accepting invitedProject "t").system.replay
      ((accepting invitedProject "t").guard stillInvited)
      (accepting invitedProject "t").system.init
      (.spawn 0 3 :: undisturbed 0 6 ++ .spawn 1 4 :: undisturbed 1 2)).any
      (fun cfg => cfg.shared.members.items.length = 3) = true := by
    decide +kernel
  obtain ⟨cfg, hcfg, hlength⟩ := System.exists_reachable hrun
  exact ⟨cfg, of_decide_eq_true hlength, invitation_admits_one hcfg⟩

/-- Both users have read the invitation before one of them commits, and both are admitted. -/
theorem invitation_admits_two :
    ¬∀ cfg, (accepting invitedProject "t").system.Reachable cfg →
      cfg.shared.members.items.length ≤ invitedProject.members.items.length + 1 := by
  have hrun : ((accepting invitedProject "t").system.replay System.anyStep
      (accepting invitedProject "t").system.init
      (.spawn 0 3 :: undisturbed 0 5 ++ .spawn 1 4 :: undisturbed 1 5 ++ undisturbed 0 1 ++
        undisturbed 1 1)).any
      (fun cfg => cfg.shared.members.items.length = 4) = true := by
    decide +kernel
  intro hone
  obtain ⟨cfg, hcfg, hlength⟩ := System.exists_reachable hrun
  have hle := hone cfg hcfg
  rw [of_decide_eq_true hlength] at hle
  exact absurd hle (by decide)

end Concord.Access
