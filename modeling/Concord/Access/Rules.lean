import Concord.Access.Endpoints
import Concord.Base.Outline

/-!
# Rules for the access endpoints

How the selects and the commits of interleaved requests enter a proof outline. Between two operations
of a request the store is whatever the other requests make of it; a select says something about the
store it is made in, and a commit is made in a store that meets the condition of the run.
-/

namespace Concord.Access

open Concord.Base Async

variable {t₀ : Store} {Req Resp G : Type} {body : Req → Py Resp} {P : Protocol (machine t₀ body) G}
  {p : Pid} {r : Req} {g : G} {α β : Type}

/-- A select, with what it finds. -/
theorem Triple.select (o : Op) (rows : Store → Except PyError o.Val) {Q : o.Val → G → Prop}
    {E : PyError → G → Prop} (hat : P.At p r g (some o)) (ho : ∀ t, o.select t = some (rows t))
    (hE : ∀ e, E e g)
    (hQ : ∀ t gs, P.Inv t gs → gs p = g → ∀ v, rows t = .ok v →
      ∃ g', P.Inv t (Function.update gs p g') ∧ Q v g') :
    P.Triple p r g (await o) Q E := by
  refine Protocol.Triple.call hat fun env t gs hinv hg _ x t' hx => ?_
  have hsame : P.Inv t (Function.update gs p g) := by
    rw [← hg, Function.update_eq_self]
    exact hinv
  have hx : o.exec env t = some (x, t') := hx
  rw [Op.exec_select (ho t)] at hx
  obtain ⟨rfl, rfl⟩ := Prod.mk.inj (Option.some.inj hx)
  split
  · cases hrows : rows t with
    | ok v => exact hQ t gs hinv hg v hrows
    | error e => exact ⟨g, hsame, hE e⟩
  · exact ⟨g, hsame, hE _⟩

/-- A select whose result does not matter. -/
theorem Steady.select {o : Op} (hat : P.At p r g (some o)) (ho : ∀ t, (o.select t).isSome) :
    P.Steady p r g (await o) := by
  refine Triple.select o (fun t => (o.select t).get (ho t)) hat (fun t => by simp)
    (fun _ => rfl) fun t gs hinv hg v _ => ⟨g, ?_, rfl⟩
  rw [← hg, Function.update_eq_self]
  exact hinv

/-- An operation that is not a statement of the session. -/
theorem Steady.outside {o : Op} (hat : P.At p r g (some o))
    (ho : ∀ env t x t', o.exec env t = some (x, t') → t' = t) : P.Steady p r g (await o) := by
  refine Protocol.Triple.call hat fun env t gs hinv hg _ x t' hx => ⟨g, ?_, ?_⟩
  · rw [← hg, Function.update_eq_self, ho env t x t' hx]
    exact hinv
  · cases x <;> rfl

theorem Steady.now (hat : P.At p r g (some .now)) : P.Steady p r g (await .now) :=
  Steady.outside hat fun _ _ _ _ h => by cases h; rfl

/-- A commit, in a store that meets the condition of the run. -/
theorem Triple.commit {ws : List Write} {Q : Option Nat → G → Prop} {E : PyError → G → Prop}
    (hat : P.At p r g (some (.commit ws))) (hE : E .database g)
    (h : ∀ env t gs, P.Inv t gs → gs p = g → P.ok t p r (.commit ws) env →
      ∀ t', t.transact ws = some t' →
        ∃ g', P.Inv t' (Function.update gs p g') ∧ E .database g' ∧
          Q (ws.findSome? t.newId?) g') :
    P.Triple p r g (await (.commit ws)) Q E := by
  refine Protocol.Triple.call hat fun env t gs hinv hg hok x t' hx => ?_
  rcases Op.exec_commit hx with ⟨htx, hres⟩ | ⟨rfl, rfl⟩
  · obtain ⟨g', hinv', herr, hval⟩ := h env t gs hinv hg hok t' htx
    rcases hres with rfl | rfl
    · exact ⟨g', hinv', hval⟩
    · exact ⟨g', hinv', herr⟩
  · refine ⟨g, ?_, hE⟩
    rw [← hg, Function.update_eq_self]
    exact hinv

/-- A commit that keeps the invariant with the ghost values as they are. -/
theorem Steady.commit {ws : List Write} (hat : P.At p r g (some (.commit ws)))
    (h : ∀ env t gs, P.Inv t gs → gs p = g → P.ok t p r (.commit ws) env →
      ∀ t', t.transact ws = some t' → P.Inv t' gs) : P.Steady p r g (await (.commit ws)) := by
  refine Triple.commit hat rfl fun env t gs hinv hg hok t' htx => ⟨g, ?_, rfl, rfl⟩
  rw [← hg, Function.update_eq_self]
  exact h env t gs hinv hg hok t' htx

section Parts

variable (hat : ∀ o, P.At p r g (some o))

include hat

theorem getCurrentUser_steady (user : UserId) : P.Steady p r g (getCurrentUser user) :=
  Protocol.Steady.bind (Steady.select (hat _) fun _ => rfl) fun found =>
    Protocol.Steady.orRaise found _

theorem requireProject_steady (project : ProjectId) : P.Steady p r g (requireProject project) :=
  Protocol.Steady.bind (Steady.select (hat _) fun _ => rfl) fun found =>
    Protocol.Steady.orRaise found _

theorem getOwnedProject_steady (project : ProjectId) (user : UserId) :
    P.Steady p r g (getOwnedProject project user) :=
  Protocol.Steady.bind (requireProject_steady hat project) fun _ =>
    Protocol.Steady.bind (Protocol.Steady.require _ _) fun _ => Protocol.Steady.pure _

end Parts

/-- The condition of a run in which every write meets `holds` in the store it is committed in. -/
def Commits (holds : Store → Write → Prop) (t : Store) (_ : Pid) (_ : Req) : Op → Env → Prop
  | .commit ws, _ => ∀ w ∈ ws, holds t w
  | _, _ => True

instance (holds : Store → Write → Prop) [∀ t w, Decidable (holds t w)] (t : Store) (p : Pid)
    (r : Req) : (o : Op) → (env : Env) → Decidable (Commits holds t p r o env)
  | .commit ws, _ => List.decidableBAll (holds t) ws
  | .getUser _, _ | .getProject _, _ | .getMember _, _ | .getFolder _, _ | .selectUser _, _
  | .selectMember _ _, _ | .selectMemberId _ _, _ | .selectPending _ _, _ | .selectRequest _ _, _
  | .selectInvitation _, _ | .selectSubfolders _, _ | .flushProject, _ | .now, _
  | .tokenUrlsafe, _ | .broadcast _ _, _ | .outOfRounds, _ => .isTrue trivial

/-- The outline of endpoints that keep an invariant of the store. -/
def storeOutline {P : Protocol (machine t₀ body) Unit} (hinit : P.Inv t₀ fun _ => ())
    (hat : ∀ p r g o, P.At p r g o) (hbody : ∀ p r, P.Steady p r () (body r)) : Outline P where
  idle := ()
  start _ _ := ()
  done _ _ _ _ := True
  init := hinit
  spawn _ _ _ _ hinv _ := hinv
  body p r := Protocol.Follows.mono (hbody p r) fun _ _ _ => trivial
  at_end _ _ _ _ _ := hat _ _ _ _

end Concord.Access
