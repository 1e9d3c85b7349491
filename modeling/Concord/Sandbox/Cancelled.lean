import Concord.Sandbox.Runner
import Mathlib

/-!
# What a cancel leaves behind

A container can appear after the worker has looked for it, and be removed by several at once. When the worker raises
`ExecutionCancelled`, though, its thread has ended and no container is left (`cancelled_leaves_nothing`). The
workspace is deleted under a thread only if one of the worker's own calls to Docker has failed, and under a container
only if some call has (`workspace_removed_under`).
-/

namespace Concord.Sandbox

open Concord.Base Async

/-- What a process of the sandbox has done. -/
abbrev Entry := JournalEntry Op (fun o => Except Failure o.Val) State

/-- The sandbox with its journal. -/
abbrev SandboxConfig := Config Op (fun o => Except Failure o.Val) (State × List Entry) Request Ending

/-- A call to Docker that has failed, other than for a container that is not there. A limited wait fails when its time
is over. -/
def isTrouble : Call Op (fun o => Except Failure o.Val) → Bool
  | ⟨.run _, .error _⟩ => true
  | ⟨.wait _ none, .error e⟩ | ⟨.kill _, .error e⟩ | ⟨.logs _, .error e⟩ | ⟨.get _, .error e⟩
  | ⟨.remove _, .error e⟩ => e ≠ .notFound
  | _ => false

/-- Docker has failed. -/
def Troubled (l : List Entry) : Prop := ∃ e ∈ l, isTrouble e.call = true

/-- A call of process `p` has failed. -/
def TroubledBy (p : Pid) (l : List Entry) : Prop := ∃ e ∈ l, e.pid = p ∧ isTrouble e.call = true

/-- The containers are among the allowed ones. -/
def State.Within (st : State) (allowed : Kind → ContainerId → Prop) : Prop :=
  ∀ kind container, st.containers kind = some container → allowed kind container

/-- No container of the execution exists. -/
def State.Empty (st : State) : Prop := ∀ kind, st.containers kind = none

theorem TroubledBy.troubled {p : Pid} {l : List Entry} (h : TroubledBy p l) : Troubled l := by
  obtain ⟨e, he, -, htrouble⟩ := h
  exact ⟨e, he, htrouble⟩

theorem State.empty_of_within {st : State} {allowed : Kind → ContainerId → Prop} (h : st.Within allowed)
    (hnone : ∀ kind container, ¬allowed kind container) : st.Empty := by
  intro kind
  by_contra hsome
  obtain ⟨container, hcontainer⟩ := Option.ne_none_iff_exists'.1 hsome
  exact hnone kind container (h kind container hcontainer)

theorem State.Empty.within {st : State} (h : st.Empty) (allowed : Kind → ContainerId → Prop) : st.Within allowed := by
  intro kind container hcontainer
  rw [h kind] at hcontainer
  cases hcontainer

/-! ## Protocol -/

/-- What a process has to do with the sandbox. -/
inductive Role
  | outside
  /-- The worker, with no thread at work and no container; `working` tells that the workspace is there. -/
  | clear (working : Bool)
  /-- The worker, with a task. -/
  | tasked (kind : Kind)
  /-- The worker, when its task is done. -/
  | finished (allowed : Kind → ContainerId → Prop)
  /-- The worker, when a call of its own has failed. -/
  | aborted
  /-- The thread, with the container that it may have created. -/
  | busy (kind : Kind) (container : Option ContainerId)
  /-- The thread, when Docker has failed. -/
  | spoiled (kind : Kind)

/-- What is the case when `p` has the role. -/
def Role.Holds (p : Pid) (st : State) (l : List Entry) : Role → Prop
  | outside => True
  | clear working => st.worker = some p ∧ st.task.settled = true ∧ st.Empty ∧ (working = true → st.workspace = true)
  | tasked kind => st.worker = some p ∧ st.workspace = true ∧
      (st.task = .scheduled kind ∨ (∃ q, st.task = .running q kind) ∨ ∃ ending, st.task = .done kind ending)
  | finished allowed => st.worker = some p ∧ st.task.settled = true ∧ st.Within allowed
  | aborted => st.worker = some p ∧ TroubledBy p l
  | busy kind container => st.task = .running p kind ∧ st.Within fun _ c => container = some c
  | spoiled kind => st.task = .running p kind ∧ Troubled l

/-- What is always the case. -/
structure Shared (st : State) (l : List Entry) : Prop where
  unclaimed : st.worker = none → st.task = .absent ∧ st.workspace = true
  absent : st.task = .absent → st.Empty
  scheduled : ∀ kind, st.task = .scheduled kind → st.Empty
  done : ∀ kind ending, st.task = .done kind ending → st.Empty ∨ Troubled l
  built : ∀ result, st.task = .done .build (.ok result) → st.Empty
  ending : ∀ kind, st.task ≠ .done kind (.error .executionCancelled)
  removed : st.workspace = false →
    (st.task.settled = true ∨ ∃ p, st.worker = some p ∧ TroubledBy p l) ∧ (st.Empty ∨ Troubled l)

/-- The protocol of the sandbox. -/
def sandboxProtocol : Protocol sandbox.journaled Role where
  Inv s roles := Shared s.1 s.2 ∧ ∀ p, (roles p).Holds p s.1 s.2
  At _ _ _ _ := True
  ok _ _ _ _ _ := True

/-- Nothing but containers goes away. -/
structure Shrinks (st st' : State) : Prop where
  worker : st'.worker = st.worker
  task : st'.task = st.task
  workspace : st'.workspace = st.workspace
  containers : ∀ kind container, st'.containers kind = some container → st.containers kind = some container

section Shrinks

variable {p q : Pid} {role : Role} {st st' : State} {l l' : List Entry}

theorem Shrinks.refl (st : State) : Shrinks st st := ⟨rfl, rfl, rfl, fun _ _ h => h⟩

theorem Shrinks.empty (h : Shrinks st st') (hempty : st.Empty) : st'.Empty :=
  State.empty_of_within (fun kind container hcontainer => h.containers kind container hcontainer :
    st'.Within fun kind container => st.containers kind = some container) fun kind container hcontainer => by
      rw [hempty kind] at hcontainer
      cases hcontainer

theorem Troubled.mono (h : Troubled l) (hl : l <+: l') : Troubled l' := by
  obtain ⟨e, he, htrouble⟩ := h
  exact ⟨e, hl.subset he, htrouble⟩

theorem TroubledBy.mono (h : TroubledBy p l) (hl : l <+: l') : TroubledBy p l' := by
  obtain ⟨e, he, htrouble⟩ := h
  exact ⟨e, hl.subset he, htrouble⟩

theorem Role.Holds.shrink (h : role.Holds p st l) (hst : Shrinks st st') (hl : l <+: l') : role.Holds p st' l' := by
  cases role with
  | outside => trivial
  | clear working =>
    obtain ⟨hworker, hsettled, hempty, hworking⟩ := h
    exact ⟨hst.worker.trans hworker, hst.task ▸ hsettled, hst.empty hempty, hst.workspace ▸ hworking⟩
  | tasked kind =>
    obtain ⟨hworker, hworkspace, htask⟩ := h
    exact ⟨hst.worker.trans hworker, hst.workspace.trans hworkspace, hst.task ▸ htask⟩
  | finished allowed =>
    obtain ⟨hworker, hsettled, hwithin⟩ := h
    exact ⟨hst.worker.trans hworker, hst.task ▸ hsettled, fun kind container hc =>
      hwithin kind container (hst.containers kind container hc)⟩
  | aborted => exact ⟨hst.worker.trans h.1, h.2.mono hl⟩
  | busy kind container => exact ⟨hst.task.trans h.1, fun kind c hc => h.2 kind c (hst.containers kind c hc)⟩
  | spoiled kind => exact ⟨hst.task.trans h.1, h.2.mono hl⟩

theorem Shared.shrink (h : Shared st l) (hst : Shrinks st st') (hl : l <+: l') : Shared st' l' where
  unclaimed hworker := by
    rw [hst.task, hst.workspace]
    exact h.unclaimed (hst.worker ▸ hworker)
  absent htask := hst.empty (h.absent (hst.task ▸ htask))
  scheduled kind htask := hst.empty (h.scheduled kind (hst.task ▸ htask))
  done kind ending htask := (h.done kind ending (hst.task ▸ htask)).imp hst.empty fun htrouble => htrouble.mono hl
  built result htask := hst.empty (h.built result (hst.task ▸ htask))
  ending kind := hst.task ▸ h.ending kind
  removed hworkspace := by
    obtain ⟨hsettled, hempty⟩ := h.removed (hst.workspace ▸ hworkspace)
    rw [hst.task, hst.worker]
    exact ⟨hsettled.imp_right fun ⟨p, hp, htrouble⟩ => ⟨p, hp, htrouble.mono hl⟩,
      hempty.imp hst.empty fun htrouble => htrouble.mono hl⟩

end Shrinks

/-! ## Operations -/

/-- The operations after which no more containers are there, and the task and the workspace as before. -/
def Op.isCalm : Op → Bool
  | claim | createTask _ | removeWorkspace | begin | finish _ | run _ => false
  | _ => true

section Operations

variable {p : Pid} {env : Env} {st st' : State} {o : Op} {x : Except Failure o.Val}

theorem shrinks_without (st : State) (container : ContainerId) : Shrinks st (st.without container) :=
  ⟨rfl, rfl, rfl, fun _ _ h => (Option.filter_eq_some_iff.1 h).1⟩

theorem onContainer_cases {α : Type} {container : ContainerId} {a : α} {x : Except Failure α} {after : State}
    (h : Op.onContainer env st container a after = some (x, st')) :
    x = .ok a ∧ st' = after ∨
      (∃ e, x = .error e ∧ e ≠ .notFound ∧ e ≠ .executionCancelled) ∧ (st' = st ∨ st' = after) ∨
      x = .error .notFound ∧ st' = st ∧ st.holds container = false := by
  have hfailure : env.failure ≠ .notFound ∧ env.failure ≠ .executionCancelled := by
    unfold Env.failure
    split <;> exact ⟨by decide, by decide⟩
  unfold Op.onContainer at h
  split at h
  · split at h <;> obtain ⟨rfl, rfl⟩ := Prod.mk.inj (Option.some.inj h)
    · exact .inl ⟨rfl, rfl⟩
    · exact .inr (.inl ⟨⟨_, rfl, hfailure⟩, .inl rfl⟩)
    · exact .inr (.inl ⟨⟨_, rfl, hfailure⟩, .inr rfl⟩)
  · next hholds =>
    obtain ⟨rfl, rfl⟩ := Prod.mk.inj (Option.some.inj h)
    exact .inr (.inr ⟨rfl, rfl, Bool.not_eq_true _ ▸ hholds⟩)

theorem shrinks_of_calm (ho : o.isCalm = true) (h : o.perform p env st = some (x, st')) : Shrinks st st' := by
  have hcontainer : ∀ {α : Type} {container : ContainerId} {a : α} {x : Except Failure α} {after : State},
      Op.onContainer env st container a after = some (x, st') → Shrinks st after → Shrinks st st' := by
    intro α container a x after h hafter
    rcases onContainer_cases h with ⟨-, rfl⟩ | ⟨-, rfl | rfl⟩ | ⟨-, rfl, -⟩
    · exact hafter
    · exact .refl _
    · exact hafter
    · exact .refl _
  cases o with
  | claim | createTask | removeWorkspace | begin | finish | run => cases ho
  | outOfRounds => cases h
  | transition | cancelIsSet | taskDone | waitTask | monotonic =>
    obtain ⟨-, rfl⟩ := Prod.mk.inj (Option.some.inj h)
    exact .refl _
  | setCancel =>
    obtain ⟨-, rfl⟩ := Prod.mk.inj (Option.some.inj h)
    exact ⟨rfl, rfl, rfl, fun _ _ h => h⟩
  | waitFirst | gather | result | get | wait =>
    unfold Op.perform at h
    dsimp only at h
    split at h
    all_goals first | cases h; done | obtain ⟨-, rfl⟩ := Prod.mk.inj (Option.some.inj h); exact .refl _
  | kill container | logs container => exact hcontainer h (.refl _)
  | remove container => exact hcontainer h (shrinks_without st container)

/-- What a removal leaves. -/
theorem within_without {allowed : Kind → ContainerId → Prop} (h : st.Within allowed) (container : ContainerId) :
    (st.without container).Within fun kind c => allowed kind c ∧ c ≠ container := by
  intro kind c hc
  obtain ⟨hc, hne⟩ := Option.filter_eq_some_iff.1 hc
  exact ⟨h kind c hc, of_decide_eq_true hne⟩

theorem within_of_not_holds {allowed : Kind → ContainerId → Prop} (h : st.Within allowed) {container : ContainerId}
    (hgone : st.holds container = false) : st.Within fun kind c => allowed kind c ∧ c ≠ container := by
  intro kind c hc
  refine ⟨h kind c hc, ?_⟩
  rintro rfl
  unfold State.holds at hgone
  rw [Bool.or_eq_false_iff] at hgone
  cases kind with
  | exec => exact of_decide_eq_false hgone.1 hc
  | build => exact of_decide_eq_false hgone.2 hc

end Operations

/-! ## Rules -/

section Rules

variable {p : Pid} {r : Request} {role : Role} {o : Op} {Q : o.Val → Role → Prop} {E : Failure → Role → Prop}

/-- The rule of an operation. -/
theorem call_rule (h : ∀ env st l x st', Shared st l → role.Holds p st l → o.perform p env st = some (x, st') →
      ∀ l', l' = l ++ [⟨p, ⟨o, x⟩, st, st'⟩] → ∃ role', Shared st' l' ∧ role'.Holds p st' l' ∧
        (∀ q (other : Role), q ≠ p → other.Holds q st l → other.Holds q st' l') ∧ outcome Q E x role') :
    sandboxProtocol.Triple p r role (await o) Q E := by
  refine Protocol.Triple.call trivial fun env s roles hinv hrole _ x s' hexec => ?_
  obtain ⟨st, l⟩ := s
  obtain ⟨⟨y, st'⟩, hperform, hs'⟩ := Option.map_eq_some_iff.1 hexec
  obtain ⟨rfl, rfl⟩ := Prod.mk.inj hs'
  obtain ⟨role', hshared, hself, hothers, hout⟩ :=
    h env st l y st' hinv.1 (hrole ▸ hinv.2 p) hperform _ rfl
  refine ⟨role', ⟨hshared, fun q => ?_⟩, hout⟩
  by_cases hq : q = p
  · subst hq
    rw [Function.update_self]
    exact hself
  · rw [Function.update_of_ne hq]
    exact hothers q _ hq (hinv.2 q)

/-- The rule of an operation that is calm. -/
theorem calm_rule (ho : o.isCalm = true)
    (h : ∀ env st l x st', Shared st l → role.Holds p st l → o.perform p env st = some (x, st') →
      ∀ l', l' = l ++ [⟨p, ⟨o, x⟩, st, st'⟩] → role.Holds p st' l' →
        ∃ role', role'.Holds p st' l' ∧ outcome Q E x role') : sandboxProtocol.Triple p r role (await o) Q E := by
  refine call_rule fun env st l x st' hshared hrole hperform l' hl' => ?_
  have hshrinks := shrinks_of_calm ho hperform
  have hprefix : l <+: l' := ⟨_, hl'.symm⟩
  obtain ⟨role', hself, hout⟩ := h env st l x st' hshared hrole hperform l' hl' (hrole.shrink hshrinks hprefix)
  exact ⟨role', hshared.shrink hshrinks hprefix, hself, fun q other _ hother => hother.shrink hshrinks hprefix, hout⟩

/-- What a calm operation gives does not matter to the role. -/
theorem steady_rule (ho : o.isCalm = true) (hQ : ∀ v, Q v role)
    (hE : ∀ p env st st' e, o.perform p env st = some (.error e, st') → E e role) :
    sandboxProtocol.Triple p r role (await o) Q E := by
  refine calm_rule ho fun env st l x st' _ _ hperform l' _ hsame => ⟨role, hsame, ?_⟩
  cases x with
  | ok v => exact hQ v
  | error e => exact hE p env st st' e hperform

/-- Only `await task` can raise `ExecutionCancelled`. -/
theorem ne_cancelled {env : Env} {st st' : State} {e : Failure} (ho : o ≠ .result)
    (h : o.perform p env st = some (.error e, st')) : e ≠ .executionCancelled := by
  have hfailure : env.failure ≠ .executionCancelled := by
    unfold Env.failure
    split <;> decide
  have hcontainer : ∀ {α : Type} {container : ContainerId} {a : α} {after : State},
      Op.onContainer env st container a after = some (.error e, st') → e ≠ .executionCancelled := by
    intro α container a after h
    rcases onContainer_cases h with ⟨hx, -⟩ | ⟨⟨e', he', -, hne⟩, -⟩ | ⟨hx, -, -⟩
    · cases hx
    · cases he'
      exact hne
    · cases hx
      decide
  cases o with
  | result => exact absurd rfl ho
  | outOfRounds => cases h
  | cancelIsSet | createTask | taskDone | waitTask | removeWorkspace | monotonic | setCancel => cases h
  | waitFirst | gather | begin | finish | claim =>
    unfold Op.perform at h
    dsimp only at h
    split at h <;> cases h
  | transition | wait | get | run =>
    unfold Op.perform at h
    dsimp only at h
    split at h
    all_goals grind
  | kill | logs | remove => exact hcontainer h

/-- What a calm operation gives, or raises, does not matter to a condition on the role. -/
theorem keep_rule {I : Role → Prop} (ho : o.isCalm = true) (hresult : o ≠ .result) (h : I role) :
    sandboxProtocol.Triple p r role (await o) (fun _ g => I g) fun e g => e ≠ .executionCancelled ∧ I g :=
  steady_rule ho (fun _ => h) fun _ _ _ _ _ hperform => ⟨ne_cancelled hresult hperform, h⟩

end Rules

/-! ## The thread -/

/-- The thread has left no container, unless Docker has failed. -/
def Over (kind : Kind) (g : Role) : Prop := g = .busy kind none ∨ g = .spoiled kind

/-- The thread may have left the container. -/
def Late (kind : Kind) (container : ContainerId) (g : Role) : Prop := g = .busy kind (some container) ∨ Over kind g

/-- The container of a call that fails only if Docker does. -/
def Op.about? : Op → Option ContainerId
  | kill container | logs container | remove container | wait container none => some container
  | _ => none

section Thread

variable {p : Pid} {r : Request} {kind : Kind} {container : ContainerId} {g : Role} {o : Op}

theorem calm_of_about (h : o.about? = some container) : o.isCalm = true ∧ o ≠ .result := by
  cases o <;> first | cases h; done | exact ⟨rfl, by simp⟩

/-- The ways a call about a container can fail. -/
theorem about_cases {env : Env} {st st' : State} {e : Failure} (ho : o.about? = some container)
    (h : o.perform p env st = some (.error e, st')) :
    isTrouble ⟨o, .error e⟩ = true ∨ st' = st ∧ st.holds container = false := by
  have hcontainer : ∀ {α : Type} {a : α} {after : State},
      Op.onContainer env st container a after = some (.error e, st') →
        e ≠ .notFound ∨ st' = st ∧ st.holds container = false := by
    intro α a after h
    rcases onContainer_cases h with ⟨hx, -⟩ | ⟨⟨e', he', hne, -⟩, -⟩ | ⟨hx, hgone⟩
    · cases hx
    · cases he'
      exact .inl hne
    · exact .inr hgone
  cases o with
  | kill c | logs c | remove c =>
    cases ho
    exact (hcontainer h).imp_left fun hne => decide_eq_true hne
  | wait c timeout =>
    cases timeout with
    | some timeout => cases ho
    | none =>
      cases ho
      unfold Op.perform at h
      dsimp only at h
      split at h
      · cases h
      · obtain ⟨he, rfl⟩ := Prod.mk.inj (Option.some.inj h)
        obtain rfl := Except.error.inj he
        cases hholds : st.holds container with
        | false => exact .inr ⟨rfl, rfl⟩
        | true =>
          refine .inl (decide_eq_true ?_)
          unfold Env.failure
          rw [if_pos rfl]
          split <;> decide
  | _ => cases ho

/-- A call about the container of the thread. -/
theorem about_rule (ho : o.about? = some container) :
    sandboxProtocol.Triple p r (.busy kind (some container)) (await o) (fun _ g => g = .busy kind (some container))
      fun e g => e ≠ .executionCancelled ∧ Over kind g := by
  refine calm_rule (calm_of_about ho).1 fun env st l x st' _ hrole hperform l' hl' hsame => ?_
  cases x with
  | ok v => exact ⟨_, hsame, rfl⟩
  | error e =>
    have hne := ne_cancelled (calm_of_about ho).2 hperform
    rcases about_cases ho hperform with htrouble | ⟨rfl, hgone⟩
    · exact ⟨.spoiled kind, ⟨hsame.1, _, hl' ▸ List.mem_append_right _ List.mem_cons_self, htrouble⟩, hne, .inr rfl⟩
    · refine ⟨.busy kind none, ⟨hsame.1, fun k c hc => ?_⟩, hne, .inl rfl⟩
      obtain ⟨hsome, hother⟩ := within_of_not_holds hrole.2 hgone k c hc
      exact absurd (Option.some.inj hsome).symm hother

theorem late_rule (ho : o.about? = some container) (hg : Late kind container g) :
    sandboxProtocol.Triple p r g (await o) (fun _ g => Late kind container g)
      fun e g => e ≠ .executionCancelled ∧ Over kind g := by
  rcases hg with rfl | hover
  · exact (about_rule ho).mono (fun _ _ hg => .inl hg) fun _ _ hE => hE
  · exact (keep_rule (calm_of_about ho).1 (calm_of_about ho).2 hover).mono (fun _ _ hg => .inr hg) fun _ _ hE => hE

/-- The removal of the container. -/
theorem remove_rule :
    sandboxProtocol.Triple p r (.busy kind (some container)) (await (.remove container))
      (fun _ g => g = .busy kind none) fun e g => e ≠ .executionCancelled ∧ Over kind g := by
  refine calm_rule rfl fun env st l x st' _ hrole hperform l' hl' hsame => ?_
  have hgone : st'.Within (fun _ c => some container = some c ∧ c ≠ container) →
      (Role.busy kind none).Holds p st' l' := fun hwithin => ⟨hsame.1, fun k c hc => by
    obtain ⟨hsome, hother⟩ := hwithin k c hc
    exact absurd (Option.some.inj hsome).symm hother⟩
  rcases onContainer_cases hperform with ⟨rfl, rfl⟩ | ⟨⟨e, rfl, hne, hnc⟩, -⟩ | ⟨rfl, rfl, hholds⟩
  · exact ⟨_, hgone (within_without hrole.2 container), rfl⟩
  · have htrouble : isTrouble ⟨.remove container, .error e⟩ = true := decide_eq_true hne
    exact ⟨.spoiled kind, ⟨hsame.1, _, hl' ▸ List.mem_append_right _ List.mem_cons_self, htrouble⟩, hnc, .inr rfl⟩
  · exact ⟨_, hgone (within_of_not_holds hrole.2 hholds), by decide, .inl rfl⟩

theorem late_remove (hg : Late kind container g) :
    sandboxProtocol.Triple p r g (await (.remove container)) (fun _ g => Over kind g)
      fun e g => e ≠ .executionCancelled ∧ Over kind g := by
  rcases hg with rfl | hover
  · exact remove_rule.mono (fun _ _ hg => .inl hg) fun _ _ hE => hE
  · exact keep_rule rfl (by simp) hover

/-- Adding a container, while `p` is the thread at work. -/
structure Adds (st st' : State) : Prop where
  worker : st'.worker = st.worker
  task : st'.task = st.task
  workspace : st'.workspace = st.workspace

theorem Role.Holds.adds {q : Pid} {role : Role} {st st' : State} {l l' : List Entry} (h : role.Holds q st l)
    (hq : q ≠ p) (htask : st.task = .running p kind) (hst : Adds st st') (hl : l <+: l') : role.Holds q st' l' := by
  have hsettled : st.task.settled ≠ true := by simp [htask, Task.settled]
  have hother : ∀ kind', st.task ≠ .running q kind' := fun kind' hrunning => by
    rw [htask] at hrunning
    cases hrunning
    exact hq rfl
  cases role with
  | outside => trivial
  | clear working => exact absurd h.2.1 hsettled
  | tasked kind' => exact ⟨hst.worker.trans h.1, hst.workspace.trans h.2.1, hst.task ▸ h.2.2⟩
  | finished allowed => exact absurd h.2.1 hsettled
  | aborted => exact ⟨hst.worker.trans h.1, h.2.mono hl⟩
  | busy kind' container => exact absurd h.1 (hother kind')
  | spoiled kind' => exact absurd h.1 (hother kind')

theorem Shared.adds {st st' : State} {l l' : List Entry} (h : Shared st l) (htask : st.task = .running p kind)
    (hst : Adds st st') (hl : l <+: l') : Shared st' l' := by
  have htask' : st'.task = .running p kind := hst.task.trans htask
  refine ⟨fun hworker => ?_, fun hnone => ?_, fun _ hnone => ?_, fun _ _ hnone => ?_, fun _ hnone => ?_,
    fun _ hnone => ?_, fun hworkspace => ?_⟩
  · have hnone := (h.unclaimed (hst.worker ▸ hworker)).1
    cases htask.symm.trans hnone
  · cases htask'.symm.trans hnone
  · cases htask'.symm.trans hnone
  · cases htask'.symm.trans hnone
  · cases htask'.symm.trans hnone
  · cases htask'.symm.trans hnone
  · obtain ⟨hsettled | ⟨q, hq, htrouble⟩, -⟩ := h.removed (hst.workspace ▸ hworkspace)
    · rw [htask] at hsettled
      cases hsettled
    · exact ⟨.inr ⟨q, hst.worker.trans hq, htrouble.mono hl⟩, .inr (htrouble.mono hl).troubled⟩

/-- A new container. -/
theorem run_rule :
    sandboxProtocol.Triple p r (.busy kind none) (await (.run kind)) (fun c g => g = .busy kind (some c))
      fun e g => e ≠ .executionCancelled ∧ Over kind g := by
  refine call_rule fun env st l x st' hshared hrole hperform l' hl' => ?_
  have hl : l <+: l' := ⟨_, hl'.symm⟩
  have hempty : st.Empty := State.empty_of_within hrole.2 fun _ _ hnone => by cases hnone
  have hadds : Adds st st' ∧ (∀ c, x = .ok c → st'.Within fun _ c' => some c = some c') := by
    unfold Op.perform at hperform
    dsimp only at hperform
    split at hperform <;> obtain ⟨rfl, rfl⟩ := Prod.mk.inj (Option.some.inj hperform)
    · exact ⟨⟨rfl, rfl, rfl⟩, fun c hok => by cases hok⟩
    · exact ⟨⟨rfl, rfl, rfl⟩, fun c hok => by cases hok⟩
    · refine ⟨⟨rfl, rfl, rfl⟩, fun c hok k c' hc' => ?_⟩
      cases hok
      by_cases hk : k = kind
      · subst hk
        simpa [State.withNew] using hc'
      · simp [State.withNew, hk, hempty k] at hc'
    · exact ⟨⟨rfl, rfl, rfl⟩, fun c hok => by cases hok⟩
  have hothers : ∀ q (other : Role), q ≠ p → other.Holds q st l → other.Holds q st' l' :=
    fun q other hq hother => hother.adds hq hrole.1 hadds.1 hl
  have htask : st'.task = .running p kind := hadds.1.task.trans hrole.1
  cases x with
  | ok c => exact ⟨.busy kind (some c), hshared.adds hrole.1 hadds.1 hl, ⟨htask, hadds.2 c rfl⟩, hothers, rfl⟩
  | error e =>
    have htrouble : Troubled l' := ⟨_, hl' ▸ List.mem_append_right _ List.mem_cons_self, rfl⟩
    exact ⟨.spoiled kind, hshared.adds hrole.1 hadds.1 hl, ⟨htask, htrouble⟩, hothers,
      ne_cancelled (by simp) hperform, .inr rfl⟩

/-- A wait with a limit, whose failure says nothing. -/
theorem wait_rule {I : Role → Prop} (h : I g) (timeout : Nat) :
    sandboxProtocol.Triple p r g (await (.wait container (some timeout))) (fun _ g => I g) fun e g =>
      e ≠ .executionCancelled ∧ I g :=
  keep_rule rfl (by simp) h

theorem waitKilled_triple (h : Late kind container g) :
    sandboxProtocol.Triple p r g (waitKilled container) (fun _ g => Late kind container g)
      fun e g => e ≠ .executionCancelled ∧ Over kind g := by
  have hkill : sandboxProtocol.Triple p r g
      (tryExcept (await (.kill container)) Failure.isApiError fun _ => pure ()) (fun _ g => Late kind container g)
      fun e g => e ≠ .executionCancelled ∧ Over kind g :=
    (late_rule rfl h).tryExcept (fun _ _ _ hE => .pure (.inr hE.2)) fun _ _ _ hE => hE
  refine hkill.bind fun _ g hg => ?_
  refine Protocol.Triple.tryExcept ((wait_rule hg 2).bind fun code g hg => Protocol.Triple.pure hg)
    (fun _ _ _ hE => .pure hE.2) fun e g hup _ => ?_
  exact absurd (Eq.symm hup) Bool.false_ne_true

theorem captureLogs_triple (h : Late kind container g) :
    sandboxProtocol.Triple p r g (captureLogs container) (fun _ g => Late kind container g)
      fun e g => e ≠ .executionCancelled ∧ Over kind g := by
  refine (late_rule rfl h).attempt.bind fun stdout g hg => ?_
  cases stdout with
  | error e =>
    refine .ite (fun _ => ?_) fun _ => ?_
    · exact .pure (.inr hg.2)
    · exact .throw hg
  | ok stdout =>
    refine Protocol.Triple.bind (Protocol.Triple.tryExcept (late_rule (o := .logs container) rfl hg)
      (fun _ _ _ hE => .pure (.inr hE.2)) fun _ _ _ hE => hE) fun stderr g hg => Protocol.Triple.pure hg

/-- A run leaves its container only if Docker fails. -/
theorem runWithDir_triple (timeout : Nat) :
    sandboxProtocol.Triple p r (.busy .exec none) (runWithDir timeout) (fun _ g => Over .exec g)
      fun e g => e ≠ .executionCancelled ∧ Over .exec g := by
  have hstarted : sandboxProtocol.Triple p r (.busy .exec none) (await .monotonic) (fun _ g => g = .busy .exec none)
      fun e g => e ≠ .executionCancelled ∧ Over .exec g :=
    (keep_rule (I := (· = .busy .exec none)) rfl (by simp) rfl).mono (fun _ _ hg => hg) fun _ _ hE =>
      ⟨hE.1, .inl hE.2⟩
  refine hstarted.bind fun started g hg => ?_
  subst hg
  have hrun : sandboxProtocol.Triple p r (.busy .exec none)
      (tryExcept (await (.run .exec)) Failure.isApiError fun _ => throw .runtimeError)
      (fun c g => g = .busy .exec (some c)) fun e g => e ≠ .executionCancelled ∧ Over .exec g :=
    run_rule.tryExcept (fun _ _ _ hE => .throw ⟨by decide, hE.2⟩) fun _ _ _ hE => hE
  refine hrun.bind fun container g hg => ?_
  have hlate : Late .exec container g := .inl hg
  refine Protocol.Triple.bind (Q := fun _ g => Late .exec container g) ?_ fun exit g hg => ?_
  · refine Protocol.Triple.tryExcept ((wait_rule hlate timeout).bind fun code g hg => Protocol.Triple.pure hg)
      (fun e g _ hE => ?_) fun e g hup _ => absurd (Eq.symm hup) Bool.false_ne_true
    exact (waitKilled_triple hE.2).bind fun code g hg => .pure hg
  refine (captureLogs_triple hg).bind fun output g hg => ?_
  have hended : sandboxProtocol.Triple p r g (await .monotonic) (fun _ g => Late .exec container g)
      fun e g => e ≠ .executionCancelled ∧ Over .exec g :=
    steady_rule rfl (fun _ => hg) fun _ _ _ _ _ hperform => by cases hperform
  refine hended.bind fun ended g hg => ?_
  have hremove : sandboxProtocol.Triple p r g
      (tryExcept (await (.remove container)) Failure.isApiError fun _ => pure ()) (fun _ g => Over .exec g)
      fun e g => e ≠ .executionCancelled ∧ Over .exec g :=
    (late_remove hg).tryExcept (fun _ _ _ hE => .pure hE.2) fun _ _ _ hE => hE
  exact hremove.bind fun _ g hg => .pure hg

/-- A build that succeeds has removed its container. -/
theorem build_triple :
    sandboxProtocol.Triple p r (.busy .build none) build (fun _ g => g = .busy .build none)
      fun e g => e ≠ .executionCancelled ∧ Over .build g := by
  refine Protocol.Triple.tryExcept (E := fun e g => e ≠ .executionCancelled ∧ Over .build g) ?_
    (fun _ _ _ hE => .throw ⟨by decide, hE.2⟩) fun _ _ _ hE => hE
  refine run_rule.bind fun container g hg => ?_
  subst hg
  refine (about_rule rfl).bind fun code g hg => ?_
  subst hg
  refine .ite (fun _ => ?_) fun _ => remove_rule
  refine (about_rule rfl).bind fun _ g hg => ?_
  subst hg
  refine (about_rule rfl).bind fun _ g hg => ?_
  subst hg
  refine remove_rule.bind fun _ g hg => ?_
  exact .throw ⟨by decide, .inl hg⟩

/-- What a thread ends with. -/
def Ends (kind : Kind) (ending : Ending) (g : Role) : Prop :=
  ending ≠ .error .executionCancelled ∧ Over kind g ∧
    ∀ result, kind = .build → ending = .ok result → g = .busy .build none

theorem operation_triple (timeout : Nat) (kind : Kind) :
    sandboxProtocol.Triple p r (.busy kind none) (operation timeout kind)
      (fun result g => Ends kind (.ok result) g) fun e g => Ends kind (.error e) g := by
  have herror : ∀ {kind e g}, e ≠ Failure.executionCancelled ∧ Over kind g → Ends kind (.error e) g :=
    fun hE => ⟨fun hcancelled => hE.1 (Except.error.inj hcancelled), hE.2, fun result _ hok => by cases hok⟩
  cases kind with
  | exec =>
    refine ((runWithDir_triple timeout).mono (fun _ _ hg => hg) fun _ _ hE => herror hE).map fun result g hg => ?_
    exact ⟨by simp, hg, fun _ hkind => by cases hkind⟩
  | build =>
    refine (build_triple.mono (fun _ _ hg => hg) fun _ _ hE => herror hE).map fun result g hg => ?_
    exact ⟨by simp, .inl hg, fun _ _ _ => hg⟩

/-- Moving the task of a thread on. -/
theorem finish_rule {ending : Ending} (hends : Ends kind ending g) :
    sandboxProtocol.Triple p r g (await (.finish ending)) (fun _ _ => True) fun _ _ => True := by
  obtain ⟨hcancelled, hover, hbuilt⟩ := hends
  refine call_rule fun env st l x st' hshared hrole hperform l' hl' => ?_
  have hl : l <+: l' := ⟨_, hl'.symm⟩
  have htask : st.task = .running p kind := by
    rcases hover with rfl | rfl <;> exact hrole.1
  unfold Op.perform at hperform
  rw [htask] at hperform
  obtain ⟨rfl, rfl⟩ := Prod.mk.inj (Option.some.inj hperform)
  have hempty : st.Empty ∨ Troubled l' := by
    rcases hover with rfl | rfl
    · exact .inl (State.empty_of_within hrole.2 fun _ _ hnone => by cases hnone)
    · exact .inr (hrole.2.mono hl)
  refine ⟨.outside, ?_, trivial, fun q other hq hother => ?_, trivial⟩
  · refine ⟨fun hworker => ?_, fun hnone => ?_, fun _ hnone => ?_, fun _ _ hdone => ?_, fun result hdone => ?_,
      fun _ hdone => ?_, fun hworkspace => ⟨.inl rfl, hempty⟩⟩
    · cases htask.symm.trans (hshared.unclaimed hworker).1
    · cases hnone
    · cases hnone
    · exact hempty
    · obtain ⟨hkind, hending⟩ := Task.done.inj hdone
      have hg := hbuilt result hkind hending
      subst hg
      exact State.empty_of_within hrole.2 fun _ _ hnone => by cases hnone
    · exact hcancelled (Task.done.inj hdone).2
  · have hsettled : st.task.settled ≠ true := by simp [htask, Task.settled]
    have hrunning : ∀ kind', st.task ≠ .running q kind' := fun kind' hrunning => by
      cases htask.symm.trans hrunning
      exact hq rfl
    cases other with
    | outside => trivial
    | clear working => exact absurd hother.2.1 hsettled
    | tasked kind' =>
      obtain ⟨hworker, hworkspace, htasked⟩ := hother
      refine ⟨hworker, hworkspace, .inr (.inr ⟨ending, ?_⟩)⟩
      rcases htasked with hscheduled | ⟨q', hrunning'⟩ | ⟨ending', hdone⟩
      · cases htask.symm.trans hscheduled
      · cases htask.symm.trans hrunning'
        rfl
      · cases htask.symm.trans hdone
    | finished allowed => exact absurd hother.2.1 hsettled
    | aborted => exact ⟨hother.1, hother.2.mono hl⟩
    | busy kind' container => exact absurd hother.1 (hrunning kind')
    | spoiled kind' => exact absurd hother.1 (hrunning kind')

/-- A thread takes a task on. -/
theorem begin_rule :
    sandboxProtocol.Triple p r .outside (await .begin) (fun kind g => g = .busy kind none) fun _ _ => True := by
  refine call_rule fun env st l x st' hshared _ hperform l' hl' => ?_
  have hl : l <+: l' := ⟨_, hl'.symm⟩
  unfold Op.perform at hperform
  dsimp only at hperform
  split at hperform
  · next kind htask =>
    obtain ⟨rfl, rfl⟩ := Prod.mk.inj (Option.some.inj hperform)
    have hempty : st.Empty := hshared.scheduled kind htask
    refine ⟨.busy kind none, ?_, ⟨rfl, State.Empty.within hempty _⟩, fun q other hq hother => ?_, rfl⟩
    · refine ⟨fun hworker => ?_, fun hnone => ?_, fun _ hnone => ?_, fun _ _ hnone => ?_, fun _ hnone => ?_,
        fun _ hnone => ?_, fun hworkspace => ?_⟩
      · cases htask.symm.trans (hshared.unclaimed hworker).1
      · cases hnone
      · cases hnone
      · cases hnone
      · cases hnone
      · cases hnone
      · obtain ⟨hsettled | ⟨q, hq, htrouble⟩, -⟩ := hshared.removed hworkspace
        · rw [htask] at hsettled
          cases hsettled
        · exact ⟨.inr ⟨q, hq, htrouble.mono hl⟩, .inl hempty⟩
    · have hsettled : st.task.settled ≠ true := by simp [htask, Task.settled]
      cases other with
      | outside => trivial
      | clear working => exact absurd hother.2.1 hsettled
      | tasked kind' =>
        obtain ⟨hworker, hworkspace, htasked⟩ := hother
        refine ⟨hworker, hworkspace, .inr (.inl ⟨p, ?_⟩)⟩
        rcases htasked with hscheduled | ⟨q', hrunning'⟩ | ⟨ending', hdone⟩
        · cases htask.symm.trans hscheduled
          rfl
        · cases htask.symm.trans hrunning'
        · cases htask.symm.trans hdone
      | finished allowed => exact absurd hother.2.1 hsettled
      | aborted => exact ⟨hother.1, hother.2.mono hl⟩
      | busy kind' container => cases htask.symm.trans hother.1
      | spoiled kind' => cases htask.symm.trans hother.1
  · cases hperform

/-- What a thread of the pool does. -/
theorem thread_triple (timeout : Nat) :
    sandboxProtocol.Triple p r .outside (thread timeout) (fun _ _ => True) fun _ _ => True := by
  refine begin_rule.bind fun kind g hg => ?_
  subst hg
  exact (operation_triple timeout kind).attempt.bind fun ending g hends => finish_rule (by cases ending <;> exact hends)

end Thread

/-! ## The worker -/

/-- The worker has raised: if it is `ExecutionCancelled`, nothing is left. -/
def Raised (e : Failure) (g : Role) : Prop :=
  (∃ working, g = .clear working) ∨ e ≠ .executionCancelled ∧ ((∃ allowed, g = .finished allowed) ∨ g = .aborted)

section Worker

variable {p : Pid} {r : Request} {kind : Kind} {g : Role} {allowed : Kind → ContainerId → Prop} {o : Op}

/-- What the worker raises when a call of its own has failed. -/
theorem aborted_of_trouble {st : State} {l l' : List Entry} {c : Call Op fun o => Except Failure o.Val} {st' : State}
    (hworker : st'.worker = some p) (hl' : l' = l ++ [⟨p, c, st, st'⟩]) (htrouble : isTrouble c = true) :
    Role.aborted.Holds p st' l' :=
  ⟨hworker, _, hl' ▸ List.mem_append_right _ List.mem_cons_self, rfl, htrouble⟩

/-- Looking for a container, when the task is done. -/
theorem get_rule :
    sandboxProtocol.Triple p r (.finished allowed) (await (.get kind))
      (fun c g => g = .finished fun k c' => allowed k c' ∧ (k = kind → c' = c)) fun e g =>
        e = .notFound ∧ g = .finished (fun k c' => allowed k c' ∧ k ≠ kind) ∨
          e ≠ .notFound ∧ e ≠ .executionCancelled ∧ g = .aborted := by
  refine calm_rule rfl fun env st l x st' _ hrole hperform l' hl' hsame => ?_
  unfold Op.perform at hperform
  dsimp only at hperform
  split at hperform
  · next hnone =>
    obtain ⟨rfl, rfl⟩ := Prod.mk.inj (Option.some.inj hperform)
    refine ⟨.finished fun k c' => allowed k c' ∧ k ≠ kind,
      ⟨hsame.1, hsame.2.1, fun k c hc => ⟨hsame.2.2 k c hc, ?_⟩⟩, .inl ⟨rfl, rfl⟩⟩
    rintro rfl
    cases hnone.symm.trans hc
  · next container hcontainer =>
    obtain ⟨hx, rfl⟩ := Prod.mk.inj (Option.some.inj hperform)
    split at hx <;> subst hx
    · refine ⟨.finished fun k c' => allowed k c' ∧ (k = kind → c' = container),
        ⟨hsame.1, hsame.2.1, fun k c hc => ⟨hsame.2.2 k c hc, ?_⟩⟩, rfl⟩
      rintro rfl
      exact Option.some.inj (hc.symm.trans hcontainer)
    · have hne : env.failure ≠ .notFound ∧ env.failure ≠ .executionCancelled := by
        unfold Env.failure
        split <;> exact ⟨by decide, by decide⟩
      exact ⟨.aborted, aborted_of_trouble hsame.1 hl' (decide_eq_true hne.1), .inr ⟨hne.1, hne.2, rfl⟩⟩

/-- Removing a container, when the task is done. -/
theorem removeFound_rule (container : ContainerId) :
    sandboxProtocol.Triple p r (.finished allowed) (await (.remove container))
      (fun _ g => g = .finished fun k c => allowed k c ∧ c ≠ container) fun e g =>
        e = .notFound ∧ g = .finished (fun k c => allowed k c ∧ c ≠ container) ∨
          e ≠ .notFound ∧ e ≠ .executionCancelled ∧ g = .aborted := by
  refine calm_rule rfl fun env st l x st' _ hrole hperform l' hl' hsame => ?_
  rcases onContainer_cases hperform with ⟨rfl, rfl⟩ | ⟨⟨e, rfl, hne, hnc⟩, -⟩ | ⟨rfl, rfl, hholds⟩
  · exact ⟨.finished fun k c => allowed k c ∧ c ≠ container,
      ⟨hsame.1, hsame.2.1, within_without hrole.2.2 container⟩, rfl⟩
  · have htrouble : isTrouble ⟨.remove container, .error e⟩ = true := decide_eq_true hne
    exact ⟨.aborted, aborted_of_trouble hsame.1 hl' htrouble, .inr ⟨hne, hnc, rfl⟩⟩
  · exact ⟨.finished fun k c => allowed k c ∧ c ≠ container,
      ⟨hsame.1, hsame.2.1, within_of_not_holds hrole.2.2 hholds⟩, .inl ⟨rfl, rfl⟩⟩

/-- After a round of `kill_execution` no container has the name, when the task is done. -/
theorem killKind_finished :
    sandboxProtocol.Triple p r (.finished allowed) (killKind kind)
      (fun _ g => ∃ allowed', g = .finished allowed' ∧ ∀ k c, allowed' k c → allowed k c ∧ k ≠ kind) fun e g =>
        e ≠ .executionCancelled ∧ g = .aborted := by
  have hbody : sandboxProtocol.Triple p r (.finished allowed) (do
        let container ← await (.get kind)
        await (.remove container))
      (fun _ g => ∃ allowed', g = .finished allowed' ∧ ∀ k c, allowed' k c → allowed k c ∧ k ≠ kind) fun e g =>
        (∃ allowed', g = .finished allowed' ∧ ∀ k c, allowed' k c → allowed k c ∧ k ≠ kind) ∧ e = .notFound ∨
          e ≠ .notFound ∧ e ≠ .executionCancelled ∧ g = .aborted := by
    refine (get_rule.mono (fun _ _ hg => hg) fun e g hE => ?_).bind fun container g hg => ?_
    · rcases hE with ⟨rfl, rfl⟩ | haborted
      · exact .inl ⟨⟨_, rfl, fun k c hc => hc⟩, rfl⟩
      · exact .inr haborted
    · subst hg
      have hgone : ∀ k c, ((allowed k c ∧ (k = kind → c = container)) ∧ c ≠ container) → allowed k c ∧ k ≠ kind :=
        fun k c hc => ⟨hc.1.1, fun hkind => hc.2 (hc.1.2 hkind)⟩
      refine (removeFound_rule container).mono (fun _ g hg => ⟨_, hg, hgone⟩) fun e g hE => ?_
      rcases hE with ⟨rfl, rfl⟩ | haborted
      · exact .inl ⟨⟨_, rfl, hgone⟩, rfl⟩
      · exact .inr haborted
  refine hbody.tryExcept (fun e g hnotFound hE => ?_) fun e g hother hE => ?_
  · rcases hE with ⟨hgone, -⟩ | ⟨hne, -⟩
    · exact .pure hgone
    · exact absurd (of_decide_eq_true hnotFound) hne
  · rcases hE with ⟨-, rfl⟩ | ⟨-, haborted⟩
    · cases hother
    · exact haborted

/-- After `kill_execution` no container is left, when the task is done. -/
theorem killExecution_finished :
    sandboxProtocol.Triple p r (.finished allowed) killExecution
      (fun _ g => ∃ none, g = .finished none ∧ ∀ k c, ¬none k c) fun e g => e ≠ .executionCancelled ∧ g = .aborted := by
  refine killKind_finished.bind fun _ g hg => ?_
  obtain ⟨noExec, rfl, hexec⟩ := hg
  refine killKind_finished.mono (fun _ g hg => ?_) fun _ _ hE => hE
  obtain ⟨none, rfl, hbuild⟩ := hg
  refine ⟨none, rfl, fun k c hc => ?_⟩
  obtain ⟨hno, hkind⟩ := hbuild k c hc
  cases k with
  | exec => exact (hexec .exec c hno).2 rfl
  | build => exact hkind rfl

/-- A call of the worker's own, while its task goes on. -/
theorem tasked_rule (hcalm : o.isCalm = true) (hresult : o ≠ .result)
    (htrouble : ∀ e, e ≠ Failure.notFound → isTrouble ⟨o, .error e⟩ = true) :
    sandboxProtocol.Triple p r (.tasked kind) (await o) (fun _ g => g = .tasked kind) fun e g =>
      e = .notFound ∧ g = .tasked kind ∨ e ≠ .notFound ∧ e ≠ .executionCancelled ∧ g = .aborted := by
  refine calm_rule hcalm fun env st l x st' _ hrole hperform l' hl' hsame => ?_
  cases x with
  | ok v => exact ⟨_, hsame, rfl⟩
  | error e =>
    by_cases hnotFound : e = .notFound
    · exact ⟨_, hsame, .inl ⟨hnotFound, rfl⟩⟩
    · exact ⟨.aborted, aborted_of_trouble hsame.1 hl' (htrouble e hnotFound),
        .inr ⟨hnotFound, ne_cancelled hresult hperform, rfl⟩⟩

theorem killKind_tasked (which : Kind) :
    sandboxProtocol.Triple p r (.tasked kind) (killKind which) (fun _ g => g = .tasked kind) fun e g =>
      e ≠ .executionCancelled ∧ g = .aborted := by
  have hbody : sandboxProtocol.Triple p r (.tasked kind) (do
        let container ← await (.get which)
        await (.remove container)) (fun _ g => g = .tasked kind) fun e g =>
      e = .notFound ∧ g = .tasked kind ∨ e ≠ .notFound ∧ e ≠ .executionCancelled ∧ g = .aborted := by
    have hget : ∀ e, e ≠ Failure.notFound → isTrouble ⟨.get which, .error e⟩ = true := fun e he => decide_eq_true he
    refine (tasked_rule rfl (by simp) hget).bind fun container g hg => ?_
    subst hg
    have hremove : ∀ e, e ≠ Failure.notFound → isTrouble ⟨.remove container, .error e⟩ = true :=
      fun e he => decide_eq_true he
    exact tasked_rule rfl (by simp) hremove
  refine hbody.tryExcept (fun e g hnotFound hE => ?_) fun e g hother hE => ?_
  · rcases hE with ⟨-, hg⟩ | ⟨hne, -⟩
    · exact .pure hg
    · exact absurd (of_decide_eq_true hnotFound) hne
  · rcases hE with ⟨rfl, -⟩ | ⟨-, haborted⟩
    · cases hother
    · exact haborted

theorem killExecution_tasked :
    sandboxProtocol.Triple p r (.tasked kind) killExecution (fun _ g => g = .tasked kind) fun e g =>
      e ≠ .executionCancelled ∧ g = .aborted := by
  refine (killKind_tasked .exec).bind fun _ g hg => ?_
  subst hg
  exact killKind_tasked .build

/-- Looking whether the task is done. -/
theorem taskDone_rule {E : Failure → Role → Prop} :
    sandboxProtocol.Triple p r (.tasked kind) (await .taskDone)
      (fun done g => g = if done then .finished fun _ _ => True else .tasked kind) E := by
  refine calm_rule rfl fun env st l x st' _ hrole hperform l' hl' hsame => ?_
  obtain ⟨rfl, rfl⟩ := Prod.mk.inj (Option.some.inj hperform)
  cases hdone : st.task.isDone with
  | false => exact ⟨_, hsame, rfl⟩
  | true =>
    refine ⟨.finished fun _ _ => True, ⟨hsame.1, ?_, fun _ _ _ => trivial⟩, rfl⟩
    cases htask : st.task <;> rw [htask] at hdone <;> first | rfl | cases hdone

/-- The loop ends when the task is done. -/
theorem killUntilDone_triple (rounds : Nat) :
    sandboxProtocol.Triple p r (.tasked kind) (killUntilDone rounds) (fun _ g => g = .finished fun _ _ => True)
      fun e g => e ≠ .executionCancelled ∧ g = .aborted := by
  induction rounds with
  | zero =>
    refine taskDone_rule.bind fun done g hg => ?_
    cases done with
    | true => exact .pure hg
    | false => exact Protocol.Triple.call trivial fun _ _ _ _ _ _ _ _ hexec => by cases hexec
  | succ rounds ih =>
    refine taskDone_rule.bind fun done g hg => ?_
    cases done with
    | true => exact .pure hg
    | false =>
      subst hg
      refine killExecution_tasked.bind fun _ g hg => ?_
      subst hg
      have hwait : sandboxProtocol.Triple p r (.tasked kind) (await .waitTask) (fun _ g => g = .tasked kind)
          fun e g => e ≠ .executionCancelled ∧ g = .aborted :=
        steady_rule rfl (fun _ => rfl) fun _ _ _ _ _ hperform => by cases hperform
      refine hwait.bind fun _ g hg => ?_
      subst hg
      exact ih

/-- Creating the task. -/
theorem createTask_rule {E : Failure → Role → Prop} (kind : Kind) :
    sandboxProtocol.Triple p r (.clear true) (await (.createTask kind)) (fun _ g => g = .tasked kind) E := by
  refine call_rule fun env st l x st' hshared hrole hperform l' hl' => ?_
  obtain ⟨rfl, rfl⟩ := Prod.mk.inj (Option.some.inj hperform)
  obtain ⟨hworker, hsettled, hempty, hworking⟩ := hrole
  have hworkspace := hworking rfl
  refine ⟨.tasked kind, ?_, ⟨hworker, hworkspace, .inl rfl⟩, fun q other hq hother => ?_, rfl⟩
  · refine ⟨fun hnone => ?_, fun hnone => ?_, fun _ _ => hempty, fun _ _ hnone => ?_, fun _ hnone => ?_,
      fun _ hnone => ?_, fun hgone => ?_⟩
    · cases hworker.symm.trans hnone
    · cases hnone
    · cases hnone
    · cases hnone
    · cases hnone
    · cases hworkspace.symm.trans hgone
  · -- there is only one worker, and no thread at work
    have hme : st.worker ≠ some q := fun hother => hq (Option.some.inj (hother.symm.trans hworker))
    cases other with
    | outside => trivial
    | clear working => exact absurd hother.1 hme
    | tasked kind' => exact absurd hother.1 hme
    | finished allowed => exact absurd hother.1 hme
    | aborted => exact absurd hother.1 hme
    | busy kind' container =>
      rw [hother.1] at hsettled
      cases hsettled
    | spoiled kind' =>
      rw [hother.1] at hsettled
      cases hsettled

/-- Waiting for the task. A build that has succeeded has left nothing. -/
theorem result_rule :
    sandboxProtocol.Triple p r (.tasked kind) (await .result)
      (fun _ g => if kind = .build then g = .clear true else ∃ allowed, g = .finished allowed) Raised := by
  refine calm_rule rfl fun env st l x st' hshared hrole hperform l' hl' hsame => ?_
  unfold Op.perform at hperform
  dsimp only at hperform
  split at hperform
  · next kind' ending htask =>
    obtain ⟨rfl, rfl⟩ := Prod.mk.inj (Option.some.inj hperform)
    obtain ⟨hworker, hworkspace, htasked⟩ := hrole
    have hsettled : st.task.settled = true := by rw [htask]; rfl
    have hfinished : (Role.finished fun _ _ => True).Holds p st l' := ⟨hworker, hsettled, fun _ _ _ => trivial⟩
    cases ending with
    | error e =>
      refine ⟨_, hfinished, .inr ⟨fun hcancelled => ?_, .inl ⟨_, rfl⟩⟩⟩
      exact hshared.ending kind' (hcancelled ▸ htask)
    | ok result =>
      have hkind : kind' = kind := by
        rcases htasked with hscheduled | ⟨q, hrunning⟩ | ⟨ending, hdone⟩
        · cases htask.symm.trans hscheduled
        · cases htask.symm.trans hrunning
        · exact (Task.done.inj (htask.symm.trans hdone)).1
      subst hkind
      cases kind' with
      | build => exact ⟨.clear true, ⟨hworker, hsettled, hshared.built result htask, fun _ => hworkspace⟩, rfl⟩
      | exec => exact ⟨_, hfinished, _, rfl⟩
  · cases hperform

/-- `gather` after the last `kill_execution`: the worker has nothing left. -/
theorem gather_rule {E : Failure → Role → Prop} (hnone : ∀ k c, ¬allowed k c) :
    sandboxProtocol.Triple p r (.finished allowed) (await .gather) (fun _ g => g = .clear false) E := by
  refine calm_rule rfl fun env st l x st' _ _ hperform l' _ hsame => ?_
  unfold Op.perform at hperform
  dsimp only at hperform
  split at hperform
  · obtain ⟨rfl, rfl⟩ := Prod.mk.inj (Option.some.inj hperform)
    have hempty := State.empty_of_within hsame.2.2 hnone
    exact ⟨.clear false, ⟨hsame.1, hsame.2.1, hempty, fun hfalse => by cases hfalse⟩, rfl⟩
  · cases hperform

theorem runCancellable_triple (rounds : Nat) (kind : Kind) :
    sandboxProtocol.Triple p r (.clear true) (runCancellable rounds kind)
      (fun _ g => if kind = .build then g = .clear true else ∃ allowed, g = .finished allowed) Raised := by
  have hset : ∀ {g : Role}, sandboxProtocol.Triple p r g (await .cancelIsSet) (fun _ g' => g' = g) Raised :=
    steady_rule rfl (fun _ => rfl) fun _ _ _ _ _ hperform => by cases hperform
  refine hset.bind fun cancelled g hg => ?_
  subst hg
  refine Protocol.Triple.bind (Protocol.Triple.require (Q := fun _ g => g = .clear true) (fun _ => rfl) fun _ =>
    .inl ⟨_, rfl⟩) fun _ g hg => ?_
  subst hg
  refine (createTask_rule kind).bind fun _ g hg => ?_
  subst hg
  have hwait : sandboxProtocol.Triple p r (.tasked kind) (await .waitFirst) (fun _ g => g = .tasked kind) Raised := by
    refine steady_rule rfl (fun _ => rfl) fun _ _ _ _ _ hperform => ?_
    unfold Op.perform at hperform
    dsimp only at hperform
    split at hperform <;> cases hperform
  refine hwait.bind fun _ g hg => ?_
  subst hg
  refine hset.bind fun cancelled g hg => ?_
  subst hg
  refine .ite (fun _ => ?_) fun _ => result_rule
  have haborted : ∀ (e : Failure) (g : Role), e ≠ .executionCancelled ∧ g = .aborted → Raised e g :=
    fun e g hE => .inr ⟨hE.1, .inr hE.2⟩
  refine ((killUntilDone_triple rounds).mono (fun _ _ hg => hg) haborted).bind fun _ g hg => ?_
  subst hg
  refine (killExecution_finished.mono (fun _ _ hg => hg) haborted).bind fun _ g hg => ?_
  obtain ⟨none, rfl, hnone⟩ := hg
  exact (gather_rule hnone).bind fun _ g hg => .throw (.inl ⟨_, hg⟩)

theorem buildAndRun_triple (rounds : Nat) (compiled : Bool) :
    sandboxProtocol.Triple p r (.clear true) (buildAndRun rounds compiled) (fun _ g => ∃ allowed, g = .finished allowed)
      Raised := by
  have htransition : sandboxProtocol.Triple p r (.clear true) (await .transition) (fun _ g => g = .clear true) Raised :=
    steady_rule rfl (fun _ => rfl) fun _ _ _ _ _ _ => .inl ⟨true, rfl⟩
  have hrequire : ∀ changed, sandboxProtocol.Triple p r (.clear true) (require changed Failure.executionCancelled)
      (fun _ g => g = .clear true) Raised := fun changed => .require (fun _ => rfl) fun _ => .inl ⟨_, rfl⟩
  have hrun : sandboxProtocol.Triple p r (.clear true) (do
      require (← await .transition) .executionCancelled
      runCancellable rounds .exec) (fun _ g => ∃ allowed, g = .finished allowed) Raised := by
    refine htransition.bind fun changed g hg => ?_
    subst hg
    refine Protocol.Triple.bind (hrequire changed) fun _ g hg => ?_
    subst hg
    exact runCancellable_triple rounds .exec
  refine .ite (fun _ => ?_) fun _ => hrun
  refine htransition.bind fun changed g hg => ?_
  subst hg
  refine Protocol.Triple.bind (hrequire changed) fun _ g hg => ?_
  subst hg
  refine (runCancellable_triple rounds .build).bind fun _ g hg => ?_
  subst hg
  exact hrun

/-- Claiming the execution. -/
theorem claim_rule {E : Failure → Role → Prop} :
    sandboxProtocol.Triple p r .outside (await .claim) (fun claimed g => claimed = true → g = .clear true) E := by
  refine call_rule fun env st l x st' hshared _ hperform l' hl' => ?_
  have hl : l <+: l' := ⟨_, hl'.symm⟩
  unfold Op.perform at hperform
  dsimp only at hperform
  split at hperform <;> obtain ⟨rfl, rfl⟩ := Prod.mk.inj (Option.some.inj hperform)
  · exact ⟨.outside, hshared.shrink (.refl _) hl, trivial, fun q other _ hother => hother.shrink (.refl _) hl,
      fun hfalse => by cases hfalse⟩
  · next hnone =>
    obtain ⟨habsent, hworkspace⟩ := hshared.unclaimed hnone
    have hempty : st.Empty := hshared.absent habsent
    refine ⟨.clear true, ?_, ⟨rfl, by simp [habsent, Task.settled], hempty, fun _ => hworkspace⟩,
      fun q other hq hother => ?_, fun _ => rfl⟩
    · refine ⟨fun hworker => ?_, fun _ => hempty, fun _ _ => hempty, fun _ _ _ => .inl hempty, fun _ _ => hempty,
        hshared.ending, fun hgone => ?_⟩
      · cases hworker
      · cases hworkspace.symm.trans hgone
    · cases other with
      | outside => trivial
      | clear working => cases hnone.symm.trans hother.1
      | tasked kind => cases hnone.symm.trans hother.1
      | finished allowed => cases hnone.symm.trans hother.1
      | aborted => cases hnone.symm.trans hother.1
      | busy kind container => cases habsent.symm.trans hother.1
      | spoiled kind => cases habsent.symm.trans hother.1

/-- The worker may delete the workspace. -/
def Role.MayRemove : Role → Prop
  | clear _ | finished _ | aborted => True
  | _ => False

/-- The role of the worker when it has deleted the workspace. -/
def Role.unmounted : Role → Role
  | clear _ => .clear false
  | g => g

/-- Deleting the workspace. -/
theorem removeWorkspace_rule {E : Failure → Role → Prop} (hg : g.MayRemove) :
    sandboxProtocol.Triple p r g (await .removeWorkspace) (fun _ g' => g' = g.unmounted) E := by
  refine call_rule fun env st l x st' hshared hrole hperform l' hl' => ?_
  obtain ⟨rfl, rfl⟩ := Prod.mk.inj (Option.some.inj hperform)
  have hl : l <+: l' := ⟨_, hl'.symm⟩
  have hworker : st.worker = some p := by
    cases g with
    | clear working => exact hrole.1
    | finished allowed => exact hrole.1
    | aborted => exact hrole.1
    | outside | tasked | busy | spoiled => exact hg.elim
  have hsettled : st.task.settled = true → st.Empty ∨ Troubled l' := by
    intro hsettled
    cases htask : st.task with
    | absent => exact .inl (hshared.absent htask)
    | done kind ending => exact (hshared.done kind ending htask).imp_right fun htrouble => htrouble.mono hl
    | scheduled kind => rw [htask] at hsettled; cases hsettled
    | running thread kind => rw [htask] at hsettled; cases hsettled
  refine ⟨g.unmounted, ?_, ?_, fun q other hq hother => ?_, rfl⟩
  · refine ⟨fun hnone => ?_, hshared.absent, hshared.scheduled, fun kind ending hdone => ?_, hshared.built,
      hshared.ending, fun _ => ?_⟩
    · cases hworker.symm.trans hnone
    · exact (hshared.done kind ending hdone).imp_right fun htrouble => htrouble.mono hl
    · cases g with
      | clear working => exact ⟨.inl hrole.2.1, .inl hrole.2.2.1⟩
      | finished allowed => exact ⟨.inl hrole.2.1, hsettled hrole.2.1⟩
      | aborted => exact ⟨.inr ⟨p, hworker, hrole.2.mono hl⟩, .inr (hrole.2.mono hl).troubled⟩
      | outside | tasked | busy | spoiled => exact hg.elim
  · cases g with
    | clear working => exact ⟨hworker, hrole.2.1, hrole.2.2.1, fun hfalse => by cases hfalse⟩
    | finished allowed => exact hrole
    | aborted => exact ⟨hworker, hrole.2.mono hl⟩
    | outside | tasked | busy | spoiled => exact hg.elim
  · have hme : st.worker ≠ some q := fun hother => hq (Option.some.inj (hother.symm.trans hworker))
    cases other with
    | outside => trivial
    | clear working => exact absurd hother.1 hme
    | tasked kind => exact absurd hother.1 hme
    | finished allowed => exact absurd hother.1 hme
    | aborted => exact absurd hother.1 hme
    | busy kind container => exact hother
    | spoiled kind => exact ⟨hother.1, hother.2.mono hl⟩

/-- A worker that has raised `ExecutionCancelled` has left nothing. -/
def Cleared (e : Failure) (g : Role) : Prop := e = .executionCancelled → ∃ working, g = .clear working

theorem runOne_triple (rounds : Nat) (compiled : Bool) :
    sandboxProtocol.Triple p r .outside (runOne rounds compiled) (fun _ _ => True) Cleared := by
  refine claim_rule.bind fun claimed g hclaimed => ?_
  refine .ite (fun htrue => ?_) fun _ => .pure trivial
  rw [hclaimed htrue]
  refine (buildAndRun_triple rounds compiled).andFinally (fun result g hg => ?_) fun e g hraised => ?_
  · obtain ⟨allowed, rfl⟩ := hg
    exact (removeWorkspace_rule (g := .finished allowed) trivial).mono (fun _ _ _ => trivial) fun _ _ hE => hE
  · have hmay : g.MayRemove := by
      rcases hraised with ⟨working, rfl⟩ | ⟨-, ⟨allowed, rfl⟩ | rfl⟩ <;> trivial
    refine (removeWorkspace_rule hmay).mono (fun _ g' hg' hcancelled => ?_) fun _ _ hE => hE
    obtain ⟨working, rfl⟩ := hraised.resolve_right fun hother => hother.1 hcancelled
    exact ⟨false, hg'⟩

/-- `kill_execution` of another process. -/
theorem killExecution_outside :
    sandboxProtocol.Triple p r .outside killExecution (fun _ _ => True) fun _ _ => True := by
  have hcall : ∀ {o : Op}, o.isCalm = true →
      sandboxProtocol.Triple p r .outside (await o) (fun _ g => g = .outside) fun _ g => g = .outside :=
    fun ho => steady_rule ho (fun _ => rfl) fun _ _ _ _ _ _ => rfl
  have hkind : ∀ which, sandboxProtocol.Triple p r .outside (killKind which) (fun _ g => g = .outside)
      fun _ g => g = .outside := fun which =>
    Protocol.Triple.tryExcept ((hcall rfl).bind fun container g hg => by
      subst hg
      exact hcall rfl) (fun _ _ _ hg => .pure hg) fun _ _ _ hg => hg
  refine ((hkind .exec).mono (fun _ _ hg => hg) fun _ _ _ => trivial).bind fun _ g hg => ?_
  subst hg
  exact (hkind .build).mono (fun _ _ _ => trivial) fun _ _ _ => trivial

/-- What a process has ended with. -/
def Done : Request → Ending → Role → Prop
  | .worker _ _, .error e, g => Cleared e g
  | _, _, _ => True

theorem request_triple (p : Pid) (r : Request) :
    sandboxProtocol.Triple p r .outside r.program (fun result g => Done r (.ok result) g)
      fun e g => Done r (.error e) g := by
  cases r with
  | worker rounds compiled => exact (runOne_triple rounds compiled).mono (fun _ _ _ => trivial) fun _ _ hE => hE
  | thread timeout =>
    exact ((thread_triple timeout).mono (fun _ _ hg => hg) fun _ _ _ => trivial).map fun _ _ _ => trivial
  | cancel =>
    have hset : sandboxProtocol.Triple p .cancel .outside (await .setCancel) (fun _ _ => True) fun _ _ => True :=
      steady_rule rfl (fun _ => trivial) fun _ _ _ _ _ _ => trivial
    exact (hset.mono (fun _ _ hg => hg) fun _ _ _ => trivial).map fun _ _ _ => trivial
  | kill => exact (killExecution_outside.mono (fun _ _ hg => hg) fun _ _ _ => trivial).map fun _ _ _ => trivial

end Worker

/-! ## Runs -/

/-- The outline of the sandbox. -/
def sandboxOutline : Outline sandboxProtocol where
  idle := .outside
  start _ _ := .outside
  done _ r ending g := Done r ending g
  init := by
    refine ⟨⟨fun _ => ⟨rfl, rfl⟩, fun _ _ => rfl, fun _ hnone => ?_, fun _ _ hnone => ?_, fun _ hnone => ?_,
      fun _ hnone => ?_, fun hgone => ?_⟩, fun _ => trivial⟩
    · cases hnone
    · cases hnone
    · cases hnone
    · cases hnone
    · cases hgone
  spawn s gs p r hinv hg := by
    rw [← hg, Function.update_eq_self]
    exact hinv
  body p r := Protocol.Follows.mono (request_triple p r) fun ending g h => by cases ending <;> exact h
  at_end _ _ _ _ _ := trivial

section Runs

variable {cfg : SandboxConfig}

theorem fits_of_reachable (h : sandbox.journaled.system.Reachable cfg) : ∃ gs, sandboxOutline.Fits cfg gs :=
  sandboxOutline.sound (fun cfg l _ _ => Machine.guard_of_forall (fun _ _ _ _ _ => trivial) cfg l) h

/-- **A cancelled execution leaves nothing behind.** From when its worker has raised `ExecutionCancelled` on, whoever
else removes containers and whatever Docker answers, no thread is at work on it and it has no container. -/
theorem cancelled_leaves_nothing (h : sandbox.journaled.system.Reachable cfg) {p : Pid} {rounds : Nat}
    {compiled : Bool} (hp : cfg.procs p = some ⟨.worker rounds compiled, .ret (.error .executionCancelled)⟩) :
    cfg.shared.1.task.settled = true ∧ cfg.shared.1.Empty := by
  obtain ⟨gs, hfits⟩ := fits_of_reachable h
  obtain ⟨working, hclear⟩ := hfits.ended hp rfl
  have hholds := hfits.1.2 p
  rw [hclear] at hholds
  exact ⟨hholds.2.1, hholds.2.2.1⟩

end Runs

/-- Process 0 works on the execution and process 1 is its thread, when a cancel arrives. -/
def cancelArrives : List (Label Env Request) :=
  .spawn 0 (.worker 2 false) :: List.replicate 4 (.run 0 {}) ++ .spawn 1 (.thread 5) :: List.replicate 2 (.run 1 {}) ++
    .spawn 2 .cancel :: .run 2 {} :: List.replicate 3 (.run 0 {})

/-- The container is created when the worker has already looked for it once. -/
def cancelRaces : List (Label Env Request) :=
  cancelArrives ++ List.replicate 3 (.run 0 {}) ++ .run 1 {} :: List.replicate 5 (.run 0 {}) ++
    List.replicate 7 (.run 1 { fault := .before }) ++ List.replicate 5 (.run 0 {})

/-- Process 0 has raised `ExecutionCancelled`, and there was a container. -/
def raisedCancelled (cfg : SandboxConfig) : Bool :=
  match cfg.procs 0 with
  | some ⟨.worker _ _, .ret (.error .executionCancelled)⟩ => 0 < cfg.shared.1.nextContainer
  | _ => false

theorem cancelled_leaves_nothing_race : ∃ cfg : SandboxConfig, sandbox.journaled.system.Reachable cfg ∧
    0 < cfg.shared.1.nextContainer ∧ cfg.shared.1.task.settled = true ∧ cfg.shared.1.Empty := by
  have hrun : (sandbox.journaled.system.replay System.anyStep sandbox.journaled.system.init
      cancelRaces).any raisedCancelled = true := by decide +kernel
  obtain ⟨cfg, hcfg, hends⟩ := System.exists_reachable hrun
  unfold raisedCancelled at hends
  split at hends
  · next hp => exact ⟨cfg, hcfg, of_decide_eq_true hends, cancelled_leaves_nothing hcfg hp⟩
  · cases hends

/-- Docker cannot be reached when the worker looks for the container. -/
def cancelFails : List (Label Env Request) :=
  cancelArrives ++ .run 1 {} :: .run 0 { fault := .before, unreachable := true } :: [.run 0 {}]

/-- The workspace is gone, and the thread still at work. -/
def removedEarly (cfg : SandboxConfig) : Bool := !cfg.shared.1.workspace && !cfg.shared.1.task.settled

end Concord.Sandbox
