import Mathlib

/-!
# Transition systems

A system is an initial state and a guarded, executable step. The label of a step carries
every choice of the environment (which process moves, what fails, what a clock reads), so
`step s l` is one state or none, and a schedule is a list of labels that can be replayed.

A run can be constrained: `Path ok s t` is a run from `s` to `t` each of whose steps meets the
condition `ok` in the state before it. The unconstrained notions are the case `anyStep`.
-/

namespace Concord.Base

universe u v

/-- A transition system with states `σ` and labels `ℓ`. -/
structure System (σ : Type u) (ℓ : Type v) where
  init : σ
  step : σ → ℓ → Option σ

namespace System

variable {σ : Type u} {ℓ : Type v} (T : System σ ℓ)

/-- The condition every step meets. -/
def anyStep (_ : σ) (_ : ℓ) : Prop := True

/-- A run from `s` to `t` whose steps all meet `ok`. -/
def Path (ok : σ → ℓ → Prop) : σ → σ → Prop :=
  Relation.ReflTransGen fun s t => ∃ l, ok s l ∧ T.step s l = some t

/-- The states a run from the initial state reaches when its steps all meet `ok`. -/
def ReachableUnder (ok : σ → ℓ → Prop) (s : σ) : Prop := T.Path ok T.init s

/-- The states any run from the initial state reaches. -/
def Reachable (s : σ) : Prop := T.ReachableUnder anyStep s

/-- Replays a schedule; `none` if one of its steps is not enabled or does not meet `ok`. -/
def replay (ok : σ → ℓ → Prop) [∀ s l, Decidable (ok s l)] (s : σ) : List ℓ → Option σ
  | [] => some s
  | l :: ls => if ok s l then (T.step s l).bind fun t => replay ok t ls else none

instance (s : σ) (l : ℓ) : Decidable (anyStep s l) := .isTrue trivial

variable {T} {ok ok' : σ → ℓ → Prop} {s t u : σ}

theorem Path.mono (h : T.Path ok s t) (hok : ∀ s l, ok s l → ok' s l) : T.Path ok' s t :=
  Relation.ReflTransGen.mono (fun _ _ ⟨l, hl, hs⟩ => ⟨l, hok _ _ hl, hs⟩) _ _ h

theorem Path.tail (h : T.Path ok s t) {l : ℓ} (hl : ok t l) (hs : T.step t l = some u) :
    T.Path ok s u :=
  Relation.ReflTransGen.tail h ⟨l, hl, hs⟩

/-- What the first state of a run has and every step of it keeps, its last state has. -/
theorem Path.induction {P : σ → Prop} (h : T.Path ok s t) (h0 : P s)
    (hstep : ∀ s l t, P s → ok s l → T.step s l = some t → P t) : P t := by
  induction h with
  | refl => exact h0
  | tail _ hs ih =>
    obtain ⟨l, hl, hs⟩ := hs
    exact hstep _ _ _ ih hl hs

/-- A relation that is reflexive, transitive and contains every step of the run relates its
ends. -/
theorem Path.relates {R : σ → σ → Prop} (h : T.Path ok s t) (hrefl : ∀ s, R s s)
    (htrans : ∀ s t u, R s t → R t u → R s u)
    (hstep : ∀ t l u, T.Path ok s t → ok t l → T.step t l = some u → R t u) : R s t := by
  induction h with
  | refl => exact hrefl s
  | tail hp hs ih =>
    obtain ⟨l, hl, hs⟩ := hs
    exact htrans _ _ _ ih (hstep _ _ _ hp hl hs)

theorem ReachableUnder.mono (h : T.ReachableUnder ok s) (hok : ∀ s l, ok s l → ok' s l) :
    T.ReachableUnder ok' s :=
  Path.mono h hok

/-- A constrained run is a run. -/
theorem ReachableUnder.reachable (h : T.ReachableUnder ok s) : T.Reachable s :=
  h.mono fun _ _ _ => trivial

theorem ReachableUnder.trans (h : T.ReachableUnder ok s) (hp : T.Path ok s t) :
    T.ReachableUnder ok t :=
  Relation.ReflTransGen.trans h hp

/-- The induction principle of reachable states: the step may use that the state before it is
reachable and meets the condition. -/
theorem ReachableUnder.induction {P : σ → Prop} (h : T.ReachableUnder ok s) (h0 : P T.init)
    (hstep : ∀ s l t, T.ReachableUnder ok s → P s → ok s l → T.step s l = some t → P t) :
    P s := by
  have key : T.ReachableUnder ok s ∧ P s := by
    refine Path.induction (P := fun s => T.ReachableUnder ok s ∧ P s) h
      ⟨Relation.ReflTransGen.refl, h0⟩ ?_
    rintro s l t ⟨hs, hP⟩ hl ht
    exact ⟨Path.tail hs hl ht, hstep s l t hs hP hl ht⟩
  exact key.2

/-- A schedule that replays to its end is a run. -/
theorem path_of_replay [∀ s l, Decidable (ok s l)] {ls : List ℓ}
    (h : T.replay ok s ls = some t) : T.Path ok s t := by
  induction ls generalizing s with
  | nil =>
    simp only [replay, Option.some.injEq] at h
    subst h
    exact Relation.ReflTransGen.refl
  | cons l ls ih =>
    rw [replay] at h
    split at h
    · next hl =>
      obtain ⟨m, hm, h⟩ := Option.bind_eq_some_iff.1 h
      exact Relation.ReflTransGen.head ⟨l, hl, hm⟩ (ih h)
    · cases h

/-- What the end of a replayed schedule satisfies, a reachable state satisfies. -/
theorem exists_reachable [∀ s l, Decidable (ok s l)] {ls : List ℓ} {p : σ → Bool}
    (h : (T.replay ok T.init ls).any p = true) : ∃ s, T.ReachableUnder ok s ∧ p s = true := by
  obtain ⟨s, hs, hp⟩ := (Option.any_eq_true _ _).1 h
  exact ⟨s, path_of_replay hs, hp⟩

end System

end Concord.Base
