import Concord.Base.Outline

/-!
# The journal of a machine, and what one process sees

`Machine.journaled` is a machine that also keeps every operation it performs, with its result and the
shared state before and after it. A run of it is a run of the machine.

The operations of one process are, in the journal, a walk through its program: between two of them the
others move the shared state along a relation `step`, the rely condition. `Rely.Sees` is such a walk.
`Rely.Meets` is the form the proofs use: from a state, and after some operations, the process meets `A`
at every point and ends with `Q`; its rules follow the program.
-/

namespace Concord.Base

variable {Op : Type} {Res : Op → Type} {C σ Req α β : Type}

/-- An operation with its result. -/
abbrev Call (Op : Type) (Res : Op → Type) : Type := (o : Op) × Res o

/-- An operation that a process has performed, between two shared states. -/
structure JournalEntry (Op : Type) (Res : Op → Type) (σ : Type) where
  pid : Pid
  call : Call Op Res
  before : σ
  after : σ

/-! ## The journal -/

namespace Machine

variable (M : Machine Op Res C σ Req α)

/-- The machine, keeping a journal. -/
def journaled : Machine Op Res C (σ × List (JournalEntry Op Res σ)) Req α where
  init := (M.init, [])
  exec p o c s := (M.exec p o c s.1).map fun (x, t) => (x, t, s.2 ++ [⟨p, ⟨o, x⟩, s.1, t⟩])
  body := M.body

end Machine

/-- A configuration without its journal. -/
def Config.forget (cfg : Config Op Res (σ × List (JournalEntry Op Res σ)) Req α) : Config Op Res σ Req α where
  shared := cfg.shared.1
  procs := cfg.procs

namespace Machine

variable {M : Machine Op Res C σ Req α} {cfg cfg' : Config Op Res (σ × List (JournalEntry Op Res σ)) Req α}

/-- What a step does to the shared state and to the journal. -/
theorem journaled_step {l : Label C Req} (h : M.journaled.step cfg l = some cfg') :
    (∃ p r, l = .spawn p r ∧ cfg.procs p = none ∧
      cfg' = { cfg with procs := Function.update cfg.procs p (some ⟨r, M.body p r⟩) }) ∨
    ∃ p c r o k x t, l = .run p c ∧ cfg.procs p = some ⟨r, .await o k⟩ ∧
      M.exec p o c cfg.shared.1 = some (x, t) ∧
      cfg' = { shared := (t, cfg.shared.2 ++ [⟨p, ⟨o, x⟩, cfg.shared.1, t⟩])
               procs := Function.update cfg.procs p (some ⟨r, k x⟩) } := by
  cases l with
  | spawn p r =>
    obtain ⟨hp, rfl⟩ := step_spawn.1 h
    exact .inl ⟨p, r, rfl, hp, rfl⟩
  | run p c =>
    obtain ⟨r, o, k, x, s, hp, hexec, rfl⟩ := step_run.1 h
    obtain ⟨⟨x, t⟩, hx, hs⟩ := Option.map_eq_some_iff.1 hexec
    cases hs
    exact .inr ⟨p, c, r, o, k, x, t, rfl, hp, hx, rfl⟩

theorem step_forget {l : Label C Req} (h : M.journaled.step cfg l = some cfg') :
    M.step cfg.forget l = some cfg'.forget := by
  rcases journaled_step h with ⟨p, r, rfl, hp, rfl⟩ | ⟨p, c, r, o, k, x, t, rfl, hp, hexec, rfl⟩
  · exact step_spawn.2 ⟨hp, rfl⟩
  · exact step_run.2 ⟨r, o, k, x, t, hp, hexec, rfl⟩

theorem path_forget (h : M.journaled.system.Path System.anyStep cfg cfg') :
    M.system.Path System.anyStep cfg.forget cfg'.forget := by
  induction h with
  | refl => exact Relation.ReflTransGen.refl
  | tail _ hstep ih =>
    obtain ⟨l, -, hstep⟩ := hstep
    exact System.Path.tail ih trivial (step_forget hstep)

/-- A run with a journal is a run. -/
theorem reachable_forget (h : M.journaled.system.Reachable cfg) : M.system.Reachable cfg.forget :=
  path_forget h

end Machine

/-! ## One process among others -/

/-- What a process relies on: `known` holds of the shared state at all times, and the others move it along
`step`. -/
structure Rely (σ : Type) where
  known : σ → Prop
  step : σ → σ → Prop
  refl : ∀ s, step s s
  trans : ∀ {s t u}, step s t → step t u → step s u

namespace Rely

section Sees

variable (R : Rely σ) (M : Machine Op Res C σ Req α) (p : Pid)

/-- The process performs `entries` of its program and is left with `rest`, while the shared state goes from
`s` to `t`. -/
inductive Sees : Program Op Res β → σ → List (JournalEntry Op Res σ) → Program Op Res β → σ → Prop
  | nil {x : Program Op Res β} {s t : σ} (h : R.step s t) : Sees x s [] x t
  | cons {o : Op} {k : Res o → Program Op Res β} {s before after t : σ} {x : Res o} {c : C}
      {entries : List (JournalEntry Op Res σ)} {rest : Program Op Res β} (h : R.step s before)
      (hbefore : R.known before) (hafter : R.known after) (hexec : M.exec p o c before = some (x, after))
      (hrest : Sees (k x) after entries rest t) :
      Sees (.await o k) s (⟨p, ⟨o, x⟩, before, after⟩ :: entries) rest t

variable {R M p} {x rest : Program Op Res β} {s t u : σ} {entries : List (JournalEntry Op Res σ)}

theorem Sees.rely_left (h : R.Sees M p x t entries rest u) (hs : R.step s t) :
    R.Sees M p x s entries rest u := by
  cases h with
  | nil h => exact .nil (R.trans hs h)
  | cons h hbefore hafter hexec hrest => exact .cons (R.trans hs h) hbefore hafter hexec hrest

theorem Sees.rely_right (h : R.Sees M p x s entries rest t) (ht : R.step t u) :
    R.Sees M p x s entries rest u := by
  induction h with
  | nil h => exact .nil (R.trans h ht)
  | cons h hbefore hafter hexec _ ih => exact .cons h hbefore hafter hexec (ih ht)

/-- One more operation at the end. -/
theorem Sees.concat {o : Op} {k : Res o → Program Op Res β} {c : C} {y : Res o}
    (h : R.Sees M p x s entries (.await o k) t) (ht : R.known t) (hu : R.known u)
    (hexec : M.exec p o c t = some (y, u)) :
    R.Sees M p x s (entries ++ [⟨p, ⟨o, y⟩, t, u⟩]) (k y) u := by
  generalize hrest : (Program.await o k : Program Op Res β) = rest at h
  induction h with
  | nil h =>
    subst hrest
    exact .cons h ht hu hexec (.nil (R.refl u))
  | cons h hbefore hafter hexec' _ ih => exact .cons h hbefore hafter hexec' (ih ht hexec hrest)

/-- A process that has not ended is inside the first part of its program, or has ended it. -/
theorem Sees.of_bind {γ : Type} {f : β → Program Op Res γ} {rest : Program Op Res γ}
    (h : R.Sees M p (x >>= f) s entries rest t) :
    (∃ o k, R.Sees M p x s entries (.await o k) t ∧ rest.next? = some o) ∨
      ∃ b first second u, entries = first ++ second ∧ R.Sees M p x s first (.ret b) u ∧
        R.Sees M p (f b) u second rest t := by
  induction x generalizing s entries with
  | ret b => exact .inr ⟨b, [], entries, s, rfl, .nil (R.refl s), h⟩
  | await o k ih =>
    change R.Sees M p (.await o fun y => (k y).bind f) s entries rest t at h
    cases h with
    | nil h => exact .inl ⟨o, k, .nil h, rfl⟩
    | cons h hbefore hafter hexec hrest =>
      rcases ih _ hrest with ⟨o', k', hsees, hnext⟩ | ⟨b, first, second, u, rfl, hsees, hsecond⟩
      · exact .inl ⟨o', k', .cons h hbefore hafter hexec hsees, hnext⟩
      · exact .inr ⟨b, _, second, u, rfl, .cons h hbefore hafter hexec hsees, hsecond⟩

/-- What every process sees in a run: `hothers` is the rely condition, step by step. -/
theorem sees_of_reachable {M : Machine Op Res C σ Req α}
    {cfg : Config Op Res (σ × List (JournalEntry Op Res σ)) Req α}
    (hknown : ∀ cfg : Config Op Res σ Req α, M.system.Reachable cfg → R.known cfg.shared)
    (hothers : ∀ cfg q c cfg', M.system.Reachable cfg → q ≠ p → M.step cfg (.run q c) = some cfg' →
      R.step cfg.shared cfg'.shared)
    (h : M.journaled.system.Reachable cfg) {r : Req} {rest : Program Op Res α}
    (hp : cfg.procs p = some ⟨r, rest⟩) :
    R.Sees M p (M.body p r) M.init (cfg.shared.2.filter (·.pid = p)) rest cfg.shared.1 := by
  have key : (cfg.procs p = none → R.step M.init cfg.shared.1 ∧ cfg.shared.2.filter (·.pid = p) = []) ∧
      ∀ r rest, cfg.procs p = some ⟨r, rest⟩ →
        R.Sees M p (M.body p r) M.init (cfg.shared.2.filter (·.pid = p)) rest cfg.shared.1 := by
    refine h.induction (P := fun cfg => (cfg.procs p = none → R.step M.init cfg.shared.1 ∧
        cfg.shared.2.filter (·.pid = p) = []) ∧ ∀ r rest, cfg.procs p = some ⟨r, rest⟩ →
          R.Sees M p (M.body p r) M.init (cfg.shared.2.filter (·.pid = p)) rest cfg.shared.1)
      ⟨fun _ => ⟨R.refl _, rfl⟩, fun r rest hnone => nomatch hnone⟩ ?_
    intro cfg l cfg' hreach ih _ hstep
    have hforget := Machine.reachable_forget hreach
    have hknown' := hknown _ (Machine.reachable_forget (hreach.tail trivial hstep))
    have hmove := Machine.step_forget hstep
    rcases Machine.journaled_step hstep with
      ⟨q, r, rfl, hq, rfl⟩ | ⟨q, c, r, o, k, x, t, rfl, hq, hexec, rfl⟩
    · by_cases hqp : q = p
      · subst hqp
        obtain ⟨hinit, hnil⟩ := ih.1 hq
        refine ⟨fun hnone => by simp at hnone, fun r' rest hsome => ?_⟩
        simp only [Function.update_self, Option.some.injEq, Process.mk.injEq] at hsome
        obtain ⟨rfl, rfl⟩ := hsome
        rw [hnil]
        exact .nil hinit
      · simp only [Function.update_of_ne (Ne.symm hqp)]
        exact ih
    · by_cases hqp : q = p
      · subst hqp
        refine ⟨fun hnone => by simp at hnone, fun r' rest hsome => ?_⟩
        simp only [Function.update_self, Option.some.injEq, Process.mk.injEq] at hsome
        obtain ⟨rfl, rfl⟩ := hsome
        rw [List.filter_append, List.filter_cons_of_pos (by simp), List.filter_nil]
        exact (ih.2 r _ hq).concat (hknown _ hforget) hknown' hexec
      · have hrely : R.step cfg.shared.1 t := hothers cfg.forget q c _ hforget hqp hmove
        simp only [Function.update_of_ne (Ne.symm hqp), List.filter_append]
        rw [List.filter_cons_of_neg (by simpa using hqp), List.filter_nil, List.append_nil]
        exact ⟨fun hnone => ⟨R.trans (ih.1 hnone).1 hrely, (ih.1 hnone).2⟩,
          fun r' rest hsome => (ih.2 r' rest hsome).rely_right hrely⟩
  exact key.2 r rest hp

/-- A program that has ended sees the others move on. -/
theorem Sees.of_ret {b : β} (h : R.Sees M p (.ret b) s entries rest t) :
    entries = [] ∧ rest = .ret b ∧ R.step s t := by
  cases h with
  | nil h => exact ⟨rfl, rfl, h⟩

end Sees

/-! ## Rules -/

section Rules

variable {ε γ : Type} {Val : Op → Type}

/-- The operations of programs that can raise. -/
abbrev Done (ε : Type) (Op : Type) (Val : Op → Type) (σ : Type) : Type :=
  List (JournalEntry Op (fun o => Except ε (Val o)) σ)

variable (R : Rely σ) (M : Machine Op (fun o => Except ε (Val o)) C σ Req α) (p : Pid)

/-- After `past`, and from `s`, the process that is about to run `x` meets `A` at every point; it ends with
`Q` or raises with `E`. -/
structure Meets (past : Done ε Op Val σ) (s : σ) (x : Async ε Op Val β)
    (A : Done ε Op Val σ → Option Op → Prop) (Q : β → Done ε Op Val σ → σ → Prop)
    (E : ε → Done ε Op Val σ → σ → Prop) : Prop where
  always : ∀ {entries rest t}, R.Sees M p x.run s entries rest t → A (past ++ entries) rest.next?
  ok : ∀ {entries a t}, R.Sees M p x.run s entries (.ret (.ok a)) t → Q a (past ++ entries) t
  error : ∀ {entries e t}, R.Sees M p x.run s entries (.ret (.error e)) t → E e (past ++ entries) t

namespace Meets

variable {R M p} {s t : σ} {past : Done ε Op Val σ} {x : Async ε Op Val β}
  {A : Done ε Op Val σ → Option Op → Prop} {Q Q' : β → Done ε Op Val σ → σ → Prop}
  {E E' : ε → Done ε Op Val σ → σ → Prop} {Q₂ : γ → Done ε Op Val σ → σ → Prop}

theorem rely (h : R.Meets M p past s x A Q E) (hst : R.step s t) : R.Meets M p past t x A Q E where
  always hsees := h.always (hsees.rely_left hst)
  ok hsees := h.ok (hsees.rely_left hst)
  error hsees := h.error (hsees.rely_left hst)

theorem mono (h : R.Meets M p past s x A Q E) (hQ : ∀ a es t, Q a es t → Q' a es t)
    (hE : ∀ e es t, E e es t → E' e es t) : R.Meets M p past s x A Q' E' where
  always := h.always
  ok hsees := hQ _ _ _ (h.ok hsees)
  error hsees := hE _ _ _ (h.error hsees)

theorem pure {a : β} (hA : A past none) (h : ∀ t, R.step s t → Q a past t) :
    R.Meets M p past s (Pure.pure a) A Q E where
  always hsees := by
    obtain ⟨rfl, rfl, -⟩ := hsees.of_ret
    rwa [List.append_nil]
  ok hsees := by
    obtain ⟨rfl, hret, hst⟩ := hsees.of_ret
    cases hret
    rw [List.append_nil]
    exact h _ hst
  error hsees := by
    obtain ⟨-, hret, -⟩ := hsees.of_ret
    cases hret

theorem throw {e : ε} (hA : A past none) (h : ∀ t, R.step s t → E e past t) :
    R.Meets M p past s (MonadExcept.throw e : Async ε Op Val β) A Q E where
  always hsees := by
    obtain ⟨rfl, rfl, -⟩ := hsees.of_ret
    rwa [List.append_nil]
  ok hsees := by
    obtain ⟨-, hret, -⟩ := hsees.of_ret
    cases hret
  error hsees := by
    obtain ⟨rfl, hret, hst⟩ := hsees.of_ret
    cases hret
    rw [List.append_nil]
    exact h _ hst

/-- The rule of sequence. What the first part ends with, the others leave as it is. -/
theorem bind {f : β → Async ε Op Val γ} (h : R.Meets M p past s x A Q E)
    (hf : ∀ a es t, A es none → (∀ u, R.step t u → Q a es u) → R.Meets M p es t (f a) A Q₂ E) :
    R.Meets M p past s (x >>= f) A Q₂ E := by
  have split {entries rest t}
      (hsees : R.Sees M p (x.run >>= ExceptT.bindCont f) s entries rest t) :
      (∃ o k, R.Sees M p x.run s entries (.await o k) t ∧ rest.next? = some o) ∨
        (∃ a first second u, entries = first ++ second ∧ R.Sees M p x.run s first (.ret (.ok a)) u ∧
          R.Sees M p (f a).run u second rest t) ∨
        ∃ e, R.Sees M p x.run s entries (.ret (.error e)) t ∧ rest = .ret (.error e) := by
    rcases hsees.of_bind with hin | ⟨res, first, second, u, rfl, hfirst, hsecond⟩
    · exact .inl hin
    · cases res with
      | ok a => exact .inr (.inl ⟨a, first, second, u, rfl, hfirst, hsecond⟩)
      | error e =>
        obtain ⟨rfl, rfl, hst⟩ := Sees.of_ret hsecond
        rw [List.append_nil]
        exact .inr (.inr ⟨e, hfirst.rely_right hst, rfl⟩)
  have next {a first u} (hfirst : R.Sees M p x.run s first (.ret (.ok a)) u) :
      R.Meets M p (past ++ first) u (f a) A Q₂ E :=
    hf a _ u (h.always hfirst) fun _ hu => h.ok (hfirst.rely_right hu)
  refine ⟨fun hsees => ?_, fun hsees => ?_, fun hsees => ?_⟩
  · rcases split hsees with ⟨o, k, hin, hnext⟩ | ⟨a, first, second, u, rfl, hfirst, hsecond⟩ | ⟨e, hfirst, rfl⟩
    · rw [hnext]
      exact h.always hin
    · rw [← List.append_assoc]
      exact (next hfirst).always hsecond
    · exact h.always hfirst
  · rcases split hsees with ⟨o, k, -, hnext⟩ | ⟨a, first, second, u, rfl, hfirst, hsecond⟩ | ⟨e, -, hret⟩
    · cases hnext
    · rw [← List.append_assoc]
      exact (next hfirst).ok hsecond
    · cases hret
  · rcases split hsees with ⟨o, k, -, hnext⟩ | ⟨a, first, second, u, rfl, hfirst, hsecond⟩ | ⟨e, hfirst, hret⟩
    · cases hnext
    · rw [← List.append_assoc]
      exact (next hfirst).error hsecond
    · cases hret
      exact h.error hfirst

/-- The rule of an operation. -/
theorem call {o : Op} {Q : Val o → Done ε Op Val σ → σ → Prop} (hA : A past (some o))
    (h : ∀ before c res after, R.step s before → R.known before → R.known after →
      M.exec p o c before = some (res, after) → A (past ++ [⟨p, ⟨o, res⟩, before, after⟩]) none ∧
        ∀ t, R.step after t →
          outcome (fun v t => Q v (past ++ [⟨p, ⟨o, res⟩, before, after⟩]) t)
            (fun e t => E e (past ++ [⟨p, ⟨o, res⟩, before, after⟩]) t) res t) :
    R.Meets M p past s (Async.call o) A Q E := by
  have split {entries rest t} (hsees : R.Sees M p (Program.await o .ret) s entries rest t) :
      (entries = [] ∧ rest.next? = some o) ∨
        ∃ before c res after, R.step s before ∧ R.known before ∧ R.known after ∧
          M.exec p o c before = some (res, after) ∧ entries = [⟨p, ⟨o, res⟩, before, after⟩] ∧
          rest = .ret res ∧ R.step after t := by
    cases hsees with
    | nil _ => exact .inl ⟨rfl, rfl⟩
    | cons hst hbefore hafter hexec hrest =>
      obtain ⟨rfl, rfl, ht⟩ := hrest.of_ret
      exact .inr ⟨_, _, _, _, hst, hbefore, hafter, hexec, rfl, rfl, ht⟩
  refine ⟨fun hsees => ?_, fun hsees => ?_, fun hsees => ?_⟩
  · rcases split hsees with ⟨rfl, hnext⟩ | ⟨before, c, res, after, hst, hbefore, hafter, hexec, rfl, rfl, -⟩
    · rwa [List.append_nil, hnext]
    · exact (h before c res after hst hbefore hafter hexec).1
  · rcases split hsees with ⟨-, hnext⟩ | ⟨before, c, res, after, hst, hbefore, hafter, hexec, rfl, hret, ht⟩
    · cases hnext
    · cases hret
      exact (h before c _ after hst hbefore hafter hexec).2 _ ht
  · rcases split hsees with ⟨-, hnext⟩ | ⟨before, c, res, after, hst, hbefore, hafter, hexec, rfl, hret, ht⟩
    · cases hnext
    · cases hret
      exact (h before c _ after hst hbefore hafter hexec).2 _ ht

theorem map {f : β → γ} (h : R.Meets M p past s x A Q E)
    (hf : ∀ a es t, Q a es t → Q₂ (f a) es t) : R.Meets M p past s (f <$> x) A Q₂ E := by
  rw [map_eq_pure_bind]
  exact h.bind fun a es t hA hQ => .pure hA fun u hu => hf a es u (hQ u hu)

theorem require {c : Bool} {e : ε} {Q : Unit → Done ε Op Val σ → σ → Prop} (hA : A past none)
    (hc : c = true → ∀ t, R.step s t → Q () past t) (he : c = false → ∀ t, R.step s t → E e past t) :
    R.Meets M p past s (Async.require c e) A Q E := by
  unfold Async.require
  cases c with
  | true => exact pure hA (hc rfl)
  | false => exact throw hA (he rfl)

theorem orRaise {x? : Option β} {e : ε} (hA : A past none)
    (hs : ∀ a, x? = some a → ∀ t, R.step s t → Q a past t)
    (hn : x? = none → ∀ t, R.step s t → E e past t) : R.Meets M p past s (Async.orRaise x? e) A Q E := by
  cases x? with
  | some a => exact pure hA (hs a rfl)
  | none => exact throw hA (hn rfl)

theorem attempt (h : R.Meets M p past s x A Q E) :
    R.Meets M p past s (Async.attempt x) A
      (fun res es t => outcome (fun a t => Q a es t) (fun e t => E e es t) res t) E' := by
  have split {entries rest t}
      (hsees : R.Sees M p (x.run >>= fun res => Program.ret (Except.ok (ε := ε) res)) s entries rest t) :
      (∃ o k, R.Sees M p x.run s entries (.await o k) t ∧ rest.next? = some o) ∨
        ∃ res, R.Sees M p x.run s entries (.ret res) t ∧ rest = .ret (.ok res) := by
    rcases hsees.of_bind with hin | ⟨res, first, second, u, rfl, hfirst, hsecond⟩
    · exact .inl hin
    · obtain ⟨rfl, rfl, hst⟩ := Sees.of_ret hsecond
      rw [List.append_nil]
      exact .inr ⟨res, hfirst.rely_right hst, rfl⟩
  refine ⟨fun hsees => ?_, fun hsees => ?_, fun hsees => ?_⟩
  · rcases split hsees with ⟨o, k, hin, hnext⟩ | ⟨res, hres, rfl⟩
    · rw [hnext]
      exact h.always hin
    · exact h.always hres
  · rcases split hsees with ⟨o, k, -, hnext⟩ | ⟨res, hres, hret⟩
    · cases hnext
    · rw [Except.ok.inj (Program.ret.inj hret)]
      cases res with
      | ok a => exact h.ok hres
      | error e => exact h.error hres
  · rcases split hsees with ⟨o, k, -, hnext⟩ | ⟨res, -, hret⟩
    · cases hnext
    · cases hret

theorem andFinally {fin : Async ε Op Val Unit} (S : β → Done ε Op Val σ → σ → Prop)
    (F : ε → Done ε Op Val σ → σ → Prop) (h : R.Meets M p past s x A Q E)
    (hok : ∀ a es t, A es none → (∀ u, R.step t u → Q a es u) →
      R.Meets M p es t fin A (fun _ => S a) F)
    (herror : ∀ e es t, A es none → (∀ u, R.step t u → E e es u) →
      R.Meets M p es t fin A (fun _ => F e) F) :
    R.Meets M p past s (Async.andFinally x fin) A S F := by
  refine bind h.attempt fun res es t hA hres => ?_
  cases res with
  | ok a => exact bind (hok a es t hA hres) fun _ es t hA hQ => .pure hA hQ
  | error e => exact bind (herror e es t hA hres) fun _ es t hA hE => .throw hA hE

theorem tryExcept {handled : ε → Bool} {f : ε → Async ε Op Val β} (h : R.Meets M p past s x A Q E)
    (hf : ∀ e es t, handled e = true → A es none → (∀ u, R.step t u → E e es u) →
      R.Meets M p es t (f e) A Q E')
    (hup : ∀ e es t, handled e = false → E e es t → E' e es t) :
    R.Meets M p past s (Async.tryExcept x handled f) A Q E' := by
  refine bind h.attempt fun res es t hA hres => ?_
  cases res with
  | ok a => exact .pure hA hres
  | error e =>
    cases hhandled : handled e with
    | true =>
      simp only [hhandled, if_true]
      exact hf e es t hhandled hA hres
    | false =>
      simp only [hhandled, Bool.false_eq_true, if_false]
      exact .throw hA fun u hu => hup e es u hhandled (hres u hu)

end Meets

end Rules

end Rely

/-! ## The whole journal -/

namespace Machine

variable {M : Machine Op Res C σ Req α} {cfg : Config Op Res (σ × List (JournalEntry Op Res σ)) Req α}

/-- Every entry of a journal has been performed in a run. -/
theorem performed (h : M.journaled.system.Reachable cfg) {e : JournalEntry Op Res σ} (he : e ∈ cfg.shared.2) :
    ∃ before after c, M.system.Reachable before ∧ before.shared = e.before ∧ after.shared = e.after ∧
      M.step before (.run e.pid c) = some after ∧ M.exec e.pid e.call.1 c e.before = some (e.call.2, e.after) := by
  have key : ∀ e ∈ cfg.shared.2, ∃ before after c, M.system.Reachable before ∧
      before.shared = e.before ∧ after.shared = e.after ∧ M.step before (.run e.pid c) = some after ∧
      M.exec e.pid e.call.1 c e.before = some (e.call.2, e.after) := by
    refine h.induction (P := fun cfg => ∀ e ∈ cfg.shared.2, ∃ before after c, M.system.Reachable before ∧
      before.shared = e.before ∧ after.shared = e.after ∧ M.step before (.run e.pid c) = some after ∧
      M.exec e.pid e.call.1 c e.before = some (e.call.2, e.after)) (fun e he => nomatch he) ?_
    intro cfg l cfg' hreach ih _ hstep e he
    have hmove := step_forget hstep
    rcases journaled_step hstep with ⟨q, r, rfl, hq, rfl⟩ | ⟨q, c, r, o, k, x, t, rfl, hq, hexec, rfl⟩
    · exact ih e he
    · rcases List.mem_append.1 he with he | he
      · exact ih e he
      · obtain rfl := List.mem_singleton.1 he
        exact ⟨cfg.forget, _, c, reachable_forget hreach, rfl, rfl, hmove, hexec⟩
  exact key e he

/-- Between its entries a journal follows any relation that the steps of the machine follow. -/
theorem journal_pairwise (step : σ → σ → Prop) (hrefl : ∀ s, step s s)
    (htrans : ∀ {s t u}, step s t → step t u → step s u)
    (hsteps : ∀ cfg q c cfg', M.system.Reachable cfg → M.step cfg (.run q c) = some cfg' →
      step cfg.shared cfg'.shared) (h : M.journaled.system.Reachable cfg) :
    cfg.shared.2.Pairwise (fun e e' => step e.after e'.before) ∧
      ∀ e ∈ cfg.shared.2, step e.after cfg.shared.1 := by
  refine h.induction (P := fun cfg => cfg.shared.2.Pairwise (fun e e' => step e.after e'.before) ∧
    ∀ e ∈ cfg.shared.2, step e.after cfg.shared.1) ⟨.nil, fun e he => nomatch he⟩ ?_
  intro cfg l cfg' hreach ih _ hstep
  have hmove := step_forget hstep
  rcases journaled_step hstep with ⟨q, r, rfl, hq, rfl⟩ | ⟨q, c, r, o, k, x, t, rfl, hq, hexec, rfl⟩
  · exact ih
  · have hlast : step cfg.shared.1 t := hsteps cfg.forget q c _ (reachable_forget hreach) hmove
    refine ⟨List.pairwise_append.2 ⟨ih.1, List.pairwise_singleton _ _, fun e he e' he' => ?_⟩, fun e he => ?_⟩
    · obtain rfl := List.mem_singleton.1 he'
      exact ih.2 e he
    · rcases List.mem_append.1 he with he | he
      · exact htrans (ih.2 e he) hlast
      · obtain rfl := List.mem_singleton.1 he
        exact hrefl t

/-- What did not hold at first, and holds now, some operation has brought about. -/
theorem exists_turn {P : σ → Prop} (h : M.journaled.system.Reachable cfg) (h0 : ¬P M.init)
    (h1 : P cfg.shared.1) : ∃ e ∈ cfg.shared.2, ¬P e.before ∧ P e.after := by
  revert h1
  refine h.induction (P := fun cfg => P cfg.shared.1 → ∃ e ∈ cfg.shared.2, ¬P e.before ∧ P e.after)
    (fun hinit => absurd hinit h0) ?_
  intro cfg l cfg' hreach ih _ hstep hP
  rcases journaled_step hstep with ⟨q, r, rfl, hq, rfl⟩ | ⟨q, c, r, o, k, x, t, rfl, hq, hexec, rfl⟩
  · exact ih hP
  · by_cases hbefore : P cfg.shared.1
    · obtain ⟨e, he, hturn⟩ := ih hbefore
      exact ⟨e, List.mem_append_left _ he, hturn⟩
    · exact ⟨_, List.mem_append_right _ List.mem_cons_self, hbefore, hP⟩

end Machine

end Concord.Base
