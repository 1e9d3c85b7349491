import Concord.Base.Program

/-!
# Proof outlines of concurrent programs

A protocol says what processes may do to shared state and to each other. Each process carries a
ghost value, which stands for how far it is and what it holds; `Inv` relates the shared state to
the ghost values of all processes; `At` says which operation a process with a given ghost value
may stand at. A program *follows* the protocol from a ghost value if each of its operations, run
in any state with the invariant, leads to a ghost value with which the invariant holds again. The
other processes do not appear in this obligation: they keep the invariant and leave this process's
ghost value alone.

`Triple` is the form the proofs use: from ghost value `g` the program follows the protocol,
ending with `Q` or raising with `E`. `Outline.sound` is the soundness of the method: if every
request's program follows the protocol, the invariant holds in every reachable configuration and
every process stands where its ghost value says.
-/

namespace Concord.Base

variable {Op : Type} {Res : Op → Type} {C σ Req α β γ G : Type}

/-- A protocol for the processes of `M`, with ghost values in `G`. `ok` is the condition the
steps of the run are known to meet. -/
structure Protocol (M : Machine Op Res C σ Req α) (G : Type) where
  Inv : σ → (Pid → G) → Prop
  At : Pid → Req → G → Option Op → Prop
  ok : σ → Pid → Req → Op → C → Prop

namespace Protocol

variable {M : Machine Op Res C σ Req α} (P : Protocol M G) (p : Pid) (r : Req)

/-- The program follows the protocol from ghost value `g` and ends with `Q`. -/
def Follows : Program Op Res β → G → (β → G → Prop) → Prop
  | .ret a, g, Q => Q a g
  | .await o k, g, Q => P.At p r g (some o) ∧
      ∀ c s gs, P.Inv s gs → gs p = g → P.ok s p r o c →
        ∀ x s', M.exec p o c s = some (x, s') →
          ∃ g', P.Inv s' (Function.update gs p g') ∧ Follows (k x) g' Q

variable {P p r} {g : G}

theorem Follows.mono {prog : Program Op Res β} {Q Q' : β → G → Prop}
    (h : P.Follows p r prog g Q) (hQ : ∀ a g, Q a g → Q' a g) : P.Follows p r prog g Q' := by
  induction prog generalizing g with
  | ret a => exact hQ a g h
  | await o k ih =>
    refine ⟨h.1, fun c s gs hi hg hc x s' hx => ?_⟩
    obtain ⟨g', hi', hk⟩ := h.2 c s gs hi hg hc x s' hx
    exact ⟨g', hi', ih x hk⟩

theorem Follows.bind {prog : Program Op Res β} {f : β → Program Op Res γ}
    {Q : β → G → Prop} {Q' : γ → G → Prop} (h : P.Follows p r prog g Q)
    (hf : ∀ a g, Q a g → P.Follows p r (f a) g Q') : P.Follows p r (prog >>= f) g Q' := by
  induction prog generalizing g with
  | ret a => exact hf a g h
  | await o k ih =>
    refine ⟨h.1, fun c s gs hi hg hc x s' hx => ?_⟩
    obtain ⟨g', hi', hk⟩ := h.2 c s gs hi hg hc x s' hx
    exact ⟨g', hi', ih x hk⟩

end Protocol

section Triple

variable {ε : Type} {Val : Op → Type} {M : Machine Op (fun o => Except ε (Val o)) C σ Req α}
  {P : Protocol M G} {p : Pid} {r : Req} {g : G}

/-- The postcondition of a program that ends with `Q` or raises with `E`. -/
def outcome (Q : β → G → Prop) (E : ε → G → Prop) : Except ε β → G → Prop
  | .ok a, g => Q a g
  | .error e, g => E e g

variable (P p r) in
/-- From ghost value `g`, `x` follows the protocol; it ends with `Q` or raises with `E`. -/
def Protocol.Triple (g : G) (x : Async ε Op Val β) (Q : β → G → Prop) (E : ε → G → Prop) : Prop :=
  P.Follows p r x.run g (outcome Q E)

namespace Protocol.Triple

variable {x : Async ε Op Val β} {Q Q' : β → G → Prop} {E E' : ε → G → Prop}

theorem mono (h : P.Triple p r g x Q E) (hQ : ∀ a g, Q a g → Q' a g)
    (hE : ∀ e g, E e g → E' e g) : P.Triple p r g x Q' E' :=
  Follows.mono h fun res g h => by
    cases res with
    | ok a => exact hQ a g h
    | error e => exact hE e g h

theorem pure {a : β} (h : Q a g) : P.Triple p r g (Pure.pure a) Q E := h

theorem throw {e : ε} (h : E e g) :
    P.Triple p r g (MonadExcept.throw e : Async ε Op Val β) Q E := h

theorem bind {f : β → Async ε Op Val γ} {R : γ → G → Prop}
    (h : P.Triple p r g x Q E) (hf : ∀ a g, Q a g → P.Triple p r g (f a) R E) :
    P.Triple p r g (x >>= f) R E := by
  refine Follows.bind h fun res g' h' => ?_
  cases res with
  | ok a => exact hf a g' h'
  | error e => exact h'

theorem map {f : β → γ} {R : γ → G → Prop} (h : P.Triple p r g x Q E)
    (hf : ∀ a g, Q a g → R (f a) g) : P.Triple p r g (f <$> x) R E := by
  refine Follows.bind h fun res g' h' => ?_
  cases res with
  | ok a => exact hf a g' h'
  | error e => exact h'

theorem ite {c : Prop} [Decidable c] {y : Async ε Op Val β} (ht : c → P.Triple p r g x Q E)
    (hf : ¬c → P.Triple p r g y Q E) : P.Triple p r g (if c then x else y) Q E := by
  split
  · exact ht ‹_›
  · exact hf ‹_›

/-- The rule of a single operation. -/
theorem call {o : Op} {Q : Val o → G → Prop} (hat : P.At p r g (some o))
    (h : ∀ c s gs, P.Inv s gs → gs p = g → P.ok s p r o c →
      ∀ x s', M.exec p o c s = some (x, s') →
        ∃ g', P.Inv s' (Function.update gs p g') ∧ outcome Q E x g') :
    P.Triple p r g (Async.call o) Q E :=
  ⟨hat, h⟩

theorem attempt (h : P.Triple p r g x Q E) :
    P.Triple p r g (Async.attempt x) (outcome Q E) E' :=
  Follows.bind h fun _ _ h' => h'

theorem andFinally {fin : Async ε Op Val Unit} (h : P.Triple p r g x Q E)
    (hok : ∀ a g, Q a g → P.Triple p r g fin (fun _ g => Q' a g) E')
    (herr : ∀ e g, E e g → P.Triple p r g fin (fun _ g => E' e g) E') :
    P.Triple p r g (Async.andFinally x fin) Q' E' := by
  refine bind (attempt h) fun res g h' => ?_
  cases res with
  | ok a => exact bind (hok a g h') fun _ g h'' => pure h''
  | error e => exact bind (herr e g h') fun _ g h'' => throw h''

theorem tryExcept {handled : ε → Bool} {f : ε → Async ε Op Val β} (h : P.Triple p r g x Q E)
    (hf : ∀ e g, handled e = true → E e g → P.Triple p r g (f e) Q E')
    (hup : ∀ e g, handled e = false → E e g → E' e g) :
    P.Triple p r g (Async.tryExcept x handled f) Q E' := by
  refine bind (attempt h) fun res g h' => ?_
  cases res with
  | ok a => exact pure h'
  | error e =>
    dsimp only
    cases hh : handled e with
    | true => exact hf e g hh h'
    | false => exact throw (hup e g hh h')

theorem require {c : Bool} {e : ε} {Q : Unit → G → Prop} (hc : c = true → Q () g)
    (he : c = false → E e g) : P.Triple p r g (Async.require c e) Q E := by
  unfold Async.require
  cases c with
  | true => exact pure (hc rfl)
  | false => exact throw (he rfl)

theorem orRaise {x? : Option β} {e : ε} (hs : ∀ a, x? = some a → Q a g)
    (hn : x? = none → E e g) : P.Triple p r g (Async.orRaise x? e) Q E := by
  cases x? with
  | some a => exact pure (hs a rfl)
  | none => exact throw (hn rfl)

end Protocol.Triple

/-! A program is steady if it follows the protocol without moving its own ghost value. -/

variable (P p r g) in
/-- `x` ends, or raises, with the ghost value it began with. -/
def Protocol.Steady (x : Async ε Op Val β) : Prop :=
  P.Triple p r g x (fun _ g' => g' = g) fun _ g' => g' = g

namespace Protocol.Steady

open Protocol (Triple)

variable {x : Async ε Op Val β}

theorem triple (h : P.Steady p r g x) {Q : β → G → Prop} {E : ε → G → Prop}
    (hQ : ∀ a, Q a g) (hE : ∀ e, E e g) : P.Triple p r g x Q E :=
  h.mono (fun a _ hg => hg ▸ hQ a) fun e _ hg => hg ▸ hE e

/-- A steady program does not matter to what comes after it. -/
theorem andThen (h : P.Steady p r g x) {f : β → Async ε Op Val γ} {Q : γ → G → Prop}
    {E : ε → G → Prop} (hE : ∀ e, E e g) (hf : ∀ a, P.Triple p r g (f a) Q E) :
    P.Triple p r g (x >>= f) Q E :=
  Triple.bind (h.triple (fun _ => rfl) hE) fun a _ hg => hg ▸ hf a

theorem pure (a : β) : P.Steady p r g (Pure.pure a : Async ε Op Val β) := Triple.pure rfl

theorem throw (e : ε) : P.Steady p r g (MonadExcept.throw e : Async ε Op Val β) :=
  Triple.throw rfl

theorem bind {f : β → Async ε Op Val γ} (h : P.Steady p r g x)
    (hf : ∀ a, P.Steady p r g (f a)) : P.Steady p r g (x >>= f) :=
  h.andThen (fun _ => rfl) hf

theorem ite {c : Prop} [Decidable c] {y : Async ε Op Val β} (hx : P.Steady p r g x)
    (hy : P.Steady p r g y) : P.Steady p r g (if c then x else y) :=
  Triple.ite (fun _ => hx) fun _ => hy

theorem andFinally {fin : Async ε Op Val Unit} (h : P.Steady p r g x)
    (hfin : P.Steady p r g fin) : P.Steady p r g (Async.andFinally x fin) :=
  Triple.andFinally h (fun _ _ hg => hg ▸ hfin) fun _ _ hg => hg ▸ hfin

theorem tryExcept {handled : ε → Bool} {f : ε → Async ε Op Val β} (h : P.Steady p r g x)
    (hf : ∀ e, P.Steady p r g (f e)) : P.Steady p r g (Async.tryExcept x handled f) :=
  Triple.tryExcept h (fun e _ _ hg => hg ▸ hf e) fun _ _ _ hg => hg

theorem require (c : Bool) (e : ε) :
    P.Steady p r g (Async.require c e : Async ε Op Val Unit) :=
  Triple.require (fun _ => rfl) fun _ => rfl

theorem orRaise (x? : Option β) (e : ε) :
    P.Steady p r g (Async.orRaise x? e : Async ε Op Val β) :=
  Triple.orRaise (fun _ _ => rfl) fun _ => rfl

end Protocol.Steady

end Triple

/-! ## Soundness -/

/-- The condition a machine's steps meet when the operations they run meet `ok`. -/
def Machine.guard (_M : Machine Op Res C σ Req α) (ok : σ → Pid → Req → Op → C → Prop) :
    Config Op Res σ Req α → Label C Req → Prop
  | _, .spawn _ _ => True
  | cfg, .run p c => ∀ r o k, cfg.procs p = some ⟨r, .await o k⟩ → ok cfg.shared p r o c

variable {M : Machine Op Res C σ Req α}

instance (ok : σ → Pid → Req → Op → C → Prop) [∀ s p r o c, Decidable (ok s p r o c)]
    (cfg : Config Op Res σ Req α) : (l : Label C Req) → Decidable (M.guard ok cfg l)
  | .spawn _ _ => .isTrue trivial
  | .run p c =>
    match h : cfg.procs p with
    | some ⟨r, .await o k⟩ =>
      decidable_of_iff (ok cfg.shared p r o c) ⟨fun hok r' o' k' h' => by
        rw [h] at h'
        cases h'
        exact hok, fun hg => hg r o k h⟩
    | some ⟨r, .ret a⟩ => .isTrue fun r' o' k' h' => by rw [h] at h'; cases h'
    | none => .isTrue fun r' o' k' h' => by rw [h] at h'; cases h'

theorem Machine.guard_of_forall {ok : σ → Pid → Req → Op → C → Prop}
    (h : ∀ s p r o c, ok s p r o c) (cfg : Config Op Res σ Req α) (l : Label C Req) :
    M.guard ok cfg l := by
  cases l with
  | spawn p r => trivial
  | run p c => exact fun r o k _ => h _ _ _ _ _

/-- A protocol that the program of every request follows. -/
structure Outline (P : Protocol M G) where
  idle : G
  start : Pid → Req → G
  done : Pid → Req → α → G → Prop
  init : P.Inv M.init fun _ => idle
  spawn : ∀ s gs p r, P.Inv s gs → gs p = idle → P.Inv s (Function.update gs p (start p r))
  body : ∀ p r, P.Follows p r (M.body p r) (start p r) (done p r)
  at_end : ∀ p r a g, done p r a g → P.At p r g none

namespace Outline

variable {P : Protocol M G} (O : Outline P)

/-- The ghost values `gs` fit the configuration. -/
def Fits (cfg : Config Op Res σ Req α) (gs : Pid → G) : Prop :=
  P.Inv cfg.shared gs ∧
    (∀ p, cfg.procs p = none → gs p = O.idle) ∧
    ∀ p r prog, cfg.procs p = some ⟨r, prog⟩ → P.Follows p r prog (gs p) (O.done p r)

variable {O} {cfg cfg' : Config Op Res σ Req α} {gs : Pid → G}

/-- One step keeps a configuration within its outline. -/
theorem Fits.step (h : O.Fits cfg gs) {l : Label C Req} (hok : M.guard P.ok cfg l)
    (hs : M.step cfg l = some cfg') : ∃ gs', O.Fits cfg' gs' := by
  obtain ⟨hinv, hidle, hprog⟩ := h
  cases l with
  | spawn p r =>
    obtain ⟨hp, rfl⟩ := Machine.step_spawn.1 hs
    refine ⟨Function.update gs p (O.start p r), O.spawn _ _ p r hinv (hidle p hp), ?_, ?_⟩
    · intro q hq
      by_cases hqp : q = p
      · subst hqp
        simp at hq
      · simp only [Function.update_of_ne hqp] at hq ⊢
        exact hidle q hq
    · intro q r' prog hq
      by_cases hqp : q = p
      · subst hqp
        simp only [Function.update_self, Option.some.injEq, Process.mk.injEq] at hq ⊢
        obtain ⟨rfl, rfl⟩ := hq
        exact O.body q r
      · simp only [Function.update_of_ne hqp] at hq ⊢
        exact hprog q r' prog hq
  | run p c =>
    obtain ⟨r, o, k, x, s, hp, hx, rfl⟩ := Machine.step_run.1 hs
    obtain ⟨g', hinv', hk⟩ := (hprog p r _ hp).2 c _ gs hinv rfl (hok r o k hp) x s hx
    refine ⟨Function.update gs p g', hinv', ?_, ?_⟩
    · intro q hq
      by_cases hqp : q = p
      · subst hqp
        simp at hq
      · simp only [Function.update_of_ne hqp] at hq ⊢
        exact hidle q hq
    · intro q r' prog hq
      by_cases hqp : q = p
      · subst hqp
        simp only [Function.update_self, Option.some.injEq, Process.mk.injEq] at hq ⊢
        obtain ⟨rfl, rfl⟩ := hq
        exact hk
      · simp only [Function.update_of_ne hqp] at hq ⊢
        exact hprog q r' prog hq

/-- **Soundness of proof outlines.** Every configuration reached by steps that meet `ok` fits the
outline, where `P.ok` may ask for more than `ok`: whatever is known of the reachable
configurations. -/
theorem sound (O : Outline P) {ok : Config Op Res σ Req α → Label C Req → Prop}
    (hok : ∀ cfg l, M.system.ReachableUnder ok cfg → ok cfg l → M.guard P.ok cfg l)
    (h : M.system.ReachableUnder ok cfg) : ∃ gs, O.Fits cfg gs := by
  refine h.induction (P := fun cfg => ∃ gs, O.Fits cfg gs) ?_ fun s l t hs ih hl ht => ?_
  · exact ⟨fun _ => O.idle, O.init, fun _ _ => rfl, fun p r prog hp => by
      simp [Machine.system] at hp⟩
  · obtain ⟨gs, hgs⟩ := ih
    exact hgs.step (hok s l hs hl) ht

/-- A process that has not ended stands at an operation its ghost value allows. -/
theorem Fits.at_next (h : O.Fits cfg gs) {p : Pid} {r : Req} {prog : Program Op Res α}
    (hp : cfg.procs p = some ⟨r, prog⟩) : P.At p r (gs p) prog.next? := by
  have hf := h.2.2 p r prog hp
  cases prog with
  | ret a => exact O.at_end p r a _ hf
  | await o k => exact hf.1

/-- A process that has ended meets its postcondition. -/
theorem Fits.ended (h : O.Fits cfg gs) {p : Pid} {r : Req} {a : α}
    (hp : cfg.procs p = some ⟨r, .ret a⟩) : O.done p r a (gs p) :=
  h.2.2 p r _ hp

end Outline

end Concord.Base
