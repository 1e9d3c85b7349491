import Concord.Base.Outline

/-!
# A program that runs alone

What a program does when no other process runs between its operations. The environment's decisions are
a sequence, of which each operation takes the next one. `Ends x s a t`: started in `s`, the program `x`
ends with `a` in `t`. `Leaves s x Q E` is about every course: if `x` ends, it ends with `Q` or raises
with `E`.

An operation that has to wait never gets what it waits for, so there may be no end.
-/

namespace Concord.Base

variable {Op : Type} {Res : Op → Type} {C σ α β : Type}

/-- The environment's decisions to come, and the shared state. -/
abbrev Course (C σ : Type) := (Nat → C) × σ

/-- Runs a program to its end; `none` if it has to wait. -/
def Program.alone (exec : (o : Op) → C → σ → Option (Res o × σ)) :
    Program Op Res α → Course C σ → Option (α × Course C σ)
  | .ret a, s => some (a, s)
  | .await o k, s =>
    (exec o (s.1 0) s.2).bind fun (x, t) => (k x).alone exec (fun n => s.1 (n + 1), t)

section Program

variable {exec : (o : Op) → C → σ → Option (Res o × σ)}

theorem Program.alone_bind {prog : Program Op Res α} {f : α → Program Op Res β}
    {s : Course C σ} :
    (prog >>= f).alone exec s = (prog.alone exec s).bind fun (a, t) => (f a).alone exec t := by
  change (prog.bind f).alone exec s = _
  induction prog generalizing s with
  | ret a => rfl
  | await o k ih =>
    simp only [Program.bind, Program.alone]
    cases exec o (s.1 0) s.2 with
    | none => rfl
    | some result => exact ih result.1

/-- A process that runs alone takes a run of its machine. -/
theorem Machine.path_of_alone {Req : Type} {M : Machine Op Res C σ Req α} {p : Pid} {r : Req}
    {prog : Program Op Res α} {s t : Course C σ} {a : α}
    (h : prog.alone (M.exec p) s = some (a, t)) {cfg : Config Op Res σ Req α}
    (hp : cfg.procs p = some ⟨r, prog⟩) (hs : cfg.shared = s.2) :
    M.system.Path System.anyStep cfg
      { shared := t.2, procs := Function.update cfg.procs p (some ⟨r, .ret a⟩) } := by
  induction prog generalizing s cfg with
  | ret b =>
    obtain ⟨rfl, rfl⟩ := Prod.mk.inj (Option.some.inj h)
    rw [← hp, Function.update_eq_self, ← hs]
    exact Relation.ReflTransGen.refl
  | await o k ih =>
    obtain ⟨⟨x, u⟩, hexec, hrest⟩ := Option.bind_eq_some_iff.1 h
    rw [← hs] at hexec
    have hstep : M.step cfg (.run p (s.1 0)) =
        some { shared := u, procs := Function.update cfg.procs p (some ⟨r, k x⟩) } :=
      Machine.step_run.2 ⟨r, o, k, x, u, hp, hexec, rfl⟩
    have hpath : M.system.Path System.anyStep
        { shared := u, procs := Function.update cfg.procs p (some ⟨r, k x⟩) }
        { shared := t.2, procs := Function.update cfg.procs p (some ⟨r, .ret a⟩) } := by
      have hrest' := @ih x _ hrest
        { shared := u, procs := Function.update cfg.procs p (some ⟨r, k x⟩) } (by simp) rfl
      simpa only [Function.update_idem] using hrest'
    exact Relation.ReflTransGen.head ⟨.run p (s.1 0), trivial, hstep⟩ hpath

end Program

section Async

variable {ε : Type} {Val : Op → Type}

section Runs

variable {exec : (o : Op) → C → σ → Option (Except ε (Val o) × σ)} {x : Async ε Op Val α}
  {s : Course C σ}

theorem Async.alone_bind {f : α → Async ε Op Val β} :
    (x >>= f).run.alone exec s = (x.run.alone exec s).bind fun (r, t) =>
      match r with
      | .ok a => (f a).run.alone exec t
      | .error e => some (.error e, t) := by
  change (x.run >>= ExceptT.bindCont f).alone exec s = _
  rw [Program.alone_bind]
  congr 1
  funext ⟨r, t⟩
  cases r with
  | ok a => rfl
  | error e => rfl

/-- What comes after a part that ends. -/
theorem Async.alone_then {f : α → Async ε Op Val β} {a : α} {t : Course C σ}
    (h : x.run.alone exec s = some (.ok a, t)) :
    (x >>= f).run.alone exec s = (f a).run.alone exec t := by
  rw [Async.alone_bind, h]
  rfl

theorem Async.alone_require {e : ε} {f : Unit → Async ε Op Val β} {c : Bool} :
    (Async.require c e >>= f).run.alone exec s =
      if c then (f ()).run.alone exec s else some (.error e, s) := by
  cases c with
  | true => rfl
  | false => rfl

theorem Async.alone_call {o : Op} :
    (Async.call o).run.alone exec s =
      (exec o (s.1 0) s.2).map fun (r, t) => (r, fun n => s.1 (n + 1), t) := by
  change (exec o (s.1 0) s.2).bind _ = _
  cases exec o (s.1 0) s.2 with
  | none => rfl
  | some result => rfl

theorem Async.alone_tryExcept {handled : ε → Bool} {h : ε → Async ε Op Val α} :
    (Async.tryExcept x handled h).run.alone exec s = (x.run.alone exec s).bind fun (r, t) =>
      match r with
      | .ok a => some (.ok a, t)
      | .error e => if handled e then (h e).run.alone exec t else some (.error e, t) := by
  have hattempt : (Async.attempt x).run.alone exec s =
      (x.run.alone exec s).map fun (r, t) => (.ok r, t) := by
    change (x.run >>= fun r => Program.ret (Except.ok r)).alone exec s = _
    rw [Program.alone_bind]
    cases x.run.alone exec s with
    | none => rfl
    | some result => rfl
  unfold Async.tryExcept
  rw [Async.alone_bind, hattempt]
  cases x.run.alone exec s with
  | none => rfl
  | some result =>
    obtain ⟨r, t⟩ := result
    cases r with
    | ok a => rfl
    | error e =>
      simp only [Option.map_some, Option.bind_some]
      split
      · rfl
      · rfl

end Runs

/-- Run alone from `s`, the program ends with `a` in `t`. -/
def Ends (exec : (o : Op) → C → σ → Option (Except ε (Val o) × σ)) (x : Async ε Op Val α)
    (s : Course C σ) (a : α) (t : Course C σ) : Prop :=
  x.run.alone exec s = some (.ok a, t)

namespace Ends

variable {exec : (o : Op) → C → σ → Option (Except ε (Val o) × σ)} {x : Async ε Op Val α}
  {s t u : Course C σ} {a : α} {b : β}

theorem pure (a : α) (s : Course C σ) : Ends exec (Pure.pure a : Async ε Op Val α) s a s := rfl

theorem call {o : Op} {v : Val o} {t : σ} (h : exec o (s.1 0) s.2 = some (.ok v, t)) :
    Ends exec (Async.call o) s v (fun n => s.1 (n + 1), t) := by
  change (exec o (s.1 0) s.2).bind _ = _
  rw [h]
  rfl

theorem bind {f : α → Async ε Op Val β} (h : Ends exec x s a t) (hf : Ends exec (f a) t b u) :
    Ends exec (x >>= f) s b u := by
  change (x.run >>= ExceptT.bindCont f).alone exec s = _
  rw [Program.alone_bind, h]
  exact hf

/-- The rule of one operation and what comes after it. -/
theorem step {o : Op} {v : Val o} {f : Val o → Async ε Op Val β} {t : σ}
    (h : exec o (s.1 0) s.2 = some (.ok v, t)) (hf : Ends exec (f v) (fun n => s.1 (n + 1), t) b u) :
    Ends exec (Async.call o >>= f) s b u :=
  bind (call h) hf

theorem andFinally {fin : Async ε Op Val Unit} (h : Ends exec x s a t) (hfin : Ends exec fin t () u) :
    Ends exec (Async.andFinally x fin) s a u := by
  have hattempt : Ends exec (Async.attempt x) s (.ok a) t := by
    change (x.run >>= fun r => Program.ret (Except.ok r)).alone exec s = _
    rw [Program.alone_bind, h]
    rfl
  exact bind hattempt (bind hfin (pure a u))

end Ends

/-- Run alone from `s`, whatever the environment decides, the program ends with `Q` or raises with
`E`. -/
def Leaves (exec : (o : Op) → C → σ → Option (Except ε (Val o) × σ)) (s : σ) (x : Async ε Op Val α)
    (Q : α → σ → Prop) (E : ε → σ → Prop) : Prop :=
  ∀ (c : Nat → C) r t, x.run.alone exec (c, s) = some (r, t) → outcome Q E r t.2

namespace Leaves

variable {exec : (o : Op) → C → σ → Option (Except ε (Val o) × σ)} {x : Async ε Op Val α} {s : σ}
  {Q : α → σ → Prop} {E : ε → σ → Prop} {R : β → σ → Prop}

theorem pure {a : α} (h : Q a s) : Leaves exec s (Pure.pure a) Q E := by
  rintro c r t ht
  cases ht
  exact h

theorem throw {e : ε} (h : E e s) :
    Leaves exec s (MonadExcept.throw e : Async ε Op Val α) Q E := by
  rintro c r t ht
  cases ht
  exact h

theorem bind {f : α → Async ε Op Val β} (h : Leaves exec s x Q E)
    (hf : ∀ a t, Q a t → Leaves exec t (f a) R E) : Leaves exec s (x >>= f) R E := by
  intro c r u hu
  change (x.run >>= ExceptT.bindCont f).alone exec (c, s) = _ at hu
  rw [Program.alone_bind] at hu
  obtain ⟨⟨res, c', t⟩, ht, hu⟩ := Option.bind_eq_some_iff.1 hu
  have hres := h c res (c', t) ht
  cases res with
  | ok a => exact hf a t hres c' r u hu
  | error e =>
    cases hu
    exact hres

theorem call {o : Op} {Q : Val o → σ → Prop}
    (h : ∀ c r t, exec o c s = some (r, t) → outcome Q E r t) : Leaves exec s (Async.call o) Q E := by
  intro c r t ht
  change (exec o (c 0) s).bind _ = _ at ht
  obtain ⟨⟨r', t'⟩, hexec, ht⟩ := Option.bind_eq_some_iff.1 ht
  cases ht
  exact h _ _ _ hexec

theorem require {c : Bool} {e : ε} {Q : Unit → σ → Prop} (hc : c = true → Q () s)
    (he : c = false → E e s) : Leaves exec s (Async.require c e) Q E := by
  unfold Async.require
  cases c with
  | true => exact pure (hc rfl)
  | false => exact throw (he rfl)

theorem orRaise {x? : Option α} {e : ε} (hs : ∀ a, x? = some a → Q a s) (hn : x? = none → E e s) :
    Leaves exec s (Async.orRaise x? e) Q E := by
  cases x? with
  | some a => exact pure (hs a rfl)
  | none => exact throw (hn rfl)

theorem mono {Q' : α → σ → Prop} {E' : ε → σ → Prop} (h : Leaves exec s x Q E)
    (hQ : ∀ a t, Q a t → Q' a t) (hE : ∀ e t, E e t → E' e t) : Leaves exec s x Q' E' := by
  intro c r t ht
  have hres := h c r t ht
  cases r with
  | ok a => exact hQ a t.2 hres
  | error e => exact hE e t.2 hres

end Leaves

/-! ## One decision throughout -/

section Calm

variable {exec : (o : Op) → C → σ → Option (Except ε (Val o) × σ)} {c : C} {s : σ}

theorem Program.alone_constant {exec : (o : Op) → C → σ → Option (Except ε (Val o) × σ)}
    {prog : Program Op (fun o => Except ε (Val o)) α} {a : α} {t : Course C σ}
    (h : prog.alone exec (fun _ => c, s) = some (a, t)) : t.1 = fun _ => c := by
  induction prog generalizing s with
  | ret b =>
    cases h
    rfl
  | await o k ih =>
    obtain ⟨⟨x, u⟩, -, h⟩ := Option.bind_eq_some_iff.1 h
    exact ih x h

/-- Runs a program to its end, the environment deciding the same each time. -/
def Async.calm (exec : (o : Op) → C → σ → Option (Except ε (Val o) × σ)) (c : C)
    (x : Async ε Op Val α) (s : σ) : Option (Except ε α × σ) :=
  (x.run.alone exec (fun _ => c, s)).map fun (r, t) => (r, t.2)

theorem Async.calm_bind {x : Async ε Op Val α} {f : α → Async ε Op Val β} :
    Async.calm exec c (x >>= f) s = (Async.calm exec c x s).bind fun (r, t) =>
      match r with
      | .ok a => Async.calm exec c (f a) t
      | .error e => some (.error e, t) := by
  unfold Async.calm
  rw [Async.alone_bind]
  cases hx : x.run.alone exec (fun _ => c, s) with
  | none => rfl
  | some result =>
    obtain ⟨r, d, t⟩ := result
    obtain rfl : d = fun _ => c := Program.alone_constant hx
    cases r <;> rfl

theorem Async.calm_call (o : Op) : Async.calm exec c (Async.call o) s = exec o c s := by
  unfold Async.calm
  rw [Async.alone_call, Option.map_map]
  cases exec o c s <;> rfl

/-- The rule of one operation that succeeds and what comes after it. -/
theorem Async.calm_step {o : Op} {v : Val o} {f : Val o → Async ε Op Val β} {t : σ}
    (h : exec o c s = some (.ok v, t)) :
    Async.calm exec c (Async.call o >>= f) s = Async.calm exec c (f v) t := by
  rw [Async.calm_bind, Async.calm_call, h]
  rfl

theorem Async.calm_require {p : Bool} {e : ε} {f : Unit → Async ε Op Val β} :
    Async.calm exec c (Async.require p e >>= f) s =
      if p then Async.calm exec c (f ()) s else some (.error e, s) := by
  cases p <;> rfl

theorem Async.calm_orRaise {x? : Option α} {e : ε} {f : α → Async ε Op Val β} :
    Async.calm exec c (Async.orRaise x? e >>= f) s =
      match x? with
      | some a => Async.calm exec c (f a) s
      | none => some (.error e, s) := by
  cases x? <;> rfl

end Calm

end Async

end Concord.Base
