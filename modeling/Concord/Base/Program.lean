import Concord.Base.System
import Mathlib

/-!
# Concurrent programs over shared state

A program is a tree of awaited operations: at each `await` the program gives up control, the
operation acts on the shared state in one atomic step, and the program goes on with its result.
An operation's result type is `Except ε _`, so that an operation that fails raises in the
program, and `try`, `throw` and `finally` have their usual meaning (`Async`).

A machine runs any number of processes over one shared state. A process is started by a
request, which fixes its program; a step runs the next operation of one process, and the label of
the step carries what the environment decides for that operation.
-/

namespace Concord.Base

/-- A program: operations `Op` with results `Res`, ending in a value of type `α`. -/
inductive Program (Op : Type) (Res : Op → Type) (α : Type) : Type
  | ret (a : α)
  | await (o : Op) (k : Res o → Program Op Res α)

namespace Program

variable {Op : Type} {Res : Op → Type} {α β γ : Type}

def bind : Program Op Res α → (α → Program Op Res β) → Program Op Res β
  | .ret a, f => f a
  | .await o k, f => .await o fun x => (k x).bind f

instance : Monad (Program Op Res) where
  pure := .ret
  bind := bind

/-- The program of a single operation. -/
def perform (o : Op) : Program Op Res (Res o) := .await o .ret

/-- The operation a program performs next; `none` once it has ended. -/
def next? : Program Op Res α → Option Op
  | .ret _ => none
  | .await o _ => some o

/-- The value a program has ended with. -/
def result? : Program Op Res α → Option α
  | .ret a => some a
  | .await _ _ => none

@[simp] theorem next?_ret (a : α) : (ret a : Program Op Res α).next? = none := rfl

@[simp] theorem next?_await (o : Op) (k : Res o → Program Op Res α) :
    (await o k).next? = some o := rfl

@[simp] theorem result?_ret (a : α) : (ret a : Program Op Res α).result? = some a := rfl

@[simp] theorem result?_await (o : Op) (k : Res o → Program Op Res α) :
    (await o k).result? = none := rfl

theorem bind_ret (prog : Program Op Res α) : prog.bind ret = prog := by
  induction prog with
  | ret a => rfl
  | await o k ih =>
    rw [bind]
    congr 1
    exact funext ih

theorem bind_bind (prog : Program Op Res α) (f : α → Program Op Res β) (g : β → Program Op Res γ) :
    (prog.bind f).bind g = prog.bind fun a => (f a).bind g := by
  induction prog with
  | ret a => rfl
  | await o k ih =>
    rw [bind, bind, bind]
    congr 1
    exact funext ih

instance : LawfulMonad (Program Op Res) :=
  LawfulMonad.mk' _ bind_ret (fun _ _ => rfl) bind_bind

theorem result?_eq_some {prog : Program Op Res α} {a : α} (h : prog.result? = some a) :
    prog = .ret a := by
  cases prog with
  | ret b =>
    simp only [result?_ret, Option.some.injEq] at h
    rw [h]
  | await o k => simp at h

end Program

/-- Programs whose operations can raise: operation `o` gives a `Val o` or raises an `ε`. -/
abbrev Async (ε : Type) (Op : Type) (Val : Op → Type) (α : Type) : Type :=
  ExceptT ε (Program Op fun o => Except ε (Val o)) α

namespace Async

variable {ε Op : Type} {Val : Op → Type} {α β : Type}

/-- Awaits one operation. -/
def call (o : Op) : Async ε Op Val (Val o) := ExceptT.mk (Program.perform o)

/-- Gives `x`'s value when it ends and `e` when it raises `e`. -/
def attempt (x : Async ε Op Val α) : Async ε Op Val (Except ε α) :=
  ExceptT.mk (x.run >>= fun r => Program.ret (.ok r))

/-- Runs `fin` once `x` has ended or raised; what `fin` raises replaces what `x` raised. -/
def andFinally (x : Async ε Op Val α) (fin : Async ε Op Val Unit) : Async ε Op Val α := do
  let r ← attempt x
  fin
  match r with
  | .ok a => pure a
  | .error e => throw e

/-- Handles what `x` raises where `handled` holds of it; the rest goes on up. -/
def tryExcept (x : Async ε Op Val α) (handled : ε → Bool) (h : ε → Async ε Op Val α) :
    Async ε Op Val α := do
  match ← attempt x with
  | .ok a => pure a
  | .error e => if handled e then h e else throw e

/-- Raises `e` unless `c` holds. -/
def require (c : Bool) (e : ε) : Async ε Op Val Unit := if c then pure () else throw e

/-- The value of `x?`; raises `e` when there is none. -/
def orRaise (x? : Option α) (e : ε) : Async ε Op Val α :=
  match x? with
  | some a => pure a
  | none => throw e

end Async

/-- The name of a process. -/
abbrev Pid := Nat

/-- A process: the request that started it and what is left of its program. -/
structure Process (Op : Type) (Res : Op → Type) (Req α : Type) where
  req : Req
  rest : Program Op Res α

/-- Processes over shared states `σ`. `exec p o c s` performs `o` for process `p` with the
environment's decision `c`; `none` when the operation has to wait. -/
structure Machine (Op : Type) (Res : Op → Type) (C σ Req α : Type) where
  init : σ
  exec : Pid → (o : Op) → C → σ → Option (Res o × σ)
  body : Pid → Req → Program Op Res α

/-- A global state: the shared state and the processes started so far. -/
structure Config (Op : Type) (Res : Op → Type) (σ Req α : Type) where
  shared : σ
  procs : Pid → Option (Process Op Res Req α)

/-- A step starts a process or runs one. -/
inductive Label (C Req : Type)
  | spawn (p : Pid) (r : Req)
  | run (p : Pid) (c : C)

/-- The process that a step starts. -/
def Label.spawned? {C Req : Type} : Label C Req → Option Pid
  | spawn p _ => some p
  | run _ _ => none

namespace Machine

variable {Op : Type} {Res : Op → Type} {C σ Req α : Type} (M : Machine Op Res C σ Req α)

def step (cfg : Config Op Res σ Req α) : Label C Req → Option (Config Op Res σ Req α)
  | .spawn p r =>
    match cfg.procs p with
    | some _ => none
    | none => some { cfg with procs := Function.update cfg.procs p (some ⟨r, M.body p r⟩) }
  | .run p c =>
    match cfg.procs p with
    | some ⟨r, .await o k⟩ =>
      (M.exec p o c cfg.shared).map fun (x, s) =>
        { shared := s, procs := Function.update cfg.procs p (some ⟨r, k x⟩) }
    | _ => none

/-- The machine as a transition system, with no process at first. -/
def system : System (Config Op Res σ Req α) (Label C Req) where
  init := { shared := M.init, procs := fun _ => none }
  step := M.step

variable {M} {cfg cfg' : Config Op Res σ Req α}

theorem step_spawn {p : Pid} {r : Req} :
    M.step cfg (.spawn p r) = some cfg' ↔
      cfg.procs p = none ∧
        cfg' = { cfg with procs := Function.update cfg.procs p (some ⟨r, M.body p r⟩) } := by
  simp only [step]
  split
  · next h => simp [h]
  · next h => simp [h, eq_comm]

theorem step_run {p : Pid} {c : C} :
    M.step cfg (.run p c) = some cfg' ↔
      ∃ r o k x s, cfg.procs p = some ⟨r, .await o k⟩ ∧ M.exec p o c cfg.shared = some (x, s) ∧
        cfg' = { shared := s, procs := Function.update cfg.procs p (some ⟨r, k x⟩) } := by
  simp only [step]
  split
  · next r o k h =>
    simp only [Option.map_eq_some_iff, Prod.exists]
    constructor
    · rintro ⟨x, s, hx, rfl⟩
      exact ⟨r, o, k, x, s, h, hx, rfl⟩
    · rintro ⟨r', o', k', x, s, h', hx, rfl⟩
      rw [h] at h'
      simp only [Option.some.injEq, Process.mk.injEq, Program.await.injEq] at h'
      obtain ⟨rfl, rfl, h'⟩ := h'
      obtain rfl := eq_of_heq h'
      exact ⟨x, s, hx, rfl⟩
  · next h =>
    simp only [reduceCtorEq, false_iff, not_exists, not_and]
    intro r o k x s h' _ _
    exact h r o k h'

/-- A schedule that does not start `p` leaves it unstarted. -/
theorem procs_eq_none_of_replay {ok : Config Op Res σ Req α → Label C Req → Prop}
    [∀ s l, Decidable (ok s l)] {ls : List (Label C Req)}
    (h : M.system.replay ok cfg ls = some cfg') {p : Pid} (hp : cfg.procs p = none)
    (hls : p ∉ ls.filterMap Label.spawned?) : cfg'.procs p = none := by
  induction ls generalizing cfg with
  | nil =>
    obtain rfl := Option.some.inj h
    exact hp
  | cons l ls ih =>
    rw [System.replay] at h
    split at h
    · obtain ⟨mid, hmid, h⟩ := Option.bind_eq_some_iff.1 h
      cases l with
      | spawn q r =>
        obtain ⟨-, rfl⟩ := step_spawn.1 hmid
        simp only [List.filterMap_cons, Label.spawned?, List.mem_cons, not_or] at hls
        exact ih h ((Function.update_of_ne hls.1 _ _).trans hp) hls.2
      | run q c =>
        obtain ⟨r, o, k, x, s, hq, -, rfl⟩ := step_run.1 hmid
        have hne : p ≠ q := by
          rintro rfl
          rw [hp] at hq
          cases hq
        exact ih h ((Function.update_of_ne hne _ _).trans hp) hls
    · cases h

end Machine

end Concord.Base
