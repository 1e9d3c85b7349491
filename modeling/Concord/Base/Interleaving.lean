import Mathlib

/-!
# Interleavings

Two sequences come together in one, each in its own order. What a fold over an interleaving ends with often
does not depend on how the two are mixed: a part of the state that some step sets, and that every step keeps
once it has been set, is so in the end (`foldl_settles`).
-/

namespace Concord.Base

universe u v w

variable {α : Type u} {σ : Type v} {β : Type w}

/-- `merged` consists of `left` and `right`, each in its order. -/
inductive Interleaves : List α → List α → List α → Prop
  | nil : Interleaves [] [] []
  | left (x : α) {left right merged : List α} (h : Interleaves left right merged) :
    Interleaves (x :: left) right (x :: merged)
  | right (x : α) {left right merged : List α} (h : Interleaves left right merged) :
    Interleaves left (x :: right) (x :: merged)

namespace Interleaves

variable {left right merged : List α}

theorem mem_iff (h : Interleaves left right merged) {x : α} : x ∈ merged ↔ x ∈ left ∨ x ∈ right := by
  induction h with
  | nil => simp
  | left y h ih => rw [List.mem_cons, List.mem_cons, ih, or_assoc]
  | right y h ih => rw [List.mem_cons, List.mem_cons, ih, or_left_comm]

/-- One sequence after the other is an interleaving. -/
theorem append (left right : List α) : Interleaves left right (left ++ right) := by
  induction left with
  | nil =>
    induction right with
    | nil => exact .nil
    | cons y right ih => exact .right y ih
  | cons x left ih => exact .left x ih

end Interleaves

/-! ## Folds -/

section Folds

variable {step : σ → α → σ} {events : List α} {f : σ → β} {v : β} {s : σ}

/-- A part of the state that no step changes once it is `v`. -/
theorem foldl_keeps (hkeep : ∀ e ∈ events, ∀ s, f s = v → f (step s e) = v) (h : f s = v) :
    f (events.foldl step s) = v := by
  induction events generalizing s with
  | nil => exact h
  | cons e events ih =>
    rw [List.foldl_cons]
    have hfirst := hkeep e List.mem_cons_self s h
    exact ih (fun e he => hkeep e (List.mem_cons_of_mem _ he)) hfirst

/-- A part of the state that one step sets to `v`, wherever it comes, and that all others then keep. -/
theorem foldl_settles (hkeep : ∀ e ∈ events, ∀ s, f s = v → f (step s e) = v) {e : α} (he : e ∈ events)
    (hset : ∀ s, f (step s e) = v) : f (events.foldl step s) = v := by
  obtain ⟨before, after, rfl⟩ := List.append_of_mem he
  rw [List.foldl_append, List.foldl_cons]
  refine foldl_keeps (fun e' he' => hkeep e' ?_) (hset _)
  rw [List.mem_append, List.mem_cons]
  exact .inr (.inr he')

end Folds

end Concord.Base
