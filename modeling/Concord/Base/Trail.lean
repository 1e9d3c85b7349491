import Mathlib

/-!
# Trails

A trail from `a` to `b` is the log of a walk: its entries are pairs `(from, to)`, each entry starts
where the one before it ended, and every entry is a step of the relation `R`. When a rank
strictly grows along `R`, no entry occurs twice; a state with no step out of it can only be the
end.
-/

namespace Concord.Base

variable {α : Type*} {R : α → α → Prop}

/-- `l` is the log of a walk along `R` from `a` to `b`. -/
def Trail (R : α → α → Prop) : α → List (α × α) → α → Prop
  | a, [], b => a = b
  | a, (x, y) :: l, b => a = x ∧ R x y ∧ Trail R y l b

namespace Trail

variable {a b c x y : α} {l l' : List (α × α)}

@[simp] theorem nil_iff : Trail R a [] b ↔ a = b := Iff.rfl

@[simp] theorem cons_iff : Trail R a ((x, y) :: l) b ↔ a = x ∧ R x y ∧ Trail R y l b := Iff.rfl

theorem append_iff : Trail R a (l ++ l') c ↔ ∃ b, Trail R a l b ∧ Trail R b l' c := by
  induction l generalizing a with
  | nil => simp
  | cons m l ih =>
    obtain ⟨x, y⟩ := m
    simp only [List.cons_append, cons_iff, ih]
    constructor
    · rintro ⟨h, hr, b, hl, hl'⟩
      exact ⟨b, ⟨h, hr, hl⟩, hl'⟩
    · rintro ⟨b, ⟨h, hr, hl⟩, hl'⟩
      exact ⟨h, hr, b, hl, hl'⟩

theorem append (h : Trail R a l b) (h' : Trail R b l' c) : Trail R a (l ++ l') c :=
  append_iff.2 ⟨b, h, h'⟩

theorem snoc (h : Trail R a l b) (hr : R b c) : Trail R a (l ++ [(b, c)]) c :=
  h.append ⟨rfl, hr, rfl⟩

/-- A log determines where its walk ends. -/
theorem end_unique (h : Trail R a l b) (h' : Trail R a l c) : b = c := by
  induction l generalizing a with
  | nil => exact h.symm.trans h'
  | cons m l ih => exact ih h.2.2 h'.2.2

theorem step_of_mem (h : Trail R a l b) (hm : (x, y) ∈ l) : R x y := by
  induction l generalizing a with
  | nil => cases hm
  | cons m l ih =>
    rcases List.mem_cons.1 hm with rfl | hm
    · exact h.2.1
    · exact ih h.2.2 hm

/-- The entries of a trail each start where the one before ended. -/
theorem isChain (h : Trail R a l b) : l.IsChain fun m m' => m.2 = m'.1 := by
  induction l generalizing a with
  | nil => exact .nil
  | cons m l ih =>
    cases l with
    | nil => exact .singleton m
    | cons m' l => exact .cons_cons h.2.2.1 (ih h.2.2)

/-- The last entry of a nonempty trail ends where the trail does. -/
theorem getLast_eq (h : Trail R a l b) (hne : l ≠ []) : (l.getLast hne).2 = b := by
  induction l generalizing a with
  | nil => exact absurd rfl hne
  | cons m l ih =>
    cases l with
    | nil => exact h.2.2
    | cons m' l => exact ih h.2.2 (by simp)

/-- A walk that stands where no step leads on goes no further. -/
theorem stuck (h : Trail R a l b) (hs : ∀ z, ¬R a z) : l = [] ∧ a = b := by
  cases l with
  | nil => exact ⟨rfl, h⟩
  | cons m l =>
    obtain ⟨rfl, hr, -⟩ := h
    exact absurd hr (hs _)

/-- At most one entry leads into a state with no step out of it. -/
theorem countP_stuck_le_one (h : Trail R a l b) (p : α × α → Bool)
    (hp : ∀ m, p m = true → ∀ z, ¬R m.2 z) : l.countP p ≤ 1 := by
  induction l generalizing a with
  | nil => simp
  | cons m l ih =>
    obtain ⟨x, y⟩ := m
    cases hm : p (x, y) with
    | true =>
      obtain ⟨rfl, -⟩ := h.2.2.stuck (hp _ hm)
      simp [hm]
    | false =>
      rw [List.countP_cons_of_neg (by simp [hm])]
      exact ih h.2.2

section Rank

variable {rank : α → Nat} (hrank : ∀ x y, R x y → rank x < rank y)
include hrank

theorem rank_le (h : Trail R a l b) : rank a ≤ rank b := by
  induction l generalizing a with
  | nil => exact Nat.le_of_eq (congrArg rank h)
  | cons m l ih =>
    obtain ⟨rfl, hr, h⟩ := h
    exact Nat.le_trans (Nat.le_of_lt (hrank _ _ hr)) (ih h)

/-- Every entry of a trail starts at or above the rank of its beginning. -/
theorem rank_le_of_mem (h : Trail R a l b) (hm : (x, y) ∈ l) : rank a ≤ rank x := by
  obtain ⟨l₁, l₂, rfl⟩ := List.append_of_mem hm
  obtain ⟨d, h₁, rfl, -, -⟩ := append_iff.1 h
  exact h₁.rank_le hrank

/-- Every entry of a trail ends at or below the rank of its end. -/
theorem rank_end_le_of_mem (h : Trail R a l b) (hm : (x, y) ∈ l) : rank y ≤ rank b := by
  obtain ⟨l₁, l₂, rfl⟩ := List.append_of_mem hm
  obtain ⟨d, -, -, -, h₂⟩ := append_iff.1 h
  exact h₂.rank_le hrank

/-- A walk back to where it began has not moved. -/
theorem eq_nil_of_loop (h : Trail R a l a) : l = [] := by
  cases l with
  | nil => rfl
  | cons m l =>
    obtain ⟨x, y⟩ := m
    obtain ⟨rfl, hr, h⟩ := h
    have h₁ := h.rank_le hrank
    have h₂ := hrank _ _ hr
    omega

/-- No entry of a trail occurs twice. -/
theorem nodup (h : Trail R a l b) : l.Nodup := by
  induction l generalizing a with
  | nil => exact List.nodup_nil
  | cons m l ih =>
    obtain ⟨x, y⟩ := m
    obtain ⟨rfl, hr, h⟩ := h
    refine List.nodup_cons.2 ⟨fun hm => ?_, ih h⟩
    have h₁ := h.rank_le_of_mem hrank hm
    have h₂ := hrank _ _ hr
    omega

end Rank

end Trail

end Concord.Base
