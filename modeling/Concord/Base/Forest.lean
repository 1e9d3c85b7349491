import Mathlib

/-!
# Forests given by parents

A finite or infinite collection of nodes, each of which has a parent or is a root: `F k` is `none` if
there is no node `k`, and else the parent of `k`, if it has one. It is a forest if from every node the
parents lead to a root. Forests are closed under adding a node, under moving a node to a place that is
not below it, and under removing nodes with everything below them.

A walk from a node to the root takes time, and the forest can change under it. `IsTrail` says what a
walk has read; `Undisturbed` compares that with the forest there is now.
-/

namespace Concord.Base

universe u

variable {K : Type u}

/-- From `k` the parents lead to a root. -/
inductive Rooted (F : K → Option (Option K)) : K → Prop
  | root {k : K} (h : F k = some none) : Rooted F k
  | child {k parent : K} (h : F k = some (some parent)) (hparent : Rooted F parent) : Rooted F k

/-- The node is `top` or below it. -/
inductive Under (F : K → Option (Option K)) (top : K) : K → Prop
  | top : Under F top top
  | child {k parent : K} (h : F k = some (some parent)) (hparent : Under F top parent) : Under F top k

/-- Every node's parents lead to a root. -/
def IsForest (F : K → Option (Option K)) : Prop := ∀ k, (F k).isSome → Rooted F k

variable {F F' : K → Option (Option K)} {k top : K}

theorem Rooted.isSome (h : Rooted F k) : (F k).isSome := by
  cases h with
  | root h => rw [h]; rfl
  | child h _ => rw [h]; rfl

theorem Under.trans {mid : K} (h : Under F mid k) (hmid : Under F top mid) : Under F top k := by
  induction h with
  | top => exact hmid
  | child h _ ih => exact .child h ih

/-- No node is below itself. -/
theorem Rooted.not_under {parent : K} (h : Rooted F k) (hk : F k = some (some parent)) :
    ¬Under F k parent := by
  induction h generalizing parent with
  | root h =>
    rw [h] at hk
    cases hk
  | @child k p h _ ih =>
    rw [h] at hk
    obtain rfl := Option.some.inj (Option.some.inj hk)
    intro hunder
    cases hunder with
    | top => exact ih h .top
    | child hp hunder => exact ih hp (hunder.trans (.child h .top))

/-- A node whose path to the root has not changed. -/
theorem Rooted.of_not_under (h : Rooted F k) (hk : ¬Under F top k)
    (hsame : ∀ i, i ≠ top → (F i).isSome → F' i = F i) : Rooted F' k := by
  induction h with
  | @root k h =>
    have hne : k ≠ top := by
      rintro rfl
      exact hk .top
    exact .root ((hsame k hne (by simp [h])).trans h)
  | @child k p h _ ih =>
    have hne : k ≠ top := by
      rintro rfl
      exact hk .top
    exact .child ((hsame k hne (by simp [h])).trans h) (ih fun hp => hk (.child h hp))

namespace IsForest

theorem parent (h : IsForest F) {parent : K} (hk : F k = some (some parent)) : Rooted F parent := by
  cases h k (by simp [hk]) with
  | root h =>
    rw [hk] at h
    cases h
  | child h hp =>
    rw [hk] at h
    obtain rfl := Option.some.inj (Option.some.inj h)
    exact hp

/-- A new node, which is a root or has a parent. -/
theorem add (h : IsForest F) (k : K) (parent : Option K) (hnew : F k = none)
    (hparent : ∀ i ∈ parent, (F i).isSome) (hk : F' k = some parent)
    (hsame : ∀ i, i ≠ k → F' i = F i) : IsForest F' := by
  have hnot : ∀ i, Rooted F i → ¬Under F k i := by
    intro i hi hunder
    induction hunder with
    | top =>
      have hsome := hi.isSome
      rw [hnew] at hsome
      cases hsome
    | child hc _ ih => exact ih (h.parent hc)
  have hold : ∀ i, Rooted F i → Rooted F' i := fun i hi =>
    hi.of_not_under (hnot i hi) fun j hj _ => hsame j hj
  intro i hi
  by_cases hik : i = k
  · subst hik
    cases parent with
    | none => exact .root hk
    | some p => exact .child hk (hold p (h p (hparent p rfl)))
  · rw [hsame i hik] at hi
    exact hold i (h i hi)

/-- A node moves to a place that is not below it. -/
theorem move (h : IsForest F) (k : K) (parent : Option K)
    (hparent : ∀ i ∈ parent, (F i).isSome ∧ ¬Under F k i) (hk : F' k = some parent)
    (hsame : ∀ i, i ≠ k → F' i = F i) : IsForest F' := by
  have hrooted : Rooted F' k := by
    cases parent with
    | none => exact .root hk
    | some p =>
      obtain ⟨hp, hnot⟩ := hparent p rfl
      exact .child hk ((h p hp).of_not_under hnot fun j hj _ => hsame j hj)
  have hall : ∀ i, Rooted F i → Rooted F' i := by
    intro i hi
    induction hi with
    | @root i hi =>
      by_cases hik : i = k
      · exact hik ▸ hrooted
      · exact .root ((hsame i hik).trans hi)
    | @child i p hi _ ih =>
      by_cases hik : i = k
      · exact hik ▸ hrooted
      · exact .child ((hsame i hik).trans hi) ih
  intro i hi
  by_cases hik : i = k
  · exact hik ▸ hrooted
  · rw [hsame i hik] at hi
    exact hall i (h i hi)

/-- Nodes go with everything below them. -/
theorem remove (h : IsForest F) (hsub : ∀ i v, F' i = some v → F i = some v)
    (hclosed : ∀ i p, F' i = some (some p) → (F' p).isSome) : IsForest F' := by
  have hall : ∀ i, Rooted F i → (F' i).isSome → Rooted F' i := by
    intro i hi hsome
    obtain ⟨v, hv⟩ := Option.isSome_iff_exists.1 hsome
    have hF := hsub i v hv
    induction hi generalizing v with
    | root hi =>
      rw [hi] at hF
      obtain rfl := Option.some.inj hF
      exact .root hv
    | child hi _ ih =>
      rw [hi] at hF
      obtain rfl := Option.some.inj hF
      have hp := hclosed _ _ hv
      obtain ⟨w, hw⟩ := Option.isSome_iff_exists.1 hp
      exact .child hv (ih hp w hw (hsub _ w hw))
  intro i hi
  obtain ⟨v, hv⟩ := Option.isSome_iff_exists.1 hi
  exact hall i (h i (by rw [hsub i v hv]; rfl)) hi

end IsForest

/-! ## Walks -/

/-- A node that a walk has read, with the parent it had then. -/
abbrev Visit (K : Type u) := K × Option K

/-- What a walk from `start` reads that does not meet `top` and stops at a root or at a node it has
seen. -/
def IsTrail (top : K) : List K → Option K → List (Visit K) → Prop
  | seen, start, [] => ∀ k ∈ start, k ∈ seen
  | seen, start, (k, parent) :: rest => start = some k ∧ k ≠ top ∧ IsTrail top (k :: seen) parent rest

/-- The first node of the walk, if there is one, whose parent has changed since it was read has not
come below `top`. -/
def Undisturbed (F : K → Option (Option K)) (top : K) : List (Visit K) → Prop
  | [] => True
  | (k, parent) :: rest => ∀ now ∈ F k, now = parent ∧ Undisturbed F top rest ∨
      now ≠ parent ∧ ¬Under F top k

theorem Undisturbed.of_unchanged {visits : List (Visit K)}
    (h : ∀ v ∈ visits, ∀ now ∈ F v.1, now = v.2) : Undisturbed F top visits := by
  induction visits with
  | nil => trivial
  | cons v rest ih =>
    intro now hnow
    exact .inl ⟨h v List.mem_cons_self now hnow, ih fun v hv => h v (List.mem_cons_of_mem _ hv)⟩

/-- Where a walk came from is not below `top` if the walk is undisturbed. -/
theorem IsTrail.not_under (hF : IsForest F) {visits : List (Visit K)} {seen : List K}
    (h : IsTrail top seen (some k) visits) (hund : Undisturbed F top visits) (hk : (F k).isSome)
    (hseen : ∀ s ∈ seen, ∃ p, F s = some (some p) ∧ Under F k p) : ¬Under F top k := by
  induction visits generalizing seen k with
  | nil =>
    -- the walk has come round: `k` would be below itself
    obtain ⟨p, hp, hunder⟩ := hseen k (h k rfl)
    exact absurd hunder ((hF k hk).not_under hp)
  | cons v rest ih =>
    obtain ⟨i, parent⟩ := v
    obtain ⟨hstart, hne, hrest⟩ := h
    obtain rfl := Option.some.inj hstart
    obtain ⟨now, hnow⟩ := Option.isSome_iff_exists.1 hk
    rcases hund now hnow with ⟨rfl, hundRest⟩ | ⟨-, hnot⟩
    · intro hunder
      cases hunder with
      | top => exact hne rfl
      | @child _ p hp hunder =>
        rw [hnow] at hp
        obtain rfl := Option.some.inj hp
        refine ih hrest hundRest (hF.parent hnow).isSome (fun s hs => ?_) hunder
        rcases List.mem_cons.1 hs with rfl | hs
        · exact ⟨p, hnow, .top⟩
        · obtain ⟨q, hq, hunder⟩ := hseen s hs
          exact ⟨q, hq, hunder.trans (.child hnow .top)⟩
    · exact hnot

end Concord.Base
