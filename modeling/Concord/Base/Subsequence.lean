import Mathlib

/-!
# Subsequences from left to right

`leftmost` looks for one list in another, element by element: each where it first stands after the one before.
It finds a place for all of them exactly if the list is a subsequence (`leftmost_isSome_iff`), as what is passed
over on the way to the first place of an element is of no use for those after it
(`cons_sublist_append_cons`). The places go upwards and have the elements in them (`of_leftmost_eq_some`).
-/

namespace Concord.Base

universe u

variable {α : Type u} [DecidableEq α]

/-- The first place of an element, from a place on. -/
def indexFrom? (l : List α) (x : α) (start : Nat) : Option Nat := ((l.drop start).idxOf? x).map (start + ·)

/-- The places of the elements of a list in `l`, each the first one after that of the element before. -/
def leftmost (l : List α) : List α → Nat → Option (List Nat)
  | [], _ => some []
  | x :: xs, start => do
    let i ← indexFrom? l x start
    let places ← leftmost l xs (i + 1)
    return i :: places

section Leftmost

variable {l xs skipped rest : List α} {x : α} {start i : Nat} {places : List Nat}

omit [DecidableEq α] in
/-- Nothing is lost by taking the first place of an element. -/
theorem cons_sublist_append_cons (h : x ∉ skipped) : (x :: xs).Sublist (skipped ++ x :: rest) ↔ xs.Sublist rest := by
  induction skipped with
  | nil => exact List.cons_sublist_cons
  | cons y skipped ih =>
    have hne : x ≠ y := fun hxy => h (hxy ▸ List.mem_cons_self)
    rw [← ih fun hmem => h (List.mem_cons_of_mem _ hmem), List.cons_append]
    constructor
    · intro hsub
      cases hsub with
      | cons _ hsub => exact hsub
      | cons_cons _ hsub => exact absurd rfl hne
    · exact List.Sublist.cons y

theorem indexFrom?_eq_none_iff : indexFrom? l x start = none ↔ x ∉ l.drop start := by
  rw [indexFrom?, Option.map_eq_none_iff, List.idxOf?_eq_none_iff]

/-- What is passed over on the way to the first place does not have the element. -/
theorem exists_of_indexFrom?_eq_some (h : indexFrom? l x start = some i) :
    ∃ skipped, l.drop start = skipped ++ x :: l.drop (i + 1) ∧ x ∉ skipped ∧ i = start + skipped.length := by
  obtain ⟨k, hk, rfl⟩ := Option.map_eq_some_iff.1 h
  obtain ⟨hlt, hx, hfirst⟩ := List.idxOf?_eq_some_iff.1 hk
  have hlength : ((l.drop start).take k).length = k := List.length_take_of_le (Nat.le_of_lt hlt)
  refine ⟨(l.drop start).take k, ?_, fun hmem => ?_, by rw [hlength]⟩
  · have hdrop : (l.drop start).drop k = x :: l.drop (start + k + 1) := by
      rw [List.drop_eq_getElem_cons hlt, List.drop_drop, Nat.add_assoc]
      exact congrArg (· :: _) (by simpa using hx)
    rw [← hdrop, List.take_append_drop]
  · obtain ⟨j, hj, hjx⟩ := List.getElem_of_mem hmem
    rw [hlength] at hj
    rw [List.getElem_take] at hjx
    exact hfirst j hj (by simpa using hjx)

/-- A list has its places if and only if it is a subsequence. -/
theorem leftmost_isSome_iff : (leftmost l xs start).isSome = true ↔ xs.Sublist (l.drop start) := by
  induction xs generalizing start with
  | nil => exact iff_of_true rfl (List.nil_sublist _)
  | cons x xs ih =>
    rw [leftmost]
    cases hi : indexFrom? l x start with
    | none =>
      have hmem : x ∉ l.drop start := indexFrom?_eq_none_iff.1 hi
      exact iff_of_false (by simp) fun hsub => hmem (hsub.subset List.mem_cons_self)
    | some i =>
      obtain ⟨skipped, hsplit, hskipped, -⟩ := exists_of_indexFrom?_eq_some hi
      rw [hsplit, cons_sublist_append_cons hskipped, ← ih]
      cases hplaces : leftmost l xs (i + 1) with
      | none => simp [hplaces]
      | some places => simp [hplaces]

/-- The places are found in the order of the elements, and each has its element. -/
theorem of_leftmost_eq_some (h : leftmost l xs start = some places) :
    places.Pairwise (· < ·) ∧ (∀ i ∈ places, start ≤ i) ∧ places.map (l[·]?) = xs.map some := by
  induction xs generalizing start places with
  | nil =>
    obtain rfl := Option.some.inj h
    exact ⟨.nil, by simp, rfl⟩
  | cons x xs ih =>
    obtain ⟨i, hi, h⟩ := Option.bind_eq_some_iff.1 h
    obtain ⟨later, hlater, h⟩ := Option.bind_eq_some_iff.1 h
    obtain rfl := Option.some.inj h
    obtain ⟨hpairwise, hstart, hmap⟩ := ih hlater
    obtain ⟨skipped, hsplit, -, rfl⟩ := exists_of_indexFrom?_eq_some hi
    have hx : l[start + skipped.length]? = some x := by
      rw [← List.getElem?_drop, hsplit]
      simp
    refine ⟨List.pairwise_cons.2 ⟨hstart, hpairwise⟩, fun j hj => ?_, ?_⟩
    · rcases List.mem_cons.1 hj with rfl | hj
      · exact Nat.le_add_right _ _
      · have := hstart j hj
        omega
    · rw [List.map_cons, List.map_cons, hx, hmap]

end Leftmost

end Concord.Base
