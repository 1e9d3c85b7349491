import Mathlib

/-!
# Counting in fixed windows

A limiter numbers the requests of a window. The first request opens a window of a fixed length; each later one is the
next of that window as long as it lasts, and opens a new one after that. A limit on the numbers is exact in every
window, so fewer than twice the limit get through in any time as long as a window (`Tally.bounded`), and a request is
over the limit only if as many as the limit got through shortly before (`Tally.exhausted`).
-/

namespace Concord.Base

/-- The window that was opened last. -/
structure Window where
  start : Nat
  count : Nat

/-- A request with its number in its window. -/
structure Hit where
  time : Nat
  number : Nat

/-- The number of the hits within a limit whose time meets `P`. -/
def hitsWithin (limit : Nat) (P : Nat → Prop) [DecidablePred P] (hits : List Hit) : Nat :=
  hits.countP fun hit => hit.number ≤ limit ∧ P hit.time

section HitsWithin

variable {limit : Nat} {P Q : Nat → Prop} [DecidablePred P] [DecidablePred Q] {hits : List Hit}

theorem hitsWithin_append {hits' : List Hit} :
    hitsWithin limit P (hits ++ hits') = hitsWithin limit P hits + hitsWithin limit P hits' :=
  List.countP_append

theorem hitsWithin_singleton {hit : Hit} :
    hitsWithin limit P [hit] = if hit.number ≤ limit ∧ P hit.time then 1 else 0 := by
  simp [hitsWithin, List.countP_cons]

theorem hitsWithin_le (h : ∀ hit ∈ hits, P hit.time → Q hit.time) : hitsWithin limit P hits ≤ hitsWithin limit Q hits := by
  refine List.countP_mono_left fun hit hmem hcounted => ?_
  simp only [decide_eq_true_eq] at hcounted ⊢
  exact ⟨hcounted.1, h hit hmem hcounted.2⟩

theorem hitsWithin_eq_zero (h : ∀ hit ∈ hits, ¬P hit.time) : hitsWithin limit P hits = 0 := by
  refine List.countP_eq_zero.2 fun hit hmem hcounted => ?_
  simp only [decide_eq_true_eq] at hcounted
  exact h hit hmem hcounted.2

/-- Hits are counted in two parts. -/
theorem hitsWithin_split (limit : Nat) (P Q : Nat → Prop) [DecidablePred P] [DecidablePred Q] (hits : List Hit) :
    hitsWithin limit P hits =
      hitsWithin limit (fun t => P t ∧ Q t) hits + hitsWithin limit (fun t => P t ∧ ¬Q t) hits := by
  induction hits with
  | nil => rfl
  | cons hit hits ih =>
    have hcons : ∀ (R : Nat → Prop) [DecidablePred R], hitsWithin limit R (hit :: hits) =
        (if hit.number ≤ limit ∧ R hit.time then 1 else 0) + hitsWithin limit R hits := by
      intro R _
      rw [← hitsWithin_singleton, ← hitsWithin_append, List.singleton_append]
    rw [hcons, hcons, hcons, ih]
    by_cases hnumber : hit.number ≤ limit <;> by_cases hP : P hit.time <;> by_cases hQ : Q hit.time <;>
      simp [hnumber, hP, hQ] <;> omega

end HitsWithin

/-- What is known of the hits so far, when `w` is the last window. -/
structure Tally (length limit : Nat) (w : Window) (hits : List Hit) : Prop where
  pos : 0 < w.count
  late : ∀ hit ∈ hits, hit.time ≤ w.start + length
  current : hitsWithin limit (w.start ≤ ·) hits = min w.count limit
  /-- The first hit is at the start. -/
  after : hitsWithin limit (w.start < ·) hits ≤ min w.count limit - 1
  /-- In as much time as a window lasts, only one window can have ended, and not one that began in it. -/
  previous : ∀ a, w.start ≤ a + length → hitsWithin limit (fun t => a ≤ t ∧ t < w.start) hits ≤ limit - 1
  bounded : ∀ a, hitsWithin limit (fun t => a ≤ t ∧ t ≤ a + length) hits ≤ 2 * limit - 1

namespace Tally

variable {length limit : Nat} {w : Window} {hits : List Hit} {now : Nat}

/-- The first window. -/
theorem first (now : Nat) : Tally length limit ⟨now, 1⟩ [⟨now, 1⟩] where
  pos := Nat.one_pos
  late hit hmem := by
    obtain rfl := List.mem_singleton.1 hmem
    exact Nat.le_add_right _ _
  current := by
    rw [hitsWithin_singleton]
    dsimp only
    split <;> omega
  after := by
    rw [hitsWithin_eq_zero fun hit hmem => ?_]
    · exact Nat.zero_le _
    · obtain rfl := List.mem_singleton.1 hmem
      exact Nat.lt_irrefl _
  previous a _ := by
    rw [hitsWithin_eq_zero fun hit hmem => ?_]
    · exact Nat.zero_le _
    · obtain rfl := List.mem_singleton.1 hmem
      exact fun h => Nat.lt_irrefl _ h.2
  bounded a := by
    rw [hitsWithin_singleton]
    dsimp only
    split <;> omega

/-- A new window gets the hits of the last one behind it, but the first. -/
theorem hitsWithin_before (h : Tally length limit w hits) (hover : w.start + length < now) {a : Nat}
    (ha : now ≤ a + length) : hitsWithin limit (a ≤ ·) hits ≤ limit - 1 := by
  calc hitsWithin limit (a ≤ ·) hits ≤ hitsWithin limit (w.start < ·) hits :=
        hitsWithin_le fun hit _ hle => by omega
    _ ≤ min w.count limit - 1 := h.after
    _ ≤ limit - 1 := by omega

/-- In as much time as a window lasts there are the hits of the last window and some of the one before. -/
theorem hitsWithin_across (h : Tally length limit w hits) {a : Nat} (ha : w.start ≤ a + length) :
    hitsWithin limit (fun t => a ≤ t ∧ t ≤ a + length) hits ≤ limit - 1 + min w.count limit := by
  have hsplit := hitsWithin_split limit (fun t => a ≤ t ∧ t ≤ a + length) (w.start ≤ ·) hits
  have hcurrent : hitsWithin limit (fun t => (a ≤ t ∧ t ≤ a + length) ∧ w.start ≤ t) hits ≤
      hitsWithin limit (w.start ≤ ·) hits := hitsWithin_le fun hit _ hle => hle.2
  have hprevious : hitsWithin limit (fun t => (a ≤ t ∧ t ≤ a + length) ∧ ¬w.start ≤ t) hits ≤
      hitsWithin limit (fun t => a ≤ t ∧ t < w.start) hits :=
    hitsWithin_le fun hit _ hle => ⟨hle.1.1, Nat.lt_of_not_le hle.2⟩
  have hold := h.previous a ha
  rw [h.current] at hcurrent
  omega

/-- Another request in the window. -/
theorem next (h : Tally length limit w hits) (hstart : w.start ≤ now) (hnow : now ≤ w.start + length) :
    Tally length limit { w with count := w.count + 1 } (hits ++ [⟨now, w.count + 1⟩]) where
  pos := Nat.succ_pos _
  late hit hmem := by
    rcases List.mem_append.1 hmem with hmem | hmem
    · exact h.late hit hmem
    · obtain rfl := List.mem_singleton.1 hmem
      exact hnow
  current := by
    rw [hitsWithin_append, hitsWithin_singleton, h.current]
    dsimp only
    split <;> omega
  after := by
    have hpos := h.pos
    have hafter := h.after
    rw [hitsWithin_append, hitsWithin_singleton]
    dsimp only
    split <;> omega
  previous a ha := by
    have hnone : hitsWithin limit (fun t => a ≤ t ∧ t < w.start) [⟨now, w.count + 1⟩] = 0 :=
      hitsWithin_eq_zero fun hit hmem => by
        obtain rfl := List.mem_singleton.1 hmem
        exact fun hlt => absurd hlt.2 (Nat.not_lt.2 hstart)
    rw [hitsWithin_append, hnone]
    exact h.previous a ha
  bounded a := by
    rw [hitsWithin_append, hitsWithin_singleton]
    split
    · next hcounted =>
      obtain ⟨hnumber, -, hin⟩ := hcounted
      have hacross := h.hitsWithin_across (a := a) (by dsimp only at hin; omega)
      dsimp only at hnumber
      omega
    · exact h.bounded a

/-- A request after the window opens a new one. -/
theorem newWindow (h : Tally length limit w hits) (hover : w.start + length < now) :
    Tally length limit ⟨now, 1⟩ (hits ++ [⟨now, 1⟩]) where
  pos := Nat.one_pos
  late hit hmem := by
    rcases List.mem_append.1 hmem with hmem | hmem
    · have hlate := h.late hit hmem
      dsimp only
      omega
    · obtain rfl := List.mem_singleton.1 hmem
      exact Nat.le_add_right _ _
  current := by
    have hnone : hitsWithin limit (now ≤ ·) hits = 0 :=
      hitsWithin_eq_zero fun hit hmem hle => by
        have hlate := h.late hit hmem
        omega
    rw [hitsWithin_append, hitsWithin_singleton, hnone]
    dsimp only
    split <;> omega
  after := by
    rw [hitsWithin_eq_zero fun hit hmem hlt => ?_]
    · exact Nat.zero_le _
    · rcases List.mem_append.1 hmem with hmem | hmem
      · have hlate := h.late hit hmem
        dsimp only at hlt
        omega
      · obtain rfl := List.mem_singleton.1 hmem
        exact Nat.lt_irrefl _ hlt
  previous a ha := by
    have hnone : hitsWithin limit (fun t => a ≤ t ∧ t < now) [⟨now, 1⟩] = 0 :=
      hitsWithin_eq_zero fun hit hmem => by
        obtain rfl := List.mem_singleton.1 hmem
        exact fun hlt => Nat.lt_irrefl _ hlt.2
    have hle : hitsWithin limit (fun t => a ≤ t ∧ t < now) hits ≤ hitsWithin limit (a ≤ ·) hits :=
      hitsWithin_le fun hit _ hle => hle.1
    rw [hitsWithin_append, hnone]
    exact Nat.le_trans hle (h.hitsWithin_before hover ha)
  bounded a := by
    rw [hitsWithin_append, hitsWithin_singleton]
    split
    · next hcounted =>
      obtain ⟨hnumber, -, hin⟩ := hcounted
      have hle : hitsWithin limit (fun t => a ≤ t ∧ t ≤ a + length) hits ≤ hitsWithin limit (a ≤ ·) hits :=
        hitsWithin_le fun hit _ hle => hle.1
      have hbefore := h.hitsWithin_before hover hin
      dsimp only at hnumber
      omega
    · exact h.bounded a

/-- When the window has used up the limit, that many got through in the time since a window ago. -/
theorem exhausted (h : Tally length limit w hits) (hnow : now ≤ w.start + length) (hfull : limit ≤ w.count) :
    limit ≤ hitsWithin limit (now ≤ · + length) hits := by
  calc limit = hitsWithin limit (w.start ≤ ·) hits := by rw [h.current, Nat.min_eq_right hfull]
    _ ≤ hitsWithin limit (now ≤ · + length) hits := hitsWithin_le fun hit _ hle => by omega

end Tally

end Concord.Base
