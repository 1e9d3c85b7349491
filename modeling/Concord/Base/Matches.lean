import Mathlib

/-!
# Places in a list

Where a list occurs in another one (`OccursAt`), where it first does (`indexOf?`), and the scan that takes
places from left to right and leaves out those that overlap the last one it has taken (`scan`). A scan is
about places of any kind; `count`, the number of occurrences that do not overlap, is one of its uses.

Two occurrences can overlap, so that a count of one says less than that there is one place:
`count_eq_one_iff`.
-/

namespace Concord.Base

universe u

/-! ## Scans -/

section Scan

/-- From position `i` on, of so many positions, those where `hit` holds and that are not within `length` of
the last one taken; the first `skip` are passed over. -/
def scanFrom (hit : Nat → Bool) (length : Nat) : Nat → Nat → Nat → List Nat
  | 0, _, _ => []
  | rest + 1, skip + 1, i => scanFrom hit length rest skip (i + 1)
  | rest + 1, 0, i =>
    if hit i then i :: scanFrom hit length rest (length - 1) (i + 1) else scanFrom hit length rest 0 (i + 1)

/-- The places below `size` that a scan from left to right takes. -/
def scan (hit : Nat → Bool) (length size : Nat) : List Nat := scanFrom hit length size 0 0

variable {hit : Nat → Bool} {length size rest skip i j : Nat}

theorem of_mem_scanFrom (h : j ∈ scanFrom hit length rest skip i) : hit j = true ∧ i + skip ≤ j ∧ j < i + rest := by
  induction rest generalizing skip i with
  | zero => cases h
  | succ rest ih =>
    cases skip with
    | succ skip =>
      obtain ⟨hj, hle, hlt⟩ := ih h
      exact ⟨hj, by omega, by omega⟩
    | zero =>
      rw [scanFrom] at h
      split at h
      · next hi =>
        rcases List.mem_cons.1 h with rfl | h
        · exact ⟨hi, by omega, by omega⟩
        · obtain ⟨hj, hle, hlt⟩ := ih h
          exact ⟨hj, by omega, by omega⟩
      · obtain ⟨hj, hle, hlt⟩ := ih h
        exact ⟨hj, by omega, by omega⟩

/-- A place that is not taken is within `length` of one that is, or is among those passed over. -/
theorem exists_mem_scanFrom (hj : hit j = true) (hle : i + skip ≤ j) (hlt : j < i + rest) :
    ∃ k ∈ scanFrom hit length rest skip i, k ≤ j ∧ j < k + max length 1 := by
  induction rest generalizing skip i with
  | zero => omega
  | succ rest ih =>
    cases skip with
    | succ skip => exact ih (i := i + 1) (by omega) (by omega)
    | zero =>
      rw [scanFrom]
      split
      · next hi =>
        by_cases hnear : j < i + max length 1
        · exact ⟨i, List.mem_cons_self, by omega, hnear⟩
        · have hlater : ∃ k ∈ scanFrom hit length rest (length - 1) (i + 1), k ≤ j ∧ j < k + max length 1 :=
            ih (by omega) (by omega)
          obtain ⟨k, hk, hkj, hjk⟩ := hlater
          exact ⟨k, List.mem_cons_of_mem _ hk, hkj, hjk⟩
      · next hi =>
        have hne : i ≠ j := by
          rintro rfl
          exact hi hj
        exact ih (by omega) (by omega)

/-- The places that are taken are apart. -/
theorem pairwise_scanFrom (hit : Nat → Bool) (length rest skip i : Nat) :
    (scanFrom hit length rest skip i).Pairwise fun j k => j + max length 1 ≤ k := by
  induction rest generalizing skip i with
  | zero => exact .nil
  | succ rest ih =>
    cases skip with
    | succ skip => exact ih skip (i + 1)
    | zero =>
      rw [scanFrom]
      split
      · refine List.pairwise_cons.2 ⟨fun k hk => ?_, ih (length - 1) (i + 1)⟩
        have := (of_mem_scanFrom hk).2.1
        omega
      · exact ih 0 (i + 1)

theorem of_mem_scan (h : j ∈ scan hit length size) : hit j = true ∧ j < size := by
  obtain ⟨hj, -, hlt⟩ := of_mem_scanFrom h
  exact ⟨hj, by omega⟩

theorem exists_mem_scan (length : Nat) (hj : hit j = true) (hlt : j < size) :
    ∃ k ∈ scan hit length size, k ≤ j ∧ j < k + max length 1 :=
  exists_mem_scanFrom hj (by omega) (by omega)

/-- A scan takes one place if and only if there is a first one and all others are within `length` of it. -/
theorem length_scan_eq_one_iff : (scan hit length size).length = 1 ↔
    ∃ i < size, hit i = true ∧ ∀ j < size, hit j = true → i ≤ j ∧ j < i + max length 1 := by
  constructor
  · intro h
    obtain ⟨i, hi⟩ := List.length_eq_one_iff.1 h
    have hmem : i ∈ scan hit length size := by rw [hi]; exact List.mem_singleton_self i
    obtain ⟨hhit, hlt⟩ := of_mem_scan hmem
    refine ⟨i, hlt, hhit, fun j hj hjhit => ?_⟩
    obtain ⟨k, hk, hkj⟩ := exists_mem_scan length hjhit hj
    rw [hi, List.mem_singleton] at hk
    exact hk ▸ hkj
  · rintro ⟨i, hi, hhit, hall⟩
    obtain ⟨k, hk, hki, -⟩ := exists_mem_scan length hhit hi
    have hpair := pairwise_scanFrom hit length size 0 0
    -- two places that are taken would be too far apart for both to be near the first one
    rcases hscan : scan hit length size with _ | ⟨a, _ | ⟨b, rest⟩⟩
    · rw [hscan] at hk
      cases hk
    · rfl
    · exfalso
      have ha : a ∈ scan hit length size := by rw [hscan]; exact List.mem_cons_self
      have hb : b ∈ scan hit length size := by rw [hscan]; exact List.mem_cons_of_mem _ List.mem_cons_self
      change (scan hit length size).Pairwise _ at hpair
      rw [hscan] at hpair
      have hab := (List.pairwise_cons.1 hpair).1 b List.mem_cons_self
      have hia := hall a (of_mem_scan ha).2 (of_mem_scan ha).1
      have hib := hall b (of_mem_scan hb).2 (of_mem_scan hb).1
      omega

end Scan

/-! ## Occurrences -/

section Occurrences

variable {α : Type u} [DecidableEq α]

/-- `sub` starts at position `i` of `text`. -/
def OccursAt (sub text : List α) (i : Nat) : Prop := i ≤ text.length ∧ sub <+: text.drop i

instance (sub text : List α) (i : Nat) : Decidable (OccursAt sub text i) :=
  inferInstanceAs (Decidable (_ ∧ _))

/-- `sub` starts at exactly one position of `text`. -/
def OccursOnce (sub text : List α) : Prop := ∃! i, OccursAt sub text i

/-- The first position at which `sub` starts. -/
def indexOf? (sub text : List α) : Option Nat := (List.range (text.length + 1)).find? (OccursAt sub text ·)

/-- The number of occurrences that do not overlap, of a list that is not empty. -/
def count (sub text : List α) : Nat := (scan (OccursAt sub text ·) sub.length text.length).length

/-- `text` with `new` in the place of the first occurrence of `sub`. -/
def replaceFirst (sub new text : List α) : List α :=
  match indexOf? sub text with
  | some i => text.take i ++ new ++ text.drop (i + sub.length)
  | none => text

variable {sub text : List α} {i j : Nat}

omit [DecidableEq α] in
theorem occursAt_iff : OccursAt sub text i ↔ ∃ before after, text = before ++ (sub ++ after) ∧ before.length = i := by
  constructor
  · rintro ⟨hi, after, hafter⟩
    refine ⟨text.take i, after, ?_, List.length_take_of_le hi⟩
    rw [hafter, List.take_append_drop]
  · rintro ⟨before, after, rfl, rfl⟩
    refine ⟨by simp, after, ?_⟩
    rw [List.drop_left]

omit [DecidableEq α] in
/-- Where a list that occurs once is. -/
theorem OccursOnce.before_eq (h : OccursOnce sub text) {before after before' after' : List α}
    (hsplit : text = before ++ (sub ++ after)) (hsplit' : text = before' ++ (sub ++ after')) :
    before = before' ∧ after = after' := by
  have hlength : before.length = before'.length :=
    h.unique (occursAt_iff.2 ⟨before, after, hsplit, rfl⟩) (occursAt_iff.2 ⟨before', after', hsplit', rfl⟩)
  obtain ⟨hbefore, hrest⟩ := List.append_inj (hsplit.symm.trans hsplit') hlength
  exact ⟨hbefore, List.append_cancel_left hrest⟩

omit [DecidableEq α] in
theorem OccursAt.add_le (h : OccursAt sub text i) : i + sub.length ≤ text.length := by
  obtain ⟨before, after, rfl, rfl⟩ := occursAt_iff.1 h
  simp only [List.length_append]
  omega

theorem indexOf?_eq_some_iff : indexOf? sub text = some i ↔ OccursAt sub text i ∧ ∀ j < i, ¬OccursAt sub text j := by
  rw [indexOf?, List.find?_range_eq_some]
  simp only [decide_eq_true_eq, List.mem_range, Bool.not_eq_eq_eq_not, Bool.not_true, decide_eq_false_iff_not]
  constructor
  · rintro ⟨h, -, hfirst⟩
    exact ⟨h, hfirst⟩
  · rintro ⟨h, hfirst⟩
    exact ⟨h, Nat.lt_succ_of_le h.1, hfirst⟩

theorem indexOf?_eq_none_iff : indexOf? sub text = none ↔ ∀ i, ¬OccursAt sub text i := by
  rw [indexOf?, List.find?_eq_none]
  constructor
  · intro h i hi
    exact h i (List.mem_range.2 (Nat.lt_succ_of_le hi.1)) (decide_eq_true hi)
  · intro h i _ hi
    exact h i (of_decide_eq_true hi)

/-- Counting one occurrence means that all others overlap the first one. -/
theorem count_eq_one_iff (hsub : sub ≠ []) : count sub text = 1 ↔
    ∃ i, OccursAt sub text i ∧ ∀ j, OccursAt sub text j → i ≤ j ∧ j < i + sub.length := by
  have hpos := List.length_pos_iff.2 hsub
  have hlt : ∀ {i}, OccursAt sub text i → i < text.length := by
    intro i hi
    have hle := hi.add_le
    omega
  rw [count, length_scan_eq_one_iff, Nat.max_eq_left hpos]
  constructor
  · rintro ⟨i, -, hi, hall⟩
    exact ⟨i, of_decide_eq_true hi, fun j hj => hall j (hlt hj) (decide_eq_true hj)⟩
  · rintro ⟨i, hi, hall⟩
    exact ⟨i, hlt hi, decide_eq_true hi, fun j _ hj => hall j (of_decide_eq_true hj)⟩

theorem replaceFirst_of_first {new before after : List α} (h : text = before ++ (sub ++ after))
    (hfirst : ∀ j < before.length, ¬OccursAt sub text j) : replaceFirst sub new text = before ++ (new ++ after) := by
  have hat : OccursAt sub text before.length := occursAt_iff.2 ⟨before, after, h, rfl⟩
  have hindex : indexOf? sub text = some before.length := indexOf?_eq_some_iff.2 ⟨hat, hfirst⟩
  rw [replaceFirst, hindex]
  dsimp only
  rw [h, List.take_left, ← List.append_assoc before sub, ← List.length_append, List.drop_left, List.append_assoc]

end Occurrences

end Concord.Base
