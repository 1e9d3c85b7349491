import Mathlib

/-!
# Giving out a total by largest remainders

Quotas that add up to a whole number are rounded down, and what is left over goes, one each, to those
that lost most. As each loses less than one, no more is left over than there are quotas that lost
something (`excess_pos_of_mem_take`): no quota is rounded up that is whole. A larger quota with the same
floor has lost more, and is served first (`mem_take_of_excess_lt`).
-/

namespace Concord.Base

/-- A quota rounded down or up. -/
def Rounded (quota : ℚ) (share : ℕ) : Prop :=
  share = ⌊quota⌋₊ ∨ share = ⌈quota⌉₊

/-- What a quota loses when it is rounded down. -/
def excess (x : ℚ) : ℚ := x - ⌊x⌋₊

theorem excess_nonneg {x : ℚ} (hx : 0 ≤ x) : 0 ≤ excess x := sub_nonneg.2 (Nat.floor_le hx)

theorem excess_lt_one (x : ℚ) : excess x < 1 := by
  have hfloor := Nat.lt_floor_add_one x
  unfold excess
  linarith

/-- A quota that is not whole is rounded up by adding one to its floor. -/
theorem ceil_of_excess_pos {x : ℚ} (h : 0 < excess x) : ⌈x⌉₊ = ⌊x⌋₊ + 1 := by
  have hlow : ((⌊x⌋₊ : ℕ) : ℚ) < x := sub_pos.1 h
  have hhigh := Nat.lt_floor_add_one x
  apply le_antisymm
  · apply Nat.ceil_le.2
    push_cast
    exact hhigh.le
  · exact Nat.succ_le_of_lt (Nat.lt_ceil.2 hlow)

section List

variable {K : Type*} {q : K → ℚ} {l : List K} {n : ℕ}

/-- Those that lost most come first. -/
def Ranked (q : K → ℚ) (l : List K) : Prop :=
  l.Pairwise fun a b => excess (q b) ≤ excess (q a)

theorem sum_eq_floors_add_excess (q : K → ℚ) (l : List K) :
    (l.map q).sum = ((l.map fun k => ⌊q k⌋₊).sum : ℕ) + (l.map fun k => excess (q k)).sum := by
  induction l with
  | nil => simp
  | cons k rest ih =>
    simp only [List.map_cons, List.sum_cons, ih, excess]
    push_cast
    ring

theorem sum_excess_nonneg (hq : ∀ k ∈ l, 0 ≤ q k) : 0 ≤ (l.map fun k => excess (q k)).sum := by
  apply List.sum_nonneg
  intro x hx
  obtain ⟨k, hk, rfl⟩ := List.mem_map.1 hx
  exact excess_nonneg (hq k hk)

theorem sum_excess_le (q : K → ℚ) (l : List K) : (l.map fun k => excess (q k)).sum ≤ l.length := by
  induction l with
  | nil => simp
  | cons k rest ih =>
    have hone := excess_lt_one (q k)
    rw [List.map_cons, List.sum_cons, List.length_cons]
    push_cast
    linarith

/-- One that loses nothing makes the sum less by one. -/
theorem sum_excess_add_one_le {k : K} (hk : k ∈ l) (hzero : excess (q k) ≤ 0) :
    (l.map fun k => excess (q k)).sum + 1 ≤ l.length := by
  induction l with
  | nil => cases hk
  | cons head rest ih =>
    rw [List.map_cons, List.sum_cons, List.length_cons]
    push_cast
    rcases List.mem_cons.1 hk with rfl | hk
    · have hrest := sum_excess_le q rest
      linarith
    · have hone := excess_lt_one (q head)
      have hrest := ih hk
      linarith

/-- What is left over after rounding down is what was lost, and at most one for each. -/
theorem leftover_spec {total : ℕ} (hq : ∀ k ∈ l, 0 ≤ q k) (hsum : (l.map q).sum = total) :
    ∃ n : ℕ, total = (l.map fun k => ⌊q k⌋₊).sum + n ∧ n ≤ l.length ∧
      (n : ℚ) = (l.map fun k => excess (q k)).sum := by
  have hsplit := sum_eq_floors_add_excess q l
  have hnonneg := sum_excess_nonneg hq
  have hle : (l.map fun k => ⌊q k⌋₊).sum ≤ total := by
    have hcast : (((l.map fun k => ⌊q k⌋₊).sum : ℕ) : ℚ) ≤ total := by linarith
    exact_mod_cast hcast
  obtain ⟨n, hn⟩ := Nat.exists_eq_add_of_le hle
  have hlost : (n : ℚ) = (l.map fun k => excess (q k)).sum := by
    have hcast : (total : ℚ) = ((l.map fun k => ⌊q k⌋₊).sum : ℕ) + n := by exact_mod_cast hn
    linarith
  refine ⟨n, hn, ?_, hlost⟩
  have hlength := sum_excess_le q l
  rw [← hlost] at hlength
  exact_mod_cast hlength

/-- Those that are served have lost something: the others would have lost nothing, and there would be
fewer than `n` to make up `n`. -/
theorem excess_pos_of_mem_take (hranked : Ranked q l) (hlength : n ≤ l.length)
    (hn : (n : ℚ) = (l.map fun k => excess (q k)).sum) {k : K} (hk : k ∈ l.take n) :
    0 < excess (q k) := by
  by_contra hzero
  have hzero : excess (q k) ≤ 0 := not_lt.1 hzero
  have hsplit : (l.map fun k => excess (q k)).sum =
      ((l.take n).map fun k => excess (q k)).sum + ((l.drop n).map fun k => excess (q k)).sum := by
    rw [← List.sum_append, ← List.map_append, List.take_append_drop]
  have htaken := sum_excess_add_one_le hk hzero
  rw [List.length_take, Nat.min_eq_left hlength] at htaken
  have hleft : ∀ x ∈ (l.drop n).map fun k => excess (q k), x ≤ 0 := by
    intro x hx
    obtain ⟨j, hj, rfl⟩ := List.mem_map.1 hx
    have hbelow : excess (q j) ≤ excess (q k) := by
      rw [Ranked, ← List.take_append_drop n l] at hranked
      exact (List.pairwise_append.1 hranked).2.2 k hk j hj
    exact hbelow.trans hzero
  have hleft : ((l.drop n).map fun k => excess (q k)).sum ≤ 0 := by
    simpa using List.sum_le_card_nsmul _ 0 hleft
  linarith

/-- One that has lost more than one that is served is served. -/
theorem mem_take_of_excess_lt (hranked : Ranked q l) {a b : K} (ha : a ∈ l.take n) (hb : b ∈ l)
    (h : excess (q a) < excess (q b)) : b ∈ l.take n := by
  rw [Ranked, ← List.take_append_drop n l] at hranked
  rw [← List.take_append_drop n l] at hb
  rcases List.mem_append.1 hb with hb | hb
  · exact hb
  · exact absurd ((List.pairwise_append.1 hranked).2.2 a ha b hb) (not_le.2 h)

variable [DecidableEq K]

/-- The share of one, when the first `n` of `l` are served. -/
def shareOf (q : K → ℚ) (l : List K) (n : ℕ) (k : K) : ℕ := ⌊q k⌋₊ + if k ∈ l.take n then 1 else 0

theorem rounded_shareOf (hranked : Ranked q l) (hlength : n ≤ l.length)
    (hn : (n : ℚ) = (l.map fun k => excess (q k)).sum) (k : K) : Rounded (q k) (shareOf q l n k) := by
  unfold shareOf
  split
  · next hk =>
    right
    exact (ceil_of_excess_pos (excess_pos_of_mem_take hranked hlength hn hk)).symm
  · exact .inl rfl

/-- A larger quota never has a smaller share. -/
theorem shareOf_mono (hranked : Ranked q l) {a b : K} (hb : b ∈ l) (h : q a < q b) :
    shareOf q l n a ≤ shareOf q l n b := by
  have hfloor : ⌊q a⌋₊ ≤ ⌊q b⌋₊ := Nat.floor_le_floor h.le
  unfold shareOf
  rcases hfloor.eq_or_lt with heq | hlt
  · -- with the same floor, `b` has lost more than `a`
    have hexcess : excess (q a) < excess (q b) := by
      unfold excess
      rw [heq]
      linarith
    split
    · next ha => rw [if_pos (mem_take_of_excess_lt hranked ha hb hexcess), heq]
    · omega
  · split <;> omega

end List

end Concord.Base
