import Mathlib

/-!
# Splices at weighted positions

The smallest edit between two lists keeps their common prefix and what is left of their common
suffix, and replaces what is between (`diff`). Positions in a list may count something else than its
elements, say the bytes of its characters: `cut w l n` splits `l` where the weights of the elements
add up to `n`, if they do.

An edit computed in elements and carried out at weighted positions has the intended effect in few
cases only; `edit_eq_some_iff` says which.
-/

namespace Concord.Base

universe u

variable {α : Type u}

section Diff

variable [DecidableEq α]

/-- The longest common prefix. -/
def commonPrefix : List α → List α → List α
  | x :: l, y :: l' => if x = y then x :: commonPrefix l l' else []
  | _, _ => []

/-- The longest common suffix. -/
def commonSuffix (l l' : List α) : List α := (commonPrefix l.reverse l'.reverse).reverse

/-- What an edit keeps, removes and inserts. -/
structure Diff (α : Type u) where
  kept : List α
  removed : List α
  inserted : List α
  rest : List α

/-- The smallest edit that turns `old` into `new`. -/
def diff (old new : List α) : Diff α :=
  let kept := commonPrefix old new
  let old' := old.drop kept.length
  let new' := new.drop kept.length
  let rest := commonSuffix old' new'
  { kept
    removed := old'.take (old'.length - rest.length)
    inserted := new'.take (new'.length - rest.length)
    rest }

variable {l l' old new : List α}

@[simp] theorem commonPrefix_nil_left : commonPrefix [] l = [] := by
  cases l <;> rfl

@[simp] theorem commonPrefix_nil_right : commonPrefix l [] = [] := by
  cases l <;> rfl

theorem commonPrefix_cons (x y : α) :
    commonPrefix (x :: l) (y :: l') = if x = y then x :: commonPrefix l l' else [] := rfl

theorem commonPrefix_prefix_left : commonPrefix l l' <+: l := by
  fun_induction commonPrefix l l' with
  | case1 x l l' ih => exact List.cons_prefix_cons.2 ⟨rfl, ih⟩
  | case2 => exact List.nil_prefix
  | case3 => exact List.nil_prefix

theorem commonPrefix_comm : commonPrefix l l' = commonPrefix l' l := by
  induction l generalizing l' with
  | nil => rw [commonPrefix_nil_left, commonPrefix_nil_right]
  | cons x l ih =>
    cases l' with
    | nil => rfl
    | cons y l' =>
      rw [commonPrefix_cons, commonPrefix_cons, ih]
      by_cases h : x = y
      · rw [h]
      · rw [if_neg h, if_neg (Ne.symm h)]

theorem commonPrefix_prefix_right : commonPrefix l l' <+: l' := by
  rw [commonPrefix_comm]
  exact commonPrefix_prefix_left

/-- What is left after the common prefix begins differently. -/
theorem head_ne_of_commonPrefix_eq_nil (h : commonPrefix l l' = []) {x y : α} (hx : l.head? = some x)
    (hy : l'.head? = some y) : x ≠ y := by
  cases l with
  | nil => cases hx
  | cons a l =>
    cases l' with
    | nil => cases hy
    | cons b l' =>
      cases hx
      cases hy
      rintro rfl
      simp [commonPrefix_cons] at h

variable (l l') in
theorem commonPrefix_drop : commonPrefix (l.drop (commonPrefix l l').length)
    (l'.drop (commonPrefix l l').length) = [] := by
  induction l generalizing l' with
  | nil => rw [List.drop_nil, commonPrefix_nil_left]
  | cons x l ih =>
    cases l' with
    | nil => rw [List.drop_nil, commonPrefix_nil_right]
    | cons y l' =>
      by_cases h : x = y
      · rw [commonPrefix_cons, if_pos h, List.length_cons, List.drop_succ_cons, List.drop_succ_cons]
        exact ih l'
      · rw [commonPrefix_cons, if_neg h, List.length_nil, List.drop_zero, List.drop_zero, commonPrefix_cons, if_neg h]

theorem commonSuffix_suffix_left : commonSuffix l l' <:+ l := by
  rw [← List.reverse_prefix, commonSuffix, List.reverse_reverse]
  exact commonPrefix_prefix_left

theorem commonSuffix_suffix_right : commonSuffix l l' <:+ l' := by
  rw [← List.reverse_prefix, commonSuffix, List.reverse_reverse]
  exact commonPrefix_prefix_right

@[simp] theorem commonSuffix_nil_left : commonSuffix [] l = [] := by
  rw [commonSuffix, List.reverse_nil, commonPrefix_nil_left, List.reverse_nil]

@[simp] theorem commonSuffix_nil_right : commonSuffix l [] = [] := by
  rw [commonSuffix, List.reverse_nil, commonPrefix_nil_right, List.reverse_nil]

theorem commonSuffix_concat (x y : α) :
    commonSuffix (l ++ [x]) (l' ++ [y]) = if x = y then commonSuffix l l' ++ [x] else [] := by
  unfold commonSuffix
  rw [List.reverse_concat, List.reverse_concat, commonPrefix_cons]
  split
  · exact List.reverse_cons
  · rfl

omit [DecidableEq α] in
theorem take_append_of_suffix (h : l' <:+ l) : l.take (l.length - l'.length) ++ l' = l := by
  obtain ⟨t, rfl⟩ := h
  simp

/-- What is left before the common suffix ends differently. -/
theorem getLast?_ne_of_commonSuffix {x y : α}
    (hx : (l.take (l.length - (commonSuffix l l').length)).getLast? = some x)
    (hy : (l'.take (l'.length - (commonSuffix l l').length)).getLast? = some y) : x ≠ y := by
  have hk : (commonSuffix l l').length = (commonPrefix l.reverse l'.reverse).length :=
    List.length_reverse
  refine head_ne_of_commonPrefix_eq_nil (commonPrefix_drop l.reverse l'.reverse) ?_ ?_
  · rw [List.drop_reverse, List.head?_reverse, ← hk]
    exact hx
  · rw [List.drop_reverse, List.head?_reverse, ← hk]
    exact hy

variable (old new) in
theorem diff_old : (diff old new).kept ++ ((diff old new).removed ++ (diff old new).rest) = old := by
  have hsuffix : (diff old new).rest <:+ old.drop (diff old new).kept.length :=
    commonSuffix_suffix_left
  have h := take_append_of_suffix hsuffix
  exact (congrArg _ h).trans (List.prefix_iff_eq_append.1 commonPrefix_prefix_left)

variable (old new) in
theorem diff_new : (diff old new).kept ++ ((diff old new).inserted ++ (diff old new).rest) = new := by
  have hsuffix : (diff old new).rest <:+ new.drop (diff old new).kept.length :=
    commonSuffix_suffix_right
  have h := take_append_of_suffix hsuffix
  exact (congrArg _ h).trans (List.prefix_iff_eq_append.1 commonPrefix_prefix_right)

theorem diff_last_ne {x y : α} (hx : (diff old new).removed.getLast? = some x)
    (hy : (diff old new).inserted.getLast? = some y) : x ≠ y :=
  getLast?_ne_of_commonSuffix hx hy

/-- Different lists differ between what is kept and the rest. -/
theorem diff_ne_nil (h : old ≠ new) : (diff old new).removed ≠ [] ∨ (diff old new).inserted ≠ [] := by
  by_contra hne
  push Not at hne
  obtain ⟨hr, hi⟩ := hne
  have hold := diff_old old new
  have hnew := diff_new old new
  rw [hr] at hold
  rw [hi] at hnew
  exact h (hold.symm.trans hnew)

variable {part : List α}

/-- A common beginning is a part of the longest one. -/
theorem prefix_commonPrefix (h : part <+: l) (h' : part <+: l') : part <+: commonPrefix l l' := by
  induction part generalizing l l' with
  | nil => exact List.nil_prefix
  | cons x part ih =>
    obtain ⟨rest, rfl⟩ := h
    obtain ⟨rest', rfl⟩ := h'
    rw [List.cons_append, List.cons_append, commonPrefix_cons, if_pos rfl]
    exact List.cons_prefix_cons.2 ⟨rfl, ih (List.prefix_append _ _) (List.prefix_append _ _)⟩

theorem suffix_commonSuffix (h : part <:+ l) (h' : part <:+ l') : part <:+ commonSuffix l l' := by
  rw [commonSuffix, ← List.reverse_prefix, List.reverse_reverse]
  exact prefix_commonPrefix (List.reverse_prefix.2 h) (List.reverse_prefix.2 h')

/-- No other edit that does the same removes and inserts less. -/
theorem diff_minimal {kept removed inserted rest : List α} (hold : kept ++ (removed ++ rest) = old)
    (hnew : kept ++ (inserted ++ rest) = new) :
    (diff old new).removed.length + (diff old new).inserted.length ≤ removed.length + inserted.length := by
  have hkept : kept.length ≤ (diff old new).kept.length :=
    (prefix_commonPrefix ⟨_, hold⟩ ⟨_, hnew⟩).length_le
  have hsuffix : rest <:+ old := ⟨kept ++ removed, by rw [List.append_assoc, hold]⟩
  have hsuffix' : rest <:+ new := ⟨kept ++ inserted, by rw [List.append_assoc, hnew]⟩
  -- what both have of the rest after the longest common beginning
  obtain ⟨n, hn⟩ : ∃ n, n = min rest.length (min (old.drop (diff old new).kept.length).length
    (new.drop (diff old new).kept.length).length) := ⟨_, rfl⟩
  have hpart : rest.drop (rest.length - n) <:+ rest := List.drop_suffix _ _
  have hlength : (rest.drop (rest.length - n)).length = n := by
    rw [List.length_drop]
    omega
  have hdrop : rest.drop (rest.length - n) <:+ old.drop (diff old new).kept.length :=
    List.suffix_of_suffix_length_le (hpart.trans hsuffix) (List.drop_suffix _ _) (by omega)
  have hdrop' : rest.drop (rest.length - n) <:+ new.drop (diff old new).kept.length :=
    List.suffix_of_suffix_length_le (hpart.trans hsuffix') (List.drop_suffix _ _) (by omega)
  have hrest : rest.drop (rest.length - n) <:+ (diff old new).rest := suffix_commonSuffix hdrop hdrop'
  have hle := hrest.length_le
  have hold' := congrArg List.length (diff_old old new)
  have hnew' := congrArg List.length (diff_new old new)
  have hold'' := congrArg List.length hold
  have hnew'' := congrArg List.length hnew
  simp only [List.length_append, List.length_drop] at hold' hnew' hold'' hnew'' hn
  omega

end Diff

/-! ## Weighted positions -/

section Weight

variable (w : α → Nat)

def weight (l : List α) : Nat := (l.map w).sum

/-- Splits `l` after weight `n`, if an element ends there. -/
def cut : List α → Nat → Option (List α × List α)
  | l, 0 => some ([], l)
  | [], _ + 1 => none
  | x :: l, n + 1 =>
    if w x ≤ n + 1 then (cut l (n + 1 - w x)).map fun (a, b) => (x :: a, b) else none

/-- `l` without what stands between two weighted positions. -/
def removeBetween (l : List α) (start stop : Nat) : Option (List α) := do
  let (a, b) ← cut w l start
  let (_, c) ← cut w b (stop - start)
  return a ++ c

/-- `l` with `new` at a weighted position. -/
def insertAt (l : List α) (start : Nat) (new : List α) : Option (List α) := do
  let (a, b) ← cut w l start
  return a ++ new ++ b

/-- Removes what is between two positions and inserts `new` there. -/
def editAt (l : List α) (start stop : Nat) (new : List α) : Option (List α) :=
  (if start < stop then removeBetween w l start stop else some l).bind fun l' =>
    if new.isEmpty then some l' else insertAt w l' start new

variable {w} {l a b : List α} {n : Nat}

@[simp] theorem weight_nil : weight w [] = 0 := rfl

@[simp] theorem weight_cons (x : α) (l : List α) : weight w (x :: l) = w x + weight w l := by
  simp [weight]

@[simp] theorem weight_append (l l' : List α) : weight w (l ++ l') = weight w l + weight w l' := by
  simp [weight]

variable (hw : ∀ x, 1 ≤ w x)
include hw

theorem length_le_weight (l : List α) : l.length ≤ weight w l := by
  induction l with
  | nil => simp
  | cons x l ih =>
    have hx := hw x
    simp only [List.length_cons, weight_cons]
    omega

theorem weight_pos (h : l ≠ []) : 0 < weight w l :=
  Nat.lt_of_lt_of_le (List.length_pos_iff.2 h) (length_le_weight hw l)

/-- Only a list of elements of weight one weighs as much as it is long. -/
theorem weight_eq_length_iff : weight w l = l.length ↔ ∀ x ∈ l, w x = 1 := by
  induction l with
  | nil => simp
  | cons x l ih =>
    have hx := hw x
    have hl := length_le_weight hw l
    simp only [weight_cons, List.length_cons, List.forall_mem_cons, ← ih]
    omega

theorem cut_eq_some_iff : cut w l n = some (a, b) ↔ l = a ++ b ∧ weight w a = n := by
  induction l generalizing n a with
  | nil =>
    cases n with
    | zero =>
      simp only [cut, Option.some.injEq, Prod.mk.injEq]
      constructor
      · rintro ⟨rfl, rfl⟩
        exact ⟨rfl, rfl⟩
      · rintro ⟨hab, -⟩
        obtain ⟨rfl, rfl⟩ := List.append_eq_nil_iff.1 hab.symm
        exact ⟨rfl, rfl⟩
    | succ n =>
      simp only [cut, reduceCtorEq, false_iff, not_and]
      intro hab
      obtain ⟨rfl, rfl⟩ := List.append_eq_nil_iff.1 hab.symm
      simp
  | cons x l ih =>
    cases n with
    | zero =>
      simp only [cut, Option.some.injEq, Prod.mk.injEq]
      constructor
      · rintro ⟨rfl, rfl⟩
        exact ⟨rfl, rfl⟩
      · rintro ⟨hab, hwa⟩
        have ha : a = [] := by
          by_contra ha
          have hpos := weight_pos hw ha
          omega
        subst ha
        exact ⟨rfl, hab⟩
    | succ n =>
      simp only [cut]
      have hx := hw x
      constructor
      · intro h
        split at h
        · next hle =>
          simp only [Option.map_eq_some_iff, Prod.exists, Prod.mk.injEq] at h
          obtain ⟨a', b', hcut, rfl, rfl⟩ := h
          obtain ⟨rfl, hwa⟩ := ih.1 hcut
          refine ⟨rfl, ?_⟩
          rw [weight_cons, hwa]
          omega
        · cases h
      · rintro ⟨hab, hwa⟩
        cases a with
        | nil => cases hwa
        | cons y a =>
          obtain ⟨rfl, rfl⟩ := List.cons.inj hab
          rw [weight_cons] at hwa
          have hle : w x ≤ n + 1 := by omega
          have hcut : cut w (a ++ b) (n + 1 - w x) = some (a, b) := ih.2 ⟨rfl, by omega⟩
          rw [if_pos hle]
          exact congrArg _ hcut

/-- An edit at positions counted in elements that does what it should although it is carried out at
weighted positions: what it removes has elements of weight one, and what it keeps before them has,
too, or the edit only inserts or only removes and does the same `r` elements earlier. -/
def Fits (w : α → Nat) (kept removed inserted : List α) : Prop :=
  (∀ x ∈ removed, w x = 1) ∧
    ((∀ x ∈ kept, w x = 1) ∨
      ∃ q r, kept = q ++ r ∧ weight w q = kept.length ∧
        (removed = [] ∧ inserted ++ r = r ++ inserted ∨
          inserted = [] ∧ ∃ d, r ++ removed = d ++ r))

variable {p m s : List α} {new : List α}

theorem removeBetween_eq_some_iff {start stop : Nat} {l' : List α} :
    removeBetween w l start stop = some l' ↔
      ∃ a d c, l = a ++ (d ++ c) ∧ weight w a = start ∧ weight w d = stop - start ∧ l' = a ++ c := by
  simp only [removeBetween, Option.bind_eq_bind, Option.bind_eq_some_iff, Prod.exists,
    cut_eq_some_iff hw]
  constructor
  · rintro ⟨a, b, ⟨rfl, ha⟩, d, c, ⟨rfl, hd⟩, h⟩
    exact ⟨a, d, c, rfl, ha, hd, (Option.some.inj h).symm⟩
  · rintro ⟨a, d, c, rfl, ha, hd, rfl⟩
    exact ⟨a, d ++ c, ⟨rfl, ha⟩, d, c, ⟨rfl, hd⟩, rfl⟩

theorem insertAt_eq_some_iff {start : Nat} {l' : List α} :
    insertAt w l start new = some l' ↔
      ∃ a b, l = a ++ b ∧ weight w a = start ∧ l' = a ++ new ++ b := by
  simp only [insertAt, Option.bind_eq_bind, Option.bind_eq_some_iff, Prod.exists, cut_eq_some_iff hw]
  constructor
  · rintro ⟨a, b, ⟨rfl, ha⟩, h⟩
    exact ⟨a, b, rfl, ha, (Option.some.inj h).symm⟩
  · rintro ⟨a, b, rfl, ha, rfl⟩
    exact ⟨a, b, ⟨rfl, ha⟩, rfl⟩

/-- Where the cut falls that was meant to be after `p`. -/
theorem exists_of_weight_eq_length {q b t : List α} (h : q ++ b = p ++ t)
    (hq : weight w q = p.length) : ∃ r, p = q ++ r ∧ b = r ++ t := by
  have hle : weight w q ≤ weight w p := hq ▸ length_le_weight hw p
  rcases List.append_eq_append_iff.1 h with ⟨r, rfl, rfl⟩ | ⟨r, rfl, ht⟩
  · exact ⟨r, rfl, rfl⟩
  · have hr : r = [] := by
      by_contra hne
      have hpos := weight_pos hw hne
      rw [weight_append] at hle
      omega
    subst hr
    exact ⟨[], (List.append_nil _).symm.trans (List.append_nil _).symm, by simpa using ht.symm⟩

/-- What an edit at weighted positions does. -/
theorem editAt_eq_some {t : List α} (hne : m ≠ [] ∨ new ≠ []) :
    editAt w (p ++ (m ++ s)) p.length (p.length + m.length) new = some t ↔
      ∃ q r d c, p = q ++ r ∧ weight w q = p.length ∧ r ++ (m ++ s) = d ++ c ∧
        weight w d = m.length ∧ t = q ++ (new ++ c) := by
  have hins : ∀ q c : List α, weight w q = p.length →
      ((if new.isEmpty then some (q ++ c) else insertAt w (q ++ c) p.length new) = some t ↔
        t = q ++ (new ++ c)) := by
    intro q c hq
    cases hnew : new.isEmpty with
    | true =>
      rw [List.isEmpty_iff.1 hnew, if_pos rfl, Option.some.injEq, List.nil_append]
      exact eq_comm
    | false =>
      rw [if_neg (by simp), insertAt_eq_some_iff hw]
      constructor
      · rintro ⟨a, b, hab, ha, rfl⟩
        have hcut : cut w (q ++ c) p.length = some (q, c) := (cut_eq_some_iff hw).2 ⟨rfl, hq⟩
        have hcut' := (cut_eq_some_iff hw).2 ⟨hab, ha⟩
        rw [hcut] at hcut'
        cases hcut'
        exact List.append_assoc _ _ _
      · rintro rfl
        exact ⟨q, c, rfl, hq, (List.append_assoc _ _ _).symm⟩
  unfold editAt
  cases m with
  | nil =>
    have hnew : new.isEmpty = false := by simpa using hne
    simp only [List.length_nil, Nat.add_zero, Nat.lt_irrefl, if_false,
      Option.bind_some, hnew, insertAt_eq_some_iff hw, Bool.false_eq_true, List.nil_append]
    constructor
    · rintro ⟨a, b, hab, ha, rfl⟩
      obtain ⟨r, rfl, rfl⟩ := exists_of_weight_eq_length hw hab.symm ha
      exact ⟨a, r, [], r ++ s, rfl, ha, rfl, rfl, List.append_assoc _ _ _⟩
    · rintro ⟨q, r, d, c, rfl, hq, hdc, hd, rfl⟩
      have hd' : d = [] := by
        by_contra hne
        have hpos := weight_pos hw hne
        omega
      subst hd'
      refine ⟨q, c, ?_, hq, (List.append_assoc _ _ _).symm⟩
      rw [List.append_assoc, hdc, List.nil_append]
  | cons x m =>
    have hlt : p.length < p.length + (x :: m).length := by simp
    simp only [hlt, if_true, Option.bind_eq_some_iff,
      removeBetween_eq_some_iff hw, Nat.add_sub_cancel_left]
    constructor
    · rintro ⟨l', ⟨a, d, c, hl, ha, hd, rfl⟩, h⟩
      obtain ⟨r, rfl, hr⟩ := exists_of_weight_eq_length hw hl.symm ha
      exact ⟨a, r, d, c, rfl, ha, hr.symm, hd, (hins a c ha).1 h⟩
    · rintro ⟨q, r, d, c, rfl, hq, hdc, hd, ht⟩
      refine ⟨q ++ c, ⟨q, d, c, ?_, hq, hd, rfl⟩, (hins q c hq).2 ht⟩
      rw [List.append_assoc, hdc]

theorem exists_of_suffix_weight {a c b t : List α} (h : a ++ c = b ++ t)
    (hle : weight w t ≤ weight w c) : ∃ d, c = d ++ t ∧ a ++ d = b := by
  rcases List.append_eq_append_iff.1 h with ⟨d, rfl, rfl⟩ | ⟨d, rfl, rfl⟩
  · exact ⟨d, rfl, rfl⟩
  · have hd : d = [] := by
      by_contra hne
      have hpos := weight_pos hw hne
      rw [weight_append] at hle
      omega
    subst hd
    exact ⟨[], rfl, by simp⟩

/-- **Edits at weighted positions.** An edit computed in elements, carried out at weighted positions,
gives what it should if and only if it fits. -/
theorem editAt_eq_some_iff (hne : m ≠ [] ∨ new ≠ [])
    (hlast : ∀ x y, m.getLast? = some x → new.getLast? = some y → x ≠ y) :
    editAt w (p ++ (m ++ s)) p.length (p.length + m.length) new = some (p ++ (new ++ s)) ↔
      Fits w p m new := by
  rw [editAt_eq_some hw hne]
  constructor
  · rintro ⟨q, r, d, c, rfl, hq, hdc, hd, ht⟩
    have hc : new ++ c = (r ++ new) ++ s := by
      rw [List.append_assoc] at ht
      rw [List.append_assoc]
      exact (List.append_cancel_left ht).symm
    have hwc := congrArg (weight w) hc
    have hwd := congrArg (weight w) hdc
    simp only [weight_append] at hwc hwd
    obtain ⟨t, rfl, ht'⟩ := exists_of_suffix_weight hw hc (by omega)
    have hrm : r ++ m = d ++ t := by
      have h : (r ++ m) ++ s = (d ++ t) ++ s := by simpa using hdc
      exact List.append_cancel_right h
    refine ⟨(weight_eq_length_iff hw).1 (by omega), ?_⟩
    by_cases hr : r = []
    · subst hr
      rw [List.append_nil] at hq ⊢
      exact .inl ((weight_eq_length_iff hw).1 hq)
    · refine .inr ⟨q, r, rfl, hq, ?_⟩
      by_cases hm : m = []
      · subst hm
        have hd' : d = [] := by
          by_contra hne
          have hpos := weight_pos hw hne
          simp only [List.length_nil] at hd
          omega
        subst hd'
        rw [List.append_nil, List.nil_append] at hrm
        exact .inl ⟨rfl, hrm ▸ ht'⟩
      · refine .inr ?_
        by_contra hno
        -- both the removed and the inserted part end as the shifted part does
        have hnew : new ≠ [] := by
          rintro rfl
          rw [List.nil_append, List.append_nil] at ht'
          exact hno ⟨rfl, d, ht' ▸ hrm⟩
        have ht₀ : t ≠ [] := by
          rintro rfl
          have hpos := weight_pos hw hr
          simp only [weight_append, weight_nil] at hwc
          omega
        have hlast₁ : m.getLast? = t.getLast? := by
          have h := congrArg List.getLast? hrm
          rwa [List.getLast?_append_of_ne_nil _ hm, List.getLast?_append_of_ne_nil _ ht₀] at h
        have hlast₂ : new.getLast? = t.getLast? := by
          have h := congrArg List.getLast? ht'
          rwa [List.getLast?_append_of_ne_nil _ ht₀, List.getLast?_append_of_ne_nil _ hnew,
            eq_comm] at h
        have hx := List.getLast?_eq_some_getLast hm
        exact hlast _ _ hx (hlast₂.trans (hlast₁.symm.trans hx)) rfl
  · rintro ⟨hm, hkept⟩
    have hwm := (weight_eq_length_iff hw).2 hm
    rcases hkept with hp | ⟨q, r, rfl, hq, ⟨rfl, hcomm⟩ | ⟨rfl, d, hd⟩⟩
    · exact ⟨p, [], m, s, by simp, (weight_eq_length_iff hw).2 hp, rfl, hwm, rfl⟩
    · refine ⟨q, r, [], r ++ s, rfl, hq, rfl, rfl, ?_⟩
      rw [List.append_assoc, ← List.append_assoc r, ← hcomm, List.append_assoc]
    · have hwd := congrArg (weight w) hd
      simp only [weight_append] at hwd
      refine ⟨q, r, d, r ++ s, rfl, hq, ?_, by omega, ?_⟩
      · rw [← List.append_assoc, hd, List.append_assoc]
      · rw [List.nil_append, List.nil_append, List.append_assoc]

end Weight

end Concord.Base
