import Mathlib

/-!
# Dictionaries that remember insertion order

A dictionary is a list of items no two of which have the same key. Setting a key that is there
replaces its value and keeps its place; a new key goes to the end.

What a traversal adds up or counts follows from two permutations: setting a key leaves its new item
beside those of the other keys (`perm_set`), and a key that is there has its item beside them
(`perm_erase`).
-/

namespace Concord.Base

universe u v w

structure Dict (K : Type u) (V : Type v) where
  items : List (K × V)
  nodup : (items.map Prod.fst).Nodup
deriving DecidableEq

namespace Dict

variable {K : Type u} {V : Type v}

/-- `{}`. -/
def empty : Dict K V := ⟨[], .nil⟩

instance : EmptyCollection (Dict K V) := ⟨empty⟩

instance : Inhabited (Dict K V) := ⟨∅⟩

/-- `list(d)`. -/
def keys (d : Dict K V) : List K := d.items.map Prod.fst

/-- `list(d.values())`. -/
def values (d : Dict K V) : List V := d.items.map Prod.snd

/-- What the items of a dictionary add up to. -/
def sum {M : Type w} [AddCommMonoid M] (d : Dict K V) (f : K → V → M) : M :=
  (d.items.map fun item => f item.1 item.2).sum

theorem nodup_keys (d : Dict K V) : d.keys.Nodup := d.nodup

theorem nodup_items (d : Dict K V) : d.items.Nodup := List.Nodup.of_map _ d.nodup

@[simp] theorem items_empty : (∅ : Dict K V).items = [] := rfl

@[simp] theorem sum_empty {M : Type w} [AddCommMonoid M] {f : K → V → M} :
    (∅ : Dict K V).sum f = 0 := rfl

variable [DecidableEq K] (d : Dict K V) (k : K) (v : V)

/-- `d.get(k)`. -/
def get? : Option V := (d.items.find? fun item => item.1 = k).map Prod.snd

/-- `del d[k]`, for a key that may be missing. -/
def erase : Dict K V where
  items := d.items.filter fun item => item.1 ≠ k
  nodup := d.nodup.sublist (List.filter_sublist.map _)

/-- `d[k] = v`, in the list of items. -/
def setItem : List (K × V) → List (K × V)
  | [] => [(k, v)]
  | item :: rest => if item.1 = k then (k, v) :: rest else item :: setItem rest

variable {d k v}

theorem setItem_cons (item : K × V) (rest : List (K × V)) :
    setItem k v (item :: rest) = if item.1 = k then (k, v) :: rest else item :: setItem k v rest := rfl

theorem mem_map_fst_setItem {l : List (K × V)} {k' : K} :
    k' ∈ (setItem k v l).map Prod.fst ↔ k' = k ∨ k' ∈ l.map Prod.fst := by
  induction l with
  | nil => simp [setItem]
  | cons item rest ih =>
    rw [setItem_cons]
    split
    · next h => simp [h]
    · rw [List.map_cons, List.mem_cons, ih, List.map_cons, List.mem_cons, or_left_comm]

theorem nodup_setItem {l : List (K × V)} (h : (l.map Prod.fst).Nodup) :
    ((setItem k v l).map Prod.fst).Nodup := by
  induction l with
  | nil => exact List.nodup_singleton k
  | cons item rest ih =>
    rw [List.map_cons, List.nodup_cons] at h
    rw [setItem_cons]
    split
    · next hk =>
      subst hk
      exact List.nodup_cons.2 h
    · next hk =>
      rw [List.map_cons, List.nodup_cons, mem_map_fst_setItem]
      constructor
      · intro hmem
        rcases hmem with hmem | hmem
        · exact hk hmem
        · exact h.1 hmem
      · exact ih h.2

variable (d k v) in
/-- `d[k] = v`. -/
def set : Dict K V := ⟨setItem k v d.items, nodup_setItem d.nodup⟩

/-! ## Looking up -/

theorem mem_items_iff : (k, v) ∈ d.items ↔ d.get? k = some v := by
  unfold get?
  constructor
  · intro h
    cases hf : d.items.find? fun item => item.1 = k with
    | none => simpa using List.find?_eq_none.1 hf _ h
    | some item =>
      have hkey : item.1 = (k, v).1 := by simpa using List.find?_some hf
      have hitem := List.inj_on_of_nodup_map d.nodup (List.mem_of_find?_eq_some hf) h hkey
      rw [hitem, Option.map_some]
  · intro h
    obtain ⟨item, hf, rfl⟩ := Option.map_eq_some_iff.1 h
    have hkey : item.1 = k := by simpa using List.find?_some hf
    subst hkey
    exact List.mem_of_find?_eq_some hf

theorem mem_keys_iff : k ∈ d.keys ↔ ∃ v, d.get? k = some v := by
  unfold keys
  rw [List.mem_map]
  constructor
  · rintro ⟨item, hmem, rfl⟩
    exact ⟨item.2, mem_items_iff.1 hmem⟩
  · rintro ⟨v, h⟩
    exact ⟨(k, v), mem_items_iff.2 h, rfl⟩

theorem get?_eq_none_iff : d.get? k = none ↔ k ∉ d.keys := by
  rw [mem_keys_iff, Option.eq_none_iff_forall_ne_some]
  push Not
  rfl

@[simp] theorem get?_empty : (∅ : Dict K V).get? k = none := rfl

theorem mem_setItem {l : List (K × V)} {item : K × V} (h : (l.map Prod.fst).Nodup) :
    item ∈ setItem k v l ↔ item = (k, v) ∨ item ∈ l ∧ item.1 ≠ k := by
  induction l with
  | nil => simp [setItem]
  | cons head rest ih =>
    rw [List.map_cons, List.nodup_cons] at h
    unfold setItem
    split
    · next hk =>
      subst hk
      have hother : item ∈ rest → item.1 ≠ head.1 := fun hmem heq =>
        h.1 (heq ▸ List.mem_map_of_mem hmem)
      rw [List.mem_cons, List.mem_cons]
      constructor
      · rintro (hitem | hitem)
        · exact .inl hitem
        · exact .inr ⟨.inr hitem, hother hitem⟩
      · rintro (hitem | ⟨rfl | hitem, hne⟩)
        · exact .inl hitem
        · exact absurd rfl hne
        · exact .inr hitem
    · next hk =>
      rw [List.mem_cons, ih h.2, List.mem_cons]
      constructor
      · rintro (rfl | hitem | ⟨hitem, hne⟩)
        · exact .inr ⟨.inl rfl, hk⟩
        · exact .inl hitem
        · exact .inr ⟨.inr hitem, hne⟩
      · rintro (hitem | ⟨rfl | hitem, hne⟩)
        · exact .inr (.inl hitem)
        · exact .inl rfl
        · exact .inr (.inr ⟨hitem, hne⟩)

theorem mem_items_set {item : K × V} :
    item ∈ (d.set k v).items ↔ item = (k, v) ∨ item ∈ d.items ∧ item.1 ≠ k :=
  mem_setItem d.nodup

theorem mem_items_erase {item : K × V} :
    item ∈ (d.erase k).items ↔ item ∈ d.items ∧ item.1 ≠ k := by
  simp [erase]

@[simp] theorem get?_set_self : (d.set k v).get? k = some v :=
  mem_items_iff.1 (mem_items_set.2 (.inl rfl))

theorem get?_set_of_ne {k' : K} (h : k' ≠ k) : (d.set k v).get? k' = d.get? k' := by
  ext v'
  rw [← mem_items_iff, ← mem_items_iff, mem_items_set]
  simp [h]

theorem get?_set {k' : K} : (d.set k v).get? k' = if k' = k then some v else d.get? k' := by
  split
  · next h => rw [h, get?_set_self]
  · next h => exact get?_set_of_ne h

@[simp] theorem get?_erase_self : (d.erase k).get? k = none := by
  apply Option.eq_none_iff_forall_ne_some.2
  intro v h
  exact (mem_items_erase.1 (mem_items_iff.2 h)).2 rfl

theorem get?_erase_of_ne {k' : K} (h : k' ≠ k) : (d.erase k).get? k' = d.get? k' := by
  ext v'
  rw [← mem_items_iff, ← mem_items_iff, mem_items_erase]
  simp [h]

theorem get?_erase {k' : K} : (d.erase k).get? k' = if k' = k then none else d.get? k' := by
  split
  · next h => rw [h, get?_erase_self]
  · next h => exact get?_erase_of_ne h

theorem mem_keys_set {k' : K} : k' ∈ (d.set k v).keys ↔ k' = k ∨ k' ∈ d.keys :=
  mem_map_fst_setItem

/-! ## Adding up -/

theorem erase_of_get?_eq_none (h : d.get? k = none) : (d.erase k).items = d.items := by
  unfold erase
  apply List.filter_eq_self.2
  intro item hitem
  have hne : item.1 ≠ k := by
    rintro rfl
    exact get?_eq_none_iff.1 h (List.mem_map_of_mem hitem)
  simpa using hne

/-- The items of a dictionary with the key set. -/
theorem perm_set : (d.set k v).items.Perm ((k, v) :: (d.erase k).items) := by
  apply (List.perm_ext_iff_of_nodup (nodup_items _) _).2
  · intro item
    rw [mem_items_set, List.mem_cons, mem_items_erase]
  · rw [List.nodup_cons, mem_items_erase]
    exact ⟨fun h => h.2 rfl, nodup_items _⟩

/-- The items of a dictionary that has the key. -/
theorem perm_erase (h : d.get? k = some v) : d.items.Perm ((k, v) :: (d.erase k).items) := by
  apply (List.perm_ext_iff_of_nodup (nodup_items _) _).2
  · intro item
    rw [List.mem_cons, mem_items_erase]
    constructor
    · intro hitem
      by_cases hk : item.1 = k
      · have hget := mem_items_iff.1 (show (item.1, item.2) ∈ d.items from hitem)
        rw [hk, h] at hget
        left
        exact Prod.ext hk (Option.some.inj hget).symm
      · exact .inr ⟨hitem, hk⟩
    · rintro (rfl | ⟨hitem, -⟩)
      · exact mem_items_iff.2 h
      · exact hitem
  · rw [List.nodup_cons, mem_items_erase]
    exact ⟨fun h => h.2 rfl, nodup_items _⟩

section Count

variable (p : K × V → Bool)

theorem countP_set_of_none (h : d.get? k = none) :
    (d.set k v).items.countP p = d.items.countP p + if p (k, v) then 1 else 0 := by
  rw [perm_set.countP_eq, List.countP_cons, erase_of_get?_eq_none h]

theorem countP_set_of_some {old : V} (h : d.get? k = some old) :
    (d.set k v).items.countP p + (if p (k, old) then 1 else 0) =
      d.items.countP p + if p (k, v) then 1 else 0 := by
  rw [perm_set.countP_eq, (perm_erase h).countP_eq, List.countP_cons, List.countP_cons]
  omega

theorem countP_erase_of_some (h : d.get? k = some v) :
    (d.erase k).items.countP p + (if p (k, v) then 1 else 0) = d.items.countP p := by
  rw [(perm_erase h).countP_eq, List.countP_cons]

end Count

section Sum

variable {M : Type w} [AddCommMonoid M] {f : K → V → M}

theorem sum_set_of_none (h : d.get? k = none) : (d.set k v).sum f = f k v + d.sum f := by
  unfold sum
  rw [(perm_set.map _).sum_eq, List.map_cons, List.sum_cons, erase_of_get?_eq_none h]

theorem sum_set_of_some {old : V} (h : d.get? k = some old) :
    f k old + (d.set k v).sum f = f k v + d.sum f := by
  unfold sum
  rw [(perm_set.map _).sum_eq, ((perm_erase h).map _).sum_eq, List.map_cons, List.map_cons,
    List.sum_cons, List.sum_cons, add_left_comm]

omit [DecidableEq K] in
/-- At most one item passes a test that items with different keys do not both pass. -/
theorem length_filter_le_one {p : K × V → Bool}
    (h : ∀ a ∈ d.items, ∀ b ∈ d.items, p a = true → p b = true → a.1 = b.1) :
    (d.items.filter p).length ≤ 1 := by
  have hnodup : ((d.items.filter p).map Prod.fst).Nodup :=
    d.nodup.sublist (List.filter_sublist.map _)
  have hkey : ∀ a ∈ d.items.filter p, ∀ b ∈ d.items.filter p, a.1 = b.1 := by
    intro a ha b hb
    rw [List.mem_filter] at ha hb
    exact h a ha.1 b hb.1 ha.2 hb.2
  match hl : d.items.filter p with
  | [] | [_] => simp
  | a :: b :: rest =>
    rw [hl] at hnodup hkey
    have hab : a.1 = b.1 := hkey a (by simp) b (by simp)
    simp [hab] at hnodup

/-- The keys keep their places when one of them is set. -/
theorem keys_set_of_mem (h : k ∈ d.keys) : (d.set k v).keys = d.keys := by
  have hitems : ∀ l : List (K × V), k ∈ l.map Prod.fst →
      (setItem k v l).map Prod.fst = l.map Prod.fst := by
    intro l
    induction l with
    | nil => simp
    | cons item rest ih =>
      intro hk
      unfold setItem
      split
      · next heq => simp [heq]
      · next hne =>
        rw [List.map_cons, List.map_cons, ih]
        exact (List.mem_cons.1 hk).resolve_left (Ne.symm hne)
  exact hitems d.items h

theorem items_set_of_not_mem (h : k ∉ d.keys) : (d.set k v).items = d.items ++ [(k, v)] := by
  have hitems : ∀ l : List (K × V), k ∉ l.map Prod.fst → setItem k v l = l ++ [(k, v)] := by
    intro l
    induction l with
    | nil => simp [setItem]
    | cons item rest ih =>
      intro hk
      rw [List.map_cons, List.mem_cons, not_or] at hk
      rw [setItem, if_neg (Ne.symm hk.1), ih hk.2, List.cons_append]
  exact hitems d.items h

end Sum

/-! ## Building -/

section Build

variable {W : Type w}

/-- `{k: f(v) for k, v in d.items()}`. -/
def mapValues (d : Dict K V) (f : V → W) : Dict K W where
  items := d.items.map fun item => (item.1, f item.2)
  nodup := by simpa [Function.comp_def] using d.nodup

omit [DecidableEq K] in
@[simp] theorem keys_mapValues (f : V → W) : (d.mapValues f).keys = d.keys := by
  simp [keys, mapValues]

omit [DecidableEq K] in
@[simp] theorem sum_mapValues {M : Type*} [AddCommMonoid M] (f : V → W) (g : K → W → M) :
    (d.mapValues f).sum g = d.sum fun k v => g k (f v) := by
  simp [sum, mapValues, Function.comp_def]

@[simp] theorem get?_mapValues (f : V → W) : (d.mapValues f).get? k = (d.get? k).map f := by
  unfold get? mapValues
  rw [List.find?_map, Option.map_map, Option.map_map]
  rfl

/-- `{k: v for k, v in d.items() if p(v)}`. -/
def filterValues (d : Dict K V) (p : V → Bool) : Dict K V where
  items := d.items.filter fun item => p item.2
  nodup := d.nodup.sublist (List.filter_sublist.map _)

theorem get?_filterValues {p : V → Bool} :
    (d.filterValues p).get? k = some v ↔ d.get? k = some v ∧ p v = true := by
  rw [← mem_items_iff, ← mem_items_iff]
  exact List.mem_filter

omit [DecidableEq K] in
/-- What is filtered out adds nothing up if it counts as nothing. -/
theorem sum_filterValues {M : Type*} [AddCommMonoid M] {p : V → Bool} {f : K → V → M}
    (h : ∀ k v, p v = false → f k v = 0) : (d.filterValues p).sum f = d.sum f := by
  have hitems : ∀ l : List (K × V),
      ((l.filter fun item => p item.2).map fun item => f item.1 item.2).sum =
        (l.map fun item => f item.1 item.2).sum := by
    intro l
    induction l with
    | nil => rfl
    | cons item rest ih =>
      rw [List.filter_cons]
      split
      · rw [List.map_cons, List.sum_cons, ih, List.map_cons, List.sum_cons]
      · next hp =>
        rw [ih, List.map_cons, List.sum_cons, h item.1 item.2 (by simpa using hp), zero_add]
  exact hitems d.items

/-- `{k: v for k, v in l}`. -/
def ofItems (l : List (K × V)) : Dict K V := l.foldl (fun d item => d.set item.1 item.2) ∅

theorem items_ofItems {l : List (K × V)} (h : (l.map Prod.fst).Nodup) : (ofItems l).items = l := by
  have hfold : ∀ (l : List (K × V)) (d : Dict K V), ((d.items ++ l).map Prod.fst).Nodup →
      (l.foldl (fun d item => d.set item.1 item.2) d).items = d.items ++ l := by
    intro l
    induction l with
    | nil => simp
    | cons item rest ih =>
      intro d hnodup
      have hnew : item.1 ∉ d.keys := by
        intro hmem
        rw [List.map_append, List.nodup_append] at hnodup
        exact hnodup.2.2 _ hmem item.1 (by simp) rfl
      have hset : (d.set item.1 item.2).items = d.items ++ [item] := items_set_of_not_mem hnew
      rw [List.foldl_cons, ih, hset, List.append_assoc, List.singleton_append]
      rwa [hset, List.append_assoc, List.singleton_append]
  simpa [ofItems] using hfold l ∅ (by simpa using h)

theorem ofItems_items (d : Dict K V) : ofItems d.items = d := by
  have hitems := items_ofItems d.nodup
  cases d
  exact (Dict.mk.injEq _ _ _ _).mpr hitems

theorem mem_of_mem_ofItems {l : List (K × V)} {item : K × V} (h : item ∈ (ofItems l).items) :
    item ∈ l := by
  have hfold : ∀ (l : List (K × V)) (d : Dict K V),
      item ∈ (l.foldl (fun d item => d.set item.1 item.2) d).items → item ∈ d.items ∨ item ∈ l := by
    intro l
    induction l with
    | nil => simp
    | cons head rest ih =>
      intro d hmem
      rcases ih _ hmem with hmem | hmem
      · rcases mem_items_set.1 hmem with rfl | ⟨hmem, -⟩
        · exact .inr List.mem_cons_self
        · exact .inl hmem
      · exact .inr (List.mem_cons_of_mem _ hmem)
  rcases hfold l ∅ h with h | h
  · cases h
  · exact h

end Build

end Dict

end Concord.Base
