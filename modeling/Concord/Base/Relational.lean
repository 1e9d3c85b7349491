import Concord.Base.Dict
import Concord.Base.Forest

/-!
# Tables with foreign keys

What becomes of the rows that refer to a row that is deleted. The database has a referential action for
every foreign key. An object mapper adds what it does itself, before the database is asked: children in a
relationship with delete cascade are deleted too, and the other children are detached from their parents.

`reach` is the search by which a deletion comes from the rows it has started from to the rows below them.
It ends on every graph in which each node has at most one parent.
-/

namespace Concord.Base

universe u v w

/-! ## Search -/

section Reach

variable {K : Type u} [DecidableEq K]

/-- The nodes found from those in `todo`, each of which is expanded once. -/
def reach (children : K → List K) : Nat → List K → List K → List K
  | 0, _, found => found
  | _ + 1, [], found => found
  | fuel + 1, k :: todo, found =>
    if k ∈ found then reach children fuel todo found
    else reach children fuel (todo ++ children k) (found ++ [k])

variable {children : K → List K} {fuel n : Nat} {todo found : List K} {k : K}

/-- What is found has every property that the children inherit. -/
theorem reach_sound {P : K → Prop} (hstep : ∀ k, P k → ∀ c ∈ children k, P c)
    (htodo : ∀ k ∈ todo, P k) (hfound : ∀ k ∈ found, P k) :
    ∀ k ∈ reach children fuel todo found, P k := by
  induction fuel generalizing todo found with
  | zero => exact hfound
  | succ fuel ih =>
    cases todo with
    | nil => exact hfound
    | cons k todo =>
      obtain ⟨hk, htodo⟩ := List.forall_mem_cons.1 htodo
      rw [reach]
      split
      · exact ih htodo hfound
      · refine ih ?_ ?_
        · exact List.forall_mem_append.2 ⟨htodo, hstep k hk⟩
        · exact List.forall_mem_append.2 ⟨hfound, by simpa using hk⟩

/-- The fuel that is left is enough: `n` bounds the children of distinct nodes. -/
structure Supplied (children : K → List K) (n fuel : Nat) (todo found : List K) : Prop where
  fuel : todo.length + n ≤ fuel + (found.flatMap children).length
  nodup : found.Nodup
  bound : ∀ l : List K, l.Nodup → (l.flatMap children).length ≤ n

omit [DecidableEq K] in
theorem Supplied.expand (h : Supplied children n (fuel + 1) (k :: todo) found) (hk : k ∉ found) :
    Supplied children n fuel (todo ++ children k) (found ++ [k]) where
  fuel := by
    have hfuel := h.fuel
    rw [List.flatMap_append, List.flatMap_singleton, List.length_append, List.length_append]
    rw [List.length_cons] at hfuel
    omega
  nodup := by
    rw [List.nodup_append_comm]
    exact List.nodup_cons.2 ⟨hk, h.nodup⟩
  bound := h.bound

omit [DecidableEq K] in
theorem Supplied.skip (h : Supplied children n (fuel + 1) (k :: todo) found) :
    Supplied children n fuel todo found where
  fuel := by
    have hfuel := h.fuel
    rw [List.length_cons] at hfuel
    omega
  nodup := h.nodup
  bound := h.bound

/-- With enough fuel the search finds all it was given, with their children. -/
theorem reach_complete (h : Supplied children n fuel todo found)
    (hopen : ∀ k ∈ found, ∀ c ∈ children k, c ∈ found ∨ c ∈ todo) :
    (∀ k ∈ todo, k ∈ reach children fuel todo found) ∧
      (∀ k ∈ found, k ∈ reach children fuel todo found) ∧
      ∀ k ∈ reach children fuel todo found, ∀ c ∈ children k, c ∈ reach children fuel todo found := by
  induction fuel generalizing todo found with
  | zero =>
    have hnil : todo = [] := by
      have hfuel := h.fuel
      have hbound := h.bound found h.nodup
      exact List.eq_nil_of_length_eq_zero (by omega)
    subst hnil
    exact ⟨nofun, fun k hk => hk, fun k hk c hc => (hopen k hk c hc).resolve_right nofun⟩
  | succ fuel ih =>
    cases todo with
    | nil => exact ⟨nofun, fun k hk => hk, fun k hk c hc => (hopen k hk c hc).resolve_right nofun⟩
    | cons k todo =>
      rw [reach]
      split
      · next hk =>
        obtain ⟨htodo, hfound, hclosed⟩ := ih h.skip fun i hi c hc => by
          rcases hopen i hi c hc with hc | hc
          · exact .inl hc
          · rcases List.mem_cons.1 hc with rfl | hc
            · exact .inl hk
            · exact .inr hc
        exact ⟨List.forall_mem_cons.2 ⟨hfound k hk, htodo⟩, hfound, hclosed⟩
      · next hk =>
        obtain ⟨htodo, hfound, hclosed⟩ := ih (h.expand hk) fun i hi c hc => by
          rcases List.mem_append.1 hi with hi | hi
          · rcases hopen i hi c hc with hc | hc
            · exact .inl (List.mem_append_left _ hc)
            · rcases List.mem_cons.1 hc with rfl | hc
              · exact .inl (List.mem_append_right _ (List.mem_singleton_self _))
              · exact .inr (List.mem_append_left _ hc)
          · obtain rfl := List.mem_singleton.1 hi
            exact .inr (List.mem_append_right _ hc)
        obtain ⟨htodo, -⟩ := List.forall_mem_append.1 htodo
        obtain ⟨hfound, hk⟩ := List.forall_mem_append.1 hfound
        exact ⟨List.forall_mem_cons.2 ⟨hk k (List.mem_singleton_self k), htodo⟩, hfound, hclosed⟩

end Reach

/-! ## Foreign keys -/

/-- What the database does with a row when the row that it refers to is deleted. -/
inductive OnDelete
  | cascade | setNull
deriving DecidableEq, Repr

/-- A column of the rows `R` that refers to the ids `K` of another table. `clear` sets it to `NULL`, if
the column may be `NULL`. -/
structure ForeignKey (K : Type u) (R : Type v) where
  ref : R → Option K
  clear : Option (R → R)
  onDelete : OnDelete

namespace ForeignKey

variable {K : Type u} {R : Type v} {I : Type w} [DecidableEq K] (fk : ForeignKey K R) (gone : List K) (rows : Dict I R)

/-- The row refers to one of the rows that are gone. -/
def refersTo (row : R) : Bool := (fk.ref row).any (· ∈ gone)

/-- The ids of the rows that refer to one of the rows that are gone. -/
def referring : List I := (rows.items.filter fun item => fk.refersTo gone item.2).map Prod.fst

/-- `UPDATE … SET column = NULL` for the rows that refer to one of those; `none` where the column may not
be `NULL`. -/
def setNull : Option (Dict I R) :=
  match fk.clear with
  | some clear => some (rows.mapValues fun row => if fk.refersTo gone row then clear row else row)
  | none => if fk.referring gone rows = [] then some rows else none

/-- The referential action of a `DELETE` of the rows that are gone. -/
def enforce : Option (Dict I R) :=
  match fk.onDelete with
  | .cascade => some (rows.filterValues fun row => !fk.refersTo gone row)
  | .setNull => fk.setNull gone rows

variable {fk gone rows} {i : I} {row : R} {k : K}

/-- A column that may not be `NULL` is set to `NULL` in no row. -/
theorem setNull_of_required (h : fk.clear = none) :
    fk.setNull gone rows = if fk.referring gone rows = [] then some rows else none := by
  unfold setNull
  rw [h]

theorem refersTo_iff : fk.refersTo gone row = true ↔ ∃ k ∈ gone, fk.ref row = some k := by
  unfold refersTo
  rw [Option.any_eq_true]
  constructor
  · rintro ⟨k, hk, hgone⟩
    exact ⟨k, of_decide_eq_true hgone, hk⟩
  · rintro ⟨k, hgone, hk⟩
    exact ⟨k, hk, decide_eq_true hgone⟩

variable [DecidableEq I]

theorem mem_referring : i ∈ fk.referring gone rows ↔
    ∃ row, rows.get? i = some row ∧ ∃ k ∈ gone, fk.ref row = some k := by
  unfold referring
  rw [List.mem_map]
  constructor
  · rintro ⟨⟨j, row⟩, hitem, rfl⟩
    obtain ⟨hitem, href⟩ := List.mem_filter.1 hitem
    exact ⟨row, Dict.mem_items_iff.1 hitem, refersTo_iff.1 href⟩
  · rintro ⟨row, hrow, href⟩
    exact ⟨(i, row), List.mem_filter.2 ⟨Dict.mem_items_iff.2 hrow, refersTo_iff.2 href⟩, rfl⟩

theorem referring_eq_nil_iff : fk.referring gone rows = [] ↔
    ∀ i row, rows.get? i = some row → ∀ k ∈ gone, fk.ref row ≠ some k := by
  rw [List.eq_nil_iff_forall_not_mem]
  constructor
  · intro h i row hrow k hk href
    exact h i (mem_referring.2 ⟨row, hrow, k, hk, href⟩)
  · intro h i hi
    obtain ⟨row, hrow, k, hk, href⟩ := mem_referring.1 hi
    exact h i row hrow k hk href

end ForeignKey

/-! ## Tables whose rows refer to each other -/

namespace ForeignKey

variable {K : Type u} {R : Type v} [DecidableEq K] (fk : ForeignKey K R) (rows : Dict K R)

/-- The rows with their parents. -/
def parents (k : K) : Option (Option K) := (rows.get? k).map fk.ref

/-- The rows in `start` and those below them. -/
def subtrees (start : List K) : List K :=
  reach (fun k => fk.referring [k] rows) (start.length + rows.items.length) start []

variable {fk rows} {start : List K} {k c : K}

theorem mem_referring_singleton : c ∈ fk.referring [k] rows ↔ fk.parents rows c = some (some k) := by
  rw [mem_referring]
  simp [parents]

/-- No row is a child of two rows. -/
theorem length_flatMap_referring_le {l : List K} (h : l.Nodup) :
    (l.flatMap fun k => fk.referring [k] rows).length ≤ rows.items.length := by
  have hnodup : (l.flatMap fun k => fk.referring [k] rows).Nodup := by
    refine List.nodup_flatMap.2 ⟨fun k _ => ?_, ?_⟩
    · exact rows.nodup.sublist (List.filter_sublist.map _)
    · refine h.imp fun {k k'} hne c hc hc' => hne ?_
      rw [mem_referring_singleton] at hc hc'
      rw [hc] at hc'
      exact Option.some.inj (Option.some.inj hc')
  have hsub : (l.flatMap fun k => fk.referring [k] rows) ⊆ rows.keys := by
    intro c hc
    obtain ⟨k, _, hc⟩ := List.mem_flatMap.1 hc
    obtain ⟨row, hrow, _⟩ := mem_referring.1 hc
    exact Dict.mem_keys_iff.2 ⟨row, hrow⟩
  have hle := (List.subperm_of_subset hnodup hsub).length_le
  rwa [Dict.keys, List.length_map] at hle

/-- The search finds just what is below the rows it has started from. -/
theorem mem_subtrees : k ∈ fk.subtrees rows start ↔ ∃ s ∈ start, Under (fk.parents rows) s k := by
  constructor
  · refine reach_sound (P := fun k => ∃ s ∈ start, Under (fk.parents rows) s k) ?_ ?_ ?_ k
    · rintro k ⟨s, hs, hunder⟩ c hc
      exact ⟨s, hs, .child (mem_referring_singleton.1 hc) hunder⟩
    · exact fun k hk => ⟨k, hk, .top⟩
    · exact fun _ h => nomatch h
  · rintro ⟨s, hs, hunder⟩
    have hsupplied : Supplied (fun k => fk.referring [k] rows) rows.items.length
        (start.length + rows.items.length) start [] :=
      ⟨by simp, .nil, fun l hl => length_flatMap_referring_le hl⟩
    obtain ⟨hstart, -, hclosed⟩ := reach_complete hsupplied fun _ h => nomatch h
    induction hunder with
    | top => exact hstart s hs
    | child h _ ih => exact hclosed _ ih _ (mem_referring_singleton.2 h)

end ForeignKey

/-! ## Relationships -/

/-- A one-to-many relationship of an object mapper, over the foreign key of the children. `cascade` says
whether a parent is deleted with its children. -/
structure Relationship (K : Type u) (R : Type v) where
  key : ForeignKey K R
  cascade : Bool

namespace Relationship

variable {K : Type u} {R : Type v} {I : Type w} [DecidableEq K]
  (rel : Relationship K R) (gone : List K) (rows : Dict I R)

/-- The children that are deleted with their parents. -/
def cascaded : List I := if rel.cascade then rel.key.referring gone rows else []

/-- The rows of `start` and those that are deleted with them, where the children are rows of the same
table. -/
def collect {R : Type v} (rel : Relationship K R) (rows : Dict K R) (start : List K) : List K :=
  reach (fun k => rel.cascaded [k] rows) (start.length + rows.items.length) start []

/-- The children that stay are detached from their parents. -/
def detach : Option (Dict I R) := if rel.cascade then some rows else rel.key.setNull gone rows

variable {rel gone rows}

theorem cascaded_of_cascade (h : rel.cascade = true) :
    rel.cascaded gone rows = rel.key.referring gone rows := if_pos h

theorem collect_of_cascade {rel : Relationship K R} {rows : Dict K R} {start : List K}
    (h : rel.cascade = true) : rel.collect rows start = rel.key.subtrees rows start := by
  unfold collect ForeignKey.subtrees
  simp only [cascaded_of_cascade h]

/-- Children that have to have a parent are not detached. -/
theorem detach_of_required (h : rel.cascade = false) (hclear : rel.key.clear = none) :
    rel.detach gone rows = if rel.key.referring gone rows = [] then some rows else none := by
  unfold detach
  rw [h, if_neg (by decide)]
  exact ForeignKey.setNull_of_required hclear

end Relationship

/-! ## Deletion by id -/

namespace Dict

variable {K : Type u} {V : Type v} [DecidableEq K] {d : Dict K V} {ks : List K} {k : K} {v : V}

/-- `DELETE … WHERE id IN ks`. -/
def eraseAll (d : Dict K V) (ks : List K) : Dict K V where
  items := d.items.filter fun item => item.1 ∉ ks
  nodup := d.nodup.sublist (List.filter_sublist.map _)

theorem get?_eraseAll : (d.eraseAll ks).get? k = some v ↔ d.get? k = some v ∧ k ∉ ks := by
  rw [← mem_items_iff, ← mem_items_iff]
  simp [eraseAll]

/-- The rows of a table after a deletion: those that pass the test. -/
def Keeps (old new : Dict K V) (keep : K → V → Prop) : Prop :=
  ∀ k v, new.get? k = some v ↔ old.get? k = some v ∧ keep k v

end Dict

end Concord.Base
