import Concord.Realtime.Current

/-!
# What each operation keeps

One lemma for each kind of step that changes a document, the versions or the registry: making a
room, loading it or applying an edit to it (`fill`), writing and committing versions, evicting
rooms.
-/

namespace Concord

open Concord.Base

variable {U B : Type} [DecidableEq U] {C : Pycrdt U B} {st st' : Hub U B} {gs : Pid → Stage U B}
  {p q : Pid} {g : Stage U B}

/-! ## The rows a session sees -/

namespace VersionWrite

variable {rows : List (Version B)} {w : VersionWrite B} {v : Version B}

/-- A write keeps what is stored. -/
theorem exists_of_mem (hv : v ∈ rows) : ∃ v' ∈ w.apply rows, C.content v' = C.content v := by
  cases w with
  | insert row => exact ⟨v, List.mem_append_left _ hv, rfl⟩
  | markSaved number user =>
    refine ⟨_, List.mem_map_of_mem hv, ?_⟩
    split
    · rfl
    · rfl

theorem forward_markSaved (h : C.Forward rows) (number : Nat) (user : UserId) :
    C.Forward ((markSaved number user).apply rows) := by
  refine ⟨fun v hv => ?_, List.pairwise_map.2 (h.grows.imp fun {v w} hvw => ?_)⟩
  · obtain ⟨v₀, hv₀, rfl⟩ := List.mem_map.1 hv
    obtain ⟨doc, hdoc⟩ := h.encoded v₀ hv₀
    refine ⟨doc, ?_⟩
    split
    · exact hdoc
    · exact hdoc
  · split
    · split
      · exact hvw
      · exact hvw
    · split
      · exact hvw
      · exact hvw

theorem exists_of_mem_markSaved {number : Nat} {user : UserId}
    (hv : v ∈ (markSaved number user).apply rows) : ∃ v₀ ∈ rows, C.content v = C.content v₀ := by
  obtain ⟨v₀, hv₀, rfl⟩ := List.mem_map.1 hv
  refine ⟨v₀, hv₀, ?_⟩
  split
  · rfl
  · rfl

end VersionWrite

namespace Hub

/-- Every committed version has a row of the same content in a session's view. -/
theorem exists_of_mem_versions {f : FileId} {v : Version B} (hv : v ∈ st.versions f) :
    ∃ v' ∈ st.view p f, C.content v' = C.content v := by
  unfold Hub.view
  induction st.tx p f using List.reverseRecOn with
  | nil => exact ⟨v, hv, rfl⟩
  | append_singleton ws w ih =>
    obtain ⟨v', hv', hc⟩ := ih
    rw [List.foldl_append, List.foldl_cons, List.foldl_nil]
    obtain ⟨v'', hv'', hc'⟩ := VersionWrite.exists_of_mem (C := C) (w := w) hv'
    exact ⟨v'', hv'', hc'.trans hc⟩

omit [DecidableEq U] in
theorem view_addWrite_self (f : FileId) (w : VersionWrite B) :
    (st.addWrite p f w).view p f = w.apply (st.view p f) := by
  simp [Hub.view, Hub.addWrite]

omit [DecidableEq U] in
theorem view_addWrite_of_ne {f f' : FileId} (w : VersionWrite B) (h : q ≠ p ∨ f' ≠ f) :
    (st.addWrite p f w).view q f' = st.view q f' := by
  unfold Hub.view Hub.addWrite
  by_cases hq : q = p
  · subst hq
    have hf : f' ≠ f := h.resolve_left (by simp)
    simp [hf]
  · simp [hq]

end Hub

theorem latestContent_subset {rows rows' : List (Version B)} (hf : C.Forward rows')
    (h : ∀ v ∈ rows, ∃ v' ∈ rows', C.content v' = C.content v) :
    C.latestContent rows ⊆ C.latestContent rows' := by
  unfold Pycrdt.latestContent
  cases hl : Pycrdt.latest rows with
  | none => simp
  | some v =>
    obtain ⟨v', hv', hc⟩ := h v (Pycrdt.mem_of_latest hl)
    rw [Option.map_some, Option.getD_some, ← hc]
    exact hf.subset_latestContent hv'

theorem latestContent_subset_of_forall {rows : List (Version B)} {doc : Finset U}
    (h : ∀ v ∈ rows, C.content v ⊆ doc) : C.latestContent rows ⊆ doc := by
  unfold Pycrdt.latestContent
  cases hl : Pycrdt.latest rows with
  | none => simp
  | some v => exact h v (Pycrdt.mem_of_latest hl)

/-! ## Rooms -/

namespace Hub

variable {r r' : RoomRef} {x : Room U} {f : FileId}

omit [DecidableEq U] in
@[simp] theorem room_setRoom_self : (st.setRoom r x).room r = x := by simp [Hub.setRoom]

omit [DecidableEq U] in
theorem room_setRoom_of_ne (h : r' ≠ r) : (st.setRoom r x).room r' = st.room r' := by
  simp [Hub.setRoom, h]

omit [DecidableEq U] in
@[simp] theorem registered?_setRoom : (st.setRoom r x).registered? f = st.registered? f := rfl

/-- The current document depends on the file's room and versions alone. -/
theorem current_congr (hreg : st'.registered? f = st.registered? f)
    (hroom : ∀ r, st.registered? f = some r → st'.room r = st.room r)
    (hver : st'.versions f = st.versions f) : st'.current C f = st.current C f := by
  unfold Hub.current
  rw [hreg, hver]
  cases hr : st.registered? f with
  | none => rfl
  | some r => simp only [hroom r hr]

theorem current_setRoom_self (hk : (st.registry.map (·.file)).Nodup) (hr : r ∈ st.registry)
    (hx : x.hydrated = true) : (st.setRoom r x).current C r.file = x.doc := by
  have hk' : ((st.setRoom r x).registry.map (·.file)).Nodup := hk
  have hx' : ((st.setRoom r x).room r).hydrated = true := by simpa using hx
  rw [current_of_hydrated hk' hr hx', room_setRoom_self]

theorem current_setRoom_of_ne (hk : (st.registry.map (·.file)).Nodup) (hf : f ≠ r.file) :
    (st.setRoom r x).current C f = st.current C f := by
  refine current_congr rfl (fun r' hr' => room_setRoom_of_ne ?_) rfl
  rintro rfl
  exact hf ((Hub.registered?_eq_some_iff hk).1 hr').2.symm

end Hub

namespace RoomsInv

/-- A room that becomes, or is, hydrated and holds no less than the current document. -/
theorem fill_advance (h : RoomsInv C st gs) {r : RoomRef} {x : Room U} (hr : r ∈ st.registry)
    (hx : x.hydrated = true) (hdoc : st.current C r.file ⊆ x.doc) :
    Advance C st (st.setRoom r x) where
  nextRoom := Nat.le_refl _
  grows f := by
    by_cases hf : f = r.file
    · rw [hf, Hub.current_setRoom_self h.keys hr hx]
      exact hdoc
    · rw [Hub.current_setRoom_of_ne h.keys hf]
  settled f hf := by
    by_cases hfr : f = r.file
    · have hfalse := hf r ((Hub.registered?_eq_some_iff h.keys).2 ⟨hr, hfr.symm⟩)
      rw [Hub.room_setRoom_self, hx] at hfalse
      cases hfalse
    · rw [Hub.current_setRoom_of_ne h.keys hfr]
  hydrated r' _ hh := by
    by_cases hr' : r' = r
    · rw [hr', Hub.room_setRoom_self]
      exact hx
    · rw [Hub.room_setRoom_of_ne hr']
      exact hh
  doc r' _ hh := by
    by_cases hr' : r' = r
    · subst hr'
      rw [Hub.room_setRoom_self, ← current_of_hydrated h.keys hr hh]
      exact hdoc
    · rw [Hub.room_setRoom_of_ne hr']
  loaded r' _ hh hh' := by
    by_cases hr' : r' = r
    · subst hr'
      rw [Hub.room_setRoom_self]
      exact hdoc
    · rw [Hub.room_setRoom_of_ne hr', hh] at hh'
      cases hh'
  live r' _ := by
    by_cases hr' : r' = r
    · subst hr'
      rw [Hub.room_setRoom_self, Hub.current_setRoom_self h.keys hr hx]
      exact .inr fun _ hu => hu
    · exact .inl (by rw [Hub.room_setRoom_of_ne hr'])

theorem fill (h : RoomsInv C st gs) {r : RoomRef} {x : Room U} (hr : r ∈ st.registry)
    (hx : x.hydrated = true) (hdoc : st.current C r.file ⊆ x.doc)
    (hlock : x.lock = (st.room r).lock)
    (hheld : (st.room r).hydrated = false → (st.room r).lock = some p)
    (hp : g.Holds C (st.setRoom r x) p) :
    RoomsInv C (st.setRoom r x) (Function.update gs p g) := by
  have hadv := h.fill_advance hr hx hdoc
  refine h.step (fun q hqp => ⟨hadv, fun r' hb => hb, fun r' _ hl => ?_, fun r' _ hl hh => ?_,
    fun hl => ⟨hl, rfl, rfl⟩⟩) h.keys h.known h.borrowed (fun r' hh => ?_) h.forward h.idle
    (fun q f v hv => (h.bounded q f v hv).trans (hadv.grows f))
    (fun f => (h.acked f).trans (hadv.grows f)) hp
  · by_cases hr' : r' = r
    · subst hr'
      rw [Hub.room_setRoom_self, hlock]
      exact hl
    · rw [Hub.room_setRoom_of_ne hr']
      exact hl
  · by_cases hr' : r' = r
    · subst hr'
      rw [hheld hh] at hl
      exact absurd (Option.some.inj hl).symm hqp
    · rw [Hub.room_setRoom_of_ne hr']
      exact hh
  · by_cases hr' : r' = r
    · subst hr'
      rw [Hub.room_setRoom_self, hx] at hh
      cases hh
    · rw [Hub.room_setRoom_of_ne hr'] at hh ⊢
      exact h.blank r' hh

section Create

variable {f : FileId} {now : Seconds}

/-- The hub with a new room of file `f`. -/
def created (st : Hub U B) (f : FileId) (now : Seconds) : Hub U B :=
  { st.setRoom ⟨st.nextRoom, f⟩ { lastAccessed := now } with
    registry := st.registry ++ [⟨st.nextRoom, f⟩]
    nextRoom := st.nextRoom + 1 }

omit [DecidableEq U] in
theorem created_room_self : (created st f now).room ⟨st.nextRoom, f⟩ = { lastAccessed := now } :=
  Hub.room_setRoom_self

omit [DecidableEq U] in
theorem created_room_of_ne {r : RoomRef} (hr : r ≠ ⟨st.nextRoom, f⟩) :
    (created st f now).room r = st.room r := by
  simp [created, Hub.setRoom, hr]

omit [DecidableEq U] in
theorem created_room_of_known {r : RoomRef} (hr : r.id < st.nextRoom) :
    (created st f now).room r = st.room r := by
  refine created_room_of_ne fun hr' => ?_
  rw [hr'] at hr
  exact absurd hr (Nat.lt_irrefl _)

omit [DecidableEq U] in
theorem created_registered? (f' : FileId) : (created st f now).registered? f' =
    (st.registered? f').or (if f = f' then some ⟨st.nextRoom, f⟩ else none) := by
  unfold Hub.registered? created
  rw [List.find?_append]
  by_cases hf : f = f'
  · simp [hf]
  · simp [hf]

theorem current_created (h : RoomsInv C st gs) (hnone : st.registered? f = none) (f' : FileId) :
    (created st f now).current C f' = st.current C f' := by
  by_cases hf : f = f'
  · subst hf
    have hnew : ∀ r, (created st f now).registered? f = some r →
        ((created st f now).room r).hydrated = false := by
      intro r hr
      rw [created_registered?, hnone, Option.none_or, if_pos rfl] at hr
      cases hr
      rw [created_room_self]
    rw [current_of_not_hydrated hnew, current_of_not_hydrated (by simp [hnone])]
    rfl
  · refine Hub.current_congr ?_ (fun r hr => ?_) rfl
    · rw [created_registered?, if_neg hf, Option.or_none]
    · exact created_room_of_known (h.known r ((Hub.registered?_eq_some_iff h.keys).1 hr).1)

/-- A new room. -/
theorem create (h : RoomsInv C st gs) (hnone : st.registered? f = none) :
    RoomsInv C (created st f now) (Function.update gs p .free) := by
  have hcur : ∀ f', (created st f now).current C f' = st.current C f' :=
    h.current_created hnone
  have hadv : Advance C st (created st f now) := by
    refine ⟨Nat.le_succ _, fun f' => ?_, fun f' _ => ?_, fun r hr hh => ?_, fun r hr _ => ?_,
      fun r hr hh hh' => ?_, fun r hr => .inl ?_⟩
    · rw [hcur]
    · rw [hcur]
    · rw [created_room_of_known hr]
      exact hh
    · rw [created_room_of_known hr]
    · rw [created_room_of_known hr, hh] at hh'
      cases hh'
    · rw [created_room_of_known hr]
  refine h.step (fun q hqp => ⟨hadv, fun r hb => hb, fun r hb hl => ?_, fun r hb _ hh => ?_,
    fun hl => ⟨hl, rfl, rfl⟩⟩) ?_ (fun r hr => ?_) (fun b hb => ?_) (fun r hh => ?_) h.forward
    h.idle (fun q f' => ?_) (fun f' => ?_) trivial
  · rw [created_room_of_known (h.known r (h.borrowed _ hb))]
    exact hl
  · rw [created_room_of_known (h.known r (h.borrowed _ hb))]
    exact hh
  · have hnew : f ∉ st.registry.map (·.file) := by
      intro hf
      obtain ⟨r, hr, hrf⟩ := List.mem_map.1 hf
      rw [(Hub.registered?_eq_some_iff h.keys).2 ⟨hr, hrf⟩] at hnone
      cases hnone
    have hkeys : (created st f now).registry.map (·.file) = st.registry.map (·.file) ++ [f] :=
      List.map_append
    rw [hkeys, List.nodup_append]
    refine ⟨h.keys, List.nodup_singleton _, fun a ha b hb hab => ?_⟩
    rw [List.mem_singleton] at hb
    exact hnew (hb ▸ hab ▸ ha)
  · rcases List.mem_append.1 hr with hr | hr
    · exact Nat.lt_succ_of_lt (h.known r hr)
    · rw [List.mem_singleton.1 hr]
      exact Nat.lt_succ_self _
  · exact List.mem_append_left _ (h.borrowed b hb)
  · by_cases hr : r = ⟨st.nextRoom, f⟩
    · rw [hr, created_room_self]
    · have hroom : (created st f now).room r = st.room r := created_room_of_ne hr
      rw [hroom] at hh ⊢
      exact h.blank r hh
  · rw [hcur]
    exact h.bounded q f'
  · rw [hcur]
    exact h.acked f'

end Create

/-! ## Versions -/

/-- A write of the checkpointer, whose view still goes forward and stays below what is current. -/
theorem addWrite (h : RoomsInv C st gs) (hl : st.checkpointLock = some p) {f : FileId}
    {w : VersionWrite B} (hforward : C.Forward (w.apply (st.view p f)))
    (hbounded : ∀ v ∈ w.apply (st.view p f), C.content v ⊆ st.current C f)
    (hp : g.Holds C (st.addWrite p f w) p) :
    RoomsInv C (st.addWrite p f w) (Function.update gs p g) := by
  have hadv : Advance C st (st.addWrite p f w) :=
    ⟨Nat.le_refl _, fun _ _ hu => hu, fun _ _ _ hu => hu, fun _ _ hh => hh, fun _ _ _ _ hu => hu,
      fun _ _ hh hh' => absurd (hh.symm.trans hh') (by simp), fun _ _ => .inl rfl⟩
  have htx : ∀ q, q ≠ p → (st.addWrite p f w).tx q = st.tx q := fun q hq =>
    Function.update_of_ne hq _ _
  have hview : ∀ q f', ¬(q = p ∧ f' = f) → (st.addWrite p f w).view q f' = st.view q f' :=
    fun q f' hne => Hub.view_addWrite_of_ne w (by tauto)
  refine h.step (fun q hqp => ⟨hadv, fun _ hb => hb, fun _ _ hl => hl, fun _ _ _ hh => hh,
    fun hl => ⟨hl, htx q hqp, rfl⟩⟩) h.keys h.known h.borrowed h.blank (fun q f' => ?_)
    (fun q hq => ?_) (fun q f' => ?_) h.acked hp
  · by_cases hqf : q = p ∧ f' = f
    · obtain ⟨rfl, rfl⟩ := hqf
      rw [Hub.view_addWrite_self]
      exact hforward
    · rw [hview q f' hqf]
      exact h.forward q f'
  · have hqp : q ≠ p := by
      rintro rfl
      exact hq hl
    rw [htx q hqp]
    exact h.idle q hq
  · by_cases hqf : q = p ∧ f' = f
    · obtain ⟨rfl, rfl⟩ := hqf
      rw [Hub.view_addWrite_self]
      exact hbounded
    · rw [hview q f' hqf]
      exact h.bounded q f'

/-- The checkpointer's commit. -/
theorem commit (h : RoomsInv C st gs) (hl : st.checkpointLock = some p) :
    RoomsInv C (st.commit p) (Function.update gs p .holding) := by
  have hcurrent : ∀ f, st.current C f ⊆ (st.commit p).current C f := by
    intro f
    unfold Hub.current
    cases hr : st.registered? f with
    | none =>
      have hr' : (st.commit p).registered? f = none := hr
      rw [hr']
      exact latestContent_subset (h.forward p f) fun v hv => Hub.exists_of_mem_versions hv
    | some r =>
      have hr' : (st.commit p).registered? f = some r := hr
      rw [hr']
      change (if (st.room r).hydrated then (st.room r).doc else _) ⊆
        if (st.room r).hydrated then (st.room r).doc else _
      split
      · exact fun _ hu => hu
      · exact latestContent_subset (h.forward p f) fun v hv => Hub.exists_of_mem_versions hv
  have hsettled : ∀ f, (∀ r, (st.commit p).registered? f = some r →
      ((st.commit p).room r).hydrated = false) → (st.commit p).current C f ⊆ st.current C f := by
    intro f hf
    rw [current_of_not_hydrated hf]
    exact latestContent_subset_of_forall (h.bounded p f)
  have hadv : Advance C st (st.commit p) :=
    ⟨Nat.le_refl _, hcurrent, hsettled, fun _ _ hh => hh, fun _ _ _ _ hu => hu,
      fun _ _ hh hh' => absurd (hh.symm.trans hh') (by simp), fun _ _ => .inl rfl⟩
  have htx : ∀ q, (st.commit p).tx q = fun _ => [] := by
    intro q
    by_cases hq : q = p
    · subst hq
      exact Function.update_self _ _ _
    · have hne : st.checkpointLock ≠ some q := by
        rw [hl]
        simpa [eq_comm] using hq
      exact (Function.update_of_ne hq _ _).trans (h.idle q hne)
  have hview : ∀ q f, (st.commit p).view q f = st.view p f :=
    fun q f => Hub.view_of_idle (htx q) f
  refine h.step (fun q hqp => ⟨hadv, fun _ hb => hb, fun _ _ hl => hl, fun _ _ _ hh => hh,
    fun hl' => absurd (Option.some.inj (hl'.symm.trans hl)) hqp⟩) h.keys h.known h.borrowed h.blank
    (fun q f => ?_) (fun q _ => htx q) (fun q f v hv => ?_)
    (fun f => (h.acked f).trans (hcurrent f)) ⟨hl, htx p⟩
  · rw [hview]
    exact h.forward p f
  · rw [hview] at hv
    exact (h.bounded p f v hv).trans (hcurrent f)

/-! ## Eviction -/

/-- The hub without the rooms that `gone` singles out. -/
def evicted (st : Hub U B) (gone : RoomRef → Bool) : Hub U B :=
  { st with registry := st.registry.filter fun r => !gone r }

omit [DecidableEq U] in
theorem evicted_registered?_iff (hk : (st.registry.map (·.file)).Nodup) {gone : RoomRef → Bool}
    {f : FileId} {r : RoomRef} : (evicted st gone).registered? f = some r ↔
      st.registered? f = some r ∧ gone r = false := by
  have hk' : ((evicted st gone).registry.map (·.file)).Nodup :=
    hk.sublist (List.filter_sublist.map _)
  rw [Hub.registered?_eq_some_iff hk', Hub.registered?_eq_some_iff hk]
  simp [evicted, and_right_comm]

theorem evict (h : RoomsInv C st gs) {gone : RoomRef → Bool}
    (hstored : ∀ r ∈ st.registry, gone r = true →
      (st.room r).doc ⊆ C.latestContent (st.versions r.file))
    (hunused : ∀ b ∈ st.borrowed, gone b.2 = false) :
    RoomsInv C (evicted st gone) (Function.update gs p .free) := by
  have hgrows : ∀ f, st.current C f ⊆ (evicted st gone).current C f := by
    intro f
    cases hr : st.registered? f with
    | none =>
      have hr' : ∀ r, (evicted st gone).registered? f = some r →
          ((evicted st gone).room r).hydrated = false := by
        intro r hr'
        rw [((evicted_registered?_iff h.keys).1 hr').1] at hr
        cases hr
      rw [current_of_not_hydrated hr', current_of_not_hydrated (by simp [hr])]
      exact fun _ hu => hu
    | some r =>
      obtain ⟨hmem, hfile⟩ := (Hub.registered?_eq_some_iff h.keys).1 hr
      subst hfile
      cases hg : gone r with
      | false =>
        have hr' := (evicted_registered?_iff h.keys).2 ⟨hr, hg⟩
        unfold Hub.current
        rw [hr, hr']
        exact fun _ hu => hu
      | true =>
        have hr' : ∀ r', (evicted st gone).registered? r.file = some r' →
            ((evicted st gone).room r').hydrated = false := by
          intro r' hr'
          obtain ⟨hr₁, hg'⟩ := (evicted_registered?_iff h.keys).1 hr'
          rw [hr] at hr₁
          cases hr₁
          rw [hg] at hg'
          cases hg'
        rw [current_of_not_hydrated hr']
        cases hh : (st.room r).hydrated with
        | true =>
          rw [current_of_hydrated h.keys hmem hh]
          exact hstored r hmem hg
        | false =>
          rw [current_of_not_hydrated]
          · exact fun _ hu => hu
          · intro r' hr'
            rw [hr] at hr'
            cases hr'
            exact hh
  have hadv : Advance C st (evicted st gone) := by
    refine ⟨Nat.le_refl _, hgrows, fun f hf => ?_, fun _ _ hh => hh, fun _ _ _ _ hu => hu,
      fun _ _ hh hh' => absurd (hh.symm.trans hh') (by simp), fun _ _ => .inl rfl⟩
    rw [current_of_not_hydrated hf]
    exact latestContent_subset_of_forall (h.bounded_versions f)
  refine h.step (fun q hqp => ⟨hadv, fun _ hb => hb, fun _ _ hl => hl, fun _ _ _ hh => hh,
    fun hl => ⟨hl, rfl, rfl⟩⟩) (h.keys.sublist (List.filter_sublist.map _))
    (fun r hr => h.known r (List.mem_of_mem_filter hr)) (fun b hb => ?_) h.blank h.forward h.idle
    (fun q f v hv => (h.bounded q f v hv).trans (hgrows f))
    (fun f => (h.acked f).trans (hgrows f)) trivial
  exact List.mem_filter.2 ⟨h.borrowed b hb, by simp [hunused b hb]⟩

end RoomsInv

end Concord
