import Concord.Realtime.Sessions

/-!
# The current document of a file

What the next `open_room` of a file yields is its live document, or, while the room is not loaded or
there is none, the content of its latest version. `RoomsInv` says that every stored version and every
acknowledged update is in the current document; it needs that rooms are checkpointed and evicted
only when that loses nothing.
-/

namespace Concord

open Concord.Base

variable {U B : Type} [DecidableEq U] (C : Pycrdt U B)

namespace Hub

variable (st : Hub U B)

/-- The document that the next `open_room` of the file yields. -/
def current (f : FileId) : Finset U :=
  match st.registered? f with
  | some r =>
    if (st.room r).hydrated then (st.room r).doc else C.latestContent (st.versions f)
  | none => C.latestContent (st.versions f)

end Hub

/-- How far a process is with the room it works on, or with the rooms it checkpoints. -/
inductive Stage (U B : Type)
  /-- It works on none. -/
  | free
  /-- It has got hold of the room, and perhaps its lock. -/
  | found (locked : Bool) (room : RoomRef)
  /-- It has the lock of the room, which is not hydrated, and perhaps read the latest version. -/
  | loading (room : RoomRef) (latest? : Option (Option (Version B)))
  /-- It has got hold of a hydrated room, and perhaps its lock; the room holds these updates. -/
  | opened (locked : Bool) (room : RoomRef) (updates : Finset U)
  /-- It has the checkpoint lock and nothing written. -/
  | holding
  /-- It has the checkpoint lock and these rooms to go through. -/
  | scanning (todo : List RoomRef)
  /-- It has the checkpoint lock and the document of a room of this file, and perhaps read its latest
  version. -/
  | writing (file : FileId) (doc : Finset U) (latest? : Option (Option (Version B)))
      (todo : List RoomRef)

/-- The room is still to be checkpointed by `p`: it holds no less than the versions, and nothing that
is not in the current document. -/
structure Due (st : Hub U B) (p : Pid) (r : RoomRef) : Prop where
  known : r.id < st.nextRoom
  unwritten : st.tx p r.file = []
  above : (st.room r).hydrated = true → ∀ v ∈ st.versions r.file, C.content v ⊆ (st.room r).doc
  below : (st.room r).doc ⊆ st.current C r.file

/-- Rooms of different files, each still to be checkpointed. -/
def AllDue (st : Hub U B) (p : Pid) (todo : List RoomRef) : Prop :=
  (todo.map (·.file)).Nodup ∧ ∀ r ∈ todo, Due C st p r

namespace Stage

/-- What is the case when `p` is so far. -/
def Holds (st : Hub U B) (p : Pid) : Stage U B → Prop
  | free => True
  | found locked r => (p, r) ∈ st.borrowed ∧ (locked = true → (st.room r).lock = some p)
  | loading r latest? => (p, r) ∈ st.borrowed ∧ (st.room r).lock = some p ∧
      (st.room r).hydrated = false ∧ ∀ latest ∈ latest?,
        st.current C r.file ⊆ (latest.map C.content).getD ∅ ∧
          ∀ v ∈ latest, ∃ doc, v.snapshotBytes = C.docToBytes doc
  | opened locked r updates => (p, r) ∈ st.borrowed ∧
      (locked = true → (st.room r).lock = some p) ∧ (st.room r).hydrated = true ∧
      updates ⊆ (st.room r).doc
  | holding => st.checkpointLock = some p ∧ st.tx p = fun _ => []
  | scanning todo => st.checkpointLock = some p ∧ AllDue C st p todo
  | writing f doc latest? todo => st.checkpointLock = some p ∧ f ∉ todo.map (·.file) ∧
      AllDue C st p todo ∧ (∀ v ∈ st.view p f, C.content v ⊆ doc) ∧ doc ⊆ st.current C f ∧
      ∀ latest ∈ latest?, latest = Pycrdt.latest (st.view p f)

end Stage

structure RoomsInv (st : Hub U B) (gs : Pid → Stage U B) : Prop where
  /-- A file has at most one registered room. -/
  keys : (st.registry.map (·.file)).Nodup
  known : ∀ r ∈ st.registry, r.id < st.nextRoom
  /-- A room that a request has got hold of is registered. -/
  borrowed : ∀ b ∈ st.borrowed, b.2 ∈ st.registry
  /-- A room that is not hydrated is empty. -/
  blank : ∀ r, (st.room r).hydrated = false → (st.room r).doc = ∅
  /-- The history that any session sees goes forward. -/
  forward : ∀ p f, C.Forward (st.view p f)
  /-- Only the checkpointer that has the lock has written versions. -/
  idle : ∀ p, st.checkpointLock ≠ some p → st.tx p = fun _ => []
  /-- The current document holds every version, also those about to be committed. -/
  bounded : ∀ p f, ∀ v ∈ st.view p f, C.content v ⊆ st.current C f
  /-- The current document holds every acknowledged update. -/
  acked : ∀ f, st.acked f ⊆ st.current C f
  holds : ∀ p, (gs p).Holds C st p

/-- What a step does to current documents and rooms. -/
structure Advance (st st' : Hub U B) : Prop where
  nextRoom : st.nextRoom ≤ st'.nextRoom
  /-- Current documents only grow, and do not while the file's room is not hydrated. -/
  grows : ∀ f, st.current C f ⊆ st'.current C f
  settled : ∀ f, (∀ r, st'.registered? f = some r → (st'.room r).hydrated = false) →
    st'.current C f ⊆ st.current C f
  hydrated : ∀ r, r.id < st.nextRoom → (st.room r).hydrated = true →
    (st'.room r).hydrated = true
  doc : ∀ r, r.id < st.nextRoom → (st.room r).hydrated = true → (st.room r).doc ⊆ (st'.room r).doc
  /-- A room that becomes hydrated holds the current document. -/
  loaded : ∀ r, r.id < st.nextRoom → (st.room r).hydrated = false →
    (st'.room r).hydrated = true → st.current C r.file ⊆ (st'.room r).doc
  /-- A room that changes is the live one. -/
  live : ∀ r, r.id < st.nextRoom → (st'.room r).doc = (st.room r).doc ∨
    (st'.room r).doc ⊆ st'.current C r.file

/-- A step that leaves alone what `q` has got hold of. -/
structure Yields (q : Pid) (st st' : Hub U B) : Prop extends Advance C st st' where
  borrowed : ∀ r, (q, r) ∈ st.borrowed → (q, r) ∈ st'.borrowed
  lock : ∀ r, (q, r) ∈ st.borrowed → (st.room r).lock = some q → (st'.room r).lock = some q
  unhydrated : ∀ r, (q, r) ∈ st.borrowed → (st.room r).lock = some q →
    (st.room r).hydrated = false → (st'.room r).hydrated = false
  checkpoint : st.checkpointLock = some q →
    st'.checkpointLock = some q ∧ st'.tx q = st.tx q ∧ st'.versions = st.versions

variable {C} {st st' : Hub U B} {gs : Pid → Stage U B} {p q : Pid} {g g' : Stage U B}

section Registry

theorem current_of_hydrated (hk : (st.registry.map (·.file)).Nodup) {r : RoomRef}
    (hr : r ∈ st.registry) (hh : (st.room r).hydrated = true) :
    st.current C r.file = (st.room r).doc := by
  rw [Hub.current, (Hub.registered?_eq_some_iff hk).2 ⟨hr, rfl⟩]
  exact if_pos hh

theorem current_of_not_hydrated {f : FileId}
    (h : ∀ r, st.registered? f = some r → (st.room r).hydrated = false) :
    st.current C f = C.latestContent (st.versions f) := by
  unfold Hub.current
  cases hr : st.registered? f with
  | none => rfl
  | some r => simp [h r hr]

end Registry

section Frame

theorem Due.frame {r : RoomRef} (h : Due C st q r) (hadv : Advance C st st')
    (htx : st'.tx q = st.tx q) (hver : st'.versions = st.versions)
    (hbounded : ∀ v ∈ st.versions r.file, C.content v ⊆ st.current C r.file) :
    Due C st' q r where
  known := Nat.lt_of_lt_of_le h.known hadv.nextRoom
  unwritten := htx ▸ h.unwritten
  above hh v hv := by
    rw [hver] at hv
    cases hh₀ : (st.room r).hydrated with
    | true => exact (h.above hh₀ v hv).trans (hadv.doc r h.known hh₀)
    | false => exact (hbounded v hv).trans (hadv.loaded r h.known hh₀ hh)
  below := by
    rcases hadv.live r h.known with hdoc | hlive
    · rw [hdoc]
      exact h.below.trans (hadv.grows _)
    · exact hlive

theorem AllDue.frame {todo : List RoomRef} (h : AllDue C st q todo) (hadv : Advance C st st')
    (htx : st'.tx q = st.tx q) (hver : st'.versions = st.versions)
    (hbounded : ∀ f, ∀ v ∈ st.versions f, C.content v ⊆ st.current C f) : AllDue C st' q todo :=
  ⟨h.1, fun r hr => (h.2 r hr).frame hadv htx hver (hbounded r.file)⟩

namespace RoomsInv

/-- Some session has written nothing. -/
theorem exists_idle (h : RoomsInv C st gs) : ∃ q, st.tx q = fun _ => [] := by
  cases hl : st.checkpointLock with
  | none => exact ⟨0, h.idle 0 (by simp [hl])⟩
  | some q => exact ⟨q + 1, h.idle (q + 1) (by simp [hl])⟩

theorem forward_versions (h : RoomsInv C st gs) (f : FileId) : C.Forward (st.versions f) := by
  obtain ⟨q, hq⟩ := h.exists_idle
  rw [← Hub.view_of_idle hq f]
  exact h.forward q f

theorem bounded_versions (h : RoomsInv C st gs) (f : FileId) :
    ∀ v ∈ st.versions f, C.content v ⊆ st.current C f := by
  obtain ⟨q, hq⟩ := h.exists_idle
  rw [← Hub.view_of_idle hq f]
  exact h.bounded q f

theorem registered_of_borrowed (h : RoomsInv C st gs) {r : RoomRef} (hb : (p, r) ∈ st.borrowed) :
    st.registered? r.file = some r :=
  (Hub.registered?_eq_some_iff h.keys).2 ⟨h.borrowed _ hb, rfl⟩

/-- What another process has got hold of stays so. -/
theorem holds_frame (h : RoomsInv C st gs) (hh : g.Holds C st q) (hy : Yields C q st st')
    (hkeys : (st'.registry.map (·.file)).Nodup) (hborrowed : ∀ b ∈ st'.borrowed, b.2 ∈ st'.registry) :
    g.Holds C st' q := by
  have hknown : ∀ r, (q, r) ∈ st.borrowed → r.id < st.nextRoom :=
    fun r hr => h.known r (h.borrowed _ hr)
  cases g with
  | free => trivial
  | found locked r => exact ⟨hy.borrowed r hh.1, fun hl => hy.lock r hh.1 (hh.2 hl)⟩
  | loading r latest? =>
    obtain ⟨hb, hl, hhyd, hlatest⟩ := hh
    have hhyd' := hy.unhydrated r hb hl hhyd
    refine ⟨hy.borrowed r hb, hy.lock r hb hl, hhyd', fun latest hm => ?_⟩
    refine ⟨(hy.settled r.file fun r' hr' => ?_).trans (hlatest latest hm).1, (hlatest latest hm).2⟩
    have hr : st'.registered? r.file = some r :=
      (Hub.registered?_eq_some_iff hkeys).2 ⟨hborrowed _ (hy.borrowed r hb), rfl⟩
    rw [hr] at hr'
    cases hr'
    exact hhyd'
  | opened locked r updates =>
    obtain ⟨hb, hl, hhyd, hup⟩ := hh
    exact ⟨hy.borrowed r hb, fun ho => hy.lock r hb (hl ho), hy.hydrated r (hknown r hb) hhyd,
      hup.trans (hy.doc r (hknown r hb) hhyd)⟩
  | holding =>
    obtain ⟨hl, htx, -⟩ := hy.checkpoint hh.1
    exact ⟨hl, htx.trans hh.2⟩
  | scanning todo =>
    obtain ⟨hl, hdue⟩ := hh
    obtain ⟨hl', htx, hver⟩ := hy.checkpoint hl
    exact ⟨hl', hdue.frame hy.toAdvance htx hver h.bounded_versions⟩
  | writing f doc latest? todo =>
    obtain ⟨hl, hf, hdue, habove, hbelow, hlatest⟩ := hh
    obtain ⟨hl', htx, hver⟩ := hy.checkpoint hl
    have hview : st'.view q f = st.view q f := by rw [Hub.view, Hub.view, htx, hver]
    exact ⟨hl', hf, hdue.frame hy.toAdvance htx hver h.bounded_versions, hview ▸ habove,
      hbelow.trans (hy.grows f), hview ▸ hlatest⟩

end RoomsInv

end Frame

namespace RoomsInv

/-- One step of `p`. -/
theorem step (h : RoomsInv C st gs) (hy : ∀ q, q ≠ p → Yields C q st st')
    (hkeys : (st'.registry.map (·.file)).Nodup) (hknown : ∀ r ∈ st'.registry, r.id < st'.nextRoom)
    (hborrowed : ∀ b ∈ st'.borrowed, b.2 ∈ st'.registry)
    (hblank : ∀ r, (st'.room r).hydrated = false → (st'.room r).doc = ∅)
    (hforward : ∀ q f, C.Forward (st'.view q f))
    (hidle : ∀ q, st'.checkpointLock ≠ some q → st'.tx q = fun _ => [])
    (hbounded : ∀ q f, ∀ v ∈ st'.view q f, C.content v ⊆ st'.current C f)
    (hacked : ∀ f, st'.acked f ⊆ st'.current C f) (hp : g'.Holds C st' p) :
    RoomsInv C st' (Function.update gs p g') := by
  refine ⟨hkeys, hknown, hborrowed, hblank, hforward, hidle, hbounded, hacked, fun q => ?_⟩
  by_cases hq : q = p
  · subst hq
    simpa using hp
  · rw [Function.update_of_ne hq]
    exact h.holds_frame (h.holds q) (hy q hq) hkeys hborrowed

/-! ### Steps that change no document -/

/-- The documents of the rooms and what is stored are as they were. -/
structure Quiet (st st' : Hub U B) : Prop where
  registry : st'.registry = st.registry
  nextRoom : st'.nextRoom = st.nextRoom
  doc : ∀ r, (st'.room r).doc = (st.room r).doc
  hydrated : ∀ r, (st'.room r).hydrated = (st.room r).hydrated
  versions : st'.versions = st.versions
  tx : st'.tx = st.tx

omit [DecidableEq U] in
theorem Quiet.setRoom {r : RoomRef} {x : Room U} (hdoc : x.doc = (st.room r).doc)
    (hhyd : x.hydrated = (st.room r).hydrated) : Quiet st (st.setRoom r x) := by
  refine ⟨rfl, rfl, fun r' => ?_, fun r' => ?_, rfl, rfl⟩
  · by_cases hr : r' = r
    · subst hr
      simpa [Hub.setRoom] using hdoc
    · simp [Hub.setRoom, hr]
  · by_cases hr : r' = r
    · subst hr
      simpa [Hub.setRoom] using hhyd
    · simp [Hub.setRoom, hr]

omit [DecidableEq U] in
theorem Quiet.view (hq : Quiet st st') : st'.view = st.view := by
  funext p f
  rw [Hub.view, Hub.view, hq.tx, hq.versions]

theorem Quiet.current (hq : Quiet st st') : st'.current C = st.current C := by
  funext f
  simp only [Hub.current, Hub.registered?, hq.registry, hq.versions, hq.doc, hq.hydrated]

theorem Quiet.advance (hq : Quiet st st') : Advance C st st' where
  nextRoom := Nat.le_of_eq hq.nextRoom.symm
  grows f := by rw [hq.current]
  settled f _ := by rw [hq.current]
  hydrated r _ hh := (hq.hydrated r).trans hh
  doc r _ _ := by rw [hq.doc]
  loaded r _ hh hh' := by
    rw [hq.hydrated, hh] at hh'
    cases hh'
  live r _ := .inl (hq.doc r)

theorem quiet (h : RoomsInv C st gs) (hq : Quiet st st')
    (hborrowed : ∀ b ∈ st'.borrowed, b ∈ st.borrowed ∨ b.2 ∈ st.registry)
    (hkept : ∀ q r, q ≠ p → (q, r) ∈ st.borrowed → (q, r) ∈ st'.borrowed)
    (hlock : ∀ q r, q ≠ p → (st.room r).lock = some q → (st'.room r).lock = some q)
    (hcheckpoint : ∀ q, q ≠ p → st.checkpointLock = some q → st'.checkpointLock = some q)
    (hidle : st.checkpointLock = some p → st'.checkpointLock = some p ∨ st.tx p = fun _ => [])
    (hacked : ∀ f, st'.acked f ⊆ st.current C f) (hp : g'.Holds C st' p) :
    RoomsInv C st' (Function.update gs p g') := by
  refine h.step (fun q hqp => ⟨hq.advance, fun r => hkept q r hqp, fun r _ => hlock q r hqp,
    fun r _ _ hh => (hq.hydrated r).trans hh,
    fun hl => ⟨hcheckpoint q hqp hl, by rw [hq.tx], hq.versions⟩⟩) ?_ ?_ ?_ ?_ ?_ ?_ ?_ ?_ hp
  · rw [hq.registry]
    exact h.keys
  · rw [hq.registry, hq.nextRoom]
    exact h.known
  · intro b hb
    rw [hq.registry]
    exact (hborrowed b hb).elim (h.borrowed b) id
  · intro r hr
    rw [hq.hydrated] at hr
    rw [hq.doc]
    exact h.blank r hr
  · rw [hq.view]
    exact h.forward
  · intro q hl
    rw [hq.tx]
    by_cases hl₀ : st.checkpointLock = some q
    · by_cases hqp : q = p
      · subst hqp
        exact (hidle hl₀).resolve_left hl
      · exact absurd (hcheckpoint q hqp hl₀) hl
    · exact h.idle q hl₀
  · rw [hq.view, hq.current]
    exact h.bounded
  · rw [hq.current]
    exact hacked

/-- A step that changes nothing. -/
theorem stay (h : RoomsInv C st gs) (hp : g'.Holds C st p) :
    RoomsInv C st (Function.update gs p g') :=
  h.quiet ⟨rfl, rfl, fun _ => rfl, fun _ => rfl, rfl, rfl⟩ (fun _ hb => .inl hb)
    (fun _ _ _ hb => hb) (fun _ _ _ hl => hl) (fun _ _ hl => hl) .inl h.acked hp

/-- A room is replaced by one with the same document, its lock kept or taken or let go of by `p`. -/
theorem setRoom (h : RoomsInv C st gs) {r : RoomRef} {x : Room U} (hdoc : x.doc = (st.room r).doc)
    (hhyd : x.hydrated = (st.room r).hydrated)
    (hlock : ∀ q, q ≠ p → (st.room r).lock = some q → x.lock = some q)
    (hp : g'.Holds C (st.setRoom r x) p) :
    RoomsInv C (st.setRoom r x) (Function.update gs p g') := by
  refine h.quiet (.setRoom hdoc hhyd) (fun _ hb => .inl hb) (fun _ _ _ hb => hb)
    (fun q r' hq hl => ?_) (fun _ _ hl => hl) .inl h.acked hp
  by_cases hr : r' = r
  · subst hr
    simpa [Hub.setRoom] using hlock q hq hl
  · simpa [Hub.setRoom, hr] using hl

theorem borrow (h : RoomsInv C st gs) {r : RoomRef} (hr : r ∈ st.registry)
    (hp : g'.Holds C (st.borrow p r) p) :
    RoomsInv C (st.borrow p r) (Function.update gs p g') := by
  refine h.quiet ⟨rfl, rfl, fun _ => rfl, fun _ => rfl, rfl, rfl⟩ (fun b hb => ?_)
    (fun _ _ _ hb => List.mem_cons_of_mem _ hb) (fun _ _ _ hl => hl) (fun _ _ hl => hl) .inl
    h.acked hp
  rcases List.mem_cons.1 hb with rfl | hb
  · exact .inr hr
  · exact .inl hb

end RoomsInv

end Concord
