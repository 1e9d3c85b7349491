import Concord.Realtime.Steps

/-!
# Nothing stored or acknowledged is lost

Every program of the realtime service keeps `RoomsInv`, provided that it checkpoints no room that is
still to be loaded and evicts none that is in use or not stored (`roomsKept`). So the stored history
of a file only goes forward, and the next one to open it finds every acknowledged update.
-/

namespace Concord

open Concord.Base Async

variable {U B : Type} [DecidableEq U] [DecidableEq B]

/-- A room is checkpointed once it is loaded, or when nothing is there to load; a room is evicted when
its document is stored and no running request has got hold of it. -/
def roomsKept (C : Pycrdt U B) (st : Hub U B) (_ : Pid) (_ : RoomRequest) :
    RoomOp B → RoomEnv B → Prop
  | .docToBytes r, _ =>
    (st.room r).hydrated = true ∨ C.latestContent (st.versions r.file) = ∅
  | .cleanupUnusedRooms ttl, env => ∀ r ∈ st.registry, st.unused env.now ttl r = true →
      (st.room r).doc ⊆ C.latestContent (st.versions r.file) ∧ ∀ b ∈ st.borrowed, b.2 ≠ r
  | _, _ => True

/-- The protocol of the processes of the realtime service. -/
def roomsProtocol (C : Pycrdt U B) (stored : Stored C) :
    Protocol (realtime C stored) (Stage U B) where
  Inv := RoomsInv C
  At _ _ _ _ := True
  ok := roomsKept C

section Rules

variable {C : Pycrdt U B} {stored : Stored C} {p : Pid} {r : RoomRequest} {g : Stage U B}
  {α : Type} {E : PyError → Stage U B → Prop}

/-- The rule of an operation that never raises. -/
theorem awaitOp_triple {o : RoomOp B} {Q : o.Val → Stage U B → Prop}
    (h : ∀ env st gs, RoomsInv C st gs → g.Holds C st p → roomsKept C st p r o env →
      ∀ x st', RoomOp.run C p env st o = some (x, st') →
        ∃ v g', x = .ok v ∧ RoomsInv C st' (Function.update gs p g') ∧ Q v g') :
    (roomsProtocol C stored).Triple p r g (awaitOp o) Q E := by
  refine Protocol.Triple.call trivial fun env st gs hinv hg hok x st' hx => ?_
  obtain ⟨v, g', rfl, hinv', hQ⟩ := h env st gs hinv (hg ▸ hinv.holds p) hok x st' hx
  exact ⟨g', hinv', hQ⟩

/-- The rule of an operation that only reads. -/
theorem read_triple {o : RoomOp B} {Q : o.Val → Stage U B → Prop}
    (value : RoomEnv B → Hub U B → o.Val)
    (hrun : ∀ env st, RoomOp.run C p env st o = some (.ok (value env st), st))
    (h : ∀ env st gs, RoomsInv C st gs → g.Holds C st p → roomsKept C st p r o env →
      ∃ g', g'.Holds C st p ∧ Q (value env st) g') :
    (roomsProtocol C stored).Triple p r g (awaitOp o) Q E := by
  refine awaitOp_triple fun env st gs hinv hg hok x st' hx => ?_
  rw [hrun] at hx
  cases hx
  obtain ⟨g', hg', hQ⟩ := h env st gs hinv hg hok
  exact ⟨_, g', rfl, hinv.stay hg', hQ⟩

/-! ### Opening a room -/

theorem getOrCreateRoom_triple (f : FileId) :
    (roomsProtocol C stored).Triple p r .free (awaitOp (.getOrCreateRoom f))
      (fun room g => room.file = f ∧ g = .found false room) E := by
  refine awaitOp_triple fun env st gs hinv _ _ x st' hx => ?_
  cases hr : st.registered? f with
  | some room =>
    obtain ⟨hmem, hfile⟩ := (Hub.registered?_eq_some_iff hinv.keys).1 hr
    simp only [RoomOp.run, Hub.getOrCreateRoom, hr, Option.some.injEq, Prod.mk.injEq] at hx
    obtain ⟨rfl, rfl⟩ := hx
    have hinv₁ : RoomsInv C (st.setRoom room { st.room room with lastAccessed := env.now })
        (Function.update gs p .free) := hinv.setRoom rfl rfl (fun _ _ hl => hl) trivial
    have hinv₂ : RoomsInv C _ (Function.update _ p (.found false room)) :=
      hinv₁.borrow hmem ⟨List.mem_cons_self, nofun⟩
    rw [Function.update_idem] at hinv₂
    exact ⟨room, _, rfl, hinv₂, hfile, rfl⟩
  | none =>
    simp only [RoomOp.run, Hub.getOrCreateRoom, hr, Option.some.injEq, Prod.mk.injEq] at hx
    obtain ⟨rfl, rfl⟩ := hx
    have hinv₁ : RoomsInv C (RoomsInv.created st f env.now) (Function.update gs p .free) :=
      hinv.create hr
    have hinv₂ : RoomsInv C _ (Function.update _ p (.found false ⟨st.nextRoom, f⟩)) :=
      hinv₁.borrow (List.mem_append_right _ List.mem_cons_self) ⟨List.mem_cons_self, nofun⟩
    rw [Function.update_idem] at hinv₂
    exact ⟨_, _, rfl, hinv₂, rfl, rfl⟩

theorem lockRoom_found_triple (room : RoomRef) :
    (roomsProtocol C stored).Triple p r (.found false room) (awaitOp (.lockRoom room))
      (fun _ g => g = .found true room) E := by
  refine awaitOp_triple fun env st gs hinv hg _ x st' hx => ?_
  simp only [RoomOp.run] at hx
  cases hl : (st.room room).lock with
  | some q =>
    rw [hl] at hx
    cases hx
  | none =>
    rw [hl] at hx
    cases hx
    refine ⟨(), .found true room, rfl, hinv.setRoom rfl rfl (fun q _ hq => ?_)
      ⟨hg.1, fun _ => ?_⟩, rfl⟩
    · rw [hl] at hq
      cases hq
    · rw [Hub.room_setRoom_self]

theorem lockRoom_opened_triple (room : RoomRef) (updates : Finset U) :
    (roomsProtocol C stored).Triple p r (.opened false room updates) (awaitOp (.lockRoom room))
      (fun _ g => g = .opened true room updates) E := by
  refine awaitOp_triple fun env st gs hinv hg _ x st' hx => ?_
  simp only [RoomOp.run] at hx
  cases hl : (st.room room).lock with
  | some q =>
    rw [hl] at hx
    cases hx
  | none =>
    rw [hl] at hx
    cases hx
    refine ⟨(), .opened true room updates, rfl, hinv.setRoom rfl rfl (fun q _ hq => ?_)
      ⟨hg.1, fun _ => ?_, ?_⟩, rfl⟩
    · rw [hl] at hq
      cases hq
    · rw [Hub.room_setRoom_self]
    · rw [Hub.room_setRoom_self]
      exact hg.2.2

theorem unlockRoom_triple (room : RoomRef) (updates : Finset U) :
    (roomsProtocol C stored).Triple p r (.opened true room updates) (awaitOp (.unlockRoom room))
      (fun _ g => g = .opened false room updates) E := by
  refine awaitOp_triple fun env st gs hinv hg _ x st' hx => ?_
  cases hx
  refine ⟨(), .opened false room updates, rfl, hinv.setRoom rfl rfl (fun q hq hl => ?_)
    ⟨hg.1, nofun, ?_⟩, rfl⟩
  · rw [hg.2.1 rfl] at hl
    exact absurd (Option.some.inj hl).symm hq
  · rw [Hub.room_setRoom_self]
    exact hg.2.2

/-- The latest version is loaded while the room's lock keeps others from loading it. -/
theorem load_triple (room : RoomRef) :
    (roomsProtocol C stored).Triple p r (.loading room none)
      (do
        let latest ← awaitOp (.selectLatest room.file)
        awaitOp (.hydrate room latest))
      (fun _ g => g = .opened true room ∅) E := by
  refine Protocol.Triple.bind (Q := fun latest g => g = .loading room (some latest))
    (read_triple (fun _ st => Pycrdt.latest (st.view p room.file)) (fun _ _ => rfl)
      fun env st gs hinv hg _ => ?_) fun latest g hg => ?_
  · refine ⟨.loading room (some _), ⟨hg.1, hg.2.1, hg.2.2.1, fun latest hl => ?_⟩, rfl⟩
    cases hl
    have hcur : st.current C room.file = C.latestContent (st.versions room.file) := by
      refine current_of_not_hydrated fun room' hr => ?_
      rw [hinv.registered_of_borrowed hg.1] at hr
      cases hr
      exact hg.2.2.1
    refine ⟨?_, fun v hv => (hinv.forward p room.file).encoded v (Pycrdt.mem_of_latest hv)⟩
    rw [hcur]
    exact latestContent_subset (hinv.forward p room.file) fun v hv => Hub.exists_of_mem_versions hv
  subst hg
  refine awaitOp_triple fun env st gs hinv hg _ x st' hx => ?_
  obtain ⟨hb, hlock, hhyd, hlatest⟩ := hg
  obtain ⟨hcur, hdoc⟩ := hlatest latest rfl
  have hmem := hinv.borrowed _ hb
  cases latest with
  | none =>
    cases hx
    refine ⟨(), .opened true room ∅, rfl, hinv.fill hmem rfl ?_ rfl (fun _ => hlock)
      ⟨hb, fun _ => ?_, ?_, Finset.empty_subset _⟩, rfl⟩
    · exact hcur.trans (Finset.empty_subset _)
    · rw [Hub.room_setRoom_self]
      exact hlock
    · rw [Hub.room_setRoom_self]
  | some v =>
    obtain ⟨doc, hbytes⟩ := hdoc v rfl
    rw [Option.map_some, Option.getD_some, Pycrdt.content_of_encoded hbytes] at hcur
    simp only [RoomOp.run, hbytes, Pycrdt.docFromBytes_docToBytes, Option.some.injEq,
      Prod.mk.injEq] at hx
    obtain ⟨rfl, rfl⟩ := hx
    refine ⟨(), .opened true room ∅, rfl, hinv.fill hmem rfl hcur rfl (fun _ => hlock)
      ⟨hb, fun _ => ?_, ?_, Finset.empty_subset _⟩, rfl⟩
    · rw [Hub.room_setRoom_self]
      exact hlock
    · rw [Hub.room_setRoom_self]

theorem openRoom_triple (f : FileId) :
    (roomsProtocol C stored).Triple p r .free (openRoom f)
      (fun room g => room.file = f ∧ g = .opened false room ∅) E := by
  refine Protocol.Triple.bind (getOrCreateRoom_triple f) fun room g hg => ?_
  obtain ⟨hfile, rfl⟩ := hg
  refine Protocol.Triple.bind (lockRoom_found_triple room) fun _ g hg => ?_
  subst hg
  refine Protocol.Triple.bind (Q := fun _ g => g = .opened false room ∅)
    (Protocol.Triple.andFinally (Q := fun _ g => g = .opened true room ∅) (E := fun _ _ => False)
      ?_ (fun _ g hg => hg ▸ unlockRoom_triple room ∅) fun _ _ hf => hf.elim)
    fun _ g hg => Protocol.Triple.pure ⟨hfile, hg⟩
  refine Protocol.Triple.bind (Q := fun hydrated g =>
      hydrated = true ∧ g = .opened true room ∅ ∨ hydrated = false ∧ g = .loading room none)
    (read_triple (fun _ st => (st.room room).hydrated) (fun _ _ => rfl)
      fun env st gs hinv hg _ => ?_) fun hydrated g hg => ?_
  · cases hh : (st.room room).hydrated with
    | true => exact ⟨.opened true room ∅, ⟨hg.1, hg.2, hh, Finset.empty_subset _⟩, .inl ⟨rfl, rfl⟩⟩
    | false => exact ⟨.loading room none, ⟨hg.1, hg.2 rfl, hh, nofun⟩, .inr ⟨rfl, rfl⟩⟩
  rcases hg with ⟨rfl, rfl⟩ | ⟨rfl, rfl⟩
  · exact Protocol.Triple.pure rfl
  · exact hfile ▸ load_triple room

/-! ### Editing a room -/

/-- An edit is applied to the room whose lock `p` has, or raises and changes nothing. -/
theorem applyEdit_triple (room : RoomRef) (user : UserId) (update : B) :
    (roomsProtocol C stored).Triple p r (.opened true room ∅) (awaitOp (.applyEdit room user update))
      (fun _ g => g = .opened true room ((C.decode update).getD ∅))
      fun _ g => g = .opened true room ∅ := by
  refine Protocol.Triple.call trivial fun env st gs hinv hg _ x st' hx => ?_
  have hholds := hinv.holds p
  rw [hg] at hholds
  obtain ⟨hb, hlock, hhyd, -⟩ := hholds
  have hmem := hinv.borrowed _ hb
  change RoomOp.run C p env st (.applyEdit room user update) = some (x, st') at hx
  simp only [RoomOp.run] at hx
  cases hd : C.decode update with
  | none =>
    rw [hd] at hx
    cases hx
    exact ⟨.opened true room ∅, hinv.stay ⟨hb, hlock, hhyd, Finset.empty_subset _⟩, rfl⟩
  | some added =>
    rw [hd] at hx
    cases hx
    refine ⟨.opened true room added, hinv.fill hmem hhyd ?_ rfl
      (fun hh => absurd (hh.symm.trans hhyd) (by simp)) ⟨hb, fun ho => ?_, ?_, ?_⟩, rfl⟩
    · rw [current_of_hydrated hinv.keys hmem hhyd]
      exact Finset.subset_union_left
    · rw [Hub.room_setRoom_self]
      exact hlock ho
    · rw [Hub.room_setRoom_self]
      exact hhyd
    · rw [Hub.room_setRoom_self]
      exact Finset.subset_union_right

/-- An update that is in the room is acknowledged. -/
theorem ack_triple (room : RoomRef) (update : B) :
    (roomsProtocol C stored).Triple p r (.opened false room ((C.decode update).getD ∅))
      (awaitOp (.ack room update)) (fun _ g => g = .opened false room ∅) E := by
  refine awaitOp_triple fun env st gs hinv hg _ x st' hx => ?_
  cases hx
  obtain ⟨hb, -, hhyd, hup⟩ := hg
  refine ⟨(), .opened false room ∅, rfl, hinv.quiet
    ⟨rfl, rfl, fun _ => rfl, fun _ => rfl, rfl, rfl⟩ (fun _ hb => .inl hb) (fun _ _ _ hb => hb)
    (fun _ _ _ hl => hl) (fun _ _ hl => hl) .inl (fun f => ?_)
    ⟨hb, nofun, hhyd, Finset.empty_subset _⟩, rfl⟩
  by_cases hf : f = room.file
  · subst hf
    simp only [Function.update_self]
    refine Finset.union_subset (hinv.acked _) ?_
    rw [current_of_hydrated hinv.keys (hinv.borrowed _ hb) hhyd]
    exact hup
  · simp only [Function.update_of_ne hf]
    exact hinv.acked f

theorem handleUpdate_triple (room : RoomRef) (user : UserId) (update : B) :
    (roomsProtocol C stored).Triple p r (.opened false room ∅) (handleUpdate room user update)
      (fun _ g => g = .opened false room ∅) E := by
  refine Protocol.Triple.tryExcept (E := fun _ g => g = .opened false room ∅) ?_
    (fun _ _ _ hg => Protocol.Triple.pure hg) fun _ _ hh => absurd hh (by simp)
  refine Protocol.Triple.bind (lockRoom_opened_triple room ∅) fun _ g hg => ?_
  subst hg
  refine Protocol.Triple.bind (Q := fun _ g => g = .opened false room ((C.decode update).getD ∅))
    (Protocol.Triple.andFinally (applyEdit_triple room user update)
      (fun _ g hg => hg ▸ unlockRoom_triple room _)
      fun _ g hg => hg ▸ unlockRoom_triple room ∅) fun _ g hg => ?_
  subst hg
  exact ack_triple room update

theorem receiveLoop_triple (room : RoomRef) (user : UserId) (role : Role) (rounds : Nat) :
    (roomsProtocol C stored).Triple p r (.opened false room ∅) (receiveLoop room user role rounds)
      (fun _ g => g = .opened false room ∅) E := by
  induction rounds with
  | zero =>
    exact awaitOp_triple fun env st gs _ _ _ x st' hx => by cases hx
  | succ rounds ih =>
    refine Protocol.Triple.bind (Q := fun _ g => g = .opened false room ∅)
      (read_triple (fun env _ => env.message) (fun _ _ => rfl)
        fun env st gs _ hg _ => ⟨_, hg, rfl⟩) fun message g hg => ?_
    subst hg
    cases message with
    | disconnect => exact Protocol.Triple.pure rfl
    | other => exact ih
    | update data =>
      refine Protocol.Triple.ite (fun _ => ih) fun _ => ?_
      exact Protocol.Triple.bind (handleUpdate_triple room user data) fun _ g hg => hg ▸ ih

/-- The socket is attached to the room it has opened. -/
theorem attach_triple (room : RoomRef) :
    (roomsProtocol C stored).Triple p r (.opened false room ∅) (awaitOp (.attach room.file))
      (fun room' g => room' = room ∧ g = .opened false room ∅) E := by
  refine awaitOp_triple fun env st gs hinv hg _ x st' hx => ?_
  obtain ⟨hb, -, hhyd, -⟩ := hg
  have hmem := hinv.borrowed _ hb
  simp only [RoomOp.run, Hub.getOrCreateRoom, hinv.registered_of_borrowed hb, Option.some.injEq,
    Prod.mk.injEq] at hx
  obtain ⟨rfl, rfl⟩ := hx
  rw [Hub.room_setRoom_self]
  have hinv₁ : RoomsInv C (st.setRoom room { st.room room with lastAccessed := env.now })
      (Function.update gs p .free) := hinv.setRoom rfl rfl (fun _ _ hl => hl) trivial
  have hinv₂ : RoomsInv C ((st.setRoom room { st.room room with lastAccessed := env.now }).setRoom
      room { st.room room with
        lastAccessed := env.now, connections := p :: (st.room room).connections })
      (Function.update (Function.update gs p .free) p .free) := by
    refine hinv₁.setRoom ?_ ?_ (fun q _ hl => ?_) trivial
    · rw [Hub.room_setRoom_self]
    · rw [Hub.room_setRoom_self]
    · rw [Hub.room_setRoom_self] at hl
      exact hl
  have hinv₃ : RoomsInv C _ (Function.update _ p (.opened false room ∅)) :=
    hinv₂.borrow hmem ⟨List.mem_cons_self, nofun, by simpa [Hub.borrow] using hhyd,
      Finset.empty_subset _⟩
  rw [Function.update_idem, Function.update_idem] at hinv₃
  exact ⟨room, _, rfl, hinv₃, rfl, rfl⟩

theorem detach_triple (room : RoomRef) :
    (roomsProtocol C stored).Triple p r (.opened false room ∅) (awaitOp (.detach room))
      (fun _ g => g = .opened false room ∅) E := by
  refine awaitOp_triple fun env st gs hinv hg _ x st' hx => ?_
  cases hx
  refine ⟨(), .opened false room ∅, rfl, hinv.setRoom rfl rfl (fun _ _ hl => hl)
    ⟨hg.1, nofun, ?_, Finset.empty_subset _⟩, rfl⟩
  rw [Hub.room_setRoom_self]
  exact hg.2.2.1

theorem collabSocket_triple (file : FileId) (user : UserId) (role : Role) (rounds : Nat) :
    (roomsProtocol C stored).Triple p r .free (collabSocket file user role rounds)
      (fun _ _ => True) fun _ _ => True := by
  refine Protocol.Triple.bind (openRoom_triple file) fun room g hg => ?_
  obtain ⟨hfile, rfl⟩ := hg
  rw [← hfile]
  refine Protocol.Triple.bind (attach_triple room) fun room' g hg => ?_
  rw [hg.1, hg.2]
  exact Protocol.Triple.andFinally (receiveLoop_triple (E := fun _ _ => False) room user role rounds)
    (fun _ g hg => hg ▸ (detach_triple room).mono (fun _ _ _ => trivial) fun _ _ hf => hf)
    fun _ _ hf => hf.elim

/-- The update is computed from the room's document, or that raises. -/
theorem textEditUpdate_triple (room : RoomRef) (newText : List Char) :
    (roomsProtocol C stored).Triple p r (.opened true room ∅)
      (awaitOp (.textEditUpdate room newText)) (fun _ g => g = .opened true room ∅)
      fun _ g => g = .opened true room ∅ := by
  refine Protocol.Triple.call trivial fun env st gs hinv hg _ x st' hx => ?_
  cases hx
  have hholds := hinv.holds p
  rw [hg] at hholds
  refine ⟨.opened true room ∅, hinv.stay hholds, ?_⟩
  cases C.textEditUpdate (st.room room).doc newText with
  | ok update => rfl
  | error e => rfl

theorem replaceText_triple (room : RoomRef) (newText : List Char) (user : UserId) :
    (roomsProtocol C stored).Triple p r (.opened false room ∅) (replaceText room newText user)
      (fun _ g => ∃ updates, g = .opened false room updates) fun _ _ => True := by
  refine Protocol.Triple.bind (lockRoom_opened_triple room ∅) fun _ g hg => ?_
  subst hg
  refine Protocol.Triple.andFinally (Q := fun _ g => ∃ updates, g = .opened true room updates)
    (E := fun _ g => g = .opened true room ∅) ?_ (fun _ g hg => ?_)
    fun _ g hg => hg ▸ (unlockRoom_triple room ∅).mono (fun _ _ _ => trivial) fun _ _ he => he
  · refine Protocol.Triple.bind (textEditUpdate_triple room newText) fun update g hg => ?_
    subst hg
    cases update with
    | none => exact Protocol.Triple.pure ⟨∅, rfl⟩
    | some update =>
      exact Protocol.Triple.bind (applyEdit_triple room user update)
        fun _ g hg => Protocol.Triple.pure ⟨_, hg⟩
  · obtain ⟨updates, rfl⟩ := hg
    exact (unlockRoom_triple room updates).mono (fun _ _ hg => ⟨updates, hg⟩) fun _ _ he => he

/-! ### Checkpointing rooms -/

/-- `p` has checkpointed the room it was at, and these rooms are left. -/
inductive Clear (todo : List RoomRef) : Stage U B → Prop
  | scanning : Clear todo (.scanning todo)
  | unchanged (f : FileId) (doc : Finset U) (latest? : Option (Option (Version B))) :
    Clear todo (.writing f doc latest? todo)

omit [DecidableEq B] in
theorem Clear.allDue {todo : List RoomRef} {st : Hub U B} (h : Clear todo g)
    (hg : g.Holds C st p) : st.checkpointLock = some p ∧ AllDue C st p todo := by
  cases h with
  | scanning => exact hg
  | unchanged f doc latest? => exact ⟨hg.1, hg.2.2.1⟩

omit [DecidableEq B] in
/-- A room that nothing was written of is due for a checkpoint. -/
theorem due_of_registered {st : Hub U B} {gs : Pid → Stage U B} (h : RoomsInv C st gs)
    {room : RoomRef} (hmem : room ∈ st.registry) (htx : st.tx p = fun _ => []) :
    Due C st p room where
  known := h.known room hmem
  unwritten := by rw [htx]
  above hh v hv := by
    rw [← current_of_hydrated h.keys hmem hh]
    exact h.bounded_versions room.file v hv
  below := by
    cases hh : (st.room room).hydrated with
    | true => rw [current_of_hydrated h.keys hmem hh]
    | false =>
      rw [h.blank room hh]
      exact Finset.empty_subset _

theorem docToBytes_triple {room : RoomRef} {todo : List RoomRef} (hg : Clear (room :: todo) g) :
    (roomsProtocol C stored).Triple p r g (awaitOp (.docToBytes room))
      (fun payload g => ∃ doc, payload = C.docToBytes doc ∧ g = .writing room.file doc none todo)
      E := by
  refine read_triple (fun _ st => C.docToBytes (st.room room).doc) (fun _ _ => rfl)
    fun env st gs hinv hholds hok => ?_
  obtain ⟨hl, hnodup, hdue⟩ := hg.allDue hholds
  have hroom := hdue room List.mem_cons_self
  rw [List.map_cons, List.nodup_cons] at hnodup
  refine ⟨.writing room.file (st.room room).doc none todo, ⟨hl, hnodup.1,
    ⟨hnodup.2, fun r' hr' => hdue r' (List.mem_cons_of_mem _ hr')⟩, fun v hv => ?_, hroom.below,
    nofun⟩, _, rfl, rfl⟩
  have hview : st.view p room.file = st.versions room.file := by
    rw [Hub.view, hroom.unwritten, List.foldl_nil]
  rw [hview] at hv
  rcases hok with hhyd | hempty
  · exact hroom.above hhyd v hv
  · exact ((hinv.forward_versions room.file).subset_latestContent hv).trans
      (hempty ▸ Finset.empty_subset _)

theorem write_triple {f : FileId} {doc : Finset U} {latest : Option (Version B)}
    {todo : List RoomRef} {w : VersionWrite B}
    (hforward : ∀ rows, C.Forward rows → (∀ v ∈ rows, C.content v ⊆ doc) →
      Pycrdt.latest rows = latest → C.Forward (w.apply rows) ∧
        ∀ v ∈ w.apply rows, C.content v ⊆ doc) :
    (roomsProtocol C stored).Triple p r (.writing f doc (some latest) todo)
      (awaitOp (.write f w)) (fun _ g => g = .scanning todo) E := by
  refine awaitOp_triple fun env st gs hinv hg _ x st' hx => ?_
  cases hx
  obtain ⟨hl, hf, hdue, habove, hbelow, hlatest⟩ := hg
  obtain ⟨hfw, hbound⟩ := hforward _ (hinv.forward p f) habove (hlatest latest rfl).symm
  refine ⟨(), .scanning todo, rfl, hinv.addWrite hl hfw
    (fun v hv => (hbound v hv).trans hbelow) ⟨hl, hdue.1, fun room hr => ?_⟩, rfl⟩
  have hne : room.file ≠ f := fun he => hf (he ▸ List.mem_map_of_mem hr)
  obtain ⟨hknown, hunwritten, habove', hbelow'⟩ := hdue.2 room hr
  refine ⟨hknown, ?_, habove', hbelow'⟩
  change (Function.update st.tx p _) p room.file = []
  rw [Function.update_self, Function.update_of_ne hne]
  exact hunwritten

theorem checkpointRoom_triple {room : RoomRef} {todo : List RoomRef} (savedBy : Option UserId)
    (hg : Clear (room :: todo) g) :
    (roomsProtocol C stored).Triple p r g (checkpointRoom C.truthy room savedBy)
      (fun _ g => Clear todo g) E := by
  refine Protocol.Triple.bind (docToBytes_triple hg) fun payload g hg => ?_
  obtain ⟨doc, rfl, rfl⟩ := hg
  refine Protocol.Triple.bind (Q := fun latest g => g = .writing room.file doc (some latest) todo)
    (read_triple (fun _ st => Pycrdt.latest (st.view p room.file)) (fun _ _ => rfl)
      fun env st gs hinv hg _ => ⟨.writing room.file doc (some _) todo, ?_, rfl⟩)
    fun latest g hg => ?_
  · obtain ⟨hl, hf, hdue, habove, hbelow, -⟩ := hg
    exact ⟨hl, hf, hdue, habove, hbelow, fun _ hl => (Option.some.inj hl).symm⟩
  subst hg
  refine Protocol.Triple.ite (fun _ => ?_) fun _ => ?_
  · refine Protocol.Triple.bind (Q := fun _ g => g = .writing room.file doc (some latest) todo)
      (read_triple (fun env _ => env.now) (fun _ _ => rfl) fun env st gs _ hg _ => ⟨_, hg, rfl⟩)
      fun now g hg => ?_
    subst hg
    refine Protocol.Triple.bind (write_triple fun rows hfw habove hl => ?_)
      fun _ g hg => Protocol.Triple.pure (hg ▸ .scanning)
    refine ⟨hfw.concat rfl habove fun b hb => ?_, fun v hv => ?_⟩
    · rw [hl] at hb
      subst hb
      exact Nat.lt_succ_self _
    · rcases List.mem_append.1 hv with hv | hv
      · exact habove v hv
      · rw [List.mem_singleton.1 hv, Pycrdt.content_of_encoded rfl]
  · cases savedBy with
    | none => exact Protocol.Triple.pure (.unchanged _ _ _)
    | some user =>
      cases latest with
      | none => exact Protocol.Triple.pure (.unchanged _ _ _)
      | some v =>
        refine Protocol.Triple.ite (fun _ => ?_) fun _ => Protocol.Triple.pure (.unchanged _ _ _)
        refine Protocol.Triple.bind (write_triple fun rows hfw habove _ => ?_)
          fun _ g hg => Protocol.Triple.pure (hg ▸ .scanning)
        refine ⟨VersionWrite.forward_markSaved hfw _ _, fun v' hv' => ?_⟩
        obtain ⟨v₀, hv₀, hc⟩ := VersionWrite.exists_of_mem_markSaved (C := C) hv'
        exact hc ▸ habove v₀ hv₀

theorem checkpointAll_triple {todo : List RoomRef} (hg : Clear todo g) :
    (roomsProtocol C stored).Triple p r g (checkpointAll C.truthy todo)
      (fun _ g => Clear [] g) E := by
  induction todo generalizing g with
  | nil => exact Protocol.Triple.pure hg
  | cons room todo ih =>
    exact Protocol.Triple.bind (checkpointRoom_triple none hg) fun _ g hg => ih hg

theorem commit_triple (hg : Clear [] g) :
    (roomsProtocol C stored).Triple p r g (awaitOp .commit) (fun _ g => g = .holding) E := by
  refine awaitOp_triple fun env st gs hinv hholds _ x st' hx => ?_
  cases hx
  exact ⟨(), .holding, rfl, hinv.commit (hg.allDue hholds).1, rfl⟩

/-- The checkpoint lock is taken; `rooms` are those to be checkpointed. -/
theorem lockCheckpoint_triple (rooms? : Option (List RoomRef))
    (hg : ∀ st gs, RoomsInv C st gs → g.Holds C st p → st.tx p = (fun _ => []) →
      ∀ rooms ∈ rooms?, AllDue C st p rooms) :
    (roomsProtocol C stored).Triple p r g (awaitOp .lockCheckpoint)
      (fun _ g => g = (rooms?.elim .holding .scanning)) E := by
  refine awaitOp_triple fun env st gs hinv hholds _ x st' hx => ?_
  simp only [RoomOp.run] at hx
  cases hl : st.checkpointLock with
  | some q =>
    rw [hl] at hx
    cases hx
  | none =>
    rw [hl] at hx
    cases hx
    have htx : st.tx p = fun _ => [] := hinv.idle p (by simp [hl])
    refine ⟨(), _, rfl, hinv.quiet ⟨rfl, rfl, fun _ => rfl, fun _ => rfl, rfl, rfl⟩
      (fun _ hb => .inl hb) (fun _ _ _ hb => hb) (fun _ _ _ hl => hl) (fun q _ hq => ?_)
      (fun hq => ?_) hinv.acked ?_, rfl⟩
    · rw [hl] at hq
      cases hq
    · rw [hl] at hq
      cases hq
    · cases rooms? with
      | none => exact ⟨rfl, htx⟩
      | some rooms =>
        obtain ⟨hnodup, hdue⟩ := hg st gs hinv hholds htx rooms rfl
        refine ⟨rfl, hnodup, fun room hr => ?_⟩
        obtain ⟨hknown, hunwritten, habove, hbelow⟩ := hdue room hr
        exact ⟨hknown, hunwritten, habove, hbelow⟩

/-- What has the checkpoint lock and commits last lets go of it with nothing left to write. -/
theorem withCheckpointLock_triple {body : RoomPy B α} {g' : Stage U B}
    (hlock : (roomsProtocol C stored).Triple p r g (awaitOp .lockCheckpoint) (fun _ g => g = g') E)
    (h : (roomsProtocol C stored).Triple p r g' body (fun _ g => g = .holding) fun _ _ => False) :
    (roomsProtocol C stored).Triple p r g (withCheckpointLock body) (fun _ g => g = .free) E := by
  refine Protocol.Triple.bind hlock fun _ g hg => ?_
  subst hg
  refine Protocol.Triple.andFinally (Q := fun _ g => g = .holding) (E := fun _ _ => False)
    (Protocol.Triple.andFinally h (fun _ g hg => ?_) fun _ _ hf => hf.elim) (fun _ g hg => ?_)
    fun _ _ hf => hf.elim
  · subst hg
    refine awaitOp_triple fun env st gs hinv hg _ x st' hx => ?_
    cases hx
    have hst : st.closeSession p = st := by
      unfold Hub.closeSession
      rw [← hg.2, Function.update_eq_self]
    rw [hst]
    exact ⟨(), .holding, rfl, hinv.stay hg, rfl⟩
  · subst hg
    refine awaitOp_triple fun env st gs hinv hg _ x st' hx => ?_
    cases hx
    refine ⟨(), .free, rfl, hinv.quiet ⟨rfl, rfl, fun _ => rfl, fun _ => rfl, rfl, rfl⟩
      (fun _ hb => .inl hb) (fun _ _ _ hb => hb) (fun _ _ _ hl => hl) (fun q hq hl => ?_)
      (fun _ => .inr hg.2) hinv.acked trivial, rfl⟩
    rw [hg.1] at hl
    exact absurd (Option.some.inj hl).symm hq

theorem saveRoom_triple {room : RoomRef} {updates : Finset U} (user : Option UserId) :
    (roomsProtocol C stored).Triple p r (.opened false room updates)
      (saveRoom C.truthy room user) (fun _ g => g = .free) E := by
  refine withCheckpointLock_triple (lockCheckpoint_triple (some [room])
    fun st gs hinv hg htx rooms hr => ?_) ?_
  · cases hr
    refine ⟨List.nodup_singleton _, fun room' hr => ?_⟩
    rw [List.mem_singleton.1 hr]
    exact due_of_registered hinv (hinv.borrowed _ hg.1) htx
  · refine Protocol.Triple.bind (checkpointRoom_triple user .scanning) fun _ g hg => ?_
    exact Protocol.Triple.bind (commit_triple hg) fun _ g hg => Protocol.Triple.pure hg

theorem saveFile_triple (file : FileId) (user : UserId) :
    (roomsProtocol C stored).Triple p r .free (saveFile C.truthy file user)
      (fun _ _ => True) fun _ _ => True := by
  refine Protocol.Triple.bind (Q := fun room? g => ∀ room ∈ room?, g = .found false room)
    (awaitOp_triple fun env st gs hinv _ _ x st' hx => ?_) fun room? g hg => ?_
  · simp only [RoomOp.run] at hx
    cases hr : st.registered? file with
    | none =>
      rw [hr] at hx
      cases hx
      exact ⟨none, .free, rfl, hinv.stay trivial, nofun⟩
    | some room =>
      rw [hr] at hx
      cases hx
      exact ⟨some room, .found false room, rfl,
        hinv.borrow ((Hub.registered?_eq_some_iff hinv.keys).1 hr).1 ⟨List.mem_cons_self, nofun⟩,
        fun _ hr => by cases hr; rfl⟩
  cases room? with
  | none => exact Protocol.Triple.pure trivial
  | some room =>
    rw [hg room rfl]
    refine Protocol.Triple.bind
      (Q := fun hydrated g => hydrated = true → g = .opened false room ∅)
      (read_triple (fun _ st => (st.room room).hydrated) (fun _ _ => rfl)
        fun env st gs hinv hg _ => ?_) fun hydrated g hg => ?_
    · cases hh : (st.room room).hydrated with
      | true => exact ⟨.opened false room ∅, ⟨hg.1, nofun, hh, Finset.empty_subset _⟩, fun _ => rfl⟩
      | false => exact ⟨.found false room, ⟨hg.1, nofun⟩, nofun⟩
    · refine Protocol.Triple.ite (fun hh => ?_) fun _ => Protocol.Triple.pure trivial
      rw [hg hh]
      exact Protocol.Triple.bind (saveRoom_triple (some user))
        fun _ _ _ => Protocol.Triple.pure trivial

theorem restoreFile_triple (file : FileId) (newText : List Char) (user : UserId) :
    (roomsProtocol C stored).Triple p r .free (restoreFile C.truthy file newText user)
      (fun _ _ => True) fun _ _ => True := by
  refine Protocol.Triple.bind (openRoom_triple file) fun room g hg => ?_
  rw [hg.2]
  refine Protocol.Triple.bind (replaceText_triple room newText user) fun _ g hg => ?_
  obtain ⟨updates, rfl⟩ := hg
  exact Protocol.Triple.bind (saveRoom_triple (some user))
    fun _ _ _ => Protocol.Triple.pure trivial

theorem checkpointOnce_triple :
    (roomsProtocol C stored).Triple p r .free (checkpointOnce C.truthy)
      (fun _ _ => True) fun _ _ => True := by
  refine Protocol.Triple.bind (Q := fun _ g => g = .free)
    (read_triple (fun _ st => !st.registry.isEmpty) (fun _ _ => rfl)
      fun env st gs _ _ _ => ⟨.free, trivial, rfl⟩) fun anyRooms g hg => ?_
  subst hg
  refine Protocol.Triple.ite (fun _ => ?_) fun _ => Protocol.Triple.pure trivial
  refine (withCheckpointLock_triple (lockCheckpoint_triple none fun _ _ _ _ _ _ hr =>
    nomatch hr) ?_).mono (fun _ _ _ => trivial) fun _ _ he => he
  refine Protocol.Triple.bind (Q := fun rooms g => g = .scanning rooms)
    (read_triple (fun _ st => st.registry) (fun _ _ => rfl)
      fun env st gs hinv hg _ => ⟨.scanning st.registry, ⟨hg.1, hinv.keys, fun room hr =>
        due_of_registered hinv hr hg.2⟩, rfl⟩) fun rooms g hg => ?_
  subst hg
  exact Protocol.Triple.bind (checkpointAll_triple .scanning) fun _ g hg => commit_triple hg

/-! ### Evicting rooms -/

theorem cleanupUnusedRooms_triple (ttl : Seconds) :
    (roomsProtocol C stored).Triple p r .free (awaitOp (.cleanupUnusedRooms ttl))
      (fun _ g => g = .free) E := by
  refine awaitOp_triple fun env st gs hinv _ hok x st' hx => ?_
  cases hx
  refine ⟨_, .free, rfl, hinv.evict (fun room hr hgone => (hok room hr hgone).1)
    (fun b hb => ?_), rfl⟩
  cases hgone : st.unused env.now ttl b.2 with
  | false => rfl
  | true => exact absurd rfl ((hok b.2 (hinv.borrowed b hb) hgone).2 b hb)

/-- What a request had got hold of goes when it returns. -/
theorem leave_triple :
    (roomsProtocol C stored).Triple p r g (awaitOp .leave) (fun _ _ => True) E := by
  refine awaitOp_triple fun env st gs hinv _ _ x st' hx => ?_
  cases hx
  refine ⟨(), .free, rfl, hinv.quiet ⟨rfl, rfl, fun _ => rfl, fun _ => rfl, rfl, rfl⟩
    (fun b hb => .inl (List.mem_of_mem_filter hb)) (fun q _ hq hb => ?_) (fun _ _ _ hl => hl)
    (fun _ _ hl => hl) .inl hinv.acked trivial, trivial⟩
  exact List.mem_filter.2 ⟨hb, by simpa using hq⟩

theorem program_triple (r : RoomRequest) :
    (roomsProtocol C stored).Triple p r .free (r.program C.truthy)
      (fun _ _ => True) fun _ _ => True := by
  cases r with
  | collabSocket file user role rounds =>
    exact Protocol.Triple.andFinally (collabSocket_triple file user role rounds)
      (fun _ _ _ => leave_triple) fun _ _ _ => leave_triple
  | saveFile file user =>
    exact Protocol.Triple.andFinally (saveFile_triple file user)
      (fun _ _ _ => leave_triple) fun _ _ _ => leave_triple
  | restoreFile file newText user =>
    exact Protocol.Triple.andFinally (restoreFile_triple file newText user)
      (fun _ _ _ => leave_triple) fun _ _ _ => leave_triple
  | checkpointOnce => exact checkpointOnce_triple
  | cleanupUnusedRooms ttl =>
    exact Protocol.Triple.bind (cleanupUnusedRooms_triple ttl)
      fun _ _ _ => Protocol.Triple.pure trivial

end Rules

section Outline

variable (C : Pycrdt U B) (stored : Stored C)

/-- On start there are no rooms, and the stored history goes forward. -/
theorem roomsInv_init : RoomsInv C (realtime C stored).init fun _ => .free where
  keys := List.nodup_nil
  known := nofun
  borrowed := nofun
  blank _ _ := rfl
  forward _ f := stored.forward f
  idle _ _ := rfl
  bounded _ f _ hv := (stored.forward f).subset_latestContent hv
  acked _ := Finset.empty_subset _
  holds _ := trivial

/-- Every request keeps to the protocol. -/
def roomsOutline : Outline (roomsProtocol C stored) where
  idle := .free
  start _ _ := .free
  done _ _ _ _ := True
  init := roomsInv_init C stored
  spawn st gs p r hinv hp := by
    have hgs : Function.update gs p Stage.free = gs := by rw [← hp, Function.update_eq_self]
    rw [hgs]
    exact hinv
  body p r := Protocol.Follows.mono (program_triple r) fun _ _ _ => trivial
  at_end _ _ _ _ _ := trivial

variable {C} {stored}

theorem exists_roomsInv {cfg : RealtimeConfig U B} (h : (realtime C stored).system.ReachableUnder
    ((realtime C stored).guard (roomsKept C)) cfg) : ∃ gs, RoomsInv C cfg.shared gs := by
  obtain ⟨gs, hfits⟩ := (roomsOutline C stored).sound (fun _ _ _ hok => hok) h
  exact ⟨gs, hfits.1⟩

end Outline

end Concord
