import Concord.Realtime.Keeping

/-!
# Stored history and acknowledged edits

The two results about what the realtime service keeps of its rooms, each with the run that shows why
`roomsKept` is needed: the checkpointer walks all registered rooms, also those still to be loaded,
and the eviction looks at `last_accessed`, which edits and detaching do not refresh.
-/

namespace Concord

open Concord.Base

variable {U B : Type} [DecidableEq U] [DecidableEq B] {C : Pycrdt U B} {stored : Stored C}

instance (C : Pycrdt U B) (st : Hub U B) (p : Pid) (r : RoomRequest) (env : RoomEnv B) :
    (o : RoomOp B) → Decidable (roomsKept C st p r o env)
  | .docToBytes r => inferInstanceAs
      (Decidable ((st.room r).hydrated = true ∨ C.latestContent (st.versions r.file) = ∅))
  | .cleanupUnusedRooms ttl => inferInstanceAs
      (Decidable (∀ r ∈ st.registry, st.unused env.now ttl r = true →
        (st.room r).doc ⊆ C.latestContent (st.versions r.file) ∧ ∀ b ∈ st.borrowed, b.2 ≠ r))
  | .getOrCreateRoom _ | .getRoom _ | .hasRooms | .listRooms | .attach _ | .detach _
  | .lockRoom _ | .unlockRoom _ | .readHydrated _ | .hydrate _ _ | .receive | .applyEdit _ _ _
  | .ack _ _ | .textEditUpdate _ _ | .lockCheckpoint | .unlockCheckpoint | .selectLatest _
  | .clock | .write _ _ | .commit | .closeSession | .leave | .outOfRounds => .isTrue trivial

/-- The versions of each file, committed or about to be, go forward, and a room that is loaded holds
all of them. -/
def Hub.HistoryForward (C : Pycrdt U B) (st : Hub U B) : Prop :=
  (∀ p f, C.Forward (st.view p f)) ∧
    ∀ r, (r ∈ st.registry ∨ ∃ q, (q, r) ∈ st.borrowed) → (st.room r).hydrated = true →
      ∀ p, ∀ v ∈ st.view p r.file, C.content v ⊆ (st.room r).doc

/-- **The stored history of a file never goes backwards**, when no room is checkpointed before it is
loaded: each version holds every update of the ones before it, also as the checkpointer's own
session sees them, and every loaded room holds every version of its file. -/
theorem history_never_goes_backwards {cfg : RealtimeConfig U B}
    (h : (realtime C stored).system.ReachableUnder ((realtime C stored).guard (roomsKept C)) cfg) :
    cfg.shared.HistoryForward C := by
  obtain ⟨gs, hinv⟩ := exists_roomsInv h
  refine ⟨hinv.forward, fun r hr hh p v hv => ?_⟩
  have hmem : r ∈ cfg.shared.registry := by
    rcases hr with hr | ⟨q, hq⟩
    · exact hr
    · exact hinv.borrowed _ hq
  rw [← current_of_hydrated hinv.keys hmem hh]
  exact hinv.bounded p r.file v hv

/-- **Acknowledged edits survive**, when moreover no room is evicted that is in use or has something
unsaved: the document that the next `open_room` yields holds every acknowledged update. -/
theorem acked_edits_survive {cfg : RealtimeConfig U B}
    (h : (realtime C stored).system.ReachableUnder ((realtime C stored).guard (roomsKept C)) cfg)
    (f : FileId) : cfg.shared.acked f ⊆ cfg.shared.current C f := by
  obtain ⟨gs, hinv⟩ := exists_roomsInv h
  exact hinv.acked f

/-! ## Runs -/

/-- Documents whose bytes are the set of their updates. Texts and edits play no part in the runs
below. -/
def setPycrdt : Pycrdt Nat (Finset Nat) where
  encode doc := doc
  decode payload := some payload
  truthy _ := true
  stateVector doc := doc
  updateSince doc before := doc \ before
  text _ := []
  delete doc _ _ := some doc
  insert doc _ _ := some doc
  decode_encode _ := rfl
  truthy_encode _ := rfl

/-- One stored version, of file 0. -/
def oneVersion : Stored setPycrdt where
  versions f := if f = 0 then [{ versionNumber := 1, snapshotBytes := {1}, createdAt := 0 }] else []
  forward f := by
    split
    · exact ⟨fun v _ => ⟨v.snapshotBytes, rfl⟩, List.pairwise_singleton _ _⟩
    · exact .nil

/-- No stored versions. -/
def noVersions : Stored setPycrdt where
  versions _ := []
  forward _ := .nil

/-- A checkpoint runs while a file with a stored version is being opened: it stores the empty
document as the next version. -/
theorem history_goes_backwards :
    ∃ cfg : RealtimeConfig Nat (Finset Nat),
      (realtime setPycrdt oneVersion).system.Reachable cfg ∧
        ¬cfg.shared.HistoryForward setPycrdt := by
  have hrun : ((realtime setPycrdt oneVersion).system.replay System.anyStep
      (realtime setPycrdt oneVersion).system.init
      (List.flatten [[.spawn 0 (.collabSocket 0 0 .editor 1)], List.replicate 2 (.run 0 {}),
        [.spawn 1 .checkpointOnce], List.replicate 7 (.run 1 {})])).any
      (fun cfg : RealtimeConfig Nat (Finset Nat) =>
        (cfg.shared.view 1 0).map (·.snapshotBytes) = [{1}, ∅]) = true := by decide
  obtain ⟨cfg, hcfg, hview⟩ := System.exists_reachable hrun
  refine ⟨cfg, hcfg, fun hforward => ?_⟩
  have hgrows := (hforward.1 1 0).grows
  have hcontents : ((cfg.shared.view 1 0).map (·.snapshotBytes)).Pairwise (· ⊆ ·) :=
    List.pairwise_map.2 (hgrows.imp fun hvw => hvw.2)
  rw [of_decide_eq_true hview] at hcontents
  exact absurd hcontents (by decide)

/-- A file is edited and saved while its socket stays attached. -/
theorem history_never_goes_backwards_saved :
    ∃ cfg : RealtimeConfig Nat (Finset Nat),
      (realtime setPycrdt oneVersion).system.ReachableUnder
        ((realtime setPycrdt oneVersion).guard (roomsKept setPycrdt)) cfg ∧
        (cfg.shared.versions 0).map (·.snapshotBytes) = [{1}, {1, 7}] ∧
        cfg.shared.HistoryForward setPycrdt := by
  have hrun : ((realtime setPycrdt oneVersion).system.replay
      ((realtime setPycrdt oneVersion).guard (roomsKept setPycrdt))
      (realtime setPycrdt oneVersion).system.init
      (List.flatten [[.spawn 0 (.collabSocket 0 0 .editor 1)], List.replicate 7 (.run 0 {}),
        [.run 0 { message := .update {7} }], List.replicate 4 (.run 0 {}), [.spawn 1 .checkpointOnce],
        List.replicate 8 (.run 1 {})])).any
      (fun cfg : RealtimeConfig Nat (Finset Nat) =>
        (cfg.shared.versions 0).map (·.snapshotBytes) = [{1}, {1, 7}]) = true := by decide
  obtain ⟨cfg, hcfg, hver⟩ := System.exists_reachable hrun
  exact ⟨cfg, hcfg, of_decide_eq_true hver, history_never_goes_backwards hcfg⟩

/-- A client attaches at time 0, edits at 400 and leaves; the cleanup at 401 evicts the room before
the next checkpoint. -/
theorem acked_edit_is_lost :
    ∃ cfg : RealtimeConfig Nat (Finset Nat),
      (realtime setPycrdt noVersions).system.Reachable cfg ∧
        ¬cfg.shared.acked 0 ⊆ cfg.shared.current setPycrdt 0 := by
  have hrun : ((realtime setPycrdt noVersions).system.replay System.anyStep
      (realtime setPycrdt noVersions).system.init
      (List.flatten [[.spawn 0 (.collabSocket 0 0 .editor 2)], List.replicate 7 (.run 0 {}),
        [.run 0 { now := 400, message := .update {7} }], List.replicate 7 (.run 0 { now := 400 }),
        [.spawn 1 (.cleanupUnusedRooms 300), .run 1 { now := 401 }]])).any
      (fun cfg : RealtimeConfig Nat (Finset Nat) =>
        7 ∈ cfg.shared.acked 0 ∧ 7 ∉ cfg.shared.current setPycrdt 0) = true := by decide +kernel
  obtain ⟨cfg, hcfg, hlost⟩ := System.exists_reachable hrun
  obtain ⟨hacked, hcurrent⟩ := of_decide_eq_true hlost
  exact ⟨cfg, hcfg, fun hsub => hcurrent (hsub hacked)⟩

/-- A client edits and leaves; its room is checkpointed, then evicted. -/
theorem acked_edits_survive_evicted :
    ∃ cfg : RealtimeConfig Nat (Finset Nat),
      (realtime setPycrdt noVersions).system.ReachableUnder
        ((realtime setPycrdt noVersions).guard (roomsKept setPycrdt)) cfg ∧
        cfg.shared.acked 0 = {7} ∧ cfg.shared.registry = [] ∧
        cfg.shared.acked 0 ⊆ cfg.shared.current setPycrdt 0 := by
  have hrun : ((realtime setPycrdt noVersions).system.replay
      ((realtime setPycrdt noVersions).guard (roomsKept setPycrdt))
      (realtime setPycrdt noVersions).system.init
      (List.flatten [[.spawn 0 (.collabSocket 0 0 .editor 2)], List.replicate 7 (.run 0 {}),
        [.run 0 { message := .update {7} }], List.replicate 7 (.run 0 {}), [.spawn 1 .checkpointOnce],
        List.replicate 10 (.run 1 {}), [.spawn 2 (.cleanupUnusedRooms 300), .run 2 { now := 401 }]])).any
      (fun cfg : RealtimeConfig Nat (Finset Nat) =>
        cfg.shared.acked 0 = {7} ∧ cfg.shared.registry = []) = true := by decide +kernel
  obtain ⟨cfg, hcfg, hend⟩ := System.exists_reachable hrun
  obtain ⟨hacked, hregistry⟩ := of_decide_eq_true hend
  exact ⟨cfg, hcfg, hacked, hregistry, acked_edits_survive hcfg 0⟩

end Concord
