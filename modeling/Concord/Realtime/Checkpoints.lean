import Concord.Realtime.Attribution
import Concord.Realtime.Numbering
import Mathlib

/-!
# Checkpoints that fail

`checkpoint_once` and `save_room` of `realtime/checkpoint.py`, with the attribution windows of their
rooms: any statement to the database may fail, the commit also after it took effect. A room's window is
closed and drained before the statements that record its counts, and nothing puts them back; they are
lost exactly when a later statement fails (`conserved_iff_spares`).

Edits made between the statements and the message that announces the changes are left out.
-/

namespace Concord

open Concord.Base

/-- A row of `file_changes`. -/
structure FileChange where
  projectId : ProjectId
  fileId : FileId
  userId : UserId
  linesAdded : Nat
  linesRemoved : Nat
deriving DecidableEq, Repr

/-- What a `FILE_CHANGED` message says of a user. -/
structure ChangeEntry where
  userId : UserId
  username : String
  linesAdded : Nat
  linesRemoved : Nat
deriving DecidableEq, Repr

/-- `CheckpointResult`, with the changes that were recorded. -/
structure CheckpointEnv.CheckpointResult where
  version : Option Nat
  created : Bool
  savedAt : Option Seconds := none
  changes : List ChangeEntry := []
deriving DecidableEq, Repr

/-- The tables that a checkpoint writes. -/
structure CheckpointTables (B : Type) where
  versions : List (DocumentVersion B)
  nextId : Nat
  fileChanges : List FileChange

/-- The tables as a session sees them, and how many statements it has made. -/
structure CheckpointSession (B : Type) where
  tables : CheckpointTables B
  statements : Nat := 0

/-- A key of `room_manager._rooms`. -/
abbrev RoomKey := ProjectId × FileId

/-- The statement of a call that fails, counted from 0, and how. -/
structure StatementFailure where
  statement : Nat
  fault : StatementFault
deriving DecidableEq, Repr

/-- What a call depends on besides its rooms and tables. -/
structure CheckpointEnv (D B : Type) where
  docs : ObservedDocs D B
  matcher : SequenceMatcher
  docToBytes : D → B
  truthy : B → Bool
  /-- `time.time()` when the turn of a room comes. -/
  now : RoomKey → Seconds
  /-- `datetime.now(UTC)` when the turn of a room comes. -/
  utcNow : RoomKey → Seconds
  usernames : UserId → Option String
  failure : Option StatementFailure

/-- `CHECKPOINT_INTERVAL_SECONDS`. -/
def checkpointIntervalSeconds : Seconds := 5

/-- `MAX_WINDOW_SECONDS`. -/
def maxWindowSeconds : Seconds := 60

/-- `_window_due`. -/
def AttributedRoom.windowDue {D : Type} (now : Seconds) (room : AttributedRoom D) : Bool :=
  if room.windowAuthors.items.isEmpty then !room.pending.items.isEmpty
  else
    decide (checkpointIntervalSeconds ≤ now - room.lastEdit) ||
      decide (maxWindowSeconds ≤ now - room.windowStarted)

namespace CheckpointEnv

variable {D B : Type} [DecidableEq B] (env : CheckpointEnv D B)

def fails (statement : Nat) : Bool := env.failure.any (·.statement = statement)

/-- The version that `_checkpoint_room` writes or marks, if any, and its result so far. -/
def recordVersion (key : RoomKey) (payload : B) (savedBy : Option UserId)
    (tables : CheckpointTables B) : CheckpointResult × CheckpointTables B :=
  let latest := (tables.versions.filter fun v => v.fileId = key.2).argmax (·.versionNumber)
  if env.truthy payload && latest.all (·.snapshotBytes ≠ payload) then
    ({ version := some (nextNumber latest)
       created := true
       savedAt := some (env.utcNow key) },
      { tables with
        versions := tables.versions ++
          [{ id := tables.nextId
             versionNumber := nextNumber latest
             createdAt := env.utcNow key
             savedBy
             fileId := key.2
             snapshotBytes := payload }]
        nextId := tables.nextId + 1 })
  else
    ({ version := latest.map (·.versionNumber)
       created := false
       savedAt := latest.map (·.createdAt) },
      match savedBy, latest with
      -- saving right after an autosave of the same text: that version is now a save
      | some user, some v =>
        if v.savedBy.isNone then { tables with versions := markSaved tables.versions v.id user }
        else tables
      | _, _ => tables)

/-- The rows for what users have changed in a room. -/
def changeRows (key : RoomKey) (shares : Dict UserId (Nat × Nat)) : List FileChange :=
  shares.items.map fun item => ⟨key.1, key.2, item.1, item.2.1, item.2.2⟩

def changeEntries (shares : Dict UserId (Nat × Nat)) : List ChangeEntry :=
  shares.items.map fun item =>
    ⟨item.1, (env.usernames item.1).getD s!"user-{item.1}", item.2.1, item.2.2⟩

/-- `_checkpoint_room`: its result, the room and the session after it. -/
def checkpointRoom (key : RoomKey) (closing : Bool) (savedBy : Option UserId)
    (room : AttributedRoom D) (s : CheckpointSession B) :
    Except PyError CheckpointResult × AttributedRoom D × CheckpointSession B :=
  let payload := env.docToBytes room.doc
  if env.fails s.statements then (.error .database, room, s)
  else
    let (result, tables) := env.recordVersion key payload savedBy s.tables
    let s := { tables, statements := s.statements + 1 }
    if closing then
      let (shares, room) := (room.closeWindow env.docs env.matcher).takePending
      if shares.items.isEmpty then (.ok result, room, s)
      -- the statement that looks up the names of the users
      else if env.fails s.statements then (.error .database, room, s)
      else
        (.ok { result with changes := env.changeEntries shares }, room,
          { tables := { s.tables with fileChanges := s.tables.fileChanges ++ changeRows key shares }
            statements := s.statements + 1 })
    else (.ok result, room, s)

/-- The loop over the rooms. -/
def checkpointRooms (closing : RoomKey → AttributedRoom D → Bool) (savedBy : Option UserId) :
    List (RoomKey × AttributedRoom D) → CheckpointSession B →
      Except PyError (List (RoomKey × CheckpointResult)) × List (RoomKey × AttributedRoom D) ×
        CheckpointSession B
  | [], s => (.ok [], [], s)
  | (key, room) :: rest, s =>
    match env.checkpointRoom key (closing key room) savedBy room s with
    | (.error e, room, s) => (.error e, (key, room) :: rest, s)
    | (.ok result, room, s) =>
      let (results, rest, s) := checkpointRooms closing savedBy rest s
      (results.map ((key, result) :: ·), (key, room) :: rest, s)

/-- `await db.commit()` over the tables `db`, and the tables after it. -/
def commit (db : CheckpointTables B) (s : CheckpointSession B) :
    Except PyError Unit × CheckpointTables B :=
  match env.failure with
  | none => (.ok (), s.tables)
  | some failure =>
    if failure.statement = s.statements then
      match failure.fault with
      | .before => (.error .database, db)
      | .after => (.error .database, s.tables)
    else (.ok (), s.tables)

/-- The body of `async with _lock, AsyncSessionLocal() as db`: what it returns, the rooms and the
tables after it. -/
def checkpointAndCommit (closing : RoomKey → AttributedRoom D → Bool) (savedBy : Option UserId)
    (rooms : List (RoomKey × AttributedRoom D)) (db : CheckpointTables B) :
    Except PyError (List (RoomKey × CheckpointResult)) × List (RoomKey × AttributedRoom D) ×
      CheckpointTables B :=
  match env.checkpointRooms closing savedBy rooms { tables := db } with
  | (.error e, rooms, _) => (.error e, rooms, db)
  | (.ok results, rooms, s) =>
    let (committed, db) := env.commit db s
    (committed.map fun _ => results, rooms, db)

/-- `checkpoint_once`, for the items of `_rooms`. -/
def checkpointOnce (force : Bool) (rooms : List (RoomKey × AttributedRoom D))
    (db : CheckpointTables B) :
    Except PyError (List (RoomKey × CheckpointResult)) × List (RoomKey × AttributedRoom D) ×
      CheckpointTables B :=
  if rooms.isEmpty then (.ok [], rooms, db)
  else env.checkpointAndCommit (fun key room => force || room.windowDue (env.now key)) none rooms db

/-- `save_room`. -/
def saveRoom (key : RoomKey) (room : AttributedRoom D) (userId : Option UserId)
    (db : CheckpointTables B) :
    Except PyError (List (RoomKey × CheckpointResult)) × List (RoomKey × AttributedRoom D) ×
      CheckpointTables B :=
  env.checkpointAndCommit (fun _ _ => true) userId [(key, room)] db

end CheckpointEnv

/-! ## Where the counts are -/

section Held

variable {D B : Type} (X : ObservedDocs D B) (M : SequenceMatcher)

namespace AttributedRoom

variable (room : AttributedRoom D)

/-- The lines that the room holds of a user, pending or in the open window. -/
def held (user : UserId) : Nat × Nat :=
  tally (· = user) room.pending + tally (· = user) (room.windowShares X M)

/-- What closing and draining the room takes out of it. -/
def drained : Dict UserId (Nat × Nat) := (room.closeWindow X M).takePending.1

/-- The room once it is closed and drained. -/
def emptied : AttributedRoom D := (room.closeWindow X M).takePending.2

theorem tally_windowShares_of_calm (p : UserId → Prop) [DecidablePred p]
    (h : room.windowAuthors.items = []) : tally p (room.windowShares X M) = 0 := by
  simp [windowShares, splitStats, h, tally]

theorem held_emptied (user : UserId) : (room.emptied X M).held X M user = 0 := by
  unfold held
  rw [tally_windowShares_of_calm _ _ _ _ rfl, add_zero]
  rfl

theorem tally_drained (user : UserId) :
    tally (· = user) (room.drained X M) = room.held X M user := by
  rw [drained, tally_takePending, held]
  unfold closeWindow resetWindow
  split
  · next hcalm =>
    rw [tally_windowShares_of_calm _ _ _ _ (List.isEmpty_iff.1 hcalm), add_zero]
  · rw [tally_foldl_charge]
    rfl

/-- A room that has something to record holds lines of somebody. -/
theorem exists_held (h : (room.drained X M).items ≠ []) : ∃ user, room.held X M user ≠ 0 := by
  obtain ⟨⟨user, share⟩, hitem⟩ := List.exists_mem_of_ne_nil _ h
  have hshare : share ≠ (0, 0) := of_decide_eq_true (List.mem_filter.1 hitem).2
  refine ⟨user, fun hzero => hshare ?_⟩
  rw [← tally_drained, tally, Dict.sum, ((Dict.perm_erase (Dict.mem_items_iff.1 hitem)).map _).sum_eq,
    List.map_cons, List.sum_cons, if_pos rfl] at hzero
  exact (add_eq_zero.1 hzero).1

/-- Draining loses nothing exactly if there is nothing to record. -/
theorem held_emptied_eq_iff :
    (∀ user, (room.emptied X M).held X M user = room.held X M user) ↔
      (room.drained X M).items = [] := by
  constructor
  · intro h
    by_contra hne
    obtain ⟨user, huser⟩ := room.exists_held X M hne
    exact huser ((h user).symm.trans (room.held_emptied X M user))
  · intro hnil user
    rw [held_emptied, ← tally_drained, tally, Dict.sum, hnil]
    rfl

end AttributedRoom

/-- The lines that the rooms with a key hold of a user. -/
def heldAt (rooms : List (RoomKey × AttributedRoom D)) (key : RoomKey) (user : UserId) : Nat × Nat :=
  (rooms.map fun item => if item.1 = key then item.2.held X M user else 0).sum

/-- The lines of a user that rows record for a key. -/
def recorded (rows : List FileChange) (key : RoomKey) (user : UserId) : Nat × Nat :=
  (rows.map fun row =>
    if (row.projectId, row.fileId) = key ∧ row.userId = user then (row.linesAdded, row.linesRemoved)
    else 0).sum

theorem recorded_append (rows rows' : List FileChange) (key : RoomKey) (user : UserId) :
    recorded (rows ++ rows') key user = recorded rows key user + recorded rows' key user := by
  simp [recorded]

theorem recorded_changeRows (key key' : RoomKey) (shares : Dict UserId (Nat × Nat)) (user : UserId) :
    recorded (CheckpointEnv.changeRows key shares) key' user =
      if key = key' then tally (· = user) shares else 0 := by
  unfold recorded CheckpointEnv.changeRows tally Dict.sum
  rw [List.map_map]
  split
  · next h =>
    subst h
    simp [Function.comp_def]
  · next h => simp [Function.comp_def, h]

/-- The rooms hold no more than before. -/
def Shrinks (rooms rooms' : List (RoomKey × AttributedRoom D)) : Prop :=
  ∀ key user, heldAt X M rooms' key user ≤ heldAt X M rooms key user

/-- The rooms hold what they held before. -/
def Lossless (rooms rooms' : List (RoomKey × AttributedRoom D)) : Prop :=
  ∀ key user, heldAt X M rooms' key user = heldAt X M rooms key user

variable {X M} {rest rest' : List (RoomKey × AttributedRoom D)} {key : RoomKey}
  {room room' : AttributedRoom D}

theorem heldAt_cons (key' : RoomKey) (user : UserId) :
    heldAt X M ((key, room) :: rest) key' user =
      (if key = key' then room.held X M user else 0) + heldAt X M rest key' user := by
  unfold heldAt
  rw [List.map_cons, List.sum_cons]

theorem Shrinks.cons (h : Shrinks X M rest rest')
    (hroom : ∀ user, room'.held X M user ≤ room.held X M user) :
    Shrinks X M ((key, room) :: rest) ((key, room') :: rest') := by
  intro key' user
  rw [heldAt_cons, heldAt_cons]
  split
  · exact add_le_add (hroom user) (h key' user)
  · exact add_le_add le_rfl (h key' user)

/-- What one room loses no other makes up for. -/
theorem lossless_cons_iff (h : Shrinks X M rest rest')
    (hroom : ∀ user, room'.held X M user ≤ room.held X M user) :
    Lossless X M ((key, room) :: rest) ((key, room') :: rest') ↔
      (∀ user, room'.held X M user = room.held X M user) ∧ Lossless X M rest rest' := by
  have hboth : ∀ {a a' b b' : Nat × Nat}, a' ≤ a → b' ≤ b → a' + b' = a + b → a' = a ∧ b' = b := by
    intro a a' b b' ha hb hsum
    have hfst := congrArg Prod.fst hsum
    have hsnd := congrArg Prod.snd hsum
    rw [Prod.fst_add, Prod.fst_add] at hfst
    rw [Prod.snd_add, Prod.snd_add] at hsnd
    have hle := Prod.le_def.1 ha
    have hle' := Prod.le_def.1 hb
    constructor
    · apply Prod.ext <;> omega
    · apply Prod.ext <;> omega
  constructor
  · intro hlossless
    constructor
    · intro user
      have hsum := hlossless key user
      rw [heldAt_cons, heldAt_cons, if_pos rfl, if_pos rfl] at hsum
      exact (hboth (hroom user) (h key user) hsum).1
    · intro key' user
      have hsum := hlossless key' user
      rw [heldAt_cons, heldAt_cons] at hsum
      split at hsum
      · exact (hboth (hroom user) (h key' user) hsum).2
      · exact (hboth le_rfl (h key' user) hsum).2
  · rintro ⟨hroom', hrest⟩ key' user
    rw [heldAt_cons, heldAt_cons, hroom', hrest]

end Held

/-! ## The loop over the rooms -/

section Loop

variable {D B : Type} [DecidableEq B] (env : CheckpointEnv D B)
  (closing : RoomKey → AttributedRoom D → Bool) (savedBy : Option UserId)

namespace CheckpointEnv

/-- The room's window is closed, and there is something to record. -/
def records (item : RoomKey × AttributedRoom D) : Bool :=
  closing item.1 item.2 && !(item.2.drained env.docs env.matcher).items.isEmpty

/-- How many statements the rooms take: one for the latest version, and one for the names of the users if
there is something to record. -/
def statementCount (rooms : List (RoomKey × AttributedRoom D)) : Nat :=
  (rooms.map fun item => 1 + if env.records closing item then 1 else 0).sum

/-- How the turn of a room ends. -/
inductive RoomTurn (key : RoomKey) (room : AttributedRoom D) (s : CheckpointSession B) :
    Except PyError CheckpointResult × AttributedRoom D × CheckpointSession B → Prop
  | unread (h : env.fails s.statements = true) : RoomTurn key room s (.error .database, room, s)
  | nameless (s' : CheckpointSession B) (hread : env.fails s.statements = false)
      (hrecords : env.records closing (key, room) = true)
      (h : env.fails (s.statements + 1) = true) :
      RoomTurn key room s (.error .database, room.emptied env.docs env.matcher, s')
  | done (result : CheckpointResult) (s' : CheckpointSession B)
      (hread : env.fails s.statements = false)
      (hnames : env.records closing (key, room) = true → env.fails (s.statements + 1) = false)
      (hstatements : s'.statements =
        s.statements + (1 + if env.records closing (key, room) then 1 else 0))
      (hrows : s'.tables.fileChanges = s.tables.fileChanges ++
        if closing key room then changeRows key (room.drained env.docs env.matcher) else []) :
      RoomTurn key room s
        (.ok result, if closing key room then room.emptied env.docs env.matcher else room, s')

theorem recordVersion_fileChanges (key : RoomKey) (payload : B) (tables : CheckpointTables B) :
    (env.recordVersion key payload savedBy tables).2.fileChanges = tables.fileChanges := by
  unfold recordVersion
  dsimp only
  split
  · rfl
  · dsimp only
    split
    · split <;> rfl
    · rfl

theorem roomTurn (key : RoomKey) (room : AttributedRoom D) (s : CheckpointSession B) :
    env.RoomTurn closing key room s
      (env.checkpointRoom key (closing key room) savedBy room s) := by
  have hrows := env.recordVersion_fileChanges savedBy key (env.docToBytes room.doc) s.tables
  unfold checkpointRoom
  dsimp only
  generalize env.recordVersion key (env.docToBytes room.doc) savedBy s.tables = recorded at hrows ⊢
  obtain ⟨result, tables⟩ := recorded
  cases hread : env.fails s.statements with
  | true => exact .unread hread
  | false =>
    cases hclosing : closing key room with
    | false =>
      have hrecords : env.records closing (key, room) = false := by simp [records, hclosing]
      have hdone : env.RoomTurn closing key room s (.ok result,
          if closing key room then room.emptied env.docs env.matcher else room,
          { tables, statements := s.statements + 1 }) :=
        .done _ _ hread (by simp [hrecords]) (by simp [hrecords]) (by simpa [hclosing] using hrows)
      simpa [hclosing] using hdone
    | true =>
      cases hitems : (room.closeWindow env.docs env.matcher).takePending.1.items.isEmpty with
      | true =>
        have hrecords : env.records closing (key, room) = false := by
          simp [records, AttributedRoom.drained, hitems]
        have hnone : changeRows key (room.drained env.docs env.matcher) = [] := by
          rw [changeRows, AttributedRoom.drained, List.isEmpty_iff.1 hitems, List.map_nil]
        have hdone : env.RoomTurn closing key room s (.ok result,
            if closing key room then room.emptied env.docs env.matcher else room,
            { tables, statements := s.statements + 1 }) :=
          .done _ _ hread (by simp [hrecords]) (by simp [hrecords])
            (by simpa [hclosing, hnone] using hrows)
        rw [if_pos hclosing] at hdone
        simp only [Bool.false_eq_true, if_false, if_true]
        exact hdone
      | false =>
        have hrecords : env.records closing (key, room) = true := by
          simp [records, AttributedRoom.drained, hclosing, hitems]
        cases hnames : env.fails (s.statements + 1) with
        | true =>
          simp only [Bool.false_eq_true, if_false, if_true]
          exact .nameless _ hread hrecords hnames
        | false =>
          have hdone : env.RoomTurn closing key room s
              (.ok { result with
                changes := env.changeEntries (room.drained env.docs env.matcher) },
              if closing key room then room.emptied env.docs env.matcher else room,
              { tables := { tables with fileChanges :=
                  tables.fileChanges ++ changeRows key (room.drained env.docs env.matcher) }
                statements := s.statements + 1 + 1 }) :=
            .done _ _ hread (fun _ => hnames) (by simp [hrecords])
              (by simpa [hclosing] using hrows)
          rw [if_pos hclosing] at hdone
          simp only [Bool.false_eq_true, if_false, if_true]
          exact hdone

variable {env closing savedBy} {rooms rooms' : List (RoomKey × AttributedRoom D)}
  {s s' : CheckpointSession B}

omit [DecidableEq B] in
/-- The turn of a room does not add to what it holds. -/
theorem held_le (key : RoomKey) (room : AttributedRoom D) (user : UserId) :
    (if closing key room then room.emptied env.docs env.matcher else room).held env.docs env.matcher
      user ≤ room.held env.docs env.matcher user := by
  split
  · rw [AttributedRoom.held_emptied]
    exact zero_le
  · exact le_rfl

omit [DecidableEq B] in
/-- It takes nothing from it exactly if there is nothing to record. -/
theorem held_eq_iff (key : RoomKey) (room : AttributedRoom D) :
    (∀ user, (if closing key room then room.emptied env.docs env.matcher else room).held env.docs
        env.matcher user = room.held env.docs env.matcher user) ↔
      env.records closing (key, room) = false := by
  unfold records
  cases closing key room with
  | true =>
    simp only [if_true, Bool.true_and, AttributedRoom.held_emptied_eq_iff, Bool.not_eq_false',
      List.isEmpty_iff]
  | false => simp

/-- The loop went over all rooms: their statements succeeded, and what the rooms no longer hold is in the
session. -/
structure Completed (env : CheckpointEnv D B) (closing : RoomKey → AttributedRoom D → Bool)
    (rooms : List (RoomKey × AttributedRoom D)) (s : CheckpointSession B)
    (rooms' : List (RoomKey × AttributedRoom D)) (s' : CheckpointSession B) : Prop where
  statements : s'.statements = s.statements + env.statementCount closing rooms
  succeeded : ∀ n, s.statements ≤ n → n < s'.statements → env.fails n = false
  conserved : ∀ key user,
    recorded s'.tables.fileChanges key user + heldAt env.docs env.matcher rooms' key user =
      recorded s.tables.fileChanges key user + heldAt env.docs env.matcher rooms key user
  lossless : Lossless env.docs env.matcher rooms rooms' ↔
    ∀ item ∈ rooms, env.records closing item = false

/-- The loop was left at statement `n`. -/
structure Interrupted (env : CheckpointEnv D B) (closing : RoomKey → AttributedRoom D → Bool)
    (rooms : List (RoomKey × AttributedRoom D)) (s : CheckpointSession B)
    (rooms' : List (RoomKey × AttributedRoom D)) (n : Nat) : Prop where
  fails : env.fails n = true
  le : s.statements ≤ n
  lt : n < s.statements + env.statementCount closing rooms
  lossless : Lossless env.docs env.matcher rooms rooms' ↔
    ∀ item ∈ rooms.take (n - s.statements), env.records closing item = false

omit [DecidableEq B] in
theorem statementCount_cons (item : RoomKey × AttributedRoom D) :
    env.statementCount closing (item :: rooms) =
      (1 + if env.records closing item then 1 else 0) + env.statementCount closing rooms := rfl

omit [DecidableEq B] in
theorem length_le_statementCount : rooms.length ≤ env.statementCount closing rooms := by
  induction rooms with
  | nil => exact Nat.zero_le _
  | cons item rest ih =>
    rw [List.length_cons, statementCount_cons]
    omega

variable (env closing savedBy rooms) in
theorem checkpointRooms_shrinks (s : CheckpointSession B) :
    Shrinks env.docs env.matcher rooms (env.checkpointRooms closing savedBy rooms s).2.1 := by
  induction rooms generalizing s with
  | nil => exact fun _ _ => le_rfl
  | cons item rest ih =>
    obtain ⟨key, room⟩ := item
    have hturn := env.roomTurn closing savedBy key room s
    unfold checkpointRooms
    generalize env.checkpointRoom key (closing key room) savedBy room s = turn at hturn ⊢
    cases hturn with
    | unread h => exact fun _ _ => le_rfl
    | nameless s' hread hrecords h =>
      apply Shrinks.cons (fun _ _ => le_rfl)
      intro user
      rw [AttributedRoom.held_emptied]
      exact zero_le
    | done result s' hread hnames hstatements hrows =>
      exact Shrinks.cons (ih s') fun user => held_le key room user

omit [DecidableEq B] in
variable (env closing) in
/-- What a room gives up goes into the session. -/
theorem recorded_turn (rows : List FileChange) (key key' : RoomKey) (room : AttributedRoom D)
    (user : UserId) :
    recorded (rows ++ if closing key room then changeRows key (room.drained env.docs env.matcher)
        else []) key' user +
      (if key = key' then (if closing key room then room.emptied env.docs env.matcher else room).held
        env.docs env.matcher user else 0) =
      recorded rows key' user + if key = key' then room.held env.docs env.matcher user else 0 := by
  rw [recorded_append, add_assoc]
  congr 1
  split
  · rw [recorded_changeRows]
    split
    · rw [AttributedRoom.held_emptied, add_zero, AttributedRoom.tally_drained]
    · rfl
  · exact zero_add _

omit [DecidableEq B] in
theorem Completed.cons {rest rest' : List (RoomKey × AttributedRoom D)} {key : RoomKey}
    {room : AttributedRoom D} {s'' : CheckpointSession B} (h : Completed env closing rest s' rest' s'')
    (hshrinks : Shrinks env.docs env.matcher rest rest')
    (hread : env.fails s.statements = false)
    (hnames : env.records closing (key, room) = true → env.fails (s.statements + 1) = false)
    (hstatements : s'.statements =
      s.statements + (1 + if env.records closing (key, room) then 1 else 0))
    (hrows : s'.tables.fileChanges = s.tables.fileChanges ++
      if closing key room then changeRows key (room.drained env.docs env.matcher) else []) :
    Completed env closing ((key, room) :: rest) s
      ((key, if closing key room then room.emptied env.docs env.matcher else room) :: rest') s'' where
  statements := by
    rw [h.statements, hstatements, statementCount_cons]
    omega
  succeeded n hn hlt := by
    rcases Nat.lt_or_ge n s'.statements with hbefore | hafter
    · rw [hstatements] at hbefore
      rcases hn.eq_or_lt with rfl | hn
      · exact hread
      · -- only a room with something to record takes a second statement
        split at hbefore
        · next hrecords =>
          obtain rfl : n = s.statements + 1 := by omega
          exact hnames hrecords
        · omega
    · exact h.succeeded n hafter hlt
  conserved key' user := by
    have hrest := h.conserved key' user
    have hturn := recorded_turn env closing s.tables.fileChanges key key' room user
    rw [hrows] at hrest
    rw [heldAt_cons, heldAt_cons, add_left_comm, hrest, add_left_comm, ← add_assoc, ← add_assoc, ← hturn]
  lossless := by
    rw [lossless_cons_iff hshrinks fun user => held_le key room user, held_eq_iff, h.lossless,
      List.forall_mem_cons]

omit [DecidableEq B] in
theorem Interrupted.cons {rest rest' : List (RoomKey × AttributedRoom D)} {key : RoomKey}
    {room : AttributedRoom D} {n : Nat} (h : Interrupted env closing rest s' rest' n)
    (hshrinks : Shrinks env.docs env.matcher rest rest')
    (hstatements : s'.statements =
      s.statements + (1 + if env.records closing (key, room) then 1 else 0)) :
    Interrupted env closing ((key, room) :: rest) s
      ((key, if closing key room then room.emptied env.docs env.matcher else room) :: rest') n where
  fails := h.fails
  le := by
    have hle := h.le
    omega
  lt := by
    have hlt := h.lt
    rw [statementCount_cons]
    omega
  lossless := by
    have hle := h.le
    have htake : ((key, room) :: rest).take (n - s.statements) =
        (key, room) :: rest.take (n - s.statements - 1) := by
      rw [List.take_cons (by omega)]
    rw [lossless_cons_iff hshrinks fun user => held_le key room user, held_eq_iff, h.lossless, htake,
      List.forall_mem_cons]
    apply and_congr_right
    intro hrecords
    rw [hrecords] at hstatements
    rw [show n - s'.statements = n - s.statements - 1 by simp at hstatements; omega]

variable (env closing savedBy rooms) in
theorem checkpointRooms_spec (s : CheckpointSession B) :
    (∃ results, (env.checkpointRooms closing savedBy rooms s).1 = .ok results ∧
      Completed env closing rooms s (env.checkpointRooms closing savedBy rooms s).2.1
        (env.checkpointRooms closing savedBy rooms s).2.2) ∨
    ∃ e n, (env.checkpointRooms closing savedBy rooms s).1 = .error e ∧
      Interrupted env closing rooms s (env.checkpointRooms closing savedBy rooms s).2.1 n := by
  induction rooms generalizing s with
  | nil =>
    left
    refine ⟨[], rfl, rfl, fun n hn hlt => absurd hlt (Nat.not_lt.2 hn), fun _ _ => rfl, ?_⟩
    exact iff_of_true (fun _ _ => rfl) nofun
  | cons item rest ih =>
    obtain ⟨key, room⟩ := item
    have hturn := env.roomTurn closing savedBy key room s
    unfold checkpointRooms
    generalize env.checkpointRoom key (closing key room) savedBy room s = turn at hturn ⊢
    cases hturn with
    | unread h =>
      right
      refine ⟨_, s.statements, rfl, h, le_rfl, ?_, ?_⟩
      · rw [statementCount_cons]
        omega
      · rw [Nat.sub_self, List.take_zero]
        exact iff_of_true (fun _ _ => rfl) nofun
    | nameless s' hread hrecords h =>
      right
      refine ⟨_, s.statements + 1, rfl, h, Nat.le_succ _, ?_, ?_⟩
      · rw [statementCount_cons, if_pos hrecords]
        omega
      · apply iff_of_false
        · intro hlossless
          have hle : ∀ user, (room.emptied env.docs env.matcher).held env.docs env.matcher user ≤
              room.held env.docs env.matcher user := by
            intro user
            rw [AttributedRoom.held_emptied]
            exact zero_le
          have hnone := (AttributedRoom.held_emptied_eq_iff _ _ room).1
            ((lossless_cons_iff (fun _ _ => le_rfl) hle).1 hlossless).1
          simp [records, hnone] at hrecords
        · intro hnone
          have hitem := hnone (key, room) (by simp)
          rw [hrecords] at hitem
          cases hitem
    | done result s' hread hnames hstatements hrows =>
      have hshrinks := checkpointRooms_shrinks env closing savedBy rest s'
      rcases ih s' with ⟨results, hok, hcompleted⟩ | ⟨e, n, herror, hinterrupted⟩
      · left
        exact ⟨_, congrArg (Except.map fun results => (key, result) :: results) hok, hcompleted.cons hshrinks hread hnames hstatements hrows⟩
      · right
        exact ⟨e, n, congrArg (Except.map fun results => (key, result) :: results) herror, hinterrupted.cons hshrinks hstatements⟩

end CheckpointEnv

end Loop

/-! ## The claim -/

section Claim

variable {D B : Type} [DecidableEq B] (env : CheckpointEnv D B)

namespace CheckpointEnv

/-- After a call with this outcome every line count of before is in a row or with its room, and only
there. -/
def Conserves (rooms : List (RoomKey × AttributedRoom D)) (db : CheckpointTables B)
    (outcome : Except PyError (List (RoomKey × CheckpointResult)) ×
      List (RoomKey × AttributedRoom D) × CheckpointTables B) : Prop :=
  ∀ key user,
    recorded outcome.2.2.fileChanges key user +
        heldAt env.docs env.matcher outcome.2.1 key user =
      recorded db.fileChanges key user + heldAt env.docs env.matcher rooms key user

/-- If a statement fails before the commit took effect, none of the rooms whose turn had come had
something to record. -/
def Spares (closing : RoomKey → AttributedRoom D → Bool)
    (rooms : List (RoomKey × AttributedRoom D)) : Prop :=
  ∀ failure ∈ env.failure,
    failure.statement < env.statementCount closing rooms ∨
        failure.statement = env.statementCount closing rooms ∧ failure.fault = .before →
      ∀ item ∈ rooms.take failure.statement, env.records closing item = false

theorem conserved_iff_spares (closing : RoomKey → AttributedRoom D → Bool)
    (savedBy : Option UserId) (rooms : List (RoomKey × AttributedRoom D)) (db : CheckpointTables B) :
    env.Conserves rooms db (env.checkpointAndCommit closing savedBy rooms db) ↔
      env.Spares closing rooms := by
  have hkept : ∀ rooms' : List (RoomKey × AttributedRoom D),
      (∀ key user, recorded db.fileChanges key user + heldAt env.docs env.matcher rooms' key user =
        recorded db.fileChanges key user + heldAt env.docs env.matcher rooms key user) ↔
      Lossless env.docs env.matcher rooms rooms' :=
    fun rooms' => forall₂_congr fun key user => add_right_inj _
  unfold checkpointAndCommit
  have hspec := checkpointRooms_spec env closing savedBy rooms { tables := db }
  generalize env.checkpointRooms closing savedBy rooms { tables := db } = loop at hspec ⊢
  obtain ⟨outcome, rooms', s⟩ := loop
  rcases hspec with ⟨results, hok, hcompleted⟩ | ⟨e, n, herror, hinterrupted⟩
  · have hcount : s.statements = env.statementCount closing rooms :=
      hcompleted.statements.trans (Nat.zero_add _)
    have hlate : ∀ failure ∈ env.failure, env.statementCount closing rooms ≤ failure.statement := by
      intro failure hfailure
      by_contra hlt
      have hearly : failure.statement < s.statements := by omega
      have hfails := hcompleted.succeeded failure.statement (Nat.zero_le _) hearly
      rw [fails, Option.mem_def.1 hfailure] at hfails
      simp at hfails
    cases hok
    unfold Conserves commit
    cases hfailure : env.failure with
    | none => exact iff_of_true hcompleted.conserved fun failure h => by simp [hfailure] at h
    | some failure =>
      have hspares : env.Spares closing rooms ↔
          (failure.statement = env.statementCount closing rooms ∧ failure.fault = .before →
            ∀ item ∈ rooms, env.records closing item = false) := by
        have hle := hlate failure hfailure
        have htake : rooms.take failure.statement = rooms :=
          List.take_of_length_le (length_le_statementCount.trans hle)
        unfold Spares
        simp only [hfailure, Option.mem_some_iff, forall_eq', htake]
        constructor
        · exact fun h hcommit => h (.inr hcommit)
        · rintro h (hlt | hcommit)
          · omega
          · exact h hcommit
      rw [hspares]
      dsimp only
      split
      · next hstatement =>
        cases hfault : failure.fault with
        | before =>
          rw [hcount] at hstatement
          simp only [hstatement, true_and, forall_const]
          exact (hkept rooms').trans hcompleted.lossless
        | after => exact iff_of_true hcompleted.conserved nofun
      · next hstatement =>
        rw [hcount] at hstatement
        exact iff_of_true hcompleted.conserved fun h => absurd h.1 hstatement
  · cases herror
    obtain ⟨failure, hfailure, hn⟩ := (Option.any_eq_true _ _).1 hinterrupted.fails
    obtain rfl := of_decide_eq_true hn
    have hlt : failure.statement < env.statementCount closing rooms := by
      simpa using hinterrupted.lt
    have hspares : env.Spares closing rooms ↔
        ∀ item ∈ rooms.take failure.statement, env.records closing item = false := by
      unfold Spares
      simp only [hfailure, Option.mem_some_iff, forall_eq']
      exact ⟨fun h => h (.inl hlt), fun h _ => h⟩
    rw [hspares]
    exact (hkept rooms').trans hinterrupted.lossless

/-- **A failed checkpoint loses no attribution, if no room had something to record before the statement
that failed.** -/
theorem checkpoint_conserves_iff :
    (∀ force rooms (db : CheckpointTables B),
      env.Conserves rooms db (env.checkpointOnce force rooms db) ↔
        env.Spares (fun key room => force || room.windowDue (env.now key)) rooms) ∧
    ∀ key room userId (db : CheckpointTables B),
      env.Conserves [(key, room)] db (env.saveRoom key room userId db) ↔
        env.Spares (fun _ _ => true) [(key, room)] := by
  constructor
  · intro force rooms db
    unfold checkpointOnce
    split
    · next hempty =>
      rw [List.isEmpty_iff.1 hempty]
      refine iff_of_true (fun _ _ => rfl) ?_
      intro failure _ _ item hitem
      simp at hitem
    · exact env.conserved_iff_spares _ _ rooms db
  · intro key room userId db
    exact env.conserved_iff_spares _ _ _ db

/-- The commit of a Save fails, after a user has added a line. -/
theorem failed_save_loses_a_line :
    ¬∀ (env : CheckpointEnv Nat Nat) key room userId (db : CheckpointTables Nat),
      env.Conserves [(key, room)] db (env.saveRoom key room userId db) := by
  intro h
  let env : CheckpointEnv Nat Nat :=
    { docs := emptyLines
      matcher := wholeMatcher
      docToBytes := id
      truthy := fun _ => true
      now := fun _ => 0
      utcNow := fun _ => 0
      usernames := fun _ => none
      failure := some ⟨2, .before⟩ }
  have hsum := h env (0, 0) { doc := 1, windowText := some [], windowAuthors := (∅ : Dict UserId Nat).set 1 1 }
    none ⟨[], 0, []⟩ (0, 0) 1
  revert hsum
  decide

end CheckpointEnv

end Claim

end Concord
