import Concord.Base.System
import Concord.Realtime.Changes
import Mathlib

/-!
# Attribution windows

The window fields of `Room` in `realtime/manager.py`: `apply_edit`, `close_window` and `take_pending`,
called in any order and at any times, with updates that change nothing or raise among them.

A window is the updates that changed the text since the last one was closed. What it charges to its
authors adds up to the line counts between its ends, unless the shares of several authors are too large
for double precision; the ends of consecutive windows meet, so what is taken and pending adds up to the
change of the text since the start.
-/

namespace Concord

open Concord.Base

/-- An entry of `event.delta`. -/
inductive DeltaOp
  | retain (n : Nat)
  | insert (s : List Char)
  /-- An insertion that is not a `str`. -/
  | embed
  | delete (n : Nat)
deriving DecidableEq, Repr

/-- What `count` adds for an entry. -/
def DeltaOp.changed : DeltaOp → Nat
  | insert s => s.length
  | delete n => n
  | retain _ | embed => 0

/-- Documents of the CRDT library with an observer of their text. -/
structure ObservedDocs (D B : Type) where
  /-- `str(text)`. -/
  text : D → List Char
  /-- `doc.apply_update`; `none` if it raises, and then the document stays as it was. -/
  applyUpdate : D → B → Option D
  /-- What the observer is shown of an update. -/
  delta : D → B → List DeltaOp
  /-- It is shown every change of the text. -/
  text_eq : ∀ doc update doc', applyUpdate doc update = some doc' →
    ((delta doc update).map DeltaOp.changed).sum = 0 → text doc' = text doc

/-- `apply_update_counting`; `none` if it raises. -/
def ObservedDocs.applyUpdateCounting {D B : Type} (X : ObservedDocs D B) (doc : D) (update : B) :
    Option (D × Nat) :=
  (X.applyUpdate doc update).map fun doc' => (doc', ((X.delta doc update).map DeltaOp.changed).sum)

/-- `AUTHOR_SWITCH_SECONDS`. -/
def authorSwitchSeconds : Seconds := 1

/-- The fields of `Room` that attribution works on. -/
structure AttributedRoom (D : Type) where
  doc : D
  windowText : Option (List Char) := none
  windowAuthors : Dict UserId Nat := ∅
  windowStarted : Seconds := 0
  lastEdit : Seconds := 0
  lastAuthor : Option UserId := none
  pending : Dict UserId (Nat × Nat) := ∅

namespace AttributedRoom

variable {D B : Type} (X : ObservedDocs D B) (M : SequenceMatcher) (room : AttributedRoom D)

def resetWindow : AttributedRoom D :=
  { room with
    windowText := none
    windowAuthors := ∅
    lastAuthor := none }

/-- The line counts of the open window. -/
def windowStats : Nat × Nat := lineStats M (room.windowText.getD []) (X.text room.doc)

/-- What closing the window charges to its authors. -/
def windowShares : Dict UserId (Nat × Nat) :=
  splitStats room.windowAuthors (room.windowStats X M).1 (room.windowStats X M).2

/-- One pass of the loop of `close_window`. -/
def charge (pending : Dict UserId (Nat × Nat)) (item : UserId × (Nat × Nat)) :
    Dict UserId (Nat × Nat) :=
  pending.set item.1 ((pending.get? item.1).getD (0, 0) + item.2)

def closeWindow : AttributedRoom D :=
  resetWindow
    (if room.windowAuthors.items.isEmpty then room
    else { room with pending := (room.windowShares X M).items.foldl charge room.pending })

/-- `take_pending`: what it returns, and the room after it. -/
def takePending : Dict UserId (Nat × Nat) × AttributedRoom D :=
  (room.pending.filterValues (· ≠ (0, 0)), { room with pending := ∅ })

/-- Somebody else edits after a pause. -/
def switchesAuthor (now : Seconds) (userId : UserId) : Bool :=
  !room.windowAuthors.items.isEmpty && decide (some userId ≠ room.lastAuthor) &&
    decide (authorSwitchSeconds ≤ now - room.lastEdit)

/-- `apply_edit` once a window of somebody else has been closed. -/
def recordEdit (now : Seconds) (userId : UserId) (update : B) :
    Except PyError Unit × AttributedRoom D :=
  let room :=
    if room.windowAuthors.items.isEmpty then { room with windowText := some (X.text room.doc) }
    else room
  match X.applyUpdateCounting room.doc update with
  | none => (.error .other, room)
  | some (doc, changed) =>
    let room := { room with doc }
    if changed = 0 then (.ok (), room)
    else
      let room :=
        if room.windowAuthors.items.isEmpty then { room with windowStarted := now } else room
      (.ok (), { room with
        windowAuthors :=
          room.windowAuthors.set userId ((room.windowAuthors.get? userId).getD 0 + changed)
        lastEdit := now
        lastAuthor := some userId })

/-- `apply_edit`, called at `now`: whether it raises, and the room after it. -/
def applyEdit (now : Seconds) (userId : UserId) (update : B) :
    Except PyError Unit × AttributedRoom D :=
  let room := if room.switchesAuthor now userId then room.closeWindow X M else room
  room.recordEdit X now userId update

end AttributedRoom

@[simp] theorem AttributedRoom.closeWindow_doc {D B : Type} (X : ObservedDocs D B)
    (M : SequenceMatcher) (room : AttributedRoom D) : (room.closeWindow X M).doc = room.doc := by
  unfold closeWindow resetWindow
  split <;> rfl

/-! ## Runs -/

/-- An update that changed the text: who sent it, how many characters it changed, and the text before
it. -/
structure CountedEdit where
  user : UserId
  changed : Nat
  before : List Char

/-- A window that was closed: its edits, the text at its close and what it charged. -/
structure ClosedWindow where
  edits : List CountedEdit
  text : List Char
  shares : Dict UserId (Nat × Nat)

/-- A room with its history: the edits of the open window, the text at the last close (at first, the
initial text), the windows closed and what `take_pending` returned. -/
structure AttributionRun (D : Type) where
  room : AttributedRoom D
  edits : List CountedEdit := []
  closedText : List Char
  windows : List ClosedWindow := []
  taken : List (Dict UserId (Nat × Nat)) := []

inductive RoomCall (B : Type)
  | applyEdit (now : Seconds) (userId : UserId) (update : B)
  | closeWindow
  | takePending

namespace AttributionRun

variable {D B : Type} (X : ObservedDocs D B) (M : SequenceMatcher) (run : AttributionRun D)

/-- `close_window`, recorded. -/
def closeWindow : AttributionRun D :=
  { run with
    room := run.room.closeWindow X M
    edits := []
    closedText := X.text run.room.doc
    windows :=
      if run.edits.isEmpty then run.windows
      else run.windows ++ [⟨run.edits, X.text run.room.doc, run.room.windowShares X M⟩] }

/-- The edit that an update is, if it changes the text. -/
def counted (userId : UserId) (update : B) : List CountedEdit :=
  match X.applyUpdateCounting run.room.doc update with
  | none => []
  | some (_, changed) =>
    if changed = 0 then [] else [⟨userId, changed, X.text run.room.doc⟩]

def step : RoomCall B → AttributionRun D
  | .applyEdit now userId update =>
    let recorded := if run.room.switchesAuthor now userId then run.closeWindow X M else run
    { recorded with
      room := (run.room.applyEdit X M now userId update).2
      edits := recorded.edits ++ run.counted X userId update }
  | .closeWindow => run.closeWindow X M
  | .takePending =>
    { run with
      room := run.room.takePending.2
      taken := run.taken ++ [run.room.takePending.1] }

end AttributionRun

/-- A hydrated room under calls in any order. -/
def attribution {D B : Type} (X : ObservedDocs D B) (M : SequenceMatcher) (doc : D) :
    System (AttributionRun D) (RoomCall B) where
  init := { room := { doc }, closedText := X.text doc }
  step run call := some (run.step X M call)

/-! ## What users have -/

section Tally

open AttributedRoom

variable (p : UserId → Prop) [DecidablePred p]

/-- The lines added and removed of the users that `p` holds of. -/
def tally (d : Dict UserId (Nat × Nat)) : Nat × Nat := d.sum fun user share => if p user then share else 0

theorem tally_charge (pending : Dict UserId (Nat × Nat)) (item : UserId × (Nat × Nat)) :
    tally p (charge pending item) = tally p pending + if p item.1 then item.2 else 0 := by
  unfold tally charge
  cases hold : pending.get? item.1 with
  | none =>
    rw [Dict.sum_set_of_none hold, Option.getD_none, add_comm,
      show ((0, 0) : Nat × Nat) + item.2 = item.2 from zero_add _]
  | some old =>
    have hsum := Dict.sum_set_of_some (v := old + item.2)
      (f := fun user (share : Nat × Nat) => if p user then share else 0) hold
    rw [Option.getD_some]
    split
    · next hp =>
      rw [if_pos hp, if_pos hp, add_assoc] at hsum
      rw [add_left_cancel hsum, add_comm]
    · next hp =>
      rw [if_neg hp, if_neg hp, zero_add, zero_add] at hsum
      rw [hsum, add_zero]

theorem tally_foldl_charge (items : List (UserId × (Nat × Nat))) (pending : Dict UserId (Nat × Nat)) :
    tally p (items.foldl charge pending) =
      tally p pending + (items.map fun item => if p item.1 then item.2 else 0).sum := by
  induction items generalizing pending with
  | nil => simp
  | cons item rest ih => rw [List.foldl_cons, ih, tally_charge, List.map_cons, List.sum_cons, add_assoc]

theorem tally_takePending {D : Type} (room : AttributedRoom D) :
    tally p room.takePending.1 = tally p room.pending := by
  have hzero : ∀ user (share : Nat × Nat), decide (share ≠ (0, 0)) = false →
      (if p user then share else 0) = 0 := by
    intro user share hshare
    have hshare : share = (0, 0) := by simpa using hshare
    rw [hshare]
    exact ite_self 0
  exact Dict.sum_filterValues hzero

end Tally

/-! ## The invariant -/

/-- What the window charged in all. -/
def ClosedWindow.total (w : ClosedWindow) : Nat × Nat := w.shares.sum fun _ share => share

/-- The window charged the line counts between its ends, to users who changed something in it. -/
structure ClosedWindow.Charged (M : SequenceMatcher) (w : ClosedWindow) : Prop where
  total : ∃ first rest, w.edits = first :: rest ∧
    w.total = lineStats M first.before w.text
  authors : ∀ user ∈ w.shares.keys, ∃ e ∈ w.edits, e.user = user ∧ 1 ≤ e.changed

/-- Everything users have, taken or pending. -/
def AttributionRun.tally {D : Type} (p : UserId → Prop) [DecidablePred p] (run : AttributionRun D) :
    Nat × Nat :=
  (run.taken.map (Concord.tally p)).sum + Concord.tally p run.room.pending

/-- The shares of the open window can be computed. -/
def AttributedRoom.WindowFits {D B : Type} (X : ObservedDocs D B) (M : SequenceMatcher)
    (room : AttributedRoom D) : Prop :=
  room.windowAuthors.items.length ≤ 1 ∨
    (room.windowStats X M).1 < 2 ^ 53 ∧ (room.windowStats X M).2 < 2 ^ 53

structure AttributionInv {D B : Type} (X : ObservedDocs D B) (M : SequenceMatcher)
    (initial : List Char) (run : AttributionRun D) : Prop where
  authors : ∀ user w, (user, w) ∈ run.room.windowAuthors.items →
    0 < w ∧ ∃ e ∈ run.edits, e.user = user
  open_iff : run.room.windowAuthors.items = [] ↔ run.edits = []
  start : ∀ first rest, run.edits = first :: rest →
    run.room.windowText = some first.before ∧ first.before = run.closedText
  /-- While no window is open, the text is that of the last close. -/
  calm : run.edits = [] → X.text run.room.doc = run.closedText
  counted : ∀ e ∈ run.edits, 1 ≤ e.changed
  charged : ∀ w ∈ run.windows, w.Charged M
  held : ∀ (p : UserId → Prop) [DecidablePred p],
    run.tally p = (run.windows.map fun w => tally p w.shares).sum
  balance :
    (run.windows.map ClosedWindow.total).sum.1 + (splitlines initial).length =
      (run.windows.map ClosedWindow.total).sum.2 + (splitlines run.closedText).length

namespace AttributionInv

variable {D B : Type} {X : ObservedDocs D B} {M : SequenceMatcher} {initial : List Char}
  {run : AttributionRun D}

/-- What the shares of an open window add up to. -/
theorem sum_windowShares (h : AttributionInv X M initial run) {first : CountedEdit}
    {rest : List CountedEdit} (hedits : run.edits = first :: rest)
    (hfits : run.room.WindowFits X M) :
    ((run.room.windowShares X M).sum fun _ share => share) =
      lineStats M first.before (X.text run.room.doc) := by
  have hpos : 0 < run.room.windowAuthors.sum fun _ w => w := by
    cases hitems : run.room.windowAuthors.items with
    | nil =>
      rw [h.open_iff.1 hitems] at hedits
      cases hedits
    | cons item items =>
      have hitem := (h.authors item.1 item.2 (by simp [hitems])).1
      rw [Dict.sum, hitems, List.map_cons, List.sum_cons]
      omega
  have hstats : run.room.windowStats X M = lineStats M first.before (X.text run.room.doc) := by
    unfold AttributedRoom.windowStats
    rw [(h.start first rest hedits).1, Option.getD_some]
  rw [AttributedRoom.windowShares, sum_splitStats hpos hfits, hstats]

theorem closeWindow (h : AttributionInv X M initial run) (hfits : run.room.WindowFits X M) :
    AttributionInv X M initial (run.closeWindow X M) := by
  have hreset : (run.closeWindow X M).room.windowAuthors = ∅ := rfl
  have htext : X.text (run.closeWindow X M).room.doc = (run.closeWindow X M).closedText :=
    congrArg X.text (AttributedRoom.closeWindow_doc X M run.room)
  cases hedits : run.edits with
  | nil =>
    have hauthors := h.open_iff.2 hedits
    have hwindows : (run.closeWindow X M).windows = run.windows := by
      simp [AttributionRun.closeWindow, hedits]
    have hpending : (run.closeWindow X M).room.pending = run.room.pending := by
      simp [AttributionRun.closeWindow, AttributedRoom.closeWindow, AttributedRoom.resetWindow,
        hauthors]
    refine ⟨?_, iff_of_true rfl rfl, nofun, fun _ => htext, nofun, ?_, ?_, ?_⟩
    · intro user w hitem
      rw [hreset] at hitem
      cases hitem
    · rw [hwindows]
      exact h.charged
    · intro p _
      rw [hwindows, AttributionRun.tally, hpending]
      exact h.held p
    · rw [hwindows]
      have hbalance := h.balance
      rwa [← h.calm hedits] at hbalance
  | cons first rest =>
    have hopen : run.room.windowAuthors.items ≠ [] := by
      intro hnil
      rw [h.open_iff.1 hnil] at hedits
      cases hedits
    have hwindows : (run.closeWindow X M).windows =
        run.windows ++ [⟨run.edits, X.text run.room.doc, run.room.windowShares X M⟩] := by
      simp [AttributionRun.closeWindow, hedits]
    have hpending : (run.closeWindow X M).room.pending =
        (run.room.windowShares X M).items.foldl AttributedRoom.charge run.room.pending := by
      simp [AttributionRun.closeWindow, AttributedRoom.closeWindow, AttributedRoom.resetWindow,
        hopen]
    have hsum := h.sum_windowShares hedits hfits
    refine ⟨?_, iff_of_true rfl rfl, nofun, fun _ => htext, nofun, ?_, ?_, ?_⟩
    · intro user w hitem
      rw [hreset] at hitem
      cases hitem
    · rw [hwindows]
      intro w hw
      rcases List.mem_append.1 hw with hw | hw
      · exact h.charged w hw
      · rw [List.mem_singleton.1 hw]
        refine ⟨⟨first, rest, hedits, hsum⟩, ?_⟩
        intro user huser
        change user ∈ (splitStats _ _ _).keys at huser
        rw [keys_splitStats] at huser
        obtain ⟨⟨_, w⟩, hitem, rfl⟩ := List.mem_map.1 huser
        obtain ⟨e, he, heq⟩ := (h.authors _ w hitem).2
        exact ⟨e, he, heq, h.counted e he⟩
    · intro p _
      have hheld := h.held p
      unfold AttributionRun.tally at hheld ⊢
      rw [hwindows, hpending, tally_foldl_charge, List.map_append, List.sum_append, ← hheld,
        List.map_singleton, List.sum_singleton, ← add_assoc]
      rfl
    · -- the window's counts are the change of the text since the last close
      rw [hwindows, List.map_append, List.sum_append, List.map_singleton, List.sum_singleton,
        ClosedWindow.total, hsum]
      have hbalance := h.balance
      have hwindow := lineStats_balance M first.before (X.text run.room.doc)
      rw [← (h.start first rest hedits).2] at hbalance
      rw [Prod.fst_add, Prod.snd_add]
      change _ = _ + (splitlines (X.text run.room.doc)).length
      omega

theorem takePending (h : AttributionInv X M initial run) :
    AttributionInv X M initial (run.step X M .takePending) where
  authors := h.authors
  open_iff := h.open_iff
  start := h.start
  calm := h.calm
  counted := h.counted
  charged := h.charged
  balance := h.balance
  held p _ := by
    have hheld := h.held p
    unfold AttributionRun.tally at hheld ⊢
    change ((run.taken ++ [run.room.takePending.1]).map _).sum + Concord.tally p ∅ =
      (run.windows.map _).sum
    rw [List.map_append, List.sum_append, List.map_singleton, List.sum_singleton, tally_takePending,
      ← hheld]
    simp [Concord.tally]

/-- While the window stays open, only its own part of the invariant is at stake. -/
theorem setRoom (h : AttributionInv X M initial run) {room : AttributedRoom D}
    {edits : List CountedEdit} (hpending : room.pending = run.room.pending)
    (authors : ∀ user w, (user, w) ∈ room.windowAuthors.items → 0 < w ∧ ∃ e ∈ edits, e.user = user)
    (open_iff : room.windowAuthors.items = [] ↔ edits = [])
    (start : ∀ first rest, edits = first :: rest →
      room.windowText = some first.before ∧ first.before = run.closedText)
    (calm : edits = [] → X.text room.doc = run.closedText) (counted : ∀ e ∈ edits, 1 ≤ e.changed) :
    AttributionInv X M initial { run with
      room
      edits } :=
  ⟨authors, open_iff, start, calm, counted, h.charged, fun p _ => by
    have hheld := h.held p
    unfold AttributionRun.tally at hheld ⊢
    rwa [hpending], h.balance⟩

/-- The room once the text before the first edit of a window is noted. -/
theorem noted (h : AttributionInv X M initial run) :
    AttributionInv X M initial { run with room :=
      if run.room.windowAuthors.items.isEmpty then
        { run.room with windowText := some (X.text run.room.doc) }
      else run.room } := by
  split
  · next hempty =>
    have hedits := h.open_iff.1 (List.isEmpty_iff.1 hempty)
    apply h.setRoom
    · rfl
    · exact h.authors
    · exact h.open_iff
    · intro first rest hcons
      rw [hedits] at hcons
      cases hcons
    · exact h.calm
    · exact h.counted
  · exact h

/-- An update that changes the text joins the window, or opens one. -/
theorem count (h : AttributionInv X M initial run)
    (hnoted : run.edits = [] → run.room.windowText = some (X.text run.room.doc)) (now : Seconds)
    (userId : UserId) (doc : D) {changed : Nat} (hchanged : changed ≠ 0) :
    AttributionInv X M initial { run with
      room := { run.room with
        doc
        windowStarted := if run.room.windowAuthors.items.isEmpty then now else run.room.windowStarted
        windowAuthors :=
          run.room.windowAuthors.set userId ((run.room.windowAuthors.get? userId).getD 0 + changed)
        lastEdit := now
        lastAuthor := some userId }
      edits := run.edits ++ [⟨userId, changed, X.text run.room.doc⟩] } := by
  apply h.setRoom
  · rfl
  · intro user w hitem
    rcases Dict.mem_items_set.1 hitem with heq | ⟨hitem, -⟩
    · cases heq
      exact ⟨by omega, _, List.mem_append_right _ List.mem_cons_self, rfl⟩
    · obtain ⟨hw, e, he, heq⟩ := h.authors user w hitem
      exact ⟨hw, e, List.mem_append_left _ he, heq⟩
  · constructor
    · intro hnil
      have hmem := Dict.mem_items_set (d := run.room.windowAuthors) (k := userId)
        (v := (run.room.windowAuthors.get? userId).getD 0 + changed) |>.2 (.inl rfl)
      rw [hnil] at hmem
      cases hmem
    · intro hnil
      simp at hnil
  · intro first rest hcons
    cases hedits : run.edits with
    | nil =>
      rw [hedits] at hcons
      cases hcons
      exact ⟨hnoted hedits, h.calm hedits⟩
    | cons first' rest' =>
      rw [hedits] at hcons
      cases hcons
      exact h.start first rest' hedits
  · intro hnil
    simp at hnil
  · intro e he
    rcases List.mem_append.1 he with he | he
    · exact h.counted e he
    · rw [List.mem_singleton.1 he]
      exact Nat.one_le_iff_ne_zero.2 hchanged

theorem recordEdit (h : AttributionInv X M initial run) (now : Seconds) (userId : UserId)
    (update : B) :
    AttributionInv X M initial { run with
      room := (run.room.recordEdit X now userId update).2
      edits := run.edits ++ run.counted X userId update } := by
  have hinv := h.noted
  unfold AttributedRoom.recordEdit AttributionRun.counted
  generalize hroom : (if run.room.windowAuthors.items.isEmpty then
    { run.room with windowText := some (X.text run.room.doc) } else run.room) = noted at hinv ⊢
  have hdoc : noted.doc = run.room.doc := by
    rw [← hroom]
    split <;> rfl
  have hnoted : run.edits = [] → noted.windowText = some (X.text noted.doc) := by
    intro hedits
    rw [hdoc, ← hroom, if_pos (List.isEmpty_iff.2 (h.open_iff.2 hedits))]
  dsimp only
  rw [hdoc]
  cases happly : X.applyUpdateCounting run.room.doc update with
  | none =>
    simp only [List.append_nil]
    exact hinv
  | some result =>
    obtain ⟨doc, changed⟩ := result
    obtain ⟨_, hdoc', hresult⟩ := Option.map_eq_some_iff.1 happly
    cases hresult
    by_cases hzero : ((X.delta run.room.doc update).map DeltaOp.changed).sum = 0
    · -- the text is as it was
      simp only [hzero, if_true, List.append_nil]
      have htext := X.text_eq _ _ _ hdoc' hzero
      apply hinv.setRoom
      · rfl
      · exact hinv.authors
      · exact hinv.open_iff
      · exact hinv.start
      · intro hedits
        exact htext.trans (h.calm hedits)
      · exact hinv.counted
    · simp only [hzero, if_false]
      have hcount := hinv.count hnoted now userId doc hzero
      rw [hdoc] at hcount
      split
      · next hempty => simpa [hempty] using hcount
      · next hempty => simpa [hempty] using hcount

end AttributionInv

/-! ## The claim -/

section Claim

variable {D B : Type} {X : ObservedDocs D B} {M : SequenceMatcher} {doc : D}
  {run : AttributionRun D}

/-- The call closes the window. -/
def RoomCall.closes (room : AttributedRoom D) : RoomCall B → Bool
  | applyEdit now userId _ => room.switchesAuthor now userId
  | closeWindow => true
  | takePending => false

/-- A window of several authors that the call closes has fewer than `2 ^ 53` lines added and removed
each. -/
def RoomCall.Fits (X : ObservedDocs D B) (M : SequenceMatcher) (run : AttributionRun D)
    (call : RoomCall B) : Prop :=
  call.closes run.room = true → run.room.WindowFits X M

/-- A call may be made in any state. -/
theorem reachable_step (h : (attribution X M doc).Reachable run) (call : RoomCall B) :
    (attribution X M doc).Reachable (run.step X M call) :=
  System.Path.tail h (l := call) trivial rfl

theorem step_applyEdit (now : Seconds) (userId : UserId) (update : B) :
    run.step X M (.applyEdit now userId update) =
      (let closed := if run.room.switchesAuthor now userId then run.closeWindow X M else run
      { closed with
        room := (closed.room.recordEdit X now userId update).2
        edits := closed.edits ++ closed.counted X userId update }) := by
  have hcounted : (run.closeWindow X M).counted X userId update = run.counted X userId update := by
    unfold AttributionRun.counted
    rw [show (run.closeWindow X M).room.doc = run.room.doc from
      AttributedRoom.closeWindow_doc X M run.room]
  unfold AttributionRun.step AttributedRoom.applyEdit
  cases hswitch : run.room.switchesAuthor now userId with
  | true =>
    simp only [hswitch, if_true, hcounted]
    rfl
  | false =>
    simp only [hswitch]
    rfl

theorem attributionInv_of_reachable
    (h : (attribution X M doc).ReachableUnder (RoomCall.Fits X M) run) :
    AttributionInv X M (X.text doc) run := by
  apply h.induction
  · exact ⟨nofun, iff_of_true rfl rfl, nofun, fun _ => rfl, nofun, nofun,
      fun p _ => by simp [attribution, AttributionRun.tally, tally], rfl⟩
  · intro s call t _ hs hfits hstep
    cases hstep
    cases call with
    | applyEdit now userId update =>
      rw [step_applyEdit]
      cases hswitch : s.room.switchesAuthor now userId with
      | true => exact (hs.closeWindow (hfits hswitch)).recordEdit now userId update
      | false => exact hs.recordEdit now userId update
    | closeWindow => exact hs.closeWindow (hfits rfl)
    | takePending => exact hs.takePending

end Claim

/-- A document of `n` empty lines, to which an update adds some. -/
def emptyLines : ObservedDocs Nat Nat where
  text n := List.replicate n '\n'
  applyUpdate n k := some (n + k)
  delta n k := [.retain n, .insert (List.replicate k '\n')]
  text_eq n k n' h hzero := by
    cases h
    have hk : k = 0 := by simpa [DeltaOp.changed] using hzero
    rw [hk, Nat.add_zero]

/-- All lines of one text against all lines of the other. -/
def wholeMatcher : SequenceMatcher where
  getOpcodes a b :=
    if a.isEmpty then [⟨.insert, 0, 0, 0, b.length⟩] else [⟨.replace, 0, a.length, 0, b.length⟩]
  partition a b := by
    cases a with
    | nil => simp [Partition]
    | cons line rest => simp [Partition]

theorem splitlines_replicate (n : Nat) : splitlines (List.replicate n '\n') = List.replicate n [] := by
  induction n with
  | zero => rfl
  | succ n ih =>
    rw [List.replicate_succ, List.replicate_succ, ← ih]
    rfl

/-- Two users in turn have added `k` lines each. -/
def twoAuthors (k : Nat) : AttributionRun Nat where
  room :=
    { doc := k + k
      windowText := some []
      windowAuthors := ((∅ : Dict UserId Nat).set 1 k).set 2 k
      lastAuthor := some 2 }
  edits := [⟨1, k, []⟩, ⟨2, k, List.replicate k '\n'⟩]
  closedText := []

theorem twoAuthors_of_calls {k : Nat} (hk : k ≠ 0) :
    (((attribution emptyLines wholeMatcher 0).init.step emptyLines wholeMatcher
      (.applyEdit 0 1 k)).step emptyLines wholeMatcher (.applyEdit 0 2 k)) = twoAuthors k := by
  have hitems : ((∅ : Dict UserId Nat).set 1 k).items = [(1, k)] := rfl
  have hnew : ((∅ : Dict UserId Nat).set 1 k).get? 2 = none := rfl
  have hpause : ¬authorSwitchSeconds ≤ 0 := by norm_num [authorSwitchSeconds]
  simp [attribution, AttributionRun.step, AttributedRoom.applyEdit, AttributedRoom.switchesAuthor,
    AttributedRoom.recordEdit, ObservedDocs.applyUpdateCounting, emptyLines, DeltaOp.changed,
    AttributionRun.counted, hk, twoAuthors, hitems, hnew, hpause]

/-- The double nearest to `2 ^ 53 + 3` is `2 ^ 53 + 4`. -/
theorem sum_largestRemainder_halves :
    ((largestRemainder (((∅ : Dict UserId Nat).set 1 (2 ^ 53 + 3)).set 2 (2 ^ 53 + 3))
      (2 ^ 54 + 6)).sum fun _ share => share) = 2 ^ 54 + 8 := by
  have hfloor : ((floorShares (((∅ : Dict UserId Nat).set 1 (2 ^ 53 + 3)).set 2 (2 ^ 53 + 3))
      (2 ^ 54 + 6)).sum fun _ share => share) = 2 ^ 54 + 8 := by decide +kernel
  unfold largestRemainder
  dsimp only
  rw [hfloor, sliceTo_eq_nil, List.foldl_nil]
  · exact hfloor
  · norm_num
  · rw [List.length_mergeSort]
    decide +kernel

/-- What the two users have when the window is closed. -/
theorem tally_twoAuthors {k : Nat} (hk : k ≠ 0) :
    ((twoAuthors k).closeWindow emptyLines wholeMatcher).tally (fun _ => True) =
      ((largestRemainder (((∅ : Dict UserId Nat).set 1 k).set 2 k) (k + k)).sum fun _ share => share,
        0) := by
  have hstats : (twoAuthors k).room.windowStats emptyLines wholeMatcher = (k + k, 0) := by
    have hne : ([] : List Char) ≠ List.replicate (k + k) '\n' := by
      intro hnil
      have hlength := congrArg List.length hnil
      rw [List.length_replicate, List.length_nil] at hlength
      omega
    change lineStats wholeMatcher [] (List.replicate (k + k) '\n') = _
    rw [lineStats, if_neg hne, splitlines_replicate]
    simp [wholeMatcher, splitlines, splitlinesFrom, countOpcode]
  have hremoved : ((largestRemainder (((∅ : Dict UserId Nat).set 1 k).set 2 k) 0).sum
      fun _ share => share) = 0 := by
    apply sum_largestRemainder (by norm_num)
    change 0 < k + (k + 0)
    omega
  have hpending : ((twoAuthors k).closeWindow emptyLines wholeMatcher).room.pending =
      ((twoAuthors k).room.windowShares emptyLines wholeMatcher).items.foldl
        AttributedRoom.charge ∅ := rfl
  have hseveral : 1 < (((∅ : Dict UserId Nat).set 1 k).set 2 k).items.length := by
    change 1 < 2
    omega
  have hshares : ((splitStats (((∅ : Dict UserId Nat).set 1 k).set 2 k) (k + k) 0).sum
      fun _ share => share) = _ := sum_splitStats_of_several hseveral
  rw [hremoved] at hshares
  rw [AttributionRun.tally, hpending, tally_foldl_charge, AttributedRoom.windowShares, hstats,
    ← hshares]
  simp [AttributionRun.closeWindow, twoAuthors, tally, Dict.sum]

end Concord
