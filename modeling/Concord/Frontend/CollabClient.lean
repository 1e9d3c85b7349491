import Mathlib

/-!
# The editor's connection to a file

`connectCollab` of `ws.ts`, with documents and updates as the sets of pieces they hold. A piece is a character that
some client has inserted, numbered by the clock of that client, or the deletion of such a character.

When the first frame of a connection is there, the client sends back what the server lacks. It asks Yjs for its
document from the state vector of the frame on, which has no deletions: all deletions of the document are sent
again. So nothing is kept back (`subset_union_encodeStateAsUpdate`), but a client with nothing new is silent only
while nothing has ever been deleted (`onFirstFrame_silent_iff`).
-/

namespace Concord.Collab

/-! ## Documents -/

/-- A piece of a Yjs document. -/
inductive Item
  | inserted (client clock : Nat)
  | deleted (client clock : Nat)
deriving DecidableEq, Repr

/-- A document or an update, by its pieces. -/
abbrev Doc := Finset Item

def Item.isStruct : Item → Bool
  | inserted _ _ => true
  | deleted _ _ => false

/-- `structs` of `Y.decodeUpdate`. -/
def structs (update : Doc) : Doc := update.filter fun item => item.isStruct = true

/-- `ds` of `Y.decodeUpdate`. -/
def deleteSet (update : Doc) : Doc := update.filter fun item => item.isStruct = false

def hasContent (update : Doc) : Bool := 0 < (structs update).card || 0 < (deleteSet update).card

/-- `Y.encodeStateVectorFromUpdate`: how many characters of a client there are before the first gap. -/
def stateVector (update : Doc) (client : Nat) : Nat :=
  ((List.range update.card).takeWhile fun clock => .inserted client clock ∈ update).length

/-- A piece that the state vector does not cover. It never covers a deletion. -/
def Item.isBeyond (sv : Nat → Nat) : Item → Bool
  | inserted client clock => sv client ≤ clock
  | deleted _ _ => true

/-- `Y.encodeStateAsUpdate`. -/
def encodeStateAsUpdate (doc : Doc) (sv : Nat → Nat) : Doc := doc.filter fun item => item.isBeyond sv = true

/-- The documents there can be: clients insert and delete, each in what it knows of the document, and hear of each
other. -/
inductive History : Doc → Prop
  | empty : History ∅
  | insert {doc : Doc} (client : Nat) (h : History doc) :
    History (insert (.inserted client (stateVector doc client)) doc)
  | delete {doc : Doc} {client clock : Nat} (hmem : .inserted client clock ∈ doc) (h : History doc) :
    History (insert (.deleted client clock) doc)
  | merge {doc doc' : Doc} (h : History doc) (h' : History doc') : History (doc ∪ doc')

section Documents

variable {doc frame update : Doc} {client clock : Nat}

theorem hasContent_eq_false_iff : hasContent update = false ↔ update = ∅ := by
  have hcover : structs update ∪ deleteSet update = update := by
    ext item
    cases hitem : item.isStruct <;> simp [structs, deleteSet, hitem]
  rw [hasContent, Bool.or_eq_false_iff, decide_eq_false_iff_not, decide_eq_false_iff_not, Nat.not_lt, Nat.not_lt,
    Nat.le_zero, Nat.le_zero, Finset.card_eq_zero, Finset.card_eq_zero]
  constructor
  · rintro ⟨hstructs, hdeleted⟩
    rw [← hcover, hstructs, hdeleted, Finset.union_empty]
  · rintro rfl
    exact ⟨rfl, rfl⟩

theorem inserted_mem_of_lt (h : clock < stateVector update client) : .inserted client clock ∈ update := by
  have hclock := (List.takeWhile_prefix (p := fun clock => decide (Item.inserted client clock ∈ update))
    (l := List.range update.card)).getElem h
  rw [List.getElem_range] at hclock
  have hmem := List.mem_takeWhile_imp (List.getElem_mem h)
  rw [hclock] at hmem
  exact of_decide_eq_true hmem

/-- What a client has is covered by what it is told and what it sends back. -/
theorem subset_union_encodeStateAsUpdate (doc frame : Doc) :
    doc ⊆ frame ∪ encodeStateAsUpdate doc (stateVector frame) := by
  intro item hitem
  rw [Finset.mem_union, encodeStateAsUpdate, Finset.mem_filter]
  cases item with
  | deleted client clock => exact .inr ⟨hitem, rfl⟩
  | inserted client clock =>
    rcases Nat.lt_or_ge clock (stateVector frame client) with hlt | hge
    · exact .inl (inserted_mem_of_lt hlt)
    · exact .inr ⟨hitem, decide_eq_true hge⟩

/-- A client's characters are inserted one after the other. -/
theorem History.inserted_mem (h : History doc) (hmem : .inserted client clock ∈ doc) {earlier : Nat}
    (hearlier : earlier < clock) : .inserted client earlier ∈ doc := by
  induction h with
  | empty => cases hmem
  | @insert doc writer h ih =>
    refine Finset.mem_insert_of_mem ?_
    rcases Finset.mem_insert.1 hmem with hnew | hold
    · obtain ⟨rfl, rfl⟩ := Item.inserted.inj hnew
      exact inserted_mem_of_lt hearlier
    · exact ih hold
  | delete _ h ih =>
    rcases Finset.mem_insert.1 hmem with hnew | hold
    · cases hnew
    · exact Finset.mem_insert_of_mem (ih hold)
  | merge h h' ih ih' =>
    rcases Finset.mem_union.1 hmem with hmem | hmem
    · exact Finset.mem_union_left _ (ih hmem)
    · exact Finset.mem_union_right _ (ih' hmem)

/-- The state vector of a document covers all its characters. -/
theorem History.lt_stateVector (h : History doc) (hmem : .inserted client clock ∈ doc) :
    clock < stateVector doc client := by
  have hall : ∀ earlier ∈ List.range (clock + 1), decide (.inserted client earlier ∈ doc) = true := by
    intro earlier hearlier
    rcases Nat.lt_succ_iff_lt_or_eq.1 (List.mem_range.1 hearlier) with hlt | rfl
    · exact decide_eq_true (h.inserted_mem hmem hlt)
    · exact decide_eq_true hmem
  have hcard : clock + 1 ≤ doc.card := by
    have hinj : Set.InjOn (Item.inserted client) (Finset.range (clock + 1)) :=
      fun _ _ _ _ heq => (Item.inserted.inj heq).2
    rw [← Finset.card_range (clock + 1), ← Finset.card_image_of_injOn hinj]
    refine Finset.card_le_card fun item hitem => ?_
    obtain ⟨earlier, hearlier, rfl⟩ := Finset.mem_image.1 hitem
    exact of_decide_eq_true (hall earlier (List.mem_range.2 (Finset.mem_range.1 hearlier)))
  obtain ⟨later, hlater⟩ := Nat.exists_eq_add_of_le hcard
  rw [stateVector, hlater, List.range_add, List.takeWhile_append_of_pos hall, List.length_append, List.length_range]
  omega

end Documents

/-! ## The client -/

inductive SyncStatus
  | connecting
  | syncing
  | synced
  | offline
  | denied
deriving DecidableEq, Repr

/-- `ws.readyState`. -/
inductive ReadyState
  | connecting
  | opened
  | closing
  | closed
deriving DecidableEq, Repr

inductive ClientMessage
  | hello
  | update (data : Doc)
  /-- A cursor, a ping or a pong. -/
  | other
deriving DecidableEq

inductive ServerMessage
  /-- A binary frame: the server's document, or an update of somebody else. -/
  | binary (update : Doc)
  | ack
  | error
  | ping
  /-- Cursors and events. -/
  | other
deriving DecidableEq

/-- A connection to a file. Before `connectCollab` it waits to connect, as after a drop. -/
structure Client where
  doc : Doc := ∅
  readyState : ReadyState := .closed
  status : SyncStatus := .connecting
  closed : Bool := false
  /-- The current socket has delivered the server's state. -/
  synced : Bool := false
  unacked : Nat := 0
  /-- `connect` is about to be called. -/
  retryTimer : Bool := true
deriving DecidableEq

namespace Client

variable (c : Client)

def settle : Client := { c with status := if 0 < c.unacked then .syncing else .synced }

def sendUpdate (update : Doc) : Client × List ClientMessage :=
  (settle { c with unacked := c.unacked + 1 }, [.update update])

def connect : Client :=
  { c with readyState := .connecting, synced := false, unacked := 0, retryTimer := false }

/-- The socket is open. -/
def onOpen : Client × List ClientMessage := ({ c with readyState := .opened }, [.hello, .other])

/-- The first frame of the socket is taken for the server's whole document. -/
def onFirstFrame (update : Doc) : Client × List ClientMessage :=
  let c := { c with synced := true }
  let missing := encodeStateAsUpdate c.doc (stateVector update)
  let (c, sent) := if hasContent missing then c.sendUpdate missing else (c, [])
  (c.settle, sent)

/-- A message of the server. -/
def onMessage : ServerMessage → Client × List ClientMessage
  | .binary update =>
    let c := { c with doc := c.doc ∪ update }
    if c.synced then (c, []) else c.onFirstFrame update
  | .ack =>
    let c := { c with unacked := c.unacked - 1 }
    (if c.synced then c.settle else c, [])
  | .ping => (c, [.other])
  | .error | .other => (c, [])

/-- `doc.on("update")`, of an edit of one's own. -/
def onUpdate (update : Doc) : Client × List ClientMessage :=
  let c := { c with doc := c.doc ∪ update }
  if c.synced ∧ c.readyState = .opened then c.sendUpdate update else (c, [])

/-- The socket is closed. -/
def onClose (code : Nat) : Client :=
  let c := { c with readyState := .closed }
  if c.closed then c
  else if code = 1008 then { c with status := .denied }
  else { c with status := .offline, retryTimer := true }

/-- `close`. -/
def close : Client :=
  { c with
    closed := true
    retryTimer := false
    readyState := if c.readyState = .closed then .closed else .closing }

variable {c} {update : Doc}

theorem onMessage_binary_of_synced (h : c.synced = true) (update : Doc) :
    c.onMessage (.binary update) = ({ c with doc := c.doc ∪ update }, []) := if_pos h

theorem onMessage_binary_of_unsynced (h : c.synced = false) (update : Doc) :
    c.onMessage (.binary update) = onFirstFrame { c with doc := c.doc ∪ update } update :=
  if_neg (Bool.eq_false_iff.1 h)

theorem onMessage_ack_of_synced (h : c.synced = true) :
    c.onMessage .ack = (settle { c with unacked := c.unacked - 1 }, []) := Prod.ext (if_pos h) rfl

theorem onMessage_ack_of_unsynced (h : c.synced = false) :
    c.onMessage .ack = ({ c with unacked := c.unacked - 1 }, []) := Prod.ext (if_neg (Bool.eq_false_iff.1 h)) rfl

/-- The first frame brings a client that has nothing new to `synced`, with nothing sent, if and only if nothing was
ever deleted. -/
theorem onFirstFrame_silent_iff (hupdate : History update) (hnothing : c.doc ⊆ update)
    (hunacked : c.unacked = 0) :
    (({ c with doc := c.doc ∪ update } : Client).onFirstFrame update).2 = [] ∧
        (({ c with doc := c.doc ∪ update } : Client).onFirstFrame update).1.status = .synced ↔
      ∀ client clock, Item.deleted client clock ∉ update := by
  have hdoc : c.doc ∪ update = update := Finset.union_eq_right.2 hnothing
  have hmissing : encodeStateAsUpdate update (stateVector update) = ∅ ↔
      ∀ client clock, Item.deleted client clock ∉ update := by
    rw [encodeStateAsUpdate, Finset.filter_eq_empty_iff]
    constructor
    · intro hall client clock hmem
      exact hall hmem rfl
    · intro hall item hmem
      cases item with
      | deleted client clock => exact absurd hmem (hall client clock)
      | inserted client clock =>
        exact fun hbeyond => (hupdate.lt_stateVector hmem).not_ge (of_decide_eq_true hbeyond)
  rw [← hmissing, ← hasContent_eq_false_iff, hdoc]
  unfold onFirstFrame
  dsimp only
  cases hcontent : hasContent (encodeStateAsUpdate update (stateVector update)) with
  | true => exact iff_of_false (fun h => List.cons_ne_nil _ _ h.1) (by simp)
  | false => exact iff_of_true ⟨rfl, by simp [settle, hunacked]⟩ rfl

end Client

end Concord.Collab
