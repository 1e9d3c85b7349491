import Concord.Base.System
import Concord.Models
import Mathlib

/-!
# Who is in which file

A client announces the file that it has open on the socket of that file (`Editor.tsx`). The gateway relays this to the
pages of the project, and tells them when a user has no connection to a file any more (`collab_socket` of
`realtime/gateway.py`, `has_user` and `broadcast_to_project` of `realtime/manager.py`). A page folds what it receives
(`onStructuralUpdate` of `SessionPage.tsx`). As long as it has missed nothing, it shows a user only in a file to which
the user is connected (`presence_shown`), and what any other page shows of those who have announced a file to both
(`presence_agrees`).
-/

namespace Concord.FilePresence

open Concord.Base

/-- A `project_presence` message. -/
structure Message where
  userId : UserId
  fileId : Option FileId
  leftFileId : Option FileId := none
deriving DecidableEq, Repr

/-- Which file each user is shown in. -/
abbrev Presence := UserId → Option FileId

/-- What `onStructuralUpdate` does with a message. -/
def onMessage (prev : Presence) (msg : Message) : Presence :=
  match msg.fileId with
  | none =>
    if msg.leftFileId.isSome ∧ prev msg.userId ≠ msg.leftFileId then prev
    else Function.update prev msg.userId none
  | some file => Function.update prev msg.userId (some file)

/-- What a page shows that had shown `prev` and has received the messages. -/
def received (prev : Presence) (msgs : List Message) : Presence := msgs.foldl onMessage prev

/-- A connection to the room of a file. -/
structure FileSocket where
  userId : UserId
  fileId : FileId
deriving DecidableEq, Repr

/-- A page, with the queue of its project socket while this is open. -/
structure Page where
  presence : Presence := fun _ => none
  queue : Option (List Message) := some []
  /-- How many messages there were before it was opened. -/
  since : Nat
  /-- A message did not reach it, or its socket was closed for a while. -/
  missed : Bool := false

/-- What a page shows once it has received what is in its queue. -/
def Page.shown (page : Page) : Presence := received page.presence (page.queue.getD [])

/-- The connections to the files of a project, and its pages. -/
structure Site (W P : Type) where
  sockets : List (W × FileSocket) := []
  pages : P → Option Page := fun _ => none
  /-- What was broadcast to the project so far. -/
  sent : List Message := []

inductive Event (W P : Type)
  | attach (ws : W) (socket : FileSocket)
  /-- The client of a connection sends `project_presence`. -/
  | announce (ws : W)
  | detach (ws : W)
  | openPage (p : P)
  /-- The writer of a page's socket takes a message and sends it, which may fail. -/
  | writerSends (p : P) (reached : Bool)
  | disconnect (p : P)
  /-- The page connects again, and keeps what it shows. -/
  | reconnect (p : P)

namespace Site

variable {W P : Type} [DecidableEq W] [DecidableEq P] (s : Site W P)

/-- `has_user`. -/
def hasUser (user : UserId) (file : FileId) : Bool := s.sockets.any fun (_, c) => c.userId = user && c.fileId = file

/-- `broadcast_to_project`. -/
def broadcastToProject (msg : Message) : Site W P :=
  { s with
    pages := fun p => (s.pages p).map fun page => { page with queue := page.queue.map (· ++ [msg]) }
    sent := s.sent ++ [msg] }

def setPage (p : P) (page : Page) : Site W P := { s with pages := Function.update s.pages p (some page) }

/-- The end of `collab_socket`. -/
def leave (ws : W) (c : FileSocket) : Site W P :=
  let s := { s with sockets := s.sockets.filter (·.1 ≠ ws) }
  if s.hasUser c.userId c.fileId then s
  else s.broadcastToProject { userId := c.userId, fileId := none, leftFileId := some c.fileId }

/-- `_connection_writer` for one message. -/
def sendFirst (p : P) (reached : Bool) (page : Page) : List Message → Option (Site W P)
  | [] => none
  | msg :: rest =>
    if reached then some (s.setPage p { page with presence := onMessage page.presence msg, queue := some rest })
    else some (s.setPage p { page with queue := some rest, missed := true })

def step : Event W P → Option (Site W P)
  | .attach ws c => if (s.sockets.lookup ws).isSome then none else some { s with sockets := s.sockets ++ [(ws, c)] }
  | .announce ws =>
    (s.sockets.lookup ws).map fun c => s.broadcastToProject { userId := c.userId, fileId := some c.fileId }
  | .detach ws => (s.sockets.lookup ws).map (s.leave ws)
  | .openPage p => if (s.pages p).isSome then none else some (s.setPage p { since := s.sent.length })
  | .writerSends p reached => do
    let page ← s.pages p
    let queue ← page.queue
    s.sendFirst p reached page queue
  | .disconnect p => (s.pages p).map fun page => s.setPage p { page with queue := none, missed := true }
  | .reconnect p => (s.pages p).bind fun page =>
    if page.queue.isSome then none else some (s.setPage p { page with queue := some [] })

end Site

/-- The connections and pages of a project, from when the server starts. -/
def site (W P : Type) [DecidableEq W] [DecidableEq P] : System (Site W P) (Event W P) where
  init := {}
  step := Site.step

/-! ## Messages -/

section Messages

variable {prev other : Presence} {msg : Message} {msgs : List Message} {user : UserId} {file : FileId}

theorem onMessage_of_ne (h : msg.userId ≠ user) : onMessage prev msg user = prev user := by
  unfold onMessage
  cases msg.fileId with
  | none =>
    dsimp only
    split
    · rfl
    · exact Function.update_of_ne (Ne.symm h) _ _
  | some file => exact Function.update_of_ne (Ne.symm h) _ _

theorem onMessage_opened {left : Option FileId} : onMessage prev ⟨user, some file, left⟩ user = some file :=
  Function.update_self _ _ _

theorem received_append {later : List Message} :
    received prev (msgs ++ msg :: later) = received (onMessage (received prev msgs) msg) later := by
  rw [received, List.foldl_append, List.foldl_cons]
  rfl

theorem received_snoc : received prev (msgs ++ [msg]) = onMessage (received prev msgs) msg := received_append

/-- What a message makes of a user depends on the user only. -/
theorem onMessage_congr (h : prev user = other user) : onMessage prev msg user = onMessage other msg user := by
  by_cases hu : msg.userId = user
  · subst hu
    unfold onMessage
    rw [h]
    cases msg.fileId with
    | none =>
      dsimp only
      split
      · exact h
      · rw [Function.update_self, Function.update_self]
    | some file =>
      dsimp only
      rw [Function.update_self, Function.update_self]
  · rw [onMessage_of_ne hu, onMessage_of_ne hu, h]

theorem received_congr (h : prev user = other user) : received prev msgs user = received other msgs user := by
  induction msgs generalizing prev other with
  | nil => exact h
  | cons msg msgs ih => exact ih (onMessage_congr h)

/-- Once a user has announced a file, what was shown before does not matter. -/
theorem received_of_announced (hmem : msg ∈ msgs) (huser : msg.userId = user) (hfile : msg.fileId.isSome = true) :
    received prev msgs user = received other msgs user := by
  obtain ⟨before, after, rfl⟩ := List.append_of_mem hmem
  obtain ⟨file, hfile⟩ := Option.isSome_iff_exists.1 hfile
  have hshown : ∀ prev, onMessage prev msg user = some file := by
    intro prev
    simp [onMessage, hfile, ← huser]
  rw [received_append, received_append]
  exact received_congr ((hshown _).trans (hshown _).symm)

/-- The messages from some time on come after those of an earlier one. -/
theorem received_drop {k m : Nat} (hk : k ≤ m) :
    ∃ earlier, received prev (msgs.drop k) = received earlier (msgs.drop m) := by
  refine ⟨received prev ((msgs.drop k).take (m - k)), ?_⟩
  have hlater : msgs.drop m = (msgs.drop k).drop (m - k) := by
    rw [List.drop_drop]
    congr 1
    omega
  rw [hlater, received, received, received, ← List.foldl_append, List.take_append_drop]

/-- A message is about a file that is opened, or about one that is left. -/
def Message.Proper (msg : Message) : Prop := msg.fileId.isSome = msg.leftFileId.isNone

/-- The last file that a user has announced, and has not left since. -/
def Holds (msgs : List Message) (user : UserId) (file : FileId) : Prop :=
  ∃ before after, msgs = before ++ { userId := user, fileId := some file } :: after ∧
    ∀ msg ∈ after, msg.userId = user → msg.fileId = none ∧ msg.leftFileId ≠ some file

theorem Holds.snoc (h : Holds msgs user file)
    (hmsg : msg.userId = user → msg.fileId = none ∧ msg.leftFileId ≠ some file) : Holds (msgs ++ [msg]) user file := by
  obtain ⟨before, after, rfl, hafter⟩ := h
  refine ⟨before, after ++ [msg], by simp, fun other hother => ?_⟩
  rcases List.mem_append.1 hother with hother | hother
  · exact hafter other hother
  · obtain rfl := List.mem_singleton.1 hother
    exact hmsg

/-- The last message is the announcement, or came after it. -/
theorem Holds.of_snoc (h : Holds (msgs ++ [msg]) user file) :
    msg = { userId := user, fileId := some file } ∨
      Holds msgs user file ∧ (msg.userId = user → msg.fileId = none ∧ msg.leftFileId ≠ some file) := by
  obtain ⟨before, after, hsplit, hafter⟩ := h
  rcases List.eq_nil_or_concat after with rfl | ⟨after, last, rfl⟩
  · exact .inl (List.singleton_inj.1 (List.append_inj' hsplit rfl).2)
  · rw [List.concat_eq_append, ← List.cons_append, ← List.append_assoc] at hsplit
    obtain ⟨rfl, hlast⟩ := List.append_inj' hsplit rfl
    obtain rfl := List.singleton_inj.1 hlast
    rw [List.concat_eq_append] at hafter
    exact .inr ⟨⟨before, after, rfl, fun other hother => hafter other (List.mem_append_left _ hother)⟩,
      hafter msg (List.mem_append_right _ (List.mem_singleton.2 rfl))⟩

/-- The messages show a user in the last file announced, if it was not left since. -/
theorem received_iff (hproper : ∀ msg ∈ msgs, msg.Proper) :
    received (fun _ => none) msgs user = some file ↔ Holds msgs user file := by
  induction msgs using List.reverseRecOn with
  | nil =>
    refine ⟨fun hnone => (by cases hnone), ?_⟩
    rintro ⟨before, after, hsplit, -⟩
    simp at hsplit
  | append_singleton msgs msg ih =>
    have hih := ih fun other hother => hproper other (List.mem_append_left _ hother)
    have hmsg := hproper msg (List.mem_append_right _ (List.mem_singleton.2 rfl))
    rw [received_snoc]
    by_cases hu : msg.userId = user
    · obtain ⟨user', fileId, left⟩ := msg
      obtain rfl : user' = user := hu
      cases fileId with
      | some opened =>
        obtain rfl : left = none := by simpa [Message.Proper] using hmsg
        rw [onMessage_opened]
        refine ⟨fun heq => ?_, fun hholds => ?_⟩
        · obtain rfl := Option.some.inj heq
          exact ⟨msgs, [], rfl, fun _ hnone => by cases hnone⟩
        · rcases hholds.of_snoc with heq | ⟨-, hlater⟩
          · exact (Message.mk.inj heq).2.1
          · cases (hlater rfl).1
      | none =>
        obtain ⟨g, rfl⟩ : ∃ g, left = some g := by simpa [Message.Proper, Option.isSome_iff_exists] using hmsg
        refine ⟨fun hshown => ?_, fun hholds => ?_⟩
        · unfold onMessage at hshown
          dsimp only at hshown
          split at hshown
          · next hkeeps => exact (hih.1 hshown).snoc fun _ => ⟨rfl, fun heq => hkeeps.2 (hshown.trans heq.symm)⟩
          · rw [Function.update_self] at hshown
            cases hshown
        · rcases hholds.of_snoc with heq | ⟨hholds, hlater⟩
          · cases (Message.mk.inj heq).2.1
          · have hshown := hih.2 hholds
            have hkeeps : received (fun _ => none) msgs user' ≠ some g := fun heq =>
              (hlater rfl).2 (heq.symm.trans hshown)
            unfold onMessage
            dsimp only
            rw [if_pos ⟨rfl, hkeeps⟩]
            exact hshown
    · rw [onMessage_of_ne hu, hih]
      refine ⟨fun hholds => hholds.snoc fun heq => absurd heq hu, fun hholds => ?_⟩
      rcases hholds.of_snoc with rfl | ⟨hholds, -⟩
      · exact absurd rfl hu
      · exact hholds

end Messages

/-! ## Runs -/

section Invariant

variable {W P : Type} {s : Site W P}

/-- What holds of a page that has missed nothing. -/
structure Page.Kept (page : Page) (sent : List Message) : Prop where
  connected : ∃ queue, page.queue = some queue
  since : page.since ≤ sent.length
  shown : page.shown = received (fun _ => none) (sent.drop page.since)

/-- The invariant. -/
structure SiteInv (s : Site W P) : Prop where
  nodup : (s.sockets.map Prod.fst).Nodup
  proper : ∀ msg ∈ s.sent, msg.Proper
  kept : ∀ p page, s.pages p = some page → page.missed = false → page.Kept s.sent
  /-- Whatever part of the messages a page has received from some time on. -/
  connected : ∀ k user file, received (fun _ => none) (s.sent.drop k) user = some file → s.hasUser user file = true

theorem Page.Kept.receive {page : Page} {sent : List Message} (h : page.Kept sent) (msg : Message) :
    ({ page with queue := page.queue.map (· ++ [msg]) } : Page).Kept (sent ++ [msg]) := by
  obtain ⟨queue, hqueue⟩ := h.connected
  have hshown := h.shown
  refine ⟨⟨queue ++ [msg], by rw [hqueue]; rfl⟩, Nat.le_trans h.since (by simp), ?_⟩
  rw [Page.shown, hqueue, Option.getD_some] at hshown
  simp only [Page.shown, hqueue, Option.map_some, Option.getD_some]
  rw [List.drop_append_of_le_length h.since, received_snoc, received_snoc, hshown]

/-- A page changes, and nothing is sent. -/
theorem SiteInv.setPage [DecidableEq P] (h : SiteInv s) {p : P} {page : Page}
    (hkept : page.missed = false → page.Kept s.sent) :
    SiteInv (s.setPage p page) where
  nodup := h.nodup
  proper := h.proper
  kept q other hother hmissed := by
    change Function.update s.pages p (some page) q = some other at hother
    by_cases hq : q = p
    · subst hq
      rw [Function.update_self] at hother
      obtain rfl := Option.some.inj hother
      exact hkept hmissed
    · rw [Function.update_of_ne hq] at hother
      exact h.kept q other hother hmissed
  connected := h.connected

/-- A message is broadcast after which those who are shown are connected. -/
theorem SiteInv.broadcast (hnodup : (s.sockets.map Prod.fst).Nodup) (hproper : ∀ msg ∈ s.sent, msg.Proper)
    (hkept : ∀ p page, s.pages p = some page → page.missed = false → page.Kept s.sent)
    {msg : Message} (hmsg : msg.Proper) (hconnected : ∀ k user file,
      onMessage (received (fun _ => none) (s.sent.drop k)) msg user = some file → s.hasUser user file = true) :
    SiteInv (s.broadcastToProject msg) where
  nodup := hnodup
  proper other hother := by
    rcases List.mem_append.1 hother with hother | hother
    · exact hproper other hother
    · obtain rfl := List.mem_singleton.1 hother
      exact hmsg
  kept p page hpage hmissed := by
    obtain ⟨old, hold, rfl⟩ := Option.map_eq_some_iff.1 hpage
    exact (hkept p old hold hmissed).receive msg
  connected k user file hshown := by
    change received (fun _ => none) ((s.sent ++ [msg]).drop k) user = some file at hshown
    by_cases hk : k ≤ s.sent.length
    · rw [List.drop_append_of_le_length hk, received_snoc] at hshown
      exact hconnected k user file hshown
    · rw [List.drop_eq_nil_of_le (by simp; omega)] at hshown
      cases hshown

theorem hasUser_iff {user : UserId} {file : FileId} :
    s.hasUser user file = true ↔ ∃ ws, (ws, ⟨user, file⟩) ∈ s.sockets := by
  simp only [Site.hasUser, List.any_eq_true, Bool.and_eq_true, decide_eq_true_eq]
  constructor
  · rintro ⟨⟨ws, c⟩, hmem, rfl, rfl⟩
    exact ⟨ws, hmem⟩
  · rintro ⟨ws, hmem⟩
    exact ⟨(ws, ⟨user, file⟩), hmem, rfl, rfl⟩

theorem SiteInv.announce (h : SiteInv s) {ws : W} {c : FileSocket} (hmem : (ws, c) ∈ s.sockets) :
    SiteInv (s.broadcastToProject { userId := c.userId, fileId := some c.fileId }) := by
  refine SiteInv.broadcast h.nodup h.proper h.kept rfl fun k user file hshown => ?_
  by_cases hu : c.userId = user
  · subst hu
    rw [onMessage_opened] at hshown
    obtain rfl := Option.some.inj hshown
    exact hasUser_iff.2 ⟨ws, hmem⟩
  · rw [onMessage_of_ne hu] at hshown
    exact h.connected k user file hshown

variable [DecidableEq W]

theorem mem_of_lookup {ws : W} {c : FileSocket} (h : s.sockets.lookup ws = some c) : (ws, c) ∈ s.sockets := by
  obtain ⟨before, after, hsplit, -⟩ := List.lookup_eq_some_iff.1 h
  rw [hsplit]
  simp

/-- A connection that ends was one to its own file only. -/
theorem SiteInv.hasUser_filter (h : SiteInv s) {ws : W} {c : FileSocket} (hmem : (ws, c) ∈ s.sockets) {user : UserId}
    {file : FileId} (huser : s.hasUser user file = true) (hne : (⟨user, file⟩ : FileSocket) ≠ c) :
    ({ s with sockets := s.sockets.filter (·.1 ≠ ws) } : Site W P).hasUser user file = true := by
  obtain ⟨other, hother⟩ := hasUser_iff.1 huser
  refine hasUser_iff.2 ⟨other, List.mem_filter.2 ⟨hother, decide_eq_true fun heq => ?_⟩⟩
  -- a key stands in the list once
  have hsame := List.inj_on_of_nodup_map h.nodup hother hmem heq
  exact hne (Prod.mk.inj hsame).2

theorem SiteInv.leave (h : SiteInv s) {ws : W} {c : FileSocket} (hmem : (ws, c) ∈ s.sockets) :
    SiteInv (s.leave ws c) := by
  have hnodup : ((s.sockets.filter (·.1 ≠ ws)).map Prod.fst).Nodup :=
    h.nodup.sublist (List.filter_sublist.map _)
  unfold Site.leave
  dsimp only
  split
  · next hhas =>
    -- the user has another connection to the file
    refine ⟨hnodup, h.proper, h.kept, fun k user file hshown => ?_⟩
    by_cases heq : (⟨user, file⟩ : FileSocket) = c
    · subst heq
      exact hhas
    · exact h.hasUser_filter hmem (h.connected k user file hshown) heq
  · refine SiteInv.broadcast (s := { s with sockets := s.sockets.filter (·.1 ≠ ws) }) hnodup h.proper h.kept rfl
      fun k user file hshown => ?_
    -- whoever is shown in this file is shown in none from now on
    by_cases heq : (⟨user, file⟩ : FileSocket) = c
    · subst heq
      unfold onMessage at hshown
      dsimp only at hshown
      split at hshown
      · next hkeeps => exact absurd hshown hkeeps.2
      · rw [Function.update_self] at hshown
        cases hshown
    · refine h.hasUser_filter hmem (h.connected k user file ?_) heq
      unfold onMessage at hshown
      dsimp only at hshown
      split at hshown
      · exact hshown
      · by_cases hu : user = c.userId
        · subst hu
          rw [Function.update_self] at hshown
          cases hshown
        · rwa [Function.update_of_ne hu] at hshown

end Invariant

section Runs

variable {W P : Type} [DecidableEq W] [DecidableEq P] {s t : Site W P}

/-- A step keeps the invariant. -/
theorem SiteInv.step (h : SiteInv s) {e : Event W P} (hs : s.step e = some t) : SiteInv t := by
  cases e with
  | attach ws c =>
    simp only [Site.step] at hs
    split at hs
    · cases hs
    · next hnew =>
      obtain rfl := Option.some.inj hs
      refine ⟨?_, h.proper, h.kept, fun k user file hshown => ?_⟩
      · have hnot : ws ∉ s.sockets.map Prod.fst := by
          intro hmem
          obtain ⟨socket, hsocket, rfl⟩ := List.mem_map.1 hmem
          exact hnew (List.lookup_isSome_iff.2 ⟨socket, hsocket, BEq.rfl⟩)
        rw [List.map_append, List.map_singleton]
        exact List.nodup_append.2 ⟨h.nodup, List.nodup_singleton _, fun ws' hws' w hw => by
          obtain rfl := List.mem_singleton.1 hw
          rintro rfl
          exact hnot hws'⟩
      · obtain ⟨other, hother⟩ := hasUser_iff.1 (h.connected k user file hshown)
        exact hasUser_iff.2 ⟨other, List.mem_append_left _ hother⟩
  | announce ws =>
    obtain ⟨c, hc, rfl⟩ := Option.map_eq_some_iff.1 hs
    exact h.announce (mem_of_lookup hc)
  | detach ws =>
    obtain ⟨c, hc, rfl⟩ := Option.map_eq_some_iff.1 hs
    exact h.leave (mem_of_lookup hc)
  | openPage p =>
    simp only [Site.step] at hs
    split at hs
    · cases hs
    · obtain rfl := Option.some.inj hs
      refine h.setPage fun _ => ⟨⟨[], rfl⟩, Nat.le_refl _, ?_⟩
      rw [List.drop_length]
      rfl
  | writerSends p reached =>
    obtain ⟨page, hpage, hs⟩ := Option.bind_eq_some_iff.1 hs
    obtain ⟨queue, hqueue, hs⟩ := Option.bind_eq_some_iff.1 hs
    cases queue with
    | nil => cases hs
    | cons msg rest =>
      cases reached with
      | true =>
        obtain rfl := Option.some.inj hs
        refine h.setPage fun hmissed => ?_
        have hkept := h.kept p page hpage hmissed
        refine ⟨⟨rest, rfl⟩, hkept.since, ?_⟩
        rw [← hkept.shown, Page.shown, Page.shown, hqueue]
        rfl
      | false =>
        obtain rfl := Option.some.inj hs
        exact h.setPage fun hmissed => by cases hmissed
  | disconnect p =>
    obtain ⟨page, hpage, rfl⟩ := Option.map_eq_some_iff.1 hs
    exact h.setPage fun hmissed => by cases hmissed
  | reconnect p =>
    obtain ⟨page, hpage, hs⟩ := Option.bind_eq_some_iff.1 hs
    split at hs
    · cases hs
    · next hclosed =>
      obtain rfl := Option.some.inj hs
      refine h.setPage fun hmissed => ?_
      obtain ⟨queue, hqueue⟩ := (h.kept p page hpage hmissed).connected
      rw [hqueue] at hclosed
      exact absurd rfl hclosed

theorem inv_of_reachable (h : (site W P).Reachable s) : SiteInv s := by
  refine h.induction (P := SiteInv) ⟨List.nodup_nil, fun _ hnone => ?_, fun _ _ hnone => ?_, fun k _ _ hshown => ?_⟩
    fun s e t _ hinv _ hs => hinv.step hs
  · cases hnone
  · cases hnone
  · change received (fun _ => none) (([] : List Message).drop k) _ = _ at hshown
    rw [List.drop_nil] at hshown
    cases hshown

/-- **A page shows who is where.** A page that has missed nothing shows a user, once it has received what is on its way,
in the last file that the user has announced since it was opened, unless the user has left the file since; and whoever
is shown in a file is connected to it. -/
theorem presence_shown (h : (site W P).Reachable s) {p : P} {page : Page} (hpage : s.pages p = some page)
    (hmissed : page.missed = false) (user : UserId) (file : FileId) :
    (page.shown user = some file ↔ Holds (s.sent.drop page.since) user file) ∧
      (page.shown user = some file → s.hasUser user file = true) := by
  have hinv := inv_of_reachable h
  rw [(hinv.kept p page hpage hmissed).shown]
  exact ⟨received_iff fun msg hmsg => hinv.proper msg (List.mem_of_mem_drop hmsg), hinv.connected _ user file⟩

/-- **The pages agree.** Two pages that have missed nothing show the same of a user who has announced a file since both
were opened, once they have received what is on its way. -/
theorem presence_agrees (h : (site W P).Reachable s) {p q : P} {page other : Page} (hpage : s.pages p = some page)
    (hother : s.pages q = some other) (hmissed : page.missed = false) (hmissed' : other.missed = false) {msg : Message}
    (hmsg : msg ∈ s.sent.drop (max page.since other.since)) (hfile : msg.fileId.isSome = true) :
    page.shown msg.userId = other.shown msg.userId := by
  have hinv := inv_of_reachable h
  rw [(hinv.kept p page hpage hmissed).shown, (hinv.kept q other hother hmissed').shown]
  have hlater : ∀ k, k ≤ max page.since other.since → ∃ earlier, received (fun _ => none) (s.sent.drop k) =
      received earlier (s.sent.drop (max page.since other.since)) := fun _ hk => received_drop hk
  obtain ⟨earlier, hearlier⟩ := hlater page.since (Nat.le_max_left _ _)
  obtain ⟨earlier', hearlier'⟩ := hlater other.since (Nat.le_max_right _ _)
  rw [hearlier, hearlier']
  exact received_of_announced hmsg rfl hfile

end Runs

/-- Ada opens a file, then Bob's page is opened, she announces the file, and the page hears of it. -/
def adaOpens : List (Event Nat Nat) :=
  [.attach 0 ⟨1, 5⟩, .openPage 0, .announce 0, .writerSends 0 true]

/-- The page 0 shows user 1 in file 5, and has missed something or not. -/
def showsAda (missed : Bool) (s : Site Nat Nat) : Bool :=
  (s.pages 0).any fun page => page.missed = missed && page.shown 1 = some 5

theorem presence_shown_ada : ∃ (s : Site Nat Nat) (page : Page), (site Nat Nat).Reachable s ∧ s.pages 0 = some page ∧
    page.shown 1 = some 5 ∧ Holds (s.sent.drop page.since) 1 5 ∧ s.hasUser 1 5 = true := by
  have hrun : ((site Nat Nat).replay System.anyStep (site Nat Nat).init adaOpens).any (showsAda false) = true := by
    decide
  obtain ⟨s, hs, hshows⟩ := System.exists_reachable hrun
  obtain ⟨page, hpage, hshows⟩ := (Option.any_eq_true _ _).1 hshows
  obtain ⟨hmissed, hshown⟩ := (Bool.and_eq_true _ _).mp hshows
  obtain ⟨hexact, hconnected⟩ := presence_shown hs hpage (of_decide_eq_true hmissed) 1 5
  have hshown : page.shown 1 = some 5 := of_decide_eq_true hshown
  exact ⟨s, page, hs, hpage, hshown, hexact.1 hshown, hconnected hshown⟩

/-- A page that was away when she left the file shows her there from then on. -/
example : ((site Nat Nat).replay System.anyStep (site Nat Nat).init
    (adaOpens ++ [.disconnect 0, .detach 0, .reconnect 0])).any
      (fun s => showsAda true s && !s.hasUser 1 5) = true := by decide

/-- Two pages are open when she announces the file, and one of them has not heard of it. -/
def twoPages : List (Event Nat Nat) :=
  [.openPage 0, .attach 0 ⟨1, 5⟩, .openPage 1, .announce 0, .writerSends 0 true]

theorem presence_agrees_ada : ∃ (s : Site Nat Nat) (page other : Page), (site Nat Nat).Reachable s ∧
    s.pages 0 = some page ∧ s.pages 1 = some other ∧ page.shown 1 = other.shown 1 := by
  have hrun : ((site Nat Nat).replay System.anyStep (site Nat Nat).init twoPages).any (fun s =>
      (s.pages 0).any fun page => (s.pages 1).any fun other => decide (page.missed = false ∧ other.missed = false ∧
        ({ userId := 1, fileId := some 5 } : Message) ∈ s.sent.drop (max page.since other.since))) = true := by
    decide
  obtain ⟨s, hs, hpages⟩ := System.exists_reachable hrun
  obtain ⟨page, hpage, hpages⟩ := (Option.any_eq_true _ _).1 hpages
  obtain ⟨other, hother, hpages⟩ := (Option.any_eq_true _ _).1 hpages
  obtain ⟨hmissed, hmissed', hmsg⟩ := of_decide_eq_true hpages
  exact ⟨s, page, other, hs, hpage, hother, presence_agrees hs hpage hother hmissed hmissed' hmsg rfl⟩

end Concord.FilePresence
