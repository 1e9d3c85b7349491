import Concord.Realtime.Snapshots

/-!
# Restoring a snapshot

`restore_snapshot` sets every text as the snapshot has it, changes no other file, and the safety snapshot
brings everything back. What it reports is the number of files whose text differed once their rooms were
loaded; that is the number of files whose text differed, unless a room that was never loaded holds a text
(`restoreSnapshot_exact_iff`).
-/

namespace Concord

open Concord.Base

variable {U B : Type} [DecidableEq U] [DecidableEq B] {C : Pycrdt U B} {p : Pid} {st : Hub U B}
  {f : FileId} {r : RoomRef}

/-- The request answers `a` in `st'`. -/
def Responds {α : Type} (x : SnapshotPy U B α) (st : SnapshotState U B) (a : α)
    (st' : SnapshotState U B) : Prop :=
  x.run st = some (.ok a, st')

section Responds

variable {α β : Type} {x : SnapshotPy U B α} {s s' s'' : SnapshotState U B} {a : α} {b : β}

omit [DecidableEq U] [DecidableEq B] in
theorem Responds.pure (a : α) (s : SnapshotState U B) : Responds (Pure.pure a) s a s := rfl

omit [DecidableEq U] [DecidableEq B] in
theorem Responds.get (s : SnapshotState U B) : Responds MonadState.get s s s := rfl

omit [DecidableEq U] [DecidableEq B] in
theorem Responds.set (s s' : SnapshotState U B) : Responds (MonadState.set s') s () s' := rfl

omit [DecidableEq U] [DecidableEq B] in
theorem Responds.bind {f : α → SnapshotPy U B β} (h : Responds x s a s') (hf : Responds (f a) s' b s'') :
    Responds (x >>= f) s b s'' := by
  change (x.run s).bind _ = _
  rw [h]
  exact hf

omit [DecidableEq B] in
theorem Responds.onHub {y : RoomPy B α} {env' : Nat → RoomEnv B} {hub' : Hub U B}
    (h : Ends (roomExec C p) y (s.env, s.hub) a (env', hub')) :
    Responds (onHub C p y) s a { s with hub := hub', env := env' } := by
  change (y.run.alone (roomExec C p) (s.env, s.hub)).map _ = _
  rw [h]
  rfl

end Responds

/-- The text that a stored content restores to. -/
def contentText (C : Pycrdt U B) (content : B) : List Char :=
  C.text ((C.docFromBytes content).getD ∅)

/-- What the rows of a snapshot are: contents of different files. -/
structure Snapshot.Proper (C : Pycrdt U B) (S : Snapshot B) : Prop where
  distinct : (S.files.map (·.1)).Nodup
  encoded : ∀ sf ∈ S.files, ∃ doc, sf.2 = C.docToBytes doc

omit [DecidableEq B] in
theorem Loaded.current (h : Calm C st) (hl : Loaded st f r) : st.current C f = (st.room r).doc := by
  rw [← Hub.file_of_registered? hl.registered]
  exact current_of_hydrated h.keys (Hub.mem_of_registered? hl.registered) hl.hydrated

section Restore

variable {s : SnapshotState U B} {user : UserId}

variable (user) in
/-- One file more: it gets its text, and counts if it had another one once its room was loaded. -/
theorem restoreFiles_cons (hexact : ∀ doc target, C.Restores doc target) (h : Calm C s.hub)
    {content : B} (hcontent : ∃ doc, content = C.docToBytes doc) (f : FileId) :
    ∃ env' hub', Calm C hub' ∧ Elsewhere f s.hub hub' ∧
      hub'.fileText C f = contentText C content ∧ ∀ rest n out t,
        Responds (restoreFiles C p user rest
          (if C.text (s.hub.openedDoc C f) ≠ contentText C content then n + 1 else n))
          { s with hub := hub', env := env' } out t →
        Responds (restoreFiles C p user ((f, content) :: rest) n) s out t := by
  obtain ⟨doc, rfl⟩ := hcontent
  have htarget : contentText C (C.docToBytes doc) = C.text doc := by simp [contentText]
  obtain ⟨r, env₁, hub₁, hopen, hcalm₁, helse₁, hloaded₁, hdoc₁⟩ := openRoom_ends (p := p) h f s.env
  obtain ⟨env₂, hub₂, hreplace, hcalm₂, helse₂, hloaded₂, htext₂⟩ :=
    replaceText_ends (p := p) hcalm₁ hloaded₁ (C.text doc) user (hexact _ _) env₁
  rw [hdoc₁] at hreplace
  rw [htarget]
  by_cases hchanged : C.text (s.hub.openedDoc C f) ≠ C.text doc
  · obtain ⟨result, env₃, hub₃, hsave, hcalm₃, helse₃, hloaded₃, hroom₃⟩ :=
      saveRoom_ends (p := p) hcalm₂ hloaded₂ user env₂
    refine ⟨env₃, hub₃, hcalm₃, (helse₁.trans helse₂).trans helse₃, ?_, fun rest n out t hrest => ?_⟩
    · rw [Hub.fileText, hloaded₃.current hcalm₃, hroom₃, htext₂]
    · rw [if_pos hchanged] at hrest
      rw [decide_eq_true hchanged] at hreplace
      refine Responds.bind (Responds.onHub hopen) ?_
      rw [Pycrdt.docFromBytes_docToBytes]
      exact Responds.bind (Responds.onHub hreplace) (Responds.bind (Responds.onHub hsave) hrest)
  · refine ⟨env₂, hub₂, hcalm₂, helse₁.trans helse₂, ?_, fun rest n out t hrest => ?_⟩
    · rw [Hub.fileText, hloaded₂.current hcalm₂, htext₂]
    · rw [if_neg hchanged] at hrest
      rw [decide_eq_false hchanged] at hreplace
      refine Responds.bind (Responds.onHub hopen) ?_
      rw [Pycrdt.docFromBytes_docToBytes]
      exact Responds.bind (Responds.onHub hreplace) hrest

variable (user) in
/-- The files get their texts and no other file changes. -/
theorem restoreFiles_responds (hexact : ∀ doc target, C.Restores doc target)
    {files : List (FileId × B)} (h : Calm C s.hub) (hdistinct : (files.map (·.1)).Nodup)
    (hencoded : ∀ sf ∈ files, ∃ doc, sf.2 = C.docToBytes doc) (n : Nat) :
    ∃ env' hub', Responds (restoreFiles C p user files n) s
        (n + files.countP fun sf => C.text (s.hub.openedDoc C sf.1) ≠ contentText C sf.2)
        { s with hub := hub', env := env' } ∧ Calm C hub' ∧
      (∀ sf ∈ files, hub'.fileText C sf.1 = contentText C sf.2) ∧
      ∀ g, g ∉ files.map (·.1) → hub'.fileText C g = s.hub.fileText C g := by
  induction files generalizing s n with
  | nil => exact ⟨s.env, s.hub, Responds.pure n s, h, nofun, fun _ _ => rfl⟩
  | cons sf files ih =>
    obtain ⟨f, content⟩ := sf
    rw [List.map_cons, List.nodup_cons] at hdistinct
    obtain ⟨env₁, hub₁, hcalm₁, helse₁, htext₁, hcons⟩ := restoreFiles_cons user
      hexact h (hencoded (f, content) List.mem_cons_self) f
    obtain ⟨env', hub', hreturns, hcalm, htexts, hothers⟩ := ih (s := { s with hub := hub₁, env := env₁ })
      hcalm₁ hdistinct.2 (fun sf hsf => hencoded sf (List.mem_cons_of_mem _ hsf))
      (if C.text (s.hub.openedDoc C f) ≠ contentText C content then n + 1 else n)
    have hne : ∀ sf ∈ files, sf.1 ≠ f := by
      rintro sf hsf rfl
      exact hdistinct.1 (List.mem_map.2 ⟨sf, hsf, rfl⟩)
    refine ⟨env', hub', ?_, hcalm, ?_, ?_⟩
    · have hcount : (files.countP fun sf => C.text (hub₁.openedDoc C sf.1) ≠ contentText C sf.2) =
          files.countP fun sf => C.text (s.hub.openedDoc C sf.1) ≠ contentText C sf.2 :=
        List.countP_congr fun sf hsf => by rw [helse₁.openedDoc (hne sf hsf)]
      rw [hcount] at hreturns
      refine hcons files n _ _ ?_
      rw [List.countP_cons]
      convert hreturns using 1
      by_cases hchanged : C.text (s.hub.openedDoc C f) ≠ contentText C content
      · rw [if_pos hchanged, if_pos (decide_eq_true hchanged)]
        omega
      · rw [if_neg hchanged, if_neg (by simpa using hchanged)]
        omega
    · intro sf hsf
      rcases List.mem_cons.1 hsf with rfl | hsf
      · rw [hothers f hdistinct.1, ← htext₁]
      · exact htexts sf hsf
    · intro g hg
      rw [List.map_cons, List.mem_cons, not_or] at hg
      rw [hothers g hg.2, Hub.fileText, helse₁.current hg.1]
      rfl

/-- The text in a room that was never loaded, of a file without versions. -/
def Hub.strayText? (C : Pycrdt U B) (st : Hub U B) (f : FileId) : Option (List Char) :=
  (st.registered? f).bind fun r =>
    if (st.room r).hydrated = false ∧ Pycrdt.latest (st.versions f) = none then
      some (C.text (st.room r).doc)
    else none

omit [DecidableEq B] in
/-- Loading a room gives the file's text, except for a room that holds a stray one. -/
theorem openedText_eq (st : Hub U B) (f : FileId) :
    C.text (st.openedDoc C f) = (st.strayText? C f).getD (st.fileText C f) := by
  unfold Hub.openedDoc Hub.strayText? Hub.fileText Hub.current
  cases st.registered? f with
  | none => rfl
  | some r =>
    cases hhyd : (st.room r).hydrated with
    | true => simp [hhyd]
    | false =>
      cases hlatest : Pycrdt.latest (st.versions f) with
      | none => simp [hhyd]
      | some v => simp [hhyd, hlatest, Pycrdt.latestContent]

omit [DecidableEq B] in
theorem fileText_of_strayText? (hempty : C.text ∅ = []) {text : List Char}
    (h : st.strayText? C f = some text) : st.fileText C f = [] := by
  unfold Hub.strayText? at h
  obtain ⟨r, hreg, h⟩ := Option.bind_eq_some_iff.1 h
  split at h
  · next hstray => simp [Hub.fileText, Hub.current, hreg, hstray.1, Pycrdt.latestContent, hstray.2,
      hempty]
  · cases h

/-- The files that the count takes too many: their room holds a stray text, and the snapshot none. -/
def strayEmptied (C : Pycrdt U B) (st : Hub U B) (sf : FileId × B) : Bool :=
  (st.strayText? C sf.1).any (· ≠ []) && decide (contentText C sf.2 = [])

/-- The files that the count misses: their room holds the snapshot's text as a stray one. -/
def strayKept (C : Pycrdt U B) (st : Hub U B) (sf : FileId × B) : Bool :=
  decide (contentText C sf.2 ≠ []) && decide (st.strayText? C sf.1 = some (contentText C sf.2))

omit [DecidableEq B] in
theorem count_opened (hempty : C.text ∅ = []) (st : Hub U B) (sf : FileId × B) :
    (if C.text (st.openedDoc C sf.1) ≠ contentText C sf.2 then 1 else 0) +
        (if strayKept C st sf = true then 1 else 0) =
      (if st.fileText C sf.1 ≠ contentText C sf.2 then 1 else 0) +
        (if strayEmptied C st sf = true then 1 else 0) := by
  unfold strayKept strayEmptied
  rw [openedText_eq]
  obtain ⟨target, htarget⟩ : ∃ target, contentText C sf.2 = target := ⟨_, rfl⟩
  rw [htarget]
  cases hstray : st.strayText? C sf.1 with
  | none => simp
  | some text =>
    rw [fileText_of_strayText? hempty hstray, Option.getD_some]
    by_cases hsame : text = target
    · by_cases hnil : target = []
      · simp [hsame, hnil]
      · simp [hsame, hnil, Ne.symm hnil]
    · by_cases hnil : target = []
      · simp [hnil, hnil ▸ hsame]
      · simp [hsame, hnil, Ne.symm hnil]

omit [DecidableEq B] in
theorem countP_opened (hempty : C.text ∅ = []) (st : Hub U B) (files : List (FileId × B)) :
    (files.countP fun sf => C.text (st.openedDoc C sf.1) ≠ contentText C sf.2) +
        files.countP (strayKept C st) =
      (files.countP fun sf => st.fileText C sf.1 ≠ contentText C sf.2) +
        files.countP (strayEmptied C st) := by
  induction files with
  | nil => rfl
  | cons sf files ih =>
    have hone := count_opened hempty st sf
    simp only [List.countP_cons, decide_eq_true_eq]
    omega

/-- Whether the user may restore snapshots of the project. -/
def SnapshotState.canEdit (s : SnapshotState U B) (projectId : ProjectId) (user : UserId) : Bool :=
  (s.members.find? fun m => m.projectId = projectId ∧ m.userId = user).any fun m =>
    m.role ∈ [Role.owner, Role.editor, Role.debugger]

omit [DecidableEq U] [DecidableEq B] in
theorem requireOwnerOrEditor_responds {projectId : ProjectId} (h : s.canEdit projectId user = true) :
    Responds (requireOwnerOrEditor projectId user) s () s := by
  obtain ⟨member, hfind, hrole⟩ := (Option.any_eq_true _ _).1 h
  refine Responds.bind (Responds.get s) ?_
  rw [hfind]
  dsimp only
  rw [if_pos (of_decide_eq_true hrole)]
  exact Responds.pure () s

/-- What a request needs to restore `S`: nothing else is going on, and the user may edit. -/
structure Restorable (C : Pycrdt U B) (s : SnapshotState U B) (S : Snapshot B) (user : UserId) :
    Prop where
  calm : Calm C s.hub
  ids : (s.projectFiles S.projectId).Nodup
  stored : s.snapshots S.id = some S
  proper : S.Proper C
  editor : s.canEdit S.projectId user = true

/-- The snapshot that `_take_snapshot` makes. -/
def SnapshotState.taken (C : Pycrdt U B) (s : SnapshotState U B) (projectId : ProjectId)
    (label : String) (user : UserId) : Snapshot B where
  id := s.nextSnapshot
  projectId := projectId
  label := label
  createdBy := user
  files := (s.projectFiles projectId).map fun f => (f, (s.hub.content? C f).getD (C.docToBytes ∅))

omit [DecidableEq B] in
/-- A snapshot holds the text of every file. -/
theorem contentText_content? (h : Calm C st) (f : FileId) :
    (∃ doc, (st.content? C f).getD (C.docToBytes ∅) = C.docToBytes doc) ∧
      contentText C ((st.content? C f).getD (C.docToBytes ∅)) = st.fileText C f := by
  have hstored : (∃ doc, ((Pycrdt.latest (st.versions f)).map (·.snapshotBytes)).getD
        (C.docToBytes ∅) = C.docToBytes doc) ∧
      contentText C (((Pycrdt.latest (st.versions f)).map (·.snapshotBytes)).getD (C.docToBytes ∅)) =
        C.text (C.latestContent (st.versions f)) := by
    cases hlatest : Pycrdt.latest (st.versions f) with
    | none => exact ⟨⟨∅, rfl⟩, by simp [contentText, Pycrdt.latestContent, hlatest]⟩
    | some v =>
      obtain ⟨doc, hdoc⟩ := h.encoded f v (Pycrdt.mem_of_latest hlatest)
      exact ⟨⟨doc, hdoc⟩, by
        simp [contentText, Pycrdt.latestContent, hlatest, hdoc, Pycrdt.content_of_encoded hdoc]⟩
  unfold Hub.content? Hub.fileText Hub.current
  cases st.registered? f with
  | none => exact hstored
  | some r =>
    cases hhyd : (st.room r).hydrated with
    | true => exact ⟨⟨(st.room r).doc, by simp [hhyd]⟩, by simp [contentText, hhyd]⟩
    | false => simpa [hhyd] using hstored

omit [DecidableEq B] in
theorem taken_proper (h : Calm C s.hub) {projectId : ProjectId}
    (hids : (s.projectFiles projectId).Nodup) (label : String) :
    (s.taken C projectId label user).Proper C := by
  refine ⟨?_, fun sf hsf => ?_⟩
  · simpa [SnapshotState.taken, Function.comp_def] using hids
  · obtain ⟨f, -, rfl⟩ := List.mem_map.1 hsf
    exact (contentText_content? h f).1

/-- What `restore_snapshot` does when it returns: the snapshot's files, the safety snapshot. -/
theorem restoreSnapshot_responds (hexact : ∀ doc target, C.Restores doc target) {S : Snapshot B}
    (h : Restorable C s S user) :
    ∃ s', Responds (restoreSnapshot C p S.projectId S.id user) s
        ⟨S.id, S.files.countP fun sf => C.text (s.hub.openedDoc C sf.1) ≠ contentText C sf.2,
          s.nextSnapshot⟩ s' ∧
      Calm C s'.hub ∧ s'.projectFiles = s.projectFiles ∧ s'.members = s.members ∧
      s'.snapshots s.nextSnapshot = some (s.taken C S.projectId (safetyLabel S.label) user) ∧
      (∀ sf ∈ S.files, s'.hub.fileText C sf.1 = contentText C sf.2) ∧
      ∀ g, g ∉ S.files.map (·.1) → s'.hub.fileText C g = s.hub.fileText C g := by
  obtain ⟨s₁, hs₁⟩ : ∃ s₁ : SnapshotState U B,
    { s with
      snapshots := Function.update s.snapshots s.nextSnapshot
        (some (s.taken C S.projectId (safetyLabel S.label) user))
      nextSnapshot := s.nextSnapshot + 1 } = s₁ := ⟨_, rfl⟩
  have htake : Responds (takeSnapshot C S.projectId (safetyLabel S.label) user) s
      (s.taken C S.projectId (safetyLabel S.label) user) s₁ := by
    rw [← hs₁]
    exact Responds.bind (Responds.get s) (Responds.bind (Responds.set s _) (Responds.pure _ _))
  have hhub : s₁.hub = s.hub := hs₁ ▸ rfl
  obtain ⟨env', hub', hrestore, hcalm, htexts, hothers⟩ := restoreFiles_responds user
    (s := s₁) hexact (hhub ▸ h.calm) h.proper.distinct h.proper.encoded 0
  rw [hhub, Nat.zero_add] at hrestore
  refine ⟨{ s₁ with
    hub := { hub' with borrowed := hub'.borrowed.filter (·.1 ≠ p) }, env := fun n => env' (n + 1) },
    ?_, ⟨hcalm.keys, hcalm.known, hcalm.unlocked, hcalm.checkpoint, hcalm.tx, hcalm.encoded⟩,
    hs₁ ▸ rfl, hs₁ ▸ rfl, ?_, htexts, fun g hg => ?_⟩
  · refine Responds.bind (requireOwnerOrEditor_responds h.editor) (Responds.bind (Responds.get s) ?_)
    rw [h.stored]
    dsimp only
    rw [if_neg (not_not_intro rfl)]
    refine Responds.bind htake (Responds.bind hrestore (Responds.bind (Responds.onHub (a := ()) ?_)
      (Responds.pure _ _)))
    exact Ends.call rfl
  · rw [← hs₁]
    exact Function.update_self _ _ _
  · rw [← hhub]
    exact hothers g hg

/-- What the restore of a snapshot promises. -/
structure RestoredExactly (C : Pycrdt U B) (S : Snapshot B) (s s' : SnapshotState U B)
    (out : SnapshotRestoreOut) : Prop where
  texts : ∀ sf ∈ S.files, s'.hub.fileText C sf.1 = contentText C sf.2
  others : ∀ g, g ∉ S.files.map (·.1) → s'.hub.fileText C g = s.hub.fileText C g
  count : out.restoredFiles = S.files.countP fun sf => s.hub.fileText C sf.1 ≠ contentText C sf.2
  /-- Whoever restores the safety snapshot next brings every text back. -/
  undo : ∀ q user', s.canEdit S.projectId user' = true → ∃ out' s'',
    Responds (restoreSnapshot C q S.projectId out.safetySnapshotId user') s' out' s'' ∧
      ∀ f ∈ s.projectFiles S.projectId, s''.hub.fileText C f = s.hub.fileText C f

/-- **A snapshot restore is exact and can be undone**, and its count is right if and only if as many
files are counted for a stray text of their room as are missed for one. -/
theorem restoreSnapshot_exact_iff (hempty : C.text ∅ = [])
    (hexact : ∀ doc target, C.Restores doc target) {S : Snapshot B} (h : Restorable C s S user) :
    (∃ out s', Responds (restoreSnapshot C p S.projectId S.id user) s out s' ∧
      RestoredExactly C S s s' out) ↔
    S.files.countP (strayEmptied C s.hub) = S.files.countP (strayKept C s.hub) := by
  obtain ⟨s', hreturns, hcalm, hfiles, hmembers, hsafety, htexts, hothers⟩ :=
    restoreSnapshot_responds (p := p) hexact h
  have hcount := countP_opened hempty s.hub S.files
  constructor
  · rintro ⟨out, t, hout, hexactly⟩
    unfold Responds at hreturns hout
    rw [hreturns] at hout
    cases hout
    have hc := hexactly.count
    dsimp only at hc
    omega
  · intro hstray
    refine ⟨_, s', hreturns, htexts, hothers, ?_, fun q user' heditor => ?_⟩
    · dsimp only
      omega
    · have hrestorable : Restorable C s' (s.taken C S.projectId (safetyLabel S.label) user) user' := by
        refine ⟨hcalm, ?_, hsafety, taken_proper h.calm h.ids _, ?_⟩
        · rw [hfiles]
          exact h.ids
        · unfold SnapshotState.canEdit
          rw [hmembers]
          exact heditor
      obtain ⟨s'', hreturns', -, -, -, -, htexts', -⟩ :=
        restoreSnapshot_responds (p := q) hexact hrestorable
      refine ⟨_, s'', hreturns', fun f hf => ?_⟩
      rw [← (contentText_content? h.calm f).2]
      exact htexts' (f, _) (List.mem_map_of_mem hf)

end Restore

/-! ## Runs -/

/-- Documents that keep their past texts, with positions that count characters. -/
def charRevisions : Pycrdt Revision (Finset Revision) :=
  { revisions with
    delete := fun doc start stop =>
      some (revise doc ((latestText doc).take start ++ (latestText doc).drop stop))
    insert := fun doc start new =>
      some (revise doc ((latestText doc).take start ++ new ++ (latestText doc).drop start)) }

theorem charRevisions_editScratch (doc : Finset Revision) (target : List Char) :
    ∃ edited, charRevisions.editScratch doc target
        (diff (charRevisions.text doc) target).kept.length
        ((diff (charRevisions.text doc) target).kept.length +
          (diff (charRevisions.text doc) target).removed.length)
        ((diff (charRevisions.text doc) target).kept.length +
          (diff (charRevisions.text doc) target).inserted.length) = some edited ∧
      doc ⊆ edited ∧ latestText edited = target := by
  have hdoc : charRevisions.text doc = latestText doc := rfl
  rw [hdoc]
  have hins := Pycrdt.inserted_eq (latestText doc) target
  have hold := diff_old (latestText doc) target
  have hnew := diff_new (latestText doc) target
  obtain ⟨⟨kept, removed, inserted, rest⟩, hdiff⟩ : ∃ d, diff (latestText doc) target = d := ⟨_, rfl⟩
  rw [hdiff] at hins hold hnew ⊢
  dsimp only at hins hold hnew ⊢
  have hcut : ∃ cut, (if kept.length < kept.length + removed.length then
        charRevisions.delete doc kept.length (kept.length + removed.length) else some doc) =
      some cut ∧ doc ⊆ cut ∧ latestText cut = kept ++ rest := by
    by_cases hr : removed = []
    · subst hr
      exact ⟨doc, by simp, fun _ hx => hx, hold.symm⟩
    · have hlen : kept.length < kept.length + removed.length := by
        have hpos := List.length_pos_iff.2 hr
        omega
      refine ⟨_, if_pos hlen, Finset.subset_insert _ _, ?_⟩
      rw [latestText_revise, ← hold, List.take_left, ← List.append_assoc, ← List.length_append,
        List.drop_left]
  obtain ⟨cut, hcut, hsub, htext⟩ := hcut
  unfold Pycrdt.editScratch
  rw [hcut, Option.bind_some]
  by_cases hi : inserted = []
  · subst hi
    exact ⟨cut, by simp, hsub, htext.trans hnew⟩
  · have hlen : kept.length < kept.length + inserted.length := by
      have hpos := List.length_pos_iff.2 hi
      omega
    refine ⟨_, if_pos hlen, hsub.trans (Finset.subset_insert _ _), ?_⟩
    rw [latestText_revise, Nat.add_sub_cancel_left, hins, htext, List.take_left, List.drop_left,
      List.append_assoc, hnew]

theorem charRevisions_restores (doc : Finset Revision) (target : List Char) :
    charRevisions.Restores doc target := by
  by_cases heq : charRevisions.text doc = target
  · have hnone : charRevisions.textEditUpdate doc target = .ok none := if_pos heq
    rw [Pycrdt.Restores, hnone]
    exact heq
  · obtain ⟨edited, hedit, hsub, htext⟩ := charRevisions_editScratch doc target
    have hsome : charRevisions.textEditUpdate doc target = .ok (some (edited \ doc)) := by
      unfold Pycrdt.textEditUpdate
      rw [if_neg heq]
      simp only [Pycrdt.start_eq, Pycrdt.ends_eq, Pycrdt.docFromBytes_docToBytes, Option.getD_some]
      rw [hedit]
      rfl
    rw [Pycrdt.Restores, hsome]
    refine ⟨heq, edited \ doc, rfl, ?_⟩
    rw [Finset.union_sdiff_of_subset hsub]
    exact htext

/-- The owner of a project with one file, and a snapshot of it. -/
def ownedBy (hub : Hub Revision (Finset Revision)) (content : Finset Revision) :
    SnapshotState Revision (Finset Revision) where
  hub := hub
  env := fun _ => {}
  projectFiles := fun _ => [0]
  members := [⟨0, 0, .owner⟩]
  snapshots := fun n => if n = 0 then some ⟨0, 0, "before", 0, [(0, content)]⟩ else none
  nextSnapshot := 1

/-- A hub without rooms, with one version of every file. -/
def savedHub : Hub Revision (Finset Revision) where
  versions _ := [{ versionNumber := 1, snapshotBytes := typed "new", createdAt := 0 }]

/-- The file has a stored version, and nobody has it open. -/
theorem restore_of_a_closed_file :
    ∃ out s', Responds (restoreSnapshot charRevisions 1 0 0 0) (ownedBy savedHub (typed "old")) out s' ∧
      RestoredExactly charRevisions ⟨0, 0, "before", 0, [(0, typed "old")]⟩
        (ownedBy savedHub (typed "old")) s' out := by
  have hrestorable : Restorable charRevisions (ownedBy savedHub (typed "old"))
      ⟨0, 0, "before", 0, [(0, typed "old")]⟩ 0 := by
    refine ⟨⟨by decide, nofun, nofun, rfl, fun _ => rfl, fun f v _ => ⟨v.snapshotBytes, rfl⟩⟩,
      by decide, rfl, ⟨by decide, fun sf _ => ⟨sf.2, rfl⟩⟩, by decide⟩
  exact (restoreSnapshot_exact_iff rfl charRevisions_restores hrestorable).2 (by decide)

/-- No stored versions. -/
def noRevisions : Stored charRevisions where
  versions _ := []
  forward _ := .nil

/-- The room is evicted while its first connection loads it, so the connection edits a room that is
never loaded. The restore of a snapshot with the file's empty text then counts the file. -/
theorem restore_counts_a_stray_text :
    ∃ cfg : RealtimeConfig Revision (Finset Revision),
      (realtime charRevisions noRevisions).system.Reachable cfg ∧
        ∃ out s', Responds (restoreSnapshot charRevisions 2 0 0 0) (ownedBy cfg.shared ∅) out s' ∧
          ¬RestoredExactly charRevisions ⟨0, 0, "before", 0, [(0, ∅)]⟩ (ownedBy cfg.shared ∅) s' out := by
  have hrun : ((realtime charRevisions noRevisions).system.replay System.anyStep
      (realtime charRevisions noRevisions).system.init
      (List.flatten
        [[.spawn 0 (.collabSocket 0 0 .editor 1), .run 0 {}, .spawn 1 (.cleanupUnusedRooms 300),
          .run 1 { now := 301 }],
        List.replicate 6 (.run 0 { now := 301 }), [.run 0 { now := 302, message := .update (typed "x") }],
        List.replicate 4 (.run 0 { now := 302 })])).any
      (fun cfg : RealtimeConfig Revision (Finset Revision) =>
        ((restoreSnapshot charRevisions 2 0 0 0).run (ownedBy cfg.shared ∅)).any fun result =>
          match result.1 with
          | .ok out => decide (out.restoredFiles = 1 ∧ cfg.shared.fileText charRevisions 0 = [])
          | .error _ => false) = true := by decide +kernel
  obtain ⟨cfg, hcfg, hrestore⟩ := System.exists_reachable hrun
  obtain ⟨⟨result, s'⟩, hreturns, hout⟩ := (Option.any_eq_true _ _).1 hrestore
  cases result with
  | error e => cases hout
  | ok out =>
    obtain ⟨hone, htext⟩ := of_decide_eq_true hout
    refine ⟨cfg, hcfg, out, s', hreturns, fun h => ?_⟩
    have hcontent : contentText charRevisions (∅ : Finset Revision) = [] := by decide
    have hcount := h.count
    rw [hone, List.countP_eq_zero.2] at hcount
    · cases hcount
    · intro sf hsf
      rw [List.mem_singleton.1 hsf, hcontent, decide_eq_true_eq, not_not]
      exact htext

end Concord
