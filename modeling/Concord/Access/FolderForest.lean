import Concord.Access.Folders
import Concord.Access.Rules

/-!
# The folder graph stays a forest

`update_folder` walks from the new parent to the root, and writes later. Two moves can each be legal
when they are checked and make a loop together: `A` goes below `B` while `B` goes below `A`. A move is
safe if no folder of the path it has checked has come below the moved folder in the meantime.

A request remembers of which project the folders are that it has read, which stays true of them: ids
are not used again, and no folder changes its project.
-/

namespace Concord.Access

open Concord.Base Async

namespace Store

/-- The parents of the folders there are. -/
def parents (t : Store) (id : FolderId) : Option (Option FolderId) :=
  (t.folders.get? id).map (·.parentFolderId)

/-- From the folder the parents lead to the root of the project, through folders of the project. -/
inductive AtHome (t : Store) (project : ProjectId) : FolderId → Prop
  | root {id : FolderId} {row : Folder} (h : t.folders.get? id = some row)
      (hproject : row.projectId = project) (hparent : row.parentFolderId = none) : AtHome t project id
  | child {id parent : FolderId} {row : Folder} (h : t.folders.get? id = some row)
      (hproject : row.projectId = project) (hparent : row.parentFolderId = some parent)
      (hhome : AtHome t project parent) : AtHome t project id

/-- The parent chain of every folder ends at the root and stays inside the folder's project. -/
def FoldersAtHome (t : Store) : Prop :=
  ∀ id row, t.folders.get? id = some row → t.AtHome row.projectId id

/-- A folder and its parent are of one project. -/
def SameProject (t : Store) : Prop :=
  ∀ id row parent above, t.folders.get? id = some row → row.parentFolderId = some parent →
    t.folders.get? parent = some above → above.projectId = row.projectId

/-- The ids in use are below the next one. -/
def FoldersFresh (t : Store) : Prop := ∀ id, (t.folders.get? id).isSome → id < t.nextFolder

/-- The folder with this id is of the project, while there is one. -/
def IsOf (t : Store) (id : FolderId) (project : ProjectId) : Prop :=
  id < t.nextFolder ∧ ∀ row, t.folders.get? id = some row → row.projectId = project

structure Grove (t : Store) : Prop where
  forest : IsForest t.parents
  project : t.SameProject
  fresh : t.FoldersFresh

/-- What was known of folders is still known. -/
def StillOf (t t' : Store) : Prop := ∀ id project, t.IsOf id project → t'.IsOf id project

/-- No folder of the path that a move has checked has come below the moved folder. -/
def keepsPath (t : Store) : Write → Prop
  | .updateFolder id _ (some (some _)) visits => Undisturbed t.parents id visits
  | _ => True

variable {t t' : Store}

theorem parents_eq_some {id : FolderId} {parent : Option FolderId} :
    t.parents id = some parent ↔
      ∃ row, t.folders.get? id = some row ∧ row.parentFolderId = parent := by
  simp [parents]

theorem isSome_parents {id : FolderId} : (t.parents id).isSome = (t.folders.get? id).isSome := by
  simp [parents]

/-- In a forest of folders whose parents are of their project, every folder is at home. -/
theorem Grove.foldersAtHome (h : t.Grove) : t.FoldersAtHome := by
  have hrooted : ∀ id, Rooted t.parents id → ∀ row, t.folders.get? id = some row →
      t.AtHome row.projectId id := by
    intro id hid
    induction hid with
    | @root id hid =>
      intro row hrow
      obtain ⟨row', hrow', hparent⟩ := parents_eq_some.1 hid
      obtain rfl := Option.some.inj (hrow.symm.trans hrow')
      exact .root hrow rfl hparent
    | @child id parent hid hparent ih =>
      intro row hrow
      obtain ⟨row', hrow', hparent'⟩ := parents_eq_some.1 hid
      obtain rfl := Option.some.inj (hrow.symm.trans hrow')
      have hsome := hparent.isSome
      rw [isSome_parents] at hsome
      obtain ⟨above, habove⟩ := Option.isSome_iff_exists.1 hsome
      have hproject := h.project id row parent above hrow hparent' habove
      exact .child hrow rfl hparent' (hproject ▸ ih above habove)
  intro id row hrow
  exact hrooted id (h.forest id (by rw [isSome_parents, hrow]; rfl)) row hrow

/-- What is at home is in a forest. -/
theorem FoldersAtHome.forest (h : t.FoldersAtHome) : IsForest t.parents := by
  have hrooted : ∀ project id, t.AtHome project id → Rooted t.parents id := by
    intro project id hid
    induction hid with
    | root hrow _ hparent => exact .root (parents_eq_some.2 ⟨_, hrow, hparent⟩)
    | child hrow _ hparent _ ih => exact .child (parents_eq_some.2 ⟨_, hrow, hparent⟩) ih
  intro id hid
  rw [isSome_parents] at hid
  obtain ⟨row, hrow⟩ := Option.isSome_iff_exists.1 hid
  exact hrooted row.projectId id (h id row hrow)

theorem FoldersAtHome.grove (h : t.FoldersAtHome) (hfresh : t.FoldersFresh) : t.Grove where
  forest := h.forest
  project id row parent above hrow hparent habove := by
    have hsame : ∀ project, t.AtHome project parent → above.projectId = project := by
      intro project hhome
      cases hhome with
      | root h hproject _ | child h hproject _ _ =>
        obtain rfl := Option.some.inj (habove.symm.trans h)
        exact hproject
    cases h id row hrow with
    | root h _ hnone =>
      obtain rfl := Option.some.inj (hrow.symm.trans h)
      rw [hparent] at hnone
      cases hnone
    | child h _ hsome hhome =>
      obtain rfl := Option.some.inj (hrow.symm.trans h)
      rw [hparent] at hsome
      obtain rfl := Option.some.inj hsome
      exact hsame _ hhome
  fresh := hfresh

/-! ## What the writes do to the forest -/

theorem attached_iff {folders : Dict FolderId Folder} {row : Folder} :
    attached folders row = true ↔ ∀ parent ∈ row.parentFolderId, (folders.get? parent).isSome := by
  unfold attached
  cases row.parentFolderId <;> simp

/-- A new folder with a parent of its project. -/
theorem Grove.insertFolder (h : t.Grove) {row : Folder}
    (hparent : ∀ parent ∈ row.parentFolderId, t.IsOf parent row.projectId)
    (happly : t.apply (.insertFolder row) = some t') : t'.Grove ∧ t.StillOf t' := by
  obtain ⟨hid, hattached, rfl⟩ := apply_insertFolder happly
  have hget : ∀ i, i ≠ t.nextFolder →
      (t.folders.set t.nextFolder row).get? i = t.folders.get? i := fun i hi =>
    Dict.get?_set_of_ne hi
  have hpresent : ∀ parent ∈ row.parentFolderId, (t.folders.get? parent).isSome :=
    attached_iff.1 hattached
  refine ⟨⟨?_, ?_, ?_⟩, ?_⟩
  · refine h.forest.add t.nextFolder row.parentFolderId ?_ ?_ ?_ fun i hi => ?_
    · simp [parents, hid]
    · intro parent hp
      rw [isSome_parents]
      exact hpresent parent hp
    · simp [parents]
    · simp only [parents, hget i hi]
  · intro i r parent above hr hp habove
    simp only [Dict.get?_set] at hr habove
    split at hr
    · cases hr
      -- the parent was there before the new folder
      have hne : parent ≠ t.nextFolder := by
        rintro rfl
        have hsome := hpresent _ hp
        rw [hid] at hsome
        cases hsome
      rw [if_neg hne] at habove
      exact (hparent parent hp).2 above habove
    · next hi =>
      have hsome := (h.forest.parent (parents_eq_some.2 ⟨r, hr, hp⟩)).isSome
      rw [isSome_parents] at hsome
      have hne : parent ≠ t.nextFolder := by
        rintro rfl
        rw [hid] at hsome
        cases hsome
      rw [if_neg hne] at habove
      exact h.project i r parent above hr hp habove
  · intro i hi
    simp only [Dict.get?_set] at hi
    split at hi
    · next heq => exact heq ▸ Nat.lt_succ_self _
    · exact Nat.lt_succ_of_lt (h.fresh i hi)
  · rintro i project ⟨hlt, hrow⟩
    refine ⟨Nat.lt_succ_of_lt hlt, fun r hr => hrow r ?_⟩
    rw [← hr]
    exact (hget i (Nat.ne_of_lt hlt)).symm

/-- A folder is renamed, or moves to a parent of its project on a path that is undisturbed. -/
theorem Grove.updateFolder (h : t.Grove) {id : FolderId} {name : Option String}
    {parent : Option (Option FolderId)} {visits : List (Visit FolderId)} {project : ProjectId}
    (hid : t.IsOf id project)
    (hparent : ∀ p, parent = some (some p) →
      t.IsOf p project ∧ IsTrail id [] (some p) visits)
    (hkeeps : t.keepsPath (.updateFolder id name parent visits))
    (happly : t.apply (.updateFolder id name parent visits) = some t') :
    t'.Grove ∧ t.StillOf t' := by
  obtain ⟨row, hrow, hattached, rfl⟩ := apply_updateFolder happly
  have hsome : (t.parents id).isSome := by
    rw [isSome_parents, hrow]
    rfl
  have hget : ∀ i, i ≠ id →
      (t.folders.set id (row.set name parent)).get? i = t.folders.get? i := fun i hi =>
    Dict.get?_set_of_ne hi
  -- the folders have the projects they had
  have hprojects : ∀ i r, (t.folders.set id (row.set name parent)).get? i = some r →
      ∃ r', t.folders.get? i = some r' ∧ r'.projectId = r.projectId := by
    intro i r hr
    rw [Dict.get?_set] at hr
    split at hr
    · next heq =>
      cases hr
      exact ⟨row, heq ▸ hrow, rfl⟩
    · exact ⟨r, hr, rfl⟩
  have hnew : ∀ p ∈ (row.set name parent).parentFolderId,
      (t.parents p).isSome ∧ ¬Under t.parents id p := by
    intro p hp
    have hpresent : (t.parents p).isSome := by
      rw [isSome_parents]
      exact attached_iff.1 hattached p hp
    refine ⟨hpresent, ?_⟩
    cases parent with
    | none => exact (h.forest id hsome).not_under (parents_eq_some.2 ⟨row, hrow, hp⟩)
    | some parent =>
      obtain rfl : parent = some p := hp
      exact (hparent p rfl).2.not_under h.forest hkeeps hpresent (by rintro _ ⟨⟩)
  refine ⟨⟨?_, ?_, ?_⟩, ?_⟩
  · refine h.forest.move id (row.set name parent).parentFolderId hnew ?_ fun i hi => ?_
    · simp [parents]
    · simp only [parents, hget i hi]
  · intro i r p above hr hp habove
    obtain ⟨above', habove', hsame⟩ := hprojects p above habove
    rw [← hsame]
    simp only [Dict.get?_set] at hr
    split at hr
    · cases hr
      cases parent with
      | none => exact h.project id row p above' hrow hp habove'
      | some parent =>
        obtain rfl : parent = some p := hp
        exact ((hparent p rfl).1.2 above' habove').trans (hid.2 row hrow).symm
    · exact h.project i r p above' hr hp habove'
  · intro i hi
    obtain ⟨r, hr⟩ := Option.isSome_iff_exists.1 hi
    obtain ⟨r', hr', -⟩ := hprojects i r hr
    exact h.fresh i (by rw [hr']; rfl)
  · rintro i q ⟨hlt, hof⟩
    refine ⟨hlt, fun r hr => ?_⟩
    obtain ⟨r', hr', hsame⟩ := hprojects i r hr
    exact hsame ▸ hof r' hr'

/-- Folders go, with those below them. -/
theorem Grove.deleteFolders (h : t.Grove) {ids : List FolderId}
    (happly : t.apply (.deleteFolders ids) = some t') : t'.Grove ∧ t.StillOf t' := by
  obtain rfl := Option.some.inj happly
  refine ⟨⟨?_, ?_, ?_⟩, ?_⟩
  · refine h.forest.remove (fun i parent hi => ?_) fun i parent hi => ?_
    · obtain ⟨r, hr, hp⟩ := parents_eq_some.1 hi
      exact parents_eq_some.2 ⟨r, (get?_withoutFolders hr).1, hp⟩
    · obtain ⟨r, hr, hp⟩ := parents_eq_some.1 hi
      rw [isSome_parents]
      exact attached_iff.1 (get?_withoutFolders hr).2 parent hp
  · intro i r parent above hr hp habove
    exact h.project i r parent above (get?_withoutFolders hr).1 hp (get?_withoutFolders habove).1
  · intro i hi
    obtain ⟨r, hr⟩ := Option.isSome_iff_exists.1 hi
    exact h.fresh i (by rw [(get?_withoutFolders hr).1]; rfl)
  · rintro i q ⟨hlt, hof⟩
    exact ⟨hlt, fun r hr => hof r (get?_withoutFolders hr).1⟩

end Store

/-! ## The requests -/

/-- What a request has read: folders and their projects. -/
abbrev Seen := List (FolderId × ProjectId)

/-- The folders are a forest, and what the requests have read of them is still so. -/
structure GroveInv (t : Store) (seen : Pid → Seen) : Prop where
  grove : t.Grove
  isOf : ∀ p, ∀ known ∈ seen p, t.IsOf known.1 known.2

/-- No commit moves a folder while a folder of the path it has checked has come below it. -/
abbrev pathKept : Store → Pid → FolderCall → Op → Env → Prop := Commits Store.keepsPath

def groveProtocol (t₀ : Store) : Protocol (foldering t₀) Seen where
  Inv := GroveInv
  At _ _ _ _ := True
  ok := pathKept

theorem GroveInv.write {t t' : Store} {seen : Pid → Seen} (h : GroveInv t seen)
    (hgrove : t'.Grove ∧ t.StillOf t') : GroveInv t' seen where
  grove := hgrove.1
  isOf p known hknown := hgrove.2 _ _ (h.isOf p known hknown)

/-- A request remembers one more folder. -/
theorem GroveInv.learn {t : Store} {seen : Pid → Seen} (h : GroveInv t seen) (p : Pid)
    {id : FolderId} {row : Folder} (hrow : t.folders.get? id = some row) :
    GroveInv t (Function.update seen p ((id, row.projectId) :: seen p)) where
  grove := h.grove
  isOf q known hknown := by
    by_cases hq : q = p
    · subst hq
      rw [Function.update_self] at hknown
      rcases List.mem_cons.1 hknown with rfl | hknown
      · refine ⟨h.grove.fresh id (by rw [hrow]; rfl), fun r hr => ?_⟩
        exact congrArg Folder.projectId (Option.some.inj (hr.symm.trans hrow))
      · exact h.isOf q known hknown
    · rw [Function.update_of_ne hq] at hknown
      exact h.isOf q known hknown

section Programs

variable {t₀ : Store} {p : Pid} {r : FolderCall} {g : Seen}

/-- What is true of every error. -/
abbrev anyError (_ : PyError) (_ : Seen) : Prop := True

theorem outOfRounds_stops {Q : Unit → Seen → Prop} :
    (groveProtocol t₀).Triple p r g (await .outOfRounds) Q anyError :=
  Protocol.Triple.call trivial fun _ _ _ _ _ _ _ _ hx => by cases hx

/-- Reading a folder tells its project. -/
theorem getFolder_learns (id : FolderId) :
    (groveProtocol t₀).Triple p r g (await (.getFolder id))
      (fun found g' => g ⊆ g' ∧ ∀ row, found = some row → (id, row.projectId) ∈ g') anyError := by
  refine Triple.select (.getFolder id) (fun t => .ok (t.folders.get? id)) trivial (fun _ => rfl)
    (fun _ => trivial) fun t gs hinv hg found hfound => ?_
  obtain rfl := Except.ok.inj hfound
  cases hrow : t.folders.get? id with
  | none =>
    refine ⟨g, ?_, List.Subset.refl g, fun _ h => nomatch h⟩
    rw [← hg, Function.update_eq_self]
    exact hinv
  | some row =>
    refine ⟨(id, row.projectId) :: g, hg ▸ GroveInv.learn hinv p hrow, List.subset_cons_self _ _,
      fun row' h => ?_⟩
    obtain rfl := Option.some.inj h
    exact List.mem_cons_self

theorem requireEditor_steady (row : Project) (project : ProjectId) (user : UserId)
    (detail : String) : (groveProtocol t₀).Steady p r g (requireEditor row project user detail) := by
  unfold requireEditor
  refine Protocol.Steady.ite (.pure _) ?_
  refine (Steady.select trivial fun _ => rfl).bind fun found => ?_
  exact (Protocol.Steady.orRaise _ _).bind fun member => .require _ _

/-- What the walk has read when it ends: the folders are of the project, and with what was read before
they make a trail. -/
def Walked (project : ProjectId) (moving current : Option FolderId) (g : Seen)
    (visits all : List (Visit FolderId)) (g' : Seen) : Prop :=
  g ⊆ g' ∧ (∀ k ∈ current, k ∈ visits.map Prod.fst ∨ (k, project) ∈ g') ∧
    ∃ rest, all = visits ++ rest ∧ ∀ top ∈ moving, ∀ seen, visits.map Prod.fst ⊆ seen →
      IsTrail top seen current rest

theorem Walked.done {project : ProjectId} {moving current : Option FolderId}
    {visits : List (Visit FolderId)} (h : unseen visits current = none) :
    Walked project moving current g visits visits g := by
  have hseen : ∀ k ∈ current, k ∈ visits.map Prod.fst := by
    intro k hk
    obtain rfl : current = some k := hk
    simpa [unseen, Option.filter_eq_none_iff] using h
  exact ⟨List.Subset.refl g, fun k hk => .inl (hseen k hk), [], (List.append_nil _).symm,
    fun _ _ seen hsub k hk => hsub (hseen k hk)⟩

theorem walkParents_walks (project : ProjectId) (moving : Option FolderId) (rounds : Nat)
    (visits : List (Visit FolderId)) (current : Option FolderId) :
    (groveProtocol t₀).Triple p r g (walkParents project moving rounds visits current)
      (Walked project moving current g visits) anyError := by
  induction rounds generalizing visits current g with
  | zero =>
    unfold walkParents
    split
    · next h => exact Protocol.Triple.pure (Walked.done h)
    · exact Protocol.Triple.bind outOfRounds_stops (fun _ _ h => (h : False).elim)
  | succ rounds ih =>
    unfold walkParents
    split
    · next h => exact Protocol.Triple.pure (Walked.done h)
    · next id h =>
      obtain ⟨hcurrent, hnew⟩ := Option.filter_eq_some_iff.1 h
      subst hcurrent
      refine Protocol.Triple.bind (Protocol.Triple.require
        (Q := fun _ g' => g' = g ∧ some id ≠ moving) (fun hc => ⟨rfl, by simpa using hc⟩)
        fun _ => trivial) ?_
      rintro _ _ ⟨rfl, hmoving⟩
      refine Protocol.Triple.bind (getFolder_learns id) fun found g₁ hfound => ?_
      refine Protocol.Triple.bind (Protocol.Triple.orRaise
        (Q := fun row g' => g' = g₁ ∧ (id, project) ∈ g₁) (fun row hrow => ⟨rfl, ?_⟩)
        fun _ => trivial) ?_
      · obtain ⟨hsome, hproject⟩ := Option.filter_eq_some_iff.1 hrow
        have hlearned := hfound.2 row hsome
        rwa [of_decide_eq_true hproject] at hlearned
      · rintro row _ ⟨rfl, hlearned⟩
        refine Protocol.Triple.mono (ih _ _) (fun all g' hwalked => ?_) fun _ _ _ => trivial
        obtain ⟨hsub, -, rest, rfl, htrail⟩ := hwalked
        refine ⟨fun x hx => hsub (hfound.1 hx), fun k hk => ?_, (id, row.parentFolderId) :: rest, ?_, ?_⟩
        · obtain rfl := Option.some.inj hk
          exact .inr (hsub hlearned)
        · simp
        · intro top htop seen hseen
          refine ⟨rfl, fun heq => hmoving (heq ▸ htop.symm), htrail top htop (id :: seen) ?_⟩
          intro k hk
          rw [List.map_append, List.mem_append] at hk
          rcases hk with hk | hk
          · exact List.mem_cons_of_mem _ (hseen hk)
          · exact List.mem_singleton.1 hk ▸ List.mem_cons_self

/-- A commit that keeps the forest, knowing what the request has read. -/
theorem commit_grows {ws : List Write}
    (h : ∀ t, t.Grove → (∀ known ∈ g, t.IsOf known.1 known.2) → (∀ w ∈ ws, t.keepsPath w) →
      ∀ t', Store.applyAll ws t = some t' → t'.Grove ∧ t.StillOf t') :
    (groveProtocol t₀).Steady p r g (await (.commit ws)) := by
  refine Steady.commit trivial fun env t gs hinv hg hok t' htx => ?_
  obtain ⟨u, hu, rfl⟩ := Store.transact_eq_some htx
  have hgrow := h t hinv.grove (fun known hknown => hinv.isOf p known (hg ▸ hknown)) hok u hu
  exact GroveInv.write hinv ⟨⟨hgrow.1.forest, hgrow.1.project, hgrow.1.fresh⟩, hgrow.2⟩

/-- What comes after the commit only looks. -/
theorem afterwards_steady (project : ProjectId) (id : FolderId) (event : Folder → FolderEvent) :
    (groveProtocol t₀).Steady p r g (do
      let refreshed ← await (.getFolder id)
      let folder ← orRaise refreshed .other
      await (.broadcast project (event folder))
      return Response.folder id folder) := by
  refine (Steady.select trivial fun _ => rfl).bind fun refreshed => ?_
  refine (Protocol.Steady.orRaise _ _).bind fun folder => ?_
  exact (Steady.outside trivial fun _ _ _ _ h => by cases h; rfl).bind fun _ => .pure _

/-- The folder of the request is of its project. -/
theorem findFolder_learns (project : ProjectId) (id : FolderId) {f : Folder → Py Response}
    (hf : ∀ row g', (id, project) ∈ g' →
      (groveProtocol t₀).Triple p r g' (f row) (fun _ _ => True) anyError) :
    (groveProtocol t₀).Triple p r g (do
      let found ← await (.getFolder id)
      let folder ← orRaise (found.filter (·.projectId = project)) (.http 404 "Folder not found")
      f folder) (fun _ _ => True) anyError := by
  refine Protocol.Triple.bind (getFolder_learns id) fun found g₁ hfound => ?_
  refine Protocol.Triple.bind (Protocol.Triple.orRaise
    (Q := fun row g' => g' = g₁ ∧ (id, project) ∈ g₁) (fun row hrow => ⟨rfl, ?_⟩)
    fun _ => trivial) ?_
  · obtain ⟨hsome, hproject⟩ := Option.filter_eq_some_iff.1 hrow
    have hlearned := hfound.2 row hsome
    rwa [of_decide_eq_true hproject] at hlearned
  · rintro row _ ⟨rfl, hlearned⟩
    exact hf row _ hlearned

theorem createFolder_grows (user : UserId) (project : ProjectId) (name : String)
    (parent : Option FolderId) (rounds : Nat) :
    (groveProtocol t₀).Triple p r g (createFolder user project name parent rounds)
      (fun _ _ => True) anyError := by
  unfold createFolder
  refine (getCurrentUser_steady (fun _ => trivial) user).andThen (fun _ => trivial) fun _ => ?_
  refine (requireProject_steady (fun _ => trivial) project).andThen (fun _ => trivial) fun row => ?_
  refine (requireEditor_steady row project user _).andThen (fun _ => trivial) fun _ => ?_
  refine Protocol.Triple.bind (walkParents_walks project none rounds [] parent) ?_
  rintro visits g' ⟨-, hcurrent, -⟩
  refine (commit_grows fun t hgrove hknown hok t' happly => ?_).andThen (fun _ => trivial)
    fun inserted => ?_
  · obtain ⟨u, hu, happly⟩ := Option.bind_eq_some_iff.1 happly
    obtain rfl := Option.some.inj happly
    refine hgrove.insertFolder (fun k hk => ?_) hu
    rcases hcurrent k hk with hvisited | hlearned
    · cases hvisited
    · exact hknown (k, project) hlearned
  · refine (Protocol.Steady.orRaise _ _).andThen (fun _ => trivial) fun id => ?_
    exact (afterwards_steady project id (.created id)).triple (fun _ => trivial) fun _ => trivial

theorem updateFolder_grows (user : UserId) (project : ProjectId) (id : FolderId)
    (name : Option String) (parent : Option (Option FolderId)) (rounds : Nat) :
    (groveProtocol t₀).Triple p r g (updateFolder user project id name parent rounds)
      (fun _ _ => True) anyError := by
  unfold updateFolder
  refine (getCurrentUser_steady (fun _ => trivial) user).andThen (fun _ => trivial) fun _ => ?_
  refine findFolder_learns project id fun folder g₁ hid => ?_
  refine (requireProject_steady (fun _ => trivial) project).andThen (fun _ => trivial) fun row => ?_
  refine (requireEditor_steady row project user _).andThen (fun _ => trivial) fun _ => ?_
  refine Protocol.Triple.bind (walkParents_walks project (some id) rounds [] parent.join) ?_
  rintro _ g₂ ⟨hsub, hcurrent, visits, rfl, htrail⟩
  refine (commit_grows fun t hgrove hknown hok t' happly => ?_).andThen (fun _ => trivial)
    fun _ => (afterwards_steady project id (.updated id)).triple (fun _ => trivial) fun _ => trivial
  unfold folderWrites at happly hok
  dsimp only at happly hok
  split at happly
  · obtain rfl := Option.some.inj happly
    exact ⟨hgrove, fun _ _ h => h⟩
  · next hset =>
    rw [if_neg hset] at hok
    obtain ⟨u, hu, happly⟩ := Option.bind_eq_some_iff.1 happly
    obtain rfl := Option.some.inj happly
    refine hgrove.updateFolder (hknown _ (hsub hid)) (fun k hk => ?_)
      (hok _ List.mem_cons_self) hu
    -- the parent that is written is the one that was checked
    obtain ⟨hparent, -⟩ := Option.filter_eq_some_iff.1 hk
    subst hparent
    refine ⟨?_, htrail id rfl [] (List.Subset.refl _)⟩
    rcases hcurrent k rfl with hvisited | hlearned
    · cases hvisited
    · exact hknown (k, project) hlearned

theorem collectSubfolders_steady (rounds : Nat) (todo found : List FolderId) :
    (groveProtocol t₀).Triple p r g (collectSubfolders rounds todo found) (fun _ g' => g' = g)
      anyError := by
  induction rounds generalizing todo found with
  | zero =>
    cases todo with
    | nil => exact Protocol.Triple.pure rfl
    | cons id todo => exact Protocol.Triple.bind outOfRounds_stops fun _ _ h => (h : False).elim
  | succ rounds ih =>
    cases todo with
    | nil => exact Protocol.Triple.pure rfl
    | cons id todo =>
      refine Protocol.Triple.ite (fun _ => ih todo found) fun _ => ?_
      exact (Steady.select trivial fun _ => rfl).andThen (fun _ => trivial) fun _ => ih _ _

theorem deleteFolder_grows (user : UserId) (project : ProjectId) (id : FolderId) (rounds : Nat) :
    (groveProtocol t₀).Triple p r g (deleteFolder user project id rounds) (fun _ _ => True)
      anyError := by
  unfold deleteFolder
  refine (getCurrentUser_steady (fun _ => trivial) user).andThen (fun _ => trivial) fun _ => ?_
  refine findFolder_learns project id fun folder g₁ hid => ?_
  refine (requireProject_steady (fun _ => trivial) project).andThen (fun _ => trivial) fun row => ?_
  refine (requireEditor_steady row project user _).andThen (fun _ => trivial) fun _ => ?_
  refine Protocol.Triple.bind (collectSubfolders_steady rounds [id] []) ?_
  rintro ids _ rfl
  refine (commit_grows fun t hgrove _ _ t' happly => ?_).andThen (fun _ => trivial) fun _ => ?_
  · obtain ⟨u, hu, happly⟩ := Option.bind_eq_some_iff.1 happly
    obtain rfl := Option.some.inj happly
    exact hgrove.deleteFolders hu
  · refine (Steady.outside trivial fun _ _ _ _ h => by cases h; rfl).andThen (fun _ => trivial)
      fun _ => ?_
    exact Protocol.Triple.pure trivial

theorem folderCall_grows (r : FolderCall) :
    (groveProtocol t₀).Triple p r g r.body (fun _ _ => True) anyError := by
  cases r with
  | create user project name parent rounds => exact createFolder_grows user project name parent rounds
  | update user project id name parent rounds =>
    exact updateFolder_grows user project id name parent rounds
  | delete user project id rounds => exact deleteFolder_grows user project id rounds

end Programs

/-- The outline of the folders: a request begins knowing nothing of them. -/
def groveOutline {t₀ : Store} (h : t₀.Grove) : Outline (groveProtocol t₀) where
  idle := []
  start _ _ := []
  done _ _ _ _ := True
  init := ⟨h, fun _ _ hknown => nomatch hknown⟩
  spawn t gs p r hinv hidle := by
    rw [← hidle, Function.update_eq_self]
    exact hinv
  body p r := Protocol.Follows.mono (folderCall_grows r) fun _ _ _ => trivial
  at_end _ _ _ _ _ := trivial

/-- **The folder graph stays a forest** in every run in which no move commits while a folder of the
path it has checked has come below the moved folder. -/
theorem folders_stay_at_home {t₀ : Store}
    {cfg : Config Op (fun o => Except PyError o.Val) Store FolderCall (Except PyError Response)}
    (hhome : t₀.FoldersAtHome) (hfresh : t₀.FoldersFresh)
    (h : (foldering t₀).system.ReachableUnder ((foldering t₀).guard pathKept) cfg) :
    cfg.shared.FoldersAtHome := by
  obtain ⟨gs, hfits⟩ := (groveOutline (hhome.grove hfresh)).sound (fun _ _ _ hok => hok) h
  exact hfits.1.grove.foldersAtHome

/-- Two folders of the shared project. -/
def twoFolders : Store :=
  { sharedProject with
    folders := .ofItems [(1, ⟨1, none, "a"⟩), (2, ⟨1, none, "b"⟩)]
    nextFolder := 3 }

theorem twoFolders_atHome : twoFolders.FoldersAtHome := by
  intro id row hrow
  have hmem : (id, row) ∈ twoFolders.folders.items := Dict.mem_items_iff.2 hrow
  have hroot : ∀ item ∈ twoFolders.folders.items,
      item.2.projectId = item.2.projectId ∧ item.2.parentFolderId = none := by decide
  exact .root hrow rfl (hroot _ hmem).2

theorem twoFolders_fresh : twoFolders.FoldersFresh := by
  intro id hid
  obtain ⟨row, hrow⟩ := Option.isSome_iff_exists.1 hid
  have hmem : (id, row) ∈ twoFolders.folders.items := Dict.mem_items_iff.2 hrow
  have hall : ∀ item ∈ twoFolders.folders.items, item.1 < twoFolders.nextFolder := by decide
  exact hall _ hmem

/-- No folder of the path that a move has checked has another parent. -/
def Store.unchangedPath (t : Store) : Write → Bool
  | .updateFolder _ _ _ visits => visits.all fun v => (t.parents v.1).all (· = v.2)
  | _ => true

theorem Store.keepsPath_of_unchangedPath {t : Store} {w : Write} (h : t.unchangedPath w = true) :
    t.keepsPath w := by
  cases w with
  | updateFolder id name parent visits =>
    have hund : Undisturbed t.parents id visits := by
      refine Undisturbed.of_unchanged fun v hv now hnow => ?_
      have hall := List.all_eq_true.1 h v hv
      rw [show t.parents v.1 = some now from hnow] at hall
      simpa using hall
    match parent with
    | none | some none => trivial
    | some (some _) => exact hund
  | _ => trivial

/-- One folder moves below the other, and gets a subfolder; the way back is refused. -/
theorem folders_stay_at_home_in_turn : ∃ cfg : Config Op (fun o => Except PyError o.Val) Store
      FolderCall (Except PyError Response),
    cfg.shared.folders.items.map (·.2.parentFolderId) = [some 2, none, some 1] ∧
      cfg.shared.FoldersAtHome := by
  have hrun : ((foldering twoFolders).system.replay
      ((foldering twoFolders).guard (Commits fun t w => t.unchangedPath w = true))
      (foldering twoFolders).system.init
      (List.flatten [.spawn 0 (.update 1 1 1 none (some (some 2)) 3) :: undisturbed 0 7,
        .spawn 1 (.create 2 1 "c" (some 1) 3) :: undisturbed 1 8,
        .spawn 2 (.update 1 1 2 none (some (some 3)) 3) :: undisturbed 2 5])).any
      (fun cfg => cfg.shared.folders.items.map (·.2.parentFolderId) = [some 2, none, some 1]) =
        true := by
    decide +kernel
  obtain ⟨cfg, hcfg, hparents⟩ := System.exists_reachable hrun
  refine ⟨cfg, of_decide_eq_true hparents,
    folders_stay_at_home twoFolders_atHome twoFolders_fresh (hcfg.mono fun s l hok => ?_)⟩
  cases l with
  | spawn p r => trivial
  | run p c =>
    intro r o k hp
    have hok := hok r o k hp
    cases o with
    | commit ws => exact fun w hw => Store.keepsPath_of_unchangedPath (hok w hw)
    | _ => trivial

/-- Each of two folders moves below the other, while the other one is still where it was. -/
theorem folders_leave_home :
    ¬∀ cfg, (foldering twoFolders).system.Reachable cfg → cfg.shared.FoldersAtHome := by
  have hrun : ((foldering twoFolders).system.replay System.anyStep
      (foldering twoFolders).system.init
      (List.flatten [.spawn 0 (.update 1 1 1 none (some (some 2)) 3) :: undisturbed 0 4,
        .spawn 1 (.update 2 1 2 none (some (some 1)) 3) :: undisturbed 1 5, undisturbed 0 1, undisturbed 1 1])).any
      (fun cfg => cfg.shared.parents 1 = some (some 2) ∧ cfg.shared.parents 2 = some (some 1)) =
        true := by
    decide +kernel
  intro hall
  obtain ⟨cfg, hcfg, hloop⟩ := System.exists_reachable hrun
  obtain ⟨h1, h2⟩ := of_decide_eq_true hloop
  have hrooted : Rooted cfg.shared.parents 1 := (hall cfg hcfg).forest 1 (by rw [h1]; rfl)
  exact hrooted.not_under h1 (.child h2 .top)

end Concord.Access
