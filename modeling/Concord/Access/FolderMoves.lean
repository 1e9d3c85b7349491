import Concord.Access.FolderForest
import Concord.Access.Requests

/-!
# Which folder moves are accepted

`update_folder` of `api/folders.py`, with no other request under way and no statement that fails. The
folders of a project with their parents are a graph of their own (`Store.projectParents`). The walk of
`_check_parent` ends on every graph, as each round reads a folder that it has not read before
(`walkParents_ends`). In a forest it tells the moved folder's subtree from the rest: it comes to the
moved folder just when it has started below it (`walkParents_ok`, `walkParents_error`).
-/

namespace Concord.Access

open Concord.Base Async

namespace Store

/-- What a program does to the rows with no other request under way. -/
def run {α : Type} (t : Store) (x : Py α) : Option (Except PyError α × Store) :=
  Async.calm (fun o env t => o.exec env t) {} x t

/-- The folders of a project, each with its parent. -/
def projectParents (t : Store) (project : ProjectId) (id : FolderId) : Option (Option FolderId) :=
  ((t.folders.get? id).filter (·.projectId = project)).map (·.parentFolderId)

/-- The user may change the folder. -/
structure MayChange (t : Store) (user : UserId) (project : ProjectId) (id : FolderId) : Prop where
  known : (t.users.get? user).isSome
  folder : (t.projectParents project id).isSome
  editor : ∃ row, t.projects.get? project = some row ∧
    (row.ownerId = user ∨
      ∃ member, t.membersOf project user = [member] ∧ Role.editor.rank ≤ member.2.role.rank)

variable {t t' : Store} {α β : Type} {project : ProjectId}

theorem run_select {o : Op} {v : o.Val} {f : o.Val → Py β} (h : Op.select t o = some (.ok v)) :
    t.run (await o >>= f) = t.run (f v) :=
  Async.calm_step (Op.exec_select h)

theorem run_require {c : Bool} {e : PyError} {f : Unit → Py β} :
    t.run (require c e >>= f) = if c then t.run (f ()) else some (.error e, t) :=
  Async.calm_require

theorem run_orRaise {x? : Option α} {e : PyError} {f : α → Py β} :
    t.run (orRaise x? e >>= f) =
      match x? with
      | some a => t.run (f a)
      | none => some (.error e, t) :=
  Async.calm_orRaise

theorem run_bind {x : Py α} {f : α → Py β} :
    t.run (x >>= f) = (t.run x).bind fun (r, t') =>
      match r with
      | .ok a => t'.run (f a)
      | .error e => some (.error e, t') := by
  unfold run
  rw [Async.calm_bind]
  cases Async.calm (fun o env t => Op.exec env t o) {} x t with
  | none => rfl
  | some result =>
    obtain ⟨r, t'⟩ := result
    cases r <;> rfl

theorem run_commit {ws : List Write} {f : Option Nat → Py β} :
    t.run (await (.commit ws) >>= f) =
      match t.transact ws with
      | none => some (.error .database, t)
      | some t' => t'.run (f (ws.findSome? t.newId?)) := by
  have hcommit : t.run (await (.commit ws)) = Op.exec {} t (.commit ws) := Async.calm_call _
  rw [run_bind, hcommit]
  cases htransact : t.transact ws with
  | none => simp [Op.exec, htransact]
  | some t' => simp [Op.exec, htransact]

theorem projectParents_eq_some {id : FolderId} {parent : Option FolderId} :
    t.projectParents project id = some parent ↔
      ∃ row, t.folders.get? id = some row ∧ row.projectId = project ∧ row.parentFolderId = parent := by
  simp [projectParents, Option.filter_eq_some_iff, and_assoc]

end Store

/-! ## The walk -/

section Walk

variable {t t' : Store} {project : ProjectId} {moving : Option FolderId} {rounds : Nat}
  {visits : List (Visit FolderId)} {current : Option FolderId} {id k : FolderId}

theorem unseen_some (h : k ∉ visits.map Prod.fst) : unseen visits (some k) = some k := by
  simpa [unseen, Option.filter] using h

theorem unseen_eq_none_iff : unseen visits current = none ↔ ∀ k ∈ current, k ∈ visits.map Prod.fst := by
  cases current with
  | none => simp [unseen]
  | some k => simp [unseen]

theorem run_walkParents_done (h : unseen visits current = none) :
    t.run (walkParents project moving rounds visits current) = some (.ok visits, t) := by
  cases rounds with
  | zero =>
    unfold walkParents
    rw [h]
    rfl
  | succ rounds =>
    unfold walkParents
    rw [h]
    rfl

/-- One round of the loop. -/
theorem run_walkParents_step (h : k ∉ visits.map Prod.fst) :
    t.run (walkParents project moving (rounds + 1) visits (some k)) =
      if some k = moving then
        some (.error (.http 400 "A folder can't be moved into itself"), t)
      else match t.projectParents project k with
        | none => some (.error (.http 400 "Parent folder not found in this project"), t)
        | some parent => t.run (walkParents project moving rounds (visits ++ [(k, parent)]) parent) := by
  rw [walkParents, unseen_some h]
  dsimp only
  rw [Store.run_require]
  by_cases hmoving : some k = moving
  · simp [hmoving]
  · rw [if_pos (decide_eq_true hmoving), if_neg hmoving, Store.run_select (o := .getFolder k) rfl,
      Store.run_orRaise]
    unfold Store.projectParents
    cases (t.folders.get? k).filter (·.projectId = project) with
    | none => rfl
    | some row => rfl

/-- What the loop has to find for its rounds to be enough: more rounds than folders not yet read. -/
structure Enough (t : Store) (rounds : Nat) (visits : List (Visit FolderId)) : Prop where
  rounds : t.folders.items.length < rounds + visits.length
  nodup : (visits.map Prod.fst).Nodup
  folders : ∀ v ∈ visits, v.1 ∈ t.folders.keys

theorem Enough.pos (h : Enough t rounds visits) : 0 < rounds := by
  have hsub : (visits.map Prod.fst).Subperm t.folders.keys := by
    apply List.subperm_of_subset h.nodup
    intro i hi
    obtain ⟨v, hv, rfl⟩ := List.mem_map.1 hi
    exact h.folders v hv
  have hlength := hsub.length_le
  rw [List.length_map, Dict.keys, List.length_map] at hlength
  have hrounds := h.rounds
  omega

theorem Enough.next {parent : Option FolderId} (h : Enough t (rounds + 1) visits)
    (hk : k ∉ visits.map Prod.fst) (hparent : t.projectParents project k = some parent) :
    Enough t rounds (visits ++ [(k, parent)]) where
  rounds := by
    have hrounds := h.rounds
    rw [List.length_append, List.length_singleton]
    omega
  nodup := by
    rw [List.map_append, List.map_singleton]
    refine List.nodup_append.2 ⟨h.nodup, List.nodup_singleton k, ?_⟩
    rintro i hi j hj rfl
    rw [List.mem_singleton.1 hj] at hi
    exact hk hi
  folders := by
    intro v hv
    rcases List.mem_append.1 hv with hv | hv
    · exact h.folders v hv
    · rw [List.mem_singleton.1 hv]
      obtain ⟨row, hrow, -⟩ := Store.projectParents_eq_some.1 hparent
      exact Dict.mem_keys_iff.2 ⟨row, hrow⟩

/-- **The walk ends on every graph**, one with loops in it too, and changes nothing. -/
theorem walkParents_ends (h : Enough t rounds visits) :
    ∃ r, t.run (walkParents project moving rounds visits current) = some (r, t) := by
  induction rounds generalizing visits current with
  | zero => exact absurd h.pos (Nat.lt_irrefl 0)
  | succ rounds ih =>
    cases hunseen : unseen visits current with
    | none => exact ⟨_, run_walkParents_done hunseen⟩
    | some k =>
      obtain ⟨rfl, hk⟩ := Option.filter_eq_some_iff.1 hunseen
      have hk : k ∉ visits.map Prod.fst := by simpa using hk
      rw [run_walkParents_step hk]
      split
      · exact ⟨_, rfl⟩
      · cases hparent : t.projectParents project k with
        | none => exact ⟨_, rfl⟩
        | some parent => exact ih (h.next hk hparent)

theorem trail_of_done {seen : List FolderId} (h : unseen visits current = none)
    (hseen : ∀ i, i ∈ seen ↔ i ∈ visits.map Prod.fst) : IsTrail id seen current [] :=
  fun k hk => (hseen k).2 (unseen_eq_none_iff.1 h k hk)

/-- A walk that is through has read a trail of the project's folders that does not meet the moved one. -/
theorem walkParents_ok {all : List (Visit FolderId)} (seen : List FolderId)
    (h : t.run (walkParents project (some id) rounds visits current) = some (.ok all, t'))
    (hseen : ∀ i, i ∈ seen ↔ i ∈ visits.map Prod.fst) :
    ∃ new, all = visits ++ new ∧ IsTrail id seen current new ∧
      ∀ v ∈ new, t.projectParents project v.1 = some v.2 := by
  induction rounds generalizing visits current seen with
  | zero =>
    cases hunseen : unseen visits current with
    | none =>
      rw [run_walkParents_done hunseen] at h
      cases h
      exact ⟨[], (List.append_nil _).symm, trail_of_done hunseen hseen, nofun⟩
    | some k =>
      unfold walkParents at h
      rw [hunseen] at h
      cases h
  | succ rounds ih =>
    cases hunseen : unseen visits current with
    | none =>
      rw [run_walkParents_done hunseen] at h
      cases h
      exact ⟨[], (List.append_nil _).symm, trail_of_done hunseen hseen, nofun⟩
    | some k =>
      obtain ⟨rfl, hk⟩ := Option.filter_eq_some_iff.1 hunseen
      have hk : k ∉ visits.map Prod.fst := by simpa using hk
      rw [run_walkParents_step hk] at h
      split at h
      · cases h
      · next hne =>
        cases hparent : t.projectParents project k with
        | none =>
          rw [hparent] at h
          cases h
        | some parent =>
          rw [hparent] at h
          have hseen' : ∀ i, i ∈ k :: seen ↔ i ∈ (visits ++ [(k, parent)]).map Prod.fst := by
            intro i
            rw [List.mem_cons, List.map_append, List.mem_append, hseen i, or_comm]
            simp
          obtain ⟨new, rfl, htrail, hnew⟩ := ih (k :: seen) h hseen'
          refine ⟨(k, parent) :: new, by simp, ⟨rfl, fun heq => hne (heq ▸ rfl), htrail⟩, ?_⟩
          intro v hv
          rcases List.mem_cons.1 hv with rfl | hv
          · exact hparent
          · exact hnew v hv

/-- From a folder of a forest that is not below the moved one the walk raises nothing. -/
theorem walkParents_error {e : PyError} (hforest : IsForest (t.projectParents project))
    (h : t.run (walkParents project (some id) rounds visits current) = some (.error e, t')) :
    ∃ k ∈ current, (t.projectParents project k).isSome → Under (t.projectParents project) id k := by
  induction rounds generalizing visits current with
  | zero =>
    unfold walkParents at h
    cases hunseen : unseen visits current with
    | none =>
      rw [hunseen] at h
      cases h
    | some k =>
      rw [hunseen] at h
      cases h
  | succ rounds ih =>
    cases hunseen : unseen visits current with
    | none =>
      rw [run_walkParents_done hunseen] at h
      cases h
    | some k =>
      obtain ⟨rfl, hk⟩ := Option.filter_eq_some_iff.1 hunseen
      have hk : k ∉ visits.map Prod.fst := by simpa using hk
      refine ⟨k, rfl, fun hsome => ?_⟩
      rw [run_walkParents_step hk] at h
      split at h
      · next heq =>
        obtain rfl := Option.some.inj heq
        exact .top
      · obtain ⟨parent, hparent⟩ := Option.isSome_iff_exists.1 hsome
        rw [hparent] at h
        obtain ⟨p, hp, hunder⟩ := ih h
        obtain rfl : parent = some p := hp
        exact .child hparent (hunder (hforest.parent hparent).isSome)

end Walk

/-! ## The write -/

section Write

variable {t t' : Store} {project : ProjectId} {id : FolderId} {folder : Folder} {name : Option String}
  {parent : Option (Option FolderId)} {visits : List (Visit FolderId)}

theorem getD_filter_ne {α : Type} [DecidableEq α] (x? : Option α) (x : α) :
    (x?.filter (· ≠ x)).getD x = x?.getD x := by
  cases x? with
  | none => rfl
  | some y =>
    by_cases hy : y = x
    · simp [Option.filter, hy]
    · simp [Option.filter, hy]

/-- A column that is set to what it is makes no difference. -/
theorem Folder.set_filter (row : Folder) (name : Option String) (parent : Option (Option FolderId)) :
    row.set (name.filter (· ≠ row.name)) (parent.filter (· ≠ row.parentFolderId)) =
      row.set name parent := by
  unfold Folder.set
  rw [getD_filter_ne, getD_filter_ne]

/-- What the commit of `update_folder` does to the folders. -/
theorem transact_folderWrites (visits : List (Visit FolderId)) (hfolder : t.folders.get? id = some folder)
    (hattached : attached t.folders (folder.set name parent) = true) :
    ∃ t', t.transact (folderWrites id folder name parent visits) = some t' ∧
      ∀ i, t'.folders.get? i = if i = id then some (folder.set name parent) else t.folders.get? i := by
  have hset := Folder.set_filter folder name parent
  unfold folderWrites
  dsimp only
  split
  · next hnone =>
    rw [hnone.1, hnone.2] at hset
    refine ⟨{ t with committed := t.committed ++ [[]] }, rfl, ?_⟩
    intro i
    split
    · next heq => rw [heq, hfolder, ← hset]; rfl
    · rfl
  · have happly : t.apply (.updateFolder id (name.filter (· ≠ folder.name))
        (parent.filter (· ≠ folder.parentFolderId)) visits) =
          some { t with folders := t.folders.set id (folder.set name parent) } := by
      simp only [Store.apply, hfolder, Option.bind_some, hset, hattached, if_true]
    have htransact : t.transact [.updateFolder id (name.filter (· ≠ folder.name))
        (parent.filter (· ≠ folder.parentFolderId)) visits] =
          some { t with
            folders := t.folders.set id (folder.set name parent)
            committed := t.committed ++ [[.updateFolder id (name.filter (· ≠ folder.name))
              (parent.filter (· ≠ folder.parentFolderId)) visits]] } := by
      rw [Store.transact, Store.applyAll, happly]
      rfl
    exact ⟨_, htransact, fun i => Dict.get?_set⟩

/-- The folder is still there after the commit. -/
theorem folder_of_transact (hfolder : t.folders.get? id = some folder)
    (h : t.transact (folderWrites id folder name parent visits) = some t') :
    t'.folders.get? id ≠ none := by
  unfold folderWrites at h
  dsimp only at h
  split at h
  · cases h
    rw [hfolder]
    exact Option.some_ne_none _
  · obtain ⟨u, hu, rfl⟩ := Store.transact_eq_some h
    obtain ⟨v, hv, hrest⟩ := Option.bind_eq_some_iff.1 hu
    cases hrest
    obtain ⟨row, -, -, rfl⟩ := Store.apply_updateFolder hv
    rw [Dict.get?_set_self]
    exact Option.some_ne_none _

theorem projectParents_of_moved (hfolder : t.folders.get? id = some folder)
    (hproject : folder.projectId = project)
    (h : ∀ i, t'.folders.get? i = if i = id then some (folder.set name parent) else t.folders.get? i) :
    t'.projectParents project id = some (parent.getD folder.parentFolderId) ∧
      (∀ i, i ≠ id → t'.projectParents project i = t.projectParents project i) ∧
      ∀ q, q ≠ project → t'.projectParents q = t.projectParents q := by
  refine ⟨?_, ?_, ?_⟩
  · apply Store.projectParents_eq_some.2
    exact ⟨folder.set name parent, by rw [h id, if_pos rfl], hproject, rfl⟩
  · intro i hi
    unfold Store.projectParents
    rw [h i, if_neg hi]
  · intro q hq
    funext i
    unfold Store.projectParents
    rw [h i]
    split
    · next heq =>
      have hne : folder.projectId ≠ q := fun heq => hq (heq.symm.trans hproject)
      have hne' : (folder.set name parent).projectId ≠ q := hne
      rw [heq, hfolder]
      simp [Option.filter, hne, hne']
    · rfl

/-- The rest of the request after its checks. -/
theorem run_save {event : Folder → FolderEvent} {response : Folder → Response} :
    t.run (do
      let _ ← await (.commit (folderWrites id folder name parent visits))
      let refreshed ← await (.getFolder id)
      let folder ← orRaise refreshed .other
      await (.broadcast project (event folder))
      return response folder) =
    match t.transact (folderWrites id folder name parent visits) with
    | none => some (.error .database, t)
    | some t' =>
      match t'.folders.get? id with
      | none => some (.error .other, t')
      | some row => some (.ok (response row), t') := by
  rw [Store.run_commit]
  cases t.transact (folderWrites id folder name parent visits) with
  | none => rfl
  | some t' =>
    dsimp only
    rw [Store.run_select (o := .getFolder id) rfl, Store.run_orRaise]
    cases t'.folders.get? id with
    | none => rfl
    | some row => rfl

end Write

/-! ## A move -/

section Move

variable {t t' : Store} {user : UserId} {project : ProjectId} {id : FolderId} {folder : Folder}
  {name : Option String} {parent : Option (Option FolderId)} {rounds : Nat}

theorem run_getCurrentUser {α : Type} {f : User → Py α} (h : (t.users.get? user).isSome) :
    ∃ current, t.run (getCurrentUser user >>= f) = t.run (f current) := by
  obtain ⟨current, hcurrent⟩ := Option.isSome_iff_exists.1 h
  refine ⟨current, ?_⟩
  unfold getCurrentUser
  rw [bind_assoc, Store.run_select (o := .getUser user) rfl, hcurrent, Store.run_orRaise]

theorem run_requireProject {α : Type} {f : Project → Py α} {row : Project}
    (h : t.projects.get? project = some row) : t.run (requireProject project >>= f) = t.run (f row) := by
  unfold requireProject
  rw [bind_assoc, Store.run_select (o := .getProject project) rfl, h, Store.run_orRaise]

theorem run_requireEditor {α : Type} {f : Unit → Py α} {row : Project} {detail : String}
    (h : row.ownerId = user ∨
      ∃ member, t.membersOf project user = [member] ∧ Role.editor.rank ≤ member.2.role.rank) :
    t.run (requireEditor row project user detail >>= f) = t.run (f ()) := by
  unfold requireEditor
  by_cases howner : row.ownerId = user
  · rw [if_pos howner]
    rfl
  · obtain ⟨member, hmember, hrank⟩ := h.resolve_left howner
    have hselect : Op.select t (.selectMember project user) = some (.ok (some member)) := by
      simp only [Op.select, hmember, oneOrNone]
    rw [if_neg howner, bind_assoc, Store.run_select hselect, bind_assoc, Store.run_orRaise]
    dsimp only
    have hatLeast : atLeast member.2.role .editor = true := decide_eq_true hrank
    rw [Store.run_require, if_pos hatLeast]

/-- A request that may change the folder comes to the check of the parent, and then to the write. -/
theorem run_updateFolder (hmay : t.MayChange user project id)
    (hfolder : t.folders.get? id = some folder) (hproject : folder.projectId = project) :
    t.run (updateFolder user project id name parent rounds) = t.run (do
      let visits ← checkParent project (some id) parent.join rounds
      let _ ← await (.commit (folderWrites id folder name parent visits))
      let refreshed ← await (.getFolder id)
      let folder ← orRaise refreshed .other
      await (.broadcast project (.updated id folder))
      return .folder id folder) := by
  obtain ⟨row, hrow, heditor⟩ := hmay.editor
  have hfilter : (t.folders.get? id).filter (·.projectId = project) = some folder := by
    rw [hfolder]
    simp [Option.filter, hproject]
  unfold updateFolder
  obtain ⟨current, hcurrent⟩ := run_getCurrentUser (f := fun _ => _) hmay.known
  rw [hcurrent, Store.run_select (o := .getFolder id) rfl, hfilter, Store.run_orRaise]
  dsimp only
  rw [run_requireProject hrow, run_requireEditor heditor]

theorem updateFolder_refused (hmay : t.MayChange user project id)
    (hfolder : t.folders.get? id = some folder) (hproject : folder.projectId = project) {e : PyError}
    (hcheck : t.run (checkParent project (some id) parent.join rounds) = some (.error e, t)) :
    t.run (updateFolder user project id name parent rounds) = some (.error e, t) := by
  rw [run_updateFolder hmay hfolder hproject, Store.run_bind, hcheck]
  rfl

theorem updateFolder_saved (hmay : t.MayChange user project id)
    (hfolder : t.folders.get? id = some folder) (hproject : folder.projectId = project)
    {visits : List (Visit FolderId)}
    (hcheck : t.run (checkParent project (some id) parent.join rounds) = some (.ok visits, t))
    (hattached : attached t.folders (folder.set name parent) = true) :
    ∃ response t', t.run (updateFolder user project id name parent rounds) = some (.ok response, t') ∧
      ∀ i, t'.folders.get? i = if i = id then some (folder.set name parent) else t.folders.get? i := by
  obtain ⟨t', htransact, hfolders⟩ := transact_folderWrites visits hfolder hattached
  refine ⟨.folder id (folder.set name parent), t', ?_, hfolders⟩
  have hrow : t'.folders.get? id = some (folder.set name parent) := by
    rw [hfolders id, if_pos rfl]
  rw [run_updateFolder hmay hfolder hproject, Store.run_bind, hcheck]
  dsimp only [Option.bind]
  rw [run_save, htransact]
  dsimp only
  rw [hrow]

/-- Whether the check lets the new parent through. -/
theorem checkParent_ok_iff (hforest : IsForest (t.projectParents project))
    {r : Except PyError (List (Visit FolderId))} {target : FolderId}
    (hcheck : t.run (checkParent project (some id) (some target) rounds) = some (r, t')) :
    (∃ visits, r = .ok visits) ↔
      (t.projectParents project target).isSome ∧ ¬Under (t.projectParents project) id target := by
  cases r with
  | error e =>
    constructor
    · rintro ⟨visits, hok⟩
      cases hok
    · rintro ⟨hsome, hunder⟩
      obtain ⟨k, hk, hbelow⟩ := walkParents_error hforest hcheck
      obtain rfl := Option.some.inj hk
      exact absurd (hbelow hsome) hunder
  | ok visits =>
    refine ⟨fun _ => ?_, fun _ => ⟨visits, rfl⟩⟩
    obtain ⟨new, rfl, htrail, hnew⟩ := walkParents_ok [] hcheck (by simp)
    cases visits with
    | nil => exact absurd (htrail target rfl) List.not_mem_nil
    | cons v rest =>
      obtain rfl : target = v.1 := Option.some.inj htrail.1
      have hsome : (t.projectParents project v.1).isSome := by
        rw [hnew v List.mem_cons_self]
        rfl
      have hundisturbed : Undisturbed (t.projectParents project) id (v :: rest) := by
        apply Undisturbed.of_unchanged
        intro w hw now hnow
        rw [hnew w hw] at hnow
        exact (Option.some.inj hnow).symm
      exact ⟨hsome, htrail.not_under hforest hundisturbed hsome nofun⟩

/-- The new parent of an accepted request, where it sets one, is a folder of the project that is not the
moved folder or below it. -/
def LegalMove (t : Store) (project : ProjectId) (id : FolderId) (parent : Option (Option FolderId)) :
    Prop :=
  ∀ target, parent = some (some target) →
    (t.projectParents project target).isSome ∧ ¬Under (t.projectParents project) id target

/-- A row of a forest has its parent in the project, and a legal new one too. -/
theorem attached_of_legal (hforest : IsForest (t.projectParents project))
    (hfolder : t.folders.get? id = some folder) (hproject : folder.projectId = project)
    (hlegal : LegalMove t project id parent) : attached t.folders (folder.set name parent) = true := by
  have hthere : ∀ p, (t.projectParents project p).isSome → (t.folders.get? p).isSome := by
    intro p hp
    obtain ⟨above, habove⟩ := Option.isSome_iff_exists.1 hp
    obtain ⟨row, hrow, -⟩ := Store.projectParents_eq_some.1 habove
    rw [hrow]
    rfl
  rw [Store.attached_iff]
  intro p hp
  apply hthere
  cases parent with
  | none =>
    have hparent : t.projectParents project id = some (some p) :=
      Store.projectParents_eq_some.2 ⟨folder, hfolder, hproject, hp⟩
    exact (hforest.parent hparent).isSome
  | some new =>
    have hnew : new = some p := hp
    exact (hlegal p (congrArg some hnew)).1

theorem forest_of_legal (hforest : IsForest (t.projectParents project))
    (hfolder : t.folders.get? id = some folder) (hproject : folder.projectId = project)
    (hlegal : LegalMove t project id parent)
    (hfolders : ∀ i, t'.folders.get? i =
      if i = id then some (folder.set name parent) else t.folders.get? i) :
    IsForest (t'.projectParents project) := by
  obtain ⟨hid, hothers, -⟩ := projectParents_of_moved hfolder hproject hfolders
  cases parent with
  | none =>
    have hsame : t'.projectParents project = t.projectParents project := by
      funext i
      by_cases hi : i = id
      · rw [hi, hid]
        exact (Store.projectParents_eq_some.2 ⟨folder, hfolder, hproject, rfl⟩).symm
      · exact hothers i hi
    rw [hsame]
    exact hforest
  | some new =>
    apply hforest.move id new _ hid hothers
    intro p hp
    exact hlegal p (congrArg some hp)

/-- A program that changes nothing where it raises. -/
def Rejects {α : Type} (t : Store) (x : Py α) : Prop :=
  ∀ e t', t.run x = some (.error e, t') → t' = t

theorem Reads.run {α : Type} {x : Py α} {r : Except PyError α} (h : Reads x)
    (hrun : t.run x = some (r, t')) : t' = t := by
  obtain ⟨⟨r', c, u⟩, halone, heq⟩ := Option.map_eq_some_iff.1 hrun
  obtain ⟨rfl, rfl⟩ := Prod.mk.inj heq
  have hout := h t _ _ _ halone
  cases r' with
  | ok a => exact hout
  | error e => exact hout

theorem Reads.require (c : Bool) (e : PyError) : Reads (Async.require c e) :=
  fun _ => Leaves.require (fun _ => rfl) fun _ => rfl

/-- What comes before only reads. -/
theorem Rejects.after {α β : Type} {x : Py α} {f : α → Py β} (hx : Reads x)
    (hf : ∀ a, t.run x = some (.ok a, t) → Rejects t (f a)) : Rejects t (x >>= f) := by
  intro e t' h
  rw [Store.run_bind] at h
  obtain ⟨⟨r, u⟩, hrun, h⟩ := Option.bind_eq_some_iff.1 h
  have hu : u = t := hx.run hrun
  subst hu
  cases r with
  | error e' =>
    cases h
    rfl
  | ok a => exact hf a hrun e t' h

theorem reads_getCurrentUser : Reads (getCurrentUser user) :=
  (Reads.select fun _ => rfl).bind fun _ => Reads.orRaise _ _

theorem reads_requireProject : Reads (requireProject project) :=
  (Reads.select fun _ => rfl).bind fun _ => Reads.orRaise _ _

theorem reads_requireEditor (row : Project) (detail : String) :
    Reads (requireEditor row project user detail) := by
  unfold requireEditor
  split
  · exact Reads.pure ()
  · exact (Reads.select fun _ => rfl).bind fun _ => (Reads.orRaise _ _).bind fun _ =>
      Reads.require _ _

theorem reads_walkParents (moving : Option FolderId) (rounds : Nat) (visits : List (Visit FolderId))
    (current : Option FolderId) : Reads (walkParents project moving rounds visits current) := by
  induction rounds generalizing visits current with
  | zero =>
    unfold walkParents
    split
    · exact Reads.pure _
    · have hstuck : Reads (await .outOfRounds) := fun _ => Leaves.call fun _ _ _ h => nomatch h
      exact hstuck.bind fun _ => Reads.pure _
  | succ rounds ih =>
    unfold walkParents
    split
    · exact Reads.pure _
    · exact (Reads.require _ _).bind fun _ => (Reads.select fun _ => rfl).bind fun _ =>
        (Reads.orRaise _ _).bind fun _ => ih _ _

/-- A request that is rejected has changed nothing. -/
theorem rejects_updateFolder : Rejects t (updateFolder user project id name parent rounds) := by
  unfold updateFolder
  refine Rejects.after reads_getCurrentUser fun _ _ => ?_
  refine Rejects.after (Reads.select fun _ => rfl) fun found hfound => ?_
  refine Rejects.after (Reads.orRaise _ _) fun folder hfolder => ?_
  have hrow : t.folders.get? id = some folder := by
    have hread : t.run (await (.getFolder id)) = some (.ok (t.folders.get? id), t) := rfl
    rw [hread] at hfound
    cases hfound
    cases hfilter : (t.folders.get? id).filter (·.projectId = project) with
    | none =>
      rw [hfilter] at hfolder
      cases hfolder
    | some row =>
      rw [hfilter] at hfolder
      cases hfolder
      exact (Option.filter_eq_some_iff.1 hfilter).1
  refine Rejects.after reads_requireProject fun row _ => ?_
  refine Rejects.after (reads_requireEditor row _) fun _ _ => ?_
  refine Rejects.after (reads_walkParents _ _ _ _) fun visits _ => ?_
  intro e t' h
  rw [run_save] at h
  cases htransact : t.transact (folderWrites id folder name parent visits) with
  | none =>
    rw [htransact] at h
    cases h
    rfl
  | some u =>
    rw [htransact] at h
    dsimp only at h
    cases hget : u.folders.get? id with
    | some row' =>
      rw [hget] at h
      cases h
    | none => exact absurd hget (folder_of_transact hrow htransact)

/-- A move of a folder that the user may change, in a project whose folders are a forest. -/
theorem move_accepted_iff (hforest : IsForest (t.projectParents project))
    (hmay : t.MayChange user project id) (hrounds : t.folders.items.length < rounds) :
    ∃ r t', t.run (updateFolder user project id name parent rounds) = some (r, t') ∧
      ((∃ response, r = .ok response) ↔ LegalMove t project id parent) ∧
      ((∃ response, r = .ok response) → IsForest (t'.projectParents project) ∧
        (∀ new, parent = some new → t'.projectParents project id = some new) ∧
        ∀ q, q ≠ project → t'.projectParents q = t.projectParents q) := by
  obtain ⟨above, habove⟩ := Option.isSome_iff_exists.1 hmay.folder
  obtain ⟨folder, hfolder, hproject, -⟩ := Store.projectParents_eq_some.1 habove
  obtain ⟨r, hcheck⟩ : ∃ r, t.run (checkParent project (some id) parent.join rounds) = some (r, t) :=
    walkParents_ends ⟨hrounds, .nil, nofun⟩
  -- the check lets through what is legal
  have hlegal : (∃ visits, r = .ok visits) ↔ LegalMove t project id parent := by
    match parent with
    | some (some target) =>
      rw [checkParent_ok_iff hforest hcheck]
      constructor
      · rintro h p ⟨⟩
        exact h
      · exact fun h => h target rfl
    | none | some none =>
      have hdone : t.run (checkParent project (some id) none rounds) = some (.ok [], t) :=
        run_walkParents_done rfl
      rw [show Option.join _ = none from rfl, hdone] at hcheck
      cases hcheck
      exact ⟨fun _ => nofun, fun _ => ⟨[], rfl⟩⟩
  cases r with
  | error e =>
    refine ⟨.error e, t, updateFolder_refused hmay hfolder hproject hcheck, ?_, nofun⟩
    rw [← hlegal]
    exact ⟨nofun, nofun⟩
  | ok visits =>
    have hmove := hlegal.1 ⟨visits, rfl⟩
    obtain ⟨response, t', hrun, hfolders⟩ := updateFolder_saved hmay hfolder hproject hcheck
      (attached_of_legal hforest hfolder hproject hmove)
    obtain ⟨hid, -, hothers⟩ := projectParents_of_moved hfolder hproject hfolders
    refine ⟨.ok response, t', hrun, ⟨fun _ => hmove, fun _ => ⟨response, rfl⟩⟩, fun _ => ?_⟩
    refine ⟨forest_of_legal hforest hfolder hproject hmove hfolders, ?_, hothers⟩
    rintro new rfl
    exact hid

/-- **A folder move is accepted exactly when it is legal**: in a project whose folders are a forest, a
new parent is accepted if and only if it is a folder of the project that is not the moved one or below
it, and then the folders are a forest again. A request that is rejected has changed nothing. The check
of the parent ends on every folder graph. -/
theorem folder_moves_legal :
    (∀ (t : Store) user project id name parent rounds, IsForest (t.projectParents project) →
      t.MayChange user project id → t.folders.items.length < rounds →
      ∃ r t', t.run (updateFolder user project id name parent rounds) = some (r, t') ∧
        ((∃ response, r = .ok response) ↔ LegalMove t project id parent) ∧
        ((∃ response, r = .ok response) → IsForest (t'.projectParents project) ∧
          (∀ new, parent = some new → t'.projectParents project id = some new) ∧
          ∀ q, q ≠ project → t'.projectParents q = t.projectParents q)) ∧
    (∀ (t t' : Store) user project id name parent rounds e,
      t.run (updateFolder user project id name parent rounds) = some (.error e, t') → t' = t) ∧
    ∀ (t : Store) project moving parent rounds, t.folders.items.length < rounds →
      ∃ r, t.run (checkParent project moving parent rounds) = some (r, t) := by
  refine ⟨?_, ?_, ?_⟩
  · exact fun t user project id name parent rounds hforest hmay hrounds =>
      move_accepted_iff hforest hmay hrounds
  · exact fun t t' user project id name parent rounds e h => rejects_updateFolder e t' h
  · exact fun t project moving parent rounds hrounds => walkParents_ends ⟨hrounds, .nil, nofun⟩

/-- The second of two folders moves below the first. -/
theorem folder_moves_legal_three :
    ∃ response t', twoFolders.run (updateFolder 1 1 2 none (some (some 1)) 3) =
      some (.ok response, t') ∧ IsForest (t'.projectParents 1) := by
  have hroot : ∀ item ∈ twoFolders.folders.items, item.2.parentFolderId = none := by decide
  have hforest : IsForest (twoFolders.projectParents 1) := by
    intro id hid
    obtain ⟨parent, hparent⟩ := Option.isSome_iff_exists.1 hid
    obtain ⟨row, hrow, -, rfl⟩ := Store.projectParents_eq_some.1 hparent
    rw [hroot _ (Dict.mem_items_iff.2 hrow)] at hparent
    exact .root hparent
  have hmay : twoFolders.MayChange 1 1 2 := ⟨by decide, by decide, _, rfl, .inl rfl⟩
  have hone : twoFolders.projectParents 1 1 = some none := by decide
  have hlegal : LegalMove twoFolders 1 2 (some (some 1)) := by
    rintro target ⟨⟩
    refine ⟨by rw [hone]; rfl, fun hunder => ?_⟩
    cases hunder with
    | child h _ =>
      rw [hone] at h
      cases h
  obtain ⟨r, t', hrun, haccepted, hafter⟩ :=
    folder_moves_legal.1 twoFolders 1 1 2 none (some (some 1)) 3 hforest hmay (by decide)
  obtain ⟨response, rfl⟩ := haccepted.2 hlegal
  exact ⟨response, t', hrun, (hafter ⟨response, rfl⟩).1⟩

end Move

end Concord.Access
