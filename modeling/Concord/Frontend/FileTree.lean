import Mathlib

/-!
# The file tree of the sidebar

`TreeItem` and `FolderItem` of `components/FileTree.tsx`, with every folder open, as at first. The recursion
follows the parent links of whatever list of folders the page has, in which parents may be missing and links
may run in circles; `visited` stops it. `fuel` bounds how deep it may go, and any amount above the number of
folders is enough.

`shownAt` and `childFiles` say what one `TreeItem` shows. Counted over the whole tree, a folder is shown as
often as the folder it is in, which gives that everything is shown once where the links have no circle.
-/

namespace Concord.Sidebar

/-- `FolderMeta`. -/
structure FolderMeta where
  id : Int
  name : String
  parentFolderId : Option Int
deriving DecidableEq

/-- `FileMeta`. -/
structure FileMeta where
  id : Int
  path : String
  folderId : Option Int
deriving DecidableEq

/-- What is on the page: a folder with its contents, a folder that is not shown again, or a file. -/
inductive TreeNode
  | folder (folder : FolderMeta) (contents : List TreeNode)
  | cycleDetected (folder : FolderMeta)
  | file (file : FileMeta)

section Component

variable (files : List FileMeta) (folders : List FolderMeta)

/-- `existingIds`. -/
def existingIds : List Int := folders.map FolderMeta.id

/-- `childFolders`. -/
def childFolders (parentId : Option Int) : List FolderMeta :=
  folders.filter fun f => f.parentFolderId = parentId

/-- `orphanFolders`. -/
def orphanFolders (parentId : Option Int) : List FolderMeta :=
  if parentId = none then
    folders.filter fun f => f.parentFolderId.any fun parent => parent ∉ existingIds folders
  else []

/-- The folders that a `TreeItem` shows. -/
def shownAt (parentId : Option Int) : List FolderMeta :=
  childFolders folders parentId ++ orphanFolders folders parentId

/-- `childFiles`. -/
def childFiles (parentId : Option Int) : List FileMeta :=
  files.filter fun f =>
    f.folderId = parentId ∨ parentId = none ∧ ¬f.folderId.any fun id => id ∈ existingIds folders

/-- `FolderItem`; `contents` is the `TreeItem` in it. -/
def folderItem (contents : Option Int → Finset Int → Option (List TreeNode)) (visited : Finset Int)
    (folder : FolderMeta) : Option TreeNode :=
  if folder.id ∈ visited then some (.cycleDetected folder)
  else (contents (some folder.id) (insert folder.id visited)).map (.folder folder)

/-- `TreeItem`. -/
def treeItem : Nat → Option Int → Finset Int → Option (List TreeNode)
  | 0, _, _ => none
  | fuel + 1, parentId, visited => do
    let items ← (shownAt folders parentId).mapM (folderItem (treeItem fuel) visited)
    return items ++ (childFiles files folders parentId).map .file

end Component

/-! ## What is shown -/

mutual

/-- The folders that are shown with their contents. -/
def TreeNode.shownFolders : TreeNode → List FolderMeta
  | .folder folder contents => folder :: shownFolders contents
  | .cycleDetected _ => []
  | .file _ => []

def shownFolders : List TreeNode → List FolderMeta
  | [] => []
  | node :: nodes => node.shownFolders ++ shownFolders nodes

end

mutual

/-- The folders that are not shown again. -/
def TreeNode.cycles : TreeNode → List FolderMeta
  | .folder _ contents => cycles contents
  | .cycleDetected folder => [folder]
  | .file _ => []

def cycles : List TreeNode → List FolderMeta
  | [] => []
  | node :: nodes => node.cycles ++ cycles nodes

end

mutual

def TreeNode.shownFiles : TreeNode → List FileMeta
  | .folder _ contents => shownFiles contents
  | .cycleDetected _ => []
  | .file file => [file]

def shownFiles : List TreeNode → List FileMeta
  | [] => []
  | node :: nodes => node.shownFiles ++ shownFiles nodes

end

section Shown

variable (node : TreeNode) (nodes nodes' : List TreeNode) (files : List FileMeta)

theorem shownFolders_cons : shownFolders (node :: nodes) = node.shownFolders ++ shownFolders nodes := rfl

theorem cycles_cons : cycles (node :: nodes) = node.cycles ++ cycles nodes := rfl

theorem shownFiles_cons : shownFiles (node :: nodes) = node.shownFiles ++ shownFiles nodes := rfl

@[simp] theorem shownFolders_append : shownFolders (nodes ++ nodes') = shownFolders nodes ++ shownFolders nodes' := by
  induction nodes with
  | nil => rfl
  | cons node nodes ih => rw [List.cons_append, shownFolders_cons, shownFolders_cons, ih, List.append_assoc]

@[simp] theorem cycles_append : cycles (nodes ++ nodes') = cycles nodes ++ cycles nodes' := by
  induction nodes with
  | nil => rfl
  | cons node nodes ih => rw [List.cons_append, cycles_cons, cycles_cons, ih, List.append_assoc]

@[simp] theorem shownFiles_append : shownFiles (nodes ++ nodes') = shownFiles nodes ++ shownFiles nodes' := by
  induction nodes with
  | nil => rfl
  | cons node nodes ih => rw [List.cons_append, shownFiles_cons, shownFiles_cons, ih, List.append_assoc]

@[simp] theorem shownFolders_files : shownFolders (files.map .file) = [] := by
  induction files with
  | nil => rfl
  | cons file files ih => exact ih

@[simp] theorem cycles_files : cycles (files.map .file) = [] := by
  induction files with
  | nil => rfl
  | cons file files ih => exact ih

@[simp] theorem shownFiles_files : shownFiles (files.map .file) = files := by
  induction files with
  | nil => rfl
  | cons file files ih => exact congrArg (file :: ·) ih

end Shown

/-! ## The recursion ends -/

section Ends

variable {files : List FileMeta} {folders : List FolderMeta}

theorem mem_of_mem_shownAt {parentId : Option Int} {folder : FolderMeta} (h : folder ∈ shownAt folders parentId) :
    folder ∈ folders := by
  rcases List.mem_append.1 h with h | h
  · exact List.mem_of_mem_filter h
  · unfold orphanFolders at h
    split at h
    · exact List.mem_of_mem_filter h
    · cases h

theorem mapM_of_forall {α β : Type} {g : α → Option β} {h : α → β} {l : List α} (hl : ∀ x ∈ l, g x = some (h x)) :
    l.mapM g = some (l.map h) := by
  induction l with
  | nil => rfl
  | cons x l ih =>
    rw [List.mapM_cons, hl x List.mem_cons_self, ih fun y hy => hl y (List.mem_cons_of_mem _ hy)]
    rfl

/-- The ids that are not visited yet bound the depth. -/
theorem exists_treeItem (k : Nat) : ∀ (parentId : Option Int) (visited : Finset Int),
    ((existingIds folders).toFinset \ visited).card ≤ k →
      ∃ nodes, ∀ fuel, k < fuel → treeItem files folders fuel parentId visited = some nodes := by
  induction k with
  | zero =>
    intro parentId visited hcard
    -- every folder is visited, and the recursion goes no deeper
    have hall : ∀ folder ∈ folders, folder.id ∈ visited := by
      intro folder hfolder
      by_contra hnot
      have hmem : folder.id ∈ (existingIds folders).toFinset \ visited :=
        Finset.mem_sdiff.2 ⟨List.mem_toFinset.2 (List.mem_map_of_mem hfolder), hnot⟩
      have := Finset.card_pos.2 ⟨_, hmem⟩
      omega
    refine ⟨(shownAt folders parentId).map .cycleDetected ++ (childFiles files folders parentId).map .file, ?_⟩
    intro fuel hfuel
    obtain ⟨fuel, rfl⟩ := Nat.exists_eq_succ_of_ne_zero (Nat.ne_of_gt hfuel)
    have hitems : (shownAt folders parentId).mapM (folderItem (treeItem files folders fuel) visited) =
        some ((shownAt folders parentId).map .cycleDetected) := by
      refine mapM_of_forall fun folder hfolder => ?_
      exact if_pos (hall folder (mem_of_mem_shownAt hfolder))
    rw [treeItem, hitems]
    rfl
  | succ k ih =>
    intro parentId visited hcard
    have hitem : ∀ folder, ∃ node, folder ∈ folders →
        ∀ fuel, k < fuel → folderItem (treeItem files folders fuel) visited folder = some node := by
      intro folder
      by_cases hvisited : folder.id ∈ visited
      · exact ⟨.cycleDetected folder, fun _ fuel _ => if_pos hvisited⟩
      · by_cases hfolder : folder ∈ folders
        · have hmem : folder.id ∈ (existingIds folders).toFinset \ visited :=
            Finset.mem_sdiff.2 ⟨List.mem_toFinset.2 (List.mem_map_of_mem hfolder), hvisited⟩
          have hless : ((existingIds folders).toFinset \ insert folder.id visited).card ≤ k := by
            rw [Finset.sdiff_insert, Finset.card_erase_of_mem hmem]
            omega
          obtain ⟨nodes, hnodes⟩ := ih (some folder.id) (insert folder.id visited) hless
          refine ⟨.folder folder nodes, fun _ fuel hfuel => ?_⟩
          rw [folderItem, if_neg hvisited, hnodes fuel hfuel, Option.map_some]
        · exact ⟨.cycleDetected folder, fun h => absurd h hfolder⟩
    choose node hnode using hitem
    refine ⟨(shownAt folders parentId).map node ++ (childFiles files folders parentId).map .file, ?_⟩
    intro fuel hfuel
    obtain ⟨fuel, rfl⟩ := Nat.exists_eq_succ_of_ne_zero (Nat.ne_of_gt (Nat.zero_lt_of_lt hfuel))
    have hitems : (shownAt folders parentId).mapM (folderItem (treeItem files folders fuel) visited) =
        some ((shownAt folders parentId).map node) := by
      refine mapM_of_forall fun folder hfolder => ?_
      exact hnode folder (mem_of_mem_shownAt hfolder) fuel (Nat.lt_of_succ_lt_succ hfuel)
    rw [treeItem, hitems]
    rfl

theorem treeItem_succ_eq_some {fuel : Nat} {parentId : Option Int} {visited : Finset Int} {nodes : List TreeNode} :
    treeItem files folders (fuel + 1) parentId visited = some nodes ↔
      ∃ items, (shownAt folders parentId).mapM (folderItem (treeItem files folders fuel) visited) = some items ∧
        nodes = items ++ (childFiles files folders parentId).map .file := by
  rw [treeItem]
  cases (shownAt folders parentId).mapM (folderItem (treeItem files folders fuel) visited) with
  | none => simp
  | some items => simp [eq_comm]

theorem folderItem_eq_some {contents : Option Int → Finset Int → Option (List TreeNode)} {visited : Finset Int}
    {folder : FolderMeta} {node : TreeNode} (h : folderItem contents visited folder = some node) :
    folder.id ∈ visited ∧ node = .cycleDetected folder ∨
      folder.id ∉ visited ∧ ∃ nodes, contents (some folder.id) (insert folder.id visited) = some nodes ∧
        node = .folder folder nodes := by
  unfold folderItem at h
  split at h
  · next hvisited => exact .inl ⟨hvisited, (Option.some.inj h).symm⟩
  · next hvisited =>
    obtain ⟨nodes, hnodes, rfl⟩ := Option.map_eq_some_iff.1 h
    exact .inr ⟨hvisited, nodes, hnodes, rfl⟩

theorem forall₂_of_mapM {α β : Type} {g : α → Option β} {l : List α} {l' : List β} (h : l.mapM g = some l') :
    List.Forall₂ (fun x y => g x = some y) l l' := by
  induction l generalizing l' with
  | nil =>
    obtain rfl := Option.some.inj h
    exact .nil
  | cons x l ih =>
    rw [List.mapM_cons] at h
    obtain ⟨y, hy, h⟩ := Option.bind_eq_some_iff.1 h
    obtain ⟨rest, hrest, h⟩ := Option.bind_eq_some_iff.1 h
    obtain rfl := Option.some.inj h
    exact .cons hy (ih hrest)

end Ends

/-! ## How often a folder is shown -/

section Count

variable {files : List FileMeta} {folders : List FolderMeta} {fuel : Nat} {parentId : Option Int}
  {visited : Finset Int} {nodes : List TreeNode} {folder : FolderMeta} {file : FileMeta}

/-- How often the folder is shown in those. -/
def timesIn (folders : List FolderMeta) (folder : FolderMeta) (shown : List FolderMeta) : Nat :=
  (shown.map fun f => (shownAt folders (some f.id)).count folder).sum

theorem count_items {items : List FolderMeta}
    (h : List.Forall₂ (fun item node => node.shownFolders.count folder + node.cycles.count folder =
      (if item == folder then 1 else 0) + timesIn folders folder node.shownFolders) items nodes) :
    (shownFolders nodes).count folder + (cycles nodes).count folder =
      items.count folder + timesIn folders folder (shownFolders nodes) := by
  induction h with
  | nil => rfl
  | @cons item node items nodes hitem _ ih =>
    have hsplit : timesIn folders folder (node.shownFolders ++ shownFolders nodes) =
        timesIn folders folder node.shownFolders + timesIn folders folder (shownFolders nodes) := by
      simp [timesIn]
    rw [shownFolders_cons, cycles_cons, hsplit, List.count_append, List.count_append, List.count_cons]
    omega

/-- A folder is shown, or found to be visited, once for every `TreeItem` that shows it. -/
theorem count_shownFolders (h : treeItem files folders fuel parentId visited = some nodes) :
    (shownFolders nodes).count folder + (cycles nodes).count folder =
      (shownAt folders parentId).count folder + timesIn folders folder (shownFolders nodes) := by
  induction fuel generalizing parentId visited nodes with
  | zero => cases h
  | succ fuel ih =>
    obtain ⟨items, hitems, rfl⟩ := treeItem_succ_eq_some.1 h
    simp only [shownFolders_append, cycles_append, shownFolders_files, cycles_files, List.append_nil]
    refine count_items ((forall₂_of_mapM hitems).imp fun item node hnode => ?_)
    rcases folderItem_eq_some hnode with ⟨-, rfl⟩ | ⟨-, contents, hcontents, rfl⟩
    · simp [TreeNode.shownFolders, TreeNode.cycles, timesIn, List.count_cons]
    · have hin := ih hcontents
      have hsplit : timesIn folders folder (item :: shownFolders contents) =
          (shownAt folders (some item.id)).count folder + timesIn folders folder (shownFolders contents) := by
        simp [timesIn]
      rw [TreeNode.shownFolders, TreeNode.cycles, List.count_cons, hsplit]
      omega

/-- How often the file is shown in those. -/
def fileTimesIn (files : List FileMeta) (folders : List FolderMeta) (file : FileMeta) (shown : List FolderMeta) : Nat :=
  (shown.map fun f => (childFiles files folders (some f.id)).count file).sum

theorem count_fileItems {items : List FolderMeta}
    (h : List.Forall₂ (fun _ node => node.shownFiles.count file =
      fileTimesIn files folders file node.shownFolders) items nodes) :
    (shownFiles nodes).count file = fileTimesIn files folders file (shownFolders nodes) := by
  induction h with
  | nil => rfl
  | @cons item node items nodes hitem _ ih =>
    have hsplit : fileTimesIn files folders file (node.shownFolders ++ shownFolders nodes) =
        fileTimesIn files folders file node.shownFolders + fileTimesIn files folders file (shownFolders nodes) := by
      simp [fileTimesIn]
    rw [shownFolders_cons, shownFiles_cons, hsplit, List.count_append]
    omega

theorem count_shownFiles (h : treeItem files folders fuel parentId visited = some nodes) :
    (shownFiles nodes).count file =
      (childFiles files folders parentId).count file + fileTimesIn files folders file (shownFolders nodes) := by
  induction fuel generalizing parentId visited nodes with
  | zero => cases h
  | succ fuel ih =>
    obtain ⟨items, hitems, rfl⟩ := treeItem_succ_eq_some.1 h
    have hrest : (shownFiles items).count file = fileTimesIn files folders file (shownFolders items) := by
      refine count_fileItems ((forall₂_of_mapM hitems).imp fun item node hnode => ?_)
      rcases folderItem_eq_some hnode with ⟨-, rfl⟩ | ⟨-, contents, hcontents, rfl⟩
      · simp [TreeNode.shownFiles, TreeNode.shownFolders, fileTimesIn]
      · rw [TreeNode.shownFiles, TreeNode.shownFolders, ih hcontents]
        simp [fileTimesIn]
    rw [shownFiles_append, shownFiles_files, shownFolders_append, shownFolders_files, List.append_nil,
      List.count_append, hrest]
    omega

end Count

/-! ## Folders without a circle -/

section Acyclic

variable {files : List FileMeta} {folders : List FolderMeta} {fuel : Nat} {parentId : Option Int}
  {visited : Finset Int} {nodes : List TreeNode} {folder : FolderMeta}

/-- The folder with the one id is in that with the other, if there is such a folder. -/
def ParentLink (folders : List FolderMeta) (id parent : Int) : Prop :=
  ∃ folder ∈ folders, folder.id = id ∧ folder.parentFolderId = some parent

/-- No folder is in itself, directly or through others. -/
def Acyclic (folders : List FolderMeta) : Prop := ∀ id, ¬Relation.TransGen (ParentLink folders) id id

theorem mem_shownAt_some {id : Int} : folder ∈ shownAt folders (some id) ↔
    folder ∈ folders ∧ folder.parentFolderId = some id := by
  simp [shownAt, childFolders, orphanFolders]

theorem cycles_eq_nil_of_forall (h : ∀ node ∈ nodes, node.cycles = []) : cycles nodes = [] := by
  induction nodes with
  | nil => rfl
  | cons node nodes ih =>
    rw [cycles_cons, h node List.mem_cons_self, ih fun node hnode => h node (List.mem_cons_of_mem _ hnode)]
    rfl

/-- What is visited is above, so that nothing is found to be visited. -/
theorem cycles_eq_nil (hacyclic : Acyclic folders)
    (hvisited : ∀ id ∈ visited, ∃ above ∈ parentId, Relation.ReflTransGen (ParentLink folders) above id)
    (h : treeItem files folders fuel parentId visited = some nodes) : cycles nodes = [] := by
  induction fuel generalizing parentId visited nodes with
  | zero => cases h
  | succ fuel ih =>
    obtain ⟨items, hitems, rfl⟩ := treeItem_succ_eq_some.1 h
    rw [cycles_append, cycles_files, List.append_nil]
    refine cycles_eq_nil_of_forall fun node hnode => ?_
    obtain ⟨folder, hfolder, hitem⟩ : ∃ folder ∈ shownAt folders parentId,
        folderItem (treeItem files folders fuel) visited folder = some node := by
      obtain ⟨i, hi, rfl⟩ := List.getElem_of_mem hnode
      have hall := List.forall₂_iff_get.1 (forall₂_of_mapM hitems)
      exact ⟨_, List.get_mem _ _, hall.2 i (hall.1 ▸ hi) hi⟩
    -- a folder that is shown in another one is linked to it
    have hlink : ∀ above ∈ parentId, ParentLink folders folder.id above := by
      rintro above habove
      rw [Option.mem_def.1 habove] at hfolder
      obtain ⟨hmem, hparent⟩ := mem_shownAt_some.1 hfolder
      exact ⟨folder, hmem, rfl, hparent⟩
    rcases folderItem_eq_some hitem with ⟨hid, -⟩ | ⟨-, contents, hcontents, rfl⟩
    · obtain ⟨above, habove, hpath⟩ := hvisited folder.id hid
      exact absurd (Relation.TransGen.head' (hlink above habove) hpath) (hacyclic folder.id)
    · rw [TreeNode.cycles]
      refine ih (fun id hid => ⟨folder.id, rfl, ?_⟩) hcontents
      rcases Finset.mem_insert.1 hid with rfl | hid
      · exact .refl
      · obtain ⟨above, habove, hpath⟩ := hvisited id hid
        exact .head (hlink above habove) hpath

/-- Everything in a list of folders without a circle, from the roots down. -/
theorem Acyclic.induction (hacyclic : Acyclic folders) {P : FolderMeta → Prop}
    (h : ∀ folder ∈ folders, (∀ parent ∈ folders, folder.parentFolderId = some parent.id → P parent) → P folder) :
    ∀ folder ∈ folders, P folder := by
  let below : Int → Int → Prop := fun parent id => Relation.TransGen (ParentLink folders) id parent
  have : IsStrictOrder Int below :=
    { irrefl := fun id hloop => hacyclic id hloop
      trans := fun _ _ _ hab hbc => hbc.trans hab }
  have hfounded : {id | id ∈ existingIds folders}.WellFoundedOn below :=
    (List.finite_toSet (existingIds folders)).wellFoundedOn
  have hids : ∀ id ∈ existingIds folders, ∀ folder ∈ folders, folder.id = id → P folder := by
    intro id hid
    refine hfounded.induction (P := fun id => ∀ folder ∈ folders, folder.id = id → P folder) hid
      fun id _ ih folder hfolder hsame => h folder hfolder fun parent hmem hparent => ?_
    have hlink : ParentLink folders id parent.id := ⟨folder, hfolder, hsame, hparent⟩
    exact ih parent.id (List.mem_map_of_mem hmem) (.single hlink) parent hmem rfl
  intro folder hfolder
  exact hids folder.id (List.mem_map_of_mem hfolder) folder hfolder rfl

end Acyclic

/-! ## Everything once -/

section Once

variable {files : List FileMeta} {folders : List FolderMeta} {fuel : Nat} {nodes : List TreeNode}
  {folder : FolderMeta} {file : FileMeta}

theorem count_shownAt_none (hids : (existingIds folders).Nodup) (hfolder : folder ∈ folders) :
    (shownAt folders none).count folder =
      if ∀ parent ∈ folder.parentFolderId, parent ∉ existingIds folders then 1 else 0 := by
  have hone : folders.count folder = 1 := List.count_eq_one_of_mem (List.Nodup.of_map _ hids) hfolder
  have hno : ∀ p : FolderMeta → Bool, p folder = false → (folders.filter p).count folder = 0 := by
    intro p hp
    refine List.count_eq_zero_of_not_mem fun hmem => ?_
    have := (List.mem_filter.1 hmem).2
    rw [hp] at this
    cases this
  rw [shownAt, List.count_append, childFolders, orphanFolders, if_pos rfl]
  cases h : folder.parentFolderId with
  | none =>
    rw [List.count_filter (by simp [h]), hno _ (by simp [h]), hone]
    simp
  | some parent =>
    rw [hno _ (by simp [h])]
    by_cases hlisted : parent ∈ existingIds folders
    · rw [hno _ (by simp [h, hlisted])]
      simp [hlisted]
    · rw [List.count_filter (by simp [h, hlisted]), hone]
      simp [hlisted]

theorem count_shownAt_some (hids : (existingIds folders).Nodup) (hfolder : folder ∈ folders) (id : Int) :
    (shownAt folders (some id)).count folder = if folder.parentFolderId = some id then 1 else 0 := by
  have hone : folders.count folder = 1 := List.count_eq_one_of_mem (List.Nodup.of_map _ hids) hfolder
  by_cases h : folder.parentFolderId = some id
  · rw [if_pos h, shownAt, orphanFolders, if_neg (Option.some_ne_none id), List.append_nil, childFolders,
      List.count_filter (by simpa using h), hone]
  · rw [if_neg h]
    exact List.count_eq_zero_of_not_mem fun hmem => h (mem_shownAt_some.1 hmem).2

/-- Nothing is shown but what is in the list. -/
theorem mem_of_mem_shownFolders {parentId : Option Int} {visited : Finset Int}
    (h : treeItem files folders fuel parentId visited = some nodes) (hfolder : folder ∈ shownFolders nodes) :
    folder ∈ folders := by
  by_contra hnot
  have hnever : ∀ id, (shownAt folders id).count folder = 0 := fun id =>
    List.count_eq_zero_of_not_mem fun hmem => hnot (mem_of_mem_shownAt hmem)
  have htimes : timesIn folders folder (shownFolders nodes) = 0 := by
    rw [timesIn, List.sum_eq_zero_iff]
    intro n hn
    obtain ⟨f, -, rfl⟩ := List.mem_map.1 hn
    exact hnever (some f.id)
  have hcount : (shownFolders nodes).count folder + (cycles nodes).count folder = _ := count_shownFolders h
  have hpos := List.count_pos_iff.2 hfolder
  rw [hnever parentId, htimes] at hcount
  omega

theorem timesIn_eq (hids : (existingIds folders).Nodup) (hfolder : folder ∈ folders) (shown : List FolderMeta) :
    timesIn folders folder shown = shown.countP fun f => folder.parentFolderId = some f.id := by
  induction shown with
  | nil => rfl
  | cons f shown ih =>
    have hsplit : timesIn folders folder (f :: shown) =
        (shownAt folders (some f.id)).count folder + timesIn folders folder shown := by
      simp [timesIn]
    rw [hsplit, count_shownAt_some hids hfolder, ih, List.countP_cons]
    by_cases h : folder.parentFolderId = some f.id
    · simp [h, Nat.add_comm]
    · simp [h]

/-- Without a circle every folder is shown once, in the one it is in or, where that is missing, at the root. -/
theorem count_shownFolders_eq_one (hids : (existingIds folders).Nodup) (hacyclic : Acyclic folders)
    (h : treeItem files folders fuel none ∅ = some nodes) :
    ∀ folder ∈ folders, (shownFolders nodes).count folder = 1 := by
  have hcycles : cycles nodes = [] := cycles_eq_nil hacyclic (by simp) h
  refine hacyclic.induction fun folder hfolder ih => ?_
  have hcount : (shownFolders nodes).count folder + (cycles nodes).count folder = _ := count_shownFolders h
  rw [hcycles, List.count_nil, Nat.add_zero, count_shownAt_none hids hfolder, timesIn_eq hids hfolder] at hcount
  by_cases hlisted : ∀ parent ∈ folder.parentFolderId, parent ∉ existingIds folders
  · -- it is shown at the root, and in no folder
    have hnone : (shownFolders nodes).countP (fun f => folder.parentFolderId = some f.id) = 0 := by
      rw [List.countP_eq_zero]
      intro f hf hparent
      have hmem := mem_of_mem_shownFolders h hf
      exact hlisted f.id (of_decide_eq_true hparent) (List.mem_map_of_mem hmem)
    rw [hcount, if_pos hlisted, hnone]
  · -- it is shown where its folder is
    push Not at hlisted
    obtain ⟨parent, hparent, hlisted⟩ := hlisted
    obtain ⟨above, habove, rfl⟩ := List.mem_map.1 hlisted
    have hsame : (shownFolders nodes).countP (fun f => folder.parentFolderId = some f.id) =
        (shownFolders nodes).count above := by
      rw [List.count_eq_countP]
      refine List.countP_congr fun f hf => ?_
      have hmem := mem_of_mem_shownFolders h hf
      rw [Option.mem_def.1 hparent, decide_eq_true_iff, beq_iff_eq, Option.some_inj]
      constructor
      · intro hid
        exact List.inj_on_of_nodup_map hids hmem habove hid.symm
      · rintro rfl
        rfl
    have hroot : ¬∀ parent ∈ folder.parentFolderId, parent ∉ existingIds folders :=
      fun hall => hall above.id hparent hlisted
    rw [hcount, if_neg hroot, hsame, ih above habove (Option.mem_def.1 hparent)]

theorem shownFolders_perm (hids : (existingIds folders).Nodup) (hacyclic : Acyclic folders)
    (h : treeItem files folders fuel none ∅ = some nodes) : (shownFolders nodes).Perm folders := by
  refine List.perm_iff_count.2 fun folder => ?_
  by_cases hfolder : folder ∈ folders
  · rw [count_shownFolders_eq_one hids hacyclic h folder hfolder,
      List.count_eq_one_of_mem (List.Nodup.of_map _ hids) hfolder]
  · rw [List.count_eq_zero_of_not_mem hfolder,
      List.count_eq_zero_of_not_mem fun hmem => hfolder (mem_of_mem_shownFolders h hmem)]

theorem count_childFiles (parentId : Option Int) : (childFiles files folders parentId).count file =
    if file.folderId = parentId ∨ parentId = none ∧ ¬file.folderId.any (fun id => id ∈ existingIds folders) then
      files.count file
    else 0 := by
  split
  · next h => exact List.count_filter (decide_eq_true h)
  · next h => exact List.count_eq_zero_of_not_mem fun hmem => h (of_decide_eq_true (List.mem_filter.1 hmem).2)

theorem sum_childFiles (shown : List FolderMeta) : fileTimesIn files folders file shown =
    (shown.countP fun f => file.folderId = some f.id) * files.count file := by
  induction shown with
  | nil => simp [fileTimesIn]
  | cons f shown ih =>
    have hsplit : fileTimesIn files folders file (f :: shown) =
        (childFiles files folders (some f.id)).count file + fileTimesIn files folders file shown := by
      simp [fileTimesIn]
    rw [hsplit, ih, count_childFiles, List.countP_cons]
    by_cases h : file.folderId = some f.id
    · simp [h, Nat.add_mul, Nat.add_comm]
    · simp [h]

theorem shownFiles_perm (hids : (existingIds folders).Nodup) (hacyclic : Acyclic folders)
    (h : treeItem files folders fuel none ∅ = some nodes) : (shownFiles nodes).Perm files := by
  refine List.perm_iff_count.2 fun file => ?_
  have hperm := shownFolders_perm hids hacyclic h
  rw [count_shownFiles h, count_childFiles, sum_childFiles, hperm.countP_eq]
  -- in how many of the folders the file is
  have hfolders : folders.countP (fun f => file.folderId = some f.id) =
      if file.folderId.any (fun id => id ∈ existingIds folders) then 1 else 0 := by
    have hcount : ∀ id, folders.countP (fun f => some id = some f.id) = (existingIds folders).count id := by
      intro id
      rw [existingIds, List.count_eq_countP, List.countP_map]
      refine List.countP_congr fun f _ => ?_
      rw [Function.comp_apply, decide_eq_true_iff, beq_iff_eq, Option.some_inj]
      exact eq_comm
    cases file.folderId with
    | none => simp
    | some id =>
      rw [hcount]
      by_cases hlisted : id ∈ existingIds folders
      · simpa [hlisted] using List.count_eq_one_of_mem hids hlisted
      · simpa [hlisted] using List.count_eq_zero_of_not_mem hlisted
  rw [hfolders]
  cases hfile : file.folderId with
  | none => simp
  | some id =>
    by_cases hlisted : id ∈ existingIds folders
    · simp [hlisted]
    · simp [hlisted]

/-- **The file tree shows everything once.** The recursion from the root ends, whatever the folders are; and
where they have ids of their own and no circle, it shows every folder and every file once. -/
theorem file_tree_shows_once (files : List FileMeta) (folders : List FolderMeta) :
    ∃ nodes, (∀ fuel, folders.length < fuel → treeItem files folders fuel none ∅ = some nodes) ∧
      ((existingIds folders).Nodup → Acyclic folders →
        (shownFolders nodes).Perm folders ∧ (shownFiles nodes).Perm files ∧ cycles nodes = []) := by
  have hcard : ((existingIds folders).toFinset \ ∅).card ≤ folders.length := by
    rw [Finset.sdiff_empty]
    exact (List.toFinset_card_le _).trans_eq (List.length_map _)
  have hends : ∃ nodes, ∀ fuel, folders.length < fuel → treeItem files folders fuel none ∅ = some nodes :=
    exists_treeItem folders.length none ∅ hcard
  obtain ⟨nodes, hnodes⟩ := hends
  have h := hnodes (folders.length + 1) (Nat.lt_succ_self _)
  exact ⟨nodes, hnodes, fun hids hacyclic =>
    ⟨shownFolders_perm hids hacyclic h, shownFiles_perm hids hacyclic h, cycles_eq_nil hacyclic (by simp) h⟩⟩

/-- `lib` in `src`, and a folder whose parent is missing. -/
theorem file_tree_shows_once_three :
    let folders : List FolderMeta := [⟨2, "lib", some 1⟩, ⟨1, "src", none⟩, ⟨3, "old", some 9⟩]
    let files : List FileMeta := [⟨1, "main.py", none⟩, ⟨2, "src/lib/a.py", some 2⟩, ⟨3, "lost.py", some 8⟩]
    ∃ nodes, (∀ fuel, 3 < fuel → treeItem files folders fuel none ∅ = some nodes) ∧
      (shownFolders nodes).Perm folders ∧ (shownFiles nodes).Perm files ∧ cycles nodes = [] := by
  intro folders files
  have hlink : ∀ id parent, ParentLink folders id parent → id = 2 ∧ parent = 1 ∨ id = 3 ∧ parent = 9 := by
    rintro id parent ⟨folder, hfolder, rfl, hparent⟩
    simp only [folders, List.mem_cons, List.not_mem_nil, or_false] at hfolder
    rcases hfolder with rfl | rfl | rfl
    · exact .inl ⟨rfl, (Option.some.inj hparent).symm⟩
    · cases hparent
    · exact .inr ⟨rfl, (Option.some.inj hparent).symm⟩
  have hpath : ∀ id parent, Relation.TransGen (ParentLink folders) id parent →
      id = 2 ∧ parent = 1 ∨ id = 3 ∧ parent = 9 := by
    intro id parent h
    induction h with
    | single h => exact hlink _ _ h
    | tail _ h ih =>
      have := hlink _ _ h
      omega
  have hacyclic : Acyclic folders := by
    intro id hloop
    have := hpath id id hloop
    omega
  obtain ⟨nodes, hnodes, honce⟩ := file_tree_shows_once files folders
  exact ⟨nodes, hnodes, honce (by decide) hacyclic⟩

end Once

end Concord.Sidebar
