import Concord.Search.Text

/-!
# Searching a project

`search_project` searches the files of a project one after the other, in the order of their paths, and stops
at `MAX_MATCHES` matches. It asks each file for one match more than it still needs, which tells it whether
there are more than it shows: its result is exactly the first matches of all, and it knows whether it is
complete (`search_cap_exact`).
-/

namespace Concord.Search

open Concord.Base

def maxMatches : Nat := 500

/-- `SearchFile`. -/
structure SearchFile where
  fileId : FileId
  path : String
  fileMatches : List SearchMatch
deriving DecidableEq

/-- `SearchOut`. -/
structure SearchOut where
  query : List Char
  files : List SearchFile
  total : Nat
  truncated : Bool
deriving DecidableEq

/-- The order in which the database sorts texts. -/
structure Collation where
  le : String → String → Bool
  trans : ∀ a b c, le a b = true → le b c = true → le a c = true
  total : ∀ a b, (le a b || le b a) = true

/-- What `search_project` reads. -/
structure Sources where
  members : List ProjectMember
  files : List File
  collation : Collation
  /-- `get_file_text`, at the moment at which the search comes to the file. -/
  getFileText : ProjectId → FileId → Except PyError (List Char)

namespace Sources

variable (sources : Sources) (project : ProjectId)

/-- `get_member`. -/
def getMember (user : UserId) : Except PyError ProjectMember :=
  match sources.members.find? fun member => member.projectId = project && member.userId = user with
  | some member => .ok member
  | none => .error (.http 403 "Not a member of this project")

/-- The files of the project, by path. -/
def filesByPath : List File :=
  (sources.files.filter fun f => f.projectId = project).mergeSort fun f g => sources.collation.le f.path g.path

end Sources

/-- A file joins those found, if it has matches. -/
def addFile (found : List SearchFile) (f : File) (here : List SearchMatch) : List SearchFile :=
  if here = [] then found else found ++ [⟨f.id, f.path, here⟩]

/-- The loop of `search_project`, with the files found so far and their matches. -/
def searchFiles (getFileText : FileId → Except PyError (List Char)) (pattern : Pattern) :
    List SearchFile → Nat → List File → Except PyError (List SearchFile × Nat × Bool)
  | found, total, [] => .ok (found, total, false)
  | found, total, f :: files => do
    let text ← getFileText f.id
    let here := searchText text pattern (maxMatches - total + 1)
    if here = [] then searchFiles getFileText pattern found total files
    else if maxMatches < total + here.length then
      let here := here.take (maxMatches - total)
      .ok (addFile found f here, total + here.length, true)
    else searchFiles getFileText pattern (addFile found f here) (total + here.length) files

/-- `search_project`. -/
def searchProject (tables : Tables) (sources : Sources) (project : ProjectId) (user : UserId) (query : Query) :
    Except PyError SearchOut := do
  let _ ← sources.getMember project user
  let pattern := compile tables query
  let (found, total, truncated) ←
    searchFiles (sources.getFileText project) pattern [] 0 (sources.filesByPath project)
  return { query := query.q, files := found, total := total, truncated := truncated }

/-! ## The listing -/

/-- A match with its file. -/
structure Listed where
  fileId : FileId
  path : String
  searchMatch : SearchMatch
deriving DecidableEq

/-- The matches in the order in which they are shown. -/
def listing (files : List SearchFile) : List Listed :=
  files.flatMap fun f => f.fileMatches.map fun m => ⟨f.fileId, f.path, m⟩

/-- All matches in the files. -/
def allMatches (texts : FileId → List Char) (pattern : Pattern) (files : List File) : List Listed :=
  files.flatMap fun f => (found pattern (texts f.id)).map fun m => ⟨f.id, f.path, m.searchMatch⟩

@[simp] theorem listing_nil : listing [] = [] := rfl

@[simp] theorem listing_addFile (shown : List SearchFile) (f : File) (here : List SearchMatch) :
    listing (addFile shown f here) = listing shown ++ here.map fun m => ⟨f.id, f.path, m⟩ := by
  unfold addFile
  split
  · next h => simp [h]
  · simp [listing]

theorem mem_addFile {shown : List SearchFile} {f : File} {here : List SearchMatch} {file : SearchFile}
    (h : file ∈ addFile shown f here) : file ∈ shown ∨ file.fileMatches ≠ [] := by
  unfold addFile at h
  split at h
  · exact .inl h
  · next hne =>
    rcases List.mem_append.1 h with h | h
    · exact .inl h
    · rw [List.mem_singleton.1 h]
      exact .inr hne

theorem map_fileId_addFile (shown : List SearchFile) (f : File) (here : List SearchMatch) :
    ((addFile shown f here).map SearchFile.fileId).Sublist (shown.map SearchFile.fileId ++ [f.id]) := by
  unfold addFile
  split
  · exact List.sublist_append_left _ _
  · rw [List.map_append, List.map_singleton]

section Loop

variable {getFileText : FileId → Except PyError (List Char)} {texts : FileId → List Char} {pattern : Pattern}
  {shown : List SearchFile} {total : Nat} {f : File} {files : List File}

@[simp] theorem allMatches_nil : allMatches texts pattern [] = [] := rfl

@[simp] theorem allMatches_cons : allMatches texts pattern (f :: files) =
    ((found pattern (texts f.id)).map fun m => ⟨f.id, f.path, m.searchMatch⟩) ++ allMatches texts pattern files :=
  rfl

/-- A file whose matches all have a place in the result. -/
theorem searchFiles_fits (hread : getFileText f.id = .ok (texts f.id))
    (hfits : total + (found pattern (texts f.id)).length ≤ maxMatches) :
    searchFiles getFileText pattern shown total (f :: files) =
      searchFiles getFileText pattern (addFile shown f ((found pattern (texts f.id)).map Found.searchMatch))
        (total + (found pattern (texts f.id)).length) files := by
  have hhere : searchText (texts f.id) pattern (maxMatches - total + 1) =
      (found pattern (texts f.id)).map Found.searchMatch := by
    rw [searchText_eq, List.take_of_length_le (by omega)]
  rw [searchFiles, hread]
  change (if searchText (texts f.id) pattern (maxMatches - total + 1) = [] then _ else _) = _
  rw [hhere]
  by_cases hnone : found pattern (texts f.id) = []
  · simp [hnone, addFile]
  · have hsome : (found pattern (texts f.id)).map Found.searchMatch ≠ [] := by simpa using hnone
    rw [if_neg hsome, if_neg (by rw [List.length_map]; omega), List.length_map]

/-- A file with more matches than have a place. -/
theorem searchFiles_full (hread : getFileText f.id = .ok (texts f.id)) (htotal : total ≤ maxMatches)
    (hmore : maxMatches < total + (found pattern (texts f.id)).length) :
    searchFiles getFileText pattern shown total (f :: files) = .ok
      (addFile shown f (((found pattern (texts f.id)).take (maxMatches - total)).map Found.searchMatch),
        maxMatches, true) := by
  have hhere : searchText (texts f.id) pattern (maxMatches - total + 1) =
      ((found pattern (texts f.id)).take (maxMatches - total + 1)).map Found.searchMatch := by
    rw [searchText_eq, Nat.max_eq_left (Nat.le_add_left 1 _)]
  have hlength : (((found pattern (texts f.id)).take (maxMatches - total + 1)).map Found.searchMatch).length =
      maxMatches - total + 1 := by
    rw [List.length_map, List.length_take_of_le (by omega)]
  have hkept : (((found pattern (texts f.id)).take (maxMatches - total + 1)).map Found.searchMatch).take
      (maxMatches - total) = ((found pattern (texts f.id)).take (maxMatches - total)).map Found.searchMatch := by
    rw [← List.map_take, List.take_take, Nat.min_eq_left (Nat.le_succ _)]
  rw [searchFiles, hread]
  change (if searchText (texts f.id) pattern (maxMatches - total + 1) = [] then _ else _) = _
  rw [hhere, if_neg (fun h => by rw [h] at hlength; cases hlength), if_pos (by rw [hlength]; omega)]
  dsimp only
  rw [hkept, List.length_map, List.length_take_of_le (by omega), Nat.add_sub_cancel' htotal]

/-- The loop lists the first matches of all, up to its limit. -/
theorem searchFiles_eq (pattern : Pattern) (shown : List SearchFile)
    (hread : ∀ f ∈ files, getFileText f.id = .ok (texts f.id)) (htotal : total ≤ maxMatches) :
    ∃ out, searchFiles getFileText pattern shown total files = .ok
        (out, min (total + (allMatches texts pattern files).length) maxMatches,
          decide (maxMatches < total + (allMatches texts pattern files).length)) ∧
      listing out = listing shown ++ (allMatches texts pattern files).take (maxMatches - total) ∧
      (∀ file ∈ out, file ∈ shown ∨ file.fileMatches ≠ []) ∧
      (out.map SearchFile.fileId).Sublist (shown.map SearchFile.fileId ++ files.map File.id) := by
  induction files generalizing shown total with
  | nil =>
    refine ⟨shown, ?_, by simp, fun file hfile => .inl hfile, by simp⟩
    rw [searchFiles, allMatches_nil, List.length_nil, Nat.add_zero, Nat.min_eq_left htotal,
      decide_eq_false (Nat.not_lt.2 htotal)]
  | cons f files ih =>
    have hf := hread f List.mem_cons_self
    rw [allMatches_cons, List.length_append, List.length_map]
    by_cases hfits : total + (found pattern (texts f.id)).length ≤ maxMatches
    · rw [searchFiles_fits hf hfits]
      obtain ⟨out, hout, hlisting, hmatches, hids⟩ :=
        ih (addFile shown f ((found pattern (texts f.id)).map Found.searchMatch))
          (fun f h => hread f (List.mem_cons_of_mem _ h)) hfits
      have hwhole : ((found pattern (texts f.id)).map fun m => (⟨f.id, f.path, m.searchMatch⟩ : Listed)).take
          (maxMatches - total) = (found pattern (texts f.id)).map fun m => ⟨f.id, f.path, m.searchMatch⟩ :=
        List.take_of_length_le (by rw [List.length_map]; omega)
      refine ⟨out, ?_, ?_, fun file hfile => ?_, ?_⟩
      · rw [hout, Nat.add_assoc]
      · rw [hlisting, listing_addFile, List.map_map, List.append_assoc, List.take_append, hwhole, List.length_map,
          Nat.sub_sub]
        rfl
      · rcases hmatches file hfile with h | h
        · exact mem_addFile h
        · exact .inr h
      · refine hids.trans ?_
        rw [List.map_cons, List.append_cons]
        exact (map_fileId_addFile shown f _).append (List.Sublist.refl _)
    · rw [searchFiles_full hf htotal (Nat.not_le.1 hfits)]
      refine ⟨addFile shown f (((found pattern (texts f.id)).take (maxMatches - total)).map Found.searchMatch),
        ?_, ?_, fun file hfile => mem_addFile hfile, ?_⟩
      · rw [Nat.min_eq_right (by omega), decide_eq_true (by omega)]
      · rw [listing_addFile, List.map_map, List.take_append, List.length_map]
        have hnone : maxMatches - total - (found pattern (texts f.id)).length = 0 := by omega
        rw [hnone, List.take_zero, List.append_nil, ← List.map_take]
        rfl
      · exact (map_fileId_addFile shown f _).trans
          (List.Sublist.append_left (List.singleton_sublist.2 List.mem_cons_self) _)

end Loop

/-! ## The cap -/

theorem mem_filesByPath {sources : Sources} {project : ProjectId} {f : File} :
    f ∈ sources.filesByPath project ↔ f ∈ sources.files ∧ f.projectId = project := by
  rw [Sources.filesByPath, List.mem_mergeSort, List.mem_filter, decide_eq_true_iff]

/-- The files of the project, in the order of their paths. -/
theorem pairwise_filesByPath (sources : Sources) (project : ProjectId) :
    (sources.filesByPath project).Pairwise fun f g => sources.collation.le f.path g.path = true :=
  List.pairwise_mergeSort (fun f g h => sources.collation.trans f.path g.path h.path)
    (fun f g => sources.collation.total f.path g.path) _

/-- The result of the loop is that of the search. -/
theorem searchProject_of_ok {tables : Tables} {sources : Sources} {project : ProjectId} {user : UserId} {query : Query}
    {member : ProjectMember} (hmember : sources.getMember project user = .ok member) {out : List SearchFile}
    {total : Nat} {truncated : Bool}
    (hout : searchFiles (sources.getFileText project) (compile tables query) [] 0 (sources.filesByPath project) =
      .ok (out, total, truncated)) :
    searchProject tables sources project user query = .ok ⟨query.q, out, total, truncated⟩ := by
  rw [searchProject, hmember]
  change (searchFiles (sources.getFileText project) (compile tables query) [] 0
    (sources.filesByPath project)).bind _ = _
  rw [hout]
  rfl

/-- **The search cap is exact.** A member who searches a project, whose files can be read, gets exactly the
first matches of all, in the order of the files' paths and then of their places, at most `maxMatches`; their
number is `total`, no file is listed without a match and none twice, and `truncated` says whether there are
more. -/
theorem search_cap_exact (tables : Tables) (sources : Sources) (project : ProjectId) (user : UserId) (query : Query)
    (texts : FileId → List Char) {member : ProjectMember} (hmember : sources.getMember project user = .ok member)
    (hread : ∀ f ∈ sources.files, f.projectId = project → sources.getFileText project f.id = .ok (texts f.id)) :
    ∃ out, searchProject tables sources project user query = .ok out ∧
      (sources.filesByPath project).Pairwise (fun f g => sources.collation.le f.path g.path = true) ∧
      listing out.files = (allMatches texts (compile tables query) (sources.filesByPath project)).take
        (min (allMatches texts (compile tables query) (sources.filesByPath project)).length maxMatches) ∧
      out.total = (listing out.files).length ∧ (∀ file ∈ out.files, file.fileMatches ≠ []) ∧
      (out.files.map SearchFile.fileId).Sublist ((sources.filesByPath project).map File.id) ∧
      (out.truncated = true ↔
        maxMatches < (allMatches texts (compile tables query) (sources.filesByPath project)).length) := by
  have hfiles : ∀ f ∈ sources.filesByPath project, sources.getFileText project f.id = .ok (texts f.id) := by
    intro f hf
    obtain ⟨hmem, hproject⟩ := mem_filesByPath.1 hf
    exact hread f hmem hproject
  obtain ⟨out, hout, hlisting, hmatches, hids⟩ :=
    searchFiles_eq (compile tables query) [] hfiles (Nat.zero_le maxMatches)
  rw [Nat.zero_add] at hout
  rw [listing_nil, List.nil_append, Nat.sub_zero] at hlisting
  rw [List.map_nil, List.nil_append] at hids
  refine ⟨_, searchProject_of_ok hmember hout, pairwise_filesByPath sources project, ?_, ?_, fun file hfile => ?_,
    hids, decide_eq_true_iff⟩
  · rw [hlisting, List.take_eq_take_min, Nat.min_comm]
  · rw [hlisting, List.length_take, Nat.min_comm]
  · exact (hmatches file hfile).resolve_left List.not_mem_nil

/-- A project of two files. -/
def twoFiles : Sources where
  members := [⟨1, 7, .viewer⟩]
  files := [⟨4, 1, "b.py", .python⟩, ⟨5, 1, "a.py", .python⟩]
  collation := ⟨fun a b => decide (a ≤ b), fun a b c h h' => by
    rw [decide_eq_true_iff] at *
    exact le_trans h h', fun a b => by
    rw [← Bool.decide_or, decide_eq_true_iff]
    exact le_total a b⟩
  getFileText _ id := .ok (if id = 4 then "needle".toList else "no such thing".toList)

/-- One match in two files. -/
theorem search_cap_exact_two : ∃ out,
    searchProject ⟨fun _ => true, fun _ _ => false⟩ twoFiles 1 7 ⟨"needle".toList, by decide, by decide, true, false⟩ =
      .ok out ∧ out.total = (listing out.files).length ∧ ∀ file ∈ out.files, file.fileMatches ≠ [] := by
  obtain ⟨out, hout, -, -, htotal, hmatches, -⟩ :=
    search_cap_exact ⟨fun _ => true, fun _ _ => false⟩ twoFiles 1 7
      ⟨"needle".toList, by decide, by decide, true, false⟩
      (fun id => if id = 4 then "needle".toList else "no such thing".toList) rfl (fun _ _ _ => rfl)
  exact ⟨out, hout, htotal, hmatches⟩

end Concord.Search
