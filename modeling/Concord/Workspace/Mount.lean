import Concord.Base.FileTree
import Concord.Realtime.TextEdit
import Concord.Workspace.Paths
import Mathlib

/-!
# The workspace of a run

What `_run_one` puts on disk before it starts a container: `_mount_workspace` lays the project's files
out, each with the text of its latest version, then the text captured with the run goes over the main
file and the file the runtime starts (`runtime/registry.py`).

* `mountWorkspace_succeeds_iff`: the files can be laid out if and only if no file's path is a directory
  of another's and every segment is short enough for a file name.
* `program_text_iff`: the program file holds the captured text if and only if that text is not empty or
  the stored text there is empty.
-/

namespace Concord

open Base

/-! ## The runtimes -/

/-- `RuntimeConfig`, as far as the workspace is concerned. -/
structure RuntimeConfig where
  entrypoint : List String
  buildCommand : Option (List String) := none
  fileExtension : String
deriving DecidableEq, Repr

/-- `RUNTIMES` and the default that `_run_one` falls back to. -/
def runtimeConfig : Language → RuntimeConfig
  | .python | .plaintext =>
    { entrypoint := ["python", "/workspace/main.py"], fileExtension := ".py" }
  | .nodejs => { entrypoint := ["node", "/workspace/main.js"], fileExtension := ".js" }
  | .cpp =>
    { entrypoint := ["/workspace/main.out"]
      buildCommand := some ["g++", "-std=c++17", "-O2", "-Wall", "-o", "/workspace/main.out",
        "/workspace/main.cpp"]
      fileExtension := ".cpp" }

/-- The file that the build command reads, or the entrypoint if there is none, under the directory
that the workspace is mounted at. -/
def RuntimeConfig.program (config : RuntimeConfig) : List Segment :=
  (segments ((config.buildCommand.getD config.entrypoint).getLast?.getD "")).drop 2

/-- `f"main{runtime_config.file_extension}"`. -/
def RuntimeConfig.mainFile (config : RuntimeConfig) : String := "main" ++ config.fileExtension

/-- Every runtime starts the file that `_run_one` writes for it. -/
theorem program_eq_mainFile (language : Language) :
    (runtimeConfig language).program = segments (runtimeConfig language).mainFile := by
  cases language <;> decide

/-! ## The directory -/

/-- What preparing the workspace raises. -/
inductive WorkspaceError
  /-- `_workspace_path` refused a path. -/
  | outside
  /-- The bytes of a version are not a document. -/
  | undecodable
  /-- `Main file not found in DB`. -/
  | noMainFile
  /-- The file system refused. -/
  | os
deriving DecidableEq, Repr

def WorkspaceError.message : WorkspaceError → String
  | outside => "File path must stay inside the execution workspace"
  | noMainFile => "Main file not found in DB"
  | undecodable | os => "error"

/-- The longest file name, in bytes. -/
def nameMax : Nat := 255

/-- Whether a segment is short enough for a file name. -/
def nameOk (name : Segment) : Bool := weight Char.utf8Size name ≤ nameMax

abbrev Workspace := FileTree Segment (List Char)

/-- The parts of `Path(path)`: empty and `.` segments are dropped. -/
def pathParts (path : String) : List Segment :=
  (segments path).filter fun s => s ≠ [] ∧ s ≠ ['.']

/-- `Path.resolve`, part by part; there are no symbolic links. -/
def resolvePart (parts : List Segment) (part : Segment) : List Segment :=
  if part = ['.', '.'] then parts.dropLast else parts ++ [part]

/-- `_workspace_path`: where a project path goes, relative to the resolved directory `root`. -/
def workspacePath (root : List Segment) (path : String) : Except WorkspaceError (List Segment) :=
  let isAbsolute := path.toList.head? = some '/'
  let destination := (pathParts path).foldl resolvePart (if isAbsolute then [] else root)
  if isAbsolute ∨ destination = root ∨ ¬root <+: destination then .error .outside
  else .ok (destination.drop root.length)

variable {U B : Type} [DecidableEq U] (C : Pycrdt U B)

/-- The text `_mount_workspace` writes for a file. -/
def storedText (rows : List (Version B)) : Except WorkspaceError (List Char) :=
  match Pycrdt.latest rows with
  | none => .ok []
  | some latest =>
    match C.docFromBytes latest.snapshotBytes with
    | some doc => .ok (C.text doc)
    | none => .error .undecodable

/-- The `OSError` of a file operation that the file system refused. -/
def orOsError (t : Option Workspace) : Except WorkspaceError Workspace :=
  match t with
  | some t => .ok t
  | none => .error .os

/-- `write_text`. -/
def writeText (t : Workspace) (path : List Segment) (content : List Char) :
    Except WorkspaceError Workspace :=
  orOsError (FileTree.writeFile nameOk t path content)

/-- The loop body of `_mount_workspace`. -/
def mountFile (root : List Segment) (versions : FileId → List (Version B)) (t : Workspace)
    (file : File) : Except WorkspaceError Workspace := do
  let content ← storedText C (versions file.id)
  let fullPath ← workspacePath root file.path
  let t ← orOsError (FileTree.mkdirs nameOk t fullPath.dropLast)
  writeText t fullPath content

/-- `_mount_workspace`, with the files in the order the query returned them. -/
def mountWorkspace (root : List Segment) (versions : FileId → List (Version B)) (files : List File)
    (t : Workspace) : Except WorkspaceError Workspace :=
  files.foldlM (mountFile C root versions) t

/-- The part of `_run_one` that fills the new directory; `mainFile` is the row it reads once the files
are laid out. -/
def prepareWorkspace (root : List Segment) (versions : FileId → List (Version B))
    (files : List File) (mainFile : Option File) (projectId : ProjectId) (sourceText : List Char)
    (debug : Bool) (language : Language) : Except WorkspaceError Workspace := do
  let t ← mountWorkspace C root versions files FileTree.empty
  match mainFile with
  | none => throw .noMainFile
  | some file =>
    if file.projectId ≠ projectId then throw .noMainFile
    let mainPath ← workspacePath root file.path
    if sourceText = [] then pure t
    else
      let t ← writeText t mainPath sourceText
      if debug then pure t
      else
        let startPath ← workspacePath root (runtimeConfig language).mainFile
        writeText t startPath sourceText

/-! ## What the functions do on a project's files -/

/-- The text of the latest version; a file without versions is empty. -/
def checkpointText (rows : List (Version B)) : List Char :=
  (Pycrdt.latest rows).elim [] fun v => C.text (C.content v)

variable {C}

theorem storedText_eq {rows : List (Version B)}
    (h : ∀ v ∈ rows, ∃ doc, v.snapshotBytes = C.docToBytes doc) :
    storedText C rows = .ok (checkpointText C rows) := by
  unfold storedText checkpointText
  cases hl : Pycrdt.latest rows with
  | none => rfl
  | some v =>
    obtain ⟨doc, hdoc⟩ := h v (Pycrdt.mem_of_latest hl)
    simp [hdoc, Pycrdt.content]

theorem foldl_resolvePart {parts : List Segment} (h : ['.', '.'] ∉ parts) (base : List Segment) :
    parts.foldl resolvePart base = base ++ parts := by
  induction parts generalizing base with
  | nil => simp
  | cons part parts ih =>
    rw [List.mem_cons, not_or] at h
    rw [List.foldl_cons, ih h.2, resolvePart, if_neg (Ne.symm h.1), List.append_assoc,
      List.singleton_append]

/-- An accepted path stays inside the workspace. -/
theorem workspacePath_eq {path : String} (h : ProperPath path) (root : List Segment) :
    workspacePath root path = .ok (segments path) := by
  have hparts : pathParts path = segments path := by
    refine List.filter_eq_self.2 fun s hs => decide_eq_true ⟨?_, ?_⟩
    · rintro rfl
      exact h.nonempty hs
    · rintro rfl
      exact h.noDot hs
  have hdestination : (pathParts path).foldl resolvePart root = root ++ segments path := by
    rw [hparts, foldl_resolvePart h.noDotDot]
  have hne : root ++ segments path ≠ root := by
    rw [Ne, List.append_right_eq_self]
    exact segments_ne_nil path
  unfold workspacePath
  simp only [h.relative, if_false, hdestination, hne, false_or,
    List.prefix_append, not_true_eq_false, List.drop_left]

section Project

variable {isAlpha : Char → Bool} (project : ProjectFiles isAlpha C) (root : List Segment)

/-- The files as they are to be on disk. -/
def ProjectFiles.laid : List (List Segment × List Char) :=
  project.files.map fun f => (segments f.path, checkpointText C (project.versions f.id))

variable {project root}

theorem laid_nodup : (project.laid.map (·.1)).Nodup := by
  have hmap : project.laid.map (·.1) = (project.files.map (·.path)).map segments := by
    simp [ProjectFiles.laid, Function.comp_def]
  rw [hmap]
  exact project.distinct.map segments_injective

theorem laid_ne_nil : ∀ f ∈ project.laid, f.1 ≠ [] := by
  intro f hf
  obtain ⟨g, -, rfl⟩ := List.mem_map.1 hf
  exact segments_ne_nil g.path

theorem mountFile_eq {f : File} (hf : f ∈ project.files) (t : Workspace) :
    mountFile C root project.versions t f =
      orOsError (FileTree.create nameOk t
        (segments f.path, checkpointText C (project.versions f.id))) := by
  unfold mountFile
  rw [storedText_eq (project.encoded f hf),
    workspacePath_eq (properPath_of_filePath (project.accepted f hf))]
  unfold FileTree.create
  change (orOsError (FileTree.mkdirs nameOk t _)).bind _ = _
  cases FileTree.mkdirs nameOk t (segments f.path).dropLast with
  | none => rfl
  | some t' => rfl

theorem mountWorkspace_eq :
    mountWorkspace C root project.versions project.files FileTree.empty =
      orOsError (FileTree.createAll nameOk project.laid) := by
  have hgen : ∀ (files : List File) (t : Workspace), (∀ f ∈ files, f ∈ project.files) →
      files.foldlM (mountFile C root project.versions) t =
        orOsError ((files.map fun f =>
          (segments f.path, checkpointText C (project.versions f.id))).foldlM
            (FileTree.create nameOk) t) := by
    intro files
    induction files with
    | nil => exact fun t _ => rfl
    | cons f files ih =>
      intro t hf
      rw [List.foldlM_cons, List.map_cons, List.foldlM_cons, mountFile_eq (hf f (by simp))]
      cases FileTree.create nameOk t
          (segments f.path, checkpointText C (project.versions f.id)) with
      | none => rfl
      | some t' => exact ih t' fun g hg => hf g (List.mem_cons_of_mem _ hg)
  exact hgen project.files _ fun _ hf => hf

/-- The workspace of a project, if it can be laid out. -/
theorem mountWorkspace_eq_ok_iff {t : Workspace} :
    mountWorkspace C root project.versions project.files FileTree.empty = .ok t ↔
      FileTree.Compatible nameOk project.laid ∧ t = FileTree.layout project.laid := by
  rw [mountWorkspace_eq, ← FileTree.createAll_eq_some_iff laid_nodup laid_ne_nil]
  cases FileTree.createAll nameOk project.laid with
  | none => simp [orOsError]
  | some t' => simp [orOsError]

theorem compatible_laid_iff : FileTree.Compatible nameOk project.laid ↔
    (∀ f ∈ project.files, ∀ s ∈ segments f.path, nameOk s = true) ∧
      ∀ f ∈ project.files, ∀ g ∈ project.files, segments f.path <+: segments g.path → f = g := by
  have hnodup : project.files.Nodup := project.ids.of_map
  constructor
  · rintro ⟨hnames, hapart⟩
    refine ⟨fun f hf => List.all_eq_true.1 (hnames _ (List.mem_map_of_mem hf)), ?_⟩
    intro f hf g hg hpre
    have hsymm : Std.Symm fun f g : File => FileTree.Apart (segments f.path) (segments g.path) :=
      ⟨fun f g h => ⟨h.2, h.1⟩⟩
    rw [ProjectFiles.laid, List.pairwise_map] at hapart
    exact Decidable.byContradiction fun hne => (hapart.forall hf hg hne).1 hpre
  · rintro ⟨hnames, hapart⟩
    refine ⟨fun p hp => ?_, List.pairwise_map.2 (hnodup.pairwise_of_forall_ne ?_)⟩
    · obtain ⟨f, hf, rfl⟩ := List.mem_map.1 hp
      exact List.all_eq_true.2 (hnames f hf)
    · exact fun f hf g hg hne =>
        ⟨fun h => hne (hapart f hf g hg h), fun h => hne (hapart g hg f hf h).symm⟩

/-- **When a project can be laid out**: no file's path is a directory of another's and every segment
is short enough. -/
theorem mountWorkspace_succeeds_iff (project : ProjectFiles isAlpha C) (root : List Segment) :
    (∃ t, mountWorkspace C root project.versions project.files FileTree.empty = .ok t ∧
      ∀ f ∈ project.files,
        t.read (segments f.path) = some (checkpointText C (project.versions f.id))) ↔
    (∀ f ∈ project.files, ∀ s ∈ segments f.path, nameOk s = true) ∧
      ∀ f ∈ project.files, ∀ g ∈ project.files, segments f.path <+: segments g.path → f = g := by
  rw [← compatible_laid_iff]
  constructor
  · rintro ⟨t, ht, -⟩
    exact (mountWorkspace_eq_ok_iff.1 ht).1
  · intro hcompatible
    refine ⟨_, mountWorkspace_eq_ok_iff.2 ⟨hcompatible, rfl⟩, fun f hf => ?_⟩
    exact (FileTree.read_layout laid_nodup).2 (List.mem_map_of_mem hf)

/-- Nobody but the owner, and no folders. -/
def ownerOnly : Access := ⟨0, 0, [], []⟩

/-- The owner creates a file `a`, then a file `a/b`: no workspace holds both. -/
theorem file_with_the_name_of_a_directory :
    ∃ project : ProjectFiles Char.isAlpha revisions,
      ((ProjectFiles.empty.createFile ownerOnly 0 ⟨"a", by decide⟩ none).bind fun project =>
        project.createFile ownerOnly 0 ⟨"a/b", by decide⟩ none) = .ok project ∧
      ∀ t, mountWorkspace revisions [] project.versions project.files FileTree.empty ≠ .ok t := by
  have hrun : ((((ProjectFiles.empty : ProjectFiles Char.isAlpha revisions).createFile ownerOnly 0
      ⟨"a", by decide⟩ none).bind fun project =>
        project.createFile ownerOnly 0 ⟨"a/b", by decide⟩ none).toOption.any fun project =>
          project.files.map (segments ·.path) = [[['a']], [['a'], ['b']]]) = true := by decide
  obtain ⟨project, hproject, hpaths⟩ := except_exists_ok hrun
  refine ⟨project, hproject, fun t ht => ?_⟩
  have hapart := (mountWorkspace_eq_ok_iff.1 ht).1.apart
  rw [ProjectFiles.laid, List.pairwise_map] at hapart
  have hapart' : (project.files.map (segments ·.path)).Pairwise FileTree.Apart :=
    List.pairwise_map.2 hapart
  rw [of_decide_eq_true hpaths] at hapart'
  exact absurd hapart' (by decide)

/-! ## The text of the program -/

/-- The file that a run starts: for a debug run the program itself. -/
def programPath (language : Language) (debug : Bool) (main : File) : List Segment :=
  if debug then segments main.path else (runtimeConfig language).program

theorem mainFile_proper (language : Language) : ProperPath (runtimeConfig language).mainFile := by
  cases language <;> exact ⟨by decide, by decide, by decide, by decide⟩

theorem writeText_eq_ok {t t' : Workspace} {path : List Segment} {content : List Char}
    (h : writeText t path content = .ok t') :
    t' = Function.update t path (some (.file content)) := by
  unfold writeText orOsError at h
  split at h
  · next t'' hwrite =>
    cases h
    exact FileTree.writeFile_eq_some hwrite
  · cases h

variable {main : File} {projectId : ProjectId} {sourceText : List Char} {debug : Bool}
  {language : Language} {t : Workspace}

/-- Without a captured text the workspace is left as it was laid out; else the program file is
written last. -/
theorem prepareWorkspace_eq_ok (hmain : main ∈ project.files)
    (h : prepareWorkspace C root project.versions project.files (some main) projectId sourceText debug
      language = .ok t) :
    if sourceText = [] then t = FileTree.layout project.laid
    else ∃ t', t = Function.update t' (programPath language debug main) (some (.file sourceText)) := by
  have hpath := workspacePath_eq (properPath_of_filePath (project.accepted main hmain)) root
  unfold prepareWorkspace at h
  obtain ⟨laid, hlaid, h⟩ := except_bind_ok h
  by_cases hproject : main.projectId ≠ projectId
  · dsimp only at h
    rw [if_pos hproject] at h
    cases h
  · dsimp only at h
    rw [if_neg hproject] at h
    obtain ⟨-, -, h⟩ := except_bind_ok h
    rw [hpath] at h
    obtain ⟨_, hmainPath, h⟩ := except_bind_ok h
    cases hmainPath
    by_cases hsource : sourceText = []
    · rw [if_pos hsource]
      simp only [hsource] at h
      cases h
      exact (mountWorkspace_eq_ok_iff.1 hlaid).2
    · rw [if_neg hsource]
      simp only [hsource] at h
      obtain ⟨t', ht', h⟩ := except_bind_ok h
      by_cases hdebug : debug = true
      · simp only [hdebug, if_true] at h
        cases h
        exact ⟨laid, by rw [writeText_eq_ok ht', programPath, if_pos hdebug]⟩
      · simp only [hdebug] at h
        rw [workspacePath_eq (mainFile_proper language)] at h
        refine ⟨t', ?_⟩
        rw [writeText_eq_ok h, programPath, if_neg hdebug, program_eq_mainFile]

/-- **When a run starts the captured text**: if it is not empty, or the stored text in its place is
empty too. -/
theorem program_text_iff (hmain : main ∈ project.files)
    (h : prepareWorkspace C root project.versions project.files (some main) projectId sourceText debug
      language = .ok t) :
    t.read (programPath language debug main) = some sourceText ↔
      sourceText ≠ [] ∨ ∃ f ∈ project.files, segments f.path = programPath language debug main ∧
        checkpointText C (project.versions f.id) = [] := by
  have hprepared := prepareWorkspace_eq_ok hmain h
  by_cases hsource : sourceText = []
  · rw [if_pos hsource] at hprepared
    rw [hprepared, FileTree.read_layout laid_nodup, hsource]
    simp [ProjectFiles.laid]
  · rw [if_neg hsource] at hprepared
    obtain ⟨t', rfl⟩ := hprepared
    simp [hsource]

/-- The file `main.py`. -/
def mainPy : File := ⟨1, 0, "main.py", .python⟩

/-- A project with one file, saved once. -/
def savedProject : ProjectFiles Char.isAlpha revisions where
  files := [mainPy]
  versions _ :=
    [{ versionNumber := 1, snapshotBytes := revisions.docToBytes (typed "old"), createdAt := 0 }]
  ids := by decide
  accepted := by decide
  distinct := by decide
  encoded := by
    intro f _ v hv
    rw [List.mem_singleton.1 hv]
    exact ⟨_, rfl⟩

/-- The file was emptied after the save, and the run starts the saved text. -/
theorem empty_text_runs_the_checkpoint :
    ∃ t, prepareWorkspace revisions [] savedProject.versions savedProject.files (some mainPy) 0 [] false
        .python = .ok t ∧ t.read (programPath .python false mainPy) ≠ some [] := by
  have hrun : ((prepareWorkspace revisions [] savedProject.versions savedProject.files (some mainPy) 0
      [] false .python).toOption.any fun t =>
        t.read (programPath .python false mainPy) ≠ some []) = true := by decide
  obtain ⟨t, ht, hread⟩ := except_exists_ok hrun
  exact ⟨t, ht, of_decide_eq_true hread⟩

/-- A run of the text typed since the save. -/
theorem typed_text_runs :
    ∃ t, prepareWorkspace revisions [] savedProject.versions savedProject.files (some mainPy) 0
        "new".toList false .python = .ok t ∧
      t.read (programPath .python false mainPy) = some "new".toList := by
  have hrun : ((prepareWorkspace revisions [] savedProject.versions savedProject.files (some mainPy) 0
      "new".toList false .python).toOption.any fun _ => true) = true := by decide
  obtain ⟨t, ht, -⟩ := except_exists_ok hrun
  have hmain : mainPy ∈ savedProject.files := by decide
  exact ⟨t, ht, (program_text_iff hmain ht).2 (.inl (by decide))⟩

end Project

end Concord
