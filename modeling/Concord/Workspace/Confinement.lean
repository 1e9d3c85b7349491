import Concord.Base.Utf8
import Concord.Workspace.Paths

/-!
# Paths stay in the workspace

`_workspace_path` of `worker.py` and `_validate_project_path` of `schemas/__init__.py`, over all the
strings of Python: those with surrogates, null characters and any other code point. Paths are resolved
as on Linux, without symbolic links.

What `_workspace_path` returns lies strictly below the workspace (`workspacePath_confined`), and for an
accepted path that is text it is the workspace followed by the path's own segments
(`workspacePath_of_accepted`).
-/

namespace Concord.Confinement

open Concord.Base
open Concord.Base.CodePoint (ofChar ofChar_val ofChar_injective)

/-- A segment of a path, and a part of a resolved path. -/
abbrev Part := Str

def slash : CodePoint := ofChar '/'

/-- `"."`. -/
def curdir : Part := [ofChar '.']

/-- `".."`. -/
def pardir : Part := [ofChar '.', ofChar '.']

/-- `value.split("/")`. -/
def split (path : Str) : List Part := path.splitOn slash

/-- `Path(path).is_absolute()`. -/
def isAbsolute (path : Str) : Bool := path.head? = some slash

/-- A name of something in a directory. -/
structure ProperName (name : Part) : Prop where
  nonempty : name ≠ []
  notCurdir : name ≠ curdir
  notPardir : name ≠ pardir
  noSlash : slash ∉ name
  noNull : (0 : CodePoint) ∉ name

/-- A directory, by the names that lead to it from the root. -/
abbrev Directory := { names : List Part // ∀ name ∈ names, ProperName name }

/-! ## `_workspace_path` -/

/-- What resolving a path raises, each of it a `ValueError`. -/
inductive PathError
  | embeddedNull
  | surrogatesNotAllowed
  /-- `File path must stay inside the execution workspace`. -/
  | outside
deriving DecidableEq, Repr

/-- Whether the encoding of file names has the code point: UTF-8, and bytes that were no UTF-8 come as
`U+DC80` to `U+DCFF`. -/
def fsEncodable (c : CodePoint) : Bool := !isSurrogate c || (0xDC80 ≤ c.val && c.val ≤ 0xDCFF)

/-- `os.lstat`, for the name that a path was extended by; that nothing is there is no error. -/
def lstat (name : Part) : Except PathError Unit :=
  if ¬name.all fsEncodable then .error .surrogatesNotAllowed
  else if 0 ∈ name then .error .embeddedNull
  else .ok ()

/-- The loop of `os.path.realpath`, where no link is met. -/
def joinRealpath (path : List Part) : List Part → Except PathError (List Part)
  | [] => .ok path
  | name :: rest =>
    if name = [] ∨ name = curdir then joinRealpath path rest
    else if name = pardir then joinRealpath path.dropLast rest
    else do
      lstat name
      joinRealpath (path ++ [name]) rest

/-- `(base / path).resolve()`, for a directory that is resolved. -/
def resolve (base : List Part) (path : Str) : Except PathError (List Part) :=
  joinRealpath (if isAbsolute path then [] else base) (split path)

/-- `_workspace_path`, in a process that runs in the directory `cwd`. -/
def workspacePath (cwd : Directory) (tmpdir filePath : Str) : Except PathError (List Part) := do
  let root ← resolve cwd.1 tmpdir
  let destination ← resolve root filePath
  if isAbsolute filePath ∨ destination = root ∨ ¬root <+: destination then throw .outside
  else pure destination

/-! ## `_ProjectPathModel._validate_project_path` -/

/-- `unicodedata.category(char) == "Cc"`. -/
def isControl (c : CodePoint) : Bool := c.val < 32 || (127 ≤ c.val && c.val < 160)

section Validation

-- `str.isalpha` of one character, from the Unicode tables
variable (isAlpha : CodePoint → Bool)

/-- A drive letter and `:/`. -/
def hasDrive : Str → Bool
  | c :: d :: e :: _ => isAlpha c && d == ofChar ':' && e == slash
  | _ => false

/-- `_validate_project_path`, of a value that is not `None`. -/
def validateProjectPath (field : PathField) (value : Str) : Except String Str :=
  if value.any isControl then
    .error (field.label ++ " must not contain control characters")
  else if ofChar '\\' ∈ value then
    .error (field.label ++ " must use forward slashes, not backslashes")
  else if isAbsolute value || hasDrive isAlpha value then
    .error (field.label ++ " must be relative")
  else if field = .name ∧ slash ∈ value then
    .error "folder name must not contain slashes"
  else if [] ∈ split value then
    .error (field.label ++ " must not contain empty segments")
  else if curdir ∈ split value then
    .error (field.label ++ " must not contain '.' segments")
  else if pardir ∈ split value then
    .error (field.label ++ " must not contain '..' segments")
  else .ok value

end Validation

/-! ## Names -/

theorem intercalate_split (path : Str) : [slash].intercalate (split path) = path :=
  List.intercalate_splitOn slash

theorem split_injective : Function.Injective split := by
  intro p q h
  rw [← intercalate_split p, ← intercalate_split q, h]

/-- A segment has no slash. -/
theorem slash_not_mem_of_mem_split {path : Str} {name : Part} (h : name ∈ split path) :
    slash ∉ name := by
  unfold split at h
  induction path generalizing name with
  | nil =>
    rw [List.splitOn_nil, List.mem_singleton] at h
    rw [h]
    exact List.not_mem_nil
  | cons c rest ih =>
    rw [List.splitOn_cons_eq_if_modifyHead] at h
    split at h
    · rcases List.mem_cons.1 h with rfl | h
      · exact List.not_mem_nil
      · exact ih h
    · next hc =>
      cases hrest : rest.splitOn slash with
      | nil => exact absurd hrest (List.splitOn_ne_nil slash rest)
      | cons head tail =>
        rw [hrest] at h ih
        rw [List.modifyHead_cons, List.mem_cons] at h
        rcases h with rfl | h
        · rw [List.mem_cons, not_or]
          exact ⟨fun heq => hc (by simp [heq]), ih List.mem_cons_self⟩
        · exact ih (List.mem_cons_of_mem _ h)

/-- A code point of a segment is one of the path. -/
theorem mem_of_mem_split {path : Str} {name : Part} {c : CodePoint} (h : name ∈ split path)
    (hc : c ∈ name) : c ∈ path := by
  unfold split at h
  induction path generalizing name with
  | nil =>
    rw [List.splitOn_nil, List.mem_singleton] at h
    rw [h] at hc
    exact hc
  | cons d rest ih =>
    rw [List.splitOn_cons_eq_if_modifyHead] at h
    split at h
    · rcases List.mem_cons.1 h with rfl | h
      · cases hc
      · exact List.mem_cons_of_mem _ (ih h hc)
    · cases hrest : rest.splitOn slash with
      | nil => exact absurd hrest (List.splitOn_ne_nil slash rest)
      | cons head tail =>
        rw [hrest] at h ih
        rw [List.modifyHead_cons, List.mem_cons] at h
        rcases h with rfl | h
        · rcases List.mem_cons.1 hc with rfl | hc
          · exact List.mem_cons_self
          · exact List.mem_cons_of_mem _ (ih List.mem_cons_self hc)
        · exact List.mem_cons_of_mem _ (ih (List.mem_cons_of_mem _ h) hc)

/-! ## What is returned lies below the workspace -/

theorem lstat_eq_ok_iff {name : Part} :
    lstat name = .ok () ↔ name.all fsEncodable = true ∧ (0 : CodePoint) ∉ name := by
  unfold lstat
  split
  · next hbad => simp_all
  · next hgood =>
    split
    · next hnull => simp [hnull]
    · next hnull => simpa [hnull] using hgood

/-- Resolving yields names only, if it starts from names and the names it meets are without slashes. -/
theorem proper_of_joinRealpath {path names resolved : List Part}
    (h : joinRealpath path names = .ok resolved) (hpath : ∀ name ∈ path, ProperName name)
    (hnames : ∀ name ∈ names, slash ∉ name) : ∀ name ∈ resolved, ProperName name := by
  induction names generalizing path with
  | nil =>
    cases h
    exact hpath
  | cons name rest ih =>
    have hrest : ∀ n ∈ rest, slash ∉ n := fun n hn => hnames n (List.mem_cons_of_mem _ hn)
    unfold joinRealpath at h
    split at h
    · exact ih h hpath hrest
    · next hname =>
      obtain ⟨hnonempty, hcurdir⟩ := not_or.1 hname
      split at h
      · exact ih h (fun n hn => hpath n (List.mem_of_mem_dropLast hn)) hrest
      · next hpardir =>
        cases hstat : lstat name with
        | error e =>
          rw [hstat] at h
          cases h
        | ok _ =>
          rw [hstat] at h
          have hproper : ProperName name :=
            ⟨hnonempty, hcurdir, hpardir, hnames name List.mem_cons_self, (lstat_eq_ok_iff.1 hstat).2⟩
          apply ih h _ hrest
          intro n hn
          rcases List.mem_append.1 hn with hn | hn
          · exact hpath n hn
          · rw [List.mem_singleton.1 hn]
            exact hproper

theorem proper_of_resolve {base resolved : List Part} {path : Str}
    (h : resolve base path = .ok resolved) (hbase : ∀ name ∈ base, ProperName name) :
    ∀ name ∈ resolved, ProperName name := by
  apply proper_of_joinRealpath h
  · split
    · exact nofun
    · exact hbase
  · exact fun name hname => slash_not_mem_of_mem_split hname

/-- What `_workspace_path` checks of a location that it returns. -/
theorem workspacePath_eq_ok {cwd : Directory} {root destination : List Part} {tmpdir filePath : Str}
    (hroot : resolve cwd.1 tmpdir = .ok root) :
    workspacePath cwd tmpdir filePath = .ok destination ↔
      resolve root filePath = .ok destination ∧ isAbsolute filePath = false ∧ destination ≠ root ∧
        root <+: destination := by
  have hunfold : workspacePath cwd tmpdir filePath = (resolve root filePath >>= fun location =>
      if isAbsolute filePath ∨ location = root ∨ ¬root <+: location then .error .outside
      else .ok location) := by
    unfold workspacePath
    rw [hroot]
    rfl
  rw [hunfold]
  cases resolve root filePath with
  | error e => exact ⟨nofun, nofun⟩
  | ok location =>
    change (if isAbsolute filePath = true ∨ location = root ∨ ¬root <+: location then
      Except.error PathError.outside else Except.ok location) = .ok destination ↔ _
    split
    · next hrefused =>
      constructor
      · exact nofun
      · rintro ⟨heq, hrelative, hne, hstarts⟩
        cases heq
        simp [hrelative, hne, hstarts] at hrefused
    · next hinside =>
      rw [not_or, not_or, not_not, Bool.not_eq_true] at hinside
      constructor
      · intro heq
        cases heq
        exact ⟨rfl, hinside⟩
      · rintro ⟨heq, -⟩
        cases heq
        rfl

/-- A returned location is the workspace's with at least one name more, none of which leads back. -/
theorem workspacePath_confined {cwd : Directory} {root destination : List Part}
    {tmpdir filePath : Str} (hroot : resolve cwd.1 tmpdir = .ok root)
    (h : workspacePath cwd tmpdir filePath = .ok destination) :
    ∃ below, below ≠ [] ∧ destination = root ++ below ∧ ∀ name ∈ below, ProperName name := by
  obtain ⟨hresolve, -, hne, below, rfl⟩ := (workspacePath_eq_ok hroot).1 h
  refine ⟨below, ?_, rfl, ?_⟩
  · rintro rfl
    exact hne (List.append_nil root)
  · intro name hname
    exact proper_of_resolve hresolve (proper_of_resolve hroot cwd.2) name
      (List.mem_append_right _ hname)

/-! ## Accepted paths -/

section Accepted

variable {isAlpha : CodePoint → Bool} {field : PathField} {path value : Str}

/-- What is known of a path that the validator returns. -/
structure Accepted (path : Str) : Prop where
  noControl : ∀ c ∈ path, isControl c = false
  relative : isAbsolute path = false
  nonempty : [] ∉ split path
  noCurdir : curdir ∉ split path
  noPardir : pardir ∉ split path

theorem accepted_of_validate (h : validateProjectPath isAlpha field path = .ok value) :
    value = path ∧ Accepted path := by
  unfold validateProjectPath at h
  split at h
  · cases h
  next hcontrol =>
  split at h
  · cases h
  split at h
  · cases h
  next hrelative =>
  split at h
  · cases h
  split at h
  · cases h
  next hnonempty =>
  split at h
  · cases h
  next hcurdir =>
  split at h
  · cases h
  next hpardir =>
  rw [Bool.or_eq_true, not_or] at hrelative
  refine ⟨(Except.ok.inj h).symm, ?_, by simpa using hrelative.1, hnonempty, hcurdir, hpardir⟩
  intro c hc
  rw [Bool.not_eq_true, List.any_eq_false] at hcontrol
  simpa using hcontrol c hc

/-- Names that `os.lstat` takes are resolved one below the other. -/
theorem joinRealpath_eq {names : List Part} (base : List Part)
    (hnames : ∀ name ∈ names, name ≠ [] ∧ name ≠ curdir ∧ name ≠ pardir ∧ lstat name = .ok ()) :
    joinRealpath base names = .ok (base ++ names) := by
  induction names generalizing base with
  | nil => rw [joinRealpath, List.append_nil]
  | cons name rest ih =>
    obtain ⟨hnonempty, hcurdir, hpardir, hstat⟩ := hnames name List.mem_cons_self
    rw [joinRealpath, if_neg (not_or.2 ⟨hnonempty, hcurdir⟩), if_neg hpardir, hstat]
    change joinRealpath (base ++ [name]) rest = _
    rw [ih (base ++ [name]) fun n hn => hnames n (List.mem_cons_of_mem _ hn), List.append_assoc,
      List.singleton_append]

/-- A segment of an accepted path that is text can be looked up. -/
theorem lstat_of_accepted (h : Accepted path) (htext : IsText path) {name : Part}
    (hname : name ∈ split path) : lstat name = .ok () := by
  rw [lstat_eq_ok_iff, List.all_eq_true]
  constructor
  · intro c hc
    have htext := htext c (mem_of_mem_split hname hc)
    simp [fsEncodable, htext]
  · intro hnull
    have hcontrol := h.noControl 0 (mem_of_mem_split hname hnull)
    exact absurd hcontrol (by decide)

theorem workspacePath_of_accepted {cwd : Directory} {root : List Part} {tmpdir : Str}
    (hroot : resolve cwd.1 tmpdir = .ok root) (h : Accepted path) (htext : IsText path) :
    workspacePath cwd tmpdir path = .ok (root ++ split path) := by
  have hsegments : split path ≠ [] := List.splitOn_ne_nil slash path
  rw [workspacePath_eq_ok hroot]
  refine ⟨?_, h.relative, ?_, List.prefix_append root _⟩
  · rw [resolve, h.relative, if_neg Bool.false_ne_true]
    apply joinRealpath_eq
    intro name hname
    refine ⟨?_, ?_, ?_, lstat_of_accepted h htext hname⟩
    · exact fun heq => h.nonempty (heq ▸ hname)
    · exact fun heq => h.noCurdir (heq ▸ hname)
    · exact fun heq => h.noPardir (heq ▸ hname)
  · intro heq
    exact hsegments (List.append_right_eq_self.1 heq)

/-! ## Text -/

theorem splitOn_map {α β : Type} [DecidableEq α] [DecidableEq β] {f : α → β}
    (hf : Function.Injective f) (a : α) (l : List α) :
    (l.map f).splitOn (f a) = (l.splitOn a).map (List.map f) := by
  induction l with
  | nil => rfl
  | cons x rest ih =>
    rw [List.map_cons, List.splitOn_cons_eq_if_modifyHead, List.splitOn_cons_eq_if_modifyHead, ih]
    by_cases hx : x = a
    · simp [hx]
    · have hfx : f x ≠ f a := fun h => hx (hf h)
      cases rest.splitOn a <;> simp [hx, hfx]

/-- The segments of a string are those of its code points. -/
theorem split_ofString (path : String) :
    split (.ofString path) = (segments path).map (List.map ofChar) :=
  splitOn_map ofChar_injective '/' path.toList

theorem mem_map_ofChar {c : Char} {l : List Char} : ofChar c ∈ l.map ofChar ↔ c ∈ l :=
  List.mem_map_of_injective ofChar_injective

theorem mem_split_ofString (path : String) (name : List Char) :
    name.map ofChar ∈ split (.ofString path) ↔ name ∈ segments path := by
  rw [split_ofString]
  exact List.mem_map_of_injective ofChar_injective.list_map

theorem hasDrive_map {isAlphaChar : Char → Bool} (halpha : ∀ c, isAlpha (ofChar c) = isAlphaChar c)
    (l : List Char) : hasDrive isAlpha (l.map ofChar) = Concord.hasDrive isAlphaChar l := by
  unfold Concord.hasDrive
  split
  · next c rest => simp [hasDrive, halpha, slash]
  · next hnone =>
    match l with
    | [] | [_] | [_, _] => rfl
    | c :: d :: e :: rest =>
      have hnot : ¬(d = ':' ∧ e = '/') := by
        rintro ⟨rfl, rfl⟩
        exact hnone c rest rfl
      simp only [List.map_cons, hasDrive, slash, Bool.and_eq_false_iff, beq_eq_false_iff_ne, ne_eq,
        ofChar_injective.eq_iff]
      tauto

/-- On text the validator does what it does on strings of characters. -/
theorem validateProjectPath_ofString {isAlphaChar : Char → Bool}
    (halpha : ∀ c, isAlpha (ofChar c) = isAlphaChar c) (field : PathField) (path : String) :
    validateProjectPath isAlpha field (.ofString path) =
      (Concord.validateProjectPath isAlphaChar field path).map Str.ofString := by
  have hcontrol : (Str.ofString path).any isControl = path.toList.any Concord.isControl := by
    rw [Str.ofString, List.any_map]
    congr 1
    funext c
    simp [isControl, Concord.isControl, ofChar_val]
  have hmem : ∀ c, ofChar c ∈ Str.ofString path ↔ c ∈ path.toList := fun c => mem_map_ofChar
  have hhead : isAbsolute (.ofString path) = decide (path.toList.head? = some '/') := by
    unfold isAbsolute Str.ofString
    cases path.toList with
    | nil => rfl
    | cons c rest => simp [slash, ofChar_injective.eq_iff]
  have hdrive : hasDrive isAlpha (.ofString path) = Concord.hasDrive isAlphaChar path.toList :=
    hasDrive_map halpha path.toList
  have hslash : slash ∈ Str.ofString path ↔ '/' ∈ path.toList := hmem '/'
  have hempty := mem_split_ofString path []
  have hcurdir := mem_split_ofString path ['.']
  have hpardir := mem_split_ofString path ['.', '.']
  unfold validateProjectPath Concord.validateProjectPath
  rw [hcontrol, hhead, hdrive]
  simp only [hmem, hslash, curdir, pardir, List.map_nil, List.map_cons] at hempty hcurdir hpardir ⊢
  simp only [hempty, hcurdir, hpardir]
  split_ifs <;> rfl

/-- **Workspace paths cannot escape and cannot collide.** Whatever the string, what is returned lies
strictly below the workspace; accepted paths that are text go to the workspace followed by their own
segments, and different ones to different places. -/
theorem workspace_paths_confined (isAlpha : CodePoint → Bool) (cwd : Directory) (tmpdir : Str) :
    (∀ filePath destination, workspacePath cwd tmpdir filePath = .ok destination →
      ∃ root below, resolve cwd.1 tmpdir = .ok root ∧ below ≠ [] ∧ destination = root ++ below ∧
        ∀ name ∈ below, ProperName name) ∧
    ∀ root, resolve cwd.1 tmpdir = .ok root →
      (∀ field path, validateProjectPath isAlpha field path = .ok path → IsText path →
        workspacePath cwd tmpdir path = .ok (root ++ split path)) ∧
      ∀ field field' p q, validateProjectPath isAlpha field p = .ok p →
        validateProjectPath isAlpha field' q = .ok q → IsText p → IsText q → p ≠ q →
        workspacePath cwd tmpdir p ≠ workspacePath cwd tmpdir q := by
  constructor
  · intro filePath destination h
    cases hroot : resolve cwd.1 tmpdir with
    | error e =>
      unfold workspacePath at h
      rw [hroot] at h
      cases h
    | ok root =>
      obtain ⟨below, hbelow⟩ := workspacePath_confined hroot h
      exact ⟨root, below, rfl, hbelow⟩
  · intro root hroot
    have hlocation : ∀ field path, validateProjectPath isAlpha field path = .ok path → IsText path →
        workspacePath cwd tmpdir path = .ok (root ++ split path) := fun field path h htext =>
      workspacePath_of_accepted hroot (accepted_of_validate h).2 htext
    refine ⟨hlocation, ?_⟩
    intro field field' p q hp hq hptext hqtext hne heq
    rw [hlocation field p hp hptext, hlocation field' q hq hqtext] at heq
    exact hne (split_injective (List.append_cancel_left (Except.ok.inj heq)))

theorem workspace_paths_confined_main :
    workspacePath ⟨[], nofun⟩ (.ofString "/tmp/run") (.ofString "src/main.py") =
      .ok [.ofString "tmp", .ofString "run", .ofString "src", .ofString "main.py"] :=
  ((workspace_paths_confined (fun _ => false) ⟨[], nofun⟩ (.ofString "/tmp/run")).2
    [.ofString "tmp", .ofString "run"] (by decide)).1 .path (.ofString "src/main.py") (by decide)
    (isText_ofString _)

/-- A lone surrogate is accepted, and there is no file name for it. -/
theorem workspace_path_of_a_surrogate :
    validateProjectPath (fun _ => false) .path [0xD800] = .ok [0xD800] ∧
      resolve [] (.ofString "/tmp/run") = .ok [.ofString "tmp", .ofString "run"] ∧
      workspacePath ⟨[], nofun⟩ (.ofString "/tmp/run") [0xD800] = .error .surrogatesNotAllowed := by
  decide

end Accepted

end Concord.Confinement
