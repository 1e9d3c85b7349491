import Concord.Base.Keyed
import Concord.Debug.Breakpoints
import Mathlib

/-!
# What the debugger is told of the breakpoints

What a journal says of edits and of what was announced, and the protocol that requests, workers and sessions follow: an
edit is told to the session that it finds in the slot, a session reads its copy after it has taken the slot, and what
it asks of the adapter is the copy and then what it has heard.
-/

namespace Concord.Breakpoints

open Concord.Base Async

/-- What a process has done. -/
abbrev Entry := JournalEntry Op (fun o => Except PyError o.Val) State

/-! ## Lines -/

section Lines

variable {t : FileTable} {project : ProjectId} {file other : File} {lines more : List Int} {rows : List Row}

theorem sortedSet_congr (h : ∀ n, n ∈ lines ↔ n ∈ more) : sortedSet lines = sortedSet more := by
  have hset : lines.toFinset = more.toFinset := by
    ext n
    simpa using h n
  rw [sortedSet, hset, sortedSet]

theorem mem_sortedSet {n : Int} : n ∈ sortedSet lines ↔ n ∈ lines := by simp [sortedSet]

theorem sortedSet_sortedSet : sortedSet (sortedSet lines) = sortedSet lines :=
  sortedSet_congr fun _ => mem_sortedSet

theorem mem_enabledLines {f : FileId} {n : Int} :
    n ∈ enabledLines rows f ↔ ∃ row ∈ rows, row.fileId = f ∧ row.enabled = true ∧ Int.ofNat row.line = n := by
  simp only [enabledLines, List.mem_map, List.mem_filter, Bool.and_eq_true, decide_eq_true_eq]
  constructor
  · rintro ⟨row, ⟨hrow, hfile, henabled⟩, rfl⟩
    exact ⟨row, hrow, hfile, henabled, rfl⟩
  · rintro ⟨row, hrow, hfile, henabled, rfl⟩
    exact ⟨row, ⟨hrow, hfile, henabled⟩, rfl⟩

/-- The lines of a file depend on its rows only. -/
theorem sortedSet_enabledLines_congr {rows rows' : List Row} {f : FileId}
    (h : ∀ row, row.fileId = f → (row ∈ rows ↔ row ∈ rows')) :
    sortedSet (enabledLines rows f) = sortedSet (enabledLines rows' f) := by
  refine sortedSet_congr fun n => ?_
  rw [mem_enabledLines, mem_enabledLines]
  constructor
  · rintro ⟨row, hrow, hfile, hrest⟩
    exact ⟨row, (h row hfile).1 hrow, hfile, hrest⟩
  · rintro ⟨row, hrow, hfile, hrest⟩
    exact ⟨row, (h row hfile).2 hrow, hfile, hrest⟩

theorem FileTable.eq_of_id (hfile : file ∈ t.files) (hother : other ∈ t.files) (h : file.id = other.id) :
    file = other := List.inj_on_of_nodup_map t.nodup_ids hfile hother h

theorem FileTable.eq_of_path (hfile : file ∈ t.files) (hother : other ∈ t.files)
    (hproject : file.projectId = other.projectId) (h : file.path = other.path) : file = other :=
  List.inj_on_of_nodup_map t.nodup_paths hfile hother (by rw [hproject, h])

theorem dropWhile_slash {path : String} (h : path.toList.head? ≠ some '/') :
    path.toList.dropWhile (· = '/') = path.toList := by
  cases hpath : path.toList with
  | nil => rfl
  | cons c rest =>
    rw [hpath] at h
    rw [List.dropWhile_cons_of_neg]
    simpa using h

theorem FileTable.absPath_inj (hfile : file ∈ t.files) (hother : other ∈ t.files) :
    absPath file.path = absPath other.path ↔ file.path = other.path := by
  refine ⟨fun h => ?_, fun h => by rw [h]⟩
  have hchars := congrArg String.toList h
  simp only [absPath, String.toList_append, String.toList_ofList, List.append_cancel_left_eq,
    dropWhile_slash (t.relative file hfile).2, dropWhile_slash (t.relative other hother).2] at hchars
  exact String.toList_inj.1 hchars

/-- The lines that a list of requests has set last for a file; none if there is no request for it. -/
def linesOf (requests : List LinesRequest) (file : File) : List Int := (latest requests (absPath file.path)).getD []

theorem linesOf_append_self : linesOf (requests ++ [(absPath file.path, lines)]) file = lines := by
  rw [linesOf, latest_append_self]
  rfl

theorem linesOf_append_of_ne {requests : List LinesRequest} {request : LinesRequest}
    (hne : request.1 ≠ absPath file.path) : linesOf (requests ++ [request]) file = linesOf requests file := by
  rw [linesOf, latest_append_of_ne hne, linesOf]

theorem addBreakpoint_eq_collect : addBreakpoint = collect := by
  funext acc row
  unfold addBreakpoint collect
  cases acc.lookup row.1 <;> rfl

/-- The pairs of `_debug_info` for a file are its enabled lines. -/
theorem mem_selectBreakpoints {st : State} (hfile : file ∈ t.files) (hproject : file.projectId = project) {n : Nat} :
    (file.path, n) ∈ st.selectBreakpoints t project ↔
      ∃ row ∈ st.rows, row.fileId = file.id ∧ row.enabled = true ∧ row.line = n := by
  simp only [State.selectBreakpoints, List.mem_filterMap, List.mem_filter, Option.map_eq_some_iff, Prod.mk.injEq]
  constructor
  · rintro ⟨row, ⟨hrow, henabled⟩, found, hfound, hpath, hline⟩
    have hcond := List.find?_some hfound
    rw [Bool.and_eq_true, decide_eq_true_eq, decide_eq_true_eq] at hcond
    obtain rfl := t.eq_of_path (List.mem_of_find?_eq_some hfound) hfile (hcond.2.trans hproject.symm) hpath
    exact ⟨row, hrow, hcond.1.symm, henabled, hline⟩
  · rintro ⟨row, hrow, hid, henabled, hline⟩
    obtain ⟨found, hfound⟩ : ∃ found, t.files.find? (fun file => file.id = row.fileId && file.projectId = project) =
        some found := by
      refine Option.isSome_iff_exists.1 (List.find?_isSome.2 ⟨file, hfile, ?_⟩)
      rw [Bool.and_eq_true, decide_eq_true_eq, decide_eq_true_eq]
      exact ⟨hid.symm, hproject⟩
    have hcond := List.find?_some hfound
    rw [Bool.and_eq_true, decide_eq_true_eq, decide_eq_true_eq] at hcond
    obtain rfl := t.eq_of_id (List.mem_of_find?_eq_some hfound) hfile (hcond.1.trans hid)
    exact ⟨row, ⟨hrow, henabled⟩, found, hfound, rfl, hline⟩

/-- A copy holds the lines that are stored when it is read. -/
theorem linesOf_copy (st : State) (hfile : file ∈ t.files) (hproject : file.projectId = project) :
    linesOf (copyRequests ((st.selectBreakpoints t project).foldl addBreakpoint [])) file = st.stored file.id := by
  rw [addBreakpoint_eq_collect]
  have hkeys : ∀ entry ∈ (st.selectBreakpoints t project).foldl collect [],
      absPath entry.1 = absPath file.path → entry.1 = file.path := by
    intro entry hentry heq
    rcases mem_keys_foldl_collect (List.mem_map_of_mem hentry) with hnil | hpair
    · cases hnil
    · obtain ⟨pair, hpair, hkey⟩ := List.mem_map.1 hpair
      obtain ⟨row, -, hfound⟩ := List.mem_filterMap.1 hpair
      obtain ⟨found, hfind, rfl⟩ := Option.map_eq_some_iff.1 hfound
      rw [← hkey] at heq ⊢
      exact (t.absPath_inj (List.mem_of_find?_eq_some hfind) hfile).1 heq
  have hnodup : (((st.selectBreakpoints t project).foldl collect []).map Prod.fst).Nodup :=
    nodup_foldl_collect List.nodup_nil
  have hlatest := latest_map_of_nodup (f := absPath) (g := fun lines : List Nat => sortedSet (lines.map Int.ofNat))
    hnodup hkeys
  have hgathered : (((st.selectBreakpoints t project).foldl collect []).lookup file.path).getD [] =
      ((st.selectBreakpoints t project).filter (·.1 = file.path)).map Prod.snd := by
    rw [lookup_foldl_collect, List.lookup_nil, Option.getD_none, List.nil_append]
  have hgetD : ∀ found : Option (List Nat), (found.map fun lines => sortedSet (lines.map Int.ofNat)).getD [] =
      sortedSet ((found.getD []).map Int.ofNat) := by
    intro found
    cases found <;> simp [sortedSet]
  rw [linesOf, copyRequests, hlatest, hgetD, hgathered]
  refine sortedSet_congr fun n => ?_
  rw [mem_enabledLines]
  simp only [List.mem_map, List.mem_filter, decide_eq_true_eq]
  constructor
  · rintro ⟨n', ⟨⟨path, n''⟩, ⟨hpair, rfl⟩, rfl⟩, rfl⟩
    obtain ⟨row, hrow, hid, henabled, rfl⟩ := (mem_selectBreakpoints hfile hproject).1 hpair
    exact ⟨row, hrow, hid, henabled, rfl⟩
  · rintro ⟨row, hrow, hid, henabled, rfl⟩
    exact ⟨row.line, ⟨(file.path, row.line),
      ⟨(mem_selectBreakpoints hfile hproject).2 ⟨row, hrow, hid, henabled, rfl⟩, rfl⟩, rfl⟩, rfl⟩

end Lines

/-! ## The journal -/

section Journal

/-- Process `q` has not closed its session of the database. -/
def Open (q : Pid) (l : List Entry) : Prop := ∀ x ∈ l, x.pid = q → x.call.1 ≠ .close

/-- Process `q` has begun to replace the breakpoints of a file. -/
def Began (q : Pid) (file : FileId) (l : List Entry) : Prop := ∃ x ∈ l, x.pid = q ∧ x.call.1 = .selectRows file

/-- Process `q` is editing a file: it has begun to replace its breakpoints, and has not ended. -/
def Editing (q : Pid) (file : FileId) (l : List Entry) : Prop := Began q file l ∧ Open q l

/-- No two requests edit the same file at a time. -/
def Apart (l : List Entry) : Prop :=
  ∀ before x, before ++ [x] <+: l → ∀ file q, x.call.1 = .selectRows file → Editing q file before → q = x.pid

/-- The operation has raised. -/
def failed (x : Entry) : Bool :=
  match x.call.2 with
  | .ok _ => false
  | .error _ => true

/-- No operation of a request has failed once it edits a file. -/
def Undisturbed (l : List Entry) : Prop := ∀ x ∈ l, ∀ file, Began x.pid file l → failed x = false

/-- Requests edit the files one after the other, and undisturbed. -/
def Orderly (l : List Entry) : Prop := Apart l ∧ Undisturbed l

/-- No request is editing a file. -/
def Settled (l : List Entry) : Prop := ∀ q file, ¬Editing q file l

/-- The request for a command that was heard on the channel of an execution. -/
def heard? (id : ExecutionId) (x : Entry) : Option LinesRequest :=
  match x.call.1 with
  | .sendCommand id' _ command =>
    if id' = id ∧ x.before.channel id ≠ x.after.channel id then lineRequest command else none
  | _ => none

/-- The requests for what was heard on the channel of an execution, in its order. -/
def heard (id : ExecutionId) (l : List Entry) : List LinesRequest := l.filterMap (heard? id)

/-- The requests for the commands that wait on a channel. -/
def requestsOf (cmds : List Sent) : List LinesRequest := cmds.filterMap fun sent => lineRequest sent.2

/-- The last edit of a file was told to an execution to which nobody was listening. -/
def Unheard (id : ExecutionId) (file : File) (l : List Entry) : Prop :=
  ∃ before x after lines, l = before ++ x :: after ∧
    x.call = ⟨.sendCommand id none (.setBreakpoints file.path lines), .ok 0⟩ ∧
      ∀ y ∈ after, y.after.stored file.id = y.before.stored file.id

/-- The copy of the breakpoints that a session is given. -/
structure Copy where
  execution : ExecutionId
  breakpoints : List (String × List Nat)

def Copy.requests (c : Copy) : List LinesRequest := copyRequests c.breakpoints

/-- The copy in a payload. -/
def payloadCopy (payload : Payload) : Copy := ⟨payload.executionId, payloadBreakpoints payload⟩

/-- A copy has the lines that were stored when it was read. -/
def Read (t : FileTable) (project : ProjectId) (c : Copy) (l : List Entry) : Prop :=
  ∃ x ∈ l, x.call.1 = .selectBreakpoints ∧
    ∀ file ∈ t.files, file.projectId = project → linesOf c.requests file = x.before.stored file.id

/-- Process `q` has taken the payload with a copy from the queue. -/
def Took (q : Pid) (c : Copy) (l : List Entry) : Prop :=
  ∃ x ∈ l, x.pid = q ∧ ∃ payload, x.call = ⟨.dequeue, .ok (some payload)⟩ ∧ payloadCopy payload = c

variable {t : FileTable} {project : ProjectId} {q : Pid} {id : ExecutionId} {file : FileId} {f : File} {c : Copy}
  {l l' : List Entry} {x : Entry}

theorem Open.snoc (h : Open q l) (hx : x.pid = q → x.call.1 ≠ .close) : Open q (l ++ [x]) := by
  intro y hy hpid
  rcases List.mem_append.1 hy with hy | hy
  · exact h y hy hpid
  · obtain rfl := List.mem_singleton.1 hy
    exact hx hpid

theorem Began.mono (h : Began q file l) (hl : l <+: l') : Began q file l' := by
  obtain ⟨y, hy, hbegan⟩ := h
  exact ⟨y, hl.subset hy, hbegan⟩

theorem Read.mono (h : Read t project c l) (hl : l <+: l') : Read t project c l' := by
  obtain ⟨y, hy, hread⟩ := h
  exact ⟨y, hl.subset hy, hread⟩

theorem Took.mono (h : Took q c l) (hl : l <+: l') : Took q c l' := by
  obtain ⟨y, hy, htook⟩ := h
  exact ⟨y, hl.subset hy, htook⟩

theorem Apart.of_earlier (h : Apart l') (hl : l <+: l') : Apart l :=
  fun before x hx => h before x (hx.trans hl)

theorem Undisturbed.of_earlier (h : Undisturbed l') (hl : l <+: l') : Undisturbed l :=
  fun x hx file hbegan => h x (hl.subset hx) file (hbegan.mono hl)

theorem Orderly.of_earlier (h : Orderly l') (hl : l <+: l') : Orderly l := ⟨h.1.of_earlier hl, h.2.of_earlier hl⟩

/-- A file is edited by one process at a time. -/
theorem Apart.eq_of_editing (h : Apart l) {p : Pid} (hp : Editing p file l) (hq : Editing q file l) : p = q := by
  have hlater : ∀ {p q : Pid} {before after : List Entry} {x : Entry}, l = before ++ x :: after → x.pid = p →
      x.call.1 = .selectRows file → Began q file before → Open q l → q = p := by
    intro p q before after x hsplit hpid hcall hbegan hopen
    have hpre : before ++ [x] <+: l := ⟨after, by rw [hsplit, List.append_assoc, List.singleton_append]⟩
    have hbefore : before <+: l := (List.prefix_append before [x]).trans hpre
    exact (h before x hpre file q hcall ⟨hbegan, fun y hy => hopen y (hbefore.subset hy)⟩).trans hpid
  obtain ⟨⟨x, hx, hxpid, hxcall⟩, hopenp⟩ := hp
  obtain ⟨⟨y, hy, hypid, hycall⟩, hopenq⟩ := hq
  obtain ⟨before, after, hsplit⟩ := List.append_of_mem hx
  have hymem := hy
  rw [hsplit] at hymem
  rcases List.mem_append.1 hymem with hbefore | hafter
  · exact (hlater hsplit hxpid hxcall ⟨y, hbefore, hypid, hycall⟩ hopenq).symm
  · rcases List.mem_cons.1 hafter with rfl | hafter
    · exact hxpid.symm.trans hypid
    · obtain ⟨between, rest, hrest⟩ := List.append_of_mem hafter
      have hsplit' : l = (before ++ x :: between) ++ y :: rest := by simp [hsplit, hrest]
      exact hlater hsplit' hypid hycall ⟨x, by simp, hxpid, hxcall⟩ hopenp

/-- What a process does when it edits a file does not fail. -/
theorem Undisturbed.not_failed (h : Undisturbed (l ++ [x])) (hbegan : Began x.pid file l) : failed x = false :=
  h x (by simp) file (hbegan.mono (List.prefix_append l [x]))

theorem heard_snoc : heard id (l ++ [x]) = heard id l ++ (heard? id x).toList := by
  rw [heard, List.filterMap_append, heard]
  cases h : heard? id x with
  | none => rw [List.filterMap_cons_none h]; rfl
  | some request => rw [List.filterMap_cons_some h]; rfl

theorem heard_snoc_of_none (h : heard? id x = none) :
    heard id (l ++ [x]) = heard id l := by
  rw [heard_snoc, h]
  simp

theorem Unheard.snoc (h : Unheard id f l) (hx : x.after.stored f.id = x.before.stored f.id) :
    Unheard id f (l ++ [x]) := by
  obtain ⟨before, y, after, lines, rfl, hcall, hafter⟩ := h
  refine ⟨before, y, after ++ [x], lines, by simp, hcall, fun z hz => ?_⟩
  rcases List.mem_append.1 hz with hz | hz
  · exact hafter z hz
  · obtain rfl := List.mem_singleton.1 hz
    exact hx

/-! Whether requests edit the files one after the other can be decided. -/

/-- The file whose breakpoints an operation begins to replace. -/
def Op.edits? : Op → Option FileId
  | selectRows file => some file
  | _ => none

theorem Op.edits?_eq_some {o : Op} {file : FileId} : o.edits? = some file ↔ o = .selectRows file := by
  cases o <;> simp [Op.edits?]

/-- That requests edit apart can be seen entry by entry. -/
theorem apart_iff : Apart l ↔ ∀ i : Fin l.length, l[i].call.1.edits?.isSome = true →
    ∀ y ∈ l.take i, y.call.1.edits? = l[i].call.1.edits? →
      y.pid = l[i].pid ∨ ∃ z ∈ l.take i, z.pid = y.pid ∧ z.call.1 = .close := by
  constructor
  · intro h i hsome y hy hsame
    obtain ⟨file, hfile⟩ := Option.isSome_iff_exists.1 hsome
    have hpre : l.take i ++ [l[(i : Nat)]] <+: l := by
      rw [List.take_append_getElem]
      exact List.take_prefix _ _
    by_contra hnot
    rw [not_or] at hnot
    refine hnot.1 (h _ _ hpre file y.pid (Op.edits?_eq_some.1 hfile) ⟨⟨y, hy, rfl, ?_⟩, fun z hz hpid hclose => ?_⟩)
    · exact Op.edits?_eq_some.1 (hsame.trans hfile)
    · exact hnot.2 ⟨z, hz, hpid, hclose⟩
  · rintro h before x ⟨after, rfl⟩ file q hcall ⟨⟨y, hy, rfl, hbegan⟩, hopen⟩
    have hlt : before.length < (before ++ [x] ++ after).length := by simp
    have htake : (before ++ [x] ++ after).take before.length = before := by simp
    have hget : (before ++ [x] ++ after)[before.length] = x := by simp
    have hx := h ⟨before.length, hlt⟩
    simp only [Fin.getElem_fin, htake, hget] at hx
    rw [Op.edits?_eq_some.2 hcall] at hx
    refine (hx rfl y hy (Op.edits?_eq_some.2 hbegan)).resolve_right ?_
    rintro ⟨z, hz, hpid, hclose⟩
    exact hopen z hz hpid hclose

theorem undisturbed_iff : Undisturbed l ↔
    ∀ x ∈ l, (∃ y ∈ l, y.pid = x.pid ∧ y.call.1.edits?.isSome = true) → failed x = false := by
  constructor
  · rintro h x hx ⟨y, hy, hpid, hsome⟩
    obtain ⟨file, hfile⟩ := Option.isSome_iff_exists.1 hsome
    exact h x hx file ⟨y, hy, hpid, Op.edits?_eq_some.1 hfile⟩
  · rintro h x hx file ⟨y, hy, hpid, hbegan⟩
    exact h x hx ⟨y, hy, hpid, by rw [Op.edits?_eq_some.2 hbegan]; rfl⟩

theorem settled_iff : Settled l ↔
    ∀ x ∈ l, x.call.1.edits?.isSome = true → ∃ z ∈ l, z.pid = x.pid ∧ z.call.1 = .close := by
  constructor
  · intro h x hx hsome
    obtain ⟨file, hfile⟩ := Option.isSome_iff_exists.1 hsome
    by_contra hnot
    exact h x.pid file ⟨⟨x, hx, rfl, Op.edits?_eq_some.1 hfile⟩, fun z hz hpid hclose => hnot ⟨z, hz, hpid, hclose⟩⟩
  · rintro h q file ⟨⟨x, hx, rfl, hbegan⟩, hopen⟩
    obtain ⟨z, hz, hpid, hclose⟩ := h x hx (by rw [Op.edits?_eq_some.2 hbegan]; rfl)
    exact hopen z hz hpid hclose

instance instDecidableOrderly (l : List Entry) : Decidable (Orderly l) :=
  decidable_of_iff _ (and_congr apart_iff undisturbed_iff).symm

instance instDecidableSettled (l : List Entry) : Decidable (Settled l) :=
  decidable_of_iff _ settled_iff.symm

end Journal

/-! ## Stages -/

/-- How far a process is. -/
inductive Stage
  | plain
  /-- Something has failed, and what was written is not committed. -/
  | spoiled
  | closed
  -- a request that edits: the files whose rows are deleted, and the rows that are added
  | deleting (files : List FileId) (rows : List Row) (file : FileId) (found : List Row)
  | replacing (files : List FileId) (rows : List Row)
  /-- It has committed and not looked yet whom to tell. -/
  | committed (files : List FileId) (rows : List Row)
  | informing (files : List FileId) (rows : List Row) (id : ExecutionId) (todo : List FileId)
  -- a session: its start, and then its worker
  | starting (id : ExecutionId)
  | copied (c : Copy)
  | taken (c : Copy)
  /-- It listens, and has yet to make some requests. -/
  | attending (c : Copy) (rest : List LinesRequest)
  | leaving (id : ExecutionId)

namespace Stage

/-- The execution that a process starts or runs. -/
def execution? : Stage → Option ExecutionId
  | starting id | leaving id => some id
  | copied c | taken c | attending c _ => some c.execution
  | _ => none

/-- The copy that a process has. -/
def copy? : Stage → Option Copy
  | copied c | taken c | attending c _ => some c
  | _ => none

/-- The process will tell an execution of a file, if it has the slot. -/
def WillTell (id : ExecutionId) (file : FileId) : Stage → Prop
  | committed files _ => file ∈ files
  | informing _ _ id' todo => id' = id ∧ file ∈ todo
  | _ => False

theorem execution_of_copy {g : Stage} {c : Copy} (h : g.copy? = some c) : g.execution? = some c.execution := by
  cases g with
  | copied c' | taken c' | attending c' rest =>
    cases h
    rfl
  | _ => cases h

end Stage

/-- Nobody has listened for an execution, and its adapter was not asked for anything. -/
def Untouched (id : ExecutionId) (st : State) (l : List Entry) : Prop :=
  st.channel id = none ∧ st.sent id = [] ∧ heard id l = []

/-- Process `q` has no transaction. -/
def Idle (q : Pid) (st : State) (l : List Entry) : Prop := st.tx q = {} ∧ Open q l

/-- What a transaction has written: it has deleted rows of the files, and added the rows. -/
structure Writes (tx : Transaction) (files : List FileId) (rows : List Row) : Prop where
  added : tx.added = rows
  deleted : ∀ row ∈ tx.deleted, row.fileId ∈ files
  files : ∀ row ∈ rows, row.fileId ∈ files

/-- The rows are the breakpoints of the files. -/
def Told (files : List FileId) (rows : List Row) (st : State) (l : List Entry) : Prop :=
  Apart l → ∀ row, row.fileId ∈ files → (row ∈ st.rows ↔ row ∈ rows)

section Protocol

variable (t : FileTable) (project : ProjectId)

/-- What the stage of process `q` tells. -/
def Stage.Holds (q : Pid) (st : State) (l : List Entry) : Stage → Prop
  | closed => True
  | spoiled => Open q l
  | plain => Idle q st l
  | deleting files rows file found =>
    Open q l ∧ (∀ f ∈ file :: files, Began q f l) ∧ Writes (st.tx q) files rows ∧ file ∉ files ∧
      (∀ row ∈ found, row.fileId = file) ∧ (Apart l → ∀ row ∈ st.rows,
        (row.fileId ∈ files → row ∈ (st.tx q).deleted) ∧ (row.fileId = file → row ∈ found))
  | replacing files rows =>
    Open q l ∧ (∀ f ∈ files, Began q f l) ∧ Writes (st.tx q) files rows ∧
      (Apart l → ∀ row ∈ st.rows, row.fileId ∈ files → row ∈ (st.tx q).deleted)
  | committed files rows => Idle q st l ∧ (∀ f ∈ files, Began q f l) ∧ Told files rows st l
  | informing files rows _ todo => Idle q st l ∧ (∀ f ∈ files, Began q f l) ∧ Told files rows st l ∧ todo ⊆ files
  | starting id => Idle q st l ∧ Untouched id st l
  | copied c => Idle q st l ∧ Untouched c.execution st l ∧ Read t project c l
  | taken c => Idle q st l ∧ Untouched c.execution st l ∧ Read t project c l ∧ Took q c l
  | attending c rest => Idle q st l ∧ Read t project c l ∧ Took q c l ∧
      ∃ cmds, st.channel c.execution = some cmds ∧
        st.sent c.execution ++ rest ++ requestsOf cmds = c.requests ++ heard c.execution l
  | leaving _ => Idle q st l

/-- Each execution is started by one process, and then is in the queue or run by one. -/
structure Tokens (st : State) (gs : Pid → Stage) : Prop where
  unique : ∀ p q id, (gs p).execution? = some id → (gs q).execution? = some id → p = q
  bounded : ∀ p id, (gs p).execution? = some id → id < st.nextExecution
  queued : ∀ payload ∈ st.queue, payload.executionId < st.nextExecution ∧
    ∀ p, (gs p).execution? ≠ some payload.executionId
  nodup : (st.queue.map (·.executionId)).Nodup

/-- There is a copy of the breakpoints, with a process or in the queue. -/
def Copied (st : State) (gs : Pid → Stage) (c : Copy) : Prop :=
  (∃ p, (gs p).copy? = some c) ∨ ∃ payload ∈ st.queue, payloadCopy payload = c

/-- A session has the stored lines of a file, or will have them, or its last edit was not heard. -/
def Agrees (st : State) (gs : Pid → Stage) (l : List Entry) (c : Copy) (file : File) : Prop :=
  linesOf (c.requests ++ heard c.execution l) file = st.stored file.id ∨
    (∃ q, (gs q).WillTell c.execution file.id) ∨ Unheard c.execution file l

/-- Every session that has the slot and its copy agrees. -/
def Agreed (st : State) (gs : Pid → Stage) (l : List Entry) : Prop :=
  Orderly l → ∀ c, Copied st gs c → st.active.map (·.executionId) = some c.execution →
    ∀ file ∈ t.files, file.projectId = project → Agrees st gs l c file

/-- What holds of the shared state. -/
structure Shared (st : State) (gs : Pid → Stage) (l : List Entry) : Prop where
  tokens : Tokens st gs
  queued : ∀ payload ∈ st.queue, Untouched payload.executionId st l ∧ Read t project (payloadCopy payload) l
  fresh : ∀ id, st.nextExecution ≤ id → Untouched id st l
  agreed : Agreed t project st gs l

variable (sets : SetOrder) (rows : List Row)

/-- The protocol of the debugger. -/
def debuggerProtocol : Protocol (debugger t project sets rows).journaled Stage where
  Inv s gs := Shared t project s.1 gs s.2 ∧ ∀ q, (gs q).Holds t project q s.1 s.2
  At _ _ g o := ∀ id paused, o = some (.round id paused) → ∃ c, g = .attending c [] ∧ c.execution = id
  ok _ _ _ _ _ := True

end Protocol

/-! ## What a step does to the others -/

/-- The channel and the requests of an execution are as they were. -/
def Still (id : ExecutionId) (st st' : State) (x : Entry) : Prop :=
  st'.channel id = st.channel id ∧ st'.sent id = st.sent id ∧ heard? id x = none

/-- A command was published to those who listen for an execution. -/
def Published (id : ExecutionId) (st st' : State) (x : Entry) : Prop :=
  ∃ cmds sent, st.channel id = some cmds ∧ st'.channel id = some (cmds ++ [sent]) ∧ st'.sent id = st.sent id ∧
    heard? id x = lineRequest sent.2

/-- What process `p`, which runs the execution `own` or none, does to the others: it changes rows only of files that it
edits, and sends commands to those who listen. -/
structure Beside (p : Pid) (own : Option ExecutionId) (st : State) (l : List Entry) (x : Entry) (st' : State) :
    Prop where
  pid : x.pid = p
  tx : ∀ q, q ≠ p → st'.tx q = st.tx q
  rows : ∀ row, (row ∈ st'.rows ↔ row ∈ st.rows) ∨ Editing p row.fileId l
  streams : ∀ id, own ≠ some id → Still id st st' x ∨ Published id st st' x
  next : st.nextExecution ≤ st'.nextExecution

section Beside

variable {t : FileTable} {project : ProjectId} {p q : Pid} {id : ExecutionId} {own : Option ExecutionId}
  {st st' : State} {l : List Entry} {x : Entry} {g : Stage}

theorem Untouched.beside (h : Untouched id st l) (hbeside : Beside p own st l x st') (hown : own ≠ some id) :
    Untouched id st' (l ++ [x]) := by
  rcases hbeside.streams id hown with ⟨hchannel, hsent, hheard⟩ | ⟨cmds, sent, hchannel, -⟩
  · exact ⟨hchannel.trans h.1, hsent.trans h.2.1, (heard_snoc_of_none hheard).trans h.2.2⟩
  · cases h.1.symm.trans hchannel

theorem Idle.beside (h : Idle q st l) (hbeside : Beside p own st l x st') (hq : q ≠ p) : Idle q st' (l ++ [x]) :=
  ⟨(hbeside.tx q hq).trans h.1, h.2.snoc fun hpid => absurd (hpid.symm.trans hbeside.pid) hq⟩

/-- A step of another process leaves the rows of a file alone that is edited. -/
theorem Beside.rows_of_editing (h : Beside p own st l x st') (hq : q ≠ p) {row : Row}
    (hediting : Editing q row.fileId l) (hapart : Apart (l ++ [x])) : row ∈ st'.rows ↔ row ∈ st.rows :=
  (h.rows row).resolve_right fun hp =>
    hq ((hapart.of_earlier (List.prefix_append l [x])).eq_of_editing hediting hp)

/-- A step of another process leaves what a stage tells. -/
theorem Stage.Holds.beside (h : g.Holds t project q st l) (hbeside : Beside p own st l x st') (hq : q ≠ p)
    (hown : ∀ id, g.execution? = some id → own ≠ some id) : g.Holds t project q st' (l ++ [x]) := by
  have hl : l <+: l ++ [x] := List.prefix_append l [x]
  have hopen : Open q l → Open q (l ++ [x]) := fun hopen =>
    hopen.snoc fun hpid => absurd (hpid.symm.trans hbeside.pid) hq
  have htx := hbeside.tx q hq
  cases g with
  | closed => trivial
  | spoiled => exact hopen h
  | plain | leaving id => exact Idle.beside h hbeside hq
  | deleting files rows file found =>
    obtain ⟨hopened, hbegan, hwrites, hnew, hfound, hrows⟩ := h
    refine ⟨hopen hopened, fun f hf => (hbegan f hf).mono hl, htx ▸ hwrites, hnew, hfound, fun hapart row hrow => ?_⟩
    have hback : row.fileId ∈ file :: files → row ∈ st.rows := fun hmem =>
      (hbeside.rows_of_editing hq ⟨hbegan _ hmem, hopened⟩ hapart).1 hrow
    have hold := hrows (hapart.of_earlier hl)
    rw [htx]
    exact ⟨fun hmem => (hold row (hback (List.mem_cons_of_mem _ hmem))).1 hmem,
      fun hfile => (hold row (hback (hfile ▸ List.mem_cons_self))).2 hfile⟩
  | replacing files rows =>
    obtain ⟨hopened, hbegan, hwrites, hrows⟩ := h
    refine ⟨hopen hopened, fun f hf => (hbegan f hf).mono hl, htx ▸ hwrites, fun hapart row hrow hmem => ?_⟩
    rw [htx]
    exact hrows (hapart.of_earlier hl) row ((hbeside.rows_of_editing hq ⟨hbegan _ hmem, hopened⟩ hapart).1 hrow) hmem
  | committed files rows =>
    obtain ⟨hidle, hbegan, htold⟩ := h
    exact ⟨hidle.beside hbeside hq, fun f hf => (hbegan f hf).mono hl, fun hapart row hmem =>
      (hbeside.rows_of_editing hq ⟨hbegan _ hmem, hidle.2⟩ hapart).trans (htold (hapart.of_earlier hl) row hmem)⟩
  | informing files rows id todo =>
    obtain ⟨hidle, hbegan, htold, htodo⟩ := h
    exact ⟨hidle.beside hbeside hq, fun f hf => (hbegan f hf).mono hl, fun hapart row hmem =>
      (hbeside.rows_of_editing hq ⟨hbegan _ hmem, hidle.2⟩ hapart).trans (htold (hapart.of_earlier hl) row hmem), htodo⟩
  | starting id => exact ⟨h.1.beside hbeside hq, Untouched.beside h.2 hbeside (hown id rfl)⟩
  | copied c => exact ⟨h.1.beside hbeside hq, Untouched.beside h.2.1 hbeside (hown _ rfl), h.2.2.mono hl⟩
  | taken c =>
    exact ⟨h.1.beside hbeside hq, Untouched.beside h.2.1 hbeside (hown _ rfl), h.2.2.1.mono hl, h.2.2.2.mono hl⟩
  | attending c rest =>
    obtain ⟨hidle, hread, htook, cmds, hchannel, hstream⟩ := h
    refine ⟨hidle.beside hbeside hq, hread.mono hl, htook.mono hl, ?_⟩
    rcases hbeside.streams c.execution (hown _ rfl) with
      ⟨hchannel', hsent, hheard⟩ | ⟨cmds', sent, hcmds', hchannel', hsent, hheard⟩
    · exact ⟨cmds, hchannel'.trans hchannel, by rw [hsent, hstream, heard_snoc_of_none hheard]⟩
    · obtain rfl : cmds = cmds' := Option.some.inj (hchannel.symm.trans hcmds')
      refine ⟨cmds ++ [sent], hchannel', ?_⟩
      have hrequests : requestsOf (cmds ++ [sent]) = requestsOf cmds ++ (lineRequest sent.2).toList := by
        rw [requestsOf, List.filterMap_append, requestsOf]
        cases hrequest : lineRequest sent.2 with
        | none => simp [hrequest]
        | some request => simp [hrequest]
      rw [hsent, hrequests, ← List.append_assoc, hstream, heard_snoc, hheard, List.append_assoc]

end Beside

/-! ## What a step makes of the shared facts -/

section Shared

variable {t : FileTable} {project : ProjectId} {p : Pid} {st st' : State} {gs : Pid → Stage} {g : Stage}
  {l : List Entry} {x : Entry}

/-- A process keeps its execution, or has done with it. -/
theorem Tokens.keep (h : Tokens st gs) (hqueue : st'.queue.Sublist st.queue)
    (hnext : st.nextExecution ≤ st'.nextExecution)
    (hg : g.execution? = (gs p).execution? ∨ g.execution? = none) : Tokens st' (Function.update gs p g) := by
  have hold : ∀ q id, (Function.update gs p g q).execution? = some id → (gs q).execution? = some id := by
    intro q id hid
    by_cases hq : q = p
    · subst hq
      rw [Function.update_self] at hid
      rcases hg with hsame | hnone
      · exact hsame ▸ hid
      · cases hnone.symm.trans hid
    · rwa [Function.update_of_ne hq] at hid
  refine ⟨fun q q' id hq hq' => h.unique q q' id (hold q id hq) (hold q' id hq'), fun q id hq => ?_,
    fun payload hpayload => ?_, h.nodup.sublist (hqueue.map _)⟩
  · exact Nat.lt_of_lt_of_le (h.bounded q id (hold q id hq)) hnext
  · obtain ⟨hlt, hnone⟩ := h.queued payload (hqueue.subset hpayload)
    exact ⟨Nat.lt_of_lt_of_le hlt hnext, fun q hq => hnone q (hold q _ hq)⟩

/-- A process starts an execution. -/
theorem Tokens.insert (h : Tokens st gs) (hqueue : st'.queue = st.queue)
    (hnext : st'.nextExecution = st.nextExecution + 1) (hg : g.execution? = some st.nextExecution) :
    Tokens st' (Function.update gs p g) := by
  have hold : ∀ q id, (Function.update gs p g q).execution? = some id →
      q = p ∧ id = st.nextExecution ∨ (gs q).execution? = some id ∧ id < st.nextExecution := by
    intro q id hid
    by_cases hq : q = p
    · subst hq
      rw [Function.update_self, hg] at hid
      exact .inl ⟨rfl, (Option.some.inj hid).symm⟩
    · rw [Function.update_of_ne hq] at hid
      exact .inr ⟨hid, h.bounded q id hid⟩
  refine ⟨fun q q' id hq hq' => ?_, fun q id hq => ?_, fun payload hpayload => ?_, hqueue ▸ h.nodup⟩
  · rcases hold q id hq with ⟨rfl, rfl⟩ | ⟨hid, hlt⟩ <;> rcases hold q' _ hq' with ⟨rfl, heq⟩ | ⟨hid', hlt'⟩
    · rfl
    · exact absurd hlt' (Nat.lt_irrefl _)
    · exact absurd (heq ▸ hlt) (Nat.lt_irrefl _)
    · exact h.unique q q' id hid hid'
  · rw [hnext]
    rcases hold q id hq with ⟨-, rfl⟩ | ⟨-, hlt⟩
    · exact Nat.lt_succ_self _
    · exact Nat.lt_succ_of_lt hlt
  · rw [hqueue] at hpayload
    obtain ⟨hlt, hnone⟩ := h.queued payload hpayload
    refine ⟨hnext ▸ Nat.lt_succ_of_lt hlt, fun q hq => ?_⟩
    rcases hold q _ hq with ⟨-, heq⟩ | ⟨hid, -⟩
    · exact absurd (heq ▸ hlt) (Nat.lt_irrefl _)
    · exact hnone q hid

/-- A process puts its execution into the queue. -/
theorem Tokens.enqueue (h : Tokens st gs) {payload : Payload} (hqueue : st'.queue = st.queue ++ [payload])
    (hnext : st'.nextExecution = st.nextExecution) (hp : (gs p).execution? = some payload.executionId)
    (hg : g.execution? = none) : Tokens st' (Function.update gs p g) := by
  have hold : ∀ q id, (Function.update gs p g q).execution? = some id → q ≠ p ∧ (gs q).execution? = some id := by
    intro q id hid
    by_cases hq : q = p
    · subst hq
      rw [Function.update_self, hg] at hid
      cases hid
    · rw [Function.update_of_ne hq] at hid
      exact ⟨hq, hid⟩
  refine ⟨fun q q' id hq hq' => h.unique q q' id (hold q id hq).2 (hold q' id hq').2,
    fun q id hq => hnext ▸ h.bounded q id (hold q id hq).2, fun other hother => ?_, ?_⟩
  · rw [hqueue] at hother
    rcases List.mem_append.1 hother with hother | hother
    · obtain ⟨hlt, hnone⟩ := h.queued other hother
      exact ⟨hnext ▸ hlt, fun q hq => hnone q (hold q _ hq).2⟩
    · obtain rfl := List.mem_singleton.1 hother
      refine ⟨hnext ▸ h.bounded p _ hp, fun q hq => ?_⟩
      obtain ⟨hne, hid⟩ := hold q _ hq
      exact hne (h.unique q p _ hid hp)
  · rw [hqueue, List.map_append, List.map_singleton]
    refine List.nodup_append.2 ⟨h.nodup, List.nodup_singleton _, fun id hid id' hid' => ?_⟩
    obtain rfl := List.mem_singleton.1 hid'
    rintro rfl
    obtain ⟨other, hother, heq⟩ := List.mem_map.1 hid
    exact (h.queued other hother).2 p (heq ▸ hp)

/-- A process takes an execution from the queue. -/
theorem Tokens.dequeue (h : Tokens st gs) {i : Nat} {payload : Payload} (hi : st.queue[i]? = some payload)
    (hqueue : st'.queue = st.queue.eraseIdx i) (hnext : st'.nextExecution = st.nextExecution)
    (hg : g.execution? = some payload.executionId) :
    Tokens st' (Function.update gs p g) := by
  have hmem : payload ∈ st.queue := List.mem_of_getElem? hi
  obtain ⟨hlt, hnone⟩ := h.queued payload hmem
  have hold : ∀ q id, (Function.update gs p g q).execution? = some id →
      q = p ∧ id = payload.executionId ∨ (gs q).execution? = some id := by
    intro q id hid
    by_cases hq : q = p
    · subst hq
      rw [Function.update_self, hg] at hid
      exact .inl ⟨rfl, (Option.some.inj hid).symm⟩
    · rw [Function.update_of_ne hq] at hid
      exact .inr hid
  have hnodup : (st'.queue.map (·.executionId)).Nodup := by
    rw [hqueue]
    exact h.nodup.sublist ((List.eraseIdx_sublist _ _).map _)
  refine ⟨fun q q' id hq hq' => ?_, fun q id hq => ?_, fun other hother => ?_, hnodup⟩
  · rcases hold q id hq with ⟨rfl, rfl⟩ | hid <;> rcases hold q' _ hq' with ⟨rfl, heq⟩ | hid'
    · rfl
    · exact absurd hid' (hnone q')
    · exact absurd (heq ▸ hid) (hnone q)
    · exact h.unique q q' id hid hid'
  · rw [hnext]
    rcases hold q id hq with ⟨-, rfl⟩ | hid
    · exact hlt
    · exact h.bounded q id hid
  · rw [hqueue] at hother
    obtain ⟨hlt', hnone'⟩ := h.queued other ((List.eraseIdx_sublist _ _).subset hother)
    refine ⟨hnext ▸ hlt', fun q hq => ?_⟩
    rcases hold q _ hq with ⟨-, heq⟩ | hid
    · -- the entry that was taken is not there any more
      obtain ⟨j, hother⟩ := List.mem_iff_getElem?.1 hother
      rw [List.getElem?_eraseIdx] at hother
      obtain ⟨k, hk, hkj⟩ : ∃ k, k ≠ i ∧ st.queue[k]? = some other := by
        split at hother
        · next hlt => exact ⟨j, by omega, hother⟩
        · next hge => exact ⟨j + 1, by omega, hother⟩
      refine hk ?_
      have hki : (st.queue.map (·.executionId))[k]? = (st.queue.map (·.executionId))[i]? := by
        rw [List.getElem?_map, List.getElem?_map, hkj, hi, Option.map_some, Option.map_some, heq]
      have hklt : k < (st.queue.map (·.executionId)).length := by
        rw [List.length_map]
        exact (List.getElem?_eq_some_iff.1 hkj).1
      exact (List.getElem?_inj hklt h.nodup).1 hki
    · exact hnone' q hid

/-- The copies are those of before, with that of the process. -/
theorem Copied.of_update {c : Copy} (h : Copied st' (Function.update gs p g) c)
    (hqueue : ∀ payload ∈ st'.queue, payload ∈ st.queue ∨ (gs p).copy? = some (payloadCopy payload))
    (hg : ∀ c, g.copy? = some c → Copied st gs c) : Copied st gs c := by
  rcases h with ⟨q, hq⟩ | ⟨payload, hpayload, hc⟩
  · by_cases hqp : q = p
    · subst hqp
      rw [Function.update_self] at hq
      exact hg c hq
    · rw [Function.update_of_ne hqp] at hq
      exact .inl ⟨q, hq⟩
  · rcases hqueue payload hpayload with hold | hcopy
    · exact .inr ⟨payload, hold, hc⟩
    · exact .inl ⟨p, hc ▸ hcopy⟩

/-- A session keeps agreeing while nothing is committed for the file and nothing is heard. -/
theorem Agrees.keep {c : Copy} {file : File} (h : Agrees st gs l c file) (hbefore : x.before = st)
    (hafter : x.after = st')
    (hheard : heard? c.execution x = none) (hstored : st'.stored file.id = st.stored file.id)
    (hwill : (gs p).WillTell c.execution file.id → g.WillTell c.execution file.id) :
    Agrees st' (Function.update gs p g) (l ++ [x]) c file := by
  rcases h with hlines | ⟨q, hq⟩ | hunheard
  · exact .inl (by rw [heard_snoc_of_none hheard, hlines, hstored])
  · refine .inr (.inl ⟨q, ?_⟩)
    by_cases hqp : q = p
    · subst hqp
      rw [Function.update_self]
      exact hwill hq
    · rwa [Function.update_of_ne hqp]
  · exact .inr (.inr (hunheard.snoc (by rw [hbefore, hafter, hstored])))

/-- What a process will tell is of a file that it edits. -/
theorem Stage.Holds.editing {id : ExecutionId} {file : FileId} (h : g.Holds t project p st l)
    (hwill : g.WillTell id file) :
    Editing p file l := by
  cases g with
  | committed files rows => exact ⟨h.2.1 file hwill, h.1.2⟩
  | informing files rows id' todo => exact ⟨h.2.1 file (h.2.2.2 hwill.2), h.1.2⟩
  | _ => exact hwill.elim

/-- Every session that has the slot keeps agreeing. -/
theorem Agreed.keep (h : Agreed t project st gs l) (hbefore : x.before = st) (hafter : x.after = st') (hpid : x.pid = p)
    (hholds : (gs p).Holds t project p st l)
    (hcopied : ∀ c, Copied st' (Function.update gs p g) c → st'.active.map (·.executionId) = some c.execution →
      Copied st gs c ∧ st.active.map (·.executionId) = some c.execution)
    (hheard : ∀ id, heard? id x = none)
    (hstored : ∀ file, st'.stored file = st.stored file)
    (hwill : ∀ id file, (gs p).WillTell id file → st'.active.map (·.executionId) = some id →
      g.WillTell id file ∨ failed x = true) :
    Agreed t project st' (Function.update gs p g) (l ++ [x]) := by
  intro horderly c hc hactive file hfile hproject
  obtain ⟨hc, hactive'⟩ := hcopied c hc hactive
  have hold := h (horderly.of_earlier (List.prefix_append l [x])) c hc hactive' file hfile hproject
  refine hold.keep hbefore hafter (hheard _) (hstored _) fun hwilltell => ?_
  refine (hwill _ _ hwilltell hactive).resolve_right fun hfailed => ?_
  obtain ⟨hbegan, -⟩ := hholds.editing hwilltell
  have hnot := horderly.2.not_failed (hpid.symm ▸ hbegan)
  exact Bool.false_ne_true (hnot.symm.trans hfailed)

theorem Shared.step (h : Shared t project st gs l) (hbeside : Beside p (gs p).execution? st l x st')
    (htokens : Tokens st' (Function.update gs p g))
    (hqueue : ∀ payload ∈ st'.queue, payload ∈ st.queue ∨
      Untouched payload.executionId st' (l ++ [x]) ∧ Read t project (payloadCopy payload) (l ++ [x]))
    (hagreed : Agreed t project st' (Function.update gs p g) (l ++ [x])) :
    Shared t project st' (Function.update gs p g) (l ++ [x]) := by
  refine ⟨htokens, fun payload hpayload => ?_, fun id hid => ?_, hagreed⟩
  · rcases hqueue payload hpayload with hold | hnew
    · obtain ⟨huntouched, hread⟩ := h.queued payload hold
      exact ⟨huntouched.beside hbeside ((h.tokens.queued payload hold).2 p), hread.mono (List.prefix_append l [x])⟩
    · exact hnew
  · refine (h.fresh id (Nat.le_trans hbeside.next hid)).beside hbeside fun hown => ?_
    exact absurd (h.tokens.bounded p id hown) (Nat.not_lt.2 (Nat.le_trans hbeside.next hid))

end Shared

/-! ## Operations that leave the rows and the channels alone -/

/-- The rows, the transactions, the channels and the requests are as they were. -/
structure Calm (st st' : State) : Prop where
  rows : st'.rows = st.rows
  tx : st'.tx = st.tx
  channel : st'.channel = st.channel
  sent : st'.sent = st.sent
  next : st.nextExecution ≤ st'.nextExecution

/-- The operations that leave everything as it is. -/
def Op.inert : Op → Bool
  | getMember _ | getFile _ | selectRows _ | refresh _ | getExecution _ | selectFiles | selectBreakpoints
  | failQueued _ | claimQueued _ | publishEvent _ | delState _ | handshake _ | getActive => true
  | _ => false

/-- The operations that change no row and no channel. -/
def Op.calm : Op → Bool
  | insertExecution | setActiveNx _ | setActive _ | delActive | enqueue _ | removeFromQueue _ | dequeue => true
  | o => o.inert

section Calm

variable {t : FileTable} {project : ProjectId} {p : Pid} {env : Env} {st st' : State} {o : Op}
  {y : Except PyError o.Val} {l : List Entry} {x : Entry} {g : Stage} {own : Option ExecutionId}

theorem Calm.refl (st : State) : Calm st st := ⟨rfl, rfl, rfl, rfl, Nat.le_refl _⟩

/-- An operation goes through, or has raised before its effect or after it. -/
theorem exec_cases (h : o.exec t project p env st = some (y, st')) :
    o.run t project p env st = some (y, st') ∨
      (∃ e, y = .error e) ∧ (st' = st ∨ ∃ z, o.run t project p env st = some (z, st')) := by
  unfold Op.exec at h
  split at h
  · exact .inl h
  · exact .inl h
  · obtain ⟨rfl, rfl⟩ := Prod.mk.inj (Option.some.inj h)
    exact .inr ⟨⟨_, rfl⟩, .inl rfl⟩
  · obtain ⟨⟨z, st''⟩, hrun, hz⟩ := Option.map_eq_some_iff.1 h
    obtain ⟨rfl, rfl⟩ := Prod.mk.inj hz
    exact .inr ⟨⟨_, rfl⟩, .inr ⟨z, hrun⟩⟩

/-- What every effect of an operation has, the operation has. -/
theorem exec_state {P : State → Prop} (h : o.exec t project p env st = some (y, st')) (hsame : P st)
    (hrun : ∀ z, o.run t project p env st = some (z, st') → P st') : P st' := by
  rcases exec_cases h with hrun' | ⟨-, rfl | ⟨z, hrun'⟩⟩
  · exact hrun y hrun'
  · exact hsame
  · exact hrun z hrun'

theorem run_inert (ho : o.inert = true) (h : o.run t project p env st = some (y, st')) : st' = st := by
  cases o <;> first
    | exact (Prod.mk.inj (Option.some.inj h)).2.symm
    | cases ho

theorem exec_inert (ho : o.inert = true) (h : o.exec t project p env st = some (y, st')) : st' = st :=
  exec_state (P := fun st' => st' = st) h rfl fun _ hrun => run_inert ho hrun

theorem run_calm (ho : o.calm = true) (h : o.run t project p env st = some (y, st')) : Calm st st' := by
  by_cases hinert : o.inert = true
  · rw [run_inert hinert h]
    exact Calm.refl st
  cases o with
  | insertExecution =>
    obtain ⟨-, rfl⟩ := Prod.mk.inj (Option.some.inj h)
    exact ⟨rfl, rfl, rfl, rfl, Nat.le_succ _⟩
  | setActiveNx info =>
    unfold Op.run at h
    dsimp only at h
    split at h <;> obtain ⟨-, rfl⟩ := Prod.mk.inj (Option.some.inj h) <;> exact ⟨rfl, rfl, rfl, rfl, Nat.le_refl _⟩
  | setActive info | delActive | enqueue payload | removeFromQueue id =>
    obtain ⟨-, rfl⟩ := Prod.mk.inj (Option.some.inj h)
    exact ⟨rfl, rfl, rfl, rfl, Nat.le_refl _⟩
  | dequeue =>
    unfold Op.run at h
    dsimp only at h
    split at h <;> obtain ⟨-, rfl⟩ := Prod.mk.inj (Option.some.inj h) <;> exact ⟨rfl, rfl, rfl, rfl, Nat.le_refl _⟩
  | _ => exact absurd ho hinert

theorem exec_calm (ho : o.calm = true) (h : o.exec t project p env st = some (y, st')) : Calm st st' :=
  exec_state (P := Calm st) h (Calm.refl st) fun _ hrun => run_calm ho hrun

theorem heard?_of_same {id : ExecutionId} (h : x.after.channel id = x.before.channel id) : heard? id x = none := by
  unfold heard?
  split
  · rw [if_neg fun hne => hne.2 h.symm]
  · rfl

theorem Calm.beside (h : Calm st st') (hpid : x.pid = p) (hbefore : x.before = st) (hafter : x.after = st') :
    Beside p own st l x st' where
  pid := hpid
  tx q _ := by rw [h.tx]
  rows row := .inl (by rw [h.rows])
  streams id _ := .inl ⟨by rw [h.channel], by rw [h.sent], heard?_of_same (by rw [hbefore, hafter, h.channel])⟩
  next := h.next

theorem Calm.stored (h : Calm st st') (file : FileId) : st'.stored file = st.stored file := by
  rw [State.stored, h.rows, State.stored]

theorem Calm.untouched {id : ExecutionId} (h : Calm st st') (hbefore : x.before = st) (hafter : x.after = st')
    (huntouched : Untouched id st l) : Untouched id st' (l ++ [x]) := by
  refine ⟨by rw [h.channel, huntouched.1], by rw [h.sent, huntouched.2.1], ?_⟩
  rw [heard_snoc_of_none (heard?_of_same (by rw [hbefore, hafter, h.channel])), huntouched.2.2]

theorem Calm.idle (h : Calm st st') (hclose : x.call.1 ≠ .close) (hidle : Idle p st l) : Idle p st' (l ++ [x]) :=
  ⟨by rw [h.tx, hidle.1], hidle.2.snoc fun _ => hclose⟩

/-- A calm operation leaves what the process knows. -/
theorem Stage.Holds.calm (h : g.Holds t project p st l) (hcalm : Calm st st') (hclose : x.call.1 ≠ .close)
    (hbefore : x.before = st) (hafter : x.after = st') : g.Holds t project p st' (l ++ [x]) := by
  have hl : l <+: l ++ [x] := List.prefix_append l [x]
  cases g with
  | closed => trivial
  | spoiled => exact Open.snoc h fun _ => hclose
  | plain | leaving id => exact hcalm.idle hclose h
  | deleting files rows file found =>
    obtain ⟨hopened, hbegan, hwrites, hnew, hfound, hrows⟩ := h
    refine ⟨hopened.snoc fun _ => hclose, fun f hf => (hbegan f hf).mono hl, by rwa [hcalm.tx], hnew, hfound,
      fun hapart => ?_⟩
    rw [hcalm.rows, hcalm.tx]
    exact hrows (hapart.of_earlier hl)
  | replacing files rows =>
    obtain ⟨hopened, hbegan, hwrites, hrows⟩ := h
    refine ⟨hopened.snoc fun _ => hclose, fun f hf => (hbegan f hf).mono hl, by rwa [hcalm.tx], fun hapart => ?_⟩
    rw [hcalm.rows, hcalm.tx]
    exact hrows (hapart.of_earlier hl)
  | committed files rows =>
    obtain ⟨hidle, hbegan, htold⟩ := h
    refine ⟨hcalm.idle hclose hidle, fun f hf => (hbegan f hf).mono hl, fun hapart => ?_⟩
    rw [hcalm.rows]
    exact htold (hapart.of_earlier hl)
  | informing files rows id todo =>
    obtain ⟨hidle, hbegan, htold, htodo⟩ := h
    refine ⟨hcalm.idle hclose hidle, fun f hf => (hbegan f hf).mono hl, fun hapart => ?_, htodo⟩
    rw [hcalm.rows]
    exact htold (hapart.of_earlier hl)
  | starting id => exact ⟨hcalm.idle hclose h.1, hcalm.untouched hbefore hafter h.2⟩
  | copied c => exact ⟨hcalm.idle hclose h.1, hcalm.untouched hbefore hafter h.2.1, h.2.2.mono hl⟩
  | taken c =>
    exact ⟨hcalm.idle hclose h.1, hcalm.untouched hbefore hafter h.2.1, h.2.2.1.mono hl, h.2.2.2.mono hl⟩
  | attending c rest =>
    obtain ⟨hidle, hread, htook, cmds, hchannel, hstream⟩ := h
    refine ⟨hcalm.idle hclose hidle, hread.mono hl, htook.mono hl, cmds, by rw [hcalm.channel, hchannel], ?_⟩
    rw [hcalm.sent, hstream, heard_snoc_of_none (heard?_of_same (by rw [hbefore, hafter, hcalm.channel]))]

end Calm

end Concord.Breakpoints
