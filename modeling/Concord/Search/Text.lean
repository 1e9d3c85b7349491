import Concord.Base.Lines
import Concord.Base.Matches
import Concord.Frontend.Utf16
import Concord.Models

/-!
# Searching a text

`search_text` of `api/search.py`. A pattern is what `re.compile` makes of it: in a line it finds spans, one
after the other. `compile` is the pattern of a query, whose characters stand for themselves.

`found` are all matches that are not empty, each with its place in the text. `search_text` yields the first
ones of them, as many as its limit says and at least one (`searchText_eq`).
-/

namespace Concord.Search

open Concord.Base

/-! ## Patterns -/

/-- A match of `finditer`. -/
structure Span where
  start : Nat
  stop : Nat
deriving DecidableEq

/-- `re.Pattern`. -/
structure Pattern where
  finditer : List Char → List Span
  bounds : ∀ line, ∀ m ∈ finditer line, m.start ≤ m.stop ∧ m.stop ≤ line.length
  ordered : ∀ line, (finditer line).Pairwise fun m next => m.stop ≤ next.start

/-- What `re` knows of characters. -/
structure Tables where
  /-- `\w`. -/
  isWord : Char → Bool
  /-- A character of a pattern and one of the text, without their case. -/
  sameLetter : Char → Char → Bool

/-- `q` with its limits. -/
structure Query where
  q : List Char
  minLength : 1 ≤ q.length
  maxLength : q.length ≤ 200
  case : Bool
  word : Bool

namespace Query

variable (tables : Tables) (query : Query)

/-- A character of the query matches one of the text. -/
def sameChar (c d : Char) : Bool := if query.case then c = d else tables.sameLetter c d

/-- The characters begin with what the query stands for. -/
def startsWith : List Char → List Char → Bool
  | [], _ => true
  | _ :: _, [] => false
  | c :: q, d :: text => query.sameChar tables c d && startsWith q text

/-- The pattern matches at a position of the line. -/
def matchesAt (line : List Char) (i : Nat) : Bool :=
  query.startsWith tables query.q (line.drop i) &&
    (!query.word ||
      !(line.take i).getLast?.any tables.isWord && !(line.drop (i + query.q.length)).head?.any tables.isWord)

variable {tables query}

theorem length_le_of_startsWith {q text : List Char} (h : query.startsWith tables q text = true) :
    q.length ≤ text.length := by
  induction q generalizing text with
  | nil => exact Nat.zero_le _
  | cons c q ih =>
    cases text with
    | nil => cases h
    | cons d text =>
      unfold startsWith at h
      exact Nat.succ_le_succ (ih ((Bool.and_eq_true _ _).mp h).2)

theorem le_of_matchesAt {line : List Char} {i : Nat} (h : query.matchesAt tables line i = true) :
    i + query.q.length ≤ line.length := by
  have hlength := length_le_of_startsWith ((Bool.and_eq_true _ _).mp h).1
  have hpos := query.minLength
  rw [List.length_drop] at hlength
  omega

end Query

/-- `re.compile` of the escaped query. -/
def compile (tables : Tables) (query : Query) : Pattern where
  finditer line :=
    (scan (query.matchesAt tables line) query.q.length line.length).map fun i => ⟨i, i + query.q.length⟩
  bounds line m hm := by
    obtain ⟨i, hi, rfl⟩ := List.mem_map.1 hm
    exact ⟨Nat.le_add_right _ _, Query.le_of_matchesAt (of_mem_scan hi).1⟩
  ordered line := by
    rw [List.pairwise_map]
    refine (pairwise_scanFrom _ query.q.length line.length 0 0).imp fun h => ?_
    exact Nat.le_trans (Nat.add_le_add_left (Nat.le_max_left _ _) _) h

/-! ## Matches -/

def previewChars : Nat := 200

/-- `SearchMatch`. -/
structure SearchMatch where
  line : Nat
  column : Nat
  length : Nat
  preview : List Char
  previewColumn : Nat
deriving DecidableEq

/-- `_preview`. -/
def previewOf (line : List Char) (start _length : Nat) : List Char × Nat :=
  if line.length ≤ previewChars then (line, start)
  else
    -- The lower bound 0 is that of the natural numbers.
    let lo := min (start - 40) (line.length - previewChars)
    ((line.drop lo).take previewChars, start - lo)

/-- `_utf16_len`. -/
def utf16Len (text : List Char) : Nat := (units text).length

/-- The characters at which `splitlines` ends a line. -/
def isLineBreak (c : Char) : Bool :=
  c ∈ ['\n', '\r', '\x0b', '\x0c', '\x1c', '\x1d', '\x1e', '\u0085', '\u2028', '\u2029']

/-- `splitlines`, with what is before each line. There is no line after the last break. -/
def splitlines (text : List Char) : List Line :=
  let ls := lines isLineBreak text
  if ls.getLast?.any (·.chars = []) then ls.dropLast else ls

/-- `m.group()`. -/
def Span.group (m : Span) (line : List Char) : List Char := (line.take m.stop).drop m.start

theorem Span.split_group {m : Span} {line : List Char} (hstart : m.start ≤ m.stop) (hstop : m.stop ≤ line.length) :
    line = line.take m.start ++ (m.group line ++ line.drop m.stop) := by
  have hrest : m.group line ++ line.drop m.stop = line.drop m.start := by
    conv_rhs => rw [← List.take_append_drop m.stop line]
    rw [List.drop_append_of_le_length (by rw [List.length_take]; omega), group]
  rw [hrest, List.take_append_drop]

theorem Span.length_group {m : Span} {line : List Char} (hstop : m.stop ≤ line.length) :
    (m.group line).length = m.stop - m.start := by
  rw [group, List.length_drop, List.length_take_of_le hstop]

/-- The match at a span of a line. -/
def searchMatch (n : Nat) (line : List Char) (m : Span) : SearchMatch :=
  let preview := previewOf line m.start (m.stop - m.start)
  { line := n
    column := utf16Len (line.take m.start) + 1
    length := utf16Len (m.group line)
    preview := preview.1
    previewColumn := utf16Len (preview.1.take preview.2) }

/-- What a loop has in the end, whether it has returned (an error) or not. -/
def returned {β : Type} : Except (List β) (List β) → List β
  | .ok out => out
  | .error out => out

/-- The inner loop of `search_text`. -/
def searchLine (pattern : Pattern) (limit n : Nat) (line : List Char) (out : List SearchMatch) :
    Except (List SearchMatch) (List SearchMatch) :=
  (pattern.finditer line).foldlM (fun out m =>
    if m.stop = m.start then .ok out
    else
      let out := out ++ [searchMatch n line m]
      if limit ≤ out.length then .error out else .ok out) out

/-- `search_text`. -/
def searchText (text : List Char) (pattern : Pattern) (limit : Nat) : List SearchMatch :=
  returned (((splitlines text).zipIdx 1).foldlM
    (fun out item => searchLine pattern limit item.2 item.1.chars out) [])

/-! ## All matches -/

/-- A match that is not empty, in its line. -/
structure Found where
  number : Nat
  line : Line
  span : Span

/-- The match as `search_text` describes it. -/
def Found.searchMatch (f : Found) : SearchMatch := Search.searchMatch f.number f.line.chars f.span

/-- The matches of a line. -/
def foundIn (pattern : Pattern) (item : Line × Nat) : List Found :=
  ((pattern.finditer item.1.chars).filter fun m => m.stop ≠ m.start).map fun m => ⟨item.2, item.1, m⟩

/-- All matches of a text. -/
def found (pattern : Pattern) (text : List Char) : List Found :=
  ((splitlines text).zipIdx 1).flatMap (foundIn pattern)

section Loop

variable {α β : Type} {limit : Nat} {g : α → β} {out : List β} {l : List α}

/-- One match more, unless that makes them enough. -/
def collect (limit : Nat) (g : α → β) (out : List β) (x : α) : Except (List β) (List β) :=
  if limit ≤ (out ++ [g x]).length then .error (out ++ [g x]) else .ok (out ++ [g x])

/-- A loop that returns as soon as it has enough. -/
theorem returned_foldlM_collect (hout : out.length < max limit 1) :
    returned (l.foldlM (collect limit g) out) = (out ++ l.map g).take (max limit 1) := by
  induction l generalizing out with
  | nil =>
    rw [List.map_nil, List.append_nil, List.take_of_length_le (Nat.le_of_lt hout)]
    rfl
  | cons x l ih =>
    have hlength : (out ++ [g x]).length = out.length + 1 := by simp
    have hsplit : out ++ (x :: l).map g = (out ++ [g x]) ++ l.map g := by simp
    rw [List.foldlM_cons, hsplit, collect, hlength]
    by_cases hlimit : limit ≤ out.length + 1
    · have hfull : max limit 1 = (out ++ [g x]).length := by
        rw [hlength]
        omega
      rw [if_pos hlimit, hfull, List.take_left]
      rfl
    · rw [if_neg hlimit]
      exact ih (by rw [hlength]; omega)

theorem foldlM_flatMap {γ σ ε : Type} {f : γ → List α} {step : σ → α → Except ε σ} {out : σ} {items : List γ} :
    (items.flatMap f).foldlM step out = items.foldlM (fun out item => (f item).foldlM step out) out := by
  induction items generalizing out with
  | nil => rfl
  | cons item items ih =>
    rw [List.flatMap_cons, List.foldlM_append, List.foldlM_cons]
    congr 1
    funext out
    exact ih

end Loop

section Text

variable {pattern : Pattern} {limit : Nat} {text : List Char}

theorem searchLine_eq (item : Line × Nat) (out : List SearchMatch) :
    searchLine pattern limit item.2 item.1.chars out =
      (foundIn pattern item).foldlM (collect limit Found.searchMatch) out := by
  rw [searchLine, foundIn, List.foldlM_map, List.foldlM_filter]
  congr 1
  funext out m
  by_cases h : m.stop = m.start
  · simp [h]
    rfl
  · simp [h, collect, Found.searchMatch]

/-- **`search_text` yields the first matches**, as many as its limit says and at least one. -/
theorem searchText_eq :
    searchText text pattern limit = ((found pattern text).take (max limit 1)).map Found.searchMatch := by
  have hloop : ((splitlines text).zipIdx 1).foldlM
      (fun out item => searchLine pattern limit item.2 item.1.chars out) [] =
        (found pattern text).foldlM (collect limit Found.searchMatch) [] := by
    rw [found, foldlM_flatMap]
    simp only [searchLine_eq]
  rw [searchText, hloop, returned_foldlM_collect (by simp), List.nil_append, List.map_take]

end Text

end Concord.Search
