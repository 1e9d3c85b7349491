import Concord.Base.Double
import Concord.Base.Matches
import Concord.Base.Subsequence
import Concord.Frontend.LowerCase
import Concord.Frontend.Markdown

/-!
# Quick open

`lib/fuzzy.ts`: the files whose paths have the characters of a query in their order, best first. `matchFrom` takes
each character where it first stands after the one before; in a path whose characters are single units that is
`leftmost` (`matchFrom_eq`), so that it finds all that there is to be found.

Scores are doubles. What the comparison of two of them says is right (`bestFirst_nonpos_iff`), as rounding a
difference keeps its sign.
-/

namespace Concord.QuickOpen

open Concord.Base
open Concord.Markdown (unit)

/-! ## Matching -/

/-- `FuzzyMatch`. -/
structure FuzzyMatch where
  score : ℚ
  positions : List Nat
deriving DecidableEq

/-- `p.indexOf(ch, j)`; `none` is -1. -/
def indexOf (p ch : JsString) (j : Nat) : Option Nat := (indexOf? ch (p.drop j)).map (j + ·)

/-- The loop of `matchFrom`, over the rest of the characters. -/
def matchLoop (p : JsString) : List JsString → Nat → List Nat → Option (List Nat)
  | [], _, out => some out
  | ch :: rest, j, out =>
    match indexOf p ch j with
    | none => none
    | some j => matchLoop p rest (j + 1) (out ++ [j])

/-- `matchFrom`. -/
def matchFrom (q p : JsString) (start : Nat) : Option (List Nat) :=
  matchLoop p ((codePoints q).map utf16Units) start []

/-- `path.lastIndexOf("/") + 1`. -/
def nameStart (path : JsString) : Nat := path.length - (path.reverse.takeWhile (· ≠ unit '/')).length

/-- The file name of a path. -/
def fileName (path : JsString) : JsString := path.drop (nameStart path)

/-- `+`. -/
def plus (score n : ℚ) : ℚ := nearestDouble (score + n)

/-- `"/._-".includes`. -/
def isSeparator (u : UInt16) : Bool := u = unit '/' || u = unit '.' || u = unit '_' || u = unit '-'

/-- What the position with number `i` adds to the score. -/
def scorePosition (path p : JsString) (positions : List Nat) (score : ℚ) (pos i : Nat) : ℚ :=
  let score := plus score 1
  let score := if nameStart path ≤ pos then plus score 2 else score
  let score :=
    if pos = 0 ∨ path[pos - 1]?.any isSeparator ∨ path[pos]? ≠ p[pos]? ∧ path[pos - 1]? = p[pos - 1]? then
      plus score 3
    else score
  if 0 < i ∧ positions[i - 1]?.any (· + 1 = pos) then plus score 4 else score

/-- The score of a path in which the query is at these positions. -/
def scoreOf (q path p : JsString) (positions : List Nat) : ℚ :=
  let score := positions.zipIdx.foldl (fun score (pos, i) => scorePosition path p positions score pos i) 0
  let score := if q <+: p.drop (nameStart path) then plus score 10 else score
  plus score (-nearestDouble (path.length * nearestDouble (1 / 100)))

/-- The query without white space, in lower case. -/
def pattern (E : Engine) (query : JsString) : JsString := E.toLowerCase (query.filter (!Markdown.isSpace ·))

/-- `fuzzyMatch`. -/
def fuzzyMatch (E : Engine) (query path : JsString) : Option FuzzyMatch :=
  let q := pattern E query
  if q = [] then some ⟨0, []⟩
  else
    let p := E.toLowerCase path
    let inName := matchFrom q p (nameStart path)
    let positions := inName.or (matchFrom q p 0)
    positions.map fun positions => ⟨scoreOf q path p positions, positions⟩

/-! ## Ranking -/

/-- `{ id: number; path: string }`. -/
class IdAndPath (T : Type) where
  id : T → Int
  path : T → JsString

open IdAndPath (path)

/-- A file with the positions to highlight. -/
structure Ranked (T : Type) where
  file : T
  positions : List Nat

section Ranking

variable (E : Engine) {T : Type} [IdAndPath T]

/-- How the files are compared without a query. -/
def recentFirst (recent : List Int) (a b : T) : Int :=
  let order := fun f : T => (((recent.idxOf? (IdAndPath.id f)).getD recent.length : Nat) : Int)
  if order a - order b ≠ 0 then order a - order b else E.localeCompare (path a) (path b)

/-- How two matches are compared. -/
def bestFirst (a b : T × FuzzyMatch) : ℚ :=
  let d := plus b.2.score (-a.2.score)
  if d ≠ 0 then d else E.localeCompare (path a.1) (path b.1)

/-- `rankFiles`. -/
def rankFiles (files : List T) (query : JsString) (recent : List Int) : List (Ranked T) :=
  if Markdown.trim query = [] then
    (files.mergeSort fun a b => recentFirst E recent a b ≤ 0).map fun file => ⟨file, []⟩
  else
    let found := files.filterMap fun file => (fuzzyMatch E query (path file)).map fun m => (file, m)
    (found.mergeSort fun a b => bestFirst E a b ≤ 0).map fun x => ⟨x.1, x.2.positions⟩

end Ranking

/-! ## The scan -/

section Scan

variable {p q s : JsString} {c : CodePoint} {cs : List CodePoint} {i j start : Nat} {out : List Nat}

theorem noPair_drop (h : NoPair p) (n : Nat) : NoPair (p.drop n) := h.suffix (List.drop_suffix n p)

theorem getElem?_map_unitPoint {u : UInt16} : (s.map unitPoint)[i]? = some (unitPoint u) ↔ s[i]? = some u := by
  rw [List.getElem?_map, ← Option.map_some]
  exact (Option.map_injective unitPoint_injective).eq_iff

/-- Where there is no surrogate pair, the units of a character stand where the character does. -/
theorem occursAt_utf16Units_iff (h : NoPair s) : OccursAt (utf16Units c) s i ↔ (s.map unitPoint)[i]? = some c := by
  by_cases hc : c.val < 0x10000
  · obtain ⟨u, hu, rfl⟩ := utf16Units_of_lt hc
    rw [hu, getElem?_map_unitPoint, ← List.head?_drop]
    constructor
    · rintro ⟨-, rest, hrest⟩
      rw [← hrest]
      rfl
    · intro hhead
      obtain ⟨rest, hrest⟩ := List.head?_eq_some_iff.1 hhead
      refine ⟨?_, rest, hrest.symm⟩
      by_contra hi
      rw [List.drop_of_length_le (Nat.le_of_not_le hi)] at hrest
      cases hrest
  · obtain ⟨high, low, hunits, hpair⟩ := utf16Units_of_le (Nat.le_of_not_lt hc)
    refine iff_of_false (fun hat => ?_) (fun hat => ?_)
    · obtain ⟨before, after, hs, -⟩ := occursAt_iff.1 hat
      rw [hs, hunits] at h
      have hno := (List.isChain_cons_cons.1 (h.suffix (List.suffix_append _ _))).1
      rw [hpair] at hno
      cases hno
    · obtain ⟨u, -, rfl⟩ := List.mem_map.1 (List.mem_of_getElem? hat)
      exact hc (by rw [unitPoint_val]; exact u.toNat_lt)

theorem indexOf?_utf16Units (h : NoPair s) : indexOf? (utf16Units c) s = (s.map unitPoint).idxOf? c := by
  cases hi : (s.map unitPoint).idxOf? c with
  | none =>
    refine indexOf?_eq_none_iff.2 fun i hat => ?_
    exact List.idxOf?_eq_none_iff.1 hi (List.mem_of_getElem? ((occursAt_utf16Units_iff h).1 hat))
  | some i =>
    obtain ⟨hlt, hat, hfirst⟩ := List.idxOf?_eq_some_iff.1 hi
    refine indexOf?_eq_some_iff.2 ⟨(occursAt_utf16Units_iff h).2 (List.getElem?_eq_some_iff.2 ⟨hlt, hat⟩), ?_⟩
    intro j hj hat'
    obtain ⟨hlt', hc⟩ := List.getElem?_eq_some_iff.1 ((occursAt_utf16Units_iff h).1 hat')
    exact hfirst j hj hc

theorem indexOf_eq (h : NoPair p) : indexOf p (utf16Units c) j = indexFrom? (codePoints p) c j := by
  rw [indexOf, indexFrom?, h.codePoints_eq, ← List.map_drop, indexOf?_utf16Units (noPair_drop h j)]

theorem matchLoop_eq (h : NoPair p) :
    matchLoop p (cs.map utf16Units) j out = (leftmost (codePoints p) cs j).map (out ++ ·) := by
  induction cs generalizing j out with
  | nil => simp [matchLoop, leftmost]
  | cons c cs ih =>
    rw [List.map_cons, matchLoop, leftmost, indexOf_eq h]
    cases hi : indexFrom? (codePoints p) c j with
    | none => rfl
    | some i =>
      dsimp only
      rw [ih]
      cases hplaces : leftmost (codePoints p) cs (i + 1) with
      | none => simp [hplaces]
      | some places => simp [hplaces]

/-- The positions that `matchFrom` gives are the leftmost ones. -/
theorem matchFrom_eq (h : NoPair p) : matchFrom q p start = leftmost (codePoints p) (codePoints q) start := by
  rw [matchFrom, matchLoop_eq h]
  cases leftmost (codePoints p) (codePoints q) start with
  | none => rfl
  | some places => rfl

/-- The characters of a query that is found are single units, and stand at its positions. -/
theorem of_matchFrom_eq_some (h : NoPair p) {positions : List Nat} (hm : matchFrom q p start = some positions) :
    positions.Pairwise (· < ·) ∧ (∀ pos ∈ positions, start ≤ pos) ∧ positions.map (p[·]?) = q.map some := by
  rw [matchFrom_eq h] at hm
  obtain ⟨hpairwise, hstart, hmap⟩ := of_leftmost_eq_some hm
  have hsub : (codePoints q).Sublist (p.map unitPoint) := by
    have hdrop := leftmost_isSome_iff.1 (Option.isSome_of_eq_some hm)
    exact h.codePoints_eq ▸ hdrop.trans (List.drop_sublist _ _)
  have hq : NoPair q := by
    refine noPair_of_codePoints fun c hc => ?_
    obtain ⟨u, -, rfl⟩ := List.mem_map.1 (hsub.subset hc)
    rw [unitPoint_val]
    exact u.toNat_lt
  refine ⟨hpairwise, hstart, List.map_injective_iff.2 (Option.map_injective unitPoint_injective) ?_⟩
  rw [h.codePoints_eq, hq.codePoints_eq] at hmap
  simpa [Function.comp_def] using hmap

end Scan

/-! ## The file name -/

section FileName

variable {path : JsString}

/-- A file name is the whole path, or comes after a slash. -/
theorem nameStart_cases (path : JsString) : nameStart path = 0 ∨
    ∃ dir, path = dir ++ unit '/' :: fileName path ∧ nameStart path = dir.length + 1 := by
  have hreverse := List.takeWhile_append_dropWhile (p := (· ≠ unit '/')) (l := path.reverse)
  cases hrest : path.reverse.dropWhile (· ≠ unit '/') with
  | nil =>
    rw [hrest, List.append_nil] at hreverse
    refine .inl ?_
    rw [nameStart, hreverse, List.length_reverse, Nat.sub_self]
  | cons u rest =>
    have hslash : u = unit '/' := by
      have hhead := List.head?_dropWhile_not (· ≠ unit '/') path.reverse
      rw [hrest] at hhead
      simpa using hhead
    have hpath : path = rest.reverse ++ unit '/' :: (path.reverse.takeWhile (· ≠ unit '/')).reverse := by
      rw [hrest, hslash] at hreverse
      conv_lhs => rw [← List.reverse_reverse path, ← hreverse]
      simp
    have hstart : nameStart path = rest.reverse.length + 1 := by
      have hlength := congrArg List.length hreverse
      rw [hrest, List.length_append, List.length_cons, List.length_reverse] at hlength
      rw [nameStart, List.length_reverse]
      omega
    have hname : fileName path = (path.reverse.takeWhile (· ≠ unit '/')).reverse := by
      rw [fileName, hstart]
      exact (congrArg (List.drop _) hpath).trans (List.drop_length_add_append 1)
    refine .inr ⟨rest.reverse, ?_, hstart⟩
    rw [hname]
    exact hpath

variable {E : Engine}

/-- The file name in lower case is a part of the path in lower case. -/
theorem toLowerCase_fileName (h : E.SingleUnits path) :
    E.toLowerCase (fileName path) = (E.toLowerCase path).drop (nameStart path) := by
  rcases nameStart_cases path with hstart | ⟨dir, hpath, hstart⟩
  · rw [fileName, hstart, List.drop_zero, List.drop_zero]
  · have hslash : unitPoint (unit '/') = CodePoint.ofChar '/' := by decide
    have hsplit := Engine.toLowerCase_after_slash hslash (hpath ▸ h)
    rw [← hpath, ← hstart] at hsplit
    exact hsplit

theorem codePoints_fileName (h : E.SingleUnits path) : codePoints (E.toLowerCase (fileName path)) =
    (codePoints (E.toLowerCase path)).drop (nameStart path) := by
  have hp := h.noPair_toLowerCase
  rw [toLowerCase_fileName h, (noPair_drop hp _).codePoints_eq, hp.codePoints_eq, List.map_drop]

end FileName

/-! ## What is found -/

section Found

variable {E : Engine} {query path : JsString} {m : FuzzyMatch}

/-- The query without white space is a subsequence of the other string, both in lower case. -/
def Spelled (E : Engine) (query s : JsString) : Prop :=
  (codePoints (pattern E query)).Sublist (codePoints (E.toLowerCase s))

/-- A match is the empty one, or one of `matchFrom`. -/
theorem fuzzyMatch_eq_some (h : fuzzyMatch E query path = some m) :
    pattern E query = [] ∧ m.positions = [] ∨
      (matchFrom (pattern E query) (E.toLowerCase path) (nameStart path) = some m.positions ∨
        matchFrom (pattern E query) (E.toLowerCase path) (nameStart path) = none ∧
          matchFrom (pattern E query) (E.toLowerCase path) 0 = some m.positions) := by
  unfold fuzzyMatch at h
  dsimp only at h
  split at h
  · next hq =>
    obtain rfl := Option.some.inj h
    exact .inl ⟨hq, rfl⟩
  · next hq =>
    obtain ⟨positions, hpositions, rfl⟩ := Option.map_eq_some_iff.1 h
    rcases Option.or_eq_some_iff.1 hpositions with hname | hpath
    · exact .inr (.inl hname)
    · exact .inr (.inr hpath)

theorem isSome_fuzzyMatch_iff (h : E.SingleUnits path) :
    (fuzzyMatch E query path).isSome = true ↔ Spelled E query path := by
  have hp := h.noPair_toLowerCase
  unfold fuzzyMatch Spelled
  dsimp only
  split
  · next hq =>
    rw [hq]
    exact iff_of_true rfl (List.nil_sublist _)
  · rw [Option.isSome_map, Option.isSome_or, Bool.or_eq_true, matchFrom_eq hp, matchFrom_eq hp,
      leftmost_isSome_iff, leftmost_isSome_iff, List.drop_zero]
    exact or_iff_right_of_imp fun hname => hname.trans (List.drop_sublist _ _)

/-- The positions go upwards and spell the query. -/
theorem positions_of_fuzzyMatch (h : E.SingleUnits path) (hm : fuzzyMatch E query path = some m) :
    m.positions.Pairwise (· < ·) ∧ m.positions.map ((E.toLowerCase path)[·]?) = (pattern E query).map some := by
  rcases fuzzyMatch_eq_some hm with ⟨hq, hnil⟩ | hname | ⟨-, hpath⟩
  · rw [hq, hnil]
    exact ⟨.nil, rfl⟩
  · have hspec := of_matchFrom_eq_some h.noPair_toLowerCase hname
    exact ⟨hspec.1, hspec.2.2⟩
  · have hspec := of_matchFrom_eq_some h.noPair_toLowerCase hpath
    exact ⟨hspec.1, hspec.2.2⟩

theorem lt_length_of_fuzzyMatch (h : E.SingleUnits path) (hm : fuzzyMatch E query path = some m) :
    ∀ pos ∈ m.positions, pos < path.length := by
  intro pos hpos
  have hmem : (E.toLowerCase path)[pos]? ∈ (pattern E query).map some :=
    (positions_of_fuzzyMatch h hm).2 ▸ List.mem_map_of_mem hpos
  obtain ⟨u, -, hu⟩ := List.mem_map.1 hmem
  rw [← h.length_toLowerCase]
  exact (List.getElem?_eq_some_iff.1 hu.symm).1

/-- A match of the file name is found there. -/
theorem nameStart_le_of_fuzzyMatch (h : E.SingleUnits path) (hm : fuzzyMatch E query path = some m)
    (hname : Spelled E query (fileName path)) : ∀ pos ∈ m.positions, nameStart path ≤ pos := by
  have hp := h.noPair_toLowerCase
  rcases fuzzyMatch_eq_some hm with ⟨-, hnil⟩ | hfound | ⟨hnone, -⟩
  · rw [hnil]
    simp
  · exact (of_matchFrom_eq_some hp hfound).2.1
  · rw [Spelled, codePoints_fileName h, ← leftmost_isSome_iff, ← matchFrom_eq hp, hnone] at hname
    cases hname

end Found

/-! ## The order -/

section Order

variable {E : Engine} {T : Type} [IdAndPath T] {a b c : T × FuzzyMatch} {query : JsString} {files : List T}
  {recent : List Int}

theorem bestFirst_nonpos_iff : bestFirst E a b ≤ 0 ↔ b.2.score < a.2.score ∨
    b.2.score = a.2.score ∧ E.localeCompare (path a.1) (path b.1) ≤ 0 := by
  have hneg : plus b.2.score (-a.2.score) < 0 ↔ b.2.score < a.2.score := by
    rw [plus, nearestDouble_neg_iff, add_neg_lt_iff_lt_add, zero_add]
  have hpos : 0 < plus b.2.score (-a.2.score) ↔ a.2.score < b.2.score := by
    rw [plus, nearestDouble_pos_iff, lt_add_neg_iff_add_lt, zero_add]
  unfold bestFirst
  dsimp only
  rcases lt_trichotomy b.2.score a.2.score with hlt | heq | hgt
  · have hd := hneg.2 hlt
    rw [if_pos hd.ne]
    exact iff_of_true hd.le (.inl hlt)
  · have hd : plus b.2.score (-a.2.score) = 0 :=
      le_antisymm (not_lt.1 fun h => (hpos.1 h).ne heq.symm) (not_lt.1 fun h => (hneg.1 h).ne heq)
    rw [if_neg (not_not.2 hd), heq]
    simp
  · have hd := hpos.2 hgt
    rw [if_pos hd.ne']
    refine iff_of_false hd.not_ge ?_
    rintro (hlt | ⟨heq, -⟩)
    · exact hlt.not_gt hgt
    · exact hgt.ne heq.symm

theorem bestFirst_total (a b : T × FuzzyMatch) : bestFirst E a b ≤ 0 ∨ bestFirst E b a ≤ 0 := by
  rw [bestFirst_nonpos_iff, bestFirst_nonpos_iff]
  rcases lt_trichotomy b.2.score a.2.score with hlt | heq | hgt
  · exact .inl (.inl hlt)
  · exact (E.localeCompare_total (path a.1) (path b.1)).imp (fun h => .inr ⟨heq, h⟩) fun h => .inr ⟨heq.symm, h⟩
  · exact .inr (.inl hgt)

theorem bestFirst_trans (hab : bestFirst E a b ≤ 0) (hbc : bestFirst E b c ≤ 0) : bestFirst E a c ≤ 0 := by
  rw [bestFirst_nonpos_iff] at hab hbc ⊢
  rcases hab with hab | ⟨hab, hle⟩
  · rcases hbc with hbc | ⟨hbc, -⟩
    · exact .inl (hbc.trans hab)
    · exact .inl (hbc ▸ hab)
  · rcases hbc with hbc | ⟨hbc, hle'⟩
    · exact .inl (hab ▸ hbc)
    · exact .inr ⟨hbc.trans hab, E.localeCompare_trans _ _ _ hle hle'⟩

theorem pairwise_bestFirst (l : List (T × FuzzyMatch)) :
    (l.mergeSort fun a b => bestFirst E a b ≤ 0).Pairwise fun a b => bestFirst E a b ≤ 0 := by
  refine (List.pairwise_mergeSort ?_ ?_ l).imp of_decide_eq_true
  · intro a b c hab hbc
    exact decide_eq_true (bestFirst_trans (of_decide_eq_true hab) (of_decide_eq_true hbc))
  · intro a b
    rw [Bool.or_eq_true, decide_eq_true_iff, decide_eq_true_iff]
    exact bestFirst_total a b

theorem trim_ne_nil {u : UInt16} (hu : u ∈ query) (hspace : Markdown.isSpace u = false) : Markdown.trim query ≠ [] := by
  intro htrim
  have hmem : u ∈ query.dropWhile Markdown.isSpace := by
    rw [← List.takeWhile_append_dropWhile (p := Markdown.isSpace) (l := query)] at hu
    refine (List.mem_append.1 hu).resolve_left fun htake => ?_
    rw [List.mem_takeWhile_imp htake] at hspace
    cases hspace
  rw [List.rdropWhile_eq_nil_iff.1 htrim u hmem] at hspace
  cases hspace

/-- The files that match, with their matches. -/
def found (E : Engine) (files : List T) (query : JsString) : List (T × FuzzyMatch) :=
  files.filterMap fun file => (fuzzyMatch E query (path file)).map fun m => (file, m)

theorem mem_found {x : T × FuzzyMatch} (hx : x ∈ found E files query) :
    fuzzyMatch E query (path x.1) = some x.2 := by
  obtain ⟨file, -, hfile⟩ := List.mem_filterMap.1 hx
  obtain ⟨m, hm, rfl⟩ := Option.map_eq_some_iff.1 hfile
  exact hm

theorem map_fst_found : (found E files query).map Prod.fst =
    files.filter fun file => (fuzzyMatch E query (path file)).isSome := by
  induction files with
  | nil => rfl
  | cons file files ih =>
    unfold found at ih ⊢
    cases hm : fuzzyMatch E query (path file) with
    | none => simp [hm, ih]
    | some m => simp [hm, ih]

theorem rankFiles_eq (hquery : Markdown.trim query ≠ []) : rankFiles E files query recent =
    ((found E files query).mergeSort fun a b => bestFirst E a b ≤ 0).map fun x => ⟨x.1, x.2.positions⟩ :=
  if_neg hquery

/-- **Quick open finds exactly the matches.** A path whose characters are single units matches if and only if the
query without white space is a subsequence of it, both in lower case. Then the positions go upwards, are places of
the path, spell the query and, where the file name has the query as a subsequence, are in the file name. With a
query that is not blank, the files that match are listed once for each time they are given, best first. -/
theorem quick_open_exact (E : Engine) (query : JsString) :
    (∀ path, E.SingleUnits path →
      ((fuzzyMatch E query path).isSome = true ↔ Spelled E query path) ∧
        ∀ m, fuzzyMatch E query path = some m →
          m.positions.Pairwise (· < ·) ∧ (∀ pos ∈ m.positions, pos < path.length) ∧
            m.positions.map ((E.toLowerCase path)[·]?) = (pattern E query).map some ∧
            (Spelled E query (fileName path) → ∀ pos ∈ m.positions, nameStart path ≤ pos)) ∧
      ∀ {T : Type} [IdAndPath T] (files : List T) (recent : List Int), (∃ u ∈ query, Markdown.isSpace u = false) →
        ((rankFiles E files query recent).map Ranked.file).Perm
            (files.filter fun file => (fuzzyMatch E query (path file)).isSome) ∧
          (∀ r ∈ rankFiles E files query recent, ∃ m, fuzzyMatch E query (path r.file) = some m ∧
            m.positions = r.positions) ∧
          (rankFiles E files query recent).Pairwise fun r r' => ∀ m m',
            fuzzyMatch E query (path r.file) = some m → fuzzyMatch E query (path r'.file) = some m' →
              m'.score ≤ m.score := by
  constructor
  · intro path h
    refine ⟨isSome_fuzzyMatch_iff h, fun m hm => ?_⟩
    obtain ⟨hpairwise, hspells⟩ := positions_of_fuzzyMatch h hm
    exact ⟨hpairwise, lt_length_of_fuzzyMatch h hm, hspells, nameStart_le_of_fuzzyMatch h hm⟩
  · intro T _ files recent hquery
    obtain ⟨u, hu, hspace⟩ := hquery
    rw [rankFiles_eq (trim_ne_nil hu hspace)]
    have hperm := List.mergeSort_perm (found E files query) fun a b => bestFirst E a b ≤ 0
    refine ⟨?_, fun r hr => ?_, ?_⟩
    · rw [List.map_map, ← map_fst_found]
      exact hperm.map Prod.fst
    · obtain ⟨x, hx, rfl⟩ := List.mem_map.1 hr
      exact ⟨x.2, mem_found (hperm.mem_iff.1 hx), rfl⟩
    · rw [List.pairwise_map]
      refine (pairwise_bestFirst (found E files query)).imp_of_mem fun ha hb hle m m' hm hm' => ?_
      rw [mem_found (hperm.mem_iff.1 ha)] at hm
      rw [mem_found (hperm.mem_iff.1 hb)] at hm'
      obtain rfl := Option.some.inj hm
      obtain rfl := Option.some.inj hm'
      rcases bestFirst_nonpos_iff.1 hle with hlt | ⟨heq, -⟩
      · exact hlt.le
      · exact heq.le

end Order

/-! ## ASCII -/

/-- The sign of a comparison. -/
def compareNats (s t : List Nat) : Int := if s ≤ t then if t ≤ s then 0 else -1 else 1

theorem compareNats_nonpos_iff {s t : List Nat} : compareNats s t ≤ 0 ↔ s ≤ t := by
  unfold compareNats
  by_cases h : s ≤ t
  · rw [if_pos h]
    refine iff_of_true ?_ h
    split <;> decide
  · rw [if_neg h]
    exact iff_of_false (by decide) h

theorem compareNats_total (s t : List Nat) : compareNats s t ≤ 0 ∨ compareNats t s ≤ 0 := by
  rw [compareNats_nonpos_iff, compareNats_nonpos_iff]
  exact le_total s t

theorem compareNats_trans (s t u : List Nat) (hst : compareNats s t ≤ 0) (htu : compareNats t u ≤ 0) :
    compareNats s u ≤ 0 := by
  rw [compareNats_nonpos_iff] at hst htu ⊢
  exact hst.trans htu

/-- `A` to `Z` have a lower case. -/
def plainLower (c : CodePoint) : CodePoint := if 65 ≤ c.val ∧ c.val ≤ 90 then Fin.ofNat 0x110000 (c.val + 32) else c

theorem plainLower_of_isSurrogate {c : CodePoint} (h : isSurrogate c = true) : plainLower c = c := by
  simp only [isSurrogate, Bool.and_eq_true, decide_eq_true_eq] at h
  rw [plainLower, if_neg (by omega)]

theorem isSurrogate_plainLower {c : CodePoint} (h : isSurrogate c = false) : isSurrogate (plainLower c) = false := by
  unfold plainLower
  split
  · next hletter =>
    simp only [isSurrogate, Fin.val_ofNat, Bool.and_eq_false_iff, decide_eq_false_iff_not]
    omega
  · exact h

theorem plainLower_lt {c : CodePoint} (h : c.val < 0x10000) : (plainLower c).val < 0x10000 := by
  unfold plainLower
  split
  · next hletter =>
    rw [Fin.val_ofNat]
    omega
  · exact h

/-- An engine that knows the lower case of ASCII only, and compares unit by unit. -/
def plainEngine : Engine where
  lowercase _ c _ := [plainLower c]
  lowercase_surrogate _ _ _ h := congrArg (fun c => [c]) (plainLower_of_isSurrogate h)
  isSurrogate_lowercase _ _ _ h := List.forall_mem_singleton.2 (isSurrogate_plainLower h)
  lowercase_slash _ _ _ _ := rfl
  localeCompare s t := compareNats (s.map UInt16.toNat) (t.map UInt16.toNat)
  localeCompare_total s t := compareNats_total (s.map UInt16.toNat) (t.map UInt16.toNat)
  localeCompare_trans s t u := compareNats_trans (s.map UInt16.toNat) (t.map UInt16.toNat) (u.map UInt16.toNat)

theorem singleUnits_plainEngine {s : JsString} (h : NoPair s) : plainEngine.SingleUnits s := by
  intro mid c after hsplit
  have hc : c ∈ s.map unitPoint := by
    rw [← h.codePoints_eq, hsplit]
    simp
  obtain ⟨u, -, rfl⟩ := List.mem_map.1 hc
  have hlt := u.toNat_lt
  have hsingle : ∀ d : CodePoint, d.val < 0x10000 → (utf16 [d]).length = 1 := by
    intro d hd
    rw [utf16, List.flatMap_singleton]
    exact length_utf16Units_eq_one_iff.2 hd
  exact ⟨length_utf16Units_eq_one_iff.2 (by rwa [unitPoint_val]), hsingle _ (plainLower_lt (by rwa [unitPoint_val]))⟩

instance idAndPathPair : IdAndPath (Int × JsString) := ⟨Prod.fst, Prod.snd⟩

/-- `u T` in `src/utils.py`, and the same among two files. -/
theorem quick_open_exact_utils :
    let query := units "u T".toList
    let files : List (Int × JsString) := [(1, units "README.md".toList), (2, units "src/utils.py".toList)]
    (fuzzyMatch plainEngine query (units "src/utils.py".toList)).isSome = true ∧
      (∀ m, fuzzyMatch plainEngine query (units "src/utils.py".toList) = some m → ∀ pos ∈ m.positions, 4 ≤ pos) ∧
      ((rankFiles plainEngine files query []).map Ranked.file).Perm [(2, units "src/utils.py".toList)] := by
  intro query files
  obtain ⟨hmatch, hrank⟩ := quick_open_exact plainEngine query
  have hsingle : plainEngine.SingleUnits (units "src/utils.py".toList) :=
    singleUnits_plainEngine (by unfold NoPair; decide)
  obtain ⟨hiff, hpositions⟩ := hmatch _ hsingle
  refine ⟨hiff.2 (by unfold Spelled; decide), fun m hm => ?_, ?_⟩
  · exact (hpositions m hm).2.2.2 (by unfold Spelled; decide)
  · exact (hrank files [] ⟨117, by decide, by decide⟩).1

end Concord.QuickOpen
