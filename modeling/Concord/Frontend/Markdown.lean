import Concord.Frontend.Runs

/-!
# Markdown

`lib/markdown.ts`: the answers of the assistant, cut into blocks. The regular expressions of the source have no
choice in what they take, as what may follow a repetition is never what is repeated; each is a function here.

A code block ends at the first line that begins with its fence and has nothing else but backticks and tildes.
So a text in which the fence does not occur comes out of its block as it went in (`parseBlocks_fence`).
-/

namespace Concord.Markdown

open Concord.Base

/-! ## Units -/

/-- The unit of an ASCII character. -/
def unit (c : Char) : UInt16 := c.toNat.toUInt16

/-- `\s`, which is also what `trim` takes off. -/
def isSpace (u : UInt16) : Bool :=
  (9 ≤ u && u ≤ 13) || u = 32 || u = 0xA0 || u = 0x1680 || (0x2000 ≤ u && u ≤ 0x200A) || u = 0x2028 || u = 0x2029 ||
    u = 0x202F || u = 0x205F || u = 0x3000 || u = 0xFEFF

/-- What `.` does not match. -/
def isLineTerminator (u : UInt16) : Bool := u = 10 || u = 13 || u = 0x2028 || u = 0x2029

/-- `\d`. -/
def isDigit (u : UInt16) : Bool := unit '0' ≤ u && u ≤ unit '9'

/-- `[\w+#.-]`. -/
def isLangUnit (u : UInt16) : Bool :=
  isDigit u || (unit 'A' ≤ u && u ≤ unit 'Z') || (unit 'a' ≤ u && u ≤ unit 'z') || u = unit '_' || u = unit '+' ||
    u = unit '#' || u = unit '.' || u = unit '-'

/-- A backtick. -/
def tick : UInt16 := unit '\x60'

def tilde : UInt16 := unit '~'

/-- The end of a line. -/
def newline : UInt16 := unit '\n'

/-- What a fence is made of. -/
def isFenceMark (u : UInt16) : Bool := u = tick || u = tilde

/-- `trim`. -/
def trim (line : JsString) : JsString := (line.dropWhile isSpace).rdropWhile isSpace

/-! ## Blocks -/

/-- The items of a list, which has at least one. -/
structure Items where
  before : List JsString
  last : JsString
deriving DecidableEq

/-- `Block`. -/
inductive Block
  | code (lang code : JsString)
  | heading (level : Nat) (text : JsString)
  | list (ordered : Bool) (items : Items)
  | para (text : JsString)
deriving DecidableEq

/-- The end of a line after a mark, `\s+(.*)$`. -/
def restOfLine (rest : JsString) : Option JsString :=
  let text := rest.dropWhile isSpace
  if rest.head?.any isSpace && !text.any isLineTerminator then some text else none

/-- The fence and the language of a line that begins a code block. -/
def fenceOf (line : JsString) : Option (JsString × JsString) :=
  let rest := line.dropWhile isSpace
  let mark := if rest.head? = some tilde then tilde else tick
  let fence := rest.takeWhile (· = mark)
  let rest := (rest.dropWhile (· = mark)).dropWhile isSpace
  let lang := rest.takeWhile isLangUnit
  let rest := (rest.dropWhile isLangUnit).dropWhile isSpace
  if 3 ≤ fence.length ∧ rest = [] then some (fence, lang) else none

/-- The level and the text of a heading. -/
def headingOf (line : JsString) : Option (Nat × JsString) :=
  let level := (line.takeWhile (· = unit '#')).length
  if 1 ≤ level ∧ level ≤ 4 then (restOfLine (line.drop level)).map fun text => (level, text) else none

/-- Whether an item is numbered, and its text. -/
def itemOf (line : JsString) : Option (Bool × JsString) :=
  let rest := line.dropWhile isSpace
  let number := rest.takeWhile isDigit
  let afterNumber := rest.dropWhile isDigit
  if rest.head?.any fun u => u = unit '-' || u = unit '*' || u = unit '+' then
    (restOfLine (rest.drop 1)).map fun text => (false, text)
  else if number ≠ [] ∧ afterNumber.head?.any fun u => u = unit '.' || u = unit ')' then
    (restOfLine (afterNumber.drop 1)).map fun text => (true, text)
  else none

/-- The lines of a text, joined again. -/
def join (ls : List JsString) : JsString := [newline].intercalate ls

/-- `flush`. -/
def flush (out : List Block) (para : List JsString) : List Block :=
  if para = [] then out else out ++ [.para (join para)]

/-- One more item for the list at the end, or a new list. -/
def pushItem (out : List Block) (ordered : Bool) (text : JsString) : List Block :=
  match out.getLast? with
  | some (.list o items) =>
    if o = ordered then out.dropLast ++ [.list o ⟨items.before ++ [items.last], text⟩]
    else out ++ [.list ordered ⟨[], text⟩]
  | _ => out ++ [.list ordered ⟨[], text⟩]

/-- The last item of the list at the end goes on, if there is one. -/
def continueItem? (out : List Block) (line : JsString) : Option (List Block) :=
  match out.getLast? with
  | some (.list ordered items) =>
    if line.head?.any isSpace then
      some (out.dropLast ++ [.list ordered ⟨items.before, items.last ++ unit ' ' :: trim line⟩])
    else none
  | _ => none

/-- The line ends a code block. -/
def closes (fence line : JsString) : Bool :=
  fence.isPrefixOf (trim line) && (trim line).all isFenceMark

/-- The loop of `parseBlocks`, with the blocks and the lines of the paragraph so far. -/
def parseLines (out : List Block) (para : List JsString) : List JsString → List Block
  | [] => flush out para
  | line :: lines =>
    match fenceOf line with
    | some (fence, lang) =>
      let code := lines.takeWhile fun l => !closes fence l
      parseLines (flush out para ++ [.code lang (join code)]) []
        ((lines.dropWhile fun l => !closes fence l).drop 1)
    | none =>
      match headingOf line with
      | some (level, text) => parseLines (flush out para ++ [.heading level text]) [] lines
      | none =>
        match itemOf line with
        | some (ordered, text) => parseLines (pushItem (flush out para) ordered text) [] lines
        | none =>
          if trim line = [] then parseLines (flush out para) [] lines
          else
            match if para = [] then continueItem? out line else none with
            | some out => parseLines out [] lines
            | none => parseLines out (para ++ [line]) lines
termination_by lines => lines.length
decreasing_by
  all_goals simp_wf
  have := List.length_dropWhile_le (fun l => !closes fence l) lines
  omega

/-- `replace(/\r\n/g, "\n")`. -/
def replaceCrlf : JsString → JsString
  | [] => []
  | [u] => [u]
  | u :: v :: rest =>
    if u = unit '\r' ∧ v = newline then newline :: replaceCrlf rest else u :: replaceCrlf (v :: rest)

/-- `parseBlocks`. -/
def parseBlocks (text : JsString) : List Block := parseLines [] [] ((replaceCrlf text).splitOn newline)

/-! ## Code blocks -/

section Fence

variable {line fence lang text l : JsString} {n : Nat} {p : UInt16 → Bool} {lines : List JsString}

theorem takeWhile_eq_nil (h : ∀ u ∈ l, p u = false) : l.takeWhile p = [] := by
  cases l with
  | nil => rfl
  | cons u l => rw [List.takeWhile_cons_of_neg (by simp [h u List.mem_cons_self])]

theorem dropWhile_eq_self (h : ∀ u ∈ l, p u = false) : l.dropWhile p = l := by
  cases l with
  | nil => rfl
  | cons u l => rw [List.dropWhile_cons_of_neg (by simp [h u List.mem_cons_self])]

theorem trim_eq_self (h : ∀ u ∈ l, isSpace u = false) : trim l = l := by
  rw [trim, dropWhile_eq_self h, List.rdropWhile, dropWhile_eq_self fun u hu => h u (List.mem_reverse.1 hu),
    List.reverse_reverse]

theorem trim_within (line : JsString) : trim line <:+: line :=
  (List.rdropWhile_prefix isSpace _).isInfix.trans (List.dropWhile_suffix isSpace).isInfix

/-- What may stand in the name of a language is neither white space nor part of a fence. -/
theorem not_isSpace_of_isLangUnit {u : UInt16} (h : isLangUnit u = true) :
    isSpace u = false ∧ u ≠ tick ∧ u ≠ tilde ∧ u ≠ newline ∧ u ≠ unit '\r' := by
  simp only [isLangUnit, isSpace, isDigit, unit, tick, tilde, newline, Bool.or_eq_true, Bool.and_eq_true,
    decide_eq_true_iff, Bool.or_eq_false_iff, Bool.and_eq_false_iff, decide_eq_false_iff_not,
    UInt16.le_iff_toNat_le, ← UInt16.toNat_inj, ne_eq] at h ⊢
  simp only [Char.reduceToNat, Nat.toUInt16_eq, UInt16.reduceOfNat, UInt16.reduceToNat, not_le] at h ⊢
  omega

theorem not_isSpace_tick {u : UInt16} (h : u ∈ List.replicate n tick) : isSpace u = false := by
  rw [List.eq_of_mem_replicate h]
  decide

/-- A line with a fence and the name of a language begins a code block. -/
theorem fenceOf_fence (hn : 3 ≤ n) (hlang : ∀ u ∈ lang, isLangUnit u = true) :
    fenceOf (List.replicate n tick ++ lang) = some (List.replicate n tick, lang) := by
  have htick : ∀ u ∈ List.replicate n tick, decide (u = tick) = true := by
    intro u hu
    exact decide_eq_true (List.eq_of_mem_replicate hu)
  have hother : ∀ u ∈ lang, decide (u = tick) = false := fun u hu =>
    decide_eq_false (not_isSpace_of_isLangUnit (hlang u hu)).2.1
  have hspace : ∀ u ∈ List.replicate n tick ++ lang, isSpace u = false := by
    intro u hu
    rcases List.mem_append.1 hu with hu | hu
    · exact not_isSpace_tick hu
    · exact (not_isSpace_of_isLangUnit (hlang u hu)).1
  have hhead : (List.replicate n tick ++ lang).head? ≠ some tilde := by
    obtain ⟨k, rfl⟩ := Nat.exists_eq_add_of_le' hn
    rw [List.replicate_succ, List.cons_append, List.head?_cons, ne_eq, Option.some_inj]
    decide
  unfold fenceOf
  rw [dropWhile_eq_self hspace]
  simp only [if_neg hhead]
  rw [List.takeWhile_append_of_pos htick, takeWhile_eq_nil hother, List.append_nil,
    List.dropWhile_append_of_pos htick, dropWhile_eq_self hother,
    dropWhile_eq_self fun u hu => (not_isSpace_of_isLangUnit (hlang u hu)).1, List.takeWhile_eq_self_iff.2 hlang,
    List.dropWhile_eq_nil_iff.2 hlang, List.length_replicate]
  exact if_pos ⟨hn, rfl⟩

theorem closes_fence (n : Nat) : closes (List.replicate n tick) (List.replicate n tick) = true := by
  rw [closes, trim_eq_self fun u hu => not_isSpace_tick hu, Bool.and_eq_true, List.isPrefixOf_iff_prefix,
    List.all_replicate]
  exact ⟨List.prefix_rfl, ite_self true⟩

/-- A line that ends a block has its fence in it. -/
theorem fence_infix_of_closes (h : closes fence line = true) : fence <:+: line :=
  (List.isPrefixOf_iff_prefix.1 ((Bool.and_eq_true _ _).mp h).1).isInfix.trans (trim_within line)

/-- The lines of a text are parts of it. -/
theorem infix_join (h : line ∈ lines) : line <:+: join lines := by
  induction lines with
  | nil => cases h
  | cons first lines ih =>
    cases lines with
    | nil =>
      rw [List.mem_singleton.1 h, join, List.intercalate_singleton]
    | cons second lines =>
      rw [join, List.intercalate_cons_cons, List.append_assoc]
      rcases List.mem_cons.1 h with rfl | h
      · exact (List.prefix_append line _).isInfix
      · exact (ih h).trans ((List.suffix_append _ _).trans (List.suffix_append _ _)).isInfix

theorem replaceCrlf_eq_self (h : unit '\r' ∉ text) : replaceCrlf text = text := by
  induction text with
  | nil => rfl
  | cons u text ih =>
    rw [List.mem_cons, not_or] at h
    cases text with
    | nil => rfl
    | cons v rest => rw [replaceCrlf, if_neg fun hcr => h.1 hcr.1.symm, ih h.2]

/-- What is written into a code block, with a fence that does not occur in it, is what is read. -/
theorem parseBlocks_fence (hn : 3 ≤ n) (hlang : ∀ u ∈ lang, isLangUnit u = true) (hcr : unit '\r' ∉ text)
    (hfence : ¬List.replicate n tick <:+: text) :
    parseBlocks (List.replicate n tick ++ lang ++ newline :: (text ++ newline :: List.replicate n tick)) =
      [.code lang text] := by
  have hfirst : newline ∉ List.replicate n tick ++ lang := by
    intro h
    rcases List.mem_append.1 h with h | h
    · exact absurd (List.eq_of_mem_replicate h) (by decide)
    · exact (not_isSpace_of_isLangUnit (hlang _ h)).2.2.2.1 rfl
  have hlast : newline ∉ List.replicate n tick := fun h => hfirst (List.mem_append_left _ h)
  have htick : unit '\r' ∉ List.replicate n tick := fun h => absurd (List.eq_of_mem_replicate h) (by decide)
  have hlang' : unit '\r' ∉ lang := fun h => (not_isSpace_of_isLangUnit (hlang _ h)).2.2.2.2 rfl
  have hall : unit '\r' ∉ List.replicate n tick ++ lang ++ newline :: (text ++ newline :: List.replicate n tick) := by
    have hnewline : unit '\r' ≠ newline := by decide
    simp only [List.mem_append, List.mem_cons, htick, hlang', hnewline, hcr, or_self, not_false_eq_true]
  have hopen : ∀ l ∈ text.splitOn newline, (!closes (List.replicate n tick) l) = true := by
    intro l hl
    rw [Bool.not_eq_true', Bool.eq_false_iff]
    intro h
    have hpart : l <:+: text := by simpa only [join, List.intercalate_splitOn] using infix_join hl
    exact hfence ((fence_infix_of_closes h).trans hpart)
  have hcode : (text.splitOn newline ++ [List.replicate n tick]).takeWhile
      (fun l => !closes (List.replicate n tick) l) = text.splitOn newline := by
    rw [List.takeWhile_append_of_pos hopen, List.takeWhile_cons_of_neg (by rw [closes_fence]; decide), List.append_nil]
  have hrest : (text.splitOn newline ++ [List.replicate n tick]).dropWhile
      (fun l => !closes (List.replicate n tick) l) = [List.replicate n tick] := by
    rw [List.dropWhile_append_of_pos hopen, List.dropWhile_cons_of_neg (by rw [closes_fence]; decide)]
  rw [parseBlocks, replaceCrlf_eq_self hall, List.splitOn_append_cons_self_of_not_mem hfirst,
    List.splitOn_append_cons_self, List.splitOn_eq_singleton hlast, parseLines, fenceOf_fence hn hlang]
  simp only [hcode, hrest]
  rw [join, List.intercalate_splitOn, List.drop_one, List.tail_cons, parseLines]
  rfl

end Fence

end Concord.Markdown
