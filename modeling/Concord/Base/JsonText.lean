import Concord.Base.Json
import Mathlib

/-!
# JSON as text

`json.loads` and `json.dumps` of Python. The reader takes `NaN` and the infinities as well, which
standard JSON has not, and an escape that stands for half a surrogate pair; the writer writes them
out as they are. Python's limit on how deeply values nest is left out.
-/

namespace Concord.Base

/-! ## Floats -/

/-- Python's `float`; `F` has the finite ones. -/
inductive PyFloat (F : Type)
  | finite (x : F)
  | nan
  | infinity
  | negInfinity

instance neZero_ten : NeZero 10 := ⟨by decide⟩

/-- A decimal text of a finite float, such as `-1.5` or `1e-07`. -/
structure FloatText where
  negative : Bool
  whole : Nat
  fraction : List (Fin 10)
  /-- Its sign and its digits, if it is written. -/
  exponent : Option (Bool × List (Fin 10))
  isFloat : fraction ≠ [] ∨ exponent.isSome
  exponent_ne_nil : ∀ e ∈ exponent, e.2 ≠ []

open CodePoint (ofChar)

def digitChar (d : Fin 10) : CodePoint := Fin.ofNat 0x110000 (48 + d.val)

/-- The digits of a number. -/
def decimal (n : Nat) : Str :=
  if n = 0 then [ofChar '0']
  else ((Nat.digits 10 n).map fun d => digitChar (Fin.ofNat 10 d)).reverse

def signText (negative : Bool) : Str := if negative then [ofChar '-'] else []

namespace FloatText

def fractionText (t : FloatText) : Str :=
  if t.fraction = [] then [] else ofChar '.' :: t.fraction.map digitChar

def exponentText (t : FloatText) : Str :=
  match t.exponent with
  | some (negative, digits) =>
    ofChar 'e' :: ofChar (if negative then '-' else '+') :: digits.map digitChar
  | none => []

def text (t : FloatText) : Str :=
  signText t.negative ++ decimal t.whole ++ t.fractionText ++ t.exponentText

end FloatText

/-- What JSON uses of floats, `F` the finite ones. -/
structure Floats (F : Type) where
  /-- `float(text)`, of a number with a fraction or an exponent. -/
  ofText : Str → PyFloat F
  repr : F → FloatText
  ofText_repr : ∀ x, ofText (repr x).text = .finite x

/-! ## Reading -/

/-- `WHITESPACE`. -/
def isSpace (c : CodePoint) : Bool := c ∈ [ofChar ' ', ofChar '\t', ofChar '\n', ofChar '\r']

def skipSpace (s : Str) : Str := s.dropWhile isSpace

/-- What follows the character, if it is next. -/
def expect (c : CodePoint) : Str → Option Str
  | [] => none
  | d :: rest => if d = c then some rest else none

def isDigit (c : CodePoint) : Bool := 48 ≤ c.val && c.val ≤ 57

def digitValue (c : CodePoint) : Nat := c.val - 48

def natOfDigits (digits : Str) : Nat := digits.foldl (fun n c => 10 * n + digitValue c) 0

/-- The sign of a number. -/
def scanSign (s : Str) : Bool × Str :=
  match expect (ofChar '-') s with
  | some rest => (true, rest)
  | none => (false, s)

/-- The digits of a number, which do not start with a zero unless that is all. -/
def scanDigits : Str → Option (Str × Str)
  | [] => none
  | c :: rest =>
    if c = ofChar '0' then some ([c], rest)
    else if isDigit c then some (c :: rest.takeWhile isDigit, rest.dropWhile isDigit)
    else none

/-- The second group of `NUMBER_RE`. -/
def scanFraction (s : Str) : Str × Str :=
  match expect (ofChar '.') s with
  | none => ([], s)
  | some rest =>
    if rest.takeWhile isDigit = [] then ([], s)
    else (ofChar '.' :: rest.takeWhile isDigit, rest.dropWhile isDigit)

/-- The third group of `NUMBER_RE`. -/
def scanExponent (s : Str) : Str × Str :=
  match s with
  | [] => ([], s)
  | e :: rest =>
    if e = ofChar 'e' ∨ e = ofChar 'E' then
      let sign := (rest.take 1).filter fun c => c = ofChar '-' ∨ c = ofChar '+'
      let digits := rest.drop sign.length
      if digits.takeWhile isDigit = [] then ([], s)
      else (e :: sign ++ digits.takeWhile isDigit, digits.dropWhile isDigit)
    else ([], s)

def hexValue (c : CodePoint) : Option Nat :=
  if isDigit c then some (c.val - 48)
  else if 97 ≤ c.val ∧ c.val ≤ 102 then some (c.val - 87)
  else if 65 ≤ c.val ∧ c.val ≤ 70 then some (c.val - 55)
  else none

/-- The four digits of an escape. -/
def scanHex4 : Str → Option (Nat × Str)
  | a :: b :: c :: d :: rest => do
    let a ← hexValue a
    let b ← hexValue b
    let c ← hexValue c
    let d ← hexValue d
    some (((a * 16 + b) * 16 + c) * 16 + d, rest)
  | _ => none

def isHighSurrogate (n : Nat) : Bool := 0xD800 ≤ n && n ≤ 0xDBFF

def isLowSurrogate (n : Nat) : Bool := 0xDC00 ≤ n && n ≤ 0xDFFF

/-- The low half of a surrogate pair, if it is escaped next. -/
def scanLow (s : Str) : Option (Nat × Str) := do
  let s ← expect (ofChar '\\') s
  let s ← expect (ofChar 'u') s
  let (low, s) ← scanHex4 s
  if isLowSurrogate low then some (low, s) else none

/-- What an escape of four digits stands for: half a surrogate pair is joined with the other half. -/
def joinSurrogates (n : Nat) (s : Str) : CodePoint × Str :=
  match scanLow s with
  | some (low, rest) =>
    if isHighSurrogate n then
      (Fin.ofNat 0x110000 (0x10000 + (n - 0xD800) * 0x400 + (low - 0xDC00)), rest)
    else (Fin.ofNat 0x110000 n, s)
  | none => (Fin.ofNat 0x110000 n, s)

/-- `BACKSLASH`. -/
def backslash : List (CodePoint × CodePoint) :=
  [('"', '"'), ('\\', '\\'), ('/', '/'), ('b', '\x08'), ('f', '\x0c'), ('n', '\n'), ('r', '\r'),
    ('t', '\t')].map fun (c, d) => (ofChar c, ofChar d)

/-- What follows a backslash. -/
def scanEscape : Str → Option (CodePoint × Str)
  | [] => none
  | c :: rest =>
    if c = ofChar 'u' then (scanHex4 rest).map fun (n, rest) => joinSurrogates n rest
    else (backslash.lookup c).map fun d => (d, rest)

/-- One character of a string; a control character may not stand in it. -/
def scanChar : Str → Option (CodePoint × Str)
  | [] => none
  | c :: rest =>
    if c = ofChar '\\' then scanEscape rest
    else if c.val < 0x20 then none
    else some (c, rest)

/-- A string and its closing quote, in at most so many steps. -/
def scanChars : Nat → Str → Option (Str × Str)
  | 0, _ => none
  | fuel + 1, s =>
    match expect (ofChar '"') s with
    | some rest => some ([], rest)
    | none => do
      let (c, s) ← scanChar s
      let (text, s) ← scanChars fuel s
      some (c :: text, s)

/-- `scanstring`: the rest of a string after its opening quote. -/
def scanString (s : Str) : Option (Str × Str) := scanChars s.length s

namespace Json

variable {F : Type}

/-- The words of JSON, and those that Python has besides. -/
def literals (constants : Bool) : List (Str × Json (PyFloat F)) :=
  [(Str.ofString "null", .null), (Str.ofString "true", .bool true),
    (Str.ofString "false", .bool false)] ++
  if constants then
    [(Str.ofString "NaN", .float .nan), (Str.ofString "Infinity", .float .infinity),
      (Str.ofString "-Infinity", .float .negInfinity)]
  else []

def scanLiteral (constants : Bool) (s : Str) : Option (Json (PyFloat F) × Str) :=
  (literals constants).findSome? fun (word, v) =>
    if word.isPrefixOf s then some (v, s.drop word.length) else none

variable (floats : Floats F)

/-- `_match_number`. -/
def scanNumber (s : Str) : Option (Json (PyFloat F) × Str) := do
  let (negative, s) := scanSign s
  let (digits, s) ← scanDigits s
  let (fraction, s) := scanFraction s
  let (exponent, s) := scanExponent s
  if fraction = [] ∧ exponent = [] then
    some (.int (if negative then -(natOfDigits digits : Int) else natOfDigits digits), s)
  else
    some (.float (floats.ofText (signText negative ++ digits ++ fraction ++ exponent)), s)

variable (constants : Bool)

mutual

/-- `scan_once`: a value and what follows it, in at most so many steps. -/
def scanOnce : Nat → Str → Option (Json (PyFloat F) × Str)
  | 0, _ => none
  | _ + 1, [] => none
  | fuel + 1, c :: rest =>
    if c = ofChar '"' then (scanString rest).map fun (text, s) => (.str text, s)
    else if c = ofChar '{' then
      match expect (ofChar '}') (skipSpace rest) with
      | some s => some (.obj [], s)
      | none => (scanMembers fuel (skipSpace rest)).map fun (members, s) =>
        (.obj (Dict.ofItems members).items, s)
    else if c = ofChar '[' then
      match expect (ofChar ']') (skipSpace rest) with
      | some s => some (.arr [], s)
      | none => (scanElems fuel (skipSpace rest)).map fun (elems, s) => (.arr elems, s)
    else (scanLiteral constants (c :: rest)).or (scanNumber floats (c :: rest))

/-- The loop of `_parse_array`. -/
def scanElems : Nat → Str → Option (List (Json (PyFloat F)) × Str)
  | 0, _ => none
  | fuel + 1, s => do
    let (v, s) ← scanOnce fuel s
    match expect (ofChar ']') (skipSpace s) with
    | some rest => some ([v], rest)
    | none => do
      let s ← expect (ofChar ',') (skipSpace s)
      let (elems, s) ← scanElems fuel (skipSpace s)
      some (v :: elems, s)

/-- The loop of `_parse_object`. -/
def scanMembers : Nat → Str → Option (List (Str × Json (PyFloat F)) × Str)
  | 0, _ => none
  | fuel + 1, s => do
    let s ← expect (ofChar '"') s
    let (key, s) ← scanString s
    let s ← expect (ofChar ':') (skipSpace s)
    let (v, s) ← scanOnce fuel (skipSpace s)
    match expect (ofChar '}') (skipSpace s) with
    | some rest => some ([(key, v)], rest)
    | none => do
      let s ← expect (ofChar ',') (skipSpace s)
      let (members, s) ← scanMembers fuel (skipSpace s)
      some ((key, v) :: members, s)

end

/-- `json.loads`; without the constants, a reader of standard JSON. -/
def loads (s : Str) : Option (Json (PyFloat F)) := do
  let (v, rest) ← scanOnce floats constants (2 * s.length) (skipSpace s)
  if skipSpace rest = [] then some v else none

end Json

/-! ## Writing -/

/-- `ESCAPE_DCT`, less the control characters that have no letter. -/
def escapes : List (CodePoint × CodePoint) :=
  [('\\', '\\'), ('"', '"'), ('\x08', 'b'), ('\x0c', 'f'), ('\n', 'n'), ('\r', 'r'),
    ('\t', 't')].map fun (c, d) => (ofChar c, ofChar d)

/-- A digit of `:04x`. -/
def hexDigit (n : Nat) : CodePoint := Fin.ofNat 0x110000 (if n < 10 then 48 + n else 87 + n)

def escape (c : CodePoint) : Str :=
  match escapes.lookup c with
  | some d => [ofChar '\\', d]
  | none =>
    if c.val < 0x20 then Str.ofString "\\u00" ++ [hexDigit (c.val / 16), hexDigit (c.val % 16)]
    else [c]

/-- `py_encode_basestring`. -/
def writeString (s : Str) : Str := ofChar '"' :: s.flatMap escape ++ [ofChar '"']

/-- `int.__repr__`. -/
def writeInt (n : Int) : Str := signText (n < 0) ++ decimal n.natAbs

namespace Json

variable {F : Type} (floats : Floats F)

def writeFloat : PyFloat F → Str
  | .finite x => (floats.repr x).text
  | .nan => Str.ofString "NaN"
  | .infinity => Str.ofString "Infinity"
  | .negInfinity => Str.ofString "-Infinity"

mutual

/-- `json.dumps(v, separators=(",", ":"), ensure_ascii=False)`. -/
def dumps : Json (PyFloat F) → Str
  | null => Str.ofString "null"
  | bool true => Str.ofString "true"
  | bool false => Str.ofString "false"
  | int n => writeInt n
  | float x => writeFloat floats x
  | str s => writeString s
  | arr elems => ofChar '[' :: dumpsElems elems ++ [ofChar ']']
  | obj fields => ofChar '{' :: dumpsFields fields ++ [ofChar '}']

def dumpsElems : List (Json (PyFloat F)) → Str
  | [] => []
  | [v] => dumps v
  | v :: w :: rest => dumps v ++ ofChar ',' :: dumpsElems (w :: rest)

def dumpsFields : List (Str × Json (PyFloat F)) → Str
  | [] => []
  | [(key, v)] => writeString key ++ ofChar ':' :: dumps v
  | (key, v) :: field :: rest =>
    writeString key ++ ofChar ':' :: dumps v ++ ofChar ',' :: dumpsFields (field :: rest)

end

end Json

end Concord.Base
