import Concord.Base.Json

/-!
# Strings as UTF-8

`str.encode` and `bytes.decode` of Python, for `utf-8` and with errors raised. A surrogate has no
UTF-8.
-/

namespace Concord.Base

open CodePoint (ofChar)

def isSurrogate (c : CodePoint) : Bool := 0xD800 ≤ c.val && c.val ≤ 0xDFFF

def toChar? (c : CodePoint) : Option Char :=
  if h : Nat.isValidChar c.val then some (Char.ofNatAux c.val h) else none

/-- `s.encode("utf-8")`. -/
def encodeUtf8 (s : Str) : Option (List UInt8) :=
  (s.mapM toChar?).map fun chars => chars.flatMap String.utf8EncodeChar

/-- `data.decode("utf-8")`. -/
def decodeUtf8 (data : List UInt8) : Option Str :=
  data.toByteArray.utf8Decode?.map fun chars => chars.toList.map ofChar

/-- No surrogate is in the string. -/
def IsText (s : Str) : Prop := ∀ c ∈ s, isSurrogate c = false

instance (s : Str) : Decidable (IsText s) := List.decidableBAll (isSurrogate · = false) s

@[simp] theorem isText_nil : IsText [] := nofun

@[simp] theorem isText_cons {c : CodePoint} {s : Str} :
    IsText (c :: s) ↔ isSurrogate c = false ∧ IsText s :=
  List.forall_mem_cons

@[simp] theorem isText_append {s t : Str} : IsText (s ++ t) ↔ IsText s ∧ IsText t :=
  List.forall_mem_append

theorem isValidChar_iff {c : CodePoint} : Nat.isValidChar c.val ↔ isSurrogate c = false := by
  have hlt := c.isLt
  simp only [Nat.isValidChar, isSurrogate, Bool.and_eq_false_iff, decide_eq_false_iff_not]
  omega

theorem ofChar_toChar {c : CodePoint} {char : Char} (h : toChar? c = some char) :
    ofChar char = c := by
  unfold toChar? at h
  split at h
  · cases h
    exact Fin.ext (Nat.mod_eq_of_lt c.isLt)
  · cases h

theorem CodePoint.ofChar_val (c : Char) : (ofChar c).val = c.toNat := by
  have hvalid : Nat.isValidChar c.toNat := c.valid
  have hlt : c.toNat < 0x110000 := by
    unfold Nat.isValidChar at hvalid
    omega
  exact Nat.mod_eq_of_lt hlt

theorem CodePoint.ofChar_injective : Function.Injective ofChar := by
  intro c d h
  have hval := congrArg Fin.val h
  rw [CodePoint.ofChar_val, CodePoint.ofChar_val] at hval
  exact Char.ext (UInt32.toNat_inj.1 hval)

theorem isSurrogate_ofChar (char : Char) : isSurrogate (ofChar char) = false := by
  have hvalid : Nat.isValidChar char.toNat := char.valid
  rwa [← isValidChar_iff, CodePoint.ofChar_val]

theorem isText_ofString (s : String) : IsText (Str.ofString s) :=
  List.forall_mem_map.2 fun char _ => isSurrogate_ofChar char

theorem mapM_toChar_eq_some {s : Str} (h : IsText s) : ∃ chars, s.mapM toChar? = some chars := by
  induction s with
  | nil => exact ⟨[], rfl⟩
  | cons c s ih =>
    rw [isText_cons] at h
    obtain ⟨chars, hchars⟩ := ih h.2
    have hc : toChar? c = some (Char.ofNatAux c.val (isValidChar_iff.2 h.1)) :=
      dif_pos (isValidChar_iff.2 h.1)
    rw [List.mapM_cons, hc, hchars]
    exact ⟨_, rfl⟩

theorem map_ofChar_of_mapM {s : Str} {chars : List Char} (h : s.mapM toChar? = some chars) :
    chars.map ofChar = s := by
  induction s generalizing chars with
  | nil =>
    cases h
    rfl
  | cons c s ih =>
    rw [List.mapM_cons] at h
    obtain ⟨char, hc, h⟩ := Option.bind_eq_some_iff.1 h
    obtain ⟨rest, hrest, h⟩ := Option.bind_eq_some_iff.1 h
    cases h
    rw [List.map_cons, ofChar_toChar hc, ih hrest]

/-- Exactly a string without surrogates has UTF-8. -/
theorem encodeUtf8_isSome_iff {s : Str} : (encodeUtf8 s).isSome ↔ IsText s := by
  unfold encodeUtf8
  rw [Option.isSome_map]
  constructor
  · intro h
    obtain ⟨chars, hchars⟩ := Option.isSome_iff_exists.1 h
    rw [← map_ofChar_of_mapM hchars]
    exact List.forall_mem_map.2 fun char _ => isSurrogate_ofChar char
  · intro h
    obtain ⟨chars, hchars⟩ := mapM_toChar_eq_some h
    rw [hchars, Option.isSome_some]

theorem decodeUtf8_encodeUtf8 {s : Str} {data : List UInt8} (h : encodeUtf8 s = some data) :
    decodeUtf8 data = some s := by
  obtain ⟨chars, hchars, rfl⟩ := Option.map_eq_some_iff.1 h
  have hdecode := List.utf8Decode?_utf8Encode (l := chars)
  unfold List.utf8Encode at hdecode
  rw [decodeUtf8, hdecode, Option.map_some, List.toList_toArray, map_ofChar_of_mapM hchars]

end Concord.Base
