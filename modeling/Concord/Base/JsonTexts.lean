import Concord.Base.JsonRoundTrip
import Concord.Base.Utf8

/-!
# What UTF-8 can write of JSON

What `dumps` writes of a value has a surrogate exactly when a string or a key in it has one.
-/

namespace Concord.Base

open CodePoint (ofChar)

theorem isText_of_isDigit {s : Str} (h : ∀ c ∈ s, isDigit c = true) : IsText s := by
  intro c hc
  have hdigit := h c hc
  simp only [isDigit, Bool.and_eq_true, decide_eq_true_eq] at hdigit
  simp only [isSurrogate, Bool.and_eq_false_iff, decide_eq_false_iff_not]
  omega

theorem isText_decimal (n : Nat) : IsText (decimal n) :=
  isText_of_isDigit fun _ => isDigit_of_mem_decimal

theorem isText_signText (negative : Bool) : IsText (signText negative) := by
  revert negative
  decide

theorem isText_floatText (t : FloatText) : IsText t.text := by
  have hdigits : ∀ digits : List (Fin 10), IsText (digits.map digitChar) := fun digits =>
    isText_of_isDigit fun _ => FloatText.isDigit_of_mem_map digits
  have hfraction : IsText t.fractionText := by
    unfold FloatText.fractionText
    split
    · exact isText_nil
    · exact isText_cons.2 ⟨by decide, hdigits _⟩
  have hexponent : IsText t.exponentText := by
    unfold FloatText.exponentText
    split
    · next negative digits _ =>
      cases negative with
      | true => exact isText_cons.2 ⟨by decide, isText_cons.2 ⟨by decide, hdigits _⟩⟩
      | false => exact isText_cons.2 ⟨by decide, isText_cons.2 ⟨by decide, hdigits _⟩⟩
    · exact isText_nil
  unfold FloatText.text
  rw [isText_append, isText_append, isText_append]
  exact ⟨⟨⟨isText_signText _, isText_decimal _⟩, hfraction⟩, hexponent⟩

theorem isSurrogate_hexDigit : ∀ n < 16, isSurrogate (hexDigit n) = false := by decide

/-- An escape has a surrogate only for a surrogate. -/
theorem isText_escape {c : CodePoint} : IsText (escape c) ↔ isSurrogate c = false := by
  unfold escape
  cases hlookup : escapes.lookup c with
  | some d =>
    have hall : escapes.all (fun e => !isSurrogate e.1 && !isSurrogate e.2) := by decide
    obtain ⟨l, l', hl, -⟩ := List.lookup_eq_some_iff.1 hlookup
    have hmem : (c, d) ∈ escapes := by simp [hl]
    have hcd := List.all_eq_true.1 hall _ hmem
    simp only [Bool.and_eq_true, Bool.not_eq_true'] at hcd
    have hbackslash : isSurrogate (ofChar '\\') = false := by decide
    simp [hcd.1, hcd.2, hbackslash]
  | none =>
    dsimp only
    split
    · next h =>
      have hc : isSurrogate c = false := by
        simp only [isSurrogate, Bool.and_eq_false_iff, decide_eq_false_iff_not]
        omega
      have htext : IsText (Str.ofString "\\u00") := isText_ofString _
      have hhigh := isSurrogate_hexDigit (c.val / 16) (by omega)
      have hlow := isSurrogate_hexDigit (c.val % 16) (by omega)
      simp [htext, hhigh, hlow, hc]
    · simp

theorem isText_writeString {s : Str} : IsText (writeString s) ↔ IsText s := by
  have hquote : isSurrogate (ofChar '"') = false := by decide
  have hescaped : IsText (s.flatMap escape) ↔ IsText s := by
    induction s with
    | nil => simp
    | cons c s ih => rw [List.flatMap_cons, isText_append, ih, isText_escape, isText_cons]
  simp [writeString, hquote, hescaped]

namespace Json

variable {F : Type} (floats : Floats F)

/-- UTF-8 can write the value itself: its keys if it is an object, and what it is if it is a string. -/
def TextNode {X : Type} : Json X → Prop
  | str s => IsText s
  | obj fields => ∀ field ∈ fields, IsText field.1
  | _ => True

theorem isText_dumpsElems {elems : List (Json (PyFloat F))} :
    IsText (dumpsElems floats elems) ↔ ∀ v ∈ elems, IsText (dumps floats v) := by
  have hcomma : isSurrogate (ofChar ',') = false := by decide
  induction elems with
  | nil => simp [dumpsElems]
  | cons v tail ih =>
    cases tail with
    | nil => simp [dumpsElems]
    | cons w tail =>
      rw [dumpsElems, isText_append, isText_cons, List.forall_mem_cons (a := v)]
      exact and_congr Iff.rfl ((and_iff_right hcomma).trans ih)

theorem isText_dumpsFields {fields : List (Str × Json (PyFloat F))} :
    IsText (dumpsFields floats fields) ↔
      ∀ field ∈ fields, IsText field.1 ∧ IsText (dumps floats field.2) := by
  have hcomma : isSurrogate (ofChar ',') = false := by decide
  have hcolon : isSurrogate (ofChar ':') = false := by decide
  induction fields with
  | nil => simp [dumpsFields]
  | cons field tail ih =>
    obtain ⟨key, v⟩ := field
    cases tail with
    | nil => simp [dumpsFields, isText_writeString, hcolon]
    | cons other tail =>
      have htext : dumpsFields floats ((key, v) :: other :: tail) =
          writeString key ++ ofChar ':' :: (dumps floats v ++ ofChar ',' ::
            dumpsFields floats (other :: tail)) := by
        simp [dumpsFields]
      rw [htext, isText_append, isText_cons, isText_append, isText_cons,
        List.forall_mem_cons (a := (key, v)), isText_writeString, and_assoc]
      exact and_congr Iff.rfl ((and_iff_right hcolon).trans
        (and_congr Iff.rfl ((and_iff_right hcomma).trans ih)))

/-- UTF-8 can write a value exactly when it can write everything in it. -/
theorem isText_dumps (v : Json (PyFloat F)) :
    IsText (dumps floats v) ↔ v.Everywhere TextNode := by
  induction v using induction with
  | h v ih =>
    rw [everywhere_iff]
    cases v with
    | null => exact ⟨fun _ => ⟨trivial, by rintro _ ⟨⟩⟩, fun _ => isText_ofString _⟩
    | bool b =>
      cases b with
      | true => exact ⟨fun _ => ⟨trivial, by rintro _ ⟨⟩⟩, fun _ => isText_ofString _⟩
      | false => exact ⟨fun _ => ⟨trivial, by rintro _ ⟨⟩⟩, fun _ => isText_ofString _⟩
    | int n =>
      have htext : IsText (writeInt n) := isText_append.2 ⟨isText_signText _, isText_decimal _⟩
      exact ⟨fun _ => ⟨trivial, by rintro _ ⟨⟩⟩, fun _ => htext⟩
    | float x =>
      have htext : IsText (writeFloat floats x) := by
        cases x with
        | finite x => exact isText_floatText _
        | nan => exact isText_ofString _
        | infinity => exact isText_ofString _
        | negInfinity => exact isText_ofString _
      exact ⟨fun _ => ⟨trivial, by rintro _ ⟨⟩⟩, fun _ => htext⟩
    | str s =>
      rw [dumps, isText_writeString]
      exact ⟨fun h => ⟨h, by rintro _ ⟨⟩⟩, fun h => h.1⟩
    | arr elems =>
      have hopen : isSurrogate (ofChar '[') = false := by decide
      have hclose : isSurrogate (ofChar ']') = false := by decide
      have hchildren : (∀ v ∈ elems, IsText (dumps floats v)) ↔
          ∀ v ∈ elems, v.Everywhere TextNode := forall₂_congr ih
      simp only [dumps, List.cons_append, isText_cons, isText_append, isText_dumpsElems, hopen,
        hclose, isText_nil, and_true, true_and, hchildren]
      exact ⟨fun h => ⟨trivial, h⟩, fun h => h.2⟩
    | obj fields =>
      have hopen : isSurrogate (ofChar '{') = false := by decide
      have hclose : isSurrogate (ofChar '}') = false := by decide
      have hchildren : ∀ field ∈ fields,
          (IsText (dumps floats field.2) ↔ field.2.Everywhere TextNode) := fun field hfield =>
        ih field.2 (List.mem_map_of_mem hfield)
      simp only [dumps, List.cons_append, isText_cons, isText_append, isText_dumpsFields, hopen,
        hclose, isText_nil, and_true, true_and]
      constructor
      · intro h
        refine ⟨fun field hfield => (h field hfield).1, List.forall_mem_map.2 ?_⟩
        intro field hfield
        exact (hchildren field hfield).1 (h field hfield).2
      · rintro ⟨hkeys, hvalues⟩ field hfield
        exact ⟨hkeys field hfield, (hchildren field hfield).2
          (List.forall_mem_map.1 hvalues field hfield)⟩

end Json

end Concord.Base
