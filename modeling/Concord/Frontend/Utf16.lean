import Concord.Base.Utf8
import Concord.Frontend.Runs

/-!
# Texts in JavaScript

The UTF-16 units of a text. The units of a character are never the beginning of those of another one, and the
first of them is not the second half of a surrogate pair: a text occurs in the units of another text exactly
where its characters do (`exists_of_units_prefix_drop`).
-/

namespace Concord

open Concord.Base

/-- The UTF-16 units of a character. -/
def charUnits (c : Char) : JsString := utf16Units (CodePoint.ofChar c)

/-- The UTF-16 units of a text. -/
def units (text : List Char) : JsString := text.flatMap charUnits

/-- `slice` of a JavaScript string. -/
def slice (text : JsString) (start stop : Nat) : JsString := (text.take stop).drop start

section Units

variable {c d : Char} {s t : JsString} {text sub : List Char} {k : Nat}

@[simp] theorem units_nil : units [] = [] := rfl

@[simp] theorem units_cons (c : Char) (text : List Char) : units (c :: text) = charUnits c ++ units text := rfl

@[simp] theorem units_append (text text' : List Char) : units (text ++ text') = units text ++ units text' :=
  List.flatMap_append

/-- The second half of a surrogate pair. -/
def isLow (u : UInt16) : Prop := 0xDC00 ≤ u.toNat ∧ u.toNat < 0xE000

/-- A character is one unit, which is no half of a surrogate pair, or such a pair. -/
theorem charUnits_cases (c : Char) :
    (∃ u : UInt16, charUnits c = [u] ∧ u.toNat = c.toNat ∧ (c.toNat < 0xD800 ∨ 0xE000 ≤ c.toNat)) ∨
      ∃ high low : UInt16, charUnits c = [high, low] ∧ 0xD800 ≤ high.toNat ∧ high.toNat < 0xDC00 ∧ isLow low ∧
        c.toNat = 0x10000 + (high.toNat - 0xD800) * 0x400 + (low.toNat - 0xDC00) := by
  have hvalid : c.toNat < 0xD800 ∨ 0xDFFF < c.toNat ∧ c.toNat < 0x110000 := c.valid
  unfold charUnits utf16Units
  rw [CodePoint.ofChar_val]
  split
  · next hsmall =>
    refine .inl ⟨_, rfl, ?_, by omega⟩
    rw [UInt16.toNat_ofNat']
    omega
  · next hlarge =>
    refine .inr ⟨_, _, rfl, ?_⟩
    simp only [isLow, UInt16.toNat_ofNat']
    omega

theorem charUnits_ne_nil (c : Char) : charUnits c ≠ [] := by
  rcases charUnits_cases c with ⟨u, h, -⟩ | ⟨high, low, h, -⟩
  · simp [h]
  · simp [h]

/-- The units of a character are not the beginning of those of another one. -/
theorem charUnits_append_inj (h : charUnits c ++ s = charUnits d ++ t) : c = d ∧ s = t := by
  have hchar : ∀ {c d : Char}, c.toNat = d.toNat → c = d := fun h => Char.ext (UInt32.toNat_inj.1 h)
  rcases charUnits_cases c with ⟨u, hc, hu, hrange⟩ | ⟨high, low, hc, hhigh, hhigh', hlow, hval⟩
  · rcases charUnits_cases d with ⟨v, hd, hv, hrange'⟩ | ⟨high, low, hd, hhigh, hhigh', hlow, hval⟩
    · rw [hc, hd] at h
      obtain ⟨rfl, rfl⟩ := List.cons_eq_cons.1 h
      exact ⟨hchar (hu.symm.trans hv), rfl⟩
    · rw [hc, hd] at h
      obtain ⟨rfl, -⟩ := List.cons_eq_cons.1 h
      omega
  · rcases charUnits_cases d with ⟨v, hd, hv, hrange'⟩ | ⟨high', low', hd, hhigh₂, hhigh₂', hlow', hval'⟩
    · rw [hc, hd] at h
      obtain ⟨rfl, -⟩ := List.cons_eq_cons.1 h
      omega
    · rw [hc, hd] at h
      simp only [List.cons_append, List.nil_append, List.cons.injEq] at h
      obtain ⟨rfl, rfl, rfl⟩ := h
      exact ⟨hchar (hval.trans hval'.symm), rfl⟩

theorem units_prefix_iff : units sub <+: units text ↔ sub <+: text := by
  induction sub generalizing text with
  | nil => simp
  | cons c sub ih =>
    cases text with
    | nil =>
      refine iff_of_false (fun h => ?_) (by simp)
      rw [units_nil, List.prefix_nil, units_cons, List.append_eq_nil_iff] at h
      exact charUnits_ne_nil c h.1
    | cons d text =>
      rw [List.cons_prefix_cons, ← ih, units_cons, units_cons]
      constructor
      · rintro ⟨after, h⟩
        rw [List.append_assoc] at h
        obtain ⟨rfl, hrest⟩ := charUnits_append_inj h
        exact ⟨rfl, after, hrest⟩
      · rintro ⟨rfl, h⟩
        exact (List.prefix_append_right_inj _).2 h

theorem units_injective : Function.Injective units := by
  intro text text' h
  have hstarts : text <+: text' := units_prefix_iff.1 (h ▸ List.prefix_rfl)
  have hstarts' : text' <+: text := units_prefix_iff.1 (h ▸ List.prefix_rfl)
  exact hstarts.eq_of_length (Nat.le_antisymm hstarts.length_le hstarts'.length_le)

@[simp] theorem length_units_le (text : List Char) : text.length ≤ (units text).length := by
  induction text with
  | nil => rfl
  | cons c text ih =>
    have hpos := List.length_pos_iff.2 (charUnits_ne_nil c)
    rw [units_cons, List.length_append, List.length_cons]
    omega

/-- Two beginnings of a text with as many units are the same. -/
theorem eq_of_prefix_of_length_units {before before' : List Char} (h : before <+: text) (h' : before' <+: text)
    (hlength : (units before).length = (units before').length) : before = before' := by
  have hunits : units before = units before' := by
    rcases List.prefix_or_prefix_of_prefix (units_prefix_iff.2 h) (units_prefix_iff.2 h') with hstarts | hstarts
    · exact hstarts.eq_of_length hlength
    · exact (hstarts.eq_of_length hlength.symm).symm
  exact units_injective hunits

theorem slice_units (before sub after : List Char) :
    slice (units (before ++ (sub ++ after))) (units before).length ((units before).length + (units sub).length) =
      units sub := by
  rw [slice, units_append, units_append, List.take_length_add_append, List.take_left, List.drop_left]

/-- The first unit of a text is not the second half of a surrogate pair. -/
theorem not_isLow_of_units {u : UInt16} {rest : JsString} (h : units text = u :: rest) : ¬isLow u := by
  cases text with
  | nil => cases h
  | cons c text =>
    rw [units_cons] at h
    rcases charUnits_cases c with ⟨v, hc, hv, hrange⟩ | ⟨high, low, hc, hhigh, hhigh', hlow, hval⟩
    · rw [hc] at h
      obtain ⟨rfl, -⟩ := List.cons_eq_cons.1 h
      unfold isLow
      omega
    · rw [hc] at h
      obtain ⟨rfl, -⟩ := List.cons_eq_cons.1 h
      unfold isLow
      omega

/-- A text occurs in the units of another one only where it does in its characters. -/
theorem exists_of_units_prefix_drop (hsub : sub ≠ []) (h : units sub <+: (units text).drop k) :
    ∃ before after, text = before ++ (sub ++ after) ∧ k = (units before).length := by
  induction text generalizing k with
  | nil =>
    rw [units_nil, List.drop_nil, List.prefix_nil] at h
    exact absurd (units_injective (h.trans units_nil.symm)) hsub
  | cons c text ih =>
    by_cases hk : k = 0
    · subst hk
      obtain ⟨after, hafter⟩ := units_prefix_iff.1 h
      exact ⟨[], after, hafter.symm, rfl⟩
    · by_cases hin : (charUnits c).length ≤ k
      · rw [units_cons, List.drop_append, List.drop_of_length_le hin, List.nil_append] at h
        obtain ⟨before, after, htext, hlength⟩ := ih h
        refine ⟨c :: before, after, by rw [htext, List.cons_append], ?_⟩
        rw [units_cons, List.length_append]
        omega
      · -- `k` is between the two halves of a surrogate pair
        rcases charUnits_cases c with ⟨u, hc, -⟩ | ⟨high, low, hc, -, -, hlow, -⟩
        · rw [hc, List.length_singleton] at hin
          omega
        · rw [hc, List.length_cons, List.length_singleton] at hin
          obtain rfl : k = 1 := by omega
          rw [units_cons, hc] at h
          obtain ⟨after, hafter⟩ := h
          cases hunits : units sub with
          | nil => exact absurd (units_injective (hunits.trans units_nil.symm)) hsub
          | cons u rest =>
            rw [hunits] at hafter
            obtain ⟨rfl, -⟩ := List.cons_eq_cons.1 hafter
            exact absurd hlow (not_isLow_of_units hunits)

end Units

end Concord
