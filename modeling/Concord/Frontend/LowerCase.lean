import Concord.Frontend.Utf16

/-!
# Lower case

A string by its characters, as `for … of` goes over it, and `toLowerCase`, which takes each character with what is
before and after it. What is from Unicode's tables or depends on the locale is a parameter (`Engine`).

Where the characters are single units and stay so in lower case (`SingleUnits`), lower case keeps every place, in
a part after a slash as in the whole string (`toLowerCase_after_slash`).
-/

namespace Concord

open Concord.Base

/-! ## Characters -/

/-- The two units are a surrogate pair. -/
def isPair (high low : UInt16) : Bool :=
  0xD800 ≤ high.toNat && high.toNat < 0xDC00 && (0xDC00 ≤ low.toNat && low.toNat < 0xE000)

/-- The character of a unit of its own. -/
def unitPoint (u : UInt16) : CodePoint := Fin.ofNat 0x110000 u.toNat

/-- The character of a surrogate pair. -/
def pairPoint (high low : UInt16) : CodePoint :=
  Fin.ofNat 0x110000 (0x10000 + (high.toNat - 0xD800) * 0x400 + (low.toNat - 0xDC00))

/-- The characters of a string. -/
def codePoints : JsString → List CodePoint
  | [] => []
  | [u] => [unitPoint u]
  | high :: low :: rest =>
    if isPair high low then pairPoint high low :: codePoints rest else unitPoint high :: codePoints (low :: rest)

/-- There is no surrogate pair in the string. -/
def NoPair (s : JsString) : Prop := s.IsChain fun high low => isPair high low = false

section Characters

variable {u high low : UInt16} {s rest : JsString} {c : CodePoint} {cs : List CodePoint}

theorem unitPoint_val (u : UInt16) : (unitPoint u).val = u.toNat := by
  have hlt := u.toNat_lt
  rw [unitPoint, Fin.val_ofNat]
  exact Nat.mod_eq_of_lt (by omega)

theorem unitPoint_injective : Function.Injective unitPoint := by
  intro u v h
  refine UInt16.toNat_inj.1 ?_
  rw [← unitPoint_val, h, unitPoint_val]

theorem utf16Units_unitPoint (u : UInt16) : utf16Units (unitPoint u) = [u] := by
  have hlt := u.toNat_lt
  rw [utf16Units, unitPoint_val, if_pos (by omega), UInt16.ofNat_toNat]

/-- A character that is a single unit. -/
theorem utf16Units_of_lt (h : c.val < 0x10000) : ∃ u, utf16Units c = [u] ∧ unitPoint u = c := by
  refine ⟨UInt16.ofNat c.val, if_pos h, Fin.ext ?_⟩
  rw [unitPoint_val, UInt16.toNat_ofNat']
  omega

/-- A character that is a surrogate pair. -/
theorem utf16Units_of_le (h : 0x10000 ≤ c.val) : ∃ high low, utf16Units c = [high, low] ∧ isPair high low = true := by
  have hlt := c.isLt
  refine ⟨_, _, if_neg (Nat.not_lt.2 h), ?_⟩
  simp only [isPair, UInt16.toNat_ofNat', Bool.and_eq_true, decide_eq_true_eq]
  omega

theorem length_utf16Units_pos (c : CodePoint) : 0 < (utf16Units c).length := by
  unfold utf16Units
  split
  · exact Nat.one_pos
  · exact Nat.two_pos

theorem length_utf16Units_eq_one_iff : (utf16Units c).length = 1 ↔ c.val < 0x10000 := by
  unfold utf16Units
  split
  · next h => exact iff_of_true rfl h
  · next h => exact iff_of_false (by simp) h

theorem codePoints_pair (h : isPair high low = true) :
    codePoints (high :: low :: rest) = pairPoint high low :: codePoints rest := if_pos h

theorem codePoints_cons_cons (h : isPair high low = false) :
    codePoints (high :: low :: rest) = unitPoint high :: codePoints (low :: rest) :=
  if_neg (Bool.eq_false_iff.1 h)

theorem pairPoint_val (h : isPair high low = true) :
    (pairPoint high low).val = 0x10000 + (high.toNat - 0xD800) * 0x400 + (low.toNat - 0xDC00) := by
  simp only [isPair, Bool.and_eq_true, decide_eq_true_eq] at h
  rw [pairPoint, Fin.val_ofNat]
  exact Nat.mod_eq_of_lt (by omega)

theorem utf16Units_pairPoint (h : isPair high low = true) : utf16Units (pairPoint high low) = [high, low] := by
  have hval := pairPoint_val h
  simp only [isPair, Bool.and_eq_true, decide_eq_true_eq] at h
  rw [utf16Units, if_neg (by omega), hval]
  have hhigh : 0xD800 + (0x10000 + (high.toNat - 0xD800) * 0x400 + (low.toNat - 0xDC00) - 0x10000) / 0x400 =
      high.toNat := by omega
  have hlow : 0xDC00 + (0x10000 + (high.toNat - 0xD800) * 0x400 + (low.toNat - 0xDC00) - 0x10000) % 0x400 =
      low.toNat := by omega
  rw [hhigh, hlow, UInt16.ofNat_toNat, UInt16.ofNat_toNat]

/-- A string is the units of its characters. -/
theorem utf16_codePoints (s : JsString) : utf16 (codePoints s) = s := by
  induction s using codePoints.induct with
  | case1 => rfl
  | case2 u => exact (List.append_nil _).trans (utf16Units_unitPoint u)
  | case3 high low rest h ih =>
    rw [codePoints_pair h, utf16, List.flatMap_cons, utf16Units_pairPoint h]
    exact congrArg (high :: low :: ·) ih
  | case4 high low rest h ih =>
    rw [codePoints_cons_cons (Bool.eq_false_iff.2 h), utf16, List.flatMap_cons, utf16Units_unitPoint]
    exact congrArg (high :: ·) ih

theorem noPair_of_codePoints (h : ∀ c ∈ codePoints s, c.val < 0x10000) : NoPair s := by
  induction s using codePoints.induct with
  | case1 => exact .nil
  | case2 u => exact .singleton u
  | case3 high low rest hpair ih =>
    have hlt := h (pairPoint high low) (by rw [codePoints_pair hpair]; exact List.mem_cons_self)
    rw [pairPoint_val hpair] at hlt
    omega
  | case4 high low rest hpair ih =>
    rw [codePoints_cons_cons (Bool.eq_false_iff.2 hpair)] at h
    exact List.isChain_cons_cons.2
      ⟨Bool.eq_false_iff.2 hpair, ih fun c hc => h c (List.mem_cons_of_mem _ hc)⟩

/-- Without surrogate pairs every unit is a character. -/
theorem NoPair.codePoints_eq (h : NoPair s) : codePoints s = s.map unitPoint := by
  induction s using codePoints.induct with
  | case1 => rfl
  | case2 u => rfl
  | case3 high low rest hpair ih =>
    rw [(List.isChain_cons_cons.1 h).1] at hpair
    cases hpair
  | case4 high low rest hpair ih =>
    rw [codePoints_cons_cons (Bool.eq_false_iff.2 hpair), ih (List.isChain_cons_cons.1 h).2]
    rfl

theorem utf16_map_unitPoint (s : JsString) : utf16 (s.map unitPoint) = s := by
  induction s with
  | nil => rfl
  | cons u s ih =>
    rw [List.map_cons, utf16, List.flatMap_cons, utf16Units_unitPoint]
    exact congrArg (u :: ·) ih

/-- Characters with a single unit in all are one. -/
theorem exists_of_length_utf16 (h : (utf16 cs).length = 1) : ∃ u, cs = [unitPoint u] := by
  cases cs with
  | nil => cases h
  | cons c cs =>
    have hc := length_utf16Units_pos c
    rw [utf16, List.flatMap_cons, List.length_append] at h
    cases cs with
    | nil =>
      obtain ⟨u, -, hu⟩ := utf16Units_of_lt (length_utf16Units_eq_one_iff.1 h)
      exact ⟨u, by rw [hu]⟩
    | cons d cs =>
      have hd := length_utf16Units_pos d
      rw [List.flatMap_cons, List.length_append] at h
      omega

end Characters

/-! ## `toLowerCase` -/

/-- What the code takes from its engine: Unicode's tables and the order of the locale. -/
structure Engine where
  /-- The lower case of a character, with those before and after it. -/
  lowercase : List CodePoint → CodePoint → List CodePoint → List CodePoint
  /-- Half a surrogate pair has no case, -/
  lowercase_surrogate : ∀ before c after, isSurrogate c = true → lowercase before c after = [c]
  /-- and is in no lower case. -/
  isSurrogate_lowercase : ∀ before c after, isSurrogate c = false → ∀ d ∈ lowercase before c after, isSurrogate d = false
  /-- A slash has no case and is not ignored, so that what is before it does not matter. -/
  lowercase_slash : ∀ before mid c after, lowercase (before ++ CodePoint.ofChar '/' :: mid) c after = lowercase mid c after
  localeCompare : JsString → JsString → Int
  localeCompare_total : ∀ s t, localeCompare s t ≤ 0 ∨ localeCompare t s ≤ 0
  localeCompare_trans : ∀ s t u, localeCompare s t ≤ 0 → localeCompare t u ≤ 0 → localeCompare s u ≤ 0

namespace Engine

variable (E : Engine)

/-- The lower case of the characters after those. -/
def lowerFrom (before : List CodePoint) : List CodePoint → List CodePoint
  | [] => []
  | c :: after => E.lowercase before c after ++ lowerFrom (before ++ [c]) after

/-- `toLowerCase`. -/
def toLowerCase (s : JsString) : JsString := utf16 (E.lowerFrom [] (codePoints s))

/-- After those, every character is a single unit, and its lower case as well. -/
def SingleFrom (before cs : List CodePoint) : Prop :=
  ∀ mid c after, cs = mid ++ c :: after →
    (utf16Units c).length = 1 ∧ (utf16 (E.lowercase (before ++ mid) c after)).length = 1

/-- Every character of the string is a single unit, and its lower case as well. -/
def SingleUnits (s : JsString) : Prop := E.SingleFrom [] (codePoints s)

/-- The unit in lower case is half of a surrogate pair only where it was the same before. -/
def SameHalf (u v : UInt16) : Prop := v = u ∨ isSurrogate (unitPoint u) = false ∧ isSurrogate (unitPoint v) = false

variable {E} {before cs ds : List CodePoint} {c : CodePoint} {s dir name : JsString}

theorem SingleFrom.head (h : E.SingleFrom before (c :: cs)) : ∃ u v, c = unitPoint u ∧
    E.lowercase before c cs = [unitPoint v] ∧ SameHalf u v := by
  obtain ⟨hc, hlower⟩ := h [] c cs rfl
  obtain ⟨u, -, rfl⟩ := utf16Units_of_lt (length_utf16Units_eq_one_iff.1 hc)
  rw [List.append_nil] at hlower
  obtain ⟨v, hv⟩ := exists_of_length_utf16 hlower
  refine ⟨u, v, rfl, hv, ?_⟩
  cases hsurrogate : isSurrogate (unitPoint u) with
  | true =>
    have hsame := E.lowercase_surrogate before (unitPoint u) cs hsurrogate
    rw [hv, List.cons.injEq] at hsame
    exact .inl (unitPoint_injective hsame.1)
  | false =>
    refine .inr ⟨hsurrogate, E.isSurrogate_lowercase before (unitPoint u) cs hsurrogate _ ?_⟩
    rw [hv]
    exact List.mem_singleton_self _

theorem SingleFrom.tail (h : E.SingleFrom before (c :: cs)) : E.SingleFrom (before ++ [c]) cs := by
  intro mid d after hcs
  have hd := h (c :: mid) d after (by rw [hcs, List.cons_append])
  rwa [List.append_assoc, List.singleton_append]

/-- Lower case goes unit by unit. -/
theorem SingleFrom.exists_units (h : E.SingleFrom before cs) : ∃ s t : JsString, cs = s.map unitPoint ∧
    E.lowerFrom before cs = t.map unitPoint ∧ List.Forall₂ SameHalf s t := by
  induction cs generalizing before with
  | nil => exact ⟨[], [], rfl, rfl, .nil⟩
  | cons c cs ih =>
    obtain ⟨u, v, rfl, hv, hsame⟩ := h.head
    obtain ⟨s, t, rfl, ht, hall⟩ := ih h.tail
    refine ⟨u :: s, v :: t, rfl, ?_, .cons hsame hall⟩
    rw [lowerFrom, hv, ht]
    rfl

theorem SameHalf.isPair_eq_false {u v u' v' : UInt16} (h : SameHalf u v) (h' : SameHalf u' v')
    (hpair : isPair u u' = false) : isPair v v' = false := by
  have hno : ∀ {w : UInt16}, isSurrogate (unitPoint w) = false → w.toNat < 0xD800 ∨ 0xDFFF < w.toNat := by
    intro w hw
    simp only [isSurrogate, unitPoint_val, Bool.and_eq_false_iff, decide_eq_false_iff_not] at hw
    omega
  simp only [isPair, Bool.and_eq_false_iff, decide_eq_false_iff_not] at hpair ⊢
  rcases h with rfl | ⟨-, hv⟩
  · rcases h' with rfl | ⟨-, hv'⟩
    · exact hpair
    · have := hno hv'
      omega
  · have := hno hv
    omega

theorem noPair_of_sameHalf {s t : JsString} (hall : List.Forall₂ SameHalf s t) (h : NoPair s) : NoPair t := by
  induction hall with
  | nil => exact .nil
  | cons hsame hall ih =>
    cases hall with
    | nil => exact .singleton _
    | cons hsame' hall' =>
      obtain ⟨hpair, hrest⟩ := List.isChain_cons_cons.1 h
      exact List.isChain_cons_cons.2 ⟨hsame.isPair_eq_false hsame' hpair, ih hrest⟩

theorem SingleUnits.noPair (h : E.SingleUnits s) : NoPair s := by
  refine noPair_of_codePoints fun c hc => ?_
  obtain ⟨mid, after, hsplit⟩ := List.append_of_mem hc
  exact length_utf16Units_eq_one_iff.1 (h mid c after hsplit).1

/-- The string in lower case, unit by unit. -/
theorem SingleUnits.forall₂ (h : E.SingleUnits s) :
    E.lowerFrom [] (codePoints s) = (E.toLowerCase s).map unitPoint ∧ List.Forall₂ SameHalf s (E.toLowerCase s) := by
  obtain ⟨s', t, hs, ht, hall⟩ := SingleFrom.exists_units h
  have hs' : s = s' := by rw [← utf16_codePoints s, hs, utf16_map_unitPoint]
  have ht' : E.toLowerCase s = t := by rw [toLowerCase, ht, utf16_map_unitPoint]
  rw [hs', ← hs', ht']
  exact ⟨ht, hs' ▸ hall⟩

theorem SingleUnits.length_toLowerCase (h : E.SingleUnits s) : (E.toLowerCase s).length = s.length :=
  h.forall₂.2.length_eq.symm

theorem SingleUnits.noPair_toLowerCase (h : E.SingleUnits s) : NoPair (E.toLowerCase s) :=
  noPair_of_sameHalf h.forall₂.2 h.noPair

/-! ### A part after a slash -/

theorem lowerFrom_slash (mid : List CodePoint) :
    E.lowerFrom (before ++ CodePoint.ofChar '/' :: mid) cs = E.lowerFrom mid cs := by
  induction cs generalizing mid with
  | nil => rfl
  | cons c cs ih =>
    rw [lowerFrom, lowerFrom, E.lowercase_slash, List.append_assoc, List.cons_append, ih]

/-- What comes after so many characters does so in lower case. -/
theorem SingleFrom.drop_lowerFrom (h : E.SingleFrom before (cs ++ ds)) :
    (E.lowerFrom before (cs ++ ds)).drop cs.length = E.lowerFrom (before ++ cs) ds := by
  induction cs generalizing before with
  | nil => rw [List.append_nil]; rfl
  | cons c cs ih =>
    rw [List.cons_append] at h ⊢
    obtain ⟨u, v, -, hv, -⟩ := h.head
    have hrest := ih h.tail
    rw [lowerFrom, hv, List.singleton_append, List.length_cons, List.drop_succ_cons, hrest, List.append_assoc,
      List.singleton_append]

/-- A name after a slash has the same lower case as in the whole string. -/
theorem toLowerCase_after_slash {slash : UInt16} (hslash : unitPoint slash = CodePoint.ofChar '/')
    (h : E.SingleUnits (dir ++ slash :: name)) :
    E.toLowerCase name = (E.toLowerCase (dir ++ slash :: name)).drop (dir.length + 1) := by
  have hpoints := h.noPair.codePoints_eq
  have hname : codePoints name = name.map unitPoint :=
    NoPair.codePoints_eq (h.noPair.suffix ⟨dir ++ [slash], by simp⟩)
  rw [List.map_append, List.map_cons, hslash, ← hname] at hpoints
  have hsplit : codePoints (dir ++ slash :: name) =
      (dir.map unitPoint ++ [CodePoint.ofChar '/']) ++ codePoints name := by
    rw [hpoints, List.append_assoc, List.singleton_append]
  have hlower := h.forall₂.1
  have hdrop : (E.lowerFrom [] (codePoints (dir ++ slash :: name))).drop (dir.length + 1) =
      E.lowerFrom [] (codePoints name) := by
    have hsingle : E.SingleFrom [] ((dir.map unitPoint ++ [CodePoint.ofChar '/']) ++ codePoints name) := hsplit ▸ h
    have hlength : (dir.map unitPoint ++ [CodePoint.ofChar '/']).length = dir.length + 1 := by simp
    rw [hsplit, ← hlength, hsingle.drop_lowerFrom, List.nil_append]
    exact lowerFrom_slash []
  rw [toLowerCase, ← hdrop, hlower, ← List.map_drop, utf16_map_unitPoint]

end Engine

end Concord
