import Concord.Base.JsonText

/-!
# What is written is read back

Reading what `dumps` writes of a value gives the value back, to a reader of standard JSON exactly
when its floats are finite (`scanOnce_dumps`).
-/

namespace Concord.Base

open CodePoint (ofChar)

/-! ## Numbers -/

@[simp] theorem isDigit_digitChar (d : Fin 10) : isDigit (digitChar d) = true := by
  revert d
  decide

@[simp] theorem digitValue_digitChar (d : Fin 10) : digitValue (digitChar d) = d.val := by
  revert d
  decide

theorem digitChar_eq_zero {d : Fin 10} : digitChar d = ofChar '0' ↔ d = 0 := by
  revert d
  decide

theorem isDigit_of_mem_decimal {n : Nat} {c : CodePoint} (h : c ∈ decimal n) : isDigit c = true := by
  unfold decimal at h
  split at h
  · rw [List.mem_singleton.1 h]
    decide
  · rw [List.mem_reverse, List.mem_map] at h
    obtain ⟨d, -, rfl⟩ := h
    exact isDigit_digitChar _

theorem natOfDigits_append (digits : Str) (c : CodePoint) :
    natOfDigits (digits ++ [c]) = 10 * natOfDigits digits + digitValue c := by
  unfold natOfDigits
  rw [List.foldl_append]
  rfl

theorem natOfDigits_reverse {l : List Nat} (h : ∀ d ∈ l, d < 10) :
    natOfDigits (l.map fun d => digitChar (Fin.ofNat 10 d)).reverse = Nat.ofDigits 10 l := by
  induction l with
  | nil => rfl
  | cons d l ih =>
    have hd : d % 10 = d := Nat.mod_eq_of_lt (h d List.mem_cons_self)
    rw [List.map_cons, List.reverse_cons, natOfDigits_append,
      ih fun d hd => h d (List.mem_cons_of_mem _ hd), Nat.ofDigits_cons, digitValue_digitChar,
      Fin.val_ofNat, hd]
    omega

theorem natOfDigits_decimal (n : Nat) : natOfDigits (decimal n) = n := by
  unfold decimal
  split
  · next h =>
    subst h
    rfl
  · rw [natOfDigits_reverse fun d hd => Nat.digits_lt_base (by decide) hd, Nat.ofDigits_digits]

/-- Only zero is written with a leading zero. -/
theorem decimal_cases (n : Nat) :
    decimal n = [ofChar '0'] ∨ ∃ c cs, decimal n = c :: cs ∧ c ≠ ofChar '0' := by
  by_cases h : n = 0
  · subst h
    exact .inl rfl
  · right
    have hne : Nat.digits 10 n ≠ [] := Nat.digits_ne_nil_iff_ne_zero.2 h
    have hlast := Nat.getLast_digit_ne_zero 10 h
    have hlt : (Nat.digits 10 n).getLast hne < 10 :=
      Nat.digits_lt_base (by decide) (List.getLast_mem hne)
    refine ⟨digitChar (Fin.ofNat 10 ((Nat.digits 10 n).getLast hne)),
      ((Nat.digits 10 n).dropLast.map fun d => digitChar (Fin.ofNat 10 d)).reverse, ?_, ?_⟩
    · unfold decimal
      rw [if_neg h]
      conv_lhs => rw [← List.dropLast_append_getLast hne]
      simp
    · rw [Ne, digitChar_eq_zero]
      intro hzero
      have hval := congrArg Fin.val hzero
      rw [Fin.val_ofNat, Nat.mod_eq_of_lt hlt] at hval
      exact hlast hval

theorem decimal_ne_nil (n : Nat) : decimal n ≠ [] := by
  rcases decimal_cases n with h | ⟨c, cs, h, -⟩
  · simp [h]
  · simp [h]

/-- The text does not go on with a digit. -/
def NoDigit (s : Str) : Prop := ∀ c ∈ s.head?, isDigit c = false

theorem takeWhile_digits {digits rest : Str} (h : ∀ c ∈ digits, isDigit c = true)
    (hrest : NoDigit rest) : (digits ++ rest).takeWhile isDigit = digits := by
  rw [List.takeWhile_append_of_pos h]
  cases rest with
  | nil => simp
  | cons c rest => simp [hrest c rfl]

theorem dropWhile_digits {digits rest : Str} (h : ∀ c ∈ digits, isDigit c = true)
    (hrest : NoDigit rest) : (digits ++ rest).dropWhile isDigit = rest := by
  rw [List.dropWhile_append_of_pos h]
  cases rest with
  | nil => rfl
  | cons c rest => simp [hrest c rfl]

theorem expect_cons_of_ne {c d : CodePoint} (h : d ≠ c) (rest : Str) : expect c (d :: rest) = none :=
  if_neg h

@[simp] theorem expect_cons_self (c : CodePoint) (rest : Str) : expect c (c :: rest) = some rest :=
  if_pos rfl

theorem scanSign_decimal (negative : Bool) (n : Nat) (rest : Str) :
    scanSign (signText negative ++ (decimal n ++ rest)) = (negative, decimal n ++ rest) := by
  unfold scanSign
  cases negative with
  | true => simp [signText]
  | false =>
    have hdash : expect (ofChar '-') (decimal n ++ rest) = none := by
      cases hd : decimal n with
      | nil => exact absurd hd (decimal_ne_nil n)
      | cons c cs =>
        apply expect_cons_of_ne
        rintro rfl
        have hdigit := isDigit_of_mem_decimal (n := n) (by rw [hd]; exact List.mem_cons_self)
        exact absurd hdigit (by decide)
    simp [signText, hdash]

theorem scanDigits_decimal (n : Nat) {rest : Str} (hrest : NoDigit rest) :
    scanDigits (decimal n ++ rest) = some (decimal n, rest) := by
  rcases decimal_cases n with hd | ⟨c, cs, hd, hc⟩
  · rw [hd, List.singleton_append, scanDigits, if_pos rfl]
  · have hall : ∀ c' ∈ c :: cs, isDigit c' = true := by
      rw [← hd]
      exact fun c => isDigit_of_mem_decimal
    have hcs : ∀ c' ∈ cs, isDigit c' = true := fun c' h => hall c' (List.mem_cons_of_mem _ h)
    rw [hd, List.cons_append, scanDigits, if_neg hc, if_pos (hall c List.mem_cons_self),
      takeWhile_digits hcs hrest, dropWhile_digits hcs hrest]

/-- What can follow a value. -/
def closers : Str := [',', ']', '}'].map ofChar

/-- The text ends, or goes on with what can follow a value. -/
def Boundary (s : Str) : Prop := ∀ c ∈ s.head?, c ∈ closers

theorem boundary_nil : Boundary [] := nofun

theorem boundary_cons {c : CodePoint} (h : c ∈ closers) (rest : Str) :
    Boundary (c :: rest) := by
  rintro _ ⟨⟩
  exact h

section Ends

variable {rest : Str} (hrest : Boundary rest)

include hrest

/-- What a character that can follow a value is not. -/
theorem Boundary.head {p : CodePoint → Bool} (h : closers.all fun c => !p c) :
    ∀ c ∈ rest.head?, p c = false := by
  intro c hc
  simpa using List.all_eq_true.1 h c (hrest c hc)

theorem Boundary.noDigit : NoDigit rest := hrest.head (p := isDigit) (by decide)

theorem Boundary.expect_eq_none {c : CodePoint} (h : c ∉ closers) :
    expect c rest = none := by
  cases rest with
  | nil => rfl
  | cons d rest =>
    apply expect_cons_of_ne
    rintro rfl
    exact h (hrest d rfl)

theorem Boundary.skipSpace : skipSpace rest = rest := by
  cases rest with
  | nil => rfl
  | cons c rest =>
    have hc : isSpace c = false := hrest.head (p := isSpace) (by decide) c rfl
    rw [Concord.Base.skipSpace, List.dropWhile_cons_of_neg (by simp [hc])]

theorem Boundary.scanExponent : scanExponent rest = ([], rest) := by
  cases rest with
  | nil => rfl
  | cons c rest =>
    have hc := hrest.head (p := fun c => c = ofChar 'e' ∨ c = ofChar 'E') (by decide) c rfl
    exact if_neg (of_decide_eq_false hc)

theorem Boundary.scanFraction : scanFraction rest = ([], rest) := by
  rw [Concord.Base.scanFraction, hrest.expect_eq_none (by decide)]

end Ends

namespace FloatText

variable (t : FloatText) {rest : Str} (hrest : Boundary rest)

theorem isDigit_of_mem_map (digits : List (Fin 10)) {c : CodePoint}
    (h : c ∈ digits.map digitChar) : isDigit c = true := by
  obtain ⟨d, -, rfl⟩ := List.mem_map.1 h
  exact isDigit_digitChar d

include hrest in
theorem scanExponent_text : scanExponent (t.exponentText ++ rest) = (t.exponentText, rest) := by
  unfold exponentText
  cases he : t.exponent with
  | none => exact hrest.scanExponent
  | some e =>
    obtain ⟨negative, digits⟩ := e
    have hne : digits.map digitChar ≠ [] := by
      simpa using t.exponent_ne_nil _ he
    have htake := takeWhile_digits (fun _ => isDigit_of_mem_map digits) hrest.noDigit
    have hdrop := dropWhile_digits (fun _ => isDigit_of_mem_map digits) hrest.noDigit
    cases negative with
    | true => simp [scanExponent, htake, hdrop, hne]
    | false => simp [scanExponent, htake, hdrop, hne]

include hrest in
theorem noDigit_exponentText : NoDigit (t.exponentText ++ rest) := by
  unfold exponentText
  cases t.exponent with
  | none => exact hrest.noDigit
  | some e =>
    rintro _ ⟨⟩
    decide

include hrest in
theorem scanFraction_text :
    scanFraction (t.fractionText ++ (t.exponentText ++ rest)) =
      (t.fractionText, t.exponentText ++ rest) := by
  unfold fractionText
  split
  · unfold exponentText
    cases t.exponent with
    | none => exact hrest.scanFraction
    | some e =>
      unfold scanFraction
      rw [List.nil_append, List.cons_append, expect_cons_of_ne (by decide)]
  · next hne =>
    have hmap : t.fraction.map digitChar ≠ [] := by simpa using hne
    have htake := takeWhile_digits (fun _ => isDigit_of_mem_map t.fraction)
      (t.noDigit_exponentText hrest)
    have hdrop := dropWhile_digits (fun _ => isDigit_of_mem_map t.fraction)
      (t.noDigit_exponentText hrest)
    unfold scanFraction
    rw [List.cons_append, expect_cons_self]
    dsimp only
    rw [htake, hdrop, if_neg hmap]

include hrest in
theorem noDigit_fractionText : NoDigit (t.fractionText ++ (t.exponentText ++ rest)) := by
  unfold fractionText
  split
  · exact t.noDigit_exponentText hrest
  · rintro _ ⟨⟩
    decide

end FloatText

/-! ## Strings -/

theorem scanEscape_letter {c d : CodePoint} (h : escapes.lookup c = some d) (rest : Str) :
    scanEscape (d :: rest) = some (c, rest) := by
  have hall : escapes.all (fun e => e.2 != ofChar 'u' && backslash.lookup e.2 == some e.1) := by
    decide
  obtain ⟨l, l', hl, -⟩ := List.lookup_eq_some_iff.1 h
  have hmem : (c, d) ∈ escapes := by simp [hl]
  have hcd := List.all_eq_true.1 hall _ hmem
  simp only [Bool.and_eq_true, bne_iff_ne, beq_iff_eq] at hcd
  rw [scanEscape, if_neg hcd.1, hcd.2, Option.map_some]

theorem hexValue_hexDigit : ∀ n < 16, hexValue (hexDigit n) = some n := by decide

theorem joinSurrogates_of_lt {c : CodePoint} (h : c.val < 0xD800) (rest : Str) :
    joinSurrogates c.val rest = (c, rest) := by
  have hhigh : isHighSurrogate c.val = false := by
    rw [isHighSurrogate, decide_eq_false (by omega), Bool.false_and]
  have hc : Fin.ofNat 0x110000 c.val = c := Fin.ext (Nat.mod_eq_of_lt c.isLt)
  unfold joinSurrogates
  split
  · rw [hhigh, if_neg Bool.false_ne_true, hc]
  · rw [hc]

theorem scanEscape_control {c : CodePoint} (h : c.val < 0x20) (rest : Str) :
    scanEscape (ofChar 'u' :: ofChar '0' :: ofChar '0' :: hexDigit (c.val / 16) ::
      hexDigit (c.val % 16) :: rest) = some (c, rest) := by
  have hzero : hexValue (ofChar '0') = some 0 := by decide
  have hhigh := hexValue_hexDigit (c.val / 16) (by omega)
  have hlow := hexValue_hexDigit (c.val % 16) (by omega)
  have hval : ((0 * 16 + 0) * 16 + c.val / 16) * 16 + c.val % 16 = c.val := by omega
  rw [scanEscape, if_pos rfl, scanHex4, hzero, hhigh, hlow]
  simp only [Option.bind_eq_bind, Option.bind_some, Option.map_some, hval]
  rw [joinSurrogates_of_lt (by omega)]

theorem scanChar_escape (c : CodePoint) (rest : Str) :
    scanChar (escape c ++ rest) = some (c, rest) := by
  unfold escape
  cases hlookup : escapes.lookup c with
  | some d => exact scanEscape_letter hlookup rest
  | none =>
    dsimp only
    split
    · next h => exact scanEscape_control h rest
    · next h =>
      have hc : c ≠ ofChar '\\' := by
        rintro rfl
        exact absurd hlookup (by decide)
      rw [List.singleton_append, scanChar, if_neg hc, if_neg h]

theorem expect_quote_escape (c : CodePoint) (rest : Str) :
    expect (ofChar '"') (escape c ++ rest) = none := by
  unfold escape
  cases hlookup : escapes.lookup c with
  | some d => exact expect_cons_of_ne (by decide) _
  | none =>
    dsimp only
    split
    · exact expect_cons_of_ne (by decide) _
    · apply expect_cons_of_ne
      rintro rfl
      exact absurd hlookup (by decide)

theorem scanChars_escape {fuel : Nat} {s : Str} (rest : Str) (h : s.length < fuel) :
    scanChars fuel (s.flatMap escape ++ ofChar '"' :: rest) = some (s, rest) := by
  induction s generalizing fuel with
  | nil =>
    obtain ⟨fuel, rfl⟩ := Nat.exists_eq_succ_of_ne_zero (Nat.ne_of_gt h)
    rfl
  | cons c s ih =>
    obtain ⟨fuel, rfl⟩ := Nat.exists_eq_succ_of_ne_zero (Nat.ne_of_gt (Nat.zero_lt_of_lt h))
    rw [List.flatMap_cons, List.append_assoc, scanChars, expect_quote_escape, scanChar_escape]
    simp only [Option.bind_eq_bind, Option.bind_some]
    rw [ih (Nat.lt_of_succ_lt_succ h), Option.bind_some]

theorem one_le_length_escape (c : CodePoint) : 1 ≤ (escape c).length := by
  unfold escape
  split
  · simp
  · split <;> simp

theorem length_le_length_flatMap_escape (s : Str) : s.length ≤ (s.flatMap escape).length := by
  induction s with
  | nil => exact le_refl _
  | cons c s ih =>
    rw [List.flatMap_cons, List.length_append, List.length_cons]
    have hc := one_le_length_escape c
    omega

theorem scanString_escape (s rest : Str) :
    scanString (s.flatMap escape ++ ofChar '"' :: rest) = some (s, rest) := by
  apply scanChars_escape
  have hlen := length_le_length_flatMap_escape s
  rw [List.length_append, List.length_cons]
  omega

/-! ## Values -/

namespace Json

variable {F : Type} (floats : Floats F) {rest : Str}

theorem scanNumber_writeInt (n : Int) (hrest : Boundary rest) :
    scanNumber floats (writeInt n ++ rest) = some (.int n, rest) := by
  unfold scanNumber writeInt
  rw [List.append_assoc, scanSign_decimal]
  dsimp only
  rw [scanDigits_decimal _ hrest.noDigit, Option.bind_eq_bind, Option.bind_some]
  dsimp only
  rw [hrest.scanFraction]
  dsimp only
  rw [hrest.scanExponent]
  dsimp only
  rw [if_pos ⟨rfl, rfl⟩, natOfDigits_decimal]
  by_cases h : n < 0
  · rw [if_pos (by simpa using h)]
    congr 3
    omega
  · rw [if_neg (by simpa using h)]
    congr 3
    omega

theorem scanNumber_text (t : FloatText) (hrest : Boundary rest) :
    scanNumber floats (t.text ++ rest) = some (.float (floats.ofText t.text), rest) := by
  unfold scanNumber FloatText.text
  rw [List.append_assoc, List.append_assoc, List.append_assoc, scanSign_decimal]
  dsimp only
  rw [scanDigits_decimal _ (t.noDigit_fractionText hrest), Option.bind_eq_bind, Option.bind_some]
  dsimp only
  rw [t.scanFraction_text hrest]
  dsimp only
  rw [t.scanExponent_text hrest]
  dsimp only
  rw [if_neg]
  rintro ⟨hfraction, hexponent⟩
  rcases t.isFloat with h | h
  · simp [FloatText.fractionText, h] at hfraction
  · obtain ⟨e, he⟩ := Option.isSome_iff_exists.1 h
    simp [FloatText.exponentText, he] at hexponent

/-- What a number starts with. -/
def NumberStart (c : CodePoint) : Prop := c = ofChar '-' ∨ isDigit c = true

theorem NumberStart.ne {c d : CodePoint} (h : NumberStart c) (hdash : d ≠ ofChar '-')
    (hdigit : isDigit d = false) : c ≠ d := by
  rintro rfl
  rcases h with h | h
  · exact hdash h
  · rw [hdigit] at h
    cases h

theorem numberStart_decimal (negative : Bool) (n : Nat) (s : Str) :
    ∃ c cs, signText negative ++ (decimal n ++ s) = c :: cs ∧ NumberStart c := by
  cases negative with
  | true => exact ⟨_, _, rfl, .inl rfl⟩
  | false =>
    cases hd : decimal n with
    | nil => exact absurd hd (decimal_ne_nil n)
    | cons c cs =>
      refine ⟨c, cs ++ s, rfl, .inr ?_⟩
      apply isDigit_of_mem_decimal (n := n)
      rw [hd]
      exact List.mem_cons_self

theorem numberStart_writeInt (n : Int) :
    ∃ c cs, writeInt n = c :: cs ∧ NumberStart c := by
  obtain ⟨c, cs, h, hc⟩ := numberStart_decimal (n < 0) n.natAbs []
  rw [List.append_nil] at h
  exact ⟨c, cs, h, hc⟩

theorem numberStart_text (t : FloatText) : ∃ c cs, t.text = c :: cs ∧ NumberStart c := by
  obtain ⟨c, cs, h, hc⟩ :=
    numberStart_decimal t.negative t.whole (t.fractionText ++ t.exponentText)
  refine ⟨c, cs, ?_, hc⟩
  rw [← h]
  simp [FloatText.text]

theorem scanOnce_number {c : CodePoint} (h : NumberStart c) (fuel : Nat) (cs : Str) :
    scanOnce floats false (fuel + 1) (c :: cs) = scanNumber floats (c :: cs) := by
  have hliteral : scanLiteral (F := F) false (c :: cs) = none := by
    have hn : ofChar 'n' ≠ c := (h.ne (by decide) (by decide)).symm
    have ht : ofChar 't' ≠ c := (h.ne (by decide) (by decide)).symm
    have hf : ofChar 'f' ≠ c := (h.ne (by decide) (by decide)).symm
    simp [scanLiteral, literals, Str.ofString, hn, ht, hf]
  rw [scanOnce, if_neg (h.ne (by decide) (by decide)), if_neg (h.ne (by decide) (by decide)),
    if_neg (h.ne (by decide) (by decide)), hliteral, Option.none_or]

/-- A value starts neither with a space nor with a closing bracket. -/
theorem dumps_start (v : Json (PyFloat F)) :
    ∃ c cs, dumps floats v = c :: cs ∧ isSpace c = false ∧ c ≠ ofChar ']' := by
  have hnumber : ∀ {s : Str}, (∃ c cs, s = c :: cs ∧ NumberStart c) →
      ∃ c cs, s = c :: cs ∧ isSpace c = false ∧ c ≠ ofChar ']' := by
    rintro s ⟨c, cs, hs, hc⟩
    refine ⟨c, cs, hs, ?_, hc.ne (by decide) (by decide)⟩
    cases hspace : isSpace c with
    | false => rfl
    | true =>
      simp only [isSpace, decide_eq_true_eq, List.mem_cons, List.not_mem_nil, or_false] at hspace
      rcases hspace with rfl | rfl | rfl | rfl
      · exact absurd rfl (hc.ne (by decide) (by decide))
      · exact absurd rfl (hc.ne (by decide) (by decide))
      · exact absurd rfl (hc.ne (by decide) (by decide))
      · exact absurd rfl (hc.ne (by decide) (by decide))
  cases v with
  | null => exact ⟨_, _, rfl, by decide, by decide⟩
  | bool b =>
    cases b with
    | true => exact ⟨_, _, rfl, by decide, by decide⟩
    | false => exact ⟨_, _, rfl, by decide, by decide⟩
  | int n => exact hnumber (numberStart_writeInt n)
  | float x =>
    cases x with
    | finite x => exact hnumber (numberStart_text _)
    | nan => exact ⟨_, _, rfl, by decide, by decide⟩
    | infinity => exact ⟨_, _, rfl, by decide, by decide⟩
    | negInfinity => exact ⟨_, _, rfl, by decide, by decide⟩
  | str s => exact ⟨_, _, rfl, by decide, by decide⟩
  | arr elems => exact ⟨_, _, rfl, by decide, by decide⟩
  | obj fields => exact ⟨_, _, rfl, by decide, by decide⟩

theorem skipSpace_cons {c : CodePoint} (h : isSpace c = false) (s : Str) :
    skipSpace (c :: s) = c :: s :=
  List.dropWhile_cons_of_neg (by simp [h])

theorem skipSpace_dumps (v : Json (PyFloat F)) (s : Str) :
    skipSpace (dumps floats v ++ s) = dumps floats v ++ s := by
  obtain ⟨c, cs, h, hspace, -⟩ := dumps_start floats v
  rw [h]
  exact skipSpace_cons hspace _

theorem length_dumps_pos (v : Json (PyFloat F)) : 0 < (dumps floats v).length := by
  obtain ⟨c, cs, h, -⟩ := dumps_start floats v
  rw [h]
  exact Nat.zero_lt_succ _

/-- No object has a key twice. -/
def DistinctKeys {X : Type} : Json X → Prop
  | obj fields => (fields.map Prod.fst).Nodup
  | _ => True

/-- The value is not a float that only Python writes. -/
def FiniteFloat : Json (PyFloat F) → Prop
  | float x => ∃ y, x = .finite y
  | _ => True

/-- A reader of standard JSON reads the value back exactly when its floats are finite. -/
def ReadsBack (v : Json (PyFloat F)) : Prop :=
  ∀ fuel rest, 2 * (dumps floats v).length ≤ fuel → Boundary rest →
    (v.Everywhere FiniteFloat →
      scanOnce floats false fuel (dumps floats v ++ rest) = some (v, rest)) ∧
    (¬v.Everywhere FiniteFloat → scanOnce floats false fuel (dumps floats v ++ rest) = none)

section Loops

variable {fuel : Nat} {v : Json (PyFloat F)} {key : Str} {s s' s'' : Str}

theorem scanElems_last (h : scanOnce floats false fuel s = some (v, s'))
    (hend : expect (ofChar ']') (skipSpace s') = some rest) :
    scanElems floats false (fuel + 1) s = some ([v], rest) := by
  simp [scanElems, h, hend]

theorem scanElems_cons (h : scanOnce floats false fuel s = some (v, s'))
    (hend : expect (ofChar ']') (skipSpace s') = none)
    (hcomma : expect (ofChar ',') (skipSpace s') = some s'') :
    scanElems floats false (fuel + 1) s =
      (scanElems floats false fuel (skipSpace s'')).map fun (elems, r) => (v :: elems, r) := by
  simp only [scanElems, h, hend, hcomma, Option.bind_eq_bind, Option.bind_some]
  cases scanElems floats false fuel (skipSpace s'') <;> rfl

theorem scanElems_none (h : scanOnce floats false fuel s = none) :
    scanElems floats false (fuel + 1) s = none := by
  simp [scanElems, h]

/-- The loop over the members of an object, past the key and its colon. -/
theorem scanMembers_key (hspace : skipSpace s = s) :
    scanMembers floats false (fuel + 1) (writeString key ++ ofChar ':' :: s) =
      (scanOnce floats false fuel s).bind fun (v, s') =>
        match expect (ofChar '}') (skipSpace s') with
        | some rest => some ([(key, v)], rest)
        | none => (expect (ofChar ',') (skipSpace s')).bind fun s'' =>
          (scanMembers floats false fuel (skipSpace s'')).map fun (members, r) =>
            ((key, v) :: members, r) := by
  have htext : writeString key ++ ofChar ':' :: s =
      ofChar '"' :: (key.flatMap escape ++ ofChar '"' :: ofChar ':' :: s) := by
    simp [writeString]
  rw [htext]
  simp only [scanMembers, expect_cons_self, scanString_escape, Option.bind_eq_bind,
    Option.bind_some, skipSpace_cons (show isSpace (ofChar ':') = false by decide), hspace,
    Option.map_eq_bind]
  rfl

theorem scanMembers_last (hspace : skipSpace s = s)
    (h : scanOnce floats false fuel s = some (v, s'))
    (hend : expect (ofChar '}') (skipSpace s') = some rest) :
    scanMembers floats false (fuel + 1) (writeString key ++ ofChar ':' :: s) =
      some ([(key, v)], rest) := by
  simp [scanMembers_key floats hspace, h, hend]

theorem scanMembers_cons (hspace : skipSpace s = s)
    (h : scanOnce floats false fuel s = some (v, s'))
    (hend : expect (ofChar '}') (skipSpace s') = none)
    (hcomma : expect (ofChar ',') (skipSpace s') = some s'') :
    scanMembers floats false (fuel + 1) (writeString key ++ ofChar ':' :: s) =
      (scanMembers floats false fuel (skipSpace s'')).map fun (members, r) =>
        ((key, v) :: members, r) := by
  simp [scanMembers_key floats hspace, h, hend, hcomma]

theorem scanMembers_none (hspace : skipSpace s = s) (h : scanOnce floats false fuel s = none) :
    scanMembers floats false (fuel + 1) (writeString key ++ ofChar ':' :: s) = none := by
  simp [scanMembers_key floats hspace, h]

end Loops

theorem dumpsElems_cons (v w : Json (PyFloat F)) (tail : List (Json (PyFloat F))) :
    dumpsElems floats (v :: w :: tail) = dumps floats v ++ ofChar ',' :: dumpsElems floats (w :: tail) := rfl

theorem dumpsElems_start (v : Json (PyFloat F)) (tail : List (Json (PyFloat F))) :
    ∃ c cs, dumpsElems floats (v :: tail) = c :: cs ∧ isSpace c = false ∧ c ≠ ofChar ']' := by
  obtain ⟨c, cs, h, hspace, hclose⟩ := dumps_start floats v
  cases tail with
  | nil => exact ⟨c, cs, h, hspace, hclose⟩
  | cons w tail =>
    rw [dumpsElems_cons, h]
    exact ⟨c, _, rfl, hspace, hclose⟩

theorem dumpsFields_start (field : Str × Json (PyFloat F))
    (tail : List (Str × Json (PyFloat F))) :
    ∃ cs, dumpsFields floats (field :: tail) = ofChar '"' :: cs := by
  cases tail with
  | nil => exact ⟨_, rfl⟩
  | cons other tail => exact ⟨_, rfl⟩

theorem scanElems_dumps {elems : List (Json (PyFloat F))} (hne : elems ≠ [])
    (h : ∀ v ∈ elems, ReadsBack floats v) {fuel : Nat}
    (hfuel : 2 * (dumpsElems floats elems).length < fuel) (rest : Str) :
    ((∀ v ∈ elems, v.Everywhere FiniteFloat) →
      scanElems floats false fuel (dumpsElems floats elems ++ ofChar ']' :: rest) =
        some (elems, rest)) ∧
    ((¬∀ v ∈ elems, v.Everywhere FiniteFloat) →
      scanElems floats false fuel (dumpsElems floats elems ++ ofChar ']' :: rest) = none) := by
  induction elems generalizing fuel with
  | nil => exact absurd rfl hne
  | cons v tail ih =>
    obtain ⟨fuel, rfl⟩ := Nat.exists_eq_succ_of_ne_zero (Nat.ne_of_gt (Nat.zero_lt_of_lt hfuel))
    have hv := h v List.mem_cons_self
    cases tail with
    | nil =>
      change 2 * (dumps floats v).length < fuel + 1 at hfuel
      change (_ → scanElems floats false (fuel + 1) (dumps floats v ++ ofChar ']' :: rest) = _) ∧
        (_ → scanElems floats false (fuel + 1) (dumps floats v ++ ofChar ']' :: rest) = _)
      obtain ⟨hsome, hnone⟩ := hv fuel (ofChar ']' :: rest) (by omega) (boundary_cons (by decide) _)
      constructor
      · intro hall
        apply scanElems_last floats (hsome (hall v List.mem_cons_self))
        rw [skipSpace_cons (by decide), expect_cons_self]
      · intro hnot
        apply scanElems_none
        apply hnone
        simpa using hnot
    | cons w tail =>
      rw [dumpsElems_cons, List.length_append, List.length_cons] at hfuel
      have hlen := length_dumps_pos floats v
      have htext : dumpsElems floats (v :: w :: tail) ++ ofChar ']' :: rest =
          dumps floats v ++ ofChar ',' ::
            (dumpsElems floats (w :: tail) ++ ofChar ']' :: rest) := by
        rw [dumpsElems_cons, List.append_assoc, List.cons_append]
      rw [htext]
      have hskip : skipSpace (dumpsElems floats (w :: tail) ++ ofChar ']' :: rest) =
          dumpsElems floats (w :: tail) ++ ofChar ']' :: rest := by
        obtain ⟨c, cs, hstart, hspace, -⟩ := dumpsElems_start floats w tail
        rw [hstart]
        exact skipSpace_cons hspace _
      obtain ⟨hsome, hnone⟩ := hv fuel
        (ofChar ',' :: (dumpsElems floats (w :: tail) ++ ofChar ']' :: rest)) (by omega)
        (boundary_cons (by decide) _)
      have htail : 2 * (dumpsElems floats (w :: tail)).length < fuel := by omega
      obtain ⟨ihsome, ihnone⟩ := ih (List.cons_ne_nil _ _)
        (fun u hu => h u (List.mem_cons_of_mem _ hu)) htail
      by_cases hfin : v.Everywhere FiniteFloat
      · rw [scanElems_cons floats (hsome hfin)
          (by rw [skipSpace_cons (by decide), expect_cons_of_ne (by decide)])
          (by rw [skipSpace_cons (by decide), expect_cons_self]), hskip]
        constructor
        · intro hall
          rw [ihsome fun u hu => hall u (List.mem_cons_of_mem _ hu)]
          rfl
        · intro hnot
          rw [ihnone]
          · rfl
          · intro hall
            apply hnot
            intro u hu
            rcases List.mem_cons.1 hu with rfl | hu
            · exact hfin
            · exact hall u hu
      · constructor
        · intro hall
          exact absurd (hall v List.mem_cons_self) hfin
        · intro _
          exact scanElems_none floats (hnone hfin)

theorem scanMembers_dumps {fields : List (Str × Json (PyFloat F))} (hne : fields ≠ [])
    (h : ∀ field ∈ fields, ReadsBack floats field.2) {fuel : Nat}
    (hfuel : 2 * (dumpsFields floats fields).length < fuel) (rest : Str) :
    ((∀ field ∈ fields, field.2.Everywhere FiniteFloat) →
      scanMembers floats false fuel (dumpsFields floats fields ++ ofChar '}' :: rest) =
        some (fields, rest)) ∧
    ((¬∀ field ∈ fields, field.2.Everywhere FiniteFloat) →
      scanMembers floats false fuel (dumpsFields floats fields ++ ofChar '}' :: rest) = none) := by
  induction fields generalizing fuel with
  | nil => exact absurd rfl hne
  | cons field tail ih =>
    obtain ⟨key, v⟩ := field
    obtain ⟨fuel, rfl⟩ := Nat.exists_eq_succ_of_ne_zero (Nat.ne_of_gt (Nat.zero_lt_of_lt hfuel))
    have hv := h (key, v) List.mem_cons_self
    cases tail with
    | nil =>
      rw [dumpsFields, List.length_append, List.length_cons] at hfuel
      rw [dumpsFields, List.append_assoc, List.cons_append]
      obtain ⟨hsome, hnone⟩ := hv fuel (ofChar '}' :: rest) (by dsimp only; omega)
        (boundary_cons (by decide) _)
      constructor
      · intro hall
        apply scanMembers_last floats (skipSpace_dumps floats v _)
          (hsome (hall (key, v) List.mem_cons_self))
        rw [skipSpace_cons (by decide), expect_cons_self]
      · intro hnot
        apply scanMembers_none floats (skipSpace_dumps floats v _)
        apply hnone
        simpa using hnot
    | cons field tail =>
      rw [dumpsFields, List.length_append, List.length_append, List.length_cons,
        List.length_cons] at hfuel
      have htext : dumpsFields floats ((key, v) :: field :: tail) ++ ofChar '}' :: rest =
          writeString key ++ ofChar ':' :: (dumps floats v ++ ofChar ',' ::
            (dumpsFields floats (field :: tail) ++ ofChar '}' :: rest)) := by
        simp [dumpsFields]
      rw [htext]
      have hskip : skipSpace (dumpsFields floats (field :: tail) ++ ofChar '}' :: rest) =
          dumpsFields floats (field :: tail) ++ ofChar '}' :: rest := by
        obtain ⟨cs, hstart⟩ := dumpsFields_start floats field tail
        rw [hstart]
        exact skipSpace_cons (by decide) _
      obtain ⟨hsome, hnone⟩ := hv fuel
        (ofChar ',' :: (dumpsFields floats (field :: tail) ++ ofChar '}' :: rest))
        (by dsimp only; omega) (boundary_cons (by decide) _)
      have htail : 2 * (dumpsFields floats (field :: tail)).length < fuel := by omega
      obtain ⟨ihsome, ihnone⟩ := ih (List.cons_ne_nil _ _)
        (fun other hother => h other (List.mem_cons_of_mem _ hother)) htail
      by_cases hfin : v.Everywhere FiniteFloat
      · rw [scanMembers_cons floats (skipSpace_dumps floats v _) (hsome hfin)
          (by rw [skipSpace_cons (by decide), expect_cons_of_ne (by decide)])
          (by rw [skipSpace_cons (by decide), expect_cons_self]), hskip]
        constructor
        · intro hall
          rw [ihsome fun other hother => hall other (List.mem_cons_of_mem _ hother)]
          rfl
        · intro hnot
          rw [ihnone]
          · rfl
          · intro hall
            apply hnot
            intro other hother
            rcases List.mem_cons.1 hother with rfl | hother
            · exact hfin
            · exact hall other hother
      · constructor
        · intro hall
          exact absurd (hall (key, v) List.mem_cons_self) hfin
        · intro _
          exact scanMembers_none floats (skipSpace_dumps floats v _) (hnone hfin)

theorem scanOnce_dumps {v : Json (PyFloat F)} (h : v.Everywhere DistinctKeys) :
    ReadsBack floats v := by
  induction v using induction with
  | h v ih =>
    rw [everywhere_iff] at h
    have hchildren : ∀ w ∈ v.children, ReadsBack floats w := fun w hw => ih w hw (h.2 w hw)
    intro fuel rest hfuel hrest
    obtain ⟨fuel, rfl⟩ : ∃ n, fuel = n + 1 := by
      have hpos := length_dumps_pos floats v
      exact ⟨fuel - 1, by omega⟩
    rw [everywhere_iff]
    cases v with
    | null => exact ⟨fun _ => rfl, fun hnot => (hnot ⟨trivial, nofun⟩).elim⟩
    | bool b =>
      cases b with
      | true => exact ⟨fun _ => rfl, fun hnot => (hnot ⟨trivial, nofun⟩).elim⟩
      | false => exact ⟨fun _ => rfl, fun hnot => (hnot ⟨trivial, nofun⟩).elim⟩
    | int n =>
      constructor
      · intro _
        obtain ⟨c, cs, hn, hc⟩ := numberStart_writeInt n
        rw [dumps, hn, List.cons_append, scanOnce_number floats hc, ← List.cons_append, ← hn]
        exact scanNumber_writeInt floats n hrest
      · intro hnot
        exact (hnot ⟨trivial, nofun⟩).elim
    | float x =>
      cases x with
      | finite x =>
        constructor
        · intro _
          obtain ⟨c, cs, ht, hc⟩ := numberStart_text (floats.repr x)
          rw [dumps, writeFloat, ht, List.cons_append, scanOnce_number floats hc,
            ← List.cons_append, ← ht, scanNumber_text floats _ hrest, floats.ofText_repr]
        · intro hnot
          exact (hnot ⟨⟨x, rfl⟩, nofun⟩).elim
      | nan => exact ⟨fun hfin => (nomatch hfin.1), fun _ => rfl⟩
      | infinity => exact ⟨fun hfin => (nomatch hfin.1), fun _ => rfl⟩
      | negInfinity => exact ⟨fun hfin => (nomatch hfin.1), fun _ => rfl⟩
    | str s =>
      constructor
      · intro _
        have htext : dumps floats (.str s) ++ rest =
            ofChar '"' :: (s.flatMap escape ++ ofChar '"' :: rest) := by
          simp [dumps, writeString]
        rw [htext, scanOnce, if_pos rfl, scanString_escape, Option.map_some]
      · intro hnot
        exact (hnot ⟨trivial, nofun⟩).elim
    | arr elems =>
      cases elems with
      | nil => exact ⟨fun _ => rfl, fun hnot => (hnot ⟨trivial, nofun⟩).elim⟩
      | cons v tail =>
        have htext : dumps floats (.arr (v :: tail)) ++ rest =
            ofChar '[' :: (dumpsElems floats (v :: tail) ++ ofChar ']' :: rest) := by
          simp [dumps]
        obtain ⟨c, cs, hstart, hspace, hclose⟩ := dumpsElems_start floats v tail
        have hskip : skipSpace (dumpsElems floats (v :: tail) ++ ofChar ']' :: rest) =
            dumpsElems floats (v :: tail) ++ ofChar ']' :: rest := by
          rw [hstart]
          exact skipSpace_cons hspace _
        have hexpect : expect (ofChar ']')
            (dumpsElems floats (v :: tail) ++ ofChar ']' :: rest) = none := by
          rw [hstart]
          exact expect_cons_of_ne hclose _
        have hlen : 2 * (dumpsElems floats (v :: tail)).length < fuel := by
          simp only [dumps, List.length_append, List.length_cons, List.length_nil] at hfuel
          omega
        obtain ⟨hsome, hnone⟩ := scanElems_dumps floats (List.cons_ne_nil v tail) hchildren hlen rest
        rw [htext, scanOnce, if_neg (by decide), if_neg (by decide), if_pos rfl, hskip, hexpect]
        constructor
        · intro hfin
          dsimp only
          rw [hsome hfin.2, Option.map_some]
        · intro hnot
          dsimp only
          rw [hnone fun hall => hnot ⟨trivial, hall⟩, Option.map_none]
    | obj fields =>
      cases fields with
      | nil => exact ⟨fun _ => rfl, fun hnot => (hnot ⟨trivial, nofun⟩).elim⟩
      | cons field tail =>
        have htext : dumps floats (.obj (field :: tail)) ++ rest =
            ofChar '{' :: (dumpsFields floats (field :: tail) ++ ofChar '}' :: rest) := by
          simp [dumps]
        obtain ⟨cs, hstart⟩ := dumpsFields_start floats field tail
        have hskip : skipSpace (dumpsFields floats (field :: tail) ++ ofChar '}' :: rest) =
            dumpsFields floats (field :: tail) ++ ofChar '}' :: rest := by
          rw [hstart]
          exact skipSpace_cons (by decide) _
        have hexpect : expect (ofChar '}')
            (dumpsFields floats (field :: tail) ++ ofChar '}' :: rest) = none := by
          rw [hstart]
          exact expect_cons_of_ne (by decide) _
        have hlen : 2 * (dumpsFields floats (field :: tail)).length < fuel := by
          simp only [dumps, List.length_append, List.length_cons, List.length_nil] at hfuel
          omega
        have hvalues : ∀ other ∈ field :: tail, ReadsBack floats other.2 := fun other hother =>
          hchildren other.2 (List.mem_map_of_mem hother)
        have hfinite : (∀ w ∈ (obj (field :: tail)).children, w.Everywhere FiniteFloat) ↔
            ∀ other ∈ field :: tail, other.2.Everywhere FiniteFloat := List.forall_mem_map
        obtain ⟨hsome, hnone⟩ :=
          scanMembers_dumps floats (List.cons_ne_nil field tail) hvalues hlen rest
        rw [htext, scanOnce, if_neg (by decide), if_pos rfl, hskip, hexpect, hfinite]
        constructor
        · intro hfin
          dsimp only
          rw [hsome hfin.2, Option.map_some, Dict.items_ofItems h.1]
        · intro hnot
          dsimp only
          rw [hnone fun hall => hnot ⟨trivial, hall⟩, Option.map_none]

/-- **Standard JSON and Python's**: a reader of standard JSON reads what Python writes of a value
exactly when the floats in it are finite, and then it reads the value. -/
theorem loads_dumps {v : Json (PyFloat F)} (h : v.Everywhere DistinctKeys) :
    (v.Everywhere FiniteFloat → loads floats false (dumps floats v) = some v) ∧
    (¬v.Everywhere FiniteFloat → loads floats false (dumps floats v) = none) := by
  obtain ⟨hsome, hnone⟩ := scanOnce_dumps floats h _ [] (le_refl _) boundary_nil
  have hskip := skipSpace_dumps floats v []
  rw [List.append_nil] at hsome hnone hskip
  unfold loads
  rw [hskip]
  constructor
  · intro hfin
    rw [hsome hfin]
    rfl
  · intro hnot
    rw [hnone hnot]
    rfl

/-! ## What is read -/

variable {constants : Bool}

theorem distinctKeys_scanLiteral {s rest : Str} {v : Json (PyFloat F)}
    (h : scanLiteral constants s = some (v, rest)) : v.Everywhere DistinctKeys := by
  have hall : ∀ word ∈ literals (F := F) constants, word.2.Everywhere DistinctKeys := by
    intro word hword
    have hcases : word.2 = .null ∨ (∃ b, word.2 = .bool b) ∨ ∃ x, word.2 = .float x := by
      cases constants with
      | true =>
        simp only [literals, List.mem_append, List.mem_cons, List.not_mem_nil, or_false,
          if_true] at hword
        rcases hword with (rfl | rfl | rfl) | rfl | rfl | rfl <;> simp
      | false =>
        simp only [literals, List.mem_append, List.mem_cons, List.not_mem_nil, or_false,
          Bool.false_eq_true, if_false] at hword
        rcases hword with rfl | rfl | rfl <;> simp
    rcases hcases with hv | ⟨b, hv⟩ | ⟨x, hv⟩
    · rw [hv]
      exact everywhere_iff.2 ⟨trivial, nofun⟩
    · rw [hv]
      exact everywhere_iff.2 ⟨trivial, nofun⟩
    · rw [hv]
      exact everywhere_iff.2 ⟨trivial, nofun⟩
  obtain ⟨⟨text, w⟩, hword, hv⟩ := List.exists_of_findSome?_eq_some h
  dsimp only at hv
  split at hv
  · cases hv
    exact hall _ hword
  · cases hv

theorem distinctKeys_scanNumber {s rest : Str} {v : Json (PyFloat F)}
    (h : scanNumber floats s = some (v, rest)) : v.Everywhere DistinctKeys := by
  unfold scanNumber at h
  obtain ⟨digits, -, h⟩ := Option.bind_eq_some_iff.1 h
  dsimp only at h
  split at h
  · cases h
    exact everywhere_iff.2 ⟨trivial, nofun⟩
  · cases h
    exact everywhere_iff.2 ⟨trivial, nofun⟩

/-- No object that is read has a key twice, however deep it is. -/
theorem distinctKeys_scan (fuel : Nat) :
    (∀ s v rest, scanOnce floats constants fuel s = some (v, rest) → v.Everywhere DistinctKeys) ∧
    (∀ s elems rest, scanElems floats constants fuel s = some (elems, rest) →
      ∀ v ∈ elems, v.Everywhere DistinctKeys) ∧
    (∀ s members rest, scanMembers floats constants fuel s = some (members, rest) →
      ∀ member ∈ members, member.2.Everywhere DistinctKeys) := by
  induction fuel with
  | zero => exact ⟨nofun, nofun, nofun⟩
  | succ fuel ih =>
    obtain ⟨ihvalue, ihelems, ihmembers⟩ := ih
    refine ⟨?_, ?_, ?_⟩
    · intro s v rest h
      cases s with
      | nil => cases h
      | cons c s =>
        unfold scanOnce at h
        split at h
        · obtain ⟨text, -, ⟨⟩⟩ := Option.map_eq_some_iff.1 h
          exact everywhere_iff.2 ⟨trivial, nofun⟩
        split at h
        · split at h
          · cases h
            exact everywhere_iff.2 ⟨List.nodup_nil, nofun⟩
          · obtain ⟨⟨members, s'⟩, hmembers, ⟨⟩⟩ := Option.map_eq_some_iff.1 h
            rw [everywhere_iff]
            refine ⟨(Dict.ofItems members).nodup, List.forall_mem_map.2 ?_⟩
            intro member hmember
            exact ihmembers _ _ _ hmembers member (Dict.mem_of_mem_ofItems hmember)
        split at h
        · split at h
          · cases h
            exact everywhere_iff.2 ⟨trivial, nofun⟩
          · obtain ⟨⟨elems, s'⟩, helems, ⟨⟩⟩ := Option.map_eq_some_iff.1 h
            exact everywhere_iff.2 ⟨trivial, ihelems _ _ _ helems⟩
        · rcases Option.or_eq_some_iff.1 h with h | ⟨-, h⟩
          · exact distinctKeys_scanLiteral h
          · exact distinctKeys_scanNumber floats h
    · intro s elems rest h
      unfold scanElems at h
      obtain ⟨⟨v, s'⟩, hv, h⟩ := Option.bind_eq_some_iff.1 h
      have hfirst := ihvalue _ _ _ hv
      dsimp only at h
      split at h
      · cases h
        simpa using hfirst
      · obtain ⟨s'', -, h⟩ := Option.bind_eq_some_iff.1 h
        obtain ⟨⟨tail, s4⟩, htail, ⟨⟩⟩ := Option.bind_eq_some_iff.1 h
        exact List.forall_mem_cons.2 ⟨hfirst, ihelems _ _ _ htail⟩
    · intro s members rest h
      unfold scanMembers at h
      obtain ⟨s1, -, h⟩ := Option.bind_eq_some_iff.1 h
      obtain ⟨⟨key, s2⟩, -, h⟩ := Option.bind_eq_some_iff.1 h
      obtain ⟨s3, -, h⟩ := Option.bind_eq_some_iff.1 h
      obtain ⟨⟨v, s'⟩, hv, h⟩ := Option.bind_eq_some_iff.1 h
      have hfirst := ihvalue _ _ _ hv
      dsimp only at h
      split at h
      · cases h
        simpa using hfirst
      · obtain ⟨s'', -, h⟩ := Option.bind_eq_some_iff.1 h
        obtain ⟨⟨tail, s4⟩, htail, ⟨⟩⟩ := Option.bind_eq_some_iff.1 h
        exact List.forall_mem_cons.2 ⟨hfirst, ihmembers _ _ _ htail⟩

theorem distinctKeys_loads {s : Str} {v : Json (PyFloat F)}
    (h : loads floats constants s = some v) : v.Everywhere DistinctKeys := by
  obtain ⟨⟨w, rest⟩, hscan, h⟩ := Option.bind_eq_some_iff.1 h
  dsimp only at h
  split at h
  · cases h
    exact (distinctKeys_scan floats _).1 _ _ _ hscan
  · cases h

end Json

end Concord.Base
