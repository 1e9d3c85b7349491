import Concord.Base.Dict

/-!
# JSON values

What `json.loads` yields in Python. A string is a list of code points, surrogates among them, so it
need not be a text that UTF-8 can write. Floats are left open.
-/

namespace Concord.Base

abbrev CodePoint := Fin 0x110000

instance neZero_codePoints : NeZero 0x110000 := ⟨by decide⟩

instance lawfulBEq_codePoint : LawfulBEq CodePoint := inferInstance

/-- Python's `str`. -/
abbrev Str := List CodePoint

instance lawfulBEq_str : LawfulBEq Str := inferInstance

/-- A character as a code point. -/
def CodePoint.ofChar (c : Char) : CodePoint := Fin.ofNat 0x110000 c.toNat

def Str.ofString (s : String) : Str := s.toList.map CodePoint.ofChar

inductive Json (F : Type)
  | null
  | bool (b : Bool)
  | int (n : Int)
  | float (x : F)
  | str (s : Str)
  | arr (elems : List (Json F))
  | obj (fields : List (Str × Json F))
deriving Inhabited

namespace Json

variable {F : Type} {P Q : Json F → Prop} {v w : Json F}

/-- The values that a value is made of. -/
def children : Json F → List (Json F)
  | arr elems => elems
  | obj fields => fields.map Prod.snd
  | _ => []

theorem sizeOf_lt_of_mem_children (h : w ∈ v.children) : sizeOf w < sizeOf v := by
  cases v with
  | arr elems =>
    have hlt := List.sizeOf_lt_of_mem (show w ∈ elems from h)
    rw [arr.sizeOf_spec]
    omega
  | obj fields =>
    obtain ⟨⟨key, w⟩, hmem, rfl⟩ := List.mem_map.1 h
    have hlt := List.sizeOf_lt_of_mem hmem
    rw [Prod.mk.sizeOf_spec] at hlt
    rw [obj.sizeOf_spec]
    dsimp only
    omega
  | null | bool | int | float | str => cases h

/-- What holds of a value whenever it holds of the values in it holds of all. -/
theorem induction (h : ∀ v : Json F, (∀ w ∈ v.children, P w) → P v) (v : Json F) : P v :=
  h v fun w hw =>
    have := sizeOf_lt_of_mem_children hw
    induction h w
termination_by sizeOf v

/-- A value is in itself and in whatever a value is in that it is a part of. -/
inductive Within : Json F → Json F → Prop
  | refl (v : Json F) : Within v v
  | child {u v w : Json F} (hchild : w ∈ u.children) (h : Within v w) : Within v u

/-- The predicate holds of a value and of every value nested in it. -/
def Everywhere (P : Json F → Prop) (w : Json F) : Prop := ∀ v, Within v w → P v

theorem everywhere_iff : v.Everywhere P ↔ P v ∧ ∀ w ∈ v.children, w.Everywhere P := by
  constructor
  · intro h
    exact ⟨h v (.refl v), fun w hw u hu => h u (.child hw hu)⟩
  · rintro ⟨hv, hchildren⟩ u hu
    cases hu with
    | refl => exact hv
    | child hchild hu => exact hchildren _ hchild u hu

theorem everywhere_and :
    v.Everywhere (fun u => P u ∧ Q u) ↔ v.Everywhere P ∧ v.Everywhere Q := by
  unfold Everywhere
  simp only [imp_and, forall_and]

end Json

/-- A `dict` whose keys are strings. -/
abbrev JsonObject (F : Type) := Dict Str (Json F)

end Concord.Base
