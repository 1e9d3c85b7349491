import Concord.Base.Dict
import Concord.Base.Double
import Concord.Models
import Mathlib

/-!
# Line counts and their shares

`realtime/changes.py`. The counts of `line_stats` differ by as much as the numbers of lines
(`lineStats_balance`). The shares of `split_stats` are computed in double precision; they add up to
the counts as long as these are below `2 ^ 53` (`sum_splitStats`).
-/

namespace Concord

open Concord.Base

/-- Where `str.splitlines` ends a line. -/
def isLineBreak (c : Char) : Bool :=
  c.toNat ∈ [0x0a, 0x0b, 0x0c, 0x0d, 0x1c, 0x1d, 0x1e, 0x85, 0x2028, 0x2029]

/-- `str.splitlines`, with the part of a line read so far. -/
def splitlinesFrom (line : List Char) : List Char → List (List Char)
  | [] => if line.isEmpty then [] else [line]
  | '\r' :: '\n' :: rest => line :: splitlinesFrom [] rest
  | c :: rest =>
    if isLineBreak c then line :: splitlinesFrom [] rest else splitlinesFrom (line ++ [c]) rest

/-- `str.splitlines`. -/
def splitlines (text : List Char) : List (List Char) := splitlinesFrom [] text

inductive OpcodeTag
  | equal
  | replace
  | delete
  | insert
deriving DecidableEq, Repr

/-- An entry of `get_opcodes`. -/
structure Opcode where
  tag : OpcodeTag
  i1 : Nat
  i2 : Nat
  j1 : Nat
  j2 : Nat
deriving DecidableEq, Repr

/-- The opcodes go over two sequences from `i` and `j` on to their ends. -/
def Partition (lenA lenB : Nat) : Nat → Nat → List Opcode → Prop
  | i, j, [] => i = lenA ∧ j = lenB
  | i, j, op :: rest =>
    op.i1 = i ∧ op.j1 = j ∧ i ≤ op.i2 ∧ j ≤ op.j2 ∧
      (match op.tag with
        | .equal => op.i2 - i = op.j2 - j
        | .replace => True
        | .delete => op.j2 = j
        | .insert => op.i2 = i) ∧
      Partition lenA lenB op.i2 op.j2 rest

/-- `difflib.SequenceMatcher(None, a, b, autojunk=False)`. -/
structure SequenceMatcher where
  getOpcodes : List (List Char) → List (List Char) → List Opcode
  partition : ∀ a b, Partition a.length b.length 0 0 (getOpcodes a b)

/-- One pass of the loop of `line_stats`, over lines added and removed. -/
def countOpcode (counts : Nat × Nat) (op : Opcode) : Nat × Nat :=
  (if op.tag = .replace ∨ op.tag = .insert then counts.1 + (op.j2 - op.j1) else counts.1,
    if op.tag = .replace ∨ op.tag = .delete then counts.2 + (op.i2 - op.i1) else counts.2)

/-- `line_stats`: lines added and removed. -/
def lineStats (M : SequenceMatcher) (old new : List Char) : Nat × Nat :=
  if old = new then (0, 0)
  else (M.getOpcodes (splitlines old) (splitlines new)).foldl countOpcode (0, 0)

/-- `l[:n]`. -/
def sliceTo {α : Type} (l : List α) (n : ℤ) : List α :=
  if 0 ≤ n then l.take n.toNat else l.take (l.length - (-n).toNat)

section Shares

variable (weights : Dict UserId Nat) (total : Nat)

/-- `exact` of `_largest_remainder`. -/
def exactShares : Dict UserId ℚ :=
  let whole := weights.sum fun _ w => w
  weights.mapValues fun w => toDouble ((total * w : Nat) / ((if whole = 0 then 1 else whole : Nat) : ℚ))

/-- `shares` of `_largest_remainder`, before the leftover is given out. -/
def floorShares : Dict UserId Nat := (exactShares weights total).mapValues fun v => ⌊v⌋.toNat

/-- What the rounding down of a share has taken off; doubles subtract exactly here. -/
def remainder (uid : UserId) : ℚ :=
  ((exactShares weights total).get? uid).getD 0 - (((floorShares weights total).get? uid).getD 0 : Nat)

/-- `shares[uid] += 1`. -/
def bump (shares : Dict UserId Nat) (uid : UserId) : Dict UserId Nat :=
  shares.set uid ((shares.get? uid).getD 0 + 1)

/-- `_largest_remainder`. -/
def largestRemainder : Dict UserId Nat :=
  let shares := floorShares weights total
  let leftover : ℤ := total - (shares.sum fun _ share => share : Nat)
  let order := (exactShares weights total).keys.mergeSort fun u v =>
    remainder weights total v ≤ remainder weights total u
  (sliceTo order leftover).foldl bump shares

/-- `zip(added.items(), removed.items(), strict=True)`, for dictionaries with the same keys. -/
def zipShares (added removed : List (UserId × Nat)) : List (UserId × (Nat × Nat)) :=
  List.zipWith (fun a r => (a.1, (a.2, r.2))) added removed

/-- `split_stats`. -/
def splitStats (weights : Dict UserId Nat) (added removed : Nat) : Dict UserId (Nat × Nat) :=
  match weights.items with
  | [] => ∅
  | [(uid, _)] => Dict.ofItems [(uid, (added, removed))]
  | _ => Dict.ofItems (zipShares (largestRemainder weights added).items
      (largestRemainder weights removed).items)

end Shares

/-! ## Lines -/

theorem foldl_countOpcode {ops : List Opcode} {lenA lenB i j : Nat} (h : Partition lenA lenB i j ops)
    (counts : Nat × Nat) :
    (ops.foldl countOpcode counts).1 + counts.2 + lenA + j =
      (ops.foldl countOpcode counts).2 + counts.1 + lenB + i := by
  induction ops generalizing i j counts with
  | nil =>
    obtain ⟨rfl, rfl⟩ := h
    rw [List.foldl_nil]
    omega
  | cons op rest ih =>
    obtain ⟨hi, hj, hi2, hj2, htag, hrest⟩ := h
    have hih := ih hrest (countOpcode counts op)
    rw [List.foldl_cons]
    -- one opcode adds as much to the difference as the positions move apart
    have hop : (countOpcode counts op).1 + counts.2 + op.i2 + j =
        (countOpcode counts op).2 + counts.1 + op.j2 + i := by
      unfold countOpcode
      cases hop : op.tag with
      | equal =>
        rw [hop] at htag
        simp only [reduceCtorEq, or_self, if_false]
        omega
      | replace =>
        simp only [reduceCtorEq, or_false, if_true]
        omega
      | delete =>
        rw [hop] at htag
        simp only [reduceCtorEq, or_self, if_false, or_true, if_true]
        omega
      | insert =>
        rw [hop] at htag
        simp only [reduceCtorEq, or_self, if_false, or_true, if_true]
        omega
    omega

/-- Lines added less lines removed is the change in the number of lines. -/
theorem lineStats_balance (M : SequenceMatcher) (old new : List Char) :
    (lineStats M old new).1 + (splitlines old).length =
      (lineStats M old new).2 + (splitlines new).length := by
  unfold lineStats
  split
  · next h => rw [h]
  · have hcount := foldl_countOpcode (M.partition (splitlines old) (splitlines new)) (0, 0)
    omega

/-! ## Shares -/

section Shares

variable {weights : Dict UserId Nat} {total added removed : Nat}

@[simp] theorem keys_exactShares : (exactShares weights total).keys = weights.keys := by
  simp [exactShares]

@[simp] theorem keys_floorShares : (floorShares weights total).keys = weights.keys := by
  simp [floorShares]

theorem bump_of_mem {shares : Dict UserId Nat} {uid : UserId} (h : uid ∈ shares.keys) :
    (bump shares uid).keys = shares.keys ∧
      ((bump shares uid).sum fun _ share => share) = (shares.sum fun _ share => share) + 1 := by
  obtain ⟨share, hshare⟩ := Dict.mem_keys_iff.1 h
  have hsum := Dict.sum_set_of_some (v := share + 1) (f := fun _ share => share) hshare
  constructor
  · exact Dict.keys_set_of_mem h
  · unfold bump
    rw [hshare, Option.getD_some]
    omega

theorem foldl_bump {uids : List UserId} {shares : Dict UserId Nat} (h : uids ⊆ shares.keys) :
    (uids.foldl bump shares).keys = shares.keys ∧
      ((uids.foldl bump shares).sum fun _ share => share) =
        (shares.sum fun _ share => share) + uids.length := by
  induction uids generalizing shares with
  | nil => simp
  | cons uid rest ih =>
    obtain ⟨hkeys, hsum⟩ := bump_of_mem (h List.mem_cons_self)
    have hrest : rest ⊆ (bump shares uid).keys := by
      rw [hkeys]
      exact fun u hu => h (List.mem_cons_of_mem _ hu)
    obtain ⟨hkeys', hsum'⟩ := ih hrest
    rw [List.foldl_cons, List.length_cons]
    constructor
    · exact hkeys'.trans hkeys
    · omega

theorem sliceTo_subset {α : Type} (l : List α) (n : ℤ) : sliceTo l n ⊆ l := by
  unfold sliceTo
  split <;> exact List.take_subset _ _

theorem length_sliceTo {α : Type} {l : List α} {n : Nat} (h : n ≤ l.length) :
    (sliceTo l n).length = n := by
  rw [sliceTo, if_pos (Int.natCast_nonneg n), Int.toNat_natCast, List.length_take]
  exact Nat.min_eq_left h

theorem sliceTo_eq_nil {α : Type} {l : List α} {n : ℤ} (hn : n < 0) (h : l.length ≤ (-n).toNat) :
    sliceTo l n = [] := by
  rw [sliceTo, if_neg (not_le.2 hn), Nat.sub_eq_zero_of_le h, List.take_zero]

theorem sliceTo_order_subset (le : UserId → UserId → Bool) (n : ℤ) :
    sliceTo ((exactShares weights total).keys.mergeSort le) n ⊆ (floorShares weights total).keys := by
  intro uid huid
  simpa using sliceTo_subset _ _ huid

@[simp] theorem keys_largestRemainder : (largestRemainder weights total).keys = weights.keys :=
  ((foldl_bump (sliceTo_order_subset _ _)).1).trans keys_floorShares

theorem sum_quotients (total whole : Nat) (items : List (UserId × Nat)) :
    (items.map fun item => ((total * item.2 : Nat) : ℚ) / whole).sum =
      (total : ℚ) * ((items.map fun item => item.2).sum : Nat) / whole := by
  induction items with
  | nil => simp
  | cons item rest ih =>
    rw [List.map_cons, List.sum_cons, ih, List.map_cons, List.sum_cons]
    push_cast
    ring

/-- A share is rounded down by less than one, and up by one part in `2 ^ 53` at most. -/
theorem floor_bounds {whole w : Nat} (htotal : total < 2 ^ 53) (hwhole : 0 < whole) (hw : w ≤ whole) :
    ((⌊toDouble ((total * w : Nat) / (whole : ℚ))⌋.toNat : Nat) : ℚ) ≤
        ((total * w : Nat) : ℚ) / whole + ((total * w : Nat) : ℚ) / whole / 2 ^ 53 ∧
      ((total * w : Nat) : ℚ) / whole ≤
        (⌊toDouble ((total * w : Nat) / (whole : ℚ))⌋.toNat : Nat) + 1 := by
  generalize hx : ((total * w : Nat) : ℚ) / whole = x
  have hwhole' : (0 : ℚ) < whole := by exact_mod_cast hwhole
  have hnonneg : 0 ≤ x := by
    rw [← hx]
    positivity
  have hle : x ≤ total := by
    rw [← hx, div_le_iff₀ hwhole']
    exact_mod_cast Nat.mul_le_mul_left total hw
  have hlt : x < 2 ^ 53 := hle.trans_lt (by exact_mod_cast htotal)
  have hfloor : ((⌊toDouble x⌋.toNat : Nat) : ℤ) = ⌊toDouble x⌋ :=
    Int.toNat_of_nonneg (Int.floor_nonneg.2 (toDouble_nonneg hnonneg))
  have hcast : ((⌊toDouble x⌋.toNat : Nat) : ℚ) = (⌊toDouble x⌋ : ℚ) := by
    exact_mod_cast congrArg (Int.cast (R := ℚ)) hfloor
  constructor
  · rw [hcast]
    exact (Int.floor_le _).trans (toDouble_le hnonneg)
  · -- the integer below the share is still below the double
    have hbelow : ((⌊x⌋.toNat : Nat) : ℚ) ≤ toDouble x := by
      apply natCast_le_toDouble _ hlt
      have hcastx : ((⌊x⌋.toNat : Nat) : ℤ) = ⌊x⌋ := Int.toNat_of_nonneg (Int.floor_nonneg.2 hnonneg)
      calc ((⌊x⌋.toNat : Nat) : ℚ) = (⌊x⌋ : ℚ) := by exact_mod_cast congrArg (Int.cast (R := ℚ)) hcastx
        _ ≤ x := Int.floor_le x
    have hint : ⌊x⌋ ≤ ⌊toDouble x⌋ := by
      rw [Int.le_floor]
      refine le_trans ?_ hbelow
      exact_mod_cast Int.self_le_toNat ⌊x⌋
    rw [hcast]
    have hone : (⌊x⌋ : ℚ) ≤ ⌊toDouble x⌋ := by exact_mod_cast hint
    have hnext := Int.lt_floor_add_one x
    linarith

/-- What is left over after rounding down is not negative, and one for each author is enough. -/
theorem sum_floors {items : List (UserId × Nat)} {whole : Nat} (htotal : total < 2 ^ 53)
    (hwhole : 0 < whole) (hsum : (items.map fun item => item.2).sum = whole) :
    (items.map fun item => ⌊toDouble ((total * item.2 : Nat) / (whole : ℚ))⌋.toNat).sum ≤ total ∧
      total ≤ (items.map fun item => ⌊toDouble ((total * item.2 : Nat) / (whole : ℚ))⌋.toNat).sum +
        items.length := by
  have hle : ∀ item ∈ items, item.2 ≤ whole := by
    intro item hitem
    rw [← hsum]
    exact List.single_le_sum (fun _ _ => Nat.zero_le _) _ (List.mem_map_of_mem hitem)
  have hbounds : ∀ l : List (UserId × Nat), l ⊆ items →
      (((l.map fun item => ⌊toDouble ((total * item.2 : Nat) / (whole : ℚ))⌋.toNat).sum : Nat) : ℚ) ≤
          (l.map fun item => ((total * item.2 : Nat) : ℚ) / whole).sum +
            (l.map fun item => ((total * item.2 : Nat) : ℚ) / whole).sum / 2 ^ 53 ∧
        (l.map fun item => ((total * item.2 : Nat) : ℚ) / whole).sum ≤
          ((l.map fun item => ⌊toDouble ((total * item.2 : Nat) / (whole : ℚ))⌋.toNat).sum : Nat) +
            l.length := by
    intro l
    induction l with
    | nil => simp
    | cons item rest ih =>
      intro hsub
      obtain ⟨hupper, hlower⟩ := ih fun i hi => hsub (List.mem_cons_of_mem _ hi)
      obtain ⟨hup, hlow⟩ := floor_bounds htotal hwhole (hle item (hsub List.mem_cons_self))
      simp only [List.map_cons, List.sum_cons, List.length_cons, Nat.cast_add, Nat.cast_one]
      constructor
      · linarith
      · linarith
  obtain ⟨hupper, hlower⟩ := hbounds items (List.Subset.refl _)
  have hwhole' : (whole : ℚ) ≠ 0 := by exact_mod_cast hwhole.ne'
  have htotal' : (total : ℚ) < 2 ^ 53 := by exact_mod_cast htotal
  rw [sum_quotients, hsum, mul_div_assoc, div_self hwhole', mul_one] at hupper hlower
  constructor
  · -- the sum is below the total plus one
    have hlt : (((items.map fun item =>
        ⌊toDouble ((total * item.2 : Nat) / (whole : ℚ))⌋.toNat).sum : Nat) : ℚ) < total + 1 := by
      linarith
    exact Nat.lt_succ_iff.1 (by exact_mod_cast hlt)
  · exact_mod_cast hlower

/-- **The shares add up.** -/
theorem sum_largestRemainder (htotal : total < 2 ^ 53) (hpos : 0 < weights.sum fun _ w => w) :
    ((largestRemainder weights total).sum fun _ share => share) = total := by
  have hfloor : ((floorShares weights total).sum fun _ share => share) =
      (weights.items.map fun item =>
        ⌊toDouble ((total * item.2 : Nat) / ((weights.sum fun _ w => w : Nat) : ℚ))⌋.toNat).sum := by
    rw [floorShares, exactShares, Dict.sum_mapValues, Dict.sum_mapValues, if_neg hpos.ne']
    rfl
  have hsum : (weights.items.map fun item => item.2).sum = weights.sum fun _ w => w := rfl
  obtain ⟨hle, hge⟩ := sum_floors htotal hpos hsum
  rw [← hfloor] at hle hge
  have hleftover : (total : ℤ) - ((floorShares weights total).sum fun _ share => share : Nat) =
      (total - (floorShares weights total).sum fun _ share => share : Nat) := by
    omega
  have hlength : (exactShares weights total).keys.length = weights.items.length := by
    rw [keys_exactShares, Dict.keys, List.length_map]
  refine ((foldl_bump (sliceTo_order_subset _ _)).2).trans ?_
  rw [hleftover, length_sliceTo]
  · omega
  · rw [List.length_mergeSort]
    omega

theorem zipShares_keys_and_sum {as rs : List (UserId × Nat)} (h : as.length = rs.length) :
    (zipShares as rs).map Prod.fst = as.map Prod.fst ∧
      ((zipShares as rs).map fun item => item.2).sum =
        ((as.map fun item => item.2).sum, (rs.map fun item => item.2).sum) := by
  induction as generalizing rs with
  | nil =>
    cases rs with
    | nil => exact ⟨rfl, rfl⟩
    | cons r rs => cases h
  | cons a as ih =>
    cases rs with
    | nil => cases h
    | cons r rs =>
      obtain ⟨hkeys, hsum⟩ := ih (Nat.succ.inj h)
      constructor
      · simp only [zipShares, List.zipWith_cons_cons, List.map_cons]
        exact congrArg _ hkeys
      · simp only [zipShares, List.zipWith_cons_cons, List.map_cons, List.sum_cons]
        exact congrArg _ hsum

/-- The dictionaries that `split_stats` zips have the same keys. -/
theorem length_largestRemainder (added removed : Nat) :
    (largestRemainder weights added).items.length =
      (largestRemainder weights removed).items.length := by
  have hkeys : (largestRemainder weights added).keys = (largestRemainder weights removed).keys := by
    rw [keys_largestRemainder, keys_largestRemainder]
  simpa [Dict.keys] using congrArg List.length hkeys

theorem items_ofItems_zipShares :
    (Dict.ofItems (zipShares (largestRemainder weights added).items
      (largestRemainder weights removed).items)).items =
        zipShares (largestRemainder weights added).items (largestRemainder weights removed).items := by
  apply Dict.items_ofItems
  rw [(zipShares_keys_and_sum (length_largestRemainder added removed)).1]
  exact (largestRemainder weights added).nodup

/-- Only authors get shares. -/
theorem keys_splitStats : (splitStats weights added removed).keys = weights.keys := by
  unfold splitStats
  split
  · next h => simp [Dict.keys, h]
  · next uid w h => simp [Dict.keys, h, Dict.items_ofItems]
  · rw [Dict.keys, items_ofItems_zipShares,
      (zipShares_keys_and_sum (length_largestRemainder added removed)).1]
    exact keys_largestRemainder

/-- What the shares of several authors add up to. -/
theorem sum_splitStats_of_several (h : 1 < weights.items.length) :
    ((splitStats weights added removed).sum fun _ share => share) =
      ((largestRemainder weights added).sum fun _ share => share,
        (largestRemainder weights removed).sum fun _ share => share) := by
  unfold splitStats
  split
  · next hnil => simp [hnil] at h
  · next hone => simp [hone] at h
  · rw [Dict.sum, items_ofItems_zipShares]
    exact (zipShares_keys_and_sum (length_largestRemainder added removed)).2

/-- **The shares add up to the counts**, for one author always, and for several below `2 ^ 53`. -/
theorem sum_splitStats (hpos : 0 < weights.sum fun _ w => w)
    (h : weights.items.length ≤ 1 ∨ added < 2 ^ 53 ∧ removed < 2 ^ 53) :
    ((splitStats weights added removed).sum fun _ share => share) = (added, removed) := by
  by_cases hseveral : 1 < weights.items.length
  · have hbound := h.resolve_left (Nat.not_le.2 hseveral)
    rw [sum_splitStats_of_several hseveral, sum_largestRemainder hbound.1 hpos,
      sum_largestRemainder hbound.2 hpos]
  · unfold splitStats
    split
    · next hnil => simp [Dict.sum, hnil] at hpos
    · simp [Dict.sum, Dict.items_ofItems]
    · next hnil hone =>
      rcases hitems : weights.items with _ | ⟨⟨uid, w⟩, _ | ⟨item, rest⟩⟩
      · exact absurd hitems hnil
      · exact absurd hitems (hone uid w)
      · simp [hitems] at hseveral

end Shares

end Concord
