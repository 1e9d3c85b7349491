import Concord.Base.Apportion
import Concord.Realtime.Changes

/-!
# Fair shares

`split_stats` of `realtime/changes.py` with its divisions taken over the rationals. What it does with the
quotas is the same as over doubles (`largestRemainder_eq`); with exact ones the shares add up to the
counts whatever these are, each is its quota rounded down or up, and more typing never counts for less.
-/

namespace Concord

open Concord.Base

/-- What `int(…)` has taken off a quota. -/
def lost (exact : Dict UserId ℚ) (uid : UserId) : ℚ :=
  (exact.get? uid).getD 0 - (((exact.mapValues fun v => ⌊v⌋.toNat).get? uid).getD 0 : Nat)

/-- `_largest_remainder`, from `exact` on. -/
def apportion (exact : Dict UserId ℚ) (total : Nat) : Dict UserId Nat :=
  let shares := exact.mapValues fun v => ⌊v⌋.toNat
  let leftover : ℤ := total - (shares.sum fun _ share => share : Nat)
  let order := exact.keys.mergeSort fun u v => lost exact v ≤ lost exact u
  (sliceTo order leftover).foldl bump shares

/-- With doubles for the quotas this is the function as it stands. -/
theorem largestRemainder_eq (weights : Dict UserId Nat) (total : Nat) :
    largestRemainder weights total = apportion (exactShares weights total) total := rfl

/-- `exact` of `_largest_remainder`, over the rationals. -/
def quotas (weights : Dict UserId Nat) (total : Nat) : Dict UserId ℚ :=
  let whole := weights.sum fun _ w => w
  weights.mapValues fun w => (total * w : Nat) / ((if whole = 0 then 1 else whole : Nat) : ℚ)

/-- `split_stats`, over the rationals. -/
def splitStatsExact (weights : Dict UserId Nat) (added removed : Nat) : Dict UserId (Nat × Nat) :=
  match weights.items with
  | [] => ∅
  | [(uid, _)] => Dict.ofItems [(uid, (added, removed))]
  | _ => Dict.ofItems (zipShares (apportion (quotas weights added) added).items
      (apportion (quotas weights removed) removed).items)

/-! ## What the last loop adds -/

theorem get?_bump {shares : Dict UserId Nat} {uid u : UserId} (h : uid ∈ shares.keys) :
    (bump shares uid).get? u = (shares.get? u).map (· + if u = uid then 1 else 0) := by
  obtain ⟨n, hn⟩ := Dict.mem_keys_iff.1 h
  unfold bump
  rw [hn, Dict.get?_set]
  split
  · next heq => rw [heq, hn]; rfl
  · simp

theorem get?_foldl_bump {uids : List UserId} {shares : Dict UserId Nat} (hnodup : uids.Nodup)
    (h : uids ⊆ shares.keys) (u : UserId) :
    (uids.foldl bump shares).get? u = (shares.get? u).map (· + if u ∈ uids then 1 else 0) := by
  induction uids generalizing shares with
  | nil => simp
  | cons uid rest ih =>
    obtain ⟨hnew, hnodup⟩ := List.nodup_cons.1 hnodup
    have hmem : uid ∈ shares.keys := h List.mem_cons_self
    have hrest : rest ⊆ (bump shares uid).keys := by
      rw [(bump_of_mem hmem).1]
      exact fun v hv => h (List.mem_cons_of_mem _ hv)
    rw [List.foldl_cons, ih hnodup hrest, get?_bump hmem, Option.map_map]
    congr 1
    funext n
    simp only [Function.comp_apply, List.mem_cons]
    by_cases heq : u = uid
    · subst heq
      simp [hnew]
    · simp [heq]

/-! ## Giving out a column -/

/-- The quota of an author, and nothing for others. -/
def quota (exact : Dict UserId ℚ) (uid : UserId) : ℚ := (exact.get? uid).getD 0

/-- The authors, those who lost most first. -/
def ranking (exact : Dict UserId ℚ) : List UserId :=
  exact.keys.mergeSort fun u v => lost exact v ≤ lost exact u

section Column

variable {exact : Dict UserId ℚ} {total : Nat}

theorem lost_eq (uid : UserId) : lost exact uid = excess (quota exact uid) := by
  unfold lost excess quota
  rw [Dict.get?_mapValues]
  cases exact.get? uid with
  | none => simp
  | some v => simp [Int.floor_toNat]

theorem ranked_ranking : Ranked (quota exact) (ranking exact) := by
  have hsorted : (ranking exact).Pairwise fun u v => decide (lost exact v ≤ lost exact u) = true := by
    apply List.pairwise_mergeSort
    · intro a b c hab hbc
      exact decide_eq_true ((of_decide_eq_true hbc).trans (of_decide_eq_true hab))
    · intro a b
      rw [Bool.or_eq_true, decide_eq_true_eq, decide_eq_true_eq]
      exact le_total _ _
  apply hsorted.imp
  intro a b hab
  rw [← lost_eq, ← lost_eq]
  exact of_decide_eq_true hab

theorem perm_ranking : (ranking exact).Perm exact.keys := List.mergeSort_perm _ _

theorem quota_of_mem {item : UserId × ℚ} (h : item ∈ exact.items) : quota exact item.1 = item.2 := by
  rw [quota, Dict.mem_items_iff.1 h, Option.getD_some]

/-- A sum over the authors in the order of the ranking. -/
theorem sum_ranking {M : Type} [AddCommMonoid M] (f : ℚ → M) :
    ((ranking exact).map fun uid => f (quota exact uid)).sum = exact.sum fun _ v => f v := by
  have hkeys : (exact.keys.map fun uid => f (quota exact uid)) =
      exact.items.map fun item => f item.2 := by
    unfold Dict.keys
    rw [List.map_map]
    apply List.map_congr_left
    intro item hitem
    exact congrArg f (quota_of_mem hitem)
  rw [(perm_ranking.map _).sum_eq, hkeys]
  rfl

/-- The sum of the shares before the leftover is given out. -/
theorem sum_floors_eq : ((exact.mapValues fun v => ⌊v⌋.toNat).sum fun _ share => share) =
    ((ranking exact).map fun uid => ⌊quota exact uid⌋₊).sum := by
  rw [Dict.sum_mapValues, sum_ranking fun v => ⌊v⌋₊]
  simp only [Int.floor_toNat]

theorem quota_nonneg (h : ∀ item ∈ exact.items, 0 ≤ item.2) (uid : UserId) : 0 ≤ quota exact uid := by
  unfold quota
  cases hget : exact.get? uid with
  | none => exact le_refl 0
  | some v => exact h (uid, v) (Dict.mem_items_iff.2 hget)

/-- What one column gives out: `n` authors get one more than their quota rounded down, those who lost
most, and this makes up the total. -/
theorem apportion_spec (hnonneg : ∀ item ∈ exact.items, 0 ≤ item.2)
    (hsum : (exact.sum fun _ v => v) = total) :
    ∃ n : Nat, n ≤ (ranking exact).length ∧
      (n : ℚ) = ((ranking exact).map fun uid => excess (quota exact uid)).sum ∧
      (apportion exact total).keys = exact.keys ∧
      ((apportion exact total).sum fun _ share => share) = total ∧
      ∀ uid, (apportion exact total).get? uid =
        (exact.get? uid).map fun _ => shareOf (quota exact) (ranking exact) n uid := by
  have htotal : ((ranking exact).map (quota exact)).sum = total := (sum_ranking fun v => v).trans hsum
  obtain ⟨n, hfloors, hlength, hlost⟩ := leftover_spec (fun uid _ => quota_nonneg hnonneg uid) htotal
  have hslice : sliceTo (ranking exact)
      (total - ((exact.mapValues fun v => ⌊v⌋.toNat).sum fun _ share => share : Nat)) =
        (ranking exact).take n := by
    have hleftover : (total : ℤ) - ((exact.mapValues fun v => ⌊v⌋.toNat).sum fun _ share => share : Nat) =
        (n : ℤ) := by
      rw [sum_floors_eq]
      omega
    rw [hleftover, sliceTo, if_pos (Int.natCast_nonneg n), Int.toNat_natCast]
  have hfold : apportion exact total =
      ((ranking exact).take n).foldl bump (exact.mapValues fun v => ⌊v⌋.toNat) := by
    rw [← hslice]
    rfl
  have hsub : (ranking exact).take n ⊆ (exact.mapValues fun v => ⌊v⌋.toNat).keys := by
    intro uid huid
    rw [Dict.keys_mapValues]
    exact perm_ranking.mem_iff.1 (List.mem_of_mem_take huid)
  have hnodup : ((ranking exact).take n).Nodup :=
    (perm_ranking.nodup_iff.2 exact.nodup_keys).sublist (List.take_sublist n _)
  obtain ⟨hkeys, hadded⟩ := foldl_bump hsub
  refine ⟨n, hlength, hlost, ?_, ?_, ?_⟩
  · rw [hfold, hkeys, Dict.keys_mapValues]
  · rw [hfold, hadded, sum_floors_eq, List.length_take, Nat.min_eq_left hlength]
    exact hfloors.symm
  · intro uid
    rw [hfold, get?_foldl_bump hnodup hsub, Dict.get?_mapValues]
    unfold shareOf quota
    cases exact.get? uid with
    | none => rfl
    | some v => simp [Int.floor_toNat]

end Column

/-! ## The quotas of a window -/

section Window

variable {weights : Dict UserId Nat} {total added removed : Nat}

@[simp] theorem keys_quotas : (quotas weights total).keys = weights.keys := by
  simp [quotas]

theorem get?_quotas (uid : UserId) (hpos : 0 < weights.sum fun _ w => w) :
    (quotas weights total).get? uid = (weights.get? uid).map fun w =>
      ((total * w : Nat) : ℚ) / (weights.sum fun _ w => w : Nat) := by
  unfold quotas
  dsimp only
  rw [Dict.get?_mapValues, if_neg hpos.ne']

theorem quotas_nonneg : ∀ item ∈ (quotas weights total).items, 0 ≤ item.2 := by
  intro item hitem
  obtain ⟨w, -, rfl⟩ := List.mem_map.1 hitem
  positivity

/-- The quotas add up to what is given out. -/
theorem sum_quotas (hpos : 0 < weights.sum fun _ w => w) :
    ((quotas weights total).sum fun _ v => v) = total := by
  have hsum := sum_quotients total (weights.sum fun _ w => w) weights.items
  have hwhole : ((weights.sum fun _ w => w : Nat) : ℚ) ≠ 0 := by exact_mod_cast hpos.ne'
  have hitems : (weights.items.map fun item => item.2).sum = weights.sum fun _ w => w := rfl
  rw [hitems, mul_div_assoc, div_self hwhole, mul_one] at hsum
  unfold quotas
  dsimp only
  rw [Dict.sum_mapValues, if_neg hpos.ne', ← hsum]
  rfl

/-- A column is fair: its shares add up, are quotas rounded down or up, and follow the weights. -/
structure FairColumn (weights : Dict UserId Nat) (total : Nat) (shares : Dict UserId Nat) : Prop where
  keys : shares.keys = weights.keys
  sum : (shares.sum fun _ share => share) = total
  rounded : ∀ uid w share, weights.get? uid = some w → shares.get? uid = some share →
    Rounded (((total * w : Nat) : ℚ) / (weights.sum fun _ w => w : Nat)) share
  mono : ∀ u v w w' share share', weights.get? u = some w → weights.get? v = some w' →
    shares.get? u = some share → shares.get? v = some share' → w < w' → share ≤ share'

theorem fairColumn_apportion (hpos : 0 < weights.sum fun _ w => w) :
    FairColumn weights total (apportion (quotas weights total) total) := by
  obtain ⟨n, hlength, hlost, hkeys, hsum, hget⟩ := apportion_spec quotas_nonneg (sum_quotas hpos)
  have hquota : ∀ uid w, weights.get? uid = some w → quota (quotas weights total) uid =
      ((total * w : Nat) : ℚ) / (weights.sum fun _ w => w : Nat) := by
    intro uid w hw
    rw [quota, get?_quotas uid hpos, hw, Option.map_some, Option.getD_some]
  have hshare : ∀ uid w share, weights.get? uid = some w →
      (apportion (quotas weights total) total).get? uid = some share →
      share = shareOf (quota (quotas weights total)) (ranking (quotas weights total)) n uid := by
    intro uid w share hw hs
    rw [hget uid, get?_quotas uid hpos, hw] at hs
    exact (Option.some.inj hs).symm
  have hrounded : ∀ uid w share, weights.get? uid = some w →
      (apportion (quotas weights total) total).get? uid = some share →
      Rounded (((total * w : Nat) : ℚ) / (weights.sum fun _ w => w : Nat)) share := by
    intro uid w share hw hs
    rw [← hquota uid w hw, hshare uid w share hw hs]
    exact rounded_shareOf ranked_ranking hlength hlost uid
  refine ⟨hkeys.trans keys_quotas, hsum, hrounded, ?_⟩
  intro u v w w' share share' hw hw' hs hs' hlt
  rcases Nat.eq_zero_or_pos total with rfl | htotal
  · -- nothing is given out
    have hzero := hrounded u w share hw hs
    rw [Nat.zero_mul, Nat.cast_zero, zero_div] at hzero
    rcases hzero with hzero | hzero
    · simp [hzero]
    · simp [hzero]
  · rw [hshare u w share hw hs, hshare v w' share' hw' hs']
    apply shareOf_mono ranked_ranking
    · apply perm_ranking.mem_iff.2
      rw [keys_quotas]
      exact Dict.mem_keys_iff.2 ⟨w', hw'⟩
    · rw [hquota u w hw, hquota v w' hw']
      apply div_lt_div_of_pos_right
      · exact_mod_cast Nat.mul_lt_mul_of_pos_left hlt htotal
      · exact_mod_cast hpos

theorem mem_zipShares {as rs : List (UserId × Nat)} (h : as.map Prod.fst = rs.map Prod.fst)
    {uid : UserId} {share : Nat × Nat} (hmem : (uid, share) ∈ zipShares as rs) :
    (uid, share.1) ∈ as ∧ (uid, share.2) ∈ rs := by
  induction as generalizing rs with
  | nil => cases hmem
  | cons a as ih =>
    cases rs with
    | nil => cases hmem
    | cons r rs =>
      obtain ⟨hhead, htail⟩ := List.cons.inj h
      rcases List.mem_cons.1 hmem with heq | hmem
      · obtain ⟨rfl, rfl⟩ := Prod.mk.inj heq
        exact ⟨List.mem_cons_self, hhead ▸ List.mem_cons_self⟩
      · obtain ⟨ha, hr⟩ := ih htail hmem
        exact ⟨List.mem_cons_of_mem _ ha, List.mem_cons_of_mem _ hr⟩

/-- Two fair columns zipped. -/
theorem fair_of_columns {as rs : Dict UserId Nat} (ha : FairColumn weights added as)
    (hr : FairColumn weights removed rs) :
    (Dict.ofItems (zipShares as.items rs.items)).keys = weights.keys ∧
      ((Dict.ofItems (zipShares as.items rs.items)).sum fun _ share => share) = (added, removed) ∧
      ∀ uid share, (Dict.ofItems (zipShares as.items rs.items)).get? uid = some share →
        as.get? uid = some share.1 ∧ rs.get? uid = some share.2 := by
  have hsame : as.items.map Prod.fst = rs.items.map Prod.fst := ha.keys.trans hr.keys.symm
  have hlength : as.items.length = rs.items.length := by
    simpa using congrArg List.length hsame
  obtain ⟨hkeys, hsum⟩ := zipShares_keys_and_sum hlength
  have hitems : (Dict.ofItems (zipShares as.items rs.items)).items = zipShares as.items rs.items := by
    apply Dict.items_ofItems
    rw [hkeys]
    exact as.nodup
  refine ⟨?_, ?_, ?_⟩
  · rw [Dict.keys, hitems, hkeys]
    exact ha.keys
  · rw [Dict.sum, hitems, hsum]
    exact congrArg₂ Prod.mk ha.sum hr.sum
  · intro uid share hget
    rw [← Dict.mem_items_iff, hitems] at hget
    obtain ⟨hadded, hremoved⟩ := mem_zipShares hsame hget
    exact ⟨Dict.mem_items_iff.1 hadded, Dict.mem_items_iff.1 hremoved⟩

theorem items_ofItems_one {V : Type} (uid : UserId) (v : V) :
    (Dict.ofItems [(uid, v)]).items = [(uid, v)] :=
  Dict.items_ofItems (List.nodup_singleton uid)

/-- A column of one author. -/
theorem fairColumn_one {uid : UserId} {w : Nat} (hone : weights.items = [(uid, w)]) (hw : 0 < w) :
    FairColumn weights total (Dict.ofItems [(uid, total)]) := by
  have hitems := items_ofItems_one uid total
  have hweight : ∀ u v, weights.get? u = some v → u = uid ∧ v = w := by
    intro u v hget
    rw [← Dict.mem_items_iff, hone, List.mem_singleton] at hget
    exact Prod.mk.inj hget
  have hwhole : (weights.sum fun _ w => w) = w := by
    rw [Dict.sum, hone]
    exact Nat.add_zero w
  refine ⟨?_, ?_, ?_, ?_⟩
  · rw [Dict.keys, Dict.keys, hitems, hone]
    rfl
  · rw [Dict.sum, hitems]
    exact Nat.add_zero total
  · intro u v share hv hs
    obtain ⟨rfl, rfl⟩ := hweight u v hv
    rw [← Dict.mem_items_iff, hitems, List.mem_singleton] at hs
    obtain ⟨-, rfl⟩ := Prod.mk.inj hs
    have hne : (v : ℚ) ≠ 0 := by exact_mod_cast hw.ne'
    left
    rw [hwhole, Nat.cast_mul, mul_div_assoc, div_self hne, mul_one, Nat.floor_natCast]
  · intro u v x x' _ _ hx hx' _ _ hlt
    have heq := (hweight u x hx).2.trans (hweight v x' hx').2.symm
    omega

/-- **Shares are fair and exact**: each author has a share and nobody else, the shares add up to the
counts, each is the quota rounded down or up, and a larger weight never has a smaller share. -/
theorem split_stats_fair (weights : Dict UserId Nat) (hauthors : weights.items ≠ [])
    (hpositive : ∀ item ∈ weights.items, 0 < item.2) (added removed : Nat) :
    (splitStatsExact weights added removed).keys = weights.keys ∧
      ((splitStatsExact weights added removed).sum fun _ share => share) = (added, removed) ∧
      (∀ uid w share, weights.get? uid = some w →
        (splitStatsExact weights added removed).get? uid = some share →
        Rounded (((added * w : Nat) : ℚ) / (weights.sum fun _ w => w : Nat)) share.1 ∧
          Rounded (((removed * w : Nat) : ℚ) / (weights.sum fun _ w => w : Nat)) share.2) ∧
      ∀ u v w w' share share', weights.get? u = some w → weights.get? v = some w' →
        (splitStatsExact weights added removed).get? u = some share →
        (splitStatsExact weights added removed).get? v = some share' →
        w < w' → share.1 ≤ share'.1 ∧ share.2 ≤ share'.2 := by
  have hpos : 0 < weights.sum fun _ w => w := by
    obtain ⟨item, rest, hitems⟩ := List.exists_cons_of_ne_nil hauthors
    have hitem := hpositive item (hitems ▸ List.mem_cons_self)
    rw [Dict.sum, hitems, List.map_cons, List.sum_cons]
    omega
  -- the shares come in two fair columns
  obtain ⟨as, rs, ha, hr, heq⟩ : ∃ as rs, FairColumn weights added as ∧ FairColumn weights removed rs ∧
      splitStatsExact weights added removed = Dict.ofItems (zipShares as.items rs.items) := by
    unfold splitStatsExact
    split
    · next hnil => exact absurd hnil hauthors
    · next uid w hone =>
      have hw := hpositive (uid, w) (hone ▸ List.mem_cons_self)
      refine ⟨_, _, fairColumn_one hone hw, fairColumn_one hone hw, ?_⟩
      rw [items_ofItems_one, items_ofItems_one]
      rfl
    · exact ⟨_, _, fairColumn_apportion hpos, fairColumn_apportion hpos, rfl⟩
  obtain ⟨hkeys, hsum, hget⟩ := fair_of_columns ha hr
  rw [heq]
  refine ⟨hkeys, hsum, ?_, ?_⟩
  · intro uid w share hw hs
    obtain ⟨hadded, hremoved⟩ := hget uid share hs
    exact ⟨ha.rounded uid w _ hw hadded, hr.rounded uid w _ hw hremoved⟩
  · intro u v w w' share share' hw hw' hs hs' hlt
    obtain ⟨hadded, hremoved⟩ := hget u share hs
    obtain ⟨hadded', hremoved'⟩ := hget v share' hs'
    exact ⟨ha.mono u v w w' _ _ hw hw' hadded hadded' hlt,
      hr.mono u v w w' _ _ hw hw' hremoved hremoved' hlt⟩

/-- Three authors who typed one, two and four bytes, of ten lines added and one removed. -/
theorem split_stats_fair_three :
    ((splitStatsExact (Dict.ofItems [(1, 1), (2, 2), (3, 4)]) 10 1).sum fun _ share => share) = (10, 1) :=
  (split_stats_fair (Dict.ofItems [(1, 1), (2, 2), (3, 4)]) (by decide) (by decide) 10 1).2.1

end Window

end Concord
