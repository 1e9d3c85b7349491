import Concord.Auth.Attempts
import Mathlib

/-!
# Guesses at an account's password

The limiter is meant to bound the guesses at an account: no more than `login_max_failures` wrong
passwords are verified from the first counted failure of its key to that key's expiry. It does as long as
a counter under which the account's failures stand is deleted by the account itself. Two accounts whose
usernames differ in case share a key, and a login to one deletes the counter of the other.

The invariant `Watched` is about one window: it is over, or the account has logged in, or each wrong
password in it stands under the counter that is there.
-/

namespace Concord.Auth

open Concord.Base

section Windows

variable (cfg : LoginSettings) (lib : Library) (k u : String)

namespace Attempt

variable (a : Attempt)

/-- A failure that was counted as the first one. -/
def opens : Bool := lib.key a.username == k && a.counted == some 1

/-- A wrong password for `u`'s account was verified. -/
def wrong : Bool := a.username == u && a.verified == some false

/-- A login to `u`'s account has succeeded. -/
def right : Bool := a.username == u && a.verified == some true

end Attempt

/-- The expiries that the key was given from its first counted failure on, up to the next one that was
counted as the first. -/
def expiries (first : Attempt) (rest : List Attempt) : List Nat :=
  ((first :: rest.takeWhile fun a => !a.opens lib k).filter fun a => lib.key a.username = k).filterMap
    Attempt.expiry

/-- The wrong passwords for `u` from the first counted failure until `w`. -/
def guesses (w : Nat) (first : Attempt) (rest : List Attempt) : Nat :=
  (first :: rest.filter fun a => a.time < w).countP (Attempt.wrong u)

/-- From a first counted failure of `u`'s key to the key's expiry, no more wrong passwords for `u` are
verified than are allowed, if no login to `u` succeeds in between. -/
def GuessesBounded (log : List Attempt) : Prop :=
  ∀ before first rest w, log = before ++ first :: rest → first.opens lib (lib.key u) = true →
    w ∈ expiries lib (lib.key u) first rest →
    (∀ a ∈ rest, a.time < w → a.right u = false) →
    (guesses u w first rest : Int) ≤ cfg.loginMaxFailures

/-- The wrong passwords for `u` since the last failure that was counted as the first. -/
def standing (log : List Attempt) : Nat :=
  log.foldl (fun n a =>
    (if a.opens lib (lib.key u) then 0 else n) + if a.wrong u then 1 else 0) 0

/-- The request is a login to another account with `u`'s key and the right password, and deletes a
counter under which wrong passwords for `u` stand. -/
def Turn.clears (s : Site) (turn : Turn) : Bool :=
  match turn.request with
  | .signup _ => false
  | .login payload =>
    payload.username != u && lib.key payload.username == lib.key u && payload.right lib s.users &&
      ((s.redis.get (lib.key u) (s.now + turn.elapsed 4)).any fun c =>
        c.count < cfg.loginMaxFailures) &&
      decide (0 < standing lib u s.log)

def Spares (s : Site) (turn : Turn) : Prop := turn.clears cfg lib u s = false

instance (s : Site) (turn : Turn) : Decidable (Spares cfg lib u s turn) :=
  inferInstanceAs (Decidable (_ = _))

end Windows

section Windows

variable {cfg : LoginSettings} {lib : Library} {k u : String} {w : Nat} {first a : Attempt}
  {before rest log : List Attempt}

theorem standing_concat :
    standing lib u (log ++ [a]) = (if a.opens lib (lib.key u) then 0 else standing lib u log) +
      if a.wrong u then 1 else 0 := by
  simp [standing]

theorem guesses_concat :
    guesses u w first (rest ++ [a]) =
      guesses u w first rest + if a.time < w ∧ a.wrong u = true then 1 else 0 := by
  unfold guesses
  rw [List.filter_append, ← List.cons_append, List.countP_append]
  congr 1
  by_cases htime : a.time < w
  · simp [htime, List.countP_singleton]
  · simp [htime]

/-- A window gets an expiry from the attempt that was made last, or had it before. -/
theorem mem_expiries_concat (h : w ∈ expiries lib k first (rest ++ [a])) :
    w ∈ expiries lib k first rest ∨
      (a.expiry = some w ∧ lib.key a.username = k ∧ a.opens lib k = false ∧
        ∀ b ∈ rest, b.opens lib k = false) := by
  unfold expiries at h ⊢
  rw [List.takeWhile_append] at h
  split at h
  · next hall =>
    have hself := (List.takeWhile_prefix fun a => !Attempt.opens lib k a).eq_of_length hall
    have hrest : ∀ b ∈ rest, b.opens lib k = false := by
      have hall' := List.all_takeWhile (p := fun a => !Attempt.opens lib k a) (l := rest)
      rw [hself] at hall'
      simpa using hall'
    rw [hself]
    cases hopens : a.opens lib k with
    | true =>
      rw [List.takeWhile_cons_of_neg (by simp [hopens]), List.append_nil] at h
      exact .inl h
    | false =>
      rw [List.takeWhile_cons_of_pos (by simp [hopens]), List.takeWhile_nil, ← List.cons_append,
        List.filter_append, List.filterMap_append, List.mem_append] at h
      rcases h with h | h
      · exact .inl h
      · obtain ⟨b, hb, hexpiry⟩ := List.mem_filterMap.1 h
        obtain ⟨hb, hkey⟩ := List.mem_filter.1 hb
        rw [List.mem_singleton] at hb
        subst hb
        exact .inr ⟨hexpiry, of_decide_eq_true hkey, rfl, hrest⟩
  · exact .inl h

/-- In the window that the last first failure has opened, all guesses stand. -/
theorem guesses_le_standing (hopens : first.opens lib (lib.key u) = true)
    (hrest : ∀ b ∈ rest, b.opens lib (lib.key u) = false) :
    guesses u w first rest ≤ standing lib u (before ++ first :: rest) := by
  induction rest using List.reverseRecOn with
  | nil =>
    rw [standing_concat, hopens]
    simp [guesses, List.countP_singleton]
  | append_singleton rest a ih =>
    rw [guesses_concat, ← List.cons_append, ← List.append_assoc, standing_concat,
      hrest a (List.mem_append_right _ (List.mem_singleton_self a))]
    have hle := ih fun b hb => hrest b (List.mem_append_left _ hb)
    have hwrong : (if a.time < w ∧ a.wrong u = true then 1 else 0) ≤ if a.wrong u then 1 else 0 := by
      split
      · next h => rw [if_pos h.2]
      · exact Nat.zero_le _
    exact Nat.add_le_add hle hwrong

variable {s t : Site} {turn : Turn}

/-- What is known of one window while the requests are served. -/
inductive Watched (cfg : LoginSettings) (lib : Library) (u : String) (s : Site) (w : Nat)
    (first : Attempt) (rest : List Attempt) : Prop
  | excused {a : Attempt} (ha : a ∈ rest) (htime : a.time < w) (hright : a.right u = true)
  | past (hw : w ≤ s.now) (hmax : (guesses u w first rest : Int) ≤ cfg.loginMaxFailures)
  | stands {c : Counter} (hc : s.redis (lib.key u) = some c) (hw : ∀ e, c.expiry = some e → w ≤ e)
      (hmax : guesses u w first rest ≤ standing lib u s.log)
  | unguessed (hnone : s.redis (lib.key u) = none) (hzero : guesses u w first rest = 0)

/-- The wrong passwords that stand are counted, and no more than are allowed. -/
def Counted (cfg : LoginSettings) (lib : Library) (u : String) (s : Site) : Prop :=
  ∀ c, s.redis (lib.key u) = some c →
    standing lib u s.log ≤ c.count ∧ (c.count : Int) ≤ cfg.loginMaxFailures

structure GuardInv (cfg : LoginSettings) (lib : Library) (u : String) (s : Site) : Prop where
  up : s.redisUp = true
  kept : Kept cfg s.redis
  counted : Counted cfg lib u s
  settings : ∀ a ∈ s.log, lib.key a.username = lib.key u → ∀ w, a.expiry = some w →
    0 < cfg.loginMaxFailures ∧ 0 < cfg.loginLockoutSeconds ∧
      w ≤ s.now + 1000 * cfg.loginLockoutSeconds.toNat
  windows : ∀ before first rest w, s.log = before ++ first :: rest →
    first.opens lib (lib.key u) = true → w ∈ expiries lib (lib.key u) first rest →
    Watched cfg lib u s w first rest

/-- An expiry of a window was set by an attempt on its key. -/
theorem exists_of_mem_expiries (h : w ∈ expiries lib k first rest) :
    ∃ a ∈ first :: rest, lib.key a.username = k ∧ a.expiry = some w := by
  obtain ⟨a, ha, hexpiry⟩ := List.mem_filterMap.1 h
  obtain ⟨ha, hkey⟩ := List.mem_filter.1 ha
  refine ⟨a, ?_, of_decide_eq_true hkey, hexpiry⟩
  rcases List.mem_cons.1 ha with rfl | ha
  · exact List.mem_cons_self
  · exact List.mem_cons_of_mem _ ((List.takeWhile_sublist _).subset ha)

theorem GuardInv.of_window (h : GuardInv cfg lib u s) (hlog : s.log = before ++ first :: rest)
    (hw : w ∈ expiries lib (lib.key u) first rest) :
    0 < cfg.loginMaxFailures ∧ 0 < cfg.loginLockoutSeconds ∧
      w ≤ s.now + 1000 * cfg.loginLockoutSeconds.toNat := by
  obtain ⟨a, ha, hkey, hexpiry⟩ := exists_of_mem_expiries hw
  refine h.settings a ?_ hkey w hexpiry
  rw [hlog]
  exact List.mem_append_right _ ha

theorem GuardInv.bounded (h : GuardInv cfg lib u s) : GuessesBounded cfg lib u s.log := by
  intro before first rest w hlog hopens hw hright
  cases h.windows before first rest w hlog hopens hw with
  | excused ha htime hsuccess => 
    rw [hright _ ha htime] at hsuccess
    cases hsuccess
  | past _ hmax => exact hmax
  | stands hc _ hmax =>
    obtain ⟨hcount, hle⟩ := h.counted _ hc
    omega
  | unguessed _ hzero =>
    have hpos := (h.of_window hlog hw).1
    omega

theorem Attempt.username_of_wrong (h : a.wrong u = true) :
    a.username = u ∧ a.verified = some false := by
  simpa [Attempt.wrong] using h

theorem Attempt.not_wrong (h : a.username = u → a.verified ≠ some false) : a.wrong u = false := by
  refine Bool.eq_false_iff.2 fun hwrong => ?_
  obtain ⟨husername, hverified⟩ := Attempt.username_of_wrong hwrong
  exact h husername hverified

theorem guesses_concat_of_not (h : a.wrong u = false) :
    guesses u w first (rest ++ [a]) = guesses u w first rest := by
  rw [guesses_concat, if_neg (by simp [h])]
  rfl

theorem guesses_concat_le :
    guesses u w first (rest ++ [a]) ≤ guesses u w first rest + if a.wrong u then 1 else 0 := by
  rw [guesses_concat]
  split
  · next h => rw [if_pos h.2]
  · exact Nat.add_le_add_left (Nat.zero_le _) _

/-- Nothing happens to the window but that time passes. -/
theorem Watched.pass {rest' : List Attempt} (h : Watched cfg lib u s w first rest)
    (hle : s.now ≤ t.now) (hredis : t.redis (lib.key u) = s.redis (lib.key u))
    (hstanding : standing lib u t.log = standing lib u s.log)
    (hguesses : guesses u w first rest' = guesses u w first rest) (hsub : rest ⊆ rest') :
    Watched cfg lib u t w first rest' := by
  cases h with
  | excused ha htime hright => exact .excused (hsub ha) htime hright
  | past hw hmax => exact .past (Nat.le_trans hw hle) (hguesses ▸ hmax)
  | stands hc hw hmax => exact .stands (hredis.trans hc) hw (hguesses ▸ hstanding ▸ hmax)
  | unguessed hnone hzero => exact .unguessed (hredis.trans hnone) (hguesses.trans hzero)

/-- A password that is verified once the window is over is no guess in it. -/
theorem guesses_concat_of_late (h : a.verified = some false → w ≤ a.time) :
    guesses u w first (rest ++ [a]) = guesses u w first rest := by
  rw [guesses_concat, if_neg]
  · rfl
  · rintro ⟨hearly, hwrong⟩
    have hlate := h (Attempt.username_of_wrong hwrong).2
    omega

theorem standing_concat_of_not (h : a.opens lib (lib.key u) = false) :
    standing lib u (log ++ [a]) = standing lib u log + if a.wrong u then 1 else 0 := by
  rw [standing_concat, h]
  rfl

theorem Attempt.opens_eq_false (h : a.counted ≠ some 1) : a.opens lib k = false := by
  simp [Attempt.opens, h]

section Login

variable {payload : UserLogin} (hs : Served cfg lib s turn payload t a)
  (hkey : lib.key payload.username = lib.key u) (hlockout : 0 < cfg.loginLockoutSeconds)

include hs hkey hlockout

/-- What a login on its key makes of a window whose guesses stand under a counter. -/
theorem Watched.login_stands {c : Counter} (hc : s.redis (lib.key u) = some c)
    (hw : ∀ e, c.expiry = some e → w ≤ e) (hstands : guesses u w first rest ≤ standing lib u s.log)
    (hkept : Kept cfg s.redis) (hcounted : Counted cfg lib u s)
    (hturn : turn.request = .login payload) (hspares : Spares cfg lib u s turn) :
    Watched cfg lib u t w first (rest ++ [a]) := by
  have hlog : t.log = s.log ++ [a] := by rw [hs.eq]
  obtain ⟨hcount, hmax⟩ := hcounted c hc
  obtain ⟨hpos, ⟨e, he⟩, -⟩ := hkept _ c hc
  have hwe := hw e he
  cases hs.course with
  | refused hv hcnt _ hr =>
    have hnot : a.wrong u = false := Attempt.not_wrong fun _ => by simp [hv]
    have hopens : a.opens lib (lib.key u) = false := Attempt.opens_eq_false (by simp [hcnt])
    refine .stands (hr ▸ hc) hw ?_
    rw [guesses_concat_of_not hnot, hlog, standing_concat_of_not hopens]
    exact Nat.le_add_right_of_le hstands
  | renewed hc' he' hle' hlast hv hcnt hexpiry hr =>
    rw [hkey] at hc' hr
    obtain rfl := Option.some.inj (hc.symm.trans hc')
    obtain rfl := Option.some.inj (he.symm.trans he')
    have hnot : a.wrong u = false := Attempt.not_wrong fun _ => by simp [hv]
    have hopens : a.opens lib (lib.key u) = false := Attempt.opens_eq_false (by simp [hcnt])
    refine .stands (by rw [hr, Function.update_self]) (fun x hx => ?_) ?_
    · obtain rfl := Option.some.inj hx
      exact Nat.le_trans hwe hle'
    rw [guesses_concat_of_not hnot, hlog, standing_concat_of_not hopens]
    exact Nat.le_add_right_of_le hstands
  | again hc' hfew hv hcnt hexpiry hr =>
    rw [hkey] at hc' hr
    obtain rfl := Option.some.inj (hc.symm.trans hc')
    have hopens : a.opens lib (lib.key u) = false :=
      Attempt.opens_eq_false (by rw [hcnt, ne_eq, Option.some.injEq]; omega)
    refine .stands (c := { c with count := c.count + 1 }) (by rw [hr, Function.update_self]) hw ?_
    rw [hlog, standing_concat_of_not hopens]
    exact Nat.le_trans guesses_concat_le (Nat.add_le_add_right hstands _)
  | opened hmax' hlockout' hfirst hlast hold hv hcnt hexpiry hr =>
    rw [hkey] at hold
    obtain ⟨hexpired, hfew⟩ := hold c e hc he
    refine .past (by omega) ?_
    have hle : guesses u w first (rest ++ [a]) ≤ guesses u w first rest + _ := guesses_concat_le
    by_cases hwrong : a.wrong u = true
    · rcases hfew (Attempt.username_of_wrong hwrong).2 with hfew | hlate
      · rw [if_pos hwrong] at hle
        omega
      · rw [guesses_concat_of_late fun _ => by omega]
        omega
    · rw [if_neg hwrong] at hle
      omega
  | dropped hlockout' => omega
  | cleared hright hv hcnt hexpiry hfew hr =>
    rw [hkey] at hfew hr
    have hnot : a.wrong u = false := Attempt.not_wrong fun _ => by simp [hv]
    have hguesses : guesses u w first (rest ++ [a]) = guesses u w first rest :=
      guesses_concat_of_not hnot
    by_cases husername : payload.username = u
    · by_cases htime : a.time < w
      · refine .excused (List.mem_append_right _ (List.mem_singleton_self a)) htime ?_
        simp [Attempt.right, hs.username, husername, hv]
      · have hnow := (hs.time _ hv).2
        refine .past (by omega) ?_
        omega
    · rcases hfew with ⟨hlast, hfew⟩ | hnone
      · cases hget : s.redis.get (lib.key u) (s.now + turn.elapsed 4) with
        | none =>
          have hexpired := Counters.lt_of_get_eq_none hget hc he
          refine .past (by omega) ?_
          omega
        | some c' =>
          have hzero : standing lib u s.log = 0 := by
            have hfew' := hfew c' hget
            simpa [Spares, Turn.clears, hturn, husername, hkey, hright, hget, hfew'] using hspares
          refine .unguessed ?_ ?_
          · rw [hr, Counters.delete, Function.update_self]
          · omega
      · rw [hnone] at hc
        cases hc

theorem Watched.login_unguessed (hnone : s.redis (lib.key u) = none)
    (hzero : guesses u w first rest = 0)
    (hw : w ≤ s.now + 1000 * cfg.loginLockoutSeconds.toNat) :
    Watched cfg lib u t w first (rest ++ [a]) := by
  have hlog : t.log = s.log ++ [a] := by rw [hs.eq]
  cases hs.course with
  | refused hv hcnt _ hr =>
    have hnot : a.wrong u = false := Attempt.not_wrong fun _ => by simp [hv]
    exact .unguessed (hr ▸ hnone) ((guesses_concat_of_not hnot).trans hzero)
  | renewed hc' =>
    rw [hkey, hnone] at hc'
    cases hc'
  | again hc' =>
    rw [hkey, hnone] at hc'
    cases hc'
  | opened hmax' hlockout' hfirst hlast hold hv hcnt hexpiry hr =>
    rw [hkey] at hr
    refine .stands (by rw [hr, Function.update_self]) (fun x hx => ?_) ?_
    · obtain rfl := Option.some.inj hx
      exact Nat.le_trans hw hfirst
    have hle : guesses u w first (rest ++ [a]) ≤ guesses u w first rest + _ := guesses_concat_le
    rw [hlog, standing_concat]
    omega
  | dropped hlockout' => omega
  | cleared hright hv hcnt hexpiry hfew hr =>
    rw [hkey] at hr
    have hnot : a.wrong u = false := Attempt.not_wrong fun _ => by simp [hv]
    refine .unguessed ?_ ((guesses_concat_of_not hnot).trans hzero)
    rw [hr, Counters.delete, Function.update_self]

/-- What a login on its key makes of a window. -/
theorem Watched.login (h : Watched cfg lib u s w first rest) (hkept : Kept cfg s.redis)
    (hcounted : Counted cfg lib u s) (hturn : turn.request = .login payload)
    (hspares : Spares cfg lib u s turn)
    (hw : w ≤ s.now + 1000 * cfg.loginLockoutSeconds.toNat) :
    Watched cfg lib u t w first (rest ++ [a]) := by
  cases h with
  | excused ha htime hright => exact .excused (List.mem_append_left _ ha) htime hright
  | past hw hmax =>
    refine .past (Nat.le_trans hw hs.le) ?_
    rwa [guesses_concat_of_late fun hwrong => Nat.le_trans hw (hs.time _ hwrong).1]
  | stands hc hlater hmax =>
    exact Watched.login_stands hs hkey hlockout hc hlater hmax hkept hcounted hturn hspares
  | unguessed hnone hzero => exact Watched.login_unguessed hs hkey hlockout hnone hzero hw

end Login

section Step

variable {payload : UserLogin}

theorem Served.kept (hs : Served cfg lib s turn payload t a) (hkept : Kept cfg s.redis) :
    Kept cfg t.redis := by
  have hupdate : ∀ c? : Option Counter,
      (∀ c, c? = some c → 0 < c.count ∧ (∃ e, c.expiry = some e) ∧ 0 < cfg.loginLockoutSeconds) →
      Kept cfg (Function.update s.redis (lib.key payload.username) c?) := by
    intro c? hc? k c hc
    by_cases hk : k = lib.key payload.username
    · subst hk
      rw [Function.update_self] at hc
      exact hc? c hc
    · rw [Function.update_of_ne hk] at hc
      exact hkept k c hc
  cases hs.course with
  | refused _ _ _ hr => exact hr ▸ hkept
  | renewed hc _ _ _ _ _ _ hr =>
    obtain ⟨hpos, -, hlockout⟩ := hkept _ _ hc
    rw [hr]
    refine hupdate _ fun c hc => ?_
    obtain rfl := Option.some.inj hc
    exact ⟨hpos, ⟨_, rfl⟩, hlockout⟩
  | again hc _ _ _ _ hr =>
    obtain ⟨-, hexpiry, hlockout⟩ := hkept _ _ hc
    rw [hr]
    refine hupdate _ fun c hc => ?_
    obtain rfl := Option.some.inj hc
    exact ⟨Nat.succ_pos _, hexpiry, hlockout⟩
  | opened _ hlockout _ _ _ _ _ _ hr =>
    rw [hr]
    refine hupdate _ fun c hc => ?_
    obtain rfl := Option.some.inj hc
    exact ⟨Nat.one_pos, ⟨_, rfl⟩, hlockout⟩
  | dropped _ _ _ hr => exact hr ▸ hupdate none (fun c hc => nomatch hc)
  | cleared _ _ _ _ _ hr => exact hr ▸ hupdate none (fun c hc => nomatch hc)

theorem Served.redis_of_ne (hs : Served cfg lib s turn payload t a)
    (hk : k ≠ lib.key payload.username) : t.redis k = s.redis k := by
  cases hs.course with
  | refused _ _ _ hr => rw [hr]
  | renewed _ _ _ _ _ _ _ hr => rw [hr, Function.update_of_ne hk]
  | again _ _ _ _ _ hr => rw [hr, Function.update_of_ne hk]
  | opened _ _ _ _ _ _ _ _ hr => rw [hr, Function.update_of_ne hk]
  | dropped _ _ _ hr => rw [hr, Counters.delete, Function.update_of_ne hk]
  | cleared _ _ _ _ _ hr => rw [hr, Counters.delete, Function.update_of_ne hk]

/-- A login on the key keeps the count. -/
theorem Counted.login (h : Counted cfg lib u s) (hs : Served cfg lib s turn payload t a)
    (hkey : lib.key payload.username = lib.key u) (hkept : Kept cfg s.redis) :
    Counted cfg lib u t := by
  have hlog : t.log = s.log ++ [a] := by rw [hs.eq]
  have hwrong : (if a.wrong u then 1 else 0) ≤ 1 := by split <;> simp
  intro c hc
  rw [hlog]
  cases hs.course with
  | refused hv hcnt _ hr =>
    have hnot : a.wrong u = false := Attempt.not_wrong fun _ => by simp [hv]
    rw [standing_concat_of_not (Attempt.opens_eq_false (by simp [hcnt])), hnot]
    exact h c (hr ▸ hc)
  | renewed hc' he hle hlast hv hcnt hexpiry hr =>
    have hnot : a.wrong u = false := Attempt.not_wrong fun _ => by simp [hv]
    rw [hkey] at hc' hr
    rw [hr, Function.update_self] at hc
    obtain rfl := Option.some.inj hc
    rw [standing_concat_of_not (Attempt.opens_eq_false (by simp [hcnt])), hnot]
    have hcount := h _ hc'
    simpa using hcount
  | again hc' hfew hv hcnt hexpiry hr =>
    rw [hkey] at hc' hr
    rw [hr, Function.update_self] at hc
    obtain rfl := Option.some.inj hc
    obtain ⟨hpos, -⟩ := hkept _ _ hc'
    obtain ⟨hcount, -⟩ := h _ hc'
    rw [standing_concat_of_not (Attempt.opens_eq_false (by
      rw [hcnt, ne_eq, Option.some.injEq]
      omega))]
    exact ⟨Nat.add_le_add hcount hwrong, by simp only; omega⟩
  | opened hmax hlockout hfirst hlast hold hv hcnt hexpiry hr =>
    rw [hkey] at hr
    rw [hr, Function.update_self] at hc
    obtain rfl := Option.some.inj hc
    have hopens : a.opens lib (lib.key u) = true := by
      simp [Attempt.opens, hs.username, hkey, hcnt]
    rw [standing_concat, if_pos hopens, Nat.zero_add]
    exact ⟨hwrong, by simp only; omega⟩
  | dropped _ _ _ hr =>
    rw [hr, hkey, Counters.delete, Function.update_self] at hc
    cases hc
  | cleared _ _ _ _ _ hr =>
    rw [hr, hkey, Counters.delete, Function.update_self] at hc
    cases hc

/-- An expiry that is set is the counter's. -/
theorem Served.sets (hs : Served cfg lib s turn payload t a) (hw : a.expiry = some w) :
    (∃ c, t.redis (lib.key payload.username) = some c ∧ c.expiry = some w) ∧
      w ≤ t.now + 1000 * cfg.loginLockoutSeconds.toNat ∧
      ((∃ c, s.redis (lib.key payload.username) = some c) ∨
        (0 < cfg.loginMaxFailures ∧ 0 < cfg.loginLockoutSeconds)) := by
  cases hs.course with
  | renewed hc he hle hlast hv hcnt hexpiry hr =>
    obtain rfl := Option.some.inj (hexpiry.symm.trans hw)
    rw [hr]
    exact ⟨⟨_, Function.update_self .., rfl⟩, hlast, .inl ⟨_, hc⟩⟩
  | opened hmax hlockout hfirst hlast hold hv hcnt hexpiry hr =>
    obtain rfl := Option.some.inj (hexpiry.symm.trans hw)
    rw [hr]
    exact ⟨⟨_, Function.update_self .., rfl⟩, hlast, .inr ⟨hmax, hlockout⟩⟩
  | refused _ _ hexpiry _ => cases hexpiry.symm.trans hw
  | again _ _ _ _ hexpiry _ => cases hexpiry.symm.trans hw
  | dropped _ _ hexpiry _ => cases hexpiry.symm.trans hw
  | cleared _ _ _ hexpiry _ _ => cases hexpiry.symm.trans hw

/-- A window of a longer log is one of the log before, or begins with the last attempt. -/
theorem eq_concat_of_split (h : log ++ [a] = before ++ first :: rest) :
    (rest = [] ∧ first = a ∧ log = before) ∨
      ∃ rest', rest = rest' ++ [a] ∧ log = before ++ first :: rest' := by
  rcases List.eq_nil_or_concat' rest with rfl | ⟨rest', b, rfl⟩
  · obtain ⟨hbefore, ha⟩ := List.append_inj' h rfl
    exact .inl ⟨rfl, (List.singleton_inj.1 ha).symm, hbefore⟩
  · rw [← List.cons_append, ← List.append_assoc] at h
    obtain ⟨hbefore, ha⟩ := List.append_inj' h rfl
    exact .inr ⟨rest', by rw [List.singleton_inj.1 ha], hbefore⟩

theorem GuardInv.login (h : GuardInv cfg lib u s) (hs : Served cfg lib s turn payload t a)
    (hturn : turn.request = .login payload) (hspares : Spares cfg lib u s turn) :
    GuardInv cfg lib u t := by
  have hlog : t.log = s.log ++ [a] := by rw [hs.eq]
  have hle := hs.le
  have hup : t.redisUp = true := by
    rw [hs.eq]
    exact h.up
  have hkept := hs.kept h.kept
  by_cases hkey : lib.key payload.username = lib.key u
  · have hset : ∀ w, a.expiry = some w → (∃ c, t.redis (lib.key u) = some c ∧ c.expiry = some w) ∧
        0 < cfg.loginMaxFailures ∧ 0 < cfg.loginLockoutSeconds ∧
          w ≤ t.now + 1000 * cfg.loginLockoutSeconds.toNat := by
      intro w hw
      obtain ⟨hc, hlast, hlimits⟩ := hs.sets hw
      rw [hkey] at hc hlimits
      refine ⟨hc, ?_⟩
      rcases hlimits with ⟨c, hc⟩ | ⟨hmax, hlockout⟩
      · obtain ⟨hpos, -, hlockout⟩ := h.kept _ _ hc
        obtain ⟨-, hmax⟩ := h.counted _ hc
        exact ⟨by omega, hlockout, hlast⟩
      · exact ⟨hmax, hlockout, hlast⟩
    have hwatched : ∀ {first rest w}, a.expiry = some w →
        guesses u w first rest ≤ standing lib u t.log → Watched cfg lib u t w first rest := by
      intro first rest w hw hguesses
      obtain ⟨⟨c, hc, hexpiry⟩, -⟩ := hset w hw
      refine .stands hc (fun e he => ?_) hguesses
      obtain rfl := Option.some.inj (hexpiry.symm.trans he)
      exact Nat.le_refl _
    refine ⟨hup, hkept, h.counted.login hs hkey h.kept, fun b hb hkey' w hw => ?_, ?_⟩
    · rw [hlog, List.mem_append, List.mem_singleton] at hb
      rcases hb with hb | rfl
      · obtain ⟨hmax, hlockout, hbound⟩ := h.settings b hb hkey' w hw
        exact ⟨hmax, hlockout, by omega⟩
      · exact (hset w hw).2
    · intro before first rest w hsplit hopens hw
      rw [hlog] at hsplit
      rcases eq_concat_of_split hsplit with ⟨rfl, rfl, rfl⟩ | ⟨rest, rfl, hbefore⟩
      · obtain ⟨b, hb, -, hexpiry⟩ := exists_of_mem_expiries hw
        rw [List.mem_singleton] at hb
        subst hb
        refine hwatched hexpiry ?_
        rw [hlog]
        exact guesses_le_standing hopens (fun c hc => nomatch hc)
      · rcases mem_expiries_concat hw with hw | ⟨hexpiry, -, hnot, hrest⟩
        · obtain ⟨-, hlockout, hbound⟩ := h.of_window hbefore hw
          exact (h.windows before first rest w hbefore hopens hw).login hs hkey hlockout h.kept
            h.counted hturn hspares hbound
        · refine hwatched hexpiry ?_
          rw [hlog, hbefore, List.append_assoc, List.cons_append]
          refine guesses_le_standing hopens fun b hb => ?_
          rcases List.mem_append.1 hb with hb | hb
          · exact hrest b hb
          · rw [List.mem_singleton] at hb
            rw [hb, hnot]
  · have hredis : t.redis (lib.key u) = s.redis (lib.key u) := hs.redis_of_ne fun h => hkey h.symm
    have hkey' : lib.key a.username ≠ lib.key u := by
      rw [hs.username]
      exact hkey
    have hopens : a.opens lib (lib.key u) = false := by simp [Attempt.opens, hkey']
    have hnot : a.wrong u = false := Attempt.not_wrong fun husername => absurd (by rw [husername]) hkey'
    have hstanding : standing lib u t.log = standing lib u s.log := by
      rw [hlog, standing_concat_of_not hopens, hnot]
      rfl
    refine ⟨hup, hkept, fun c hc => ?_, fun b hb hkeyb w hw => ?_, ?_⟩
    · rw [hstanding]
      exact h.counted c (hredis ▸ hc)
    · rw [hlog, List.mem_append, List.mem_singleton] at hb
      rcases hb with hb | rfl
      · obtain ⟨hmax, hlockout, hbound⟩ := h.settings b hb hkeyb w hw
        exact ⟨hmax, hlockout, by omega⟩
      · exact absurd hkeyb hkey'
    · intro before first rest w hsplit hfirst hw
      rw [hlog] at hsplit
      rcases eq_concat_of_split hsplit with ⟨rfl, rfl, rfl⟩ | ⟨rest, rfl, hbefore⟩
      · rw [hopens] at hfirst
        cases hfirst
      · rcases mem_expiries_concat hw with hw | ⟨-, hkeya, -⟩
        · exact (h.windows before first rest w hbefore hfirst hw).pass hle hredis hstanding
            (guesses_concat_of_not hnot) (List.subset_append_left _ _)
        · exact absurd hkeya hkey'

/-- Every request keeps the guard. -/
theorem GuardInv.step (h : GuardInv cfg lib u s) (hspares : Spares cfg lib u s turn)
    (hstep : s.serve cfg lib turn = some t) : GuardInv cfg lib u t := by
  cases hturn : turn.request with
  | login payload =>
    obtain ⟨a, hs⟩ := serve_login h.up h.kept hturn hstep
    exact h.login hs hturn hspares
  | signup payload =>
    have hs := serve_signup hturn hstep
    have hle := hs.le
    refine ⟨hs.up.trans h.up, hs.redis ▸ h.kept, fun c hc => ?_, fun b hb hkey w hw => ?_, ?_⟩
    · rw [hs.log]
      exact h.counted c (hs.redis ▸ hc)
    · obtain ⟨hmax, hlockout, hbound⟩ := h.settings b (hs.log ▸ hb) hkey w hw
      exact ⟨hmax, hlockout, by omega⟩
    · intro before first rest w hsplit hopens hw
      exact (h.windows before first rest w (hs.log ▸ hsplit) hopens hw).pass hle (by rw [hs.redis])
        (by rw [hs.log]) rfl (List.Subset.refl _)

end Step

/-- In every sequence of complete signups and logins, the guesses at `u`'s password are bounded, as long
as no login to another account deletes a counter under which guesses at `u`'s stand. -/
theorem guesses_bounded {users : Dict String User}
    (hs : (site cfg lib users).ReachableUnder (Spares cfg lib u) s) :
    GuessesBounded cfg lib u s.log := by
  refine GuardInv.bounded (hs.induction ?_ fun s turn t _ h hspares hstep => h.step hspares hstep)
  refine ⟨rfl, (fun k c hc => nomatch hc), (fun c hc => nomatch hc), (fun a ha => nomatch ha), ?_⟩
  intro before first rest w hsplit
  simp [site] at hsplit

end Windows

section TwoAccounts

/-- Whether the guesses from the first attempt of the log until `w` are too many. -/
def exceeds (cfg : LoginSettings) (lib : Library) (u : String) (w : Nat) : List Attempt → Bool
  | [] => false
  | first :: rest =>
    first.opens lib (lib.key u) && decide (w ∈ expiries lib (lib.key u) first rest) &&
      rest.all (fun a => !a.right u) && decide (cfg.loginMaxFailures < guesses u w first rest)

theorem not_bounded_of_exceeds {cfg : LoginSettings} {lib : Library} {u : String} {w : Nat}
    {log : List Attempt} (h : exceeds cfg lib u w log = true) : ¬GuessesBounded cfg lib u log := by
  intro hbounded
  match log with
  | [] => cases h
  | first :: rest =>
    simp only [exceeds, Bool.and_eq_true, decide_eq_true_eq, List.all_eq_true, Bool.not_eq_true'] at h
    obtain ⟨⟨⟨hopens, hw⟩, hright⟩, hexceeds⟩ := h
    have hle := hbounded [] first rest w rfl hopens hw fun a ha _ => hright a ha
    omega

/-- The library as it is on the inputs below: ASCII usernames, one of them normalised to a text whose
digest is given. -/
def asciiLibrary : Library where
  strip s := s
  casefold s := String.ofList (s.toList.map Char.toLower)
  sha256 s :=
    if s = "alice" then "2bd806c97f0e00af1a1fc3328fa763a9269723c8db8fac4f93af71db186d6e90" else s
  hashPassword password salt := salt ++ "$" ++ password
  verifyPassword password hash := hash.endsWith ("$" ++ password)
  createAccessToken subject now := toString subject ++ "." ++ toString now

/-- Two accounts that are looked up by different usernames and limited under one key. -/
def twoAlices : Dict String User :=
  ((∅ : Dict String User).set "Alice" ⟨1, "Alice", "a@example.com", "salt$opensesame"⟩).set "alice"
    ⟨2, "alice", "b@example.com", "salt$mine"⟩

/-- A login whose operations are a millisecond apart. -/
def loginTurn (username password : String) : Turn where
  request := .login ⟨username, password⟩
  moments _ := { elapsed := 1 }

/-- Five wrong passwords, and a sixth that is not looked at. -/
theorem guesses_bounded_locked :
    ∃ s, (site {} asciiLibrary twoAlices).ReachableUnder (Spares {} asciiLibrary "Alice") s ∧
      s.log.countP (Attempt.wrong "Alice") = 5 ∧ s.log.length = 7 ∧
      GuessesBounded {} asciiLibrary "Alice" s.log := by
  have hrun : ((site {} asciiLibrary twoAlices).replay (Spares {} asciiLibrary "Alice")
      (site {} asciiLibrary twoAlices).init
      (loginTurn "alice" "mine" :: List.replicate 6 (loginTurn "Alice" "guess"))).any
        (fun s => s.log.countP (Attempt.wrong "Alice") == 5 && s.log.length == 7) = true := by
    decide +kernel
  obtain ⟨s, hs, hp⟩ := System.exists_reachable hrun
  simp only [Bool.and_eq_true, beq_iff_eq] at hp
  exact ⟨s, hs, hp.1, hp.2, guesses_bounded hs⟩

/-- After four wrong passwords the other account logs in, and there are four more guesses in the same
quarter of an hour. -/
theorem guesses_exceed :
    ∃ s, (site {} asciiLibrary twoAlices).Reachable s ∧
      ¬GuessesBounded {} asciiLibrary "Alice" s.log := by
  have hrun : ((site {} asciiLibrary twoAlices).replay System.anyStep
      (site {} asciiLibrary twoAlices).init
      (List.replicate 4 (loginTurn "Alice" "guess") ++
        loginTurn "alice" "mine" :: List.replicate 4 (loginTurn "Alice" "guess"))).any
        (fun s => exceeds {} asciiLibrary "Alice" 900005 s.log) = true := by
    decide +kernel
  obtain ⟨s, hs, hp⟩ := System.exists_reachable hrun
  exact ⟨s, hs, not_bounded_of_exceeds hp⟩

end TwoAccounts

end Concord.Auth
