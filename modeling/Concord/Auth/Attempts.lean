import Concord.Auth.Login

/-!
# What one login does

`Served`: the ways a complete login can go while Redis is available. It is refused, and may give the
counter more time; or it fails and is counted, under a counter that is there or under a new one; or the
password is right and the counter is deleted.
-/

namespace Concord.Auth

open Concord.Base Async

/-- The milliseconds that pass up to the `n`-th operation of a request. -/
def Turn.elapsed (turn : Turn) (n : Nat) : Nat :=
  ((List.range n).map fun i => (turn.moments i).elapsed).sum

/-- Whether the login is with the password of an account. -/
def UserLogin.right (lib : Library) (users : Dict String User) (payload : UserLogin) : Bool :=
  (users.get? payload.username).any fun user => lib.verifyPassword payload.password user.passwordHash

section Courses

variable {cfg : LoginSettings} {lib : Library} {username : String} {s : Site} {m : Nat → Moment}

namespace Site

variable {salt k : String}

theorem later_up (hup : s.redisUp = true) (a : Moment) : (s.later a).redisUp = true := hup

theorem run_get (hup : s.redisUp = true) :
    s.run lib salt (.get k) = (.ok ((s.redis.get k s.now).map Counter.count), s) :=
  if_pos hup

theorem run_ttl (hup : s.redisUp = true) :
    s.run lib salt (.ttl k) = (.ok (s.redis.ttl k s.now), s) :=
  if_pos hup

theorem run_expire {seconds : Int} (hup : s.redisUp = true) :
    s.run lib salt (.expire k seconds) = (.ok (), { s with
      redis := s.redis.expire k s.now seconds
      current := { s.current with
        expiry := ((s.redis.expire k s.now seconds).get k s.now).bind Counter.expiry } }) :=
  if_pos hup

theorem run_incr (hup : s.redisUp = true) :
    s.run lib salt (.incr k) = (.ok (s.redis.incr k s.now).1, { s with
      redis := (s.redis.incr k s.now).2
      current := { s.current with counted := some (s.redis.incr k s.now).1 } }) :=
  if_pos hup

theorem run_delete (hup : s.redisUp = true) :
    s.run lib salt (.delete k) = (.ok (), { s with redis := s.redis.delete k }) :=
  if_pos hup

/-- The site once `verify_password` has answered. -/
def answered (s : Site) (b : Bool) : Site :=
  { s with current := { s.current with verified := some b, time := s.now } }

theorem run_verifyPassword {password : String} {user : User} :
    s.run lib salt (.verifyPassword password user) =
      (.ok (lib.verifyPassword password user.passwordHash),
        s.answered (lib.verifyPassword password user.passwordHash)) :=
  rfl

end Site

/-- How `lockout_seconds_remaining` can go: fewer failures than are allowed, a lockout that has time left,
or one that is given more time. -/
inductive Checked (cfg : LoginSettings) (k : String) (s : Site) (m : Nat → Moment) :
    Int → (Nat → Moment) → Site → Prop
  | few (h : ((((s.later (m 0)).redis.get k (s.later (m 0)).now).map Counter.count).getD 0 : Nat) <
        cfg.loginMaxFailures) :
      Checked cfg k s m 0 (fun n => m (n + 1)) (s.later (m 0))
  | locked {t : Site} (ht : t = (s.later (m 0)).later (m 1)) (h : 0 < t.redis.ttl k t.now) :
      Checked cfg k s m (t.redis.ttl k t.now) (fun n => m (n + 2)) t
  | renewed {t u : Site} (ht : t = (s.later (m 0)).later (m 1)) (h : t.redis.ttl k t.now ≤ 0)
      (hu : u = t.later (m 2)) :
      Checked cfg k s m cfg.loginLockoutSeconds (fun n => m (n + 3)) { u with
        redis := u.redis.expire k u.now cfg.loginLockoutSeconds
        current := { u.current with
          expiry := ((u.redis.expire k u.now cfg.loginLockoutSeconds).get k u.now).bind
            Counter.expiry } }

theorem alone_await {α : Type} {o : Op} {f : o.Val → Py α} {v : o.Val} {t : Site}
    (h : (s.later (m 0)).run lib (m 0).salt o = (.ok v, t)) :
    (await o >>= f).run.alone (exec lib) (m, s) =
      (f v).run.alone (exec lib) (fun n => m (n + 1), t) := by
  rw [alone_bind, await, alone_call, exec, h]
  rfl

theorem alone_last {o : Op} {v : o.Val} {t : Site}
    (h : (s.later (m 0)).run lib (m 0).salt o = (.ok v, t)) :
    (await o).run.alone (exec lib) (m, s) = some (.ok v, fun n => m (n + 1), t) := by
  rw [await, alone_call, exec, h]
  rfl

variable (cfg lib username m) in
theorem lockout_checked (hup : s.redisUp = true) :
    ∃ retry c t, (lockoutSecondsRemaining cfg lib username).run.alone (exec lib) (m, s) =
        some (.ok retry, c, t) ∧ Checked cfg (lib.key username) s m retry c t := by
  have hup₁ := fun a => Site.later_up hup a
  have hup₂ := fun a b => Site.later_up (hup₁ a) b
  unfold lockoutSecondsRemaining
  rw [alone_tryExcept, alone_await (Site.run_get (hup₁ _))]
  split
  · next h => exact ⟨_, _, _, rfl, .few h⟩
  · rw [alone_await (Site.run_ttl (hup₂ _ _))]
    split
    · next h => exact ⟨_, _, _, rfl, .locked rfl h⟩
    · next h =>
      rw [alone_await (Site.run_expire (Site.later_up (hup₂ _ _) _))]
      exact ⟨_, _, _, rfl, .renewed rfl (Int.not_lt.1 h) rfl⟩

/-- What the limiter keeps under a key: counters with failures and an expiry, and none at all when its
timeout is not positive. -/
def Kept (cfg : LoginSettings) (redis : Counters String) : Prop :=
  ∀ k c, redis k = some c → 0 < c.count ∧ (∃ e, c.expiry = some e) ∧ 0 < cfg.loginLockoutSeconds

/-- The limiter lets the login through: nothing has changed, and fewer failures than are allowed are
counted, unless there is no counter. -/
structure Passed (cfg : LoginSettings) (k : String) (s : Site) (m : Nat → Moment) (c : Nat → Moment)
    (t : Site) : Prop where
  eq : t = { s with now := t.now }
  le : s.now ≤ t.now
  few : (c = (fun n => m (n + 1)) ∧ t.now = s.now + (m 0).elapsed ∧
      ((((s.redis.get k t.now).map Counter.count).getD 0 : Nat) : Int) < cfg.loginMaxFailures) ∨
    (cfg.loginLockoutSeconds = 0 ∧ s.redis k = none)

/-- The limiter refuses the login, and may give the counter more time. -/
structure Refused (cfg : LoginSettings) (k : String) (s t : Site) : Prop where
  eq : t = { s with now := t.now, redis := t.redis, current := t.current }
  le : s.now ≤ t.now
  counter : (t.redis = s.redis ∧ t.current = s.current) ∨
    ∃ c e e', s.redis k = some c ∧ c.expiry = some e ∧ e ≤ e' ∧
      e' ≤ t.now + 1000 * cfg.loginLockoutSeconds.toNat ∧
      t.redis = Function.update s.redis k (some { c with expiry := some e' }) ∧
      t.current = { s.current with expiry := some e' }

variable (cfg lib username m) in
theorem lockout_spec (hup : s.redisUp = true) (hkept : Kept cfg s.redis)
    (hnew : s.current.expiry = none) :
    ∃ retry c t, (lockoutSecondsRemaining cfg lib username).run.alone (exec lib) (m, s) =
        some (.ok retry, c, t) ∧
      ((retry = 0 ∧ Passed cfg (lib.key username) s m c t) ∨
        (retry ≠ 0 ∧ Refused cfg (lib.key username) s t)) := by
  obtain ⟨retry, c, t, halone, hchecked⟩ := lockout_checked cfg lib username m hup
  refine ⟨retry, c, t, halone, ?_⟩
  cases hchecked with
  | few h => exact .inl ⟨rfl, rfl, Nat.le_add_right _ _, .inl ⟨rfl, rfl, h⟩⟩
  | locked ht h =>
    subst ht
    exact .inr ⟨Int.ne_of_gt h, rfl, Nat.le_trans (Nat.le_add_right _ _) (Nat.le_add_right _ _),
      .inl ⟨rfl, rfl⟩⟩
  | renewed ht h hu =>
    subst ht hu
    have hle : s.now ≤ s.now + (m 0).elapsed + (m 1).elapsed + (m 2).elapsed := by omega
    cases hget : (((s.later (m 0)).later (m 1)).later (m 2)).redis.get (lib.key username)
        (((s.later (m 0)).later (m 1)).later (m 2)).now with
    | none =>
      -- the counter has expired in the meantime, or there was none
      have hsame : Counters.expire _ _ _ cfg.loginLockoutSeconds = _ := Counters.expire_of_none hget
      rw [hsame, hget]
      have hcurrent : { s.current with expiry := none } = s.current := by
        rw [← hnew]
      by_cases hzero : cfg.loginLockoutSeconds = 0
      · refine .inl ⟨hzero, ?_, hle, .inr ⟨hzero, ?_⟩⟩
        · change { s with now := _, current := { s.current with expiry := none } } = _
          rw [hcurrent]
        · by_contra hsome
          obtain ⟨c, hc⟩ := Option.ne_none_iff_exists'.1 hsome
          have hpos := (hkept _ _ hc).2.2
          omega
      · exact .inr ⟨hzero, rfl, hle, .inl ⟨rfl, hcurrent⟩⟩
    | some c =>
      have hc : s.redis (lib.key username) = some c := (Counters.get_eq_some.1 hget).1
      obtain ⟨-, ⟨e, he⟩, hpos⟩ := hkept _ _ hc
      rw [Counters.expire_of_some hget hpos, Counters.get_renewed]
      have hearly : ((s.later (m 0)).later (m 1)).redis.get (lib.key username)
          ((s.later (m 0)).later (m 1)).now = some c :=
        Counters.get_of_le hget (Nat.le_add_right _ _)
      have hsoon := Counters.lt_of_ttl_nonpos h hearly he
      refine .inr ⟨by omega, rfl, hle, .inr ⟨c, e, _, hc, he, ?_, Nat.le_refl _, rfl, rfl⟩⟩
      simp only [Site.later] at hsoon ⊢
      omega

/-- The limiter counts a failure: under the counter that is there at `τ`, or under a new one, which stays
for the lockout time if that is positive. -/
structure Recorded (cfg : LoginSettings) (k : String) (s t : Site) : Prop where
  eq : t = { s with now := t.now, redis := t.redis, current := t.current }
  counter : ∃ τ, s.now ≤ τ ∧ τ ≤ t.now ∧
    ((∃ c, s.redis.get k τ = some c ∧
        t.redis = Function.update s.redis k (some { c with count := c.count + 1 }) ∧
        t.current = { s.current with counted := some (c.count + 1) }) ∨
      (s.redis.get k τ = none ∧ 0 < cfg.loginLockoutSeconds ∧ ∃ e,
        τ + 1000 * cfg.loginLockoutSeconds.toNat ≤ e ∧
        e ≤ t.now + 1000 * cfg.loginLockoutSeconds.toNat ∧
        t.redis = Function.update s.redis k (some { count := 1, expiry := some e }) ∧
        t.current = { s.current with counted := some 1, expiry := some e }) ∨
      (s.redis.get k τ = none ∧ cfg.loginLockoutSeconds ≤ 0 ∧
        t.redis = Function.update s.redis k none ∧
        t.current = { s.current with counted := some 1, expiry := none }))

variable (cfg lib username m) in
theorem record_spec (hup : s.redisUp = true) (hkept : Kept cfg s.redis) :
    ∃ c t, (recordLoginFailure cfg lib username).run.alone (exec lib) (m, s) = some (.ok (), c, t) ∧
      Recorded cfg (lib.key username) s t := by
  have hup₁ := fun a => Site.later_up hup a
  unfold recordLoginFailure
  rw [alone_tryExcept, alone_await (Site.run_incr (hup₁ _))]
  cases hget : (s.later (m 0)).redis.get (lib.key username) (s.later (m 0)).now with
  | some c =>
    have hpos := (hkept _ _ (Counters.get_eq_some.1 hget).1).1
    rw [Counters.incr_of_some hget, if_neg (show ¬(c.count + 1 = 1) by omega)]
    exact ⟨_, _, rfl, rfl, _, Nat.le_add_right _ _, Nat.le_refl _, .inl ⟨c, hget, rfl, rfl⟩⟩
  | none =>
    rw [Counters.incr_of_none hget, if_pos rfl, alone_last (Site.run_expire ?_)]
    · refine ⟨_, _, rfl, rfl, _, Nat.le_add_right _ _, Nat.le_add_right _ _, .inr ?_⟩
      have hset : Counters.get (Function.update s.redis (lib.key username) (some { count := 1 }))
          (lib.key username) (s.now + (m 0).elapsed + (m 1).elapsed) = some { count := 1 } := by
        simp [Counters.get, Option.filter, Counter.live]
      have hcurrent : ∀ {e e' : Option Nat}, e = e' →
          ({ s.current with counted := some 1, expiry := e } : Attempt) =
            { s.current with counted := some 1, expiry := e' } := fun h => by rw [h]
      by_cases hpos : 0 < cfg.loginLockoutSeconds
      · have hexpire := Counters.expire_of_some hset hpos
        rw [Function.update_idem] at hexpire
        refine .inl ⟨hget, hpos, _, ?_, Nat.le_refl _, hexpire, hcurrent ?_⟩
        · simp only [Site.later]
          omega
        · exact (congrArg (fun t => (Counters.get t _ _).bind Counter.expiry) hexpire).trans
            Counters.get_renewed
      · have hexpire := Counters.expire_of_nonpos hset (Int.not_lt.1 hpos)
        rw [Function.update_idem] at hexpire
        refine .inr ⟨hget, Int.not_lt.1 hpos, hexpire, hcurrent ?_⟩
        refine (congrArg (fun t => (Counters.get t _ _).bind Counter.expiry) hexpire).trans ?_
        simp [Counters.get]
    · exact hup

theorem reset_spec (hup : s.redisUp = true) :
    (resetLoginFailures lib username).run.alone (exec lib) (m, s) = some (.ok (), fun n => m (n + 1),
      { s.later (m 0) with redis := s.redis.delete (lib.key username) }) := by
  unfold resetLoginFailures
  rw [alone_tryExcept, alone_last (Site.run_delete (Site.later_up hup _))]
  rfl

theorem token_alone {user : User} :
    (tokenOut user).run.alone (exec lib) (m, s) =
      some (.ok { accessToken := lib.createAccessToken user.id (s.now + (m 0).elapsed),
                  user := ⟨user.id, user.username, user.email⟩ },
        fun n => m (n + 1), s.later (m 0)) :=
  rfl

end Courses

section Logins

variable (cfg : LoginSettings) (lib : Library) (s : Site) (turn : Turn) (payload : UserLogin)

/-- The ways a login goes, with what the attempt `a` at it did and the site `t` it left. -/
inductive Course (t : Site) (a : Attempt) : Prop
  | refused (hv : a.verified = none) (hcounted : a.counted = none) (hexpiry : a.expiry = none)
      (hr : t.redis = s.redis)
  | renewed {c : Counter} {e e' : Nat} (hc : s.redis (lib.key payload.username) = some c)
      (he : c.expiry = some e) (hle : e ≤ e')
      (hlast : e' ≤ t.now + 1000 * cfg.loginLockoutSeconds.toNat)
      (hv : a.verified = none) (hcounted : a.counted = none) (hexpiry : a.expiry = some e')
      (hr : t.redis =
        Function.update s.redis (lib.key payload.username) (some { c with expiry := some e' }))
  | again {c : Counter} (hc : s.redis (lib.key payload.username) = some c)
      (hfew : (c.count : Int) < cfg.loginMaxFailures)
      (hv : a.verified ≠ some true) (hcounted : a.counted = some (c.count + 1))
      (hexpiry : a.expiry = none)
      (hr : t.redis =
        Function.update s.redis (lib.key payload.username) (some { c with count := c.count + 1 }))
  | opened {e : Nat} (hmax : 0 < cfg.loginMaxFailures) (hlockout : 0 < cfg.loginLockoutSeconds)
      (hfirst : s.now + 1000 * cfg.loginLockoutSeconds.toNat ≤ e)
      (hlast : e ≤ t.now + 1000 * cfg.loginLockoutSeconds.toNat)
      -- an old counter has expired; at the check, if not before, it held fewer failures than are allowed
      (hold : ∀ c e, s.redis (lib.key payload.username) = some c → c.expiry = some e → e < t.now ∧
        (a.verified = some false → (c.count : Int) < cfg.loginMaxFailures ∨ e < a.time))
      (hv : a.verified ≠ some true) (hcounted : a.counted = some 1) (hexpiry : a.expiry = some e)
      (hr : t.redis =
        Function.update s.redis (lib.key payload.username) (some { count := 1, expiry := some e }))
  | dropped (hlockout : cfg.loginLockoutSeconds ≤ 0) (hv : a.verified ≠ some true)
      (hexpiry : a.expiry = none) (hr : t.redis = s.redis.delete (lib.key payload.username))
  | cleared (hright : payload.right lib s.users = true) (hv : a.verified = some true)
      (hcounted : a.counted = none) (hexpiry : a.expiry = none)
      (hfew : (s.now + turn.elapsed 4 ≤ t.now ∧
          ∀ c, s.redis.get (lib.key payload.username) (s.now + turn.elapsed 4) = some c →
            (c.count : Int) < cfg.loginMaxFailures) ∨
        s.redis (lib.key payload.username) = none)
      (hr : t.redis = s.redis.delete (lib.key payload.username))

/-- A login that has been served. -/
structure Served (t : Site) (a : Attempt) : Prop where
  eq : t = { s with now := t.now, redis := t.redis, current := a, log := s.log ++ [a] }
  le : s.now ≤ t.now
  username : a.username = payload.username
  time : ∀ b, a.verified = some b → s.now ≤ a.time ∧ a.time ≤ t.now
  course : Course cfg lib s turn payload t a

end Logins

section Logins

variable {cfg : LoginSettings} {lib : Library} {s t : Site} {turn : Turn} {payload : UserLogin}

/-- A failure that is recorded after the limiter has let the login through. -/
theorem Passed.course {m c : Nat → Moment} {s₁ s₂ t : Site} {b : Option Bool} {time : Nat}
    {log : List Attempt}
    (hp : Passed cfg (lib.key payload.username)
      { s with current := { username := payload.username } } m c s₁)
    (hs₂ : s₂.redis = s.redis ∧ s₁.now ≤ s₂.now)
    (hcurrent : s₂.current = { username := payload.username, verified := b, time := time })
    (hb : b ≠ some true) (htime : b = some false → s₁.now ≤ time)
    (hr : Recorded cfg (lib.key payload.username) s₂ t) :
    Course cfg lib s turn payload { t with log := log } t.current := by
  obtain ⟨τ, hτ, hτ', hcounter⟩ := hr.counter
  rw [hs₂.1, hcurrent] at hcounter
  have hle : s.now ≤ s₁.now := hp.le
  have hfew : _ ∨ cfg.loginLockoutSeconds = 0 ∧ s.redis (lib.key payload.username) = none := hp.few
  have hlater : s₁.now ≤ τ := Nat.le_trans hs₂.2 hτ
  rcases hcounter with ⟨c, hget, hredis, ha⟩ | ⟨hget, hpos, e, hfirst, hlast, hredis, ha⟩ |
    ⟨hget, hneg, hredis, ha⟩
  · rw [ha]
    refine .again (Counters.get_eq_some.1 hget).1 ?_ hb rfl rfl hredis
    rcases hfew with ⟨-, -, hfew⟩ | ⟨-, hnone⟩
    · rwa [Counters.get_of_le hget hlater] at hfew
    · rw [(Counters.get_eq_some.1 hget).1] at hnone
      cases hnone
  · rw [ha]
    refine .opened ?_ hpos (by omega) hlast (fun c e hc he => ⟨?_, fun hwrong => ?_⟩) hb rfl rfl hredis
    · rcases hfew with ⟨-, -, hfew⟩ | ⟨hzero, -⟩
      · omega
      · omega
    · exact Nat.lt_of_lt_of_le (Counters.lt_of_get_eq_none hget hc he) hτ'
    · have hlast := htime hwrong
      rcases hfew with ⟨-, -, hfew⟩ | ⟨hzero, -⟩
      · cases hnow : s.redis.get (lib.key payload.username) s₁.now with
        | none =>
          have hexpired := Counters.lt_of_get_eq_none hnow hc he
          exact .inr (Nat.lt_of_lt_of_le hexpired hlast)
        | some c' =>
          rw [hnow] at hfew
          rw [(Counters.get_eq_some.1 hnow).1] at hc
          obtain rfl := Option.some.inj hc
          exact .inl hfew
      · omega
  · rw [ha]
    exact .dropped hneg hb rfl hredis

theorem Passed.served {m c : Nat → Moment} {s₁ s₂ t : Site} (b : Option Bool) (time : Nat)
    (hp : Passed cfg (lib.key payload.username)
      { s with current := { username := payload.username } } m c s₁)
    (hr : Recorded cfg (lib.key payload.username) s₂ t)
    (hs₂ : s₂ = { s₁ with
      now := s₂.now, current := { username := payload.username, verified := b, time := time } })
    (hle : s₁.now ≤ s₂.now) (hb : b ≠ some true)
    (htime : b = some false → s₁.now ≤ time ∧ time ≤ s₂.now) :
    Served cfg lib s turn payload { t with log := t.log ++ [t.current] } t.current := by
  have hs₁ := hp.eq
  rw [hs₁] at hs₂
  have hredis : s₂.redis = s.redis := by rw [hs₂]
  have hcurrent :
      s₂.current = { username := payload.username, verified := b, time := time } := by rw [hs₂]
  obtain ⟨τ, hτ, hτ', hcounter⟩ := hr.counter
  have hattempt : ∃ counted expiry, t.current =
      { username := payload.username, verified := b, time, counted, expiry } := by
    rw [hcurrent] at hcounter
    rcases hcounter with ⟨_, -, -, ha⟩ | ⟨-, -, _, -, -, -, ha⟩ | ⟨-, -, -, ha⟩
    · exact ⟨_, _, ha⟩
    · exact ⟨_, _, ha⟩
    · exact ⟨_, _, ha⟩
  obtain ⟨counted, expiry, ha⟩ := hattempt
  refine ⟨?_, Nat.le_trans (Nat.le_trans hp.le hle) (Nat.le_trans hτ hτ'), ?_, fun b' hb' => ?_,
    hp.course ⟨hredis, hle⟩ hcurrent hb (fun h => (htime h).1) hr⟩
  · rw [hr.eq, hs₂]
  · rw [ha]
  · rw [ha] at hb' ⊢
    obtain rfl : b = some b' := hb'
    cases b' with
    | true => exact absurd rfl hb
    | false =>
      obtain ⟨hfirst, hlast⟩ := htime rfl
      exact ⟨Nat.le_trans hp.le hfirst, Nat.le_trans hlast (Nat.le_trans hτ hτ')⟩

/-- What serving a login comes to. -/
theorem serve_login (hup : s.redisUp = true) (hkept : Kept cfg s.redis)
    (hturn : turn.request = .login payload) (h : s.serve cfg lib turn = some t) :
    ∃ a, Served cfg lib s turn payload t a := by
  rw [Site.serve, hturn] at h
  obtain ⟨⟨r, c, u⟩, halone, rfl⟩ := Option.map_eq_some_iff.1 h
  refine ⟨u.current, ?_⟩
  obtain ⟨retry, c₁, s₁, hcheck, hcases⟩ := lockout_spec cfg lib payload.username
    turn.moments (s := { s with current := { username := payload.username } }) hup hkept rfl
  rw [login, alone_then hcheck, alone_require] at halone
  rcases hcases with ⟨rfl, hp⟩ | ⟨hne, href⟩
  · have hup₁ : s₁.redisUp = true := by
      rw [hp.eq]
      exact hup
    have hkept₁ : Kept cfg s₁.redis := by
      rw [hp.eq]
      exact hkept
    have hselect : (s₁.later (c₁ 0)).run lib (c₁ 0).salt (.selectUser payload.username) =
        (.ok (s₁.users.get? payload.username), s₁.later (c₁ 0)) := rfl
    rw [if_pos (beq_self_eq_true _), alone_await hselect] at halone
    cases huser : s₁.users.get? payload.username with
    | none =>
      rw [huser] at halone
      obtain ⟨c₂, v, hrecord, hr⟩ := record_spec cfg lib payload.username
        (fun n => c₁ (n + 1)) (s := s₁.later (c₁ 0)) hup₁ hkept₁
      change ((recordLoginFailure cfg lib payload.username >>= fun _ =>
        (throw (.http 401 "Invalid credentials") : Py TokenOut))).run.alone _ _ = _ at halone
      rw [alone_then hrecord] at halone
      cases halone
      refine Passed.served none 0 hp hr ?_ (Nat.le_add_right _ _) (fun h => ?_) fun h => ?_
      · rw [hp.eq]
        rfl
      · cases h
      · cases h
    | some user =>
      rw [huser] at halone
      change ((await (.verifyPassword payload.password user) >>= fun verified =>
        if !verified then
          recordLoginFailure cfg lib payload.username >>= fun _ =>
            (throw (.http 401 "Invalid credentials") : Py PUnit) >>= fun _ =>
              resetLoginFailures lib payload.username >>= fun _ => tokenOut user
        else resetLoginFailures lib payload.username >>= fun _ =>
          tokenOut user : Py TokenOut)).run.alone _ _ = _ at halone
      rw [alone_await Site.run_verifyPassword] at halone
      cases hright : lib.verifyPassword payload.password user.passwordHash with
      | false =>
        rw [hright, if_pos Bool.not_false] at halone
        obtain ⟨c₂, v, hrecord, hr⟩ := record_spec cfg lib payload.username
          (fun n => c₁ (n + 2)) (s := ((s₁.later (c₁ 0)).later (c₁ 1)).answered false) hup₁ hkept₁
        rw [alone_then hrecord] at halone
        cases halone
        have hle : s₁.now ≤ ((s₁.later (c₁ 0)).later (c₁ 1)).now :=
          Nat.le_trans (Nat.le_add_right _ _) (Nat.le_add_right _ _)
        refine Passed.served (some false) ((s₁.later (c₁ 0)).later (c₁ 1)).now hp hr ?_ hle (by simp)
          fun _ => ⟨hle, Nat.le_refl _⟩
        rw [hp.eq]
        rfl
      | true =>
        rw [hright, if_neg (by simp), alone_then (reset_spec ?_), token_alone] at halone
        · cases halone
          have hle : s.now ≤ s₁.now := hp.le
          have hredis : s₁.redis = s.redis := by rw [hp.eq]
          refine ⟨?_, ?_, ?_, ?_, .cleared ?_ rfl ?_ ?_ ?_ ?_⟩
          · rw [hp.eq]
            rfl
          · simp only [Site.later, Site.answered]
            omega
          · rw [hp.eq]
            rfl
          · intro b _
            simp only [Site.later, Site.answered]
            omega
          · rw [hp.eq] at huser
            rw [UserLogin.right, huser]
            exact hright
          · rw [hp.eq]
            rfl
          · rw [hp.eq]
            rfl
          · rcases hp.few with ⟨rfl, hnow, hfew⟩ | ⟨-, hnone⟩
            · have helapsed : turn.elapsed 4 = (turn.moments 0).elapsed + (turn.moments 1).elapsed +
                  (turn.moments 2).elapsed + (turn.moments 3).elapsed := by
                simp [Turn.elapsed, List.range_succ, Nat.add_assoc]
              have hnow' : s₁.now = s.now + (turn.moments 0).elapsed := hnow
              refine .inl ⟨?_, fun c hc => ?_⟩
              · simp only [Site.later, Site.answered, helapsed, Nat.reduceAdd]
                omega
              · have hget := Counters.get_of_le hc (show s₁.now ≤ s.now + turn.elapsed 4 by omega)
                rwa [hget] at hfew
            · exact .inr hnone
          · change s₁.redis.delete _ = _
            rw [hredis]
        · exact hup₁
  · rw [if_neg (by simpa using hne)] at halone
    cases halone
    have heq := href.eq
    have hattempt : ∃ expiry, u.current = { username := payload.username, expiry } := by
      rcases href.counter with ⟨-, ha⟩ | ⟨_, _, _, -, -, -, -, -, ha⟩
      · exact ⟨_, ha⟩
      · exact ⟨_, ha⟩
    obtain ⟨expiry, ha⟩ := hattempt
    refine ⟨?_, href.le, ?_, ?_, ?_⟩
    · rw [heq]
    · rw [ha]
    · intro b hb
      rw [ha] at hb
      cases hb
    · rcases href.counter with ⟨hredis, ha⟩ | ⟨c, e, e', hc, he, hle, hlast, hredis, ha⟩
      · rw [ha]
        exact .refused rfl rfl rfl hredis
      · rw [ha]
        exact .renewed hc he hle hlast rfl rfl rfl hredis

/-- The limiter's part of the site is as it was, some time later. -/
structure Untouched (s t : Site) : Prop where
  redis : t.redis = s.redis
  up : t.redisUp = s.redisUp
  log : t.log = s.log
  le : s.now ≤ t.now

theorem Untouched.await {o : Op} (ho : ∀ salt (u : Site), Untouched u (u.run lib salt o).2)
    (h : Untouched s t) :
    Leaves (exec lib) t (await o) (fun _ => Untouched s) fun _ => Untouched s := by
  refine Leaves.call fun m r u hexec => ?_
  have hrun : (t.later m).run lib m.salt o = (r, u) := Option.some.inj hexec
  have hu := ho m.salt (t.later m)
  rw [hrun] at hu
  have hsu : Untouched s u := by
    have hle : t.now ≤ (t.later m).now := Nat.le_add_right _ _
    exact ⟨hu.redis.trans h.redis, hu.up.trans h.up, hu.log.trans h.log,
      Nat.le_trans h.le (Nat.le_trans hle hu.le)⟩
  cases r with
  | ok v => exact hsu
  | error e => exact hsu

theorem serve_signup {payload : UserCreate} (hturn : turn.request = .signup payload)
    (h : s.serve cfg lib turn = some t) : Untouched s t := by
  rw [Site.serve, hturn] at h
  obtain ⟨⟨r, c, u⟩, halone, rfl⟩ := Option.map_eq_some_iff.1 h
  have hleaves : Leaves (exec lib) s (signup payload) (fun _ => Untouched s) fun _ => Untouched s := by
    unfold signup
    have hrefl : Untouched s s := ⟨rfl, rfl, rfl, Nat.le_refl _⟩
    refine Leaves.bind (hrefl.await fun _ _ => ⟨rfl, rfl, rfl, Nat.le_refl _⟩) fun existing t ht => ?_
    refine Leaves.bind (Leaves.require (Q := fun _ => Untouched s) (fun _ => ht) fun _ => ht)
      fun _ t ht => ?_
    refine Leaves.bind (ht.await fun _ _ => ⟨rfl, rfl, rfl, Nat.le_refl _⟩) fun passwordHash t ht => ?_
    refine Leaves.bind (ht.await fun salt u => ?_) fun user t ht => ?_
    · simp only [Site.run]
      split
      · exact ⟨rfl, rfl, rfl, Nat.le_refl _⟩
      · exact ⟨rfl, rfl, rfl, Nat.le_refl _⟩
    · exact Leaves.bind (ht.await fun _ _ => ⟨rfl, rfl, rfl, Nat.le_refl _⟩)
        fun token t ht => Leaves.pure ht
  have houtcome := hleaves turn.moments r (c, u) halone
  cases r with
  | ok v => exact houtcome
  | error e => exact houtcome

end Logins

end Concord.Auth
