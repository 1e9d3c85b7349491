import Mathlib

/-!
# Counters that expire

The commands of a key-value server on its counters. Time is in milliseconds. A counter is there up to
its expiry, and for good if it has none; a timeout is given, and a time to live answered, in seconds.
-/

namespace Concord.Base

structure Counter where
  count : Nat
  expiry : Option Nat := none
deriving DecidableEq, Repr

/-- Whether the counter is still there at `now`. -/
def Counter.live (c : Counter) (now : Nat) : Bool := c.expiry.all (now ≤ ·)

abbrev Counters (K : Type) := K → Option Counter

namespace Counters

variable {K : Type} (t : Counters K) (k : K) (now : Nat)

/-- `GET`. -/
def get : Option Counter := (t k).filter fun c => c.live now

/-- `TTL`: -2 without the key, -1 without an expiry, else the seconds that are left, rounded to the
nearest. -/
def ttl : Int :=
  match t.get k now with
  | none => -2
  | some { expiry := none, .. } => -1
  | some { expiry := some e, .. } => ((e - now + 500) / 1000 : Nat)

section Commands

variable [DecidableEq K]

/-- `INCR`. A key that is not there counts as 0 and gets no expiry. -/
def incr : Nat × Counters K :=
  let c := (t.get k now).getD { count := 0 }
  (c.count + 1, Function.update t k (some { c with count := c.count + 1 }))

/-- `EXPIRE`. A timeout that is not positive deletes the key. -/
def expire (seconds : Int) : Counters K :=
  match t.get k now with
  | none => t
  | some c =>
    Function.update t k
      (if seconds ≤ 0 then none else some { c with expiry := some (now + 1000 * seconds.toNat) })

/-- `DEL`. -/
def delete : Counters K := Function.update t k none

variable {t k now}

theorem expire_of_none {seconds : Int} (h : t.get k now = none) : t.expire k now seconds = t := by
  rw [expire, h]

theorem expire_of_some {seconds : Int} {c : Counter} (h : t.get k now = some c) (hpos : 0 < seconds) :
    t.expire k now seconds =
      Function.update t k (some { c with expiry := some (now + 1000 * seconds.toNat) }) := by
  rw [expire, h]
  simp only [if_neg (Int.not_le.2 hpos)]

theorem expire_of_nonpos {seconds : Int} {c : Counter} (h : t.get k now = some c)
    (hpos : seconds ≤ 0) : t.expire k now seconds = Function.update t k none := by
  rw [expire, h]
  simp only [if_pos hpos]

/-- A counter that has been given more time is there. -/
theorem get_renewed {c : Counter} {n : Nat} :
    (get (Function.update t k (some { c with expiry := some (now + n) })) k now).bind Counter.expiry =
      some (now + n) := by
  simp [get, Option.filter, Counter.live]

theorem incr_of_some {c : Counter} (h : t.get k now = some c) :
    t.incr k now = (c.count + 1, Function.update t k (some { c with count := c.count + 1 })) := by
  rw [incr, h]
  rfl

theorem incr_of_none (h : t.get k now = none) :
    t.incr k now = (1, Function.update t k (some { count := 1 })) := by
  rw [incr, h]
  rfl

end Commands

variable {t k now}

theorem get_eq_some {c : Counter} : t.get k now = some c ↔ t k = some c ∧ c.live now = true :=
  Option.filter_eq_some_iff

/-- A counter that is still there later was there all the time. -/
theorem get_of_le {c : Counter} {later : Nat} (h : t.get k later = some c) (hle : now ≤ later) :
    t.get k now = some c := by
  obtain ⟨hc, hlive⟩ := get_eq_some.1 h
  refine get_eq_some.2 ⟨hc, ?_⟩
  unfold Counter.live at hlive ⊢
  cases hexpiry : c.expiry with
  | none => rfl
  | some e =>
    rw [hexpiry] at hlive
    simp only [Option.all_some, decide_eq_true_eq] at hlive ⊢
    omega

/-- A counter that is no longer there has expired. -/
theorem lt_of_get_eq_none {c : Counter} {e : Nat} (h : t.get k now = none) (hc : t k = some c)
    (he : c.expiry = some e) : e < now := by
  unfold get at h
  rw [hc] at h
  simpa [Option.filter, Counter.live, he] using h

/-- A counter with no seconds left to live expires within half a second. -/
theorem lt_of_ttl_nonpos {c : Counter} {e : Nat} (h : t.ttl k now ≤ 0) (hc : t.get k now = some c)
    (he : c.expiry = some e) : e < now + 500 := by
  unfold ttl at h
  obtain ⟨count, expiry⟩ := c
  obtain rfl : expiry = some e := he
  rw [hc] at h
  simp only at h
  omega

end Counters

end Concord.Base
