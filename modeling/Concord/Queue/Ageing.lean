import Concord.Base.System
import Concord.Queue.Ledger
import Mathlib

/-!
# Ageing

Enqueues and dequeues in sequence, at clock readings that never go back, under the default priority
settings. The ageing term of the score saturates. Once it has done so for an execution, a newcomer
is behind it only until the newcomer's own ageing has made up for the difference between the two
in role, debug flag and language.
-/

namespace Concord

open Concord.Base

namespace Payload

/-- The score of a payload without its ageing term, under the default settings. -/
def static (a : Payload) : ℚ :=
  ({} : Settings).staticScore (a.role.getD .editor) (a.debug.getD false)
    (a.language.getD .python)

/-- `b` was enqueued when `a` had already waited the saturation time. -/
def NewcomerTo (b a : Payload) : Prop :=
  a.enqueuedAt + ({} : Settings).priorityWaitSaturationSeconds ≤ b.enqueuedAt

instance (a b : Payload) : Decidable (b.NewcomerTo a) :=
  inferInstanceAs (Decidable (_ ≤ _))

/-- `b`'s own ageing has not made up for what `a` is ahead of it otherwise. -/
def BehindAt (b a : Payload) (now : Seconds) : Prop :=
  b.static < a.static ∨ now - b.enqueuedAt < 30 + 3 / 2 * (a.static - b.static)

instance (a b : Payload) (now : Seconds) : Decidable (b.BehindAt a now) :=
  inferInstanceAs (Decidable (_ ∨ _))

end Payload

/-- The score of a payload under the default settings. -/
def defaultScore (a : Payload) (now : Seconds) : ℚ :=
  a.static + 20 * min (max (now - a.enqueuedAt) 0 / 30) 1

theorem score_default (a : Payload) (now : Seconds) :
    ({} : Settings).score a now = .ok (defaultScore a now) :=
  Settings.computePriority_ok_iff.2 ⟨by norm_num, rfl⟩

/-- The score of a newcomer is below that of an aged execution exactly while it is behind it. -/
theorem defaultScore_lt_iff {a b : Payload} {now : Seconds} (hnew : b.NewcomerTo a)
    (hb : b.enqueuedAt ≤ now) : defaultScore b now < defaultScore a now ↔ b.BehindAt a now := by
  have hwait : a.enqueuedAt + 30 ≤ b.enqueuedAt := hnew
  have hmaxa : max (now - a.enqueuedAt) 0 = now - a.enqueuedAt := max_eq_left (by linarith)
  have hmaxb : max (now - b.enqueuedAt) 0 = now - b.enqueuedAt := max_eq_left (by linarith)
  have haged : min ((now - a.enqueuedAt) / 30) 1 = 1 := by
    rw [min_eq_right]
    linarith
  unfold defaultScore Payload.BehindAt
  rw [hmaxa, hmaxb, haged]
  constructor
  · intro hlt
    by_cases hs : b.static < a.static
    · exact .inl hs
    · right
      rcases le_total ((now - b.enqueuedAt) / 30) 1 with hle | hle
      · rw [min_eq_left hle] at hlt
        linarith
      · rw [min_eq_right hle] at hlt
        linarith
  · rintro (hs | hw)
    · have := min_le_right ((now - b.enqueuedAt) / 30) 1
      linarith
    · have := min_le_left ((now - b.enqueuedAt) / 30) 1
      linarith

/-- What a dequeue returned, and what it left in the queue. -/
structure Served where
  payload : Payload
  left : List (ExecutionId × Payload)

structure Schedule where
  redis : Redis := {}
  now : Seconds
  served : List Served := []

/-- One enqueue or one dequeue, with its clock reading; a dequeue also with the order in which Redis
lists the hash. -/
inductive QueueEvent
  | enqueue (payload : Payload) (now : Seconds)
  | dequeue (order : List ExecutionId) (now : Seconds)

namespace Schedule

/-- `enqueue_execution`, for an id that is not in the queue. -/
def enqueue (st : Schedule) (payload : Payload) (now : Seconds) : Option Schedule :=
  if st.now ≤ now ∧ payload.executionId ∉ st.redis.waitingIds then
    some { st with
      redis := st.redis.hset 0 payload.executionId { payload with enqueuedAt := now }, now }
  else none

/-- `_pop_highest_priority`, with nobody else at the queue. -/
def dequeue (st : Schedule) (order : List ExecutionId) (now : Seconds) : Option Schedule :=
  if st.now ≤ now then
    (st.redis.hgetall order).bind fun waiting =>
      match ({} : Settings).selectHighestPriority waiting now with
      | .ok (some best) => (waiting.lookup best).map fun payload =>
          { redis := (st.redis.hdel 0 best).2
            now
            served := st.served ++ [⟨payload, (st.redis.hdel 0 best).2.queue⟩] }
      | .ok none => some { st with now }
      | .error _ => none
  else none

end Schedule

/-- The queue in sequential use, from a clock reading on. -/
def ageing (start : Seconds) : System Schedule QueueEvent where
  init := { now := start }
  step
    | st, .enqueue payload now => st.enqueue payload now
    | st, .dequeue order now => st.dequeue order now

/-- At a dequeue every newcomer is still behind the executions it is a newcomer to. -/
def newcomersBehind (st : Schedule) : QueueEvent → Prop
  | .enqueue _ _ => True
  | .dequeue _ now => ∀ a ∈ st.redis.queue, ∀ b ∈ st.redis.queue, b.2.NewcomerTo a.2 →
      b.2.BehindAt a.2 now

instance (st : Schedule) : (ev : QueueEvent) → Decidable (newcomersBehind st ev)
  | .enqueue _ _ => .isTrue trivial
  | .dequeue _ now => inferInstanceAs (Decidable (∀ a ∈ st.redis.queue, ∀ b ∈ st.redis.queue,
      b.2.NewcomerTo a.2 → b.2.BehindAt a.2 now))

/-- No dequeue has returned a newcomer to an execution that it left waiting. -/
def Schedule.Fair (st : Schedule) : Prop :=
  ∀ served ∈ st.served, ∀ a ∈ served.left, ¬served.payload.NewcomerTo a.2

/-! ## Runs -/

theorem lookup_eq_some_of_mem {l : List (ExecutionId × Payload)} (hl : (l.map (·.1)).Nodup)
    {a : ExecutionId × Payload} (ha : a ∈ l) : l.lookup a.1 = some a.2 := by
  obtain ⟨l₁, l₂, rfl⟩ := List.append_of_mem ha
  refine List.lookup_eq_some_iff.2 ⟨l₁, l₂, rfl, fun c hc => ?_⟩
  rw [List.map_append, List.nodup_append] at hl
  have hne := hl.2.2 c.1 (List.mem_map_of_mem hc) a.1 (by simp)
  simpa using Ne.symm hne

/-- A scan lists every entry. -/
theorem mem_hgetall_of_mem {r : Redis} (hr : r.waitingIds.Nodup) {order : List ExecutionId}
    {waiting : List (ExecutionId × Payload)} (h : r.hgetall order = some waiting)
    {a : ExecutionId × Payload} (ha : a ∈ r.queue) : a ∈ waiting := by
  unfold Redis.hgetall at h
  split at h
  · next hperm =>
    cases h
    have hmem : a.1 ∈ order := hperm.mem_iff.2 (List.mem_map_of_mem ha)
    refine List.mem_filterMap.2 ⟨a.1, hmem, ?_⟩
    rw [lookup_eq_some_of_mem hr ha]
    rfl
  · cases h

/-- Ids are distinct, and nothing was enqueued in the future. -/
structure Schedule.Tidy (st : Schedule) : Prop where
  nodup : st.redis.waitingIds.Nodup
  past : ∀ a ∈ st.redis.queue, a.2.enqueuedAt ≤ st.now

namespace Schedule

variable {st st' : Schedule}

theorem Tidy.enqueue (h : st.Tidy) {payload : Payload} {now : Seconds}
    (hs : st.enqueue payload now = some st') : st'.Tidy ∧ st'.served = st.served := by
  unfold Schedule.enqueue at hs
  split at hs
  · next hok =>
    cases hs
    have hfilter : st.redis.queue.filter (·.1 ≠ payload.executionId) = st.redis.queue := by
      refine List.filter_eq_self.2 fun a ha => ?_
      have hne : a.1 ≠ payload.executionId := fun heq => hok.2 (heq ▸ List.mem_map_of_mem ha)
      simpa using hne
    refine ⟨⟨?_, fun a ha => ?_⟩, rfl⟩
    · simp only [Redis.waitingIds, Redis.hset, hfilter, List.map_append, List.map_cons,
        List.map_nil]
      exact List.nodup_append.2 ⟨h.nodup, List.nodup_singleton _, fun x hx y hy => by
        rw [List.mem_singleton.1 hy]
        exact fun heq => hok.2 (heq ▸ hx)⟩
    · rcases List.mem_append.1 ha with ha | ha
      · exact (h.past a (List.mem_filter.1 ha).1).trans hok.1
      · rw [List.mem_singleton.1 ha]
  · cases hs

/-- A dequeue returns an entry that none of the others outscores. -/
theorem Tidy.dequeue (h : st.Tidy) {order : List ExecutionId} {now : Seconds}
    (hs : st.dequeue order now = some st') :
    st'.Tidy ∧ (st'.served = st.served ∨ ∃ b ∈ st.redis.queue, b.2.enqueuedAt ≤ now ∧
      st'.served = st.served ++ [⟨b.2, st'.redis.queue⟩] ∧
      ∀ a ∈ st'.redis.queue, a ∈ st.redis.queue ∧ defaultScore a.2 now ≤ defaultScore b.2 now) := by
  unfold Schedule.dequeue at hs
  split at hs
  · next hnow =>
    obtain ⟨waiting, hread, hs⟩ := Option.bind_eq_some_iff.1 hs
    split at hs
    · next best hbest =>
      obtain ⟨payload, hlook, rfl⟩ := Option.map_eq_some_iff.1 hs
      have hleft : ∀ a ∈ (st.redis.hdel 0 best).2.queue, a ∈ st.redis.queue :=
        fun a ha => (List.mem_filter.1 ha).1
      obtain ⟨l₁, l₂, hsplit, -⟩ := List.lookup_eq_some_iff.1 hlook
      have hmem : (best, payload) ∈ st.redis.queue := by
        refine Redis.mem_of_hgetall hread _ ?_
        rw [hsplit]
        exact List.mem_append_right _ List.mem_cons_self
      refine ⟨⟨?_, fun a ha => (h.past a (hleft a ha)).trans hnow⟩, .inr ⟨(best, payload), hmem,
        (h.past _ hmem).trans hnow, rfl, fun a ha => ⟨hleft a ha, ?_⟩⟩⟩
      · exact h.nodup.sublist (List.filter_sublist.map _)
      · obtain ⟨payload', x, hmem', hx, hmax⟩ := Settings.selectHighestPriority_some hbest
        obtain ⟨y, hy, hle⟩ := hmax a (mem_hgetall_of_mem h.nodup hread (hleft a ha))
        have heq := lookup_eq_some_of_mem h.nodup (Redis.mem_of_hgetall hread _ hmem')
        rw [lookup_eq_some_of_mem h.nodup hmem] at heq
        obtain rfl := Option.some.inj heq
        rw [score_default] at hx hy
        rw [Except.ok.inj hx, Except.ok.inj hy]
        exact hle
    · cases hs
      exact ⟨⟨h.nodup, fun a ha => (h.past a ha).trans hnow⟩, .inl rfl⟩
    · cases hs
  · cases hs

end Schedule

/-- One step keeps a fair schedule fair while newcomers are behind. -/
theorem fair_step {start : Seconds} {st st' : Schedule} {ev : QueueEvent} (ht : st.Tidy)
    (hf : st.Fair) (hok : newcomersBehind st ev) (hs : (ageing start).step st ev = some st') :
    st'.Tidy ∧ st'.Fair := by
  cases ev with
  | enqueue payload now =>
    obtain ⟨ht', hserved⟩ := ht.enqueue hs
    exact ⟨ht', fun served hmem => hf served (hserved ▸ hmem)⟩
  | dequeue order now =>
    obtain ⟨ht', hserved | ⟨b, hb, hpast, hserved, hmax⟩⟩ := ht.dequeue hs
    · exact ⟨ht', fun served hmem => hf served (hserved ▸ hmem)⟩
    · refine ⟨ht', fun served hmem a ha hnew => ?_⟩
      rw [hserved] at hmem
      rcases List.mem_append.1 hmem with hmem | hmem
      · exact hf served hmem a ha hnew
      · obtain rfl := List.mem_singleton.1 hmem
        obtain ⟨haq, hle⟩ := hmax a ha
        have hlt := (defaultScore_lt_iff hnew hpast).2 (hok a haq b hb hnew)
        exact absurd hle (not_le.2 hlt)

/-! ## Where the guarantee fails -/

/-- An entry that nothing outscores stays selected. -/
theorem foldlM_better_stays {now : Seconds} {id : ExecutionId} {x : ℚ}
    {waiting : List (ExecutionId × Payload)} (h : ∀ a ∈ waiting, defaultScore a.2 now ≤ x) :
    waiting.foldlM (({} : Settings).better now) (some (id, x)) = .ok (some (id, x)) := by
  induction waiting with
  | nil => rfl
  | cons a rest ih =>
    have hstay : ({} : Settings).better now (some (id, x)) a = .ok (some (id, x)) := by
      simp only [Settings.better, score_default, bind, Except.bind, pure, Except.pure]
      rw [if_neg (not_lt.2 (h a List.mem_cons_self))]
    rw [List.foldlM_cons, hstay]
    exact ih fun c hc => h c (List.mem_cons_of_mem _ hc)

theorem selectHighestPriority_cons {now : Seconds} {b : ExecutionId × Payload}
    {waiting : List (ExecutionId × Payload)}
    (h : ∀ a ∈ waiting, defaultScore a.2 now ≤ defaultScore b.2 now) :
    ({} : Settings).selectHighestPriority (b :: waiting) now = .ok (some b.1) := by
  have hfirst : ({} : Settings).better now none b = .ok (some (b.1, defaultScore b.2 now)) := by
    simp only [Settings.better, score_default, bind, Except.bind, pure, Except.pure]
  unfold Settings.selectHighestPriority
  rw [List.foldlM_cons, hfirst]
  show (waiting.foldlM _ _ >>= _) = _
  rw [foldlM_better_stays h]
  rfl

/-- An entry that nothing outscores may be returned: Redis may list it first. -/
theorem exists_dequeue_best {st : Schedule} (ht : st.Tidy) {now : Seconds} (hnow : st.now ≤ now)
    {b : ExecutionId × Payload} (hb : b ∈ st.redis.queue)
    (hbest : ∀ c ∈ st.redis.queue, defaultScore c.2 now ≤ defaultScore b.2 now) :
    ∃ order, st.dequeue order now = some
      { redis := (st.redis.hdel 0 b.1).2
        now
        served := st.served ++ [⟨b.2, (st.redis.hdel 0 b.1).2.queue⟩] } := by
  have hbmem : b.1 ∈ st.redis.queue.map (·.1) := List.mem_map_of_mem hb
  have hperm : (b.1 :: (st.redis.queue.map (·.1)).erase b.1).Perm (st.redis.queue.map (·.1)) :=
    (List.perm_cons_erase hbmem).symm
  have hread : st.redis.hgetall (b.1 :: (st.redis.queue.map (·.1)).erase b.1) =
      some (b :: ((st.redis.queue.map (·.1)).erase b.1).filterMap fun id =>
        (st.redis.queue.lookup id).map fun payload => (id, payload)) := by
    rw [Redis.hgetall, if_pos hperm, List.filterMap_cons, lookup_eq_some_of_mem ht.nodup hb]
    rfl
  have hmem := Redis.mem_of_hgetall hread
  refine ⟨b.1 :: (st.redis.queue.map (·.1)).erase b.1, ?_⟩
  rw [Schedule.dequeue, if_pos hnow, hread]
  dsimp only [Option.bind_some]
  rw [selectHighestPriority_cons fun c hc => hbest c (hmem c (List.mem_cons_of_mem _ hc))]
  dsimp only
  rw [List.lookup_cons_self]
  rfl

/-- A newcomer that is not behind is returned first in some continuation: whatever outscores it goes
before, and then it does. -/
theorem exists_unfair_run {start : Seconds} {now : Seconds} {a b : ExecutionId × Payload}
    (hnew : b.2.NewcomerTo a.2) (hle : defaultScore a.2 now ≤ defaultScore b.2 now) (n : Nat) :
    ∀ st : Schedule, st.redis.queue.length = n → st.Tidy → st.now ≤ now →
      a ∈ st.redis.queue → b ∈ st.redis.queue →
        ∃ st', (ageing start).Path System.anyStep st st' ∧ ¬st'.Fair := by
  induction n using Nat.strongRecOn with
  | ind n ih =>
    intro st hn ht hnow ha hb
    obtain ⟨m, hm, hmax⟩ := Finset.exists_max_image st.redis.queue.toFinset
      (fun c => defaultScore c.2 now) ⟨b, List.mem_toFinset.2 hb⟩
    simp only [List.mem_toFinset] at hm hmax
    have hkeep : ∀ c ∈ st.redis.queue, ∀ d ∈ st.redis.queue, c.2 ≠ d.2 →
        c ∈ (st.redis.hdel 0 d.1).2.queue := by
      intro c hc d hd hne
      refine List.mem_filter.2 ⟨hc, ?_⟩
      have hid : c.1 ≠ d.1 := by
        intro heq
        have hlook := lookup_eq_some_of_mem ht.nodup hc
        rw [heq, lookup_eq_some_of_mem ht.nodup hd] at hlook
        exact hne (Option.some.inj hlook).symm
      simpa using hid
    by_cases hlt : defaultScore b.2 now < defaultScore m.2 now
    · -- `m` goes first and leaves both in the queue
      obtain ⟨order, hs⟩ := exists_dequeue_best ht hnow hm hmax
      have hshort : (st.redis.hdel 0 m.1).2.queue.length < n := by
        rw [← hn]
        refine List.length_filter_lt_length_iff_exists.2 ⟨m, hm, by simp⟩
      obtain ⟨st', hpath, hunfair⟩ := ih _ hshort _ rfl (ht.dequeue hs).1 (le_refl now)
        (hkeep a ha m hm fun heq => absurd (heq ▸ hle) (not_le.2 hlt))
        (hkeep b hb m hm fun heq => absurd hlt (by rw [heq]; exact lt_irrefl _))
      exact ⟨st', Relation.ReflTransGen.head ⟨.dequeue order now, trivial, hs⟩ hpath, hunfair⟩
    · obtain ⟨order, hs⟩ := exists_dequeue_best ht hnow hb
        fun c hc => (hmax c hc).trans (not_lt.1 hlt)
      refine ⟨_, Relation.ReflTransGen.single ⟨.dequeue order now, trivial, hs⟩, fun hfair => ?_⟩
      refine hfair _ (List.mem_append_right _ List.mem_cons_self) a (hkeep a ha b hb ?_) hnew
      intro heq
      have hself : a.2.enqueuedAt + 30 ≤ b.2.enqueuedAt := hnew
      rw [heq] at hself
      linarith

theorem tidy_of_reachable {start : Seconds} {st : Schedule} (h : (ageing start).Reachable st) :
    st.Tidy := by
  refine h.induction (P := Schedule.Tidy) ⟨List.nodup_nil, fun a ha => by cases ha⟩ ?_
  intro st ev st' _ ht _ hs
  cases ev with
  | enqueue payload now => exact (ht.enqueue hs).1
  | dequeue order now => exact (ht.dequeue hs).1

/-- **No starvation by newcomers, while they are behind.** With the default settings: in a schedule
in which every dequeue finds each newcomer still behind the executions it is a newcomer to, no
dequeue ever returns a newcomer to an execution it leaves waiting. From a dequeue that finds one no
longer behind, some continuation does. -/
theorem no_starvation_while_behind (start : Seconds) :
    (∀ st, (ageing start).ReachableUnder newcomersBehind st → st.Fair) ∧
    ∀ st order now, (ageing start).Reachable st → st.now ≤ now →
      ¬newcomersBehind st (.dequeue order now) →
        ∃ st', (ageing start).Path System.anyStep st st' ∧ ¬st'.Fair := by
  refine ⟨fun st h => ?_, fun st order now h hnow hbehind => ?_⟩
  · have key : st.Tidy ∧ st.Fair := by
      refine h.induction (P := fun st => st.Tidy ∧ st.Fair) ?_ fun st ev st' _ ih hok hs =>
        fair_step ih.1 ih.2 hok hs
      exact ⟨⟨List.nodup_nil, fun a ha => by cases ha⟩, fun served hmem => by cases hmem⟩
    exact key.2
  · simp only [newcomersBehind, not_forall] at hbehind
    obtain ⟨a, ha, b, hb, hnew, hnot⟩ := hbehind
    have ht := tidy_of_reachable h
    have hle := not_lt.1 fun hlt =>
      hnot ((defaultScore_lt_iff hnew ((ht.past b hb).trans hnow)).1 hlt)
    exact exists_unfair_run hnew hle _ st rfl ht hnow ha hb

/-- A run queued by a member with this role. -/
def queuedBy (role : Role) (language : Language) (id : ExecutionId) : Payload :=
  { executionId := id, projectId := 0, fileId := 0, role, language, enqueuedAt := 0 }

/-- An editor's C++ run goes before an owner's, enqueued 31 seconds after it, while that one has
not waited for 17 seconds. -/
theorem no_starvation_while_behind_early :
    ∃ st, (ageing 0).ReachableUnder newcomersBehind st ∧ st.served.length = 2 ∧ st.Fair := by
  have hrun : ((ageing 0).replay newcomersBehind (ageing 0).init
      [.enqueue (queuedBy .editor .cpp 1) 0, .enqueue (queuedBy .owner .python 2) 31,
        .dequeue [1, 2] 40, .dequeue [2] 41]).any
      (fun st => decide (st.served.length = 2)) = true := by decide +kernel
  obtain ⟨st, hst, hlen⟩ := System.exists_reachable hrun
  exact ⟨st, hst, of_decide_eq_true hlen, (no_starvation_while_behind 0).1 st hst⟩

/-- An editor's C++ run is still waiting when an owner's Python run, enqueued 31 seconds after it,
is returned. -/
theorem newcomer_overtakes :
    ¬∀ st, (ageing 0).Reachable st → st.Fair := by
  have hrun : ((ageing 0).replay System.anyStep (ageing 0).init
      [.enqueue (queuedBy .editor .cpp 1) 0, .enqueue (queuedBy .owner .python 2) 31,
        .dequeue [1, 2] 61]).any
      (fun st => st.served.any fun served => served.left.any fun a =>
        decide (served.payload.NewcomerTo a.2)) = true := by decide +kernel
  intro hfair
  obtain ⟨st, hst, hunfair⟩ := System.exists_reachable hrun
  obtain ⟨served, hserved, hleft⟩ := List.any_eq_true.1 hunfair
  obtain ⟨a, ha, hnew⟩ := List.any_eq_true.1 hleft
  exact hfair st hst served hserved a ha (of_decide_eq_true hnew)

end Concord
