import Concord.Assistant.Lifecycle
import Concord.Base.FixedWindow

/-!
# The quota of a project

`check_rate_limit` counts the requests of a project in Redis, under a key that expires with its window. The numbers that
the script answers are those of a fixed window (`Tally`), so that the limit is kept across any two windows, whoever
asks and when, and whatever answers are lost (`quota_exact`).
-/

namespace Concord.Assistant

open Concord.Base Async Agent
open Str (ofString)

section Quota

variable {F : Type} (s : AssistantSettings) (project : ProjectId)

/-- The length of a window, in milliseconds. -/
def AssistantSettings.windowLength : Nat := 1000 * s.rateLimitWindow.toNat

def AssistantSettings.limit : Nat := s.rateLimitRequests.toNat

/-- The limiter has let a request of the project through. -/
def admits (e : Entry F) : Bool :=
  match e.call with
  | ⟨.countRequest q _, .ok (current, _)⟩ => q = project && current ≤ s.rateLimitRequests
  | _ => false

/-- The limiter has refused a request of the project. -/
def refuses (e : Entry F) : Bool :=
  match e.call with
  | ⟨.countRequest q _, .ok (current, _)⟩ => q = project && s.rateLimitRequests < current
  | _ => false

/-- The limiter has let a request of the project through, or its answer was lost. -/
def passes (e : Entry F) : Bool := decide (project ∈ grants s e.call)

/-- The number of the entries that meet `f`, at times that meet `P`. -/
def countAt (f : Entry F → Bool) (P : Nat → Prop) [DecidablePred P] (l : List (Entry F)) : Nat :=
  l.countP fun e => f e ∧ P e.after.now

/-- The hits count the requests that were let through, and are among those that passed. -/
structure Reflects (l : List (Entry F)) (hits : List Hit) : Prop where
  admitted : ∀ (P : Nat → Prop) [DecidablePred P],
    countAt (admits s project) P l ≤ hitsWithin s.limit P hits
  passed : ∀ (P : Nat → Prop) [DecidablePred P], hitsWithin s.limit P hits ≤ countAt (passes s project) P l

/-- The counter of the project is the one of a fixed window. -/
def Metered (st : State) (l : List (Entry F)) : Prop :=
  ∃ hits, Reflects s project l hits ∧
    (st.quota project = none ∧ hits = [] ∨
      ∃ w : Window, st.quota project = some ⟨w.count, some (w.start + s.windowLength)⟩ ∧ w.start ≤ st.now ∧
        Tally s.windowLength s.limit w hits)

/-- Each request that was refused came when the limit was used up. -/
def Justified (l : List (Entry F)) : Prop :=
  ∀ before e after, l = before ++ e :: after → refuses s project e = true →
    s.limit ≤ countAt (passes s project) (e.after.now ≤ · + s.windowLength) before

end Quota

section Steps

variable {F : Type} {s : AssistantSettings} {project : ProjectId} {st st' : State} {l : List (Entry F)} {e : Entry F}
  {hits : List Hit}

theorem countAt_append {f : Entry F → Bool} {P : Nat → Prop} [DecidablePred P] :
    countAt f P (l ++ [e]) = countAt f P l + if f e ∧ P e.after.now then 1 else 0 := by
  simp [countAt, List.countP_append, List.countP_cons]

/-- An entry that adds no hit. -/
theorem Reflects.skip (h : Reflects s project l hits) (hnot : admits s project e = false) :
    Reflects s project (l ++ [e]) hits where
  admitted P _ := by
    rw [countAt_append, hnot]
    simpa using h.admitted P
  passed P _ := by
    rw [countAt_append]
    exact Nat.le_trans (h.passed P) (Nat.le_add_right _ _)

/-- An entry that adds a hit. -/
theorem Reflects.hit (h : Reflects s project l hits) {number : Nat}
    (hadmitted : admits s project e = true → number ≤ s.limit)
    (hpassed : number ≤ s.limit → passes s project e = true) :
    Reflects s project (l ++ [e]) (hits ++ [⟨e.after.now, number⟩]) where
  admitted P _ := by
    have hold := h.admitted P
    rw [countAt_append, hitsWithin_append, hitsWithin_singleton]
    split
    · next hcounted =>
      rw [if_pos ⟨hadmitted hcounted.1, hcounted.2⟩]
      omega
    · omega
  passed P _ := by
    have hold := h.passed P
    rw [countAt_append, hitsWithin_append, hitsWithin_singleton]
    split
    · next hcounted =>
      rw [if_pos ⟨hpassed hcounted.1, hcounted.2⟩]
      omega
    · omega

theorem Metered.skip (h : Metered s project st l) (hnot : admits s project e = false)
    (hquota : st'.quota project = st.quota project) (hnow : st.now ≤ st'.now) : Metered s project st' (l ++ [e]) := by
  obtain ⟨hits, hreflects, hcounter⟩ := h
  refine ⟨hits, hreflects.skip hnot, ?_⟩
  rw [hquota]
  exact hcounter.imp_right fun ⟨w, hw, hstart, htally⟩ => ⟨w, hw, Nat.le_trans hstart hnow, htally⟩

/-- What the script does, in terms of windows. -/
theorem countRequest_spec (hwindow : 0 < s.rateLimitWindow) (h : Metered s project st l) :
    ∃ (hits : List Hit) (w : Window), Reflects s project l hits ∧
      (st.countRequest project s.rateLimitWindow).1.1 = w.count ∧
      (st.countRequest project s.rateLimitWindow).2.quota =
        Function.update st.quota project (some ⟨w.count, some (w.start + s.windowLength)⟩) ∧
      w.start ≤ st.now ∧ Tally s.windowLength s.limit w (hits ++ [⟨st.now, w.count⟩]) ∧
      (s.limit < w.count → s.limit ≤ hitsWithin s.limit (st.now ≤ · + s.windowLength) hits) := by
  obtain ⟨hits, hreflects, hcounter⟩ := h
  -- a new window is opened when there is no counter, or it has expired
  have hopen : st.quota.get project st.now = none →
      Tally s.windowLength s.limit ⟨st.now, 1⟩ (hits ++ [⟨st.now, 1⟩]) →
      ∃ (hits : List Hit) (w : Window), Reflects s project l hits ∧
        (st.countRequest project s.rateLimitWindow).1.1 = w.count ∧
        (st.countRequest project s.rateLimitWindow).2.quota =
          Function.update st.quota project (some ⟨w.count, some (w.start + s.windowLength)⟩) ∧
        w.start ≤ st.now ∧ Tally s.windowLength s.limit w (hits ++ [⟨st.now, w.count⟩]) ∧
        (s.limit < w.count → s.limit ≤ hitsWithin s.limit (st.now ≤ · + s.windowLength) hits) := by
    intro hnone htally
    have hnew : Counters.get (Function.update st.quota project (some { count := 1 })) project st.now =
        some { count := 1 } := by simp [Counters.get, Option.filter, Counter.live]
    refine ⟨hits, ⟨st.now, 1⟩, hreflects, ?_, ?_, Nat.le_refl _, htally, fun hover => ?_⟩
    · rw [State.countRequest, Counters.incr_of_none hnone]
    · rw [State.countRequest, Counters.incr_of_none hnone]
      dsimp only
      rw [if_pos rfl, Counters.expire_of_some hnew hwindow, Function.update_idem]
      rfl
    · dsimp only at hover
      omega
  rcases hcounter with ⟨hnone, rfl⟩ | ⟨w, hw, hstart, htally⟩
  · refine hopen ?_ (Tally.first st.now)
    rw [Counters.get, hnone]
    rfl
  · cases hget : st.quota.get project st.now with
    | none => exact hopen hget (htally.newWindow (Counters.lt_of_get_eq_none hget hw rfl))
    | some c =>
      obtain ⟨hc, hlive⟩ := Counters.get_eq_some.1 hget
      obtain rfl : c = _ := Option.some.inj (hc.symm.trans hw)
      have hnow : st.now ≤ w.start + s.windowLength := by simpa [Counter.live] using hlive
      have hpos := htally.pos
      refine ⟨hits, { w with count := w.count + 1 }, hreflects, ?_, ?_, hstart, htally.next hstart hnow,
        fun hover => ?_⟩
      · rw [State.countRequest, Counters.incr_of_some hget]
      · rw [State.countRequest, Counters.incr_of_some hget]
        dsimp only
        rw [if_neg (by omega)]
      · dsimp only at hover
        exact htally.exhausted hnow (by omega)

/-- The state at the time of an operation. -/
def State.later (st : State) (env : Env) : State := { st with now := st.now + env.elapsed }

/-- An operation has its effect, or none. -/
theorem perform_cases {lib : Library F} {env : Env} {o : Op F} {x : Except Raised o.Val}
    (h : o.perform lib env st = (x, st')) :
    (x, st') = o.run lib env (st.later env) ∨
      ∃ e, x = .error e ∧ (st' = (o.run lib env (st.later env)).2 ∨ st' = st.later env) := by
  unfold Op.perform at h
  dsimp only at h
  split at h
  · next e _ =>
    split at h
    · obtain ⟨rfl, rfl⟩ := Prod.mk.inj h
      refine .inr ⟨e, rfl, ?_⟩
      split
      · exact .inl rfl
      · exact .inr rfl
    · exact .inl h.symm
  · exact .inl h.symm

/-- A counter is given a timeout without regard to the others. -/
theorem expire_of_ne {t : Counters ProjectId} {q : ProjectId} {now : Nat} {seconds : Int} (hne : project ≠ q) :
    t.expire q now seconds project = t project := by
  unfold Counters.expire
  cases t.get q now with
  | none => rfl
  | some c => exact Function.update_of_ne hne _ _

/-- The operations that are no script of this project leave its counter alone. -/
theorem run_quota {lib : Library F} {env : Env} {o : Op F} (ho : ∀ window, o ≠ .countRequest project window) :
    (o.run lib env st).2.quota project = st.quota project ∧ (o.run lib env st).2.now = st.now := by
  cases o with
  | countRequest q window =>
    have hne : project ≠ q := fun hq => ho window (hq ▸ rfl)
    refine ⟨?_, rfl⟩
    have hincr : (st.quota.incr q st.now).2 project = st.quota project := by
      unfold Counters.incr
      exact Function.update_of_ne hne _ _
    dsimp only [Op.run, State.countRequest]
    split
    · exact (expire_of_ne hne).trans hincr
    · exact hincr
  | _ => exact ⟨rfl, rfl⟩

theorem not_admits {o : Op F} {x : Except Raised o.Val} {p : Pid} (ho : ∀ window, o ≠ .countRequest project window) :
    admits s project ⟨p, ⟨o, x⟩, st, st'⟩ = false ∧ refuses s project ⟨p, ⟨o, x⟩, st, st'⟩ = false := by
  cases o with
  | countRequest q window =>
    have hne : q ≠ project := fun hq => ho window (hq ▸ rfl)
    cases x <;> simp [admits, refuses, hne]
  | _ => exact ⟨rfl, rfl⟩

/-- One operation keeps the counter that of a window, and is refused only when the limit is used up. -/
theorem Metered.step {lib : Library F} {env : Env} {o : Op F} {x : Except Raised o.Val} {p : Pid}
    (hwindow : 0 < s.rateLimitWindow) (h : Metered s project st l)
    (ho : ∀ q window, o = .countRequest q window → window = s.rateLimitWindow)
    (hperform : o.perform lib env st = (x, st')) :
    Metered s project st' (l ++ [⟨p, ⟨o, x⟩, st, st'⟩]) ∧
      (refuses s project ⟨p, ⟨o, x⟩, st, st'⟩ = true →
        s.limit ≤ countAt (passes s project) (st'.now ≤ · + s.windowLength) l) := by
  have hlater : Metered s project (st.later env) l := by
    obtain ⟨hits, hreflects, hcounter⟩ := h
    refine ⟨hits, hreflects, hcounter.imp_right fun ⟨w, hw, hstart, htally⟩ => ⟨w, hw, ?_, htally⟩⟩
    exact Nat.le_trans hstart (Nat.le_add_right _ _)
  by_cases hproject : ∃ window, o = .countRequest project window
  · obtain ⟨window, rfl⟩ := hproject
    obtain rfl := ho project window rfl
    obtain ⟨hits, w, hreflects, hnumber, hquota, hstart, htally, hexhausted⟩ := countRequest_spec hwindow hlater
    have hnow : ((st.later env).countRequest project s.rateLimitWindow).2.now = (st.later env).now := rfl
    have hcountRequest : Op.run lib env (st.later env) (.countRequest project s.rateLimitWindow) =
      (.ok ((st.later env).countRequest project s.rateLimitWindow).1,
        ((st.later env).countRequest project s.rateLimitWindow).2) := rfl
    generalize (st.later env).countRequest project s.rateLimitWindow = counted at hnumber hquota hnow hcountRequest
    obtain ⟨⟨number, ttl⟩, counted⟩ := counted
    obtain rfl : number = w.count := hnumber
    have hperformed := perform_cases hperform
    rw [hcountRequest] at hperformed
    -- the counter has gone up, whether or not the answer has come
    have hcounted : ∀ {x : Except Raised (Nat × Int)} {st'' : State}
        (e : Entry F), e = ⟨p, ⟨.countRequest project s.rateLimitWindow, x⟩, st, st''⟩ →
        st'' = counted → (admits s project e = true → w.count ≤ s.limit) →
        (w.count ≤ s.limit → passes s project e = true) → Metered s project st'' (l ++ [e]) := by
      rintro x st'' e rfl rfl hadmitted hpassed
      have htime := hreflects.hit hadmitted hpassed
      dsimp only at htime
      rw [hnow] at htime
      refine ⟨_, htime, .inr ⟨w, ?_, hnow ▸ hstart, htally⟩⟩
      rw [hquota, Function.update_self]
    rcases hperformed with hrun | ⟨e, rfl, hst'⟩
    · obtain ⟨rfl, rfl⟩ := Prod.mk.inj hrun
      have hpos := htally.pos
      refine ⟨hcounted _ rfl rfl (fun hadmitted => ?_) fun hlimit => ?_, fun hrefused => ?_⟩
      · have hle : w.count ≤ s.rateLimitRequests := by simpa [admits] using hadmitted
        unfold AssistantSettings.limit
        omega
      · have hle : (w.count : Int) ≤ s.rateLimitRequests := by
          unfold AssistantSettings.limit at hlimit
          omega
        simp [passes, grants, hle]
      · have hlt : s.rateLimitRequests < w.count := by simpa [refuses] using hrefused
        rw [hnow]
        refine Nat.le_trans (hexhausted ?_) (hreflects.passed _)
        unfold AssistantSettings.limit
        omega
    · refine ⟨?_, fun hrefused => by cases hrefused⟩
      rcases hst' with rfl | rfl
      · exact hcounted _ rfl rfl (fun hadmitted => by cases hadmitted) fun _ => by simp [passes, grants]
      · exact hlater.skip rfl rfl (Nat.le_refl _)
  · rw [not_exists] at hproject
    obtain ⟨hnot, hnotRefused⟩ : admits s project ⟨p, ⟨o, x⟩, st, st'⟩ = false ∧
      refuses s project ⟨p, ⟨o, x⟩, st, st'⟩ = false := not_admits hproject
    have hst' : st'.quota project = (st.later env).quota project ∧ st'.now = (st.later env).now := by
      rcases perform_cases hperform with hrun | ⟨e, rfl, rfl | rfl⟩
      · obtain ⟨rfl, rfl⟩ := Prod.mk.inj hrun
        exact run_quota hproject
      · exact run_quota hproject
      · exact ⟨rfl, rfl⟩
    exact ⟨hlater.skip hnot hst'.1 hst'.2.ge, fun hrefused => by rw [hnotRefused] at hrefused; cases hrefused⟩

end Steps

section Runs

variable {F : Type} {s : AssistantSettings} {lib : Library F} {cfg : JournalConfig F}

theorem metered_of_reachable (project : ProjectId) (hwindow : 0 < s.rateLimitWindow)
    (h : (assistant s lib).journaled.system.Reachable cfg) :
    Metered s project cfg.shared.1 cfg.shared.2 ∧ Justified s project cfg.shared.2 := by
  refine h.induction (P := fun cfg => Metered s project cfg.shared.1 cfg.shared.2 ∧ Justified s project cfg.shared.2)
    ?_ fun cfg l cfg' hcfg ih _ hstep => ?_
  · have hreflects : Reflects s project ([] : List (Entry F)) [] := ⟨fun P _ => Nat.le_refl _, fun P _ => Nat.zero_le _⟩
    refine ⟨⟨[], hreflects, .inl ⟨rfl, rfl⟩⟩, fun before e after hnil _ => ?_⟩
    exact absurd hnil.symm (List.append_ne_nil_of_right_ne_nil _ (List.cons_ne_nil _ _))
  · rcases Machine.journaled_step hstep with ⟨p, r, rfl, -, rfl⟩ | ⟨p, env, ask, o, k, x, st', rfl, hp, hexec, rfl⟩
    · exact ih
    · obtain ⟨gs, hfits⟩ := fits_of_reachable hcfg
      have hcounts := (hfits.at_next hp).2 o rfl
      have ho : ∀ q window, o = .countRequest q window → window = s.rateLimitWindow := by
        rintro q window rfl
        exact hcounts.2
      obtain ⟨hmetered, hjustified⟩ := ih.1.step (p := p) hwindow ho (Option.some.inj hexec)
      refine ⟨hmetered, fun before e after hsplit hrefused => ?_⟩
      rcases List.eq_nil_or_concat after with rfl | ⟨after', e', rfl⟩
      · obtain ⟨rfl, hlast⟩ := List.append_inj' hsplit rfl
        obtain rfl := List.singleton_inj.1 hlast
        exact hjustified hrefused
      · rw [List.concat_eq_append, ← List.cons_append, ← List.append_assoc] at hsplit
        exact ih.2 before e after' (List.append_inj' hsplit rfl).1 hrefused

end Runs

/-- Five requests with a limit of two: one at first, one at the end of its window, and three right after. -/
def fiveRequests : List (Label Env Ask) :=
  let ask : Ask := { project := 1, user := { id := 1, username := [] }, payload := { prompt := [] } }
  let counted (p : Pid) (elapsed : Nat) : List (Label Env Ask) :=
    [.spawn p ask, .run p (goesOn []), .run p { goesOn [] with elapsed }]
  counted 0 0 ++ counted 1 60000 ++ counted 2 1 ++ counted 3 0 ++ counted 4 0

def twoAMinute : AssistantSettings := { rateLimitRequests := 2 }

/-- Three requests have been let through within a minute, and the last one has been refused. -/
def threeOfFive (cfg : JournalConfig Empty) : Bool :=
  3 ≤ countAt (admits twoAMinute 1) (fun t => 60000 ≤ t ∧ t ≤ 60000 + 60000) cfg.shared.2 &&
    (cfg.shared.2.getLast?.any fun e => refuses twoAMinute 1 e)

end Concord.Assistant
