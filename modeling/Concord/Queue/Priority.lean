import Concord.Models
import Mathlib

/-!
# Priority of waiting executions

`compute_priority` and `_select_highest_priority` of `realtime/execution_queue.py`, with the scores
over exact rationals.
-/

namespace Concord

/-- What a debug session needs to know when it starts (`_debug_info`). -/
structure DebugInfo where
  breakpoints : List (String × List Nat)
  fileIds : List (String × FileId)
  userId : UserId
  username : String
deriving DecidableEq, Repr

/-- The payload of a waiting execution. A key that the readers have a default for may be
missing. -/
structure Payload where
  executionId : ExecutionId
  projectId : ProjectId
  fileId : FileId
  sourceText : Option String := none
  workerIdHint : Option String := none
  debug : Option Bool := none
  debugSessionInfo : Option DebugInfo := none
  language : Option Language := none
  stdin : Option String := none
  role : Option Role := none
  enqueuedAt : Seconds
deriving DecidableEq, Repr

/-- `_MAX_ROLE_RANK`. -/
def maxRoleRank : Nat := 3

namespace Settings

variable (s : Settings)

/-- The role term of the score: the rank over the highest rank, with the debug bonus. -/
def roleWeight (role : Role) (debug : Bool) : ℚ :=
  (role.rank : ℚ) / maxRoleRank + if debug then s.priorityDebugBonus else 0

/-- The ageing term before it is weighted. -/
def waitTerm (enqueuedAt now : Seconds) : ℚ :=
  min (max (now - enqueuedAt) 0 / s.priorityWaitSaturationSeconds) 1

def compileCost (language : Language) : ℚ := if language = .cpp then 1 else 0

/-- The score without its ageing term. -/
def staticScore (role : Role) (debug : Bool) (language : Language) : ℚ :=
  s.priorityRoleWeight * s.roleWeight role debug
    - s.priorityLangPenaltyWeight * compileCost language

/-- `compute_priority`. Dividing by a saturation time of zero raises. -/
def computePriority (role : Role) (debug : Bool) (language : Language)
    (enqueuedAt now : Seconds) : Except PyError ℚ :=
  if s.priorityWaitSaturationSeconds = 0 then .error .zeroDivision
  else .ok (s.priorityRoleWeight * s.roleWeight role debug
    + s.priorityWaitWeight * s.waitTerm enqueuedAt now
    - s.priorityLangPenaltyWeight * compileCost language)

/-- The score of a payload, with the defaults of its readers. -/
def score (payload : Payload) (now : Seconds) : Except PyError ℚ :=
  s.computePriority (payload.role.getD .editor) (payload.debug.getD false)
    (payload.language.getD .python) payload.enqueuedAt now

/-- One round of the loop of `_select_highest_priority`: an entry replaces the best so far only
if it scores more. -/
def better (now : Seconds) (best : Option (ExecutionId × ℚ)) (entry : ExecutionId × Payload) :
    Except PyError (Option (ExecutionId × ℚ)) := do
  let score ← s.score entry.2 now
  match best with
  | none => return some (entry.1, score)
  | some (id, bestScore) =>
    return if score > bestScore then some (entry.1, score) else some (id, bestScore)

/-- `_select_highest_priority`: the id of the highest-scoring entry, the first one of several. -/
def selectHighestPriority (waiting : List (ExecutionId × Payload)) (now : Seconds) :
    Except PyError (Option ExecutionId) := do
  let best ← waiting.foldlM (s.better now) none
  return best.map (·.1)

end Settings

/-! ## What the selection returns -/

namespace Settings

variable {s : Settings} {now : Seconds}

theorem computePriority_ok_iff {role : Role} {debug : Bool} {language : Language}
    {enqueuedAt : Seconds} {x : ℚ} :
    s.computePriority role debug language enqueuedAt now = .ok x ↔
      s.priorityWaitSaturationSeconds ≠ 0 ∧
        x = s.staticScore role debug language
          + s.priorityWaitWeight * s.waitTerm enqueuedAt now := by
  unfold computePriority staticScore
  split
  · next h => simp [h]
  · next h =>
    simp only [Except.ok.injEq, ne_eq, h, not_false_eq_true, true_and]
    constructor
    · rintro rfl
      ring
    · rintro rfl
      ring

/-- The best entry after a round has one of the two ids, with its own score, and scores at least
as much as both. -/
theorem better_ok {best best' : Option (ExecutionId × ℚ)} {entry : ExecutionId × Payload}
    (h : s.better now best entry = .ok best') :
    ∃ id x score, best' = some (id, x) ∧ s.score entry.2 now = .ok score ∧ score ≤ x ∧
      (id = entry.1 ∧ x = score ∨ best = some (id, x)) ∧ ∀ id' y, best = some (id', y) → y ≤ x := by
  unfold better at h
  cases hs : s.score entry.2 now with
  | error e => simp [hs, bind, Except.bind] at h
  | ok score =>
    simp only [hs, bind, Except.bind] at h
    cases best with
    | none =>
      simp only [pure, Except.pure, Except.ok.injEq] at h
      exact ⟨entry.1, score, score, h.symm, rfl, le_refl _, .inl ⟨rfl, rfl⟩, by simp⟩
    | some b =>
      obtain ⟨id, x⟩ := b
      simp only [pure, Except.pure, Except.ok.injEq] at h
      split at h
      · next hlt =>
        refine ⟨entry.1, score, score, h.symm, rfl, le_refl _, .inl ⟨rfl, rfl⟩, ?_⟩
        intro id' y hy
        cases hy
        exact hlt.le
      · next hge =>
        refine ⟨id, x, score, h.symm, rfl, not_lt.1 hge, .inr rfl, ?_⟩
        intro id' y hy
        cases hy
        exact le_refl _

theorem foldlM_better_ok {waiting : List (ExecutionId × Payload)} :
    ∀ {best best' : Option (ExecutionId × ℚ)},
      waiting.foldlM (s.better now) best = .ok best' →
        (∀ id x, best = some (id, x) → ∃ id' x', best' = some (id', x') ∧ x ≤ x') ∧
        (∀ entry ∈ waiting, ∃ score id x, s.score entry.2 now = .ok score ∧
          best' = some (id, x) ∧ score ≤ x) ∧
        ∀ id x, best' = some (id, x) → best = some (id, x) ∨
          ∃ payload, (id, payload) ∈ waiting ∧ s.score payload now = .ok x := by
  induction waiting with
  | nil =>
    intro best best' h
    simp only [List.foldlM_nil, pure, Except.pure, Except.ok.injEq] at h
    subst h
    exact ⟨fun id x h => ⟨id, x, h, le_refl _⟩, by simp, fun id x h => .inl h⟩
  | cons entry waiting ih =>
    intro best best' h
    rw [List.foldlM_cons] at h
    cases hb : s.better now best entry with
    | error e => simp [hb, bind, Except.bind] at h
    | ok mid =>
      simp only [hb, bind, Except.bind] at h
      obtain ⟨id₁, x₁, score₁, rfl, hs₁, hle₁, hfrom, hold⟩ := better_ok hb
      obtain ⟨hmono, hall, hsrc⟩ := ih h
      obtain ⟨id₂, x₂, h₂, hle₂⟩ := hmono id₁ x₁ rfl
      refine ⟨fun id x hbest => ⟨id₂, x₂, h₂, (hold id x hbest).trans hle₂⟩, ?_, ?_⟩
      · intro e he
        rcases List.mem_cons.1 he with rfl | he
        · exact ⟨score₁, id₂, x₂, hs₁, h₂, hle₁.trans hle₂⟩
        · exact hall e he
      · intro id x hx
        rcases hsrc id x hx with hmid | ⟨payload, hp, hscore⟩
        · simp only [Option.some.injEq, Prod.mk.injEq] at hmid
          obtain ⟨rfl, rfl⟩ := hmid
          rcases hfrom with ⟨rfl, rfl⟩ | hfrom
          · exact .inr ⟨entry.2, List.mem_cons_self, hs₁⟩
          · exact .inl hfrom
        · exact .inr ⟨payload, List.mem_cons_of_mem _ hp, hscore⟩

/-- The selected entry is one of the waiting ones and scores at least as much as every other. -/
theorem selectHighestPriority_some {waiting : List (ExecutionId × Payload)} {id : ExecutionId}
    (h : s.selectHighestPriority waiting now = .ok (some id)) :
    ∃ payload x, (id, payload) ∈ waiting ∧ s.score payload now = .ok x ∧
      ∀ entry ∈ waiting, ∃ y, s.score entry.2 now = .ok y ∧ y ≤ x := by
  unfold selectHighestPriority at h
  cases hf : waiting.foldlM (s.better now) none with
  | error e => simp [hf, bind, Except.bind] at h
  | ok best =>
    simp only [hf, bind, Except.bind, pure, Except.pure, Except.ok.injEq,
      Option.map_eq_some_iff] at h
    obtain ⟨⟨id', x⟩, rfl, rfl⟩ := h
    obtain ⟨-, hall, hsrc⟩ := foldlM_better_ok hf
    rcases hsrc id' x rfl with hnone | ⟨payload, hp, hscore⟩
    · cases hnone
    · refine ⟨payload, x, hp, hscore, fun entry he => ?_⟩
      obtain ⟨y, id'', x', hy, hx', hle⟩ := hall entry he
      simp only [Option.some.injEq, Prod.mk.injEq] at hx'
      obtain ⟨rfl, rfl⟩ := hx'
      exact ⟨y, hy, hle⟩

/-- Nothing is selected only from an empty queue. -/
theorem selectHighestPriority_none {waiting : List (ExecutionId × Payload)}
    (h : s.selectHighestPriority waiting now = .ok none) : waiting = [] := by
  unfold selectHighestPriority at h
  cases hf : waiting.foldlM (s.better now) none with
  | error e => simp [hf, bind, Except.bind] at h
  | ok best =>
    simp only [hf, bind, Except.bind, pure, Except.pure, Except.ok.injEq,
      Option.map_eq_none_iff] at h
    subst h
    obtain ⟨-, hall, -⟩ := foldlM_better_ok hf
    refine List.eq_nil_iff_forall_not_mem.2 fun entry he => ?_
    obtain ⟨_, _, _, _, hx, _⟩ := hall entry he
    cases hx

end Settings

end Concord
