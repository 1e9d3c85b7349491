import Concord.Execution.Operations
import Mathlib

/-!
# The queue hash and its history

The history of the commands on the queue hash, and what it says about the hash itself: an entry
that was set stands in the hash until exactly one `HDEL` removes it. What one process knows of the
history is stable under the commands of the others.
-/

namespace Concord

open Concord.Base

namespace QueueCommand

/-- The command set an entry of `id`. -/
def sets (id : ExecutionId) : QueueCommand → Bool
  | hset id' _ => id' = id
  | _ => false

/-- The command removed the entry of `id`. -/
def removes (id : ExecutionId) : QueueCommand → Bool
  | hdel id' removed => id' = id && removed
  | _ => false

/-- The entry the command removed. -/
def removed? : QueueCommand → Option ExecutionId
  | hdel id true => some id
  | _ => none

/-- What the command read of the hash. -/
def snapshot? : QueueCommand → Option (List (ExecutionId × Payload))
  | hgetall snapshot => some snapshot
  | _ => none

theorem removed?_eq_some {id : ExecutionId} {c : QueueCommand} :
    c.removed? = some id ↔ c.removes id = true := by
  cases c with
  | hdel id' removed => cases removed <;> simp [removed?, removes]
  | _ => simp [removed?, removes]

end QueueCommand

/-- The commands sent on the queue hash, each with its sender. -/
abbrev QueueLog := List (Pid × QueueCommand)

namespace QueueLog

variable (log : QueueLog) (p : Pid)

/-- The entry was set with this payload. -/
def Entered (id : ExecutionId) (payload : Payload) : Prop := ∃ q, (q, .hset id payload) ∈ log

/-- The commands that removed the entry of `id`. -/
def removals (id : ExecutionId) : QueueLog := log.filter (·.2.removes id)

/-- What `p` last read of the hash. -/
def lastScan : Option (List (ExecutionId × Payload)) :=
  (log.filterMap fun c => if c.1 = p then c.2.snapshot? else none).getLast?

/-- The entries that processes other than `p` removed. -/
def lost : List ExecutionId := log.filterMap fun c => if c.1 = p then none else c.2.removed?

/-- The first and the last command are `p`'s. -/
def BoundedBy : Prop := (∃ c, log.head? = some (p, c)) ∧ ∃ c, log.getLast? = some (p, c)

/-- Between two commands of `p`, others have removed at least `n` entries. -/
def Outrun (n : Nat) : Prop :=
  ∃ pre mid post, log = pre ++ mid ++ post ∧ BoundedBy mid p ∧ n ≤ (lost mid p).length

variable {log p}

theorem removals_append (l l' : QueueLog) (id : ExecutionId) :
    removals (l ++ l') id = removals l id ++ removals l' id :=
  List.filter_append _ _

theorem removals_singleton_of_not {c : Pid × QueueCommand} {id : ExecutionId}
    (h : c.2.removes id = false) : removals [c] id = [] := by
  simp [removals, h]

theorem lastScan_append_of_ne {l : QueueLog} (hl : ∀ c ∈ l, c.1 ≠ p) :
    lastScan (log ++ l) p = lastScan log p := by
  have hnone : (l.filterMap fun c => if c.1 = p then c.2.snapshot? else none) = [] := by
    refine List.filterMap_eq_nil_iff.2 fun c hc => ?_
    rw [if_neg (hl c hc)]
  rw [lastScan, List.filterMap_append, hnone, List.append_nil, lastScan]

theorem lastScan_append_self (c : QueueCommand) :
    lastScan (log ++ [(p, c)]) p = (c.snapshot? <|> lastScan log p) := by
  cases hc : c.snapshot? <;> simp [lastScan, List.filterMap_append, hc]

theorem lost_append (l l' : QueueLog) : lost (l ++ l') p = lost l p ++ lost l' p :=
  List.filterMap_append

theorem mem_lost {q : Pid} {id : ExecutionId} (hq : q ≠ p) (h : (q, .hdel id true) ∈ log) :
    id ∈ lost log p :=
  List.mem_filterMap.2 ⟨_, h, by simp [hq, QueueCommand.removed?]⟩

theorem boundedBy_singleton (c : QueueCommand) : BoundedBy [(p, c)] p :=
  ⟨⟨c, rfl⟩, ⟨c, rfl⟩⟩

theorem BoundedBy.extend (h : BoundedBy log p) (l : QueueLog) (c : QueueCommand) :
    BoundedBy (log ++ l ++ [(p, c)]) p := by
  obtain ⟨⟨c₀, h₀⟩, -⟩ := h
  refine ⟨⟨c₀, ?_⟩, ⟨c, by simp⟩⟩
  cases log with
  | nil => simp at h₀
  | cons a l => simpa using h₀

theorem Outrun.append {n : Nat} (h : Outrun log p n) (l : QueueLog) : Outrun (log ++ l) p n := by
  obtain ⟨pre, mid, post, rfl, hb, hn⟩ := h
  exact ⟨pre, mid, post ++ l, by simp, hb, hn⟩

theorem Entered.append {id : ExecutionId} {payload : Payload} (h : Entered log id payload)
    (l : QueueLog) : Entered (log ++ l) id payload := by
  obtain ⟨q, hq⟩ := h
  exact ⟨q, List.mem_append_left _ hq⟩

/-- No entry of `id` was ever set. -/
def NeverSet (log : QueueLog) (id : ExecutionId) : Prop := ∀ c ∈ log, c.2.sets id = false

theorem NeverSet.not_entered {id : ExecutionId} (h : NeverSet log id) (payload : Payload) :
    ¬Entered log id payload := by
  rintro ⟨q, hq⟩
  have hset := h _ hq
  simp [QueueCommand.sets] at hset

theorem entered_append_of_not {id : ExecutionId} {payload : Payload} {q : Pid} {c : QueueCommand}
    (h : Entered (log ++ [(q, c)]) id payload) (hc : c ≠ .hset id payload) :
    Entered log id payload := by
  obtain ⟨q', hq'⟩ := h
  rcases List.mem_append.1 hq' with hq' | hq'
  · exact ⟨q', hq'⟩
  · simp only [List.mem_singleton, Prod.mk.injEq] at hq'
    exact absurd hq'.2.symm hc

end QueueLog

namespace Redis

variable {r : Redis} {p : Pid} {id id' : ExecutionId} {payload : Payload}

/-- The ids of the waiting executions. -/
def waitingIds (r : Redis) : List ExecutionId := r.queue.map (·.1)

theorem mem_waitingIds_hset :
    id' ∈ (r.hset p id payload).waitingIds ↔ id' ∈ r.waitingIds ∨ id' = id := by
  simp only [waitingIds, hset, List.map_append, List.mem_append, List.map_cons, List.map_nil,
    List.mem_singleton, List.mem_map, List.mem_filter, decide_eq_true_eq]
  constructor
  · rintro (⟨entry, ⟨hmem, -⟩, rfl⟩ | rfl)
    · exact .inl ⟨entry, hmem, rfl⟩
    · exact .inr rfl
  · rintro (⟨entry, hmem, rfl⟩ | rfl)
    · by_cases he : entry.1 = id
      · exact .inr he
      · exact .inl ⟨entry, ⟨hmem, he⟩, rfl⟩
    · exact .inr rfl

theorem mem_waitingIds_hdel :
    id' ∈ (r.hdel p id).2.waitingIds ↔ id' ∈ r.waitingIds ∧ id' ≠ id := by
  simp only [waitingIds, hdel, List.mem_map, List.mem_filter, decide_eq_true_eq]
  constructor
  · rintro ⟨entry, ⟨hmem, hne⟩, rfl⟩
    exact ⟨⟨entry, hmem, rfl⟩, hne⟩
  · rintro ⟨⟨entry, hmem, rfl⟩, hne⟩
    exact ⟨entry, ⟨hmem, hne⟩, rfl⟩

theorem hdel_log : (r.hdel p id).2.log = r.log ++ [(p, .hdel id (decide (id ∈ r.waitingIds)))] :=
  rfl

end Redis

open QueueLog

/-- The hash and its history agree. -/
structure Ledger (r : Redis) : Prop where
  /-- The hash holds entries that were set. -/
  entered : ∀ entry ∈ r.queue, Entered r.log entry.1 entry.2
  /-- Entries are set under the execution id of their payload. -/
  keyed : ∀ id payload, Entered r.log id payload → payload.executionId = id
  /-- An id is set with one payload only. -/
  once : ∀ id payload payload', Entered r.log id payload → Entered r.log id payload' →
    payload = payload'
  /-- A waiting entry has not been removed. -/
  waiting : ∀ id ∈ r.waitingIds, removals r.log id = []
  /-- An id that was not set has not been removed. -/
  unknown : ∀ id, (∀ payload, ¬Entered r.log id payload) → removals r.log id = []
  /-- An entry that was set and is not waiting has been removed exactly once. -/
  settled : ∀ id payload, Entered r.log id payload → id ∉ r.waitingIds →
    ∃ q, removals r.log id = [(q, .hdel id true)]

namespace Ledger

variable {r : Redis} {p : Pid}

theorem empty : Ledger {} where
  entered _ h := by cases h
  keyed _ _ h := by obtain ⟨_, h⟩ := h; cases h
  once _ _ _ h := by obtain ⟨_, h⟩ := h; cases h
  waiting _ h := by cases h
  unknown _ _ := rfl
  settled _ _ h := by obtain ⟨_, h⟩ := h; cases h

/-- The ledger is about the hash and its history only. -/
theorem congr {r' : Redis} (h : Ledger r) (hq : r'.queue = r.queue) (hl : r'.log = r.log) :
    Ledger r' := by
  obtain ⟨queue, notify, active, log⟩ := r
  obtain ⟨queue', notify', active', log'⟩ := r'
  dsimp only at hq hl
  subst hq hl
  exact { h with entered := h.entered }

theorem mem_queue_of_waiting (h : Ledger r) {id : ExecutionId} {payload : Payload}
    (he : Entered r.log id payload) (hw : id ∈ r.waitingIds) : (id, payload) ∈ r.queue := by
  obtain ⟨⟨id', payload'⟩, hmem, rfl⟩ := List.mem_map.1 hw
  obtain rfl := h.once _ _ _ he (h.entered _ hmem)
  exact hmem

/-- No entry is removed twice. -/
theorem removals_length_le_one (h : Ledger r) (id : ExecutionId) :
    (removals r.log id).length ≤ 1 := by
  by_cases hw : id ∈ r.waitingIds
  · simp [h.waiting id hw]
  · by_cases he : ∃ payload, Entered r.log id payload
    · obtain ⟨payload, he⟩ := he
      obtain ⟨q, hq⟩ := h.settled id payload he hw
      simp [hq]
    · simp [h.unknown id fun payload hp => he ⟨payload, hp⟩]

/-- The entries others have removed over any stretch of the history are different ones. -/
theorem nodup_lost (h : Ledger r) {pre mid post : QueueLog} (hsplit : r.log = pre ++ mid ++ post) :
    (lost mid p).Nodup := by
  refine List.nodup_iff_count_le_one.2 fun id => ?_
  calc (lost mid p).count id
      = mid.countP fun c => (if c.1 = p then none else c.2.removed?) == some id :=
        List.count_filterMap
    _ ≤ mid.countP (·.2.removes id) := by
        refine List.countP_mono_left fun c _ hc => ?_
        split at hc
        · cases hc
        · exact QueueCommand.removed?_eq_some.1 (by simpa using hc)
    _ ≤ r.log.countP (·.2.removes id) := by
        rw [hsplit, List.countP_append, List.countP_append]
        omega
    _ = (removals r.log id).length := List.countP_eq_length_filter
    _ ≤ 1 := h.removals_length_le_one id

/-- Looking an id up in a snapshot gives its payload. -/
theorem lookup_eq (h : Ledger r) {snapshot : List (ExecutionId × Payload)}
    (hent : ∀ entry ∈ snapshot, Entered r.log entry.1 entry.2) {id : ExecutionId}
    {payload : Payload} (hmem : (id, payload) ∈ snapshot) : snapshot.lookup id = some payload := by
  cases hlook : snapshot.lookup id with
  | none =>
    have hne := List.lookup_eq_none_iff.1 hlook _ hmem
    simp at hne
  | some payload' =>
    obtain ⟨l₁, l₂, hsplit, -⟩ := List.lookup_eq_some_iff.1 hlook
    have hmem' : (id, payload') ∈ snapshot := by
      rw [hsplit]
      exact List.mem_append_right _ List.mem_cons_self
    exact congrArg some (h.once _ _ _ (hent _ hmem') (hent _ hmem))

/-- Reading the hash leaves the ledger as it is. -/
theorem logged (h : Ledger r) (snapshot : List (ExecutionId × Payload)) :
    Ledger (r.logged p (.hgetall snapshot)) := by
  have hback : ∀ id payload, Entered (r.logged p (.hgetall snapshot)).log id payload →
      Entered r.log id payload :=
    fun id payload he => entered_append_of_not he (by simp)
  have hrem : ∀ id, removals (r.logged p (.hgetall snapshot)).log id = removals r.log id :=
    fun id => by simp [Redis.logged, removals, QueueCommand.removes]
  exact {
    entered := fun entry he => (h.entered entry he).append _
    keyed := fun id payload he => h.keyed id payload (hback _ _ he)
    once := fun id payload payload' he he' =>
      h.once id payload payload' (hback _ _ he) (hback _ _ he')
    waiting := fun id hid => (hrem id).trans (h.waiting id hid)
    unknown := fun id hid => (hrem id).trans (h.unknown id fun payload he =>
      hid payload (he.append _))
    settled := fun id payload he hid => by
      rw [hrem]
      exact h.settled id payload (hback _ _ he) hid }

/-- Setting an entry under an id that was never set. -/
theorem hset (h : Ledger r) {id : ExecutionId} {payload : Payload}
    (hid : payload.executionId = id) (hnew : ∀ payload, ¬Entered r.log id payload) :
    Ledger (r.hset p id payload) := by
  have hrem : ∀ id', removals (r.hset p id payload).log id' = removals r.log id' :=
    fun id' => by simp [Redis.hset, removals, QueueCommand.removes]
  have hback : ∀ id' payload', Entered (r.hset p id payload).log id' payload' →
      id' = id ∧ payload' = payload ∨ Entered r.log id' payload' := by
    intro id' payload' he
    by_cases hc : QueueCommand.hset id payload = .hset id' payload'
    · simp only [QueueCommand.hset.injEq] at hc
      exact .inl ⟨hc.1.symm, hc.2.symm⟩
    · exact .inr (entered_append_of_not he hc)
  exact {
    entered := fun entry he => by
      rcases List.mem_append.1 he with he | he
      · exact (h.entered entry (List.mem_filter.1 he).1).append _
      · rw [List.mem_singleton.1 he]
        exact ⟨p, List.mem_append_right _ List.mem_cons_self⟩
    keyed := fun id' payload' he => by
      rcases hback _ _ he with ⟨rfl, rfl⟩ | he
      · exact hid
      · exact h.keyed _ _ he
    once := fun id' payload₁ payload₂ he₁ he₂ => by
      rcases hback _ _ he₁ with ⟨rfl, rfl⟩ | hold₁
      · rcases hback _ _ he₂ with ⟨-, rfl⟩ | hold₂
        · rfl
        · exact absurd hold₂ (hnew _)
      · rcases hback _ _ he₂ with ⟨rfl, rfl⟩ | hold₂
        · exact absurd hold₁ (hnew _)
        · exact h.once _ _ _ hold₁ hold₂
    waiting := fun id' hid' => by
      rw [hrem]
      rcases Redis.mem_waitingIds_hset.1 hid' with hid' | rfl
      · exact h.waiting _ hid'
      · exact h.unknown _ hnew
    unknown := fun id' hid' => (hrem id').trans (h.unknown id' fun payload he =>
      hid' payload (he.append _))
    settled := fun id' payload' he hid' => by
      rw [hrem]
      rw [Redis.mem_waitingIds_hset, not_or] at hid'
      rcases hback _ _ he with ⟨rfl, rfl⟩ | he
      · exact absurd rfl hid'.2
      · exact h.settled _ _ he hid'.1 }

/-- Removing an entry, or finding it gone. -/
theorem hdel (h : Ledger r) (id : ExecutionId) : Ledger (r.hdel p id).2 := by
  have hback : ∀ id' payload, Entered (r.hdel p id).2.log id' payload →
      Entered r.log id' payload :=
    fun id' payload he => entered_append_of_not he (by simp)
  have hrem : ∀ id', id' ≠ id ∨ id ∉ r.waitingIds →
      removals (r.hdel p id).2.log id' = removals r.log id' := by
    intro id' hid'
    rw [Redis.hdel_log, removals_append, removals_singleton_of_not, List.append_nil]
    rcases hid' with hid' | hid'
    · simp [QueueCommand.removes, Ne.symm hid']
    · simp [QueueCommand.removes, hid']
  exact {
    entered := fun entry he => (h.entered entry (List.mem_filter.1 he).1).append _
    keyed := fun id' payload he => h.keyed _ _ (hback _ _ he)
    once := fun id' payload payload' he he' => h.once _ _ _ (hback _ _ he) (hback _ _ he')
    waiting := fun id' hid' => by
      obtain ⟨hid', hne⟩ := Redis.mem_waitingIds_hdel.1 hid'
      rw [hrem id' (.inl hne)]
      exact h.waiting id' hid'
    unknown := fun id' hid' => by
      have hnone : ∀ payload, ¬Entered r.log id' payload :=
        fun payload he => hid' payload (he.append _)
      rw [hrem id' ?_]
      · exact h.unknown id' hnone
      · by_cases hne : id' = id
        · subst hne
          refine .inr fun hw => ?_
          obtain ⟨entry, hmem, rfl⟩ := List.mem_map.1 hw
          exact hnone _ (h.entered entry hmem)
        · exact .inl hne
    settled := fun id' payload he hid' => by
      by_cases hne : id' = id ∧ id ∈ r.waitingIds
      · -- this very command has removed it
        obtain ⟨rfl, hw⟩ := hne
        refine ⟨p, ?_⟩
        rw [Redis.hdel_log, removals_append, h.waiting id' hw]
        simp [removals, QueueCommand.removes, hw]
      · rw [hrem id' (by by_cases hid : id' = id <;> simp_all)]
        refine h.settled id' payload (hback _ _ he) fun hw => ?_
        by_cases hid : id' = id
        · exact hne ⟨hid, hid ▸ hw⟩
        · exact hid' (Redis.mem_waitingIds_hdel.2 ⟨hw, hid⟩) }

end Ledger

end Concord
