import Concord.Base.Outline
import Concord.Queue.Ledger
import Concord.Queue.Programs

/-!
# Claims on the queue

Any number of enqueuers, dequeuers and cancellers over one queue hash. A dequeuer acts on a
snapshot that others have long overtaken; that its claim is still exclusive rests on `HDEL` alone,
and that it loses only to others' claims rests on the history since its last scan.
-/

namespace Concord

open Concord.Base Async QueueLog

/-- What starts a process of the queue. -/
inductive QueueRequest
  | enqueue (payload : Payload)
  | dequeue
  | remove (id : ExecutionId)

/-- What a process of the queue returns. -/
inductive QueueOutcome
  | enqueued
  | dequeued (payload : Option Payload)
  | removed (wasWaiting : Bool)

def QueueRequest.program (s : Settings) : QueueRequest → Py QueueOutcome
  | enqueue payload => (fun _ => .enqueued) <$>
      enqueueExecution fun now => { payload with enqueuedAt := now }
  | dequeue => .dequeued <$> dequeueExecution s
  | remove id => .removed <$> removeFromQueue id

/-- The service, with the last clock reading of each process. -/
structure QueueState where
  service : Service
  clocks : Pid → Option Seconds := fun _ => none

/-- An operation, recorded if it reads the clock. -/
def QueueState.exec (p : Pid) (o : Op) (env : Env) (st : QueueState) :
    Option (Except PyError o.Val × QueueState) :=
  (o.exec p env st.service).map fun (x, service) =>
    (x, { service
          clocks := if o = .clock then Function.update st.clocks p (some env.now) else st.clocks })

/-- The queue with settings `s`. -/
def queueMachine (s : Settings) : Machine Op (fun o => Except PyError o.Val) Env QueueState
    QueueRequest (Except PyError QueueOutcome) where
  init := { service := { db := { members := [], files := [], breakpoints := [] } } }
  exec p o env st := st.exec p o env
  body _ r := (r.program s).run

abbrev QueueConfig :=
  Config Op (fun o => Except PyError o.Val) QueueState QueueRequest (Except PyError QueueOutcome)

/-- The id that an operation sets an entry for. -/
def Op.sets? : Op → Option ExecutionId
  | hset id _ => some id
  | _ => none

/-- Every command is atomic (if it raises it has had no effect), and no id is enqueued twice. -/
def distinctIds (st : QueueState) (_ : Pid) (_ : QueueRequest) (o : Op) (env : Env) : Prop :=
  env.fault ≠ .after ∧ ∀ id ∈ o.sets?, NeverSet st.service.redis.log id

instance (st : QueueState) (p : Pid) (r : QueueRequest) (o : Op) (env : Env) :
    Decidable (distinctIds st p r o env) :=
  inferInstanceAs (Decidable (_ ∧ ∀ id ∈ o.sets?, ∀ c ∈ st.service.redis.log, c.2.sets id = false))

/-! ## What a process knows -/

/-- How far a process is. -/
inductive Claimant
  | bystander
  /-- About to scan the hash, after so many lost attempts. -/
  | scanning (lost : Nat)
  | scanned (lost : Nat) (waiting : List (ExecutionId × Payload))
  /-- It has read the clock and is about to remove the best entry. -/
  | timed (lost : Nat) (waiting : List (ExecutionId × Payload)) (now : Seconds)
  | won (waiting : List (ExecutionId × Payload)) (now : Seconds) (payload : Payload)
  | removed (id : ExecutionId)

namespace Claimant

/-- The entry it has removed. -/
def took? : Claimant → Option ExecutionId
  | won _ _ payload => some payload.executionId
  | removed id => some id
  | _ => none

/-- It has not removed an entry. -/
def Pending : Claimant → Prop
  | bystander | scanning _ | scanned _ _ | timed _ _ _ => True
  | _ => False

theorem Pending.took?_eq {g : Claimant} (h : g.Pending) : g.took? = none := by
  cases g <;> first | rfl | exact h.elim

end Claimant

/-- The entry of `id` scores at least as much as every other one of the snapshot. -/
def IsBest (s : Settings) (waiting : List (ExecutionId × Payload)) (now : Seconds)
    (id : ExecutionId) (payload : Payload) : Prop :=
  (id, payload) ∈ waiting ∧ ∃ x, s.score payload now = .ok x ∧
    ∀ entry ∈ waiting, ∃ y, s.score entry.2 now = .ok y ∧ y ≤ x

/-- `p` last read `waiting`; of those entries, the ones that are gone were removed by others since.
Before that, `p` has lost `n` attempts. -/
def Watching (r : Redis) (p : Pid) (n : Nat) (waiting : List (ExecutionId × Payload)) : Prop :=
  lastScan r.log p = some waiting ∧ (∀ entry ∈ waiting, Entered r.log entry.1 entry.2) ∧
    ∃ pre mid post, r.log = pre ++ mid ++ post ∧ BoundedBy mid p ∧ n ≤ (lost mid p).length ∧
      ∀ entry ∈ waiting, entry.1 ∈ r.waitingIds ∨ ∃ q, q ≠ p ∧ (q, .hdel entry.1 true) ∈ post

/-- What a process that is so far knows of the history. -/
def Claimant.Knows (s : Settings) (st : QueueState) (p : Pid) : Claimant → Prop
  | bystander | removed _ => True
  | scanning n => n = 0 ∨ Outrun st.service.redis.log p n
  | scanned n waiting => Watching st.service.redis p n waiting
  | timed n waiting now => Watching st.service.redis p n waiting ∧ st.clocks p = some now
  | won waiting now payload => lastScan st.service.redis.log p = some waiting ∧
      st.clocks p = some now ∧ IsBest s waiting now payload.executionId payload ∧
      Entered st.service.redis.log payload.executionId payload

/-- The ledger is right, every process knows what it should, and the history credits each removal
to the process that returns it. -/
structure Claims (s : Settings) (st : QueueState) (gs : Pid → Claimant) : Prop where
  ledger : Ledger st.service.redis
  knows : ∀ p, (gs p).Knows s st p
  credit : ∀ p id, (p, .hdel id true) ∈ st.service.redis.log ↔ (gs p).took? = some id

section Stable

variable {s : Settings} {st st' : QueueState} {p q : Pid} {l : QueueLog}

/-- What others do does not take away what `q` knows. -/
theorem Claimant.Knows.stable {g : Claimant} (h : g.Knows s st q)
    (hlog : st'.service.redis.log = st.service.redis.log ++ l) (hl : ∀ c ∈ l, c.1 ≠ q)
    (hwait : ∀ id ∈ st.service.redis.waitingIds, id ∈ st'.service.redis.waitingIds ∨
      ∃ q', (q', .hdel id true) ∈ l)
    (hclock : st'.clocks q = st.clocks q) : g.Knows s st' q := by
  have hscan : lastScan st'.service.redis.log q = lastScan st.service.redis.log q := by
    rw [hlog]
    exact lastScan_append_of_ne hl
  have hwatch : ∀ n waiting, Watching st.service.redis q n waiting →
      Watching st'.service.redis q n waiting := by
    rintro n waiting ⟨hlast, hent, pre, mid, post, hsplit, hb, hn, hkeep⟩
    refine ⟨hscan.trans hlast, fun entry he => ?_, pre, mid, post ++ l, ?_, hb, hn, ?_⟩
    · rw [hlog]
      exact (hent entry he).append l
    · rw [hlog, hsplit, List.append_assoc]
    · intro entry he
      rcases hkeep entry he with hw | ⟨q', hq', hmem⟩
      · rcases hwait _ hw with hw | ⟨q', hmem⟩
        · exact .inl hw
        · exact .inr ⟨q', hl _ hmem, List.mem_append_right _ hmem⟩
      · exact .inr ⟨q', hq', List.mem_append_left _ hmem⟩
  cases g with
  | bystander => trivial
  | removed id => trivial
  | scanning n => exact h.imp_right fun h => hlog ▸ h.append l
  | scanned n waiting => exact hwatch n waiting h
  | timed n waiting now => exact ⟨hwatch n waiting h.1, hclock.trans h.2⟩
  | won waiting now payload =>
    exact ⟨hscan.trans h.1, hclock.trans h.2.1, h.2.2.1, hlog ▸ h.2.2.2.append l⟩

/-- One step of `p`, which may add commands to the history. -/
theorem Claims.step {gs : Pid → Claimant} {g' : Claimant} (h : Claims s st gs)
    (hpend : (gs p).Pending) (hledger : Ledger st'.service.redis)
    (hlog : st'.service.redis.log = st.service.redis.log ++ l) (hl : ∀ c ∈ l, c.1 = p)
    (hwait : ∀ id ∈ st.service.redis.waitingIds, id ∈ st'.service.redis.waitingIds ∨
      (p, .hdel id true) ∈ l)
    (hclock : ∀ q, q ≠ p → st'.clocks q = st.clocks q) (hknows : g'.Knows s st' p)
    (htook : ∀ id, (p, .hdel id true) ∈ l ↔ g'.took? = some id) :
    Claims s st' (Function.update gs p g') := by
  refine ⟨hledger, fun q => ?_, fun q id => ?_⟩
  · by_cases hq : q = p
    · subst hq
      simpa using hknows
    · rw [Function.update_of_ne hq]
      refine (h.knows q).stable hlog (fun c hc => ?_) (fun id hid => ?_) (hclock q hq)
      · rw [hl c hc]
        exact Ne.symm hq
      · exact (hwait id hid).imp_right fun hmem => ⟨p, hmem⟩
  · rw [hlog, List.mem_append, h.credit]
    by_cases hq : q = p
    · subst hq
      simp [hpend.took?_eq, htook]
    · simp only [Function.update_of_ne hq, or_iff_left_iff_imp]
      intro hmem
      exact absurd (hl _ hmem) hq

/-- `HDEL` is credited to the process that sent it if it removed the entry. -/
theorem Claims.hdel {gs : Pid → Claimant} {g' : Claimant} (h : Claims s st gs)
    (hpend : (gs p).Pending) {id : ExecutionId} {removed : Bool}
    (hrem : decide (id ∈ st.service.redis.waitingIds) = removed)
    (hknows : g'.Knows s
      { st with service.redis := (st.service.redis.hdel p id).2 } p)
    (htook : g'.took? = if removed then some id else none) :
    Claims s { st with service.redis := (st.service.redis.hdel p id).2 }
      (Function.update gs p g') := by
  refine h.step (l := [(p, .hdel id removed)]) hpend (h.ledger.hdel id)
    (by rw [← hrem]; exact Redis.hdel_log) (by simp) (fun id' hid' => ?_) (fun _ _ => rfl)
    hknows fun id' => ?_
  · by_cases he : id' = id
    · subst he
      have : removed = true := by simpa [hid'] using hrem.symm
      simp [this]
    · exact .inl (Redis.mem_waitingIds_hdel.2 ⟨hid', he⟩)
  · cases removed <;> simp [htook, eq_comm]

end Stable

/-! ## The protocol -/

/-- The protocol of the queue. -/
def claimProtocol (s : Settings) : Protocol (queueMachine s) Claimant where
  Inv := Claims s
  At _ r g o := match g with
    | .won _ _ _ => r = .dequeue ∧ o = none
    | .removed id => r = .remove id ∧ o = none
    | _ => True
  ok := distinctIds

section Operations

variable {s : Settings} {p : Pid} {r : QueueRequest} {g : Claimant}

/-- The rule of an operation of the queue: only what it does when it goes through matters. -/
theorem claim_operation {o : Op} {Q : o.Val → Claimant → Prop} (hg : g.Pending)
    (hrun : ∀ env st gs, Claims s st gs → gs p = g → distinctIds st p r o env →
      ∀ x service, o.run p env st.service = some (x, service) →
        ∃ v g', x = .ok v ∧ Q v g' ∧
          Claims s
            { service
              clocks := if o = .clock then Function.update st.clocks p (some env.now)
                else st.clocks }
            (Function.update gs p g')) :
    (claimProtocol s).Triple p r g (await o) Q fun _ g => g.Pending := by
  refine Protocol.Triple.call ?_ fun env st gs hinv hgp hok x st' hx => ?_
  · cases g <;> trivial
  obtain ⟨⟨y, service⟩, hexec, hst⟩ := Option.map_eq_some_iff.1 hx
  cases hst
  rcases Op.exec_eq_some hexec with hrun' | ⟨ht, rfl, ⟨-, rfl⟩ | ⟨hf, -⟩⟩
  · obtain ⟨v, g', rfl, hQ, hclaims⟩ := hrun env st gs hinv hgp hok _ _ hrun'
    exact ⟨g', hclaims, hQ⟩
  · refine ⟨g, ?_, hg⟩
    have hclock : o ≠ .clock := by
      rintro rfl
      exact ht rfl
    rw [if_neg hclock, ← hgp, Function.update_eq_self]
    exact hinv
  · exact absurd hf hok.1

/-- A command that leaves the hash alone. -/
theorem claim_aside {o : Op} (hg : g.Pending) (hclock : o ≠ .clock)
    (hrun : ∀ env st x st', o.run p env st = some (x, st') → (∃ v, x = .ok v) ∧
      st'.redis.queue = st.redis.queue ∧ st'.redis.log = st.redis.log) :
    (claimProtocol s).Triple p r g (await o) (fun _ g' => g' = g) fun _ g => g.Pending := by
  refine claim_operation hg fun env st gs hinv hgp hok x service hx => ?_
  obtain ⟨⟨v, hv⟩, hqueue, hlog⟩ := hrun env st.service x service hx
  have hwait : service.redis.waitingIds = st.service.redis.waitingIds := by
    rw [Redis.waitingIds, Redis.waitingIds, hqueue]
  refine ⟨v, g, hv, rfl, ?_⟩
  rw [if_neg hclock]
  refine hinv.step (l := []) (hgp ▸ hg) (hinv.ledger.congr hqueue hlog) (by simpa using hlog)
    (by simp) (by simp [hwait]) (fun _ _ => rfl) ?_ (by simp [hg.took?_eq])
  exact (hgp ▸ hinv.knows p).stable (l := []) (by simpa using hlog) (by simp) (by simp [hwait]) rfl

/-- Reading the clock before anything else. -/
theorem clock_bystander :
    (claimProtocol s).Triple p r .bystander (await .clock) (fun _ g => g = .bystander)
      fun _ g => g.Pending := by
  refine claim_operation trivial fun env st gs hinv hgp hok x service hx => ?_
  cases hx
  refine ⟨_, .bystander, rfl, rfl, ?_⟩
  exact hinv.step (l := []) (hgp ▸ trivial) hinv.ledger (by simp) (by simp) (by simp)
    (fun q hq => by simp [hq]) trivial (by simp [Claimant.took?])

/-- A fresh entry is set once. -/
theorem hset_bystander {id : ExecutionId} {payload : Payload} (hid : payload.executionId = id) :
    (claimProtocol s).Triple p r .bystander (await (.hset id payload))
      (fun _ g => g = .bystander) fun _ g => g.Pending := by
  refine claim_operation trivial fun env st gs hinv hgp hok x service hx => ?_
  cases hx
  refine ⟨_, .bystander, rfl, rfl, ?_⟩
  refine hinv.step (l := [(p, .hset id payload)]) (hgp ▸ trivial)
    (hinv.ledger.hset hid (hok.2 id rfl).not_entered) rfl (by simp) ?_ (fun _ _ => rfl) trivial
    (by simp [Claimant.took?])
  exact fun id' hid' => .inl (Redis.mem_waitingIds_hset.2 (.inl hid'))

theorem hgetall_scanning (n : Nat) :
    (claimProtocol s).Triple p r (.scanning n) (await .hgetall)
      (fun waiting g => g = .scanned n waiting) fun _ g => g.Pending := by
  refine claim_operation trivial fun env st gs hinv hgp hok x service hx => ?_
  obtain ⟨waiting, hread, rfl, rfl⟩ := Op.run_hgetall hx
  have hmem : ∀ entry ∈ waiting, entry ∈ st.service.redis.queue := Redis.mem_of_hgetall hread
  refine ⟨waiting, .scanned n waiting, rfl, rfl, ?_⟩
  refine hinv.step (l := [(p, .hgetall waiting)]) (hgp ▸ trivial) (hinv.ledger.logged waiting) rfl
    (by simp) (fun id hid => .inl hid) (fun _ _ => rfl) ?_ (by simp [Claimant.took?])
  refine ⟨?_, fun entry he => (hinv.ledger.entered entry (hmem entry he)).append _, ?_⟩
  · exact (lastScan_append_self _).trans rfl
  · have hk := hinv.knows p
    rw [hgp] at hk
    rcases hk with rfl | ⟨pre, mid, post, hsplit, hb, hn⟩
    · exact ⟨st.service.redis.log, [(p, .hgetall waiting)], [], by simp [Redis.logged],
        boundedBy_singleton _, Nat.zero_le _,
        fun entry he => .inl (List.mem_map_of_mem (hmem entry he))⟩
    · refine ⟨pre, mid ++ post ++ [(p, .hgetall waiting)], [], ?_, hb.extend _ _, ?_,
        fun entry he => .inl (List.mem_map_of_mem (hmem entry he))⟩
      · simp [Redis.logged, hsplit]
      · simp only [lost_append, List.length_append]
        omega

theorem clock_scanned (n : Nat) (waiting : List (ExecutionId × Payload)) :
    (claimProtocol s).Triple p r (.scanned n waiting) (await .clock)
      (fun now g => g = .timed n waiting now) fun _ g => g.Pending := by
  refine claim_operation trivial fun env st gs hinv hgp hok x service hx => ?_
  cases hx
  refine ⟨env.now, .timed n waiting env.now, rfl, rfl, ?_⟩
  have hk := hinv.knows p
  rw [hgp] at hk
  exact hinv.step (l := []) (hgp ▸ trivial) hinv.ledger (by simp) (by simp) (by simp)
    (fun q hq => by simp [hq]) ⟨hk, by simp⟩ (by simp [Claimant.took?])

/-- The best entry of the snapshot is taken, or somebody else has taken it since. -/
theorem hdel_timed {n : Nat} {waiting : List (ExecutionId × Payload)} {now : Seconds}
    {id : ExecutionId} {payload : Payload} (hbest : IsBest s waiting now id payload) :
    (claimProtocol s).Triple p r (.timed n waiting now) (await (.hdel id))
      (fun removed g => if removed = true then
          g = .won waiting now payload ∧ waiting.lookup id = some payload
        else g = .scanning (n + 1)) fun _ g => g.Pending := by
  refine claim_operation trivial fun env st gs hinv hgp hok x service hx => ?_
  cases hx
  have hk := hinv.knows p
  rw [hgp] at hk
  obtain ⟨⟨hlast, hent, pre, mid, post, hsplit, hb, hn, hkeep⟩, hclock⟩ := hk
  have henter := hent _ hbest.1
  by_cases hin : id ∈ st.service.redis.waitingIds
  · have hid : payload.executionId = id := hinv.ledger.keyed _ _ henter
    refine ⟨true, .won waiting now payload, congrArg _ (decide_eq_true hin),
      by simpa using hinv.ledger.lookup_eq hent hbest.1, ?_⟩
    refine hinv.hdel (hgp ▸ trivial) (decide_eq_true hin) ?_ (by simp [Claimant.took?, hid])
    refine ⟨?_, hclock, hid ▸ hbest, ?_⟩
    · exact (lastScan_append_self _).trans hlast
    · exact hid ▸ henter.append _
  · refine ⟨false, .scanning (n + 1), congrArg _ (decide_eq_false hin), by simp, ?_⟩
    refine hinv.hdel (hgp ▸ trivial) (decide_eq_false hin) ?_ (by simp [Claimant.took?])
    -- the entry is gone, so another process has removed it since the scan
    obtain ⟨q, hq, hgone⟩ := (hkeep _ hbest.1).resolve_left hin
    refine .inr ⟨pre, mid ++ post ++ [(p, .hdel id (decide (id ∈ st.service.redis.waitingIds)))],
      [], ?_, hb.extend _ _, ?_⟩
    · simp [Redis.hdel_log, hsplit]
    · have hpos : 0 < (lost post p).length := List.length_pos_of_mem (mem_lost hq hgone)
      simp only [lost_append, List.length_append]
      omega

/-- A cancel removes the entry if it is still there. -/
theorem hdel_bystander (id : ExecutionId) :
    (claimProtocol s).Triple p r .bystander (await (.hdel id))
      (fun removed g => g = if removed = true then .removed id else .bystander)
      fun _ g => g.Pending := by
  refine claim_operation trivial fun env st gs hinv hgp hok x service hx => ?_
  cases hx
  by_cases hin : id ∈ st.service.redis.waitingIds
  · refine ⟨true, .removed id, congrArg _ (decide_eq_true hin), by simp, ?_⟩
    exact hinv.hdel (hgp ▸ trivial) (decide_eq_true hin) trivial (by simp [Claimant.took?])
  · refine ⟨false, .bystander, congrArg _ (decide_eq_false hin), by simp, ?_⟩
    exact hinv.hdel (hgp ▸ trivial) (decide_eq_false hin) trivial (by simp [Claimant.took?])

/-! ## Programs -/

theorem enqueueExecution_claims (payload : Seconds → Payload) :
    (claimProtocol s).Triple p r .bystander (enqueueExecution payload)
      (fun _ g => g = .bystander) fun _ g => g.Pending := by
  refine clock_bystander.bind fun now g hg => ?_
  subst hg
  refine (hset_bystander rfl).bind fun _ g hg => ?_
  subst hg
  refine claim_aside trivial (by simp) fun env st x st' hx => ?_
  cases hx
  exact ⟨⟨_, rfl⟩, rfl, rfl⟩

theorem select_claims {waiting : List (ExecutionId × Payload)} {now : Seconds}
    (hg : g.Pending) :
    (claimProtocol s).Triple p r g (select s waiting now)
      (fun best g' => g' = g ∧ s.selectHighestPriority waiting now = .ok best)
      fun _ g => g.Pending := by
  unfold select
  split
  · next best hbest => exact Protocol.Triple.pure ⟨rfl, hbest⟩
  · exact Protocol.Triple.throw hg

/-- What a dequeuer stands at when it returns. -/
def Returns : Option Payload → Claimant → Prop
  | some payload, g => ∃ waiting now, g = .won waiting now payload
  | none, g => (∃ n, g = .scanned n []) ∨ g = .scanning maxDequeueAttempts

/-- With `n` attempts left of the maximum, all others lost. -/
theorem popAttempts_claims (n lost : Nat) (hn : lost + n = maxDequeueAttempts) :
    (claimProtocol s).Triple p r (.scanning lost) (popAttempts s n) Returns
      fun _ g => g.Pending := by
  induction n generalizing lost with
  | zero =>
    refine Protocol.Triple.pure (.inr ?_)
    rw [← hn, Nat.add_zero]
  | succ n ih =>
    refine (hgetall_scanning lost).bind fun waiting g hg => ?_
    subst hg
    split
    · next hempty =>
      refine Protocol.Triple.pure (.inl ⟨lost, ?_⟩)
      rw [hempty]
    · next hne =>
      refine (clock_scanned lost waiting).bind fun now g hg => ?_
      subst hg
      refine (select_claims (g := .timed lost waiting now) trivial).bind fun best g hg => ?_
      obtain ⟨rfl, hbest⟩ := hg
      cases best with
      | none => exact absurd (Settings.selectHighestPriority_none hbest) hne
      | some id =>
        obtain ⟨payload, x, hmem, hx, hmax⟩ := Settings.selectHighestPriority_some hbest
        refine (hdel_timed ⟨hmem, x, hx, hmax⟩).bind fun removed g hg => ?_
        cases removed with
        | true =>
          obtain ⟨rfl, hlook⟩ := hg
          show (claimProtocol s).Triple p r _ (Pure.pure (waiting.lookup id)) _ _
          rw [hlook]
          exact Protocol.Triple.pure ⟨waiting, now, rfl⟩
        | false =>
          obtain rfl := hg
          exact ih (lost + 1) (by omega)

theorem dequeueExecution_claims :
    (claimProtocol s).Triple p r (.scanning 0) (dequeueExecution s) Returns
      fun _ g => g.Pending := by
  have hblpop : (claimProtocol s).Triple p r (.scanning 0) (await .blpop)
      (fun _ g => g = .scanning 0) fun _ g => g.Pending := by
    refine claim_aside trivial (by simp) fun env st x st' hx => ?_
    cases hx
    exact ⟨⟨_, rfl⟩, rfl, rfl⟩
  refine hblpop.bind fun _ g hg => ?_
  subst hg
  exact popAttempts_claims maxDequeueAttempts 0 (Nat.zero_add _)

end Operations

/-- How far a process is when its request comes in. -/
def QueueRequest.start : QueueRequest → Claimant
  | dequeue => .scanning 0
  | _ => .bystander

/-- How far a process is when it has ended. -/
def QueueRequest.Ends (r : QueueRequest) (a : Except PyError QueueOutcome) (g : Claimant) : Prop :=
  match g with
  | .won _ _ payload => r = .dequeue ∧ a = .ok (.dequeued (some payload))
  | .removed id => r = .remove id ∧ a = .ok (.removed true)
  | g => ∀ v, a = .ok v → v = .enqueued ∨ v = .removed false ∨
      v = .dequeued none ∧ Returns none g

theorem QueueRequest.program_claims {s : Settings} {p : Pid} (r : QueueRequest) :
    (claimProtocol s).Triple p r r.start (r.program s) (fun v g => r.Ends (.ok v) g)
      fun _ g => g.Pending := by
  cases r with
  | enqueue payload =>
    refine (enqueueExecution_claims _).map fun _ g hg => ?_
    subst hg
    exact fun v hv => .inl (Except.ok.inj hv).symm
  | dequeue =>
    refine dequeueExecution_claims.map fun payload g hg => ?_
    cases payload with
    | some payload =>
      obtain ⟨waiting, now, rfl⟩ := hg
      exact ⟨rfl, rfl⟩
    | none =>
      have hret := hg
      obtain ⟨n, rfl⟩ | rfl := hg <;>
        exact fun v hv => .inr (.inr ⟨(Except.ok.inj hv).symm, hret⟩)
  | remove id =>
    refine (hdel_bystander id).map fun removed g hg => ?_
    subst hg
    cases removed with
    | true => exact ⟨rfl, rfl⟩
    | false => exact fun v hv => .inr (.inl (Except.ok.inj hv).symm)

/-- The outline of the queue. -/
def claimOutline (s : Settings) : Outline (claimProtocol s) where
  idle := .bystander
  start _ r := r.start
  done _ r := r.Ends
  init := ⟨Ledger.empty, fun _ => trivial, fun p id => by
    simp [queueMachine, Claimant.took?]⟩
  spawn st gs p r hinv hg := by
    refine Claims.step (l := []) hinv (hg ▸ trivial) hinv.ledger (by simp) (by simp) (by simp)
      (fun _ _ => rfl) ?_ ?_
    · cases r <;> first | trivial | exact .inl rfl
    · cases r <;> simp [QueueRequest.start, Claimant.took?]
  body p r := by
    refine Protocol.Follows.mono r.program_claims fun a g h => ?_
    cases a with
    | ok v => exact h
    | error e =>
      cases g with
      | won waiting now payload => exact h.elim
      | removed id => exact h.elim
      | _ => exact fun v hv => nomatch hv
  at_end p r a g h := by
    cases g with
    | won waiting now payload => exact ⟨h.1, rfl⟩
    | removed id => exact ⟨h.1, rfl⟩
    | _ => trivial

/-! ## The claims -/

/-- Process `q`, started by `r`, has returned `v`. -/
def QueueConfig.Returned (cfg : QueueConfig) (q : Pid) (r : QueueRequest) (v : QueueOutcome) :
    Prop :=
  cfg.procs q = some ⟨r, .ret (.ok v)⟩

section Results

variable {s : Settings} {cfg : QueueConfig} {gs : Pid → Claimant} {q : Pid}

/-- A process that has removed an entry has returned. -/
theorem ended_of_took (h : (claimOutline s).Fits cfg gs) {id : ExecutionId}
    (hq : (gs q).took? = some id) :
    (∃ payload, payload.executionId = id ∧
      cfg.Returned q .dequeue (.dequeued (some payload)) ∧
      Entered cfg.shared.service.redis.log id payload) ∨
    cfg.Returned q (.remove id) (.removed true) := by
  have hidle : cfg.procs q ≠ none := by
    intro hnone
    rw [h.2.1 q hnone] at hq
    cases hq
  obtain ⟨⟨r, prog⟩, hproc⟩ := Option.ne_none_iff_exists'.1 hidle
  have hat := h.at_next hproc
  cases hg : gs q with
  | won waiting now payload =>
    rw [hg] at hq hat
    obtain rfl := Option.some.inj hq
    cases prog with
    | await o k => exact absurd hat.2 (by simp)
    | ret a =>
      have hend := h.ended hproc
      rw [hg] at hend
      obtain ⟨rfl, rfl⟩ := hend
      have hk := h.1.knows q
      rw [hg] at hk
      exact .inl ⟨payload, rfl, hproc, hk.2.2.2⟩
  | removed id' =>
    rw [hg] at hq hat
    obtain rfl := Option.some.inj hq
    cases prog with
    | await o k => exact absurd hat.2 (by simp)
    | ret a =>
      have hend := h.ended hproc
      rw [hg] at hend
      obtain ⟨rfl, rfl⟩ := hend
      exact .inr hproc
  | _ =>
    rw [hg] at hq
    cases hq

/-- A dequeuer that returned an execution has removed it. -/
theorem won_of_returned (h : (claimOutline s).Fits cfg gs) {r : QueueRequest} {payload : Payload}
    (hq : cfg.Returned q r (.dequeued (some payload))) :
    ∃ waiting now, gs q = .won waiting now payload := by
  have hend := h.ended hq
  cases hg : gs q with
  | won waiting now payload' =>
    rw [hg] at hend
    obtain ⟨-, heq⟩ := hend
    cases heq
    exact ⟨waiting, now, rfl⟩
  | removed id =>
    rw [hg] at hend
    exact absurd hend.2 (by simp)
  | _ =>
    rw [hg] at hend
    rcases hend _ rfl with hv | hv | ⟨hv, -⟩ <;> cases hv

end Results

/-- **Claims are exclusive, lossless and by priority.** However the commands of enqueuers,
dequeuers and cancellers interleave: an execution that was enqueued is waiting and nobody has
removed it, or it was removed by exactly one `HDEL`, of a dequeuer that has returned it and is the
only one to, or of a cancel that has returned true. What a dequeuer returns was enqueued with that
payload and scores, at the time it read the clock, at least as much as every entry of its last
snapshot. One that returns nothing has read an empty hash, or has seen others remove as many
different entries, between two of its own commands, as it has attempts. -/
theorem queue_claims_exclusive {s : Settings} {cfg : QueueConfig}
    (h : (queueMachine s).system.ReachableUnder ((queueMachine s).guard distinctIds) cfg) :
    (∀ id payload, Entered cfg.shared.service.redis.log id payload →
      (id, payload) ∈ cfg.shared.service.redis.queue ∧
        removals cfg.shared.service.redis.log id = [] ∨
      id ∉ cfg.shared.service.redis.waitingIds ∧
        ∃ q, removals cfg.shared.service.redis.log id = [(q, .hdel id true)] ∧
          (cfg.Returned q .dequeue (.dequeued (some payload)) ∨
            cfg.Returned q (.remove id) (.removed true)) ∧
          ∀ q' r payload', cfg.Returned q' r (.dequeued (some payload')) →
            payload'.executionId = id → q' = q) ∧
    (∀ q r payload, cfg.Returned q r (.dequeued (some payload)) →
      Entered cfg.shared.service.redis.log payload.executionId payload ∧
        ∃ waiting now, lastScan cfg.shared.service.redis.log q = some waiting ∧
          cfg.shared.clocks q = some now ∧
          IsBest s waiting now payload.executionId payload) ∧
    ∀ q r, cfg.Returned q r (.dequeued none) →
      lastScan cfg.shared.service.redis.log q = some [] ∨
        ∃ pre mid post, cfg.shared.service.redis.log = pre ++ mid ++ post ∧ BoundedBy mid q ∧
          (lost mid q).Nodup ∧ maxDequeueAttempts ≤ (lost mid q).length := by
  obtain ⟨gs, hfits⟩ := (claimOutline s).sound (fun _ _ _ hok => hok) h
  have hinv := hfits.1
  refine ⟨fun id payload hent => ?_, fun q r payload hret => ?_, fun q r hret => ?_⟩
  · by_cases hw : id ∈ cfg.shared.service.redis.waitingIds
    · exact .inl ⟨hinv.ledger.mem_queue_of_waiting hent hw, hinv.ledger.waiting id hw⟩
    · obtain ⟨q, hq⟩ := hinv.ledger.settled id payload hent hw
      have htook : (gs q).took? = some id := by
        rw [← hinv.credit q id]
        have hmem : (q, QueueCommand.hdel id true) ∈
            removals cfg.shared.service.redis.log id := by simp [hq]
        exact (List.mem_filter.1 hmem).1
      refine .inr ⟨hw, q, hq, ?_, fun q' r payload' hret hid => ?_⟩
      · refine (ended_of_took hfits htook).imp_left ?_
        rintro ⟨payload', -, hret, hent'⟩
        obtain rfl := hinv.ledger.once _ _ _ hent hent'
        exact hret
      · obtain ⟨waiting, now, hg⟩ := won_of_returned hfits hret
        have hmem' := (hinv.credit q' id).2 (by rw [hg, ← hid]; rfl)
        have hin : (q', QueueCommand.hdel id true) ∈
            removals cfg.shared.service.redis.log id :=
          List.mem_filter.2 ⟨hmem', by simp [QueueCommand.removes]⟩
        rw [hq] at hin
        simpa using hin
  · obtain ⟨waiting, now, hg⟩ := won_of_returned hfits hret
    have hk := hinv.knows q
    rw [hg] at hk
    exact ⟨hk.2.2.2, waiting, now, hk.1, hk.2.1, hk.2.2.1⟩
  · have hend := hfits.ended hret
    have hk := hinv.knows q
    have hnone : Returns none (gs q) := by
      cases hg : gs q with
      | won waiting now payload =>
        rw [hg] at hend
        exact absurd hend.2 (by simp)
      | removed id =>
        rw [hg] at hend
        exact absurd hend.2 (by simp)
      | _ =>
        rw [hg] at hend
        rcases hend _ rfl with hv | hv | ⟨-, hret⟩
        · cases hv
        · cases hv
        · exact hret
    rcases hnone with ⟨n, hg⟩ | hg
    · rw [hg] at hk
      exact .inl hk.1
    · rw [hg] at hk
      rcases hk with hk | ⟨pre, mid, post, hsplit, hb, hn⟩
      · exact absurd hk (by decide)
      · exact .inr ⟨pre, mid, post, hsplit, hb, hinv.ledger.nodup_lost hsplit, hn⟩

/-- The execution that process `q` has returned. -/
def QueueConfig.dequeued? (cfg : QueueConfig) (q : Pid) : Option Payload :=
  match cfg.procs q with
  | some ⟨.dequeue, .ret (.ok (.dequeued payload))⟩ => payload
  | _ => none

theorem QueueConfig.returned_of_dequeued? {cfg : QueueConfig} {q : Pid} {payload : Payload}
    (h : cfg.dequeued? q = some payload) :
    cfg.Returned q .dequeue (.dequeued (some payload)) := by
  unfold dequeued? at h
  split at h
  · next hproc =>
    subst h
    exact hproc
  · cases h

/-- An execution is enqueued and a worker takes it. -/
theorem queue_claims_exclusive_taken :
    ∃ (cfg : QueueConfig) (payload : Payload), (queueMachine {}).system.ReachableUnder
        ((queueMachine {}).guard distinctIds) cfg ∧
      cfg.Returned 1 .dequeue (.dequeued (some payload)) ∧ payload.executionId = 5 ∧
      Entered cfg.shared.service.redis.log payload.executionId payload := by
  have hrun : ((queueMachine {}).system.replay ((queueMachine {}).guard distinctIds)
      (queueMachine {}).system.init
      [.spawn 0 (.enqueue { executionId := 5, projectId := 0, fileId := 0, enqueuedAt := 0 }),
        .run 0 { now := 3 }, .run 0 {}, .run 0 {}, .spawn 1 .dequeue, .run 1 {},
        .run 1 { order := [5] }, .run 1 { now := 7 }, .run 1 {}]).any
      (fun cfg : QueueConfig => (cfg.dequeued? 1).map (·.executionId) = some 5) = true := by decide
  obtain ⟨cfg, hcfg, hret⟩ := System.exists_reachable hrun
  simp only [Option.map_eq_some_iff, decide_eq_true_eq] at hret
  obtain ⟨payload, hpayload, hid⟩ := hret
  have hret := QueueConfig.returned_of_dequeued? hpayload
  exact ⟨cfg, payload, hcfg, hret, hid, ((queue_claims_exclusive hcfg).2.1 1 _ payload hret).1⟩

end Concord
