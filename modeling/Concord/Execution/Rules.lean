import Concord.Execution.Service

/-!
# Rules for the service's operations

How an operation of the service enters a proof outline, with the faults it may have, and the parts
of the service that only look: whatever the protocol, a program made of reading operations is
steady if those operations are.
-/

namespace Concord

open Concord.Base Async

variable {s : Settings} {t : Tables} {G : Type} {P : Protocol (service s t) G} {p : Pid}
  {r : Request} {g : G}

/-- The rule of an operation. What it leads to when it goes through is shown for `Op.run`; if it
can fail, its error has to be accepted both there and where it began. -/
theorem Triple.operation {o : Op} {Q : o.Val → G → Prop} {E : PyError → G → Prop}
    (hat : P.At p r g (some o)) (hbefore : o.target ≠ .inProcess → ∀ e, E e g)
    (hrun : ∀ env st gs, P.Inv st gs → gs p = g → P.ok st p r o env →
      ∀ x st', o.run p env st = some (x, st') →
        ∃ g', P.Inv st' (Function.update gs p g') ∧ outcome Q E x g' ∧
          (o.target ≠ .inProcess → ∀ e, E e g')) :
    P.Triple p r g (await o) Q E := by
  refine Protocol.Triple.call hat fun env st gs hinv hg hok x st' hx => ?_
  rcases Op.exec_eq_some hx with hx | ⟨ht, rfl, ⟨-, rfl⟩ | ⟨-, y, hy⟩⟩
  · obtain ⟨g', hinv', hout, -⟩ := hrun env st gs hinv hg hok x st' hx
    exact ⟨g', hinv', hout⟩
  · refine ⟨g, ?_, hbefore ht _⟩
    rwa [← hg, Function.update_eq_self]
  · obtain ⟨g', hinv', -, herr⟩ := hrun env st gs hinv hg hok y st' hy
    exact ⟨g', hinv', herr ht _⟩

/-- The rule of an operation whose failures matter: it goes through, or it fails before its effect,
or after it. -/
theorem Triple.faulting {o : Op} {Q : o.Val → G → Prop} {E : PyError → G → Prop}
    (hat : P.At p r g (some o))
    (hrun : ∀ env st gs, P.Inv st gs → gs p = g → P.ok st p r o env →
      env.fault = .none ∨ o.target = .inProcess → ∀ x st', o.run p env st = some (x, st') →
        ∃ g', P.Inv st' (Function.update gs p g') ∧ outcome Q E x g')
    (hbefore : o.target ≠ .inProcess → ∀ env st gs, P.Inv st gs → gs p = g →
      P.ok st p r o env → env.fault = .before →
        ∃ g', P.Inv st (Function.update gs p g') ∧ E (o.target.error env) g')
    (hafter : o.target ≠ .inProcess → ∀ env st gs, P.Inv st gs → gs p = g →
      P.ok st p r o env → env.fault = .after → ∀ x st', o.run p env st = some (x, st') →
        ∃ g', P.Inv st' (Function.update gs p g') ∧ E (o.target.error env) g') :
    P.Triple p r g (await o) Q E := by
  refine Protocol.Triple.call hat fun env st gs hinv hg hok x st' hx => ?_
  rcases Op.exec_cases hx with ⟨hf, hx⟩ | ⟨ht, rfl, ⟨hf, rfl⟩ | ⟨hf, y, hy⟩⟩
  · exact hrun env st gs hinv hg hok hf x st' hx
  · exact hbefore ht env _ gs hinv hg hok hf
  · exact hafter ht env st gs hinv hg hok hf y st' hy

/-- The same rule, where it does not matter why the operation goes through. -/
theorem Triple.fallible {o : Op} {Q : o.Val → G → Prop} {E : PyError → G → Prop}
    (hat : P.At p r g (some o))
    (hrun : ∀ env st gs, P.Inv st gs → gs p = g → P.ok st p r o env →
      ∀ x st', o.run p env st = some (x, st') →
        ∃ g', P.Inv st' (Function.update gs p g') ∧ outcome Q E x g')
    (hbefore : o.target ≠ .inProcess → ∀ env st gs, P.Inv st gs → gs p = g →
      P.ok st p r o env → env.fault = .before →
        ∃ g', P.Inv st (Function.update gs p g') ∧ E (o.target.error env) g')
    (hafter : o.target ≠ .inProcess → ∀ env st gs, P.Inv st gs → gs p = g →
      P.ok st p r o env → env.fault = .after → ∀ x st', o.run p env st = some (x, st') →
        ∃ g', P.Inv st' (Function.update gs p g') ∧ E (o.target.error env) g') :
    P.Triple p r g (await o) Q E :=
  Triple.faulting hat (fun env st gs hinv hg hok _ => hrun env st gs hinv hg hok) hbefore hafter

/-- An operation that keeps the invariant with the ghost values as they are is steady. -/
theorem Steady.operation {o : Op} (hat : P.At p r g (some o))
    (hrun : ∀ env st gs, P.Inv st gs → gs p = g → P.ok st p r o env →
      ∀ x st', o.run p env st = some (x, st') → P.Inv st' gs) :
    P.Steady p r g (await o) := by
  refine Triple.operation hat (fun _ _ => rfl) fun env st gs hinv hg hok x st' hx => ?_
  refine ⟨g, ?_, ?_, fun _ _ => rfl⟩
  · rw [← hg, Function.update_eq_self]
    exact hrun env st gs hinv hg hok x st' hx
  · cases x <;> rfl

section Reading

variable (hread : ∀ o : Op, o.reads = true → P.Steady p r g (await o))
include hread

theorem getMember_steady (project : ProjectId) (user : UserId) :
    P.Steady p r g (getMember project user) :=
  (hread _ rfl).bind fun _ => .orRaise _ _

theorem requireRunner_steady (project : ProjectId) (user : UserId) :
    P.Steady p r g (requireRunner project user) :=
  (getMember_steady hread project user).bind fun _ => (Protocol.Steady.require _ _).bind fun _ =>
    .pure _

omit hread in
theorem checkCanDebug_steady (member : ProjectMember) (file : File) :
    P.Steady p r g (checkCanDebug s member file) :=
  (Protocol.Steady.require _ _).bind fun _ => (Protocol.Steady.require _ _).bind fun _ =>
    .require _ _

theorem checkRun_steady (req : RunRequest) : P.Steady p r g (checkRun s req) := by
  refine (requireRunner_steady hread req.project req.user).bind fun member => ?_
  refine (hread _ rfl).bind fun found => (Protocol.Steady.orRaise _ _).bind fun file => ?_
  refine (Protocol.Steady.require _ _).bind fun _ => ?_
  refine (Protocol.Steady.require _ _).bind fun _ => ?_
  split
  · exact (checkCanDebug_steady member file).bind fun _ => .pure _
  · exact .pure _

/-- What a start goes on with: a file of the project, for a debug run a Python file. -/
theorem checkRun_checks
    (hget : ∀ file, P.Triple p r g (await (.getFile file))
      (fun found g' => g' = g ∧ found = t.file? file) fun _ g' => g' = g) (req : RunRequest) :
    P.Triple p r g (checkRun s req) (fun checked g' => g' = g ∧ t.file? req.file = some checked.2 ∧
      checked.2.projectId = req.project ∧ (req.debug = true → checked.2.language = .python))
      fun _ g' => g' = g := by
  refine (requireRunner_steady hread req.project req.user).andThen (fun _ => rfl) fun member => ?_
  refine (hget _).bind fun found g₁ hg => ?_
  obtain ⟨rfl, hfound⟩ := hg
  refine Protocol.Triple.bind (Protocol.Triple.orRaise
    (Q := fun file g' => g' = g₁ ∧ t.file? req.file = some file) (fun file hs =>
      ⟨rfl, hfound ▸ hs⟩) fun _ => rfl) fun file g₂ hg => ?_
  obtain ⟨rfl, hfile⟩ := hg
  refine Protocol.Triple.bind (Protocol.Triple.require
    (Q := fun _ g' => g' = g₂ ∧ file.projectId = req.project) (fun hc => ⟨rfl, of_decide_eq_true hc⟩)
    fun _ => rfl) fun _ g' hg => ?_
  obtain ⟨rfl, hproject⟩ := hg
  refine (Protocol.Steady.require _ _).andThen (fun _ => rfl) fun _ => ?_
  refine Protocol.Triple.ite (fun _ => ?_) fun hd => ?_
  · refine Protocol.Triple.bind (Q := fun _ g'' => g'' = g' ∧ file.language = .python) ?_
      fun _ g'' hg => Protocol.Triple.pure ⟨hg.1, hfile, hproject, fun _ => hg.2⟩
    refine (Protocol.Steady.require _ _).andThen (fun _ => rfl) fun _ => ?_
    refine (Protocol.Steady.require _ _).andThen (fun _ => rfl) fun _ => ?_
    exact Protocol.Triple.require (fun hc => ⟨rfl, of_decide_eq_true hc⟩) fun _ => rfl
  · exact Protocol.Triple.pure ⟨rfl, hfile, hproject, fun h => absurd h hd⟩

theorem debugInfo_steady (project : ProjectId) (user : UserId) (username : String) :
    P.Steady p r g (debugInfo project user username) :=
  (hread _ rfl).bind fun _ => (hread _ rfl).bind fun _ => .pure _

omit hread in
theorem select_steady (waiting : List (ExecutionId × Payload)) (now : Seconds) :
    P.Steady p r g (select s waiting now) := by
  unfold select
  split
  · exact .pure _
  · exact .throw _

omit hread in
theorem suppress_steady {x : Py Unit} (h : P.Steady p r g x) : P.Steady p r g (suppress x) :=
  h.tryExcept fun _ => .pure _

omit hread in
/-- What is suppressed does not raise. -/
theorem suppress_triple {x : Py Unit} (h : P.Steady p r g x) {E : PyError → G → Prop} :
    P.Triple p r g (suppress x) (fun _ g' => g' = g) E :=
  Protocol.Triple.tryExcept h (fun _ _ _ hg => Protocol.Triple.pure hg) fun _ _ hh => nomatch hh

theorem killAll_steady (ids : List ExecutionId) : P.Steady p r g (killAll ids) := by
  induction ids with
  | nil => exact .pure _
  | cons id rest ih => exact (suppress_steady (hread _ rfl)).bind fun _ => ih

theorem signalAll_steady (ids : List ExecutionId) : P.Steady p r g (signalAll ids) := by
  induction ids with
  | nil => exact .pure _
  | cons id rest ih => exact (suppress_steady (hread _ rfl)).bind fun _ => ih

end Reading

/-! Where some commands are steady as well. -/

section Commands

variable (hread : ∀ o : Op, o.reads = true → P.Steady p r g (await o))
include hread

theorem clearActive_steady {project : ProjectId}
    (hclear : P.Steady p r g (await (.delActive project))) (id : ExecutionId) :
    P.Steady p r g (clearActive project id) := by
  refine Protocol.Steady.bind (hread _ rfl) fun active => ?_
  split
  · exact hclear.bind fun _ => hread _ rfl
  · exact (Protocol.Steady.pure ()).bind fun _ => hread _ rfl

theorem takeDebugSlot_steady {project : ProjectId} {info : ActiveInfo}
    (hnx : P.Steady p r g (await (.setActiveNx project info)))
    (hset : P.Steady p r g (await (.setActive project info))) :
    P.Steady p r g (takeDebugSlot project info) := by
  refine Protocol.Steady.bind hnx fun claimed => ?_
  split
  · exact .pure _
  · refine Protocol.Steady.bind (hread _ rfl) fun current => ?_
    have htake : ∀ running : Option Execution, P.Steady p r g
        (if running.all (·.status.finished) then do
          setActive project info
          return none
        else return some current) := by
      intro running
      split
      · exact Protocol.Steady.bind hset fun _ => .pure _
      · exact .pure _
    cases current with
    | some active => exact Protocol.Steady.bind (hread _ rfl) htake
    | none => exact (Protocol.Steady.pure none).bind htake

theorem claimDebugSlot_steady {project : ProjectId} {info : ActiveInfo}
    (hnx : P.Steady p r g (await (.setActiveNx project info)))
    (hset : P.Steady p r g (await (.setActive project info))) :
    P.Steady p r g (claimDebugSlot project info) := by
  refine Protocol.Steady.bind ((takeDebugSlot_steady hread hnx hset).tryExcept
    fun _ => .throw _) fun refused => ?_
  split
  · exact .pure _
  · exact .throw _
  · exact .throw _

theorem enqueueExecution_steady (hset : ∀ id payload, P.Steady p r g (await (.hset id payload)))
    (hpush : P.Steady p r g (await .lpush)) (payload : Seconds → Payload) :
    P.Steady p r g (enqueueExecution payload) :=
  (hread _ rfl).bind fun _ => (hset _ _).bind fun _ => hpush

variable (hdel : ∀ id, P.Steady p r g (await (.hdel id)))
include hdel

theorem popAttempts_steady (hscan : P.Steady p r g (await .hgetall)) (n : Nat) :
    P.Steady p r g (popAttempts s n) := by
  induction n with
  | zero => exact .pure _
  | succ n ih =>
    refine Protocol.Steady.bind hscan fun waiting => ?_
    split
    · exact .pure _
    · refine Protocol.Steady.bind (hread _ rfl) fun now => ?_
      refine (select_steady waiting now).bind fun best => ?_
      cases best with
      | none => exact .pure _
      | some best =>
        refine Protocol.Steady.bind (hdel best) fun removed => ?_
        split
        · exact .pure _
        · exact ih

theorem dequeueExecution_steady (hwait : P.Steady p r g (await .blpop))
    (hscan : P.Steady p r g (await .hgetall)) : P.Steady p r g (dequeueExecution s) :=
  hwait.bind fun _ => popAttempts_steady hread hdel hscan _

omit hdel in
theorem forgetUndelivered_steady {project : ProjectId} {id : ExecutionId}
    (hdel : P.Steady p r g (await (.hdel id)))
    (hclear : P.Steady p r g (await (.delActive project))) (debug : Bool) :
    P.Steady p r g (forgetUndelivered project id debug) := by
  refine Protocol.Steady.bind ((hdel.bind fun _ => .pure _).tryExcept
    fun _ => .pure _) fun _ => ?_
  split
  · exact (clearActive_steady hread hclear id).tryExcept fun _ => .pure _
  · exact .pure _

end Commands

/-! Taking an entry, where the protocol follows what the process has read of the queue. -/

section Taking

variable (scanned : List (ExecutionId × Payload) → G) (holding : Payload → G) (I : G → Prop)

/-- The process holds an entry, or has none. -/
def Dequeued (holding : Payload → G) (I : G → Prop) : Option Payload → G → Prop
  | some payload, g => g = holding payload
  | none, g => I g

variable (hidle : ∀ waiting, I (scanned waiting))
  (hclock : ∀ waiting, P.Steady p r (scanned waiting) (await .clock))
  (hscan : ∀ waiting, P.Triple p r (scanned waiting) (await .hgetall)
    (fun waiting' g => g = scanned waiting') fun _ g => I g)
  (htake : ∀ waiting best payload, waiting.lookup best = some payload →
    P.Triple p r (scanned waiting) (await (.hdel best))
      (fun removed g => g = if removed then holding payload else scanned waiting) fun _ g => I g)
include hidle hclock hscan htake

theorem popAttempts_taken (n : Nat) (waiting : List (ExecutionId × Payload)) :
    P.Triple p r (scanned waiting) (popAttempts s n) (Dequeued holding I) fun _ g => I g := by
  induction n generalizing waiting with
  | zero => exact Protocol.Triple.pure (hidle waiting)
  | succ n ih =>
    refine (hscan waiting).bind fun waiting g hg => ?_
    subst hg
    refine Protocol.Triple.ite (fun _ => Protocol.Triple.pure (hidle waiting)) fun _ => ?_
    refine (hclock waiting).andThen (fun _ => hidle waiting) fun now => ?_
    refine Protocol.Triple.bind (Q := fun best g => g = scanned waiting ∧
      s.selectHighestPriority waiting now = .ok best) ?_ fun best g hg => ?_
    · unfold select
      split
      · next best hbest => exact Protocol.Triple.pure ⟨rfl, hbest⟩
      · exact Protocol.Triple.throw (hidle waiting)
    obtain ⟨rfl, hbest⟩ := hg
    cases best with
    | none => exact Protocol.Triple.pure (hidle waiting)
    | some best =>
      obtain ⟨payload, -, hmem, -⟩ := Settings.selectHighestPriority_some hbest
      cases hlook : waiting.lookup best with
      | none => simpa using List.lookup_eq_none_iff.1 hlook _ hmem
      | some payload =>
        refine (htake waiting best payload hlook).bind fun removed g hg => ?_
        refine Protocol.Triple.ite (fun hr => ?_) fun hr => ?_
        · rw [if_pos hr] at hg
          rw [hlook]
          exact Protocol.Triple.pure hg
        · rw [if_neg hr] at hg
          exact hg ▸ ih waiting

theorem dequeueExecution_taken (hwait : P.Steady p r (scanned []) (await .blpop)) :
    P.Triple p r (scanned []) (dequeueExecution s) (Dequeued holding I) fun _ g => I g :=
  hwait.andThen (fun _ => hidle []) fun _ => popAttempts_taken _ _ _ hidle hclock hscan htake _ _

end Taking

end Concord
