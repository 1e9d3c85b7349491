import Concord.Execution.Beside

/-!
# Orphaned executions

A sweep selects rows without locking them, so that each of them may move on before the sweep has written it. What it
selects and marks is committed in one transaction, and its clean-up goes on from there whatever Docker and Redis
answer (`sweep_reclaims`). No container is removed while its execution goes on (`sweep_kills_ended`).
-/

namespace Concord

open Concord.Base Async ExecutionStatus

/-- The execution has ended. -/
def Database.Ended (db : Database) (id : ExecutionId) : Prop :=
  ∃ status, db.status? id = some status ∧ status.finished = true

/-- The execution has moved on from the status in the row. -/
def Database.Past (db : Database) (entry : ExecutionId × Execution) : Prop :=
  ∃ now, db.status? entry.1 = some now ∧ entry.2.status.rank < now.rank

/-- One event of the sweeper for each row, in order. -/
def SweepEvents (written : List (ExecutionId × Execution)) (events : List ExecutionEvent) : Prop :=
  List.Forall₂ (fun entry ev => ev.executionId = entry.1 ∧ ev.payload.fromStatus = some entry.2.status ∧
    ev.payload.toStatus = .failed ∧ ev.payload.actor = .sweeper) written events

/-- The operation has marked the rows as failed, with an event for each, and changed nothing else. -/
structure Marks (written : List (ExecutionId × Execution)) (e : ServiceEntry) : Prop where
  before : ∀ entry ∈ written, e.before.db.status? entry.1 = some entry.2.status
  after : ∀ entry ∈ written, e.after.db.status? entry.1 = some .failed
  others : ∀ id, id ∉ written.map Prod.fst → e.after.db.executions id = e.before.db.executions id
  events : ∃ added, e.after.db.events = e.before.db.events ++ added ∧ SweepEvents written added
  debugSessions : e.after.db.debugSessions = e.before.db.debugSessions

/-- The rows have been selected with the thresholds of the moment. -/
def Selected (s : Settings) (p : Pid) (orphaned : List (ExecutionId × Execution)) (entries : List ServiceEntry) :
    Prop :=
  ∃ now : Seconds, (∃ e ∈ entries, e.call = ⟨.clock, .ok now⟩) ∧
    ∃ e ∈ entries, e.call = ⟨.selectOrphans (now - orphanThreshold)
        (now - orphanThreshold - s.sandboxDebugTimeoutSeconds), .ok orphaned⟩ ∧
      orphaned = e.before.db.orphans p (now - orphanThreshold)
        (now - orphanThreshold - s.sandboxDebugTimeoutSeconds) ∧
      ∀ entry ∈ orphaned, e.before.db.executions entry.1 = some entry.2

/-- The operation has been performed, whatever came of it. -/
def Attempted (o : Op) (entries : List ServiceEntry) : Prop := ∃ e ∈ entries, e.call.1 = o

/-- Containers are removed of executions that have ended. -/
def KillsEnded (entries : List ServiceEntry) : Prop :=
  ∀ e ∈ entries, ∀ id, e.call.1 = .killExecution id → e.before.db.Ended id

/-- An operation that has nothing to do with containers. -/
def Op.isUncontained : Op → Bool
  | killExecution _ | containerIds => false
  | _ => true

/-! ## Rows -/

section Rows

variable {s : Settings} {p : Pid} {db db' : Database} {id : ExecutionId} {entry : ExecutionId × Execution}
  {threshold debugThreshold : Seconds} {orphaned written : List (ExecutionId × Execution)}
  {entries entries' : List ServiceEntry} {o : Op}

theorem Database.Ended.onward (h : db.Ended id) (hdb : db.Onward db') : db'.Ended id := by
  obtain ⟨status, hstatus, hfinished⟩ := h
  obtain ⟨now, hnow, rfl | hlt⟩ := hdb.exists_of_some hstatus
  · exact ⟨now, hnow, hfinished⟩
  · exact absurd (finished_iff_rank.1 hfinished ▸ hlt) (Nat.not_lt_of_le now.rank_le)

theorem Database.Past.onward (h : db.Past entry) (hdb : db.Onward db') : db'.Past entry := by
  obtain ⟨status, hstatus, hlt⟩ := h
  obtain ⟨now, hnow, rfl | hlt'⟩ := hdb.exists_of_some hstatus
  · exact ⟨now, hnow, hlt⟩
  · exact ⟨now, hnow, Nat.lt_trans hlt hlt'⟩

/-- A failed execution stays so. -/
theorem failed_onward (h : db.status? id = some .failed) (hdb : db.Onward db') : db'.status? id = some .failed := by
  obtain ⟨now, hnow, rfl | hlt⟩ := hdb.exists_of_some h
  · exact hnow
  · exact absurd hlt (Nat.not_lt_of_le now.rank_le)

theorem ended_of_failed (h : db.status? id = some .failed) : db.Ended id := ⟨.failed, h, rfl⟩

theorem mem_orphans (h : entry ∈ db.orphans p threshold debugThreshold) :
    db.visible p entry.1 = some entry.2 ∧ entry.2.status.active = true := by
  obtain ⟨e, -, he⟩ := List.mem_filterMap.1 h
  split at he
  · cases he
  · next row hrow =>
    dsimp only at he
    split at he
    · cases he
    · split at he
      · next hactive =>
        cases he
        rw [Bool.and_eq_true, Bool.and_eq_true] at hactive
        exact ⟨hrow, hactive.1.1⟩
      · cases he

/-- What is selected from a range, each with its number, has no number twice. -/
theorem nodup_map_fst_filterMap {β : Type} {f : Nat → Option (Nat × β)} (hf : ∀ e entry, f e = some entry → entry.1 = e)
    (n : Nat) : (((List.range n).filterMap f).map Prod.fst).Nodup := by
  refine List.pairwise_map.2 (List.Pairwise.filterMap _ ?_ List.nodup_range)
  intro e e' hne entry hentry entry' hentry' hsame
  exact hne ((hf e entry hentry).symm.trans (hsame.trans (hf e' entry' hentry')))

/-- No execution is selected twice. -/
theorem nodup_orphans (db : Database) (p : Pid) (threshold debugThreshold : Seconds) :
    ((db.orphans p threshold debugThreshold).map Prod.fst).Nodup := by
  refine nodup_map_fst_filterMap (fun e entry he => ?_) db.nextExecution
  split at he
  · cases he
  · dsimp only at he
    split at he
    · cases he
    · split at he <;> cases he
      rfl

theorem failed_of_active {status : ExecutionStatus} (h : status.active = true) :
    status.canTransition .failed = true ∧ status.finished = false := by
  cases status <;> first | exact absurd h (by decide) | decide

theorem Selected.append (h : Selected s p orphaned entries) : Selected s p orphaned (entries ++ entries') := by
  obtain ⟨now, ⟨e, he, hclock⟩, e', he', hselect⟩ := h
  exact ⟨now, ⟨e, List.mem_append_left _ he, hclock⟩, e', List.mem_append_left _ he', hselect⟩

theorem Selected.nodup (h : Selected s p orphaned entries) : (orphaned.map Prod.fst).Nodup := by
  obtain ⟨now, -, e, -, -, rfl, -⟩ := h
  exact nodup_orphans _ _ _ _

theorem Selected.active (h : Selected s p orphaned entries) (hentry : entry ∈ orphaned) :
    entry.2.status.active = true := by
  obtain ⟨now, -, e, -, -, rfl, -⟩ := h
  exact (mem_orphans hentry).2

/-- Of the selected rows, those with other ids than the marked ones are those that are not marked. -/
theorem Selected.not_mem_map (h : Selected s p orphaned entries) (hsub : written.Sublist orphaned)
    (hentry : entry ∈ orphaned) (hout : entry ∉ written) : entry.1 ∉ written.map Prod.fst := by
  intro hmem
  obtain ⟨other, hother, hsame⟩ := List.mem_map.1 hmem
  exact hout (List.inj_on_of_nodup_map h.nodup (hsub.subset hother) hentry hsame ▸ hother)

theorem Attempted.append (h : Attempted o entries) : Attempted o (entries ++ entries') := by
  obtain ⟨e, he, ho⟩ := h
  exact ⟨e, List.mem_append_left _ he, ho⟩

theorem attempted_concat {e : ServiceEntry} : Attempted e.call.1 (entries ++ [e]) :=
  ⟨e, List.mem_append_right _ List.mem_cons_self, rfl⟩

theorem killsEnded_of_uncontained (h : ∀ e ∈ entries, e.call.1.isUncontained = true) : KillsEnded entries := by
  intro e he id hkill
  have huncontained := h e he
  rw [hkill] at huncontained
  cases huncontained

end Rows

/-! ## How far a sweep is -/

/-- It has selected nothing. -/
structure Unswept (p : Pid) (entries : List ServiceEntry) (st : Service) : Prop where
  clean : st.db.tx p = {}
  unseen : ∀ e ∈ entries, Unseen e
  uncontained : ∀ e ∈ entries, e.call.1.isUncontained = true

/-- It has come past some of the selected rows: `written` are written as failed, `noted` have their event. -/
structure Marking (s : Settings) (p : Pid) (orphaned passed written noted : List (ExecutionId × Execution))
    (entries : List ServiceEntry) (st : Service) : Prop where
  selected : Selected s p orphaned entries
  unseen : ∀ e ∈ entries, Unseen e
  uncontained : ∀ e ∈ entries, e.call.1.isUncontained = true
  rows : ∀ entry ∈ orphaned, st.db.status? entry.1 = some entry.2.status ∨ st.db.Past entry
  sublist : written.Sublist passed
  failed : ∀ entry ∈ written, ∃ row, (st.db.tx p).executions entry.1 = some row ∧ row.status = .failed
  others : ∀ id, id ∉ written.map Prod.fst → (st.db.tx p).executions id = none
  events : SweepEvents noted (st.db.tx p).events
  plain : (st.db.tx p).debugWrites = []
  lost : ∀ entry ∈ passed, entry ∉ written → st.db.Past entry

/-- The rows are marked, and committed. -/
structure Swept (s : Settings) (p : Pid) (orphaned written : List (ExecutionId × Execution))
    (entries : List ServiceEntry) (st : Service) : Prop where
  clean : st.db.tx p = {}
  selected : Selected s p orphaned entries
  sublist : written.Sublist orphaned
  marks : ∀ e ∈ entries, Unseen e ∨ Marks written e
  marked : written ≠ [] → ∃ e ∈ entries, Marks written e
  failed : ∀ entry ∈ written, st.db.status? entry.1 = some .failed
  lost : ∀ entry ∈ orphaned, entry ∉ written → st.db.Past entry

/-- It has not looked at containers. -/
structure Committed (s : Settings) (p : Pid) (orphaned written : List (ExecutionId × Execution))
    (entries : List ServiceEntry) (st : Service) : Prop extends Swept s p orphaned written entries st where
  uncontained : ∀ e ∈ entries, e.call.1.isUncontained = true

/-- It knows which containers there are. -/
structure Listed (s : Settings) (p : Pid) (orphaned written : List (ExecutionId × Execution))
    (containers : List ExecutionId) (entries : List ServiceEntry) (st : Service) : Prop
    extends Swept s p orphaned written entries st where
  kills : KillsEnded entries
  listed : ∀ e ∈ entries, ∀ ids, e.call = ⟨.containerIds, .ok ids⟩ →
    ids = containers ∧ ∀ id, e.before.db.Ended id → st.db.Ended id

/-- It removes the containers of `cleanup`, and has attempted the operations `tried`. -/
structure Cleaning (s : Settings) (p : Pid) (orphaned written : List (ExecutionId × Execution))
    (cleanup : List ExecutionId) (tried : List Op) (entries : List ServiceEntry) (st : Service) : Prop
    extends Swept s p orphaned written entries st where
  kills : KillsEnded entries
  ended : ∀ id ∈ cleanup, st.db.Ended id
  listed : ∀ e ∈ entries, ∀ ids, e.call = ⟨.containerIds, .ok ids⟩ → ∀ id ∈ ids, e.before.db.Ended id → id ∈ cleanup
  tried : ∀ o ∈ tried, Attempted o entries

section Phases

variable {s : Settings} {p : Pid} {orphaned passed written noted : List (ExecutionId × Execution)}
  {containers cleanup : List ExecutionId} {tried : List Op} {entries : List ServiceEntry} {st st' : Service}

/-- The phases before anything is known of containers. -/
abbrev EarlyPhase (p : Pid) (I : List ServiceEntry → Service → Prop) : Prop :=
  Phase p (fun e => e.call.1.isUncontained = true) KillsEnded I

/-- The phases in which containers are removed. -/
abbrev CleaningPhase (p : Pid) (I : List ServiceEntry → Service → Prop) : Prop :=
  Phase p (fun e => e.call.1 ≠ .containerIds ∧ ∀ id, e.call.1 = .killExecution id → e.before.db.Ended id) KillsEnded I

theorem Unswept.phase : EarlyPhase p (Unswept p) where
  always h := killsEnded_of_uncontained h.uncontained
  beside h hst := { h with clean := hst.tx.trans h.clean }
  aside h hdb huncontained :=
    { clean := hdb ▸ h.clean
      unseen := forall_concat h.unseen (unseen_of_db hdb)
      uncontained := forall_concat h.uncontained huncontained }

theorem row_onward {db db' : Database} {entry : ExecutionId × Execution} (hdb : db.Onward db')
    (h : db.status? entry.1 = some entry.2.status ∨ db.Past entry) :
    db'.status? entry.1 = some entry.2.status ∨ db'.Past entry := by
  rcases h with hsame | hpast
  · obtain ⟨now, hnow, rfl | hlt⟩ := hdb.exists_of_some hsame
    · exact .inl hnow
    · exact .inr ⟨now, hnow, hlt⟩
  · exact .inr (hpast.onward hdb)

theorem Marking.phase : EarlyPhase p (Marking s p orphaned passed written noted) where
  always h := killsEnded_of_uncontained h.uncontained
  beside h hst := { h with
    rows := fun entry hentry => row_onward hst.onward (h.rows entry hentry)
    failed := hst.tx ▸ h.failed
    others := hst.tx ▸ h.others
    events := hst.tx ▸ h.events
    plain := hst.tx ▸ h.plain
    lost := fun entry hentry hout => (h.lost entry hentry hout).onward hst.onward }
  aside h hdb huncontained :=
    { selected := h.selected.append
      unseen := forall_concat h.unseen (unseen_of_db hdb)
      uncontained := forall_concat h.uncontained huncontained
      rows := hdb ▸ h.rows
      sublist := h.sublist
      failed := hdb ▸ h.failed
      others := hdb ▸ h.others
      events := hdb ▸ h.events
      plain := hdb ▸ h.plain
      lost := hdb ▸ h.lost }

namespace Swept

theorem beside (h : Swept s p orphaned written entries st) (hst : Beside p st st') :
    Swept s p orphaned written entries st' :=
  { h with
    clean := hst.tx.trans h.clean
    failed := fun entry hentry => failed_onward (h.failed entry hentry) hst.onward
    lost := fun entry hentry hout => (h.lost entry hentry hout).onward hst.onward }

/-- An operation that changes no committed row. -/
theorem concat {e : ServiceEntry} (h : Swept s p orphaned written entries e.before) (he : Unseen e)
    (hclean : e.after.db.tx p = {}) : Swept s p orphaned written (entries ++ [e]) e.after where
  clean := hclean
  selected := h.selected.append
  sublist := h.sublist
  marks := forall_concat h.marks (.inl he)
  marked hne := by
    obtain ⟨e', he', hmarks⟩ := h.marked hne
    exact ⟨e', List.mem_append_left _ he', hmarks⟩
  failed entry hentry := by
    rw [Database.status?, he.executions]
    exact h.failed entry hentry
  lost entry hentry hout := by
    obtain ⟨now, hnow, hlt⟩ := h.lost entry hentry hout
    refine ⟨now, ?_, hlt⟩
    rw [Database.status?, he.executions]
    exact hnow

theorem aside {o : Op} {x : Except PyError o.Val} (h : Swept s p orphaned written entries st)
    (hdb : st'.db = st.db) : Swept s p orphaned written (entries ++ [⟨p, ⟨o, x⟩, st, st'⟩]) st' :=
  h.concat (e := ⟨p, ⟨o, x⟩, st, st'⟩) (unseen_of_db hdb) (hdb ▸ h.clean)

end Swept

theorem Committed.phase : EarlyPhase p (Committed s p orphaned written) where
  always h := killsEnded_of_uncontained h.uncontained
  beside h hst := { h with toSwept := h.toSwept.beside hst }
  aside h hdb huncontained :=
    { toSwept := h.toSwept.aside hdb
      uncontained := forall_concat h.uncontained huncontained }

theorem Listed.phase : CleaningPhase p (Listed s p orphaned written containers) where
  always h := h.kills
  beside h hst := { h with
    toSwept := h.toSwept.beside hst
    listed := fun e he ids hids => by
      obtain ⟨hsame, hended⟩ := h.listed e he ids hids
      exact ⟨hsame, fun id hid => (hended id hid).onward hst.onward⟩ }
  aside h hdb hfine :=
    { toSwept := h.toSwept.aside hdb
      kills := forall_concat h.kills hfine.2
      listed := forall_concat
        (fun e he ids hids => by
          rw [hdb]
          exact h.listed e he ids hids)
        fun _ hids => absurd (congrArg Sigma.fst hids) hfine.1 }

theorem Cleaning.phase : CleaningPhase p (Cleaning s p orphaned written cleanup tried) where
  always h := h.kills
  beside h hst := { h with
    toSwept := h.toSwept.beside hst
    ended := fun id hid => (h.ended id hid).onward hst.onward }
  aside h hdb hfine :=
    { toSwept := h.toSwept.aside hdb
      kills := forall_concat h.kills hfine.2
      ended := hdb ▸ h.ended
      listed := forall_concat h.listed fun _ hids => absurd (congrArg Sigma.fst hids) hfine.1
      tried := fun o ho => (h.tried o ho).append }

end Phases

/-! ## Marking the rows -/

section Marking

variable {s : Settings} {t : Tables} {p : Pid} {orphaned passed written : List (ExecutionId × Execution)}
  {entry : ExecutionId × Execution} {past : List ServiceEntry} {st : Service}

theorem Unswept.meets_clock (h : Unswept p past st) :
    (besideRely p).Meets (service s t) p past st (await .clock) (fun es _ => KillsEnded es)
      (fun now es u => Unswept p es u ∧ ∃ e ∈ es, e.call = ⟨.clock, .ok now⟩) fun _ es _ => Broken es := by
  refine Rely.Meets.call (Unswept.phase.always h) fun before env x after hst _ _ hexec => ?_
  have hrun := run_of_inProcess rfl hexec
  cases hrun
  have hnow := Unswept.phase.aside (o := .clock) (x := .ok env.now) (Unswept.phase.beside h hst) rfl rfl
  exact ⟨Unswept.phase.always hnow, fun u hu =>
    ⟨Unswept.phase.beside hnow hu, _, List.mem_append_right _ List.mem_cons_self, rfl⟩⟩

/-- The selection. -/
theorem Unswept.meets_selectOrphans (h : Unswept p past st) {now : Seconds}
    (hclock : ∃ e ∈ past, e.call = ⟨.clock, .ok now⟩) :
    (besideRely p).Meets (service s t) p past st
      (await (.selectOrphans (now - orphanThreshold) (now - orphanThreshold - s.sandboxDebugTimeoutSeconds)))
      (fun es _ => KillsEnded es) (fun orphaned es u => Marking s p orphaned [] [] [] es u)
      fun _ es _ => Broken es := by
  refine Unswept.phase.meets rfl (fun _ _ _ _ => rfl) h (fun orphaned env before after hnow hrun u hu => ?_)
    fun e _ before after _ _ _ => broken_concat rfl past e before after
  refine Marking.phase.beside (?_ : Marking s p orphaned [] [] [] _ after) hu
  cases hrun
  have hrow : ∀ entry ∈ before.db.orphans p (now - orphanThreshold)
      (now - orphanThreshold - s.sandboxDebugTimeoutSeconds), before.db.executions entry.1 = some entry.2 :=
    fun entry hentry => (visible_of_clean hnow.clean).symm.trans (mem_orphans hentry).1
  obtain ⟨e, he, hread⟩ := hclock
  exact {
    selected := ⟨now, ⟨e, List.mem_append_left _ he, hread⟩, _, List.mem_append_right _ List.mem_cons_self, rfl, rfl,
      hrow⟩
    unseen := hnow.unseen
    uncontained := hnow.uncontained
    rows := fun entry hentry => .inl (by rw [Database.status?, hrow entry hentry]; rfl)
    sublist := .slnil
    failed := by simp
    others := by simp [hnow.clean]
    events := by simp [hnow.clean, SweepEvents]
    plain := by simp [hnow.clean]
    lost := by simp }

/-- The conditional write of a row. It fails when the row has moved on. -/
theorem Marking.meets_updateStatus (h : Marking s p orphaned passed written written past st)
    (hentry : entry ∈ orphaned) (hnew : entry.1 ∉ passed.map Prod.fst) (fields : StatusFields) :
    (besideRely p).Meets (service s t) p past st (await (.updateStatus entry.1 entry.2.status .failed fields))
      (fun es _ => KillsEnded es)
      (fun changed es u => Marking s p orphaned (passed ++ [entry]) (written ++ if changed then [entry] else []) written
        es u) fun _ es _ => Broken es := by
  refine Rely.Meets.call (Marking.phase.always h) fun before env x after hst _ _ hexec => ?_
  have hbefore := Marking.phase.beside h hst
  have hunseen := unseen_of_exec (by simp) hexec
  refine ⟨killsEnded_of_uncontained (forall_concat hbefore.uncontained rfl), fun u hu => ?_⟩
  have hout : entry.1 ∉ written.map Prod.fst := fun hmem => hnew ((hbefore.sublist.map _).subset hmem)
  have hvisible : before.db.visible p entry.1 = before.db.executions entry.1 := by
    rw [Database.visible, hbefore.others entry.1 hout]
    rfl
  cases x with
  | error e => exact broken_concat rfl past e before after
  | ok changed =>
    obtain ⟨changed', db, hupdate, hok, rfl⟩ := Op.run_updateStatus (run_of_exec_ok hexec)
    obtain rfl := Except.ok.inj hok
    rcases Database.updateWhere_eq_some hupdate with ⟨rfl, rfl⟩ | ⟨rfl, row, -, -, -, rfl⟩
    · refine Marking.phase.beside
        (?_ : Marking s p orphaned (passed ++ [entry]) (written ++ []) written _ { before with db := before.db }) hu
      rw [List.append_nil]
      exact { hbefore with
        selected := hbefore.selected.append
        unseen := forall_concat hbefore.unseen hunseen
        uncontained := forall_concat hbefore.uncontained rfl
        sublist := hbefore.sublist.trans (List.sublist_append_left _ _)
        lost := by
          intro other hother hnot
          rcases List.mem_append.1 hother with hother | hother
          · exact hbefore.lost other hother hnot
          · -- the row is there, and its status is another one
            obtain rfl := List.mem_singleton.1 hother
            refine (hbefore.rows other hentry).resolve_left fun hsame => ?_
            obtain ⟨row, hrow, hstatus⟩ := Option.map_eq_some_iff.1 hsame
            have hmiss := Database.not_of_updateWhere_false hupdate (hvisible.trans hrow)
            exact of_decide_eq_false hmiss hstatus }
    · refine Marking.phase.beside
        (?_ : Marking s p orphaned (passed ++ [entry]) (written ++ [entry]) written _ { before with db := _ }) hu
      exact {
        selected := hbefore.selected.append
        unseen := forall_concat hbefore.unseen hunseen
        uncontained := forall_concat hbefore.uncontained rfl
        rows := hbefore.rows
        sublist := hbefore.sublist.append (.refl _)
        failed := by
          intro other hother
          by_cases hsame : other.1 = entry.1
          · exact ⟨row.set .failed fields, by simp [Database.write, hsame], rfl⟩
          · obtain ⟨row', hrow', hfailed⟩ := hbefore.failed other
              ((List.mem_append.1 hother).resolve_right fun hlast => hsame (by rw [List.mem_singleton.1 hlast]))
            exact ⟨row', by simpa [Database.write, hsame] using hrow', hfailed⟩
        others := by
          intro id hid
          rw [List.map_append, List.mem_append, not_or] at hid
          have hne : id ≠ entry.1 := fun hsame => hid.2 (hsame ▸ List.mem_cons_self)
          simpa [Database.write, hne] using hbefore.others id hid.1
        events := by simpa [Database.write] using hbefore.events
        plain := by simpa [Database.write] using hbefore.plain
        lost := by
          intro other hother hnot
          rw [List.mem_append, not_or] at hnot
          rcases List.mem_append.1 hother with hother | hother
          · exact hbefore.lost other hother hnot.1
          · exact absurd hother hnot.2 }

/-- The event of a row. -/
theorem Marking.meets_record (h : Marking s p orphaned passed (written ++ [entry]) written past st)
    (fields : StatusFields) :
    (besideRely p).Meets (service s t) p past st
      (recordStatusEvent entry.1 (some entry.2.status) .failed .sweeper fields) (fun es _ => KillsEnded es)
      (fun _ es u => Marking s p orphaned passed (written ++ [entry]) (written ++ [entry]) es u)
      fun _ es _ => Broken es := by
  refine Rely.Meets.call (Marking.phase.always h) fun before env x after hst _ _ hexec => ?_
  have hbefore := Marking.phase.beside h hst
  have hunseen := unseen_of_exec (by simp) hexec
  have hrun : Op.run p env before _ = some (x, after) := run_of_inProcess rfl hexec
  cases hrun
  refine ⟨killsEnded_of_uncontained (forall_concat hbefore.uncontained rfl), fun u hu => ?_⟩
  refine Marking.phase.beside
    (?_ : Marking s p orphaned passed (written ++ [entry]) (written ++ [entry]) _ { before with db := _ }) hu
  exact {
    selected := hbefore.selected.append
    unseen := forall_concat hbefore.unseen hunseen
    uncontained := forall_concat hbefore.uncontained rfl
    rows := hbefore.rows
    sublist := hbefore.sublist
    failed := by simpa [Database.addEvent] using hbefore.failed
    others := by simpa [Database.addEvent] using hbefore.others
    events := by
      simp only [Database.addEvent, Function.update_self]
      exact List.rel_append hbefore.events (.cons ⟨rfl, rfl, rfl, rfl⟩ .nil)
    plain := by simpa [Database.addEvent] using hbefore.plain
    lost := hbefore.lost }

/-- A row is marked with its event, or has been lost to another writer. -/
theorem Marking.meets_changeStatus (h : Marking s p orphaned passed written written past st)
    (hentry : entry ∈ orphaned) (hnew : entry.1 ∉ passed.map Prod.fst) (fields : StatusFields) :
    (besideRely p).Meets (service s t) p past st (changeStatus entry.1 entry.2 .failed .sweeper fields)
      (fun es _ => KillsEnded es)
      (fun changed es u => Marking s p orphaned (passed ++ [entry]) (written ++ if changed.1 then [entry] else [])
        (written ++ if changed.1 then [entry] else []) es u) fun _ es _ => Broken es := by
  unfold changeStatus
  rw [if_pos (failed_of_active (h.selected.active hentry)).1]
  refine (h.meets_updateStatus hentry hnew fields).bind fun changed es u _ hchanged => ?_
  have hchanged := hchanged u ((besideRely p).refl u)
  have hrefresh := Marking.phase.meets (s := s) (t := t) (o := .refresh entry.1) rfl (fun _ _ _ _ => rfl) hchanged
    (Q := fun _ es u => Marking s p orphaned (passed ++ [entry]) (written ++ if changed then [entry] else []) written
      es u) (E := fun _ es _ => Broken es) (fun _ _ _ _ hnow _ _ hu => Marking.phase.beside hnow hu)
    fun e _ before after _ _ _ => broken_concat rfl es e before after
  refine hrefresh.bind fun refreshed es u _ hrefreshed => ?_
  cases changed with
  | true =>
    refine ((hrefreshed u ((besideRely p).refl u)).meets_record _).bind fun _ es u halways hnoted => ?_
    exact .pure halways hnoted
  | false =>
    rw [if_neg Bool.false_ne_true, List.append_nil] at hrefreshed
    refine .pure (Marking.phase.always (hrefreshed u ((besideRely p).refl u))) fun v hv => ?_
    rw [if_neg Bool.false_ne_true, List.append_nil]
    exact hrefreshed v hv

/-- The loop over the selected rows. -/
theorem failOrphans_meets (now : Seconds) {rest : List (ExecutionId × Execution)} (hsplit : passed ++ rest = orphaned)
    (h : Marking s p orphaned passed written written past st) :
    (besideRely p).Meets (service s t) p past st (failOrphans now rest) (fun es _ => KillsEnded es)
      (fun ids es u => ∃ more, ids = more.map Prod.fst ∧
        Marking s p orphaned orphaned (written ++ more) (written ++ more) es u) fun _ es _ => Broken es := by
  induction rest generalizing passed written past st with
  | nil =>
    obtain rfl : passed = orphaned := by rw [← hsplit, List.append_nil]
    refine .pure (Marking.phase.always h) fun u hu => ⟨[], rfl, ?_⟩
    rw [List.append_nil]
    exact Marking.phase.beside h hu
  | cons entry rest ih =>
    have hmem : entry ∈ orphaned := hsplit ▸ List.mem_append_right _ List.mem_cons_self
    have hnew : entry.1 ∉ passed.map Prod.fst := by
      have hnodup := h.selected.nodup
      rw [← hsplit, List.map_append, List.map_cons] at hnodup
      exact fun hpassed => (List.nodup_append.1 hnodup).2.2 _ hpassed _ List.mem_cons_self rfl
    refine (h.meets_changeStatus hmem hnew _).bind fun changed es u _ hchanged => ?_
    have hsplit : (passed ++ [entry]) ++ rest = orphaned := by rw [List.append_assoc, List.singleton_append, hsplit]
    refine (ih hsplit (hchanged u ((besideRely p).refl u))).bind fun ids es u halways hmore => ?_
    refine .pure halways fun v hv => ?_
    obtain ⟨more, rfl, hmarking⟩ := hmore v hv
    rw [List.append_assoc] at hmarking
    refine ⟨(if changed.1 then [entry] else []) ++ more, ?_, hmarking⟩
    split <;> rfl

/-- A transaction in which a session has written nothing. -/
theorem Marking.clean_of_nil (h : Marking s p orphaned passed [] [] past st) : st.db.tx p = {} := by
  have hexecutions : (st.db.tx p).executions = fun _ => none :=
    funext fun id => h.others id List.not_mem_nil
  have hevents : (st.db.tx p).events = [] := by
    cases hnone : (st.db.tx p).events with
    | nil => rfl
    | cons ev evs =>
      have hmarked := h.events
      rw [hnone] at hmarked
      cases hmarked
  have hplain := h.plain
  cases htx : st.db.tx p with
  | mk executions events debugWrites =>
    rw [htx] at hexecutions hevents hplain
    subst hexecutions hevents hplain
    rfl

/-- Nothing is marked, and nothing to commit. -/
theorem Marking.committed_of_nil (h : Marking s p orphaned orphaned [] [] past st) :
    Committed s p orphaned [] past st where
  clean := h.clean_of_nil
  selected := h.selected
  sublist := List.nil_sublist _
  marks e he := .inl (h.unseen e he)
  marked hne := absurd rfl hne
  failed _ hentry := absurd hentry List.not_mem_nil
  lost := h.lost
  uncontained := h.uncontained

/-- What a session has written is what the row was when its event was added. -/
theorem Marking.status_eq (h : Marking s p orphaned passed written written past st)
    (hlog : ∃ owed, LogInv st.db owed) (hsub : written.Sublist orphaned) (hentry : entry ∈ written) :
    st.db.status? entry.1 = some entry.2.status := by
  obtain ⟨owed, hinv⟩ := hlog
  refine (h.rows entry (hsub.subset hentry)).resolve_right fun ⟨now, hnow, hlt⟩ => ?_
  obtain ⟨ev, hev, hid, hfrom, hto, -⟩ : ∃ ev ∈ (st.db.tx p).events, ev.executionId = entry.1 ∧
      ev.payload.fromStatus = some entry.2.status ∧ ev.payload.toStatus = .failed ∧ ev.payload.actor = .sweeper := by
    obtain ⟨i, hi, rfl⟩ := List.getElem_of_mem hentry
    have hlength : i < (st.db.tx p).events.length := h.events.length_eq ▸ hi
    exact ⟨_, List.getElem_mem hlength, List.Forall₂.get h.events hi hlength⟩
  have hmem : ev.move ∈ movesOf entry.1 (st.db.tx p).events :=
    List.mem_map_of_mem (List.mem_filter.2 ⟨hev, decide_eq_true hid⟩)
  have hmove : ev.move = (some entry.2.status, some .failed) := by rw [ExecutionEvent.move, hfrom, hto]
  rw [hmove] at hmem
  have hle := (hinv.pending p entry.1).rank_le_of_mem progress_lt_of_step (List.mem_append_left _ hmem)
  rw [hnow] at hle
  exact absurd hlt (Nat.not_lt_of_le (Nat.le_of_succ_le_succ hle))

/-- The commit of the marked rows. -/
theorem Marking.meets_commit (h : Marking s p orphaned orphaned written written past st) :
    (besideRely p).Meets (service s t) p past st (await .commit) (fun es _ => KillsEnded es)
      (fun _ es u => Committed s p orphaned written es u) fun _ es _ => Broken es := by
  refine Rely.Meets.call (Marking.phase.always h) fun before env x after hst hknown _ hexec => ?_
  have hbefore := Marking.phase.beside h hst
  refine ⟨killsEnded_of_uncontained (forall_concat hbefore.uncontained rfl), fun u hu => ?_⟩
  cases x with
  | error e => exact broken_concat rfl past e before after
  | ok v =>
    have hrun := run_of_exec_ok hexec
    cases hrun
    have hvisible : ∀ id, id ∉ written.map Prod.fst → before.db.visible p id = before.db.executions id := by
      intro id hid
      rw [Database.visible, hbefore.others id hid]
      rfl
    have hfailed : ∀ entry ∈ written, (before.db.commit p).status? entry.1 = some .failed := by
      intro entry hentry
      obtain ⟨row, hrow, hfailed⟩ := hbefore.failed entry hentry
      simp [Database.status?, Database.commit, Database.visible, hrow, hfailed]
    have hmarks : Marks written ⟨p, ⟨.commit, .ok ()⟩, before, { before with db := before.db.commit p }⟩ :=
      { before := fun entry hentry => hbefore.status_eq hknown.1 hbefore.sublist hentry
        after := hfailed
        others := hvisible
        events := ⟨_, rfl, hbefore.events⟩
        debugSessions := by simp [Database.commit, hbefore.plain] }
    refine Committed.phase.beside
      (?_ : Committed s p orphaned written _ { before with db := before.db.commit p }) hu
    exact {
      clean := by simp [Database.commit, Database.rollback]
      selected := hbefore.selected.append
      sublist := hbefore.sublist
      marks := forall_concat (fun e he => .inl (hbefore.unseen e he)) (.inr hmarks)
      marked := fun _ => ⟨_, List.mem_append_right _ List.mem_cons_self, hmarks⟩
      failed := hfailed
      lost := fun entry hentry hout => by
        obtain ⟨now, hnow, hlt⟩ := hbefore.lost entry hentry hout
        refine ⟨now, ?_, hlt⟩
        rw [← hnow]
        exact congrArg _ (hvisible entry.1 (hbefore.selected.not_mem_map hbefore.sublist hentry hout))
      uncontained := forall_concat hbefore.uncontained rfl }

end Marking

/-! ## Removing the containers -/

section Cleaning

variable {s : Settings} {t : Tables} {p : Pid} {orphaned written : List (ExecutionId × Execution)}
  {containers cleanup cleanup' : List ExecutionId} {tried : List Op} {past : List ServiceEntry} {st : Service}

/-- The containers that Docker lists; none if it fails. -/
theorem Committed.meets_containerIds (h : Committed s p orphaned written past st) :
    (besideRely p).Meets (service s t) p past st (tryExcept (await .containerIds) (fun _ => true) fun _ => pure [])
      (fun es _ => KillsEnded es) (fun containers es u => Listed s p orphaned written containers es u)
      fun _ es _ => Broken es := by
  have hcall : (besideRely p).Meets (service s t) p past st (await .containerIds) (fun es _ => KillsEnded es)
      (fun containers es u => Listed s p orphaned written containers es u)
      fun _ es u => Listed s p orphaned written [] es u := by
    refine Rely.Meets.call (Committed.phase.always h) fun before env x after hst _ _ hexec => ?_
    have hbefore := Committed.phase.beside h hst
    have hdb : after.db = before.db := exec_db rfl hexec
    have hkills : KillsEnded (past ++ [⟨p, ⟨.containerIds, x⟩, before, after⟩]) :=
      forall_concat (killsEnded_of_uncontained hbefore.uncontained) fun id hkill => by cases hkill
    have hnow : ∀ containers, (∀ ids, x = .ok ids → ids = containers) →
        Listed s p orphaned written containers (past ++ [⟨p, ⟨.containerIds, x⟩, before, after⟩]) after := by
      intro containers hids
      refine ⟨hbefore.toSwept.aside hdb, hkills, forall_concat (fun e he ids hlisted => ?_) fun ids hlisted => ?_⟩
      · have huncontained := hbefore.uncontained e he
        rw [hlisted] at huncontained
        cases huncontained
      · cases hlisted
        exact ⟨hids _ rfl, fun id hended => hdb ▸ hended⟩
    refine ⟨hkills, fun u hu => ?_⟩
    cases x with
    | error e => exact Listed.phase.beside (hnow [] fun _ hok => by cases hok) hu
    | ok containers => exact Listed.phase.beside (hnow containers fun _ hok => (Except.ok.inj hok).symm) hu
  refine hcall.tryExcept (fun e es u _ halways hlisted => .pure halways hlisted) fun e es u hhandled _ => ?_
  exact absurd (Eq.symm hhandled) Bool.false_ne_true

/-- `cleanup` holds the marked rows, and of the listed executions those that have ended. -/
theorem Listed.cleaning {finished : List ExecutionId} (h : Listed s p orphaned written containers past st)
    (hended : ∀ id ∈ finished, st.db.Ended id)
    (hall : ∀ id ∈ containers.filter (· ∉ written.map Prod.fst), st.db.Ended id → id ∈ finished) :
    Cleaning s p orphaned written (written.map Prod.fst ++ finished) [] past st := by
  refine ⟨h.toSwept, h.kills, fun id hid => ?_, fun e he ids hids id hid hbefore => ?_, by simp⟩
  · rcases List.mem_append.1 hid with hmarked | hfinished
    · obtain ⟨entry, hentry, rfl⟩ := List.mem_map.1 hmarked
      exact ended_of_failed (h.failed entry hentry)
    · exact hended id hfinished
  · obtain ⟨rfl, honward⟩ := h.listed e he ids hids
    by_cases hmarked : id ∈ written.map Prod.fst
    · exact List.mem_append_left _ hmarked
    · exact List.mem_append_right _ (hall id (List.mem_filter.2 ⟨hid, decide_eq_true hmarked⟩) (honward id hbefore))

/-- The executions that have ended, of those with a container. -/
theorem Listed.meets_selectFinished (h : Listed s p orphaned written containers past st) :
    (besideRely p).Meets (service s t) p past st
      (await (.selectFinished (containers.filter (· ∉ written.map Prod.fst)))) (fun es _ => KillsEnded es)
      (fun finished es u => Cleaning s p orphaned written (written.map Prod.fst ++ finished) [] es u)
      fun _ es _ => Broken es := by
  refine Listed.phase.meets rfl (fun _ _ _ _ => ⟨by simp, by simp⟩) h
    (fun finished env before after hnow hrun u hu => ?_)
    fun e _ before after _ _ _ => broken_concat rfl past e before after
  refine Cleaning.phase.beside (hnow.cleaning ?_ ?_) hu <;> cases hrun
  · intro id hid
    obtain ⟨row, hrow, hfinished⟩ := (Option.any_eq_true _ _).1 (List.mem_filter.1 hid).2
    rw [visible_of_clean hnow.clean] at hrow
    exact ⟨row.status, by rw [Database.status?, hrow]; rfl, hfinished⟩
  · rintro id hid ⟨status, hstatus, hfinished⟩
    obtain ⟨row, hrow, rfl⟩ := Option.map_eq_some_iff.1 hstatus
    refine List.mem_filter.2 ⟨hid, ?_⟩
    rw [visible_of_clean hnow.clean, hrow]
    exact hfinished

theorem Cleaning.congr (h : Cleaning s p orphaned written cleanup tried past st)
    (hmem : ∀ id, id ∈ cleanup' ↔ id ∈ cleanup) : Cleaning s p orphaned written cleanup' tried past st :=
  { h with
    ended := fun id hid => h.ended id ((hmem id).1 hid)
    listed := fun e he ids hids id hid hended => (hmem id).2 (h.listed e he ids hids id hid hended) }

/-- An operation that may fail. -/
theorem Cleaning.meets_attempt (h : Cleaning s p orphaned written cleanup tried past st) {o : Op}
    (ho : o.writesDb = false) (hlisting : o ≠ .containerIds) (hkill : ∀ id, o = .killExecution id → id ∈ cleanup) :
    (besideRely p).Meets (service s t) p past st (await o) (fun es _ => KillsEnded es)
      (fun _ es u => Cleaning s p orphaned written cleanup (tried ++ [o]) es u)
      fun _ es u => Cleaning s p orphaned written cleanup (tried ++ [o]) es u := by
  have htried : ∀ {es : List ServiceEntry} {e : ServiceEntry} {u : Service}, e.call.1 = o →
      Cleaning s p orphaned written cleanup tried (es ++ [e]) u →
      Cleaning s p orphaned written cleanup (tried ++ [o]) (es ++ [e]) u := by
    intro es e u hcall hnow
    refine { hnow with tried := fun o' ho' => ?_ }
    rcases List.mem_append.1 ho' with ho' | ho'
    · exact hnow.tried o' ho'
    · rw [List.mem_singleton.1 ho', ← hcall]
      exact attempted_concat
  refine Cleaning.phase.meets ho (fun x before after hbefore => ⟨hlisting, fun id hid => ?_⟩) h
    (fun v env before after hnow _ u hu => ?_) fun e env before after _ u hnow => htried rfl hnow
  · exact hbefore.ended id (hkill id hid)
  · exact Cleaning.phase.beside (htried rfl hnow) hu

theorem Cleaning.meets_suppress {o : Op} {x : Py Unit}
    (hx : (besideRely p).Meets (service s t) p past st x (fun es _ => KillsEnded es)
      (fun _ es u => Cleaning s p orphaned written cleanup (tried ++ [o]) es u)
      fun _ es u => Cleaning s p orphaned written cleanup (tried ++ [o]) es u) :
    (besideRely p).Meets (service s t) p past st (suppress x) (fun es _ => KillsEnded es)
      (fun _ es u => Cleaning s p orphaned written cleanup (tried ++ [o]) es u) fun _ es _ => Broken es :=
  hx.tryExcept (fun _ _ _ _ halways hnow => .pure halways hnow) fun _ _ _ hhandled _ =>
    absurd (Eq.symm hhandled) Bool.false_ne_true

theorem killAll_meets {ids : List ExecutionId} (hids : ∀ id ∈ ids, id ∈ cleanup)
    (h : Cleaning s p orphaned written cleanup tried past st) :
    (besideRely p).Meets (service s t) p past st (killAll ids) (fun es _ => KillsEnded es)
      (fun _ es u => Cleaning s p orphaned written cleanup (tried ++ ids.map .killExecution) es u)
      fun _ es _ => Broken es := by
  induction ids generalizing tried past st with
  | nil =>
    refine .pure h.kills fun u hu => ?_
    rw [List.map_nil, List.append_nil]
    exact Cleaning.phase.beside h hu
  | cons id ids ih =>
    have hkill := Cleaning.meets_suppress (h.meets_attempt (s := s) (t := t) (o := .killExecution id) rfl (by simp) ?_)
    · refine hkill.bind fun _ es u _ hnow => ?_
      have hrest := ih (fun id hid => hids id (List.mem_cons_of_mem _ hid)) (hnow u ((besideRely p).refl u))
      rwa [List.append_assoc] at hrest
    · rintro id' ⟨⟩
      exact hids id List.mem_cons_self

theorem signalAll_meets {ids : List ExecutionId} (h : Cleaning s p orphaned written cleanup tried past st) :
    (besideRely p).Meets (service s t) p past st (signalAll ids) (fun es _ => KillsEnded es)
      (fun _ es u => Cleaning s p orphaned written cleanup (tried ++ ids.map fun id => .publish (.cancel id)) es u)
      fun _ es _ => Broken es := by
  induction ids generalizing tried past st with
  | nil =>
    refine .pure h.kills fun u hu => ?_
    rw [List.map_nil, List.append_nil]
    exact Cleaning.phase.beside h hu
  | cons id ids ih =>
    have hsignal := Cleaning.meets_suppress (x := signalCancel id)
      (h.meets_attempt (s := s) (t := t) (o := .publish (.cancel id)) rfl (by simp) (by simp))
    refine hsignal.bind fun _ es u _ hnow => ?_
    have hrest := ih (hnow u ((besideRely p).refl u))
    rwa [List.append_assoc] at hrest

end Cleaning

/-! ## The request -/

/-- What an ended sweep has done: it has marked the rows, and attempted to remove the containers and to signal. -/
def Finished (s : Settings) (p : Pid) (res : Outcome) (entries : List ServiceEntry) (st : Service) : Prop :=
  ∃ orphaned written cleanup, res = .swept written.length ∧ (∀ entry ∈ written, entry.1 ∈ cleanup) ∧
    Cleaning s p orphaned written cleanup
      (cleanup.map .killExecution ++ (written.map Prod.fst).map fun id => .publish (.cancel id)) entries st

section Request

variable {s : Settings} {t : Tables} {p : Pid} {orphaned written : List (ExecutionId × Execution)}
  {past : List ServiceEntry} {st : Service}

/-- The containers are removed, and the workers signalled. -/
theorem Cleaning.meets_rest {finished : List ExecutionId}
    (h : Cleaning s p orphaned written (written.map Prod.fst ++ finished) [] past st) :
    (besideRely p).Meets (service s t) p past st (do
        killAll ((written.map Prod.fst ++ finished).dedup.mergeSort (· ≤ ·))
        signalAll (written.map Prod.fst)
        return (written.map Prod.fst).length) (fun es _ => KillsEnded es)
      (fun count es u => Finished s p (.swept count) es u) fun _ es _ => Broken es := by
  have hsame : ∀ id, id ∈ (written.map Prod.fst ++ finished).dedup.mergeSort (· ≤ ·) ↔
      id ∈ written.map Prod.fst ++ finished := fun id => by rw [List.mem_mergeSort, List.mem_dedup]
  refine (killAll_meets (fun _ hid => hid) (h.congr hsame)).bind fun _ es u _ hkilled => ?_
  refine (signalAll_meets (hkilled u ((besideRely p).refl u))).bind fun _ es u halways hsignalled => ?_
  refine .pure halways fun v hv => ⟨orphaned, written, _, by rw [List.length_map], fun entry hentry => ?_,
    hsignalled v hv⟩
  exact (hsame _).2 (List.mem_append_left _ (List.mem_map_of_mem hentry))

/-- The clean-up after the commit. -/
theorem Committed.meets_cleanup (h : Committed s p orphaned written past st) :
    (besideRely p).Meets (service s t) p past st (do
        let containers ← tryExcept (await .containerIds) (fun _ => true) fun _ => pure []
        let remaining := containers.filter (· ∉ written.map Prod.fst)
        let finished ← if remaining ≠ [] then await (.selectFinished remaining) else pure []
        killAll ((written.map Prod.fst ++ finished).dedup.mergeSort (· ≤ ·))
        signalAll (written.map Prod.fst)
        return (written.map Prod.fst).length) (fun es _ => KillsEnded es)
      (fun count es u => Finished s p (.swept count) es u) fun _ es _ => Broken es := by
  refine h.meets_containerIds.bind fun containers es u _ hlisted => ?_
  have hlisted := hlisted u ((besideRely p).refl u)
  dsimp only
  split
  · exact hlisted.meets_selectFinished.bind fun finished es u _ hcleaning =>
      (hcleaning u ((besideRely p).refl u)).meets_rest
  · next hnone =>
    refine (?_ : Cleaning s p orphaned written (written.map Prod.fst ++ []) [] es u).meets_rest
    refine hlisted.cleaning (by simp) ?_
    rw [not_not.1 hnone]
    simp

theorem sweepOnce_meets (h : Unswept p past st) :
    (besideRely p).Meets (service s t) p past st (sweepOnce s) (fun es _ => KillsEnded es)
      (fun count es u => Finished s p (.swept count) es u) fun _ es _ => Broken es := by
  refine h.meets_clock.bind fun now es u _ hread => ?_
  obtain ⟨hunswept, hclock⟩ := hread u ((besideRely p).refl u)
  refine (hunswept.meets_selectOrphans hclock).bind fun orphaned es u _ hselected => ?_
  refine (failOrphans_meets now (List.nil_append _) (hselected u ((besideRely p).refl u))).bind
    fun changed es u _ hmarked => ?_
  obtain ⟨written, rfl, hmarking⟩ := hmarked u ((besideRely p).refl u)
  rw [List.nil_append] at hmarking
  split
  · exact hmarking.meets_commit.bind fun _ es u _ hcommitted => (hcommitted u ((besideRely p).refl u)).meets_cleanup
  · next hnone =>
    obtain rfl : written = [] := List.map_eq_nil_iff.1 (not_not.1 hnone)
    exact hmarking.committed_of_nil.meets_cleanup

/-- What a sweep has done when it ends. -/
theorem sweepRequest_meets :
    (besideRely p).Meets (service s t) p [] (service s t).init (Request.sweepOnce.program s)
      (fun es _ => KillsEnded es) (fun res es u => Finished s p res es u) fun _ es _ => Broken es := by
  have hunswept : Unswept p [] (service s t).init := ⟨rfl, by simp, by simp⟩
  refine Rely.Meets.map (Rely.Meets.andFinally (fun count es u => Finished s p (.swept count) es u)
    (fun _ es _ => Broken es) (sweepOnce_meets hunswept) (fun count es u _ hends => ?_)
    fun e es u halways hraises => ?_) fun _ _ _ hends => hends
  · refine meets_closing (I := fun es u => Finished s p (.swept count) es u) (fun ⟨_, _, _, _, _, h⟩ => h.kills)
      (fun ⟨orphaned, written, cleanup, hcount, hmem, h⟩ hst =>
        ⟨orphaned, written, cleanup, hcount, hmem, Cleaning.phase.beside h hst⟩) (fun {es u} h => ?_)
      (hends u ((besideRely p).refl u))
    obtain ⟨orphaned, written, cleanup, hcount, hmem, h⟩ := h
    have hunseen : Unseen ⟨p, ⟨.close, .ok ()⟩, u, { u with db := u.db.rollback p }⟩ := ⟨rfl, rfl, rfl⟩
    exact ⟨orphaned, written, cleanup, hcount, hmem, {
      toSwept := h.toSwept.concat hunseen (by simp [Database.rollback])
      kills := forall_concat h.kills fun id hkill => by cases hkill
      ended := h.ended
      listed := forall_concat h.listed fun ids hlisted => by cases hlisted
      tried := fun o ho => (h.tried o ho).append }⟩
  · refine meets_closing (I := fun es _ => KillsEnded es ∧ Broken es) And.left (fun h _ => h) (fun h => ⟨?_, ?_⟩)
      ⟨halways, hraises u ((besideRely p).refl u)⟩ |>.mono (fun _ _ _ h => h.2) fun _ _ _ h => h
    · exact forall_concat h.1 fun id hkill => by cases hkill
    · obtain ⟨e', he', hbroken⟩ := h.2
      exact ⟨e', List.mem_append_left _ he', hbroken⟩

end Request

/-! ## Runs -/

/-- What a sweep of the selected rows has come to. -/
structure Reclaimed (cfg : JournalConfig) (p : Pid) (orphaned written : List (ExecutionId × Execution)) : Prop where
  /-- It changes no committed row but those it marks, and each of these once, with its event. -/
  marks : ∀ e ∈ operationsOf cfg p, Unseen e ∨ Marks written e
  marked : written ≠ [] → ∃ e ∈ operationsOf cfg p, Marks written e
  failed : ∀ entry ∈ written, cfg.shared.1.db.status? entry.1 = some .failed
  /-- Another process has moved on each of the others. -/
  lost : ∀ entry ∈ orphaned, entry ∉ written →
    ∃ e ∈ cfg.shared.2, e.pid ≠ p ∧ ¬e.before.db.Past entry ∧ e.after.db.Past entry
  /-- The clean-up goes on whatever Docker and Redis answer. -/
  killed : ∀ entry ∈ written, Attempted (.killExecution entry.1) (operationsOf cfg p)
  signalled : ∀ entry ∈ written, Attempted (.publish (.cancel entry.1)) (operationsOf cfg p)
  retried : ∀ e ∈ operationsOf cfg p, ∀ ids, e.call = ⟨.containerIds, .ok ids⟩ → ∀ id ∈ ids, e.before.db.Ended id →
    Attempted (.killExecution id) (operationsOf cfg p)

section Runs

variable {s : Settings} {t : Tables} {cfg : JournalConfig} {p : Pid}
  {orphaned written : List (ExecutionId × Execution)}

theorem Swept.lostToAnother (h : (journal s t).system.Reachable cfg)
    (hswept : Swept s p orphaned written (operationsOf cfg p) cfg.shared.1) {entry : ExecutionId × Execution}
    (hentry : entry ∈ orphaned) (hout : entry ∉ written) :
    ∃ e ∈ cfg.shared.2, e.pid ≠ p ∧ ¬e.before.db.Past entry ∧ e.after.db.Past entry := by
  obtain ⟨e, he, hbefore, hafter⟩ := Machine.exists_turn (P := fun st => st.db.Past entry) h
    (by simp [service, Database.Past, Database.status?]) (hswept.lost entry hentry hout)
  refine ⟨e, he, fun hpid => hbefore ?_, hbefore, hafter⟩
  obtain ⟨now, hnow, hlt⟩ := hafter
  refine ⟨now, ?_, hlt⟩
  rw [← hnow, Database.status?, Database.status?]
  rcases hswept.marks e (List.mem_filter.2 ⟨he, by simpa using hpid⟩) with hunseen | hmarks
  · rw [hunseen.executions]
  · rw [hmarks.others entry.1 (hswept.selected.not_mem_map hswept.sublist hentry hout)]

/-- **A sweep is exact.** A sweep whose statements do not fail returns how many rows it has marked, whatever Docker
and Redis answer. It has marked those of the selected rows that no other process has moved on first, each from the
status it was selected with and with one event; it has changed no other row; and it has attempted to remove the
containers of all that it has marked and of all that had ended when the containers were listed. -/
theorem sweep_reclaims (h : (journal s t).system.Reachable cfg) {res : Except PyError Outcome}
    (hp : cfg.procs p = some ⟨.sweepOnce, .ret res⟩)
    (hworks : ∀ e ∈ operationsOf cfg p, ServiceCall.isBroken e.call = false) :
    ∃ orphaned written, Selected s p orphaned (operationsOf cfg p) ∧ written.Sublist orphaned ∧
      res = .ok (.swept written.length) ∧ Reclaimed cfg p orphaned written := by
  have hsees := besideSees_of_journal h hp
  cases res with
  | error e =>
    obtain ⟨e', he', hbroken⟩ := sweepRequest_meets.error hsees
    exact absurd ((hworks e' he').symm.trans hbroken) Bool.false_ne_true
  | ok outcome =>
    obtain ⟨orphaned, written, cleanup, rfl, hmem, hcleaning⟩ := sweepRequest_meets.ok hsees
    have hkilled : ∀ id ∈ cleanup, Attempted (.killExecution id) (operationsOf cfg p) := fun id hid =>
      hcleaning.tried _ (List.mem_append_left _ (List.mem_map_of_mem hid))
    refine ⟨orphaned, written, hcleaning.selected, hcleaning.sublist, rfl, ?_⟩
    exact {
      marks := hcleaning.marks
      marked := hcleaning.marked
      failed := hcleaning.failed
      lost := fun entry hentry hout => hcleaning.toSwept.lostToAnother h hentry hout
      killed := fun entry hentry => hkilled _ (hmem entry hentry)
      signalled := fun entry hentry => hcleaning.tried _
        (List.mem_append_right _ (List.mem_map.2 ⟨entry.1, List.mem_map_of_mem hentry, rfl⟩))
      retried := fun e he ids hids id hid hended => hkilled id (hcleaning.listed e he ids hids id hid hended) }

/-- **No container is removed under a run.** At every moment of a sweep, whatever fails, each execution whose
containers it has removed had ended before, and has ended now. -/
theorem sweep_kills_ended (h : (journal s t).system.Reachable cfg)
    {rest : Program Op (fun o => Except PyError o.Val) (Except PyError Outcome)}
    (hp : cfg.procs p = some ⟨.sweepOnce, rest⟩) {e : ServiceEntry} (he : e ∈ operationsOf cfg p) {id : ExecutionId}
    (hkill : e.call.1 = .killExecution id) : e.before.db.Ended id ∧ cfg.shared.1.db.Ended id := by
  have hended := sweepRequest_meets.always (besideSees_of_journal h hp) e he id hkill
  have hmem : e ∈ cfg.shared.2 := (List.mem_filter.1 he).1
  obtain ⟨before, after, env, hreachable, hbefore, hafter, hstep, -⟩ := Machine.performed h hmem
  have hstepped : e.before.db.Onward e.after.db := hbefore ▸ hafter ▸ onward_of_step hreachable hstep
  have hsince : e.after.db.Onward cfg.shared.1.db :=
    (Machine.journal_pairwise (fun st st' : Service => st.db.Onward st'.db) (fun st => .refl st.db)
      Database.Onward.trans (fun _ _ _ _ hcfg hmove => onward_of_step hcfg hmove) h).2 e hmem
  exact ⟨hended, (hended.onward hstepped).onward hsince⟩

end Runs

/-- Process 1 claims the run of process 0 and stops there. Much later process 2 sweeps, without Docker or Redis. -/
def sweepStalled : List (Label Env Request) :=
  .spawn 0 (.startRun { project := 0, user := 0, username := "ada", file := 0 }) :: undisturbed 0 13 ++
    .spawn 1 (.workerRound "w") :: List.replicate 8 (.run 1 { order := [0] }) ++
    .spawn 2 .sweepOnce :: List.replicate 6 (.run 2 { now := 1000 }) ++ List.replicate 4 (.run 2 { fault := .before })

/-- The sweep of process 2 has ended and marked one row, and its statements have not failed. -/
def sweptOne (cfg : JournalConfig) : Bool :=
  match cfg.procs 2 with
  | some ⟨.sweepOnce, .ret (.ok (.swept 1))⟩ => (operationsOf cfg 2).all fun e => !ServiceCall.isBroken e.call
  | _ => false

theorem sweep_reclaims_stalled : ∃ (cfg : JournalConfig) (orphaned written : List (ExecutionId × Execution)),
    (journal {} .single).system.Reachable cfg ∧ written.length = 1 ∧ Reclaimed cfg 2 orphaned written := by
  have hrun : ((journal {} .single).system.replay System.anyStep (journal {} .single).system.init
      sweepStalled).any sweptOne = true := by decide +kernel
  obtain ⟨cfg, hcfg, hends⟩ := System.exists_reachable hrun
  unfold sweptOne at hends
  split at hends
  · next hp =>
    obtain ⟨orphaned, written, -, -, hres, hreclaimed⟩ := sweep_reclaims hcfg hp fun e he => by
      simpa using List.all_eq_true.1 hends e he
    exact ⟨cfg, orphaned, written, hcfg, (Outcome.swept.inj (Except.ok.inj hres)).symm, hreclaimed⟩
  · cases hends

/-- The sweep of process 2 has attempted to remove the containers of execution 0. -/
def sweptContainers (cfg : JournalConfig) : Bool :=
  match cfg.procs 2 with
  | some ⟨.sweepOnce, _⟩ => (operationsOf cfg 2).any fun e => e.call.1 = .killExecution 0
  | _ => false

theorem sweep_kills_ended_stalled : ∃ cfg : JournalConfig, (journal {} .single).system.Reachable cfg ∧
    ∃ e ∈ operationsOf cfg 2, e.call.1 = .killExecution 0 ∧ e.before.db.Ended 0 := by
  have hrun : ((journal {} .single).system.replay System.anyStep (journal {} .single).system.init
      sweepStalled).any sweptContainers = true := by decide +kernel
  obtain ⟨cfg, hcfg, hends⟩ := System.exists_reachable hrun
  unfold sweptContainers at hends
  split at hends
  · next hp =>
    obtain ⟨e, he, hkill⟩ := List.any_eq_true.1 hends
    have hkill := of_decide_eq_true hkill
    exact ⟨cfg, hcfg, e, he, hkill, (sweep_kills_ended hcfg hp he hkill).1⟩
  · cases hends

end Concord
