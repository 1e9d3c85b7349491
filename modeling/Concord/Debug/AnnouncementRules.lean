import Concord.Debug.Announcements
import Mathlib

/-!
# The rules of the debugger's protocol

One rule for each operation: what stage a process is in after it, and that the shared facts are kept.
-/

namespace Concord.Breakpoints

open Concord.Base Async

section Rules

variable {t : FileTable} {project : ProjectId} {sets : SetOrder} {rows₀ : List Row} {p : Pid} {r : Request} {g : Stage}

/-! ## Rules -/

section Calls

variable {o : Op} {Q : o.Val → Stage → Prop} {E : PyError → Stage → Prop}

/-- The rule of an operation. -/
theorem call_rule (hround : ∀ id paused, o = .round id paused → ∃ c, g = .attending c [] ∧ c.execution = id)
    (h : ∀ env st l y st' gs, Shared t project st gs l → gs p = g → g.Holds t project p st l →
      o.exec t project p env st = some (y, st') → ∀ x : Entry, x = ⟨p, ⟨o, y⟩, st, st'⟩ →
        ∃ g', Beside p g.execution? st l x st' ∧ g'.Holds t project p st' (l ++ [x]) ∧
          Shared t project st' (Function.update gs p g') (l ++ [x]) ∧ outcome Q E y g') :
    (debuggerProtocol t project sets rows₀).Triple p r g (await o) Q E := by
  refine Protocol.Triple.call (fun id paused ho => hround id paused (Option.some.inj ho))
    fun env s gs hinv hg _ y s' hstep => ?_
  obtain ⟨st, l⟩ := s
  obtain ⟨⟨y', st'⟩, hexec, hs'⟩ := Option.map_eq_some_iff.1 hstep
  obtain ⟨rfl, rfl⟩ := Prod.mk.inj hs'
  obtain ⟨g', hbeside, hself, hshared, hout⟩ := h env st l y' st' gs hinv.1 hg (hg ▸ hinv.2 p) hexec _ rfl
  refine ⟨g', ⟨hshared, fun q => ?_⟩, hout⟩
  by_cases hq : q = p
  · subst hq
    rw [Function.update_self]
    exact hself
  · rw [Function.update_of_ne hq]
    refine (hinv.2 q).beside hbeside hq fun id hid hown => hq ?_
    exact hinv.1.tokens.unique q p id hid (hg ▸ hown)

theorem Op.ne_of_calm (ho : o.calm = true) : o ≠ .close ∧ ∀ id paused, o ≠ .round id paused := by
  refine ⟨fun hclose => ?_, fun id paused hround => ?_⟩
  · rw [hclose] at ho
    cases ho
  · rw [hround] at ho
    cases ho

/-- The rule of an operation that changes no row and no channel. -/
theorem calm_rule (ho : o.calm = true)
    (h : ∀ env st l y st' gs, Shared t project st gs l → gs p = g → g.Holds t project p st l →
      o.exec t project p env st = some (y, st') → Calm st st' → ∀ x : Entry, x = ⟨p, ⟨o, y⟩, st, st'⟩ →
        g.Holds t project p st' (l ++ [x]) → ∃ g', g'.Holds t project p st' (l ++ [x]) ∧
          Tokens st' (Function.update gs p g') ∧
          (∀ payload ∈ st'.queue, payload ∈ st.queue ∨
            Untouched payload.executionId st' (l ++ [x]) ∧ Read t project (payloadCopy payload) (l ++ [x])) ∧
          Agreed t project st' (Function.update gs p g') (l ++ [x]) ∧ outcome Q E y g') :
    (debuggerProtocol t project sets rows₀).Triple p r g (await o) Q E := by
  refine call_rule (fun id paused hround => absurd hround ((Op.ne_of_calm ho).2 id paused))
    fun env st l y st' gs hshared hg hholds hexec x hx => ?_
  have hcalm := exec_calm ho hexec
  have hpid : x.pid = p := by rw [hx]
  have hbefore : x.before = st := by rw [hx]
  have hafter : x.after = st' := by rw [hx]
  have hclose : x.call.1 ≠ .close := by
    rw [hx]
    exact (Op.ne_of_calm ho).1
  obtain ⟨g', hholds', htokens, hqueue, hagreed, hout⟩ :=
    h env st l y st' gs hshared hg hholds hexec hcalm x hx (hholds.calm hcalm hclose hbefore hafter)
  exact ⟨g', hcalm.beside hpid hbefore hafter, hholds',
    hshared.step (hg ▸ hcalm.beside hpid hbefore hafter) htokens hqueue hagreed, hout⟩

/-- The rule of an operation that leaves all as it is. -/
theorem inert_rule (ho : o.inert = true)
    (h : ∀ env st l y, g.Holds t project p st l → o.exec t project p env st = some (y, st) →
      ∀ x : Entry, x = ⟨p, ⟨o, y⟩, st, st⟩ → g.Holds t project p st (l ++ [x]) →
        ∃ g' : Stage, g'.Holds t project p st (l ++ [x]) ∧ (g'.execution? = g.execution? ∨ g'.execution? = none) ∧
          (∀ c, g'.copy? = some c → g.copy? = some c) ∧
          (∀ id file, g.WillTell id file → st.active.map (·.executionId) = some id →
            g'.WillTell id file ∨ failed x = true) ∧ outcome Q E y g') :
    (debuggerProtocol t project sets rows₀).Triple p r g (await o) Q E := by
  have hocalm : o.calm = true := by
    cases o <;> first
      | exact ho
      | rfl
  refine calm_rule hocalm fun env st l y st' gs hshared hg hholds hexec hcalm x hx hkept => ?_
  obtain rfl := exec_inert ho hexec
  obtain ⟨g', hholds', hexecution, hcopy, hwill, hout⟩ := h env st' l y hholds hexec x hx hkept
  refine ⟨g', hholds', hshared.tokens.keep (List.Sublist.refl _) (Nat.le_refl _) (hg.symm ▸ hexecution),
    fun _ hpayload => .inl hpayload, ?_, hout⟩
  have hsame : x.after.channel = x.before.channel := by rw [hx]
  refine hshared.agreed.keep (by rw [hx]) (by rw [hx]) (by rw [hx]) (hg.symm ▸ hholds)
    (fun c hc hactive => ⟨?_, hactive⟩)
    (fun id => heard?_of_same (congrFun hsame id)) (fun _ => rfl) (hg.symm ▸ hwill)
  exact hc.of_update (fun _ hpayload => .inl hpayload) fun c hc => .inl ⟨p, hg.symm ▸ hcopy c hc⟩

/-- An operation that leaves all as it is and does not matter to the process. -/
theorem steady_rule (ho : o.inert = true) :
    (debuggerProtocol t project sets rows₀).Triple p r g (await o) (fun _ g' => g' = g) fun _ g' => g' = g := by
  refine inert_rule ho fun env st l y _ _ x _ hkept =>
    ⟨g, hkept, .inl rfl, fun _ hc => hc, fun _ _ hwill _ => .inl hwill, ?_⟩
  cases y <;> rfl

/-- An operation of a request that has an edit to tell of. If it fails, the edit is not told. -/
theorem tell_rule (ho : o.inert = true) (hidle : ∀ st l, g.Holds t project p st l → Idle p st l) :
    (debuggerProtocol t project sets rows₀).Triple p r g (await o) (fun _ g' => g' = g) fun _ g' => g' = .plain := by
  refine inert_rule ho fun env st l y _ _ x hx hkept => ?_
  cases y with
  | ok a => exact ⟨g, hkept, .inl rfl, fun _ hc => hc, fun _ _ hwill _ => .inl hwill, rfl⟩
  | error e =>
    have hfailed : failed x = true := by
      rw [hx]
      rfl
    exact ⟨.plain, hidle _ _ hkept, .inr rfl, fun c hc => (by cases hc), fun _ _ _ _ => .inr hfailed, rfl⟩

end Calls

/-! ## The rules of an edit -/

section Edits

variable {files todo : List FileId} {rows : List Row}

/-- What a request has written that edits. -/
def Stage.Written (files : List FileId) (rows : List Row) : Stage → Prop
  | plain => files = [] ∧ rows = []
  | replacing files' rows' => files' = files ∧ rows' = rows
  | _ => False

theorem Stage.Written.holds (hg : g.Written files rows) {st : State} {l : List Entry} (h : g.Holds t project p st l) :
    (Stage.replacing files rows).Holds t project p st l := by
  cases g with
  | plain =>
    obtain ⟨rfl, rfl⟩ := hg
    refine ⟨h.2, fun f hf => (by cases hf), ?_, fun _ row _ hf => (by cases hf)⟩
    rw [h.1]
    exact ⟨rfl, fun _ hrow => (by cases hrow), fun _ hrow => (by cases hrow)⟩
  | replacing files' rows' =>
    obtain ⟨rfl, rfl⟩ := hg
    exact h
  | _ => exact hg.elim

theorem Stage.Written.not_told (hg : g.Written files rows) {id : ExecutionId} {file : FileId} :
    ¬g.WillTell id file := by
  cases g with
  | plain | replacing files' rows' => exact fun hwill => hwill
  | _ => exact hg.elim

theorem Stage.Written.execution (hg : g.Written files rows) : g.execution? = none := by
  cases g with
  | plain | replacing files' rows' => rfl
  | _ => exact hg.elim

/-- The rows of a file are looked up. -/
theorem selectRows_rule {file : FileId} (hg : g.Written files rows) (hfile : file ∉ files) :
    (debuggerProtocol t project sets rows₀).Triple p r g (await (.selectRows file))
      (fun found g' => g' = .deleting files rows file found) fun _ g' => g' = g := by
  refine inert_rule rfl fun env st l y hholds hexec x hx hkept => ?_
  rcases exec_cases hexec with hrun | ⟨⟨e, rfl⟩, -⟩
  · obtain ⟨rfl, -⟩ := Prod.mk.inj (Option.some.inj hrun)
    refine ⟨.deleting files rows file _, ?_, .inr rfl, fun c hc => (by cases hc),
      fun _ _ hwill => absurd hwill hg.not_told, rfl⟩
    obtain ⟨hopen, hbegan, hwrites, hrows⟩ := hg.holds hkept
    have hbegins : Began p file (l ++ [x]) := ⟨x, by simp, by rw [hx], by rw [hx]⟩
    refine ⟨hopen, fun f hf => ?_, hwrites, hfile, fun row hrow => ?_, fun hapart row hrow =>
      ⟨hrows hapart row hrow, fun hf => ?_⟩⟩
    · rcases List.mem_cons.1 hf with rfl | hf
      · exact hbegins
      · exact hbegan f hf
    · exact of_decide_eq_true (List.mem_filter.1 hrow).2
    · refine List.mem_filter.2 ⟨List.mem_append_left _ (List.mem_filter.2 ⟨hrow, ?_⟩), decide_eq_true hf⟩
      exact decide_eq_true fun hdeleted => hfile (hf ▸ hwrites.deleted row hdeleted)
  · exact ⟨g, hkept, .inl rfl, fun _ hc => hc, fun _ _ hwill _ => .inl hwill, rfl⟩

/-- The facts of a step that changes a transaction or takes locks. -/
theorem beside_of_tx {st st' : State} {l : List Entry} {x : Entry} {own : Option ExecutionId} (hpid : x.pid = p)
    (hbefore : x.before = st) (hafter : x.after = st') (htx : ∀ q, q ≠ p → st'.tx q = st.tx q)
    (hrows : ∀ row, (row ∈ st'.rows ↔ row ∈ st.rows) ∨ Editing p row.fileId l) (hchannel : st'.channel = st.channel)
    (hsent : st'.sent = st.sent) (hnext : st'.nextExecution = st.nextExecution) : Beside p own st l x st' where
  pid := hpid
  tx := htx
  rows := hrows
  streams id _ := .inl ⟨by rw [hchannel], by rw [hsent], heard?_of_same (by rw [hbefore, hafter, hchannel])⟩
  next := by rw [hnext]

/-- Only the transaction of process `p` and the locks are not as they were. -/
structure OnlyTx (p : Pid) (st st' : State) : Prop where
  rows : st'.rows = st.rows
  tx : ∀ q, q ≠ p → st'.tx q = st.tx q
  channel : st'.channel = st.channel
  sent : st'.sent = st.sent
  next : st'.nextExecution = st.nextExecution
  queue : st'.queue = st.queue
  active : st'.active = st.active

theorem OnlyTx.refl (st : State) : OnlyTx p st st := ⟨rfl, fun _ _ => rfl, rfl, rfl, rfl, rfl, rfl⟩

section OnlyTx

variable {st st' : State} {gs : Pid → Stage} {l : List Entry} {x : Entry}

theorem OnlyTx.beside {own : Option ExecutionId} (h : OnlyTx p st st') (hpid : x.pid = p) (hbefore : x.before = st)
    (hafter : x.after = st') : Beside p own st l x st' :=
  beside_of_tx hpid hbefore hafter h.tx (fun row => .inl (by rw [h.rows])) h.channel h.sent h.next

/-- What a process with no one to tell leaves of the shared facts, when it commits nothing. -/
theorem OnlyTx.shared {g' : Stage} (h : OnlyTx p st st') (hshared : Shared t project st gs l) (hpid : x.pid = p)
    (hbefore : x.before = st) (hafter : x.after = st') (hholds : (gs p).Holds t project p st l)
    (hexecution : g'.execution? = none) (hcopy : g'.copy? = none)
    (hwill : ∀ id file, ¬(gs p).WillTell id file) :
    Shared t project st' (Function.update gs p g') (l ++ [x]) := by
  have hqueue : ∀ payload ∈ st'.queue, payload ∈ st.queue := fun payload hpayload => h.queue ▸ hpayload
  refine hshared.step (h.beside hpid hbefore hafter)
    (hshared.tokens.keep (h.queue ▸ List.Sublist.refl _) (Nat.le_of_eq h.next.symm) (.inr hexecution))
    (fun payload hpayload => .inl (hqueue payload hpayload)) ?_
  refine hshared.agreed.keep hbefore hafter hpid hholds (fun c hc hslot => ⟨?_, h.active ▸ hslot⟩)
    (fun id => heard?_of_same (by rw [hbefore, hafter, h.channel]))
    (fun file => by rw [State.stored, h.rows, State.stored]) fun id file hwilltell => absurd hwilltell (hwill id file)
  exact hc.of_update (fun payload hpayload => .inl (hqueue payload hpayload)) fun c hc => by cases hcopy.symm.trans hc

end OnlyTx

/-- The rows of a file are deleted. -/
theorem deleteRows_rule {file : FileId} {found : List Row} :
    (debuggerProtocol t project sets rows₀).Triple p r (.deleting files rows file found) (await (.deleteRows found))
      (fun _ g' => g' = .replacing (file :: files) rows) fun _ g' => g' = .spoiled := by
  refine call_rule (fun _ _ ho => (by cases ho)) fun env st l y st' gs hshared hg hholds hexec x hx => ?_
  have hpid : x.pid = p := by rw [hx]
  have hbefore : x.before = st := by rw [hx]
  have hafter : x.after = st' := by rw [hx]
  have hclose : x.pid = p → x.call.1 ≠ .close := by
    rw [hx]
    exact fun _ hclose => by cases hclose
  have hown : (gs p).Holds t project p st l := by
    rw [hg]
    exact hholds
  obtain ⟨hopen, hbegan, hwrites, hfile, hfound, hrows⟩ := hholds
  have hrun : ∀ {z : Except PyError Unit}, Op.run t project p env st (.deleteRows found) = some (z, st') →
      z = .ok () ∧ st' = st.delete p found := by
    intro z hrun
    unfold Op.run at hrun
    dsimp only at hrun
    split at hrun
    · cases hrun
    · obtain ⟨rfl, rfl⟩ := Prod.mk.inj (Option.some.inj hrun)
      exact ⟨rfl, rfl⟩
  have honly : OnlyTx p st st' := exec_state (P := OnlyTx p st) hexec (OnlyTx.refl st) fun z hz => by
    obtain ⟨-, rfl⟩ := hrun hz
    exact ⟨rfl, fun q hq => Function.update_of_ne hq _ _, rfl, rfl, rfl, rfl, rfl⟩
  have hkeeps : ∀ g' : Stage, g'.execution? = none → g'.copy? = none →
      Shared t project st' (Function.update gs p g') (l ++ [x]) := fun g' hexecution hcopy =>
    honly.shared hshared hpid hbefore hafter hown hexecution hcopy fun id file hwill => by
      rw [hg] at hwill
      exact hwill.elim
  rcases exec_cases hexec with hok | ⟨⟨e, rfl⟩, -⟩
  · obtain ⟨rfl, rfl⟩ := hrun hok
    refine ⟨.replacing (file :: files) rows, honly.beside hpid hbefore hafter, ?_, hkeeps _ rfl rfl, rfl⟩
    have htx' : (st.delete p found).tx p =
        { deleted := (st.tx p).deleted ++ found.filter (· ∈ st.rows), added := (st.tx p).added.filter (· ∉ found) } :=
      Function.update_self _ _ _
    refine ⟨hopen.snoc hclose, fun f hf => (hbegan f hf).mono (List.prefix_append l [x]), ?_,
      fun hapart row hrow hf => ?_⟩
    · rw [htx']
      refine ⟨?_, fun row hrow => ?_, fun row hrow => List.mem_cons_of_mem _ (hwrites.files row hrow)⟩
      · dsimp only
        rw [hwrites.added, List.filter_eq_self]
        intro row hrow
        exact decide_eq_true fun hmem => hfile (hfound row hmem ▸ hwrites.files row hrow)
      · rcases List.mem_append.1 hrow with hrow | hrow
        · exact List.mem_cons_of_mem _ (hwrites.deleted row hrow)
        · rw [hfound row (List.mem_filter.1 hrow).1]
          exact List.mem_cons_self
    · rw [htx']
      obtain ⟨hold, hnew⟩ := hrows (hapart.of_earlier (List.prefix_append l [x])) row hrow
      rcases List.mem_cons.1 hf with hf | hf
      · exact List.mem_append_right _ (List.mem_filter.2 ⟨hnew hf, decide_eq_true hrow⟩)
      · exact List.mem_append_left _ (hold hf)
  · exact ⟨.spoiled, honly.beside hpid hbefore hafter, hopen.snoc hclose, hkeeps _ rfl rfl, rfl⟩

/-- New rows are added for a file. -/
theorem addRows_rule {file : FileId} {lines : List (Nat × Bool)} {user : UserId} (hfile : file ∈ files) :
    (debuggerProtocol t project sets rows₀).Triple p r (.replacing files rows) (await (.addRows file lines user))
      (fun new g' => g' = .replacing files (rows ++ new)) fun _ g' => g' = .spoiled := by
  refine call_rule (fun _ _ ho => (by cases ho)) fun env st l y st' gs hshared hg hholds hexec x hx => ?_
  have hpid : x.pid = p := by rw [hx]
  have hbefore : x.before = st := by rw [hx]
  have hafter : x.after = st' := by rw [hx]
  have hclose : x.pid = p → x.call.1 ≠ .close := by
    rw [hx]
    exact fun _ hclose => by cases hclose
  have hown : (gs p).Holds t project p st l := by
    rw [hg]
    exact hholds
  obtain ⟨hopen, hbegan, hwrites, hrows⟩ := hholds
  have honly : OnlyTx p st st' := exec_state (P := OnlyTx p st) hexec (OnlyTx.refl st) fun z hz => by
    obtain ⟨-, rfl⟩ := Prod.mk.inj (Option.some.inj hz)
    exact ⟨rfl, fun q hq => Function.update_of_ne hq _ _, rfl, rfl, rfl, rfl, rfl⟩
  have hkeeps : ∀ g' : Stage, g'.execution? = none → g'.copy? = none →
      Shared t project st' (Function.update gs p g') (l ++ [x]) := fun g' hexecution hcopy =>
    honly.shared hshared hpid hbefore hafter hown hexecution hcopy fun id file hwill => by
      rw [hg] at hwill
      exact hwill.elim
  rcases exec_cases hexec with hok | ⟨⟨e, rfl⟩, -⟩
  · obtain ⟨rfl, rfl⟩ := Prod.mk.inj (Option.some.inj hok)
    refine ⟨.replacing files (rows ++ st.newRows file lines user), honly.beside hpid hbefore hafter, ?_,
      hkeeps _ rfl rfl, rfl⟩
    have htx' : (st.add p (st.newRows file lines user)).tx p =
        { st.tx p with added := (st.tx p).added ++ st.newRows file lines user } := Function.update_self _ _ _
    refine ⟨hopen.snoc hclose, fun f hf => (hbegan f hf).mono (List.prefix_append l [x]), ?_, fun hapart => ?_⟩
    · rw [htx']
      refine ⟨by dsimp only; rw [hwrites.added], hwrites.deleted, fun row hrow => ?_⟩
      rcases List.mem_append.1 hrow with hrow | hrow
      · exact hwrites.files row hrow
      · obtain ⟨entry, -, rfl⟩ := List.mem_map.1 hrow
        exact hfile
    · rw [htx']
      exact hrows (hapart.of_earlier (List.prefix_append l [x]))
  · exact ⟨.spoiled, honly.beside hpid hbefore hafter, hopen.snoc hclose, hkeeps _ rfl rfl, rfl⟩

/-- A session sees the new breakpoints of the files it has replaced them in, -/
theorem Writes.mem_visible {st : State} {row : Row} (h : Writes (st.tx p) files rows)
    (hdeleted : ∀ row ∈ st.rows, row.fileId ∈ files → row ∈ (st.tx p).deleted) (hf : row.fileId ∈ files) :
    row ∈ st.visible p ↔ row ∈ rows := by
  rw [State.visible, List.mem_append, List.mem_filter, decide_eq_true_eq, h.added]
  exact ⟨fun hmem => hmem.resolve_left fun hold => hold.2 (hdeleted row hold.1 hf), .inr⟩

/-- and the committed ones of all others. -/
theorem Writes.mem_visible_other {st : State} {row : Row} (h : Writes (st.tx p) files rows) (hf : row.fileId ∉ files) :
    row ∈ st.visible p ↔ row ∈ st.rows := by
  rw [State.visible, List.mem_append, List.mem_filter, decide_eq_true_eq, h.added]
  refine ⟨fun hmem => ?_, fun hrow => .inl ⟨hrow, fun hdeleted => hf (h.deleted row hdeleted)⟩⟩
  exact hmem.elim And.left fun hnew => absurd (h.files row hnew) hf

/-- An edit is committed. -/
theorem commit_rule (hg : g.Written files rows) :
    (debuggerProtocol t project sets rows₀).Triple p r g (await .commit)
      (fun _ g' => g' = .committed files rows) fun _ g' => g' = .spoiled := by
  refine call_rule (fun _ _ ho => (by cases ho)) fun env st l y st' gs hshared hgs hholds hexec x hx => ?_
  have hpid : x.pid = p := by rw [hx]
  have hbefore : x.before = st := by rw [hx]
  have hafter : x.after = st' := by rw [hx]
  have hclose : x.pid = p → x.call.1 ≠ .close := by
    rw [hx]
    exact fun _ hclose => by cases hclose
  have hl : l <+: l ++ [x] := List.prefix_append l [x]
  obtain ⟨hopen, hbegan, hwrites, hdeleted⟩ := hg.holds hholds
  have hstate : st' = st ∨ st' = st.commit p :=
    exec_state (P := fun st' => st' = st ∨ st' = st.commit p) hexec (.inl rfl) fun z hz =>
      .inr (Prod.mk.inj (Option.some.inj hz)).2.symm
  have hchannel : st'.channel = st.channel := by rcases hstate with rfl | rfl <;> rfl
  have hqueue : st'.queue = st.queue := by rcases hstate with rfl | rfl <;> rfl
  have hactive : st'.active = st.active := by rcases hstate with rfl | rfl <;> rfl
  have hrows' : ∀ row, row.fileId ∉ files → (row ∈ st'.rows ↔ row ∈ st.rows) := by
    intro row hf
    rcases hstate with rfl | rfl
    · exact Iff.rfl
    · exact hwrites.mem_visible_other hf
  have hbeside : Beside p g.execution? st l x st' := by
    refine beside_of_tx hpid hbefore hafter (fun q hq => ?_) (fun row => ?_) hchannel ?_ ?_
    · rcases hstate with rfl | rfl
      · rfl
      · exact Function.update_of_ne hq _ _
    · by_cases hf : row.fileId ∈ files
      · exact .inr ⟨hbegan _ hf, hopen⟩
      · exact .inl (hrows' row hf)
    · rcases hstate with rfl | rfl <;> rfl
    · rcases hstate with rfl | rfl <;> rfl
  have hstored : ∀ file : FileId, file ∉ files → st'.stored file = st.stored file := fun file hfile =>
    sortedSet_enabledLines_congr fun row hrow => hrows' row (hrow ▸ hfile)
  -- what the sessions have of other files is as it was, and they will be told of these
  have hshared' : ∀ g' : Stage, g'.execution? = none → g'.copy? = none →
      (∀ id file, file ∈ files → g'.WillTell id file ∨ failed x = true) →
        Shared t project st' (Function.update gs p g') (l ++ [x]) := by
    intro g' hexecution hcopy hwill
    have hqueue' : ∀ payload ∈ st'.queue, payload ∈ st.queue := fun payload hpayload => hqueue ▸ hpayload
    refine hshared.step (hgs ▸ hbeside)
      (hshared.tokens.keep (hqueue ▸ List.Sublist.refl _) hbeside.next (.inr hexecution))
      (fun payload hpayload => .inl (hqueue' payload hpayload)) fun horderly c hc hslot file hfile hproject => ?_
    have hold : Copied st gs c := hc.of_update (fun payload hpayload => .inl (hqueue' payload hpayload))
      fun c hc => by cases hcopy.symm.trans hc
    by_cases hf : file.id ∈ files
    · refine .inr (.inl ⟨p, ?_⟩)
      rw [Function.update_self]
      refine (hwill c.execution file.id hf).resolve_right fun hfailed => ?_
      have hnot := horderly.2.not_failed (hpid.symm ▸ hbegan _ hf)
      exact Bool.false_ne_true (hnot.symm.trans hfailed)
    · refine (hshared.agreed (horderly.of_earlier hl) c hold (hactive ▸ hslot) file hfile hproject).keep hbefore hafter
        (heard?_of_same (by rw [hbefore, hafter, hchannel])) (hstored _ hf) fun hwilltell => ?_
      rw [hgs] at hwilltell
      exact absurd hwilltell hg.not_told
  rcases exec_cases hexec with hok | ⟨⟨e, rfl⟩, -⟩
  · obtain ⟨rfl, rfl⟩ := Prod.mk.inj (Option.some.inj hok)
    refine ⟨.committed files rows, hbeside, ?_, hshared' _ rfl rfl fun id file hfile => .inl hfile, rfl⟩
    exact ⟨⟨Function.update_self _ _ _, hopen.snoc hclose⟩, fun f hf => (hbegan f hf).mono hl,
      fun hapart row hf => hwrites.mem_visible (hdeleted (hapart.of_earlier hl)) hf⟩
  · have hfailed : failed x = true := by
      rw [hx]
      rfl
    exact ⟨.spoiled, hbeside, hopen.snoc hclose, hshared' _ rfl rfl fun _ _ _ => .inr hfailed, rfl⟩

/-- A session of the database is closed. -/
theorem close_rule (hwill : ∀ id file, ¬g.WillTell id file) {E : PyError → Stage → Prop} :
    (debuggerProtocol t project sets rows₀).Triple p r g (await .close) (fun _ g' => g' = .closed) E := by
  refine call_rule (fun _ _ ho => (by cases ho)) fun env st l y st' gs hshared hg hholds hexec x hx => ?_
  have hpid : x.pid = p := by rw [hx]
  have hbefore : x.before = st := by rw [hx]
  have hafter : x.after = st' := by rw [hx]
  have hclosed : y = .ok () ∧ st' = st.rollback p := by
    unfold Op.exec at hexec
    split at hexec
    · exact Prod.mk.inj (Option.some.inj hexec) |>.imp Eq.symm Eq.symm
    · exact Prod.mk.inj (Option.some.inj hexec) |>.imp Eq.symm Eq.symm
    · next hne => exact absurd rfl hne
    · next hne => exact absurd rfl hne
  obtain ⟨rfl, rfl⟩ := hclosed
  have honly : OnlyTx p st (st.rollback p) :=
    ⟨rfl, fun q hq => Function.update_of_ne hq _ _, rfl, rfl, rfl, rfl, rfl⟩
  refine ⟨.closed, honly.beside hpid hbefore hafter, trivial, ?_, rfl⟩
  have hown : (gs p).Holds t project p st l := by
    rw [hg]
    exact hholds
  exact honly.shared hshared hpid hbefore hafter hown rfl rfl (hg.symm ▸ hwill)

/-- The request finds the session that has the slot. -/
theorem getActive_rule (htodo : ∀ file, file ∈ todo ↔ file ∈ files) :
    (debuggerProtocol t project sets rows₀).Triple p r (.committed files rows) (await .getActive)
      (fun active g' => g' = (active.map fun info => Stage.informing files rows info.executionId todo).getD .plain)
      fun _ g' => g' = .plain := by
  refine inert_rule rfl fun env st l y hholds hexec x hx hkept => ?_
  obtain ⟨hidle, hbegan, htold⟩ := hkept
  rcases exec_cases hexec with hrun | ⟨⟨e, rfl⟩, -⟩
  · obtain ⟨rfl, -⟩ := Prod.mk.inj (Option.some.inj hrun)
    refine ⟨_, ?_, .inr ?_, fun c hc => ?_, fun id file hwill hslot => .inl ?_, rfl⟩
    · cases st.active with
      | none => exact hidle
      | some info => exact ⟨hidle, hbegan, htold, fun file hfile => (htodo file).1 hfile⟩
    · cases st.active <;> rfl
    · cases hactive : st.active <;> rw [hactive] at hc <;> cases hc
    · obtain ⟨info, hinfo, hid⟩ := Option.map_eq_some_iff.1 hslot
      rw [hinfo]
      exact ⟨hid, (htodo file).2 hwill⟩
  · have hfailed : failed x = true := by
      rw [hx]
      rfl
    exact ⟨.plain, hidle, .inl rfl, fun c hc => (by cases hc), fun _ _ _ _ => .inr hfailed, rfl⟩

/-- What `publish` does to the channel of an execution. -/
theorem publish_cases (st : State) (id : ExecutionId) (sent : Sent) :
    (st.channel id = none ∧ st.publish id sent = (0, st)) ∨
      ∃ cmds, st.channel id = some cmds ∧
        st.publish id sent = (1, { st with channel := Function.update st.channel id (some (cmds ++ [sent])) }) := by
  cases hchannel : st.channel id with
  | none => exact .inl ⟨rfl, by rw [State.publish, hchannel]⟩
  | some cmds => exact .inr ⟨cmds, rfl, by rw [State.publish, hchannel]⟩

/-- A published command leaves all but the channel as it is, and those who listen have heard it. -/
structure Publishes (id : ExecutionId) (command : DebugCommand) (st st' : State) (x : Entry) : Prop where
  rows : st'.rows = st.rows
  tx : st'.tx = st.tx
  sent : st'.sent = st.sent
  next : st'.nextExecution = st.nextExecution
  queue : st'.queue = st.queue
  active : st'.active = st.active
  others : ∀ other, other ≠ id → st'.channel other = st.channel other ∧ heard? other x = none
  heard : Still id st st' x ∨ Published id st st' x ∧ heard? id x = lineRequest command

section Publishes

variable {st st' : State} {gs : Pid → Stage} {l : List Entry} {x : Entry} {id : ExecutionId} {command : DebugCommand}

theorem exec_sendCommand {env : Env} {username : Option String} {y : Except PyError Nat}
    (hexec : Op.exec t project p env st (.sendCommand id username command) = some (y, st'))
    (hx : x = ⟨p, ⟨.sendCommand id username command, y⟩, st, st'⟩) :
    Publishes id command st st' x ∧ ∀ n, y = .ok n → n = 0 ∧ st.channel id = none ∨ Published id st st' x := by
  have hcall : x.call.1 = .sendCommand id username command := by rw [hx]
  have hbefore : x.before = st := by rw [hx]
  have hafter : x.after = st' := by rw [hx]
  have hother : ∀ other, other ≠ id → heard? other x = none := by
    intro other hne
    unfold heard?
    rw [hcall]
    dsimp only
    rw [if_neg fun heq => hne heq.1.symm]
  have hsame : st' = st → Publishes id command st st' x := by
    rintro rfl
    exact ⟨rfl, rfl, rfl, rfl, rfl, rfl, fun other hne => ⟨rfl, hother other hne⟩,
      .inl ⟨rfl, rfl, heard?_of_same (by rw [hbefore, hafter])⟩⟩
  have hrun : ∀ {z : Except PyError Nat}, Op.run t project p env st (.sendCommand id username command) = some (z, st') →
      Publishes id command st st' x ∧ ∀ n, z = .ok n → n = 0 ∧ st.channel id = none ∨ Published id st st' x := by
    intro z hz
    have hpublished : some ((.ok (st.publish id (username, command)).1 : Except PyError Nat),
        (st.publish id (username, command)).2) = some (z, st') := hz
    rcases publish_cases st id (username, command) with ⟨hnone, hpublish⟩ | ⟨cmds, hcmds, hpublish⟩
    · rw [hpublish] at hpublished
      obtain ⟨rfl, hst'⟩ := Prod.mk.inj (Option.some.inj hpublished)
      exact ⟨hsame hst'.symm, fun n hn => .inl ⟨(Except.ok.inj hn).symm, hnone⟩⟩
    · rw [hpublish] at hpublished
      obtain ⟨-, rfl⟩ := Prod.mk.inj (Option.some.inj hpublished)
      have hchanged : x.before.channel id ≠ x.after.channel id := by
        rw [hbefore, hafter, hcmds]
        intro heq
        have hlength := congrArg (Option.map List.length) heq
        simp at hlength
      have hheard : heard? id x = lineRequest command := by
        unfold heard?
        rw [hcall]
        exact if_pos ⟨rfl, hchanged⟩
      have hlisteners : Published id st
          { st with channel := Function.update st.channel id (some (cmds ++ [(username, command)])) } x :=
        ⟨cmds, (username, command), hcmds, Function.update_self _ _ _, rfl, hheard⟩
      exact ⟨⟨rfl, rfl, rfl, rfl, rfl, rfl, fun other hne => ⟨Function.update_of_ne hne _ _, hother other hne⟩,
        .inr ⟨hlisteners, hheard⟩⟩, fun _ _ => .inr hlisteners⟩
  rcases exec_cases hexec with hok | ⟨⟨e, rfl⟩, rfl | ⟨z, hz⟩⟩
  · exact hrun hok
  · exact ⟨hsame rfl, fun n hn => by cases hn⟩
  · exact ⟨(hrun hz).1, fun n hn => by cases hn⟩

theorem Publishes.beside (h : Publishes id command st st' x) {own : Option ExecutionId} (hpid : x.pid = p) :
    Beside p own st l x st' where
  pid := hpid
  tx q _ := by rw [h.tx]
  rows row := .inl (by rw [h.rows])
  streams other _ := by
    by_cases hother : other = id
    · subst hother
      exact h.heard.imp_right And.left
    · obtain ⟨hchannel, hheard⟩ := h.others other hother
      exact .inl ⟨hchannel, by rw [h.sent], hheard⟩
  next := by rw [h.next]

theorem Publishes.idle (h : Publishes id command st st' x) (hclose : x.call.1 ≠ .close) (hidle : Idle p st l) :
    Idle p st' (l ++ [x]) := ⟨by rw [h.tx, hidle.1], hidle.2.snoc fun _ => hclose⟩

/-- What a process with no execution leaves of the shared facts when it sends a command. -/
theorem Publishes.shared {g' : Stage} (h : Publishes id command st st' x) (hshared : Shared t project st gs l)
    (hpid : x.pid = p) (hexecution : g'.execution? = none) (hcopy : g'.copy? = none)
    (hagrees : Orderly (l ++ [x]) → ∀ c, Copied st gs c → st.active.map (·.executionId) = some c.execution →
      ∀ file ∈ t.files, file.projectId = project → Agrees st gs l c file →
        Agrees st' (Function.update gs p g') (l ++ [x]) c file) :
    Shared t project st' (Function.update gs p g') (l ++ [x]) := by
  have hqueue : ∀ payload ∈ st'.queue, payload ∈ st.queue := fun payload hpayload => h.queue ▸ hpayload
  refine hshared.step (h.beside hpid)
    (hshared.tokens.keep (h.queue ▸ List.Sublist.refl _) (Nat.le_of_eq h.next.symm) (.inr hexecution))
    (fun payload hpayload => .inl (hqueue payload hpayload)) fun horderly c hc hslot file hfile hproject => ?_
  have hold : Copied st gs c := hc.of_update (fun payload hpayload => .inl (hqueue payload hpayload))
    fun c hc => by cases hcopy.symm.trans hc
  have hslot' : st.active.map (·.executionId) = some c.execution := h.active ▸ hslot
  exact hagrees horderly c hold hslot' file hfile hproject
    (hshared.agreed (horderly.of_earlier (List.prefix_append l [x])) c hold hslot' file hfile hproject)

end Publishes

/-- A session is told of a file. -/
theorem tellFile_rule {id : ExecutionId} {file : File} (hfile : file ∈ t.files) (hproject : file.projectId = project)
    (hmem : file.id ∈ files) (hnew : file.id ∉ todo) :
    (debuggerProtocol t project sets rows₀).Triple p r (.informing files rows id (file.id :: todo))
      (await (.sendCommand id none (.setBreakpoints file.path (sortedSet (enabledLines rows file.id)))))
      (fun _ g' => g' = .informing files rows id todo) fun _ g' => g' = .plain := by
  refine call_rule (fun _ _ ho => (by cases ho)) fun env st l y st' gs hshared hg hholds hexec x hx => ?_
  have hpid : x.pid = p := by rw [hx]
  have hbefore : x.before = st := by rw [hx]
  have hafter : x.after = st' := by rw [hx]
  have hclose : x.call.1 ≠ .close := by
    rw [hx]
    exact fun hclose => by cases hclose
  have hl : l <+: l ++ [x] := List.prefix_append l [x]
  have hown : (gs p).Holds t project p st l := by
    rw [hg]
    exact hholds
  obtain ⟨hidle, hbegan, htold, htodo⟩ := hholds
  obtain ⟨hpublishes, hlisteners⟩ := exec_sendCommand hexec hx
  have hstored : ∀ other, st'.stored other = st.stored other := fun other => by
    rw [State.stored, hpublishes.rows, State.stored]
  have hagrees : ∀ {g' : Stage}, (∀ other ∈ todo, g'.WillTell id other) ∨ failed x = true →
      Orderly (l ++ [x]) → ∀ c, Copied st gs c → st.active.map (·.executionId) = some c.execution →
        ∀ other ∈ t.files, other.projectId = project → Agrees st gs l c other →
          Agrees st' (Function.update gs p g') (l ++ [x]) c other := by
    intro g' hwill horderly c _ _ other hother hproject' hold
    have hundisturbed : failed x = false := horderly.2.not_failed (hpid.symm ▸ hbegan _ hmem)
    by_cases hid : c.execution = id
    · obtain rfl := hid
      by_cases hf : other = file
      · -- the file that is told of
        subst hf
        obtain ⟨n, rfl⟩ : ∃ n, y = .ok n := by
          cases y with
          | ok n => exact ⟨n, rfl⟩
          | error e =>
            rw [hx] at hundisturbed
            cases hundisturbed
        rcases hlisteners n rfl with ⟨rfl, hnone⟩ | ⟨cmds, sent, hcmds, hcmds', hsent, hheard⟩
        · exact .inr (.inr ⟨l, x, [], _, rfl, by rw [hx], fun _ hy => by cases hy⟩)
        · have hrequest : heard? c.execution x =
              some (absPath other.path, sortedSet (sortedSet (enabledLines rows other.id))) := by
            rcases hpublishes.heard with ⟨hsame, -⟩ | ⟨-, hrequest⟩
            · rw [hsame, hcmds] at hcmds'
              have hlength := congrArg List.length (Option.some.inj hcmds')
              simp at hlength
            · rw [hrequest]
              exact if_neg (t.relative other hfile).1
          refine .inl ?_
          rw [heard_snoc, hrequest, ← List.append_assoc]
          exact linesOf_append_self.trans (sortedSet_sortedSet.trans ((sortedSet_enabledLines_congr fun row hrow =>
            (htold (horderly.1.of_earlier hl) row (hrow ▸ hmem)).symm).trans (hstored other.id).symm))
      · -- another file of the project
        have hne : absPath file.path ≠ absPath other.path := fun heq => hf
          (t.eq_of_path hother hfile (hproject'.trans hproject.symm) ((t.absPath_inj hfile hother).1 heq).symm)
        have hsame : ∀ requests,
            linesOf (requests ++ (heard? c.execution x).toList) other = linesOf requests other := by
          intro requests
          cases hrequest : heard? c.execution x with
          | none => simp
          | some request =>
            rcases hpublishes.heard with ⟨-, -, hnone⟩ | ⟨-, hsome⟩
            · cases hnone.symm.trans hrequest
            · rw [hrequest] at hsome
              have hpath : request.1 = absPath file.path := by
                have hdef : lineRequest (.setBreakpoints file.path (sortedSet (enabledLines rows file.id))) =
                    some (absPath file.path, sortedSet (sortedSet (enabledLines rows file.id))) :=
                  if_neg (t.relative file hfile).1
                rw [hdef] at hsome
                rw [Option.some.inj hsome]
              exact linesOf_append_of_ne (hpath ▸ hne)
        rcases hold with hlines | ⟨q, hq⟩ | hunheard
        · exact .inl (by rw [heard_snoc, ← List.append_assoc, hsame, hlines, hstored])
        · refine .inr (.inl ⟨q, ?_⟩)
          by_cases hqp : q = p
          · subst hqp
            rw [hg] at hq
            rw [Function.update_self]
            refine (hwill.resolve_right fun hfailed => ?_) other.id ((List.mem_cons.1 hq.2).resolve_left fun heq =>
              hf (t.eq_of_id hother hfile heq))
            exact Bool.false_ne_true (hundisturbed.symm.trans hfailed)
          · rwa [Function.update_of_ne hqp]
        · exact .inr (.inr (hunheard.snoc (by rw [hbefore, hafter, hstored])))
    · -- another session
      refine hold.keep hbefore hafter (hpublishes.others _ hid).2 (hstored _) fun hwilltell => ?_
      rw [hg] at hwilltell
      exact absurd hwilltell.1.symm hid
  cases y with
  | ok n =>
    refine ⟨.informing files rows id todo, hpublishes.beside hpid,
      ⟨hpublishes.idle hclose hidle, fun f hf => (hbegan f hf).mono hl, fun hapart row hf => ?_,
        fun f hf => htodo (List.mem_cons_of_mem _ hf)⟩,
      hpublishes.shared hshared hpid rfl rfl (hagrees (.inl fun other hother => ⟨rfl, hother⟩)), rfl⟩
    rw [hpublishes.rows]
    exact htold (hapart.of_earlier hl) row hf
  | error e =>
    have hfailed : failed x = true := by
      rw [hx]
      rfl
    exact ⟨.plain, hpublishes.beside hpid, hpublishes.idle hclose hidle,
      hpublishes.shared hshared hpid rfl rfl (hagrees (.inr hfailed)), rfl⟩

/-- A command of a member changes no lines. -/
theorem memberCommand_rule {id : ExecutionId} {username : Option String} {command : DebugCommand}
    (hcommand : isMemberCommand command = true) :
    (debuggerProtocol t project sets rows₀).Triple p r .plain (await (.sendCommand id username command))
      (fun _ g' => g' = .plain) fun _ g' => g' = .plain := by
  refine call_rule (fun _ _ ho => (by cases ho)) fun env st l y st' gs hshared hg hholds hexec x hx => ?_
  have hpid : x.pid = p := by rw [hx]
  have hbefore : x.before = st := by rw [hx]
  have hafter : x.after = st' := by rw [hx]
  have hclose : x.call.1 ≠ .close := by
    rw [hx]
    exact fun hclose => by cases hclose
  obtain ⟨hpublishes, -⟩ := exec_sendCommand hexec hx
  have hnone : lineRequest command = none := by
    cases command with
    | setBreakpoints path lines => cases hcommand
    | _ => rfl
  have hheard : ∀ other, heard? other x = none := by
    intro other
    by_cases hother : other = id
    · subst hother
      rcases hpublishes.heard with ⟨-, -, hsame⟩ | ⟨-, hrequest⟩
      · exact hsame
      · rw [hrequest, hnone]
    · exact (hpublishes.others other hother).2
  refine ⟨.plain, hpublishes.beside hpid, hpublishes.idle hclose hholds, ?_, by cases y <;> rfl⟩
  refine hpublishes.shared hshared hpid rfl rfl fun _ c _ _ file _ _ hold => ?_
  refine hold.keep hbefore hafter (hheard _) ?_ fun hwilltell => ?_
  · rw [State.stored, hpublishes.rows, State.stored]
  · rw [hg] at hwilltell
    exact hwilltell.elim

end Edits

/-! ## The rules of a session -/

section Sessions

variable {id : ExecutionId} {c : Copy} {rest : List LinesRequest}

/-- What a calm operation leaves of the queue. -/
theorem kept_queue {st st' : State} {l : List Entry} {x : Entry} (hqueue : st'.queue.Sublist st.queue) :
    ∀ payload ∈ st'.queue, payload ∈ st.queue ∨
      Untouched payload.executionId st' (l ++ [x]) ∧ Read t project (payloadCopy payload) (l ++ [x]) :=
  fun _ hpayload => .inl (hqueue.subset hpayload)

/-- A calm operation after which the sessions that have the slot and a copy had them before. -/
theorem Calm.agreed {st st' : State} {gs : Pid → Stage} {l : List Entry} {x : Entry} {g' : Stage} (h : Calm st st')
    (hagreed : Agreed t project st gs l) (hpid : x.pid = p) (hbefore : x.before = st) (hafter : x.after = st')
    (hholds : (gs p).Holds t project p st l)
    (hcopied : ∀ c, Copied st' (Function.update gs p g') c → st'.active.map (·.executionId) = some c.execution →
      Copied st gs c ∧ st.active.map (·.executionId) = some c.execution)
    (hwill : ∀ id file, (gs p).WillTell id file → st'.active.map (·.executionId) = some id → g'.WillTell id file) :
    Agreed t project st' (Function.update gs p g') (l ++ [x]) :=
  hagreed.keep hbefore hafter hpid hholds hcopied
    (fun id => heard?_of_same (by rw [hbefore, hafter, h.channel])) h.stored fun id file hwilltell hslot =>
      .inl (hwill id file hwilltell hslot)

/-- The slot is emptied. -/
theorem delActive_rule :
    (debuggerProtocol t project sets rows₀).Triple p r g (await .delActive) (fun _ g' => g' = g)
      fun _ g' => g' = g := by
  refine calm_rule rfl fun env st l y st' gs hshared hg hholds hexec hcalm x hx hkept => ?_
  have hown : (gs p).Holds t project p st l := by
    rw [hg]
    exact hholds
  have hfields : st'.queue = st.queue ∧ (st'.active = st.active ∨ st'.active = none) :=
    exec_state (P := fun st' => st'.queue = st.queue ∧ (st'.active = st.active ∨ st'.active = none)) hexec
      ⟨rfl, .inl rfl⟩ fun z hz => by
        obtain ⟨-, rfl⟩ := Prod.mk.inj (Option.some.inj hz)
        exact ⟨rfl, .inr rfl⟩
  obtain ⟨hqueue, hactive⟩ := hfields
  have hsublist : st'.queue.Sublist st.queue := hqueue ▸ List.Sublist.refl _
  refine ⟨g, hkept, hshared.tokens.keep hsublist hcalm.next (.inl (by rw [hg])), kept_queue hsublist,
    hcalm.agreed hshared.agreed (by rw [hx]) (by rw [hx]) (by rw [hx]) hown (fun c hc hslot => ⟨?_, ?_⟩)
      (fun _ _ hwill _ => hg ▸ hwill), by cases y <;> rfl⟩
  · exact hc.of_update (fun _ hpayload => .inl (hsublist.subset hpayload)) fun c hc => .inl ⟨p, hg.symm ▸ hc⟩
  · rcases hactive with hsame | hnone
    · rwa [hsame] at hslot
    · rw [hnone] at hslot
      cases hslot

/-- A session takes the slot before it has its copy. -/
theorem takeSlot_rule {o : Op} {info : ActiveInfo} (ho : o = .setActiveNx info ∨ o = .setActive info) :
    (debuggerProtocol t project sets rows₀).Triple p r (.starting info.executionId) (await o)
      (fun _ g' => g' = .starting info.executionId) fun _ g' => g' = .starting info.executionId := by
  have hcalm : o.calm = true := by rcases ho with rfl | rfl <;> rfl
  refine calm_rule hcalm fun env st l y st' gs hshared hg hholds hexec hcalm x hx hkept => ?_
  have hown : (gs p).Holds t project p st l := by
    rw [hg]
    exact hholds
  have hfields : st'.queue = st.queue ∧ (st'.active = st.active ∨ st'.active = some info) := by
    refine exec_state (P := fun st' => st'.queue = st.queue ∧ (st'.active = st.active ∨ st'.active = some info)) hexec
      ⟨rfl, .inl rfl⟩ fun z hz => ?_
    rcases ho with rfl | rfl
    · unfold Op.run at hz
      dsimp only at hz
      split at hz <;> obtain ⟨-, rfl⟩ := Prod.mk.inj (Option.some.inj hz)
      · exact ⟨rfl, .inl rfl⟩
      · exact ⟨rfl, .inr rfl⟩
    · obtain ⟨-, rfl⟩ := Prod.mk.inj (Option.some.inj hz)
      exact ⟨rfl, .inr rfl⟩
  obtain ⟨hqueue, hactive⟩ := hfields
  have hsublist : st'.queue.Sublist st.queue := hqueue ▸ List.Sublist.refl _
  have hexecution : (gs p).execution? = some info.executionId := by rw [hg]; rfl
  refine ⟨.starting info.executionId, hkept, hshared.tokens.keep hsublist hcalm.next (.inl (by rw [hg])),
    kept_queue hsublist, hcalm.agreed hshared.agreed (by rw [hx]) (by rw [hx]) (by rw [hx]) hown (fun c hc hslot => ?_)
      (fun _ _ hwill _ => hg ▸ hwill), by cases y <;> rfl⟩
  have hold : Copied st gs c := hc.of_update (fun _ hpayload => .inl (hsublist.subset hpayload)) fun c hc => by cases hc
  refine ⟨hold, ?_⟩
  rcases hactive with hsame | hnew
  · rwa [hsame] at hslot
  · -- no other has a copy for this execution
    rw [hnew] at hslot
    have hid : info.executionId = c.execution := Option.some.inj hslot
    rcases hold with ⟨q, hq⟩ | ⟨payload, hpayload, rfl⟩
    · have hqp : q = p :=
        hshared.tokens.unique q p c.execution (Stage.execution_of_copy hq) (hid ▸ hexecution)
      rw [hqp, hg] at hq
      cases hq
    · have hid' : info.executionId = payload.executionId := hid
      exact absurd (hid' ▸ hexecution) ((hshared.tokens.queued payload hpayload).2 p)

/-- An execution is started. -/
theorem insertExecution_rule :
    (debuggerProtocol t project sets rows₀).Triple p r .plain (await .insertExecution)
      (fun id g' => g' = .starting id) fun _ g' => g' = .plain := by
  refine calm_rule rfl fun env st l y st' gs hshared hg hholds hexec hcalm x hx hkept => ?_
  have hown : (gs p).Holds t project p st l := by
    rw [hg]
    exact hholds
  have hfields : st'.queue = st.queue ∧ st'.active = st.active :=
    exec_state (P := fun st' => st'.queue = st.queue ∧ st'.active = st.active) hexec ⟨rfl, rfl⟩ fun z hz => by
      obtain ⟨-, rfl⟩ := Prod.mk.inj (Option.some.inj hz)
      exact ⟨rfl, rfl⟩
  obtain ⟨hqueue, hactive⟩ := hfields
  have hsublist : st'.queue.Sublist st.queue := hqueue ▸ List.Sublist.refl _
  have hagreed : ∀ g' : Stage, g'.copy? = none → Agreed t project st' (Function.update gs p g') (l ++ [x]) :=
    fun g' hcopy => hcalm.agreed hshared.agreed (by rw [hx]) (by rw [hx]) (by rw [hx]) hown
      (fun c hc hslot => ⟨hc.of_update (fun _ hpayload => .inl (hsublist.subset hpayload)) fun c hc =>
        absurd (hcopy.symm.trans hc) (by simp), hactive ▸ hslot⟩) fun id file hwill _ => by
        rw [hg] at hwill
        exact hwill.elim
  rcases exec_cases hexec with hrun | ⟨⟨e, rfl⟩, -⟩
  · obtain ⟨rfl, rfl⟩ := Prod.mk.inj (Option.some.inj hrun)
    refine ⟨.starting st.nextExecution, ⟨hkept, ?_⟩, hshared.tokens.insert rfl rfl rfl, kept_queue hsublist,
      hagreed _ rfl, rfl⟩
    exact hcalm.untouched (by rw [hx]) (by rw [hx]) (hshared.fresh _ (Nat.le_refl _))
  · exact ⟨.plain, hkept, hshared.tokens.keep hsublist hcalm.next (.inr rfl), kept_queue hsublist, hagreed _ rfl, rfl⟩

/-- A session reads its copy. -/
theorem selectBreakpoints_rule :
    (debuggerProtocol t project sets rows₀).Triple p r (.starting id) (await .selectBreakpoints)
      (fun rows g' => g' = .copied ⟨id, rows.foldl addBreakpoint []⟩) fun _ g' => g' = .starting id := by
  refine calm_rule rfl fun env st l y st' gs hshared hg hholds hexec hcalm x hx hkept => ?_
  obtain rfl := exec_inert rfl hexec
  have hown : (gs p).Holds t project p st' l := by
    rw [hg]
    exact hholds
  have hbefore : x.before = st' := by rw [hx]
  have hafter : x.after = st' := by rw [hx]
  have hsublist : st'.queue.Sublist st'.queue := List.Sublist.refl _
  rcases exec_cases hexec with hrun | ⟨⟨e, rfl⟩, -⟩
  · obtain ⟨rfl, -⟩ := Prod.mk.inj (Option.some.inj hrun)
    let copy : Copy := ⟨id, (st'.selectBreakpoints t project).foldl addBreakpoint []⟩
    have hlines : ∀ file ∈ t.files, file.projectId = project → linesOf copy.requests file = st'.stored file.id :=
      fun file hfile hproject => linesOf_copy st' hfile hproject
    refine ⟨.copied copy, ⟨hkept.1, hkept.2, x, by simp, by rw [hx], fun file hfile hproject => ?_⟩,
      hshared.tokens.keep hsublist hcalm.next (.inl (by rw [hg]; rfl)), kept_queue hsublist,
      fun horderly c hc hslot file hfile hproject => ?_, rfl⟩
    · rw [hbefore]
      exact hlines file hfile hproject
    · have hold : c = copy ∨ Copied st' gs c := by
        rcases hc with ⟨q, hq⟩ | hqueued
        · by_cases hqp : q = p
          · subst hqp
            rw [Function.update_self] at hq
            exact .inl (Option.some.inj hq).symm
          · rw [Function.update_of_ne hqp] at hq
            exact .inr (.inl ⟨q, hq⟩)
        · exact .inr (.inr hqueued)
      rcases hold with rfl | hold
      · refine .inl ?_
        rw [hkept.2.2.2, List.append_nil]
        exact hlines file hfile hproject
      · refine (hshared.agreed (horderly.of_earlier (List.prefix_append l [x])) c hold hslot file hfile hproject).keep
          hbefore hafter (heard?_of_same (by rw [hbefore, hafter])) rfl fun hwilltell => ?_
        rw [hg] at hwilltell
        exact hwilltell.elim
  · refine ⟨.starting id, hkept, hshared.tokens.keep hsublist hcalm.next (.inl (by rw [hg])), kept_queue hsublist,
      hcalm.agreed hshared.agreed (by rw [hx]) hbefore hafter hown (fun c hc hslot => ⟨?_, hslot⟩)
        (fun _ _ hwill _ => hg ▸ hwill), rfl⟩
    exact hc.of_update (fun _ hpayload => .inl hpayload) fun c hc => by cases hc

/-- The payload with a copy is put into the queue. -/
theorem enqueue_rule {payload : Payload} :
    (debuggerProtocol t project sets rows₀).Triple p r (.copied (payloadCopy payload)) (await (.enqueue payload))
      (fun _ g' => g' = .plain) fun _ g' => g' = .plain := by
  refine calm_rule rfl fun env st l y st' gs hshared hg hholds hexec hcalm x hx hkept => ?_
  have hown : (gs p).Holds t project p st l := by
    rw [hg]
    exact hholds
  have hfields : st'.active = st.active ∧ st'.nextExecution = st.nextExecution ∧
      (st'.queue = st.queue ∨ st'.queue = st.queue ++ [payload]) :=
    exec_state (P := fun st' => st'.active = st.active ∧ st'.nextExecution = st.nextExecution ∧
      (st'.queue = st.queue ∨ st'.queue = st.queue ++ [payload])) hexec ⟨rfl, rfl, .inl rfl⟩ fun z hz => by
        obtain ⟨-, rfl⟩ := Prod.mk.inj (Option.some.inj hz)
        exact ⟨rfl, rfl, .inr rfl⟩
  obtain ⟨hactive, hnext, hqueue⟩ := hfields
  have hexecution : (gs p).execution? = some payload.executionId := by rw [hg]; rfl
  have hmem : ∀ other ∈ st'.queue, other ∈ st.queue ∨ other = payload := by
    intro other hother
    rcases hqueue with hsame | hnew
    · exact .inl (hsame ▸ hother)
    · rw [hnew] at hother
      exact (List.mem_append.1 hother).imp_right List.mem_singleton.1
  refine ⟨.plain, hkept.1, ?_, fun other hother => ?_,
    hcalm.agreed hshared.agreed (by rw [hx]) (by rw [hx]) (by rw [hx]) hown
      (fun c hc hslot => ⟨?_, hactive ▸ hslot⟩) fun _ _ hwill _ => (by rw [hg] at hwill; exact hwill.elim),
    by cases y <;> rfl⟩
  · rcases hqueue with hsame | hnew
    · exact hshared.tokens.keep (hsame ▸ List.Sublist.refl _) hcalm.next (.inr rfl)
    · exact hshared.tokens.enqueue hnew hnext hexecution rfl
  · refine (hmem other hother).imp_right fun hpayload => ?_
    rw [hpayload]
    exact ⟨hkept.2.1, hkept.2.2⟩
  · refine hc.of_update (fun other hother => (hmem other hother).imp_right fun hpayload => ?_) fun c hc => by cases hc
    rw [hpayload, hg]
    rfl

/-- An entry is removed from the queue. -/
theorem removeFromQueue_rule :
    (debuggerProtocol t project sets rows₀).Triple p r g (await (.removeFromQueue id)) (fun _ g' => g' = g)
      fun _ g' => g' = g := by
  refine calm_rule rfl fun env st l y st' gs hshared hg hholds hexec hcalm x hx hkept => ?_
  have hown : (gs p).Holds t project p st l := by
    rw [hg]
    exact hholds
  have hfields : st'.active = st.active ∧ st'.queue.Sublist st.queue :=
    exec_state (P := fun st' => st'.active = st.active ∧ st'.queue.Sublist st.queue) hexec
      ⟨rfl, List.Sublist.refl _⟩ fun z hz => by
        obtain ⟨-, rfl⟩ := Prod.mk.inj (Option.some.inj hz)
        exact ⟨rfl, List.filter_sublist⟩
  obtain ⟨hactive, hsublist⟩ := hfields
  refine ⟨g, hkept, hshared.tokens.keep hsublist hcalm.next (.inl (by rw [hg])), kept_queue hsublist,
    hcalm.agreed hshared.agreed (by rw [hx]) (by rw [hx]) (by rw [hx]) hown (fun c hc hslot => ⟨?_, hactive ▸ hslot⟩)
      (fun _ _ hwill _ => hg ▸ hwill), by cases y <;> rfl⟩
  exact hc.of_update (fun _ hpayload => .inl (hsublist.subset hpayload)) fun c hc => .inl ⟨p, hg.symm ▸ hc⟩

/-- A worker takes a payload from the queue. -/
theorem dequeue_rule :
    (debuggerProtocol t project sets rows₀).Triple p r .plain (await .dequeue)
      (fun payload g' => g' = (payload.map fun payload => Stage.taken (payloadCopy payload)).getD .plain)
      fun _ g' => g' = .plain := by
  refine calm_rule rfl fun env st l y st' gs hshared hg hholds hexec hcalm x hx hkept => ?_
  have hown : (gs p).Holds t project p st l := by
    rw [hg]
    exact hholds
  have hbefore : x.before = st := by rw [hx]
  have hafter : x.after = st' := by rw [hx]
  have hrun : ∀ {z : Except PyError (Option Payload)}, Op.run t project p env st .dequeue = some (z, st') →
      st'.active = st.active ∧ (z = .ok none ∧ st' = st ∨
        ∃ i, z = .ok st.queue[i]? ∧ st' = { st with queue := st.queue.eraseIdx i }) := by
    intro z hz
    unfold Op.run at hz
    dsimp only at hz
    split at hz
    · obtain ⟨rfl, rfl⟩ := Prod.mk.inj (Option.some.inj hz)
      exact ⟨rfl, .inl ⟨rfl, rfl⟩⟩
    · next i _ =>
      obtain ⟨rfl, rfl⟩ := Prod.mk.inj (Option.some.inj hz)
      exact ⟨rfl, .inr ⟨i, rfl, rfl⟩⟩
  have hfields : st'.active = st.active ∧ st'.queue.Sublist st.queue :=
    exec_state (P := fun st' => st'.active = st.active ∧ st'.queue.Sublist st.queue) hexec
      ⟨rfl, List.Sublist.refl _⟩ fun z hz => by
        obtain ⟨hactive, ⟨-, rfl⟩ | ⟨i, -, rfl⟩⟩ := hrun hz
        · exact ⟨hactive, List.Sublist.refl _⟩
        · exact ⟨hactive, List.eraseIdx_sublist _ _⟩
  obtain ⟨hactive, hsublist⟩ := hfields
  have hplain : ∀ {Q : Prop}, Q → ∃ g' : Stage, g'.Holds t project p st' (l ++ [x]) ∧
      Tokens st' (Function.update gs p g') ∧
      (∀ payload ∈ st'.queue, payload ∈ st.queue ∨
        Untouched payload.executionId st' (l ++ [x]) ∧ Read t project (payloadCopy payload) (l ++ [x])) ∧
      Agreed t project st' (Function.update gs p g') (l ++ [x]) ∧ Q ∧ g' = .plain := by
    intro Q hQ
    refine ⟨.plain, hkept, hshared.tokens.keep hsublist hcalm.next (.inr rfl), kept_queue hsublist,
      hcalm.agreed hshared.agreed (by rw [hx]) hbefore hafter hown (fun c hc hslot => ⟨?_, hactive ▸ hslot⟩)
        (fun _ _ hwill _ => hg ▸ hwill), hQ, rfl⟩
    exact hc.of_update (fun _ hpayload => .inl (hsublist.subset hpayload)) fun c hc => by cases hc
  rcases exec_cases hexec with hok | ⟨⟨e, rfl⟩, -⟩
  · obtain ⟨-, hcases⟩ := hrun hok
    have hnone : y = .ok none → ∃ g' : Stage, g'.Holds t project p st' (l ++ [x]) ∧
        Tokens st' (Function.update gs p g') ∧
        (∀ payload ∈ st'.queue, payload ∈ st.queue ∨
          Untouched payload.executionId st' (l ++ [x]) ∧ Read t project (payloadCopy payload) (l ++ [x])) ∧
        Agreed t project st' (Function.update gs p g') (l ++ [x]) ∧
        outcome (fun payload g' => g' = (payload.map fun payload => Stage.taken (payloadCopy payload)).getD .plain)
          (fun _ g' => g' = .plain) y g' := by
      rintro rfl
      obtain ⟨g', hholds', htokens, hqueue, hagreed, -, rfl⟩ := hplain trivial
      exact ⟨.plain, hholds', htokens, hqueue, hagreed, rfl⟩
    rcases hcases with ⟨hy, -⟩ | ⟨i, rfl, rfl⟩
    · exact hnone hy
    · cases hi : st.queue[i]? with
      | none =>
        rw [hi] at hnone
        exact hnone rfl
      | some payload =>
        obtain ⟨huntouched, hread⟩ := hshared.queued payload (List.mem_of_getElem? hi)
        have htook : Took p (payloadCopy payload) (l ++ [x]) :=
          ⟨x, by simp, by rw [hx], payload, by rw [hx, hi], rfl⟩
        refine ⟨.taken (payloadCopy payload), ⟨hkept, hcalm.untouched hbefore hafter huntouched,
          hread.mono (List.prefix_append l [x]), htook⟩, hshared.tokens.dequeue hi rfl rfl rfl,
          kept_queue hsublist, hcalm.agreed hshared.agreed (by rw [hx]) hbefore hafter hown
            (fun c hc hslot => ⟨?_, hslot⟩) (fun _ _ hwill _ => by rw [hg] at hwill; exact hwill.elim), rfl⟩
        exact hc.of_update (fun _ hpayload => .inl (hsublist.subset hpayload)) fun c hc =>
          .inr ⟨payload, List.mem_of_getElem? hi, Option.some.inj hc⟩
  · obtain ⟨g', hholds', htokens, hqueue, hagreed, -, rfl⟩ := hplain trivial
    exact ⟨.plain, hholds', htokens, hqueue, hagreed, rfl⟩

/-- A commit of a session that has no transaction. -/
theorem commitIdle_rule (hidle : ∀ st l, g.Holds t project p st l → Idle p st l) :
    (debuggerProtocol t project sets rows₀).Triple p r g (await .commit) (fun _ g' => g' = g) fun _ g' => g' = g := by
  refine call_rule (fun _ _ ho => (by cases ho)) fun env st l y st' gs hshared hg hholds hexec x hx => ?_
  have hpid : x.pid = p := by rw [hx]
  have hbefore : x.before = st := by rw [hx]
  have hafter : x.after = st' := by rw [hx]
  have hclose : x.call.1 ≠ .close := by
    rw [hx]
    exact fun hclose => by cases hclose
  have hown : (gs p).Holds t project p st l := by
    rw [hg]
    exact hholds
  have htx : st.tx p = {} := (hidle st l hholds).1
  have hfields : Calm st st' ∧ st'.queue = st.queue ∧ st'.active = st.active := by
    refine exec_state (P := fun st' => Calm st st' ∧ st'.queue = st.queue ∧ st'.active = st.active) hexec
      ⟨Calm.refl st, rfl, rfl⟩ fun z hz => ?_
    obtain ⟨-, rfl⟩ := Prod.mk.inj (Option.some.inj hz)
    refine ⟨⟨?_, ?_, rfl, rfl, Nat.le_refl _⟩, rfl, rfl⟩
    · change st.visible p = st.rows
      simp [State.visible, htx]
    · change Function.update st.tx p {} = st.tx
      rw [← htx, Function.update_eq_self]
  obtain ⟨hcalm, hqueue, hactive⟩ := hfields
  have hsublist : st'.queue.Sublist st.queue := hqueue ▸ List.Sublist.refl _
  refine ⟨g, hcalm.beside hpid hbefore hafter, hholds.calm hcalm hclose hbefore hafter,
    hshared.step (hcalm.beside hpid hbefore hafter) (hshared.tokens.keep hsublist hcalm.next (.inl (by rw [hg])))
      (kept_queue hsublist) (hcalm.agreed hshared.agreed hpid hbefore hafter hown
        (fun c hc hslot => ⟨?_, hactive ▸ hslot⟩) fun _ _ hwilltell _ => hg ▸ hwilltell), by cases y <;> rfl⟩
  exact hc.of_update (fun _ hpayload => .inl (hsublist.subset hpayload)) fun c hc => .inl ⟨p, hg.symm ▸ hc⟩

/-- What a worker does to its own channel and adapter leaves the others and the rows alone. -/
structure OwnStream (id : ExecutionId) (st st' : State) : Prop where
  rows : st'.rows = st.rows
  tx : st'.tx = st.tx
  next : st'.nextExecution = st.nextExecution
  queue : st'.queue = st.queue
  active : st'.active = st.active
  others : ∀ other, other ≠ id → st'.channel other = st.channel other ∧ st'.sent other = st.sent other

theorem OwnStream.refl (id : ExecutionId) (st : State) : OwnStream id st st :=
  ⟨rfl, rfl, rfl, rfl, rfl, fun _ _ => ⟨rfl, rfl⟩⟩

/-- Nothing is heard when no command is sent. -/
theorem heard?_eq_none {x : Entry} (hsend : ∀ id username command, x.call.1 ≠ .sendCommand id username command) :
    heard? id x = none := by
  unfold heard?
  split
  · next hcall => exact absurd hcall (hsend _ _ _)
  · rfl

theorem OwnStream.beside {st st' : State} {l : List Entry} {x : Entry} (h : OwnStream id st st') (hpid : x.pid = p)
    (hsend : ∀ id username command, x.call.1 ≠ .sendCommand id username command) : Beside p (some id) st l x st' where
  pid := hpid
  tx q _ := by rw [h.tx]
  rows row := .inl (by rw [h.rows])
  streams other hother := .inl ⟨(h.others other fun heq => hother (heq ▸ rfl)).1,
    (h.others other fun heq => hother (heq ▸ rfl)).2, heard?_eq_none hsend⟩
  next := by rw [h.next]

theorem OwnStream.idle {st st' : State} {l : List Entry} {x : Entry} (h : OwnStream id st st')
    (hclose : x.call.1 ≠ .close) (hidle : Idle p st l) : Idle p st' (l ++ [x]) :=
  ⟨by rw [h.tx, hidle.1], hidle.2.snoc fun _ => hclose⟩

/-- What a worker leaves of the shared facts by such a step. -/
theorem OwnStream.shared {st st' : State} {gs : Pid → Stage} {l : List Entry} {x : Entry} {g' : Stage}
    (h : OwnStream id st st') (hshared : Shared t project st gs l) (hpid : x.pid = p) (hbefore : x.before = st)
    (hafter : x.after = st') (hsend : ∀ id username command, x.call.1 ≠ .sendCommand id username command)
    (hholds : (gs p).Holds t project p st l) (hid : (gs p).execution? = some id) (hid' : g'.execution? = some id)
    (hcopy : ∀ c, g'.copy? = some c → (gs p).copy? = some c) (hwill : ∀ id file, ¬(gs p).WillTell id file) :
    Shared t project st' (Function.update gs p g') (l ++ [x]) := by
  have hsublist : st'.queue.Sublist st.queue := h.queue ▸ List.Sublist.refl _
  refine hshared.step (hid.symm ▸ h.beside hpid hsend)
    (hshared.tokens.keep hsublist (Nat.le_of_eq h.next.symm) (.inl (hid'.trans hid.symm))) (kept_queue hsublist) ?_
  refine hshared.agreed.keep hbefore hafter hpid hholds (fun c hc hslot => ⟨?_, h.active ▸ hslot⟩)
    (fun _ => heard?_eq_none hsend) (fun file => by rw [State.stored, h.rows, State.stored])
    fun id file hwilltell => absurd hwilltell (hwill id file)
  exact hc.of_update (fun _ hpayload => .inl (hsublist.subset hpayload)) fun c hc => .inl ⟨p, hcopy c hc⟩

/-- The rule of an operation on the channel or the adapter of the worker's own execution. -/
theorem own_rule {o : Op} {Q : o.Val → Stage → Prop} {E : PyError → Stage → Prop} (hid : g.execution? = some id)
    (hwill : ∀ id file, ¬g.WillTell id file)
    (hsend : ∀ id username command, o ≠ .sendCommand id username command)
    (hround : ∀ id paused, o = .round id paused → ∃ c, g = .attending c [] ∧ c.execution = id)
    (heffect : ∀ env st y st', o.run t project p env st = some (y, st') → OwnStream id st st')
    (h : ∀ env st l y st', g.Holds t project p st l → o.exec t project p env st = some (y, st') → OwnStream id st st' →
      ∀ x : Entry, x = ⟨p, ⟨o, y⟩, st, st'⟩ → heard id (l ++ [x]) = heard id l →
        ∃ g' : Stage, g'.Holds t project p st' (l ++ [x]) ∧ g'.execution? = some id ∧
          (∀ c, g'.copy? = some c → g.copy? = some c) ∧ outcome Q E y g') :
    (debuggerProtocol t project sets rows₀).Triple p r g (await o) Q E := by
  refine call_rule hround fun env st l y st' gs hshared hg hholds hexec x hx => ?_
  have hown : OwnStream id st st' :=
    exec_state (P := OwnStream id st) hexec (OwnStream.refl id st) fun z hz => heffect env st z st' hz
  have hpid : x.pid = p := by rw [hx]
  have hsend' : ∀ id username command, x.call.1 ≠ .sendCommand id username command := by
    rw [hx]
    exact hsend
  obtain ⟨g', hholds', hid', hcopy, hout⟩ :=
    h env st l y st' hholds hexec hown x hx (heard_snoc_of_none (heard?_eq_none hsend'))
  refine ⟨g', hid.symm ▸ hown.beside hpid hsend', hholds', ?_, hout⟩
  rw [← hg] at hid hcopy hwill hholds
  exact hown.shared hshared hpid (by rw [hx]) (by rw [hx]) hsend' hholds hid hid' hcopy hwill

/-- A worker begins to listen. -/
theorem subscribe_rule :
    (debuggerProtocol t project sets rows₀).Triple p r (.taken c) (await (.subscribe c.execution))
      (fun _ g' => g' = .attending c c.requests) fun _ g' => g' = .leaving c.execution := by
  have hrun : ∀ env st (y : Except PyError Unit) st',
      Op.run t project p env st (.subscribe c.execution) = some (y, st') →
      st' = { st with channel := Function.update st.channel c.execution (some []) } := fun env st y st' hz =>
    (Prod.mk.inj (Option.some.inj hz)).2.symm
  refine own_rule rfl (fun _ _ hwill => hwill) (fun _ _ _ ho => by cases ho)
    (fun _ _ ho => (by cases ho)) (fun env st y st' hz => ?_) fun env st l y st' hholds hexec hown x hx hheard => ?_
  · rw [hrun env st y st' hz]
    exact ⟨rfl, rfl, rfl, rfl, rfl, fun other hne => ⟨Function.update_of_ne hne _ _, rfl⟩⟩
  · obtain ⟨hidle, ⟨-, hsent, hnone⟩, hread, htook⟩ := hholds
    have hclose : x.call.1 ≠ .close := by
      rw [hx]
      exact fun hclose => by cases hclose
    have hl : l <+: l ++ [x] := List.prefix_append l [x]
    rcases exec_cases hexec with hok | ⟨⟨e, rfl⟩, -⟩
    · obtain rfl := hrun env st y st' hok
      obtain ⟨rfl, -⟩ := Prod.mk.inj (Option.some.inj hok)
      refine ⟨.attending c c.requests, ⟨hown.idle hclose hidle, hread.mono hl, htook.mono hl, [],
        Function.update_self _ _ _, ?_⟩, rfl, fun _ hc => hc, rfl⟩
      rw [hheard, hnone]
      change st.sent c.execution ++ c.requests ++ [] = c.requests ++ []
      rw [hsent, List.nil_append]
    · exact ⟨.leaving c.execution, hown.idle hclose hidle, rfl, fun _ hc => (by cases hc), rfl⟩

/-- A worker listens no more. -/
theorem unsubscribe_rule (hid : g.execution? = some id) (hwill : ∀ id file, ¬g.WillTell id file)
    (hidle : ∀ st l, g.Holds t project p st l → Idle p st l) :
    (debuggerProtocol t project sets rows₀).Triple p r g (await (.unsubscribe id)) (fun _ g' => g' = .leaving id)
      fun _ g' => g' = .leaving id := by
  refine own_rule hid hwill (fun _ _ _ ho => by cases ho) (fun _ _ ho => (by cases ho))
    (fun env st y st' hz => ?_) fun env st l y st' hholds hexec hown x hx hheard => ?_
  · obtain ⟨-, rfl⟩ := Prod.mk.inj (Option.some.inj hz)
    exact ⟨rfl, rfl, rfl, rfl, rfl, fun other hne => ⟨Function.update_of_ne hne _ _, rfl⟩⟩
  · have hclose : x.call.1 ≠ .close := by
      rw [hx]
      exact fun hclose => by cases hclose
    exact ⟨.leaving id, hown.idle hclose (hidle st l hholds), rfl, fun _ hc => (by cases hc), by cases y <;> rfl⟩

/-- The next request is made. -/
theorem setBreakpoints_rule {path : String} {lines : List Int} {E : PyError → Stage → Prop} :
    (debuggerProtocol t project sets rows₀).Triple p r (.attending c ((path, lines) :: rest))
      (await (.setBreakpoints c.execution path lines)) (fun _ g' => g' = .attending c rest) E := by
  have hrun : ∀ env st (y : Except PyError (Except DapFailure Unit)) st',
      Op.run t project p env st (.setBreakpoints c.execution path lines) = some (y, st') → y = .ok env.answer ∧
        st' = { st with sent := Function.update st.sent c.execution (st.sent c.execution ++ [(path, lines)]) } :=
    fun env st y st' hz => (Prod.mk.inj (Option.some.inj hz)).imp Eq.symm Eq.symm
  refine own_rule rfl (fun _ _ hwill => hwill) (fun _ _ _ ho => by cases ho)
    (fun _ _ ho => (by cases ho)) (fun env st y st' hz => ?_) fun env st l y st' hholds hexec hown x hx hheard => ?_
  · rw [(hrun env st y st' hz).2]
    exact ⟨rfl, rfl, rfl, rfl, rfl, fun other hne => ⟨rfl, Function.update_of_ne hne _ _⟩⟩
  · obtain ⟨hidle, hread, htook, cmds, hchannel, hstream⟩ := hholds
    have hclose : x.call.1 ≠ .close := by
      rw [hx]
      exact fun hclose => by cases hclose
    have hl : l <+: l ++ [x] := List.prefix_append l [x]
    have hok : Op.run t project p env st (.setBreakpoints c.execution path lines) = some (y, st') := by
      unfold Op.exec at hexec
      split at hexec
      · exact hexec
      · exact hexec
      · next hne => exact absurd rfl hne
      · next hne => exact absurd rfl hne
    obtain ⟨rfl, rfl⟩ := hrun env st y st' hok
    refine ⟨.attending c rest, ⟨hown.idle hclose hidle, hread.mono hl, htook.mono hl, cmds, hchannel, ?_⟩, rfl,
      fun _ hc => hc, rfl⟩
    rw [hheard, ← hstream]
    change Function.update st.sent c.execution _ c.execution ++ _ ++ _ = _
    rw [Function.update_self]
    simp

/-- The requests that are made for what a round hands to the main loop. -/
def inputRequests (inputs : List (DebugRun.Input × AdapterAnswers)) : List LinesRequest :=
  inputs.filterMap fun got => inputRequest got.1

/-- A round takes inputs, and leaves the commands after them. -/
theorem requestsOf_takeInputs {taken : List (Taken × AdapterAnswers)} {cmds left : List Sent}
    {inputs : List (DebugRun.Input × AdapterAnswers)} (h : takeInputs cmds taken = some (inputs, left)) :
    requestsOf cmds = inputRequests inputs ++ requestsOf left := by
  induction taken generalizing cmds inputs with
  | nil =>
    obtain ⟨rfl, rfl⟩ := Prod.mk.inj (Option.some.inj h)
    rfl
  | cons head taken ih =>
    obtain ⟨what, answers⟩ := head
    cases what with
    | event event =>
      obtain ⟨⟨inputs', left'⟩, htaken, heq⟩ := Option.map_eq_some_iff.1 h
      obtain ⟨rfl, rfl⟩ := Prod.mk.inj heq
      rw [ih htaken, inputRequests, inputRequests, List.filterMap_cons_none rfl]
    | cancel =>
      obtain ⟨⟨inputs', left'⟩, htaken, heq⟩ := Option.map_eq_some_iff.1 h
      obtain ⟨rfl, rfl⟩ := Prod.mk.inj heq
      rw [ih htaken, inputRequests, inputRequests, List.filterMap_cons_none rfl]
    | command =>
      cases cmds with
      | nil => cases h
      | cons sent cmds =>
        obtain ⟨username, command⟩ := sent
        obtain ⟨⟨inputs', left'⟩, htaken, heq⟩ := Option.map_eq_some_iff.1 h
        obtain ⟨rfl, rfl⟩ := Prod.mk.inj heq
        have hold := ih htaken
        simp only [requestsOf, inputRequests, List.filterMap_cons, inputRequest] at hold ⊢
        cases lineRequest command with
        | none => exact hold
        | some request => exact congrArg _ hold

/-- A round of the main loop. -/
theorem round_rule {paused : Bool} {E : PyError → Stage → Prop} :
    (debuggerProtocol t project sets rows₀).Triple p r (.attending c []) (await (.round c.execution paused))
      (fun got g' => g' = .attending c (inputRequests (got.toOption.getD []))) E := by
  have hrun : ∀ env st (y : Except PyError (Except StopReason (List (DebugRun.Input × AdapterAnswers)))) st',
      Op.run t project p env st (.round c.execution paused) = some (y, st') →
        (∃ reason, y = .ok (.error reason) ∧ st' = st) ∨
          ∃ inputs left, takeInputs ((st.channel c.execution).getD []) env.taken = some (inputs, left) ∧
            y = .ok (.ok inputs) ∧ st' = { st with channel := fun e =>
              if e = c.execution then (st.channel c.execution).map fun _ => left else st.channel e } := by
    intro env st y st' hz
    unfold Op.run at hz
    dsimp only at hz
    split at hz
    · split at hz
      · obtain ⟨rfl, rfl⟩ := Prod.mk.inj (Option.some.inj hz)
        exact .inl ⟨_, rfl, rfl⟩
      · cases hz
    · split at hz
      · obtain ⟨⟨inputs, left⟩, htaken, heq⟩ := Option.map_eq_some_iff.1 hz
        obtain ⟨rfl, rfl⟩ := Prod.mk.inj heq
        exact .inr ⟨inputs, left, htaken, rfl, rfl⟩
      · cases hz
  refine own_rule rfl (fun _ _ hwill => hwill) (fun _ _ _ ho => by cases ho)
    (fun id' paused' ho => ?_) (fun env st y st' hz => ?_) fun env st l y st' hholds hexec hown x hx hheard => ?_
  · obtain ⟨rfl, -⟩ := Op.round.inj ho
    exact ⟨c, rfl, rfl⟩
  · rcases hrun env st y st' hz with ⟨reason, -, rfl⟩ | ⟨inputs, left, -, -, rfl⟩
    · exact OwnStream.refl _ _
    · exact ⟨rfl, rfl, rfl, rfl, rfl, fun other hne => ⟨if_neg hne, rfl⟩⟩
  · obtain ⟨hidle, hread, htook, cmds, hchannel, hstream⟩ := hholds
    have hclose : x.call.1 ≠ .close := by
      rw [hx]
      exact fun hclose => by cases hclose
    have hl : l <+: l ++ [x] := List.prefix_append l [x]
    have hok : Op.run t project p env st (.round c.execution paused) = some (y, st') := by
      unfold Op.exec at hexec
      split at hexec
      · exact hexec
      · exact hexec
      · next hne => exact absurd rfl hne
      · next hne => exact absurd rfl hne
    rcases hrun env st y st' hok with ⟨reason, rfl, rfl⟩ | ⟨inputs, left, htaken, rfl, rfl⟩
    · exact ⟨.attending c [], ⟨hown.idle hclose hidle, hread.mono hl, htook.mono hl, cmds, hchannel,
        by rw [hheard, hstream]⟩, rfl, fun _ hc => hc, rfl⟩
    · refine ⟨.attending c (inputRequests inputs), ⟨hown.idle hclose hidle, hread.mono hl,
        htook.mono hl, left, ?_, ?_⟩, rfl, fun _ hc => hc, rfl⟩
      · change (if c.execution = c.execution then _ else _) = _
        rw [if_pos rfl, hchannel]
        rfl
      · rw [hchannel] at htaken
        rw [Option.getD_some] at htaken
        rw [hheard, ← hstream, requestsOf_takeInputs htaken]
        simp

end Sessions

end Rules

end Concord.Breakpoints
