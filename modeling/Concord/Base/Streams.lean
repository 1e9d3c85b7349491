import Concord.Base.System
import Mathlib

/-!
# Coroutines that read byte streams

`asyncio.StreamReader` and the coroutines that await it. What a read gives depends on the bytes that have
come so far only in that it waits for more of them: a read that is satisfied gives the same with any
bytes after it (`Read.poll_append`). So what a coroutine does with a stream does not depend on how the
stream is cut, nor on when its pieces arrive.

A pipe is two coroutines, of which the second reads what the first one feeds it. `Pipe.run` says what a
pipe does in every run, whatever the order of its steps: it goes on until the stream is used up, and its
outputs are those of the two coroutines on the whole stream.
-/

namespace Concord.Base

universe u v w x

/-! ## Reads -/

/-- A read that a coroutine awaits. -/
inductive Read
  | exactly (n : Nat)
  | line
deriving DecidableEq, Repr

/-- `IncompleteReadError`, or the `ValueError` for a line that is too long. -/
inductive ReadError
  | incomplete | overrun
deriving DecidableEq, Repr

def newline : UInt8 := 10

/-- The limit of a `StreamReader` by default. -/
def streamLimit : Nat := 2 ^ 16

/-- What a read gives when `buf` has arrived, and what it leaves of that; `none` while it waits. A line
that is too long is left in the buffer: whoever has awaited it does not read on. -/
def Read.poll (buf : List UInt8) (eof : Bool) :
    Read → Option (Except ReadError (List UInt8) × List UInt8)
  | exactly n =>
    if n ≤ buf.length then some (.ok (buf.take n), buf.drop n)
    else if eof then some (.error .incomplete, [])
    else none
  | line =>
    match buf.findIdx? (· = newline) with
    | some i =>
      if i ≤ streamLimit then some (.ok (buf.take (i + 1)), buf.drop (i + 1))
      else some (.error .overrun, buf)
    | none =>
      if streamLimit < buf.length then some (.error .overrun, buf)
      else if eof then some (.ok buf, [])
      else none

variable {buf more rest : List UInt8} {eof : Bool}

theorem Read.poll_exactly {data : List UInt8} {n : Nat} (h : data.length = n) :
    (Read.exactly n).poll (data ++ rest) eof = some (.ok data, rest) := by
  subst h
  simp [poll]

theorem findIdx?_newline {line : List UInt8} (h : newline ∉ line) (rest : List UInt8) :
    (line ++ newline :: rest).findIdx? (· = newline) = some line.length := by
  rw [List.findIdx?_append, List.findIdx?_eq_none_iff.2 fun c hc => by
    simpa using fun heq : c = newline => h (heq ▸ hc)]
  simp [List.findIdx?_cons]

theorem Read.poll_line {line : List UInt8} (h : newline ∉ line) (hlen : line.length ≤ streamLimit) :
    Read.line.poll (line ++ newline :: rest) eof = some (.ok (line ++ [newline]), rest) := by
  rw [poll, findIdx?_newline h]
  dsimp only
  rw [if_pos hlen, List.take_append, List.drop_append, List.take_of_length_le (by omega),
    List.drop_eq_nil_of_le (by omega), Nat.add_sub_cancel_left]
  rfl

/-- A read that is satisfied does not depend on what comes after. -/
theorem Read.poll_append {r : Read} {res : Except ReadError (List UInt8)}
    (h : r.poll buf false = some (res, rest)) : r.poll (buf ++ more) eof = some (res, rest ++ more) := by
  cases r with
  | exactly n =>
    simp only [poll] at h ⊢
    split at h
    · next hn =>
      cases h
      rw [if_pos (by rw [List.length_append]; omega), List.take_append_of_le_length hn,
        List.drop_append_of_le_length hn]
    · cases h
  | line =>
    simp only [poll] at h ⊢
    cases hfind : buf.findIdx? (· = newline) with
    | some i =>
      have hi : i < buf.length := (List.findIdx?_eq_some_iff_getElem.1 hfind).1
      rw [hfind] at h
      rw [List.findIdx?_append, hfind, Option.some_or]
      dsimp only at h ⊢
      split at h
      · next hlimit =>
        cases h
        rw [if_pos hlimit, List.take_append_of_le_length hi, List.drop_append_of_le_length hi]
      · next hlimit =>
        cases h
        rw [if_neg hlimit]
    | none =>
      rw [hfind] at h
      dsimp only at h
      rw [List.findIdx?_append, hfind, Option.none_or]
      split at h
      · next hlimit =>
        cases h
        cases hmore : more.findIdx? (· = newline) with
        | some i =>
          rw [Option.map_some]
          dsimp only
          rw [if_neg (by omega)]
        | none =>
          rw [Option.map_none]
          dsimp only
          rw [if_pos (by rw [List.length_append]; omega)]
      · cases h

/-! ## Coroutines -/

/-- A coroutine with states `σ` that awaits one stream and emits `ω`. It has ended in a state in which it
awaits nothing. -/
structure Coroutine (σ : Type u) (ω : Type v) where
  awaits : σ → Option Read
  resume : σ → Except ReadError (List UInt8) → σ × List ω

namespace Coroutine

variable {σ : Type u} {ω : Type v} (c : Coroutine σ ω)

/-- The coroutine goes on, if what it awaits is there: its new state, what it leaves of the buffer, and
what it emits. -/
def advance (s : σ) (buf : List UInt8) (eof : Bool) : Option (σ × List UInt8 × List ω) :=
  (c.awaits s).bind fun r => (r.poll buf eof).map fun polled =>
    ((c.resume s polled.1).1, polled.2, (c.resume s polled.1).2)

/-- On a stream that has arrived as a whole, the coroutine emits `out` in `n` steps, and then ends or
waits for ever. -/
inductive Drains : σ → List UInt8 → List ω → Nat → Prop
  | stop {s : σ} {buf : List UInt8} (h : c.advance s buf true = none) : Drains s buf [] 0
  | step {s s' : σ} {buf rest : List UInt8} {out outs : List ω} {n : Nat}
    (h : c.advance s buf true = some (s', rest, out)) (hrest : Drains s' rest outs n) :
    Drains s buf (out ++ outs) (n + 1)

variable {c} {s s' : σ} {out outs : List ω} {n : Nat}

theorem advance_append (h : c.advance s buf false = some (s', rest, out)) :
    c.advance s (buf ++ more) eof = some (s', rest ++ more, out) := by
  unfold advance at h ⊢
  obtain ⟨r, hr, h⟩ := Option.bind_eq_some_iff.1 h
  obtain ⟨⟨res, left⟩, hpoll, h⟩ := Option.map_eq_some_iff.1 h
  obtain ⟨rfl, rfl, rfl⟩ : _ ∧ _ ∧ _ := by simpa using h
  rw [hr, Option.bind_some, Read.poll_append hpoll]
  rfl

/-- A step on the part of a stream that has arrived is the first step on the whole of it. -/
theorem Drains.advance (h : c.Drains s (buf ++ more) outs n)
    (hadvance : c.advance s buf eof = some (s', rest, out)) (heof : eof = true → more = []) :
    ∃ outs' n', outs = out ++ outs' ∧ n = n' + 1 ∧ c.Drains s' (rest ++ more) outs' n' := by
  have hwhole : c.advance s (buf ++ more) true = some (s', rest ++ more, out) := by
    cases eof with
    | false => exact advance_append hadvance
    | true =>
      rw [heof rfl, List.append_nil, List.append_nil]
      exact hadvance
  cases h with
  | stop hstop =>
    rw [hwhole] at hstop
    cases hstop
  | step hstep hrest =>
    rw [hwhole] at hstep
    cases hstep
    exact ⟨_, _, rfl, rfl, hrest⟩

/-- A coroutine that cannot go on has nothing more to emit. -/
theorem Drains.nil_of_stuck (h : c.Drains s buf outs n) (hstuck : c.advance s buf true = none) :
    outs = [] := by
  cases h with
  | stop _ => rfl
  | step hstep _ =>
    rw [hstuck] at hstep
    cases hstep

/-- A read that is satisfied. -/
theorem Drains.read {r : Read} {res : Except ReadError (List UInt8)} {all : List ω}
    (hawaits : c.awaits s = some r) (hpoll : r.poll buf true = some (res, rest))
    (hresume : c.resume s res = (s', out)) (hrest : c.Drains s' rest outs n)
    (hall : all = out ++ outs) : c.Drains s buf all (n + 1) := by
  rw [hall]
  refine .step ?_ hrest
  rw [Coroutine.advance, hawaits, Option.bind_some, hpoll, Option.map_some, hresume]

/-- A coroutine that has ended. -/
theorem Drains.ended (hawaits : c.awaits s = none) : c.Drains s buf [] 0 :=
  .stop (by rw [Coroutine.advance, hawaits]; rfl)

end Coroutine

/-! ## Pipes -/

/-- Two coroutines. What the first one emits feeds `bytes` to the stream of the second one, and ends that
stream if `ends` says so. -/
structure Pipe (σ : Type u) (ω : Type v) (τ : Type w) (ρ : Type x) where
  first : Coroutine σ ω
  second : Coroutine τ ρ
  bytes : ω → List UInt8
  ends : ω → Bool

namespace Pipe

variable {σ : Type u} {ω : Type v} {τ : Type w} {ρ : Type x}

/-- Where a pipe is: what has still to arrive of the stream of the first coroutine, what has arrived and
is not read yet, and what the coroutines have emitted. -/
structure State (σ : Type u) (ω : Type v) (τ : Type w) (ρ : Type x) where
  pending : List (List UInt8)
  buffer : List UInt8 := []
  closed : Bool := false
  first : σ
  emitted : List ω := []
  inbox : List UInt8 := []
  ended : Bool := false
  second : τ
  results : List ρ := []

inductive Label
  | arrive | hangUp | first | second
deriving DecidableEq, Repr

variable (p : Pipe σ ω τ ρ)

def step (st : State σ ω τ ρ) : Label → Option (State σ ω τ ρ)
  | .arrive =>
    match st.pending with
    | chunk :: pending => some { st with pending, buffer := st.buffer ++ chunk }
    | [] => none
  | .hangUp => if st.pending = [] ∧ st.closed = false then some { st with closed := true } else none
  | .first => (p.first.advance st.first st.buffer st.closed).map fun (first, buffer, out) =>
    { st with
      first, buffer
      emitted := st.emitted ++ out
      inbox := st.inbox ++ out.flatMap p.bytes
      ended := st.ended || out.any p.ends }
  | .second => (p.second.advance st.second st.inbox st.ended).map fun (second, inbox, out) =>
    { st with second, inbox, results := st.results ++ out }

/-- The pipe, with a stream that arrives in the chunks. -/
def system (s : σ) (t : τ) (chunks : List (List UInt8)) : System (State σ ω τ ρ) Label where
  init := { pending := chunks, first := s, second := t }
  step := p.step

/-- A pipe that is on its way to emit `outs` and `results`: what is still to be emitted, and in how many
steps. -/
structure Flows (outs : List ω) (results : List ρ) (st : State σ ω τ ρ) (o : List ω) (r : List ρ)
    (n m : Nat) : Prop where
  first : p.first.Drains st.first (st.buffer ++ st.pending.flatten) o n
  second : p.second.Drains st.second (st.inbox ++ o.flatMap p.bytes) r m
  emitted : st.emitted ++ o = outs
  results : st.results ++ r = results
  closed : st.closed = true → st.pending = []
  ended : st.ended = st.emitted.any p.ends

/-- The steps that are left. -/
def State.left (st : State σ ω τ ρ) (n m : Nat) : Nat :=
  st.pending.length + (if st.closed then 0 else 1) + n + m

variable {p} {outs : List ω} {results : List ρ} {st st' : State σ ω τ ρ} {o : List ω} {r : List ρ}
  {n m : Nat} {l : Label}

/-- A step of any of the two, or of the stream, brings the pipe one step further on its way. Nothing is
fed after the end of the stream. -/
theorem Flows.step (h : p.Flows outs results st o r n m)
    (hends : ∀ pre post, outs = pre ++ post → pre.any p.ends = true → post.flatMap p.bytes = [])
    (hstep : p.step st l = some st') :
    ∃ o' r' n' m', p.Flows outs results st' o' r' n' m' ∧ st'.left n' m' + 1 = st.left n m := by
  cases l with
  | arrive =>
    simp only [Pipe.step] at hstep
    cases hpending : st.pending with
    | nil =>
      rw [hpending] at hstep
      cases hstep
    | cons chunk pending =>
      rw [hpending] at hstep
      cases hstep
      refine ⟨o, r, n, m, ⟨?_, h.second, h.emitted, h.results, fun hclosed => ?_, h.ended⟩, ?_⟩
      · have hfirst := h.first
        rwa [hpending, List.flatten_cons, ← List.append_assoc] at hfirst
      · have hnil := h.closed hclosed
        rw [hpending] at hnil
        cases hnil
      · simp only [State.left, hpending, List.length_cons]
        omega
  | hangUp =>
    simp only [Pipe.step] at hstep
    split at hstep
    · next hopen =>
      cases hstep
      refine ⟨o, r, n, m, ⟨h.first, h.second, h.emitted, h.results, fun _ => hopen.1, h.ended⟩, ?_⟩
      simp only [State.left, hopen.2]
      simp
      omega
    · cases hstep
  | first =>
    obtain ⟨⟨first, buffer, out⟩, hadvance, rfl⟩ := Option.map_eq_some_iff.1 hstep
    obtain ⟨o', n', rfl, rfl, hfirst⟩ := h.first.advance hadvance fun hclosed => by
      rw [h.closed hclosed]
      rfl
    have hsecond := h.second
    have hemitted := h.emitted
    rw [List.flatMap_append, ← List.append_assoc] at hsecond
    rw [← List.append_assoc] at hemitted
    refine ⟨o', r, n', m, ⟨hfirst, hsecond, hemitted, h.results, h.closed, ?_⟩, ?_⟩
    · dsimp only
      rw [List.any_append, h.ended]
    · simp only [State.left]
      omega
  | second =>
    obtain ⟨⟨second, inbox, out⟩, hadvance, rfl⟩ := Option.map_eq_some_iff.1 hstep
    obtain ⟨r', m', rfl, rfl, hsecond⟩ := h.second.advance hadvance fun hended => by
      rw [h.ended] at hended
      exact hends _ _ h.emitted.symm hended
    have hresults := h.results
    rw [← List.append_assoc] at hresults
    refine ⟨o, r', n, m', ⟨h.first, hsecond, h.emitted, hresults, h.closed, h.ended⟩, ?_⟩
    simp only [State.left]
    omega

/-- A pipe that cannot go on has emitted everything. -/
theorem Flows.complete (h : p.Flows outs results st o r n m) (hend : outs.any p.ends = true)
    (hstuck : ∀ l, p.step st l = none) : st.emitted = outs ∧ st.results = results := by
  have hpending : st.pending = [] := by
    cases hpending : st.pending with
    | nil => rfl
    | cons chunk pending =>
      have harrive := hstuck .arrive
      simp only [Pipe.step, hpending] at harrive
      cases harrive
  have hclosed : st.closed = true := by
    have hhangUp := hstuck .hangUp
    simp only [Pipe.step, hpending, true_and] at hhangUp
    cases hclosed : st.closed with
    | true => rfl
    | false =>
      rw [hclosed] at hhangUp
      cases hhangUp
  have hfirst := Option.map_eq_none_iff.1 (hstuck .first)
  have hflow := h.first
  rw [hpending, List.flatten_nil, List.append_nil] at hflow
  rw [hclosed] at hfirst
  obtain rfl := hflow.nil_of_stuck hfirst
  have hemitted : st.emitted = outs := by
    rw [← h.emitted, List.append_nil]
  have hsecond := Option.map_eq_none_iff.1 (hstuck .second)
  have hflow := h.second
  rw [List.flatMap_nil, List.append_nil] at hflow
  rw [h.ended, hemitted, hend] at hsecond
  obtain rfl := hflow.nil_of_stuck hsecond
  exact ⟨hemitted, by rw [← h.results, List.append_nil]⟩

/-- What a pipe does in every run: it emits what the coroutines emit on the whole streams, in the same
order, and it comes to the end. -/
theorem run {s : σ} {t : τ} {chunks : List (List UInt8)} {pre : List ω} {last : ω}
    (hfirst : p.first.Drains s chunks.flatten (pre ++ [last]) n)
    (hsecond : p.second.Drains t ((pre ++ [last]).flatMap p.bytes) results m)
    (hpre : pre.any p.ends = false) (hlast : p.ends last = true) {ls : List Label}
    (hrun : (p.system s t chunks).replay System.anyStep (p.system s t chunks).init ls = some st) :
    st.emitted <+: pre ++ [last] ∧ st.results <+: results ∧
      ls.length ≤ chunks.length + 1 + n + m ∧
      ((∀ l, p.step st l = none) → st.emitted = pre ++ [last] ∧ st.results = results) := by
  have hends : ∀ l l', pre ++ [last] = l ++ l' → l.any p.ends = true → l'.flatMap p.bytes = [] := by
    intro l l' hsplit hl
    rcases List.eq_nil_or_concat l' with rfl | ⟨l', a, rfl⟩
    · rfl
    · rw [List.concat_eq_append, ← List.append_assoc] at hsplit
      have hpre' := (List.append_inj' hsplit rfl).1
      rw [hpre', List.any_append, hl] at hpre
      cases hpre
  have hflows : ∀ ls st₀ o r n m, p.Flows (pre ++ [last]) results st₀ o r n m →
      (p.system s t chunks).replay System.anyStep st₀ ls = some st →
      ∃ o' r' n' m', p.Flows (pre ++ [last]) results st o' r' n' m' ∧
        st.left n' m' + ls.length = st₀.left n m := by
    intro ls
    induction ls with
    | nil =>
      intro st₀ o r n m h hrun
      cases hrun
      exact ⟨o, r, n, m, h, rfl⟩
    | cons l ls ih =>
      intro st₀ o r n m h hrun
      rw [System.replay, if_pos (show System.anyStep st₀ l from trivial)] at hrun
      obtain ⟨st₁, hstep, hrun⟩ := Option.bind_eq_some_iff.1 hrun
      obtain ⟨o₁, r₁, n₁, m₁, h₁, hleft₁⟩ := h.step hends hstep
      obtain ⟨o', r', n', m', h', hleft'⟩ := ih st₁ o₁ r₁ n₁ m₁ h₁ hrun
      refine ⟨o', r', n', m', h', ?_⟩
      rw [List.length_cons]
      omega
  have hinit : p.Flows (pre ++ [last]) results (p.system s t chunks).init (pre ++ [last]) results n m :=
    ⟨hfirst, hsecond, rfl, rfl, fun h => Bool.noConfusion h, rfl⟩
  obtain ⟨o', r', n', m', h', hleft⟩ := hflows ls _ _ _ n m hinit hrun
  refine ⟨⟨o', h'.emitted⟩, ⟨r', h'.results⟩, ?_, h'.complete (by simp [hlast])⟩
  have hstart : (p.system s t chunks).init.left n m = chunks.length + 1 + n + m := rfl
  rw [hstart] at hleft
  omega

end Pipe

end Concord.Base
