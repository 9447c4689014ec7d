import Mathlib.Data.List.Forall2
import Mathlib.Order.Basic
import OtelDistro.Lib.Runs

/-!
# OtelDistro.InferredSpans.InterruptRequests — interrupts requested by the timer thread, answered by the PHP thread

The timer thread grants an interrupt when the sampling interval has passed since the last one; the PHP thread takes the
grant at its next opportunity and calls back with the tick of the grant.

* `InferredSpans`: the members of the class.  A block under `mutex_` is one step, a load outside of it another.
* `System`: the class, where the two threads stand in it, and what has been granted and answered.
* `Answered`: the callbacks and the grants correspond one to one, in order.
* `callbacks_answer_grants`: it holds along every run in which no grant is pending at a reset; `reset_answered_iff` says that
  the condition cannot be dropped.
-/

namespace OtelDistro.Interrupts

open Lib

/-! ## The class -/

/-- Ticks and intervals in ms. -/
structure InferredSpans where
  interruptedRequested : Bool := false
  samplingInterval : Int64 := 20
  lastInterruptRequestTick : Int64
  phpSideBacktracePending : Bool := false

/-- The timer thread: outside, with the flag found clear, or about to call `interrupt_`. -/
inductive Timer
  | outside
  | loaded (now : Int64)
  | granted
deriving DecidableEq

/-- A granted interrupt: the tick, and how many resets were before it. -/
structure Grant where
  tick : Int64
  resets : ℕ
deriving DecidableEq

/-- A callback: its arguments, how many resets were before it, and how many callbacks were running when it started. -/
structure Attach where
  requestInterruptTime : Int64
  now : Int64
  resets : ℕ
  running : ℕ
deriving DecidableEq

/-- `attaching`: the PHP thread has found no callback running and has not locked `mutex_` yet. -/
structure System where
  inferredSpans : InferredSpans
  timer : Timer := .outside
  attaching : Bool := false
  running : ℕ := 0
  resets : ℕ := 0
  granted : List Grant := []
  attached : List Attach := []

/-! ## The two threads -/

/-- The load of `interruptedRequested_`. -/
def System.tryRequestInterrupt (s : System) (now : Int64) : Option System :=
  if s.timer = .outside then some (if s.inferredSpans.interruptedRequested then s else { s with timer := .loaded now })
  else none

/-- The block of `tryRequestInterrupt`. -/
def System.request (s : System) : Option System :=
  match s.timer with
  | .loaded now =>
    some (if now > s.inferredSpans.lastInterruptRequestTick + s.inferredSpans.samplingInterval then
      { s with
        inferredSpans := { s.inferredSpans with lastInterruptRequestTick := now, interruptedRequested := true }
        timer := .granted
        granted := s.granted ++ [⟨now, s.resets⟩] }
    else { s with timer := .outside })
  | _ => none

def System.interrupt (s : System) : Option System :=
  if s.timer = .granted then some { s with timer := .outside } else none

/-- The load of `phpSideBacktracePending_`. -/
def System.attachBacktraceIfInterrupted (s : System) : Option System :=
  if s.attaching then none else some { s with attaching := !s.inferredSpans.phpSideBacktracePending }

/-- The block of `attachBacktraceIfInterrupted` and the call of the callback. -/
def System.attach (s : System) (now : Int64) : Option System :=
  if s.attaching then
    some (if s.inferredSpans.interruptedRequested then
      { s with
        inferredSpans := { s.inferredSpans with interruptedRequested := false, phpSideBacktracePending := true }
        attaching := false
        running := s.running + 1
        attached := s.attached ++ [⟨s.inferredSpans.lastInterruptRequestTick, now, s.resets, s.running⟩] }
    else { s with attaching := false })
  else none

/-- The callback ends: it returns, or it is left by a jump to an outer frame of the engine. -/
def System.callbackEnds (s : System) (returned : Bool) : Option System :=
  if !s.attaching && 0 < s.running then
    some { s with
      inferredSpans := { s.inferredSpans with
        phpSideBacktracePending := s.inferredSpans.phpSideBacktracePending && !returned }
      running := s.running - 1 }
  else none

def System.setInterval (s : System) (interval : Int64) : System :=
  { s with inferredSpans := { s.inferredSpans with samplingInterval := interval } }

def System.reset (s : System) (now : Int64) : System :=
  { s with inferredSpans := { s.inferredSpans with lastInterruptRequestTick := now }, resets := s.resets + 1 }

inductive Action
  | tryRequestInterrupt (now : Int64)
  | request
  | interrupt
  | attachBacktraceIfInterrupted
  | attach (now : Int64)
  | callbackEnds (returned : Bool)
  | setInterval (interval : Int64)
  | reset (now : Int64)

def step (s : System) : Action → Option System
  | .tryRequestInterrupt now => s.tryRequestInterrupt now
  | .request => s.request
  | .interrupt => s.interrupt
  | .attachBacktraceIfInterrupted => s.attachBacktraceIfInterrupted
  | .attach now => s.attach now
  | .callbackEnds returned => s.callbackEnds returned
  | .setInterval interval => some (s.setInterval interval)
  | .reset now => some (s.reset now)

/-! ## What is promised of the callbacks -/

/-- The callback answers the grant: it is given its tick, no reset lies between, and no other callback runs. -/
structure Answers (g : Grant) (a : Attach) : Prop where
  tick : a.requestInterruptTime = g.tick
  resets : a.resets = g.resets
  alone : a.running = 0

/-- Each callback answers a grant of its own, in the order of the grants. -/
def System.Answered (s : System) : Prop :=
  ∃ consumed pending, s.granted = consumed ++ pending ∧ List.Forall₂ Answers consumed s.attached

/-- No grant is pending at a reset. -/
def ResetOk (s : System) : Action → Prop
  | .reset _ => s.inferredSpans.interruptedRequested = false
  | _ => True

/-- The grant that is pending. -/
def System.pending (s : System) : List Grant :=
  if s.inferredSpans.interruptedRequested then [⟨s.inferredSpans.lastInterruptRequestTick, s.resets⟩] else []

structure Inv (s : System) : Prop where
  answered : ∃ consumed, s.granted = consumed ++ s.pending ∧ List.Forall₂ Answers consumed s.attached
  loaded : ∀ now, s.timer = .loaded now → s.inferredSpans.interruptedRequested = false
  attaching : s.attaching = true → s.inferredSpans.phpSideBacktracePending = false
  running : 0 < s.running → s.inferredSpans.phpSideBacktracePending = true
  single : s.running ≤ 1

section

variable {s s' : System}

theorem Inv.answered' (h : Inv s) : s.Answered := by
  obtain ⟨consumed, hg, ha⟩ := h.answered
  exact ⟨consumed, s.pending, hg, ha⟩

theorem inv_new (tick : Int64) : Inv { inferredSpans := { lastInterruptRequestTick := tick } } :=
  ⟨⟨[], rfl, .nil⟩, nofun, nofun, fun h => absurd h (by simp), Nat.zero_le 1⟩

theorem Inv.tryRequestInterrupt (h : Inv s) {now : Int64} (hs : s.tryRequestInterrupt now = some s') : Inv s' := by
  unfold System.tryRequestInterrupt at hs
  split at hs
  · rw [Option.some.injEq] at hs
    subst hs
    split
    · exact h
    · next hclear => exact ⟨h.answered, fun _ _ => by simpa using hclear, h.attaching, h.running, h.single⟩
  · cases hs

/-- The timer thread is the only one to set the flag, so the new grant is the only one pending. -/
theorem Inv.request (h : Inv s) (hs : s.request = some s') : Inv s' := by
  unfold System.request at hs
  split at hs
  · next now ht =>
    have hclear := h.loaded now ht
    obtain ⟨consumed, hg, ha⟩ := h.answered
    have hg : s.granted = consumed := by simpa [System.pending, hclear] using hg
    rw [Option.some.injEq] at hs
    subst hs
    split
    · exact ⟨⟨consumed, by simp [hg, System.pending], ha⟩, nofun, h.attaching, h.running, h.single⟩
    · exact ⟨⟨consumed, by simp [hg, System.pending, hclear], ha⟩, nofun, h.attaching, h.running, h.single⟩
  · cases hs

theorem Inv.interrupt (h : Inv s) (hs : s.interrupt = some s') : Inv s' := by
  unfold System.interrupt at hs
  split at hs
  · rw [Option.some.injEq] at hs
    subst hs
    exact ⟨h.answered, nofun, h.attaching, h.running, h.single⟩
  · cases hs

theorem Inv.attachBacktraceIfInterrupted (h : Inv s) (hs : s.attachBacktraceIfInterrupted = some s') : Inv s' := by
  unfold System.attachBacktraceIfInterrupted at hs
  split at hs
  · cases hs
  · rw [Option.some.injEq] at hs
    subst hs
    exact ⟨h.answered, h.loaded, fun hp => by simpa using hp, h.running, h.single⟩

/-- No callback runs between the load and the block: the nested call of a running callback has found the flag set. -/
theorem Inv.attach (h : Inv s) {now : Int64} (hs : s.attach now = some s') : Inv s' := by
  unfold System.attach at hs
  split at hs
  · next hattaching =>
    have hnone : s.running = 0 := by
      by_contra hne
      have hpending := h.running (Nat.pos_of_ne_zero hne)
      rw [h.attaching hattaching] at hpending
      cases hpending
    obtain ⟨consumed, hg, ha⟩ := h.answered
    rw [Option.some.injEq] at hs
    subst hs
    split
    · next hset =>
      rw [System.pending, if_pos hset] at hg
      refine ⟨⟨s.granted, by simp [System.pending], ?_⟩, fun _ _ => rfl, nofun, fun _ => rfl, by simp [hnone]⟩
      rw [hg]
      exact List.rel_append ha (.cons ⟨rfl, rfl, hnone⟩ .nil)
    · exact ⟨⟨consumed, hg, ha⟩, h.loaded, nofun, h.running, h.single⟩
  · cases hs

theorem Inv.callbackEnds (h : Inv s) {returned : Bool} (hs : s.callbackEnds returned = some s') : Inv s' := by
  unfold System.callbackEnds at hs
  split at hs
  · next hrun =>
    rw [Bool.and_eq_true, Bool.not_eq_true'] at hrun
    rw [Option.some.injEq] at hs
    subst hs
    have hsingle := h.single
    refine ⟨h.answered, h.loaded, fun ha => absurd (hrun.1.symm.trans ha) (by decide), fun hpos => ?_, ?_⟩
    · -- the callback was the only one
      have hpos : 0 < s.running - 1 := hpos
      omega
    · show s.running - 1 ≤ 1
      omega
  · cases hs

theorem Inv.setInterval (h : Inv s) (interval : Int64) : Inv (s.setInterval interval) :=
  ⟨h.answered, h.loaded, h.attaching, h.running, h.single⟩

theorem Inv.reset (h : Inv s) (now : Int64) (hok : s.inferredSpans.interruptedRequested = false) : Inv (s.reset now) := by
  obtain ⟨consumed, hg, ha⟩ := h.answered
  refine ⟨⟨consumed, ?_, ha⟩, h.loaded, h.attaching, h.running, h.single⟩
  show s.granted = _
  simpa [System.pending, System.reset, hok] using hg

theorem inv_step {a : Action} (h : Inv s) (hok : ResetOk s a) (hs : step s a = some s') : Inv s' := by
  cases a with
  | tryRequestInterrupt now => exact h.tryRequestInterrupt hs
  | request => exact h.request hs
  | interrupt => exact h.interrupt hs
  | attachBacktraceIfInterrupted => exact h.attachBacktraceIfInterrupted hs
  | attach now => exact h.attach hs
  | callbackEnds returned => exact h.callbackEnds hs
  | setInterval interval => exact Option.some.inj hs ▸ h.setInterval interval
  | reset now => exact Option.some.inj hs ▸ h.reset now hok

/-- The class when it has been constructed at `tick`, with no thread in it. -/
def System.new (tick : Int64) : System := { inferredSpans := { lastInterruptRequestTick := tick } }

theorem inv_path {tick : Int64} {as : List Action} (h : Path step ResetOk (System.new tick) as s) : Inv s :=
  h.invariant (fun _ _ _ hI hok hs => inv_step hI hok hs) (inv_new tick)

/-- **Callbacks answer grants**: in every run in which no grant is pending at a reset, each callback answers a grant of its
own, and it starts alone, since the last reset before it, with the tick of the grant. -/
theorem callbacks_answer_grants {tick : Int64} {as : List Action} (h : Path step ResetOk (System.new tick) as s) :
    s.Answered := (inv_path h).answered'

/-- A grant that is answered after a reset and was pending at it. -/
theorem not_answered_of_pending (h : Inv s) (hset : s.inferredSpans.interruptedRequested = true) {a : Attach}
    (ha : a.resets ≠ s.resets) : ¬∃ consumed pending, s.granted = consumed ++ pending ∧
      List.Forall₂ Answers consumed (s.attached ++ [a]) := by
  rintro ⟨consumed, pending, hg, hf⟩
  obtain ⟨consumed', hg', hf'⟩ := h.answered
  rw [System.pending, if_pos hset] at hg'
  have hlen : consumed.length = consumed'.length + 1 := by
    rw [hf.length_eq, List.length_append, hf'.length_eq]; rfl
  have heq : consumed = consumed' ++ [⟨s.inferredSpans.lastInterruptRequestTick, s.resets⟩] :=
    (List.append_inj (hg.symm.trans (hg'.trans (List.append_nil _).symm)) (by simpa using hlen)).1
  rw [heq, ← List.forall₂_reverse_iff, List.reverse_concat, List.reverse_concat] at hf
  cases hf with
  | cons hlast _ => exact ha hlast.resets

/-- **The condition is exact**: from a state of such a run where the PHP thread may call back, a reset and the next
opportunity keep the promise if and only if no grant was pending. -/
theorem reset_answered_iff {tick reset now : Int64} {as : List Action} (h : Path step ResetOk (System.new tick) as s)
    (hfree : s.attaching = false) (hnone : s.inferredSpans.phpSideBacktracePending = false) :
    (∃ t, run step s [.reset reset, .attachBacktraceIfInterrupted, .attach now] = some t ∧ t.Answered) ↔
      s.inferredSpans.interruptedRequested = false := by
  have hI := inv_path h
  constructor
  · rintro ⟨t, hrun, ht⟩
    by_contra hset
    rw [Bool.not_eq_false] at hset
    simp only [run_cons, run_nil, step, System.attachBacktraceIfInterrupted, System.reset, hfree, hnone, System.attach,
      hset, Bool.false_eq_true, if_false, if_true, Bool.not_false, Option.bind_some, Option.some.injEq] at hrun
    subst hrun
    exact not_answered_of_pending hI hset (a := ⟨reset, now, s.resets + 1, s.running⟩) (by simp) ht
  · intro hclear
    have hload : (s.reset reset).attachBacktraceIfInterrupted = some { s.reset reset with attaching := true } := by
      simp [System.attachBacktraceIfInterrupted, System.reset, hfree, hnone]
    have hblock : ({ s.reset reset with attaching := true } : System).attach now =
        some { s.reset reset with attaching := false } := by
      simp [System.attach, System.reset, hclear]
    refine ⟨{ s.reset reset with attaching := false }, ?_, ?_⟩
    · show ((s.reset reset).attachBacktraceIfInterrupted).bind _ = _
      rw [hload, Option.bind_some, run_cons, step, hblock]
      rfl
    · exact (((hI.reset reset hclear).attachBacktraceIfInterrupted hload).attach hblock).answered'

end

/-- A grant of the first request is answered in the second, with the tick of the reset. -/
theorem grant_outlives_request :
    ¬∀ (tick : Int64) (as : List Action) (s : System), run step (System.new tick) as = some s → s.Answered := by
  intro h
  obtain ⟨s, hrun, hgranted, hattached⟩ : ∃ s, run step (System.new 0) [.reset 0, .tryRequestInterrupt 100, .request,
      .interrupt, .reset 200, .attachBacktraceIfInterrupted, .attach 205] = some s ∧
      s.granted = [⟨100, 1⟩] ∧ s.attached = [⟨200, 205, 2, 0⟩] := ⟨_, rfl, rfl, rfl⟩
  obtain ⟨consumed, pending, hg, hf⟩ := h 0 _ s hrun
  rw [hattached] at hf
  cases hf with
  | cons hanswers hrest =>
    cases hrest
    rw [hgranted, List.singleton_append, List.cons.injEq] at hg
    have htick := hanswers.tick
    rw [← hg.1] at htick
    exact absurd htick (by decide)

/-- Two requests; the grant of the first is answered in it. -/
theorem callbacks_answer_grants_two_requests :
    ∃ s as, Path step ResetOk (System.new 0) as s ∧ s.granted = [⟨100, 1⟩] ∧ s.attached = [⟨100, 105, 1, 0⟩] ∧
      s.resets = 2 ∧ s.Answered := by
  obtain ⟨s, h, hgranted, hattached, hresets⟩ : ∃ s, Path step ResetOk (System.new 0) [.reset 0,
      .tryRequestInterrupt 100, .request, .interrupt, .attachBacktraceIfInterrupted, .attach 105, .callbackEnds true,
      .reset 200] s ∧ s.granted = [⟨100, 1⟩] ∧ s.attached = [⟨100, 105, 1, 0⟩] ∧ s.resets = 2 :=
    ⟨_, .cons rfl rfl (.cons trivial rfl (.cons trivial rfl (.cons trivial rfl (.cons trivial rfl (.cons trivial rfl
      (.cons trivial rfl (.cons rfl rfl (.nil _)))))))), rfl, rfl, rfl⟩
  exact ⟨s, _, h, hgranted, hattached, hresets, callbacks_answer_grants h⟩

end OtelDistro.Interrupts
