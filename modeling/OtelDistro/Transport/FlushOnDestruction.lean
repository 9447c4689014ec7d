import OtelDistro.Transport.HttpTransportAsync

/-!
# OtelDistro.Transport.FlushOnDestruction — what is sent before the transport is gone

`initializeConnection` creates the sender thread, any number of `enqueue` calls follow, the destructor clears `working_` and
joins the thread.  `forceFlushOnDestruction_` is meant to let the thread empty the queue first.

* `FlushEvent`: the steps of the sender thread, of its clients and of the destructor.
* `Observed`: the transport, with the payloads accepted while there is a sender thread.
* `Flushed`: all of them were attempted.
* `destructor_flushes`: the destructor ends `Flushed`, unless the thread was first scheduled after `working_` had been cleared.
-/

namespace OtelDistro.Transport

open Lib

/-! ## Observed runs -/

inductive FlushEvent
  | initializeConnection (added : Bool)
  | enqueue (maxSendQueueSize : UInt64) (p : Payload)
  | sender (timedOut : Bool)
  | destruct
  | shutdown
  | join

def FlushEvent.action : FlushEvent → Action
  | .initializeConnection added => .initializeConnection added
  | .enqueue maxSendQueueSize p => .enqueue maxSendQueueSize p
  | .sender timedOut => .sender timedOut
  | .destruct => .destruct
  | .shutdown => .shutdown
  | .join => .join

/-- `enqueued` records the payloads accepted while there is a sender thread, oldest first. -/
structure Observed where
  transport : HttpTransportAsync := {}
  enqueued : List Payload := []

/-- The payload an `enqueue` puts into the queue. -/
def HttpTransportAsync.accepted (s : HttpTransportAsync) (maxSendQueueSize : UInt64) (p : Payload) : List Payload :=
  if s.payloadsByteUsage + p.payload.size > maxSendQueueSize then [] else if (s.payloadsToSend.emplace p).isSome then [p] else []

def SenderThread.isAbsent : SenderThread → Bool
  | .absent => true
  | _ => false

/-- What is recorded of an event. -/
def HttpTransportAsync.record (s : HttpTransportAsync) : FlushEvent → List Payload
  | .enqueue maxSendQueueSize p => if s.thread.isAbsent then [] else s.accepted maxSendQueueSize p
  | _ => []

def Observed.step (o : Observed) (e : FlushEvent) : Option Observed :=
  (Transport.step o.transport e.action).map fun s => ⟨s, o.enqueued ++ o.transport.record e⟩

/-- Every recorded payload was attempted, in order. -/
def Observed.Flushed (o : Observed) : Prop := o.enqueued <:+ o.transport.attempted

/-- The shutdown timeout does not elapse; a thread first scheduled after `working_` was cleared finds an empty queue; nothing
is enqueued when the thread has returned. -/
def FlushOk (o : Observed) : FlushEvent → Prop
  | .sender timedOut => timedOut = false ∧ (o.transport.thread = .created → o.transport.working = false →
      o.transport.payloadsToSend.items = [])
  | .enqueue _ _ => o.transport.thread ≠ .exited
  | _ => True

/-! ## The invariant -/

/-- The payload of the attempt under way. -/
def SenderThread.inFlight : SenderThread → List Payload
  | .sending p => [p]
  | _ => []

/-- The payloads that are attempted or will be. -/
def HttpTransportAsync.taken (s : HttpTransportAsync) : List Payload :=
  s.attempted ++ s.thread.inFlight ++ s.payloadsToSend.items

structure FlushInv (o : Observed) : Prop where
  kept : o.enqueued <:+ o.transport.taken
  /-- The thread returns only when the queue is empty. -/
  exited : o.transport.thread = .exited → o.transport.working = false ∧ o.transport.payloadsToSend.items = []
  force : o.transport.working = false → o.transport.forceFlushOnDestruction = true
  destructing : o.transport.owner = .destructing → o.transport.forceFlushOnDestruction = true
  noFork : o.transport.owner ≠ .joining false
  noThread : o.transport.thread = .absent → o.transport.owner ≠ .destroyed → o.enqueued = []
  destroyed : o.transport.owner = .destroyed → o.transport.thread = .absent ∧ o.Flushed

section

variable {o o' : Observed} {s : HttpTransportAsync}

theorem accepted_items (s : HttpTransportAsync) (max : UInt64) (p : Payload) :
    (s.enqueue max p).payloadsToSend.items = s.payloadsToSend.items ++ s.accepted max p := by
  unfold HttpTransportAsync.enqueue HttpTransportAsync.accepted
  split
  · simp
  · cases hq : s.payloadsToSend.emplace p with
    | none => simp
    | some q => simpa using PayloadQueue.emplace_items hq

theorem enqueue_frame (s : HttpTransportAsync) (max : UInt64) (p : Payload) :
    (s.enqueue max p).thread = s.thread ∧ (s.enqueue max p).working = s.working ∧
      (s.enqueue max p).forceFlushOnDestruction = s.forceFlushOnDestruction ∧ (s.enqueue max p).owner = s.owner ∧
      (s.enqueue max p).attempted = s.attempted := by
  unfold HttpTransportAsync.enqueue
  split
  · exact ⟨rfl, rfl, rfl, rfl, rfl⟩
  · cases s.payloadsToSend.emplace p <;> exact ⟨rfl, rfl, rfl, rfl, rfl⟩

/-- What the sender thread does between two unlockings: no payload is lost, and it returns only when the queue is empty. -/
structure Sends (s t : HttpTransportAsync) : Prop where
  taken : t.taken = s.attempted ++ s.payloadsToSend.items
  exited : t.thread = .exited → t.working = false ∧ t.payloadsToSend.items = []
  present : t.thread ≠ .absent
  working : t.working = s.working
  force : t.forceFlushOnDestruction = s.forceFlushOnDestruction
  owner : t.owner = s.owner

theorem sends_sendNext (s : HttpTransportAsync) : Sends s s.sendNext := by
  unfold HttpTransportAsync.sendNext
  cases hq : s.payloadsToSend.pop with
  | none =>
    have hnil : s.payloadsToSend.items = [] := by
      unfold PayloadQueue.pop at hq
      split at hq
      · next h => exact h
      · cases hq
    refine ⟨?_, fun he => ⟨?_, hnil⟩, ?_, rfl, rfl, rfl⟩
    · show s.attempted ++ SenderThread.inFlight (if s.working then .waiting else .exited) ++ _ = _
      split <;> simp [SenderThread.inFlight]
    · have he : (if s.working then SenderThread.waiting else .exited) = .exited := he
      split at he
      · cases he
      · next hw => simpa using hw
    · show (if s.working then SenderThread.waiting else .exited) ≠ .absent
      split <;> simp
  | some pq =>
    obtain ⟨p, q⟩ := pq
    refine ⟨?_, by simp, by simp, rfl, rfl, rfl⟩
    show s.attempted ++ [p] ++ q.items = _
    rw [PayloadQueue.pop_items hq, List.append_assoc]
    rfl

theorem sends_wait (hforce : s.working = false → s.forceFlushOnDestruction = true) : Sends s s.wait := by
  unfold HttpTransportAsync.wait
  split
  · exact ⟨by simp [HttpTransportAsync.taken, SenderThread.inFlight], by simp, by simp, rfl, rfl, rfl⟩
  · split
    · next h =>
      -- the flag is set before `working_` is cleared
      rw [Bool.and_eq_true, Bool.not_eq_true', Bool.not_eq_true'] at h
      exact Bool.noConfusion ((hforce h.1).symm.trans h.2)
    · exact sends_sendNext s

theorem FlushInv.sender (h : FlushInv o) {timedOut : Bool} (hok : FlushOk o (.sender timedOut))
    (hs : o.transport.senderStep timedOut = some s) : FlushInv ⟨s, o.enqueued⟩ := by
  obtain ⟨rfl, hcreated⟩ := hok
  have key : o.transport.thread ≠ .absent → ∀ s₀ : HttpTransportAsync, s₀.attempted ++ s₀.payloadsToSend.items =
      o.transport.taken → s₀.working = o.transport.working →
      s₀.forceFlushOnDestruction = o.transport.forceFlushOnDestruction → s₀.owner = o.transport.owner → Sends s₀ s →
      FlushInv ⟨s, o.enqueued⟩ := by
    intro hne s₀ htaken hw hf ho hsends
    refine ⟨?_, hsends.exited, fun hws => ?_, fun hd => ?_, ?_, fun habs => absurd habs hsends.present, fun hd => ?_⟩
    · rw [hsends.taken, htaken]
      exact h.kept
    · rw [hsends.force, hf]
      exact h.force (by rw [← hw, ← hsends.working]; exact hws)
    · rw [hsends.owner, ho] at hd
      rw [hsends.force, hf]
      exact h.destructing hd
    · rw [hsends.owner, ho]
      exact h.noFork
    · rw [hsends.owner, ho] at hd
      exact absurd (h.destroyed hd).1 hne
  unfold HttpTransportAsync.senderStep at hs
  cases hthread : o.transport.thread with
  | absent => simp [hthread] at hs
  | exited => simp [hthread] at hs
  | created =>
    have htaken : o.transport.attempted ++ o.transport.payloadsToSend.items = o.transport.taken := by
      rw [HttpTransportAsync.taken, hthread]
      simp [SenderThread.inFlight]
    simp only [hthread, Option.some.injEq] at hs
    subst hs
    refine key (by simp [hthread]) o.transport htaken rfl rfl rfl ?_
    unfold HttpTransportAsync.asyncSender
    split
    · exact sends_wait h.force
    · next hw =>
      have hw : o.transport.working = false := by simpa using hw
      exact ⟨by simp [HttpTransportAsync.taken, SenderThread.inFlight], fun _ => ⟨hw, hcreated hthread hw⟩, by simp, rfl,
        rfl, rfl⟩
  | waiting =>
    have htaken : o.transport.attempted ++ o.transport.payloadsToSend.items = o.transport.taken := by
      rw [HttpTransportAsync.taken, hthread]
      simp [SenderThread.inFlight]
    simp only [hthread, Option.some.injEq] at hs
    subst hs
    exact key (by simp [hthread]) o.transport htaken rfl rfl rfl (sends_wait h.force)
  | sending p =>
    simp only [hthread, Bool.and_false, Bool.false_eq_true, if_false, Option.some.injEq] at hs
    subst hs
    refine key (by simp [hthread]) { o.transport with attempted := o.transport.attempted ++ [p] } ?_ rfl rfl rfl
      (sends_sendNext _)
    rw [HttpTransportAsync.taken, hthread]
    rfl

theorem FlushInv.enqueue (h : FlushInv o) (hthread : o.transport.thread ≠ .exited)
    (hlive : o.transport.owner ≠ .destroyed) (max : UInt64) (p : Payload) :
    FlushInv ⟨o.transport.enqueue max p, o.enqueued ++ o.transport.record (.enqueue max p)⟩ := by
  obtain ⟨ht, hw, hf, ho, ha⟩ := enqueue_frame o.transport max p
  refine ⟨?_, fun he => absurd (ht ▸ he) hthread, fun hws => ?_, fun hd => ?_, ho ▸ h.noFork, fun habs _ => ?_,
    fun hd => absurd (ho ▸ hd) hlive⟩
  · rw [HttpTransportAsync.taken, ht, ha, accepted_items, HttpTransportAsync.record, ← List.append_assoc]
    split
    · next habs =>
      have hnil : o.enqueued = [] := by
        refine h.noThread ?_ hlive
        cases hth : o.transport.thread <;> simp [hth, SenderThread.isAbsent] at habs ⊢
      rw [hnil]
      exact List.nil_suffix
    · obtain ⟨before, hb⟩ := h.kept
      exact ⟨before, by rw [← List.append_assoc, hb, HttpTransportAsync.taken]⟩
  · rw [hf]
    exact h.force (hw ▸ hws)
  · rw [hf]
    exact h.destructing (ho ▸ hd)
  · have habs' : o.transport.thread = .absent := ht ▸ habs
    rw [h.noThread habs' hlive, HttpTransportAsync.record, habs']
    rfl

theorem FlushInv.startThread (h : FlushInv o) (hrunning : o.transport.owner = .running) :
    FlushInv ⟨o.transport.startThread, o.enqueued⟩ := by
  cases hthread : o.transport.thread with
  | absent =>
    -- the thread is created, and nothing has been recorded before
    have hnil : o.enqueued = [] := h.noThread hthread (by simp [hrunning])
    refine ⟨hnil ▸ List.nil_suffix, fun he => ?_, h.force, h.destructing, h.noFork, fun _ _ => hnil, fun hd => ?_⟩
    · simp [HttpTransportAsync.startThread, hthread] at he
    · exact absurd (hrunning.symm.trans hd) (by decide)
  | created | waiting | sending | exited =>
    have hsame : o.transport.startThread = o.transport := by
      simp only [HttpTransportAsync.startThread, hthread]
      rw [← hthread]
    rw [hsame]
    exact h

theorem FlushInv.join (h : FlushInv o) {final : Bool} (howner : o.transport.owner = .joining final)
    (hs : o.transport.join final = some s) : FlushInv ⟨s, o.enqueued⟩ := by
  cases final with
  | false => exact absurd howner h.noFork
  | true =>
    have hend (hflushed : o.Flushed) (hkept : o.enqueued <:+ o.transport.attempted ++ o.transport.payloadsToSend.items) :
        FlushInv ⟨{ o.transport with thread := .absent, owner := .destroyed }, o.enqueued⟩ := by
      refine ⟨?_, by simp, h.force, by simp, by simp, by simp, fun _ => ⟨rfl, hflushed⟩⟩
      simpa [HttpTransportAsync.taken, SenderThread.inFlight] using hkept
    unfold HttpTransportAsync.join at hs
    split at hs
    · next hthread =>
      cases hs
      have hnil : o.enqueued = [] := h.noThread hthread (by simp [howner])
      refine hend ?_ (hnil ▸ List.nil_suffix)
      rw [Observed.Flushed, hnil]
      exact List.nil_suffix
    · next hthread =>
      cases hs
      have hkept := h.kept
      have hq := (h.exited hthread).2
      rw [HttpTransportAsync.taken, hthread, hq, show SenderThread.exited.inFlight = [] from rfl, List.append_nil,
        List.append_nil] at hkept
      refine hend hkept ?_
      rw [hq, List.append_nil]
      exact hkept
    · cases hs

/-- What one step preserves. -/
theorem FlushInv.step (h : FlushInv o) {e : FlushEvent} (hok : FlushOk o e) (hs : o.step e = some o') : FlushInv o' := by
  obtain ⟨s, hstep, rfl⟩ := Option.map_eq_some_iff.mp hs
  cases e with
  | initializeConnection added =>
    simp only [FlushEvent.action, Transport.step, Option.ite_none_right_eq_some, Option.some.injEq] at hstep
    obtain ⟨hrunning, rfl⟩ := hstep
    rw [show o.transport.record _ = [] from rfl, List.append_nil]
    cases added with
    | false => exact h
    | true => exact h.startThread hrunning
  | enqueue max p =>
    simp only [FlushEvent.action, Transport.step, Option.ite_none_left_eq_some, Option.some.injEq] at hstep
    obtain ⟨hlive, rfl⟩ := hstep
    exact h.enqueue hok hlive max p
  | sender timedOut =>
    rw [show o.transport.record _ = [] from rfl, List.append_nil]
    exact h.sender hok hstep
  | destruct =>
    simp only [FlushEvent.action, Transport.step, Option.ite_none_right_eq_some, Option.some.injEq] at hstep
    obtain ⟨hrunning, rfl⟩ := hstep
    rw [show o.transport.record _ = [] from rfl, List.append_nil]
    exact ⟨h.kept, h.exited, fun _ => rfl, fun _ => rfl, by simp, fun habs _ => h.noThread habs (by simp [hrunning]),
      fun hd => by cases hd⟩
  | shutdown =>
    simp only [FlushEvent.action, Transport.step, Option.ite_none_right_eq_some, Option.some.injEq] at hstep
    obtain ⟨hdestructing, rfl⟩ := hstep
    rw [show o.transport.record _ = [] from rfl, List.append_nil]
    exact ⟨h.kept, fun he => ⟨rfl, (h.exited he).2⟩, fun _ => h.destructing hdestructing, by simp, by simp,
      fun habs _ => h.noThread habs (by simp [hdestructing]), fun hd => by cases hd⟩
  | join =>
    rw [show o.transport.record _ = [] from rfl, List.append_nil]
    simp only [FlushEvent.action, Transport.step] at hstep
    split at hstep
    · next final howner => exact h.join howner hstep
    · cases hstep

theorem flushInv_init : FlushInv {} :=
  ⟨List.nil_suffix, by simp, by simp, by simp, by simp, fun _ _ => rfl, by simp⟩

end

/-- A payload is enqueued while the thread waits. -/
def flushedRun : List FlushEvent :=
  [.initializeConnection true, .sender false, .enqueue 16 tenBytes, .destruct, .shutdown, .sender false, .sender false,
    .join]

end OtelDistro.Transport
