import OtelDistro.Bytes
import OtelDistro.Lib.Runs
import Mathlib.Algebra.BigOperators.Group.List.Basic

/-!
# OtelDistro.Transport.HttpTransportAsync — the payload queue, its byte counter and the sender thread

One step is what happens while the mutex is held once: an `enqueue`, the stretch of the sender thread from one
unlocking to the next, the two halves of `shutdownThread` (clearing `working_`, joining), `prefork`, `postfork`.

* `PayloadQueue`: the queued payloads; all of them are in memory, so their bytes number less than `2^63`.
* `HttpTransportAsync.senderStep`: the sender thread, by where it stands (not yet scheduled, in the wait, in an attempt).
* `step`: one action; after a fork a run goes on in the parent or in the child (`postfork child`).

The byte counter is kept beside the queue.  `byteUsage_accounted`: it is the number of queued bytes in every run in
which no child drops queued bytes in `postfork`; `childFork_leaks_usage`: such a child starts with an empty queue and
a counter that is not zero.
-/

namespace OtelDistro.Transport

open OtelDistro.Lib

/-! ## State -/

/-- An element of `payloadsToSend_`; `callback` says whether there is a response callback. -/
structure Payload where
  endpointHash : UInt64
  payload : ByteVec
  callback : Bool := false

def totalBytes (l : List Payload) : ℕ := (l.map fun p => p.payload.bytes.length).sum

@[simp] theorem totalBytes_nil : totalBytes [] = 0 := rfl

@[simp] theorem totalBytes_cons (p : Payload) (l : List Payload) :
    totalBytes (p :: l) = p.payload.bytes.length + totalBytes l := rfl

theorem totalBytes_snoc (l : List Payload) (p : Payload) :
    totalBytes (l ++ [p]) = totalBytes l + p.payload.bytes.length := by
  simp [totalBytes]

/-- The payloads in memory. -/
structure PayloadQueue where
  items : List Payload := []
  fits : totalBytes items < 2 ^ 63 := by decide

namespace PayloadQueue

def total (q : PayloadQueue) : ℕ := totalBytes q.items

/-- `emplace` of a copy of the payload; `none` when there is no memory for it. -/
def emplace (q : PayloadQueue) (p : Payload) : Option PayloadQueue :=
  if h : totalBytes (q.items ++ [p]) < 2 ^ 63 then some ⟨q.items ++ [p], h⟩ else none

/-- `front` and `pop`. -/
def pop (q : PayloadQueue) : Option (Payload × PayloadQueue) :=
  match h : q.items with
  | [] => none
  | p :: rest => some (p, ⟨rest, by
      have := q.fits
      rw [h, totalBytes_cons] at this
      omega⟩)

variable {q q' : PayloadQueue} {p : Payload}

theorem emplace_items (h : q.emplace p = some q') : q'.items = q.items ++ [p] := by
  unfold emplace at h
  split at h
  · cases h
    rfl
  · cases h

theorem pop_items (h : q.pop = some (p, q')) : q.items = p :: q'.items := by
  unfold pop at h
  split at h
  · cases h
  · rename_i hq
    cases h
    exact hq

theorem emplace_of_nil (h : q.items = []) : ∃ q', q.emplace p = some q' ∧ q'.items = [p] := by
  have hfits : totalBytes (q.items ++ [p]) < 2 ^ 63 := by
    rw [h, List.nil_append, totalBytes_cons, totalBytes_nil]
    exact p.payload.fits
  refine ⟨⟨q.items ++ [p], hfits⟩, dif_pos hfits, ?_⟩
  simp [h]

end PayloadQueue

/-- Where the sender thread stands: no thread, created but not yet scheduled, blocked in the wait, in an attempt to
send, returned from `asyncSender` and not yet joined. -/
inductive SenderThread
  | absent
  | created
  | waiting
  | sending (p : Payload)
  | exited

/-- Where the owner of the transport stands. -/
inductive Owner
  | running
  /-- In the `join` of `shutdownThread`, called by `prefork` or by the destructor. -/
  | joining (final : Bool)
  /-- Between `prefork` and `postfork`. -/
  | forking
  /-- In the destructor, before `shutdownThread`. -/
  | destructing
  | destroyed
deriving DecidableEq

/-- `attempted` records the payloads whose attempt to send has ended. -/
structure HttpTransportAsync where
  payloadsToSend : PayloadQueue := {}
  payloadsByteUsage : UInt64 := 0
  thread : SenderThread := .absent
  working : Bool := true
  forceFlushOnDestruction : Bool := false
  owner : Owner := .running
  attempted : List Payload := []

namespace HttpTransportAsync

/-! ## Operations -/

/-- `maxSendQueueSize` is the configuration option at the time of the call. -/
def enqueue (s : HttpTransportAsync) (maxSendQueueSize : UInt64) (p : Payload) : HttpTransportAsync :=
  if s.payloadsByteUsage + p.payload.size > maxSendQueueSize then s
  else match s.payloadsToSend.emplace p with
    | none => s
    | some q => { s with payloadsToSend := q, payloadsByteUsage := s.payloadsByteUsage + p.payload.size }

def startThread (s : HttpTransportAsync) : HttpTransportAsync :=
  { s with thread := match s.thread with
    | .absent => .created
    | t => t }

/-- The head of the loop of `send`: take the next payload and unlock, or return to the loop of `asyncSender`, which
waits or ends. -/
def sendNext (s : HttpTransportAsync) : HttpTransportAsync :=
  match s.payloadsToSend.pop with
  | none => { s with thread := if s.working then .waiting else .exited }
  | some (p, q) =>
    { s with payloadsToSend := q, payloadsByteUsage := s.payloadsByteUsage - p.payload.size, thread := .sending p }

/-- The wait of `asyncSender` and what follows it. -/
def wait (s : HttpTransportAsync) : HttpTransportAsync :=
  if s.payloadsToSend.items.isEmpty && s.working then { s with thread := .waiting }
  else if !s.working && !s.forceFlushOnDestruction then { s with thread := .exited }
  else s.sendNext

/-- The loop head of `asyncSender`. -/
def asyncSender (s : HttpTransportAsync) : HttpTransportAsync := if s.working then s.wait else { s with thread := .exited }

/-- The sender thread runs until it unlocks the mutex; `timedOut`: the shutdown timeout is set and has elapsed. -/
def senderStep (s : HttpTransportAsync) (timedOut : Bool) : Option HttpTransportAsync :=
  match s.thread with
  | .absent | .exited => none
  | .created => some s.asyncSender
  | .waiting => some s.wait
  | .sending p =>
    let s := { s with attempted := s.attempted ++ [p] }
    if s.forceFlushOnDestruction && !s.payloadsToSend.items.isEmpty && timedOut then some s.asyncSender
    else some s.sendNext

/-- The end of `shutdownThread`: the thread is joined and reset. -/
def join (s : HttpTransportAsync) (final : Bool) : Option HttpTransportAsync :=
  match s.thread with
  | .absent | .exited => some { s with thread := .absent, owner := if final then .destroyed else .forking }
  | _ => none

/-- A child drops the queue, which the parent sends. -/
def postfork (s : HttpTransportAsync) (child : Bool) : HttpTransportAsync :=
  startThread { s with payloadsToSend := if child then {} else s.payloadsToSend, working := true, owner := .running }

end HttpTransportAsync

/-! ## Runs -/

/-- `prefork` and the destructor end with `join`. -/
inductive Action
  | initializeConnection (added : Bool)
  | enqueue (maxSendQueueSize : UInt64) (p : Payload)
  | sender (timedOut : Bool)
  | prefork
  | destruct
  | shutdown
  | join
  | postfork (child : Bool)

def step (s : HttpTransportAsync) : Action → Option HttpTransportAsync
  | .initializeConnection added =>
    if s.owner = .running then some (if added then s.startThread else s) else none
  | .enqueue maxSendQueueSize p => if s.owner = .destroyed then none else some (s.enqueue maxSendQueueSize p)
  | .sender timedOut => s.senderStep timedOut
  | .prefork => if s.owner = .running then some { s with working := false, owner := .joining false } else none
  | .destruct =>
    if s.owner = .running then some { s with forceFlushOnDestruction := true, owner := .destructing } else none
  | .shutdown => if s.owner = .destructing then some { s with working := false, owner := .joining true } else none
  | .join => match s.owner with
    | .joining final => s.join final
    | _ => none
  | .postfork child => if s.owner = .running ∨ s.owner = .forking then some (s.postfork child) else none

/-! ## The byte counter -/

/-- No child drops queued bytes. -/
def ForkOk (s : HttpTransportAsync) : Action → Prop
  | .postfork true => s.payloadsToSend.total = 0
  | _ => True

/-- The counter is the number of queued bytes. -/
def UsageExact (s : HttpTransportAsync) : Prop := s.payloadsByteUsage.toNat = s.payloadsToSend.total

section Usage

variable {s t : HttpTransportAsync}

/-- Steps that touch neither the queue nor the counter. -/
theorem UsageExact.congr (h : UsageExact s) (hq : t.payloadsToSend = s.payloadsToSend)
    (hu : t.payloadsByteUsage = s.payloadsByteUsage) : UsageExact t := by
  rw [UsageExact, hq, hu]
  exact h

theorem UsageExact.enqueue (h : UsageExact s) (max : UInt64) (p : Payload) : UsageExact (s.enqueue max p) := by
  unfold HttpTransportAsync.enqueue
  by_cases hmax : s.payloadsByteUsage + p.payload.size > max
  · rw [if_pos hmax]
    exact h
  · rw [if_neg hmax]
    cases hq : s.payloadsToSend.emplace p with
    | none => exact h
    | some q =>
      have hitems := PayloadQueue.emplace_items hq
      have hfits := q.fits
      have hold : s.payloadsByteUsage.toNat = totalBytes s.payloadsToSend.items := h
      rw [hitems, totalBytes_snoc] at hfits
      show (s.payloadsByteUsage + p.payload.size).toNat = totalBytes q.items
      rw [hitems, totalBytes_snoc, UInt64.toNat_add, hold, ByteVec.size_toNat]
      omega

/-- The subtraction in `send` does not wrap. -/
theorem UsageExact.size_le (h : UsageExact s) {p : Payload} {q : PayloadQueue}
    (hq : s.payloadsToSend.pop = some (p, q)) : p.payload.size ≤ s.payloadsByteUsage := by
  have hold : s.payloadsByteUsage.toNat = totalBytes s.payloadsToSend.items := h
  rw [PayloadQueue.pop_items hq, totalBytes_cons] at hold
  rw [UInt64.le_iff_toNat_le, hold, ByteVec.size_toNat]
  omega

theorem UsageExact.sendNext (h : UsageExact s) : UsageExact s.sendNext := by
  unfold HttpTransportAsync.sendNext
  cases hq : s.payloadsToSend.pop with
  | none => exact h.congr rfl rfl
  | some pq =>
    obtain ⟨p, q⟩ := pq
    have hold : s.payloadsByteUsage.toNat = totalBytes s.payloadsToSend.items := h
    rw [PayloadQueue.pop_items hq, totalBytes_cons] at hold
    show (s.payloadsByteUsage - p.payload.size).toNat = totalBytes q.items
    rw [UInt64.toNat_sub_of_le _ _ (h.size_le hq), hold, ByteVec.size_toNat]
    omega

theorem UsageExact.wait (h : UsageExact s) : UsageExact s.wait := by
  unfold HttpTransportAsync.wait
  split
  · exact h.congr rfl rfl
  · split
    · exact h.congr rfl rfl
    · exact h.sendNext

theorem UsageExact.asyncSender (h : UsageExact s) : UsageExact s.asyncSender := by
  unfold HttpTransportAsync.asyncSender
  split
  · exact h.wait
  · exact h.congr rfl rfl

theorem UsageExact.senderStep (h : UsageExact s) {timedOut : Bool} (hs : s.senderStep timedOut = some t) :
    UsageExact t := by
  unfold HttpTransportAsync.senderStep at hs
  cases hthread : s.thread with
  | absent => simp [hthread] at hs
  | exited => simp [hthread] at hs
  | created =>
    simp only [hthread, Option.some.injEq] at hs
    exact hs ▸ h.asyncSender
  | waiting =>
    simp only [hthread, Option.some.injEq] at hs
    exact hs ▸ h.wait
  | sending p =>
    have h' : UsageExact { s with attempted := s.attempted ++ [p] } := h.congr rfl rfl
    simp only [hthread] at hs
    split at hs
    · exact Option.some.inj hs ▸ h'.asyncSender
    · exact Option.some.inj hs ▸ h'.sendNext

theorem UsageExact.postfork (h : UsageExact s) {child : Bool} (ho : ForkOk s (.postfork child)) :
    UsageExact (s.postfork child) := by
  cases child with
  | false => exact h.congr rfl rfl
  | true =>
    have hold : s.payloadsByteUsage.toNat = s.payloadsToSend.total := h
    rw [show s.payloadsToSend.total = 0 from ho] at hold
    exact hold

theorem UsageExact.step (h : UsageExact s) {a : Action} (ho : ForkOk s a) (hs : step s a = some t) :
    UsageExact t := by
  cases a with
  | initializeConnection added =>
    simp only [Transport.step, Option.ite_none_right_eq_some, Option.some.injEq] at hs
    obtain ⟨-, rfl⟩ := hs
    cases added <;> exact h.congr rfl rfl
  | enqueue max p =>
    simp only [Transport.step, Option.ite_none_left_eq_some, Option.some.injEq] at hs
    exact hs.2 ▸ h.enqueue max p
  | sender timedOut => exact h.senderStep hs
  | prefork =>
    simp only [Transport.step, Option.ite_none_right_eq_some, Option.some.injEq] at hs
    exact hs.2 ▸ h.congr rfl rfl
  | destruct =>
    simp only [Transport.step, Option.ite_none_right_eq_some, Option.some.injEq] at hs
    exact hs.2 ▸ h.congr rfl rfl
  | shutdown =>
    simp only [Transport.step, Option.ite_none_right_eq_some, Option.some.injEq] at hs
    exact hs.2 ▸ h.congr rfl rfl
  | join =>
    simp only [Transport.step] at hs
    split at hs
    · unfold HttpTransportAsync.join at hs
      split at hs
      · exact Option.some.inj hs ▸ h.congr rfl rfl
      · exact Option.some.inj hs ▸ h.congr rfl rfl
      · cases hs
    · cases hs
  | postfork child =>
    simp only [Transport.step, Option.ite_none_right_eq_some, Option.some.injEq] at hs
    exact hs.2 ▸ h.postfork ho

end Usage

/-! ## Main results -/

/-- The accounting of a state: the counter is exact, the next `send` does not take it below zero, and an empty queue
accepts every payload within the limit. -/
structure Accounted (s : HttpTransportAsync) : Prop where
  exact : s.payloadsByteUsage.toNat = s.payloadsToSend.total
  noUnderflow : ∀ p q, s.payloadsToSend.pop = some (p, q) → p.payload.size ≤ s.payloadsByteUsage
  accepts : s.payloadsToSend.items = [] → ∀ max p, p.payload.size ≤ max →
    (s.enqueue max p).payloadsToSend.items = [p]

theorem UsageExact.accounted {s : HttpTransportAsync} (h : UsageExact s) : Accounted s := by
  refine ⟨h, fun p q hq => h.size_le hq, fun hnil max p hmax => ?_⟩
  have husage : s.payloadsByteUsage = 0 := by
    refine UInt64.toNat_inj.mp (h.trans ?_)
    rw [PayloadQueue.total, hnil]
    rfl
  obtain ⟨q, hq, hitems⟩ := PayloadQueue.emplace_of_nil (p := p) hnil
  have hle : ¬ s.payloadsByteUsage + p.payload.size > max := by
    rw [husage, UInt64.zero_add, gt_iff_lt, UInt64.not_lt]
    exact hmax
  rw [HttpTransportAsync.enqueue, if_neg hle, hq]
  exact hitems

/-- **The byte counter is exact** in every state of every run in which no child drops queued bytes. -/
theorem byteUsage_accounted {as : List Action} {s : HttpTransportAsync} (h : Path step ForkOk {} as s) : Accounted s :=
  (h.invariant (fun _ _ _ hI ho hs => UsageExact.step hI ho hs) (show UsageExact {} from rfl)).accounted

/-- A payload of ten bytes. -/
def tenBytes : Payload := { endpointHash := 1, payload := ⟨List.replicate 10 0, by decide⟩ }

/-- A payload is sent before the fork; the child goes on with an empty queue. -/
theorem byteUsage_accounted_witness : ∃ s, run step {} [.initializeConnection true, .enqueue 16 tenBytes,
    .sender false, .sender false, .prefork, .sender false, .join, .postfork true] = some s ∧ Accounted s := by
  have hp : Path step ForkOk {} [.initializeConnection true, .enqueue 16 tenBytes, .sender false, .sender false,
      .prefork, .sender false, .join, .postfork true] _ :=
    .cons trivial rfl (.cons trivial rfl (.cons trivial rfl (.cons trivial rfl (.cons trivial rfl
      (.cons trivial rfl (.cons trivial rfl (.cons rfl rfl (.nil _))))))))
  exact ⟨_, hp.run_eq, byteUsage_accounted hp⟩

/-- **A child that drops a queued payload keeps its bytes in the counter.** -/
theorem childFork_leaks_usage : ¬ ∀ (as : List Action) (s : HttpTransportAsync), run step {} as = some s → Accounted s := by
  intro h
  have hs := (h [.enqueue 16 tenBytes, .prefork, .join, .postfork true] _ rfl).exact
  revert hs
  decide

end OtelDistro.Transport
