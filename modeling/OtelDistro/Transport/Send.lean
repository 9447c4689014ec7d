import OtelDistro.Transport.HttpEndpoints
import OtelDistro.Transport.HttpTransportAsync
import OtelDistro.Util.RetryAfter

/-!
# OtelDistro.Transport.Send — the loop of `send` between unlocking and locking the mutex again

In `HttpTransportAsync` a payload that was taken from the queue is `sending` until the thread locks the mutex again.  Here
the stretch between is taken apart, and the endpoints are kept beside the queue: `getConnection`, the attempts with their
pauses, the header callback and the response callback.

* `Turn`: the payload of the turn and where the thread stands with it.
* `step`: one action of the sender thread or of another thread; the external calls return or throw as the action says.
* `Effect`: what a step can do, once for all invariants.

`matches_of_run`: the transport of a run is one of `HttpTransportAsync`, and its attempted payloads are those whose turn ended.
-/

namespace OtelDistro.Transport.Sending

open OtelDistro.Lib OtelDistro.Util

/-! ## State -/

/-- An exception, by whether the handlers in `send` catch it. -/
inductive Thrown
  | runtimeError
  | otherException
deriving DecidableEq

/-- What `sendPayload` does: the header lines curl passes on, the body, the status code; `date` is the system clock in seconds. -/
structure Reply where
  headers : List Str := []
  body : Str := []
  result : Except Thrown Int16
  date : ℤ := 0

/-- How an attempt ended. -/
inductive Outcome
  | response (code : Int16)
  | failure
deriving DecidableEq

/-- What is recorded of a payload's turn: its attempts and the calls of its callback, in order; `limit` is `maxRetries` as
`getConnection` returned it. -/
structure Record where
  payload : Payload
  limit : Option UInt64 := none
  outcomes : List Outcome := []
  callbacks : List (Int16 × Str) := []

/-- Where the thread stands in the body of the loop. -/
inductive Place
  | connecting
  /-- At the condition of the retry loop. -/
  | attempting (conn : HttpEndpoints.Connection) (retry : UInt64)
  /-- In `sendPayload`. -/
  | inFlight (conn : HttpEndpoints.Connection) (retry : UInt64)
  /-- In the response callback. -/
  | responding (code : Int16) (body : Str)
  /-- In `sleep_for`. -/
  | sleeping (conn : HttpEndpoints.Connection) (retry : UInt64)
  | relocking
  /-- An exception has left the thread's function: `std::terminate`. -/
  | terminated

structure Turn where
  record : Record
  place : Place

/-- `time` is the steady clock in milliseconds. -/
inductive Event
  | attempt (endpointHash : UInt64) (time : ℤ)
  | answer (endpointHash : UInt64) (time : ℤ) (code : Int16) (headers : List Str) (date : ℤ)

/-- `finished` records the turns that ended, oldest first, `log` the attempts and answers, newest first. -/
structure Sender where
  transport : HttpTransportAsync := {}
  endpoints : HttpEndpoints := {}
  turn : Option Turn := none
  now : ℤ := 0
  finished : List Record := []
  log : List Event := []

/-! ## The body of the loop -/

/-- The header callback on a line with its line end: the delay it stores.  `CiCharTraits` ignores the case of letters. -/
def headerDelay (line : Str) (date : ℤ) : Option ℤ :=
  let header := line.take (line.length - 2)
  if (lit "retry-after: ").isPrefixOf (header.map toLower) then
    (parseRetryAfter (header.drop 13) (line.drop (line.length - 2)) date).filter fun d => 0 < d
  else none

def headerCallback (endpointHash : UInt64) (date : ℤ) (endpoints : HttpEndpoints) (line : Str) : HttpEndpoints :=
  match headerDelay line date with
  | none => endpoints
  | some d => (endpoints.updateRetryDelay endpointHash d).toOption.getD endpoints

def isSuccess (code : Int16) : Bool := 200 ≤ code && code < 300

def isClientError (code : Int16) : Bool := 400 ≤ code && code < 500 && code != 408 && code != 429

namespace Sender

def goto (s : Sender) (r : Record) (p : Place) : Sender := { s with turn := some ⟨r, p⟩ }

/-- Both handlers catch `std::runtime_error`. -/
def throw (s : Sender) (r : Record) : Thrown → Sender
  | .runtimeError => s.goto r .relocking
  | .otherException => s.goto r .terminated

def getConnection (s : Sender) (r : Record) : Option Thrown → Sender
  | some e => s.throw r e
  | none =>
    match s.endpoints.getConnection r.payload.endpointHash with
    | .error _ => s.throw r .runtimeError
    | .ok conn => s.goto { r with limit := some conn.maxRetries } (.attempting conn 0)

/-- The condition of the retry loop; `sendPayload` is called where it holds. -/
def attempt (s : Sender) (r : Record) (conn : HttpEndpoints.Connection) (retry : UInt64) : Sender :=
  if retry < conn.maxRetries then
    { s.goto r (.inFlight conn retry) with log := .attempt r.payload.endpointHash s.now :: s.log }
  else s.goto r .relocking

/-- What follows an answer of the server. -/
def answer (s : Sender) (r : Record) (conn : HttpEndpoints.Connection) (retry : UInt64) (code : Int16) (body : Str) :
    Sender :=
  if isSuccess code || isClientError code then
    -- behind the callback a success leaves the loop and a client error throws; both end at the lock
    s.goto r (if r.payload.callback then .responding code body else .relocking)
  else s.goto r (.sleeping conn (retry + 1))

/-- There is a header callback where there is a response callback. -/
def receiveHeaders (s : Sender) (p : Payload) (reply : Reply) : Sender :=
  if p.callback then
    { s with endpoints := reply.headers.foldl (headerCallback p.endpointHash reply.date) s.endpoints }
  else s

def logAnswer (s : Sender) (h : UInt64) (code : Int16) (reply : Reply) : Sender :=
  { s with log := .answer h s.now code reply.headers reply.date :: s.log }

def sendPayload (s : Sender) (r : Record) (conn : HttpEndpoints.Connection) (retry : UInt64) (reply : Reply) : Sender :=
  let s := s.receiveHeaders r.payload reply
  match reply.result with
  | .error e => s.throw { r with outcomes := r.outcomes ++ [.failure] } e
  | .ok code =>
    (s.logAnswer r.payload.endpointHash code reply).answer { r with outcomes := r.outcomes ++ [.response code] } conn retry
      code reply.body

def callback (s : Sender) (r : Record) (code : Int16) (body : Str) (fault : Option Thrown) : Sender :=
  let r := { r with callbacks := r.callbacks ++ [(code, body)] }
  match fault with
  | some e => s.throw r e
  | none => s.goto r .relocking

/-- The thread goes on in `HttpTransportAsync`, perhaps with the next payload. -/
def enter (s : Sender) (t : HttpTransportAsync) : Sender :=
  { s with
    transport := t
    turn := match t.thread with
      | .sending p => some ⟨{ payload := p }, .connecting⟩
      | _ => none }

end Sender

/-! ## Runs -/

inductive Action
  /-- Another thread's action that involves no endpoint. -/
  | other (a : Transport.Action)
  | initializeConnection (c : AddCall)
  | updateRetryDelay (endpointHash : UInt64) (retryDelay : ℤ)
  | pass (time : ℕ)
  | sender (timedOut : Bool)
  | getConnection (fault : Option Thrown)
  | attempt
  | sendPayload (reply : Reply)
  | callback (fault : Option Thrown)
  | wake (slept : ℕ)

/-- Actions of other threads. -/
def otherStep (stdHash : Str → UInt64) (s : Sender) : Action → Option Sender
  | .other (.initializeConnection _) | .other (.sender _) => none
  | .other a => (Transport.step s.transport a).map fun t => { s with transport := t }
  | .initializeConnection c =>
    (Transport.step s.transport (.initializeConnection (s.endpoints.add stdHash c).2.isOk)).map fun t =>
      { s with transport := t, endpoints := (s.endpoints.add stdHash c).1 }
  | .updateRetryDelay h d => some { s with endpoints := (s.endpoints.updateRetryDelay h d).toOption.getD s.endpoints }
  | .pass time => some { s with now := s.now + time }
  | _ => none

/-- Actions of the sender thread. -/
def senderStep (s : Sender) (a : Action) : Option Sender :=
  match s.turn, a with
  | none, .sender timedOut => (s.transport.senderStep timedOut).map s.enter
  | some ⟨r, .relocking⟩, .sender timedOut =>
    (s.transport.senderStep timedOut).map fun t => { s.enter t with finished := s.finished ++ [r] }
  | some ⟨r, .connecting⟩, .getConnection fault => some (s.getConnection r fault)
  | some ⟨r, .attempting conn retry⟩, .attempt => some (s.attempt r conn retry)
  | some ⟨r, .inFlight conn retry⟩, .sendPayload reply => some (s.sendPayload r conn retry reply)
  | some ⟨r, .responding code body⟩, .callback fault => some (s.callback r code body fault)
  | some ⟨r, .sleeping conn retry⟩, .wake slept =>
    if conn.retryDelay ≤ slept then some { s.goto r (.attempting conn retry) with now := s.now + slept } else none
  | _, _ => none

def Sender.terminated (s : Sender) : Bool :=
  match s.turn with
  | some ⟨_, .terminated⟩ => true
  | _ => false

/-- After `std::terminate` nothing runs. -/
def step (stdHash : Str → UInt64) (s : Sender) (a : Action) : Option Sender :=
  if s.terminated then none else (otherStep stdHash s a).or (senderStep s a)

/-! ## What a step can do -/

/-- The `maxRetries` an endpoint was added with. -/
def maxRetriesOf (e : HttpEndpoints) (h : UInt64) : Option UInt64 := (e.endpoints.lookup h).map HttpEndpoint.maxRetries

/-- Endpoints keep their `maxRetries`. -/
def KeepsLimits (e e' : HttpEndpoints) : Prop := ∀ h m, maxRetriesOf e h = some m → maxRetriesOf e' h = some m

/-- What another thread leaves alone. -/
structure Frame (s t : Sender) : Prop where
  turn : t.turn = s.turn
  finished : t.finished = s.finished
  log : t.log = s.log
  now : s.now ≤ t.now
  limits : KeepsLimits s.endpoints t.endpoints
  thread : ∀ p, s.transport.thread = .sending p ↔ t.transport.thread = .sending p
  attempted : t.transport.attempted = s.transport.attempted

/-- The branches of `step`. -/
inductive Effect (stdHash : Str → UInt64) (s : Sender) : Action → Sender → Prop
  | other {a : Action} {t : Sender} (h : otherStep stdHash s a = some t) : Effect stdHash s a t
  | idle {timedOut : Bool} {t : HttpTransportAsync} (hturn : s.turn = none) (h : s.transport.senderStep timedOut = some t) :
      Effect stdHash s (.sender timedOut) (s.enter t)
  | relock {timedOut : Bool} {r : Record} {t : HttpTransportAsync} (hturn : s.turn = some ⟨r, .relocking⟩)
      (h : s.transport.senderStep timedOut = some t) :
      Effect stdHash s (.sender timedOut) { s.enter t with finished := s.finished ++ [r] }
  | getConnection {fault : Option Thrown} {r : Record} (hturn : s.turn = some ⟨r, .connecting⟩) :
      Effect stdHash s (.getConnection fault) (s.getConnection r fault)
  | attempt {r : Record} {conn : HttpEndpoints.Connection} {retry : UInt64}
      (hturn : s.turn = some ⟨r, .attempting conn retry⟩) : Effect stdHash s .attempt (s.attempt r conn retry)
  | sendPayload {reply : Reply} {r : Record} {conn : HttpEndpoints.Connection} {retry : UInt64}
      (hturn : s.turn = some ⟨r, .inFlight conn retry⟩) :
      Effect stdHash s (.sendPayload reply) (s.sendPayload r conn retry reply)
  | callback {fault : Option Thrown} {r : Record} {code : Int16} {body : Str}
      (hturn : s.turn = some ⟨r, .responding code body⟩) :
      Effect stdHash s (.callback fault) (s.callback r code body fault)
  | wake {slept : ℕ} {r : Record} {conn : HttpEndpoints.Connection} {retry : UInt64}
      (hturn : s.turn = some ⟨r, .sleeping conn retry⟩) (h : conn.retryDelay ≤ slept) :
      Effect stdHash s (.wake slept) { s.goto r (.attempting conn retry) with now := s.now + slept }

/-! ## The transport under the turns -/

section Transport

variable {u v : HttpTransportAsync} {p : Payload}

theorem sendNext_attempted (u : HttpTransportAsync) : u.sendNext.attempted = u.attempted := by
  unfold HttpTransportAsync.sendNext
  split <;> rfl

theorem wait_attempted (u : HttpTransportAsync) : u.wait.attempted = u.attempted := by
  unfold HttpTransportAsync.wait
  split
  · rfl
  · split
    · rfl
    · exact sendNext_attempted u

theorem asyncSender_attempted (u : HttpTransportAsync) : u.asyncSender.attempted = u.attempted := by
  unfold HttpTransportAsync.asyncSender
  split
  · exact wait_attempted u
  · rfl

/-- A thread that is in no attempt ends none. -/
theorem senderStep_attempted_of_idle (hidle : ∀ p, u.thread ≠ .sending p) {b : Bool} (h : u.senderStep b = some v) :
    v.attempted = u.attempted := by
  unfold HttpTransportAsync.senderStep at h
  cases hthread : u.thread with
  | absent => simp [hthread] at h
  | exited => simp [hthread] at h
  | created =>
    simp only [hthread, Option.some.injEq] at h
    exact h ▸ asyncSender_attempted u
  | waiting =>
    simp only [hthread, Option.some.injEq] at h
    exact h ▸ wait_attempted u
  | sending p => exact absurd hthread (hidle p)

theorem sendNext_thread {q : Payload} {rest : List Payload} (hq : u.payloadsToSend.items = q :: rest) :
    u.sendNext.thread = .sending q ∧ u.sendNext.payloadsToSend.items = rest := by
  unfold HttpTransportAsync.sendNext
  cases hpop : u.payloadsToSend.pop with
  | none =>
    unfold PayloadQueue.pop at hpop
    split at hpop
    · rename_i hnil
      rw [hq] at hnil
      cases hnil
    · cases hpop
  | some pq =>
    obtain ⟨q', rest'⟩ := pq
    have hitems := PayloadQueue.pop_items hpop
    rw [hq, List.cons.injEq] at hitems
    exact ⟨by rw [hitems.1], hitems.2.symm⟩

/-- The thread locks the mutex after an attempt: it takes the next payload, unless the destructor's timeout has elapsed. -/
theorem senderStep_of_sending (hthread : u.thread = .sending p) (b : Bool) : ∃ v, u.senderStep b = some v ∧
    v.attempted = u.attempted ++ [p] ∧ ((u.forceFlushOnDestruction && b) = false →
      ∀ q rest, u.payloadsToSend.items = q :: rest → v.thread = .sending q ∧ v.payloadsToSend.items = rest) := by
  unfold HttpTransportAsync.senderStep
  simp only [hthread]
  by_cases hdrop : (u.forceFlushOnDestruction && !u.payloadsToSend.items.isEmpty && b) = true
  · rw [if_pos hdrop]
    refine ⟨_, rfl, asyncSender_attempted _, fun hb => ?_⟩
    simp only [Bool.and_eq_true] at hdrop
    rw [hdrop.1.1, hdrop.2] at hb
    cases hb
  · rw [if_neg hdrop]
    exact ⟨_, rfl, sendNext_attempted _, fun _ q rest hq => sendNext_thread hq⟩

/-- Other threads neither start nor end an attempt. -/
theorem step_thread {a : Transport.Action} (ha : ∀ b, a ≠ .sender b) (h : Transport.step u a = some v) :
    (∀ p, u.thread = .sending p ↔ v.thread = .sending p) ∧ v.attempted = u.attempted := by
  have hstart : ∀ w : HttpTransportAsync, ∀ p, w.thread = .sending p ↔ w.startThread.thread = .sending p := by
    intro w p
    unfold HttpTransportAsync.startThread
    cases w.thread <;> simp
  cases a with
  | initializeConnection added =>
    simp only [Transport.step, Option.ite_none_right_eq_some, Option.some.injEq] at h
    obtain ⟨-, rfl⟩ := h
    cases added with
    | true => exact ⟨hstart u, rfl⟩
    | false => exact ⟨fun _ => Iff.rfl, rfl⟩
  | enqueue max q =>
    simp only [Transport.step, Option.ite_none_left_eq_some, Option.some.injEq] at h
    obtain ⟨-, rfl⟩ := h
    unfold HttpTransportAsync.enqueue
    split
    · exact ⟨fun _ => Iff.rfl, rfl⟩
    · split <;> exact ⟨fun _ => Iff.rfl, rfl⟩
  | sender b => exact absurd rfl (ha b)
  | prefork =>
    simp only [Transport.step, Option.ite_none_right_eq_some, Option.some.injEq] at h
    exact h.2 ▸ ⟨fun _ => Iff.rfl, rfl⟩
  | destruct =>
    simp only [Transport.step, Option.ite_none_right_eq_some, Option.some.injEq] at h
    exact h.2 ▸ ⟨fun _ => Iff.rfl, rfl⟩
  | shutdown =>
    simp only [Transport.step, Option.ite_none_right_eq_some, Option.some.injEq] at h
    exact h.2 ▸ ⟨fun _ => Iff.rfl, rfl⟩
  | join =>
    simp only [Transport.step] at h
    split at h
    · unfold HttpTransportAsync.join at h
      cases hthread : u.thread with
      | absent =>
        simp only [hthread, Option.some.injEq] at h
        exact h ▸ ⟨fun p => by simp, rfl⟩
      | exited =>
        simp only [hthread, Option.some.injEq] at h
        exact h ▸ ⟨fun p => by simp, rfl⟩
      | created => simp [hthread] at h
      | waiting => simp [hthread] at h
      | sending p => simp [hthread] at h
    · cases h
  | postfork child =>
    simp only [Transport.step, Option.ite_none_right_eq_some, Option.some.injEq] at h
    exact h.2 ▸ ⟨hstart _, rfl⟩

end Transport

section Effects

variable {stdHash : Str → UInt64} {s t : Sender} {a : Action}

theorem effect_of_step (h : step stdHash s a = some t) : s.terminated = false ∧ Effect stdHash s a t := by
  unfold step at h
  split at h
  · cases h
  · rename_i hlive
    refine ⟨by simpa using hlive, ?_⟩
    rw [Option.or_eq_some_iff] at h
    rcases h with h | ⟨-, h⟩
    · exact .other h
    · unfold senderStep at h
      split at h
      · rename_i hturn
        obtain ⟨u, hu, rfl⟩ := Option.map_eq_some_iff.mp h
        exact .idle hturn hu
      · rename_i hturn
        obtain ⟨u, hu, rfl⟩ := Option.map_eq_some_iff.mp h
        exact .relock hturn hu
      · rename_i hturn
        exact Option.some.inj h ▸ .getConnection hturn
      · rename_i hturn
        exact Option.some.inj h ▸ .attempt hturn
      · rename_i hturn
        exact Option.some.inj h ▸ .sendPayload hturn
      · rename_i hturn
        exact Option.some.inj h ▸ .callback hturn
      · rename_i hturn
        rw [Option.ite_none_right_eq_some, Option.some.injEq] at h
        exact h.2 ▸ .wake hturn h.1
      · cases h

theorem KeepsLimits.refl (e : HttpEndpoints) : KeepsLimits e e := fun _ _ h => h

theorem KeepsLimits.trans {e e' e'' : HttpEndpoints} (h : KeepsLimits e e') (h' : KeepsLimits e' e'') :
    KeepsLimits e e'' := fun k m hk => h' k m (h k m hk)

theorem keepsLimits_add (e : HttpEndpoints) (c : AddCall) : KeepsLimits e (e.add stdHash c).1 := by
  intro h m hm
  rw [maxRetriesOf, Option.map_eq_some_iff] at hm
  obtain ⟨x, hx, rfl⟩ := hm
  rw [maxRetriesOf, HttpEndpoints.lookup_endpoints_add, hx]
  rfl

theorem keepsLimits_updateRetryDelay (e : HttpEndpoints) (h : UInt64) (d : ℤ) :
    KeepsLimits e ((e.updateRetryDelay h d).toOption.getD e) := by
  unfold HttpEndpoints.updateRetryDelay
  cases he : e.endpoints.lookup h with
  | none => exact KeepsLimits.refl e
  | some x =>
    intro k m hm
    simp only [Except.toOption, Option.getD_some, maxRetriesOf, KMap.lookup_insert'] at hm ⊢
    by_cases hk : h = k
    · subst hk
      rw [he] at hm
      rw [if_pos rfl]
      exact hm
    · rw [if_neg hk]
      exact hm

theorem keepsLimits_headers (h : UInt64) (date : ℤ) (lines : List Str) (e : HttpEndpoints) :
    KeepsLimits e (lines.foldl (headerCallback h date) e) := by
  induction lines generalizing e with
  | nil => exact KeepsLimits.refl e
  | cons line lines ih =>
    refine KeepsLimits.trans ?_ (ih _)
    unfold headerCallback
    split
    · exact KeepsLimits.refl e
    · exact keepsLimits_updateRetryDelay e h _

theorem otherStep_frame (h : otherStep stdHash s a = some t) : Frame s t := by
  have hcoarse : ∀ a', (∀ b, a' ≠ .sender b) → ∀ u e, Transport.step s.transport a' = some u → KeepsLimits s.endpoints e →
      Frame s { s with transport := u, endpoints := e } := by
    intro a' ha' u e hu he
    obtain ⟨hthread, hattempted⟩ := step_thread ha' hu
    exact ⟨rfl, rfl, rfl, le_refl _, he, hthread, hattempted⟩
  unfold otherStep at h
  split at h
  · cases h
  · cases h
  · rename_i a' _ hsender
    obtain ⟨u, hu, rfl⟩ := Option.map_eq_some_iff.mp h
    exact hcoarse a' hsender u _ hu (KeepsLimits.refl _)
  · rename_i c
    obtain ⟨u, hu, rfl⟩ := Option.map_eq_some_iff.mp h
    exact hcoarse _ (fun b hb => by cases hb) u _ hu (keepsLimits_add _ c)
  · obtain rfl := Option.some.inj h
    exact ⟨rfl, rfl, rfl, le_refl _, keepsLimits_updateRetryDelay _ _ _, fun _ => Iff.rfl, rfl⟩
  · obtain rfl := Option.some.inj h
    exact ⟨rfl, rfl, rfl, by simp, KeepsLimits.refl _, fun _ => Iff.rfl, rfl⟩
  · cases h

/-! ## The turns and the transport -/

/-- The thread is sending exactly in a turn, and the turns that ended are the attempted payloads. -/
structure Matches (s : Sender) : Prop where
  turn : ∀ p, s.transport.thread = .sending p ↔ s.turn.map (fun turn => turn.record.payload) = some p
  attempted : s.transport.attempted = s.finished.map Record.payload

/-- The step stays in the turn of the payload of `r`. -/
structure Stays (s t : Sender) (r : Record) : Prop where
  transport : t.transport = s.transport
  finished : t.finished = s.finished
  limits : KeepsLimits s.endpoints t.endpoints
  turn : ∃ r' place, t.turn = some ⟨r', place⟩ ∧ r'.payload = r.payload

theorem Stays.goto (s : Sender) {r r' : Record} (place : Place) (hr : r'.payload = r.payload) : Stays s (s.goto r' place) r :=
  ⟨rfl, rfl, KeepsLimits.refl _, r', place, rfl, hr⟩

theorem Stays.throw (s : Sender) {r r' : Record} (e : Thrown) (hr : r'.payload = r.payload) : Stays s (s.throw r' e) r := by
  cases e with
  | runtimeError => exact .goto s _ hr
  | otherException => exact .goto s _ hr

theorem stays_getConnection (s : Sender) (r : Record) (fault : Option Thrown) : Stays s (s.getConnection r fault) r := by
  unfold Sender.getConnection
  split
  · exact .throw s _ rfl
  · split
    · exact .throw s _ rfl
    · exact .goto s _ rfl

theorem stays_attempt (s : Sender) (r : Record) (conn : HttpEndpoints.Connection) (retry : UInt64) :
    Stays s (s.attempt r conn retry) r := by
  unfold Sender.attempt
  split
  · exact ⟨rfl, rfl, KeepsLimits.refl _, _, _, rfl, rfl⟩
  · exact .goto s _ rfl

theorem stays_answer (s : Sender) {r r' : Record} (hr : r'.payload = r.payload) (conn : HttpEndpoints.Connection)
    (retry : UInt64) (code : Int16) (body : Str) : Stays s (s.answer r' conn retry code body) r := by
  unfold Sender.answer
  split
  · exact .goto s _ hr
  · exact .goto s _ hr

theorem receiveHeaders_frame (s : Sender) (p : Payload) (reply : Reply) :
    (s.receiveHeaders p reply).transport = s.transport ∧ (s.receiveHeaders p reply).finished = s.finished ∧
      (s.receiveHeaders p reply).log = s.log ∧ (s.receiveHeaders p reply).now = s.now ∧
      KeepsLimits s.endpoints (s.receiveHeaders p reply).endpoints := by
  unfold Sender.receiveHeaders
  split
  · exact ⟨rfl, rfl, rfl, rfl, keepsLimits_headers _ _ _ _⟩
  · exact ⟨rfl, rfl, rfl, rfl, KeepsLimits.refl _⟩

theorem stays_sendPayload (s : Sender) (r : Record) (conn : HttpEndpoints.Connection) (retry : UInt64) (reply : Reply) :
    Stays s (s.sendPayload r conn retry reply) r := by
  obtain ⟨htransport, hfinished, -, -, hlimits⟩ := receiveHeaders_frame s r.payload reply
  have hstays : ∀ u : Sender, u.transport = (s.receiveHeaders r.payload reply).transport →
      u.finished = (s.receiveHeaders r.payload reply).finished → u.endpoints = (s.receiveHeaders r.payload reply).endpoints →
      ∀ t, Stays u t r → Stays s t r := by
    intro u h1 h2 h3 t ht
    exact ⟨ht.transport.trans (h1.trans htransport), ht.finished.trans (h2.trans hfinished),
      hlimits.trans (h3 ▸ ht.limits), ht.turn⟩
  unfold Sender.sendPayload
  cases reply.result with
  | error e => exact hstays _ rfl rfl rfl _ (.throw _ e rfl)
  | ok code =>
    exact hstays ((s.receiveHeaders r.payload reply).logAnswer r.payload.endpointHash code reply) rfl rfl rfl _
      (stays_answer _ (by rfl) conn retry code _)

theorem stays_callback (s : Sender) (r : Record) (code : Int16) (body : Str) (fault : Option Thrown) :
    Stays s (s.callback r code body fault) r := by
  unfold Sender.callback
  cases fault with
  | some e => exact .throw s e rfl
  | none => exact .goto s _ rfl

theorem Stays.matches_of {r : Record} {place : Place} (h : Stays s t r) (hturn : s.turn = some ⟨r, place⟩) (hM : Matches s) :
    Matches t := by
  obtain ⟨r', place', hturn', hr⟩ := h.turn
  refine ⟨fun p => ?_, ?_⟩
  · rw [h.transport, hM.turn, hturn, hturn', Option.map_some, Option.map_some, hr]
  · rw [h.transport, h.finished]
    exact hM.attempted

theorem enter_turn (s : Sender) (u : HttpTransportAsync) (p : Payload) :
    u.thread = .sending p ↔ (s.enter u).turn.map (fun turn => turn.record.payload) = some p := by
  unfold Sender.enter
  cases u.thread <;> simp

theorem Matches.step (hM : Matches s) (hs : step stdHash s a = some t) : Matches t := by
  obtain ⟨-, heffect⟩ := effect_of_step hs
  cases heffect with
  | other h =>
    have hF := otherStep_frame h
    refine ⟨fun p => ?_, ?_⟩
    · rw [← hF.thread, hF.turn]
      exact hM.turn p
    · rw [hF.attempted, hF.finished]
      exact hM.attempted
  | @idle b u hturn h =>
    refine ⟨fun p => enter_turn s u p, ?_⟩
    have hidle : ∀ p, s.transport.thread ≠ .sending p := by
      intro p hp
      rw [hM.turn, hturn] at hp
      cases hp
    exact (senderStep_attempted_of_idle hidle h).trans hM.attempted
  | @relock b r u hturn h =>
    have hthread : s.transport.thread = .sending r.payload := by rw [hM.turn, hturn]; rfl
    obtain ⟨v, hv, hattempted, -⟩ := senderStep_of_sending hthread b
    obtain rfl := Option.some.inj (hv.symm.trans h)
    refine ⟨fun p => enter_turn s v p, ?_⟩
    show v.attempted = (s.finished ++ [r]).map Record.payload
    rw [hattempted, hM.attempted, List.map_append, List.map_singleton]
  | getConnection hturn => exact (stays_getConnection _ _ _).matches_of hturn hM
  | attempt hturn => exact (stays_attempt _ _ _ _).matches_of hturn hM
  | sendPayload hturn => exact (stays_sendPayload _ _ _ _ _).matches_of hturn hM
  | callback hturn => exact (stays_callback _ _ _ _ _).matches_of hturn hM
  | @wake slept r conn retry hturn _ =>
    have hstays : Stays s { s.goto r (.attempting conn retry) with now := s.now + slept } r :=
      ⟨rfl, rfl, KeepsLimits.refl _, r, _, rfl, rfl⟩
    exact hstays.matches_of hturn hM

/-- The transport moves as in `HttpTransportAsync`, or not at all. -/
theorem transport_of_step (hs : step stdHash s a = some t) :
    t.transport = s.transport ∨ ∃ a', Transport.step s.transport a' = some t.transport := by
  obtain ⟨-, heffect⟩ := effect_of_step hs
  cases heffect with
  | other h =>
    unfold otherStep at h
    split at h
    · cases h
    · cases h
    · obtain ⟨u, hu, rfl⟩ := Option.map_eq_some_iff.mp h
      exact .inr ⟨_, hu⟩
    · obtain ⟨u, hu, rfl⟩ := Option.map_eq_some_iff.mp h
      exact .inr ⟨_, hu⟩
    · exact .inl (Option.some.inj h ▸ rfl)
    · exact .inl (Option.some.inj h ▸ rfl)
    · cases h
  | idle _ h => exact .inr ⟨.sender _, h⟩
  | relock _ h => exact .inr ⟨.sender _, h⟩
  | getConnection => exact .inl (stays_getConnection _ _ _).transport
  | attempt => exact .inl (stays_attempt _ _ _ _).transport
  | sendPayload => exact .inl (stays_sendPayload _ _ _ _ _).transport
  | callback => exact .inl (stays_callback _ _ _ _ _).transport
  | wake => exact .inl rfl

theorem matches_init : Matches {} := ⟨fun p => by simp, rfl⟩

/-- **The turns refine the transport**: its state is one of a run of `HttpTransportAsync`. -/
theorem matches_of_run {as : List Action} (h : run (Sending.step stdHash) {} as = some s) :
    Matches s ∧ ∃ as', run Transport.step {} as' = some s.transport := by
  refine run_invariant (I := fun s => Matches s ∧ ∃ as', run Transport.step {} as' = some s.transport) ?_ h
    ⟨matches_init, [], rfl⟩
  rintro s a t ⟨hM, as', hrun⟩ hs
  refine ⟨hM.step hs, ?_⟩
  rcases transport_of_step hs with heq | ⟨a', ha'⟩
  · exact ⟨as', heq ▸ hrun⟩
  · refine ⟨as' ++ [a'], ?_⟩
    rw [run_append_of hrun, run_cons, ha']
    rfl

/-- One payload, accepted at the first attempt. -/
theorem matches_of_run_sent : ∃ s, run (step HttpEndpoints.sampleHash) {} [.initializeConnection HttpEndpoints.verified,
    .other (.enqueue 16 tenBytes), .sender false, .getConnection none, .attempt,
    .sendPayload { result := .ok 200 }, .sender false] = some s ∧ s.finished.length = 1 ∧
    Matches s ∧ ∃ as', run Transport.step {} as' = some s.transport := by
  have hrun : run (step HttpEndpoints.sampleHash) {} [.initializeConnection HttpEndpoints.verified,
    .other (.enqueue 16 tenBytes), .sender false, .getConnection none, .attempt,
    .sendPayload { result := .ok 200 }, .sender false] = some _ := rfl
  exact ⟨_, hrun, rfl, matches_of_run hrun⟩

end Effects

end OtelDistro.Transport.Sending
