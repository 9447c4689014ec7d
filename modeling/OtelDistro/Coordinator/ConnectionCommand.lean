import OtelDistro.Transport.HttpEndpoints
import OtelDistro.Util.Utf8
import Mathlib.Data.Countable.Basic
import Mathlib.Logic.Equiv.List
import Mathlib.Tactic.DeriveCountable

/-!
# OtelDistro.Coordinator.ConnectionCommand — a connection travels to the coordinator

A worker turns its call of `initializeConnection` into an `EstablishConnectionCommand`; the coordinator turns the message
back into a call.  The encoder, the `.proto` schema and the decoder each name the types of the fields.

* `EstablishConnectionCommand`, `CoordinatorCommand`: the messages, with the widths of the schema.
* `InitializeConnection.command`, `processRecievedMessage`: the encoder and the decoder.
* `Protobuf`: the serializer and the parser, by what they are documented to do.
* `sameCall_iff`: when the call of the coordinator is the call of the worker.
-/

namespace OtelDistro.Coordinator.ConnectionCommand

open Lib Transport Util

/-! ## Messages -/

/-- `endpointHeaders` are the entries of the map, in the order of its iteration. -/
structure EstablishConnectionCommand where
  endpointUrl : Str := []
  endpointHash : UInt64 := 0
  contentType : Str := []
  endpointHeaders : List (Str × Str) := []
  timeoutMs : UInt64 := 0
  maxRetries : UInt32 := 0
  retryDelayMs : UInt64 := 0
  sslOptions : Option HttpEndpointSSLOptions := none

structure SendEndpointPayloadCommand where
  endpointHash : UInt64 := 0
  payload : Str := []

/-- `WorkerStartedCommand`, `WorkerIsGoingToShutdownCommand` -/
structure WorkerCommand where
  processId : UInt32 := 0
  parentProcessId : UInt32 := 0

/-- Enumerations are open: a number without a name stays as it is. -/
inductive CommandType
  | unknown
  | establishConnection
  | sendEndpointPayload
  | workerStarted
  | workerIsGoingToShutdown
  | unrecognized (n : Int32)

structure CoordinatorCommand where
  type : CommandType := .unknown
  establishConnection : Option EstablishConnectionCommand := none
  sendEndpointPayload : Option SendEndpointPayloadCommand := none
  workerStarted : Option WorkerCommand := none
  workerIsGoingToShutdown : Option WorkerCommand := none

/-! ## The call -/

/-- The arguments of `initializeConnection`; times are in milliseconds. -/
structure InitializeConnection where
  endpointUrl : Str
  endpointHash : UInt64
  contentType : Str
  endpointHeaders : List (Str × Str)
  timeout : Int64
  maxRetries : UInt64
  retryDelay : Int64
  sslOptions : HttpEndpointSSLOptions

/-- The message of `CoordinatorTelemetrySignalsSender::initializeConnection`. -/
def InitializeConnection.command (c : InitializeConnection) : CoordinatorCommand where
  type := .establishConnection
  establishConnection := some
    { endpointUrl := c.endpointUrl
      endpointHash := c.endpointHash
      contentType := c.contentType
      endpointHeaders := (KMap.insertAll ∅ c.endpointHeaders).pairs
      timeoutMs := c.timeout.toUInt64
      maxRetries := c.maxRetries.toUInt32
      retryDelayMs := c.retryDelay.toUInt64
      sslOptions := some c.sslOptions }

/-- The call made for a received connection command. -/
def EstablishConnectionCommand.call (c : EstablishConnectionCommand) : InitializeConnection where
  endpointUrl := c.endpointUrl
  endpointHash := c.endpointHash
  contentType := c.contentType
  endpointHeaders := c.endpointHeaders
  timeout := c.timeoutMs.toInt64
  maxRetries := c.maxRetries.toUInt64
  retryDelay := c.retryDelayMs.toInt64
  sslOptions := c.sslOptions.getD {}

/-- What `processRecievedMessage` does. -/
inductive Effect
  | initializeConnection (call : InitializeConnection)
  | enqueue (endpointHash : UInt64) (payload : Str)
  | registerWorker (processId parentProcessId : Int32)
  | unregisterWorker (processId : Int32)
  | logged (message : Str)

/-- The decoder, after `ParseFromArray`. -/
def processRecievedMessage : Option CoordinatorCommand → Effect
  | none => .logged (lit "CoordinatorMessagesDispatcher: Failed to parse CoordinatorCommand")
  | some command =>
    match command.type with
    | .establishConnection =>
      match command.establishConnection with
      | none => .logged (lit "CoordinatorMessagesDispatcher: Missing establish_connection payload")
      | some c => .initializeConnection c.call
    | .sendEndpointPayload =>
      match command.sendEndpointPayload with
      | none => .logged (lit "CoordinatorMessagesDispatcher: Missing send_endpoint_payload")
      | some p => .enqueue p.endpointHash p.payload
    | .workerStarted =>
      let worker := command.workerStarted.getD {}
      .registerWorker worker.processId.toInt32 worker.parentProcessId.toInt32
    | .workerIsGoingToShutdown => .unregisterWorker (command.workerIsGoingToShutdown.getD {}).processId.toInt32
    | .unknown => .logged (lit "CoordinatorMessagesDispatcher: Unknown CoordinatorCommand type=0")
    | .unrecognized n =>
      .logged (lit "CoordinatorMessagesDispatcher: Unknown CoordinatorCommand type=" ++ lit (toString n.toInt))

/-! ## The serializer and the parser -/

def sslStrings (o : HttpEndpointSSLOptions) : List Str := [o.caInfo, o.cert, o.certKey, o.certKeyPassword]

def headerStrings (headers : List (Str × Str)) : List Str := headers.flatMap fun h => [h.1, h.2]

/-- The fields of type `string`. -/
def EstablishConnectionCommand.strings (c : EstablishConnectionCommand) : List Str :=
  [c.endpointUrl, c.contentType] ++ headerStrings c.endpointHeaders ++ (c.sslOptions.map sslStrings).getD []

def CoordinatorCommand.strings (c : CoordinatorCommand) : List Str :=
  (c.establishConnection.map EstablishConnectionCommand.strings).getD []

/-- A map has each key once. -/
def CoordinatorCommand.KeysDistinct (c : CoordinatorCommand) : Prop :=
  ∀ e ∈ c.establishConnection, (e.endpointHeaders.map Prod.fst).Nodup

/-- The same message: a map has no order. -/
def CoordinatorCommand.Same (a b : CoordinatorCommand) : Prop :=
  match a.establishConnection with
  | none => b = a
  | some e => ∃ headers, headers.Perm e.endpointHeaders ∧
      b = { a with establishConnection := some { e with endpointHeaders := headers } }

theorem CoordinatorCommand.Same.refl (a : CoordinatorCommand) : a.Same a := by
  obtain ⟨type, establishConnection, sendEndpointPayload, workerStarted, workerIsGoingToShutdown⟩ := a
  cases establishConnection with
  | none => exact (rfl : _ = _)
  | some e => exact ⟨e.endpointHeaders, .refl _, rfl⟩

/-- What protobuf does: a message comes back field by field; one with a `string` field that is not UTF-8 does not parse. -/
structure Protobuf where
  serializeToString : CoordinatorCommand → Str
  parseFromArray : Str → Option CoordinatorCommand
  roundTrip : ∀ c : CoordinatorCommand, c.KeysDistinct → (∀ s ∈ c.strings, WellFormedUtf8 s) →
    ∃ c', parseFromArray (serializeToString c) = some c' ∧ c.Same c'
  invalidUtf8 : ∀ c : CoordinatorCommand, (∃ s ∈ c.strings, ¬ WellFormedUtf8 s) →
    parseFromArray (serializeToString c) = none

/-- The call the coordinator makes on receiving the message of a worker's call. -/
def Protobuf.received (protobuf : Protobuf) (c : InitializeConnection) : Effect :=
  processRecievedMessage (protobuf.parseFromArray (protobuf.serializeToString c.command))

/-! ## The same call -/

/-- The same arguments, the headers up to their order. -/
def InitializeConnection.Same (a b : InitializeConnection) : Prop :=
  ∃ headers, headers.Perm a.endpointHeaders ∧ b = { a with endpointHeaders := headers }

/-- The byte strings among the arguments. -/
def InitializeConnection.strings (c : InitializeConnection) : List Str :=
  [c.endpointUrl, c.contentType] ++ headerStrings c.endpointHeaders ++ sslStrings c.sslOptions

section

variable {c : InitializeConnection}

theorem headers_perm (hnd : (c.endpointHeaders.map Prod.fst).Nodup) :
    (KMap.insertAll ∅ c.endpointHeaders).pairs.Perm c.endpointHeaders := by
  refine (KMap.pairs_insertAll_perm hnd fun p _ => AList.notMem_empty p.1).trans ?_
  exact .of_eq (List.append_nil _)

theorem command_keysDistinct (c : InitializeConnection) : c.command.KeysDistinct := by
  rintro e he
  obtain rfl := Option.some.inj he
  exact KMap.nodup_pairs _

theorem mem_command_strings (hnd : (c.endpointHeaders.map Prod.fst).Nodup) {s : Str} :
    s ∈ c.command.strings ↔ s ∈ c.strings := by
  have hheaders : s ∈ headerStrings (KMap.insertAll ∅ c.endpointHeaders).pairs ↔ s ∈ headerStrings c.endpointHeaders :=
    ((headers_perm hnd).flatMap_right _).mem_iff
  show s ∈ _ ++ headerStrings _ ++ _ ↔ s ∈ _ ++ headerStrings _ ++ _
  rw [List.mem_append, List.mem_append, List.mem_append, List.mem_append, hheaders]
  rfl

/-- A 64-bit count of retries passes the 32-bit field unchanged. -/
theorem toUInt32_toUInt64_eq_iff (n : UInt64) : n.toUInt32.toUInt64 = n ↔ n < 2 ^ 32 := by
  rw [← UInt64.toNat_inj, UInt32.toNat_toUInt64, UInt64.toNat_toUInt32, UInt64.lt_iff_toNat_lt]
  have := n.toNat_lt
  show n.toNat % 2 ^ 32 = n.toNat ↔ n.toNat < 2 ^ 32
  omega

/-- The call made for the message that came back. -/
theorem received_of_parsed {protobuf : Protobuf} {c' : CoordinatorCommand} (hsame : c.command.Same c')
    (hparse : protobuf.parseFromArray (protobuf.serializeToString c.command) = some c') :
    ∃ headers, headers.Perm (KMap.insertAll ∅ c.endpointHeaders).pairs ∧ protobuf.received c =
      .initializeConnection { c with endpointHeaders := headers, maxRetries := c.maxRetries.toUInt32.toUInt64 } := by
  obtain ⟨headers, hperm, rfl⟩ := hsame
  refine ⟨headers, hperm, ?_⟩
  rw [Protobuf.received, hparse]
  simp only [processRecievedMessage, InitializeConnection.command, EstablishConnectionCommand.call,
    Int64.toInt64_toUInt64, Option.getD_some]

theorem received_of_invalid {protobuf : Protobuf} (h : ∃ s ∈ c.command.strings, ¬ WellFormedUtf8 s) :
    protobuf.received c = .logged (lit "CoordinatorMessagesDispatcher: Failed to parse CoordinatorCommand") := by
  rw [Protobuf.received, protobuf.invalidUtf8 _ h]
  rfl

/-- **The same call**: the coordinator makes the call of the worker exactly when the number of retries fits the 32-bit field of
the schema and every byte string is UTF-8. -/
theorem sameCall_iff (protobuf : Protobuf) (c : InitializeConnection) (hnd : (c.endpointHeaders.map Prod.fst).Nodup) :
    (∃ call, protobuf.received c = .initializeConnection call ∧ c.Same call) ↔
      c.maxRetries < 2 ^ 32 ∧ ∀ s ∈ c.strings, WellFormedUtf8 s := by
  by_cases hutf8 : ∀ s ∈ c.strings, WellFormedUtf8 s
  · have hcommand : ∀ s ∈ c.command.strings, WellFormedUtf8 s := fun s hs => hutf8 s ((mem_command_strings hnd).mp hs)
    obtain ⟨c', hparse, hsame⟩ := protobuf.roundTrip c.command (command_keysDistinct c) hcommand
    obtain ⟨headers, hperm, hreceived⟩ := received_of_parsed hsame hparse
    rw [hreceived, and_iff_left hutf8, ← toUInt32_toUInt64_eq_iff]
    constructor
    · rintro ⟨call, hcall, headers', -, rfl⟩
      exact congrArg InitializeConnection.maxRetries (Effect.initializeConnection.inj hcall)
    · intro hretries
      refine ⟨_, rfl, headers, hperm.trans (headers_perm hnd), ?_⟩
      rw [hretries]
  · refine iff_of_false ?_ fun h => hutf8 h.2
    rintro ⟨call, hcall, -⟩
    rw [received_of_invalid] at hcall
    · cases hcall
    · by_contra hall
      refine hutf8 fun s hs => ?_
      by_contra hbad
      exact hall ⟨s, (mem_command_strings hnd).mpr hs, hbad⟩

end

/-! ## A serializer and a parser with these properties -/

instance instCountableUInt8 : Countable UInt8 := Function.Injective.countable fun _ _ => UInt8.toNat_inj.mp
instance instCountableUInt32 : Countable UInt32 := Function.Injective.countable fun _ _ => UInt32.toNat_inj.mp
instance instCountableUInt64 : Countable UInt64 := Function.Injective.countable fun _ _ => UInt64.toNat_inj.mp
instance instCountableInt32 : Countable Int32 := Function.Injective.countable fun _ _ => Int32.toInt_inj.mp

deriving instance Countable for HttpEndpointSSLOptions, EstablishConnectionCommand, SendEndpointPayloadCommand, WorkerCommand,
  CommandType, CoordinatorCommand

/-- The messages can be numbered. -/
theorem exists_numbering : ∃ number : CoordinatorCommand → ℕ, Function.Injective number := Countable.exists_injective_nat _

open Classical in
/-- The message with number `n` as `n` bytes. -/
noncomputable def numbered : Protobuf where
  serializeToString c := List.replicate (exists_numbering.choose c) 0
  parseFromArray s :=
    if h : ∃ c : CoordinatorCommand, exists_numbering.choose c = s.length ∧ ∀ t ∈ c.strings, WellFormedUtf8 t then
      some h.choose
    else none
  roundTrip c _ hutf8 := by
    have h : ∃ c' : CoordinatorCommand, exists_numbering.choose c' =
        (List.replicate (exists_numbering.choose c) (0 : UInt8)).length ∧ ∀ t ∈ c'.strings, WellFormedUtf8 t :=
      ⟨c, List.length_replicate.symm, hutf8⟩
    refine ⟨c, ?_, ?_⟩
    · rw [dif_pos h, Option.some.injEq]
      exact exists_numbering.choose_spec (h.choose_spec.1.trans List.length_replicate)
    · exact .refl c
  invalidUtf8 c hbad := by
    refine dif_neg ?_
    rintro ⟨c', hnumber, hutf8⟩
    obtain rfl := exists_numbering.choose_spec (hnumber.trans List.length_replicate)
    obtain ⟨s, hs, hnot⟩ := hbad
    exact hnot (hutf8 s hs)

/-- An exporter that tries three times. -/
def exporterCall (maxRetries : UInt64) : InitializeConnection where
  endpointUrl := lit "https://collector:4318/v1/traces"
  endpointHash := 7
  contentType := lit "application/x-protobuf"
  endpointHeaders := [(lit "Authorization", lit "Bearer abc"), (lit "X-Tenant", lit "a")]
  timeout := 10000
  maxRetries := maxRetries
  retryDelay := 100
  sslOptions := { caInfo := lit "/etc/ca.pem" }

theorem sameCall_iff_witness :
    ∃ call, numbered.received (exporterCall 3) = .initializeConnection call ∧ (exporterCall 3).Same call := by
  refine (sameCall_iff numbered (exporterCall 3) (by decide)).mpr ⟨by decide, ?_⟩
  have hstrings : (exporterCall 3).strings = ["https://collector:4318/v1/traces", "application/x-protobuf", "Authorization",
      "Bearer abc", "X-Tenant", "a", "/etc/ca.pem", "", "", ""].map fun t => t.toList.flatMap String.utf8EncodeChar := by
    decide
  rw [hstrings]
  intro s hs
  obtain ⟨t, -, rfl⟩ := List.mem_map.mp hs
  exact ⟨t.toList, rfl⟩

/-- `2 ^ 32` retries arrive as none. -/
theorem retries_are_truncated :
    (exporterCall (2 ^ 32)).command.establishConnection.map (·.call.maxRetries) = some 0 ∧
      ¬ ∀ (protobuf : Protobuf) (c : InitializeConnection), (c.endpointHeaders.map Prod.fst).Nodup →
        ∃ call, protobuf.received c = .initializeConnection call ∧ c.Same call := by
  refine ⟨rfl, fun h => ?_⟩
  have hnd : ((exporterCall (2 ^ 32)).endpointHeaders.map Prod.fst).Nodup := by decide
  obtain ⟨call, hcall, headers, -, rfl⟩ := h numbered (exporterCall (2 ^ 32)) hnd
  have hutf8 : ∀ s ∈ (exporterCall (2 ^ 32)).command.strings, WellFormedUtf8 s := by
    by_contra hbad
    rw [received_of_invalid (by simpa using hbad)] at hcall
    cases hcall
  obtain ⟨c', hparse, hsame⟩ := numbered.roundTrip _ (command_keysDistinct _) hutf8
  obtain ⟨headers', -, hreceived⟩ := received_of_parsed hsame hparse
  have hretries : (exporterCall (2 ^ 32)).maxRetries.toUInt32.toUInt64 = (exporterCall (2 ^ 32)).maxRetries :=
    congrArg InitializeConnection.maxRetries (Effect.initializeConnection.inj (hreceived.symm.trans hcall))
  exact absurd hretries (by decide)

end OtelDistro.Coordinator.ConnectionCommand
