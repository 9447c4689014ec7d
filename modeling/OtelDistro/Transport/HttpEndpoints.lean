import OtelDistro.Bytes
import OtelDistro.Lib.KeyedStore

/-!
# OtelDistro.Transport.HttpEndpoints — endpoints by URL hash, connections by origin

* `getConnectionDetailsFromURL`: scheme, host and explicit port of a URL, by a regular expression search.
* `HttpEndpoint`: what is kept of an `add` for the endpoint; its connection id is the hash of the details.
* `CurlSender`: what a connection was constructed with.
* `add`: `try_emplace` on both maps, so the first endpoint of a hash and the first connection of an id win.

`lookup_endpoints_add`, `lookup_connections_add` say what one `add` does to a key.  `sender_options_iff`: an endpoint
is sent with its own timeout and TLS options exactly when the first connection opened for its origin has the same;
`firstAdd_decides_tls` is an endpoint that verifies certificates and is sent without verification.
-/

namespace OtelDistro.Transport

open OtelDistro.Lib

/-! ## Connection details of a URL -/

/-- The line separators after which `^` matches. -/
def isSeparator (c : UInt8) : Bool := c == 10 || c == 13 || c == 12

/-- `^` between `prev` and `s`: the start of the text or of a line, but not inside `"\r\n"`. -/
def atLineStart (prev : Option UInt8) (s : Str) : Bool :=
  prev.all fun c => isSeparator c && !(c == 13 && s.head? == some 10)

/-- `(?::(\d+))?` -/
def portDigits : Str → Str
  | 58 :: s => s.takeWhile fun c => 48 ≤ c && c ≤ 57
  | _ => []

/-- `((https?):\/\/([^\/:]+))(?::(\d+))?` at the start of `s`. -/
def matchDetails (s : Str) : Option Str :=
  (s.dropPrefix? (lit "http")).bind fun s =>
    let (scheme, s) := match s.dropPrefix? (lit "s") with
      | some s => (lit "https", s)
      | none => (lit "http", s)
    (s.dropPrefix? (lit "://")).bind fun s =>
      let host := s.takeWhile fun c => c != 47 && c != 58
      let port := portDigits (s.dropWhile fun c => c != 47 && c != 58)
      if host.isEmpty then none
      else if port.isEmpty then some (scheme ++ lit "://" ++ host)
      else some (scheme ++ lit "://" ++ host ++ lit ":" ++ port)

/-- `regex_search` from a position on. -/
def searchDetails : Option UInt8 → Str → Option Str
  | _, [] => none
  | prev, c :: s =>
    match if atLineStart prev (c :: s) then matchDetails (c :: s) else none with
    | some details => some details
    | none => searchDetails (some c) s

def getConnectionDetailsFromURL (url : Str) : Option Str := searchDetails none url

example : getConnectionDetailsFromURL (lit "http://localhost:8080/?query=asdsad") = some (lit "http://localhost:8080") := by
  decide

example : getConnectionDetailsFromURL (lit "ftp:://localhost") = none := by decide

/-! ## Endpoints and connections -/

structure HttpEndpointSSLOptions where
  insecureSkipVerify : Bool := false
  caInfo : Str := []
  cert : Str := []
  certKey : Str := []
  certKeyPassword : Str := []
deriving DecidableEq

/-- The arguments a connection was constructed with; times are in milliseconds. -/
structure CurlSender where
  timeout : ℤ
  sslOptions : HttpEndpointSSLOptions
deriving DecidableEq

structure HttpEndpoint where
  endpoint : Str
  maxRetries : UInt64
  retryDelay : ℤ
  connectionId : UInt64
  curlHeaders : List Str

/-- The lines of `fillCurlHeaders`; `curl_slist_append` takes them as C strings. -/
def curlHeaderLines (contentType : Str) (headers : List (Str × Str)) : List Str :=
  (if contentType.isEmpty then [] else [cStr (lit "Content-Type: " ++ contentType)]) ++
    headers.map fun h => cStr (h.1 ++ lit ": " ++ h.2)

/-- One call of `add`; `curlInit`: `curl_easy_init` succeeds, should a connection be opened. -/
structure AddCall where
  endpointUrl : Str
  endpointHash : UInt64
  contentType : Str := []
  headers : List (Str × Str) := []
  timeout : ℤ
  maxRetries : UInt64 := 1
  retryDelay : ℤ := 0
  sslOptions : HttpEndpointSSLOptions
  curlInit : Bool := true

section Endpoints

variable (stdHash : Str → UInt64)

/-- The connection id of the URL; `stdHash` is `std::hash<std::string>`. -/
def connectionIdOf (url : Str) : Option UInt64 := (getConnectionDetailsFromURL url).map stdHash

/-- The constructor of `HttpEndpoint`. -/
def AddCall.toEndpoint (c : AddCall) : Except Str HttpEndpoint :=
  match connectionIdOf stdHash c.endpointUrl with
  | none => .error (lit "Unable to parse connection details from endpoint: " ++ c.endpointUrl)
  | some id => .ok ⟨c.endpointUrl, c.maxRetries, c.retryDelay, id, curlHeaderLines c.contentType c.headers⟩

structure HttpEndpoints where
  endpoints : KMap UInt64 HttpEndpoint := ∅
  connections : KMap UInt64 CurlSender := ∅

namespace HttpEndpoints

/-- The second `try_emplace` of `add`; the result says whether a connection was opened. -/
def connect (s : HttpEndpoints) (connectionId : UInt64) (c : AddCall) : HttpEndpoints × Except Str Bool :=
  match s.connections.lookup connectionId with
  | some _ => (s, .ok false)
  | none =>
    if c.curlInit then ({ s with connections := s.connections.insert connectionId ⟨c.timeout, c.sslOptions⟩ }, .ok true)
    else (s, .error (lit "curl_easy_init() failed"))

def add (s : HttpEndpoints) (c : AddCall) : HttpEndpoints × Except Str Bool :=
  match s.endpoints.lookup c.endpointHash with
  | some e => s.connect e.connectionId c
  | none =>
    match c.toEndpoint stdHash with
    | .error e => (s, .error e)
    | .ok e => connect { s with endpoints := s.endpoints.insert c.endpointHash e } e.connectionId c

/-- What `getConnection` returns. -/
structure Connection where
  endpoint : Str
  headers : List Str
  connectionId : UInt64
  sender : CurlSender
  maxRetries : UInt64
  retryDelay : ℤ

/-- `std::hex`. -/
def hex (n : UInt64) : Str := (Nat.toDigits 16 n.toNat).map fun c => c.toNat.toUInt8

def getConnection (s : HttpEndpoints) (endpointHash : UInt64) : Except Str Connection :=
  match s.endpoints.lookup endpointHash with
  | none => .error (lit "HttpEnpoints missing enpointHash:" ++ hex endpointHash)
  | some e =>
    match s.connections.lookup e.connectionId with
    | none => .error (lit "HttpEndpoints enpointHash:" ++ hex endpointHash ++ lit " missing connectionId " ++
        hex e.connectionId)
    | some sender => .ok ⟨e.endpoint, e.curlHeaders, e.connectionId, sender, max 1 e.maxRetries, e.retryDelay⟩

def updateRetryDelay (s : HttpEndpoints) (endpointHash : UInt64) (retryDelay : ℤ) : Except Str HttpEndpoints :=
  match s.endpoints.lookup endpointHash with
  | none => .error (lit "HttpEnpoints can't update retryDelay for missing enpointHash:" ++ hex endpointHash)
  | some e => .ok { s with endpoints := s.endpoints.insert endpointHash { e with retryDelay := retryDelay } }

/-- A sequence of `add` calls. -/
def addAll (s : HttpEndpoints) (calls : List AddCall) : HttpEndpoints :=
  calls.foldl (fun s c => (s.add stdHash c).1) s

end HttpEndpoints

end Endpoints

/-! ## What one `add` does to a key -/

namespace HttpEndpoints

section Add

variable {stdHash : Str → UInt64} {s : HttpEndpoints} {c : AddCall}

theorem connect_endpoints (id : UInt64) : (s.connect id c).1.endpoints = s.endpoints := by
  unfold connect
  split
  · rfl
  · split <;> rfl

theorem lookup_connect (id id' : UInt64) : (s.connect id c).1.connections.lookup id' =
    (s.connections.lookup id').or (if id = id' ∧ c.curlInit then some ⟨c.timeout, c.sslOptions⟩ else none) := by
  unfold connect
  cases hc : s.connections.lookup id with
  | some sender =>
    by_cases h : id = id'
    · subst h
      simp [hc]
    · simp [h]
  | none =>
    by_cases hi : c.curlInit = true
    · simp only [hi, if_true]
      rw [KMap.lookup_insert']
      by_cases h : id = id'
      · subst h
        simp [hc]
      · simp [h]
    · simp [hi]

/-- First wins: an endpoint hash keeps its endpoint. -/
theorem lookup_endpoints_add (h : UInt64) : (s.add stdHash c).1.endpoints.lookup h =
    (s.endpoints.lookup h).or (if c.endpointHash = h then (c.toEndpoint stdHash).toOption else none) := by
  unfold add
  cases he : s.endpoints.lookup c.endpointHash with
  | some e =>
    simp only [connect_endpoints]
    by_cases hh : c.endpointHash = h
    · subst hh
      simp [he]
    · simp [hh]
  | none =>
    cases hn : c.toEndpoint stdHash with
    | error e => simp [Except.toOption]
    | ok e =>
      simp only [connect_endpoints]
      rw [KMap.lookup_insert']
      by_cases hh : c.endpointHash = h
      · subst hh
        simp [he, Except.toOption]
      · simp [hh]

/-- First wins: a connection id keeps its connection.  A new endpoint connects under the id of its own URL. -/
theorem lookup_connections_add (hnew : s.endpoints.lookup c.endpointHash = none) (id : UInt64) :
    (s.add stdHash c).1.connections.lookup id = (s.connections.lookup id).or
      (if connectionIdOf stdHash c.endpointUrl = some id ∧ c.curlInit then some ⟨c.timeout, c.sslOptions⟩ else none) := by
  unfold add
  rw [hnew]
  unfold AddCall.toEndpoint
  cases hid : connectionIdOf stdHash c.endpointUrl with
  | none => simp
  | some id' => simp only [lookup_connect, Option.some.injEq]

theorem getConnection_sender_iff {h : UInt64} {e : HttpEndpoint} {x : CurlSender} (he : s.endpoints.lookup h = some e) :
    (∃ conn, s.getConnection h = .ok conn ∧ conn.sender = x) ↔ s.connections.lookup e.connectionId = some x := by
  unfold getConnection
  rw [he]
  cases hc : s.connections.lookup e.connectionId with
  | none => simp [hc]
  | some y => simp [hc]

end Add

/-! ## A sequence of calls with distinct hashes -/

section AddAll

variable {stdHash : Str → UInt64} {s : HttpEndpoints} {calls : List AddCall} {c : AddCall}

theorem addAll_cons : s.addAll stdHash (c :: calls) = (s.add stdHash c).1.addAll stdHash calls := rfl

/-- The endpoint of the first call under a hash that has one. -/
def firstEndpoint (stdHash : Str → UInt64) (calls : List AddCall) (h : UInt64) : Option HttpEndpoint :=
  calls.findSome? fun c => if c.endpointHash = h then (c.toEndpoint stdHash).toOption else none

/-- The first call that opens a connection under an id. -/
def firstOpener (stdHash : Str → UInt64) (calls : List AddCall) (id : UInt64) : Option AddCall :=
  calls.find? fun c => connectionIdOf stdHash c.endpointUrl = some id ∧ c.curlInit

theorem firstEndpoint_cons (h : UInt64) : firstEndpoint stdHash (c :: calls) h =
    (if c.endpointHash = h then (c.toEndpoint stdHash).toOption else none).or (firstEndpoint stdHash calls h) := by
  rw [firstEndpoint, List.findSome?_cons]
  cases (if c.endpointHash = h then (c.toEndpoint stdHash).toOption else none) <;> rfl

theorem firstOpener_cons (id : UInt64) : firstOpener stdHash (c :: calls) id =
    if connectionIdOf stdHash c.endpointUrl = some id ∧ c.curlInit then some c else firstOpener stdHash calls id := by
  rw [firstOpener, List.find?_cons]
  by_cases h : connectionIdOf stdHash c.endpointUrl = some id ∧ c.curlInit = true <;> simp [h, firstOpener]

theorem lookup_endpoints_addAll (h : UInt64) : (s.addAll stdHash calls).endpoints.lookup h =
    (s.endpoints.lookup h).or (firstEndpoint stdHash calls h) := by
  induction calls generalizing s with
  | nil => simp [addAll, firstEndpoint]
  | cons c calls ih =>
    rw [addAll_cons, ih, lookup_endpoints_add, firstEndpoint_cons, Option.or_assoc]

theorem lookup_connections_addAll (hnew : ∀ c ∈ calls, s.endpoints.lookup c.endpointHash = none)
    (hnd : (calls.map AddCall.endpointHash).Nodup) (id : UInt64) :
    (s.addAll stdHash calls).connections.lookup id = (s.connections.lookup id).or
      ((firstOpener stdHash calls id).map fun d => ⟨d.timeout, d.sslOptions⟩) := by
  induction calls generalizing s with
  | nil => simp [addAll, firstOpener]
  | cons c calls ih =>
    rw [List.map_cons, List.nodup_cons] at hnd
    have hnew' : ∀ d ∈ calls, (s.add stdHash c).1.endpoints.lookup d.endpointHash = none := by
      intro d hd
      have hne : c.endpointHash ≠ d.endpointHash := fun e => hnd.1 (e ▸ List.mem_map_of_mem hd)
      rw [lookup_endpoints_add, hnew d (List.mem_cons_of_mem _ hd), if_neg hne]
      rfl
    rw [addAll_cons, ih hnew' hnd.2, lookup_connections_add (hnew c List.mem_cons_self), firstOpener_cons,
      Option.or_assoc]
    by_cases hopen : connectionIdOf stdHash c.endpointUrl = some id ∧ c.curlInit = true
    · rw [if_pos hopen, if_pos hopen]
      rfl
    · rw [if_neg hopen, if_neg hopen, Option.none_or]

/-- No call under a hash: no endpoint. -/
theorem firstEndpoint_of_notMem {h : UInt64} (hh : h ∉ calls.map AddCall.endpointHash) :
    firstEndpoint stdHash calls h = none := by
  refine List.findSome?_eq_none_iff.mpr fun d hd => if_neg fun e => hh ?_
  exact List.mem_map.mpr ⟨d, hd, e⟩

/-- Distinct hashes: every call finds its own endpoint. -/
theorem firstEndpoint_of_mem (hnd : (calls.map AddCall.endpointHash).Nodup) (hc : c ∈ calls) :
    firstEndpoint stdHash calls c.endpointHash = (c.toEndpoint stdHash).toOption := by
  induction calls with
  | nil => cases hc
  | cons d calls ih =>
    rw [List.map_cons, List.nodup_cons] at hnd
    rw [firstEndpoint_cons]
    rcases List.mem_cons.mp hc with rfl | hc
    · rw [if_pos rfl, firstEndpoint_of_notMem hnd.1, Option.or_none]
    · have hne : d.endpointHash ≠ c.endpointHash := fun e => hnd.1 (e.symm ▸ List.mem_map_of_mem hc)
      rw [if_neg hne, Option.none_or]
      exact ih hnd.2 hc

end AddAll

/-! ## Main results -/

/-- `getConnection` returns a sender that was constructed with the timeout and TLS options of the call. -/
def SentAsConfigured (stdHash : Str → UInt64) (calls : List AddCall) (c : AddCall) : Prop :=
  ∃ conn, (addAll stdHash {} calls).getConnection c.endpointHash = .ok conn ∧ conn.sender = ⟨c.timeout, c.sslOptions⟩

/-- **Whose options a connection has**: after a sequence of `add` calls with distinct hashes, the sender of an
endpoint with a parsable URL has the endpoint's timeout and TLS options exactly when the first call that opened a connection
for the same connection id has the same ones. -/
theorem sender_options_iff (stdHash : Str → UInt64) (calls : List AddCall) (c : AddCall)
    (hnd : (calls.map AddCall.endpointHash).Nodup) (hc : c ∈ calls)
    (hparse : (getConnectionDetailsFromURL c.endpointUrl).isSome) :
    SentAsConfigured stdHash calls c ↔ ∃ id d, connectionIdOf stdHash c.endpointUrl = some id ∧
      firstOpener stdHash calls id = some d ∧ d.timeout = c.timeout ∧ d.sslOptions = c.sslOptions := by
  obtain ⟨details, hdetails⟩ := Option.isSome_iff_exists.mp hparse
  have hid : connectionIdOf stdHash c.endpointUrl = some (stdHash details) := by
    rw [connectionIdOf, hdetails]
    rfl
  have hendpoint : (addAll stdHash {} calls).endpoints.lookup c.endpointHash = some ⟨c.endpointUrl, c.maxRetries,
      c.retryDelay, stdHash details, curlHeaderLines c.contentType c.headers⟩ := by
    rw [lookup_endpoints_addAll, firstEndpoint_of_mem hnd hc, AddCall.toEndpoint, hid]
    rfl
  have hconnection : (addAll stdHash {} calls).connections.lookup (stdHash details) = _ :=
    lookup_connections_addAll (fun d _ => rfl) hnd (stdHash details)
  rw [show ({} : HttpEndpoints).connections.lookup (stdHash details) = none from rfl, Option.none_or] at hconnection
  rw [SentAsConfigured, getConnection_sender_iff hendpoint, hconnection, Option.map_eq_some_iff, hid]
  simp only [CurlSender.mk.injEq]
  constructor
  · rintro ⟨d, hopen, heq⟩
    exact ⟨_, d, rfl, hopen, heq⟩
  · rintro ⟨id, d, h, hopen, heq⟩
    obtain rfl := Option.some.inj h
    exact ⟨d, hopen, heq⟩

/-- A hash function for concrete runs. -/
def sampleHash (s : Str) : UInt64 := s.foldl (fun h b => h * 31 + b.toUInt64) 7

/-- An endpoint that verifies certificates, and one on the same server that does not. -/
def verified : AddCall :=
  { endpointUrl := lit "https://host/v1/traces", endpointHash := 1, timeout := 100, sslOptions := {} }

def unverified : AddCall :=
  { endpointUrl := lit "https://host/v1/opamp", endpointHash := 2, timeout := 100,
    sslOptions := { insecureSkipVerify := true } }

/-- Alone on its server an endpoint has its own options. -/
theorem sender_options_iff_witness : SentAsConfigured sampleHash [verified] verified := by
  refine (sender_options_iff sampleHash [verified] verified (by decide) (List.mem_singleton.mpr rfl) (by decide)).mpr ?_
  exact ⟨_, verified, rfl, rfl, rfl, rfl⟩

/-- **The first `add` of a server decides its TLS options**: the second endpoint verifies certificates and is sent
without verification. -/
theorem firstAdd_decides_tls : ¬ ∀ (stdHash : Str → UInt64) (calls : List AddCall) (c : AddCall),
    (calls.map AddCall.endpointHash).Nodup → (∀ d ∈ calls, (getConnectionDetailsFromURL d.endpointUrl).isSome) →
      c ∈ calls → SentAsConfigured stdHash calls c := by
  intro h
  have hparse : ∀ d ∈ [unverified, verified], (getConnectionDetailsFromURL d.endpointUrl).isSome := by decide
  obtain ⟨conn, hconn, hs⟩ := h sampleHash [unverified, verified] verified (by decide) hparse (by simp)
  obtain rfl := Except.ok.inj hconn
  revert hs
  decide

end HttpEndpoints

end OtelDistro.Transport
