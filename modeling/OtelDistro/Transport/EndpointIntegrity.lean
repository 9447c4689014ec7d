import OtelDistro.Lib.Runs
import OtelDistro.Transport.HttpEndpoints

/-!
# OtelDistro.Transport.EndpointIntegrity — `add` calls that fail

`add` writes the map of endpoints before the map of connections, and each write may throw.

* `ConnectionOpens`: the call does not store an endpoint whose connection then cannot be opened.
* `System`, `step`: calls of `add` and `updateRetryDelay` in any order, and the hashes whose `add` returned.
* `Integrity`: every endpoint has its connection.

`failed_add_unchanged_iff`: a failed call leaves both maps as they were exactly under `ConnectionOpens`, and runs of such
calls keep `Integrity`; `endpoint_without_connection` is a call of the other kind.
-/

namespace OtelDistro.Transport.HttpEndpoints

open OtelDistro.Lib

/-! ## One call -/

section Add

variable {stdHash : Str → UInt64} {s : HttpEndpoints} {c : AddCall}

/-- The call has thrown nothing, or left both maps as they were. -/
def FailsCleanly (stdHash : Str → UInt64) (s : HttpEndpoints) (c : AddCall) : Prop :=
  ∀ e, (s.add stdHash c).2 = .error e → (s.add stdHash c).1 = s

/-- Unless the hash is new and no connection is open for the URL's origin, or `curl_easy_init` succeeds. -/
def ConnectionOpens (stdHash : Str → UInt64) (s : HttpEndpoints) (c : AddCall) : Prop :=
  s.endpoints.lookup c.endpointHash = none →
    ∀ id, connectionIdOf stdHash c.endpointUrl = some id → s.connections.lookup id = none → c.curlInit = true

/-- An error of the second `try_emplace` leaves the map of connections as it was. -/
theorem connect_error {id : UInt64} {e : Str} (h : (s.connect id c).2 = .error e) :
    s.connections.lookup id = none ∧ c.curlInit = false ∧ (s.connect id c).1 = s := by
  unfold connect at h ⊢
  cases hc : s.connections.lookup id with
  | some sender =>
    rw [hc] at h
    cases h
  | none =>
    rw [hc] at h
    cases hi : c.curlInit with
    | true =>
      simp [hi] at h
    | false => exact ⟨rfl, rfl, rfl⟩

theorem connect_of_missing {id : UInt64} (hc : s.connections.lookup id = none) (hi : c.curlInit = false) :
    s.connect id c = (s, .error (lit "curl_easy_init() failed")) := by
  unfold connect
  simp [hc, hi]

/-- A new endpoint goes in before its connection is opened. -/
theorem add_of_new {e : HttpEndpoint} (hnew : s.endpoints.lookup c.endpointHash = none)
    (he : c.toEndpoint stdHash = .ok e) : s.add stdHash c =
      connect { s with endpoints := s.endpoints.insert c.endpointHash e } e.connectionId c := by
  unfold add
  rw [hnew, he]

/-- A call for a hash that has an endpoint, or for a URL without connection details. -/
theorem add_unchanged_of_old (hold : (s.endpoints.lookup c.endpointHash).isSome ∨ connectionIdOf stdHash c.endpointUrl = none) :
    FailsCleanly stdHash s c := by
  intro err h
  unfold add at h ⊢
  cases he : s.endpoints.lookup c.endpointHash with
  | some e =>
    rw [he] at h
    exact (connect_error h).2.2
  | none =>
    rw [he] at h hold
    have hid : connectionIdOf stdHash c.endpointUrl = none := by simpa using hold
    unfold AddCall.toEndpoint at h ⊢
    rw [hid]

theorem failsCleanly_iff : FailsCleanly stdHash s c ↔ ConnectionOpens stdHash s c := by
  cases hnew : s.endpoints.lookup c.endpointHash with
  | some e =>
    refine ⟨fun _ hn => ?_, fun _ => add_unchanged_of_old (.inl (by rw [hnew]; rfl))⟩
    rw [hnew] at hn
    cases hn
  | none =>
    cases hid : connectionIdOf stdHash c.endpointUrl with
    | none =>
      refine ⟨fun _ _ id h => ?_, fun _ => add_unchanged_of_old (.inr hid)⟩
      rw [hid] at h
      cases h
    | some id =>
      have he : c.toEndpoint stdHash = .ok ⟨c.endpointUrl, c.maxRetries, c.retryDelay, id,
          curlHeaderLines c.contentType c.headers⟩ := by rw [AddCall.toEndpoint, hid]
      have hadd : s.add stdHash c = connect { s with endpoints := s.endpoints.insert c.endpointHash _ } id c :=
        add_of_new hnew he
      constructor
      · intro h hn id' hid' hconn
        rw [hid, Option.some.injEq] at hid'
        subst hid'
        cases hi : c.curlInit with
        | true => rfl
        | false =>
          -- the failed call has stored the endpoint
          have hfail := hadd.trans (connect_of_missing hconn hi)
          have hsame := h (lit "curl_easy_init() failed") (by rw [hfail])
          rw [hfail] at hsame
          have hlook := congrArg (fun t : HttpEndpoints => t.endpoints.lookup c.endpointHash) hsame
          simp only [hnew, AList.lookup_insert] at hlook
          cases hlook
      · intro hopen err herr
        rw [hadd] at herr
        obtain ⟨hconn, hi, -⟩ := connect_error herr
        have := hopen hnew id hid hconn
        rw [hi] at this
        cases this

end Add

/-! ## Sequences of calls -/

/-- The two maps, and the hashes whose `add` returned. -/
structure System where
  endpoints : HttpEndpoints := {}
  added : List UInt64 := []

inductive Action
  | add (c : AddCall)
  | updateRetryDelay (endpointHash : UInt64) (retryDelay : ℤ)

/-- A call that throws leaves what it did. -/
def step (stdHash : Str → UInt64) (s : System) : Action → Option System
  | .add c => some ⟨(s.endpoints.add stdHash c).1,
      if (s.endpoints.add stdHash c).2.isOk then c.endpointHash :: s.added else s.added⟩
  | .updateRetryDelay h d => some { s with endpoints := (s.endpoints.updateRetryDelay h d).toOption.getD s.endpoints }

def StepOpens (stdHash : Str → UInt64) (s : System) : Action → Prop
  | .add c => ConnectionOpens stdHash s.endpoints c
  | .updateRetryDelay _ _ => True

/-- Every endpoint has its connection, and every hash whose `add` returned has an endpoint. -/
structure Integrity (s : System) : Prop where
  connected : ∀ h e, s.endpoints.endpoints.lookup h = some e → (s.endpoints.connections.lookup e.connectionId).isSome
  added : ∀ h ∈ s.added, (s.endpoints.endpoints.lookup h).isSome

section Runs

variable {stdHash : Str → UInt64} {s t : System} {c : AddCall}

/-- Nothing is removed. -/
theorem add_mono (c : AddCall) (s : HttpEndpoints) :
    (∀ h, (s.endpoints.lookup h).isSome → ((s.add stdHash c).1.endpoints.lookup h).isSome) ∧
      ∀ id, (s.connections.lookup id).isSome → ((s.add stdHash c).1.connections.lookup id).isSome := by
  refine ⟨fun h hs => ?_, fun id hs => ?_⟩
  · rw [lookup_endpoints_add, Option.isSome_or, hs, Bool.true_or]
  · unfold add
    cases s.endpoints.lookup c.endpointHash with
    | some e => simp only [lookup_connect, Option.isSome_or, hs, Bool.true_or]
    | none =>
      cases c.toEndpoint stdHash with
      | error _ => exact hs
      | ok e => simp only [lookup_connect, Option.isSome_or, hs, Bool.true_or]

/-- A call that returns has the connection open. -/
theorem add_returned {opened : Bool} (h : (s.endpoints.add stdHash c).2 = .ok opened) : ∃ e,
    (s.endpoints.add stdHash c).1.endpoints.lookup c.endpointHash = some e ∧
      ((s.endpoints.add stdHash c).1.connections.lookup e.connectionId).isSome := by
  have hconnected : ∀ (u : HttpEndpoints) (id : UInt64), (u.connect id c).2 = .ok opened →
      ((u.connect id c).1.connections.lookup id).isSome := by
    intro u id hu
    rw [lookup_connect]
    cases hc : u.connections.lookup id with
    | some _ => rfl
    | none =>
      cases hi : c.curlInit with
      | true => simp
      | false =>
        rw [connect_of_missing hc hi] at hu
        cases hu
  unfold add at h ⊢
  cases he : s.endpoints.endpoints.lookup c.endpointHash with
  | some e =>
    rw [he] at h
    exact ⟨e, by rw [connect_endpoints]; exact he, hconnected _ _ h⟩
  | none =>
    rw [he] at h
    cases hn : c.toEndpoint stdHash with
    | error _ =>
      simp only [hn] at h
      cases h
    | ok e =>
      simp only [hn] at h
      exact ⟨e, by rw [connect_endpoints]; exact AList.lookup_insert _, hconnected _ _ h⟩

theorem Integrity.addCall (hI : Integrity s) (ho : ConnectionOpens stdHash s.endpoints c)
    (hs : step stdHash s (.add c) = some t) : Integrity t := by
  rw [step, Option.some.injEq] at hs
  cases hres : (s.endpoints.add stdHash c).2 with
  | error err =>
    rw [failsCleanly_iff.mpr ho err hres, hres] at hs
    exact hs ▸ hI
  | ok opened =>
    obtain ⟨e', he', hconn'⟩ := add_returned hres
    rw [hres] at hs
    refine hs ▸ ⟨fun h e he => ?_, fun h hh => ?_⟩
    · by_cases hh : c.endpointHash = h
      · subst hh
        rw [he', Option.some.injEq] at he
        exact he ▸ hconn'
      · rw [lookup_endpoints_add, if_neg hh, Option.or_none] at he
        exact (add_mono c s.endpoints).2 _ (hI.connected h e he)
    · rcases List.mem_cons.mp hh with rfl | hh
      · rw [he']
        rfl
      · exact (add_mono c s.endpoints).1 h (hI.added h hh)

theorem Integrity.updateRetryDelay (hI : Integrity s) {h : UInt64} {d : ℤ}
    (hs : step stdHash s (.updateRetryDelay h d) = some t) : Integrity t := by
  rw [HttpEndpoints.step, HttpEndpoints.updateRetryDelay, Option.some.injEq] at hs
  cases he : s.endpoints.endpoints.lookup h with
  | none =>
    rw [he] at hs
    exact hs ▸ hI
  | some e =>
    rw [he] at hs
    refine hs ▸ ⟨fun h' e' he' => ?_, fun h' hh => ?_⟩
    · simp only [Except.toOption, Option.getD_some, KMap.lookup_insert'] at he' ⊢
      by_cases hh : h = h'
      · rw [if_pos hh, Option.some.injEq] at he'
        subst he'
        exact hI.connected h e he
      · rw [if_neg hh] at he'
        exact hI.connected h' e' he'
    · simp only [Except.toOption, Option.getD_some, KMap.lookup_insert']
      by_cases hh' : h = h'
      · rw [if_pos hh']
        rfl
      · rw [if_neg hh']
        exact hI.added h' hh

theorem Integrity.step {a : Action} (hI : Integrity s) (ho : StepOpens stdHash s a) (hs : step stdHash s a = some t) :
    Integrity t := by
  cases a with
  | add c => exact hI.addCall ho hs
  | updateRetryDelay h d => exact hI.updateRetryDelay hs

theorem integrity_init : Integrity {} :=
  ⟨fun _ _ he => (by cases he), fun _ hh => (by cases hh)⟩

theorem Integrity.getConnection (hI : Integrity s) {h : UInt64} (hh : h ∈ s.added) :
    ∃ conn, s.endpoints.getConnection h = .ok conn := by
  obtain ⟨e, he⟩ := Option.isSome_iff_exists.mp (hI.added h hh)
  obtain ⟨sender, hsender⟩ := Option.isSome_iff_exists.mp (hI.connected h e he)
  unfold HttpEndpoints.getConnection
  rw [he]
  simp only [hsender]
  exact ⟨_, rfl⟩

end Runs

/-! ## Main results -/

/-- What the two maps are meant to keep: a failed call changes neither, every endpoint has its connection, and the hashes whose
`add` returned have one. -/
structure Intact (stdHash : Str → UInt64) (s : System) : Prop where
  connected : ∀ h e, s.endpoints.endpoints.lookup h = some e → (s.endpoints.connections.lookup e.connectionId).isSome
  getConnection : ∀ h ∈ s.added, ∃ conn, s.endpoints.getConnection h = .ok conn

/-- **Failed calls of `add`**: in every state a call that throws leaves both maps as they were exactly when it does not
store an endpoint whose connection cannot be opened; runs of such calls keep the maps intact. -/
theorem failed_add_unchanged_iff (stdHash : Str → UInt64) :
    (∀ s c, FailsCleanly stdHash s c ↔ ConnectionOpens stdHash s c) ∧
      ∀ as s, Path (step stdHash) (StepOpens stdHash) {} as s → Intact stdHash s := by
  refine ⟨fun s c => failsCleanly_iff, fun as s h => ?_⟩
  have hI : Integrity s := h.invariant (fun _ _ _ hI ho hs => hI.step ho hs) integrity_init
  exact ⟨hI.connected, fun h hh => hI.getConnection hh⟩

/-- A call for `http://a/` whose connection cannot be opened. -/
def noCurl : AddCall := { endpointUrl := lit "http://a/", endpointHash := 1, timeout := 100, sslOptions := {}, curlInit := false }

/-- A second hash of the same origin needs no new connection, so `curl_easy_init` is not called for it. -/
theorem failed_add_unchanged_iff_same_origin : ∃ s, run (step sampleHash) {} [.add { noCurl with curlInit := true },
    .add { noCurl with endpointHash := 2 }] = some s ∧ Intact sampleHash s := by
  have h1 : StepOpens sampleHash {} (.add { noCurl with curlInit := true }) := fun _ _ _ _ => rfl
  have h2 : ∀ s, step sampleHash {} (.add { noCurl with curlInit := true }) = some s →
      StepOpens sampleHash s (.add { noCurl with endpointHash := 2 }) := by
    rintro s hs _ id hid hconn
    obtain rfl := Option.some.inj hs
    obtain rfl := Option.some.inj hid
    cases hconn
  have hp : Path (step sampleHash) (StepOpens sampleHash) {} [.add { noCurl with curlInit := true },
      .add { noCurl with endpointHash := 2 }] _ := .cons h1 rfl (.cons (h2 _ rfl) rfl (.nil _))
  exact ⟨_, hp.run_eq, (failed_add_unchanged_iff sampleHash).2 _ _ hp⟩

/-- **An endpoint without connection**: the call throws, its endpoint stays, and `getConnection` throws. -/
theorem endpoint_without_connection : ∃ e, (add sampleHash {} noCurl).2 = .error e ∧
    ((add sampleHash {} noCurl).1.endpoints.lookup 1).isSome ∧ ¬ FailsCleanly sampleHash {} noCurl ∧
    ∃ e', (add sampleHash {} noCurl).1.getConnection 1 = .error e' := by
  refine ⟨_, rfl, rfl, fun h => ?_, _, rfl⟩
  have hsame := congrArg (fun t : HttpEndpoints => (t.endpoints.lookup 1).isSome) (h _ rfl)
  cases hsame

end OtelDistro.Transport.HttpEndpoints
