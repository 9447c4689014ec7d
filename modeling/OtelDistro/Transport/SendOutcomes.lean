import OtelDistro.Transport.Send

/-!
# OtelDistro.Transport.SendOutcomes — when `send` gives a payload up

The condition of the retry loop, the two tests of the status code, the exceptions and the response callback decide it together.

* `Outcome.Decisive`, `Outcome.Retriable`: what an attempt's outcome asks for; a transport failure is neither.
* `PlaceInv`: what the record of a turn holds where the thread stands.
* `Underway`, `Abandoned`: the attempts and calls of a payload, and why its turn ended.

`abandoned_of_run`: every run; `transport_failure_abandons` is a payload that is given up after the first of three attempts.
-/

namespace OtelDistro.Transport.Sending

open OtelDistro.Lib

/-- A 2xx status, or a 4xx status other than 408 and 429. -/
def Outcome.Decisive : Outcome → Prop
  | .response code => (isSuccess code || isClientError code) = true
  | .failure => False

/-- Another status. -/
def Outcome.Retriable : Outcome → Prop
  | .response code => (isSuccess code || isClientError code) = false
  | .failure => False

instance : DecidablePred Outcome.Decisive
  | .response code => inferInstanceAs (Decidable ((isSuccess code || isClientError code) = true))
  | .failure => inferInstanceAs (Decidable False)

theorem Outcome.Retriable.not_decisive {o : Outcome} (h : o.Retriable) : ¬ o.Decisive := by
  cases o with
  | response code =>
    intro hd
    rw [Retriable] at h
    rw [Decisive, h] at hd
    cases hd
  | failure => exact h.elim

/-! ## Records -/

/-- No attempt follows one that was decided or failed; the callback is called for the status that decided. -/
structure Underway (r : Record) : Prop where
  again : ∀ o ∈ r.outcomes.dropLast, o.Retriable
  within : ∀ limit, r.limit = some limit → r.outcomes.length ≤ limit.toNat
  callbacks : r.callbacks = [] ∨ ∃ code body, r.callbacks = [(code, body)] ∧ r.payload.callback = true ∧
    r.outcomes.getLast? = some (.response code) ∧ (Outcome.response code).Decisive

/-- Why the turn of the payload ended; without a connection (`limit` is `none`) there is no attempt. -/
structure Abandoned (e : HttpEndpoints) (r : Record) : Prop extends Underway r where
  unknown : r.limit = none → r.outcomes = []
  known : ∀ limit, r.limit = some limit → ∃ m, maxRetriesOf e r.payload.endpointHash = some m ∧
    limit.toNat = max 1 m.toNat ∧ ∃ last, r.outcomes.getLast? = some last ∧
      (last.Decisive ∨ last = .failure ∨ r.outcomes.length = max 1 m.toNat)
  called : r.payload.callback = true → (∃ o ∈ r.outcomes, o.Decisive) → r.callbacks ≠ []

/-- `n` attempts so far, all of them answered with a retriable status. -/
structure Trying (e : HttpEndpoints) (r : Record) (conn : HttpEndpoints.Connection) (n : ℕ) : Prop where
  limit : r.limit = some conn.maxRetries
  configured : ∃ m, maxRetriesOf e r.payload.endpointHash = some m ∧ conn.maxRetries.toNat = max 1 m.toNat
  retriable : ∀ o ∈ r.outcomes, o.Retriable
  length : r.outcomes.length = n
  silent : r.callbacks = []

/-- The last of the attempts was decided, and the callback not called yet. -/
structure Decided (e : HttpEndpoints) (r : Record) (code : Int16) : Prop where
  attempts : ∃ earlier conn n, Trying e { r with outcomes := earlier } conn n ∧ n < conn.maxRetries.toNat ∧
    r.outcomes = earlier ++ [.response code]
  decisive : (Outcome.response code).Decisive
  callback : r.payload.callback = true

def PlaceInv (e : HttpEndpoints) (r : Record) : Place → Prop
  | .connecting => r = { payload := r.payload }
  | .attempting conn retry => Trying e r conn retry.toNat ∧ retry.toNat ≤ conn.maxRetries.toNat
  | .inFlight conn retry => Trying e r conn retry.toNat ∧ retry.toNat < conn.maxRetries.toNat
  | .responding code _ => Decided e r code
  | .sleeping conn retry => Trying e r conn retry.toNat ∧ retry.toNat ≤ conn.maxRetries.toNat
  | .relocking => Abandoned e r
  | .terminated => Underway r

/-- The invariant. -/
structure OutcomesInv (s : Sender) : Prop where
  turn : ∀ r place, s.turn = some ⟨r, place⟩ → PlaceInv s.endpoints r place
  finished : ∀ r ∈ s.finished, Abandoned s.endpoints r

section Records

variable {e e' : HttpEndpoints} {r : Record} {conn : HttpEndpoints.Connection} {n : ℕ} {code : Int16} {place : Place}

theorem Abandoned.mono (hA : Abandoned e r) (h : KeepsLimits e e') : Abandoned e' r := by
  refine ⟨hA.toUnderway, hA.unknown, fun limit hlimit => ?_, hA.called⟩
  obtain ⟨m, hm, hrest⟩ := hA.known limit hlimit
  exact ⟨m, h _ _ hm, hrest⟩

theorem Trying.mono (hT : Trying e r conn n) (h : KeepsLimits e e') : Trying e' r conn n := by
  obtain ⟨m, hm, hmax⟩ := hT.configured
  exact ⟨hT.limit, ⟨m, h _ _ hm, hmax⟩, hT.retriable, hT.length, hT.silent⟩

theorem PlaceInv.mono (hP : PlaceInv e r place) (h : KeepsLimits e e') : PlaceInv e' r place := by
  cases place with
  | connecting => exact hP
  | attempting conn retry => exact ⟨hP.1.mono h, hP.2⟩
  | inFlight conn retry => exact ⟨hP.1.mono h, hP.2⟩
  | responding code body =>
    obtain ⟨earlier, conn, n, hT, hrest⟩ := hP.attempts
    exact ⟨⟨earlier, conn, n, hT.mono h, hrest⟩, hP.decisive, hP.callback⟩
  | sleeping conn retry => exact ⟨hP.1.mono h, hP.2⟩
  | relocking => exact Abandoned.mono hP h
  | terminated => exact hP

/-- A payload without a connection. -/
theorem abandoned_begun (h : r = { payload := r.payload }) : Abandoned e r := by
  rw [h]
  refine ⟨⟨?_, ?_, .inl rfl⟩, fun _ => rfl, ?_, ?_⟩
  · intro o ho
    cases ho
  · intro limit hlimit
    cases hlimit
  · intro limit hlimit
    cases hlimit
  · rintro - ⟨o, ho, -⟩
    cases ho

theorem Trying.limit_eq (hT : Trying e r conn n) {limit : UInt64} (h : r.limit = some limit) : limit = conn.maxRetries := by
  rw [hT.limit, Option.some.injEq] at h
  exact h.symm

/-- The attempts are used up. -/
theorem Trying.abandoned (hT : Trying e r conn n) (hn : n = conn.maxRetries.toNat) : Abandoned e r := by
  obtain ⟨m, hm, hmax⟩ := hT.configured
  have hlen : r.outcomes.length = max 1 m.toNat := by rw [hT.length, hn, hmax]
  have hne : r.outcomes ≠ [] := List.ne_nil_of_length_pos (by omega)
  refine ⟨⟨?_, ?_, .inl hT.silent⟩, ?_, ?_, ?_⟩
  · intro o ho
    exact hT.retriable o (List.dropLast_subset _ ho)
  · intro limit h
    rw [hT.limit_eq h, hT.length, hn]
  · intro h
    rw [hT.limit] at h
    cases h
  · intro limit h
    exact ⟨m, hm, by rw [hT.limit_eq h, hmax], _, List.getLast?_eq_some_getLast hne, .inr (.inr hlen)⟩
  · rintro - ⟨o, ho, hd⟩
    exact absurd hd (hT.retriable o ho).not_decisive

/-- The record behind the last attempt. -/
theorem Trying.underway_last (hT : Trying e r conn n) (hn : n < conn.maxRetries.toNat) {last : Outcome}
    {callbacks : List (Int16 × Str)} (hcallbacks : callbacks = [] ∨ ∃ code body, callbacks = [(code, body)] ∧
      r.payload.callback = true ∧ last = .response code ∧ last.Decisive) :
    Underway { r with outcomes := r.outcomes ++ [last], callbacks := callbacks } := by
  refine ⟨?_, ?_, ?_⟩
  · intro o ho
    rw [List.dropLast_concat] at ho
    exact hT.retriable o ho
  · intro limit h
    have := hT.length
    rw [hT.limit_eq h, List.length_append, List.length_singleton]
    omega
  · rcases hcallbacks with h | ⟨code, body, h, hcallback, rfl, hd⟩
    · exact .inl h
    · exact .inr ⟨code, body, h, hcallback, List.getLast?_concat, hd⟩

/-- It was decided, or `sendPayload` threw. -/
theorem Trying.abandoned_last (hT : Trying e r conn n) {last : Outcome} {callbacks : List (Int16 × Str)}
    (hU : Underway { r with outcomes := r.outcomes ++ [last], callbacks := callbacks })
    (hlast : last.Decisive ∨ last = .failure) (hcalled : r.payload.callback = true → last.Decisive → callbacks ≠ []) :
    Abandoned e { r with outcomes := r.outcomes ++ [last], callbacks := callbacks } := by
  obtain ⟨m, hm, hmax⟩ := hT.configured
  refine ⟨hU, ?_, ?_, ?_⟩
  · intro h
    have hsome := hT.limit
    rw [show r.limit = none from h] at hsome
    cases hsome
  · intro limit h
    refine ⟨m, hm, by rw [hT.limit_eq h, hmax], last, List.getLast?_concat, ?_⟩
    rcases hlast with h | h
    · exact .inl h
    · exact .inr (.inl h)
  · rintro hcallback ⟨o, ho, hd⟩
    rcases List.mem_append.mp ho with ho | ho
    · exact absurd hd (hT.retriable o ho).not_decisive
    · obtain rfl := List.mem_singleton.mp ho
      exact hcalled hcallback hd

theorem PlaceInv.underway (hP : PlaceInv e r place) : Underway r := by
  have htrying : ∀ conn n, Trying e r conn n → n ≤ conn.maxRetries.toNat → Underway r := by
    intro conn n hT hn
    refine ⟨fun o ho => hT.retriable o (List.dropLast_subset _ ho), fun limit h => ?_, .inl hT.silent⟩
    rw [hT.limit_eq h, hT.length]
    exact hn
  cases place with
  | connecting => exact (abandoned_begun (e := e) hP).toUnderway
  | attempting conn retry => exact htrying _ _ hP.1 hP.2
  | inFlight conn retry => exact htrying _ _ hP.1 hP.2.le
  | responding code body =>
    obtain ⟨⟨earlier, conn, n, hT, hlt, houtcomes⟩, -, -⟩ := hP
    have hU := @Trying.underway_last _ _ _ _ hT hlt (.response code) _ (.inl hT.silent)
    rwa [← houtcomes] at hU
  | sleeping conn retry => exact htrying _ _ hP.1 hP.2
  | relocking => exact Abandoned.toUnderway hP
  | terminated => exact hP

/-! ## The steps of a turn -/

theorem getConnection_limit {h : UInt64} (hconn : e.getConnection h = .ok conn) :
    ∃ m, maxRetriesOf e h = some m ∧ conn.maxRetries.toNat = max 1 m.toNat := by
  unfold HttpEndpoints.getConnection at hconn
  cases he : e.endpoints.lookup h with
  | none => simp [he] at hconn
  | some x =>
    simp only [he] at hconn
    split at hconn
    · cases hconn
    · obtain rfl := Except.ok.inj hconn
      refine ⟨x.maxRetries, by rw [maxRetriesOf, he]; rfl, ?_⟩
      show (if (1 : UInt64) ≤ x.maxRetries then x.maxRetries else 1).toNat = max 1 x.maxRetries.toNat
      have h1 : (1 : UInt64).toNat = 1 := rfl
      split
      · rename_i hle
        rw [UInt64.le_iff_toNat_le] at hle
        omega
      · rename_i hle
        rw [UInt64.le_iff_toNat_le] at hle
        omega

end Records

section Steps

variable {stdHash : Str → UInt64} {s t : Sender} {r : Record} {conn : HttpEndpoints.Connection} {retry : UInt64} {n : ℕ}
  {code : Int16} {place : Place}

/-- The record of the turn is as it should be. -/
def TurnOk (s : Sender) : Prop := ∀ r place, s.turn = some ⟨r, place⟩ → PlaceInv s.endpoints r place

theorem turnOk_goto (h : PlaceInv s.endpoints r place) : TurnOk (s.goto r place) := by
  intro r' place' hturn
  obtain ⟨rfl, rfl⟩ := Turn.mk.inj (Option.some.inj hturn)
  exact h

theorem turnOk_throw (h : Abandoned s.endpoints r) (e : Thrown) : TurnOk (s.throw r e) := by
  cases e with
  | runtimeError => exact turnOk_goto h
  | otherException => exact turnOk_goto h.toUnderway

theorem turnOk_getConnection (h : PlaceInv s.endpoints r .connecting) (fault : Option Thrown) :
    TurnOk (s.getConnection r fault) := by
  have hbegun : r = { payload := r.payload } := h
  unfold Sender.getConnection
  cases fault with
  | some e => exact turnOk_throw (abandoned_begun hbegun) e
  | none =>
    cases hconn : s.endpoints.getConnection r.payload.endpointHash with
    | error _ => exact turnOk_throw (abandoned_begun hbegun) .runtimeError
    | ok conn =>
      refine turnOk_goto ⟨⟨rfl, getConnection_limit hconn, ?_, ?_, ?_⟩, Nat.zero_le _⟩
      · rw [hbegun]
        intro o ho
        cases ho
      · rw [hbegun]
        rfl
      · rw [hbegun]

theorem turnOk_attempt (h : PlaceInv s.endpoints r (.attempting conn retry)) : TurnOk (s.attempt r conn retry) := by
  obtain ⟨hT, hle⟩ := h
  unfold Sender.attempt
  by_cases hlt : retry < conn.maxRetries
  · rw [if_pos hlt]
    intro r' place' hturn
    obtain ⟨rfl, rfl⟩ := Turn.mk.inj (Option.some.inj hturn)
    exact ⟨hT, UInt64.lt_iff_toNat_lt.mp hlt⟩
  · rw [if_neg hlt]
    rw [UInt64.lt_iff_toNat_lt] at hlt
    exact turnOk_goto (hT.abandoned (by omega))

theorem turnOk_answer (hT : Trying s.endpoints r conn retry.toNat) (hlt : retry.toNat < conn.maxRetries.toNat) (body : Str) :
    TurnOk (s.answer { r with outcomes := r.outcomes ++ [.response code] } conn retry code body) := by
  unfold Sender.answer
  by_cases hd : (isSuccess code || isClientError code) = true
  · rw [if_pos hd]
    refine turnOk_goto ?_
    cases hcallback : r.payload.callback with
    | true => exact ⟨⟨r.outcomes, conn, retry.toNat, hT, hlt, rfl⟩, hd, hcallback⟩
    | false =>
      have hU : Underway { r with outcomes := r.outcomes ++ [.response code], callbacks := r.callbacks } :=
        hT.underway_last hlt (.inl hT.silent)
      exact hT.abandoned_last hU (.inl hd) fun h => absurd (hcallback.symm.trans h) (by decide)
  · rw [if_neg hd]
    have hretry : (retry + 1).toNat = retry.toNat + 1 := by
      have hmax := conn.maxRetries.toNat_lt
      have h1 : (1 : UInt64).toNat = 1 := rfl
      rw [UInt64.toNat_add, h1]
      omega
    refine turnOk_goto ⟨⟨hT.limit, hT.configured, ?_, ?_, hT.silent⟩, by omega⟩
    · intro o ho
      rcases List.mem_append.mp ho with ho | ho
      · exact hT.retriable o ho
      · obtain rfl := List.mem_singleton.mp ho
        exact eq_false_of_ne_true hd
    · rw [List.length_append, hT.length, hretry]
      rfl

theorem turnOk_sendPayload (h : PlaceInv s.endpoints r (.inFlight conn retry)) (reply : Reply) :
    TurnOk (s.sendPayload r conn retry reply) := by
  obtain ⟨hT, hlt⟩ := h
  have hT' := hT.mono (receiveHeaders_frame s r.payload reply).2.2.2.2
  unfold Sender.sendPayload
  cases reply.result with
  | error e =>
    have hU : Underway { r with outcomes := r.outcomes ++ [.failure], callbacks := r.callbacks } :=
      hT.underway_last hlt (.inl hT.silent)
    exact turnOk_throw (hT'.abandoned_last hU (.inr rfl) fun _ hd => hd.elim) e
  | ok code =>
    exact turnOk_answer (s := (s.receiveHeaders r.payload reply).logAnswer r.payload.endpointHash code reply) hT' hlt reply.body

theorem turnOk_callback {body : Str} (h : PlaceInv s.endpoints r (.responding code body)) (fault : Option Thrown) :
    TurnOk (s.callback r code body fault) := by
  obtain ⟨⟨earlier, conn, n, hT, hlt, houtcomes⟩, hd, hcallback⟩ := h
  have hsilent : r.callbacks = [] := hT.silent
  have hU : Underway { r with outcomes := earlier ++ [.response code], callbacks := [(code, body)] } :=
    hT.underway_last hlt (.inr ⟨code, body, rfl, hcallback, rfl, hd⟩)
  have hA : Abandoned s.endpoints { r with callbacks := r.callbacks ++ [(code, body)] } := by
    rw [hsilent, houtcomes]
    exact hT.abandoned_last hU (.inl hd) fun _ _ h => by cases h
  unfold Sender.callback
  cases fault with
  | some e => exact turnOk_throw hA e
  | none => exact turnOk_goto hA

/-- The turns that ended are those of the state before. -/
theorem OutcomesInv.stays (hI : OutcomesInv s) (hS : Stays s t r) (ht : TurnOk t) : OutcomesInv t :=
  ⟨ht, fun r' hr' => (hI.finished r' (hS.finished ▸ hr')).mono hS.limits⟩

theorem turnOk_enter (s : Sender) (u : HttpTransportAsync) : TurnOk (s.enter u) := by
  intro r place hturn
  unfold Sender.enter at hturn
  cases hthread : u.thread <;> simp [hthread] at hturn
  obtain ⟨rfl, rfl⟩ := hturn
  exact rfl

theorem OutcomesInv.step {a : Action} (hI : OutcomesInv s) (hs : step stdHash s a = some t) : OutcomesInv t := by
  obtain ⟨-, heffect⟩ := effect_of_step hs
  cases heffect with
  | other h =>
    have hF := otherStep_frame h
    refine ⟨fun r place hturn => ?_, fun r hr => ?_⟩
    · exact (hI.turn r place (hF.turn ▸ hturn)).mono hF.limits
    · exact (hI.finished r (hF.finished ▸ hr)).mono hF.limits
  | idle hturn h => exact ⟨turnOk_enter _ _, hI.finished⟩
  | relock hturn h =>
    refine ⟨turnOk_enter _ _, fun r' hr' => ?_⟩
    rcases List.mem_append.mp hr' with hr' | hr'
    · exact hI.finished r' hr'
    · obtain rfl := List.mem_singleton.mp hr'
      exact hI.turn _ _ hturn
  | getConnection hturn => exact hI.stays (stays_getConnection _ _ _) (turnOk_getConnection (hI.turn _ _ hturn) _)
  | attempt hturn => exact hI.stays (stays_attempt _ _ _ _) (turnOk_attempt (hI.turn _ _ hturn))
  | sendPayload hturn => exact hI.stays (stays_sendPayload _ _ _ _ _) (turnOk_sendPayload (hI.turn _ _ hturn) _)
  | callback hturn => exact hI.stays (stays_callback _ _ _ _ _) (turnOk_callback (hI.turn _ _ hturn) _)
  | wake hturn _ =>
    have hT := hI.turn _ _ hturn
    refine ⟨fun r' place' hturn' => ?_, hI.finished⟩
    obtain ⟨rfl, rfl⟩ := Turn.mk.inj (Option.some.inj hturn')
    exact hT

theorem outcomesInv_init : OutcomesInv {} :=
  ⟨fun _ _ h => (by cases h), fun _ h => (by cases h)⟩

end Steps

/-! ## Main results -/

/-- **When `send` gives a payload up**: in every run, the turn of a payload with a connection ended after a decisive status,
after a transport failure, or after exactly `max(1, maxRetries)` attempts; an attempt follows retriable statuses only; the
callback is called once for a decisive status and for nothing else. -/
theorem abandoned_of_run (stdHash : Str → UInt64) {as : List Action} {s : Sender} (h : run (step stdHash) {} as = some s) :
    (∀ r ∈ s.finished, Abandoned s.endpoints r) ∧
      (∀ r conn retry, s.turn = some ⟨r, .inFlight conn retry⟩ → ∀ o ∈ r.outcomes, o.Retriable) ∧
      ∀ r place, s.turn = some ⟨r, place⟩ → Underway r := by
  have hI : OutcomesInv s := run_invariant (fun _ _ _ hI hs => hI.step hs) h outcomesInv_init
  refine ⟨hI.finished, ?_, ?_⟩
  · intro r conn retry hturn
    exact (hI.turn _ _ hturn).1.retriable
  · intro r place hturn
    exact (hI.turn _ _ hturn).underway

/-- Three attempts, 100 ms apart. -/
def collector : AddCall :=
  { endpointUrl := lit "http://a/", endpointHash := 1, timeout := 100, maxRetries := 3, retryDelay := 100, sslOptions := {} }

/-- The first attempt of a payload is about to be made. -/
def firstAttempt (callback : Bool) : List Action :=
  [.initializeConnection collector, .other (.enqueue 16 { tenBytes with callback := callback }), .sender false,
    .getConnection none, .attempt]

/-- The server is unavailable, then takes the payload. -/
theorem abandoned_of_run_recovery : ∃ s r, run (step HttpEndpoints.sampleHash) {} (firstAttempt true ++
    [.sendPayload { result := .ok 503 }, .wake 100, .attempt, .sendPayload { result := .ok 200 }, .callback none,
      .sender false]) = some s ∧ s.finished = [r] ∧ r.outcomes = [.response 503, .response 200] ∧
      Abandoned s.endpoints r := by
  have hrun : run (step HttpEndpoints.sampleHash) {} (firstAttempt true ++ [.sendPayload { result := .ok 503 }, .wake 100,
    .attempt, .sendPayload { result := .ok 200 }, .callback none, .sender false]) = some _ := rfl
  exact ⟨_, _, hrun, rfl, rfl, (abandoned_of_run HttpEndpoints.sampleHash hrun).1 _ (List.mem_singleton.mpr rfl)⟩

/-- **A transport failure ends the turn**: the first of three attempts fails, and there is no second one. -/
theorem transport_failure_abandons : ¬ ∀ (stdHash : Str → UInt64) (as : List Action) (s : Sender),
    run (step stdHash) {} as = some s → ∀ r ∈ s.finished, ∃ m, maxRetriesOf s.endpoints r.payload.endpointHash = some m ∧
      ∃ last, r.outcomes.getLast? = some last ∧ (last.Decisive ∨ r.outcomes.length = max 1 m.toNat) := by
  intro h
  obtain ⟨m, hm, last, hlast, hcases⟩ := h HttpEndpoints.sampleHash (firstAttempt false ++
    [.sendPayload { result := .error .runtimeError }, .sender false]) _ rfl _ (List.mem_singleton.mpr rfl)
  obtain rfl := Option.some.inj hm
  obtain rfl := Option.some.inj hlast
  revert hcases
  decide

end OtelDistro.Transport.Sending
