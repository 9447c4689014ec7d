import OtelDistro.Transport.SendContainment

/-!
# OtelDistro.Transport.RetryPause — `Retry-After` and the pause before the next attempt

The header callback stores the delay the server asks for in the endpoint, for payloads with a response callback; the pauses of
a turn are those `getConnection` returned at its beginning.

* `RetryAfterLine`: a valid `Retry-After` header and the delay it asks for.
* `Paused`: the attempts and answers of a log, by endpoint, keep the delays that were asked for.
* `PauseOk`: a delay that is asked for is no longer than the one of the turn.

`paused_of_run`: runs whose answers meet `PauseOk` are `Paused`, and another answer has a continuation that is not;
`retryAfter_too_late` is the first answer of a server that asks for two minutes.
-/

namespace OtelDistro.Transport.Sending

open OtelDistro.Lib OtelDistro.Util

/-! ## What the server asks for -/

/-- A `Retry-After` header line with its line end, which asks for `ms` milliseconds at `date`. -/
def RetryAfterLine (date : ℤ) (line : Str) (ms : ℤ) : Prop :=
  ∃ name before value behind, line = name ++ lit ":" ++ before ++ value ++ behind ++ [13, 10] ∧
    name.map toLower = lit "retry-after" ∧ (∀ c ∈ before ++ behind, c = 32 ∨ c = 9) ∧ RetryAfterValue date value ms

def Asks (headers : List Str) (date ms : ℤ) : Prop := 0 < ms ∧ ∃ line ∈ headers, RetryAfterLine date line ms

/-- The header callback reads a number of seconds behind one space. -/
theorem headerDelay_seconds {name digits : Str} (hname : name.map toLower = lit "retry-after") (hne : digits ≠ [])
    (hdigits : ∀ c ∈ digits, Config.isDigit c = true) (hint : Config.digitsValue digits < 2 ^ 31)
    (hpos : 0 < Config.digitsValue digits) (date : ℤ) :
    headerDelay (name ++ lit ": " ++ digits ++ [13, 10]) date = some (1000 * Config.digitsValue digits) := by
  have hlen : name.length = 11 := by rw [← List.length_map toLower, hname]; rfl
  have hend : (name ++ lit ": " ++ digits).length = (name ++ lit ": " ++ digits ++ [13, 10]).length - 2 := by
    have hlength : (name ++ lit ": " ++ digits ++ [13, 10]).length = (name ++ lit ": " ++ digits).length + 2 :=
      List.length_append
    rw [hlength]
    rfl
  have htake : (name ++ lit ": " ++ digits ++ [13, 10]).take ((name ++ lit ": " ++ digits ++ [13, 10]).length - 2) =
      name ++ lit ": " ++ digits := List.take_left' hend
  have hdrop : (name ++ lit ": " ++ digits ++ [13, 10]).drop ((name ++ lit ": " ++ digits ++ [13, 10]).length - 2) =
      [13, 10] := List.drop_left' hend
  have hprefix : (lit "retry-after: ").isPrefixOf ((name ++ lit ": " ++ digits).map toLower) = true := by
    rw [List.isPrefixOf_iff_prefix, List.map_append, List.map_append, hname]
    exact List.prefix_append _ _
  have hvalue : (name ++ lit ": " ++ digits).drop 13 = digits := List.drop_left' (by simp [hlen, lit])
  unfold headerDelay
  simp only [htake, hdrop, hprefix, if_true, hvalue]
  rw [parseRetryAfter_seconds hne hdigits hint (stops_cons (by decide))]
  simp [hpos]

/-! ## Logs -/

def Event.endpointHash : Event → UInt64
  | .attempt h _ => h
  | .answer h _ _ _ _ => h

/-- The last attempt or answer of an endpoint. -/
def lastEvent (h : UInt64) (log : List Event) : Option Event := log.find? fun e => e.endpointHash = h

/-- The last of an endpoint is an answer at `time` that is retried and asks for a delay of `ms`. -/
def Pending (log : List Event) (h : UInt64) (time ms : ℤ) : Prop :=
  ∃ code headers date, lastEvent h log = some (.answer h time code headers date) ∧
    (Outcome.response code).Retriable ∧ Asks headers date ms

/-- The attempts of an endpoint keep the delay its last answer asked for. -/
def Paused : List Event → Prop
  | [] => True
  | .attempt h time :: older => (∀ asked ms, Pending older h asked ms → ms ≤ time - asked) ∧ Paused older
  | .answer _ _ _ _ _ :: older => Paused older

/-- An answer that is retried asks for no longer delay than the turn has. -/
def PauseOk (s : Sender) : Action → Prop
  | .sendPayload reply => ∀ r conn retry code ms, s.turn = some ⟨r, .inFlight conn retry⟩ → reply.result = .ok code →
      (Outcome.response code).Retriable → Asks reply.headers reply.date ms → ms ≤ conn.retryDelay
  | _ => True

/-- A delay that was asked for is over, or the thread sleeps at least as long. -/
structure PauseInv (s : Sender) : Prop where
  paused : Paused s.log
  waits : ∀ h asked ms, Pending s.log h asked ms → asked + ms ≤ s.now ∨ asked ≤ s.now ∧
    ∃ r conn retry, s.turn = some ⟨r, .sleeping conn retry⟩ ∧ ms ≤ conn.retryDelay

section Steps

variable {stdHash : Str → UInt64} {s t : Sender} {r : Record} {conn : HttpEndpoints.Connection} {retry : UInt64}
  {log : List Event} {h : UInt64} {asked ms : ℤ}

theorem lastEvent_cons (e : Event) (h : UInt64) :
    lastEvent h (e :: log) = if e.endpointHash = h then some e else lastEvent h log := by
  rw [lastEvent, List.find?_cons]
  by_cases he : e.endpointHash = h <;> simp [he, lastEvent]

theorem pending_attempt {h' : UInt64} {time : ℤ} (hp : Pending (.attempt h' time :: log) h asked ms) :
    Pending log h asked ms := by
  obtain ⟨code, headers, date, hlast, hrest⟩ := hp
  rw [lastEvent_cons] at hlast
  split at hlast
  · cases hlast
  · exact ⟨code, headers, date, hlast, hrest⟩

theorem pending_answer {h' : UInt64} {time date : ℤ} {code : Int16} {headers : List Str}
    (hp : Pending (.answer h' time code headers date :: log) h asked ms) :
    Pending log h asked ms ∨ asked = time ∧ (Outcome.response code).Retriable ∧ Asks headers date ms := by
  obtain ⟨code', headers', date', hlast, hretriable, hasks⟩ := hp
  rw [lastEvent_cons] at hlast
  split at hlast
  · cases hlast
    exact .inr ⟨rfl, hretriable, hasks⟩
  · exact .inl ⟨code', headers', date', hlast, hretriable, hasks⟩

/-- Steps outside the pauses that log nothing. -/
theorem PauseInv.awake (hI : PauseInv s) (hawake : ∀ r conn retry, s.turn ≠ some ⟨r, .sleeping conn retry⟩)
    (hlog : t.log = s.log) (hnow : t.now = s.now) : PauseInv t := by
  refine ⟨hlog ▸ hI.paused, fun h asked ms hp => ?_⟩
  rw [hlog] at hp
  rcases hI.waits h asked ms hp with hover | ⟨-, r, conn, retry, hturn, -⟩
  · exact .inl (hnow ▸ hover)
  · exact absurd hturn (hawake r conn retry)

theorem PauseInv.over (hI : PauseInv s) (hawake : ∀ r conn retry, s.turn ≠ some ⟨r, .sleeping conn retry⟩)
    (hp : Pending s.log h asked ms) : asked + ms ≤ s.now := by
  rcases hI.waits h asked ms hp with hover | ⟨-, r, conn, retry, hturn, -⟩
  · exact hover
  · exact absurd hturn (hawake r conn retry)

theorem PauseInv.attempt (hI : PauseInv s) (hturn : s.turn = some ⟨r, .attempting conn retry⟩) :
    PauseInv (s.attempt r conn retry) := by
  have hawake : ∀ r conn retry, s.turn ≠ some ⟨r, .sleeping conn retry⟩ := by
    intro r' conn' retry' h
    rw [hturn] at h
    cases h
  unfold Sender.attempt
  split
  · refine ⟨⟨fun asked ms hp => ?_, hI.paused⟩, fun h asked ms hp => .inl ?_⟩
    · have := hI.over hawake hp
      omega
    · exact hI.over hawake (pending_attempt hp)
  · exact hI.awake hawake rfl rfl

theorem throw_frame (s : Sender) (r : Record) (e : Thrown) : (s.throw r e).log = s.log ∧ (s.throw r e).now = s.now := by
  cases e <;> exact ⟨rfl, rfl⟩

theorem answer_frame (s : Sender) (r : Record) (conn : HttpEndpoints.Connection) (retry : UInt64) (code : Int16) (body : Str) :
    (s.answer r conn retry code body).log = s.log ∧ (s.answer r conn retry code body).now = s.now ∧
      ((Outcome.response code).Retriable → s.answer r conn retry code body = s.goto r (.sleeping conn (retry + 1))) := by
  unfold Sender.answer
  split
  · rename_i hd
    refine ⟨rfl, rfl, fun hr => ?_⟩
    rw [Outcome.Retriable, hd] at hr
    cases hr
  · exact ⟨rfl, rfl, fun _ => rfl⟩

/-- The state behind an answer of the server. -/
theorem sendPayload_ok (s : Sender) (r : Record) (conn : HttpEndpoints.Connection) (retry : UInt64) {reply : Reply}
    {code : Int16} (hresult : reply.result = .ok code) :
    (s.sendPayload r conn retry reply).log = .answer r.payload.endpointHash s.now code reply.headers reply.date :: s.log ∧
      (s.sendPayload r conn retry reply).now = s.now ∧ ((Outcome.response code).Retriable →
        (s.sendPayload r conn retry reply).turn = some ⟨{ r with outcomes := r.outcomes ++ [.response code] },
          .sleeping conn (retry + 1)⟩) := by
  obtain ⟨-, -, hlog, hnow, -⟩ := receiveHeaders_frame s r.payload reply
  unfold Sender.sendPayload
  simp only [hresult]
  obtain ⟨hlog', hnow', hturn⟩ := answer_frame ((s.receiveHeaders r.payload reply).logAnswer r.payload.endpointHash code reply)
    { r with outcomes := r.outcomes ++ [.response code] } conn retry code reply.body
  refine ⟨?_, hnow'.trans hnow, fun hr => ?_⟩
  · rw [hlog', Sender.logAnswer, hlog, hnow]
  · rw [hturn hr]
    rfl

theorem PauseInv.sendPayload (hI : PauseInv s) (hturn : s.turn = some ⟨r, .inFlight conn retry⟩) {reply : Reply}
    (ho : PauseOk s (.sendPayload reply)) : PauseInv (s.sendPayload r conn retry reply) := by
  have hawake : ∀ r conn retry, s.turn ≠ some ⟨r, .sleeping conn retry⟩ := by
    intro r' conn' retry' h
    rw [hturn] at h
    cases h
  cases hresult : reply.result with
  | error e =>
    obtain ⟨-, -, hlog, hnow, -⟩ := receiveHeaders_frame s r.payload reply
    have hframe := throw_frame (s.receiveHeaders r.payload reply) { r with outcomes := r.outcomes ++ [.failure] } e
    unfold Sender.sendPayload
    simp only [hresult]
    exact hI.awake hawake (hframe.1.trans hlog) (hframe.2.trans hnow)
  | ok code =>
    obtain ⟨hlog, hnow, hsleep⟩ := sendPayload_ok s r conn retry hresult
    refine ⟨?_, fun h asked ms hp => ?_⟩
    · rw [hlog]
      exact hI.paused
    · rw [hlog] at hp
      rw [hnow]
      rcases pending_answer hp with hp | ⟨rfl, hretriable, hasks⟩
      · exact .inl (hI.over hawake hp)
      · exact .inr ⟨le_refl _, _, conn, _, hsleep hretriable, ho r conn retry code ms hturn hresult hretriable hasks⟩

theorem PauseInv.wake (hI : PauseInv s) (hturn : s.turn = some ⟨r, .sleeping conn retry⟩) {slept : ℕ}
    (hslept : conn.retryDelay ≤ slept) : PauseInv { s.goto r (.attempting conn retry) with now := s.now + slept } := by
  refine ⟨hI.paused, fun h asked ms hp => .inl ?_⟩
  show asked + ms ≤ s.now + slept
  rcases hI.waits h asked ms hp with hover | ⟨hasked, r', conn', retry', hturn', hms⟩
  · omega
  · rw [hturn] at hturn'
    cases hturn'
    omega

/-- The step lemma. -/
theorem PauseInv.step {a : Action} (hI : PauseInv s) (ho : PauseOk s a) (hs : step stdHash s a = some t) : PauseInv t := by
  have hawake : ∀ {r place}, s.turn = some ⟨r, place⟩ → (∀ conn retry, place ≠ .sleeping conn retry) →
      ∀ r conn retry, s.turn ≠ some ⟨r, .sleeping conn retry⟩ := by
    intro r place hturn hplace r' conn retry h
    rw [hturn] at h
    cases h
    exact hplace _ _ rfl
  obtain ⟨-, heffect⟩ := effect_of_step hs
  cases heffect with
  | other h =>
    have hF := otherStep_frame h
    refine ⟨hF.log ▸ hI.paused, fun h asked ms hp => ?_⟩
    rw [hF.log] at hp
    have hnow := hF.now
    rw [hF.turn]
    rcases hI.waits h asked ms hp with hover | ⟨hasked, hrest⟩
    · exact .inl (by omega)
    · exact .inr ⟨by omega, hrest⟩
  | idle hturn _ => exact hI.awake (fun r conn retry h => by rw [hturn] at h; cases h) rfl rfl
  | relock hturn _ => exact hI.awake (hawake hturn fun _ _ h => by cases h) rfl rfl
  | @getConnection fault r hturn =>
    have hframe : (s.getConnection r fault).log = s.log ∧ (s.getConnection r fault).now = s.now := by
      unfold Sender.getConnection
      split
      · exact throw_frame _ _ _
      · split
        · exact throw_frame _ _ _
        · exact ⟨rfl, rfl⟩
    exact hI.awake (hawake hturn fun _ _ h => by cases h) hframe.1 hframe.2
  | attempt hturn => exact hI.attempt hturn
  | sendPayload hturn => exact hI.sendPayload hturn ho
  | @callback fault r code body hturn =>
    have hframe : (s.callback r code body fault).log = s.log ∧ (s.callback r code body fault).now = s.now := by
      unfold Sender.callback
      cases fault with
      | some e => exact throw_frame _ _ _
      | none => exact ⟨rfl, rfl⟩
    exact hI.awake (hawake hturn fun _ _ h => by cases h) hframe.1 hframe.2
  | wake hturn hslept => exact hI.wake hturn hslept

theorem step_inTurn {a : Action} {place : Place} (hturn : s.turn = some ⟨r, place⟩) (hplace : place ≠ .terminated)
    (ha : a.InTurn) : Sending.step stdHash s a = senderStep s a := by
  rw [step_of_alive ((terminated_eq_false_iff hturn).mpr hplace), otherStep_inTurn ha, Option.none_or]

theorem pauseInv_init : PauseInv {} :=
  ⟨trivial, fun _ _ _ ⟨_, _, _, h, _⟩ => (by cases h)⟩

/-- A delay that is longer than the one of the turn: the retry comes too early. -/
theorem retry_too_early (hturn : s.turn = some ⟨r, .inFlight conn retry⟩) {reply : Reply} {code : Int16}
    (hresult : reply.result = .ok code) (hretriable : (Outcome.response code).Retriable)
    (hasks : Asks reply.headers reply.date ms) (hshort : conn.retryDelay < ms) (hleft : retry + 1 < conn.maxRetries) :
    ∃ t, run (Sending.step stdHash) s [.sendPayload reply, .wake conn.retryDelay.toNat, .attempt] = some t ∧ ¬ Paused t.log := by
  obtain ⟨hlog, hnow, hsleep⟩ := sendPayload_ok s r conn retry hresult
  have hturn₁ := hsleep hretriable
  have hslept : conn.retryDelay ≤ (conn.retryDelay.toNat : ℤ) := Int.self_le_toNat _
  have h₁ : Sending.step stdHash s (.sendPayload reply) = some (s.sendPayload r conn retry reply) := by
    rw [step_inTurn hturn (fun h => by cases h) (a := .sendPayload reply) trivial]
    simp [senderStep, hturn]
  generalize s.sendPayload r conn retry reply = s₁ at *
  obtain ⟨s₂, h₂, hturn₂, hlog₂, hnow₂⟩ : ∃ s₂, Sending.step stdHash s₁ (.wake conn.retryDelay.toNat) = some s₂ ∧
      s₂.turn = some ⟨{ r with outcomes := r.outcomes ++ [.response code] }, .attempting conn (retry + 1)⟩ ∧
      s₂.log = s₁.log ∧ s₂.now = s₁.now + conn.retryDelay.toNat := by
    rw [step_inTurn hturn₁ (fun h => by cases h) (a := .wake _) trivial]
    simp [senderStep, hturn₁, Sender.goto]
  obtain ⟨s₃, h₃, hlog₃⟩ : ∃ s₃, Sending.step stdHash s₂ .attempt = some s₃ ∧
      s₃.log = .attempt r.payload.endpointHash s₂.now :: s₂.log := by
    rw [step_inTurn hturn₂ (fun h => by cases h) (a := .attempt) trivial]
    simp [senderStep, hturn₂, Sender.attempt, hleft]
  refine ⟨s₃, ?_, ?_⟩
  · rw [run_cons, h₁, Option.bind_some, run_cons, h₂, Option.bind_some, run_cons, h₃]
    rfl
  · intro hp
    rw [hlog₃, hlog₂, hlog] at hp
    have hpending : Pending (.answer r.payload.endpointHash s.now code reply.headers reply.date :: s.log)
        r.payload.endpointHash s.now ms := by
      refine ⟨code, reply.headers, reply.date, ?_, hretriable, hasks⟩
      rw [lastEvent_cons]
      exact if_pos rfl
    have hmost := hp.1 s.now ms hpending
    have hms := hasks.1
    omega

end Steps

/-! ## Main results -/

/-- **Which answers are waited for**: in every run whose retried answers ask for no longer delay than `getConnection`
returned at the beginning of their turn, every attempt keeps the delay its endpoint asked for; after another answer the next
retry comes too early. -/
theorem paused_of_run (stdHash : Str → UInt64) :
    (∀ as s, Path (step stdHash) PauseOk {} as s → Paused s.log) ∧
      ∀ s r conn retry reply code ms, s.turn = some ⟨r, .inFlight conn retry⟩ → reply.result = .ok code →
        (Outcome.response code).Retriable → Asks reply.headers reply.date ms → conn.retryDelay < ms →
        retry + 1 < conn.maxRetries →
        ∃ t, run (step stdHash) s [.sendPayload reply, .wake conn.retryDelay.toNat, .attempt] = some t ∧ ¬ Paused t.log := by
  refine ⟨fun as s h => ?_, fun s r conn retry reply code ms hturn hresult hretriable hasks hshort hleft => ?_⟩
  · exact (h.invariant (fun _ _ _ hI ho hs => hI.step ho hs) pauseInv_init).paused
  · exact retry_too_early hturn hresult hretriable hasks hshort hleft

/-- An unavailable server that asks for the given number of seconds. -/
def unavailable (seconds : Str) : Reply := { headers := [lit "Retry-After: " ++ seconds ++ [13, 10]], result := .ok 503 }

theorem asks_unavailable {seconds : Str} (hdigits : ∀ c ∈ seconds, Config.isDigit c = true)
    (hpos : 0 < Config.digitsValue seconds) :
    Asks (unavailable seconds).headers (unavailable seconds).date (1000 * Config.digitsValue seconds) := by
  refine ⟨by omega, _, List.mem_singleton.mpr rfl, lit "Retry-After", [32], seconds, [], ?_, by decide, ?_, ?_⟩
  · simp [lit]
  · intro c hc
    exact .inl (List.mem_singleton.mp hc)
  · refine .seconds seconds (fun h => ?_) hdigits
    subst h
    exact absurd hpos (by decide)

/-- It asks for nothing else. -/
theorem asked_of_unavailable {seconds : Str} {date ms : ℤ} (hdigits : ∀ c ∈ seconds, Config.isDigit c = true)
    (h : Asks (unavailable seconds).headers date ms) : ms = 1000 * Config.digitsValue seconds := by
  obtain ⟨-, line, hline, name, before, value, behind, heq, hname, hspace, hvalue⟩ := h
  obtain rfl := List.mem_singleton.mp hline
  have hlen : name.length = 11 := by rw [← List.length_map toLower, hname]; rfl
  have hbody : before ++ value ++ behind = 32 :: seconds := by
    have hcut : lit "Retry-After" ++ (lit ":" ++ 32 :: seconds) = name ++ (lit ":" ++ (before ++ value ++ behind)) := by
      have hline : lit "Retry-After" ++ (lit ":" ++ 32 :: seconds) ++ [13, 10] =
          name ++ (lit ":" ++ (before ++ value ++ behind)) ++ [13, 10] := by simpa [lit] using heq
      exact List.append_cancel_right hline
    exact (List.append_cancel_left (List.append_inj hcut (by rw [hlen]; rfl)).2).symm
  have hmem : ∀ c ∈ before ++ value ++ behind, c = 32 ∨ Config.isDigit c = true := by
    intro c hc
    rw [hbody, List.mem_cons] at hc
    exact hc.imp id (hdigits c)
  cases hvalue with
  | seconds digits hne hd =>
    -- the digits of the line
    have hspaces : ∀ l : Str, (∀ c ∈ l, c ∈ before ++ behind) → l.filter Config.isDigit = [] := by
      intro l hl
      refine List.filter_eq_nil_iff.mpr fun c hc => ?_
      rcases hspace c (hl c hc) with rfl | rfl <;> decide
    have hfilter := congrArg (List.filter Config.isDigit) hbody
    rw [List.filter_append, List.filter_append, hspaces before (fun c hc => List.mem_append_left _ hc),
      hspaces behind (fun c hc => List.mem_append_right _ hc), List.filter_eq_self.mpr hd, List.append_nil, List.nil_append,
      List.filter_cons_of_neg (by decide), List.filter_eq_self.mpr hdigits] at hfilter
    rw [hfilter]
  | date d =>
    have hcomma : (44 : UInt8) ∈ d.text := by simp [HttpDate.text, lit]
    exact absurd (hmem 44 (by simp [hcomma])) (by decide)

/-- The server asks for two seconds, no more than the endpoint waits. -/
theorem paused_of_run_two_seconds : ∃ s, run (step HttpEndpoints.sampleHash) {} [
    .initializeConnection { collector with retryDelay := 2000 }, .other (.enqueue 16 tenBytes), .sender false,
      .getConnection none, .attempt, .sendPayload (unavailable (lit "2")), .wake 2000, .attempt] = some s ∧ Paused s.log := by
  have hok : ∀ s, (∃ r conn retry, s.turn = some ⟨r, .inFlight conn retry⟩ ∧ conn.retryDelay = 2000) →
      PauseOk s (.sendPayload (unavailable (lit "2"))) := by
    rintro s ⟨r, conn, retry, hturn, hdelay⟩ r' conn' retry' code ms hturn' - - hasks
    rw [hturn] at hturn'
    cases hturn'
    rw [hdelay, asked_of_unavailable (List.all_eq_true.mp rfl) hasks]
    decide
  have hp : Path (step HttpEndpoints.sampleHash) PauseOk {} [.initializeConnection { collector with retryDelay := 2000 },
      .other (.enqueue 16 tenBytes), .sender false, .getConnection none, .attempt, .sendPayload (unavailable (lit "2")),
      .wake 2000, .attempt] _ :=
    .cons trivial rfl (.cons trivial rfl (.cons trivial rfl (.cons trivial rfl (.cons trivial rfl
      (.cons (hok _ ⟨_, _, _, rfl, rfl⟩) rfl (.cons trivial rfl (.cons trivial rfl (.nil _))))))))
  exact ⟨_, hp.run_eq, (paused_of_run HttpEndpoints.sampleHash).1 _ _ hp⟩

/-- **`Retry-After` is stored and not waited for**: the server asks for two minutes, the endpoint has them, and the next
attempt follows after 100 ms. -/
theorem retryAfter_too_late : ∃ s, run (step HttpEndpoints.sampleHash) {} (firstAttempt true ++
    [.sendPayload (unavailable (lit "120")), .wake 100, .attempt]) = some s ∧ ¬ Paused s.log ∧
      (s.endpoints.endpoints.lookup 1).map HttpEndpoint.retryDelay = some 120000 := by
  refine ⟨_, rfl, fun hp => ?_, by decide⟩
  have hms := hp.1 0 120000 ⟨503, (unavailable (lit "120")).headers, 0, rfl, rfl,
    asks_unavailable (List.all_eq_true.mp rfl) (by decide)⟩
  revert hms
  decide

end OtelDistro.Transport.Sending
