import OtelDistro.Transport.SendOutcomes

/-!
# OtelDistro.Transport.SendContainment — failures in the turn of a payload

`getConnection`, `sendPayload` and the response callback may throw anything; the handlers of `send` name
`std::runtime_error`.

* `Quiet`: the external calls of an action throw nothing else.
* `Contained`: the thread is alive, its turn ends at the lock whatever the calls do, and the next payload follows.

`contained_iff`: the state at the end of a run is contained exactly when all its steps were quiet; in
`callback_terminates` the callback throws and the next payload is never sent.
-/

namespace OtelDistro.Transport.Sending

open OtelDistro.Lib

/-- An action of the sender thread in a turn. -/
def Action.InTurn : Action → Prop
  | .getConnection _ | .attempt | .sendPayload _ | .callback _ | .wake _ => True
  | _ => False

/-- The external call of the action throws nothing but `std::runtime_error`. -/
def Action.Quiet : Action → Prop
  | .getConnection fault | .callback fault => fault ≠ some .otherException
  | .sendPayload reply => reply.result ≠ .error .otherException
  | _ => True

/-- The thread is at the lock, with the queue as it was. -/
def AtLock (u : HttpTransportAsync) (s : Sender) : Prop := s.transport = u ∧ ∃ r, s.turn = some ⟨r, .relocking⟩

structure Contained (stdHash : Str → UInt64) (s : Sender) : Prop where
  alive : s.terminated = false
  /-- The turn ends at the lock, whatever the external calls return or throw. -/
  relocks : s.turn.isSome → Inevitable (step stdHash) (fun _ a => a.InTurn ∧ a.Quiet) (AtLock s.transport) s
  /-- Having the lock, the thread takes the next payload, unless the destructor's timeout has elapsed. -/
  goesOn : ∀ r timedOut, s.turn = some ⟨r, .relocking⟩ → ∃ t, step stdHash s (.sender timedOut) = some t ∧
    ((s.transport.forceFlushOnDestruction && timedOut) = false → ∀ p rest, s.transport.payloadsToSend.items = p :: rest →
      t.turn = some ⟨{ payload := p }, .connecting⟩ ∧ t.transport.payloadsToSend.items = rest)

section Turns

variable {stdHash : Str → UInt64} {s t : Sender} {r : Record} {place : Place} {a : Action}

theorem step_of_alive (h : s.terminated = false) : step stdHash s a = (otherStep stdHash s a).or (senderStep s a) := by
  rw [step, h]
  rfl

theorem otherStep_inTurn (ha : a.InTurn) : otherStep stdHash s a = none := by
  cases a with
  | getConnection fault => rfl
  | attempt => rfl
  | sendPayload reply => rfl
  | callback fault => rfl
  | wake slept => rfl
  | other a => exact ha.elim
  | initializeConnection c => exact ha.elim
  | updateRetryDelay h d => exact ha.elim
  | pass time => exact ha.elim
  | sender timedOut => exact ha.elim

theorem terminated_eq_false_iff (hturn : s.turn = some ⟨r, place⟩) : s.terminated = false ↔ place ≠ .terminated := by
  rw [Sender.terminated, hturn]
  cases place <;> simp

/-- The steps that are left of a turn, at most. -/
def Place.rank : Place → ℕ
  | .connecting => 3 * 2 ^ 64 + 4
  | .attempting conn retry => 3 * (conn.maxRetries.toNat - retry.toNat) + 3
  | .inFlight conn retry => 3 * (conn.maxRetries.toNat - retry.toNat) + 2
  | .responding _ _ => 1
  | .sleeping conn retry => 3 * (conn.maxRetries.toNat - retry.toNat) + 4
  | .relocking | .terminated => 0

def Sender.rank (s : Sender) : ℕ :=
  match s.turn with
  | none => 0
  | some turn => turn.place.rank

/-- The thread is alive, and attempts are left where one is made. -/
def Place.Ready : Place → Prop
  | .inFlight conn retry => retry.toNat < conn.maxRetries.toNat
  | .terminated => False
  | _ => True

structure TurnInv (u : HttpTransportAsync) (s : Sender) : Prop where
  transport : s.transport = u
  turn : ∃ r place, s.turn = some ⟨r, place⟩ ∧ place.Ready

theorem alive_of_ready (hturn : s.turn = some ⟨r, place⟩) (h : place.Ready) : s.terminated = false := by
  refine (terminated_eq_false_iff hturn).mpr fun hplace => ?_
  rw [hplace] at h
  exact h

/-- What a step of the turn is for: it stays in the turn, alive and with the queue as it was, and fewer steps are left. -/
structure Advances (s t : Sender) (n : ℕ) : Prop where
  inv : TurnInv s.transport t
  rank : t.rank < n

theorem advances_goto {n : ℕ} (hready : place.Ready) (hn : place.rank < n) : Advances s (s.goto r place) n :=
  ⟨⟨rfl, r, place, rfl, hready⟩, hn⟩

/-- A caught exception, or the end of the loop. -/
theorem advances_relocking {n : ℕ} (hn : 0 < n) : Advances s (s.goto r .relocking) n :=
  advances_goto trivial hn

theorem advances_throw {n : ℕ} {e : Thrown} (he : e ≠ .otherException) (hn : 0 < n) : Advances s (s.throw r e) n := by
  cases e with
  | runtimeError => exact advances_relocking hn
  | otherException => exact absurd rfl he

theorem advances_getConnection {fault : Option Thrown} (hq : fault ≠ some .otherException) :
    Advances s (s.getConnection r fault) (Place.rank .connecting) := by
  unfold Sender.getConnection
  cases fault with
  | some e => exact advances_throw (fun h => hq (h ▸ rfl)) (by simp [Place.rank])
  | none =>
    cases s.endpoints.getConnection r.payload.endpointHash with
    | error _ => exact advances_relocking (by simp [Place.rank])
    | ok conn =>
      refine advances_goto trivial ?_
      have := conn.maxRetries.toNat_lt
      simp only [Place.rank]
      omega

theorem advances_attempt (conn : HttpEndpoints.Connection) (retry : UInt64) :
    Advances s (s.attempt r conn retry) (Place.rank (.attempting conn retry)) := by
  unfold Sender.attempt
  split
  · rename_i hlt
    rw [UInt64.lt_iff_toNat_lt] at hlt
    exact ⟨⟨rfl, r, _, rfl, hlt⟩, Nat.lt_succ_self _⟩
  · exact advances_relocking (by simp [Place.rank])

theorem advances_answer {conn : HttpEndpoints.Connection} {retry : UInt64} (hlt : retry.toNat < conn.maxRetries.toNat)
    (code : Int16) (body : Str) : Advances s (s.answer r conn retry code body) (Place.rank (.inFlight conn retry)) := by
  unfold Sender.answer
  split
  · split
    · exact advances_goto trivial (by simp [Place.rank])
    · exact advances_relocking (by simp [Place.rank])
  · have hretry : (retry + 1).toNat = retry.toNat + 1 := by
      have hmax := conn.maxRetries.toNat_lt
      have h1 : (1 : UInt64).toNat = 1 := rfl
      rw [UInt64.toNat_add, h1]
      omega
    refine advances_goto trivial ?_
    simp only [Place.rank, hretry]
    omega

theorem advances_sendPayload {conn : HttpEndpoints.Connection} {retry : UInt64} {reply : Reply}
    (hlt : retry.toNat < conn.maxRetries.toNat) (hq : reply.result ≠ .error .otherException) :
    Advances s (s.sendPayload r conn retry reply) (Place.rank (.inFlight conn retry)) := by
  have hheaders : ∀ u : Sender, u.transport = s.transport → ∀ t n, Advances u t n → Advances s t n :=
    fun u hu t n h => ⟨hu ▸ h.inv, h.rank⟩
  have htransport := (receiveHeaders_frame s r.payload reply).1
  unfold Sender.sendPayload
  cases hresult : reply.result with
  | error e => exact hheaders _ htransport _ _ (advances_throw (fun h => hq (h ▸ hresult)) (by simp [Place.rank]))
  | ok code => exact hheaders (Sender.logAnswer _ _ code reply) htransport _ _ (advances_answer hlt code reply.body)

theorem advances_callback {code : Int16} {body : Str} {fault : Option Thrown} (hq : fault ≠ some .otherException) :
    Advances s (s.callback r code body fault) (Place.rank (.responding code body)) := by
  unfold Sender.callback
  cases fault with
  | some e => exact advances_throw (fun h => hq (h ▸ rfl)) Nat.one_pos
  | none => exact advances_relocking Nat.one_pos

/-- The step lemma of a turn. -/
theorem TurnInv.step {u : HttpTransportAsync} (hI : TurnInv u s) (ha : a.InTurn) (hq : a.Quiet)
    (hs : step stdHash s a = some t) : TurnInv u t ∧ t.rank < s.rank := by
  obtain ⟨rfl, r, place, hturn, hready⟩ := hI
  rw [step_of_alive (alive_of_ready hturn hready), otherStep_inTurn ha, Option.none_or] at hs
  have hrank : s.rank = place.rank := by rw [Sender.rank, hturn]
  have hdone : Advances s t place.rank → TurnInv s.transport t ∧ t.rank < s.rank := fun h => ⟨h.inv, hrank ▸ h.rank⟩
  apply hdone
  unfold senderStep at hs
  rw [hturn] at hs
  cases place with
  | connecting =>
    cases a <;> simp at hs
    exact hs ▸ advances_getConnection hq
  | attempting conn retry =>
    cases a <;> simp at hs
    exact hs ▸ advances_attempt conn retry
  | inFlight conn retry =>
    cases a <;> simp at hs
    exact hs ▸ advances_sendPayload hready hq
  | responding code body =>
    cases a <;> simp at hs
    exact hs ▸ advances_callback hq
  | sleeping conn retry =>
    cases a <;> simp at hs
    obtain ⟨-, rfl⟩ := hs
    exact ⟨⟨rfl, r, _, rfl, trivial⟩, Nat.lt_succ_self _⟩
  | relocking =>
    cases a <;> simp at hs
    exact ha.elim
  | terminated => exact hready.elim

/-- No place of a turn is stuck: external calls return, and a pause ends. -/
theorem TurnInv.go {u : HttpTransportAsync} (hI : TurnInv u s) (hlock : ¬ AtLock u s) :
    ∃ a t, (a.InTurn ∧ a.Quiet) ∧ Sending.step stdHash s a = some t := by
  obtain ⟨rfl, r, place, hturn, hready⟩ := hI
  have hgo : ∀ a, a.InTurn → a.Quiet → (senderStep s a).isSome →
      ∃ a t, (a.InTurn ∧ a.Quiet) ∧ Sending.step stdHash s a = some t := by
    intro a ha hq hsome
    obtain ⟨t, ht⟩ := Option.isSome_iff_exists.mp hsome
    refine ⟨a, t, ⟨ha, hq⟩, ?_⟩
    rw [step_of_alive (alive_of_ready hturn hready), otherStep_inTurn ha, Option.none_or]
    exact ht
  cases place with
  | connecting => exact hgo (.getConnection none) trivial (fun h => by cases h) (by simp [senderStep, hturn])
  | attempting conn retry => exact hgo .attempt trivial trivial (by simp [senderStep, hturn])
  | inFlight conn retry =>
    exact hgo (.sendPayload { result := .ok 200 }) trivial (fun h => by cases h) (by simp [senderStep, hturn])
  | responding code body => exact hgo (.callback none) trivial (fun h => by cases h) (by simp [senderStep, hturn])
  | sleeping conn retry =>
    exact hgo (.wake conn.retryDelay.toNat) trivial trivial (by simp [senderStep, hturn])
  | relocking => exact absurd ⟨rfl, r, hturn⟩ hlock
  | terminated => exact hready.elim

theorem ready_of_inv (hO : OutcomesInv s) (hlive : s.terminated = false) (hturn : s.turn = some ⟨r, place⟩) : place.Ready := by
  have hP := hO.turn _ _ hturn
  rw [terminated_eq_false_iff hturn] at hlive
  cases place with
  | inFlight conn retry => exact hP.2
  | terminated => exact absurd rfl hlive
  | connecting => trivial
  | attempting conn retry => trivial
  | responding code body => trivial
  | sleeping conn retry => trivial
  | relocking => trivial

/-- A thread that is alive contains every failure to come that is quiet. -/
theorem contained_of_alive (hM : Matches s) (hO : OutcomesInv s) (hlive : s.terminated = false) : Contained stdHash s := by
  refine ⟨hlive, fun hsome => ?_, fun r timedOut hturn => ?_⟩
  · obtain ⟨⟨r, place⟩, hturn⟩ := Option.isSome_iff_exists.mp hsome
    have hI : TurnInv s.transport s := ⟨rfl, r, place, hturn, ready_of_inv hO hlive hturn⟩
    refine inevitable_of_rank Sender.rank (fun u hu hlock => hu.go hlock) (fun u a v hu _ ha hs => ?_) hI
    exact hu.step ha.1 ha.2 hs
  · have hthread : s.transport.thread = .sending r.payload := by
      rw [hM.turn, hturn]
      rfl
    obtain ⟨u, hu, -, hnext⟩ := senderStep_of_sending hthread timedOut
    have hs : step stdHash s (.sender timedOut) = some { s.enter u with finished := s.finished ++ [r] } := by
      rw [step_of_alive hlive]
      unfold senderStep
      simp only [hturn, hu]
      rfl
    refine ⟨_, hs, fun hforce p rest hitems => ?_⟩
    obtain ⟨hthread', hrest⟩ := hnext hforce p rest hitems
    refine ⟨?_, hrest⟩
    show (s.enter u).turn = _
    rw [Sender.enter, hthread']

theorem terminated_enter (s : Sender) (u : HttpTransportAsync) : (s.enter u).terminated = false := by
  unfold Sender.enter Sender.terminated
  cases u.thread <;> rfl

/-- One step: the thread stays alive exactly when the external call of the step was quiet. -/
theorem alive_step_iff (hO : OutcomesInv s) (hlive : s.terminated = false) (hs : step stdHash s a = some t) :
    t.terminated = false ↔ a.Quiet := by
  have halive : ∀ {t n}, Advances s t n → t.terminated = false := by
    rintro t n ⟨⟨-, r, place, hturn, hready⟩, -⟩
    exact alive_of_ready hturn hready
  obtain ⟨-, heffect⟩ := effect_of_step hs
  cases heffect with
  | other h =>
    have hturn : t.terminated = false := by
      rw [Sender.terminated, (otherStep_frame h).turn]
      exact hlive
    refine ⟨fun _ => ?_, fun _ => hturn⟩
    cases a <;> trivial
  | idle _ _ => exact ⟨fun _ => trivial, fun _ => terminated_enter s _⟩
  | relock _ _ => exact ⟨fun _ => trivial, fun _ => terminated_enter s _⟩
  | @getConnection fault r hturn =>
    refine ⟨fun h hq => ?_, fun hq => halive (advances_getConnection hq)⟩
    subst hq
    cases h
  | attempt hturn => exact ⟨fun _ => trivial, fun _ => halive (advances_attempt _ _)⟩
  | @sendPayload reply r conn retry hturn =>
    refine ⟨fun h hq => ?_, fun hq => halive (advances_sendPayload (ready_of_inv hO hlive hturn) hq)⟩
    unfold Sender.sendPayload at h
    rw [hq] at h
    cases h
  | @callback fault r code body hturn =>
    refine ⟨fun h hq => ?_, fun hq => halive (advances_callback hq)⟩
    subst hq
    cases h
  | wake hturn _ => exact ⟨fun _ => trivial, fun _ => rfl⟩

end Turns

/-! ## Main results -/

/-- **When `send` contains the failures of a payload**: the thread is alive, ends its turn and goes on, in the state at the
end of a run, exactly when `getConnection`, `sendPayload` and the callbacks have thrown nothing but `std::runtime_error`. -/
theorem contained_iff (stdHash : Str → UInt64) {as : List Action} {s : Sender} (h : run (step stdHash) {} as = some s) :
    Contained stdHash s ↔ Path (step stdHash) (fun _ a => a.Quiet) {} as s := by
  have hI : ∀ s a t, Matches s ∧ OutcomesInv s → step stdHash s a = some t → Matches t ∧ OutcomesInv t :=
    fun s a t hI hs => ⟨hI.1.step hs, hI.2.step hs⟩
  have hend : Matches s ∧ OutcomesInv s :=
    run_invariant (I := fun s => Matches s ∧ OutcomesInv s) hI h ⟨matches_init, outcomesInv_init⟩
  have halive : s.terminated = false ↔ Path (step stdHash) (fun _ a => a.Quiet) {} as s := by
    refine run_good_iff (I := fun s => Matches s ∧ OutcomesInv s) (G := fun s => s.terminated = false) hI
      (fun s a t _ hs _ => ?_) (fun s a t hI hlive hs => ?_) ⟨matches_init, outcomesInv_init⟩ rfl h
    · exact (effect_of_step hs).1
    · exact alive_step_iff hI.2 hlive hs
  constructor
  · intro hC
    exact halive.mp hC.alive
  · intro hp
    exact contained_of_alive hend.1 hend.2 (halive.mpr hp)

/-- A `std::runtime_error` in a callback; the next payload follows. -/
theorem contained_iff_caught : ∃ s, run (step HttpEndpoints.sampleHash) {} (firstAttempt true ++
    [.other (.enqueue 32 tenBytes), .sendPayload { result := .ok 200 }, .callback (some .runtimeError), .sender false]) =
      some s ∧ Contained HttpEndpoints.sampleHash s ∧ s.transport.thread = .sending tenBytes := by
  have hp : Path (step HttpEndpoints.sampleHash) (fun _ a => a.Quiet) {} (firstAttempt true ++
      [.other (.enqueue 32 tenBytes), .sendPayload { result := .ok 200 }, .callback (some .runtimeError), .sender false]) _ :=
    .cons trivial rfl (.cons trivial rfl (.cons trivial rfl (.cons (fun h => by cases h) rfl (.cons trivial rfl
      (.cons trivial rfl (.cons (fun h => by cases h) rfl (.cons (fun h => by cases h) rfl (.cons trivial rfl (.nil _)))))))))
  exact ⟨_, hp.run_eq, (contained_iff _ hp.run_eq).mpr hp, rfl⟩

/-- **A callback that throws something else ends the process**: the next payload stays in the queue. -/
theorem callback_terminates : ∃ s, run (step HttpEndpoints.sampleHash) {} (firstAttempt true ++
    [.other (.enqueue 32 tenBytes), .sendPayload { result := .ok 200 }, .callback (some .otherException)]) = some s ∧
      ¬ Contained HttpEndpoints.sampleHash s ∧ s.transport.payloadsToSend.items = [tenBytes] ∧
      ∀ a, step HttpEndpoints.sampleHash s a = none := by
  refine ⟨_, rfl, fun hC => ?_, rfl, fun a => rfl⟩
  have hlive := hC.alive
  revert hlive
  decide

end OtelDistro.Transport.Sending
