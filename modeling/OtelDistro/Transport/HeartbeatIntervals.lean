import OtelDistro.Transport.OpAmp

/-!
# OtelDistro.Transport.HeartbeatIntervals — how often the heartbeat thread sends

The two intervals are written by `startCommunication`, by the setters and by a message with connection settings; the setters
alone refuse what is not positive.

* `Waits`: the intervals are positive, and the loop waits after it has sent.
* `IntervalsOk`: what is to be asked of the other two, and of the clock.
* `heartbeats_wait`: the run; `waits_step_iff`: for the steps that write an interval the condition is exact.
-/

namespace OtelDistro.OpAmpClient

open Lib

/-! ## Intervals and deadlines -/

/-- As signed ms the interval is positive. -/
def PositiveSeconds (seconds : UInt64) : Prop :=
  0 < seconds.toNat * 1000 % 2 ^ 64 ∧ seconds.toNat * 1000 % 2 ^ 64 < 2 ^ 63

/-- `now + interval` is a time point of the clock. -/
def InRange (now interval : Int64) : Prop := now.toInt + interval.toInt * 1000000 < 2 ^ 63

theorem bmod_pos_iff (n : ℕ) : 0 < Int.bmod n (2 ^ 64) ↔ 0 < n % 2 ^ 64 ∧ n % 2 ^ 64 < 2 ^ 63 := by
  rw [Int.bmod_def]
  split <;> omega

theorem toInt_secondsToMilliseconds (seconds : UInt64) :
    (secondsToMilliseconds seconds).toInt = Int.bmod (seconds.toNat * 1000 : ℕ) (2 ^ 64) := by
  have hthousand : (1000 : Int64).toInt = 1000 := rfl
  have hseconds : seconds.toInt64.toInt = Int.bmod seconds.toNat (2 ^ 64) :=
    BitVec.toInt_eq_toNat_bmod seconds.toBitVec
  rw [secondsToMilliseconds, Int64.toInt_mul, hseconds, hthousand, Int.bmod_mul_bmod]
  rfl

theorem secondsToMilliseconds_pos (seconds : UInt64) : 0 < secondsToMilliseconds seconds ↔ PositiveSeconds seconds := by
  rw [Int64.lt_iff_toInt_lt, Int64.toInt_zero, toInt_secondsToMilliseconds]
  exact bmod_pos_iff (seconds.toNat * 1000)

theorem lt_deadline {now interval : Int64} (hpos : 0 < interval) (hrange : InRange now interval) :
    now < deadline now interval := by
  have hmillion : (1000000 : Int64).toInt = 1000000 := rfl
  have hlow := Int64.le_toInt now
  unfold InRange at hrange
  rw [Int64.lt_iff_toInt_lt, Int64.toInt_zero] at hpos
  rw [deadline, Int64.lt_iff_toInt_lt, Int64.toInt_add, Int64.toInt_mul, Int.add_bmod_bmod, hmillion,
    Int.bmod_eq_of_le]
  · omega
  · omega
  · omega

/-! ## The run -/

/-- The loop waits after it has sent: both deadlines are later. -/
structure Waits (s : System) : Prop where
  heartbeat : 0 < s.opAmp.heartbeatInterval
  polling : 0 < s.opAmp.pollingInterval
  waits : ∀ task sent, s.thread = .running task → task.lastSent = some sent → sent < task.waitUntil

/-- The configured intervals are positive, the server's interval is, and the next deadlines are in the range of the clock. -/
def IntervalsOk (s : System) : Action → Prop
  | .startCommunication cfg =>
    cfg.opamp_endpoint ≠ [] → 0 < cfg.opamp_heartbeat_interval ∧ 0 < cfg.opamp_polling_interval
  | .response (some msg) _ => ∀ settings, msg.connectionSettings.bind (·.opamp) = some settings →
    PositiveSeconds settings.heartbeatIntervalSeconds
  | .iterate now => InRange now s.opAmp.heartbeatInterval ∧ InRange now s.opAmp.pollingInterval
  | _ => True

section

variable {s s' : System} {a : Action}

theorem lt_waitUntil {t : HeartbeatTask} {n : Int64} (hh : n < t.nextHeartbeat) (hp : n < t.nextPoll) :
    n < t.waitUntil := by
  unfold HeartbeatTask.waitUntil
  split
  · exact hp
  · exact hh

/-- A pass leaves both deadlines after `now`: a deadline that has passed is renewed, the other is still ahead. -/
theorem iterate_waits {t : HeartbeatTask} {o : OpAmp} {now : Int64} (hh : 0 < o.heartbeatInterval)
    (hp : 0 < o.pollingInterval) (hhr : InRange now o.heartbeatInterval) (hpr : InRange now o.pollingInterval) :
    now < (t.iterate o now).waitUntil := by
  refine lt_waitUntil ?_ ?_
  · show now < if now ≥ t.nextHeartbeat then _ else _
    split
    · exact lt_deadline hh hhr
    · next hahead => exact Int64.not_le.mp hahead
  · show now < if now ≥ t.nextPoll then _ else _
    split
    · exact lt_deadline hp hpr
    · next hahead => exact Int64.not_le.mp hahead

theorem startThread_running (s : System) (task : HeartbeatTask) :
    s.startThread.thread = .running task ↔ s.thread = .running task := by
  unfold System.startThread
  split
  · next habsent => simp [habsent]
  · exact Iff.rfl

theorem handle_intervals (o : OpAmp) (msg : ServerToAgent) :
    (o.handleServerToAgent msg).1.pollingInterval = o.pollingInterval ∧
      (o.handleServerToAgent msg).1.heartbeatInterval =
        ((msg.connectionSettings.bind (·.opamp)).map fun settings =>
          secondsToMilliseconds settings.heartbeatIntervalSeconds).getD o.heartbeatInterval := by
  show ((o.handleAgentIdentification msg).handleConnectionSettings msg).pollingInterval = _ ∧
    ((o.handleAgentIdentification msg).handleConnectionSettings msg).heartbeatInterval = _
  have hid : (o.handleAgentIdentification msg).pollingInterval = o.pollingInterval ∧
      (o.handleAgentIdentification msg).heartbeatInterval = o.heartbeatInterval := by
    unfold OpAmp.handleAgentIdentification
    split <;> exact ⟨rfl, rfl⟩
  unfold OpAmp.handleConnectionSettings
  cases msg.connectionSettings.bind (·.opamp) with
  | none => exact hid
  | some settings => exact ⟨hid.1, rfl⟩

theorem respond_frame (s : System) (msg : ServerToAgent) (watchers : List WatcherResult) :
    (s.respond (some msg) watchers).opAmp = (s.opAmp.handleServerToAgent msg).1 ∧
      (s.respond (some msg) watchers).thread = s.thread := by
  rcases hr : s.opAmp.handleServerToAgent msg with ⟨o, files⟩
  cases files <;> simp only [System.respond, hr] <;> exact ⟨trivial, trivial⟩

/-- A message with connection settings writes the interval it is told. -/
theorem Waits.respond_iff (h : Waits s) (msg : ServerToAgent) (watchers : List WatcherResult) :
    Waits (s.respond (some msg) watchers) ↔ IntervalsOk s (.response (some msg) watchers) := by
  obtain ⟨hopAmp, hthread⟩ := respond_frame s msg watchers
  obtain ⟨hpolling, hheartbeat⟩ := handle_intervals s.opAmp msg
  rw [← hopAmp] at hpolling hheartbeat
  constructor
  · intro hw settings hsettings
    have hpos := hw.heartbeat
    rw [hheartbeat, hsettings] at hpos
    exact (secondsToMilliseconds_pos _).mp hpos
  · intro hok
    refine ⟨?_, by rw [hpolling]; exact h.polling, by rw [hthread]; exact h.waits⟩
    rw [hheartbeat]
    cases hsettings : msg.connectionSettings.bind (·.opamp) with
    | none => exact h.heartbeat
    | some settings => exact (secondsToMilliseconds_pos _).mpr (hok settings hsettings)

theorem Waits.startThread (h : Waits s) : Waits s.startThread := by
  refine ⟨?_, ?_, fun task sent htask => h.waits task sent ((startThread_running _ task).mp htask)⟩
  · rw [(startThread_frame s).1]; exact h.heartbeat
  · rw [(startThread_frame s).1]; exact h.polling

theorem Waits.startCommunication_iff (h : Waits s) (cfg : Configuration) :
    Waits (s.startCommunication cfg) ↔ IntervalsOk s (.startCommunication cfg) := by
  unfold System.startCommunication
  split
  · next hempty =>
    rw [List.isEmpty_iff] at hempty
    exact iff_of_true h fun hne => absurd hempty hne
  · next hempty =>
    rw [List.isEmpty_iff] at hempty
    constructor
    · intro hw _
      have hheartbeat := hw.heartbeat
      have hpolling := hw.polling
      rw [(startThread_frame _).1] at hheartbeat hpolling
      exact ⟨hheartbeat, hpolling⟩
    · intro hok
      obtain ⟨hheartbeat, hpolling⟩ := hok hempty
      exact Waits.startThread ⟨hheartbeat, hpolling, h.waits⟩

/-- The setters refuse what is not positive. -/
theorem Waits.setters (h : Waits s) (interval : Int64) :
    Waits { s with opAmp := s.opAmp.updateHeartbeatInterval interval } ∧
      Waits { s with opAmp := s.opAmp.updatePollingInterval interval } := by
  refine ⟨?_, ?_⟩
  · unfold OpAmp.updateHeartbeatInterval
    split
    · next hpos => exact ⟨hpos, h.polling, h.waits⟩
    · exact h
  · unfold OpAmp.updatePollingInterval
    split
    · next hpos => exact ⟨h.heartbeat, hpos, h.waits⟩
    · exact h

theorem Waits.iterate (h : Waits s) {now : Int64} (hok : IntervalsOk s (.iterate now)) (hs : s.iterate now = some s') :
    Waits s' := by
  obtain ⟨task, hthread, hsend, rfl⟩ := iterate_cases hs
  refine ⟨h.heartbeat, h.polling, fun task' sent htask hsent => ?_⟩
  obtain rfl : task.iterate s.opAmp now = task' := HeartbeatThread.running.inj htask
  have hsent : (if task.shouldSend now then some now else task.lastSent) = some sent := hsent
  rw [hsend, if_pos rfl, Option.some.injEq] at hsent
  subst hsent
  exact iterate_waits h.heartbeat h.polling hok.1 hok.2

theorem waits_step (h : Waits s) (hok : IntervalsOk s a) (hs : step s a = some s') : Waits s' := by
  unfold step at hs
  split at hs
  · cases hs
  · cases a with
    | startCommunication cfg => exact Option.some.inj hs ▸ (h.startCommunication_iff cfg).mpr hok
    | updateHeartbeatInterval interval => exact Option.some.inj hs ▸ (h.setters interval).1
    | updatePollingInterval interval => exact Option.some.inj hs ▸ (h.setters interval).2
    | response data watchers =>
      cases data with
      | none => exact Option.some.inj hs ▸ h
      | some msg => exact Option.some.inj hs ▸ (h.respond_iff msg watchers).mpr hok
    | threadStarts now =>
      simp only at hs
      split at hs
      · exact Option.some.inj hs ▸ ⟨h.heartbeat, h.polling, fun task sent htask hsent => by cases htask; cases hsent⟩
      · cases hs
    | iterate now => exact h.iterate hok hs
    | shutdownThread => exact Option.some.inj hs ▸ ⟨h.heartbeat, h.polling, nofun⟩
    | postfork => exact Option.some.inj hs ▸ h.startThread

/-- The writes of an interval keep the promise if and only if they meet the condition. -/
theorem waits_step_iff (h : Waits s) (hs : step s a = some s') (hwrite : ∀ now, a ≠ .iterate now) :
    Waits s' ↔ IntervalsOk s a := by
  refine ⟨fun hw => ?_, fun hok => waits_step h hok hs⟩
  unfold step at hs
  split at hs
  · cases hs
  · cases a with
    | startCommunication cfg => exact (h.startCommunication_iff cfg).mp (Option.some.inj hs ▸ hw)
    | response data watchers =>
      cases data with
      | none => trivial
      | some msg => exact (h.respond_iff msg watchers).mp (Option.some.inj hs ▸ hw)
    | iterate now => exact absurd rfl (hwrite now)
    | _ => trivial

/-- **The heartbeat thread waits**: in every run in which the configured intervals and those of the server are positive and
the deadlines stay in the range of the clock, both intervals are positive and the loop waits after each heartbeat. -/
theorem heartbeats_wait {agentUid : Str} {as : List Action} (h : Path step IntervalsOk (System.new agentUid) as s) :
    Waits s :=
  h.invariant (I := Waits) (fun _ _ _ hI hok hs => waits_step hI hok hs)
    ⟨show (0 : Int64) < 30000 by decide, show (0 : Int64) < 30000 by decide, nofun⟩

end

/-- Connection settings without an interval: the loop sends three heartbeats without waiting. -/
theorem settings_without_interval : ¬∀ (agentUid : Str) (as : List Action) (s : System),
    run step (System.new agentUid) as = some s → Waits s := by
  intro h
  obtain ⟨s, hrun, hinterval, hlog⟩ : ∃ s, run step (System.new []) [
      .startCommunication ⟨lit "http://localhost:4320", 30000, 30000⟩, .threadStarts 0,
      .response (some { connectionSettings := some { opamp := some {} } }) [],
      .iterate 30000000000, .iterate 30000000000, .iterate 30000000000] = some s ∧ s.opAmp.heartbeatInterval = 0 ∧
      s.log.length = 3 := ⟨_, rfl, rfl, rfl⟩
  have hpos := (h _ _ s hrun).heartbeat
  rw [hinterval] at hpos
  exact absurd hpos (by decide)

/-- The server asks for ten seconds. -/
theorem heartbeats_wait_ten_seconds : ∃ s as, Path step IntervalsOk (System.new []) as s ∧
    s.opAmp.heartbeatInterval = 10000 ∧ s.log.length = 1 ∧ Waits s := by
  obtain ⟨s, h, hinterval, hlog⟩ : ∃ s, Path step IntervalsOk (System.new []) [
      .startCommunication ⟨lit "http://localhost:4320", 30000, 30000⟩, .threadStarts 0, .updatePollingInterval 0,
      .response (some { connectionSettings := some { opamp := some ⟨10⟩ } }) [], .iterate 30000000000] s ∧
      s.opAmp.heartbeatInterval = 10000 ∧ s.log.length = 1 := by
    refine ⟨_, .cons (fun _ => ⟨by decide, by decide⟩) rfl (.cons trivial rfl (.cons trivial rfl (.cons ?_ rfl
      (.cons ⟨?_, ?_⟩ rfl (.nil _))))), rfl, rfl⟩
    · intro settings hsettings
      obtain rfl : (⟨10⟩ : OpAMPConnectionSettings) = settings := Option.some.inj hsettings
      exact ⟨by decide, by decide⟩
    · show (30000000000 : Int64).toInt + (10000 : Int64).toInt * 1000000 < 2 ^ 63
      decide
    · show (30000000000 : Int64).toInt + (30000 : Int64).toInt * 1000000 < 2 ^ 63
      decide
  exact ⟨s, _, h, hinterval, hlog, heartbeats_wait h⟩

end OtelDistro.OpAmpClient
