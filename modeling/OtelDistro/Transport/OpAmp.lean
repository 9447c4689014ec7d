import OtelDistro.Coordinator.ConfigReplication

/-!
# OtelDistro.Transport.OpAmp — the OpAMP client of the coordinator

The transport thread hands every response of the server to `handleServerToAgent`; the heartbeat thread sends a heartbeat when
the heartbeat or the polling interval has passed.

* `OpAmp`: the members of the class, over the part that keeps the remote configuration.
* `HeartbeatTask`: the loop of `opAmpHeartbeatTask`, `iterate` one pass of it.
* `System`: the object, its thread, and the log of watcher calls and heartbeats.
* `heartbeats_report_applied`: what heartbeats say of the configuration.
* `heartbeats_wait`: the intervals stay positive, and the loop waits between two heartbeats.
-/

namespace OtelDistro.OpAmpClient

open Lib Coordinator

/-! ## The client -/

structure OpAMPConnectionSettings where
  heartbeatIntervalSeconds : UInt64 := 0

structure ConnectionSettingsOffers where
  opamp : Option OpAMPConnectionSettings := none

/-- `agentIdentification` is the `new_instance_uid`. -/
structure ServerToAgent extends Coordinator.ServerToAgent where
  agentIdentification : Option Str := none
  connectionSettings : Option ConnectionSettingsOffers := none

/-- Intervals in ms. -/
structure OpAmp extends Coordinator.OpAmp where
  agentUid : Str
  heartbeatInterval : Int64 := 30000
  pollingInterval : Int64 := 30000

/-- The options that `startCommunication` copies. -/
structure Configuration where
  opamp_endpoint : Str
  opamp_heartbeat_interval : Int64
  opamp_polling_interval : Int64

/-- `memcpy` of at most 16 bytes into 16 zeros. -/
def newAgentUid (agentId : Str) : Str := (agentId ++ List.replicate 16 0).take 16

/-- The `std::chrono::seconds` of an unsigned number, as `std::chrono::milliseconds`. -/
def secondsToMilliseconds (seconds : UInt64) : Int64 := seconds.toInt64 * 1000

namespace OpAmp

def updateHeartbeatInterval (o : OpAmp) (interval : Int64) : OpAmp :=
  if interval > 0 then { o with heartbeatInterval := interval } else o

def updatePollingInterval (o : OpAmp) (interval : Int64) : OpAmp :=
  if interval > 0 then { o with pollingInterval := interval } else o

def handleAgentIdentification (o : OpAmp) (msg : ServerToAgent) : OpAmp :=
  match msg.agentIdentification with
  | none => o
  | some agentId => { o with agentUid := newAgentUid agentId }

def handleConnectionSettings (o : OpAmp) (msg : ServerToAgent) : OpAmp :=
  match msg.connectionSettings.bind (·.opamp) with
  | none => o
  | some settings => { o with heartbeatInterval := secondsToMilliseconds settings.heartbeatIntervalSeconds }

/-- The new state, and the map the watchers are called with. -/
def handleServerToAgent (o : OpAmp) (msg : ServerToAgent) : OpAmp × Option ConfigFiles :=
  let o := (o.handleAgentIdentification msg).handleConnectionSettings msg
  let (remote, configFiles) := o.toOpAmp.handleServerToAgent msg.toServerToAgent
  ({ o with toOpAmp := remote }, configFiles)

end OpAmp

inductive RemoteConfigStatuses
  | unset
  | applied
  | applying
  | failed
deriving DecidableEq

structure RemoteConfigStatus where
  lastRemoteConfigHash : Str
  status : RemoteConfigStatuses
deriving DecidableEq

structure AgentToServer where
  instanceUid : Str
  remoteConfigStatus : Option RemoteConfigStatus
deriving DecidableEq

def OpAmp.sendHeartbeat (o : OpAmp) : AgentToServer where
  instanceUid := o.agentUid
  remoteConfigStatus := if o.currentConfigHash ≠ [] then some ⟨o.currentConfigHash, .applied⟩ else none

/-! ## The heartbeat thread -/

/-- Time points in ns.  `lastSent` is when the loop last called `sendHeartbeat`. -/
structure HeartbeatTask where
  nextHeartbeat : Int64
  nextPoll : Int64
  lastSent : Option Int64 := none

/-- `now + interval` -/
def deadline (now interval : Int64) : Int64 := now + interval * 1000000

namespace HeartbeatTask

def start (o : OpAmp) (now : Int64) : HeartbeatTask where
  nextHeartbeat := deadline now o.heartbeatInterval
  nextPoll := deadline now o.pollingInterval

def waitUntil (t : HeartbeatTask) : Int64 := if t.nextPoll < t.nextHeartbeat then t.nextPoll else t.nextHeartbeat

def shouldSend (t : HeartbeatTask) (now : Int64) : Bool := decide (now ≥ t.nextHeartbeat) || decide (now ≥ t.nextPoll)

/-- The pass of the loop after the wait has ended. -/
def iterate (t : HeartbeatTask) (o : OpAmp) (now : Int64) : HeartbeatTask where
  nextHeartbeat := if now ≥ t.nextHeartbeat then deadline now o.heartbeatInterval else t.nextHeartbeat
  nextPoll := if now ≥ t.nextPoll then deadline now o.pollingInterval else t.nextPoll
  lastSent := if t.shouldSend now then some now else t.lastSent

end HeartbeatTask

inductive HeartbeatThread
  | absent
  | created
  | running (task : HeartbeatTask)

/-! ## Runs -/

/-- What a watcher does when it is called; the transport catches `std::runtime_error` only. -/
inductive WatcherResult
  | returned
  | runtimeError
  | otherException
deriving DecidableEq

/-- A call of `configUpdatedWatchers_`: what the watchers do, in their order.  The first that throws ends the call. -/
structure Delivery where
  configHash : Str
  configFiles : ConfigFiles
  watchers : List WatcherResult

/-- Every watcher completes without exception. -/
def Delivery.Completed (d : Delivery) : Prop := ∀ w ∈ d.watchers, w = .returned

/-- What leaves the call. -/
def exception (watchers : List WatcherResult) : Option WatcherResult := watchers.find? fun w => w ≠ .returned

inductive Event
  | delivered (d : Delivery)
  | heartbeat (msg : AgentToServer)

/-- `terminated`: an exception has left the transport thread, and the process with it. -/
structure System where
  opAmp : OpAmp
  thread : HeartbeatThread := .absent
  log : List Event := []
  terminated : Bool := false

namespace System

def startThread (s : System) : System :=
  match s.thread with
  | .absent => { s with thread := .created }
  | _ => s

def startCommunication (s : System) (cfg : Configuration) : System :=
  if cfg.opamp_endpoint.isEmpty then s
  else
    { s with opAmp := { s.opAmp with
        heartbeatInterval := cfg.opamp_heartbeat_interval
        pollingInterval := cfg.opamp_polling_interval } }.startThread

/-- The callback with the data of a response: a parsed message, or data that is none. -/
def respond (s : System) (data : Option ServerToAgent) (watchers : List WatcherResult) : System :=
  match data with
  | none => s
  | some msg =>
    match s.opAmp.handleServerToAgent msg with
    | (o, none) => { s with opAmp := o }
    | (o, some configFiles) =>
      { s with
        opAmp := o
        log := s.log ++ [.delivered ⟨o.currentConfigHash, configFiles, watchers⟩]
        terminated := decide (exception watchers = some .otherException) }

/-- One pass of the loop; it starts when the wait has ended. -/
def iterate (s : System) (now : Int64) : Option System :=
  match s.thread with
  | .running task =>
    if task.waitUntil ≤ now then
      some { s with
        thread := .running (task.iterate s.opAmp now)
        log := if task.shouldSend now then s.log ++ [.heartbeat s.opAmp.sendHeartbeat] else s.log }
    else none
  | _ => none

end System

inductive Action
  | startCommunication (cfg : Configuration)
  | updateHeartbeatInterval (interval : Int64)
  | updatePollingInterval (interval : Int64)
  | response (data : Option ServerToAgent) (watchers : List WatcherResult)
  /-- The new thread runs. -/
  | threadStarts (now : Int64)
  | iterate (now : Int64)
  /-- `prefork` or the destructor -/
  | shutdownThread
  | postfork

def step (s : System) (a : Action) : Option System :=
  if s.terminated then none
  else
    match a with
    | .startCommunication cfg => some (s.startCommunication cfg)
    | .updateHeartbeatInterval interval => some { s with opAmp := s.opAmp.updateHeartbeatInterval interval }
    | .updatePollingInterval interval => some { s with opAmp := s.opAmp.updatePollingInterval interval }
    | .response data watchers => some (s.respond data watchers)
    | .threadStarts now =>
      match s.thread with
      | .created => some { s with thread := .running (.start s.opAmp now) }
      | _ => none
    | .iterate now => s.iterate now
    | .shutdownThread => some { s with thread := .absent }
    | .postfork => some s.startThread

/-- A client that has been constructed. -/
def System.new (agentUid : Str) : System := { opAmp := { agentUid } }

/-! ## What heartbeats report -/

def Event.delivery : Event → Option Delivery
  | .delivered d => some d
  | .heartbeat _ => none

/-- The last call of the watchers. -/
def lastDelivery (log : List Event) : Option Delivery := (log.filterMap Event.delivery).getLast?

/-- The hash arrived with the last configuration, and every watcher has completed for it. -/
def Applied (log : List Event) (hash : Str) : Prop := ∃ d, lastDelivery log = some d ∧ d.configHash = hash ∧ d.Completed

/-- Each heartbeat that reports a hash as applied comes after the watchers have completed. -/
def ReportsApplied (log : List Event) : Prop :=
  ∀ before msg after hash, log = before ++ .heartbeat msg :: after → msg.remoteConfigStatus = some ⟨hash, .applied⟩ →
    Applied before hash

/-- A message that changes the hash is handled without a `std::runtime_error`. -/
def WatchersOk (s : System) : Action → Prop
  | .response (some msg) watchers =>
    msg.toServerToAgent.newConfig s.opAmp.toOpAmp ≠ none → exception watchers ≠ some .runtimeError
  | _ => True

structure ReportInv (s : System) : Prop where
  reports : ReportsApplied s.log
  hash : s.terminated = false → s.opAmp.currentConfigHash ≠ [] → Applied s.log s.opAmp.currentConfigHash

section

variable {s s' : System} {o o' : OpAmp} {msg : ServerToAgent} {watchers : List WatcherResult} {log : List Event}

theorem lastDelivery_delivered (log : List Event) (d : Delivery) : lastDelivery (log ++ [.delivered d]) = some d := by
  simp [lastDelivery, Event.delivery]

theorem applied_heartbeat (log : List Event) (msg : AgentToServer) (hash : Str) :
    Applied (log ++ [.heartbeat msg]) hash ↔ Applied log hash := by
  simp [Applied, lastDelivery, Event.delivery]

theorem ReportsApplied.append {e : Event} (h : ReportsApplied log)
    (he : ∀ msg hash, e = .heartbeat msg → msg.remoteConfigStatus = some ⟨hash, .applied⟩ → Applied log hash) :
    ReportsApplied (log ++ [e]) := by
  intro before msg after hash heq hstatus
  rcases List.eq_nil_or_concat after with rfl | ⟨after', e', rfl⟩
  · obtain ⟨rfl, hlast⟩ := List.append_inj' heq rfl
    rw [List.singleton_inj] at hlast
    exact he msg hash hlast hstatus
  · rw [List.concat_eq_append, ← List.cons_append, ← List.append_assoc] at heq
    exact h before msg after' hash (List.append_inj' heq rfl).1 hstatus

theorem exception_eq_none_iff : exception watchers = none ↔ ∀ w ∈ watchers, w = .returned := by
  simp [exception, List.find?_eq_none]

/-- Only the remote configuration of a message changes the hash. -/
theorem handle_toOpAmp (o : OpAmp) (msg : ServerToAgent) :
    ((o.handleAgentIdentification msg).handleConnectionSettings msg).toOpAmp = o.toOpAmp := by
  unfold OpAmp.handleConnectionSettings OpAmp.handleAgentIdentification
  split <;> split <;> rfl

theorem handleServerToAgent_configFiles (o : OpAmp) (msg : ServerToAgent) :
    (o.handleServerToAgent msg).2 = (o.toOpAmp.handleServerToAgent msg.toServerToAgent).2 := by
  show (((o.handleAgentIdentification msg).handleConnectionSettings msg).toOpAmp.handleServerToAgent _).2 = _
  rw [handle_toOpAmp]

theorem handleServerToAgent_toOpAmp (o : OpAmp) (msg : ServerToAgent) :
    (o.handleServerToAgent msg).1.toOpAmp = (o.toOpAmp.handleServerToAgent msg.toServerToAgent).1 := by
  show (((o.handleAgentIdentification msg).handleConnectionSettings msg).toOpAmp.handleServerToAgent _).1 = _
  rw [handle_toOpAmp]

theorem respond_unchanged (watchers : List WatcherResult) (h : msg.toServerToAgent.newConfig s.opAmp.toOpAmp = none) :
    s.respond (some msg) watchers = { s with opAmp := (s.opAmp.handleServerToAgent msg).1 } ∧
      (s.opAmp.handleServerToAgent msg).1.currentConfigHash = s.opAmp.currentConfigHash := by
  have hfiles := handleServerToAgent_configFiles s.opAmp msg
  have hremote := handleServerToAgent_toOpAmp s.opAmp msg
  simp only [Coordinator.OpAmp.handleServerToAgent, h] at hfiles hremote
  refine ⟨?_, congrArg Coordinator.OpAmp.currentConfigHash hremote⟩
  rcases hr : s.opAmp.handleServerToAgent msg with ⟨o, files⟩
  rw [hr] at hfiles
  obtain rfl : files = none := hfiles
  simp only [System.respond, hr]

theorem respond_changed (watchers : List WatcherResult) {hash : Str} {cfg : ConfigFiles}
    (h : msg.toServerToAgent.newConfig s.opAmp.toOpAmp = some (hash, cfg)) :
    ∃ configFiles, s.respond (some msg) watchers = { s with
        opAmp := (s.opAmp.handleServerToAgent msg).1
        log := s.log ++ [.delivered ⟨hash, configFiles, watchers⟩]
        terminated := decide (exception watchers = some .otherException) } ∧
      (s.opAmp.handleServerToAgent msg).1.currentConfigHash = hash := by
  have hfiles := handleServerToAgent_configFiles s.opAmp msg
  have hremote := handleServerToAgent_toOpAmp s.opAmp msg
  simp only [Coordinator.OpAmp.handleServerToAgent, h] at hfiles hremote
  have hhash : (s.opAmp.handleServerToAgent msg).1.currentConfigHash = hash :=
    congrArg Coordinator.OpAmp.currentConfigHash hremote
  refine ⟨KMap.insertAll ∅ cfg.pairs, ?_, hhash⟩
  rcases hr : s.opAmp.handleServerToAgent msg with ⟨o, files⟩
  rw [hr] at hfiles hhash
  obtain rfl : files = some _ := hfiles
  simp only at hhash
  simp only [System.respond, hr, hhash]

theorem ReportInv.respond (h : ReportInv s) {data : Option ServerToAgent}
    (hok : WatchersOk s (.response data watchers)) (halive : s.terminated = false) :
    ReportInv (s.respond data watchers) := by
  cases data with
  | none => exact h
  | some msg =>
    cases hnew : msg.toServerToAgent.newConfig s.opAmp.toOpAmp with
    | none =>
      obtain ⟨heq, hhash⟩ := respond_unchanged watchers hnew
      rw [heq]
      refine ⟨h.reports, fun _ hne => ?_⟩
      rw [hhash] at hne ⊢
      exact h.hash halive hne
    | some p =>
      obtain ⟨configFiles, heq, hhash⟩ := respond_changed watchers hnew
      rw [heq]
      refine ⟨h.reports.append (by nofun), fun hterm _ => ?_⟩
      rw [hhash]
      refine ⟨_, lastDelivery_delivered s.log _, rfl, exception_eq_none_iff.mp ?_⟩
      have hcaught := hok (by rw [hnew]; nofun)
      have hterm : exception watchers ≠ some .otherException := by simpa using hterm
      cases hx : exception watchers with
      | none => rfl
      | some w =>
        -- what leaves the call is not a return
        have hw := List.find?_some hx
        rw [hx] at hcaught hterm
        cases w with
        | returned => simp at hw
        | runtimeError => exact absurd rfl hcaught
        | otherException => exact absurd rfl hterm

/-- A pass of the loop sends: its wait has ended. -/
theorem shouldSend_of_waitUntil {t : HeartbeatTask} {now : Int64} (h : t.waitUntil ≤ now) : t.shouldSend now = true := by
  unfold HeartbeatTask.waitUntil at h
  unfold HeartbeatTask.shouldSend
  split at h
  · rw [Bool.or_eq_true]
    exact .inr (decide_eq_true h)
  · rw [Bool.or_eq_true]
    exact .inl (decide_eq_true h)

theorem iterate_cases {now : Int64} (hs : s.iterate now = some s') : ∃ task, s.thread = .running task ∧
    task.shouldSend now = true ∧ s' = { s with
      thread := .running (task.iterate s.opAmp now)
      log := s.log ++ [.heartbeat s.opAmp.sendHeartbeat] } := by
  unfold System.iterate at hs
  split at hs
  · next task hthread =>
    split at hs
    · next hdue =>
      rw [shouldSend_of_waitUntil hdue, if_pos rfl, Option.some.injEq] at hs
      exact ⟨task, hthread, shouldSend_of_waitUntil hdue, hs.symm⟩
    · cases hs
  · cases hs

theorem ReportInv.iterate (h : ReportInv s) (halive : s.terminated = false) {now : Int64}
    (hs : s.iterate now = some s') : ReportInv s' := by
  obtain ⟨task, -, -, rfl⟩ := iterate_cases hs
  refine ⟨h.reports.append ?_, fun hterm hne => (applied_heartbeat ..).mpr (h.hash hterm hne)⟩
  intro msg hash hmsg hstatus
  cases hmsg
  unfold OpAmp.sendHeartbeat at hstatus
  split at hstatus
  · next hne =>
    cases hstatus
    exact h.hash halive hne
  · cases hstatus

theorem startThread_frame (s : System) : s.startThread.opAmp = s.opAmp ∧ s.startThread.log = s.log ∧
    s.startThread.terminated = s.terminated := by
  unfold System.startThread
  split <;> exact ⟨rfl, rfl, rfl⟩

/-- What a step leaves alone when it neither sends nor handles a configuration. -/
theorem ReportInv.congr (h : ReportInv s) (hlog : s'.log = s.log)
    (hhash : s'.opAmp.currentConfigHash = s.opAmp.currentConfigHash) (hterm : s'.terminated = s.terminated) :
    ReportInv s' := by
  constructor
  · rw [hlog]
    exact h.reports
  · rw [hlog, hhash, hterm]
    exact h.hash

theorem ReportInv.startThread (h : ReportInv s) : ReportInv s.startThread := by
  obtain ⟨hopAmp, hlog, hterm⟩ := startThread_frame s
  exact h.congr hlog (by rw [hopAmp]) hterm

theorem ReportInv.startCommunication (h : ReportInv s) (cfg : Configuration) : ReportInv (s.startCommunication cfg) := by
  unfold System.startCommunication
  split
  · exact h
  · apply ReportInv.startThread
    exact h.congr rfl rfl rfl

/-- The setters do not touch the remote configuration. -/
theorem setters_toOpAmp (o : OpAmp) (interval : Int64) : (o.updateHeartbeatInterval interval).toOpAmp = o.toOpAmp ∧
    (o.updatePollingInterval interval).toOpAmp = o.toOpAmp := by
  unfold OpAmp.updateHeartbeatInterval OpAmp.updatePollingInterval
  split <;> exact ⟨rfl, rfl⟩

theorem reportInv_step {a : Action} (h : ReportInv s) (hok : WatchersOk s a) (hs : step s a = some s') :
    ReportInv s' := by
  unfold step at hs
  split at hs
  · cases hs
  · next halive =>
    rw [Bool.not_eq_true] at halive
    cases a with
    | startCommunication cfg => exact Option.some.inj hs ▸ h.startCommunication cfg
    | updateHeartbeatInterval interval =>
      obtain rfl := Option.some.inj hs
      exact h.congr rfl (congrArg Coordinator.OpAmp.currentConfigHash (setters_toOpAmp s.opAmp interval).1) rfl
    | updatePollingInterval interval =>
      obtain rfl := Option.some.inj hs
      exact h.congr rfl (congrArg Coordinator.OpAmp.currentConfigHash (setters_toOpAmp s.opAmp interval).2) rfl
    | response data watchers => exact Option.some.inj hs ▸ h.respond hok halive
    | threadStarts now =>
      simp only at hs
      split at hs
      · obtain rfl := Option.some.inj hs
        exact h.congr rfl rfl rfl
      · cases hs
    | iterate now => exact h.iterate halive hs
    | shutdownThread =>
      obtain rfl := Option.some.inj hs
      exact h.congr rfl rfl rfl
    | postfork => exact Option.some.inj hs ▸ h.startThread

theorem reportInv_path {agentUid : Str} {as : List Action} (h : Path step WatchersOk (System.new agentUid) as s) :
    ReportInv s := by
  refine h.invariant (I := ReportInv) (fun _ _ _ hI hok hs => reportInv_step hI hok hs) ⟨?_, fun _ hne => absurd rfl hne⟩
  intro before msg after hash heq
  exact absurd heq (by simp [System.new])

/-- **Heartbeats report applied configurations**: in every run in which no message that changes the hash is handled with a
`std::runtime_error`, a heartbeat reports a hash as applied only if every watcher has completed for the map that arrived
with it. -/
theorem heartbeats_report_applied {agentUid : Str} {as : List Action}
    (h : Path step WatchersOk (System.new agentUid) as s) : ReportsApplied s.log := (reportInv_path h).reports

/-- **The condition is exact**: after such a run, the heartbeat that follows a new hash keeps the promise if and only if no
`std::runtime_error` has left the watchers. -/
theorem report_applied_iff {agentUid : Str} {as : List Action} (h : Path step WatchersOk (System.new agentUid) as s)
    {hash : Str} {cfg : ConfigFiles} (hnew : msg.toServerToAgent.newConfig s.opAmp.toOpAmp = some (hash, cfg))
    (hne : hash ≠ []) {t : System} (ht : step s (.response (some msg) watchers) = some t) {now : Int64}
    (hs : step t (.iterate now) = some s') : ReportsApplied s'.log ↔ exception watchers ≠ some .runtimeError := by
  constructor
  · intro hreports hthrown
    obtain ⟨configFiles, hresponded, hhash⟩ := respond_changed watchers hnew
    have halive : s.terminated = false ∧ s.respond (some msg) watchers = t := by
      unfold step at ht
      split at ht
      · cases ht
      · next halive => exact ⟨by simpa using halive, Option.some.inj ht⟩
    have hit : t.iterate now = some s' := by
      unfold step at hs
      split at hs
      · cases hs
      · exact hs
    obtain ⟨task, -, -, rfl⟩ := iterate_cases hit
    obtain ⟨d, hd, -, hcompleted⟩ := hreports t.log _ [] hash rfl (by
      rw [← halive.2, hresponded, OpAmp.sendHeartbeat, hhash, if_pos hne])
    rw [← halive.2, hresponded, lastDelivery_delivered, Option.some.injEq] at hd
    subst hd
    rw [exception_eq_none_iff.mpr hcompleted] at hthrown
    cases hthrown
  · intro hok
    have hI : ReportInv t := reportInv_step (a := .response (some msg) watchers) (reportInv_path h) (fun _ => hok) ht
    exact (reportInv_step (a := .iterate now) hI trivial hs).reports

end

/-- A watcher throws a `std::runtime_error`; the next heartbeat reports the hash as applied. -/
theorem heartbeat_reports_failed_configuration : ¬∀ (agentUid : Str) (as : List Action) (s : System),
    run step (System.new agentUid) as = some s → ReportsApplied s.log := by
  intro h
  obtain ⟨s, hrun, d, hlog, hd⟩ : ∃ s, run step (System.new []) [
      .startCommunication ⟨lit "http://localhost:4320", 30000, 30000⟩, .threadStarts 0,
      .response (some { remoteConfig := some ⟨lit "h", some ∅⟩ }) [.returned, .runtimeError],
      .iterate 30000000000] = some s ∧ ∃ d, s.log = [.delivered d] ++
        .heartbeat ⟨[], some ⟨lit "h", .applied⟩⟩ :: [] ∧ d.watchers = [.returned, .runtimeError] :=
    ⟨_, rfl, _, rfl, rfl⟩
  obtain ⟨d', hd', -, hcompleted⟩ := h _ _ s hrun _ _ _ _ hlog rfl
  obtain rfl : d = d' := Option.some.inj hd'
  exact absurd (hcompleted .runtimeError (by rw [hd]; simp)) nofun

/-- Two configurations, the second under the hash of the first. -/
theorem heartbeats_report_applied_completed : ∃ s as, Path step WatchersOk (System.new []) as s ∧ s.log.length = 2 ∧
    ReportsApplied s.log := by
  obtain ⟨s, h, hlog⟩ : ∃ s, Path step WatchersOk (System.new []) [
      .startCommunication ⟨lit "http://localhost:4320", 30000, 30000⟩, .threadStarts 0,
      .response (some { remoteConfig := some ⟨lit "h", some ∅⟩ }) [.returned],
      .response (some { remoteConfig := some ⟨lit "h", some ∅⟩ }) [.returned, .runtimeError],
      .iterate 30000000000] s ∧ s.log.length = 2 :=
    ⟨_, .cons trivial rfl (.cons trivial rfl (.cons (fun _ => by decide) rfl (.cons (fun hnew => absurd rfl hnew) rfl
      (.cons trivial rfl (.nil _))))), rfl⟩
  exact ⟨s, _, h, hlog, heartbeats_report_applied h⟩

end OtelDistro.OpAmpClient
