import OtelDistro.Config.ConfigurationManager
import OtelDistro.Transport.HeartbeatIntervals

/-!
# OtelDistro.Coordinator.HeartbeatAssignment — the server's heartbeat interval and the local one

The coordinator process puts the OpAMP client and the configuration together: a message with a new remote configuration calls
the watcher of the client, which stores the files and updates the configuration; the watcher of the configuration then calls
the setters of the client that is still handling the message.

* `CoordinatorProcess`: its members that take part; `new`, `startCommunication`, `respond`: the constructor, the start of the
  loop and the callback of the transport.
* `assigned`: the interval the server has told last, until the local option changes.
* `Applies`, `onConfigFiles_cases`: when the watchers get to the setters, and what they leave.
* `Holds`: the client has the interval assigned.  `AssignmentOk`: what is asked of a step.

`assignment_kept_iff`: the interval is the one assigned all along a run if its steps meet this, and not otherwise.
-/

namespace OtelDistro.OpAmpClient

open Lib Coordinator

/-! ## The process -/

/-- A field of type `duration`, in ms. -/
def duration (cfg : Config.ConfigurationSnapshot) (name : String) : Int64 :=
  match cfg.value name with
  | .duration ms => ms
  | _ => 0

/-- A field of type `string`. -/
def text (cfg : Config.ConfigurationSnapshot) (name : String) : Str :=
  match cfg.value name with
  | .string s => s
  | _ => []

/-- What an update of the configuration meets: the texts of the options, the file at which the shared segment is full, and
what the watcher of the logger does. -/
structure Surroundings where
  provider : Config.OptionValueProvider
  exhaustedAt : Option ℕ := none
  logger : WatcherResult := .returned

/-- `assigned` records the server's last interval in seconds, until the local option changes. -/
structure CoordinatorProcess where
  opAmp : OpAmp
  configManager : Config.ConfigurationManager := .init
  config : Config.ConfigurationSnapshot := { value := Config.defaultValue }
  shared : SharedData := {}
  communicating : Bool := false
  terminated : Bool := false
  assigned : Option UInt64 := none

/-- The interval a message tells. -/
def ServerToAgent.assignment (msg : ServerToAgent) : Option UInt64 :=
  (msg.connectionSettings.bind (·.opamp)).map (·.heartbeatIntervalSeconds)

namespace CoordinatorProcess

variable (A : Config.DoubleArithmetic)

/-- The option of the local configuration. -/
def localInterval (p : CoordinatorProcess) : Int64 := duration p.config "opamp_heartbeat_interval"

/-- The watcher of `config_` behind the logger's. -/
def updateIntervals (p : CoordinatorProcess) : CoordinatorProcess :=
  let o := p.opAmp.updateHeartbeatInterval (duration p.config "opamp_heartbeat_interval")
  { p with opAmp := o.updatePollingInterval (duration p.config "opamp_polling_interval") }

/-- `ConfigurationStorage::update`, with its two watchers. -/
def updateConfig (p : CoordinatorProcess) (logger : WatcherResult) : WatcherResult × CoordinatorProcess :=
  if p.config.revision ≠ p.configManager.current.revision then
    match logger with
    | .returned => (.returned, { p with config := p.configManager.current }.updateIntervals)
    | thrown => (thrown, { p with config := p.configManager.current })
  else (.returned, p)

/-- The watcher of `opAmp_`; neither a full segment nor a number out of range is a `std::runtime_error`. -/
def onConfigFiles (p : CoordinatorProcess) (around : Surroundings) (configFiles : ConfigFiles) :
    WatcherResult × CoordinatorProcess :=
  let p := { p with shared := p.shared.storeConfigFiles configFiles around.exhaustedAt }
  if storeCompletes configFiles around.exhaustedAt then
    match p.configManager.update A around.provider configFiles with
    | (.ok (), manager) => { p with configManager := manager }.updateConfig around.logger
    | (.error _, manager) => (.otherException, { p with configManager := manager })
  else (.otherException, p)

/-- The constructor; `none` where it throws. -/
def new (agentUid : Str) (shared : SharedData) (around : Surroundings) : Option CoordinatorProcess :=
  let p : CoordinatorProcess := { opAmp := { agentUid }, shared }
  match p.configManager.update A around.provider ∅ with
  | (.ok (), manager) =>
    match { p with configManager := manager }.updateConfig around.logger with
    | (.returned, p) => some p
    | _ => none
  | (.error _, _) => none

def startCommunication (p : CoordinatorProcess) : CoordinatorProcess :=
  if (text p.config "opamp_endpoint").isEmpty then p
  else
    { p with
      opAmp := { p.opAmp with
        heartbeatInterval := duration p.config "opamp_heartbeat_interval"
        pollingInterval := duration p.config "opamp_polling_interval" }
      communicating := true }

def handleServerToAgent (p : CoordinatorProcess) (msg : ServerToAgent) (around : Surroundings) : CoordinatorProcess :=
  match p.opAmp.handleServerToAgent msg with
  | (o, none) => { p with opAmp := o }
  | (o, some configFiles) =>
    let (result, p) := { p with opAmp := o }.onConfigFiles A around configFiles
    { p with terminated := decide (result = .otherException) }

/-- The assignment in force after a message. -/
def inForce (p after : CoordinatorProcess) (msg : ServerToAgent) : Option UInt64 :=
  match msg.assignment with
  | some seconds => some seconds
  | none => if after.localInterval = p.localInterval then p.assigned else none

/-- The callback with the data of a response: a parsed message, or data that is none. -/
def respond (p : CoordinatorProcess) (data : Option ServerToAgent) (around : Surroundings) : CoordinatorProcess :=
  match data with
  | none => p
  | some msg =>
    let after := p.handleServerToAgent A msg around
    { after with assigned := p.inForce after msg }

inductive Action
  | startCommunication
  | response (data : Option ServerToAgent) (around : Surroundings)

/-- The loop starts the communication once; responses come afterwards. -/
def step (p : CoordinatorProcess) : Action → Option CoordinatorProcess
  | .startCommunication => if p.terminated || p.communicating then none else some p.startCommunication
  | .response data around => if p.terminated || !p.communicating then none else some (p.respond A data around)

/-! ## The interval that is assigned -/

/-- While an assignment is in force the interval is the one assigned, in ms. -/
def Holds (p : CoordinatorProcess) : Prop :=
  ∀ seconds, p.assigned = some seconds → p.opAmp.heartbeatInterval.toInt = seconds.toNat * 1000

/-- The watchers get to the setters of the client: the files are stored, no text of an option is out of range, and the
logger's watcher returns. -/
def Applies (around : Surroundings) (files : ConfigFiles) : Prop :=
  storeCompletes files around.exhaustedAt = true ∧ Config.AllInRange A around.provider files ∧ around.logger = .returned

def heartbeatOption : Config.OptionMetadata := Config.distroOption "opamp_heartbeat_interval" (.duration 30000)

/-- The local interval in a configuration: the value of the option's text, or its default. -/
def intervalOf (provider : Config.OptionValueProvider) (files : ConfigFiles) : Int64 :=
  match heartbeatOption.intended A (provider.fetch files heartbeatOption) with
  | .duration ms => ms
  | _ => 0

/-- A message assigns less than `2^63` ms.  If it brings a new configuration that is applied, the local interval of this is
not positive, or it is the one assigned, or it is a new one and the message assigns none. -/
def AssignmentOk (p : CoordinatorProcess) : Action → Prop
  | .response (some msg) around =>
    (∀ seconds, msg.assignment = some seconds → seconds.toNat * 1000 < 2 ^ 63) ∧
    ∀ hash cfg, msg.toServerToAgent.newConfig p.opAmp.toOpAmp = some (hash, cfg) →
      Applies A around (KMap.insertAll ∅ cfg.pairs) → 0 < intervalOf A around.provider (KMap.insertAll ∅ cfg.pairs) →
        ∀ seconds, msg.assignment = some seconds ∨ msg.assignment = none ∧ p.assigned = some seconds ∧
            intervalOf A around.provider (KMap.insertAll ∅ cfg.pairs) = p.localInterval →
          (intervalOf A around.provider (KMap.insertAll ∅ cfg.pairs)).toInt = seconds.toNat * 1000
  | _ => True

/-- The configuration in use is the manager's last one, and nothing is assigned before the communication has started. -/
structure Inv (p : CoordinatorProcess) : Prop where
  revision : p.terminated = false → p.config.revision = p.configManager.upcomingConfigRevision
  silent : p.communicating = false → p.assigned = none

section

variable {A} {p p' : CoordinatorProcess} {around : Surroundings} {files : ConfigFiles} {msg : ServerToAgent}

theorem heartbeatOption_mem : heartbeatOption ∈ Config.options_ := by
  simp only [Config.options_, List.mem_cons, heartbeatOption, true_or, or_true]

/-! ## The watchers -/

theorem heartbeatInterval_updateIntervals (p : CoordinatorProcess) :
    p.updateIntervals.opAmp.heartbeatInterval = (p.opAmp.updateHeartbeatInterval p.localInterval).heartbeatInterval := by
  unfold updateIntervals OpAmp.updatePollingInterval
  split <;> rfl

theorem toOpAmp_updateIntervals (p : CoordinatorProcess) : p.updateIntervals.opAmp.toOpAmp = p.opAmp.toOpAmp :=
  (setters_toOpAmp _ _).2.trans (setters_toOpAmp _ _).1

/-- What the watchers of the configuration leave, after the manager has taken a new revision. -/
theorem updateConfig_cases (hne : p.config.revision ≠ p.configManager.current.revision) (logger : WatcherResult) :
    ∃ q, p.updateConfig logger = (logger, q) ∧ q.config = p.configManager.current ∧
      q.configManager = p.configManager ∧ q.communicating = p.communicating ∧ q.terminated = p.terminated ∧
      q.assigned = p.assigned ∧ q.opAmp.toOpAmp = p.opAmp.toOpAmp ∧ q.opAmp.heartbeatInterval = if logger = .returned then
        (p.opAmp.updateHeartbeatInterval (duration p.configManager.current "opamp_heartbeat_interval")).heartbeatInterval
      else p.opAmp.heartbeatInterval := by
  unfold updateConfig
  rw [if_pos hne]
  cases logger with
  | returned =>
    exact ⟨_, rfl, rfl, rfl, rfl, rfl, rfl, toOpAmp_updateIntervals _, heartbeatInterval_updateIntervals _⟩
  | runtimeError => exact ⟨_, rfl, rfl, rfl, rfl, rfl, rfl, rfl, rfl⟩
  | otherException => exact ⟨_, rfl, rfl, rfl, rfl, rfl, rfl, rfl, rfl⟩

theorem duration_of_value {value : String → Config.OptionValue} {revision : UInt64}
    (h : value heartbeatOption.name = heartbeatOption.intended A (around.provider.fetch files heartbeatOption)) :
    duration ⟨value, revision, files⟩ "opamp_heartbeat_interval" = intervalOf A around.provider files := by
  unfold duration intervalOf
  rw [← h]
  rfl

/-- What the watcher of the client leaves: it gets to the setters, or it leaves the client as it was. -/
theorem onConfigFiles_cases (hrev : p.config.revision = p.configManager.upcomingConfigRevision) (around : Surroundings)
    (files : ConfigFiles) : ∃ result q, p.onConfigFiles A around files = (result, q) ∧
      q.communicating = p.communicating ∧
      (result ≠ .otherException → q.config.revision = q.configManager.upcomingConfigRevision) ∧
      ((Applies A around files ∧ q.localInterval = intervalOf A around.provider files ∧ q.opAmp.heartbeatInterval =
          (p.opAmp.updateHeartbeatInterval (intervalOf A around.provider files)).heartbeatInterval) ∨
        ¬ Applies A around files ∧ q.opAmp.heartbeatInterval = p.opAmp.heartbeatInterval) := by
  unfold onConfigFiles
  by_cases hstore : storeCompletes files around.exhaustedAt = true
  · by_cases hin : Config.AllInRange A around.provider files
    · obtain ⟨value, hupdate, hvalues⟩ := Config.update_inRange (m := p.configManager) hin
      have hvalue : duration ⟨value, p.configManager.upcomingConfigRevision + 1, files⟩ "opamp_heartbeat_interval" =
          intervalOf A around.provider files := duration_of_value (hvalues _ heartbeatOption_mem)
      have hne : p.config.revision ≠ p.configManager.upcomingConfigRevision + 1 := by
        rw [hrev]
        exact revision_ne_succ _
      simp only [hstore, if_true, hupdate]
      obtain ⟨q, hq, hconfig, hmanager, hcomm, -, -, -, hinterval⟩ := updateConfig_cases
        (p := { p with
          shared := p.shared.storeConfigFiles files around.exhaustedAt
          configManager := ⟨p.configManager.upcomingConfigRevision + 1,
            ⟨value, p.configManager.upcomingConfigRevision + 1, files⟩⟩ }) hne around.logger
      refine ⟨_, q, hq, hcomm, fun _ => by rw [hconfig, hmanager], ?_⟩
      by_cases hlogger : around.logger = .returned
      · refine .inl ⟨⟨hstore, hin, hlogger⟩, ?_, ?_⟩
        · rw [localInterval, hconfig, hvalue]
        · rw [hinterval, if_pos hlogger, hvalue]
      · exact .inr ⟨fun h => hlogger h.2.2, by rw [hinterval, if_neg hlogger]⟩
    · -- the exception of the parser
      obtain ⟨⟨e, he, -⟩, hm⟩ := Config.update_throws (m := p.configManager) hin
      have hupdate : p.configManager.update A around.provider files = (.error e, _) := Prod.ext he hm
      simp only [hstore, if_true, hupdate]
      exact ⟨_, _, rfl, rfl, fun h => absurd rfl h, .inr ⟨fun h => hin h.2.1, rfl⟩⟩
  · rw [if_neg hstore]
    exact ⟨_, _, rfl, rfl, fun h => absurd rfl h, .inr ⟨fun h => hstore h.1, rfl⟩⟩

/-! ## A message -/

theorem heartbeatInterval_handle (o : OpAmp) (msg : ServerToAgent) : (o.handleServerToAgent msg).1.heartbeatInterval =
    (msg.assignment.map secondsToMilliseconds).getD o.heartbeatInterval := by
  rw [(handle_intervals o msg).2, ServerToAgent.assignment, Option.map_map]
  rfl

/-- What a message leaves: the new configuration gets to the setters, or the interval is what the message told. -/
theorem handleServerToAgent_cases (hrev : p.config.revision = p.configManager.upcomingConfigRevision)
    (msg : ServerToAgent) (around : Surroundings) :
    (p.handleServerToAgent A msg around).communicating = p.communicating ∧
    ((p.handleServerToAgent A msg around).terminated = false → (p.handleServerToAgent A msg around).config.revision =
      (p.handleServerToAgent A msg around).configManager.upcomingConfigRevision) ∧
    ((∃ hash cfg, msg.toServerToAgent.newConfig p.opAmp.toOpAmp = some (hash, cfg) ∧
        Applies A around (KMap.insertAll ∅ cfg.pairs) ∧
        (p.handleServerToAgent A msg around).localInterval = intervalOf A around.provider (KMap.insertAll ∅ cfg.pairs) ∧
        (p.handleServerToAgent A msg around).opAmp.heartbeatInterval =
          if 0 < intervalOf A around.provider (KMap.insertAll ∅ cfg.pairs) then
            intervalOf A around.provider (KMap.insertAll ∅ cfg.pairs)
          else (msg.assignment.map secondsToMilliseconds).getD p.opAmp.heartbeatInterval) ∨
      (∀ hash cfg, msg.toServerToAgent.newConfig p.opAmp.toOpAmp = some (hash, cfg) →
          ¬ Applies A around (KMap.insertAll ∅ cfg.pairs)) ∧
        (p.handleServerToAgent A msg around).opAmp.heartbeatInterval =
          (msg.assignment.map secondsToMilliseconds).getD p.opAmp.heartbeatInterval) := by
  have hfiles := handleServerToAgent_configFiles p.opAmp msg
  have hinterval := heartbeatInterval_handle p.opAmp msg
  unfold handleServerToAgent
  generalize p.opAmp.handleServerToAgent msg = handled at hfiles hinterval
  obtain ⟨o, files⟩ := handled
  simp only at hfiles hinterval
  cases hnew : msg.toServerToAgent.newConfig p.opAmp.toOpAmp with
  | none =>
    simp only [Coordinator.OpAmp.handleServerToAgent, hnew] at hfiles
    subst hfiles
    refine ⟨rfl, fun _ => hrev, .inr ⟨fun hash cfg h => ?_, hinterval⟩⟩
    cases h
  | some new =>
    obtain ⟨hash, cfg⟩ := new
    simp only [Coordinator.OpAmp.handleServerToAgent, hnew] at hfiles
    subst hfiles
    obtain ⟨result, q, hq, hcomm, hrevision, hcases⟩ := onConfigFiles_cases (A := A) (p := { p with opAmp := o }) hrev
      around (KMap.insertAll ∅ cfg.pairs)
    simp only [hq]
    refine ⟨hcomm, fun hterm => hrevision (by simpa using hterm), ?_⟩
    rcases hcases with ⟨happlies, hlocal, hheartbeat⟩ | ⟨hnot, hheartbeat⟩
    · refine .inl ⟨hash, cfg, rfl, happlies, hlocal, ?_⟩
      rw [hheartbeat, ← hinterval, OpAmp.updateHeartbeatInterval]
      split <;> rfl
    · refine .inr ⟨?_, hheartbeat.trans hinterval⟩
      intro hash' cfg' heq
      cases heq
      exact hnot

theorem bmod_eq_iff (n : ℕ) : Int.bmod n (2 ^ 64) = n ↔ n < 2 ^ 63 := by
  rw [Int.bmod_def]
  split <;> omega

theorem toInt_assigned_iff (seconds : UInt64) :
    (secondsToMilliseconds seconds).toInt = seconds.toNat * 1000 ↔ seconds.toNat * 1000 < 2 ^ 63 := by
  rw [toInt_secondsToMilliseconds]
  exact bmod_eq_iff (seconds.toNat * 1000)

/-- The interval is what the message told: it is the one assigned if this is less than `2^63` ms. -/
theorem holds_told_iff (h : p.Holds) {after : CoordinatorProcess} (hinterval : after.opAmp.heartbeatInterval =
    (msg.assignment.map secondsToMilliseconds).getD p.opAmp.heartbeatInterval) :
    Holds { after with assigned := p.inForce after msg } ↔
      ∀ seconds, msg.assignment = some seconds → seconds.toNat * 1000 < 2 ^ 63 := by
  unfold Holds inForce
  simp only [hinterval]
  cases msg.assignment with
  | some told =>
    simp only [Option.map_some, Option.getD_some, Option.some.injEq, forall_eq']
    exact toInt_assigned_iff told
  | none =>
    refine iff_of_true (fun seconds hforce => h seconds ?_) nofun
    simp only at hforce
    split at hforce
    · exact hforce
    · cases hforce

/-- The local interval has got to the client: it is the one assigned if the two agree, or none is in force. -/
theorem holds_local_iff {after : CoordinatorProcess} {v : Int64} (hlocal : after.localInterval = v)
    (hinterval : after.opAmp.heartbeatInterval = v) :
    Holds { after with assigned := p.inForce after msg } ↔ ∀ seconds, msg.assignment = some seconds ∨
      msg.assignment = none ∧ p.assigned = some seconds ∧ v = p.localInterval → v.toInt = seconds.toNat * 1000 := by
  unfold Holds inForce
  simp only [hinterval, hlocal]
  refine forall_congr' fun seconds => imp_congr_left ?_
  cases msg.assignment with
  | some told => simp
  | none => simp [and_comm]

theorem holds_respond_iff (hinv : p.Inv) (halive : p.terminated = false) (h : p.Holds) (msg : ServerToAgent)
    (around : Surroundings) :
    (p.respond A (some msg) around).Holds ↔ AssignmentOk A p (.response (some msg) around) := by
  obtain ⟨-, -, hcases⟩ := handleServerToAgent_cases (A := A) (hinv.revision halive) msg around
  show Holds { p.handleServerToAgent A msg around with assigned := p.inForce (p.handleServerToAgent A msg around) msg } ↔ _
  unfold AssignmentOk
  rcases hcases with ⟨hash, cfg, hnew, happlies, hlocal, hinterval⟩ | ⟨hnot, hinterval⟩
  · split at hinterval
    · next hpos =>
      rw [holds_local_iff hlocal hinterval]
      constructor
      · intro hh
        refine ⟨fun seconds htold => ?_, fun hash' cfg' hnew' _ _ => ?_⟩
        · have hval := hh seconds (.inl htold)
          have := Int64.toInt_lt (intervalOf A around.provider (KMap.insertAll ∅ cfg.pairs))
          omega
        · cases hnew.symm.trans hnew'
          exact hh
      · intro hok
        exact hok.2 hash cfg hnew happlies hpos
    · next hpos =>
      rw [holds_told_iff h hinterval]
      refine ⟨fun hh => ⟨hh, fun hash' cfg' hnew' _ hpos' => ?_⟩, fun hok => hok.1⟩
      cases hnew.symm.trans hnew'
      exact absurd hpos' hpos
  · rw [holds_told_iff h hinterval]
    exact ⟨fun hh => ⟨hh, fun hash cfg hnew happlies => absurd happlies (hnot hash cfg hnew)⟩, fun hok => hok.1⟩

/-! ## The run -/

theorem startCommunication_frame (p : CoordinatorProcess) : p.startCommunication.config = p.config ∧
    p.startCommunication.configManager = p.configManager ∧ p.startCommunication.terminated = p.terminated ∧
    p.startCommunication.assigned = p.assigned := by
  unfold startCommunication
  split <;> exact ⟨rfl, rfl, rfl, rfl⟩

theorem step_response {data : Option ServerToAgent} (hs : step A p (.response data around) = some p') :
    p.terminated = false ∧ p.communicating = true ∧ p' = p.respond A data around := by
  simp only [step] at hs
  split at hs
  · cases hs
  · next hguard =>
    rw [Bool.or_eq_true, not_or, Bool.not_eq_true, Bool.not_eq_true, Bool.not_eq_false'] at hguard
    exact ⟨hguard.1, hguard.2, (Option.some.inj hs).symm⟩

theorem step_startCommunication (hs : step A p .startCommunication = some p') :
    p.terminated = false ∧ p.communicating = false ∧ p' = p.startCommunication := by
  simp only [step] at hs
  split at hs
  · cases hs
  · next hguard =>
    rw [Bool.or_eq_true, not_or, Bool.not_eq_true, Bool.not_eq_true] at hguard
    exact ⟨hguard.1, hguard.2, (Option.some.inj hs).symm⟩

theorem Inv.step {a : Action} (h : p.Inv) (hs : step A p a = some p') : p'.Inv := by
  cases a with
  | startCommunication =>
    obtain ⟨halive, hquiet, rfl⟩ := step_startCommunication hs
    obtain ⟨hconfig, hmanager, hterm, hassigned⟩ := startCommunication_frame p
    refine ⟨fun _ => ?_, fun _ => ?_⟩
    · rw [hconfig, hmanager]
      exact h.revision halive
    · rw [hassigned]
      exact h.silent hquiet
  | response data around =>
    obtain ⟨halive, hcomm, rfl⟩ := step_response hs
    cases data with
    | none => exact h
    | some msg =>
      obtain ⟨hsame, hrevision, -⟩ := handleServerToAgent_cases (A := A) (h.revision halive) msg around
      refine ⟨hrevision, fun hquiet => ?_⟩
      -- responses come after the start
      exact absurd (hcomm.symm.trans (hsame.symm.trans hquiet)) (by decide)

theorem holds_step_iff {a : Action} (hinv : p.Inv) (h : p.Holds) (hs : step A p a = some p') :
    p'.Holds ↔ AssignmentOk A p a := by
  cases a with
  | startCommunication =>
    obtain ⟨-, hquiet, rfl⟩ := step_startCommunication hs
    refine iff_of_true (fun seconds hassigned => ?_) trivial
    rw [(startCommunication_frame p).2.2.2, hinv.silent hquiet] at hassigned
    cases hassigned
  | response data around =>
    obtain ⟨halive, -, rfl⟩ := step_response hs
    cases data with
    | none => exact iff_of_true h trivial
    | some msg => exact holds_respond_iff hinv halive h msg around

/-- The constructor reads the options: it throws, or the configuration holds what was intended. -/
theorem new_cases (agentUid : Str) (shared : SharedData) (around : Surroundings) :
    (¬ (Config.AllInRange A around.provider ∅ ∧ around.logger = .returned) ∧ new A agentUid shared around = none) ∨
    ∃ p, new A agentUid shared around = some p ∧ p.Inv ∧ p.terminated = false ∧ p.communicating = false ∧ p.assigned = none ∧
      p.opAmp.toOpAmp = {} ∧ ∀ o ∈ Config.options_, p.config.value o.name = o.intended A (around.provider.fetch ∅ o) := by
  by_cases hin : Config.AllInRange A around.provider ∅
  · obtain ⟨value, hupdate, hvalues⟩ := Config.update_inRange (m := .init) hin
    have hne : (0 : UInt64) ≠ Config.ConfigurationManager.init.upcomingConfigRevision + 1 := by decide
    generalize Config.ConfigurationManager.init.upcomingConfigRevision + 1 = revision at hupdate hne
    obtain ⟨q, hq, hconfig, hmanager, hcomm, hterm, hassigned, hremote, -⟩ := updateConfig_cases
      (p := { opAmp := { agentUid }, shared, configManager := ⟨revision, ⟨value, revision, ∅⟩⟩ }) hne around.logger
    have hnew : new A agentUid shared around = if around.logger = .returned then some q else none := by
      simp only [new, hupdate, hq]
      cases around.logger <;> rfl
    by_cases hlogger : around.logger = .returned
    · exact .inr ⟨q, hnew.trans (if_pos hlogger), ⟨fun _ => by rw [hconfig, hmanager], fun _ => hassigned⟩, hterm, hcomm,
        hassigned, hremote, fun o ho => by rw [hconfig]; exact hvalues o ho⟩
    · exact .inl ⟨fun h => hlogger h.2, hnew.trans (if_neg hlogger)⟩
  · obtain ⟨⟨e, he, -⟩, hm⟩ := Config.update_throws (m := .init) hin
    have hupdate : Config.ConfigurationManager.init.update A around.provider ∅ = (.error e, _) := Prod.ext he hm
    exact .inl ⟨fun h => hin h.1, by simp only [new, hupdate]⟩

/-- **The server's heartbeat interval**: as long as an assignment of the server is in force the client has this interval in
every state of a run whose steps meet the condition, and in no other run. -/
theorem assignment_kept_iff {agentUid : Str} {shared : SharedData} (h : new A agentUid shared around = some p)
    (as : List Action) (p' : CoordinatorProcess) :
    Path (step A) (fun p a => ∀ q, step A p a = some q → q.Holds) p as p' ↔ Path (step A) (AssignmentOk A) p as p' := by
  obtain ⟨hinv, hnone⟩ : p.Inv ∧ p.assigned = none := by
    rcases new_cases (A := A) agentUid shared around with ⟨-, hnew⟩ | ⟨q, hnew, hinv, -, -, hnone, -⟩
    · cases hnew.symm.trans h
    · cases hnew.symm.trans h
      exact ⟨hinv, hnone⟩
  refine path_holds_iff (I := Inv) (fun _ _ _ hI hs => hI.step hs) (fun _ _ _ hI hG hs => holds_step_iff hI hG hs) hinv ?_
  intro seconds hassigned
  rw [hnone] at hassigned
  cases hassigned

end

/-! ## The defaults -/

/-- The environment has an endpoint, and nothing else. -/
def endpointOnly : Surroundings where
  provider :=
    { getDynamicOptionValue := fun _ _ => none
      getIniOptionValue := fun _ => none
      getEnvironmentOptionValue := fun name =>
        if name = lit "OTEL_PHP_OPAMP_ENDPOINT" then some (lit "http://localhost:4320") else none }

/-- The server asks for ten seconds. -/
def tenSeconds : ServerToAgent where
  connectionSettings := some { opamp := some ⟨10⟩ }

/-- The first configuration of the server. -/
def emptyConfig : ServerToAgent where
  remoteConfig := some ⟨lit "h", some ∅⟩

section

variable {A}

theorem fetch_endpointOnly (files : Config.ConfigFiles) (o : Config.OptionMetadata) :
    endpointOnly.provider.fetch files o =
      if (if o.otelNativeOption then lit o.name else Config.getEnvName (lit o.name)) = lit "OTEL_PHP_OPAMP_ENDPOINT" then
        some (lit "http://localhost:4320")
      else none := rfl

/-- No number begins the endpoint. -/
theorem allInRange_endpointOnly (files : Config.ConfigFiles) : Config.AllInRange A endpointOnly.provider files := by
  intro o _ value hvalue hout
  have hvalue : value = lit "http://localhost:4320" := by
    rw [fetch_endpointOnly] at hvalue
    exact (Option.some.inj ((Option.ite_none_right_eq_some.mp hvalue).2)).symm
  subst hvalue
  unfold Config.OptionMetadata.OutOfRange at hout
  have hinteger : Config.readInteger (cStr (Config.withoutSpaces (lit "http://localhost:4320"))) = none := by decide
  have hfloat : Config.readFloat (cStr (Config.withoutSpaces (lit "http://localhost:4320"))) = none := by decide
  split at hout
  · obtain ⟨negative, n, hread, -⟩ := hout
    cases hinteger.symm.trans hread
  · obtain ⟨x, hread, -⟩ := hout
    cases hfloat.symm.trans hread
  · exact hout

theorem intervalOf_endpointOnly (files : Config.ConfigFiles) : intervalOf A endpointOnly.provider files = 30000 := by
  have hnone : endpointOnly.provider.fetch files heartbeatOption = none := by
    rw [fetch_endpointOnly]
    decide
  unfold intervalOf
  rw [hnone]
  rfl

/-- The state after the server has asked for ten seconds. -/
theorem run_tenSeconds : ∃ p q, new A [] {} endpointOnly = some p ∧
    run (step A) p [.startCommunication, .response (some tenSeconds) endpointOnly] = some q ∧ q.Inv ∧
    q.terminated = false ∧ q.communicating = true ∧ q.assigned = some 10 ∧ q.opAmp.toOpAmp = {} ∧
    q.opAmp.heartbeatInterval = 10000 ∧ q.localInterval = 30000 := by
  rcases new_cases (A := A) [] {} endpointOnly with ⟨hnot, -⟩ | ⟨p, hnew, hinv, hterm, hcomm, -, hremote, hvalues⟩
  · exact absurd ⟨allInRange_endpointOnly ∅, rfl⟩ hnot
  have hlocal : p.localInterval = 30000 := by
    have hvalue : p.config.value "opamp_heartbeat_interval" = _ := hvalues _ heartbeatOption_mem
    rw [localInterval, duration, hvalue]
    exact (intervalOf_endpointOnly ∅ : intervalOf A _ _ = _)
  have hendpoint : text p.config "opamp_endpoint" = lit "http://localhost:4320" := by
    have hmem : Config.distroOption "opamp_endpoint" (.string []) ∈ Config.options_ := by
      simp only [Config.options_, List.mem_cons, true_or, or_true]
    have hvalue : p.config.value "opamp_endpoint" = _ := hvalues _ hmem
    rw [text, hvalue, fetch_endpointOnly, if_pos (by decide)]
    rfl
  obtain ⟨p', hstart, hp'⟩ : ∃ p', step A p .startCommunication = some p' ∧ p' = { p with
      opAmp := { p.opAmp with
        heartbeatInterval := duration p.config "opamp_heartbeat_interval"
        pollingInterval := duration p.config "opamp_polling_interval" }
      communicating := true } := by
    refine ⟨_, ?_, rfl⟩
    simp only [step, hterm, hcomm, startCommunication, hendpoint]
    rfl
  obtain ⟨q, hmsg, hq⟩ : ∃ q, step A p' (.response (some tenSeconds) endpointOnly) = some q ∧
      q = { p' with opAmp := { p'.opAmp with heartbeatInterval := 10000 }, assigned := some 10 } := by
    subst hp'
    refine ⟨_, ?_, rfl⟩
    simp only [step, hterm]
    rfl
  refine ⟨p, q, hnew, by rw [run_cons, hstart, Option.bind_some, run_cons, hmsg]; rfl, (hinv.step hstart).step hmsg, ?_⟩
  subst hq hp'
  exact ⟨hterm, rfl, rfl, hremote, rfl, hlocal⟩

/-- The server asks for ten seconds, and its first configuration, which does not touch the option, brings back the local
thirty. -/
theorem later_configuration_overwrites : ∃ p q q', new Config.writtenNumbers [] {} endpointOnly = some p ∧
    run (step Config.writtenNumbers) p
      [.startCommunication, .response (some tenSeconds) endpointOnly] = some q ∧
    step Config.writtenNumbers q (.response (some emptyConfig) endpointOnly) = some q' ∧
    q.opAmp.heartbeatInterval = 10000 ∧ q.localInterval = 30000 ∧ ¬ q'.Holds := by
  obtain ⟨p, q, hnew, hrun, hinv, hterm, hcomm, hassigned, hremote, hinterval, hlocal⟩ :=
    run_tenSeconds (A := Config.writtenNumbers)
  have hstep : step Config.writtenNumbers q (.response (some emptyConfig) endpointOnly) =
      some (q.respond Config.writtenNumbers (some emptyConfig) endpointOnly) := by
    simp only [step, hterm, hcomm]
    rfl
  refine ⟨p, q, _, hnew, hrun, hstep, hinterval, hlocal, fun h => ?_⟩
  have hholds : q.Holds := by
    intro seconds hseconds
    cases hassigned.symm.trans hseconds
    rw [hinterval]
    rfl
  have hok := ((holds_step_iff hinv hholds hstep).mp h).2 (lit "h") ∅ (by rw [hremote]; rfl)
    ⟨rfl, allInRange_endpointOnly _, rfl⟩ (by rw [intervalOf_endpointOnly]; decide) 10
    (.inr ⟨rfl, hassigned, by rw [intervalOf_endpointOnly, hlocal]⟩)
  rw [intervalOf_endpointOnly] at hok
  exact absurd hok (by decide)

/-- The server asks for ten seconds, and the client keeps them. -/
theorem assignment_kept_ten_seconds : ∃ p q as, new Config.writtenNumbers [] {} endpointOnly = some p ∧
    q.assigned = some 10 ∧ q.opAmp.heartbeatInterval = 10000 ∧
    Path (step Config.writtenNumbers) (fun p a => ∀ q, step Config.writtenNumbers p a = some q → q.Holds) p as q := by
  obtain ⟨p, q, hnew, hrun, -, -, -, hassigned, -, hinterval, -⟩ := run_tenSeconds (A := Config.writtenNumbers)
  refine ⟨p, q, [.startCommunication, .response (some tenSeconds) endpointOnly], hnew, hassigned, hinterval,
    (assignment_kept_iff hnew _ q).mpr ?_⟩
  cases path_true_iff.mpr hrun with
  | cons _ hstart hrest =>
    cases hrest with
    | cons _ hmsg hrest =>
      refine .cons trivial hstart (.cons ⟨fun seconds hseconds => ?_, fun hash cfg hnew => nomatch hnew⟩ hmsg ?_)
      · obtain rfl := Option.some.inj hseconds
        decide
      · cases hrest
        exact .nil _

end

end CoordinatorProcess

end OtelDistro.OpAmpClient
