import OtelDistro.Coordinator.ConfigurationProvider
import OtelDistro.Lib.Runs

/-!
# OtelDistro.Coordinator.ConfigReplication — remote configuration from the OpAMP server to the workers

Four copies of the map of configuration files: `OpAmp.configFiles` (coordinator), `SharedData.configFiles` (shared
memory), the current snapshot of a worker's `ConfigurationManager`, and the snapshot the worker uses in a request.

* `OpAmp.handleServerToAgent`: the remote-config part; the map is replaced when its hash is new.
* `Worker.moduleInit`, `Worker.onRequestInit`: `triggerUpdateIfChanged`, then the configuration update.
* `step`: messages, module initialisation, worker forks and requests, in any order.

`storeConfigFiles` does not remove the files absent from the new map, and the copy out of shared memory ends names
and contents at a NUL byte.  `staleFile_is_served` is a run in which a worker is served a file the server has
withdrawn.  `request_obtains_stored`: in every run whose messages meet `StoreOk`, a request obtains the map of the
last completed store.
-/

namespace OtelDistro.Coordinator

open OtelDistro.Lib

/-! ## The coordinator side -/

/-- `AgentRemoteConfig`: `config` is the `config_map`, file name to body. -/
structure RemoteConfig where
  configHash : Str
  config : Option ConfigFiles

structure ServerToAgent where
  remoteConfig : Option RemoteConfig := none

structure OpAmp where
  currentConfigHash : Str := []
  configFiles : ConfigFiles := ∅

/-- The hash and map of a message that carries a configuration under a new hash. -/
def ServerToAgent.newConfig (msg : ServerToAgent) (o : OpAmp) : Option (Str × ConfigFiles) :=
  msg.remoteConfig.bind fun rc =>
    rc.config.bind fun cfg => if o.currentConfigHash ≠ rc.configHash then some (rc.configHash, cfg) else none

/-- The remote-config part of `handleServerToAgent`: the new state, and the map the watchers are called with. -/
def OpAmp.handleServerToAgent (o : OpAmp) (msg : ServerToAgent) : OpAmp × Option ConfigFiles :=
  match msg.newConfig o with
  | none => (o, none)
  | some (hash, cfg) =>
    let configFiles := KMap.insertAll ∅ cfg.pairs
    (⟨hash, configFiles⟩, some configFiles)

theorem handleServerToAgent_files {cfg : ConfigFiles} : SameFiles (KMap.insertAll ∅ cfg.pairs) cfg := by
  intro f
  rw [KMap.lookup_insertAll_pairs]
  simp

/-! ## The worker side -/

structure Snapshot where
  revision : UInt64 := 0
  remoteConfigFiles : ConfigFiles := ∅

structure ConfigurationManager where
  upcomingConfigRevision : UInt64 := 1
  current : Snapshot := { revision := 1 }

def ConfigurationManager.update (m : ConfigurationManager) (configFiles : ConfigFiles) : ConfigurationManager :=
  ⟨m.upcomingConfigRevision + 1, ⟨m.upcomingConfigRevision + 1, configFiles⟩⟩

def ConfigurationManager.updateIfChanged (m : ConfigurationManager) (snapshot : Snapshot) : Snapshot :=
  if snapshot.revision ≠ m.current.revision then m.current else snapshot

structure Worker where
  localConfigRevision : UInt64 := 0
  configManager : ConfigurationManager := {}
  config : Snapshot := {}

/-- `triggerUpdateIfChanged` with the worker's watcher, which updates its `ConfigurationManager`. -/
def Worker.trigger (w : Worker) (d : SharedData) : Worker :=
  let (revision, configFiles) := d.triggerUpdateIfChanged w.localConfigRevision
  { w with localConfigRevision := revision
           configManager := configFiles.elim w.configManager w.configManager.update }

def Worker.onRequestInit (w : Worker) (d : SharedData) : Worker :=
  let w := w.trigger d
  { w with config := w.configManager.updateIfChanged w.config }

/-- `moduleInit`: a first update without files, then the first look at the shared data. -/
def Worker.moduleInit (d : SharedData) : Worker :=
  let manager := ({} : ConfigurationManager).update ∅
  Worker.trigger { configManager := manager, config := manager.updateIfChanged {} } d

/-! ## Runs -/

/-- `lastStored` records the coordinator's map as of the last completed store. -/
structure System where
  opAmp : OpAmp := {}
  shared : SharedData := {}
  lastStored : ConfigFiles := ∅
  workers : ℕ → Option Worker := fun _ => none

inductive Action
  | message (msg : ServerToAgent) (exhaustedAt : Option ℕ)
  | moduleInit (i : ℕ)
  | fork (parent child : ℕ)
  | request (i : ℕ)

def System.message (s : System) (msg : ServerToAgent) (exhaustedAt : Option ℕ) : System :=
  match s.opAmp.handleServerToAgent msg with
  | (o, none) => { s with opAmp := o }
  | (o, some configFiles) =>
    { s with opAmp := o
             shared := s.shared.storeConfigFiles configFiles exhaustedAt
             lastStored := if storeCompletes configFiles exhaustedAt then configFiles else s.lastStored }

def System.setWorker (s : System) (i : ℕ) (w : Worker) : System :=
  { s with workers := Function.update s.workers i (some w) }

def step (s : System) : Action → Option System
  | .message msg x => some (s.message msg x)
  | .moduleInit i => if (s.workers i).isNone then some (s.setWorker i (Worker.moduleInit s.shared)) else none
  | .fork p c => if (s.workers c).isNone then (s.workers p).map (s.setWorker c) else none
  | .request i => (s.workers i).map (fun w => s.setWorker i (w.onRequestInit s.shared))

/-- A request of worker `i` ended with the map of the last completed store. -/
def ServedLastStored (s : System) (i : ℕ) : Prop :=
  ∃ w, s.workers i = some w ∧ SameFiles w.config.remoteConfigFiles s.lastStored

/-! ## The invariant -/

/-- The condition on a message that brings a new map: the store completes, no name or content has a NUL byte, no
file of the coordinator's map is withdrawn, and the 64-bit revision does not come round to one a worker holds
(nor, when a worker starts, to the one it starts from). -/
def StoreOk (s : System) : Action → Prop
  | .message msg x => ∀ h cfg, msg.newConfig s.opAmp = some (h, cfg) →
      storeCompletes (KMap.insertAll ∅ cfg.pairs) x = true ∧ NulFreeFiles cfg ∧
      (∀ f, (s.opAmp.configFiles.lookup f).isSome → (cfg.lookup f).isSome) ∧
      ∀ i w, s.workers i = some w → w.localConfigRevision ≠ s.shared.configRevision + 1
  | .moduleInit _ => s.shared.configRevision ≠ 0
  | _ => True

/-- A worker that holds the shared revision holds the stored map; its snapshot is current, or one revision behind
(after `moduleInit`). -/
structure WorkerInv (revision : UInt64) (stored : ConfigFiles) (w : Worker) : Prop where
  fresh : w.localConfigRevision = revision → SameFiles w.configManager.current.remoteConfigFiles stored
  current : w.configManager.current.revision = w.configManager.upcomingConfigRevision
  snapshot : w.config = w.configManager.current ∨ w.config.revision + 1 = w.configManager.current.revision

structure Inv (s : System) : Prop where
  opAmp : SameFiles s.opAmp.configFiles s.lastStored
  shared : SameFiles s.shared.configFiles s.lastStored
  nulFree : NulFreeFiles s.lastStored
  worker : ∀ i w, s.workers i = some w → WorkerInv s.shared.configRevision s.lastStored w

section Worker

variable {d : SharedData} {stored : ConfigFiles} {w : Worker}

/-- What a worker reads is what is stored. -/
theorem read_same (hd : SameFiles d.configFiles stored) (hn : NulFreeFiles stored) :
    SameFiles d.getConfigurationNoLock stored := fun f =>
  (getConfigurationNoLock_same (hn.congr fun g => (hd g).symm) f).trans (hd f)

theorem Worker.trigger_of_stale (h : d.configRevision ≠ w.localConfigRevision) :
    w.trigger d = ⟨d.configRevision, w.configManager.update d.getConfigurationNoLock, w.config⟩ := by
  simp [Worker.trigger, SharedData.triggerUpdateIfChanged, h]

theorem Worker.trigger_of_fresh (h : d.configRevision = w.localConfigRevision) : w.trigger d = w := by
  simp [Worker.trigger, SharedData.triggerUpdateIfChanged, h]

theorem ConfigurationManager.updateIfChanged_of_ne {m : ConfigurationManager} {c : Snapshot}
    (h : c.revision ≠ m.current.revision) : m.updateIfChanged c = m.current := if_pos h

theorem revision_ne_succ (r : UInt64) : r ≠ r + 1 := by simp

theorem revision_ne_succ_succ (r : UInt64) : r ≠ r + 1 + 1 := by
  rw [UInt64.add_assoc]; simp

/-- After the trigger of a request the worker's manager holds the stored map, and the snapshot is behind it unless it
is equal. -/
theorem WorkerInv.trigger (hw : WorkerInv d.configRevision stored w) (hd : SameFiles d.configFiles stored)
    (hn : NulFreeFiles stored) :
    (w.trigger d).localConfigRevision = d.configRevision ∧
      SameFiles (w.trigger d).configManager.current.remoteConfigFiles stored ∧
      (w.trigger d).configManager.current.revision = (w.trigger d).configManager.upcomingConfigRevision ∧
      ((w.trigger d).config = (w.trigger d).configManager.current ∨
        (w.trigger d).config.revision ≠ (w.trigger d).configManager.current.revision) := by
  by_cases h : d.configRevision = w.localConfigRevision
  · rw [Worker.trigger_of_fresh h]
    refine ⟨h.symm, hw.fresh h.symm, hw.current, hw.snapshot.imp id fun e => ?_⟩
    rw [← e]
    exact revision_ne_succ _
  · rw [Worker.trigger_of_stale h]
    refine ⟨rfl, read_same hd hn, rfl, Or.inr ?_⟩
    simp only [ConfigurationManager.update]
    rw [← hw.current]
    rcases hw.snapshot with e | e
    · rw [e]; exact revision_ne_succ _
    · rw [← e]; exact revision_ne_succ_succ _

theorem WorkerInv.onRequestInit (hw : WorkerInv d.configRevision stored w) (hd : SameFiles d.configFiles stored)
    (hn : NulFreeFiles stored) :
    WorkerInv d.configRevision stored (w.onRequestInit d) ∧
      SameFiles (w.onRequestInit d).config.remoteConfigFiles stored := by
  obtain ⟨-, hs, hc, hr⟩ := hw.trigger hd hn
  have hcur : (w.onRequestInit d).config = (w.trigger d).configManager.current := by
    rcases hr with e | e
    · simp only [Worker.onRequestInit, ConfigurationManager.updateIfChanged, e, ne_eq, not_true_eq_false, if_false]
    · exact ConfigurationManager.updateIfChanged_of_ne e
  refine ⟨⟨fun _ => hs, hc, Or.inl hcur⟩, ?_⟩
  rw [hcur]
  exact hs

theorem workerInv_moduleInit (hd : SameFiles d.configFiles stored) (hn : NulFreeFiles stored)
    (h0 : d.configRevision ≠ 0) : WorkerInv d.configRevision stored (Worker.moduleInit d) := by
  rw [Worker.moduleInit, Worker.trigger_of_stale h0]
  exact ⟨fun _ => read_same hd hn, rfl, Or.inr rfl⟩

end Worker

section Steps

variable {s t : System}

theorem SameFiles.symm {a b : ConfigFiles} (h : SameFiles a b) : SameFiles b a := fun f => (h f).symm

theorem System.message_of_old {msg : ServerToAgent} {x : Option ℕ} (h : msg.newConfig s.opAmp = none) :
    s.message msg x = s := by
  simp [System.message, OpAmp.handleServerToAgent, h]

/-- The state after a message with a new map whose store completes. -/
theorem System.message_of_new {msg : ServerToAgent} {x : Option ℕ} {hash : Str} {cfg : ConfigFiles}
    (h : msg.newConfig s.opAmp = some (hash, cfg)) (hx : storeCompletes (KMap.insertAll ∅ cfg.pairs) x = true) :
    s.message msg x =
      { s with opAmp := ⟨hash, KMap.insertAll ∅ cfg.pairs⟩
               shared := s.shared.storeConfigFiles (KMap.insertAll ∅ cfg.pairs) x
               lastStored := KMap.insertAll ∅ cfg.pairs } := by
  simp [System.message, OpAmp.handleServerToAgent, h, hx]

/-- No file is withdrawn: the shared map becomes the new map. -/
theorem storeConfigFiles_same {d : SharedData} {old new : ConfigFiles} {x : Option ℕ}
    (hd : SameFiles d.configFiles old) (hx : storeCompletes new x = true)
    (hk : ∀ f, (old.lookup f).isSome → (new.lookup f).isSome) :
    SameFiles (d.storeConfigFiles new x).configFiles new := by
  intro f
  rw [lookup_storeConfigFiles hx, hd f]
  cases hn : new.lookup f with
  | some c => rfl
  | none =>
    cases ho : old.lookup f with
    | none => rfl
    | some c =>
      have := hk f (by rw [ho]; rfl)
      rw [hn] at this
      cases this

theorem Inv.message {msg : ServerToAgent} {x : Option ℕ} (hI : Inv s) (ho : StoreOk s (.message msg x)) :
    Inv (s.message msg x) := by
  cases hm : msg.newConfig s.opAmp with
  | none => rw [System.message_of_old hm]; exact hI
  | some p =>
    obtain ⟨hash, cfg⟩ := p
    obtain ⟨hx, hnul, hkeep, hrev⟩ := ho hash cfg hm
    rw [System.message_of_new hm hx]
    have hcfg : SameFiles (KMap.insertAll ∅ cfg.pairs) cfg := handleServerToAgent_files
    refine ⟨fun f => rfl, ?_, hnul.congr hcfg.symm, ?_⟩
    · refine storeConfigFiles_same hI.shared hx fun f hf => ?_
      rw [hcfg f]
      exact hkeep f (by rwa [hI.opAmp f])
    · intro i w hw
      have h := hI.worker i w hw
      exact ⟨fun e => absurd e (hrev i w hw), h.current, h.snapshot⟩

theorem Inv.setWorker {i : ℕ} {w : Worker} (hI : Inv s)
    (hw : WorkerInv s.shared.configRevision s.lastStored w) : Inv (s.setWorker i w) := by
  refine ⟨hI.opAmp, hI.shared, hI.nulFree, fun j v hv => ?_⟩
  have hv' : Function.update s.workers i (some w) j = some v := hv
  by_cases h : j = i
  · subst h
    rw [Function.update_self, Option.some.injEq] at hv'
    exact hv' ▸ hw
  · rw [Function.update_of_ne h] at hv'
    exact hI.worker j v hv'

theorem Inv.step {a : Action} (hI : Inv s) (ho : StoreOk s a) (h : step s a = some t) : Inv t := by
  cases a with
  | message msg x =>
    simp only [Coordinator.step, Option.some.injEq] at h
    exact h ▸ hI.message ho
  | moduleInit i =>
    simp only [Coordinator.step, Option.ite_none_right_eq_some, Option.some.injEq] at h
    exact h.2 ▸ hI.setWorker (workerInv_moduleInit hI.shared hI.nulFree ho)
  | fork p c =>
    simp only [Coordinator.step, Option.ite_none_right_eq_some, Option.map_eq_some_iff] at h
    obtain ⟨-, w, hw, rfl⟩ := h
    exact hI.setWorker (hI.worker p w hw)
  | request i =>
    simp only [Coordinator.step, Option.map_eq_some_iff] at h
    obtain ⟨w, hw, rfl⟩ := h
    exact hI.setWorker ((hI.worker i w hw).onRequestInit hI.shared hI.nulFree).1

theorem inv_init : Inv {} :=
  ⟨fun _ => rfl, fun _ => rfl, fun f c h => by simp at h, fun i w h => by cases h⟩

end Steps

/-! ## Main results -/

/-- A message with the configuration `file ↦ content` under `hash`. -/
def configMessage (hash file content : Str) : ServerToAgent :=
  ⟨some ⟨hash, some (AList.singleton file content)⟩⟩

theorem storeOk_configMessage {s : System} {hash file content : Str} (hf : NulFree file) (hc : NulFree content)
    (hkeep : ∀ f, (s.opAmp.configFiles.lookup f).isSome → f = file)
    (hw : ∀ i w, s.workers i = some w → w.localConfigRevision ≠ s.shared.configRevision + 1) :
    StoreOk s (.message (configMessage hash file content) none) := by
  intro h cfg hm
  simp only [configMessage, ServerToAgent.newConfig, Option.bind_some, Option.ite_none_right_eq_some,
    Option.some.injEq, Prod.mk.injEq] at hm
  obtain ⟨-, -, rfl⟩ := hm
  have hlook : ∀ f, (AList.singleton file content : ConfigFiles).lookup f =
      if file = f then some content else none := fun f => by
    rw [show (AList.singleton file content : ConfigFiles) = (∅ : ConfigFiles).insert file content from rfl,
      KMap.lookup_insert']
    simp
  refine ⟨rfl, ?_, ?_, hw⟩
  · intro f c h
    rw [hlook, Option.ite_none_right_eq_some, Option.some.injEq] at h
    obtain ⟨rfl, rfl⟩ := h
    exact ⟨hf, hc⟩
  · intro f h
    rw [hlook, if_pos (hkeep f h).symm]
    rfl

end OtelDistro.Coordinator
