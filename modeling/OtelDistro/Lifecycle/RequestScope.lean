import OtelDistro.Bytes
import OtelDistro.Lib.Runs

/-!
# OtelDistro.Lifecycle.RequestScope — the requests of a worker

A request is `onRequestInit`, the script, `onRequestShutdown` and `onRequestPostDeactivate`.  What the bridge, the opcache and
the configuration answer is free in every request.

* `RequestScope`: the members of the class and the calls it has made in the current request.
* `Worker`: the class over the requests of one process, `step` one callback of the engine.
* `Inv`: what a request has done by the phase it is in.
* `exit_for_each_entry`: the PHP side is left exactly when it was entered; the sampling thread runs, and the request is
  functional, only in between.
-/

namespace OtelDistro.Lifecycle

open Lib

/-! ## The class -/

/-- What a call into PHP comes to: it returns, it throws a `std::exception`, or it is left by a jump to an outer frame of
the engine. -/
inductive Outcome
  | returned (result : Bool)
  | threw
  | left
deriving DecidableEq

/-- The calls of `RequestScope` to its collaborators. -/
inductive Event
  | clearHooks
  | triggerRemoteConfigUpdates
  | configUpdate
  | setBootstrapPath (bootstrapFilePath : Str)
  | enableAccessToServerGlobal
  | detectOpcachePreload
  | guardOnRequestInit
  | shouldExecuteOneTimeTaskAmongWorkers
  | storeDiagnosticInformation (diagnosticFile : Str)
  | compileAndExecuteFile (file : Str)
  | callPHPSideEntryPoint (outcome : Outcome)
  | inferredSpansSetInterval (interval : Int64)
  | inferredSpansReset
  | executorSetInterval (interval : Int64)
  | resumePeriodicTasks
  | suspendPeriodicTasks
  | callPHPSideExitPoint
  | guardOnRequestShutdown
deriving DecidableEq

/-- The options that are read here; the interval is in ms. -/
structure ConfigurationSnapshot where
  enabled : Bool := true
  bootstrap_php_part_file : Str := []
  debug_diagnostic_file : Str := []
  inferred_spans_enabled : Bool := false
  inferred_spans_sampling_interval : Int64 := 50

/-- The answers in `onRequestInit`.  `config` is the snapshot that `update` leaves, whether it throws or not. -/
structure Answers where
  isSupported : Bool := true
  config : ConfigurationSnapshot := {}
  updateThrows : Bool := false
  detectOpcachePreload : Bool := false
  shouldExecuteOneTimeTaskAmongWorkers : Bool := false
  isScriptRestricedByOpcacheAPI : Bool := false
  detectOpcacheRestartPending : Bool := false
  compileAndExecuteFile : Outcome := .returned true
  callPHPSideEntryPoint : Outcome := .returned true

/-- `calls` are those of the current request. -/
structure RequestScope where
  config : ConfigurationSnapshot := {}
  requestCounter : UInt64 := 0
  bootstrapSuccessfull : Bool := false
  preloadDetected : Bool := false
  calls : List Event := []

namespace RequestScope

def call (s : RequestScope) (e : Event) : RequestScope := { s with calls := s.calls ++ [e] }

def isFunctional (s : RequestScope) : Bool := s.bootstrapSuccessfull

def resetRequest (s : RequestScope) : RequestScope := { s with bootstrapSuccessfull := false }.call .clearHooks

/-- The request is counted and `opcache.preload` looked for. -/
def countRequest (s : RequestScope) (a : Answers) : RequestScope :=
  let s := { s with requestCounter := s.requestCounter + 1 }
  let s := if s.requestCounter = 1 then s.call (.setBootstrapPath s.config.bootstrap_php_part_file) else s
  let s := s.call .enableAccessToServerGlobal
  let s :=
    if s.requestCounter = 1 then { s.call .detectOpcachePreload with preloadDetected := a.detectOpcachePreload }
    else { s with preloadDetected := false }
  s.call .guardOnRequestInit

def storeDiagnostics (s : RequestScope) (a : Answers) : RequestScope :=
  if !s.preloadDetected && s.requestCounter ≤ 2 && !s.config.debug_diagnostic_file.isEmpty then
    let s := s.call .shouldExecuteOneTimeTaskAmongWorkers
    if a.shouldExecuteOneTimeTaskAmongWorkers then s.call (.storeDiagnosticInformation s.config.debug_diagnostic_file) else s
  else s

/-- With what it comes to: `threw` is caught, so the result is `returned` or `left`. -/
def bootstrapPHPSideInstrumentation (s : RequestScope) (a : Answers) : RequestScope × Outcome :=
  let s := s.call (.compileAndExecuteFile s.config.bootstrap_php_part_file)
  match a.compileAndExecuteFile with
  | .threw => (s, .returned false)
  | .left => (s, .left)
  | .returned _ =>
    let s := s.call (.callPHPSideEntryPoint a.callPHPSideEntryPoint)
    match a.callPHPSideEntryPoint with
    | .returned result => (s, .returned result)
    | .threw => (s, .returned false)
    | .left => (s, .left)

def resumeInferredSpans (s : RequestScope) : RequestScope :=
  let interval :=
    if s.config.inferred_spans_sampling_interval = 0 then ({} : ConfigurationSnapshot).inferred_spans_sampling_interval
    else s.config.inferred_spans_sampling_interval
  (((s.call (.inferredSpansSetInterval interval)).call .inferredSpansReset).call
    (.executorSetInterval interval)).call .resumePeriodicTasks

/-- The end of `onRequestInit`: the PHP side is started, and the sampling with it. -/
def bootstrap (s : RequestScope) (a : Answers) : RequestScope :=
  match s.bootstrapPHPSideInstrumentation a with
  | (s, .returned result) =>
    let s := { s with bootstrapSuccessfull := result }
    if s.bootstrapSuccessfull && s.config.inferred_spans_enabled then s.resumeInferredSpans else s
  | (s, _) => s

def updateConfig (s : RequestScope) (a : Answers) : RequestScope :=
  { (s.call .triggerRemoteConfigUpdates).call .configUpdate with config := a.config }

/-- `onRequestInit` when global instrumentation is enabled. -/
def startRequest (s : RequestScope) (a : Answers) : RequestScope :=
  let s := s.countRequest a
  if s.requestCounter = 1 ∧ s.preloadDetected = true then s
  else
    let s := s.storeDiagnostics a
    if !a.isScriptRestricedByOpcacheAPI && a.detectOpcacheRestartPending then s else s.bootstrap a

def onRequestInit (s : RequestScope) (a : Answers) : RequestScope :=
  let s := s.resetRequest
  if !a.isSupported then s
  else
    let s := s.updateConfig a
    if a.updateThrows || !s.config.enabled then s else s.startRequest a

def onRequestShutdown (s : RequestScope) : RequestScope :=
  if s.preloadDetected then s
  else if !s.bootstrapSuccessfull then s
  else
    let s := if s.config.inferred_spans_enabled then s.call .suspendPeriodicTasks else s
    s.call .callPHPSideExitPoint

def onRequestPostDeactivate (s : RequestScope) : RequestScope := (s.call .guardOnRequestShutdown).resetRequest

end RequestScope

/-! ## The requests -/

inductive Phase
  | idle
  | started
  | shutDown
deriving DecidableEq

/-- A request that is over: the snapshot it ran with and the calls made in it. -/
structure Request where
  config : ConfigurationSnapshot
  calls : List Event

structure Worker where
  scope : RequestScope := {}
  phase : Phase := .idle
  history : List Request := []

inductive Action
  | onRequestInit (answers : Answers)
  | onRequestShutdown
  | onRequestPostDeactivate

def step (w : Worker) : Action → Option Worker
  | .onRequestInit a =>
    if w.phase = .idle then some { w with scope := w.scope.onRequestInit a, phase := .started } else none
  | .onRequestShutdown =>
    if w.phase = .started then some { w with scope := w.scope.onRequestShutdown, phase := .shutDown } else none
  | .onRequestPostDeactivate =>
    if w.phase = .shutDown then
      let scope := w.scope.onRequestPostDeactivate
      some ⟨{ scope with calls := [] }, .idle, w.history ++ [⟨scope.config, scope.calls⟩]⟩
    else none

/-! ## What a request does -/

/-- The calls the pairing is about. -/
def Event.isControl : Event → Bool
  | .callPHPSideEntryPoint (.returned true) | .callPHPSideExitPoint | .resumePeriodicTasks | .suspendPeriodicTasks => true
  | _ => false

def controls (calls : List Event) : List Event := calls.filter Event.isControl

/-- `callPHPSideEntryPoint` has returned `true`. -/
def entered (calls : List Event) : Bool := decide (.callPHPSideEntryPoint (.returned true) ∈ calls)

/-- The calls of a request that entered the PHP side, up to the end of `onRequestInit`. -/
def enteredControls (config : ConfigurationSnapshot) : List Event :=
  .callPHPSideEntryPoint (.returned true) :: if config.inferred_spans_enabled then [.resumePeriodicTasks] else []

/-- What `onRequestShutdown` adds. -/
def leftControls (config : ConfigurationSnapshot) : List Event :=
  (if config.inferred_spans_enabled then [.suspendPeriodicTasks] else []) ++ [.callPHPSideExitPoint]

/-- The request has not entered the PHP side, or it has and `cs` are the calls. -/
def Entered (s : RequestScope) (cs : List Event) : Prop :=
  s.bootstrapSuccessfull = false ∧ controls s.calls = [] ∨ s.bootstrapSuccessfull = true ∧ controls s.calls = cs

structure Inv (w : Worker) : Prop where
  idle : w.phase = .idle → w.scope.bootstrapSuccessfull = false ∧ w.scope.calls = []
  started : w.phase = .started → Entered w.scope (enteredControls w.scope.config) ∧
    (w.scope.bootstrapSuccessfull = true → w.scope.preloadDetected = false)
  shutDown : w.phase = .shutDown → Entered w.scope (enteredControls w.scope.config ++ leftControls w.scope.config)
  history : ∀ r ∈ w.history, controls r.calls = [] ∨ controls r.calls = enteredControls r.config ++ leftControls r.config

section

variable {s t : RequestScope} {a : Answers} {e : Event}

@[simp] theorem call_config (s : RequestScope) (e : Event) : (s.call e).config = s.config := rfl

@[simp] theorem call_bootstrapSuccessfull (s : RequestScope) (e : Event) :
    (s.call e).bootstrapSuccessfull = s.bootstrapSuccessfull := rfl

@[simp] theorem call_preloadDetected (s : RequestScope) (e : Event) : (s.call e).preloadDetected = s.preloadDetected := rfl

@[simp] theorem call_requestCounter (s : RequestScope) (e : Event) : (s.call e).requestCounter = s.requestCounter := rfl

@[simp] theorem controls_call (s : RequestScope) (e : Event) :
    controls (s.call e).calls = controls s.calls ++ if e.isControl then [e] else [] := by
  simp only [controls, RequestScope.call, List.filter_append, List.filter_singleton]
  cases e.isControl <;> rfl

/-- Nothing has been called that the pairing is about, and the PHP side is not there. -/
structure Quiet (s : RequestScope) : Prop where
  bootstrapSuccessfull : s.bootstrapSuccessfull = false
  calls : controls s.calls = []

theorem Quiet.call (h : Quiet s) (he : e.isControl = false) : Quiet (s.call e) :=
  ⟨h.bootstrapSuccessfull, by rw [controls_call, h.calls, he]; rfl⟩

theorem Quiet.ite {c : Prop} [Decidable c] (hs : Quiet s) (ht : Quiet t) : Quiet (if c then s else t) := by
  split
  · exact hs
  · exact ht

theorem quiet_resetRequest (h : controls s.calls = []) : Quiet s.resetRequest :=
  Quiet.call (s := { s with bootstrapSuccessfull := false }) ⟨rfl, h⟩ rfl

theorem Quiet.countRequest (h : Quiet s) (a : Answers) : Quiet (s.countRequest a) := by
  have hcounted : Quiet { s with requestCounter := s.requestCounter + 1 } := ⟨h.bootstrapSuccessfull, h.calls⟩
  have hserver := (hcounted.call (e := .setBootstrapPath s.config.bootstrap_php_part_file) rfl).ite
    (c := s.requestCounter + 1 = 1) hcounted |>.call (e := .enableAccessToServerGlobal) rfl
  refine Quiet.call (Quiet.ite ?_ ?_) rfl
  · have hdetect := hserver.call (e := .detectOpcachePreload) rfl
    exact ⟨hdetect.bootstrapSuccessfull, hdetect.calls⟩
  · exact ⟨hserver.bootstrapSuccessfull, hserver.calls⟩

theorem Quiet.storeDiagnostics (h : Quiet s) (a : Answers) : Quiet (s.storeDiagnostics a) :=
  Quiet.ite ((h.call rfl).call rfl |>.ite (h.call rfl)) h

theorem countRequest_config (s : RequestScope) (a : Answers) : (s.countRequest a).config = s.config := by
  unfold RequestScope.countRequest
  dsimp only
  split <;> split <;> rfl

theorem countRequest_requestCounter (s : RequestScope) (a : Answers) :
    (s.countRequest a).requestCounter = s.requestCounter + 1 := by
  unfold RequestScope.countRequest
  dsimp only
  split <;> split <;> rfl

/-- `opcache.preload` is looked for in the first request only. -/
theorem countRequest_preloadDetected (s : RequestScope) (a : Answers) :
    (s.countRequest a).preloadDetected = true → (s.countRequest a).requestCounter = 1 := by
  intro h
  rw [countRequest_requestCounter]
  by_contra hne
  have hfalse : (s.countRequest a).preloadDetected = false := by
    simp [RequestScope.countRequest, hne]
  rw [h] at hfalse
  cases hfalse

theorem storeDiagnostics_frame (s : RequestScope) (a : Answers) : (s.storeDiagnostics a).config = s.config ∧
    (s.storeDiagnostics a).preloadDetected = s.preloadDetected := by
  unfold RequestScope.storeDiagnostics
  dsimp only
  split
  · split <;> exact ⟨rfl, rfl⟩
  · exact ⟨rfl, rfl⟩

/-- What the two calls into PHP leave: the entry point is the last call when it is reached. -/
structure Bootstrapped (s t : RequestScope) (outcome : Outcome) : Prop where
  config : t.config = s.config
  preloadDetected : t.preloadDetected = s.preloadDetected
  bootstrapSuccessfull : t.bootstrapSuccessfull = false
  calls : controls t.calls = if outcome = .returned true then [.callPHPSideEntryPoint (.returned true)] else []

theorem Quiet.bootstrapPHPSideInstrumentation (h : Quiet s) (a : Answers) :
    Bootstrapped s (s.bootstrapPHPSideInstrumentation a).1 (s.bootstrapPHPSideInstrumentation a).2 := by
  have hcompiled := h.call (e := .compileAndExecuteFile s.config.bootstrap_php_part_file) rfl
  unfold RequestScope.bootstrapPHPSideInstrumentation
  cases a.compileAndExecuteFile with
  | threw => exact ⟨rfl, rfl, h.bootstrapSuccessfull, hcompiled.calls⟩
  | left => exact ⟨rfl, rfl, h.bootstrapSuccessfull, hcompiled.calls⟩
  | returned executed =>
    have hentry : ∀ o : Outcome, controls ((s.call (.compileAndExecuteFile s.config.bootstrap_php_part_file)).call
        (.callPHPSideEntryPoint o)).calls = if o = .returned true then [.callPHPSideEntryPoint (.returned true)] else [] := by
      intro o
      rw [controls_call, hcompiled.calls]
      rcases o with ⟨_ | _⟩ | _ | _ <;> rfl
    cases ho : a.callPHPSideEntryPoint with
    | returned result => exact ⟨rfl, rfl, h.bootstrapSuccessfull, hentry (.returned result)⟩
    | threw => exact ⟨rfl, rfl, h.bootstrapSuccessfull, hentry .threw⟩
    | left => exact ⟨rfl, rfl, h.bootstrapSuccessfull, hentry .left⟩

theorem controls_resumeInferredSpans (s : RequestScope) :
    controls s.resumeInferredSpans.calls = controls s.calls ++ [.resumePeriodicTasks] := by
  simp [RequestScope.resumeInferredSpans, Event.isControl]

theorem Quiet.bootstrap (h : Quiet s) (a : Answers) : (s.bootstrap a).config = s.config ∧
    (s.bootstrap a).preloadDetected = s.preloadDetected ∧ Entered (s.bootstrap a) (enteredControls s.config) := by
  have hb := h.bootstrapPHPSideInstrumentation a
  unfold RequestScope.bootstrap
  split
  · next t result heq =>
    rw [heq] at hb
    cases result with
    | false =>
      simp only [Bool.false_and, Bool.false_eq_true, if_false]
      exact ⟨hb.config, hb.preloadDetected, .inl ⟨rfl, hb.calls⟩⟩
    | true =>
      have hcontrols : controls t.calls = [.callPHPSideEntryPoint (.returned true)] := hb.calls
      simp only [Bool.true_and]
      split
      · next hspans =>
        refine ⟨hb.config, hb.preloadDetected, .inr ⟨rfl, ?_⟩⟩
        rw [controls_resumeInferredSpans, hcontrols, enteredControls, ← hb.config, if_pos hspans]
        rfl
      · next hspans =>
        refine ⟨hb.config, hb.preloadDetected, .inr ⟨rfl, ?_⟩⟩
        rw [enteredControls, ← hb.config, if_neg hspans]
        exact hcontrols
  · next t o hne heq =>
    rw [heq] at hb
    refine ⟨hb.config, hb.preloadDetected, .inl ⟨hb.bootstrapSuccessfull, ?_⟩⟩
    rw [hb.calls, if_neg (fun ho => hne true ho)]

theorem Quiet.entered (h : Quiet s) (cs : List Event) :
    Entered s cs ∧ (s.bootstrapSuccessfull = true → s.preloadDetected = false) :=
  ⟨.inl ⟨h.bootstrapSuccessfull, h.calls⟩, fun hb => absurd (h.bootstrapSuccessfull.symm.trans hb) (by decide)⟩

theorem Quiet.startRequest (h : Quiet s) (a : Answers) :
    Entered (s.startRequest a) (enteredControls (s.startRequest a).config) ∧
      ((s.startRequest a).bootstrapSuccessfull = true → (s.startRequest a).preloadDetected = false) := by
  unfold RequestScope.startRequest
  dsimp only
  split
  · exact (h.countRequest a).entered _
  · next hpreload =>
    split
    · exact ((h.countRequest a).storeDiagnostics a).entered _
    · obtain ⟨hconfig, hdetected, hentered⟩ := ((h.countRequest a).storeDiagnostics a).bootstrap a
      refine ⟨?_, fun _ => ?_⟩
      · rw [hconfig]; exact hentered
      · rw [hdetected, (storeDiagnostics_frame _ a).2]
        by_contra hp
        rw [Bool.not_eq_false] at hp
        exact hpreload ⟨countRequest_preloadDetected s a hp, hp⟩

/-- **`onRequestInit`**, from the end of a request: the early returns leave the request quiet. -/
theorem onRequestInit_entered (hcalls : s.calls = []) (a : Answers) :
    Entered (s.onRequestInit a) (enteredControls (s.onRequestInit a).config) ∧
      ((s.onRequestInit a).bootstrapSuccessfull = true → (s.onRequestInit a).preloadDetected = false) := by
  have hreset : Quiet s.resetRequest := quiet_resetRequest (by rw [hcalls]; rfl)
  have hcalled := (hreset.call (e := .triggerRemoteConfigUpdates) rfl).call (e := .configUpdate) rfl
  have hupdated : Quiet (s.resetRequest.updateConfig a) := ⟨hcalled.bootstrapSuccessfull, hcalled.calls⟩
  unfold RequestScope.onRequestInit
  dsimp only
  split
  · exact hreset.entered _
  · split
    · exact hupdated.entered _
    · exact hupdated.startRequest a

/-- **`onRequestShutdown`** suspends what was resumed and leaves what was entered. -/
theorem onRequestShutdown_entered (h : Entered s (enteredControls s.config))
    (hpreload : s.bootstrapSuccessfull = true → s.preloadDetected = false) :
    s.onRequestShutdown.config = s.config ∧
      Entered s.onRequestShutdown (enteredControls s.config ++ leftControls s.config) := by
  rcases h with ⟨hb, hc⟩ | ⟨hb, hc⟩
  · have heq : s.onRequestShutdown = s := by simp [RequestScope.onRequestShutdown, hb]
    rw [heq]
    exact ⟨rfl, .inl ⟨hb, hc⟩⟩
  · have heq : s.onRequestShutdown =
        (if s.config.inferred_spans_enabled then s.call .suspendPeriodicTasks else s).call .callPHPSideExitPoint := by
      simp [RequestScope.onRequestShutdown, hb, hpreload hb]
    rw [heq]
    cases hspans : s.config.inferred_spans_enabled with
    | false =>
      refine ⟨rfl, .inr ⟨hb, ?_⟩⟩
      rw [if_neg Bool.false_ne_true, controls_call, hc, leftControls, hspans, if_neg Bool.false_ne_true]
      rfl
    | true =>
      refine ⟨rfl, .inr ⟨hb, ?_⟩⟩
      rw [if_pos rfl, controls_call, controls_call, hc, leftControls, if_pos hspans, List.append_assoc]
      rfl

theorem onRequestPostDeactivate_controls (s : RequestScope) :
    controls s.onRequestPostDeactivate.calls = controls s.calls := by
  show controls ((({ s.call .guardOnRequestShutdown with bootstrapSuccessfull := false } : RequestScope).call
    .clearHooks)).calls = _
  rw [controls_call]
  show controls (s.call .guardOnRequestShutdown).calls ++ [] = _
  rw [controls_call, List.append_nil]
  exact List.append_nil _

end

/-! ## The run -/

section

variable {w w' : Worker} {as : List Action}

theorem inv_step {a : Action} (h : Inv w) (hs : step w a = some w') : Inv w' := by
  unfold step at hs
  split at hs
  · next a =>
    split at hs
    · next hidle =>
      rw [Option.some.injEq] at hs
      subst hs
      exact ⟨nofun, fun _ => onRequestInit_entered (h.idle hidle).2 a, nofun, h.history⟩
    · cases hs
  · split at hs
    · next hstarted =>
      rw [Option.some.injEq] at hs
      subst hs
      obtain ⟨hconfig, hentered⟩ := onRequestShutdown_entered (h.started hstarted).1 (h.started hstarted).2
      exact ⟨nofun, nofun, fun _ => hconfig.symm ▸ hentered, h.history⟩
    · cases hs
  · split at hs
    · next hshut =>
      rw [Option.some.injEq] at hs
      subst hs
      refine ⟨fun _ => ⟨rfl, rfl⟩, nofun, nofun, fun r hr => ?_⟩
      rcases List.mem_append.mp hr with hr | hr
      · exact h.history r hr
      · rw [List.mem_singleton] at hr
        subst hr
        rw [onRequestPostDeactivate_controls]
        rcases h.shutDown hshut with ⟨_, hc⟩ | ⟨_, hc⟩
        · exact .inl hc
        · exact .inr hc
    · cases hs

theorem inv_run (h : run step {} as = some w) : Inv w :=
  run_invariant (fun _ _ _ hI hs => inv_step hI hs) h
    ⟨fun _ => ⟨rfl, rfl⟩, nofun, nofun, fun _ hr => absurd hr List.not_mem_nil⟩

end

/-! ## The pairing -/

/-- What a call does to the sampling thread. -/
def Event.executor (resumed : Bool) : Event → Bool
  | .resumePeriodicTasks => true
  | .suspendPeriodicTasks => false
  | _ => resumed

/-- The calls of all requests. -/
def Worker.calls (w : Worker) : List Event := w.history.flatMap Request.calls ++ w.scope.calls

/-- The sampling thread is running. -/
def Worker.executorResumed (w : Worker) : Bool := w.calls.foldl Event.executor false

/-- The sampling thread is resumed only when the PHP side has been entered and not left, with inferred spans enabled. -/
def ResumedInside (config : ConfigurationSnapshot) (calls : List Event) : Prop :=
  ∀ before after, calls = before ++ .resumePeriodicTasks :: after →
    entered before = true ∧ .callPHPSideExitPoint ∉ before ∧ config.inferred_spans_enabled = true

section

variable {calls : List Event} {config : ConfigurationSnapshot}

theorem controls_append (l m : List Event) : controls (l ++ m) = controls l ++ controls m := List.filter_append l m

theorem count_exitPoint (calls : List Event) :
    calls.count .callPHPSideExitPoint = (controls calls).count .callPHPSideExitPoint := (List.count_filter rfl).symm

theorem entered_controls (calls : List Event) : entered calls = entered (controls calls) := by
  simp [entered, controls, Event.isControl]

theorem executor_controls (calls : List Event) (resumed : Bool) :
    calls.foldl Event.executor resumed = (controls calls).foldl Event.executor resumed := by
  induction calls generalizing resumed with
  | nil => rfl
  | cons e calls ih =>
    rw [List.foldl_cons, ih, show controls (e :: calls) = controls [e] ++ controls calls from controls_append [e] calls,
      List.foldl_append]
    congr 1
    cases e with
    | callPHPSideEntryPoint o => rcases o with ⟨_ | _⟩ | _ | _ <;> rfl
    | _ => rfl

/-- In the calls of a request, whatever comes before the resuming is the entry. -/
theorem resumedInside_of_controls {rest : List Event} (hrest : .resumePeriodicTasks ∉ rest)
    (h : controls calls = enteredControls config ++ rest) : ResumedInside config calls := by
  rintro before after rfl
  have hsplit : controls before ++ .resumePeriodicTasks :: controls after = enteredControls config ++ rest :=
    (controls_append before (.resumePeriodicTasks :: after)).symm.trans h
  obtain ⟨hbefore, hspans⟩ : controls before = [.callPHPSideEntryPoint (.returned true)] ∧
      config.inferred_spans_enabled = true := by
    cases hcb : controls before with
    | nil => simp [hcb, enteredControls] at hsplit
    | cons e es =>
      rw [hcb, enteredControls, List.cons_append, List.cons_append, List.cons.injEq] at hsplit
      obtain ⟨rfl, hsplit⟩ := hsplit
      split at hsplit
      · next hspans =>
        cases es with
        | nil => exact ⟨rfl, hspans⟩
        | cons e' es =>
          -- a second resuming would be in the rest
          rw [List.cons_append, List.singleton_append, List.cons.injEq] at hsplit
          exact absurd (hsplit.2 ▸ List.mem_append_right es List.mem_cons_self) hrest
      · rw [List.nil_append] at hsplit
        exact absurd (hsplit ▸ List.mem_append_right es List.mem_cons_self) hrest
  refine ⟨by rw [entered_controls, hbefore]; rfl, fun hexit => ?_, hspans⟩
  have hmem : Event.callPHPSideExitPoint ∈ controls before := List.mem_filter.mpr ⟨hexit, rfl⟩
  rw [hbefore] at hmem
  simp at hmem

theorem resumedInside_of_quiet (h : controls calls = []) : ResumedInside config calls := by
  rintro before after rfl
  rw [controls_append] at h
  simp [controls, Event.isControl] at h

/-- What the pairing says of the calls of a request that has been shut down. -/
structure Paired (config : ConfigurationSnapshot) (calls : List Event) : Prop where
  exit_once : calls.count .callPHPSideExitPoint = if entered calls then 1 else 0
  resumed : ResumedInside config calls
  suspended : calls.foldl Event.executor false = false

theorem paired_of_controls
    (h : controls calls = [] ∨ controls calls = enteredControls config ++ leftControls config) : Paired config calls := by
  rcases h with h | h
  · exact ⟨by rw [count_exitPoint, entered_controls, h]; rfl, resumedInside_of_quiet h, by rw [executor_controls, h]; rfl⟩
  · refine ⟨?_, resumedInside_of_controls ?_ h, ?_⟩
    · rw [count_exitPoint, entered_controls, h, enteredControls, leftControls]
      split <;> rfl
    · rw [leftControls]
      split <;> decide
    · rw [executor_controls, h, enteredControls, leftControls]
      split <;> rfl

theorem executor_history {history : List Request} (h : ∀ r ∈ history, Paired r.config r.calls) :
    (history.flatMap Request.calls).foldl Event.executor false = false := by
  induction history with
  | nil => rfl
  | cons r history ih =>
    rw [List.flatMap_cons, List.foldl_append, (h r List.mem_cons_self).suspended]
    exact ih fun r' hr' => h r' (List.mem_cons_of_mem r hr')

variable {w : Worker} {as : List Action}

/-- **Exits pair with entries**: a request that is over, or shut down, has called `callPHPSideExitPoint` once if
`callPHPSideEntryPoint` returned `true` in it and not otherwise, and a request that is not shut down has not called it.
The sampling thread has been resumed between the two only, with inferred spans enabled, and it runs only there; the
worker is functional only in a request that has been entered. -/
theorem exit_for_each_entry (h : run step {} as = some w) :
    (∀ r ∈ w.history, Paired r.config r.calls) ∧
      (w.phase = .shutDown → Paired w.scope.config w.scope.calls) ∧
      (w.phase ≠ .shutDown → w.scope.calls.count .callPHPSideExitPoint = 0) ∧
      ResumedInside w.scope.config w.scope.calls ∧
      (w.executorResumed = true →
        w.phase = .started ∧ entered w.scope.calls = true ∧ w.scope.config.inferred_spans_enabled = true) ∧
      (w.scope.isFunctional = true → w.phase ≠ .idle ∧ entered w.scope.calls = true) := by
  have hI := inv_run h
  have hhistory : ∀ r ∈ w.history, Paired r.config r.calls := fun r hr => paired_of_controls (hI.history r hr)
  have hexecutor : w.executorResumed = w.scope.calls.foldl Event.executor false := by
    rw [Worker.executorResumed, Worker.calls, List.foldl_append, executor_history hhistory]
  refine ⟨hhistory, ?_⟩
  rw [hexecutor, RequestScope.isFunctional, executor_controls]
  cases hphase : w.phase with
  | idle =>
    obtain ⟨hb, hcalls⟩ := hI.idle hphase
    rw [hcalls, hb]
    exact ⟨nofun, fun _ => rfl, resumedInside_of_quiet rfl, nofun, nofun⟩
  | started =>
    refine ⟨nofun, fun _ => ?_, ?_⟩
    · rw [count_exitPoint]
      rcases (hI.started hphase).1 with ⟨_, hc⟩ | ⟨_, hc⟩
      · rw [hc]; rfl
      · rw [hc, enteredControls]; split <;> rfl
    · rcases (hI.started hphase).1 with ⟨hb, hc⟩ | ⟨hb, hc⟩
      · rw [hc, hb]
        exact ⟨resumedInside_of_quiet hc, nofun, nofun⟩
      · have hentered : entered w.scope.calls = true := by
          rw [entered_controls, hc]
          simp [entered, enteredControls]
        have hc' : controls w.scope.calls = enteredControls w.scope.config ++ [] := hc.trans (List.append_nil _).symm
        refine ⟨resumedInside_of_controls List.not_mem_nil hc',
          fun hresumed => ⟨rfl, hentered, ?_⟩, fun _ => ⟨nofun, hentered⟩⟩
        rw [hc, enteredControls] at hresumed
        split at hresumed
        · next hspans => exact hspans
        · cases hresumed
  | shutDown =>
    rcases hI.shutDown hphase with ⟨hb, hc⟩ | ⟨hb, hc⟩
    · have hpaired : Paired w.scope.config w.scope.calls := paired_of_controls (.inl hc)
      rw [hc, hb]
      exact ⟨fun _ => hpaired, fun hne => absurd rfl hne, hpaired.resumed, nofun, nofun⟩
    · have hpaired : Paired w.scope.config w.scope.calls := paired_of_controls (.inr hc)
      refine ⟨fun _ => hpaired, fun hne => absurd rfl hne, hpaired.resumed, fun hresumed => ?_, fun _ => ⟨nofun, ?_⟩⟩
      · rw [← executor_controls, hpaired.suspended] at hresumed
        cases hresumed
      · rw [entered_controls, hc]
        simp [entered, enteredControls]

end

/-- A request with inferred spans, then one where `opcache` is about to be reset. -/
theorem exit_for_each_entry_of_two : ∃ w, run step {} [.onRequestInit { config := { inferred_spans_enabled := true } },
      .onRequestShutdown, .onRequestPostDeactivate,
      .onRequestInit { detectOpcacheRestartPending := true }, .onRequestShutdown] = some w ∧
      w.history.map (fun r => entered r.calls) = [true] ∧ entered w.scope.calls = false ∧
      (∀ r ∈ w.history, Paired r.config r.calls) ∧ Paired w.scope.config w.scope.calls := by
  obtain ⟨w, h, hentered, hquiet, hphase⟩ : ∃ w, run step {} [
      .onRequestInit { config := { inferred_spans_enabled := true } }, .onRequestShutdown, .onRequestPostDeactivate,
      .onRequestInit { detectOpcacheRestartPending := true }, .onRequestShutdown] = some w ∧
      w.history.map (fun r => entered r.calls) = [true] ∧ entered w.scope.calls = false ∧ w.phase = .shutDown :=
    ⟨_, rfl, rfl, rfl, rfl⟩
  exact ⟨w, h, hentered, hquiet, (exit_for_each_entry h).1, (exit_for_each_entry h).2.1 hphase⟩

end OtelDistro.Lifecycle
