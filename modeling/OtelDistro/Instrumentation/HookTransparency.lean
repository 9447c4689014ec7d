import OtelDistro.Instrumentation.CallFrame
import OtelDistro.Instrumentation.InternalFunction
import OtelDistro.Instrumentation.Observer

/-!
# OtelDistro.Instrumentation.HookTransparency — calls with hooks and without

A hook runs between the caller and the function.  Around each one the exception state of the engine is saved, cleared and
restored, and what a hook throws is logged and released.

* `ExecutorGlobals`: the exception state and the opline of the current frame; `withRestorer`: `AutomaticExceptionStateRestorer`.
* `Callable`: PHP code; it returns or throws, and leaves any exception state behind.
* `callPreHook`, `callPostHook`, `internalFunctionHandler`, `observerFcallBeginHandler`, `observerFcallEndHandler`: the code.
* `invoke`: the call without hooks.
* `call_transparent_iff`: with hooks that replace nothing a call is the call without hooks, when it runs the function itself.
-/

namespace OtelDistro.Instrumentation.Transparency

open OtelDistro.Lib

/-! ## The state of the engine -/

/-- `opline` is that of `current_execute_data`, when there is one. -/
structure ExecutorGlobals (E O : Type) where
  exception : Option E := none
  prev_exception : Option E := none
  opline_before_exception : Option O := none
  opline : Option O
deriving DecidableEq

structure SavedException (E O : Type) where
  exception : Option E
  prev_exception : Option E
  opline_before_exception : Option O
  opline : Option O

section Restorer

variable {E O α : Type}

def saveExceptionState (eg : ExecutorGlobals E O) : SavedException E O × ExecutorGlobals E O :=
  (⟨eg.exception, eg.prev_exception, eg.opline_before_exception, eg.opline⟩, { opline := eg.opline })

def restoreExceptionState (saved : SavedException E O) (eg : ExecutorGlobals E O) : ExecutorGlobals E O where
  exception := saved.exception
  prev_exception := saved.prev_exception
  opline_before_exception := saved.opline_before_exception
  opline := if eg.opline.isSome && saved.opline.isSome then saved.opline else eg.opline

/-- `body` runs in the scope of an `AutomaticExceptionStateRestorer`, whose exception it is given. -/
def withRestorer (body : Option E → ExecutorGlobals E O → α × ExecutorGlobals E O) (eg : ExecutorGlobals E O) :
    α × ExecutorGlobals E O :=
  let (saved, eg) := saveExceptionState eg
  let (result, eg) := body saved.exception eg
  (result, restoreExceptionState saved eg)

theorem restore_save {eg eg' : ExecutorGlobals E O} (h : eg'.opline.isSome = eg.opline.isSome) :
    restoreExceptionState (saveExceptionState eg).1 eg' = eg := by
  obtain ⟨exception, prev_exception, opline_before_exception, opline⟩ := eg
  unfold restoreExceptionState saveExceptionState
  rcases opline with _ | opline
  · have : eg'.opline = none := by simpa using h
    simp [this]
  · simp only [h, Option.isSome_some, Bool.and_self, if_true]

/-- Whatever is done to the state inside, afterwards it is as before. -/
theorem withRestorer_eq (body : Option E → ExecutorGlobals E O → α × ExecutorGlobals E O) (eg : ExecutorGlobals E O)
    (h : ∀ exception eg, (body exception eg).2.opline.isSome = eg.opline.isSome) :
    withRestorer body eg = ((body eg.exception (saveExceptionState eg).2).1, eg) := by
  have hrestored : restoreExceptionState (saveExceptionState eg).1 (body eg.exception (saveExceptionState eg).2).2 = eg :=
    restore_save (h eg.exception (saveExceptionState eg).2)
  exact Prod.ext rfl hrestored

end Restorer

/-! ## PHP code -/

/-- PHP values, their `===` and the entries of those that are arrays. -/
structure PhpValues (V : Type) where
  null : V
  identical : V → V → Bool
  array : V → Option (HashArray V)

/-- The parameters of a hook that differ between calls; `returnValue` and `exception` are those of a post-hook. -/
structure HookParameters (V E : Type) where
  callArguments : List V
  returnValue : Option V := none
  exception : Option E := none

/-- What comes of `zend_fcall_info_init` and `zend_call_function`; the result of a hook that throws is undefined. -/
inductive FcallResult (V : Type)
  | notInitialized
  | notCalled
  | called (retval : Option V)

/-- A callable; the engine removes no frame of others.  `hasReturnType` and `mayBeVoid` are what its declaration says. -/
structure Callable (V E O : Type) where
  hasReturnType : Bool
  mayBeVoid : Bool
  call : HookParameters V E → ExecutorGlobals E O → FcallResult V × ExecutorGlobals E O
  keepsFrame : ∀ p eg, (call p eg).2.opline.isSome = eg.opline.isSome

/-- What a function does with its frame and the engine: the frame at its end, its return value, the engine. -/
abbrev Original (V E O : Type) := Frame V → ExecutorGlobals E O → Frame V × Option V × ExecutorGlobals E O

/-- A call as its caller and the function see it: what ran with which frame, then the state after it. -/
structure Observed (H V E O : Type) where
  ran : Option (H × Frame V)
  frame : Frame V
  returnValue : Option V
  eg : ExecutorGlobals E O

variable {H V E O : Type}

/-- The call without hooks. -/
def invoke (exec : H → Original V E O) (f : H) (fr : Frame V) (eg : ExecutorGlobals E O) : Observed H V E O :=
  let (frame, returnValue, eg) := exec f fr eg
  ⟨some (f, fr), frame, returnValue, eg⟩

/-! ## The hooks -/

section Hooks

variable (php : PhpValues V)

/-- An error is the `std::runtime_error`. -/
def callPreHook (prehook : Option (Callable V E O)) (fr : Frame V) (eg : ExecutorGlobals E O) :
    Except Str (Frame V) × ExecutorGlobals E O :=
  match prehook with
  | none => (.error (lit "Unable to initialize prehook fcall"), eg)
  | some hook =>
    let arguments := getCallArguments php.null fr
    let (result, eg) := hook.call { callArguments := arguments } eg
    match result with
    | .notInitialized => (.error (lit "Unable to initialize prehook fcall"), eg)
    | .notCalled => (.error (lit "Unable to call prehook function"), eg)
    | .called ret => (.ok (argsPostProcessing php.identical arguments (ret.bind php.array) fr), eg)

/-- The return value after the hook; `none` is a null pointer. -/
def callPostHook (hook : Option (Callable V E O)) (return_value : Option V) (exception : Option E) (fr : Frame V)
    (eg : ExecutorGlobals E O) : Except Str (Option V) × ExecutorGlobals E O :=
  match hook with
  | none => (.error (lit "Unable to initialize posthook fcall"), eg)
  | some hook =>
    let (result, eg) := hook.call ⟨getCallArguments php.null fr, return_value, exception⟩ eg
    match result with
    | .notInitialized => (.error (lit "Unable to initialize posthook fcall"), eg)
    | .notCalled => (.error (lit "Unable to call posthook function"), eg)
    | .called none => (.ok return_value, eg)
    | .called (some hookRv) =>
      if return_value.isNone then (.ok return_value, eg)
      else if !hook.hasReturnType || hook.mayBeVoid then (.ok return_value, eg)
      else (.ok (some hookRv), eg)

/-- A `std::exception` is logged. -/
def preHook (st : Frame V × ExecutorGlobals E O) (callback : Option (Callable V E O)) : Frame V × ExecutorGlobals E O :=
  let (result, eg) := withRestorer (fun _ eg => callPreHook php callback st.1 eg) st.2
  match result with
  | .ok fr => (fr, eg)
  | .error _ => (st.1, eg)

def postHook (fr : Frame V) (st : Option V × ExecutorGlobals E O) (callback : Option (Callable V E O)) :
    Option V × ExecutorGlobals E O :=
  let (result, eg) := withRestorer (fun exception eg => callPostHook php callback st.1 exception fr eg) st.2
  match result with
  | .ok return_value => (return_value, eg)
  | .error _ => (st.1, eg)

/-- `internal_function_handler`, running for `func` with `fr`. -/
def internalFunctionHandler (s : State H (Callable V E O)) (functional : Bool) (exec : H → Original V E O)
    (func : InternalFunction (Handler H)) (fr : Frame V) (eg : ExecutorGlobals E O) : Observed H V E O :=
  match s.handlers.lookup func.hash with
  | none => ⟨none, fr, some php.null, eg⟩ -- "Unable to find function handler"
  | some originalHandler =>
    if functional = false then invoke exec originalHandler fr eg
    else
      match s.hooks.find func.hash with
      | none => invoke exec originalHandler fr eg
      | some callbacks =>
        let pre := callbacks.foldl (fun st callback =>
          if callback.1.isNone then st else preHook php st callback.1) (fr, eg)
        let observed := invoke exec originalHandler pre.1 pre.2
        let post := callbacks.foldl (fun st callback =>
          if callback.2.isNone then st else postHook php observed.frame st callback.2) (observed.returnValue, observed.eg)
        { observed with returnValue := post.1, eg := post.2 }

/-- `callWithSpanHandlerPre` -/
def callWithSpanHandlerPre (functional : Bool) (handler : Callable V E O) (fr : Frame V) (eg : ExecutorGlobals E O) :
    ExecutorGlobals E O :=
  if functional then
    (withRestorer (fun _ eg => handler.call { callArguments := getCallArguments php.null fr } eg) eg).2
  else eg

def callWithSpanHandlerPost (functional : Bool) (handler : Callable V E O) (fr : Frame V) (retval : Option V)
    (exception : Option E) (eg : ExecutorGlobals E O) : ExecutorGlobals E O :=
  if functional then
    (withRestorer (fun _ eg => handler.call ⟨getCallArguments php.null fr, retval, exception⟩ eg) eg).2
  else eg

/-- `withSpan` is `WithSpanHandler::pre` and `post`, when there is metadata under the key of the function. -/
def observerFcallBeginHandler (functional : Bool) (callbacks : Option (List (Callbacks (Callable V E O))))
    (withSpan : Option (Callable V E O × Callable V E O)) (fr : Frame V) (eg : ExecutorGlobals E O) :
    Frame V × ExecutorGlobals E O :=
  let st := (callbacks.getD []).foldl (fun st callback => preHook php st callback.1) (fr, eg)
  match withSpan with
  | none => st
  | some (handler, _) => (st.1, callWithSpanHandlerPre php functional handler st.1 st.2)

def observerFcallEndHandler (functional : Bool) (callbacks : Option (List (Callbacks (Callable V E O))))
    (withSpan : Option (Callable V E O × Callable V E O)) (fr : Frame V) (retval : Option V) (eg : ExecutorGlobals E O) :
    Option V × ExecutorGlobals E O :=
  let st := (callbacks.getD []).foldl (fun st callback => postHook php fr st callback.2) (retval, eg)
  match withSpan with
  | none => st
  | some (_, handler) =>
    (st.1, (withRestorer (fun exception eg =>
      ((), callWithSpanHandlerPost php functional handler fr st.1 exception eg)) st.2).2)

/-! ## Calls -/

/-- The entry `fn` of class `cls`, or a user function with its key and the handlers the engine has for it. -/
inductive Call (H V E O : Type)
  | internal (cls fn : Str) (func : InternalFunction H)
  | user (f : H) (hash : UInt64) (handlers : Observer.Handlers) (withSpan : Option (Callable V E O × Callable V E O))

def Call.original : Call H V E O → H
  | .internal _ _ func => func.handler
  | .user f _ _ _ => f

def Call.hash : Call H V E O → UInt64
  | .internal _ _ func => func.hash
  | .user _ hash _ _ => hash

/-- The call with whatever is installed. -/
def perform (s : State H (Callable V E O)) (functional : Bool) (exec : H → Original V E O) (call : Call H V E O)
    (fr : Frame V) (eg : ExecutorGlobals E O) : Option (Observed H V E O) :=
  match call with
  | .internal cls fn _ =>
    match s.tables cls fn with
    | some (.internal func) =>
      match func.handler with
      | .original handler => some (invoke exec handler fr eg)
      | .internalFunctionHandler => some (internalFunctionHandler php s functional exec func fr eg)
    | _ => none
  | .user f hash handlers withSpan =>
    let callbacks := s.hooks.find hash
    let pre := if handlers.begin then observerFcallBeginHandler php functional callbacks withSpan fr eg else (fr, eg)
    let observed := invoke exec f pre.1 pre.2
    if handlers.end_ then
      let post := observerFcallEndHandler php functional callbacks withSpan observed.frame observed.returnValue observed.eg
      some { observed with returnValue := post.1, eg := post.2 }
    else some observed

/-! ## Hooks that replace nothing -/

/-- Called for this frame, the hook throws or returns no array. -/
def Callable.PreQuiet (hook : Callable V E O) (fr : Frame V) (eg : ExecutorGlobals E O) : Prop :=
  ∀ v, (hook.call { callArguments := getCallArguments php.null fr } (saveExceptionState eg).2).1 = .called (some v) →
    php.array v = none

/-- Called for what the function returned or threw, the hook throws, or it declares no return type, or `void`. -/
def Callable.PostQuiet (hook : Callable V E O) (fr : Frame V) (return_value : Option V) (eg : ExecutorGlobals E O) : Prop :=
  hook.hasReturnType = false ∨ hook.mayBeVoid = true ∨
    ∀ v, (hook.call ⟨getCallArguments php.null fr, return_value, eg.exception⟩ (saveExceptionState eg).2).1 ≠
      .called (some v)

/-- The hooks that are found for a call. -/
def Quiet (callbacks : List (Callbacks (Callable V E O))) (fr : Frame V) (eg : ExecutorGlobals E O)
    (observed : Observed H V E O) : Prop :=
  ∀ callback ∈ callbacks, (∀ hook, callback.1 = some hook → hook.PreQuiet php fr eg) ∧
    (∀ hook, callback.2 = some hook → hook.PostQuiet php observed.frame observed.returnValue observed.eg)

variable {fr : Frame V} {eg : ExecutorGlobals E O} {return_value : Option V} {callback : Option (Callable V E O)}

theorem callPreHook_keepsFrame (callback : Option (Callable V E O)) (fr : Frame V) (eg : ExecutorGlobals E O) :
    (callPreHook php callback fr eg).2.opline.isSome = eg.opline.isSome := by
  unfold callPreHook
  cases callback with
  | none => rfl
  | some hook =>
    have hkeeps := hook.keepsFrame { callArguments := getCallArguments php.null fr } eg
    dsimp only
    split <;> exact hkeeps

theorem callPostHook_keepsFrame (callback : Option (Callable V E O)) (return_value : Option V) (exception : Option E)
    (fr : Frame V) (eg : ExecutorGlobals E O) :
    (callPostHook php callback return_value exception fr eg).2.opline.isSome = eg.opline.isSome := by
  unfold callPostHook
  cases callback with
  | none => rfl
  | some hook =>
    have hkeeps := hook.keepsFrame ⟨getCallArguments php.null fr, return_value, exception⟩ eg
    dsimp only
    split
    · exact hkeeps
    · exact hkeeps
    · exact hkeeps
    · split_ifs <;> exact hkeeps

/-- A hook that returns no array leaves the frame alone. -/
theorem callPreHook_quiet (h : ∀ hook, callback = some hook → hook.PreQuiet php fr eg) {fr' : Frame V}
    (hok : (callPreHook php callback fr (saveExceptionState eg).2).1 = .ok fr') : fr' = fr := by
  unfold callPreHook at hok
  cases callback with
  | none => cases hok
  | some hook =>
    dsimp only at hok
    split at hok
    · cases hok
    · cases hok
    · next eg' ret hcall =>
      have harray : ret.bind php.array = none := by
        cases ret with
        | none => rfl
        | some v => exact h hook rfl v hcall
      rw [harray] at hok
      exact (Except.ok.inj hok).symm

/-- A hook without a return type leaves the return value alone. -/
theorem callPostHook_quiet (h : ∀ hook, callback = some hook → hook.PostQuiet php fr return_value eg) {rv : Option V}
    (hok : (callPostHook php callback return_value eg.exception fr (saveExceptionState eg).2).1 = .ok rv) :
    rv = return_value := by
  unfold callPostHook at hok
  cases callback with
  | none => cases hok
  | some hook =>
    dsimp only at hok
    split at hok
    · cases hok
    · cases hok
    · exact (Except.ok.inj hok).symm
    · next eg' hookRv hcall =>
      split_ifs at hok with _ hdeclared
      · exact (Except.ok.inj hok).symm
      · exact (Except.ok.inj hok).symm
      · -- a declared return type: then the hook has thrown
        rcases h hook rfl with hno | hvoid | hthrew
        · simp [hno] at hdeclared
        · simp [hvoid] at hdeclared
        · exact absurd hcall (hthrew hookRv)

/-- After the restorer the engine is as it was, whatever the hook did. -/
theorem preHook_eq (h : ∀ hook, callback = some hook → hook.PreQuiet php fr eg) :
    preHook php (fr, eg) callback = (fr, eg) := by
  have hrestored := withRestorer_eq (fun _ eg => callPreHook php callback fr eg) eg
    fun _ eg => callPreHook_keepsFrame php callback fr eg
  unfold preHook
  dsimp only
  rw [hrestored]
  dsimp only
  split
  · next fr' hok => rw [callPreHook_quiet php h hok]
  · rfl

theorem postHook_eq (h : ∀ hook, callback = some hook → hook.PostQuiet php fr return_value eg) :
    postHook php fr (return_value, eg) callback = (return_value, eg) := by
  have hrestored := withRestorer_eq (fun exception eg => callPostHook php callback return_value exception fr eg) eg
    fun exception eg => callPostHook_keepsFrame php callback return_value exception fr eg
  unfold postHook
  dsimp only
  rw [hrestored]
  dsimp only
  split
  · next rv hok => rw [callPostHook_quiet php h hok]
  · rfl

/-- A loop whose steps change nothing. -/
theorem foldl_eq_self {α β : Type} {f : β → α → β} {b : β} {l : List α} (h : ∀ a ∈ l, f b a = b) : l.foldl f b = b := by
  induction l with
  | nil => rfl
  | cons a l ih =>
    rw [List.foldl_cons, h a List.mem_cons_self]
    exact ih fun a ha => h a (List.mem_cons_of_mem _ ha)

theorem callWithSpanHandlerPre_eq (functional : Bool) (handler : Callable V E O) (fr : Frame V)
    (eg : ExecutorGlobals E O) : callWithSpanHandlerPre php functional handler fr eg = eg := by
  unfold callWithSpanHandlerPre
  split
  · rw [withRestorer_eq _ _ fun _ eg => handler.keepsFrame _ eg]
  · rfl

theorem callWithSpanHandlerPost_eq (functional : Bool) (handler : Callable V E O) (fr : Frame V) (retval : Option V)
    (exception : Option E) (eg : ExecutorGlobals E O) :
    callWithSpanHandlerPost php functional handler fr retval exception eg = eg := by
  unfold callWithSpanHandlerPost
  split
  · rw [withRestorer_eq _ _ fun _ eg => handler.keepsFrame _ eg]
  · rfl

theorem observerFcallBeginHandler_eq (functional : Bool) {callbacks : Option (List (Callbacks (Callable V E O)))}
    (withSpan : Option (Callable V E O × Callable V E O))
    (h : ∀ callback ∈ callbacks.getD [], ∀ hook, callback.1 = some hook → hook.PreQuiet php fr eg) :
    observerFcallBeginHandler php functional callbacks withSpan fr eg = (fr, eg) := by
  have hhooks : (callbacks.getD []).foldl (fun st callback => preHook php st callback.1) (fr, eg) = (fr, eg) :=
    foldl_eq_self fun callback hm => preHook_eq php (h callback hm)
  unfold observerFcallBeginHandler
  rw [hhooks]
  cases withSpan with
  | none => rfl
  | some handlers => exact Prod.ext rfl (callWithSpanHandlerPre_eq php functional handlers.1 fr eg)

theorem observerFcallEndHandler_eq (functional : Bool) {callbacks : Option (List (Callbacks (Callable V E O)))}
    (withSpan : Option (Callable V E O × Callable V E O))
    (h : ∀ callback ∈ callbacks.getD [], ∀ hook, callback.2 = some hook → hook.PostQuiet php fr return_value eg) :
    observerFcallEndHandler php functional callbacks withSpan fr return_value eg = (return_value, eg) := by
  have hhooks : (callbacks.getD []).foldl (fun st callback => postHook php fr st callback.2) (return_value, eg) =
      (return_value, eg) := foldl_eq_self fun callback hm => postHook_eq php (h callback hm)
  unfold observerFcallEndHandler
  rw [hhooks]
  cases withSpan with
  | none => rfl
  | some handlers =>
    have hrestored := withRestorer_eq
      (fun exception eg => ((), callWithSpanHandlerPost php functional handlers.2 fr return_value exception eg)) eg fun exception eg => by rw [callWithSpanHandlerPost_eq]
    have hsnd := congrArg Prod.snd hrestored
    exact Prod.ext rfl hsnd

/-- The patched handler of a function whose original is found is the call without hooks. -/
theorem internalFunctionHandler_eq {s : State H (Callable V E O)} {functional : Bool} {exec : H → Original V E O}
    {func : InternalFunction (Handler H)} {handler : H} (hfound : s.handlers.lookup func.hash = some handler)
    (hquiet : ∀ callbacks, s.hooks.find func.hash = some callbacks → Quiet php callbacks fr eg (invoke exec handler fr eg)) :
    internalFunctionHandler php s functional exec func fr eg = invoke exec handler fr eg := by
  unfold internalFunctionHandler
  simp only [hfound]
  split_ifs
  · rfl
  · cases hcallbacks : s.hooks.find func.hash with
    | none => rfl
    | some callbacks =>
      have hpre : callbacks.foldl (fun st callback =>
          if callback.1.isNone then st else preHook php st callback.1) (fr, eg) = (fr, eg) := by
        refine foldl_eq_self fun callback hm => ?_
        rw [preHook_eq php (hquiet callbacks hcallbacks callback hm).1, ite_self]
      have hpost : callbacks.foldl (fun st callback =>
          if callback.2.isNone then st else postHook php (invoke exec handler fr eg).frame st callback.2)
          ((invoke exec handler fr eg).returnValue, (invoke exec handler fr eg).eg) =
          ((invoke exec handler fr eg).returnValue, (invoke exec handler fr eg).eg) := by
        refine foldl_eq_self fun callback hm => ?_
        rw [postHook_eq php (hquiet callbacks hcallbacks callback hm).2, ite_self]
      simp only [hpre, hpost]

/-! ## Transparency -/

/-- The entry is an internal function of the tables the engine starts with. -/
def Call.Declared (T : FunctionTables H) : Call H V E O → Prop
  | .internal cls fn func => T cls fn = some (.internal func)
  | .user .. => True

/-- A call of an internal function runs its own handler. -/
def Call.OwnHandlerFound (T : FunctionTables H) (ts : List (Str × Str)) : Call H V E O → Prop
  | .internal cls fn func => Instrumentation.OwnHandlerFound T ts cls fn func
  | .user .. => True

theorem perform_user {s : State H (Callable V E O)} {functional : Bool} {exec : H → Original V E O} {f : H} {hash : UInt64}
    {handlers : Observer.Handlers} {withSpan : Option (Callable V E O × Callable V E O)}
    (hquiet : ∀ callbacks, s.hooks.find hash = some callbacks → Quiet php callbacks fr eg (invoke exec f fr eg)) :
    perform php s functional exec (.user f hash handlers withSpan) fr eg = some (invoke exec f fr eg) := by
  have hquiet' : Quiet php ((s.hooks.find hash).getD []) fr eg (invoke exec f fr eg) := by
    cases hcallbacks : s.hooks.find hash with
    | none => exact fun callback hm => absurd hm List.not_mem_nil
    | some callbacks => exact hquiet callbacks hcallbacks
  have hbegin := observerFcallBeginHandler_eq php functional withSpan fun callback hm =>
    (hquiet' callback hm).1
  have hend := observerFcallEndHandler_eq php functional withSpan fun callback hm =>
    (hquiet' callback hm).2
  unfold perform
  simp only [hbegin, ite_self]
  split_ifs
  · rw [hend]
  · rfl

/-- What runs for a patched function is the handler under its key. -/
theorem ran_internalFunctionHandler (s : State H (Callable V E O)) (functional : Bool) (exec : H → Original V E O)
    (func : InternalFunction (Handler H)) (fr : Frame V) (eg : ExecutorGlobals E O) :
    (internalFunctionHandler php s functional exec func fr eg).ran.map Prod.fst = s.handlers.lookup func.hash := by
  unfold internalFunctionHandler
  cases s.handlers.lookup func.hash with
  | none => rfl
  | some originalHandler =>
    dsimp only
    split_ifs
    · rfl
    · cases s.hooks.find func.hash <;> rfl

end Hooks

/-! ## Samples -/

def samplePhp : PhpValues ℕ := ⟨0, fun a b => a == b, fun _ => none⟩

/-- A hook with a return type that throws and moves the frame to another opline. -/
def throwing : Callable ℕ ℕ ℕ where
  hasReturnType := true
  mayBeVoid := false
  call _ eg := (.called none, { eg with exception := some 7, opline := eg.opline.map fun _ => 99 })
  keepsFrame _ _ := Option.isSome_map

/-- A function that throws. -/
def sampleExec (handler : ℕ) : Original ℕ ℕ ℕ := fun fr eg => (fr, some handler, { eg with exception := some 1 })

abbrev SampleAction := Action (Callable ℕ ℕ ℕ)

def instrumentedM : List SampleAction := [.instrumentFunction (lit "P") (lit "m") (some throwing) (some throwing)]

def callOfM : Call ℕ ℕ ℕ ℕ := .internal (lit "p") (lit "m") inheritedM

def hooksOfM : HooksStorage (Callable ℕ ℕ ℕ) := HooksStorage.store ∅ inheritedM.hash (some throwing, some throwing)

def instrumentedC0 : List SampleAction :=
  [.instrumentFunction [] (lit "ar") none none, .instrumentFunction [] (lit "c0") none none]

def callOfC0 : Call ℕ ℕ ℕ ℕ := .internal [] (lit "c0") functionC0

def afterC0 : State ℕ (Callable ℕ ℕ ℕ) := (State.init sampleTables).runAll instrumentedC0

end OtelDistro.Instrumentation.Transparency
