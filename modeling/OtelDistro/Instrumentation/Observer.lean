import OtelDistro.Instrumentation.WithSpanAttributes
import OtelDistro.Lib.Runs

/-!
# OtelDistro.Instrumentation.Observer — user functions observed by the engine

On the first call of a user function in a request the engine asks `registerObserverHandlers` whether its calls begin and end
with `observerFcallBeginHandler` and `observerFcallEndHandler`; these run the hooks and the `#[WithSpan]` handlers stored
under the key of the function.

* `Code`: the functions of a request and the interfaces of its classes.
* `Worker.registerObserverHandlers`: the code; hooks and the answers of the engine live for one request, the attributes longer.
* `Frame`: a call under way.  Hooks are PHP code, so other calls and registrations come between any two steps of a handler.
* `step`: the next step of the worker, with the log of the hooks and handlers that were run.
-/

namespace OtelDistro.Instrumentation.Observer

open Lib

/-! ## Names -/

/-- A class and a function in lowercase; `cls` is empty for a function outside a class. -/
structure Names where
  cls : Str
  fn : Str
deriving DecidableEq

def Names.of (className functionName : Str) : Names := ⟨className.map toLower, functionName.map toLower⟩

def Names.key (names : Names) : UInt64 := hashClassAndFunctionNameLowercase names.cls names.fn

theorem key_of (className functionName : Str) :
    (Names.of className functionName).key = hashClassAndFunctionNameLowercase className functionName :=
  hash_map_toLower className functionName

def names (func : UserFunction) : Names := Names.of func.scope (func.functionName.getD [])

theorem hash_eq_key {func : UserFunction} (h : func.functionName.isSome) : func.hash = (names func).key := by
  obtain ⟨functionName, hname⟩ := Option.isSome_iff_exists.mp h
  rw [UserFunction.hash, names, hname, key_of]
  rfl

/-! ## Requests -/

/-- `interfaces` gives, for a class in lowercase, the names of all interfaces it implements, those of its interfaces
among them. -/
structure Code where
  func : ℕ → UserFunction
  interfaces : Str → List Str
  inherited : ∀ c, ∀ i ∈ interfaces c, ∀ j ∈ interfaces (i.map toLower),
    j.map toLower ∈ (interfaces c).map fun i => i.map toLower

/-- The options that are read here. -/
structure Config where
  attr_hooks_enabled : Bool := false
  debug_instrument_all : Bool := false
  scoped_deps_enabled : Bool := false

/-- A closure given to `hook()`, or a callable by its name. -/
inductive Callable
  | closure (number : ℕ)
  | named (name : Str)
deriving DecidableEq

/-- A node of the list under a key, with the names it was stored for and those its hooks were registered for. -/
structure Node where
  number : ℕ
  storedFor : Names
  registeredFor : Names
  callbacks : Callbacks Callable
deriving DecidableEq

/-- Are the handlers to be called? -/
structure Handlers where
  begin : Bool := false
  end_ : Bool := false
deriving DecidableEq

/-- Where a call stands.  In a loop over the hooks, `last` is the node that was visited last. -/
inductive Phase
  | beginHooks (last : Option ℕ)
  | beginAttribute
  | body
  | endHooks (last : Option ℕ)
  | endAttribute
deriving DecidableEq

/-- A call of function `func`; `pre` is what `WithSpanHandler::pre` was invoked with. -/
structure Frame where
  func : ℕ
  phase : Phase
  pre : Option WithSpanMetadata := none

/-- What the handlers of a call have done: a hook was run, the call began, the call ended.  `current` is what the code of the
function asks for, `pre` and `post` are the invocations of `WithSpanHandler`. -/
inductive Event
  | hook (callee : Names) (interfaces : List Str) (registeredFor : Names) (callable : Callable)
  | begun (current pre : Option WithSpanMetadata)
  | ended (pre post : Bool)

/-- `attrHooks` outlives the requests; `stack` has the running call first. -/
structure Worker where
  config : Config := {}
  code : Code
  functional : Bool := false
  hooks : KMap UInt64 (List Node) := ∅
  nextNode : ℕ := 0
  attrHooks : AttrHooksStorage := ∅
  installed : ℕ → Option Handlers := fun _ => none
  stack : List Frame := []
  log : List Event := []

namespace Worker

/-! ## The hooks -/

/-- `store`, and the node it adds. -/
def store (w : Worker) (storedFor registeredFor : Names) (callbacks : Callbacks Callable) : Worker :=
  let node := ⟨w.nextNode, storedFor, registeredFor, callbacks⟩
  { w with
    hooks := w.hooks.insert storedFor.key ((w.hooks.lookup storedFor.key).getD [] ++ [node])
    nextNode := w.nextNode + 1 }

def storeFront (w : Worker) (storedFor registeredFor : Names) (callbacks : Callbacks Callable) : Worker :=
  let node := ⟨w.nextNode, storedFor, registeredFor, callbacks⟩
  { w with
    hooks := w.hooks.insert storedFor.key (node :: (w.hooks.lookup storedFor.key).getD [])
    nextNode := w.nextNode + 1 }

def instrumentFunction (w : Worker) (cName fName : Str) (callbacks : Callbacks Callable) : Worker :=
  w.store (Names.of cName fName) (Names.of cName fName) callbacks

/-- The interfaces of the class of a function. -/
def interfacesOf (w : Worker) (func : UserFunction) : List Str := w.code.interfaces (func.scope.map toLower)

/-- The first interface that has hooks for the function. -/
def findInterface (w : Worker) (func : UserFunction) : Option (Str × List Node) :=
  (w.interfacesOf func).findSome? fun i =>
    (w.hooks.lookup (hashClassAndFunctionNameLowercase i (func.functionName.getD []))).map fun nodes => (i, nodes)

/-- The callbacks of the interface are copied to the key of the implementation. -/
def copyCallbacks (w : Worker) (storedFor : Names) (nodes : List Node) : Worker :=
  nodes.foldl (fun w node => w.store storedFor node.registeredFor node.callbacks) w

/-- The list under the key of the function, or the one of an interface after it was copied. -/
def findCallbacks (w : Worker) (func : UserFunction) : Worker × Option (List Node) :=
  match w.hooks.lookup func.hash with
  | some nodes => (w, some nodes)
  | none =>
    match w.findInterface func with
    | some (_, nodes) => (w.copyCallbacks (names func) nodes, some nodes)
    | none => (w, none)

def phpScoperPrefix : Str := lit "OTelDistroScoped\\"

def debugHooks (scopedDeps : Bool) : Callbacks Callable :=
  let facade := (if scopedDeps then phpScoperPrefix else []) ++ lit "OpenTelemetry\\Distro\\PhpPartFacade::"
  (some (.named (facade ++ lit "debugPreHook")), some (.named (facade ++ lit "debugPostHook")))

def isDebugInstrumented (w : Worker) (func : UserFunction) : Bool :=
  w.config.debug_instrument_all && w.functional && !func.isClosure &&
    !(decide (lit "/opentelemetry/php/distro/" <:+: func.filename)) &&
    !(decide (lit "/open-telemetry/" <:+: func.filename))

def storeDebugHooks (w : Worker) (func : UserFunction) (callbacks : Option (List Node)) :
    Worker × Option (List Node) :=
  if w.isDebugInstrumented func then
    let w := w.storeFront (names func) (names func) (debugHooks w.config.scoped_deps_enabled)
    (w, w.hooks.lookup func.hash)
  else (w, callbacks)

/-- What the code of a function asks for. -/
def currentAttribute (w : Worker) (func : UserFunction) : Option WithSpanMetadata :=
  if w.config.attr_hooks_enabled then readWithSpanMetadata func else none

def storeAttribute (w : Worker) (func : UserFunction) : Worker :=
  match w.currentAttribute func with
  | some metadata => { w with attrHooks := w.attrHooks.insert func.hash metadata }
  | none => w

def registerObserverHandlers (w : Worker) (func : UserFunction) : Worker × Handlers :=
  if func.hash = 0 then (w, {})
  else
    let (w, callbacks) := w.findCallbacks func
    let (w, callbacks) := w.storeDebugHooks func callbacks
    let haveAttrHook := (w.currentAttribute func).isSome
    let nodes := callbacks.getD []
    (w.storeAttribute func, {
      begin := haveAttrHook || nodes.any fun node => node.callbacks.1.isSome
      end_ := haveAttrHook || nodes.any fun node => node.callbacks.2.isSome })

/-- The engine asks on the first call of a function in a request. -/
def install (w : Worker) (n : ℕ) : Worker :=
  if (w.installed n).isSome then w
  else
    let (w', handlers) := w.registerObserverHandlers (w.code.func n)
    { w' with installed := Function.update w.installed n (some handlers) }

def handlers (w : Worker) (n : ℕ) : Handlers := (w.installed n).getD {}

/-! ## The handlers -/

/-- What `WithSpanHandler::pre` is to be invoked with. -/
def current (w : Worker) (n : ℕ) : Option WithSpanMetadata :=
  if w.functional then w.currentAttribute (w.code.func n) else none

/-- What the handlers find under the key of the function, in a functional request. -/
def findAttribute (w : Worker) (n : ℕ) : Option WithSpanMetadata :=
  if w.functional then w.attrHooks.lookup (w.code.func n).hash else none

/-- The list under the key of the function. -/
def nodes (w : Worker) (n : ℕ) : List Node := (w.hooks.lookup (w.code.func n).hash).getD []

/-- The node after `last`, or the first. -/
def nextOf (nodes : List Node) : Option ℕ → Option Node
  | none => nodes.head?
  | some last => (nodes.dropWhile fun node => node.number ≠ last).tail.head?

/-- The hook is called, unless it is null. -/
def callHook (w : Worker) (n : ℕ) (node : Node) (callable : Option Callable) : Worker :=
  match callable with
  | none => w
  | some callable =>
    let func := w.code.func n
    { w with log := w.log ++ [.hook (names func) (w.interfacesOf func) node.registeredFor callable] }

/-- The call of `n` begins; without handler its body runs at once. -/
def enter (w : Worker) (n : ℕ) : Worker :=
  let w := w.install n
  if (w.handlers n).begin then
    { w with stack := ⟨n, if (w.hooks.lookup (w.code.func n).hash).isSome then .beginHooks none else .beginAttribute, none⟩ ::
        w.stack }
  else { w with stack := ⟨n, .body, none⟩ :: w.stack, log := w.log ++ [.begun (w.current n) none] }

/-- The body of the running call ends. -/
def leave (w : Worker) : Option Worker :=
  match w.stack with
  | ⟨n, .body, pre⟩ :: rest =>
    if (w.handlers n).end_ then
      some { w with stack :=
        ⟨n, if (w.hooks.lookup (w.code.func n).hash).isSome then .endHooks none else .endAttribute, pre⟩ :: rest }
    else some { w with stack := rest, log := w.log ++ [.ended pre.isSome false] }
  | _ => none

/-- The next step of the handler that the running call is in. -/
def next (w : Worker) : Option Worker :=
  match w.stack with
  | ⟨n, .beginHooks last, pre⟩ :: rest =>
    match nextOf (w.nodes n) last with
    | some node => some { w.callHook n node node.callbacks.1 with stack := ⟨n, .beginHooks (some node.number), pre⟩ :: rest }
    | none => some { w with stack := ⟨n, .beginAttribute, pre⟩ :: rest }
  | ⟨n, .beginAttribute, _⟩ :: rest =>
    some { w with
      stack := ⟨n, .body, w.findAttribute n⟩ :: rest
      log := w.log ++ [.begun (w.current n) (w.findAttribute n)] }
  | ⟨n, .endHooks last, pre⟩ :: rest =>
    match nextOf (w.nodes n) last with
    | some node => some { w.callHook n node node.callbacks.2 with stack := ⟨n, .endHooks (some node.number), pre⟩ :: rest }
    | none => some { w with stack := ⟨n, .endAttribute, pre⟩ :: rest }
  | ⟨n, .endAttribute, pre⟩ :: rest =>
    some { w with stack := rest, log := w.log ++ [.ended pre.isSome (w.findAttribute n).isSome] }
  | _ => none

end Worker

/-! ## Runs -/

/-- A worker process before its first request. -/
def Worker.initial (code : Code) : Worker := { code }

inductive Action
  | requestInit (config : Config) (code : Code)
  /-- The PHP side is bootstrapped. -/
  | bootstrapped
  | instrumentFunction (cName fName : Str) (callableOnEntry callableOnExit : Option Callable)
  | enter (n : ℕ)
  | next
  | leave

def step (w : Worker) : Action → Option Worker
  | .requestInit config code =>
    if w.stack.isEmpty then
      some { w with config, code, functional := false, hooks := ∅, installed := fun _ => none }
    else none
  | .bootstrapped => if w.stack.isEmpty then some { w with functional := true } else none
  | .instrumentFunction cName fName callableOnEntry callableOnExit =>
    some (w.instrumentFunction cName fName (callableOnEntry, callableOnExit))
  | .enter n => some (w.enter n)
  | .next => w.next
  | .leave => w.leave

/-! ## The first call of a function -/

section

variable {w w' : Worker} {n : ℕ}

/-- What `registerObserverHandlers` leaves alone. -/
structure SameRequest (w w' : Worker) : Prop where
  code : w'.code = w.code
  log : w'.log = w.log
  stack : w'.stack = w.stack
  config : w'.config = w.config
  functional : w'.functional = w.functional

theorem SameRequest.trans {w'' : Worker} (h : SameRequest w w') (h' : SameRequest w' w'') : SameRequest w w'' :=
  ⟨h'.code.trans h.code, h'.log.trans h.log, h'.stack.trans h.stack, h'.config.trans h.config,
    h'.functional.trans h.functional⟩

theorem sameRequest_copyCallbacks (w : Worker) (storedFor : Names) (nodes : List Node) :
    SameRequest w (w.copyCallbacks storedFor nodes) := by
  induction nodes generalizing w with
  | nil => exact ⟨rfl, rfl, rfl, rfl, rfl⟩
  | cons node nodes ih =>
    have hstore : SameRequest w (w.store storedFor node.registeredFor node.callbacks) := ⟨rfl, rfl, rfl, rfl, rfl⟩
    exact hstore.trans (ih _)

theorem sameRequest_findCallbacks (w : Worker) (func : UserFunction) : SameRequest w (w.findCallbacks func).1 := by
  unfold Worker.findCallbacks
  split
  · exact ⟨rfl, rfl, rfl, rfl, rfl⟩
  · split
    · exact sameRequest_copyCallbacks w _ _
    · exact ⟨rfl, rfl, rfl, rfl, rfl⟩

theorem sameRequest_storeDebugHooks (w : Worker) (func : UserFunction) (found : Option (List Node)) :
    SameRequest w (w.storeDebugHooks func found).1 := by
  unfold Worker.storeDebugHooks
  split <;> exact ⟨rfl, rfl, rfl, rfl, rfl⟩

theorem sameRequest_storeAttribute (w : Worker) (func : UserFunction) : SameRequest w (w.storeAttribute func) := by
  unfold Worker.storeAttribute
  split <;> exact ⟨rfl, rfl, rfl, rfl, rfl⟩

@[simp] theorem storeAttribute_hooks (w : Worker) (func : UserFunction) : (w.storeAttribute func).hooks = w.hooks := by
  unfold Worker.storeAttribute
  split <;> rfl

theorem sameRequest_registerObserverHandlers (w : Worker) (func : UserFunction) :
    SameRequest w (w.registerObserverHandlers func).1 := by
  unfold Worker.registerObserverHandlers
  split
  · exact ⟨rfl, rfl, rfl, rfl, rfl⟩
  · have hfind := sameRequest_findCallbacks w func
    have hdebug := sameRequest_storeDebugHooks (w.findCallbacks func).1 func (w.findCallbacks func).2
    exact (hfind.trans hdebug).trans (sameRequest_storeAttribute _ func)

theorem install_of_none (hn : w.installed n = none) : w.install n = { (w.registerObserverHandlers (w.code.func n)).1 with
    installed := Function.update w.installed n (some (w.registerObserverHandlers (w.code.func n)).2) } := by
  unfold Worker.install
  rw [hn]
  rfl

theorem installed_of_none (hn : w.installed n = none) : (w.install n).installed =
    Function.update w.installed n (some (w.registerObserverHandlers (w.code.func n)).2) := by
  rw [install_of_none hn]

theorem install_of_isSome (hn : (w.installed n).isSome) : w.install n = w := by
  unfold Worker.install
  rw [if_pos hn]

theorem handlers_install (hn : w.installed n = none) :
    (w.install n).handlers n = (w.registerObserverHandlers (w.code.func n)).2 := by
  unfold Worker.handlers
  rw [installed_of_none hn, Function.update_self, Option.getD_some]

theorem sameRequest_install (w : Worker) (n : ℕ) : SameRequest w (w.install n) := by
  cases hn : w.installed n with
  | none =>
    have h := sameRequest_registerObserverHandlers w (w.code.func n)
    rw [install_of_none hn]
    exact ⟨h.code, h.log, h.stack, h.config, h.functional⟩
  | some handlers =>
    rw [install_of_isSome (by rw [hn]; rfl)]
    exact ⟨rfl, rfl, rfl, rfl, rfl⟩

end

end OtelDistro.Instrumentation.Observer
