import OtelDistro.InferredSpans.StackDiff
import OtelDistro.Lib.IndexedArray

/-!
# OtelDistro.InferredSpans.ThrowingCapture — captures during which a span or a scope throws

`captureStackTrace` catches what the spans, the span processors behind them and the context storage throw, and goes on with
`lastStackTrace` as it is then.  Here `lastStackTrace` is the PHP array, with its keys.

* `Fault`: the call that throws, and whether its effect is there already.
* `World.tryEndFrameSpan`, `World.tryReduceFrame`, `World.tryStartFrameSpan`: the code up to that call.
* `endGoneFrames`, `startFrames`: the two loops of `compareStackTraces`.
* `Instance`: the object; its captures and its shutdown say what they have thrown.
-/

namespace OtelDistro.InferredSpans

open OtelDistro.Lib OtelDistro.Lib.IndexedArray

/-! ## Exceptions -/

/-- The calls for a frame that run code outside the object. -/
inductive Call
  | reduce -- `getParentContext`, `force_set_object_property_value`
  | measure -- `getDuration`, `getStartEpochNanos`
  | detach
  | endSpan
  | startSpan
  | attach
  | setAttribute
  deriving DecidableEq

/-- The exception comes before or after the effect of the call, as when `onEnd` of a span processor throws. -/
inductive Moment
  | before
  | after
  deriving DecidableEq

/-- The frame in work: an old one, by its index in `lastStackTrace`, or a new one, by its index in the stack trace. -/
inductive Place
  | old (index : ℕ)
  | new (index : ℕ)
  deriving DecidableEq

/-- The call that throws. -/
structure Fault where
  place : Place
  call : Call
  moment : Moment
  deriving DecidableEq

/-- Whether the call throws. -/
def throwsAt (fault : Option Fault) (place : Place) (call : Call) : Option Moment :=
  fault.bind fun f => if f.place = place ∧ f.call = call then some f.moment else none

/-- An exception: a null that is not of the type required, or what a call has thrown. -/
inductive Thrown
  | typeError
  | fault
  deriving DecidableEq

section Code

variable {X : Type} [DecidableEq X] {S : ScopeStorage Context X} (cfg : Config) (env : Env)

/-- A call that takes the world `w` to `w'`; the flag says that it throws. -/
def attempt (w w' : World S) : Option Moment → World S × Bool
  | none => (w', false)
  | some .before => (w, true)
  | some .after => (w', true)

/-! ## Spans and scopes -/

/-- `endFrameSpan`; the flag says that a call has thrown. -/
def World.tryEndFrameSpan (throws : Call → Option Moment) (w : World S) (frame : ExtendedStackTraceFrame X)
    (dropSpan : Bool) (endEpochNanos : Option ℤ) : World S × Bool :=
  let decision := if dropSpan = false then w.shouldDropTooShortSpan cfg env frame endEpochNanos else (w, dropSpan)
  let measures := dropSpan = false ∧ ¬ cfg.minSpanDuration ≤ 0 ∧ ¬ frame.span.isSdkSpan = false
  match attempt w decision.1 (if measures then throws .measure else none) with
  | (w, true) => (w, true)
  | (w, false) =>
    if frame.span.isSdkSpan = false then (w, false)
    else
      match attempt w (w.detach frame.scope).1 (throws .detach) with
      | (w', true) => (w', true)
      | (w', false) =>
        if decision.2 then ({ w' with dropped := frame.span.number :: w'.dropped }, false)
        else if (w.detach frame.scope).2 then
          attempt w' (w'.endSpan env frame.span endEpochNanos) (throws .endSpan)
        else if S.contextOf frame.scope = w'.getCurrent then (w', false)
        else attempt w' (w'.endSpan env frame.span endEpochNanos) (throws .endSpan)

/-- Whether `shouldReduceFrame` asks the span of a frame below for its parent. -/
def World.asksParents (w : World S) (frame : ExtendedStackTraceFrame X) (below : List (ExtendedStackTraceFrame X))
    (st : ReduceState) : Bool :=
  cfg.spanReductionEnabled && decide (st.previousFrameStackTraceId ≠ frame.stackTraceId) &&
    (w.lastSpanParent frame.stackTraceId below).isSome

/-- `shouldReduceFrame`, if spans are reduced; the flag says that a call has thrown. -/
def World.tryReduceFrame (throws : Call → Option Moment) (w : World S) (frame : ExtendedStackTraceFrame X)
    (below : List (ExtendedStackTraceFrame X)) (st : ReduceState) : (World S × Bool) × Bool × ReduceState :=
  let reduced := w.reduceFrame cfg env frame below st
  (attempt w reduced.1 (if w.asksParents cfg frame below st then throws .reduce else none), reduced.2)

/-- `startFrameSpan`; there is no frame if a call has thrown. -/
def World.tryStartFrameSpan (throws : Call → Option Moment) (w : World S) (frame : DebugBackTraceFrame)
    (durationMs : ℤ) (parentContext : Option Context) (stackTraceId : ℕ) :
    World S × Option (ExtendedStackTraceFrame X) :=
  let parent := parentContext.getD w.getCurrent
  let (w, startTime) := w.getStartTime env durationMs
  let span : Span := ⟨w.spansStarted, env.isSdkSpan w.spansStarted, frame.spanName, startTime⟩
  let started : World S :=
    { w with
      spansStarted := w.spansStarted + 1
      parents := fun n => if n = span.number then parent.span else w.parents n }
  match attempt w started (throws .startSpan) with
  | (w, true) => (w, none)
  | (w, false) =>
    let context : Context := ⟨w.contexts, some (.inferred span.number)⟩
    let (scopes, scope) := w.scopes.attach context
    let w := { w with contexts := w.contexts + 1 }
    match attempt w { w with scopes := scopes } (throws .attach) with
    | (w, true) => (w, none)
    | (w, false) =>
      (w, some { frame with span := span, context := context, scope := scope, stackTraceId := stackTraceId })

/-! ## Comparing stack traces -/

/-- An array of frames; a value that is missing here is a null. -/
abbrev FrameArray (X : Type) := List (ℕ × Option (ExtendedStackTraceFrame X))

/-- `$array[$key]`, null if the key is missing. -/
def frameAt (last : FrameArray X) (key : ℕ) : Option (ExtendedStackTraceFrame X) := (last.lookup key).join

/-- The frames under `n` keys, up to the first one that is null: `shouldReduceFrame` goes no further, because the stack
trace id of a null is not that of a frame. -/
def framesFrom (last : FrameArray X) : ℕ → ℕ → List (ExtendedStackTraceFrame X)
  | _, 0 => []
  | key, n + 1 =>
    match frameAt last key with
    | none => []
    | some frame => frame :: framesFrom last (key + 1) n

/-- The loop of `getHowManyStackFramesAreIdenticalFromStackBottom` after `index` frames that are the same, for a stack trace
from the bottom.  It takes references to the entries of `lastStackTrace`; `isSameFrame` accepts no null. -/
def sameFrames (lastStackTraceCount : ℕ) :
    List DebugBackTraceFrame → ℕ → FrameArray X → FrameArray X × Option ℕ
  | [], index, last => (last, some index)
  | frame :: stackTrace, index, last =>
    if index < lastStackTraceCount then
      let key := lastStackTraceCount - (index + 1)
      let last := reference last key none
      match frameAt last key with
      | none => (last, none)
      | some lastFrame =>
        if isSameFrame frame lastFrame.toDebugBackTraceFrame then
          sameFrames lastStackTraceCount stackTrace (index + 1) last
        else (last, some index)
    else (last, some index)

variable (fault : Option Fault) (durationMs : ℤ) (top : Bool)

/-- The loop over the old frames that are gone, when `n` of them are left.  A null is refused by `endFrameSpan`, if
`shouldReduceFrame` has not failed on it before. -/
def endGoneFrames (oldFramesCount : ℕ) :
    ℕ → World S → FrameArray X → ReduceState → World S × FrameArray X × Option Thrown
  | 0, w, last, _ => (w, last, none)
  | n + 1, w, last, st =>
    let index := oldFramesCount - (n + 1)
    let (w, endEpochNanos) := w.endTime env durationMs top
    match frameAt last index with
    | none => (w, last, some .typeError)
    | some frame =>
      let throws := throwsAt fault (.old index)
      match w.tryReduceFrame cfg env throws frame (framesFrom last (index + 1) n) st with
      | ((w, true), _) => (w, last, some .fault)
      | ((w, false), dropSpan, st) =>
        match w.tryEndFrameSpan cfg env throws frame dropSpan endEpochNanos with
        | (w, true) => (w, last, some .fault)
        | (w, false) => endGoneFrames oldFramesCount n w (unset last index) st

/-- The loop over the new frames, from the bottom. -/
def startFrames (attachStackTrace : Bool) (stackTraceId : ℕ) :
    World S → FrameArray X → Option Context → List DebugBackTraceFrame → World S × FrameArray X × Option Thrown
  | w, last, _, [] => (w, last, none)
  | w, last, parentContext, frame :: above =>
    let throws := throwsAt fault (.new above.length)
    match w.tryStartFrameSpan env throws frame durationMs parentContext stackTraceId with
    | (w, none) => (w, last, some .fault)
    | (w, some newFrame) =>
      if attachStackTrace = true ∧ throws .setAttribute ≠ none then (w, last, some .fault)
      else if above = [] ∧ top = true then
        match w.tryEndFrameSpan cfg env throws newFrame false none with
        | (w, true) => (w, last, some .fault)
        | (w, false) => (w, last, none)
      else startFrames attachStackTrace stackTraceId w (unshift last (some newFrame)) none above

/-- The parent context of the first new frame: that of the frame below it, if frames were filtered out in between. -/
def firstParent (apmFramesFilteredOut : Option ℕ) (last : FrameArray X) : Option Context :=
  match apmFramesFilteredOut with
  | some n => if n ≠ 0 then (frameAt last 0).map (fun frame => frame.context) else none
  | none => none

/-! ## The object -/

variable (S) in
/-- `InferredSpans` and the world around it. -/
structure Instance where
  lastStackTrace : FrameArray X := []
  stackTraceId : ℕ := 0
  shutdown : Bool := false
  world : World S

variable (attachStackTrace : Bool)

/-- `compareStackTraces`, and what it throws. -/
def Instance.compareStackTraces (s : Instance S) (stackTrace : List DebugBackTraceFrame)
    (apmFramesFilteredOut : Option ℕ) : Instance S × Option Thrown :=
  let stackTraceId := s.stackTraceId + 1
  match sameFrames s.lastStackTrace.length stackTrace.reverse 0 s.lastStackTrace with
  | (last, none) => ({ s with lastStackTrace := last, stackTraceId := stackTraceId }, some .typeError)
  | (last, some identicalFramesCount) =>
    let oldFramesCount := last.length - identicalFramesCount
    match endGoneFrames cfg env fault durationMs top oldFramesCount oldFramesCount s.world last {} with
    | (world, last, some thrown) =>
      ({ s with lastStackTrace := last, stackTraceId := stackTraceId, world := world }, some thrown)
    | (world, last, none) =>
      let last := values last
      let newFrames := stackTrace.take (stackTrace.length - identicalFramesCount)
      let started := startFrames cfg env fault durationMs top attachStackTrace stackTraceId world last
        (firstParent apmFramesFilteredOut last) newFrames.reverse
      ({ s with lastStackTrace := started.2.1, stackTraceId := stackTraceId, world := started.1 }, started.2.2)

/-- `captureStackTrace`; what is thrown is caught and logged. -/
def Instance.captureStackTrace (s : Instance S) (backtrace : List DebugBackTraceFrame) : Instance S × Option Thrown :=
  if s.shutdown then (s, none)
  else
    let (stackTrace, apmFramesFilteredOutCount) := filterOutAPMFrames cfg (backtrace.drop FRAMES_TO_SKIP)
    s.compareStackTraces cfg env fault durationMs top attachStackTrace stackTrace apmFramesFilteredOutCount

/-- `shutdown`; what is thrown goes to the caller. -/
def Instance.shutdownSpans (s : Instance S) : Instance S × Option Thrown :=
  Instance.compareStackTraces cfg env fault 0 false attachStackTrace { s with shutdown := true } [] (some 0)

end Code

end OtelDistro.InferredSpans
