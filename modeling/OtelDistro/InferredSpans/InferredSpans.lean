import OtelDistro.Bytes
import OtelDistro.Lib.ScopeStack
import Mathlib.Data.Rat.Defs
import Mathlib.Algebra.Order.Ring.Unbundled.Rat

/-!
# OtelDistro.InferredSpans.InferredSpans — spans inferred from sampled stack traces

A stack trace is captured at intervals.  The frames that are on the stack have a span and an attached scope each; a
frame that is gone has its span ended, a frame that is new has one started.

* `Env`: what the tracer, the clock and the extension answer; the context storage is a `ScopeStorage`.
* `startFrameSpan`, `endFrameSpan`, `shouldReduceFrame`, `compareStackTraces`: the code.  Span attributes and log
  messages are left out, nothing reads them.
* `State.captureStackTrace`, `State.shutdownSpans`: the entry points.
-/

namespace OtelDistro.InferredSpans

open OtelDistro.Lib

/-! ## Data -/

/-- A frame of `debug_backtrace`. -/
structure DebugBackTraceFrame where
  function : Str
  line : Option ℤ := none
  file : Option Str := none
  cls : Option Str := none
  type : Option Str := none
  deriving DecidableEq

/-- A span of this component, by number, or one of the application. -/
inductive SpanRef
  | inferred (number : ℕ)
  | foreign (number : ℕ)
  deriving DecidableEq

/-- A context object; contexts are compared by identity. -/
structure Context where
  id : ℕ
  span : Option SpanRef
  deriving DecidableEq

/-- The object returned by `startSpan`; `isSdkSpan` tells an SDK `Span` from a non-recording one. -/
structure Span where
  number : ℕ
  isSdkSpan : Bool
  name : Str
  startEpochNanos : ℤ
  deriving DecidableEq

/-- A frame with its metadata; `span` and `context` are weak references, kept alive by `scope`. -/
structure ExtendedStackTraceFrame (X : Type) extends DebugBackTraceFrame where
  span : Span
  context : Context
  scope : X
  stackTraceId : ℕ
  deriving DecidableEq

/-- The arguments of the constructor (the minimum duration in ms) and the prefix of scoped classes. -/
structure Config where
  spanReductionEnabled : Bool
  minSpanDuration : ℚ
  scoperPrefix : Str

/-- The answers to the calls numbered so: clock readings, spans started, parents replaced. -/
structure Env where
  clock : ℕ → ℤ
  isSdkSpan : ℕ → Bool
  parentReplaced : ℕ → Bool

/-- What is outside the object: the context storage, the spans' parents and ends, the calls made so far, and the spans that
are reported as dropped. -/
structure World {X : Type} [DecidableEq X] (S : ScopeStorage Context X) where
  scopes : Client S
  clockReadings : ℕ := 0
  spansStarted : ℕ := 0
  contexts : ℕ := 1
  replacements : ℕ := 0
  parents : ℕ → Option SpanRef := fun _ => none
  ended : List (ℕ × ℤ) := []
  dropped : List ℕ := []

/-- The root context. -/
def rootContext : Context := ⟨0, none⟩

def MILLIS_TO_NANOS : ℤ := 1000000

def FRAMES_TO_SKIP : ℕ := 2

/-! ## Spans and scopes -/

section Code

variable {X : Type} [DecidableEq X] {S : ScopeStorage Context X} (cfg : Config) (env : Env)

/-- `Context::getCurrent()` -/
def World.getCurrent (w : World S) : Context := ((S.attached w.scopes.st).head?.map S.contextOf).getD rootContext

/-- `Clock::getDefault()->now()` -/
def World.now (w : World S) : World S × ℤ :=
  ({ w with clockReadings := w.clockReadings + 1 }, env.clock w.clockReadings)

def World.getStartTime (w : World S) (durationMs : ℤ) : World S × ℤ :=
  ((w.now env).1, (w.now env).2 - durationMs * MILLIS_TO_NANOS)

/-- `Span::getDuration()` -/
def World.getDuration (w : World S) (span : Span) : World S × ℤ :=
  match w.ended.lookup span.number with
  | some endEpochNanos => (w, endEpochNanos - span.startEpochNanos)
  | none => ((w.now env).1, (w.now env).2 - span.startEpochNanos)

/-- `Span::end()`; a span that has ended is left as it is. -/
def World.endSpan (w : World S) (span : Span) (endEpochNanos : Option ℤ) : World S :=
  match w.ended.lookup span.number with
  | some _ => w
  | none =>
    match endEpochNanos with
    | some nanos => { w with ended := (span.number, nanos) :: w.ended }
    | none => { (w.now env).1 with ended := (span.number, (w.now env).2) :: w.ended }

/-- The scope's `detach()`; the result is the flag `DETACHED`. -/
def World.detach (w : World S) (scope : X) : World S × Bool :=
  ({ w with scopes := (w.scopes.detach scope).1 }, (w.scopes.detach scope).2)

def World.shouldDropTooShortSpan (w : World S) (frame : ExtendedStackTraceFrame X) (endEpochNanos : Option ℤ) :
    World S × Bool :=
  if cfg.minSpanDuration ≤ 0 then (w, false)
  else if frame.span.isSdkSpan = false then (w, false)
  else
    let (w, duration) :=
      match endEpochNanos with
      | some nanos => if nanos ≠ 0 then (w, nanos - frame.span.startEpochNanos) else w.getDuration env frame.span
      | none => w.getDuration env frame.span
    (w, decide ((duration : ℚ) < cfg.minSpanDuration * MILLIS_TO_NANOS))

def World.endFrameSpan (w : World S) (frame : ExtendedStackTraceFrame X) (dropSpan : Bool)
    (endEpochNanos : Option ℤ) : World S :=
  let (w, dropSpan) :=
    if dropSpan = false then w.shouldDropTooShortSpan cfg env frame endEpochNanos else (w, dropSpan)
  if frame.span.isSdkSpan = false then w -- not an SDK span: logged, and nothing else
  else if dropSpan then { (w.detach frame.scope).1 with dropped := frame.span.number :: w.dropped }
  else
    let (w, detached) := w.detach frame.scope
    if detached then w.endSpan env frame.span endEpochNanos -- detached by someone else
    else if S.contextOf frame.scope = w.getCurrent then w
    else w.endSpan env frame.span endEpochNanos

/-- The name of a frame's span. -/
def DebugBackTraceFrame.spanName (frame : DebugBackTraceFrame) : Str :=
  let isEmpty (s : Str) : Bool := s = [] || s = lit "0" -- PHP's `empty`
  let cls := frame.cls.getD []
  (if isEmpty cls then [] else cls ++ lit "::") ++
    (if isEmpty frame.function then lit "[unknown]" else frame.function)

def World.startFrameSpan (w : World S) (frame : DebugBackTraceFrame) (durationMs : ℤ) (parentContext : Option Context)
    (stackTraceId : ℕ) : World S × ExtendedStackTraceFrame X :=
  let parent := parentContext.getD w.getCurrent
  let (w, startTime) := w.getStartTime env durationMs
  let span : Span := ⟨w.spansStarted, env.isSdkSpan w.spansStarted, frame.spanName, startTime⟩
  let context : Context := ⟨w.contexts, some (.inferred span.number)⟩
  let (scopes, scope) := w.scopes.attach context
  ({ w with
      scopes := scopes
      spansStarted := w.spansStarted + 1
      contexts := w.contexts + 1
      parents := fun n => if n = span.number then parent.span else w.parents n },
    { frame with span := span, context := context, scope := scope, stackTraceId := stackTraceId })

/-! ## Comparing stack traces -/

/-- `filterOutAPMFrames`: cut off everything above the lowest frame of the SDK or the distro, and return its index. -/
def filterOutAPMFrames (stackTrace : List DebugBackTraceFrame) : List DebugBackTraceFrame × Option ℕ :=
  let isAPMFrame (frame : DebugBackTraceFrame) : Bool :=
    match frame.cls with
    | none => false
    | some cls => cfg.scoperPrefix.isPrefixOf cls || (lit "OpenTelemetry\\").isPrefixOf cls
  let cutIndex := (stackTrace.zipIdx.reverse.find? (fun p => isAPMFrame p.1)).map Prod.snd
  (match cutIndex with | none => stackTrace | some index => stackTrace.drop (index + 1), cutIndex)

/-- The frames are of the same call. -/
def isSameFrame (frame1 frame2 : DebugBackTraceFrame) : Bool :=
  frame1.cls = frame2.cls && frame1.function = frame2.function && frame1.file = frame2.file &&
    frame1.line = frame2.line && frame1.type = frame2.type

/-- The number of frames that are the same, for traces given from the bottom. -/
def identicalFrames : List DebugBackTraceFrame → List (ExtendedStackTraceFrame X) → ℕ
  | frame :: stackTrace, lastFrame :: lastStackTrace =>
    if isSameFrame frame lastFrame.toDebugBackTraceFrame then identicalFrames stackTrace lastStackTrace + 1 else 0
  | _, _ => 0

def getHowManyStackFramesAreIdenticalFromStackBottom (stackTrace : List DebugBackTraceFrame)
    (lastStackTrace : List (ExtendedStackTraceFrame X)) : ℕ :=
  identicalFrames stackTrace.reverse lastStackTrace.reverse

/-- The variables `shouldReduceFrame` shares with the loop that calls it. -/
structure ReduceState where
  previousFrameStackTraceId : ℤ := -1
  forceParentChangeFailed : Bool := false

/-- The parent of the last frame below of the same stack trace, up to the first one without an SDK span. -/
def World.lastSpanParent (w : World S) (frameStackTraceId : ℕ) :
    List (ExtendedStackTraceFrame X) → Option (Option SpanRef)
  | [] => none
  | frame :: below =>
    if frame.stackTraceId ≠ frameStackTraceId ∨ frame.span.isSdkSpan = false then none
    else (w.lastSpanParent frameStackTraceId below).or (some (w.parents frame.span.number))

/-- `shouldReduceFrame` for a frame and the old frames below it. -/
def World.shouldReduceFrame (w : World S) (frame : ExtendedStackTraceFrame X)
    (below : List (ExtendedStackTraceFrame X)) (st : ReduceState) : World S × Bool × ReduceState :=
  let dropSpan := decide (st.previousFrameStackTraceId = frame.stackTraceId)
  let st := { st with previousFrameStackTraceId := frame.stackTraceId }
  let parent := if dropSpan then none else w.lastSpanParent frame.stackTraceId below
  match parent with
  | some lastSpanParent =>
    if frame.span.isSdkSpan = false then (w, false, st)
    else
      let replaced := env.parentReplaced w.replacements
      ({ w with
          replacements := w.replacements + 1
          parents := fun n => if n = frame.span.number ∧ replaced = true then lastSpanParent else w.parents n },
        dropSpan, { st with forceParentChangeFailed := !replaced })
  | none => (w, dropSpan && !st.forceParentChangeFailed, st)

/-- The loop over the old frames that are not on the stack any more, from the top. -/
def World.endOldFrames (durationMs : ℤ) (topFrameIsInternalFunction : Bool) :
    World S → List (ExtendedStackTraceFrame X) → ReduceState → World S
  | w, [], _ => w
  | w, frame :: below, st =>
    let (w, endEpochNanos) :=
      if topFrameIsInternalFunction then ((w.getStartTime env durationMs).1, some (w.getStartTime env durationMs).2)
      else (w, none)
    let (w, dropSpan, st) :=
      if cfg.spanReductionEnabled then w.shouldReduceFrame env frame below st else (w, false, st)
    let w := w.endFrameSpan cfg env frame dropSpan endEpochNanos
    World.endOldFrames durationMs topFrameIsInternalFunction w below st

/-- The loop over the new frames, from the bottom; `lastStackTrace` grows at its head. -/
def World.startNewFrames (durationMs : ℤ) (topFrameIsInternalFunction : Bool) (stackTraceId : ℕ) :
    World S → List (ExtendedStackTraceFrame X) → Option Context → List DebugBackTraceFrame →
      World S × List (ExtendedStackTraceFrame X)
  | w, lastStackTrace, _, [] => (w, lastStackTrace)
  | w, lastStackTrace, parentContext, frame :: above =>
    let (w, newFrame) := w.startFrameSpan env frame durationMs parentContext stackTraceId
    if above = [] ∧ topFrameIsInternalFunction = true then
      (w.endFrameSpan cfg env newFrame false none, lastStackTrace)
    else
      World.startNewFrames durationMs topFrameIsInternalFunction stackTraceId w (newFrame :: lastStackTrace) none
        above

/-! ## The object -/

/-- `InferredSpans` and the world around it. -/
structure State {X : Type} [DecidableEq X] (S : ScopeStorage Context X) where
  lastStackTrace : List (ExtendedStackTraceFrame X) := []
  stackTraceId : ℕ := 0
  shutdown : Bool := false
  world : World S

def State.compareStackTraces (s : State S) (stackTrace : List DebugBackTraceFrame) (durationMs : ℤ)
    (topFrameIsInternalFunction : Bool) (apmFramesFilteredOut : Option ℕ) : State S :=
  let stackTraceId := s.stackTraceId + 1
  let identicalFramesCount := getHowManyStackFramesAreIdenticalFromStackBottom stackTrace s.lastStackTrace
  let oldFramesCount := s.lastStackTrace.length - identicalFramesCount
  let world := s.world.endOldFrames cfg env durationMs topFrameIsInternalFunction
    (s.lastStackTrace.take oldFramesCount) {}
  let lastStackTrace := s.lastStackTrace.drop oldFramesCount
  let newFrames := stackTrace.take (stackTrace.length - identicalFramesCount)
  let parentContext :=
    match apmFramesFilteredOut with
    | some n => if n ≠ 0 then lastStackTrace.head?.map (fun frame => frame.context) else none
    | none => none
  let (world, lastStackTrace) := world.startNewFrames cfg env durationMs topFrameIsInternalFunction stackTraceId
    lastStackTrace parentContext newFrames.reverse
  { s with lastStackTrace := lastStackTrace, stackTraceId := stackTraceId, world := world }

/-- `captureStackTrace`, where `backtrace` is the result of `debug_backtrace`. -/
def State.captureStackTrace (s : State S) (backtrace : List DebugBackTraceFrame) (durationMs : ℤ)
    (topFrameIsInternalFunction : Bool) : State S :=
  if s.shutdown then s
  else
    let (stackTrace, apmFramesFilteredOutCount) := filterOutAPMFrames cfg (backtrace.drop FRAMES_TO_SKIP)
    s.compareStackTraces cfg env stackTrace durationMs topFrameIsInternalFunction apmFramesFilteredOutCount

/-- `shutdown` -/
def State.shutdownSpans (s : State S) : State S :=
  State.compareStackTraces cfg env { s with shutdown := true } [] 0 false (some 0)

end Code

end OtelDistro.InferredSpans
