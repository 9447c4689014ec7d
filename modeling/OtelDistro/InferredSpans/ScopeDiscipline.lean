import OtelDistro.InferredSpans.InferredSpans

/-!
# OtelDistro.InferredSpans.ScopeDiscipline — the scopes inferred spans keep attached

The scopes attached by `InferredSpans` become the current context of the application, so every one has to be detached
when its frame is gone.

* `System`, `step`: captures, the shutdown, and scopes the application attaches and detaches in between.
* `ScopesExact`: the scopes attached are those of the frames in `lastStackTrace`, in a last-in first-out discipline.
* `StepOk`: no frame whose span is not an SDK span is ended by the step.

`scopes_exact`: runs of such steps keep `ScopesExact`.  `nonSdkSpan_leaks_scope`: `endFrameSpan` returns early for the
other spans and leaves their scopes attached.
-/

namespace OtelDistro.InferredSpans

open OtelDistro.Lib

/-! ## Scopes of the operations -/

section Scopes

variable {X : Type} [DecidableEq X] {S : ScopeStorage Context X} (cfg : Config) (env : Env)

/-- The operation from `w` to `w'` has attached and detached nothing, and started no span. -/
structure World.Keeps (w w' : World S) : Prop where
  scopes : w'.scopes = w.scopes
  spansStarted : w'.spansStarted = w.spansStarted

variable {w w' w'' : World S}

theorem World.Keeps.refl (w : World S) : w.Keeps w := ⟨rfl, rfl⟩

theorem World.Keeps.trans (h : w.Keeps w') (h' : w'.Keeps w'') : w.Keeps w'' :=
  ⟨h'.scopes.trans h.scopes, h'.spansStarted.trans h.spansStarted⟩

theorem World.Keeps.detach (h : w.Keeps w') (scope : X) : (w.detach scope).1.Keeps (w'.detach scope).1 :=
  ⟨congrArg (fun c => (c.detach scope).1) h.scopes, h.spansStarted⟩

theorem keeps_getDuration (w : World S) (span : Span) : w.Keeps (w.getDuration env span).1 := by
  unfold World.getDuration
  cases w.ended.lookup span.number with
  | some _ => exact .refl w
  | none => exact ⟨rfl, rfl⟩

theorem keeps_endSpan (w : World S) (span : Span) (endEpochNanos : Option ℤ) :
    w.Keeps (w.endSpan env span endEpochNanos) := by
  unfold World.endSpan
  cases w.ended.lookup span.number with
  | some _ => exact .refl w
  | none => cases endEpochNanos <;> exact ⟨rfl, rfl⟩

theorem keeps_shouldDropTooShortSpan (w : World S) (frame : ExtendedStackTraceFrame X) (endEpochNanos : Option ℤ) :
    w.Keeps (w.shouldDropTooShortSpan cfg env frame endEpochNanos).1 := by
  unfold World.shouldDropTooShortSpan
  by_cases hmin : cfg.minSpanDuration ≤ 0
  · rw [if_pos hmin]
    exact .refl w
  · rw [if_neg hmin]
    by_cases hsdk : frame.span.isSdkSpan = false
    · rw [if_pos hsdk]
      exact .refl w
    · rw [if_neg hsdk]
      cases endEpochNanos with
      | none => exact keeps_getDuration env w frame.span
      | some nanos =>
        by_cases hn : nanos ≠ 0
        · simp only [if_pos hn]
          exact .refl w
        · simp only [if_neg hn]
          exact keeps_getDuration env w frame.span

theorem keeps_shouldReduceFrame (w : World S) (frame : ExtendedStackTraceFrame X)
    (below : List (ExtendedStackTraceFrame X)) (st : ReduceState) :
    w.Keeps (w.shouldReduceFrame env frame below st).1 := by
  unfold World.shouldReduceFrame
  dsimp only
  generalize (if decide (st.previousFrameStackTraceId = frame.stackTraceId) = true then none
    else w.lastSpanParent frame.stackTraceId below) = parent
  cases parent with
  | none => exact .refl w
  | some lastSpanParent =>
    by_cases hsdk : frame.span.isSdkSpan = false
    · simp only [if_pos hsdk]
      exact .refl w
    · simp only [if_neg hsdk]
      exact ⟨rfl, rfl⟩

/-- The decision whether a span is dropped. -/
theorem keeps_dropDecision (w : World S) (frame : ExtendedStackTraceFrame X) (dropSpan : Bool)
    (endEpochNanos : Option ℤ) :
    w.Keeps (if dropSpan = false then w.shouldDropTooShortSpan cfg env frame endEpochNanos else (w, dropSpan)).1 := by
  by_cases hd : dropSpan = false
  · rw [if_pos hd]
    exact keeps_shouldDropTooShortSpan cfg env w frame endEpochNanos
  · rw [if_neg hd]
    exact .refl w

/-- Ending a frame with an SDK span detaches its scope, whatever becomes of the span. -/
theorem detach_keeps_endFrameSpan {frame : ExtendedStackTraceFrame X} (hsdk : frame.span.isSdkSpan = true)
    (w : World S) (dropSpan : Bool) (endEpochNanos : Option ℤ) :
    (w.detach frame.scope).1.Keeps (w.endFrameSpan cfg env frame dropSpan endEpochNanos) := by
  have hne : ¬ frame.span.isSdkSpan = false := by simp [hsdk]
  have hkeeps := (keeps_dropDecision cfg env w frame dropSpan endEpochNanos).detach frame.scope
  unfold World.endFrameSpan
  generalize (if dropSpan = false then w.shouldDropTooShortSpan cfg env frame endEpochNanos
    else (w, dropSpan)) = decision at hkeeps
  obtain ⟨w', drop⟩ := decision
  simp only [if_neg hne] at hkeeps ⊢
  refine hkeeps.trans ?_
  cases drop with
  | true => exact ⟨rfl, rfl⟩
  | false =>
    rw [if_neg Bool.false_ne_true]
    generalize w'.detach frame.scope = detached
    obtain ⟨w'', flag⟩ := detached
    cases flag with
    | true => exact keeps_endSpan env w'' frame.span endEpochNanos
    | false =>
      by_cases hcur : S.contextOf frame.scope = w''.getCurrent
      · simp only [Bool.false_eq_true, if_false, if_pos hcur]
        exact .refl w''
      · simp only [Bool.false_eq_true, if_false, if_neg hcur]
        exact keeps_endSpan env w'' frame.span endEpochNanos

/-- Starting a frame attaches a scope, which the frame keeps. -/
theorem startFrameSpan_spec (w : World S) (frame : DebugBackTraceFrame) (durationMs : ℤ)
    (parentContext : Option Context) (stackTraceId : ℕ) :
    ∃ context, (w.startFrameSpan env frame durationMs parentContext stackTraceId).1.scopes =
        (w.scopes.attach context).1 ∧
      (w.startFrameSpan env frame durationMs parentContext stackTraceId).2.scope = (w.scopes.attach context).2 ∧
      (w.startFrameSpan env frame durationMs parentContext stackTraceId).2.span.isSdkSpan =
        env.isSdkSpan w.spansStarted ∧
      (w.startFrameSpan env frame durationMs parentContext stackTraceId).1.spansStarted = w.spansStarted + 1 :=
  ⟨⟨w.contexts, some (.inferred w.spansStarted)⟩, rfl, rfl, rfl, rfl⟩

/-! ## The two loops -/

/-- Ending old frames, all with SDK spans, from the top. -/
theorem holds_endOldFrames (durationMs : ℤ) (top : Bool) {own others : List X}
    {frames : List (ExtendedStackTraceFrame X)} (hsdk : ∀ frame ∈ frames, frame.span.isSdkSpan = true) {w : World S}
    (h : w.scopes.Holds (frames.map (fun frame => frame.scope) ++ own) others) (st : ReduceState) :
    (w.endOldFrames cfg env durationMs top frames st).scopes.Holds own others ∧
      (w.endOldFrames cfg env durationMs top frames st).spansStarted = w.spansStarted := by
  induction frames generalizing w st with
  | nil => exact ⟨h, rfl⟩
  | cons frame below ih =>
    have hend : w.Keeps (if top = true then ((w.getStartTime env durationMs).1,
        some (w.getStartTime env durationMs).2) else (w, none)).1 := by
      cases top <;> exact ⟨rfl, rfl⟩
    unfold World.endOldFrames
    generalize (if top = true then ((w.getStartTime env durationMs).1, some (w.getStartTime env durationMs).2)
      else (w, none)) = started at hend
    obtain ⟨w', endEpochNanos⟩ := started
    have hreduce : w'.Keeps (if cfg.spanReductionEnabled = true then w'.shouldReduceFrame env frame below st
        else (w', false, st)).1 := by
      by_cases hr : cfg.spanReductionEnabled = true
      · rw [if_pos hr]
        exact keeps_shouldReduceFrame env w' frame below st
      · rw [if_neg hr]
        exact .refl w'
    simp only
    generalize (if cfg.spanReductionEnabled = true then w'.shouldReduceFrame env frame below st
      else (w', false, st)) = reduced at hreduce
    obtain ⟨w'', dropSpan, st'⟩ := reduced
    simp only
    have hkeeps := ((hend.trans hreduce).detach frame.scope).trans
      (detach_keeps_endFrameSpan cfg env (hsdk frame List.mem_cons_self) w'' dropSpan endEpochNanos)
    have hdetach : (w.detach frame.scope).1.scopes.Holds (below.map (fun frame => frame.scope) ++ own) others :=
      h.detach
    rw [← hkeeps.scopes] at hdetach
    obtain ⟨hholds, hstarted⟩ := ih (fun f hf => hsdk f (List.mem_cons_of_mem _ hf)) hdetach st'
    exact ⟨hholds, hstarted.trans hkeeps.spansStarted⟩

/-- Starting new frames, from the bottom; the top one may end at once. -/
theorem holds_startNewFrames (durationMs : ℤ) (top : Bool) (stackTraceId : ℕ) {others : List X}
    (frames : List DebugBackTraceFrame) {w : World S} {last : List (ExtendedStackTraceFrame X)}
    (h : w.scopes.Holds (last.map (fun frame => frame.scope)) others) (parentContext : Option Context)
    (hsdk : top = true → frames ≠ [] → env.isSdkSpan (w.spansStarted + frames.length - 1) = true) :
    (w.startNewFrames cfg env durationMs top stackTraceId last parentContext frames).1.scopes.Holds
      ((w.startNewFrames cfg env durationMs top stackTraceId last parentContext frames).2.map
        (fun frame => frame.scope)) others := by
  induction frames generalizing w last parentContext with
  | nil => exact h
  | cons frame above ih =>
    obtain ⟨context, hscopes, hscope, hspan, hstarted⟩ :=
      startFrameSpan_spec env w frame durationMs parentContext stackTraceId
    unfold World.startNewFrames
    generalize w.startFrameSpan env frame durationMs parentContext stackTraceId = started
      at hscopes hscope hspan hstarted
    obtain ⟨w', newFrame⟩ := started
    simp only at hscopes hscope hspan hstarted ⊢
    have hattach : w'.scopes.Holds (newFrame.scope :: last.map (fun frame => frame.scope)) others := by
      rw [hscopes, hscope]
      exact h.attach context
    by_cases hlast : above = [] ∧ top = true
    · -- the internal function at the top has ended already
      have htop : newFrame.span.isSdkSpan = true := by
        rw [hspan]
        simpa [hlast.1] using hsdk hlast.2 (List.cons_ne_nil _ _)
      have hkeeps := detach_keeps_endFrameSpan cfg env htop w' false none
      rw [if_pos hlast]
      show (w'.endFrameSpan cfg env newFrame false none).scopes.Holds _ others
      rw [hkeeps.scopes]
      exact hattach.detach
    · rw [if_neg hlast]
      refine ih hattach none fun ht hne => ?_
      have hnum := hsdk ht (List.cons_ne_nil _ _)
      rw [List.length_cons] at hnum
      rw [hstarted]
      have hpos : 0 < above.length := List.length_pos_iff.mpr hne
      rwa [show w.spansStarted + 1 + above.length - 1 = w.spansStarted + (above.length + 1) - 1 by omega]

/-! ## The entry points -/

/-- The frames a comparison ends, from the top. -/
def State.oldFrames (s : State S) (stackTrace : List DebugBackTraceFrame) : List (ExtendedStackTraceFrame X) :=
  s.lastStackTrace.take
    (s.lastStackTrace.length - getHowManyStackFramesAreIdenticalFromStackBottom stackTrace s.lastStackTrace)

/-- The frames a comparison starts, from the bottom. -/
def State.newFrames (s : State S) (stackTrace : List DebugBackTraceFrame) : List DebugBackTraceFrame :=
  (stackTrace.take
    (stackTrace.length - getHowManyStackFramesAreIdenticalFromStackBottom stackTrace s.lastStackTrace)).reverse

/-- The frames that are ended have SDK spans: old frames, and the top frame if it is an internal function. -/
def State.EndsSdkSpans (s : State S) (stackTrace : List DebugBackTraceFrame) (top : Bool) : Prop :=
  (∀ frame ∈ s.oldFrames stackTrace, frame.span.isSdkSpan = true) ∧
    (top = true → s.newFrames stackTrace ≠ [] →
      env.isSdkSpan (s.world.spansStarted + (s.newFrames stackTrace).length - 1) = true)

/-- The scopes on the stack are those of `lastStackTrace`. -/
def State.Exact (s : State S) (others : List X) : Prop :=
  s.world.scopes.Holds (s.lastStackTrace.map (fun frame => frame.scope)) others

theorem exact_compareStackTraces {s : State S} {others : List X} (h : s.Exact others)
    (stackTrace : List DebugBackTraceFrame) (durationMs : ℤ) (top : Bool) (apmFramesFilteredOut : Option ℕ)
    (hsdk : s.EndsSdkSpans env stackTrace top) :
    (s.compareStackTraces cfg env stackTrace durationMs top apmFramesFilteredOut).Exact others := by
  obtain ⟨hold, htop⟩ := hsdk
  unfold State.Exact at h
  rw [← List.take_append_drop (s.lastStackTrace.length -
    getHowManyStackFramesAreIdenticalFromStackBottom stackTrace s.lastStackTrace) s.lastStackTrace,
    List.map_append] at h
  obtain ⟨hended, hstarted⟩ := holds_endOldFrames cfg env durationMs top hold h {}
  unfold State.newFrames at htop
  rw [← hstarted] at htop
  exact holds_startNewFrames cfg env durationMs top (s.stackTraceId + 1) _ hended _ htop

theorem shutdown_compareStackTraces (s : State S) (stackTrace : List DebugBackTraceFrame) (durationMs : ℤ)
    (top : Bool) (apmFramesFilteredOut : Option ℕ) :
    (s.compareStackTraces cfg env stackTrace durationMs top apmFramesFilteredOut).shutdown = s.shutdown := rfl

/-- Nothing is left of the last stack trace after an empty one. -/
theorem lastStackTrace_shutdownSpans (s : State S) : (s.shutdownSpans cfg env).lastStackTrace = [] := by
  have hzero : getHowManyStackFramesAreIdenticalFromStackBottom [] s.lastStackTrace = 0 := rfl
  show s.lastStackTrace.drop
    (s.lastStackTrace.length - getHowManyStackFramesAreIdenticalFromStackBottom [] s.lastStackTrace) = []
  rw [hzero, Nat.sub_zero, List.drop_length]

end Scopes

/-! ## Runs -/

section Runs

variable {X : Type} [DecidableEq X] (S : ScopeStorage Context X) (cfg : Config) (env : Env)

/-- The object and the scopes of the application. -/
structure System where
  inferred : State S
  appScopes : List X := []

inductive Action (X : Type)
  | captureStackTrace (backtrace : List DebugBackTraceFrame) (durationMs : ℤ) (topFrameIsInternalFunction : Bool)
  | shutdown
  | appAttach (context : Context)
  | appDetach (scope : X)

/-- The application detaches scopes of its own only. -/
def step (s : System S) : Action X → Option (System S)
  | .captureStackTrace backtrace durationMs top =>
    some { s with inferred := s.inferred.captureStackTrace cfg env backtrace durationMs top }
  | .shutdown => some { s with inferred := s.inferred.shutdownSpans cfg env }
  | .appAttach context =>
    let (scopes, scope) := s.inferred.world.scopes.attachOther context
    some ⟨{ s.inferred with world := { s.inferred.world with scopes := scopes } }, scope :: s.appScopes⟩
  | .appDetach scope =>
    if scope ∈ s.appScopes then
      some { s with inferred := { s.inferred with
        world := { s.inferred.world with scopes := s.inferred.world.scopes.detachOther scope } } }
    else none

variable {S}

/-- The object is constructed, with whatever scopes the application has attached. -/
def System.init (st : S.St) : System S := ⟨⟨[], 0, false, { scopes := ⟨st, []⟩ }⟩, S.issued st⟩

/-- The step ends no frame whose span is not an SDK span. -/
def StepOk (s : System S) : Action X → Prop
  | .captureStackTrace backtrace _ top =>
    s.inferred.shutdown = false →
      s.inferred.EndsSdkSpans env (filterOutAPMFrames cfg (backtrace.drop FRAMES_TO_SKIP)).1 top
  | .shutdown => s.inferred.EndsSdkSpans env [] false
  | .appAttach _ => True
  | .appDetach _ => True

/-- The scopes of inferred spans that are attached are those of the last stack trace, each was detached when it was
the innermost one, and none is left after the shutdown. -/
structure ScopesExact (s : System S) : Prop where
  attached : s.inferred.world.scopes.attachedOwned = s.inferred.lastStackTrace.map (fun frame => frame.scope)
  reverseOrder : run lifoStep [] s.inferred.world.scopes.log =
    some (s.inferred.lastStackTrace.map (fun frame => frame.scope))
  afterShutdown : s.inferred.shutdown = true → s.inferred.world.scopes.attachedOwned = []

structure Inv (s : System S) : Prop where
  exact : s.inferred.Exact s.appScopes
  ended : s.inferred.shutdown = true → s.inferred.lastStackTrace = []

variable {cfg env} {s s' : System S} {a : Action X}

theorem Inv.scopesExact (h : Inv s) : ScopesExact s where
  attached := h.exact.attached
  reverseOrder := h.exact.lifo
  afterShutdown hs := by rw [h.exact.attached, h.ended hs, List.map_nil]

theorem inv_init (st : S.St) : Inv (System.init st) where
  exact :=
    { attached := by
        show (S.attached st).filter (fun x => decide (x ∈ ([] : List X))) = []
        simp
      lifo := rfl
      issued := fun x hx => by cases hx
      others := fun x hx => ⟨hx, fun h => by cases h⟩ }
  ended h := by cases h

theorem Inv.step (h : Inv s) (hok : StepOk cfg env s a) (hstep : step S cfg env s a = some s') : Inv s' := by
  cases a with
  | captureStackTrace backtrace durationMs top =>
    rw [InferredSpans.step, Option.some.injEq] at hstep
    subst hstep
    by_cases hs : s.inferred.shutdown = true
    · have hsame : s.inferred.captureStackTrace cfg env backtrace durationMs top = s.inferred := if_pos hs
      rw [hsame]
      exact ⟨h.exact, h.ended⟩
    · rw [Bool.not_eq_true] at hs
      have hcapture : s.inferred.captureStackTrace cfg env backtrace durationMs top =
          s.inferred.compareStackTraces cfg env (filterOutAPMFrames cfg (backtrace.drop FRAMES_TO_SKIP)).1
            durationMs top (filterOutAPMFrames cfg (backtrace.drop FRAMES_TO_SKIP)).2 := by
        rw [State.captureStackTrace, hs]
        rfl
      rw [hcapture]
      refine ⟨exact_compareStackTraces cfg env h.exact _ durationMs top _ (hok hs), fun hs' => ?_⟩
      rw [shutdown_compareStackTraces, hs] at hs'
      cases hs'
  | shutdown =>
    rw [InferredSpans.step, Option.some.injEq] at hstep
    subst hstep
    have hexact : State.Exact { s.inferred with shutdown := true } s.appScopes := h.exact
    exact ⟨exact_compareStackTraces cfg env hexact [] 0 false (some 0) hok,
      fun _ => lastStackTrace_shutdownSpans cfg env s.inferred⟩
  | appAttach context =>
    rw [InferredSpans.step, Option.some.injEq] at hstep
    subst hstep
    exact ⟨h.exact.attachOther context, h.ended⟩
  | appDetach scope =>
    by_cases hmem : scope ∈ s.appScopes
    · rw [InferredSpans.step, if_pos hmem, Option.some.injEq] at hstep
      subst hstep
      exact ⟨h.exact.detachOther hmem, h.ended⟩
    · rw [InferredSpans.step, if_neg hmem] at hstep
      cases hstep

/-- **The scopes of inferred spans**: in every state of a run whose steps end SDK spans only, the scopes attached are
those of the last stack trace, detached in reverse order of attachment, and none is left after the shutdown. -/
theorem scopes_exact {st : S.St} {acts : List (Action X)}
    (h : Path (step S cfg env) (StepOk cfg env) (System.init st) acts s) : ScopesExact s :=
  (h.invariant (fun _ _ _ hI hok hstep => Inv.step hI hok hstep) (inv_init st)).scopesExact

end Runs

/-! ## A request -/

def request : Config := ⟨true, 0, lit "Scoped\\"⟩

/-- The tracer returns SDK spans, or the non-recording spans of a sampled-out trace. -/
def tracer (recording : Bool) : Env := ⟨fun n => n, fun _ => recording, fun _ => true⟩

def noScopes : NumberedScopes Context :=
  ⟨[], [], fun _ hx => absurd hx List.not_mem_nil, fun _ hx => absurd hx List.not_mem_nil⟩

def skipped : List DebugBackTraceFrame := [⟨lit "captureStackTrace", none, none, none, none⟩,
  ⟨lit "inferredSpans", none, none, none, none⟩]

def mainFrame : DebugBackTraceFrame := ⟨lit "main", some 1, none, none, none⟩

def workFrame : DebugBackTraceFrame := ⟨lit "work", some 2, none, none, none⟩

def sleepFrame : DebugBackTraceFrame := ⟨lit "sleep", none, none, none, none⟩

/-- Two captures, the second one in an internal function, and the shutdown. -/
def requestActions : List (Action (NumberedScope Context)) :=
  [.captureStackTrace (skipped ++ [workFrame, mainFrame]) 5 false,
    .captureStackTrace (skipped ++ [sleepFrame, mainFrame]) 5 true, .shutdown]

theorem scopes_exact_witness : ∃ s,
    run (step (ScopeStorage.numbered Context) request (tracer true)) (System.init noScopes) requestActions = some s ∧
      ScopesExact s := by
  have hpath : ∃ s, Path (step (ScopeStorage.numbered Context) request (tracer true)) (StepOk request (tracer true))
      (System.init noScopes) requestActions s :=
    ⟨_, .cons (fun _ => ⟨by decide, fun _ _ => rfl⟩) rfl
      (.cons (fun _ => ⟨by decide, fun _ _ => rfl⟩) rfl
        (.cons ⟨by decide, fun _ _ => rfl⟩ rfl (.nil _)))⟩
  obtain ⟨s, hpath⟩ := hpath
  exact ⟨s, hpath.run_eq, scopes_exact hpath⟩

/-- In a sampled-out trace, one frame is captured and ended by the shutdown: its scope stays attached. -/
theorem nonSdkSpan_leaks_scope : ∃ s,
    run (step (ScopeStorage.numbered Context) request (tracer false)) (System.init noScopes)
        [.captureStackTrace (skipped ++ [mainFrame]) 5 false, .shutdown] = some s ∧
      s.inferred.shutdown = true ∧ s.inferred.lastStackTrace = [] ∧
      s.inferred.world.scopes.attachedOwned = [⟨0, ⟨1, some (.inferred 0)⟩⟩] ∧ ¬ ScopesExact s :=
  ⟨_, rfl, rfl, rfl, rfl, fun h => by cases h.afterShutdown rfl⟩

end OtelDistro.InferredSpans
