import OtelDistro.InferredSpans.SpanParents

/-!
# OtelDistro.InferredSpans.FilteredFrames — the parent of the first new span

When frames of the SDK or the distro are cut off the top of a stack trace, the new frames below them were called before the
current context was set up, so the first one is to hang below the frame on top of those that remain.

* `filterOutAPMFrames_of_split`, `filterOutAPMFrames_of_none`: what is cut off, and the number reported for it.
* `parents_captureStackTrace`: the parent recorded for the first new frame.
* `CaptureRule`: the rule for one capture.  `CutsOneFrame`: the lowest SDK frame is the topmost frame.

`captureRule_iff`: a capture keeps the rule if its trace is not of that kind, and never else: what is reported is the index of
the lowest frame that was cut off, so it is zero when this is the only one.
-/

namespace OtelDistro.InferredSpans

open OtelDistro.Lib

/-! ## The frames that are cut off -/

section Filter

variable (cfg : Config)

/-- A frame of a class of the SDK or of a scoped one. -/
def isAPMFrame (frame : DebugBackTraceFrame) : Bool :=
  match frame.cls with
  | none => false
  | some cls => cfg.scoperPrefix.isPrefixOf cls || (lit "OpenTelemetry\\").isPrefixOf cls

variable {cfg} {stackTrace above below : List DebugBackTraceFrame} {frame : DebugBackTraceFrame}

theorem filterOutAPMFrames_eq (stackTrace : List DebugBackTraceFrame) :
    filterOutAPMFrames cfg stackTrace =
      (((stackTrace.zipIdx.reverse.find? fun p => isAPMFrame cfg p.1).map Prod.snd).elim stackTrace
        fun index => stackTrace.drop (index + 1),
        (stackTrace.zipIdx.reverse.find? fun p => isAPMFrame cfg p.1).map Prod.snd) := by
  refine Prod.ext ?_ rfl
  unfold filterOutAPMFrames
  dsimp only
  split
  · next h => exact (congrArg (Option.elim · stackTrace fun index => stackTrace.drop (index + 1)) h).symm
  · next h => exact (congrArg (Option.elim · stackTrace fun index => stackTrace.drop (index + 1)) h).symm

theorem filterOutAPMFrames_of_none (h : ∀ f ∈ stackTrace, isAPMFrame cfg f = false) :
    filterOutAPMFrames cfg stackTrace = (stackTrace, none) := by
  have hfind : stackTrace.zipIdx.reverse.find? (fun p => isAPMFrame cfg p.1) = none := by
    refine List.find?_eq_none.mpr fun p hp => ?_
    rw [h p.1 (List.fst_mem_of_mem_zipIdx (List.mem_reverse.mp hp))]
    exact Bool.false_ne_true
  rw [filterOutAPMFrames_eq, hfind]
  rfl

/-- All down to the lowest frame of the SDK is cut off; what is reported is this frame's index. -/
theorem filterOutAPMFrames_of_split (hframe : isAPMFrame cfg frame = true) (hbelow : ∀ f ∈ below, isAPMFrame cfg f = false) :
    filterOutAPMFrames cfg (above ++ frame :: below) = (below, some above.length) := by
  have hfind : (above ++ frame :: below).zipIdx.reverse.find? (fun p => isAPMFrame cfg p.1) = some (frame, above.length) := by
    have hnone : (below.zipIdx (above.length + 1)).reverse.find? (fun p => isAPMFrame cfg p.1) = none := by
      refine List.find?_eq_none.mpr fun p hp => ?_
      rw [hbelow p.1 (List.fst_mem_of_mem_zipIdx (List.mem_reverse.mp hp))]
      exact Bool.false_ne_true
    rw [List.zipIdx_append, List.zipIdx_cons, Nat.zero_add, List.reverse_append, List.reverse_cons, List.append_assoc,
      List.find?_append, hnone, Option.none_or]
    exact List.find?_cons_of_pos hframe
  rw [filterOutAPMFrames_eq, hfind]
  simp

/-- Every trace is of one of the two kinds. -/
theorem split_lowest (cfg : Config) (stackTrace : List DebugBackTraceFrame) :
    (∀ f ∈ stackTrace, isAPMFrame cfg f = false) ∨ ∃ above frame below, stackTrace = above ++ frame :: below ∧
      isAPMFrame cfg frame = true ∧ ∀ f ∈ below, isAPMFrame cfg f = false := by
  induction stackTrace with
  | nil => exact .inl fun f hf => absurd hf List.not_mem_nil
  | cons first rest ih =>
    rcases ih with hnone | ⟨above, frame, below, rfl, hframe, hbelow⟩
    · cases hfirst : isAPMFrame cfg first with
      | true => exact .inr ⟨[], first, rest, rfl, hfirst, hnone⟩
      | false => exact .inl (List.forall_mem_cons.mpr ⟨hfirst, hnone⟩)
    · exact .inr ⟨first :: above, frame, below, rfl, hframe, hbelow⟩

end Filter

/-! ## Recorded parents -/

section Parents

variable {X : Type} [DecidableEq X] {S : ScopeStorage Context X} (cfg : Config) (env : Env) (durationMs : ℤ) (top : Bool)

theorem parents_endSpan (w : World S) (span : Span) (endEpochNanos : Option ℤ) :
    (w.endSpan env span endEpochNanos).parents = w.parents ∧
      (w.endSpan env span endEpochNanos).spansStarted = w.spansStarted := by
  unfold World.endSpan
  cases w.ended.lookup span.number with
  | some nanos => exact ⟨rfl, rfl⟩
  | none => cases endEpochNanos <;> exact ⟨rfl, rfl⟩

/-- Ending a frame starts no span and changes no parent. -/
theorem parents_endFrameSpan (w : World S) (frame : ExtendedStackTraceFrame X) (dropSpan : Bool)
    (endEpochNanos : Option ℤ) :
    (w.endFrameSpan cfg env frame dropSpan endEpochNanos).parents = w.parents ∧
      (w.endFrameSpan cfg env frame dropSpan endEpochNanos).spansStarted = w.spansStarted := by
  obtain ⟨w', drop, hdecision, hsame, hparents, -⟩ := dropDecision_eq cfg env w frame dropSpan endEpochNanos
  have hend := parents_endSpan env (w'.detach frame.scope).1 frame.span endEpochNanos
  unfold World.endFrameSpan
  rw [hdecision]
  dsimp only
  rw [← hparents, ← hsame.spansStarted]
  split
  · exact ⟨rfl, rfl⟩
  · split
    · exact ⟨rfl, rfl⟩
    · split
      · exact hend
      · split
        · exact ⟨rfl, rfl⟩
        · exact hend

theorem spansStarted_endOldFrames (w : World S) (old : List (ExtendedStackTraceFrame X)) (st : ReduceState) :
    (w.endOldFrames cfg env durationMs top old st).spansStarted = w.spansStarted := by
  induction old generalizing w st with
  | nil => rfl
  | cons frame below ih =>
    have hsame := (sameSpans_endTime env durationMs top w).1.trans
      (sameSpans_reduceFrame cfg env (w.endTime env durationMs top).1 frame below st)
    rw [endOldFrames_cons, ih]
    exact (parents_endFrameSpan cfg env _ _ _ _).2.trans hsame.spansStarted

/-- The loop over the new frames leaves the parents of earlier spans. -/
theorem parents_startNewFrames (id : ℕ) (trace : List DebugBackTraceFrame) {w : World S}
    (last : List (ExtendedStackTraceFrame X)) (parentContext : Option Context) {n : ℕ} (hn : n < w.spansStarted) :
    (w.startNewFrames cfg env durationMs top id last parentContext trace).1.parents n = w.parents n := by
  induction trace generalizing w last parentContext with
  | nil => rfl
  | cons frame above ih =>
    have hstarted : (w.startFrameSpan env frame durationMs parentContext id).1.parents n = w.parents n :=
      if_neg (Nat.ne_of_lt hn)
    rw [World.startNewFrames]
    by_cases hlast : above = [] ∧ top = true
    · simp only [if_pos hlast]
      rw [(parents_endFrameSpan cfg env _ _ _ _).1, hstarted]
    · simp only [if_neg hlast]
      rw [ih _ none (Nat.lt_succ_of_lt hn), hstarted]

/-- The parent of the first new frame's span. -/
theorem parents_startNewFrames_first (id : ℕ) (frame : DebugBackTraceFrame) (above : List DebugBackTraceFrame) (w : World S)
    (last : List (ExtendedStackTraceFrame X)) (parentContext : Option Context) :
    (w.startNewFrames cfg env durationMs top id last parentContext (frame :: above)).1.parents w.spansStarted =
      (parentContext.getD w.getCurrent).span := by
  have hstarted : (w.startFrameSpan env frame durationMs parentContext id).1.parents w.spansStarted =
      (parentContext.getD w.getCurrent).span := if_pos rfl
  rw [World.startNewFrames]
  by_cases hlast : above = [] ∧ top = true
  · simp only [if_pos hlast]
    rw [(parents_endFrameSpan cfg env _ _ _ _).1, hstarted]
  · simp only [if_neg hlast]
    rw [parents_startNewFrames cfg env durationMs top id above _ none (Nat.lt_succ_self _), hstarted]

/-- The frames a comparison leaves on the stack before it starts new ones. -/
def State.keptFrames (s : State S) (stackTrace : List DebugBackTraceFrame) : List (ExtendedStackTraceFrame X) :=
  s.lastStackTrace.drop
    (s.lastStackTrace.length - getHowManyStackFramesAreIdenticalFromStackBottom stackTrace s.lastStackTrace)

/-- The world when the old frames have been ended. -/
def State.unwound (s : State S) (stackTrace : List DebugBackTraceFrame) : World S :=
  s.world.endOldFrames cfg env durationMs top (s.oldFrames stackTrace) {}

/-- **The parent that is recorded**: the topmost remaining frame's context if the number reported is not zero. -/
theorem parents_captureStackTrace {s : State S} (hs : s.shutdown = false) {backtrace stackTrace : List DebugBackTraceFrame}
    {reported : Option ℕ} (hfilter : filterOutAPMFrames cfg (backtrace.drop FRAMES_TO_SKIP) = (stackTrace, reported))
    (hnew : s.newFrames stackTrace ≠ []) :
    (s.captureStackTrace cfg env backtrace durationMs top).world.parents s.world.spansStarted =
      ((parentContextOf reported (s.keptFrames stackTrace)).getD
        (s.unwound cfg env durationMs top stackTrace).getCurrent).span := by
  obtain ⟨frame, above, hframes⟩ := List.exists_cons_of_ne_nil hnew
  have hstarted : (s.unwound cfg env durationMs top stackTrace).spansStarted = s.world.spansStarted :=
    spansStarted_endOldFrames cfg env durationMs top s.world _ {}
  have hcapture : (s.captureStackTrace cfg env backtrace durationMs top).world =
      ((s.unwound cfg env durationMs top stackTrace).startNewFrames cfg env durationMs top (s.stackTraceId + 1)
        (s.keptFrames stackTrace) (parentContextOf reported (s.keptFrames stackTrace)) (s.newFrames stackTrace)).1 := by
    rw [State.captureStackTrace, if_neg (by simp [hs]), hfilter]
    rfl
  rw [hcapture, hframes, ← hstarted, parents_startNewFrames_first]

end Parents

/-! ## The rule -/

section Rule

variable {X : Type} [DecidableEq X] {S : ScopeStorage Context X} (cfg : Config) (env : Env)

/-- The frame of the SDK that is lowest in the trace is the topmost frame. -/
def CutsOneFrame (stackTrace : List DebugBackTraceFrame) : Prop :=
  ∃ frame below, stackTrace = frame :: below ∧ isAPMFrame cfg frame = true ∧ ∀ f ∈ below, isAPMFrame cfg f = false

/-- The context the first new frame is to hang below. -/
def State.ownParent (s : State S) (removed : Bool) (stackTrace : List DebugBackTraceFrame) (current : Context) : Context :=
  match s.keptFrames stackTrace with
  | [] => current
  | topmost :: _ => if removed then topmost.context else current

/-- What is reported says whether frames were removed, and the first new frame has its own parent. -/
structure CaptureRule (s : State S) (backtrace : List DebugBackTraceFrame) (durationMs : ℤ) (top : Bool) : Prop where
  reports : (∃ n, (filterOutAPMFrames cfg (backtrace.drop FRAMES_TO_SKIP)).2 = some n ∧ n ≠ 0) ↔
    (filterOutAPMFrames cfg (backtrace.drop FRAMES_TO_SKIP)).1 ≠ backtrace.drop FRAMES_TO_SKIP
  parent : s.newFrames (filterOutAPMFrames cfg (backtrace.drop FRAMES_TO_SKIP)).1 ≠ [] →
    (s.captureStackTrace cfg env backtrace durationMs top).world.parents s.world.spansStarted =
      (s.ownParent ((filterOutAPMFrames cfg (backtrace.drop FRAMES_TO_SKIP)).1 ≠ backtrace.drop FRAMES_TO_SKIP)
        (filterOutAPMFrames cfg (backtrace.drop FRAMES_TO_SKIP)).1
        (s.unwound cfg env durationMs top (filterOutAPMFrames cfg (backtrace.drop FRAMES_TO_SKIP)).1).getCurrent).span

variable {cfg env} {s : State S} {backtrace : List DebugBackTraceFrame} {durationMs : ℤ} {top : Bool}

/-- A number that tells whether frames were removed leads to the right parent. -/
theorem parentContextOf_getD {stackTrace : List DebugBackTraceFrame} {reported : Option ℕ} {removed : Bool}
    (h : (∃ n, reported = some n ∧ n ≠ 0) ↔ removed = true) (current : Context) :
    (parentContextOf reported (s.keptFrames stackTrace)).getD current = s.ownParent removed stackTrace current := by
  unfold parentContextOf State.ownParent
  cases hk : s.keptFrames stackTrace with
  | nil =>
    cases reported with
    | none => rfl
    | some n => by_cases hn : n ≠ 0 <;> simp [hn]
  | cons topmost below =>
    cases reported with
    | none =>
      have hnot : ¬ removed = true := fun hr => by obtain ⟨n, hn, -⟩ := h.mpr hr; cases hn
      exact (if_neg hnot).symm
    | some n =>
      by_cases hn : n ≠ 0
      · simp only [if_pos hn, if_pos (h.mp ⟨n, rfl, hn⟩)]
        rfl
      · have hnot : ¬ removed = true := fun hr => by
          obtain ⟨m, hm, hne⟩ := h.mpr hr
          cases hm
          exact hn hne
        simp only [if_neg hn, if_neg hnot]
        rfl

/-- **A capture keeps the rule** exactly when its trace is not cut below its topmost frame. -/
theorem captureRule_iff (hs : s.shutdown = false) :
    CaptureRule cfg env s backtrace durationMs top ↔ ¬ CutsOneFrame cfg (backtrace.drop FRAMES_TO_SKIP) := by
  constructor
  · rintro ⟨hreports, -⟩ ⟨frame, below, htrace, hframe, hbelow⟩
    have hfilter : filterOutAPMFrames cfg (backtrace.drop FRAMES_TO_SKIP) = (below, some 0) := by
      rw [htrace]
      exact @filterOutAPMFrames_of_split cfg [] below frame hframe hbelow
    rw [hfilter, htrace] at hreports
    obtain ⟨n, hn, hne⟩ := hreports.mpr (List.cons_ne_self frame below).symm
    cases hn
    exact hne rfl
  · intro hcut
    have hreports : (∃ n, (filterOutAPMFrames cfg (backtrace.drop FRAMES_TO_SKIP)).2 = some n ∧ n ≠ 0) ↔
        (filterOutAPMFrames cfg (backtrace.drop FRAMES_TO_SKIP)).1 ≠ backtrace.drop FRAMES_TO_SKIP := by
      rcases split_lowest cfg (backtrace.drop FRAMES_TO_SKIP) with hnone | ⟨above, frame, below, htrace, hframe, hbelow⟩
      · rw [filterOutAPMFrames_of_none hnone]
        exact iff_of_false (fun ⟨n, hn, _⟩ => by cases hn) fun h => h rfl
      · have hne : above ≠ [] := fun h => hcut ⟨frame, below, by rw [htrace, h]; rfl, hframe, hbelow⟩
        rw [htrace, filterOutAPMFrames_of_split hframe hbelow]
        refine iff_of_true ⟨above.length, rfl, fun h => hne (List.eq_nil_of_length_eq_zero h)⟩ fun h => ?_
        have hlen : below.length = (above ++ frame :: below).length := congrArg List.length h
        rw [List.length_append, List.length_cons] at hlen
        omega
    refine ⟨hreports, fun hnew => ?_⟩
    rw [parents_captureStackTrace cfg env durationMs top hs rfl hnew]
    exact congrArg Context.span (parentContextOf_getD (hreports.trans decide_eq_true_iff.symm) _)

/-! ## Runs -/

/-- A capture before the shutdown keeps the rule. -/
def KeepsCaptureRule (cfg : Config) (env : Env) (sys : System S) : Action X → Prop
  | .captureStackTrace backtrace durationMs top =>
    sys.inferred.shutdown = false → CaptureRule cfg env sys.inferred backtrace durationMs top
  | _ => True

/-- A capture before the shutdown does not cut off the topmost frame only. -/
def CutsNotOneFrame (cfg : Config) (sys : System S) : Action X → Prop
  | .captureStackTrace backtrace _ _ => sys.inferred.shutdown = false → ¬ CutsOneFrame cfg (backtrace.drop FRAMES_TO_SKIP)
  | _ => True

theorem keepsCaptureRule_iff {sys : System S} {a : Action X} : KeepsCaptureRule cfg env sys a ↔ CutsNotOneFrame cfg sys a := by
  cases a with
  | captureStackTrace backtrace durationMs top => exact forall_congr' captureRule_iff
  | shutdown => exact .rfl
  | appAttach context => exact .rfl
  | appDetach scope => exact .rfl

/-- **The parents of first new frames**: the captures of a run all keep the rule if none of them cuts off the topmost frame
only, and not otherwise. -/
theorem captures_keep_rule_iff {st : S.St} {acts : List (Action X)} {sys : System S} :
    Path (step S cfg env) (KeepsCaptureRule cfg env) (System.init st) acts sys ↔
      Path (step S cfg env) (CutsNotOneFrame cfg) (System.init st) acts sys :=
  ⟨Path.mono fun _ _ => keepsCaptureRule_iff.mp, Path.mono fun _ _ => keepsCaptureRule_iff.mpr⟩

end Rule

def sdkFrame : DebugBackTraceFrame := ⟨lit "getCurrent", some 3, none, some (lit "OpenTelemetry\\Context\\Context"), some (lit "::")⟩

/-- The application attaches a context, and an SDK function is on top of the next stack trace: one frame is cut off, zero is
reported, and the new frame hangs below the application's span and not below the frame of `main`. -/
theorem oneFrame_cut_unreported : ∃ sys,
    run (step (ScopeStorage.numbered Context) request (tracer true)) (System.init noScopes)
        [.captureStackTrace (skipped ++ [mainFrame]) 5 false, .appAttach ⟨9, some (.foreign 7)⟩] = some sys ∧
      filterOutAPMFrames request [sdkFrame, workFrame, mainFrame] = ([workFrame, mainFrame], some 0) ∧
      (sys.inferred.captureStackTrace request (tracer true) (skipped ++ [sdkFrame, workFrame, mainFrame]) 5 false).world.parents
        1 = some (.foreign 7) ∧
      ¬ CaptureRule request (tracer true) sys.inferred (skipped ++ [sdkFrame, workFrame, mainFrame]) 5 false := by
  refine ⟨_, rfl, by decide, by decide, fun rule => ?_⟩
  obtain ⟨n, hn, hne⟩ := rule.reports.mpr (by decide)
  have hzero : (filterOutAPMFrames request [sdkFrame, workFrame, mainFrame]).2 = some 0 := by decide
  obtain rfl : n = 0 := Option.some.inj (hn.symm.trans hzero)
  exact hne rfl

end OtelDistro.InferredSpans
