import OtelDistro.InferredSpans.ScopeDiscipline

/-!
# OtelDistro.InferredSpans.StackDiff — what one comparison of stack traces does

* `World.Framed`: the frames on the stack, their scopes and contexts, and the spans of frames that are gone: every span
  started is on the stack, has ended or was dropped, once.
* `StackDiff`: the longest common bottom part of the two traces keeps its frames, the other old frames are closed, the new
  ones are started.
* `stack_diff`: every comparison in a run does this, and no span is left after the shutdown.
-/

namespace OtelDistro.InferredSpans

open OtelDistro.Lib

variable {X : Type} [DecidableEq X] {S : ScopeStorage Context X}

/-! ## Frames and their contexts -/

/-- The context is not one of an inferred span. -/
def Context.Foreign (c : Context) : Prop := ∀ n, c.span ≠ some (.inferred n)

/-- The frames' scopes are attached, with the contexts of their spans; other scopes have foreign contexts. -/
structure World.Scoped (w : World S) (frames : List (ExtendedStackTraceFrame X)) (others : List X) : Prop where
  holds : w.scopes.Holds (frames.map fun frame => frame.scope) others
  foreign : ∀ x ∈ S.attached w.scopes.st, x ∉ w.scopes.owned → (S.contextOf x).Foreign
  contexts : ∀ frame ∈ frames, S.contextOf frame.scope = frame.context ∧
    frame.context.span = some (.inferred frame.span.number)

variable {w w' : World S} {frame : ExtendedStackTraceFrame X} {frames kept : List (ExtendedStackTraceFrame X)}
  {others : List X}

theorem World.Scoped.of_scopes_eq (h : w.Scoped frames others) (heq : w'.scopes = w.scopes) :
    w'.Scoped frames others := by
  obtain ⟨hholds, hforeign, hcontexts⟩ := h
  rw [← heq] at hholds hforeign
  exact ⟨hholds, hforeign, hcontexts⟩

/-- The current context is that of the top frame, if it is one of an inferred span. -/
theorem World.Scoped.current (h : w.Scoped frames others) {n : ℕ} (hn : w.getCurrent.span = some (.inferred n)) :
    ∃ top below, frames = top :: below ∧ top.span.number = n := by
  have hattached := h.holds.attached
  rw [Client.attachedOwned] at hattached
  rw [World.getCurrent] at hn
  cases hst : S.attached w.scopes.st with
  | nil =>
    rw [hst] at hn
    cases hn
  | cons x rest =>
    rw [hst] at hn hattached
    by_cases hx : x ∈ w.scopes.owned
    · rw [List.filter_cons_of_pos (by simpa using hx)] at hattached
      cases frames with
      | nil => cases hattached
      | cons top below =>
        obtain ⟨hcontext, hspan⟩ := h.contexts top List.mem_cons_self
        have hx' : x = top.scope := (List.cons.inj hattached).1
        rw [hx', List.head?_cons, Option.map_some, Option.getD_some, hcontext, hspan, Option.some.injEq,
          SpanRef.inferred.injEq] at hn
        exact ⟨top, below, rfl, hn⟩
    · exact absurd hn (h.foreign x (hst ▸ List.mem_cons_self) hx n)

theorem World.Scoped.detach (h : w.Scoped (frame :: frames) others) : (w.detach frame.scope).1.Scoped frames others where
  holds := h.holds.detach
  foreign x hx hown := by
    have hattached : S.attached (w.detach frame.scope).1.scopes.st = (S.attached w.scopes.st).erase frame.scope :=
      S.attached_detach w.scopes.st frame.scope
    rw [hattached] at hx
    refine h.foreign x (List.mem_of_mem_erase hx) fun hmem => hown ?_
    exact (w.scopes.owned_detach frame.scope).symm ▸ hmem
  contexts f hf := h.contexts f (List.mem_cons_of_mem frame hf)

theorem World.Scoped.startFrameSpan (env : Env) (h : w.Scoped frames others) (frame : DebugBackTraceFrame)
    (durationMs : ℤ) (parentContext : Option Context) (stackTraceId : ℕ) :
    (w.startFrameSpan env frame durationMs parentContext stackTraceId).1.Scoped
      ((w.startFrameSpan env frame durationMs parentContext stackTraceId).2 :: frames) others where
  holds := h.holds.attach ⟨w.contexts, some (.inferred w.spansStarted)⟩
  foreign x hx hown := by
    let context : Context := ⟨w.contexts, some (.inferred w.spansStarted)⟩
    have howned : x ∉ (w.scopes.attach context).1.owned := hown
    rw [Client.owned_attach, List.mem_append, List.mem_singleton, not_or] at howned
    have hattached : x ∈ S.attached (S.attach w.scopes.st context).1 := hx
    rw [S.attached_attach, List.mem_cons] at hattached
    exact h.foreign x (hattached.resolve_left howned.2) howned.1
  contexts f hf := by
    rcases List.mem_cons.mp hf with rfl | hf
    · exact ⟨S.contextOf_attach w.scopes.st _, rfl⟩
    · exact h.contexts f hf

/-! ## Accounting for spans -/

def World.endedSpans (w : World S) : List ℕ := w.ended.map Prod.fst

/-- The numbers of the frames' spans. -/
def spanNumbers (frames : List (ExtendedStackTraceFrame X)) : List ℕ := frames.map fun frame => frame.span.number

/-- Every span that was started is on the stack, or it has been ended or dropped, once. -/
structure World.Framed (w : World S) (frames : List (ExtendedStackTraceFrame X)) (others : List X) : Prop where
  scopes : w.Scoped frames others
  sdk : ∀ frame ∈ frames, frame.span.isSdkSpan = true
  numbers : (w.endedSpans ++ w.dropped ++ spanNumbers frames).Perm (List.range w.spansStarted)

/-- The spans `closed` have been ended or dropped between the two worlds, no other. -/
def World.Closed (w w' : World S) (closed : List ℕ) : Prop :=
  ∃ ended dropped, w'.endedSpans = ended ++ w.endedSpans ∧ w'.dropped = dropped ++ w.dropped ∧
    (ended ++ dropped).Perm closed

theorem World.Closed.nil (w : World S) : w.Closed w [] := ⟨[], [], rfl, rfl, .refl _⟩

theorem World.Closed.trans {w'' : World S} {closed closed' : List ℕ} (h : w.Closed w' closed)
    (h' : w'.Closed w'' closed') : w.Closed w'' (closed ++ closed') := by
  obtain ⟨ended, dropped, hended, hdropped, hperm⟩ := h
  obtain ⟨ended', dropped', hended', hdropped', hperm'⟩ := h'
  refine ⟨ended' ++ ended, dropped' ++ dropped, ?_, ?_, ?_⟩
  · rw [hended', hended, List.append_assoc]
  · rw [hdropped', hdropped, List.append_assoc]
  · refine .trans ?_ (hperm.append hperm')
    rw [List.perm_iff_count]
    intro n
    simp only [List.count_append]
    omega

/-- Closing spans of frames that leave the stack keeps the account. -/
theorem numbers_of_closed
    (h : (w.endedSpans ++ w.dropped ++ spanNumbers (frames ++ kept)).Perm (List.range w.spansStarted))
    (hclosed : w.Closed w' (spanNumbers frames)) (hstarted : w'.spansStarted = w.spansStarted) :
    (w'.endedSpans ++ w'.dropped ++ spanNumbers kept).Perm (List.range w'.spansStarted) := by
  obtain ⟨ended, dropped, hended, hdropped, hperm⟩ := hclosed
  rw [hstarted, hended, hdropped]
  refine .trans ?_ h
  rw [spanNumbers, spanNumbers, List.map_append, List.perm_iff_count]
  intro n
  have hcount := hperm.count_eq n
  simp only [List.count_append, spanNumbers] at hcount ⊢
  omega

/-! ## Ending a frame -/

variable (cfg : Config) (env : Env)

/-- Reading the duration of a span reads the clock at most. -/
theorem getDuration_eq (w : World S) (span : Span) :
    ∃ k, (w.getDuration env span).1 = { w with clockReadings := k } := by
  unfold World.getDuration
  cases w.ended.lookup span.number with
  | some nanos => exact ⟨w.clockReadings, rfl⟩
  | none => exact ⟨_, rfl⟩

theorem shouldDropTooShortSpan_eq (w : World S) (frame : ExtendedStackTraceFrame X) (endEpochNanos : Option ℤ) :
    ∃ k, (w.shouldDropTooShortSpan cfg env frame endEpochNanos).1 = { w with clockReadings := k } := by
  unfold World.shouldDropTooShortSpan
  by_cases hmin : cfg.minSpanDuration ≤ 0
  · rw [if_pos hmin]
    exact ⟨w.clockReadings, rfl⟩
  · rw [if_neg hmin]
    by_cases hsdk : frame.span.isSdkSpan = false
    · rw [if_pos hsdk]
      exact ⟨w.clockReadings, rfl⟩
    · rw [if_neg hsdk]
      cases endEpochNanos with
      | none => exact getDuration_eq env w frame.span
      | some nanos =>
        by_cases hn : nanos ≠ 0
        · simp only [if_pos hn]
          exact ⟨w.clockReadings, rfl⟩
        · simp only [if_neg hn]
          exact getDuration_eq env w frame.span

/-- One span has been dropped or ended; parents and the number of spans are the same. -/
structure World.ClosesOne (w w' : World S) (n : ℕ) (drop : Bool) : Prop where
  spansStarted : w'.spansStarted = w.spansStarted
  parents : w'.parents = w.parents
  ended : w'.endedSpans = if drop then w.endedSpans else n :: w.endedSpans
  dropped : w'.dropped = if drop then n :: w.dropped else w.dropped

theorem World.ClosesOne.closed {n : ℕ} {drop : Bool} (h : w.ClosesOne w' n drop) : w.Closed w' [n] := by
  cases drop with
  | true => exact ⟨[], [n], h.ended, h.dropped, .refl _⟩
  | false => exact ⟨[n], [], h.ended, h.dropped, .refl _⟩

theorem World.ClosesOne.endSpan {span : Span} (hopen : span.number ∉ w.endedSpans) (endEpochNanos : Option ℤ) :
    w.ClosesOne (w.endSpan env span endEpochNanos) span.number false := by
  have hlookup : w.ended.lookup span.number = none := by
    rw [List.lookup_eq_none_iff]
    intro p hp
    exact bne_iff_ne.mpr fun h => hopen (h ▸ List.mem_map_of_mem hp)
  unfold World.endSpan
  rw [hlookup]
  cases endEpochNanos <;> exact ⟨rfl, rfl, rfl, rfl⟩

/-- No span has been started, ended or dropped, and no scope attached or detached. -/
structure World.SameSpans (w w' : World S) : Prop where
  scopes : w'.scopes = w.scopes
  spansStarted : w'.spansStarted = w.spansStarted
  ended : w'.endedSpans = w.endedSpans
  dropped : w'.dropped = w.dropped

/-- The decision whether a span is dropped. -/
theorem dropDecision_eq (w : World S) (frame : ExtendedStackTraceFrame X) (dropSpan : Bool)
    (endEpochNanos : Option ℤ) : ∃ w' drop,
      (if dropSpan = false then w.shouldDropTooShortSpan cfg env frame endEpochNanos else (w, dropSpan)) = (w', drop) ∧
        w.SameSpans w' ∧ w'.parents = w.parents ∧ (cfg.minSpanDuration ≤ 0 → drop = dropSpan) := by
  cases dropSpan with
  | true => exact ⟨w, true, rfl, ⟨rfl, rfl, rfl, rfl⟩, rfl, fun _ => rfl⟩
  | false =>
    obtain ⟨k, hk⟩ := shouldDropTooShortSpan_eq cfg env w frame endEpochNanos
    refine ⟨(w.shouldDropTooShortSpan cfg env frame endEpochNanos).1,
      (w.shouldDropTooShortSpan cfg env frame endEpochNanos).2, if_pos rfl, ?_, ?_, fun hmin => ?_⟩
    · rw [hk]
      exact ⟨rfl, rfl, rfl, rfl⟩
    · rw [hk]
    · unfold World.shouldDropTooShortSpan
      rw [if_pos hmin]

/-- The context of the frame is not current after its scope is detached, so a span that is not dropped is ended. -/
theorem closesOne_endFrameSpan (hsdk : frame.span.isSdkSpan = true) (hopen : frame.span.number ∉ w.endedSpans)
    (hnext : ∀ w' : World S, w'.scopes = (w.detach frame.scope).1.scopes → S.contextOf frame.scope ≠ w'.getCurrent)
    (dropSpan : Bool) (endEpochNanos : Option ℤ) :
    ∃ drop, w.ClosesOne (w.endFrameSpan cfg env frame dropSpan endEpochNanos) frame.span.number drop ∧
      (cfg.minSpanDuration ≤ 0 → drop = dropSpan) := by
  obtain ⟨w', drop, hdecision, hsame, hparents, hdrop⟩ := dropDecision_eq cfg env w frame dropSpan endEpochNanos
  refine ⟨drop, ?_, hdrop⟩
  have hne : ¬ frame.span.isSdkSpan = false := by simp [hsdk]
  have hscopes : (w'.detach frame.scope).1.scopes = (w.detach frame.scope).1.scopes :=
    congrArg (fun c => (c.detach frame.scope).1) hsame.scopes
  unfold World.endFrameSpan
  rw [hdecision]
  simp only [if_neg hne]
  cases drop with
  | true => exact ⟨hsame.spansStarted, hparents, hsame.ended, congrArg _ hsame.dropped⟩
  | false =>
    have hend : w.ClosesOne ((w'.detach frame.scope).1.endSpan env frame.span endEpochNanos) frame.span.number false := by
      obtain ⟨hstarted, hparents', hended, hdropped⟩ :=
        World.ClosesOne.endSpan (w := (w'.detach frame.scope).1) env (hsame.ended ▸ hopen) endEpochNanos
      exact ⟨hstarted.trans hsame.spansStarted, hparents'.trans hparents,
        hended.trans (congrArg (frame.span.number :: ·) hsame.ended), hdropped.trans hsame.dropped⟩
    rw [if_neg Bool.false_ne_true]
    by_cases hflag : (w'.detach frame.scope).2 = true
    · simp only [if_pos hflag]
      exact hend
    · rw [if_neg hflag, if_neg (hnext _ hscopes)]
      exact hend

/-- Ending the top frame closes its span: it is dropped if it should be, or it is too short, and else ended. -/
theorem World.Framed.endFrameSpan (h : w.Framed (frame :: kept) others) (dropSpan : Bool) (endEpochNanos : Option ℤ) :
    (w.endFrameSpan cfg env frame dropSpan endEpochNanos).Framed kept others ∧
      ∃ drop, w.ClosesOne (w.endFrameSpan cfg env frame dropSpan endEpochNanos) frame.span.number drop ∧
        (cfg.minSpanDuration ≤ 0 → drop = dropSpan) := by
  have hsdk := h.sdk frame List.mem_cons_self
  have hnodup : (w.endedSpans ++ (w.dropped ++ spanNumbers (frame :: kept))).Nodup := by
    rw [← List.append_assoc]
    exact h.numbers.nodup_iff.mpr List.nodup_range
  rw [List.nodup_append, List.nodup_append, spanNumbers, List.map_cons, List.nodup_cons] at hnodup
  obtain ⟨-, ⟨-, ⟨hnumber, -⟩, -⟩, hended⟩ := hnodup
  have hopen : frame.span.number ∉ w.endedSpans := fun hmem =>
    hended _ hmem _ (List.mem_append_right _ List.mem_cons_self) rfl
  obtain ⟨drop, hcloses, hdrop⟩ := closesOne_endFrameSpan cfg env hsdk hopen (fun w' hw' heq => by
    obtain ⟨hcontext, hspan⟩ := h.scopes.contexts frame List.mem_cons_self
    have hcurrent : w'.getCurrent.span = some (.inferred frame.span.number) := by rw [← heq, hcontext, hspan]
    obtain ⟨top, below, rfl, htop⟩ := (h.scopes.detach.of_scopes_eq hw').current hcurrent
    exact hnumber (htop ▸ List.mem_map_of_mem List.mem_cons_self)) dropSpan endEpochNanos
  refine ⟨⟨h.scopes.detach.of_scopes_eq (detach_keeps_endFrameSpan cfg env hsdk w dropSpan endEpochNanos).scopes,
    fun f hf => h.sdk f (List.mem_cons_of_mem frame hf), ?_⟩, drop, hcloses, hdrop⟩
  exact @numbers_of_closed X _ S w _ [frame] kept h.numbers hcloses.closed hcloses.spansStarted

/-! ## Ending the old frames -/

theorem World.Framed.of_sameSpans (h : w.Framed frames others) (hsame : w.SameSpans w') : w'.Framed frames others := by
  refine ⟨h.scopes.of_scopes_eq hsame.scopes, h.sdk, ?_⟩
  rw [hsame.ended, hsame.dropped, hsame.spansStarted]
  exact h.numbers

theorem World.SameSpans.closed (h : w.SameSpans w') : w.Closed w' [] :=
  ⟨[], [], h.ended, h.dropped, .refl _⟩

theorem sameSpans_shouldReduceFrame (w : World S) (frame : ExtendedStackTraceFrame X)
    (below : List (ExtendedStackTraceFrame X)) (st : ReduceState) :
    w.SameSpans (w.shouldReduceFrame env frame below st).1 := by
  unfold World.shouldReduceFrame
  dsimp only
  generalize (if decide (st.previousFrameStackTraceId = frame.stackTraceId) = true then none
    else w.lastSpanParent frame.stackTraceId below) = parent
  cases parent with
  | none => exact ⟨rfl, rfl, rfl, rfl⟩
  | some lastSpanParent =>
    by_cases hsdk : frame.span.isSdkSpan = false
    · simp only [if_pos hsdk]
      exact ⟨rfl, rfl, rfl, rfl⟩
    · simp only [if_neg hsdk]
      exact ⟨rfl, rfl, rfl, rfl⟩

variable (durationMs : ℤ) (top : Bool)

/-- The time the old frames end at, if the top frame is an internal function. -/
def World.endTime (w : World S) : World S × Option ℤ :=
  if top then ((w.getStartTime env durationMs).1, some (w.getStartTime env durationMs).2) else (w, none)

/-- The decision to reduce a frame. -/
def World.reduceFrame (w : World S) (frame : ExtendedStackTraceFrame X) (below : List (ExtendedStackTraceFrame X))
    (st : ReduceState) : World S × Bool × ReduceState :=
  if cfg.spanReductionEnabled then w.shouldReduceFrame env frame below st else (w, false, st)

/-- One round of `endOldFrames`. -/
def World.endOldFrame (w : World S) (frame : ExtendedStackTraceFrame X) (below : List (ExtendedStackTraceFrame X))
    (st : ReduceState) : World S × ReduceState :=
  let reduced := (w.endTime env durationMs top).1.reduceFrame cfg env frame below st
  (reduced.1.endFrameSpan cfg env frame reduced.2.1 (w.endTime env durationMs top).2, reduced.2.2)

theorem endOldFrames_cons (w : World S) (frame : ExtendedStackTraceFrame X) (below : List (ExtendedStackTraceFrame X))
    (st : ReduceState) : w.endOldFrames cfg env durationMs top (frame :: below) st =
      (w.endOldFrame cfg env durationMs top frame below st).1.endOldFrames cfg env durationMs top below
        (w.endOldFrame cfg env durationMs top frame below st).2 := rfl

theorem sameSpans_endTime (w : World S) :
    w.SameSpans (w.endTime env durationMs top).1 ∧ (w.endTime env durationMs top).1.parents = w.parents := by
  cases top with
  | true => exact ⟨⟨rfl, rfl, rfl, rfl⟩, rfl⟩
  | false => exact ⟨⟨rfl, rfl, rfl, rfl⟩, rfl⟩

theorem sameSpans_reduceFrame (w : World S) (frame : ExtendedStackTraceFrame X)
    (below : List (ExtendedStackTraceFrame X)) (st : ReduceState) :
    w.SameSpans (w.reduceFrame cfg env frame below st).1 := by
  rw [World.reduceFrame]
  split
  · exact sameSpans_shouldReduceFrame env w frame below st
  · exact ⟨rfl, rfl, rfl, rfl⟩

theorem World.SameSpans.trans {w'' : World S} (h : w.SameSpans w') (h' : w'.SameSpans w'') : w.SameSpans w'' :=
  ⟨h'.scopes.trans h.scopes, h'.spansStarted.trans h.spansStarted, h'.ended.trans h.ended, h'.dropped.trans h.dropped⟩

/-- A round closes the frame's span: after the decision, with the parents this one leaves. -/
theorem World.Framed.endOldFrame (h : w.Framed (frame :: kept) others) (below : List (ExtendedStackTraceFrame X))
    (st : ReduceState) :
    (w.endOldFrame cfg env durationMs top frame below st).1.Framed kept others ∧
      ∃ drop, w.SameSpans ((w.endTime env durationMs top).1.reduceFrame cfg env frame below st).1 ∧
        ((w.endTime env durationMs top).1.reduceFrame cfg env frame below st).1.ClosesOne
          (w.endOldFrame cfg env durationMs top frame below st).1 frame.span.number drop ∧
        (cfg.minSpanDuration ≤ 0 →
          drop = ((w.endTime env durationMs top).1.reduceFrame cfg env frame below st).2.1) := by
  have hsame := (sameSpans_endTime env durationMs top w).1.trans
    (sameSpans_reduceFrame cfg env (w.endTime env durationMs top).1 frame below st)
  obtain ⟨hframed, drop, hcloses, hdrop⟩ := (h.of_sameSpans hsame).endFrameSpan cfg env
    ((w.endTime env durationMs top).1.reduceFrame cfg env frame below st).2.1 (w.endTime env durationMs top).2
  exact ⟨hframed, drop, hsame, hcloses, hdrop⟩

/-- The loop over the old frames closes their spans. -/
theorem World.Framed.endOldFrames (h : w.Framed (frames ++ kept) others) (st : ReduceState) :
    (w.endOldFrames cfg env durationMs top frames st).Framed kept others ∧
      w.Closed (w.endOldFrames cfg env durationMs top frames st) (spanNumbers frames) ∧
      (w.endOldFrames cfg env durationMs top frames st).spansStarted = w.spansStarted := by
  induction frames generalizing w st with
  | nil => exact ⟨h, .nil w, rfl⟩
  | cons frame below ih =>
    obtain ⟨hframed, drop, hsame, hcloses, -⟩ := World.Framed.endOldFrame cfg env durationMs top h below st
    obtain ⟨hkept, hclosed, hstarted⟩ := ih hframed (w.endOldFrame cfg env durationMs top frame below st).2
    rw [endOldFrames_cons]
    exact ⟨hkept, (hsame.closed.trans hcloses.closed).trans hclosed,
      hstarted.trans (hcloses.spansStarted.trans hsame.spansStarted)⟩

/-! ## Starting the new frames -/

/-- `started`, from the top, are frames with new spans for the frames of a trace. -/
structure StartedFor (w w' : World S) (started : List (ExtendedStackTraceFrame X)) (trace : List DebugBackTraceFrame) :
    Prop where
  projected : started.map (fun frame => frame.toDebugBackTraceFrame) = trace
  numbers : spanNumbers started = (List.range' w.spansStarted trace.length).reverse
  spansStarted : w'.spansStarted = w.spansStarted + trace.length

/-- What is kept of new frames: not the internal function at the top. -/
def keptNew (top : Bool) (started : List (ExtendedStackTraceFrame X)) : List (ExtendedStackTraceFrame X) :=
  if top then started.tail else started

/-- What is closed of new frames at once. -/
def closedNew (top : Bool) (started : List (ExtendedStackTraceFrame X)) : List (ExtendedStackTraceFrame X) :=
  if top then started.take 1 else []

omit [DecidableEq X] in
theorem keptNew_append {started : List (ExtendedStackTraceFrame X)} (hne : started ≠ [])
    (below : List (ExtendedStackTraceFrame X)) : keptNew top (started ++ below) = keptNew top started ++ below := by
  rw [keptNew, keptNew]
  split
  · exact List.tail_append_of_ne_nil hne
  · rfl

omit [DecidableEq X] in
theorem closedNew_append {started : List (ExtendedStackTraceFrame X)} (hne : started ≠ [])
    (below : List (ExtendedStackTraceFrame X)) : closedNew top (started ++ below) = closedNew top started := by
  rw [closedNew, closedNew]
  split
  · exact List.take_append_of_le_length (List.length_pos_iff.mpr hne)
  · rfl

omit [DecidableEq X] in
/-- A frame below the started ones, unless it is the internal function at the top itself. -/
theorem keptNew_concat {started : List (ExtendedStackTraceFrame X)} (h : started = [] → top = false)
    (newFrame : ExtendedStackTraceFrame X) : keptNew top (started ++ [newFrame]) = keptNew top started ++ [newFrame] ∧
      closedNew top (started ++ [newFrame]) = closedNew top started := by
  by_cases hne : started = []
  · subst hne
    rw [h rfl]
    exact ⟨rfl, rfl⟩
  · exact ⟨keptNew_append top hne _, closedNew_append top hne _⟩

/-- The span that was started first is the lowest one. -/
theorem StartedFor.concat {w' : World S} {started : List (ExtendedStackTraceFrame X)} {trace : List DebugBackTraceFrame}
    {w₁ : World S} {newFrame : ExtendedStackTraceFrame X} (h : StartedFor w₁ w' started trace)
    (hnumber : newFrame.span.number = w.spansStarted) (hstarted : w₁.spansStarted = w.spansStarted + 1) :
    StartedFor w w' (started ++ [newFrame]) (trace ++ [newFrame.toDebugBackTraceFrame]) := by
  refine ⟨?_, ?_, ?_⟩
  · rw [List.map_append, h.projected, List.map_singleton]
  · have hnumbers := h.numbers
    rw [spanNumbers] at hnumbers
    rw [spanNumbers, List.map_append, hnumbers, List.map_singleton, hnumber, hstarted, List.length_append,
      List.length_singleton, List.range'_succ, List.reverse_cons]
  · rw [h.spansStarted, hstarted, List.length_append, List.length_singleton]
    omega

theorem World.Framed.startFrameSpan (h : w.Framed frames others) (hsdk : ∀ n, env.isSdkSpan n = true)
    (frame : DebugBackTraceFrame) (parentContext : Option Context) (stackTraceId : ℕ) :
    (w.startFrameSpan env frame durationMs parentContext stackTraceId).1.Framed
      ((w.startFrameSpan env frame durationMs parentContext stackTraceId).2 :: frames) others where
  scopes := h.scopes.startFrameSpan env frame durationMs parentContext stackTraceId
  sdk f hf := by
    rcases List.mem_cons.mp hf with rfl | hf
    · exact hsdk w.spansStarted
    · exact h.sdk f hf
  numbers := by
    show (w.endedSpans ++ w.dropped ++ w.spansStarted :: spanNumbers frames).Perm (List.range (w.spansStarted + 1))
    rw [List.range_succ]
    exact (List.perm_middle.trans (h.numbers.cons _)).trans (List.perm_append_singleton _ _).symm

/-- The loop over the new frames starts a span for each, and closes the one of an internal function at the top. -/
theorem World.Framed.startNewFrames (hsdk : ∀ n, env.isSdkSpan n = true) (stackTraceId : ℕ)
    {trace : List DebugBackTraceFrame} (h : w.Framed frames others) (parentContext : Option Context) :
    ∃ started, StartedFor w (w.startNewFrames cfg env durationMs top stackTraceId frames parentContext trace).1 started
        trace.reverse ∧
      (w.startNewFrames cfg env durationMs top stackTraceId frames parentContext trace).2 =
        keptNew top started ++ frames ∧
      (w.startNewFrames cfg env durationMs top stackTraceId frames parentContext trace).1.Framed
        (keptNew top started ++ frames) others ∧
      w.Closed (w.startNewFrames cfg env durationMs top stackTraceId frames parentContext trace).1
        (spanNumbers (closedNew top started)) := by
  induction trace generalizing w frames parentContext with
  | nil =>
    refine ⟨[], ⟨rfl, rfl, rfl⟩, ?_, ?_, ?_⟩
    · cases top <;> rfl
    · cases top <;> exact h
    · cases top <;> exact .nil w
  | cons frame above ih =>
    have hframed := h.startFrameSpan env durationMs hsdk frame parentContext stackTraceId
    have hproj : (w.startFrameSpan env frame durationMs parentContext stackTraceId).2.toDebugBackTraceFrame = frame := rfl
    have hnumber : (w.startFrameSpan env frame durationMs parentContext stackTraceId).2.span.number = w.spansStarted := rfl
    have hstarted : (w.startFrameSpan env frame durationMs parentContext stackTraceId).1.spansStarted =
      w.spansStarted + 1 := rfl
    have hclosed : w.Closed (w.startFrameSpan env frame durationMs parentContext stackTraceId).1 [] :=
      ⟨[], [], rfl, rfl, .refl _⟩
    unfold World.startNewFrames
    generalize w.startFrameSpan env frame durationMs parentContext stackTraceId = result
      at hframed hproj hnumber hstarted hclosed ⊢
    obtain ⟨w', newFrame⟩ := result
    simp only at hframed hproj hnumber hstarted hclosed ⊢
    by_cases hlast : above = [] ∧ top = true
    · -- the internal function at the top ends at once
      obtain ⟨rfl, rfl⟩ := hlast
      rw [if_pos ⟨rfl, rfl⟩]
      obtain ⟨hended, drop, hcloses, -⟩ := hframed.endFrameSpan cfg env false none
      refine ⟨[newFrame], ⟨?_, ?_, ?_⟩, rfl, hended, ?_⟩
      · rw [List.map_singleton, hproj, List.reverse_singleton]
      · rw [spanNumbers, List.map_singleton, hnumber]
        rfl
      · rw [hcloses.spansStarted, hstarted]
        rfl
      · rw [closedNew, if_pos rfl, spanNumbers, List.take_succ_cons, List.take_zero, List.map_singleton]
        exact hclosed.trans hcloses.closed
    · rw [if_neg hlast]
      obtain ⟨started, hfor, hlist, hkept, hclosed'⟩ := ih hframed none
      have habove : started = [] → top = false := by
        rintro rfl
        have hlen := congrArg List.length hfor.projected
        rw [List.map_nil, List.length_nil, List.length_reverse] at hlen
        exact Bool.eq_false_iff.mpr fun ht => hlast ⟨List.eq_nil_of_length_eq_zero hlen.symm, ht⟩
      obtain ⟨hkeptNew, hclosedNew⟩ := keptNew_concat top habove newFrame
      refine ⟨started ++ [newFrame], ?_, ?_, ?_, ?_⟩
      · rw [List.reverse_cons, ← hproj]
        exact StartedFor.concat hfor hnumber hstarted
      · rw [hlist, hkeptNew, List.append_assoc, List.singleton_append]
      · rw [hkeptNew, List.append_assoc, List.singleton_append]
        exact hkept
      · rw [hclosedNew]
        exact hclosed.trans hclosed'

/-! ## The part that two traces have in common -/

/-- `common` is the longest part that the traces have in common at the bottom. -/
structure CommonBottom (common old new : List DebugBackTraceFrame) : Prop where
  suffix_old : common <:+ old
  suffix_new : common <:+ new
  longest : ∀ l, l <:+ old → l <:+ new → l <:+ common

def projected (frames : List (ExtendedStackTraceFrame X)) : List DebugBackTraceFrame :=
  frames.map fun frame => frame.toDebugBackTraceFrame

theorem isSameFrame_iff {frame1 frame2 : DebugBackTraceFrame} : isSameFrame frame1 frame2 = true ↔ frame1 = frame2 := by
  obtain ⟨function1, line1, file1, cls1, type1⟩ := frame1
  obtain ⟨function2, line2, file2, cls2, type2⟩ := frame2
  simp only [isSameFrame, Bool.and_eq_true, decide_eq_true_eq, DebugBackTraceFrame.mk.injEq]
  tauto

omit [DecidableEq X] in
/-- For traces from the bottom, `identicalFrames` is the length of the longest common prefix. -/
theorem identicalFrames_spec (trace : List DebugBackTraceFrame) (last : List (ExtendedStackTraceFrame X)) :
    identicalFrames trace last ≤ last.length ∧
      trace.take (identicalFrames trace last) = (projected last).take (identicalFrames trace last) ∧
      ∀ l, l <+: trace → l <+: projected last → l.length ≤ identicalFrames trace last := by
  induction trace generalizing last with
  | nil =>
    refine ⟨Nat.zero_le _, rfl, fun l hl _ => ?_⟩
    rw [List.prefix_nil.mp hl]
    exact Nat.zero_le _
  | cons frame trace ih =>
    cases last with
    | nil =>
      refine ⟨Nat.zero_le _, rfl, fun l _ hl => ?_⟩
      rw [List.prefix_nil.mp hl]
      exact Nat.zero_le _
    | cons lastFrame last =>
      rw [identicalFrames, projected, List.map_cons]
      by_cases hsame : isSameFrame frame lastFrame.toDebugBackTraceFrame = true
      · obtain ⟨hle, htake, hlongest⟩ := ih last
        rw [if_pos hsame, isSameFrame_iff.mp hsame]
        refine ⟨Nat.succ_le_succ hle, ?_, ?_⟩
        · rw [List.take_succ_cons, List.take_succ_cons, htake, projected]
        · intro l hl hl'
          cases l with
          | nil => exact Nat.zero_le _
          | cons a l =>
            exact Nat.succ_le_succ (hlongest l (List.cons_prefix_cons.mp hl).2 (List.cons_prefix_cons.mp hl').2)
      · rw [if_neg hsame]
        refine ⟨Nat.zero_le _, rfl, fun l hl hl' => ?_⟩
        cases l with
        | nil => exact Nat.le_refl 0
        | cons a l =>
          obtain ⟨rfl, -⟩ := List.cons_prefix_cons.mp hl
          exact absurd (isSameFrame_iff.mpr (List.cons_prefix_cons.mp hl').1) hsame

omit [DecidableEq X] in
/-- The frames that are kept are the longest common bottom part. -/
theorem commonBottom_identicalFrames (stackTrace : List DebugBackTraceFrame) (last : List (ExtendedStackTraceFrame X)) :
    let count := getHowManyStackFramesAreIdenticalFromStackBottom stackTrace last
    CommonBottom (projected (last.drop (last.length - count))) (projected last) stackTrace ∧
      stackTrace.drop (stackTrace.length - count) = projected (last.drop (last.length - count)) := by
  intro count
  obtain ⟨hle, htake, hlongest⟩ := identicalFrames_spec stackTrace.reverse last.reverse
  have hproj : projected last.reverse = (projected last).reverse := List.map_reverse
  rw [hproj, List.take_reverse, List.take_reverse, List.reverse_inj] at htake
  have hlength : (projected last).length = last.length := List.length_map _
  have hdrop : stackTrace.drop (stackTrace.length - count) = projected (last.drop (last.length - count)) := by
    rw [projected, List.map_drop, ← hlength]
    exact htake
  refine ⟨⟨?_, ?_, ?_⟩, hdrop⟩
  · rw [projected, List.map_drop]
    exact List.drop_suffix _ _
  · rw [← hdrop]
    exact List.drop_suffix _ _
  · intro l hl hl'
    have hlen := hlongest l.reverse (List.reverse_prefix.mpr hl') (by rw [hproj]; exact List.reverse_prefix.mpr hl)
    rw [List.length_reverse] at hlen
    refine List.suffix_of_suffix_length_le hl (by rw [projected, List.map_drop]; exact List.drop_suffix _ _) ?_
    rw [projected, List.length_map, List.length_drop]
    rw [List.length_reverse] at hle
    have hcount : count = identicalFrames stackTrace.reverse last.reverse := rfl
    omega

/-! ## One comparison -/

/-- What a comparison with `stackTrace` has done: the frames `gone` are closed, `kept` are untouched, `started` are new. -/
structure StackDiff (s s' : State S) (stackTrace : List DebugBackTraceFrame) (top : Bool)
    (gone kept started : List (ExtendedStackTraceFrame X)) : Prop where
  old : s.lastStackTrace = gone ++ kept
  common : CommonBottom (projected kept) (projected s.lastStackTrace) stackTrace
  new : stackTrace = projected started ++ projected kept
  last : s'.lastStackTrace = keptNew top started ++ kept
  projected_last : projected s'.lastStackTrace = if top = true ∧ started ≠ [] then stackTrace.tail else stackTrace
  numbers : spanNumbers started = (List.range' s.world.spansStarted started.length).reverse
  spansStarted : s'.world.spansStarted = s.world.spansStarted + started.length
  closed : s.world.Closed s'.world (spanNumbers gone ++ spanNumbers (closedNew top started))

variable {s : State S}

omit [DecidableEq X] in
theorem projected_keptNew (started kept : List (ExtendedStackTraceFrame X)) :
    projected (keptNew top started ++ kept) =
      if top = true ∧ started ≠ [] then (projected started ++ projected kept).tail
      else projected started ++ projected kept := by
  rw [projected, projected, projected, List.map_append]
  cases started with
  | nil => cases top <;> rfl
  | cons frame started => cases top <;> rfl

/-- A comparison does what `StackDiff` says, and keeps the account. -/
theorem World.Framed.compareStackTraces (hsdk : ∀ n, env.isSdkSpan n = true)
    (h : s.world.Framed s.lastStackTrace others) (stackTrace : List DebugBackTraceFrame)
    (apmFramesFilteredOut : Option ℕ) :
    (s.compareStackTraces cfg env stackTrace durationMs top apmFramesFilteredOut).world.Framed
        (s.compareStackTraces cfg env stackTrace durationMs top apmFramesFilteredOut).lastStackTrace others ∧
      ∃ gone kept started, StackDiff s (s.compareStackTraces cfg env stackTrace durationMs top apmFramesFilteredOut)
        stackTrace top gone kept started := by
  obtain ⟨hcommon, hdrop⟩ := commonBottom_identicalFrames stackTrace s.lastStackTrace
  unfold State.compareStackTraces
  simp only
  generalize getHowManyStackFramesAreIdenticalFromStackBottom stackTrace s.lastStackTrace = count at hcommon hdrop ⊢
  have hold := (List.take_append_drop (s.lastStackTrace.length - count) s.lastStackTrace).symm
  generalize s.lastStackTrace.take (s.lastStackTrace.length - count) = gone at hold ⊢
  generalize s.lastStackTrace.drop (s.lastStackTrace.length - count) = kept at hold hcommon hdrop ⊢
  rw [hold] at h
  obtain ⟨hframed, hclosed, hstarted⟩ := h.endOldFrames cfg env durationMs top {}
  obtain ⟨started, hfor, hlist, hframed', hclosed'⟩ := hframed.startNewFrames cfg env durationMs top hsdk
    (s.stackTraceId + 1) _
  rw [List.reverse_reverse] at hfor
  have hnew : stackTrace = projected started ++ projected kept := by
    rw [projected, hfor.projected, ← hdrop, List.take_append_drop]
  have hlen : started.length = (stackTrace.take (stackTrace.length - count)).length := by
    rw [← hfor.projected, List.length_map]
  refine ⟨hlist ▸ hframed', gone, kept, started, ⟨hold, hcommon, hnew, hlist, ?_, ?_, ?_, hclosed.trans hclosed'⟩⟩
  · refine (congrArg projected hlist).trans ?_
    rw [projected_keptNew, ← hnew]
  · rw [hfor.numbers, hlen, hstarted]
  · exact hfor.spansStarted.trans (by rw [hlen, hstarted])

/-! ## Runs -/

/-- The application attaches no context of an inferred span. -/
def AttachesForeign (_ : System S) : Action X → Prop
  | .appAttach context => context.Foreign
  | _ => True

variable {cfg env} {sys sys' : System S} {a : Action X}

structure FramedInv (sys : System S) : Prop where
  framed : sys.inferred.world.Framed sys.inferred.lastStackTrace sys.appScopes
  ended : sys.inferred.shutdown = true → sys.inferred.lastStackTrace = []

theorem framed_init {st : S.St} (hforeign : ∀ x ∈ S.attached st, (S.contextOf x).Foreign) :
    FramedInv (System.init st) where
  framed :=
    { scopes := ⟨(inv_init st).exact, fun x hx _ => hforeign x hx, fun frame hframe => absurd hframe List.not_mem_nil⟩
      sdk := fun frame hframe => absurd hframe List.not_mem_nil
      numbers := .refl _ }
  ended h := by cases h

theorem FramedInv.step (hsdk : ∀ n, env.isSdkSpan n = true) (h : FramedInv sys) (hok : AttachesForeign sys a)
    (hstep : step S cfg env sys a = some sys') : FramedInv sys' := by
  cases a with
  | captureStackTrace backtrace durationMs top =>
    rw [InferredSpans.step, Option.some.injEq] at hstep
    subst hstep
    by_cases hs : sys.inferred.shutdown = true
    · have hsame : sys.inferred.captureStackTrace cfg env backtrace durationMs top = sys.inferred := if_pos hs
      rw [hsame]
      exact ⟨h.framed, h.ended⟩
    · have hcapture : sys.inferred.captureStackTrace cfg env backtrace durationMs top =
          sys.inferred.compareStackTraces cfg env (filterOutAPMFrames cfg (backtrace.drop FRAMES_TO_SKIP)).1
            durationMs top (filterOutAPMFrames cfg (backtrace.drop FRAMES_TO_SKIP)).2 := if_neg hs
      rw [hcapture]
      refine ⟨(h.framed.compareStackTraces cfg env durationMs top hsdk _ _).1, fun hs' => ?_⟩
      exact absurd hs' hs
  | shutdown =>
    rw [InferredSpans.step, Option.some.injEq] at hstep
    subst hstep
    have hframed : World.Framed (S := S) { sys.inferred with shutdown := true }.world sys.inferred.lastStackTrace
      sys.appScopes := h.framed
    exact ⟨(World.Framed.compareStackTraces cfg env 0 false hsdk hframed [] (some 0)).1,
      fun _ => lastStackTrace_shutdownSpans cfg env sys.inferred⟩
  | appAttach context =>
    rw [InferredSpans.step, Option.some.injEq] at hstep
    subst hstep
    refine ⟨⟨⟨h.framed.scopes.holds.attachOther context, fun x hx hown => ?_, h.framed.scopes.contexts⟩, h.framed.sdk,
      h.framed.numbers⟩, h.ended⟩
    have hattached : x ∈ S.attached (S.attach sys.inferred.world.scopes.st context).1 := hx
    rw [S.attached_attach, List.mem_cons] at hattached
    rcases hattached with rfl | hx
    · rw [S.contextOf_attach]
      exact hok
    · exact h.framed.scopes.foreign x hx hown
  | appDetach scope =>
    by_cases hmem : scope ∈ sys.appScopes
    · rw [InferredSpans.step, if_pos hmem, Option.some.injEq] at hstep
      subst hstep
      refine ⟨⟨⟨h.framed.scopes.holds.detachOther hmem, fun x hx hown => ?_, h.framed.scopes.contexts⟩, h.framed.sdk,
        h.framed.numbers⟩, h.ended⟩
      have hattached : x ∈ S.attached (S.detach sys.inferred.world.scopes.st scope).1 := hx
      rw [S.attached_detach] at hattached
      exact h.framed.scopes.foreign x (List.mem_of_mem_erase hattached) hown
    · rw [InferredSpans.step, if_neg hmem] at hstep
      cases hstep

theorem framed_of_path (hsdk : ∀ n, env.isSdkSpan n = true) {st : S.St}
    (hforeign : ∀ x ∈ S.attached st, (S.contextOf x).Foreign) {acts : List (Action X)}
    (h : Path (step S cfg env) AttachesForeign (System.init st) acts sys) : FramedInv sys :=
  h.invariant (fun _ _ _ hI hok hstep => FramedInv.step hsdk hI hok hstep) (framed_init hforeign)

/-- **A capture is a stack diff**: in every state of a run, the comparison with any next trace keeps the longest common
bottom part, closes the other old frames and starts the new ones; of the spans started so far each is on the stack or has
been ended or dropped, once, and none is on the stack after the shutdown. -/
theorem stack_diff (hsdk : ∀ n, env.isSdkSpan n = true) {st : S.St}
    (hforeign : ∀ x ∈ S.attached st, (S.contextOf x).Foreign) {acts : List (Action X)}
    (h : Path (step S cfg env) AttachesForeign (System.init st) acts sys) :
    (∀ stackTrace durationMs top apmFramesFilteredOut, ∃ gone kept started, StackDiff sys.inferred
      (sys.inferred.compareStackTraces cfg env stackTrace durationMs top apmFramesFilteredOut) stackTrace top gone kept
        started) ∧
    (sys.inferred.world.endedSpans ++ sys.inferred.world.dropped ++ spanNumbers sys.inferred.lastStackTrace).Perm
      (List.range sys.inferred.world.spansStarted) ∧
    (sys.inferred.shutdown = true → (sys.inferred.world.endedSpans ++ sys.inferred.world.dropped).Perm
      (List.range sys.inferred.world.spansStarted)) := by
  have hinv := framed_of_path hsdk hforeign h
  refine ⟨fun stackTrace durationMs top apmFramesFilteredOut => ?_, hinv.framed.numbers, fun hs => ?_⟩
  · exact (hinv.framed.compareStackTraces cfg env durationMs top hsdk stackTrace apmFramesFilteredOut).2
  · have hnumbers := hinv.framed.numbers
    rwa [hinv.ended hs, spanNumbers, List.map_nil, List.append_nil] at hnumbers

/-- The request of two captures and the shutdown. -/
theorem stack_diff_witness : ∃ s,
    run (step (ScopeStorage.numbered Context) request (tracer true)) (System.init noScopes) requestActions = some s ∧
      (s.inferred.world.endedSpans ++ s.inferred.world.dropped).Perm (List.range s.inferred.world.spansStarted) := by
  have hpath : ∃ s, Path (step (ScopeStorage.numbered Context) request (tracer true)) AttachesForeign
      (System.init noScopes) requestActions s ∧ s.inferred.shutdown = true :=
    ⟨_, .cons trivial rfl (.cons trivial rfl (.cons trivial rfl (.nil _))), rfl⟩
  obtain ⟨s, hpath, hs⟩ := hpath
  exact ⟨s, hpath.run_eq,
    (stack_diff (fun _ => rfl) (fun x hx => absurd hx List.not_mem_nil) hpath).2.2 hs⟩

end OtelDistro.InferredSpans
