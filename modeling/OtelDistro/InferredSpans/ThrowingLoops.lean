import OtelDistro.InferredSpans.ThrowingCapture

/-!
# OtelDistro.InferredSpans.ThrowingLoops — the loops of a comparison up to the call that throws

* `World.Ends`: what operations on frames do to spans and scopes.
* `ThrownFrom`: the calls for one frame have thrown, and what they had done by then.
* `listFrom`: an array of frames under consecutive keys.
* `World.Live`, `World.Sole`: frames whose spans have not ended, and whose contexts no other scope attaches.

`endGoneFrames_spec`, `startFrames_spec`: the two loops.  A throw while old frames are ended leaves the frame it was for
under the key it had.
-/

namespace OtelDistro.InferredSpans

open OtelDistro.Lib OtelDistro.Lib.IndexedArray

variable {X : Type} [DecidableEq X] {S : ScopeStorage Context X} (cfg : Config) (env : Env)

/-! ## Ends of spans -/

/-- The spans that have ended or were dropped. -/
def World.closedSpans (w : World S) : List ℕ := w.endedSpans ++ w.dropped

/-- The context is that of a span that was started between the two worlds. -/
def Context.StartedBetween (w w' : World S) (context : Context) : Prop :=
  ∃ n, context.span = some (.inferred n) ∧ w.spansStarted ≤ n ∧ n < w'.spansStarted

/-- Of the spans `numbers` some have ended between the two worlds, and no other; what was closed stays closed; a scope that is
attached was attached before, or has the context of a new span. -/
structure World.Ends (w w' : World S) (numbers : List ℕ) : Prop where
  spansStarted : w.spansStarted ≤ w'.spansStarted
  ended : ∀ n ∈ w'.endedSpans, n ∈ w.endedSpans ∨ n ∈ numbers
  closed : w.closedSpans ⊆ w'.closedSpans
  attached : ∃ new, (S.attached w'.scopes.st).Sublist (new ++ S.attached w.scopes.st) ∧
    ∀ x ∈ new, (S.contextOf x).StartedBetween w w'

variable {w w' w'' : World S} {numbers numbers' : List ℕ}

theorem World.SameSpans.ends (h : w.SameSpans w') : w.Ends w' [] where
  spansStarted := Nat.le_of_eq h.spansStarted.symm
  ended n hn := .inl (h.ended ▸ hn)
  closed n hn := by rwa [World.closedSpans, h.ended, h.dropped]
  attached := ⟨[], h.scopes ▸ List.Sublist.refl _, fun x hx => absurd hx List.not_mem_nil⟩

theorem World.Ends.refl (w : World S) : w.Ends w [] := World.SameSpans.ends ⟨rfl, rfl, rfl, rfl⟩

theorem World.Ends.trans (h : w.Ends w' numbers) (h' : w'.Ends w'' numbers') : w.Ends w'' (numbers ++ numbers') where
  spansStarted := Nat.le_trans h.spansStarted h'.spansStarted
  ended n hn := by
    rcases h'.ended n hn with hn | hn
    · rcases h.ended n hn with hn | hn
      · exact .inl hn
      · exact .inr (List.mem_append_left _ hn)
    · exact .inr (List.mem_append_right _ hn)
  closed := List.Subset.trans h.closed h'.closed
  attached := by
    obtain ⟨new, hsub, hnew⟩ := h.attached
    obtain ⟨new', hsub', hnew'⟩ := h'.attached
    refine ⟨new' ++ new, ?_, fun x hx => ?_⟩
    · rw [List.append_assoc]
      exact hsub'.trans (hsub.append_left new')
    · rcases List.mem_append.mp hx with hx | hx
      · obtain ⟨n, hspan, hle, hlt⟩ := hnew' x hx
        exact ⟨n, hspan, Nat.le_trans h.spansStarted hle, hlt⟩
      · obtain ⟨n, hspan, hle, hlt⟩ := hnew x hx
        exact ⟨n, hspan, hle, Nat.lt_of_lt_of_le hlt h'.spansStarted⟩

theorem World.Ends.mono (h : w.Ends w' numbers) (hsub : numbers ⊆ numbers') : w.Ends w' numbers' where
  spansStarted := h.spansStarted
  ended n hn := (h.ended n hn).imp_right fun hm => hsub hm
  closed := h.closed
  attached := h.attached

/-- The scopes are a part of those attached before. -/
theorem World.Ends.of_sublist (hstarted : w'.spansStarted = w.spansStarted)
    (hended : ∀ n ∈ w'.endedSpans, n ∈ w.endedSpans ∨ n ∈ numbers) (hclosed : w.closedSpans ⊆ w'.closedSpans)
    (hsub : (S.attached w'.scopes.st).Sublist (S.attached w.scopes.st)) : w.Ends w' numbers :=
  ⟨Nat.le_of_eq hstarted.symm, hended, hclosed, [], hsub, fun _ hx => absurd hx List.not_mem_nil⟩

theorem ends_detach (w : World S) (scope : X) : w.Ends (w.detach scope).1 [] := by
  have herase : S.attached (w.detach scope).1.scopes.st = (S.attached w.scopes.st).erase scope :=
    S.attached_detach w.scopes.st scope
  exact .of_sublist rfl (fun _ hn => .inl hn) (List.Subset.refl _) (herase ▸ List.erase_sublist)

theorem ends_endSpan (w : World S) (span : Span) (endEpochNanos : Option ℤ) :
    w.Ends (w.endSpan env span endEpochNanos) [span.number] := by
  unfold World.endSpan
  cases w.ended.lookup span.number with
  | some nanos => exact (World.Ends.refl w).mono (List.nil_subset _)
  | none =>
    have hcons : ∀ (w' : World S), w'.endedSpans = span.number :: w.endedSpans → w'.dropped = w.dropped →
        w'.spansStarted = w.spansStarted → w'.scopes = w.scopes → w.Ends w' [span.number] := by
      intro w' hended hdropped hstarted hscopes
      refine .of_sublist hstarted (fun n hn => ?_) (fun n hn => ?_) (hscopes ▸ List.Sublist.refl _)
      · rw [hended, List.mem_cons] at hn
        exact hn.symm.imp_right fun h => List.mem_singleton.mpr h
      · rw [World.closedSpans, hended, hdropped]
        exact List.mem_cons_of_mem _ hn
    cases endEpochNanos with
    | some nanos => exact hcons _ rfl rfl rfl rfl
    | none => exact hcons _ rfl rfl rfl rfl

/-- `Span::end()` leaves an ended span. -/
theorem mem_endedSpans_endSpan (w : World S) (span : Span) (endEpochNanos : Option ℤ) :
    span.number ∈ (w.endSpan env span endEpochNanos).endedSpans := by
  unfold World.endSpan
  cases hlookup : w.ended.lookup span.number with
  | some nanos =>
    obtain ⟨l₁, l₂, hw, -⟩ := List.lookup_eq_some_iff.mp hlookup
    rw [World.endedSpans, hw, List.map_append, List.map_cons]
    exact List.mem_append_right _ List.mem_cons_self
  | none => cases endEpochNanos <;> exact List.mem_cons_self

/-! ## Calls that throw -/

@[simp] theorem attempt_none (w w' : World S) : attempt w w' none = (w', false) := rfl

@[simp] theorem throwsAt_none (place : Place) (call : Call) : throwsAt none place call = none := rfl

theorem attempt_cases (w w' : World S) (m : Option Moment) :
    (m = none ∧ attempt w w' m = (w', false)) ∨ (m = some .before ∧ attempt w w' m = (w, true)) ∨
      (m = some .after ∧ attempt w w' m = (w', true)) := by
  cases m with
  | none => exact .inl ⟨rfl, rfl⟩
  | some m =>
    cases m with
    | before => exact .inr (.inl ⟨rfl, rfl⟩)
    | after => exact .inr (.inr ⟨rfl, rfl⟩)

theorem throwsAt_eq_some {fault : Option Fault} {place : Place} {call : Call} {m : Moment}
    (h : throwsAt fault place call = some m) : fault = some ⟨place, call, m⟩ := by
  obtain ⟨f, hf, h⟩ := Option.bind_eq_some_iff.mp h
  obtain ⟨place', call', m'⟩ := f
  by_cases hcall : place' = place ∧ call' = call
  · rw [if_pos hcall, Option.some.injEq] at h
    rw [hf, hcall.1, hcall.2, ← h]
  · rw [if_neg hcall] at h
    cases h

variable {throws : Call → Option Moment} {frame : ExtendedStackTraceFrame X}

/-- The calls for one frame have thrown: the span has ended if it was its end that threw afterwards, else no span has. -/
structure ThrownFrom (throws : Call → Option Moment) (w w' : World S) (number : ℕ) (call : Call) (moment : Moment) :
    Prop where
  throws : throws call = some moment
  ends : w.Ends w' [number]
  ended : call = .endSpan → moment = .after → number ∈ w'.endedSpans
  notEnded : ¬ (call = .endSpan ∧ moment = .after) → w.Ends w' []

/-- A call other than the end of the span. -/
theorem ThrownFrom.of_ends {number : ℕ} {call : Call} {m : Moment} (hthrows : throws call = some m)
    (hcall : call ≠ .endSpan) (h : w.Ends w' []) : ThrownFrom throws w w' number call m :=
  ⟨hthrows, h.mono (List.nil_subset _), fun he => absurd he hcall, fun _ => h⟩

theorem tryReduceFrame_spec (throws : Call → Option Moment) (w : World S) (frame : ExtendedStackTraceFrame X)
    (below : List (ExtendedStackTraceFrame X)) (st : ReduceState) :
    w.Ends (w.tryReduceFrame cfg env throws frame below st).1.1 [] ∧
      ((w.tryReduceFrame cfg env throws frame below st).1.2 = true → ∃ m, throws .reduce = some m) := by
  have hends := (sameSpans_reduceFrame cfg env w frame below st).ends
  unfold World.tryReduceFrame
  cases w.asksParents cfg frame below st with
  | false => exact ⟨hends, (fun h => by cases h)⟩
  | true =>
    simp only [if_true]
    rcases attempt_cases w (w.reduceFrame cfg env frame below st).1 (throws .reduce) with ⟨-, h⟩ | ⟨hm, h⟩ | ⟨hm, h⟩
    · rw [h]
      exact ⟨hends, (fun h => by cases h)⟩
    · rw [h]
      exact ⟨.refl w, fun _ => ⟨_, hm⟩⟩
    · rw [h]
      exact ⟨hends, fun _ => ⟨_, hm⟩⟩

/-- The last call of `endFrameSpan`. -/
theorem attempt_endSpan_spec (throws : Call → Option Moment) (h : w.Ends w' []) (span : Span) (endEpochNanos : Option ℤ) :
    w.Ends (attempt w' (w'.endSpan env span endEpochNanos) (throws .endSpan)).1 [span.number] ∧
      ((attempt w' (w'.endSpan env span endEpochNanos) (throws .endSpan)).2 = true → ∃ call m,
        ThrownFrom throws w (attempt w' (w'.endSpan env span endEpochNanos) (throws .endSpan)).1 span.number call m) := by
  have hends : w.Ends (w'.endSpan env span endEpochNanos) [span.number] :=
    h.trans (ends_endSpan env w' span endEpochNanos)
  have hstays : w.Ends w' [span.number] := h.mono (List.nil_subset _)
  rcases attempt_cases w' (w'.endSpan env span endEpochNanos) (throws .endSpan) with ⟨-, he⟩ | ⟨hm, he⟩ | ⟨hm, he⟩
  · rw [he]
    exact ⟨hends, (fun h => by cases h)⟩
  · rw [he]
    exact ⟨hstays, fun _ => ⟨.endSpan, .before, ⟨hm, hstays, (fun _ h => by cases h), fun _ => h⟩⟩⟩
  · rw [he]
    refine ⟨hends, fun _ => ⟨.endSpan, .after, ⟨hm, hends, fun _ _ => ?_, fun hn => absurd ⟨rfl, rfl⟩ hn⟩⟩⟩
    exact mem_endedSpans_endSpan env w' span endEpochNanos

/-- `endFrameSpan` ends the frame's span at most; if a call has thrown, it is one of those for this frame. -/
theorem tryEndFrameSpan_spec (throws : Call → Option Moment) (w : World S) (frame : ExtendedStackTraceFrame X)
    (dropSpan : Bool) (endEpochNanos : Option ℤ) :
    w.Ends (w.tryEndFrameSpan cfg env throws frame dropSpan endEpochNanos).1 [frame.span.number] ∧
      ((w.tryEndFrameSpan cfg env throws frame dropSpan endEpochNanos).2 = true → ∃ call m,
        ThrownFrom throws w (w.tryEndFrameSpan cfg env throws frame dropSpan endEpochNanos).1 frame.span.number call
          m) := by
  obtain ⟨w₁, drop, hdecision, hsame, -, -⟩ := dropDecision_eq cfg env w frame dropSpan endEpochNanos
  have hmeasured := hsame.ends
  unfold World.tryEndFrameSpan
  rw [hdecision]
  simp only
  rcases attempt_cases w w₁ (if dropSpan = false ∧ ¬ cfg.minSpanDuration ≤ 0 ∧ ¬ frame.span.isSdkSpan = false then
    throws .measure else none) with ⟨-, h⟩ | ⟨hm, h⟩ | ⟨hm, h⟩
  · rw [h]
    simp only
    by_cases hsdk : frame.span.isSdkSpan = false
    · rw [if_pos hsdk]
      exact ⟨hmeasured.mono (List.nil_subset _), (fun h => by cases h)⟩
    · rw [if_neg hsdk]
      have hdetached : w.Ends (w₁.detach frame.scope).1 [] := hmeasured.trans (ends_detach w₁ frame.scope)
      rcases attempt_cases w₁ (w₁.detach frame.scope).1 (throws .detach) with ⟨-, h'⟩ | ⟨hm, h'⟩ | ⟨hm, h'⟩
      · rw [h']
        simp only
        cases drop with
        | true =>
          rw [if_pos rfl]
          refine ⟨⟨hdetached.spansStarted, fun n hn => .inl ?_, fun n hn => ?_, hdetached.attached⟩,
            (fun h => by cases h)⟩
          · exact (hdetached.ended n hn).resolve_right List.not_mem_nil
          · rcases List.mem_append.mp (hdetached.closed hn) with hn | hn
            · exact List.mem_append_left _ hn
            · exact List.mem_append_right _ (List.mem_cons_of_mem _ hn)
        | false =>
          have hend := attempt_endSpan_spec env throws hdetached frame.span endEpochNanos
          rw [if_neg Bool.false_ne_true]
          by_cases hflag : (w₁.detach frame.scope).2 = true
          · rw [if_pos hflag]
            exact hend
          · rw [if_neg hflag]
            by_cases hcurrent : S.contextOf frame.scope = (w₁.detach frame.scope).1.getCurrent
            · rw [if_pos hcurrent]
              exact ⟨hdetached.mono (List.nil_subset _), (fun h => by cases h)⟩
            · rw [if_neg hcurrent]
              exact hend
      · rw [h']
        exact ⟨hmeasured.mono (List.nil_subset _), fun _ => ⟨.detach, _, .of_ends hm (by decide) hmeasured⟩⟩
      · rw [h']
        exact ⟨hdetached.mono (List.nil_subset _), fun _ => ⟨.detach, _, .of_ends hm (by decide) hdetached⟩⟩
  · rw [h]
    have hm := (Option.ite_none_right_eq_some.mp hm).2
    exact ⟨(World.Ends.refl w).mono (List.nil_subset _), fun _ => ⟨.measure, _, .of_ends hm (by decide) (.refl w)⟩⟩
  · rw [h]
    have hm := (Option.ite_none_right_eq_some.mp hm).2
    exact ⟨hmeasured.mono (List.nil_subset _), fun _ => ⟨.measure, _, .of_ends hm (by decide) hmeasured⟩⟩

/-- A frame of a span that was started in the world `w`; `w'` is the world in which its scope was attached. -/
structure StartedIn (w w' : World S) (frame : ExtendedStackTraceFrame X) : Prop where
  number : frame.span.number = w.spansStarted
  started : w.spansStarted < w'.spansStarted
  sdk : frame.span.isSdkSpan = env.isSdkSpan frame.span.number
  context : (S.contextOf frame.scope).span = some (.inferred frame.span.number)
  attached : S.attached w'.scopes.st = frame.scope :: S.attached w.scopes.st

/-- `startFrameSpan` ends no span; a frame it returns has a span with a new number, in the context of its scope. -/
theorem tryStartFrameSpan_spec (throws : Call → Option Moment) (w : World S) (frame : DebugBackTraceFrame)
    (durationMs : ℤ) (parentContext : Option Context) (stackTraceId : ℕ) :
    w.Ends (w.tryStartFrameSpan env throws frame durationMs parentContext stackTraceId).1 [] ∧
      ((w.tryStartFrameSpan env throws frame durationMs parentContext stackTraceId).2 = none →
        ∃ call m, throws call = some m) ∧
      ∀ newFrame, (w.tryStartFrameSpan env throws frame durationMs parentContext stackTraceId).2 = some newFrame →
        StartedIn env w (w.tryStartFrameSpan env throws frame durationMs parentContext stackTraceId).1 newFrame := by
  have hends : ∀ w' : World S, w'.endedSpans = w.endedSpans → w'.dropped = w.dropped →
      w.spansStarted ≤ w'.spansStarted → w'.scopes = w.scopes → w.Ends w' [] := by
    intro w' hended hdropped hstarted hscopes
    refine ⟨hstarted, fun n hn => .inl (hended ▸ hn), fun n hn => ?_, [], ?_, fun x hx => absurd hx List.not_mem_nil⟩
    · rwa [World.closedSpans, hended, hdropped]
    · rw [hscopes]
      exact List.Sublist.refl _
  have hattaches : ∀ (w' : World S) (context : Context), w'.endedSpans = w.endedSpans → w'.dropped = w.dropped →
      w'.spansStarted = w.spansStarted + 1 → w'.scopes = (w.scopes.attach context).1 →
      context.span = some (.inferred w.spansStarted) → w.Ends w' [] := by
    intro w' context hended hdropped hstarted hscopes hspan
    refine ⟨by omega, fun n hn => .inl (hended ▸ hn), fun n hn => ?_, [(w.scopes.attach context).2], ?_, fun x hx => ?_⟩
    · rwa [World.closedSpans, hended, hdropped]
    · rw [hscopes]
      exact (S.attached_attach w.scopes.st context) ▸ List.Sublist.refl _
    · rw [List.mem_singleton.mp hx]
      refine ⟨w.spansStarted, ?_, Nat.le_refl _, by omega⟩
      exact (congrArg Context.span (S.contextOf_attach w.scopes.st context)).trans hspan
  unfold World.tryStartFrameSpan
  simp only
  rcases attempt_cases (S := S) (w.getStartTime env durationMs).1 _ (throws .startSpan) with
    ⟨-, h⟩ | ⟨hm, h⟩ | ⟨hm, h⟩
  · rw [h]
    simp only
    rcases attempt_cases (S := S) _ _ (throws .attach) with ⟨-, h'⟩ | ⟨hm, h'⟩ | ⟨hm, h'⟩
    · rw [h']
      refine ⟨hattaches _ _ rfl rfl rfl rfl rfl, (fun h => by cases h), ?_⟩
      rintro newFrame ⟨⟩
      refine ⟨rfl, Nat.lt_succ_self _, rfl, ?_, S.attached_attach _ _⟩
      exact congrArg Context.span (S.contextOf_attach _ _)
    · rw [h']
      exact ⟨hends _ rfl rfl (Nat.le_succ _) rfl, fun _ => ⟨.attach, _, hm⟩, fun _ h => by cases h⟩
    · rw [h']
      exact ⟨hattaches _ _ rfl rfl rfl rfl rfl, fun _ => ⟨.attach, _, hm⟩, fun _ h => by cases h⟩
  · rw [h]
    exact ⟨hends _ rfl rfl (Nat.le_refl _) rfl, fun _ => ⟨.startSpan, _, hm⟩, fun _ h => by cases h⟩
  · rw [h]
    exact ⟨hends _ rfl rfl (Nat.le_succ _) rfl, fun _ => ⟨.startSpan, _, hm⟩, fun _ h => by cases h⟩

/-! ## Lists of frames -/

/-- The frames under consecutive keys. -/
def listFrom (first : ℕ) (frames : List (ExtendedStackTraceFrame X)) : FrameArray X := numbered first (frames.map some)

section Lists

variable (first : ℕ) (frames : List (ExtendedStackTraceFrame X))

omit [DecidableEq X]

theorem frameAt_listFrom (offset : ℕ) : frameAt (listFrom first frames) (first + offset) = frames[offset]? := by
  rw [frameAt, listFrom, lookup_numbered, List.getElem?_map]
  cases frames[offset]? <;> rfl

theorem frameAt_listFrom_lt {key : ℕ} (h : key < first) : frameAt (listFrom first frames) key = none := by
  rw [frameAt, listFrom, lookup_numbered_lt first key _ h]
  rfl

theorem unset_listFrom (frame : ExtendedStackTraceFrame X) :
    unset (listFrom first (frame :: frames)) first = listFrom (first + 1) frames := unset_numbered first _ _

theorem length_listFrom : (listFrom first frames).length = frames.length := by
  rw [listFrom, length_numbered, List.length_map]

theorem values_listFrom : values (listFrom first frames) = listFrom 0 frames := values_numbered first _

theorem unshift_listFrom (frame : ExtendedStackTraceFrame X) :
    unshift (listFrom 0 frames) (some frame) = listFrom 0 (frame :: frames) := unshift_numbered 0 _ _

theorem listFrom_injective {frames' : List (ExtendedStackTraceFrame X)}
    (h : listFrom first frames = listFrom first frames') : frames = frames' :=
  List.map_injective_iff.mpr (Option.some_injective _) (numbered_injective h)

/-- The frames between two others. -/
theorem framesFrom_listFrom (above below : List (ExtendedStackTraceFrame X)) :
    framesFrom (listFrom first (above ++ frames ++ below)) (first + above.length) frames.length = frames := by
  induction frames generalizing above with
  | nil => rfl
  | cons frame frames ih =>
    have hframe : frameAt (listFrom first (above ++ (frame :: frames) ++ below)) (first + above.length) = some frame := by
      rw [frameAt_listFrom, List.append_assoc, List.getElem?_append_right (Nat.le_refl _), Nat.sub_self]
      rfl
    have hbelow := ih (above ++ [frame])
    rw [List.append_assoc above, List.singleton_append, List.length_append, List.length_singleton,
      ← Nat.add_assoc] at hbelow
    rw [List.length_cons, framesFrom, hframe]
    exact congrArg (frame :: ·) hbelow

/-- References to the entries of a list change nothing, and none of them is null. -/
theorem sameFrames_listFrom (stackTrace : List DebugBackTraceFrame) (same rest : List (ExtendedStackTraceFrame X))
    (h : frames.reverse = same ++ rest) :
    sameFrames frames.length stackTrace same.length (listFrom 0 frames) =
      (listFrom 0 frames, some (same.length + identicalFrames stackTrace rest)) := by
  induction stackTrace generalizing same rest with
  | nil => rfl
  | cons frame stackTrace ih =>
    have hlength := congrArg List.length h
    rw [List.length_reverse, List.length_append] at hlength
    cases rest with
    | nil =>
      rw [List.length_nil, Nat.add_zero] at hlength
      have hzero : identicalFrames (frame :: stackTrace) ([] : List (ExtendedStackTraceFrame X)) = 0 := rfl
      rw [sameFrames, if_neg (by omega), hzero, Nat.add_zero]
    | cons lastFrame rest =>
      rw [List.length_cons] at hlength
      have hkey : frames.length - (same.length + 1) = 0 + rest.length := by omega
      have hframes : frames = rest.reverse ++ lastFrame :: same.reverse := by
        rw [← List.reverse_reverse frames, h, List.reverse_append, List.reverse_cons, List.append_assoc,
          List.singleton_append]
      have hget : frames[rest.length]? = some lastFrame := by
        rw [hframes, ← List.length_reverse, List.getElem?_append_right (Nat.le_refl _), Nat.sub_self]
        rfl
      have hlookup : (listFrom 0 frames).lookup (0 + rest.length) = some (some lastFrame) := by
        rw [listFrom, lookup_numbered, List.getElem?_map, hget]
        rfl
      rw [sameFrames, if_pos (by omega), hkey]
      simp only
      rw [reference_of_lookup _ _ hlookup, frameAt, hlookup, identicalFrames]
      simp only [Option.join_some]
      by_cases hsame : isSameFrame frame lastFrame.toDebugBackTraceFrame = true
      · have hnext := ih (same ++ [lastFrame]) rest (by rw [h, List.append_assoc, List.singleton_append])
        rw [List.length_append, List.length_singleton] at hnext
        rw [if_pos hsame, if_pos hsame, hnext]
        congr 2
        omega
      · rw [if_neg hsame, if_neg hsame, Nat.add_zero]

/-- What a comparison finds out about a list, and the number of frames that are gone. -/
theorem sameFrames_list (stackTrace : List DebugBackTraceFrame) :
    let count := getHowManyStackFramesAreIdenticalFromStackBottom stackTrace frames
    sameFrames frames.length stackTrace.reverse 0 (listFrom 0 frames) = (listFrom 0 frames, some count) ∧
      (frames.take (frames.length - count)).length = frames.length - count := by
  intro count
  have hsame := sameFrames_listFrom frames stackTrace.reverse [] frames.reverse rfl
  rw [List.length_nil, Nat.zero_add] at hsame
  refine ⟨hsame, ?_⟩
  rw [List.length_take]
  omega

end Lists

section Loops

/-! ## The two loops -/

variable (fault : Option Fault) (durationMs : ℤ) (top : Bool)

/-- Ending the frames `gone`, from the top: all of them are taken out, or one call has thrown and the frame it was made for
is the first one left, under the key it had. -/
theorem endGoneFrames_spec {oldFramesCount : ℕ} (kept gone : List (ExtendedStackTraceFrame X)) (w : World S) {index : ℕ}
    (hindex : index + gone.length = oldFramesCount) (st : ReduceState) :
    (∃ w', endGoneFrames cfg env fault durationMs top oldFramesCount gone.length w (listFrom index (gone ++ kept)) st =
        (w', listFrom oldFramesCount kept, none) ∧ w.Ends w' (spanNumbers gone)) ∨
    ∃ done frame below w₁ w' call m, gone = done ++ frame :: below ∧
      endGoneFrames cfg env fault durationMs top oldFramesCount gone.length w (listFrom index (gone ++ kept)) st =
        (w', listFrom (index + done.length) (frame :: below ++ kept), some .fault) ∧
      w.Ends w₁ (spanNumbers done) ∧
      ThrownFrom (throwsAt fault (.old (index + done.length))) w₁ w' frame.span.number call m := by
  induction gone generalizing w index st with
  | nil =>
    obtain rfl : index = oldFramesCount := hindex
    exact .inl ⟨w, rfl, .refl w⟩
  | cons frame gone ih =>
    have hkey : oldFramesCount - (gone.length + 1) = index := by
      rw [List.length_cons] at hindex
      omega
    have hframe : frameAt (listFrom index (frame :: gone ++ kept)) index = some frame := frameAt_listFrom index _ 0
    have htime := (sameSpans_endTime env durationMs top w).1.ends
    rw [List.length_cons, endGoneFrames]
    simp only [hkey, hframe]
    obtain ⟨hreduced, hthrows⟩ := tryReduceFrame_spec cfg env (throwsAt fault (.old index))
      (w.endTime env durationMs top).1 frame
      (framesFrom (listFrom index (frame :: gone ++ kept)) (index + 1) gone.length) st
    generalize World.tryReduceFrame cfg env (throwsAt fault (.old index)) (w.endTime env durationMs top).1 frame
      (framesFrom (listFrom index (frame :: gone ++ kept)) (index + 1) gone.length) st = reduced at hreduced hthrows ⊢
    obtain ⟨⟨w₁, thrown⟩, dropSpan, st'⟩ := reduced
    have hw₁ : w.Ends w₁ [] := htime.trans hreduced
    cases thrown with
    | true =>
      obtain ⟨m, hm⟩ := hthrows rfl
      exact .inr ⟨[], frame, gone, w₁, w₁, .reduce, m, rfl, rfl, hw₁, .of_ends hm (by decide) (.refl w₁)⟩
    | false =>
      obtain ⟨hended, hthrown⟩ := tryEndFrameSpan_spec cfg env (throwsAt fault (.old index)) w₁ frame dropSpan
        (w.endTime env durationMs top).2
      simp only
      generalize World.tryEndFrameSpan cfg env (throwsAt fault (.old index)) w₁ frame dropSpan
        (w.endTime env durationMs top).2 = result at hended hthrown ⊢
      obtain ⟨w₂, thrown⟩ := result
      cases thrown with
      | true =>
        obtain ⟨call, m, hfrom⟩ := hthrown rfl
        exact .inr ⟨[], frame, gone, w₁, w₂, call, m, rfl, rfl, hw₁, hfrom⟩
      | false =>
        have hw₂ : w.Ends w₂ [frame.span.number] := hw₁.trans hended
        simp only
        rw [List.cons_append, unset_listFrom]
        have hindex' : index + 1 + gone.length = oldFramesCount := by
          rw [List.length_cons] at hindex
          omega
        rcases ih w₂ hindex' st' with ⟨w', hrun, hends⟩ | ⟨done, frame', below, w₃, w', call, m, rfl, hrun, hends, hfrom⟩
        · exact .inl ⟨w', hrun, hw₂.trans hends⟩
        · have hdone : index + (frame :: done).length = index + 1 + done.length := by
            rw [List.length_cons]
            omega
          refine .inr ⟨frame :: done, frame', below, w₃, w', call, m, rfl, ?_, hw₂.trans hends, ?_⟩
          · rw [hdone]
            exact hrun
          · rw [hdone]
            exact hfrom

/-- The frames have spans of their own, none of which has ended, in the contexts of their scopes. -/
structure World.Live (w : World S) (frames : List (ExtendedStackTraceFrame X)) : Prop where
  nodup : (spanNumbers frames).Nodup
  started : ∀ frame ∈ frames, frame.span.number < w.spansStarted
  notEnded : ∀ frame ∈ frames, frame.span.number ∉ w.endedSpans
  ended : ∀ n ∈ w.endedSpans, n < w.spansStarted
  context : ∀ frame ∈ frames, (S.contextOf frame.scope).span = some (.inferred frame.span.number)

variable {frames kept gone : List (ExtendedStackTraceFrame X)}

theorem World.Live.sublist (h : w.Live frames) (hsub : kept.Sublist frames) : w.Live kept where
  nodup := h.nodup.sublist (hsub.map _)
  started frame hframe := h.started frame (hsub.subset hframe)
  notEnded frame hframe := h.notEnded frame (hsub.subset hframe)
  ended := h.ended
  context frame hframe := h.context frame (hsub.subset hframe)

/-- Ends of other spans leave the frames alone. -/
theorem World.Live.of_ends (h : w.Live frames) (hends : w.Ends w' numbers)
    (hnumbers : ∀ n ∈ numbers, n ∉ spanNumbers frames ∧ n < w'.spansStarted) : w'.Live frames where
  nodup := h.nodup
  started frame hframe := Nat.lt_of_lt_of_le (h.started frame hframe) hends.spansStarted
  notEnded frame hframe hmem := by
    rcases hends.ended _ hmem with hmem | hmem
    · exact h.notEnded frame hframe hmem
    · exact (hnumbers _ hmem).1 (List.mem_map_of_mem hframe)
  ended n hn := by
    rcases hends.ended n hn with hn | hn
    · exact Nat.lt_of_lt_of_le (h.ended n hn) hends.spansStarted
    · exact (hnumbers n hn).2
  context := h.context

/-- Ends of the frames above leave those below alone. -/
theorem World.Live.of_ends_above (h : w.Live (gone ++ kept)) (hends : w.Ends w' (spanNumbers gone)) : w'.Live kept := by
  refine (h.sublist (List.sublist_append_right gone kept)).of_ends hends fun n hn => ⟨fun hmem => ?_, ?_⟩
  · have hnodup := h.nodup
    rw [spanNumbers, List.map_append, List.nodup_append] at hnodup
    exact hnodup.2.2 n hn n hmem rfl
  · obtain ⟨frame, hframe, rfl⟩ := List.mem_map.mp hn
    exact Nat.lt_of_lt_of_le (h.started frame (List.mem_append_left kept hframe)) hends.spansStarted

/-- A new frame is live with the others. -/
theorem World.Live.cons (h : w.Live frames) (hends : w.Ends w' []) {frame : ExtendedStackTraceFrame X}
    (hnew : StartedIn env w w' frame) : w'.Live (frame :: frames) := by
  have hnumber := hnew.number
  have hstarted := hnew.started
  have hlive : w'.Live frames := h.of_ends hends fun n hn => by cases hn
  refine ⟨?_, ?_, ?_, hlive.ended, ?_⟩
  · rw [spanNumbers, List.map_cons, List.nodup_cons]
    refine ⟨fun hmem => ?_, h.nodup⟩
    obtain ⟨f, hf, heq⟩ := List.mem_map.mp hmem
    have hlt := h.started f hf
    omega
  · intro f hf
    rcases List.mem_cons.mp hf with rfl | hf
    · omega
    · exact hlive.started f hf
  · intro f hf hmem
    rcases List.mem_cons.mp hf with rfl | hf
    · have hlt := h.ended _ ((hends.ended _ hmem).resolve_right List.not_mem_nil)
      omega
    · exact hlive.notEnded f hf hmem
  · intro f hf
    rcases List.mem_cons.mp hf with rfl | hf
    · exact hnew.context
    · exact hlive.context f hf

/-- The frames have the tracer's spans, and only their own scopes attach their contexts. -/
structure World.Sole (w : World S) (frames : List (ExtendedStackTraceFrame X)) : Prop where
  started : ∀ x ∈ S.attached w.scopes.st, ∀ n, (S.contextOf x).span = some (.inferred n) → n < w.spansStarted
  sdk : ∀ frame ∈ frames, frame.span.isSdkSpan = env.isSdkSpan frame.span.number
  sole : ∀ frame ∈ frames, ∀ x ∈ (S.attached w.scopes.st).erase frame.scope, S.contextOf x ≠ S.contextOf frame.scope

variable {env}

theorem World.Sole.subset (h : w.Sole env frames) (hsub : kept ⊆ frames) : w.Sole env kept :=
  ⟨h.started, fun frame hframe => h.sdk frame (hsub hframe), fun frame hframe => h.sole frame (hsub hframe)⟩

/-- The scopes of new spans have other contexts. -/
theorem World.Sole.of_ends (h : w.Sole env frames) (hlive : w.Live frames) (hends : w.Ends w' numbers) :
    w'.Sole env frames := by
  obtain ⟨new, hsub, hnew⟩ := hends.attached
  refine ⟨fun x hx n hn => ?_, h.sdk, fun frame hframe x hx => ?_⟩
  · rcases List.mem_append.mp (hsub.subset hx) with hx | hx
    · obtain ⟨m, hspan, -, hlt⟩ := hnew x hx
      rw [hn, Option.some.injEq, SpanRef.inferred.injEq] at hspan
      omega
    · exact Nat.lt_of_lt_of_le (h.started x hx n hn) hends.spansStarted
  · have hcontext := hlive.context frame hframe
    have hnumber := hlive.started frame hframe
    have hother : ∀ y ∈ new, S.contextOf y ≠ S.contextOf frame.scope := by
      intro y hy heq
      obtain ⟨m, hspan, hle, -⟩ := hnew y hy
      rw [heq, hcontext, Option.some.injEq, SpanRef.inferred.injEq] at hspan
      omega
    have hmem := (hsub.erase frame.scope).subset hx
    rw [List.erase_append_right _ fun hscope => hother _ hscope rfl, List.mem_append] at hmem
    rcases hmem with hx | hx
    · exact hother x hx
    · exact h.sole frame hframe x hx

theorem World.Sole.cons (h : w.Sole env frames) (hlive : w.Live frames) (hends : w.Ends w' [])
    {frame : ExtendedStackTraceFrame X} (hnew : StartedIn env w w' frame) : w'.Sole env (frame :: frames) := by
  have hold := h.of_ends hlive hends
  refine ⟨hold.started, ?_, ?_⟩
  · intro f hf
    rcases List.mem_cons.mp hf with rfl | hf
    · exact hnew.sdk
    · exact hold.sdk f hf
  · intro f hf
    rcases List.mem_cons.mp hf with rfl | hf
    · intro x hx heq
      rw [hnew.attached, List.erase_cons_head] at hx
      have hlt := h.started x hx f.span.number (by rw [heq, hnew.context])
      have hnumber := hnew.number
      omega
    · exact hold.sole f hf

variable (env)

/-- Starting new frames leaves a list of live frames with the old ones in it, wherever it ends. -/
theorem startFrames_spec (attachStackTrace : Bool) (stackTraceId : ℕ) (new : List DebugBackTraceFrame) (h : w.Live frames)
    (parentContext : Option Context) :
    ∃ w' frames' thrown, startFrames cfg env fault durationMs top attachStackTrace stackTraceId w (listFrom 0 frames)
        parentContext new = (w', listFrom 0 frames', thrown) ∧ w'.Live frames' ∧ frames ⊆ frames' ∧
      w.closedSpans ⊆ w'.closedSpans ∧ (w.Sole env frames → w'.Sole env frames') ∧
      (thrown = none ∨ thrown = some .fault ∧ ∃ index call m, fault = some ⟨.new index, call, m⟩) := by
  induction new generalizing w frames parentContext with
  | nil => exact ⟨w, frames, none, rfl, h, List.Subset.refl _, List.Subset.refl _, id, .inl rfl⟩
  | cons frame above ih =>
    obtain ⟨hends, hnone, hsome⟩ := tryStartFrameSpan_spec env (throwsAt fault (.new above.length)) w frame durationMs
      parentContext stackTraceId
    rw [startFrames]
    generalize w.tryStartFrameSpan env (throwsAt fault (.new above.length)) frame durationMs parentContext
      stackTraceId = result at hends hnone hsome ⊢
    obtain ⟨w₁, started⟩ := result
    have hlive : w₁.Live frames := h.of_ends hends fun n hn => by cases hn
    cases started with
    | none =>
      obtain ⟨call, m, hm⟩ := hnone rfl
      exact ⟨w₁, frames, some .fault, rfl, hlive, List.Subset.refl _, hends.closed,
        fun hsole => hsole.of_ends h hends, .inr ⟨rfl, _, _, _, throwsAt_eq_some hm⟩⟩
    | some newFrame =>
      have hnew : StartedIn env w w₁ newFrame := hsome newFrame rfl
      simp only
      by_cases hattribute : attachStackTrace = true ∧ throwsAt fault (.new above.length) .setAttribute ≠ none
      · rw [if_pos hattribute]
        obtain ⟨m, hm⟩ := Option.ne_none_iff_exists'.mp hattribute.2
        exact ⟨w₁, frames, some .fault, rfl, hlive, List.Subset.refl _, hends.closed,
        fun hsole => hsole.of_ends h hends, .inr ⟨rfl, _, _, _, throwsAt_eq_some hm⟩⟩
      · rw [if_neg hattribute]
        by_cases hlast : above = [] ∧ top = true
        · -- the internal function at the top ends at once
          obtain ⟨hended, hthrown⟩ := tryEndFrameSpan_spec cfg env (throwsAt fault (.new above.length)) w₁ newFrame false
            none
          rw [if_pos hlast]
          generalize w₁.tryEndFrameSpan cfg env (throwsAt fault (.new above.length)) newFrame false none = result
            at hended hthrown ⊢
          obtain ⟨w₂, thrown⟩ := result
          have hlive₂ : w₂.Live frames := hlive.of_ends hended fun n hn => by
            rw [List.mem_singleton.mp hn, hnew.number]
            refine ⟨fun hmem => ?_, Nat.lt_of_lt_of_le hnew.started hended.spansStarted⟩
            obtain ⟨f, hf, heq⟩ := List.mem_map.mp hmem
            have hlt := h.started f hf
            omega
          have hclosed : w.closedSpans ⊆ w₂.closedSpans := (hends.trans hended).closed
          have hsole : w.Sole env frames → w₂.Sole env frames := fun hsole => hsole.of_ends h (hends.trans hended)
          cases thrown with
          | false => exact ⟨w₂, frames, none, rfl, hlive₂, List.Subset.refl _, hclosed, hsole, .inl rfl⟩
          | true =>
            obtain ⟨call, m, hfrom⟩ := hthrown rfl
            exact ⟨w₂, frames, some .fault, rfl, hlive₂, List.Subset.refl _, hclosed, hsole,
              .inr ⟨rfl, _, _, _, throwsAt_eq_some hfrom.throws⟩⟩
        · rw [if_neg hlast, unshift_listFrom]
          obtain ⟨w', frames', thrown, hrun, hlive', hkept, hclosed, hsole, hthrown⟩ :=
            ih (h.cons env hends hnew) none
          exact ⟨w', frames', thrown, hrun, hlive', List.Subset.trans (List.subset_cons_self _ _) hkept,
            List.Subset.trans hends.closed hclosed, fun h' => hsole (h'.cons h hends hnew), hthrown⟩

end Loops

end OtelDistro.InferredSpans
