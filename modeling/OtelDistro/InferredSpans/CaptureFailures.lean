import OtelDistro.InferredSpans.ThrowingLoops

/-!
# OtelDistro.InferredSpans.CaptureFailures — what a capture that throws leaves behind

`compareStackTraces` takes the frames that are gone out of `lastStackTrace` one by one and renumbers the rest afterwards,
so what is left depends on the call that has thrown.

* `Instance.Proper`: `lastStackTrace` is a list of frames whose spans have not ended.
* `Fault.Harmless`: the call was made for a new frame, or for the topmost old one, and has not ended its span.
* `Leaves`: what one comparison does to a list of live frames (`compareStackTraces_spec`).
* `World.Closable`: `endFrameSpan` does close the frame (`closable_of_path`: where the context is attached by nobody else).

`proper_of_path`: in a run whose throws are harmless `lastStackTrace` stays a list, later comparisons and the shutdown
throw nothing of their own and close what is gone.  `torn_of_run`: after any throw for a lower old frame every comparison
ends in a type error.
-/

namespace OtelDistro.InferredSpans

open OtelDistro.Lib OtelDistro.Lib.IndexedArray

variable {X : Type} [DecidableEq X] {S : ScopeStorage Context X} (cfg : Config) (env : Env)

section Comparison

variable (fault : Option Fault) (durationMs : ℤ) (top : Bool) {w w' : World S}
  {frames kept : List (ExtendedStackTraceFrame X)}

/-! ## One comparison -/

/-- `lastStackTrace` is a list of frames whose spans have not ended. -/
def Instance.Proper (s : Instance S) : Prop :=
  ∃ frames, s.lastStackTrace = listFrom 0 frames ∧ ∀ frame ∈ frames, frame.span.number ∉ s.world.endedSpans

/-- The frames of the list are live. -/
def Instance.Sound (s : Instance S) : Prop := ∃ frames, s.lastStackTrace = listFrom 0 frames ∧ s.world.Live frames

theorem Instance.Sound.proper {s : Instance S} (h : s.Sound) : s.Proper := by
  obtain ⟨frames, hlist, hlive⟩ := h
  exact ⟨frames, hlist, hlive.notEnded⟩

/-- The frames of the array. -/
def Instance.onStack (s : Instance S) : List (ExtendedStackTraceFrame X) := s.lastStackTrace.filterMap Prod.snd

omit [DecidableEq X] in
theorem filterMap_listFrom (first : ℕ) (frames : List (ExtendedStackTraceFrame X)) :
    (listFrom first frames).filterMap Prod.snd = frames := by
  have h := List.filterMap_map (l := numbered first (frames.map some)) (f := Prod.snd) (g := fun frame => frame)
  rw [map_snd_numbered, List.filterMap_map] at h
  simpa [listFrom] using h.symm

/-- Nothing but the frames' scopes attaches their contexts. -/
def Instance.Sole (s : Instance S) : Prop := s.world.Sole env s.onStack

theorem sole_iff_of_list {s : Instance S} (h : s.lastStackTrace = listFrom 0 frames) :
    s.Sole env ↔ s.world.Sole env frames := by
  rw [Instance.Sole, Instance.onStack, h, filterMap_listFrom]

/-- The call is for a frame that is started, or for the topmost of the old frames, whose span it has not ended. -/
def Fault.Harmless (f : Fault) : Prop :=
  match f.place with
  | .old index => index = 0 ∧ ¬ (f.call = .endSpan ∧ f.moment = .after)
  | .new _ => True

omit [DecidableEq X] in
theorem first_of_listFrom_eq {first : ℕ} {frame : ExtendedStackTraceFrame X}
    {frames frames' : List (ExtendedStackTraceFrame X)} (h : listFrom first (frame :: frames) = listFrom 0 frames') :
    first = 0 := by
  cases frames' with
  | nil => cases h
  | cons frame' frames' => exact congrArg Prod.fst (List.cons.inj h).1

/-- The array is not empty and has no frame under the key zero. -/
def Instance.Torn (s : Instance S) : Prop := s.lastStackTrace ≠ [] ∧ frameAt s.lastStackTrace 0 = none

/-- What a comparison that began with a list of live frames in `s` leaves and throws. -/
inductive Leaves (fault : Option Fault) (s s' : Instance S) : Option Thrown → Prop
  | done (sound : s'.Sound) (sole : s.Sole env → s'.Sole env) : Leaves fault s s' none
  | harmless (f : Fault) (hfault : fault = some f) (hharmless : f.Harmless) (sound : s'.Sound)
      (sole : s.Sole env → s'.Sole env) : Leaves fault s s' (some .fault)
  | harmful (f : Fault) (hfault : fault = some f) (hharmful : ¬ f.Harmless) (improper : ¬ s'.Proper)
      (torn : f.place ≠ .old 0 → s'.Torn) : Leaves fault s s' (some .fault)

variable (attachStackTrace : Bool)

/-- A comparison from a list of live frames leaves such a list, unless a harmful call has thrown: then it does not even
leave a proper one. -/
theorem compareStackTraces_spec {s : Instance S} (h : s.Sound) (stackTrace : List DebugBackTraceFrame)
    (apmFramesFilteredOut : Option ℕ) :
    let result := s.compareStackTraces cfg env fault durationMs top attachStackTrace stackTrace apmFramesFilteredOut
    Leaves env fault s result.1 result.2 := by
  obtain ⟨frames, hlist, hlive⟩ := h
  obtain ⟨hsame, hlength⟩ := sameFrames_list frames stackTrace
  unfold Instance.compareStackTraces
  simp only [hlist, length_listFrom, hsame]
  generalize getHowManyStackFramesAreIdenticalFromStackBottom stackTrace frames = count at hlength
  have hold := (List.take_append_drop (frames.length - count) frames).symm
  generalize frames.take (frames.length - count) = gone at hold hlength
  generalize frames.drop (frames.length - count) = kept at hold
  rw [← hlength]
  subst hold
  rcases endGoneFrames_spec cfg env fault durationMs top kept gone s.world (Nat.zero_add gone.length) {} with
    ⟨w', hrun, hends⟩ | ⟨done, frame, below, w₁, w', call, m, rfl, hrun, hends, hfrom⟩
  · rw [hrun]
    simp only [values_listFrom]
    obtain ⟨w'', frames', thrown, hstart, hlive', -, -, hstarted, hthrown⟩ := startFrames_spec cfg env fault durationMs top
      attachStackTrace (s.stackTraceId + 1) (stackTrace.take (stackTrace.length - count)).reverse
      (hlive.of_ends_above hends) (firstParent apmFramesFilteredOut (listFrom 0 kept))
    rw [hstart]
    have hsound : Instance.Sound ⟨listFrom 0 frames', s.stackTraceId + 1, s.shutdown, w''⟩ := ⟨frames', rfl, hlive'⟩
    have hsole : s.Sole env → Instance.Sole env ⟨listFrom 0 frames', s.stackTraceId + 1, s.shutdown, w''⟩ := by
      intro h
      have hgone := ((sole_iff_of_list env hlist).mp h).of_ends hlive hends
      exact (sole_iff_of_list env rfl).mpr (hstarted (hgone.subset (List.subset_append_right gone kept)))
    rcases hthrown with rfl | ⟨rfl, index, call, m, hfault⟩
    · exact .done hsound hsole
    · exact .harmless _ hfault trivial hsound hsole
  · rw [hrun]
    have hfault := throwsAt_eq_some hfrom.throws
    rw [Nat.zero_add] at hfault ⊢
    cases done with
    | nil =>
      by_cases hend : call = .endSpan ∧ m = .after
      · refine .harmful _ hfault (fun hharmless => hharmless.2 hend) ?_ fun hplace => absurd rfl hplace
        rintro ⟨frames', hlist', hopen⟩
        obtain rfl := listFrom_injective 0 _ hlist'
        exact hopen frame List.mem_cons_self (hfrom.ended hend.1 hend.2)
      · have hends' := hends.trans (hfrom.notEnded hend)
        refine .harmless _ hfault ⟨rfl, hend⟩ ⟨_, rfl, hlive.of_ends hends' fun n hn => by cases hn⟩ fun h => ?_
        exact (sole_iff_of_list env rfl).mpr (((sole_iff_of_list env hlist).mp h).of_ends hlive hends')
    | cons frame' done =>
      refine .harmful _ hfault (fun hharmless => by cases hharmless.1) ?_ fun _ => ⟨?_, ?_⟩
      · rintro ⟨frames', hlist', -⟩
        cases first_of_listFrom_eq hlist'
      · exact List.cons_ne_nil _ _
      · exact frameAt_listFrom_lt _ _ (Nat.succ_pos _)

/-! ## Without a throw -/

theorem tryEndFrameSpan_none (place : Place) (w : World S) (frame : ExtendedStackTraceFrame X) (dropSpan : Bool)
    (endEpochNanos : Option ℤ) : w.tryEndFrameSpan cfg env (throwsAt none place) frame dropSpan endEpochNanos =
      (w.endFrameSpan cfg env frame dropSpan endEpochNanos, false) := by
  unfold World.tryEndFrameSpan World.endFrameSpan
  generalize (if dropSpan = false then w.shouldDropTooShortSpan cfg env frame endEpochNanos
    else (w, dropSpan)) = decision
  obtain ⟨w₁, drop⟩ := decision
  simp only [throwsAt_none, ite_self, attempt_none]
  by_cases hsdk : frame.span.isSdkSpan = false
  · rw [if_pos hsdk, if_pos hsdk]
  · rw [if_neg hsdk, if_neg hsdk]
    cases drop with
    | true => rfl
    | false =>
      rw [if_neg Bool.false_ne_true, if_neg Bool.false_ne_true]
      by_cases hflag : (w₁.detach frame.scope).2 = true
      · rw [if_pos hflag, if_pos hflag]
      · rw [if_neg hflag, if_neg hflag]
        by_cases hcurrent : S.contextOf frame.scope = (w₁.detach frame.scope).1.getCurrent
        · rw [if_pos hcurrent, if_pos hcurrent]
        · rw [if_neg hcurrent, if_neg hcurrent]

theorem tryReduceFrame_none (place : Place) (w : World S) (frame : ExtendedStackTraceFrame X)
    (below : List (ExtendedStackTraceFrame X)) (st : ReduceState) :
    w.tryReduceFrame cfg env (throwsAt none place) frame below st =
      (((w.reduceFrame cfg env frame below st).1, false), (w.reduceFrame cfg env frame below st).2) := by
  rw [World.tryReduceFrame, throwsAt_none, ite_self, attempt_none]

theorem tryStartFrameSpan_none (place : Place) (w : World S) (frame : DebugBackTraceFrame) (durationMs : ℤ)
    (parentContext : Option Context) (stackTraceId : ℕ) :
    w.tryStartFrameSpan env (throwsAt none place) frame durationMs parentContext stackTraceId =
      ((w.startFrameSpan env frame durationMs parentContext stackTraceId).1,
        some (w.startFrameSpan env frame durationMs parentContext stackTraceId).2) := rfl

theorem endGoneFrames_none {oldFramesCount : ℕ} (kept gone : List (ExtendedStackTraceFrame X)) (w : World S) {index : ℕ}
    (hindex : index + gone.length = oldFramesCount) (st : ReduceState) :
    endGoneFrames cfg env none durationMs top oldFramesCount gone.length w (listFrom index (gone ++ kept)) st =
      (w.endOldFrames cfg env durationMs top gone st, listFrom oldFramesCount kept, none) := by
  induction gone generalizing w index st with
  | nil =>
    obtain rfl : index = oldFramesCount := hindex
    rfl
  | cons frame gone ih =>
    rw [List.length_cons] at hindex
    have hkey : oldFramesCount - (gone.length + 1) = index := by omega
    have hframe : frameAt (listFrom index (frame :: gone ++ kept)) index = some frame := frameAt_listFrom index _ 0
    have hbelow : framesFrom (listFrom index (frame :: gone ++ kept)) (index + 1) gone.length = gone :=
      framesFrom_listFrom index gone [frame] kept
    rw [List.length_cons, endGoneFrames]
    simp only [hkey, hframe, hbelow, tryReduceFrame_none, tryEndFrameSpan_none]
    rw [List.cons_append, unset_listFrom, ih _ (by omega), endOldFrames_cons]
    rfl

theorem startFrames_none (stackTraceId : ℕ) (new : List DebugBackTraceFrame) (w : World S)
    (frames : List (ExtendedStackTraceFrame X)) (parentContext : Option Context) :
    startFrames cfg env none durationMs top attachStackTrace stackTraceId w (listFrom 0 frames) parentContext new =
      ((w.startNewFrames cfg env durationMs top stackTraceId frames parentContext new).1,
        listFrom 0 (w.startNewFrames cfg env durationMs top stackTraceId frames parentContext new).2, none) := by
  induction new generalizing w frames parentContext with
  | nil => rfl
  | cons frame above ih =>
    rw [startFrames, World.startNewFrames]
    simp only [tryStartFrameSpan_none, throwsAt_none, ne_eq, not_true_eq_false, and_false, if_false]
    by_cases hlast : above = [] ∧ top = true
    · rw [if_pos hlast, if_pos hlast, tryEndFrameSpan_none]
    · rw [if_neg hlast, if_neg hlast, unshift_listFrom]
      exact ih _ _ _

/-- The object whose `lastStackTrace` is the list of a state. -/
def Instance.ofState (s : State S) : Instance S := ⟨listFrom 0 s.lastStackTrace, s.stackTraceId, s.shutdown, s.world⟩

/-- If no call throws, a comparison from a list is the one of `State.compareStackTraces`. -/
theorem compareStackTraces_none (s : State S) (stackTrace : List DebugBackTraceFrame)
    (apmFramesFilteredOut : Option ℕ) :
    (Instance.ofState s).compareStackTraces cfg env none durationMs top attachStackTrace stackTrace
        apmFramesFilteredOut =
      (.ofState (s.compareStackTraces cfg env stackTrace durationMs top apmFramesFilteredOut), none) := by
  obtain ⟨hsame, hlength⟩ := sameFrames_list s.lastStackTrace stackTrace
  have hhead : ∀ frames : List (ExtendedStackTraceFrame X), frameAt (listFrom 0 frames) 0 = frames.head? :=
    fun frames => (frameAt_listFrom 0 frames 0).trans List.head?_eq_getElem?.symm
  unfold Instance.compareStackTraces Instance.ofState State.compareStackTraces
  simp only [length_listFrom, hsame]
  generalize getHowManyStackFramesAreIdenticalFromStackBottom stackTrace s.lastStackTrace = count at hlength
  have hend := endGoneFrames_none cfg env durationMs top (s.lastStackTrace.drop (s.lastStackTrace.length - count))
    (s.lastStackTrace.take (s.lastStackTrace.length - count)) s.world (Nat.zero_add _) {}
  rw [hlength, List.take_append_drop] at hend
  cases apmFramesFilteredOut with
  | none => simp only [hend, values_listFrom, firstParent, startFrames_none]
  | some n => simp only [hend, values_listFrom, firstParent, hhead, startFrames_none]

/-! ## Closing the frames that are gone -/

/-- The frame has an SDK span, and its context is attached by its own scope only: `endFrameSpan` leaves a span alone whose
context is still current. -/
def World.Closable (w : World S) (frame : ExtendedStackTraceFrame X) : Prop :=
  frame.span.isSdkSpan = true ∧
    ∀ x ∈ (S.attached w.scopes.st).erase frame.scope, S.contextOf x ≠ S.contextOf frame.scope

theorem World.Closable.of_sublist {frame : ExtendedStackTraceFrame X} (h : w.Closable frame)
    (hsub : (S.attached w'.scopes.st).Sublist (S.attached w.scopes.st)) : w'.Closable frame :=
  ⟨h.1, fun x hx => h.2 x ((hsub.erase frame.scope).subset hx)⟩

theorem ends_endFrameSpan (w : World S) (frame : ExtendedStackTraceFrame X) (dropSpan : Bool)
    (endEpochNanos : Option ℤ) : w.Ends (w.endFrameSpan cfg env frame dropSpan endEpochNanos) [frame.span.number] := by
  have h := (tryEndFrameSpan_spec cfg env (throwsAt none (.old 0)) w frame dropSpan endEpochNanos).1
  rwa [tryEndFrameSpan_none] at h

/-- Ending a frame detaches its scope at most. -/
theorem attached_endFrameSpan (w : World S) (frame : ExtendedStackTraceFrame X) (dropSpan : Bool)
    (endEpochNanos : Option ℤ) : (S.attached (w.endFrameSpan cfg env frame dropSpan endEpochNanos).scopes.st).Sublist
      (S.attached w.scopes.st) := by
  by_cases hsdk : frame.span.isSdkSpan = true
  · rw [(detach_keeps_endFrameSpan cfg env hsdk w dropSpan endEpochNanos).scopes]
    have herase : S.attached (w.detach frame.scope).1.scopes.st = (S.attached w.scopes.st).erase frame.scope :=
      S.attached_detach w.scopes.st frame.scope
    rw [herase]
    exact List.erase_sublist
  · rw [Bool.not_eq_true] at hsdk
    have hkeeps := keeps_dropDecision cfg env w frame dropSpan endEpochNanos
    unfold World.endFrameSpan
    generalize (if dropSpan = false then w.shouldDropTooShortSpan cfg env frame endEpochNanos
      else (w, dropSpan)) = decision at hkeeps
    simp only [if_pos hsdk, hkeeps.scopes]
    exact List.Sublist.refl _

/-- The world in which an old frame is ended. -/
theorem sameSpans_beforeEnd (w : World S) (frame : ExtendedStackTraceFrame X)
    (below : List (ExtendedStackTraceFrame X)) (st : ReduceState) :
    w.SameSpans ((w.endTime env durationMs top).1.reduceFrame cfg env frame below st).1 :=
  (sameSpans_endTime env durationMs top w).1.trans (sameSpans_reduceFrame cfg env _ frame below st)

theorem ends_endOldFrame (w : World S) (frame : ExtendedStackTraceFrame X) (below : List (ExtendedStackTraceFrame X))
    (st : ReduceState) : w.Ends (w.endOldFrame cfg env durationMs top frame below st).1 [frame.span.number] :=
  (sameSpans_beforeEnd cfg env durationMs top w frame below st).ends.trans (ends_endFrameSpan cfg env _ frame _ _)

theorem attached_endOldFrame (w : World S) (frame : ExtendedStackTraceFrame X)
    (below : List (ExtendedStackTraceFrame X)) (st : ReduceState) :
    (S.attached (w.endOldFrame cfg env durationMs top frame below st).1.scopes.st).Sublist
      (S.attached w.scopes.st) := by
  rw [← (sameSpans_beforeEnd cfg env durationMs top w frame below st).scopes]
  exact attached_endFrameSpan cfg env _ frame _ _

/-- A frame that can be closed is, by the end of it. -/
theorem mem_closedSpans_endOldFrame {frame : ExtendedStackTraceFrame X} (h : w.Live (frame :: kept))
    (hclosable : w.Closable frame) (below : List (ExtendedStackTraceFrame X)) (st : ReduceState) :
    frame.span.number ∈ (w.endOldFrame cfg env durationMs top frame below st).1.closedSpans := by
  have hsame := sameSpans_beforeEnd cfg env durationMs top w frame below st
  have hopen : frame.span.number ∉ ((w.endTime env durationMs top).1.reduceFrame cfg env frame below st).1.endedSpans := by
    rw [hsame.ended]
    exact h.notEnded frame List.mem_cons_self
  have hcurrent : ∀ w' : World S, w'.scopes =
      (((w.endTime env durationMs top).1.reduceFrame cfg env frame below st).1.detach frame.scope).1.scopes →
      S.contextOf frame.scope ≠ w'.getCurrent := by
    intro w' hscopes heq
    have hattached : S.attached w'.scopes.st = (S.attached w.scopes.st).erase frame.scope := by
      rw [hscopes, ← hsame.scopes]
      exact S.attached_detach _ frame.scope
    rw [World.getCurrent, hattached] at heq
    cases hst : (S.attached w.scopes.st).erase frame.scope with
    | nil =>
      -- the root context has no span
      have hcontext := h.context frame List.mem_cons_self
      rw [hst] at heq
      rw [heq] at hcontext
      cases hcontext
    | cons x rest =>
      rw [hst] at heq
      exact hclosable.2 x (hst ▸ List.mem_cons_self) heq.symm
  obtain ⟨drop, hcloses, -⟩ := closesOne_endFrameSpan cfg env hclosable.1 hopen hcurrent
    ((w.endTime env durationMs top).1.reduceFrame cfg env frame below st).2.1 (w.endTime env durationMs top).2
  unfold World.endOldFrame World.closedSpans
  rw [hcloses.ended, hcloses.dropped]
  cases drop <;> simp

/-- Every frame that is gone and can be closed is; the others stay live. -/
theorem closes_endOldFrames (gone : List (ExtendedStackTraceFrame X)) (h : w.Live (gone ++ kept)) (st : ReduceState) :
    (w.endOldFrames cfg env durationMs top gone st).Live kept ∧
      w.closedSpans ⊆ (w.endOldFrames cfg env durationMs top gone st).closedSpans ∧
      ∀ frame ∈ gone, w.Closable frame →
        frame.span.number ∈ (w.endOldFrames cfg env durationMs top gone st).closedSpans := by
  induction gone generalizing w st with
  | nil => exact ⟨h, List.Subset.refl _, fun frame hframe => absurd hframe List.not_mem_nil⟩
  | cons frame gone ih =>
    have hends := ends_endOldFrame cfg env durationMs top w frame gone st
    have habove : w.Live ([frame] ++ (gone ++ kept)) := h
    have hlive : (w.endOldFrame cfg env durationMs top frame gone st).1.Live (gone ++ kept) :=
      habove.of_ends_above hends
    obtain ⟨hkept, hclosed, hgone⟩ := ih hlive (w.endOldFrame cfg env durationMs top frame gone st).2
    rw [endOldFrames_cons]
    refine ⟨hkept, List.Subset.trans hends.closed hclosed, fun f hf hclosable => ?_⟩
    rcases List.mem_cons.mp hf with rfl | hf
    · exact hclosed (mem_closedSpans_endOldFrame cfg env durationMs top h hclosable gone st)
    · exact hgone f hf (hclosable.of_sublist (attached_endOldFrame cfg env durationMs top w frame gone st))

/-- New frames come on top of the others. -/
theorem subset_startNewFrames (stackTraceId : ℕ) (new : List DebugBackTraceFrame) (h : w.Live frames)
    (parentContext : Option Context) :
    frames ⊆ (w.startNewFrames cfg env durationMs top stackTraceId frames parentContext new).2 ∧
      w.closedSpans ⊆ (w.startNewFrames cfg env durationMs top stackTraceId frames parentContext new).1.closedSpans := by
  obtain ⟨w', frames', thrown, hrun, -, hkept, hclosed, -⟩ := startFrames_spec cfg env none durationMs top false
    stackTraceId new h parentContext
  rw [startFrames_none, Prod.mk.injEq, Prod.mk.injEq] at hrun
  obtain ⟨rfl, hlist, -⟩ := hrun
  obtain rfl := listFrom_injective 0 _ hlist
  exact ⟨hkept, hclosed⟩

/-- A comparison keeps a frame on the list or closes it, if it can. -/
theorem kept_or_closed_compareStackTraces {s : State S} (h : s.world.Live s.lastStackTrace)
    (stackTrace : List DebugBackTraceFrame) (apmFramesFilteredOut : Option ℕ) :
    let s' := s.compareStackTraces cfg env stackTrace durationMs top apmFramesFilteredOut
    ∀ frame ∈ s.lastStackTrace, s.world.Closable frame →
      frame ∈ s'.lastStackTrace ∨ frame.span.number ∈ s'.world.closedSpans := by
  unfold State.compareStackTraces
  generalize getHowManyStackFramesAreIdenticalFromStackBottom stackTrace s.lastStackTrace = count
  have hold := (List.take_append_drop (s.lastStackTrace.length - count) s.lastStackTrace).symm
  dsimp only
  generalize s.lastStackTrace.take (s.lastStackTrace.length - count) = gone at hold ⊢
  generalize s.lastStackTrace.drop (s.lastStackTrace.length - count) = kept at hold ⊢
  rw [hold] at h ⊢
  intro frame hframe hclosable
  obtain ⟨hlive, -, hgone⟩ := closes_endOldFrames cfg env durationMs top gone h {}
  obtain ⟨hkept, hclosed⟩ := subset_startNewFrames cfg env durationMs top (s.stackTraceId + 1)
    (stackTrace.take (stackTrace.length - count)).reverse hlive _
  rcases List.mem_append.mp hframe with hframe | hframe
  · exact .inr (hclosed (hgone frame hframe hclosable))
  · exact .inl (hkept hframe)

end Comparison

/-! ## Runs -/

section Runs

variable (attachStackTrace : Bool)

variable (S) in
/-- The object is constructed. -/
def Instance.init (st : S.St) : Instance S := { world := { scopes := ⟨st, []⟩ } }

/-- Captures, the shutdown, and what other parties do with scopes. -/
inductive ThrowingAction (X : Type)
  | captureStackTrace (backtrace : List DebugBackTraceFrame) (durationMs : ℤ) (topFrameIsInternalFunction : Bool)
      (fault : Option Fault)
  | shutdown (fault : Option Fault)
  | appAttach (context : Context)
  | appDetach (scope : X)

/-- The call of the action that throws. -/
def ThrowingAction.fault : ThrowingAction X → Option Fault
  | .captureStackTrace _ _ _ fault => fault
  | .shutdown fault => fault
  | .appAttach _ => none
  | .appDetach _ => none

/-- One action; other parties may detach any scope, also those of the frames. -/
def throwingStep (s : Instance S) : ThrowingAction X → Option (Instance S)
  | .captureStackTrace backtrace durationMs top fault =>
    some (s.captureStackTrace cfg env fault durationMs top attachStackTrace backtrace).1
  | .shutdown fault => some (s.shutdownSpans cfg env fault attachStackTrace).1
  | .appAttach context =>
    some { s with world := { s.world with scopes := (s.world.scopes.attachOther context).1 } }
  | .appDetach scope => some { s with world := { s.world with scopes := s.world.scopes.detachOther scope } }

/-- The call that throws, if there is one, is harmless. -/
def ThrowsHarmless (_ : Instance S) (a : ThrowingAction X) : Prop := ∀ f, a.fault = some f → f.Harmless

variable {s s' : Instance S}

theorem captureStackTrace_spec (fault : Option Fault) (durationMs : ℤ) (top : Bool) (h : s.Sound)
    (backtrace : List DebugBackTraceFrame) :
    let result := s.captureStackTrace cfg env fault durationMs top attachStackTrace backtrace
    Leaves env fault s result.1 result.2 := by
  unfold Instance.captureStackTrace
  by_cases hs : s.shutdown = true
  · rw [if_pos hs]
    exact .done h id
  · rw [if_neg hs]
    exact compareStackTraces_spec cfg env fault durationMs top attachStackTrace h _ _

variable {env} in
theorem Leaves.sound {fault : Option Fault} {thrown : Option Thrown} (h : Leaves env fault s s' thrown)
    (hharmless : ∀ f, fault = some f → f.Harmless) : s'.Sound ∧ (s.Sole env → s'.Sole env) := by
  cases h with
  | done sound sole => exact ⟨sound, sole⟩
  | harmless f hfault hf sound sole => exact ⟨sound, sole⟩
  | harmful f hfault hf improper torn => exact absurd (hharmless f hfault) hf

variable {env} in
theorem Leaves.proper_iff {f : Fault} {thrown : Option Thrown} (h : Leaves env (some f) s s' thrown)
    (hthrown : thrown ≠ none) :
    s'.Proper ↔ f.Harmless := by
  cases h with
  | done sound _ => exact absurd rfl hthrown
  | harmless f' hfault hf sound _ =>
    obtain rfl := Option.some.inj hfault
    exact ⟨fun _ => hf, fun _ => sound.proper⟩
  | harmful f' hfault hf improper torn =>
    obtain rfl := Option.some.inj hfault
    exact ⟨fun hproper => absurd hproper improper, fun hharmless => absurd hharmless hf⟩

variable {env} in
theorem Leaves.torn {f : Fault} {thrown : Option Thrown} (h : Leaves env (some f) s s' thrown) (hthrown : thrown ≠ none)
    (hplace : f.place ≠ .old 0) (hharmful : ¬ f.Harmless) : s'.Torn := by
  cases h with
  | done sound _ => exact absurd rfl hthrown
  | harmless f' hfault hf sound _ =>
    obtain rfl := Option.some.inj hfault
    exact absurd hf hharmful
  | harmful f' hfault hf improper torn =>
    obtain rfl := Option.some.inj hfault
    exact torn hplace

theorem Instance.Sound.step {a : ThrowingAction X} (h : s.Sound) (hok : ThrowsHarmless s a)
    (hstep : throwingStep cfg env attachStackTrace s a = some s') : s'.Sound := by
  cases a with
  | captureStackTrace backtrace durationMs top fault =>
    obtain rfl := Option.some.inj hstep
    exact ((captureStackTrace_spec cfg env attachStackTrace fault durationMs top h backtrace).sound hok).1
  | shutdown fault =>
    obtain rfl := Option.some.inj hstep
    have h' : Instance.Sound { s with shutdown := true } := h
    exact ((compareStackTraces_spec cfg env fault 0 false attachStackTrace h' [] (some 0)).sound hok).1
  | appAttach context =>
    obtain rfl := Option.some.inj hstep
    obtain ⟨frames, hlist, hlive⟩ := h
    exact ⟨frames, hlist, ⟨hlive.nodup, hlive.started, hlive.notEnded, hlive.ended, hlive.context⟩⟩
  | appDetach scope =>
    obtain rfl := Option.some.inj hstep
    obtain ⟨frames, hlist, hlive⟩ := h
    exact ⟨frames, hlist, ⟨hlive.nodup, hlive.started, hlive.notEnded, hlive.ended, hlive.context⟩⟩

theorem sound_init (st : S.St) : (Instance.init S st).Sound := by
  refine ⟨[], rfl, ⟨List.nodup_nil, ?_, ?_, ?_, ?_⟩⟩
  · exact fun frame hframe => absurd hframe List.not_mem_nil
  · exact fun frame hframe => absurd hframe List.not_mem_nil
  · exact fun n hn => absurd hn List.not_mem_nil
  · exact fun frame hframe => absurd hframe List.not_mem_nil

/-- The frames that are left are kept or closed, if they can be. -/
def Instance.KeepsOrCloses (s s' : Instance S) : Prop :=
  ∀ frame ∈ s.onStack, s.world.Closable frame →
    frame ∈ s'.onStack ∨ frame.span.number ∈ s'.world.closedSpans

theorem Instance.Sound.exists_state (h : s.Sound) :
    ∃ state : State S, s = .ofState state ∧ state.world.Live state.lastStackTrace := by
  obtain ⟨lastStackTrace, stackTraceId, shutdown, world⟩ := s
  obtain ⟨frames, rfl, hlive⟩ := h
  exact ⟨⟨frames, stackTraceId, shutdown, world⟩, rfl, hlive⟩

theorem onStack_ofState (state : State S) : (Instance.ofState state).onStack = state.lastStackTrace :=
  filterMap_listFrom 0 state.lastStackTrace

/-- A comparison without a throw. -/
theorem Instance.Sound.compareStackTraces_none (h : s.Sound) (durationMs : ℤ) (top : Bool)
    (stackTrace : List DebugBackTraceFrame) (apmFramesFilteredOut : Option ℕ) :
    let result := s.compareStackTraces cfg env none durationMs top attachStackTrace stackTrace apmFramesFilteredOut
    result.2 = none ∧ s.KeepsOrCloses result.1 := by
  obtain ⟨state, rfl, hlive⟩ := h.exists_state
  rw [InferredSpans.compareStackTraces_none]
  refine ⟨rfl, fun frame hframe hclosable => ?_⟩
  rw [onStack_ofState] at hframe ⊢
  exact kept_or_closed_compareStackTraces cfg env durationMs top hlive stackTrace apmFramesFilteredOut frame hframe
    hclosable

/-- The shutdown without a throw. -/
theorem Instance.Sound.shutdownSpans_none (h : s.Sound) :
    let result := s.shutdownSpans cfg env none attachStackTrace
    result.2 = none ∧ result.1.lastStackTrace = [] ∧ s.KeepsOrCloses result.1 := by
  have hsound : Instance.Sound { s with shutdown := true } := h
  obtain ⟨hnone, hclosed⟩ := hsound.compareStackTraces_none cfg env attachStackTrace 0 false [] (some 0)
  refine ⟨hnone, ?_, hclosed⟩
  obtain ⟨state, rfl, -⟩ := h.exists_state
  have hshutdown : ((Instance.ofState state).shutdownSpans cfg env none attachStackTrace).1 =
      .ofState (state.shutdownSpans cfg env) :=
    congrArg Prod.fst (InferredSpans.compareStackTraces_none cfg env 0 false attachStackTrace
      { state with shutdown := true } [] (some 0))
  rw [hshutdown, Instance.ofState, lastStackTrace_shutdownSpans]
  rfl

/-- **Captures that throw**: in every run whose throws are harmless, `lastStackTrace` is a list of frames whose spans have
not ended; the next capture and the shutdown run without an exception of their own, a frame that they take off the list is
closed, and the shutdown leaves none; and a capture during which a call throws leaves such a list exactly if the call is
harmless. -/
theorem proper_of_path {st : S.St} {acts : List (ThrowingAction X)}
    (h : Path (throwingStep cfg env attachStackTrace) ThrowsHarmless (Instance.init S st) acts s) :
    s.Proper ∧
    (∀ backtrace durationMs top,
      let result := s.captureStackTrace cfg env none durationMs top attachStackTrace backtrace
      result.2 = none ∧ s.KeepsOrCloses result.1) ∧
    ((s.shutdownSpans cfg env none attachStackTrace).2 = none ∧
      (s.shutdownSpans cfg env none attachStackTrace).1.lastStackTrace = [] ∧
      s.KeepsOrCloses (s.shutdownSpans cfg env none attachStackTrace).1) ∧
    ∀ f backtrace durationMs top,
      let result := s.captureStackTrace cfg env (some f) durationMs top attachStackTrace backtrace
      result.2 ≠ none → (result.1.Proper ↔ f.Harmless) := by
  have hsound : s.Sound :=
    h.invariant (fun _ _ _ hI hok hstep => Instance.Sound.step cfg env attachStackTrace hI hok hstep) (sound_init st)
  refine ⟨hsound.proper, fun backtrace durationMs top => ?_, hsound.shutdownSpans_none cfg env attachStackTrace,
    fun f backtrace durationMs top hthrown => ?_⟩
  · unfold Instance.captureStackTrace
    by_cases hs : s.shutdown = true
    · rw [if_pos hs]
      exact ⟨rfl, fun frame hframe _ => .inl hframe⟩
    · rw [if_neg hs]
      exact hsound.compareStackTraces_none cfg env attachStackTrace durationMs top _ _
  · exact (captureStackTrace_spec cfg env attachStackTrace (some f) durationMs top hsound backtrace).proper_iff hthrown

/-! ## Contexts of other parties -/

/-- Other parties attach no context of an inferred span. -/
def AttachesOthers (_ : Instance S) : ThrowingAction X → Prop
  | .appAttach context => context.Foreign
  | _ => True

theorem Instance.Sole.step {a : ThrowingAction X} (hsole : s.Sole env) (h : s.Sound) (hharmless : ThrowsHarmless s a)
    (hothers : AttachesOthers s a) (hstep : throwingStep cfg env attachStackTrace s a = some s') : s'.Sole env := by
  cases a with
  | captureStackTrace backtrace durationMs top fault =>
    obtain rfl := Option.some.inj hstep
    exact ((captureStackTrace_spec cfg env attachStackTrace fault durationMs top h backtrace).sound hharmless).2 hsole
  | shutdown fault =>
    obtain rfl := Option.some.inj hstep
    have h' : Instance.Sound { s with shutdown := true } := h
    exact ((compareStackTraces_spec cfg env fault 0 false attachStackTrace h' [] (some 0)).sound hharmless).2 hsole
  | appAttach context =>
    obtain rfl := Option.some.inj hstep
    obtain ⟨frames, hlist, hlive⟩ := h
    have hold := (sole_iff_of_list env hlist).mp hsole
    have hattached : S.attached (s.world.scopes.attachOther context).1.st =
        (S.attach s.world.scopes.st context).2 :: S.attached s.world.scopes.st := S.attached_attach _ _
    have hcontext : S.contextOf (S.attach s.world.scopes.st context).2 = context := S.contextOf_attach _ _
    have hlist' : Instance.lastStackTrace (S := S)
        { s with world := { s.world with scopes := (s.world.scopes.attachOther context).1 } } = listFrom 0 frames := hlist
    refine (sole_iff_of_list env hlist').mpr ⟨fun x hx n hn => ?_, hold.sdk, fun frame hframe x hx => ?_⟩
    · rw [hattached, List.mem_cons] at hx
      rcases hx with rfl | hx
      · rw [hcontext] at hn
        exact absurd hn (hothers n)
      · exact hold.started x hx n hn
    · have hne : S.contextOf (S.attach s.world.scopes.st context).2 ≠ S.contextOf frame.scope := by
        intro heq
        have hspan := hlive.context frame hframe
        rw [← heq, hcontext] at hspan
        exact hothers _ hspan
      have hscope : (S.attach s.world.scopes.st context).2 ≠ frame.scope := fun heq => hne (congrArg S.contextOf heq)
      rw [hattached, List.erase_cons_tail (by simpa using hscope), List.mem_cons] at hx
      rcases hx with rfl | hx
      · exact hne
      · exact hold.sole frame hframe x hx
  | appDetach scope =>
    obtain rfl := Option.some.inj hstep
    have hattached : (S.attached (s.world.scopes.detachOther scope).st).Sublist (S.attached s.world.scopes.st) := by
      have herase : S.attached (s.world.scopes.detachOther scope).st = (S.attached s.world.scopes.st).erase scope :=
        S.attached_detach _ _
      rw [herase]
      exact List.erase_sublist
    refine ⟨fun x hx => hsole.started x (hattached.subset hx), hsole.sdk, fun frame hframe x hx => ?_⟩
    exact hsole.sole frame hframe x ((hattached.erase frame.scope).subset hx)

/-- With the SDK's spans, and if other parties attach contexts of their own only, every frame that is left can be closed. -/
theorem closable_of_path (hsdk : ∀ n, env.isSdkSpan n = true) {st : S.St}
    (hforeign : ∀ x ∈ S.attached st, (S.contextOf x).Foreign) {acts : List (ThrowingAction X)}
    (h : Path (throwingStep cfg env attachStackTrace) (fun s a => ThrowsHarmless s a ∧ AttachesOthers s a)
      (Instance.init S st) acts s) :
    ∀ frame ∈ s.onStack, s.world.Closable frame := by
  have hinit : (Instance.init S st).Sole env :=
    ⟨fun x hx n hn => absurd hn (hforeign x hx n), fun frame hframe => absurd hframe List.not_mem_nil,
      fun frame hframe => absurd hframe List.not_mem_nil⟩
  have hinv : s.Sound ∧ s.Sole env := h.invariant (I := fun s => s.Sound ∧ s.Sole env)
    (fun _ _ _ hI hok hstep => ⟨hI.1.step cfg env attachStackTrace hok.1 hstep,
      hI.2.step cfg env attachStackTrace hI.1 hok.1 hok.2 hstep⟩) ⟨sound_init st, hinit⟩
  exact fun frame hframe => ⟨(hinv.2.sdk frame hframe).trans (hsdk _), hinv.2.sole frame hframe⟩

/-! ## After a throw for a lower frame -/

section Torn

omit [DecidableEq X]

variable {last : FrameArray X}

theorem frameAt_reference (last : FrameArray X) (key key' : ℕ) :
    frameAt (reference last key none) key' = frameAt last key' := by
  rw [reference]
  by_cases hmissing : (last.lookup key).isNone = true
  · rw [if_pos hmissing, frameAt, frameAt, List.lookup_append]
    cases last.lookup key' with
    | some frame => rfl
    | none =>
      by_cases hkey : key' = key
      · simp [hkey]
      · have hne : (key' == key) = false := beq_eq_false_iff_ne.mpr hkey
        simp [List.lookup_cons, hne]
  · rw [if_neg hmissing]

/-- A comparison fails on the missing frame, or it stops above it. -/
theorem sameFrames_torn (hlast : last ≠ []) (hzero : frameAt last 0 = none) {count index : ℕ} (hindex : index < count)
    (stackTrace : List DebugBackTraceFrame) :
    ∃ last' found, sameFrames count stackTrace index last = (last', found) ∧ last' ≠ [] ∧ frameAt last' 0 = none ∧
      ∀ k, found = some k → last' = last ∧ k < count := by
  induction stackTrace generalizing index with
  | nil =>
    refine ⟨last, some index, rfl, hlast, hzero, ?_⟩
    rintro k ⟨⟩
    exact ⟨rfl, hindex⟩
  | cons frame stackTrace ih =>
    rw [sameFrames, if_pos hindex]
    simp only [frameAt_reference]
    have hne : reference last (count - (index + 1)) none ≠ [] := by
      rw [reference]
      split
      · simp
      · exact hlast
    cases hframe : frameAt last (count - (index + 1)) with
    | none =>
      refine ⟨_, none, rfl, hne, ?_, fun k hk => by cases hk⟩
      rw [frameAt_reference, hzero]
    | some lastFrame =>
      have hlookup : last.lookup (count - (index + 1)) = some (some lastFrame) := Option.join_eq_some_iff.mp hframe
      rw [reference_of_lookup _ _ hlookup]
      by_cases hsame : isSameFrame frame lastFrame.toDebugBackTraceFrame = true
      · simp only [if_pos hsame]
        have hkey : count - (index + 1) ≠ 0 := by
          intro hkey
          rw [hkey, hzero] at hframe
          cases hframe
        exact ih (by omega)
      · simp only [if_neg hsame]
        refine ⟨last, some index, rfl, hlast, hzero, ?_⟩
        rintro k ⟨⟩
        exact ⟨rfl, hindex⟩

end Torn

/-- Every comparison ends in a type error, and no span is closed by it. -/
theorem Instance.Torn.compareStackTraces (h : s.Torn) (fault : Option Fault) (durationMs : ℤ) (top : Bool)
    (stackTrace : List DebugBackTraceFrame) (apmFramesFilteredOut : Option ℕ) :
    let result := s.compareStackTraces cfg env fault durationMs top attachStackTrace stackTrace apmFramesFilteredOut
    result.2 = some .typeError ∧ result.1.Torn ∧ result.1.world.closedSpans = s.world.closedSpans := by
  have hpos : 0 < s.lastStackTrace.length := List.length_pos_iff.mpr h.1
  obtain ⟨last, found, hsame, hlast, hzero, hfound⟩ := sameFrames_torn h.1 h.2 hpos stackTrace.reverse
  unfold Instance.compareStackTraces
  rw [hsame]
  cases found with
  | none => exact ⟨rfl, ⟨hlast, hzero⟩, rfl⟩
  | some k =>
    obtain ⟨rfl, hk⟩ := hfound k rfl
    obtain ⟨n, hn⟩ : ∃ n, s.lastStackTrace.length - k = n + 1 := ⟨s.lastStackTrace.length - k - 1, by omega⟩
    have htime := (sameSpans_endTime env durationMs top s.world).1
    dsimp only
    rw [hn, endGoneFrames]
    simp only [Nat.sub_self, hzero]
    refine ⟨trivial, ⟨hlast, hzero⟩, ?_⟩
    rw [World.closedSpans, World.closedSpans, htime.ended, htime.dropped]

theorem Instance.Torn.step {a : ThrowingAction X} (h : s.Torn)
    (hstep : throwingStep cfg env attachStackTrace s a = some s') :
    s'.Torn ∧ s'.world.closedSpans = s.world.closedSpans := by
  cases a with
  | captureStackTrace backtrace durationMs top fault =>
    obtain rfl := Option.some.inj hstep
    unfold Instance.captureStackTrace
    by_cases hs : s.shutdown = true
    · rw [if_pos hs]
      exact ⟨h, rfl⟩
    · rw [if_neg hs]
      exact (h.compareStackTraces cfg env attachStackTrace fault durationMs top _ _).2
  | shutdown fault =>
    obtain rfl := Option.some.inj hstep
    have h' : Instance.Torn { s with shutdown := true } := h
    exact (h'.compareStackTraces cfg env attachStackTrace fault 0 false [] (some 0)).2
  | appAttach context =>
    obtain rfl := Option.some.inj hstep
    exact ⟨h, rfl⟩
  | appDetach scope =>
    obtain rfl := Option.some.inj hstep
    exact ⟨h, rfl⟩

/-- **A throw for a lower frame is final**: whatever happens afterwards, no span of the object is closed any more, and the
shutdown ends in a type error. -/
theorem torn_of_run (h : s.Sound) {f : Fault} (hplace : f.place ≠ .old 0) (hharmful : ¬ f.Harmless)
    (backtrace : List DebugBackTraceFrame) (durationMs : ℤ) (top : Bool)
    (hthrown : (s.captureStackTrace cfg env (some f) durationMs top attachStackTrace backtrace).2 ≠ none)
    {acts : List (ThrowingAction X)}
    (hrun : run (throwingStep cfg env attachStackTrace)
      (s.captureStackTrace cfg env (some f) durationMs top attachStackTrace backtrace).1 acts = some s')
    (fault : Option Fault) :
    s'.world.closedSpans =
      (s.captureStackTrace cfg env (some f) durationMs top attachStackTrace backtrace).1.world.closedSpans ∧
      (s'.shutdownSpans cfg env fault attachStackTrace).2 = some .typeError := by
  have htorn := (captureStackTrace_spec cfg env attachStackTrace (some f) durationMs top h backtrace).torn hthrown hplace
    hharmful
  have hinv := run_invariant (I := fun t : Instance S => t.Torn ∧ t.world.closedSpans =
      (s.captureStackTrace cfg env (some f) durationMs top attachStackTrace backtrace).1.world.closedSpans)
    (fun t a t' ht hstep => by
      obtain ⟨htorn', hclosed⟩ := ht.1.step cfg env attachStackTrace hstep
      exact ⟨htorn', hclosed.trans ht.2⟩) hrun ⟨htorn, rfl⟩
  have htorn' : Instance.Torn { s' with shutdown := true } := hinv.1
  exact ⟨hinv.2, (htorn'.compareStackTraces cfg env attachStackTrace fault 0 false [] (some 0)).1⟩

end Runs

/-! ## A request whose span processor throws -/

/-- Every span is ended, none is reduced. -/
def unreduced : Config := { request with spanReductionEnabled := false }

/-- Three frames are captured; the upper two are gone at the next capture, where a call throws. -/
def throwingActions (fault : Fault) : List (ThrowingAction (NumberedScope Context)) :=
  [.captureStackTrace (skipped ++ [sleepFrame, workFrame, mainFrame]) 5 false none,
    .captureStackTrace (skipped ++ [mainFrame]) 5 false (some fault)]

/-- The end of the topmost frame throws before it takes effect: the frame is left, and the shutdown closes all three; if the
end of the frame below throws in a later capture, no list is left. -/
theorem proper_of_path_before : ∃ s,
    run (throwingStep unreduced (tracer true) false) (Instance.init (ScopeStorage.numbered Context) noScopes)
      (throwingActions ⟨.old 0, .endSpan, .before⟩) = some s ∧
      s.lastStackTrace.map Prod.fst = [0, 1, 2] ∧ s.Proper ∧
      (s.shutdownSpans unreduced (tracer true) none false).2 = none ∧
      (s.shutdownSpans unreduced (tracer true) none false).1.world.closedSpans = [0, 1, 2] ∧
      ¬ (s.captureStackTrace unreduced (tracer true) (some ⟨.old 1, .endSpan, .after⟩) 5 false false
        (skipped ++ [mainFrame])).1.Proper := by
  have hpath : ∃ s, Path (throwingStep unreduced (tracer true) false) ThrowsHarmless
      (Instance.init (ScopeStorage.numbered Context) noScopes) (throwingActions ⟨.old 0, .endSpan, .before⟩) s ∧
      s.lastStackTrace.map Prod.fst = [0, 1, 2] ∧
      (s.shutdownSpans unreduced (tracer true) none false).1.world.closedSpans = [0, 1, 2] ∧
      (s.captureStackTrace unreduced (tracer true) (some ⟨.old 1, .endSpan, .after⟩) 5 false false
        (skipped ++ [mainFrame])).2 ≠ none := by
    refine ⟨_, .cons ?_ rfl (.cons ?_ rfl (.nil _)), rfl, rfl, fun h => by cases h⟩
    · rintro f ⟨⟩
    · rintro f ⟨⟩
      exact ⟨rfl, fun h => by cases h.2⟩
  obtain ⟨s, hpath, hkeys, hclosed, hthrown⟩ := hpath
  obtain ⟨hproper, -, hshutdown, hiff⟩ := proper_of_path unreduced (tracer true) false hpath
  refine ⟨s, hpath.run_eq, hkeys, hproper, hshutdown.1, hclosed, fun hproper' => ?_⟩
  cases ((hiff _ _ _ _ hthrown).mp hproper').1

/-- The end of the second frame throws: the two frames that are left have the keys one and two, the next capture and the
shutdown end in type errors, and the span of the frame that is still on the stack is never ended. -/
theorem throw_leaves_hole : ∃ s,
    run (throwingStep unreduced (tracer true) false) (Instance.init (ScopeStorage.numbered Context) noScopes)
      (throwingActions ⟨.old 1, .endSpan, .after⟩) = some s ∧
      s.lastStackTrace.map Prod.fst = [1, 2] ∧ ¬ s.Proper ∧
      (s.captureStackTrace unreduced (tracer true) none 5 false false (skipped ++ [mainFrame])).2 = some .typeError ∧
      (s.shutdownSpans unreduced (tracer true) none false).2 = some .typeError ∧
      0 ∉ (s.shutdownSpans unreduced (tracer true) none false).1.world.closedSpans := by
  have hrun : ∃ s, run (throwingStep unreduced (tracer true) false)
      (Instance.init (ScopeStorage.numbered Context) noScopes) (throwingActions ⟨.old 1, .endSpan, .after⟩) = some s ∧
      s.lastStackTrace.map Prod.fst = [1, 2] ∧
      (s.captureStackTrace unreduced (tracer true) none 5 false false (skipped ++ [mainFrame])).2 = some .typeError ∧
      (s.shutdownSpans unreduced (tracer true) none false).2 = some .typeError ∧
      (s.shutdownSpans unreduced (tracer true) none false).1.world.closedSpans = [1, 2] :=
    ⟨_, rfl, rfl, rfl, rfl, rfl⟩
  obtain ⟨s, hrun, hkeys, hcapture, hshutdown, hclosed⟩ := hrun
  refine ⟨s, hrun, hkeys, ?_, hcapture, hshutdown, ?_⟩
  · rintro ⟨frames, hlist, -⟩
    rw [hlist] at hkeys
    cases frames with
    | nil => cases hkeys
    | cons frame frames => cases (List.cons.inj hkeys).1
  · rw [hclosed]
    decide

end OtelDistro.InferredSpans
