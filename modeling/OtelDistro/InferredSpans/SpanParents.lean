import OtelDistro.InferredSpans.StackDiff

/-!
# OtelDistro.InferredSpans.SpanParents — no exported span hangs below a dropped one

With reduction, of the frames that were captured together and are gone together only the top one is exported, as a child of
what was below the lowest.

* `Chain`: the parent of a frame on the stack is the frame below it, unless it is no inferred span.
* `Protected`: a frame that is the top one of its stack trace, and will not be dropped for being reduced.
* `Live`: the inferred parents of the spans that have ended have ended, or are spans of protected frames.

`exported_parents`: after the shutdown the inferred parents of all spans that have ended have ended.
-/

namespace OtelDistro.InferredSpans

open OtelDistro.Lib

variable {X : Type} [DecidableEq X] {S : ScopeStorage Context X}

/-! ## Parents on the stack -/

/-- The inferred parent of a frame's span is the span of the frame below it. -/
def Chain (parents : ℕ → Option SpanRef) : List (ExtendedStackTraceFrame X) → Prop
  | [] => True
  | frame :: below =>
    (∀ m, parents frame.span.number = some (.inferred m) → ∃ next, below.head? = some next ∧ next.span.number = m) ∧
      Chain parents below

/-- `m` is the span of the top frame of a stack trace that is not the one numbered `previous`. -/
def Protected (previous : ℤ) (frames : List (ExtendedStackTraceFrame X)) (m : ℕ) : Prop :=
  ∃ above frame below, frames = above ++ frame :: below ∧ frame.span.number = m ∧
    (frame.stackTraceId : ℤ) ≠ previous ∧ ∀ other ∈ above, other.stackTraceId ≠ frame.stackTraceId

variable {frame : ExtendedStackTraceFrame X} {frames below kept : List (ExtendedStackTraceFrame X)} {others : List X}
  {parents parents' : ℕ → Option SpanRef} {previous : ℤ} {m : ℕ}

omit [DecidableEq X] in
theorem Chain.congr (h : Chain parents frames) (heq : ∀ n ∈ spanNumbers frames, parents' n = parents n) :
    Chain parents' frames := by
  induction frames with
  | nil => trivial
  | cons frame below ih =>
    refine ⟨fun m hm => h.1 m ?_, ih h.2 fun n hn => heq n (List.mem_cons_of_mem _ hn)⟩
    rw [← hm]
    exact (heq _ List.mem_cons_self).symm

omit [DecidableEq X] in
theorem Chain.of_append (h : Chain parents (frames ++ kept)) : Chain parents kept := by
  induction frames with
  | nil => exact h
  | cons frame below ih => exact ih h.2

omit [DecidableEq X] in
theorem Protected.weaken (h : Protected previous frames m) : Protected (-1) frames m := by
  obtain ⟨above, frame, below, heq, hm, -, hother⟩ := h
  exact ⟨above, frame, below, heq, hm, by omega, hother⟩

omit [DecidableEq X] in
/-- The frames of another stack trace protect those below. -/
theorem Protected.cons (h : Protected previous frames m) (hid : (frame.stackTraceId : ℤ) = previous) :
    Protected previous (frame :: frames) m := by
  obtain ⟨above, next, below, rfl, hm, hne, hother⟩ := h
  refine ⟨frame :: above, next, below, rfl, hm, hne, ?_⟩
  intro other hmem
  rcases List.mem_cons.mp hmem with rfl | hmem
  · intro heq
    exact hne (by rw [← heq, hid])
  · exact hother other hmem

omit [DecidableEq X] in
/-- When the top frame is gone it was the protected one, which is not dropped, or another one stays protected. -/
theorem Protected.of_cons (h : Protected previous (frame :: below) m) :
    frame.span.number = m ∧ (frame.stackTraceId : ℤ) ≠ previous ∨ Protected frame.stackTraceId below m := by
  obtain ⟨above, next, rest, heq, hm, hne, hother⟩ := h
  cases above with
  | nil =>
    obtain ⟨rfl, -⟩ := List.cons.inj heq
    exact .inl ⟨hm, hne⟩
  | cons first above =>
    obtain ⟨rfl, rfl⟩ := List.cons.inj heq
    refine .inr ⟨above, next, rest, rfl, hm, ?_, fun other ho => hother other (List.mem_cons_of_mem _ ho)⟩
    have := hother frame List.mem_cons_self
    omega

omit [DecidableEq X] in
theorem Protected.of_append (h : Protected (-1) (frames ++ kept) m) :
    Protected (-1) frames m ∨ Protected (-1) kept m := by
  obtain ⟨above, next, rest, heq, hm, hne, hother⟩ := h
  rcases List.append_eq_append_iff.mp heq with ⟨mid, rfl, hkept⟩ | ⟨mid, rfl, hrest⟩
  · exact .inr ⟨mid, next, rest, hkept, hm, hne, fun other ho => hother other (List.mem_append_right _ ho)⟩
  · cases mid with
    | nil => exact .inr ⟨[], next, rest, hrest.symm, hm, hne, fun other ho => absurd ho List.not_mem_nil⟩
    | cons first mid =>
      obtain ⟨rfl, -⟩ := List.cons.inj hrest
      exact .inl ⟨above, next, mid, rfl, hm, hne, hother⟩

/-- The inferred parents of the spans that have ended have ended, or are protected. -/
def Live (w : World S) (safe : ℕ → Prop) : Prop :=
  ∀ n ∈ w.endedSpans, ∀ m, w.parents n = some (.inferred m) → m ∈ w.endedSpans ∨ safe m

theorem Live.mono {w : World S} {safe safe' : ℕ → Prop} (h : Live w safe) (hsafe : ∀ m, safe m → safe' m) :
    Live w safe' :=
  fun n hn m hm => (h n hn m hm).imp_right (hsafe m)

/-! ## Reducing frames -/

/-- The lowest frame that came with the one above `below`. -/
theorem lastSpanParent_spec (w : World S) (id : ℕ) (hsdk : ∀ f ∈ below, f.span.isSdkSpan = true) :
    (w.lastSpanParent id below = none ∧ ∀ next, below.head? = some next → next.stackTraceId ≠ id) ∨
      ∃ group last rest, below = group ++ last :: rest ∧ w.lastSpanParent id below = some (w.parents last.span.number) ∧
        (∀ f ∈ group, f.stackTraceId = id) ∧ last.stackTraceId = id ∧
        ∀ next, rest.head? = some next → next.stackTraceId ≠ id := by
  induction below with
  | nil => exact .inl ⟨rfl, fun next h => by cases h⟩
  | cons frame below ih =>
    rw [World.lastSpanParent]
    by_cases hid : frame.stackTraceId = id
    · have hcond : ¬ (frame.stackTraceId ≠ id ∨ frame.span.isSdkSpan = false) := by
        rw [not_or]
        exact ⟨not_not.mpr hid, by simp [hsdk frame List.mem_cons_self]⟩
      rw [if_neg hcond]
      refine .inr ?_
      rcases ih fun f hf => hsdk f (List.mem_cons_of_mem frame hf) with ⟨hnone, hnext⟩ | ⟨group, last, rest, hbelow, hsome, h⟩
      · rw [hnone, Option.none_or]
        exact ⟨[], frame, below, rfl, rfl, fun f hf => absurd hf List.not_mem_nil, hid, hnext⟩
      · rw [hsome, Option.some_or]
        refine ⟨frame :: group, last, rest, by rw [hbelow]; rfl, rfl, fun f hf => ?_, h.2⟩
        rcases List.mem_cons.mp hf with rfl | hf
        · exact hid
        · exact h.1 f hf
    · rw [if_pos (.inl hid)]
      refine .inl ⟨rfl, fun next hnext => ?_⟩
      rw [List.head?_cons, Option.some.injEq] at hnext
      exact hnext ▸ hid

omit [DecidableEq X] in
/-- Below the frames that came together, the next frame is protected. -/
theorem protected_of_group {group rest : List (ExtendedStackTraceFrame X)} {id : ℕ}
    (hgroup : ∀ f ∈ group, f.stackTraceId = id) (hnext : ∀ next, rest.head? = some next → next.stackTraceId ≠ id)
    {next : ExtendedStackTraceFrame X} (hhead : (rest ++ kept).head? = some next) :
    Protected id (group ++ rest) next.span.number ∨ Protected (-1) kept next.span.number := by
  cases rest with
  | nil =>
    cases kept with
    | nil => cases hhead
    | cons first kept =>
      obtain rfl : first = next := Option.some.inj hhead
      exact .inr ⟨[], first, kept, rfl, rfl, by omega, fun other ho => absurd ho List.not_mem_nil⟩
  | cons first rest =>
    obtain rfl : first = next := Option.some.inj hhead
    have hne := hnext first rfl
    refine .inl ⟨group, first, rest, rfl, rfl, by omega, fun other ho => ?_⟩
    rw [hgroup other ho]
    exact Ne.symm hne

omit [DecidableEq X] in
theorem Chain.head_of_append {group rest : List (ExtendedStackTraceFrame X)} {last : ExtendedStackTraceFrame X}
    (h : Chain parents (group ++ last :: rest)) (hm : parents last.span.number = some (.inferred m)) :
    ∃ next, rest.head? = some next ∧ next.span.number = m :=
  h.of_append.1 m hm

variable {cfg : Config} {env : Env}

/-- The frame on top of a group: it is dropped if the one above it came with it.  If not, its parent is a protected frame
afterwards. -/
theorem shouldReduceFrame_spec (hrep : ∀ n, env.parentReplaced n = true) {w : World S} {st : ReduceState}
    (hforce : st.forceParentChangeFailed = false) (hsdk : ∀ f ∈ frame :: below, f.span.isSdkSpan = true)
    (hchain : Chain w.parents (frame :: below ++ kept)) :
    let reduced := w.shouldReduceFrame env frame below st
    reduced.2.2 = ⟨frame.stackTraceId, false⟩ ∧
      (∀ n, n ≠ frame.span.number → reduced.1.parents n = w.parents n) ∧
      (reduced.2.1 = true ↔ st.previousFrameStackTraceId = frame.stackTraceId) ∧
      (reduced.2.1 = false → ∀ m, reduced.1.parents frame.span.number = some (.inferred m) →
        Protected frame.stackTraceId below m ∨ Protected (-1) kept m) := by
  intro reduced
  have hsdk' : ¬ frame.span.isSdkSpan = false := by simp [hsdk frame List.mem_cons_self]
  have hbelow := fun f hf => hsdk f (List.mem_cons_of_mem frame hf)
  by_cases hdrop : st.previousFrameStackTraceId = frame.stackTraceId
  · have hreduced : reduced = (w, true, ⟨frame.stackTraceId, false⟩) := by
      simp only [reduced, World.shouldReduceFrame, hdrop, decide_true, if_true, hforce, Bool.not_false, Bool.and_true]
    rw [hreduced]
    exact ⟨rfl, fun n _ => rfl, iff_of_true rfl hdrop, fun h => by cases h⟩
  · rcases lastSpanParent_spec w frame.stackTraceId hbelow with ⟨hnone, hnext⟩ |
        ⟨group, last, rest, hsplit, hsome, hgroup, hlast, hnext⟩
    · have hreduced : reduced = (w, false, ⟨frame.stackTraceId, false⟩) := by
        simp only [reduced, World.shouldReduceFrame, hdrop, decide_false, Bool.false_eq_true, if_false, hnone, hforce,
          Bool.false_and]
      rw [hreduced]
      refine ⟨rfl, fun n _ => rfl, iff_of_false Bool.false_ne_true hdrop, fun _ m hm => ?_⟩
      obtain ⟨next, hhead, rfl⟩ := hchain.1 m hm
      exact @protected_of_group X kept [] below _ (fun f hf => absurd hf List.not_mem_nil) hnext _ hhead
    · have hreduced : reduced = ({ w with
          replacements := w.replacements + 1
          parents := fun n => if n = frame.span.number then w.parents last.span.number else w.parents n }, false,
            ⟨frame.stackTraceId, false⟩) := by
        simp only [reduced, World.shouldReduceFrame, hdrop, decide_false, Bool.false_eq_true, if_false, hsome, hsdk',
          hrep, and_true, Bool.not_true, reduceCtorEq]
      rw [hreduced]
      refine ⟨rfl, fun n hn => if_neg hn, iff_of_false Bool.false_ne_true hdrop, fun _ m hm => ?_⟩
      have hparent : w.parents last.span.number = some (.inferred m) := (if_pos rfl).symm.trans hm
      have hchain' : Chain w.parents (group ++ last :: (rest ++ kept)) := by
        have hbelow : Chain w.parents (below ++ kept) := hchain.2
        rwa [hsplit, List.append_assoc, List.cons_append] at hbelow
      obtain ⟨next, hhead, rfl⟩ := hchain'.head_of_append hparent
      rw [hsplit, List.append_cons]
      refine protected_of_group (fun f hf => ?_) hnext hhead
      rcases List.mem_append.mp hf with hf | hf
      · exact hgroup f hf
      · rw [List.mem_singleton.mp hf, hlast]

/-! ## The loop over the old frames -/

/-- The part of the invariant that is about one world: the chain of the frames, and the spans that have ended. -/
structure Parented (w : World S) (frames : List (ExtendedStackTraceFrame X)) (safe : ℕ → Prop) : Prop where
  chain : Chain w.parents frames
  live : Live w safe

theorem World.Framed.number_notMem {w : World S} (h : w.Framed (frame :: kept) others) :
    frame.span.number ∉ w.endedSpans ∧ frame.span.number ∉ spanNumbers kept := by
  have hnodup : (w.endedSpans ++ (w.dropped ++ spanNumbers (frame :: kept))).Nodup := by
    rw [← List.append_assoc]
    exact h.numbers.nodup_iff.mpr List.nodup_range
  rw [List.nodup_append, List.nodup_append, spanNumbers, List.map_cons, List.nodup_cons] at hnodup
  exact ⟨fun hmem => hnodup.2.2 _ hmem _ (List.mem_append_right _ List.mem_cons_self) rfl, hnodup.2.1.2.1.1⟩

variable (durationMs : ℤ) (top : Bool)

/-- The spans whose frames are protected, in the part that is being ended or in the part that is kept. -/
def Safe (previous : ℤ) (old kept : List (ExtendedStackTraceFrame X)) (m : ℕ) : Prop :=
  Protected previous old m ∨ Protected (-1) kept m

/-- A round of the loop. -/
theorem Parented.endOldFrame (hred : cfg.spanReductionEnabled = true) (hmin : cfg.minSpanDuration = 0)
    (hrep : ∀ n, env.parentReplaced n = true) {w : World S} {st : ReduceState}
    (hframed : w.Framed (frame :: (below ++ kept)) others) (hforce : st.forceParentChangeFailed = false)
    (h : Parented w (frame :: below ++ kept) (Safe st.previousFrameStackTraceId (frame :: below) kept)) :
    let round := w.endOldFrame cfg env durationMs top frame below st
    Parented round.1 (below ++ kept) (Safe round.2.previousFrameStackTraceId below kept) ∧
      round.2.forceParentChangeFailed = false := by
  intro round
  obtain ⟨hended, hnumber⟩ := hframed.number_notMem
  obtain ⟨-, drop, hsame, hcloses, hdrop⟩ := hframed.endOldFrame cfg env durationMs top below st
  obtain ⟨hclock, hparents⟩ := sameSpans_endTime env durationMs top w
  have hreduce : (w.endTime env durationMs top).1.reduceFrame cfg env frame below st =
      (w.endTime env durationMs top).1.shouldReduceFrame env frame below st := by rw [World.reduceFrame, if_pos hred]
  have hsdk : ∀ f ∈ frame :: below, f.span.isSdkSpan = true := fun f hf =>
    hframed.sdk f (List.mem_append_left kept hf)
  obtain ⟨hst, hothers, hdecision, hreduced⟩ := shouldReduceFrame_spec (w := (w.endTime env durationMs top).1) hrep
    hforce hsdk (hparents ▸ h.chain)
  rw [← hreduce] at hst hothers hdecision hreduced
  have hround : round.2 = ⟨frame.stackTraceId, false⟩ := hst
  have hparents' (n : ℕ) (hn : n ≠ frame.span.number) : round.1.parents n = w.parents n := by
    rw [hcloses.parents, hothers n hn, hparents]
  have hdropped := hdrop (le_of_eq hmin)
  rw [hround]
  refine ⟨⟨h.chain.2.congr fun n hn => hparents' n ?_, fun n hn m hm => ?_⟩, rfl⟩
  · rintro rfl
    exact hnumber hn
  · have hold {n : ℕ} (hn : n ∈ w.endedSpans) (hm : round.1.parents n = some (.inferred m)) :
        m ∈ w.endedSpans ∨ m = frame.span.number ∧ drop = false ∨ Safe frame.stackTraceId below kept m := by
      rw [hparents' n fun e => hended (e ▸ hn)] at hm
      rcases h.live n hn m hm with hm | hm | hm
      · exact .inl hm
      · refine .inr (hm.of_cons.imp (fun hf => ⟨hf.1.symm, ?_⟩) .inl)
        rw [hdropped, ← Bool.not_eq_true, hdecision]
        exact fun e => hf.2 e.symm
      · exact .inr (.inr (.inr hm))
    have hendedRound := hcloses.ended
    rw [hsame.ended] at hendedRound
    rw [hendedRound] at hn ⊢
    cases drop with
    | true =>
      rcases hold hn hm with hm | ⟨-, hd⟩ | hm
      · exact .inl hm
      · cases hd
      · exact .inr hm
    | false =>
      rcases List.mem_cons.mp hn with rfl | hn
      · rw [hcloses.parents] at hm
        exact .inr (hreduced hdropped.symm m hm)
      · rcases hold hn hm with hm | ⟨rfl, -⟩ | hm
        · exact .inl (List.mem_cons_of_mem _ hm)
        · exact .inl List.mem_cons_self
        · exact .inr hm

/-- The loop leaves the parents of ended spans protected among the frames that are kept. -/
theorem Parented.endOldFrames (hred : cfg.spanReductionEnabled = true) (hmin : cfg.minSpanDuration = 0)
    (hrep : ∀ n, env.parentReplaced n = true) {w : World S} {old : List (ExtendedStackTraceFrame X)} {st : ReduceState}
    (hframed : w.Framed (old ++ kept) others) (hforce : st.forceParentChangeFailed = false)
    (h : Parented w (old ++ kept) (Safe st.previousFrameStackTraceId old kept)) :
    Parented (w.endOldFrames cfg env durationMs top old st) kept (Protected (-1) kept) := by
  induction old generalizing w st with
  | nil =>
    refine ⟨h.chain, h.live.mono fun m hm => hm.resolve_left ?_⟩
    rintro ⟨above, frame, below, heq, -⟩
    cases above <;> cases heq
  | cons frame below ih =>
    obtain ⟨hparented, hforce'⟩ := Parented.endOldFrame durationMs top hred hmin hrep hframed hforce h
    rw [endOldFrames_cons]
    exact ih (hframed.endOldFrame cfg env durationMs top below st).1 hforce' hparented

/-! ## The loop over the new frames -/

omit [DecidableEq X] in
theorem protected_head {next : ExtendedStackTraceFrame X} (hhead : frames.head? = some next) :
    Protected (-1) frames next.span.number := by
  cases frames with
  | nil => cases hhead
  | cons first rest =>
    obtain rfl : first = next := Option.some.inj hhead
    exact ⟨[], first, rest, rfl, rfl, by omega, fun other ho => absurd ho List.not_mem_nil⟩

theorem World.Framed.number_lt {w : World S} (h : w.Framed frames others) {n : ℕ}
    (hn : n ∈ w.endedSpans ∨ n ∈ spanNumbers frames) : n < w.spansStarted := by
  rw [← List.mem_range, ← h.numbers.mem_iff, List.mem_append, List.mem_append]
  exact hn.imp .inl id

/-- A new span is a child of the top frame, unless its parent is no inferred span. -/
theorem Parented.startFrameSpan {w : World S} (hframed : w.Framed frames others) {safe : ℕ → Prop}
    (h : Parented w frames safe) (frame : DebugBackTraceFrame) {parentContext : Option Context}
    (hparent : ∀ c, parentContext = some c → ∃ next, frames.head? = some next ∧ c = next.context) (id : ℕ) :
    let started := w.startFrameSpan env frame durationMs parentContext id
    Parented started.1 (started.2 :: frames) safe := by
  intro started
  have hold {n : ℕ} (hn : n ∈ w.endedSpans ∨ n ∈ spanNumbers frames) : started.1.parents n = w.parents n :=
    if_neg (Nat.ne_of_lt (hframed.number_lt hn))
  refine ⟨⟨fun m hm => ?_, h.chain.congr fun n hn => hold (.inr hn)⟩, fun n hn m hm => ?_⟩
  · have hspan : (parentContext.getD w.getCurrent).span = some (.inferred m) := (if_pos rfl).symm.trans hm
    cases hc : parentContext with
    | none =>
      rw [hc, Option.getD_none] at hspan
      obtain ⟨next, below, rfl, hnumber⟩ := hframed.scopes.current hspan
      exact ⟨next, rfl, hnumber⟩
    | some c =>
      rw [hc, Option.getD_some] at hspan
      obtain ⟨next, hhead, rfl⟩ := hparent c hc
      rw [(hframed.scopes.contexts next (List.mem_of_head? hhead)).2, Option.some.injEq, SpanRef.inferred.injEq] at hspan
      exact ⟨next, hhead, hspan⟩
  · rw [hold (.inl hn)] at hm
    exact h.live n hn m hm

/-- The loop over the new frames, which all have the number `id`: the frames below stay protected from it. -/
theorem Parented.startNewFrames (hmin : cfg.minSpanDuration = 0) (hsdk : ∀ n, env.isSdkSpan n = true) (id : ℕ)
    (trace : List DebugBackTraceFrame) {w : World S} (hframed : w.Framed frames others)
    (h : Parented w frames (Protected id frames)) (parentContext : Option Context)
    (hparent : ∀ c, parentContext = some c → ∃ next, frames.head? = some next ∧ c = next.context) :
    let result := w.startNewFrames cfg env durationMs top id frames parentContext trace
    Parented result.1 result.2 (Protected (-1) result.2) ∧
      ∀ f ∈ result.2, f.stackTraceId = id ∨ f ∈ frames := by
  induction trace generalizing w frames parentContext with
  | nil => exact ⟨⟨h.chain, h.live.mono fun m hm => hm.weaken⟩, fun f hf => .inr hf⟩
  | cons frame above ih =>
    have hstarted : Parented (w.startFrameSpan env frame durationMs parentContext id).1
        ((w.startFrameSpan env frame durationMs parentContext id).2 :: frames) (Protected id frames) :=
      h.startFrameSpan durationMs hframed frame hparent id
    have hframed' := hframed.startFrameSpan env durationMs hsdk frame parentContext id
    have hid : (w.startFrameSpan env frame durationMs parentContext id).2.stackTraceId = id := rfl
    unfold World.startNewFrames
    generalize w.startFrameSpan env frame durationMs parentContext id = started at hstarted hframed' hid ⊢
    obtain ⟨w', newFrame⟩ := started
    simp only at hstarted hframed' hid ⊢
    by_cases hlast : above = [] ∧ top = true
    · -- the internal function at the top ends at once; its parent is the frame on top
      rw [if_pos hlast]
      obtain ⟨hended, drop, hcloses, hdrop⟩ := hframed'.endFrameSpan cfg env false none
      rw [hdrop (le_of_eq hmin)] at hcloses
      refine ⟨⟨?_, fun n hn m hm => ?_⟩, fun f hf => .inr hf⟩
      · rw [hcloses.parents]
        exact hstarted.chain.2
      · have hendedSpans : (w'.endFrameSpan cfg env newFrame false none).endedSpans =
          newFrame.span.number :: w'.endedSpans := hcloses.ended
        rw [hcloses.parents] at hm
        rw [hendedSpans] at hn ⊢
        rcases List.mem_cons.mp hn with rfl | hn
        · obtain ⟨next, hhead, rfl⟩ := hstarted.chain.1 m hm
          exact .inr (protected_head hhead)
        · exact (hstarted.live n hn m hm).imp (List.mem_cons_of_mem _) Protected.weaken
    · rw [if_neg hlast]
      obtain ⟨hresult, hids⟩ := ih hframed'
        ⟨hstarted.chain, hstarted.live.mono fun m hm => hm.cons (by rw [hid])⟩ none fun c hc => by cases hc
      refine ⟨hresult, fun f hf => ?_⟩
      rcases hids f hf with hf | hf
      · exact .inl hf
      · rcases List.mem_cons.mp hf with rfl | hf
        · exact .inl hid
        · exact .inr hf

/-! ## Runs -/

/-- The context that `compareStackTraces` passes to the loop, after it has ended the old frames. -/
def parentContextOf (apmFramesFilteredOut : Option ℕ) (kept : List (ExtendedStackTraceFrame X)) : Option Context :=
  match apmFramesFilteredOut with
  | some n => if n ≠ 0 then kept.head?.map (fun frame => frame.context) else none
  | none => none

omit [DecidableEq X] in
theorem parentContextOf_eq_some {apmFramesFilteredOut : Option ℕ} {c : Context}
    (h : parentContextOf apmFramesFilteredOut kept = some c) :
    ∃ next, kept.head? = some next ∧ c = next.context := by
  unfold parentContextOf at h
  split at h
  · split at h
    · obtain ⟨next, hhead, rfl⟩ := Option.map_eq_some_iff.mp h
      exact ⟨next, hhead, rfl⟩
    · cases h
  · cases h

/-- What holds of the object and its world. -/
structure ParentsInv (s : State S) : Prop where
  parented : Parented s.world s.lastStackTrace (Protected (-1) s.lastStackTrace)
  ids : ∀ frame ∈ s.lastStackTrace, frame.stackTraceId ≤ s.stackTraceId

theorem ParentsInv.compareStackTraces (hred : cfg.spanReductionEnabled = true) (hmin : cfg.minSpanDuration = 0)
    (hsdk : ∀ n, env.isSdkSpan n = true) (hrep : ∀ n, env.parentReplaced n = true) {s : State S}
    (hframed : s.world.Framed s.lastStackTrace others) (h : ParentsInv s) (stackTrace : List DebugBackTraceFrame)
    (apmFramesFilteredOut : Option ℕ) :
    ParentsInv (s.compareStackTraces cfg env stackTrace durationMs top apmFramesFilteredOut) := by
  unfold State.compareStackTraces
  simp only
  generalize getHowManyStackFramesAreIdenticalFromStackBottom stackTrace s.lastStackTrace = count
  have hold := (List.take_append_drop (s.lastStackTrace.length - count) s.lastStackTrace).symm
  generalize s.lastStackTrace.take (s.lastStackTrace.length - count) = gone at hold ⊢
  generalize s.lastStackTrace.drop (s.lastStackTrace.length - count) = kept at hold ⊢
  have hids : ∀ f ∈ kept, f.stackTraceId ≤ s.stackTraceId := fun f hf =>
    h.ids f (by rw [hold]; exact List.mem_append_right _ hf)
  have hparented := h.parented
  rw [hold] at hframed hparented
  have hold : Parented s.world (gone ++ kept) (Safe ({} : ReduceState).previousFrameStackTraceId gone kept) :=
    ⟨hparented.chain, hparented.live.mono fun m hm => hm.of_append⟩
  have hkept := Parented.endOldFrames durationMs top hred hmin hrep hframed rfl hold
  obtain ⟨hframed', -, -⟩ := hframed.endOldFrames cfg env durationMs top {}
  -- no frame that is kept has the number of the new ones
  have hlive : Live (s.world.endOldFrames cfg env durationMs top gone {}) (Protected (s.stackTraceId + 1 : ℕ) kept) := by
    refine hkept.live.mono fun m hm => ?_
    obtain ⟨above, frame, below, rfl, hm, -, hother⟩ := hm
    have := hids frame (List.mem_append_right _ List.mem_cons_self)
    exact ⟨above, frame, below, rfl, hm, by omega, hother⟩
  obtain ⟨hresult, hnew⟩ := Parented.startNewFrames durationMs top hmin hsdk (s.stackTraceId + 1)
    (stackTrace.take (stackTrace.length - count)).reverse hframed' ⟨hkept.chain, hlive⟩
    (parentContextOf apmFramesFilteredOut kept) fun c hc => parentContextOf_eq_some hc
  refine ⟨hresult, fun f hf => ?_⟩
  rcases hnew f hf with hf | hf
  · exact Nat.le_of_eq hf
  · exact Nat.le_succ_of_le (hids f hf)

variable {sys sys' : System S} {a : Action X}

theorem ParentsInv.step (hred : cfg.spanReductionEnabled = true) (hmin : cfg.minSpanDuration = 0)
    (hsdk : ∀ n, env.isSdkSpan n = true) (hrep : ∀ n, env.parentReplaced n = true) (hframed : FramedInv sys)
    (h : ParentsInv sys.inferred) (hstep : step S cfg env sys a = some sys') : ParentsInv sys'.inferred := by
  cases a with
  | captureStackTrace backtrace durationMs top =>
    rw [InferredSpans.step, Option.some.injEq] at hstep
    subst hstep
    by_cases hs : sys.inferred.shutdown = true
    · have hsame : sys.inferred.captureStackTrace cfg env backtrace durationMs top = sys.inferred := if_pos hs
      rw [hsame]
      exact h
    · have hcapture : sys.inferred.captureStackTrace cfg env backtrace durationMs top =
          sys.inferred.compareStackTraces cfg env (filterOutAPMFrames cfg (backtrace.drop FRAMES_TO_SKIP)).1
            durationMs top (filterOutAPMFrames cfg (backtrace.drop FRAMES_TO_SKIP)).2 := if_neg hs
      rw [hcapture]
      exact h.compareStackTraces durationMs top hred hmin hsdk hrep hframed.framed _ _
  | shutdown =>
    rw [InferredSpans.step, Option.some.injEq] at hstep
    subst hstep
    have hshutdown : ParentsInv (S := S) { sys.inferred with shutdown := true } := ⟨h.parented, h.ids⟩
    have hframed' : World.Framed (S := S) { sys.inferred with shutdown := true }.world
        { sys.inferred with shutdown := true }.lastStackTrace sys.appScopes := hframed.framed
    exact hshutdown.compareStackTraces 0 false hred hmin hsdk hrep hframed' [] (some 0)
  | appAttach context =>
    rw [InferredSpans.step, Option.some.injEq] at hstep
    subst hstep
    exact ⟨⟨h.parented.chain, h.parented.live⟩, h.ids⟩
  | appDetach scope =>
    by_cases hmem : scope ∈ sys.appScopes
    · rw [InferredSpans.step, if_pos hmem, Option.some.injEq] at hstep
      subst hstep
      exact ⟨⟨h.parented.chain, h.parented.live⟩, h.ids⟩
    · rw [InferredSpans.step, if_neg hmem] at hstep
      cases hstep

/-- **Parents of exported spans**: after the shutdown, with reduction, no minimum duration, SDK spans and successful
replacements of parents, every inferred parent of a span that has ended has ended. -/
theorem exported_parents (hred : cfg.spanReductionEnabled = true) (hmin : cfg.minSpanDuration = 0)
    (hsdk : ∀ n, env.isSdkSpan n = true) (hrep : ∀ n, env.parentReplaced n = true) {st : S.St}
    (hforeign : ∀ x ∈ S.attached st, (S.contextOf x).Foreign) {acts : List (Action X)}
    (h : Path (step S cfg env) AttachesForeign (System.init st) acts sys) (hs : sys.inferred.shutdown = true) :
    ∀ n ∈ sys.inferred.world.endedSpans, ∀ m, sys.inferred.world.parents n = some (.inferred m) →
      m ∈ sys.inferred.world.endedSpans := by
  have hinit : ParentsInv (System.init (S := S) st).inferred :=
    ⟨⟨trivial, fun n hn => absurd hn List.not_mem_nil⟩, fun f hf => absurd hf List.not_mem_nil⟩
  obtain ⟨hframed, hparents⟩ := h.invariant (I := fun sys => FramedInv sys ∧ ParentsInv sys.inferred)
    (fun _ _ _ hI hok hstep =>
      ⟨hI.1.step hsdk hok hstep, hI.2.step hred hmin hsdk hrep hI.1 hstep⟩) ⟨framed_init hforeign, hinit⟩
  intro n hn m hm
  refine (hparents.parented.live n hn m hm).resolve_right ?_
  rw [hframed.ended hs]
  rintro ⟨above, frame, below, heq, -⟩
  cases above <;> cases heq

/-- Three frames captured together, then `sleep` on `main`, then the shutdown. -/
def reducedActions : List (Action (NumberedScope Context)) :=
  [.captureStackTrace (skipped ++ [sleepFrame, workFrame, mainFrame]) 5 false,
    .captureStackTrace (skipped ++ [sleepFrame, mainFrame]) 5 false, .shutdown]

/-- `sleep` was exported as a child of `main`, whose parent is no inferred span. -/
theorem exported_parents_witness : ∃ s,
    run (step (ScopeStorage.numbered Context) request (tracer true)) (System.init noScopes) reducedActions = some s ∧
      s.inferred.world.dropped = [1] ∧ s.inferred.world.parents 2 = some (.inferred 0) ∧
      ∀ n ∈ s.inferred.world.endedSpans, ∀ m, s.inferred.world.parents n = some (.inferred m) →
        m ∈ s.inferred.world.endedSpans := by
  have hpath : ∃ s, Path (step (ScopeStorage.numbered Context) request (tracer true)) AttachesForeign
      (System.init noScopes) reducedActions s ∧ s.inferred.shutdown = true ∧ s.inferred.world.dropped = [1] ∧
        s.inferred.world.parents 2 = some (.inferred 0) :=
    ⟨_, .cons trivial rfl (.cons trivial rfl (.cons trivial rfl (.nil _))), rfl, rfl, rfl⟩
  obtain ⟨s, hpath, hs, hdropped, hparent⟩ := hpath
  exact ⟨s, hpath.run_eq, hdropped, hparent, exported_parents rfl rfl (fun _ => rfl) (fun _ => rfl)
    (fun x hx => absurd hx List.not_mem_nil) hpath hs⟩

end OtelDistro.InferredSpans
