import OtelDistro.Instrumentation.Observer

/-!
# OtelDistro.Instrumentation.HookIsolation — which hooks run for which function

Hooks are stored and found by the 64-bit key of a class and a function; two pairs of names can have one key.

* `Allowed`: the hooks that may run for a call.
* `KeysOk`: what is found under a key was stored for the names that were looked up.
* `hooks_isolated`: then only hooks of the function or of an interface of its class run.
* `foreign_hook_runs`: without the condition the hook of any function with the same key runs.
-/

namespace OtelDistro.Instrumentation.Observer

open Lib

/-- The hooks were registered for the function, or for that method of an interface of its class. -/
def Allowed (callee : Names) (interfaces : List Str) (registeredFor : Names) : Prop :=
  registeredFor = callee ∨ ∃ i ∈ interfaces, registeredFor = ⟨i.map toLower, callee.fn⟩

/-- A hook that was run is one of those that may run for the call. -/
def Event.Isolated : Event → Prop
  | .hook callee interfaces registeredFor _ => Allowed callee interfaces registeredFor
  | _ => True

/-- The node that the loop of a handler comes to. -/
def Worker.visited (w : Worker) : Option (ℕ × Node) :=
  match w.stack with
  | ⟨n, .beginHooks last, _⟩ :: _ | ⟨n, .endHooks last, _⟩ :: _ => (Worker.nextOf (w.nodes n) last).map fun node => (n, node)
  | _ => none

/-- No other names share the key that is looked up: of an interface whose callbacks are copied on the first call, of a
function whose hooks are run. -/
def KeysOk (w : Worker) : Action → Prop
  | .enter n => w.installed n = none → (w.code.func n).hash ≠ 0 → w.hooks.lookup (w.code.func n).hash = none →
    ∀ i nodes, w.findInterface (w.code.func n) = some (i, nodes) →
      ∀ node ∈ nodes, node.storedFor = Names.of i ((w.code.func n).functionName.getD [])
  | .next => ∀ n node, w.visited = some (n, node) → node.storedFor = names (w.code.func n)
  | _ => True

/-- Whatever is stored may run for the names it is stored for. -/
structure HookInv (w : Worker) : Prop where
  stored : ∀ k, ∀ node ∈ (w.hooks.lookup k).getD [],
    Allowed node.storedFor (w.code.interfaces node.storedFor.cls) node.registeredFor
  isolated : ∀ e ∈ w.log, e.Isolated

section

variable {w w' : Worker} {n : ℕ} {node : Node} {k : UInt64} {storedFor registeredFor : Names}
  {callbacks : Callbacks Callable} {func : UserFunction}

/-! ## What is stored -/

theorem mem_store (h : node ∈ ((w.store storedFor registeredFor callbacks).hooks.lookup k).getD []) :
    node ∈ (w.hooks.lookup k).getD [] ∨ node.storedFor = storedFor ∧ node.registeredFor = registeredFor := by
  simp only [Worker.store, KMap.lookup_insert'] at h
  split at h
  · next hk =>
    subst hk
    rw [Option.getD_some, List.mem_append, List.mem_singleton] at h
    rcases h with h | rfl
    · exact .inl h
    · exact .inr ⟨rfl, rfl⟩
  · exact .inl h

theorem mem_storeFront (h : node ∈ ((w.storeFront storedFor registeredFor callbacks).hooks.lookup k).getD []) :
    node ∈ (w.hooks.lookup k).getD [] ∨ node.storedFor = storedFor ∧ node.registeredFor = registeredFor := by
  simp only [Worker.storeFront, KMap.lookup_insert'] at h
  split at h
  · next hk =>
    subst hk
    rw [Option.getD_some, List.mem_cons] at h
    rcases h with rfl | h
    · exact .inr ⟨rfl, rfl⟩
    · exact .inl h
  · exact .inl h

theorem mem_copyCallbacks {nodes : List Node}
    (h : node ∈ ((w.copyCallbacks storedFor nodes).hooks.lookup k).getD []) : node ∈ (w.hooks.lookup k).getD [] ∨
      node.storedFor = storedFor ∧ ∃ original ∈ nodes, node.registeredFor = original.registeredFor := by
  induction nodes generalizing w with
  | nil => exact .inl h
  | cons original nodes ih =>
    rcases ih (w := w.store storedFor original.registeredFor original.callbacks) h with h | ⟨hs, o, ho, hr⟩
    · rcases mem_store h with h | ⟨hs, hr⟩
      · exact .inl h
      · exact .inr ⟨hs, original, List.mem_cons_self, hr⟩
    · exact .inr ⟨hs, o, List.mem_cons_of_mem original ho, hr⟩

/-! ## The invariant -/

theorem HookInv.of_same (hs : SameRequest w w') (h : HookInv w)
    (hnew : ∀ k, ∀ node ∈ (w'.hooks.lookup k).getD [], node ∈ (w.hooks.lookup k).getD [] ∨
      Allowed node.storedFor (w.code.interfaces node.storedFor.cls) node.registeredFor) : HookInv w' where
  stored k node hn := by
    rw [hs.code]
    rcases hnew k node hn with hn | hn
    · exact h.stored k node hn
    · exact hn
  isolated := hs.log ▸ h.isolated

/-- What may run for a method of an interface may run for that method of the class. -/
theorem Allowed.of_interface (code : Code) {c i f : Str} (hi : i ∈ code.interfaces c) {registeredFor : Names}
    (h : Allowed ⟨i.map toLower, f⟩ (code.interfaces (i.map toLower)) registeredFor) :
    Allowed ⟨c, f⟩ (code.interfaces c) registeredFor := by
  rcases h with rfl | ⟨j, hj, rfl⟩
  · exact .inr ⟨i, hi, rfl⟩
  · obtain ⟨j', hj', heq⟩ := List.mem_map.mp (code.inherited c i hi j hj)
    exact .inr ⟨j', hj', by rw [heq]⟩

theorem findInterface_eq {i : Str} {nodes : List Node} (h : w.findInterface func = some (i, nodes)) :
    i ∈ w.interfacesOf func ∧
      w.hooks.lookup (hashClassAndFunctionNameLowercase i (func.functionName.getD [])) = some nodes := by
  obtain ⟨i', hi', hl⟩ := List.exists_of_findSome?_eq_some h
  obtain ⟨nodes', hn, heq⟩ := Option.map_eq_some_iff.mp hl
  obtain ⟨rfl, rfl⟩ := Prod.mk.inj heq
  exact ⟨hi', hn⟩

theorem HookInv.findCallbacks (h : HookInv w)
    (hk : w.hooks.lookup func.hash = none → ∀ i nodes, w.findInterface func = some (i, nodes) →
      ∀ node ∈ nodes, node.storedFor = Names.of i (func.functionName.getD [])) : HookInv (w.findCallbacks func).1 := by
  refine h.of_same (sameRequest_findCallbacks w func) fun k node hn => ?_
  unfold Worker.findCallbacks at hn
  cases hlook : w.hooks.lookup func.hash with
  | some nodes =>
    simp only [hlook] at hn
    exact .inl hn
  | none =>
    cases hfind : w.findInterface func with
    | none =>
      simp only [hlook, hfind] at hn
      exact .inl hn
    | some p =>
      obtain ⟨i, nodes⟩ := p
      simp only [hlook, hfind] at hn
      rcases mem_copyCallbacks hn with hn | ⟨hs, original, ho, hr⟩
      · exact .inl hn
      · -- the original may run for the method of the interface
        obtain ⟨hi, hnodes⟩ := findInterface_eq hfind
        have hallowed := h.stored _ original (by rw [hnodes]; exact ho)
        rw [hk hlook i nodes hfind original ho] at hallowed
        refine .inr ?_
        rw [hs, hr]
        exact hallowed.of_interface w.code hi

theorem HookInv.storeDebugHooks (h : HookInv w) (func : UserFunction) (found : Option (List Node)) :
    HookInv (w.storeDebugHooks func found).1 := by
  refine h.of_same (sameRequest_storeDebugHooks w func found) fun k node hn => ?_
  unfold Worker.storeDebugHooks at hn
  split at hn
  · rcases mem_storeFront hn with hn | ⟨hs, hr⟩
    · exact .inl hn
    · exact .inr (.inl (hr.trans hs.symm))
  · exact .inl hn

theorem HookInv.registerObserverHandlers (h : HookInv w)
    (hk : func.hash ≠ 0 → w.hooks.lookup func.hash = none → ∀ i nodes, w.findInterface func = some (i, nodes) →
      ∀ node ∈ nodes, node.storedFor = Names.of i (func.functionName.getD [])) :
    HookInv (w.registerObserverHandlers func).1 := by
  unfold Worker.registerObserverHandlers
  by_cases h0 : func.hash = 0
  · rw [if_pos h0]
    exact h
  · rw [if_neg h0]
    have hdebug := (h.findCallbacks (hk h0)).storeDebugHooks func (w.findCallbacks func).2
    refine hdebug.of_same (sameRequest_storeAttribute _ func) fun k node hn => ?_
    rw [storeAttribute_hooks] at hn
    exact .inl hn

theorem HookInv.install (h : HookInv w) (hk : KeysOk w (.enter n)) : HookInv (w.install n) := by
  cases hn : w.installed n with
  | none =>
    have := h.registerObserverHandlers (hk hn)
    rw [install_of_none hn]
    exact ⟨this.stored, this.isolated⟩
  | some handlers =>
    rw [install_of_isSome (by rw [hn]; rfl)]
    exact h

/-- A step of a handler that stores nothing and adds an isolated event or none. -/
theorem HookInv.of_log (h : HookInv w) (events : List Event) (hh : w'.hooks = w.hooks) (hc : w'.code = w.code)
    (hl : w'.log = w.log ++ events) (he : ∀ e ∈ events, e.Isolated) : HookInv w' where
  stored k node hn := by
    rw [hh] at hn
    exact hc ▸ h.stored k node hn
  isolated e hm := by
    rw [hl] at hm
    rcases List.mem_append.mp hm with hm | hm
    · exact h.isolated e hm
    · exact he e hm

theorem HookInv.enter (h : HookInv w) (hk : KeysOk w (.enter n)) : HookInv (w.enter n) := by
  have hi := h.install hk
  unfold Worker.enter
  dsimp only
  split
  · exact hi.of_log [] rfl rfl (by simp) (by simp)
  · exact hi.of_log [.begun _ _] rfl rfl rfl (by simp [Event.Isolated])

theorem nextOf_mem {nodes : List Node} {last : Option ℕ} (h : Worker.nextOf nodes last = some node) : node ∈ nodes := by
  cases last with
  | none => exact List.mem_of_head? h
  | some last =>
    have hm : node ∈ (nodes.dropWhile fun node => node.number ≠ last).tail := List.mem_of_head? h
    exact (List.dropWhile_suffix _).subset (List.mem_of_mem_tail hm)

/-- A hook that is visited may run for the function. -/
theorem HookInv.visited (h : HookInv w) {last : Option ℕ} (hn : Worker.nextOf (w.nodes n) last = some node)
    (hs : node.storedFor = names (w.code.func n)) :
    Allowed (names (w.code.func n)) (w.interfacesOf (w.code.func n)) node.registeredFor := by
  have := h.stored _ node (nextOf_mem hn)
  rw [hs] at this
  exact this

theorem HookInv.callHook (h : HookInv w) {last : Option ℕ} (hn : Worker.nextOf (w.nodes n) last = some node)
    (hs : node.storedFor = names (w.code.func n)) (callable : Option Callable) : HookInv (w.callHook n node callable) := by
  cases callable with
  | none => exact h
  | some callable =>
    have hallowed := h.visited hn hs
    exact h.of_log [.hook ..] rfl rfl rfl (by simpa [Event.Isolated] using hallowed)

/-- Only the bookkeeping of the running call changes. -/
theorem HookInv.of_stack (h : HookInv w) (stack : List Frame) : HookInv { w with stack } := ⟨h.stored, h.isolated⟩

theorem HookInv.next (h : HookInv w) (hk : KeysOk w .next) (hs : w.next = some w') : HookInv w' := by
  unfold Worker.next at hs
  split at hs
  · next n last pre rest hst =>
    split at hs
    · next node hn =>
      cases hs
      have hnode := hk n node (by simp [Worker.visited, hst, hn])
      exact (h.callHook hn hnode node.callbacks.1).of_stack _
    · cases hs
      exact h.of_stack _
  · cases hs
    exact h.of_log [.begun _ _] rfl rfl rfl (by simp [Event.Isolated])
  · next n last pre rest hst =>
    split at hs
    · next node hn =>
      cases hs
      have hnode := hk n node (by simp [Worker.visited, hst, hn])
      exact (h.callHook hn hnode node.callbacks.2).of_stack _
    · cases hs
      exact h.of_stack _
  · cases hs
    exact h.of_log [.ended _ _] rfl rfl rfl (by simp [Event.Isolated])
  · cases hs

theorem HookInv.leave (h : HookInv w) (hs : w.leave = some w') : HookInv w' := by
  unfold Worker.leave at hs
  split at hs
  · split at hs
    · cases hs
      exact h.of_stack _
    · cases hs
      exact h.of_log [.ended _ _] rfl rfl rfl (by simp [Event.Isolated])
  · cases hs

theorem HookInv.instrumentFunction (h : HookInv w) (cName fName : Str) :
    HookInv (w.instrumentFunction cName fName callbacks) := by
  have hsame : SameRequest w (w.instrumentFunction cName fName callbacks) := ⟨rfl, rfl, rfl, rfl, rfl⟩
  refine h.of_same hsame fun k node hn => ?_
  rcases mem_store hn with hn | ⟨hs, hr⟩
  · exact .inl hn
  · exact .inr (.inl (hr.trans hs.symm))

theorem HookInv.step {a : Action} (h : HookInv w) (hk : KeysOk w a) (hs : step w a = some w') : HookInv w' := by
  cases a with
  | requestInit config code =>
    simp only [Observer.step] at hs
    split at hs
    · cases hs
      exact ⟨fun k node hn => by simp at hn, h.isolated⟩
    · cases hs
  | bootstrapped =>
    simp only [Observer.step] at hs
    split at hs
    · cases hs
      exact ⟨h.stored, h.isolated⟩
    · cases hs
  | instrumentFunction cName fName callableOnEntry callableOnExit =>
    cases hs
    exact h.instrumentFunction cName fName
  | enter n =>
    cases hs
    exact h.enter hk
  | next => exact h.next hk hs
  | leave => exact h.leave hs

end

/-! ## Runs -/

theorem hookInv_initial (code : Code) : HookInv (Worker.initial code) where
  stored k node hn := by simp [Worker.initial] at hn
  isolated e he := by simp [Worker.initial] at he

/-- **Hook isolation.** As long as no two functions share a key, every hook that is run was registered for the function that
is called, or for that method of an interface of its class. -/
theorem hooks_isolated {code : Code} {as : List Action} {w : Worker}
    (h : Path step KeysOk (Worker.initial code) as w) : ∀ e ∈ w.log, e.Isolated :=
  (h.invariant (fun _ _ _ hI hk hs => hI.step hk hs) (hookInv_initial code)).isolated

/-- One function with a hook and a call of another one. -/
def cleanCode : Code where
  func n := { functionName := some (if n = 0 then lit "f" else lit "g") }
  interfaces _ := []
  inherited _ _ h := by cases h

def cleanActions : List Action :=
  [.requestInit {} cleanCode, .bootstrapped, .instrumentFunction [] (lit "F") (some (.closure 0)) none, .enter 0, .next,
    .enter 1, .leave]

theorem hooks_isolated_clean : ∃ w : Worker, w.log.length = 3 ∧ ∀ e ∈ w.log, e.Isolated := by
  obtain ⟨w, h, hl⟩ : ∃ w, Path step KeysOk (Worker.initial cleanCode) cleanActions w ∧ w.log.length = 3 := by
    refine ⟨_, .cons trivial rfl (.cons trivial rfl (.cons trivial rfl (.cons ?_ rfl (.cons ?_ rfl (.cons ?_ rfl
      (.cons trivial rfl (.nil _))))))), rfl⟩
    · intro _ _ hl
      cases hl
    · intro n node hv
      cases hv
      rfl
    · intro _ _ _ i nodes hf
      cases hf
  exact ⟨w, hl, hooks_isolated h⟩

/-! ## Collisions -/

theorem registerObserverHandlers_of_lookup {w : Worker} {func : UserFunction} {nodes : List Node} (h0 : func.hash ≠ 0)
    (hd : w.config.debug_instrument_all = false) (hlook : w.hooks.lookup func.hash = some nodes) :
    w.registerObserverHandlers func = (w.storeAttribute func, {
      begin := (w.currentAttribute func).isSome || nodes.any fun node => node.callbacks.1.isSome
      end_ := (w.currentAttribute func).isSome || nodes.any fun node => node.callbacks.2.isSome }) := by
  have hfind : w.findCallbacks func = (w, some nodes) := by
    unfold Worker.findCallbacks
    rw [hlook]
  have hdebug : w.storeDebugHooks func (some nodes) = (w, some nodes) := by
    unfold Worker.storeDebugHooks Worker.isDebugInstrumented
    rw [hd]
    rfl
  unfold Worker.registerObserverHandlers
  rw [if_neg h0, hfind]
  dsimp only
  rw [hdebug]
  rfl

/-- The first call of a function with an entry hook begins with the hooks under its key. -/
theorem enter_beginHooks {w : Worker} {n : ℕ} {node : Node} {nodes : List Node} (hn : w.installed n = none)
    (h0 : (w.code.func n).hash ≠ 0) (hd : w.config.debug_instrument_all = false)
    (hlook : w.hooks.lookup (w.code.func n).hash = some (node :: nodes)) (hpre : node.callbacks.1.isSome) :
    (w.install n).hooks = w.hooks ∧
      w.enter n = { w.install n with stack := ⟨n, .beginHooks none, none⟩ :: (w.install n).stack } := by
  have hreg := registerObserverHandlers_of_lookup h0 hd hlook
  have hhooks : (w.install n).hooks = w.hooks := by
    rw [install_of_none hn, hreg]
    exact storeAttribute_hooks w (w.code.func n)
  have hbegin : ((w.install n).handlers n).begin = true := by
    rw [handlers_install hn, hreg]
    simp [hpre]
  refine ⟨hhooks, ?_⟩
  unfold Worker.enter
  dsimp only
  rw [if_pos hbegin, (sameRequest_install w n).code, hhooks, hlook]
  rfl

/-- The hook of any function runs for every function with the same key. -/
theorem foreign_hook_runs {w : Worker} {n : ℕ} {cName fName : Str} {callable : Callable} {onExit : Option Callable}
    (hn : w.installed n = none) (h0 : (w.code.func n).hash ≠ 0) (hlook : w.hooks.lookup (w.code.func n).hash = none)
    (hd : w.config.debug_instrument_all = false) (hkey : (Names.of cName fName).key = (w.code.func n).hash) :
    ∃ w', run step w [.instrumentFunction cName fName (some callable) onExit, .enter n, .next] = some w' ∧
      Event.hook (names (w.code.func n)) (w.interfacesOf (w.code.func n)) (Names.of cName fName) callable ∈ w'.log := by
  let w₁ := w.instrumentFunction cName fName (some callable, onExit)
  let node : Node := ⟨w.nextNode, Names.of cName fName, Names.of cName fName, (some callable, onExit)⟩
  have hlook₁ : w₁.hooks.lookup (w.code.func n).hash = some [node] := by
    change (w.hooks.insert _ _).lookup _ = _
    rw [KMap.lookup_insert', if_pos hkey, hkey, hlook]
    rfl
  have hcode : (w₁.install n).code = w.code := (sameRequest_install w₁ n).code
  obtain ⟨hhooks, henter⟩ := enter_beginHooks (w := w₁) hn h0 hd hlook₁ rfl
  have hnodes : (w₁.enter n).nodes n = [node] := by
    rw [henter]
    change ((w₁.install n).hooks.lookup ((w₁.install n).code.func n).hash).getD [] = _
    rw [hhooks, hcode, hlook₁]
    rfl
  have hnext : (w₁.enter n).next = some { (w₁.enter n).callHook n node node.callbacks.1 with
      stack := ⟨n, .beginHooks (some node.number), none⟩ :: (w₁.install n).stack } := by
    rw [henter] at hnodes ⊢
    simp only [Worker.next, hnodes]
    rfl
  have hrun : run step w [.instrumentFunction cName fName (some callable) onExit, .enter n, .next] = some
      { (w₁.enter n).callHook n node node.callbacks.1 with
        stack := ⟨n, .beginHooks (some node.number), none⟩ :: (w₁.install n).stack } := by
    change (w₁.enter n).next.bind some = _
    rw [hnext]
    rfl
  refine ⟨_, hrun, ?_⟩
  · rw [henter]
    refine List.mem_append_right _ (List.mem_singleton.mpr ?_)
    simp only [Worker.interfacesOf, hcode]
    rfl

/-- `ar` and `c0` have the same key: a hook of the one runs for the other. -/
def arCode : Code where
  func _ := { functionName := some (lit "c0") }
  interfaces _ := []
  inherited _ _ h := by cases h

theorem ar_hook_runs_for_c0 : ∃ w, run step (Worker.initial arCode) [.requestInit {} arCode, .bootstrapped,
    .instrumentFunction [] (lit "ar") (some (.closure 0)) none, .enter 0, .next] = some w ∧
    ¬ ∀ e ∈ w.log, e.Isolated := by
  obtain ⟨w₀, h₀, hw₀⟩ : ∃ w₀, run step (Worker.initial arCode) [.requestInit {} arCode, .bootstrapped] = some w₀ ∧
      w₀ = { code := arCode, functional := true } := ⟨_, rfl, rfl⟩
  subst hw₀
  obtain ⟨w, h, hmem⟩ := @foreign_hook_runs { code := arCode, functional := true } 0 [] (lit "ar") (.closure 0) none
    rfl (by decide) rfl rfl (by decide)
  refine ⟨w, ?_, fun hall => ?_⟩
  · exact (run_append_of h₀).trans h
  · rcases hall _ hmem with heq | ⟨i, hi, _⟩
    · revert heq
      decide
    · cases hi

end OtelDistro.Instrumentation.Observer
