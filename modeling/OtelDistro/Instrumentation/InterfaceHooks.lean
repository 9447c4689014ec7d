import OtelDistro.Instrumentation.HookIsolation

/-!
# OtelDistro.Instrumentation.InterfaceHooks — hooks of a method and of its interfaces

Hooks for a method of an interface are to run for the implementations.  On the first call of a method one list of hooks is
selected: the one under its own key, or else that of the first interface that has one.

* `targets`: the names that hooks for a method are registered for.
* `registrations`: the hooks registered in a request.
* `ObservedCall`: a call of a method, with all that comes between its steps; `ranDuring`: the closures its handlers ran.
* `RunsEachOnce`: these are the closures that were registered.  `AllSelected`: so are those of the selected list.
* `Grows`: how the lists change after the first call.  `Progress`: how far a handler has come.

`runsEachOnce_iff`: a call runs each hook once exactly if all were in the list selected at the first call.
-/

namespace OtelDistro.Instrumentation.Observer

open Lib

/-! ## Hooks of a method -/

/-- The names of a function and of that method of each interface. -/
def targets (w : Worker) (n : ℕ) : List Names :=
  names (w.code.func n) :: (w.interfacesOf (w.code.func n)).map fun i => Names.of i ((w.code.func n).functionName.getD [])

/-- The hooks registered since the request began. -/
def registrations (acts : List Action) : List (Names × Callbacks Callable) :=
  acts.foldl (fun regs a =>
    match a with
    | .requestInit .. => []
    | .instrumentFunction cName fName callableOnEntry callableOnExit =>
      regs ++ [(Names.of cName fName, (callableOnEntry, callableOnExit))]
    | _ => regs) []

/-- The handler that runs a callable. -/
inductive Side
  | pre
  | post
deriving DecidableEq

def Side.of (side : Side) (callbacks : Callbacks Callable) : Option Callable :=
  match side with
  | .pre => callbacks.1
  | .post => callbacks.2

def closureOf : Option Callable → Option ℕ
  | some (.closure number) => some number
  | _ => none

/-- The closures registered for a name. -/
def registered (side : Side) (T : Names) (regs : List (Names × Callbacks Callable)) : List ℕ :=
  regs.filterMap fun r => if r.1 = T then closureOf (side.of r.2) else none

/-- The closures in a list of nodes that were registered for a name. -/
def closures (side : Side) (T : Names) (nodes : List Node) : List ℕ :=
  nodes.filterMap fun node => if node.registeredFor = T then closureOf (side.of node.callbacks) else none

/-- The list that the first call selects. -/
def Worker.selected (w : Worker) (n : ℕ) : List Node :=
  if (w.code.func n).hash = 0 then [] else ((w.findCallbacks (w.code.func n)).2).getD []

/-! ## Calls -/

/-- The closures that a step runs in a handler of the call with `depth` calls below it. -/
def ran (side : Side) (T : Names) (depth : ℕ) (w : Worker) : Action → List ℕ
  | .next =>
    match w.stack with
    | frame :: rest =>
      if rest.length = depth then
        match side, frame.phase with
        | .pre, .beginHooks last => closures .pre T (Worker.nextOf (w.nodes frame.func) last).toList
        | .post, .endHooks last => closures .post T (Worker.nextOf (w.nodes frame.func) last).toList
        | _, _ => []
      else []
    | [] => []
  | _ => []

def ranDuring (side : Side) (T : Names) (depth : ℕ) : Worker → List Action → List ℕ
  | _, [] => []
  | w, a :: acts => ran side T depth w a ++
      match step w a with
      | some w' => ranDuring side T depth w' acts
      | none => []

/-- The request goes on, and no hook is registered for one of the names. -/
def Settled (names : List Names) : Action → Prop
  | .requestInit .. => False
  | .instrumentFunction cName fName _ _ => Names.of cName fName ∉ names
  | _ => True

/-- A call of function `n`: the run up to the first call in the request, from there to this one, and up to its return.  The
steps of a call leave those below it on the stack. -/
structure ObservedCall (code : Code) where
  n : ℕ
  earlier : List Action
  first : Worker
  reached : run step (Worker.initial code) earlier = some first
  notCalled : first.installed n = none
  named : (first.code.func n).functionName.isSome
  between : List Action
  start : Worker
  since : Path step (fun _ a => Settled (targets first n) a) first between start
  isFirst : between = [] ∨ ∃ acts, between = .enter n :: acts
  during : List Action
  done : Worker
  calling : Path step (fun w a => start.stack.length < w.stack.length ∧ Settled (targets first n) a) (start.enter n) during done
  returned : done.stack.length = start.stack.length

namespace ObservedCall

variable {code : Code} (c : ObservedCall code)

/-- The call's handlers run the closures that were registered before the first call, each once. -/
def RunsEachOnce : Prop :=
  ∀ side, ∀ T ∈ targets c.first c.n,
    (ranDuring side T c.start.stack.length (c.start.enter c.n) c.during).Perm (registered side T (registrations c.earlier))

/-- The list selected at the first call has these closures. -/
def AllSelected : Prop :=
  ∀ side, ∀ T ∈ targets c.first c.n,
    (closures side T (c.first.selected c.n)).Perm (registered side T (registrations c.earlier))

end ObservedCall

/-! ## Lists that grow -/

/-- The node has no closure that was registered for one of the names. -/
def Plain (names : List Names) (node : Node) : Prop :=
  node.registeredFor ∈ names → ∀ side, closureOf (Side.of side node.callbacks) = none

section Grow

variable {T : Names} {side : Side} {nodes nodes' : List Node} {ns : List Names}

@[simp] theorem closures_append : closures side T (nodes ++ nodes') = closures side T nodes ++ closures side T nodes' :=
  List.filterMap_append

theorem closures_of_plain (hT : T ∈ ns) (h : ∀ node ∈ nodes, Plain ns node) : closures side T nodes = [] := by
  refine List.filterMap_eq_nil_iff.mpr fun node hnode => ?_
  split
  · next hfor => exact h node hnode (hfor ▸ hT) side
  · rfl

/-- The lists have got plain nodes at their ends; a new list is a copy, or plain. -/
structure Grows (ns : List Names) (hooks hooks' : KMap UInt64 (List Node)) : Prop where
  old : ∀ k nodes, hooks.lookup k = some nodes → ∃ front back, hooks'.lookup k = some (front ++ nodes ++ back) ∧
    (∀ node ∈ front, Plain ns node) ∧ ∀ node ∈ back, Plain ns node
  new : ∀ k nodes, hooks.lookup k = none → hooks'.lookup k = some nodes → ∀ node ∈ nodes, Plain ns node ∨
    ∃ k₀ nodes₀ node₀, hooks.lookup k₀ = some nodes₀ ∧ node₀ ∈ nodes₀ ∧ node₀.registeredFor = node.registeredFor ∧
      node₀.callbacks = node.callbacks

variable {hooks hooks' hooks'' : KMap UInt64 (List Node)}

theorem Grows.refl (hooks : KMap UInt64 (List Node)) : Grows ns hooks hooks where
  old k nodes h := ⟨[], [], by rw [h, List.nil_append, List.append_nil], fun _ h => absurd h List.not_mem_nil,
    fun _ h => absurd h List.not_mem_nil⟩
  new k nodes h h' := by
    rw [h] at h'
    cases h'

theorem Plain.congr {node node' : Node} (h : Plain ns node) (hfor : node.registeredFor = node'.registeredFor)
    (hcallbacks : node.callbacks = node'.callbacks) : Plain ns node' :=
  fun hmem side => hcallbacks ▸ h (hfor ▸ hmem) side

theorem Grows.trans (h : Grows ns hooks hooks') (h' : Grows ns hooks' hooks'') : Grows ns hooks hooks'' where
  old k nodes hk := by
    obtain ⟨front, back, hmid, hfront, hback⟩ := h.old k nodes hk
    obtain ⟨front', back', hlast, hfront', hback'⟩ := h'.old k _ hmid
    refine ⟨front' ++ front, back ++ back', by rw [hlast]; simp only [List.append_assoc], fun node hn => ?_, fun node hn => ?_⟩
    · exact (List.mem_append.mp hn).elim (hfront' node) (hfront node)
    · exact (List.mem_append.mp hn).elim (hback node) (hback' node)
  new k nodes hk hlast node hn := by
    cases hmid : hooks'.lookup k with
    | some mid =>
      obtain ⟨front, back, hlast', hfront, hback⟩ := h'.old k mid hmid
      rw [hlast'] at hlast
      cases hlast
      rcases List.mem_append.mp hn with hn | hn
      · rcases List.mem_append.mp hn with hn | hn
        · exact .inl (hfront node hn)
        · exact h.new k mid hk hmid node hn
      · exact .inl (hback node hn)
    | none =>
      rcases h'.new k nodes hmid hlast node hn with hplain | ⟨k₀, nodes₀, node₀, hk₀, hn₀, hfor, hcallbacks⟩
      · exact .inl hplain
      · -- a copy of a node of a list that has grown, or is new itself
        cases hold : hooks.lookup k₀ with
        | some old =>
          obtain ⟨front, back, hk₀', hfront, hback⟩ := h.old k₀ old hold
          rw [hk₀'] at hk₀
          cases hk₀
          rcases List.mem_append.mp hn₀ with hn₀ | hn₀
          · rcases List.mem_append.mp hn₀ with hn₀ | hn₀
            · exact .inl ((hfront node₀ hn₀).congr hfor hcallbacks)
            · exact .inr ⟨k₀, old, node₀, hold, hn₀, hfor, hcallbacks⟩
          · exact .inl ((hback node₀ hn₀).congr hfor hcallbacks)
        | none =>
          rcases h.new k₀ nodes₀ hold hk₀ node₀ hn₀ with hplain | ⟨k₁, nodes₁, node₁, hk₁, hn₁, hfor', hcallbacks'⟩
          · exact .inl (hplain.congr hfor hcallbacks)
          · exact .inr ⟨k₁, nodes₁, node₁, hk₁, hn₁, hfor'.trans hfor, hcallbacks'.trans hcallbacks⟩

/-- A plain node is added to a list, at one of its ends, or is a list of its own. -/
theorem grows_insert (hooks : KMap UInt64 (List Node)) (k : UInt64) (front back : List Node) (hfront : ∀ node ∈ front, Plain ns node)
    (hback : ∀ node ∈ back, Plain ns node) :
    Grows ns hooks (hooks.insert k (front ++ (hooks.lookup k).getD [] ++ back)) where
  old k' nodes hk := by
    rw [KMap.lookup_insert']
    split
    · next heq =>
      subst heq
      exact ⟨front, back, by rw [hk]; rfl, hfront, hback⟩
    · exact (Grows.refl hooks).old k' nodes hk
  new k' nodes hk hk' node hn := by
    rw [KMap.lookup_insert'] at hk'
    split at hk'
    · next heq =>
      subst heq
      rw [hk] at hk'
      cases hk'
      rw [Option.getD_none, List.append_nil] at hn
      exact .inl ((List.mem_append.mp hn).elim (hfront node) (hback node))
    · rw [hk] at hk'
      cases hk'

end Grow

/-! ## What is filed under the keys -/

/-- Lists are not empty and number their nodes; names that closures were registered for have a list. -/
structure Filed (w : Worker) : Prop where
  nonempty : ∀ k nodes, w.hooks.lookup k = some nodes → nodes ≠ []
  numbers : ∀ k nodes, w.hooks.lookup k = some nodes → (nodes.map Node.number).Nodup
  below : ∀ k nodes, w.hooks.lookup k = some nodes → ∀ node ∈ nodes, node.number < w.nextNode
  keyed : ∀ k nodes, w.hooks.lookup k = some nodes → ∀ node ∈ nodes, ∀ side, closureOf (Side.of side node.callbacks) ≠ none →
    (w.hooks.lookup node.registeredFor.key).isSome

section Filed

variable {w w' : Worker} {n : ℕ} {node : Node} {k : UInt64} {storedFor registeredFor : Names}
  {callbacks : Callbacks Callable} {func : UserFunction} {ns : List Names}

theorem isSome_lookup_insert {hooks : KMap UInt64 (List Node)} {k' : UInt64} {nodes : List Node}
    (h : (hooks.lookup k').isSome) : ((hooks.insert k nodes).lookup k').isSome := by
  rw [KMap.lookup_insert']
  split
  · rfl
  · exact h

/-- A new node is added to a list. -/
theorem Filed.add (h : Filed w) (node : Node) {nodes : List Node} (hperm : nodes.Perm (node :: (w.hooks.lookup k).getD []))
    (hnumber : node.number = w.nextNode)
    (hkeyed : ∀ side, closureOf (Side.of side node.callbacks) ≠ none →
      node.registeredFor.key = k ∨ (w.hooks.lookup node.registeredFor.key).isSome) :
    Filed { w with hooks := w.hooks.insert k nodes, nextNode := w.nextNode + 1 } := by
  have hold : ∀ old ∈ (w.hooks.lookup k).getD [], ∃ nodes, w.hooks.lookup k = some nodes ∧ old ∈ nodes := by
    intro old hmem
    cases hk : w.hooks.lookup k with
    | none =>
      rw [hk] at hmem
      cases hmem
    | some nodes =>
      rw [hk] at hmem
      exact ⟨nodes, rfl, hmem⟩
  refine ⟨fun k' nodes' hk' => ?_, fun k' nodes' hk' => ?_, fun k' nodes' hk' old hmem => ?_,
    fun k' nodes' hk' old hmem side hclosure => ?_⟩ <;>
    rw [KMap.lookup_insert'] at hk' <;> split at hk'
  · cases hk'
    intro hnil
    rw [hnil] at hperm
    exact List.cons_ne_nil _ _ hperm.symm.eq_nil
  · exact h.nonempty k' nodes' hk'
  · cases hk'
    rw [(hperm.map Node.number).nodup_iff, List.map_cons, List.nodup_cons]
    constructor
    · intro hmem
      obtain ⟨old, hold', heq⟩ := List.mem_map.mp hmem
      obtain ⟨nodes', hk, hmem⟩ := hold old hold'
      have := h.below k nodes' hk old hmem
      omega
    · cases hk : w.hooks.lookup k with
      | none => exact List.nodup_nil
      | some old => exact h.numbers k old hk
  · exact h.numbers k' nodes' hk'
  · cases hk'
    rcases List.mem_cons.mp (hperm.mem_iff.mp hmem) with rfl | hmem
    · exact hnumber ▸ Nat.lt_succ_self _
    · obtain ⟨nodes', hk, hmem⟩ := hold old hmem
      exact Nat.lt_succ_of_lt (h.below k nodes' hk old hmem)
  · exact Nat.lt_succ_of_lt (h.below k' nodes' hk' old hmem)
  · cases hk'
    rcases List.mem_cons.mp (hperm.mem_iff.mp hmem) with rfl | hmem
    · rcases hkeyed side hclosure with heq | hsome
      · rw [heq, KMap.lookup_insert', if_pos rfl]
        rfl
      · exact isSome_lookup_insert hsome
    · obtain ⟨nodes', hk, hmem⟩ := hold old hmem
      exact isSome_lookup_insert (h.keyed k nodes' hk old hmem side hclosure)
  · exact isSome_lookup_insert (h.keyed k' nodes' hk' old hmem side hclosure)

theorem Filed.of_hooks (h : Filed w) (hhooks : w'.hooks = w.hooks) (hnext : w'.nextNode = w.nextNode) : Filed w' := by
  refine ⟨?_, ?_, ?_, ?_⟩
  · rw [hhooks]
    exact h.nonempty
  · rw [hhooks]
    exact h.numbers
  · rw [hhooks, hnext]
    exact h.below
  · rw [hhooks]
    exact h.keyed

theorem filed_of_empty (h : w.hooks = ∅) : Filed w := by
  refine ⟨?_, ?_, ?_, ?_⟩ <;> (rw [h]; intro k nodes hk; simp at hk)

theorem Filed.store (h : Filed w) (hkeyed : ∀ side, closureOf (Side.of side callbacks) ≠ none →
    registeredFor.key = storedFor.key ∨ (w.hooks.lookup registeredFor.key).isSome) :
    Filed (w.store storedFor registeredFor callbacks) :=
  h.add ⟨w.nextNode, storedFor, registeredFor, callbacks⟩ (List.perm_append_singleton _ _) rfl hkeyed

/-- What a copy keeps of a node. -/
def Node.content (node : Node) : Names × Callbacks Callable := (node.registeredFor, node.callbacks)

/-- The copies are a list of their own, or stand behind the nodes that are there. -/
theorem copyCallbacks_spec (w : Worker) (storedFor : Names) (nodes : List Node) :
    ∃ copies, copies.map Node.content = nodes.map Node.content ∧
      (∀ k, k ≠ storedFor.key → (w.copyCallbacks storedFor nodes).hooks.lookup k = w.hooks.lookup k) ∧
      (w.copyCallbacks storedFor nodes).hooks.lookup storedFor.key =
        if nodes = [] then w.hooks.lookup storedFor.key else some ((w.hooks.lookup storedFor.key).getD [] ++ copies) := by
  induction nodes generalizing w with
  | nil => exact ⟨[], rfl, fun k _ => rfl, rfl⟩
  | cons node nodes ih =>
    obtain ⟨copies, hcontent, hother, hown⟩ := ih (w.store storedFor node.registeredFor node.callbacks)
    have hstore : (w.store storedFor node.registeredFor node.callbacks).hooks.lookup storedFor.key =
        some ((w.hooks.lookup storedFor.key).getD [] ++ [⟨w.nextNode, storedFor, node.registeredFor, node.callbacks⟩]) := by
      rw [Worker.store, KMap.lookup_insert', if_pos rfl]
    refine ⟨⟨w.nextNode, storedFor, node.registeredFor, node.callbacks⟩ :: copies, ?_, fun k hk => ?_, ?_⟩
    · rw [List.map_cons, List.map_cons, hcontent]
      rfl
    · refine (hother k hk).trans ?_
      rw [Worker.store, KMap.lookup_insert', if_neg (Ne.symm hk)]
    · rw [if_neg (List.cons_ne_nil _ _)]
      refine hown.trans ?_
      rw [hstore]
      split
      · next hnil =>
        subst hnil
        rw [List.map_nil, List.map_eq_nil_iff] at hcontent
        rw [hcontent]
      · rw [Option.getD_some, List.append_assoc, List.singleton_append]

theorem Filed.copyCallbacks {nodes : List Node} (h : Filed w)
    (hkeyed : ∀ node ∈ nodes, ∀ side, closureOf (Side.of side node.callbacks) ≠ none →
      (w.hooks.lookup node.registeredFor.key).isSome) : Filed (w.copyCallbacks storedFor nodes) := by
  induction nodes generalizing w with
  | nil => exact h
  | cons node nodes ih =>
    refine ih (h.store fun side hclosure => .inr (hkeyed node List.mem_cons_self side hclosure)) ?_
    intro other hmem side hclosure
    exact isSome_lookup_insert (hkeyed other (List.mem_cons_of_mem node hmem) side hclosure)

theorem closureOf_debugHooks (scopedDeps : Bool) (side : Side) :
    closureOf (Side.of side (Worker.debugHooks scopedDeps)) = none := by
  cases side <;> rfl

/-- The key of a function that has one. -/
theorem key_of_hash (h0 : func.hash ≠ 0) : (names func).key = func.hash := by
  cases hname : func.functionName with
  | none => exact absurd (by rw [UserFunction.hash, hname]) h0
  | some name => exact (hash_eq_key (by rw [hname]; rfl)).symm

theorem Filed.findCallbacks (h : Filed w) (func : UserFunction) : Filed (w.findCallbacks func).1 := by
  unfold Worker.findCallbacks
  split
  · exact h
  · split
    · next i nodes hfind => exact h.copyCallbacks fun node hmem => h.keyed _ nodes (findInterface_eq hfind).2 node hmem
    · exact h

theorem Filed.storeDebugHooks (h : Filed w) (func : UserFunction) (found : Option (List Node)) :
    Filed (w.storeDebugHooks func found).1 := by
  unfold Worker.storeDebugHooks
  split
  · exact h.add ⟨w.nextNode, names func, names func, Worker.debugHooks w.config.scoped_deps_enabled⟩ (.refl _) rfl
      fun side hclosure => absurd (closureOf_debugHooks _ side) hclosure
  · exact h

theorem storeAttribute_nextNode (w : Worker) (func : UserFunction) : (w.storeAttribute func).nextNode = w.nextNode := by
  unfold Worker.storeAttribute
  split <;> rfl

theorem Filed.install (h : Filed w) (n : ℕ) : Filed (w.install n) := by
  cases hn : w.installed n with
  | none =>
    rw [install_of_none hn]
    refine Filed.of_hooks (w := (w.registerObserverHandlers (w.code.func n)).1) ?_ rfl rfl
    unfold Worker.registerObserverHandlers
    split
    · exact h
    · exact ((h.findCallbacks _).storeDebugHooks _ _).of_hooks (storeAttribute_hooks _ _) (storeAttribute_nextNode _ _)
  | some handlers =>
    rw [install_of_isSome (by rw [hn]; rfl)]
    exact h

theorem hooks_enter (w : Worker) (n : ℕ) :
    (w.enter n).hooks = (w.install n).hooks ∧ (w.enter n).nextNode = (w.install n).nextNode := by
  unfold Worker.enter
  dsimp only
  split <;> exact ⟨rfl, rfl⟩

theorem code_enter (w : Worker) (n : ℕ) :
    (w.enter n).code = (w.install n).code ∧ (w.enter n).installed = (w.install n).installed := by
  unfold Worker.enter
  dsimp only
  split <;> exact ⟨rfl, rfl⟩

/-- A call puts one frame on the stack. -/
theorem stack_enter (w : Worker) (n : ℕ) : ∃ frame, (w.enter n).stack = frame :: w.stack := by
  have hsame := (sameRequest_install w n).stack
  unfold Worker.enter
  dsimp only
  split
  · exact ⟨_, by rw [hsame]⟩
  · exact ⟨_, by rw [hsame]⟩

/-- The handlers store nothing. -/
theorem hooks_next (h : w.next = some w') : w'.hooks = w.hooks ∧ w'.nextNode = w.nextNode ∧ w'.code = w.code ∧
    w'.installed = w.installed := by
  have hcall : ∀ n node callable, (w.callHook n node callable).hooks = w.hooks ∧
      (w.callHook n node callable).nextNode = w.nextNode ∧ (w.callHook n node callable).code = w.code ∧
        (w.callHook n node callable).installed = w.installed := by
    intro n node callable
    cases callable <;> exact ⟨rfl, rfl, rfl, rfl⟩
  unfold Worker.next at h
  split at h
  · split at h
    · cases h
      exact hcall _ _ _
    · cases h
      exact ⟨rfl, rfl, rfl, rfl⟩
  · cases h
    exact ⟨rfl, rfl, rfl, rfl⟩
  · split at h
    · cases h
      exact hcall _ _ _
    · cases h
      exact ⟨rfl, rfl, rfl, rfl⟩
  · cases h
    exact ⟨rfl, rfl, rfl, rfl⟩
  · cases h

theorem hooks_leave (h : w.leave = some w') : w'.hooks = w.hooks ∧ w'.nextNode = w.nextNode ∧ w'.code = w.code ∧
    w'.installed = w.installed := by
  unfold Worker.leave at h
  split at h
  · split at h <;> (cases h; exact ⟨rfl, rfl, rfl, rfl⟩)
  · cases h

theorem Filed.step {a : Action} (h : Filed w) (hs : step w a = some w') : Filed w' := by
  cases a with
  | requestInit config code =>
    rw [Observer.step] at hs
    split at hs
    · cases hs
      exact filed_of_empty rfl
    · cases hs
  | bootstrapped =>
    rw [Observer.step] at hs
    split at hs
    · cases hs
      exact h.of_hooks rfl rfl
    · cases hs
  | instrumentFunction cName fName callableOnEntry callableOnExit =>
    cases hs
    exact h.store fun _ _ => .inl rfl
  | enter n =>
    cases hs
    exact (h.install n).of_hooks (hooks_enter w n).1 (hooks_enter w n).2
  | next => exact h.of_hooks (hooks_next hs).1 (hooks_next hs).2.1
  | leave => exact h.of_hooks (hooks_leave hs).1 (hooks_leave hs).2.1

theorem filed_of_run {code : Code} {acts : List Action} (h : run step (Worker.initial code) acts = some w) : Filed w :=
  run_invariant (I := Filed) (fun _ _ _ hI hst => hI.step hst) h (filed_of_empty rfl)

end Filed

/-! ## After the first call -/

section Grow

variable {w w' : Worker} {n : ℕ} {func : UserFunction} {ns : List Names}

theorem plain_debug (scopedDeps : Bool) (number : ℕ) (storedFor registeredFor : Names) :
    Plain ns ⟨number, storedFor, registeredFor, Worker.debugHooks scopedDeps⟩ :=
  fun _ side => closureOf_debugHooks scopedDeps side

theorem grows_findCallbacks (w : Worker) (h0 : func.hash ≠ 0) : Grows ns w.hooks (w.findCallbacks func).1.hooks := by
  unfold Worker.findCallbacks
  cases hown : w.hooks.lookup func.hash with
  | some nodes => exact .refl _
  | none =>
    cases hfind : w.findInterface func with
    | none => exact .refl _
    | some found =>
      obtain ⟨i, nodes⟩ := found
      obtain ⟨copies, hcontent, hother, hcopies⟩ := copyCallbacks_spec w (names func) nodes
      rw [key_of_hash h0] at hother hcopies
      refine ⟨fun k old hk => ?_, fun k new hk hk' node hmem => ?_⟩
      · have hne : k ≠ func.hash := fun e => by
          rw [e, hown] at hk
          cases hk
        exact ⟨[], [], by rw [List.nil_append, List.append_nil]; exact (hother k hne).trans hk, fun _ h => (by cases h),
          fun _ h => (by cases h)⟩
      · by_cases hne : k = func.hash
        · -- the copies of the nodes of the interface
          subst hne
          have hlook : (if nodes = [] then none else some copies) = some new := by
            rw [← hk', hcopies, hown]
            rfl
          split at hlook
          · cases hlook
          · cases hlook
            have hmem' : node.content ∈ nodes.map Node.content := hcontent ▸ List.mem_map_of_mem hmem
            obtain ⟨original, horiginal, heq⟩ := List.mem_map.mp hmem'
            obtain ⟨hfor, hcallbacks⟩ := Prod.mk.inj heq
            exact .inr ⟨_, nodes, original, (findInterface_eq hfind).2, horiginal, hfor, hcallbacks⟩
        · rw [show (w.copyCallbacks (names func) nodes).hooks.lookup k = w.hooks.lookup k from hother k hne, hk] at hk'
          cases hk'

theorem grows_storeDebugHooks (w : Worker) (func : UserFunction) (found : Option (List Node)) :
    Grows ns w.hooks (w.storeDebugHooks func found).1.hooks := by
  unfold Worker.storeDebugHooks
  split
  · have h : Grows ns w.hooks _ := grows_insert w.hooks (names func).key
      [⟨w.nextNode, names func, names func, Worker.debugHooks w.config.scoped_deps_enabled⟩] []
      (fun node hmem => by rw [List.mem_singleton.mp hmem]; exact plain_debug _ _ _ _) (fun node hmem => by cases hmem)
    rw [List.append_nil, List.singleton_append] at h
    exact h
  · exact .refl _

theorem grows_install (w : Worker) (n : ℕ) : Grows ns w.hooks (w.install n).hooks := by
  cases hn : w.installed n with
  | none =>
    rw [install_of_none hn]
    show Grows ns w.hooks (w.registerObserverHandlers (w.code.func n)).1.hooks
    unfold Worker.registerObserverHandlers
    split
    · exact .refl _
    · next h0 =>
      dsimp only
      rw [storeAttribute_hooks]
      exact (grows_findCallbacks w h0).trans (grows_storeDebugHooks _ _ _)
  | some handlers =>
    rw [install_of_isSome (by rw [hn]; rfl)]
    exact .refl _

/-- As long as the request goes on and no hook is registered for the names, the lists get plain nodes only. -/
theorem grows_step {a : Action} (ha : Settled ns a) (hs : step w a = some w') : Grows ns w.hooks w'.hooks := by
  cases a with
  | requestInit config code => exact absurd ha id
  | bootstrapped =>
    rw [Observer.step] at hs
    split at hs
    · cases hs
      exact .refl _
    · cases hs
  | instrumentFunction cName fName callableOnEntry callableOnExit =>
    cases hs
    exact grows_insert w.hooks (Names.of cName fName).key []
      [⟨w.nextNode, Names.of cName fName, Names.of cName fName, (callableOnEntry, callableOnExit)⟩]
      (fun node hmem => by cases hmem) (fun node hmem hfor => by
        rw [List.mem_singleton.mp hmem] at hfor
        exact absurd hfor ha)
  | enter n =>
    cases hs
    rw [(hooks_enter w n).1]
    exact grows_install w n
  | next => exact (hooks_next hs).1 ▸ .refl _
  | leave => exact (hooks_leave hs).1 ▸ .refl _

end Grow

def Handlers.of (h : Handlers) : Side → Bool
  | .pre => h.begin
  | .post => h.end_

/-- What holds in the request after the first call of function `n` in state `first`. -/
structure Follows (first : Worker) (n : ℕ) (w : Worker) : Prop where
  code : w.code = first.code
  installed : (w.installed n).isSome
  filed : Filed w
  hash : ∀ side, (w.handlers n).of side = true → (first.code.func n).hash ≠ 0
  selected : ∀ side, (w.handlers n).of side = true → ∀ T ∈ targets first n,
    closures side T (w.nodes n) = closures side T (first.selected n)
  nothing : ∀ side, (w.handlers n).of side = false → ∀ T, closures side T (first.selected n) = []
  present : (first.code.func n).hash ≠ 0 → (w.hooks.lookup (first.code.func n).hash).isSome ∨
    ∀ k nodes, w.hooks.lookup k = some nodes → ∀ node ∈ nodes, Plain (targets first n) node

section Follows

variable {w w' first : Worker} {n : ℕ} {side : Side} {T : Names} {func : UserFunction}

theorem closures_congr {nodes nodes' : List Node} (h : nodes.map Node.content = nodes'.map Node.content) :
    closures side T nodes = closures side T nodes' := by
  have hcontent : ∀ l : List Node, closures side T l =
      (l.map Node.content).filterMap fun c => if c.1 = T then closureOf (side.of c.2) else none := fun l =>
    by rw [List.filterMap_map]; rfl
  rw [hcontent, hcontent, h]

/-- The list under the key afterwards has the closures of the list that was found. -/
theorem closures_findCallbacks (w : Worker) (h0 : func.hash ≠ 0) :
    closures side T (((w.findCallbacks func).1.hooks.lookup func.hash).getD []) =
      closures side T ((w.findCallbacks func).2.getD []) := by
  unfold Worker.findCallbacks
  cases hown : w.hooks.lookup func.hash with
  | some nodes =>
    dsimp only
    rw [hown]
  | none =>
    cases hfind : w.findInterface func with
    | none =>
      dsimp only
      rw [hown]
    | some found =>
      obtain ⟨i, nodes⟩ := found
      obtain ⟨copies, hcontent, -, hcopies⟩ := copyCallbacks_spec w (names func) nodes
      rw [key_of_hash h0, hown] at hcopies
      dsimp only
      rw [hcopies]
      split
      · next hnil =>
        rw [hnil]
        rfl
      · exact closures_congr hcontent

theorem closures_storeDebugHooks (side : Side) (T : Names) (w : Worker) (h0 : func.hash ≠ 0) (found : Option (List Node)) :
    closures side T (((w.storeDebugHooks func found).1.hooks.lookup func.hash).getD []) =
      closures side T ((w.hooks.lookup func.hash).getD []) := by
  unfold Worker.storeDebugHooks
  split
  · have hdebug : closures side T [⟨w.nextNode, names func, names func, Worker.debugHooks w.config.scoped_deps_enabled⟩] =
        [] := closures_of_plain (List.mem_singleton_self T) fun node hmem => by
      rw [List.mem_singleton.mp hmem]
      exact plain_debug _ _ _ _
    dsimp only
    rw [Worker.storeFront, KMap.lookup_insert', if_pos (key_of_hash h0), key_of_hash h0, Option.getD_some,
      ← List.singleton_append, closures_append, hdebug, List.nil_append]
  · rfl

/-- The list that decides about the handlers. -/
theorem closures_decisive (w : Worker) (h0 : func.hash ≠ 0) :
    closures side T (((w.findCallbacks func).1.storeDebugHooks func (w.findCallbacks func).2).2.getD []) =
      closures side T ((w.findCallbacks func).2.getD []) := by
  have hstored := closures_storeDebugHooks side T (w.findCallbacks func).1 h0 (w.findCallbacks func).2
  rw [closures_findCallbacks w h0] at hstored
  unfold Worker.storeDebugHooks at hstored ⊢
  split
  · next hdebug =>
    rw [if_pos hdebug] at hstored
    exact hstored
  · rfl

theorem closures_eq_nil {nodes : List Node} (h : (nodes.any fun node => (side.of node.callbacks).isSome) = false) :
    closures side T nodes = [] := by
  refine List.filterMap_eq_nil_iff.mpr fun node hmem => ?_
  have hnone : side.of node.callbacks = none := by simpa using List.any_eq_false.mp h node hmem
  rw [hnone]
  exact ite_self none

theorem handlers_of_registerObserverHandlers (w : Worker) (h0 : func.hash ≠ 0) :
    (w.registerObserverHandlers func).2.of side =
      ((((w.findCallbacks func).1.storeDebugHooks func (w.findCallbacks func).2).1.currentAttribute func).isSome ||
        (((w.findCallbacks func).1.storeDebugHooks func (w.findCallbacks func).2).2.getD []).any fun node =>
          (side.of node.callbacks).isSome) := by
  unfold Worker.registerObserverHandlers
  rw [if_neg h0]
  cases side <;> rfl

theorem hooks_registerObserverHandlers (w : Worker) (h0 : func.hash ≠ 0) :
    (w.registerObserverHandlers func).1.hooks =
      ((w.findCallbacks func).1.storeDebugHooks func (w.findCallbacks func).2).1.hooks := by
  unfold Worker.registerObserverHandlers
  rw [if_neg h0]
  exact storeAttribute_hooks _ _

/-- Without a list under the function's key afterwards no closure is registered for it or for its interfaces. -/
theorem plain_of_lookup_none (hfiled : Filed w) (h0 : (w.code.func n).hash ≠ 0)
    (hnone : (w.findCallbacks (w.code.func n)).1.hooks.lookup (w.code.func n).hash = none) {k : UInt64} {nodes : List Node}
    (hk : w.hooks.lookup k = some nodes) {node : Node} (hmem : node ∈ nodes) : Plain (targets w n) node := by
  intro hfor side
  by_contra hclosure
  have hkeyed := hfiled.keyed k nodes hk node hmem side hclosure
  cases hown : w.hooks.lookup (w.code.func n).hash with
  | some own =>
    simp only [Worker.findCallbacks, hown] at hnone
    cases hnone
  | none =>
    cases hfind : w.findInterface (w.code.func n) with
    | some found =>
      -- the copies would be there
      obtain ⟨i, found⟩ := found
      obtain ⟨copies, -, -, hcopies⟩ := copyCallbacks_spec w (names (w.code.func n)) found
      have hne := hfiled.nonempty _ found (findInterface_eq hfind).2
      rw [key_of_hash h0, if_neg hne] at hcopies
      simp only [Worker.findCallbacks, hown, hfind] at hnone
      rw [hcopies] at hnone
      cases hnone
    | none =>
      rcases List.mem_cons.mp hfor with heq | hinterface
      · rw [heq, key_of_hash h0, hown] at hkeyed
        cases hkeyed
      · obtain ⟨i, hi, heq⟩ := List.mem_map.mp hinterface
        have hlook := List.findSome?_eq_none_iff.mp hfind i hi
        rw [Option.map_eq_none_iff, ← key_of, heq] at hlook
        rw [hlook] at hkeyed
        cases hkeyed

theorem follows_install (hfiled : Filed w) (hn : w.installed n = none) : Follows w n (w.install n) := by
  have hhandlers := handlers_install hn
  have hcode := (sameRequest_install w n).code
  by_cases h0 : (w.code.func n).hash = 0
  · have hnone : ∀ side, ((w.install n).handlers n).of side = false := fun side => by
      rw [hhandlers, Worker.registerObserverHandlers, if_pos h0]
      cases side <;> rfl
    refine ⟨hcode, ?_, hfiled.install n, fun side h => ?_, fun side h => ?_, fun side _ T => ?_, fun h => absurd h0 h⟩
    · rw [installed_of_none hn, Function.update_self]
      rfl
    · rw [hnone side] at h
      cases h
    · rw [hnone side] at h
      cases h
    · rw [Worker.selected, if_pos h0]
      rfl
  · have hselected : w.selected n = (w.findCallbacks (w.code.func n)).2.getD [] := if_neg h0
    have hhooks : (w.install n).hooks =
        ((w.findCallbacks (w.code.func n)).1.storeDebugHooks (w.code.func n) (w.findCallbacks (w.code.func n)).2).1.hooks := by
      rw [install_of_none hn]
      exact hooks_registerObserverHandlers w h0
    refine ⟨hcode, ?_, hfiled.install n, fun _ _ => h0, fun side _ T _ => ?_, fun side h T => ?_, fun _ => ?_⟩
    · rw [installed_of_none hn, Function.update_self]
      rfl
    · rw [Worker.nodes, hhooks, hcode, closures_storeDebugHooks side T _ h0, closures_findCallbacks w h0, hselected]
    · rw [hhandlers, handlers_of_registerObserverHandlers w h0, Bool.or_eq_false_iff] at h
      rw [hselected, ← closures_decisive w h0]
      exact closures_eq_nil h.2
    · rw [hhooks]
      cases hfound : (w.findCallbacks (w.code.func n)).1.hooks.lookup (w.code.func n).hash with
      | some nodes =>
        have hgrows : Grows [] _ _ := grows_storeDebugHooks (w.findCallbacks (w.code.func n)).1 (w.code.func n)
          (w.findCallbacks (w.code.func n)).2
        obtain ⟨front, back, hlook, -⟩ := hgrows.old _ nodes hfound
        rw [hlook]
        exact .inl rfl
      | none =>
        right
        intro k nodes hk node hmem
        have hgrows : Grows (targets w n) w.hooks (w.install n).hooks := grows_install w n
        rw [← hhooks] at hk
        cases hold : w.hooks.lookup k with
        | none =>
          rcases hgrows.new k nodes hold hk node hmem with hplain | ⟨k₀, nodes₀, node₀, hk₀, hmem₀, hfor, hcallbacks⟩
          · exact hplain
          · exact (plain_of_lookup_none hfiled h0 hfound hk₀ hmem₀).congr hfor hcallbacks
        | some old =>
          obtain ⟨front, back, hlook, hfront, hback⟩ := hgrows.old k old hold
          rw [hlook] at hk
          cases hk
          rcases List.mem_append.mp hmem with hmem | hmem
          · rcases List.mem_append.mp hmem with hmem | hmem
            · exact hfront node hmem
            · exact plain_of_lookup_none hfiled h0 hfound hold hmem
          · exact hback node hmem

/-- No list changes in the closures of the names. -/
theorem Follows.closures_grows (h : Follows first n w) (side : Side) (h0 : (first.code.func n).hash ≠ 0)
    (hgrows : Grows (targets first n) w.hooks w'.hooks) (hcode : w'.code = w.code) (hT : T ∈ targets first n) :
    ∃ front back, w'.nodes n = front ++ w.nodes n ++ back ∧ closures side T front = [] ∧ closures side T back = [] := by
  have hnodes : ∀ v : Worker, v.code = first.code → v.nodes n = (v.hooks.lookup (first.code.func n).hash).getD [] :=
    fun v hv => by rw [Worker.nodes, hv]
  rw [hnodes w h.code, hnodes w' (hcode.trans h.code)]
  cases hlook : w.hooks.lookup (first.code.func n).hash with
  | some nodes =>
    obtain ⟨front, back, hlook', hfront, hback⟩ := hgrows.old _ nodes hlook
    rw [hlook']
    exact ⟨front, back, rfl, closures_of_plain hT hfront, closures_of_plain hT hback⟩
  | none =>
    have hplain : ∀ k nodes, w.hooks.lookup k = some nodes → ∀ node ∈ nodes, Plain (targets first n) node := by
      rcases h.present h0 with hsome | hplain
      · rw [hlook] at hsome
        cases hsome
      · exact hplain
    refine ⟨[], (w'.hooks.lookup (first.code.func n).hash).getD [], by simp, rfl, closures_of_plain hT fun node hmem => ?_⟩
    cases hlook' : w'.hooks.lookup (first.code.func n).hash with
    | none =>
      rw [hlook'] at hmem
      cases hmem
    | some nodes =>
      rw [hlook'] at hmem
      rcases hgrows.new _ nodes hlook hlook' node hmem with hp | ⟨k₀, nodes₀, node₀, hk₀, hmem₀, hfor, hcallbacks⟩
      · exact hp
      · exact (hplain k₀ nodes₀ hk₀ node₀ hmem₀).congr hfor hcallbacks

theorem Follows.grows (h : Follows first n w) (hgrows : Grows (targets first n) w.hooks w'.hooks) (hcode : w'.code = w.code)
    (hinstalled : w'.installed n = w.installed n) (hfiled : Filed w') : Follows first n w' := by
  have hhandlers : w'.handlers n = w.handlers n := by rw [Worker.handlers, Worker.handlers, hinstalled]
  refine ⟨hcode.trans h.code, hinstalled ▸ h.installed, hfiled, fun side hs => ?_, fun side hs T hT => ?_, fun side hs T => ?_,
    fun h0 => ?_⟩
  · exact h.hash side (hhandlers ▸ hs)
  · rw [hhandlers] at hs
    obtain ⟨front, back, hnodes, hfront, hback⟩ := h.closures_grows side (h.hash side hs) hgrows hcode hT
    rw [hnodes, closures_append, closures_append, hfront, hback, List.nil_append, List.append_nil]
    exact h.selected side hs T hT
  · exact h.nothing side (hhandlers ▸ hs) T
  · rcases h.present h0 with hsome | hplain
    · obtain ⟨nodes, hlook⟩ := Option.isSome_iff_exists.mp hsome
      obtain ⟨front, back, hlook', -⟩ := hgrows.old _ nodes hlook
      exact .inl (by rw [hlook']; rfl)
    · refine .inr fun k nodes hk node hmem => ?_
      cases hold : w.hooks.lookup k with
      | none =>
        rcases hgrows.new k nodes hold hk node hmem with hp | ⟨k₀, nodes₀, node₀, hk₀, hmem₀, hfor, hcallbacks⟩
        · exact hp
        · exact (hplain k₀ nodes₀ hk₀ node₀ hmem₀).congr hfor hcallbacks
      | some old =>
        obtain ⟨front, back, hlook, hfront, hback⟩ := hgrows.old k old hold
        rw [hlook] at hk
        cases hk
        rcases List.mem_append.mp hmem with hmem | hmem
        · exact (List.mem_append.mp hmem).elim (hfront node) (hplain k old hold node)
        · exact hback node hmem

/-- What a step of the request leaves alone. -/
theorem code_step {a : Action} (ha : Settled (targets first n) a) (hs : step w a = some w') :
    w'.code = w.code ∧ ((w.installed n).isSome → w'.installed n = w.installed n) := by
  cases a with
  | requestInit config code => exact absurd ha id
  | bootstrapped =>
    rw [Observer.step] at hs
    split at hs
    · cases hs
      exact ⟨rfl, fun _ => rfl⟩
    · cases hs
  | instrumentFunction cName fName callableOnEntry callableOnExit =>
    cases hs
    exact ⟨rfl, fun _ => rfl⟩
  | enter m =>
    cases hs
    refine ⟨(code_enter w m).1.trans (sameRequest_install w m).code, fun hn => ?_⟩
    rw [(code_enter w m).2]
    cases hm : w.installed m with
    | some handlers => rw [install_of_isSome (by rw [hm]; rfl)]
    | none =>
      have hne : n ≠ m := fun e => by
        rw [e, hm] at hn
        cases hn
      rw [installed_of_none hm, Function.update_of_ne hne]
  | next => exact ⟨(hooks_next hs).2.2.1, fun _ => by rw [(hooks_next hs).2.2.2]⟩
  | leave => exact ⟨(hooks_leave hs).2.2.1, fun _ => by rw [(hooks_leave hs).2.2.2]⟩

theorem Follows.step {a : Action} (h : Follows first n w) (ha : Settled (targets first n) a) (hs : step w a = some w') :
    Follows first n w' := by
  obtain ⟨hcode, hinstalled⟩ := code_step ha hs
  exact h.grows (grows_step ha hs) hcode (hinstalled h.installed) (h.filed.step hs)

theorem follows_enter (hfiled : Filed w) (hn : w.installed n = none) : Follows w n (w.enter n) := by
  have hgrows : Grows (targets w n) (w.install n).hooks (w.enter n).hooks := (hooks_enter w n).1 ▸ .refl _
  exact (follows_install hfiled hn).grows hgrows (code_enter w n).1 (congrFun (code_enter w n).2 n)
    ((hfiled.install n).of_hooks (hooks_enter w n).1 (hooks_enter w n).2)

end Follows

/-! ## The loops of the handlers -/

section Progress

variable {side : Side} {T : Names} {nodes nodes' front back : List Node} {last : Option ℕ} {done : List ℕ}

/-- A loop has run the closures of the nodes up to `last`; nodes that were put in front since then have none. -/
def Progress (side : Side) (T : Names) (nodes : List Node) (last : Option ℕ) (done : List ℕ) : Prop :=
  match last with
  | none => done = []
  | some last => ∃ front visited node back, nodes = front ++ (visited ++ node :: back) ∧ node.number = last ∧
      closures side T front = [] ∧ done = closures side T (visited ++ [node])

theorem Progress.grows (h : Progress side T nodes last done) (heq : nodes' = front ++ nodes ++ back)
    (hfront : closures side T front = []) : Progress side T nodes' last done := by
  cases last with
  | none => exact h
  | some last =>
    obtain ⟨front', visited, node, back', rfl, hnumber, hfront', hdone⟩ := h
    refine ⟨front ++ front', visited, node, back' ++ back, ?_, hnumber, ?_, hdone⟩
    · rw [heq]
      simp only [List.append_assoc, List.cons_append]
    · rw [closures_append, hfront, hfront', List.append_nil]

/-- The node after the one that was visited last. -/
theorem nextOf_some {node : Node} (hnodup : ((front ++ node :: back).map Node.number).Nodup) :
    Worker.nextOf (front ++ node :: back) (some node.number) = back.head? := by
  have hne : ∀ other ∈ front, (decide (other.number ≠ node.number)) = true := by
    intro other hmem
    rw [List.map_append, List.nodup_append] at hnodup
    exact decide_eq_true (hnodup.2.2 _ (List.mem_map_of_mem hmem) _ (List.mem_map_of_mem List.mem_cons_self))
  rw [Worker.nextOf, List.dropWhile_append_of_pos hne, List.dropWhile_cons_of_neg (by simp), List.tail_cons]

theorem Progress.next (h : Progress side T nodes last done) (hnodup : (nodes.map Node.number).Nodup) {node : Node}
    (hnext : Worker.nextOf nodes last = some node) :
    Progress side T nodes (some node.number) (done ++ closures side T [node]) := by
  cases last with
  | none =>
    obtain ⟨back, rfl⟩ : ∃ back, nodes = node :: back := by
      cases nodes with
      | nil => cases hnext
      | cons first back => exact ⟨back, by rw [Option.some.inj hnext]⟩
    refine ⟨[], [], node, back, rfl, rfl, rfl, ?_⟩
    rw [show done = [] from h, List.nil_append, List.nil_append]
  | some last =>
    obtain ⟨front, visited, current, back, rfl, rfl, hfront, rfl⟩ := h
    rw [← List.append_assoc] at hnodup hnext
    rw [nextOf_some hnodup] at hnext
    cases back with
    | nil => cases hnext
    | cons next back =>
      obtain rfl : next = node := Option.some.inj hnext
      refine ⟨front, visited ++ [current], next, back, ?_, rfl, hfront, (closures_append).symm⟩
      simp only [List.append_assoc, List.cons_append, List.nil_append]

theorem Progress.finished (h : Progress side T nodes last done) (hnodup : (nodes.map Node.number).Nodup)
    (hnext : Worker.nextOf nodes last = none) : done = closures side T nodes := by
  cases last with
  | none =>
    rw [show done = [] from h, List.head?_eq_none_iff.mp hnext]
    rfl
  | some last =>
    obtain ⟨front, visited, current, back, rfl, rfl, hfront, rfl⟩ := h
    rw [← List.append_assoc] at hnodup hnext
    rw [nextOf_some hnodup, List.head?_eq_none_iff] at hnext
    have hsplit : closures side T (front ++ (visited ++ [current])) =
        closures side T front ++ closures side T (visited ++ [current]) := closures_append
    rw [hnext, hsplit, hfront, List.nil_append]

end Progress

/-! ## One call -/

section Call

variable {w w' first : Worker} {n : ℕ} {T : Names} {done : Side → List ℕ} {rest : List Frame}

/-- What a call in this phase has run. -/
def Stage (first w : Worker) (n : ℕ) (T : Names) (done : Side → List ℕ) : Phase → Prop
  | .beginHooks last =>
    (w.handlers n).of .pre = true ∧ Progress .pre T (w.nodes n) last (done .pre) ∧ done .post = []
  | .beginAttribute => done .pre = closures .pre T (first.selected n) ∧ done .post = []
  | .body => done .pre = closures .pre T (first.selected n) ∧ done .post = []
  | .endHooks last => done .pre = closures .pre T (first.selected n) ∧ (w.handlers n).of .post = true ∧
      Progress .post T (w.nodes n) last (done .post)
  | .endAttribute => ∀ side, done side = closures side T (first.selected n)

/-- The call is under way, with `rest` below it, or it has returned. -/
inductive Calling (first w : Worker) (n : ℕ) (T : Names) (rest : List Frame) (done : Side → List ℕ) : Prop
  | active (above : List Frame) (phase : Phase) (pre : Option WithSpanMetadata) (stack : w.stack = above ++ ⟨n, phase, pre⟩ :: rest)
      (stage : Stage first w n T done phase)
  | returned (stack : w.stack = rest) (all : ∀ side, done side = closures side T (first.selected n))

theorem Stage.grows (h : Stage first w n T done phase) (hw : Follows first n w) (hT : T ∈ targets first n)
    (hgrows : Grows (targets first n) w.hooks w'.hooks) (hcode : w'.code = w.code)
    (hinstalled : w'.installed n = w.installed n) : Stage first w' n T done phase := by
  have hhandlers : w'.handlers n = w.handlers n := by rw [Worker.handlers, Worker.handlers, hinstalled]
  have hprogress : ∀ side last, (w.handlers n).of side = true → Progress side T (w.nodes n) last (done side) →
      Progress side T (w'.nodes n) last (done side) := by
    intro side last hs hp
    obtain ⟨front, back, hnodes, hfront, -⟩ := hw.closures_grows side (hw.hash side hs) hgrows hcode hT
    exact hp.grows hnodes hfront
  cases phase with
  | beginHooks last => exact ⟨hhandlers ▸ h.1, hprogress .pre last h.1 h.2.1, h.2.2⟩
  | beginAttribute => exact h
  | body => exact h
  | endHooks last => exact ⟨h.1, hhandlers ▸ h.2.1, hprogress .post last h.2.1 h.2.2⟩
  | endAttribute => exact h

/-- A step of another call on top changes at most that call. -/
theorem stack_next {frame : Frame} {below : List Frame} (hstack : w.stack = frame :: below) (h : w.next = some w') :
    w'.stack = below ∨ ∃ frame', w'.stack = frame' :: below := by
  unfold Worker.next at h
  rw [hstack] at h
  split at h
  · next heq =>
    cases heq
    split at h <;> (cases h; exact .inr ⟨_, rfl⟩)
  · next heq =>
    cases heq
    cases h
    exact .inr ⟨_, rfl⟩
  · next heq =>
    cases heq
    split at h <;> (cases h; exact .inr ⟨_, rfl⟩)
  · next heq =>
    cases heq
    cases h
    exact .inl rfl
  · cases h

theorem stack_leave {frame : Frame} {below : List Frame} (hstack : w.stack = frame :: below) (h : w.leave = some w') :
    w'.stack = below ∨ ∃ frame', w'.stack = frame' :: below := by
  unfold Worker.leave at h
  rw [hstack] at h
  split at h
  · next heq =>
    cases heq
    split at h
    · cases h
      exact .inr ⟨_, rfl⟩
    · cases h
      exact .inl rfl
  · cases h

/-- A step of the call's own handlers. -/
theorem Calling.ownNext {phase : Phase} {pre : Option WithSpanMetadata} (hw : Follows first n w) (hT : T ∈ targets first n)
    (hstack : w.stack = ⟨n, phase, pre⟩ :: rest) (hstage : Stage first w n T done phase) (h : w.next = some w') :
    Calling first w' n T rest fun side => done side ++ ran side T rest.length w .next := by
  obtain ⟨hhooks, -, hcode, hinstalled⟩ := hooks_next h
  have hnodup : ((w.nodes n).map Node.number).Nodup := by
    rw [Worker.nodes]
    cases hlook : w.hooks.lookup (w.code.func n).hash with
    | none => exact List.nodup_nil
    | some nodes => exact hw.filed.numbers _ nodes hlook
  have hnodes : w'.nodes n = w.nodes n := by rw [Worker.nodes, Worker.nodes, hhooks, hcode]
  have hhandlers : w'.handlers n = w.handlers n := by rw [Worker.handlers, Worker.handlers, hinstalled]
  unfold Worker.next at h
  simp only [ran, hstack, if_true]
  rw [hstack] at h
  cases phase with
  | beginHooks last =>
    obtain ⟨hs, hprogress, hpost⟩ := hstage
    dsimp only at h ⊢
    cases hnext : Worker.nextOf (w.nodes n) last with
    | some node =>
      rw [hnext] at h
      refine .active [] (.beginHooks (some node.number)) pre (by cases h; rfl) ⟨by rw [hhandlers]; exact hs, ?_, ?_⟩
      · dsimp only
        rw [hnodes, hnext]
        exact hprogress.next hnodup hnext
      · dsimp only
        rw [hpost]
        rfl
    | none =>
      rw [hnext] at h
      refine .active [] .beginAttribute pre (by cases h; rfl) ⟨?_, ?_⟩
      · have hall := (hprogress.finished hnodup hnext).trans (hw.selected .pre hs T hT)
        simpa [hnext, closures] using hall
      · dsimp only
        rw [hpost]
        rfl
  | beginAttribute =>
    cases h
    exact .active [] .body _ rfl ⟨by simpa using hstage.1, by simpa using hstage.2⟩
  | body => cases h
  | endHooks last =>
    obtain ⟨hpre, hs, hprogress⟩ := hstage
    dsimp only at h ⊢
    cases hnext : Worker.nextOf (w.nodes n) last with
    | some node =>
      rw [hnext] at h
      refine .active [] (.endHooks (some node.number)) pre (by cases h; rfl) ⟨?_, by rw [hhandlers]; exact hs, ?_⟩
      · simpa using hpre
      · dsimp only
        rw [hnodes, hnext]
        exact hprogress.next hnodup hnext
    | none =>
      rw [hnext] at h
      refine .active [] .endAttribute pre (by cases h; rfl) fun side => ?_
      cases side with
      | pre => simpa using hpre
      | post =>
        have hall := (hprogress.finished hnodup hnext).trans (hw.selected .post hs T hT)
        simpa [hnext, closures] using hall
  | endAttribute =>
    cases h
    refine .returned rfl fun side => ?_
    cases side <;> simpa using hstage _

/-- The body ends. -/
theorem Calling.ownLeave {phase : Phase} {pre : Option WithSpanMetadata} (hw : Follows first n w) (hT : T ∈ targets first n)
    (hstack : w.stack = ⟨n, phase, pre⟩ :: rest) (hstage : Stage first w n T done phase) (h : w.leave = some w') :
    Calling first w' n T rest done := by
  obtain ⟨hhooks, -, hcode, hinstalled⟩ := hooks_leave h
  have hhandlers : w'.handlers n = w.handlers n := by rw [Worker.handlers, Worker.handlers, hinstalled]
  unfold Worker.leave at h
  rw [hstack] at h
  cases phase with
  | body =>
    obtain ⟨hpre, hpost⟩ := hstage
    dsimp only at h
    split at h
    · next hs =>
      have hselected := hw.selected .post hs T hT
      cases hlook : w.hooks.lookup (w.code.func n).hash with
      | some nodes =>
        refine .active [] (.endHooks none) pre ?_ ⟨hpre, by rw [hhandlers]; exact hs, hpost⟩
        rw [hlook] at h
        cases h
        rfl
      | none =>
        refine .active [] .endAttribute pre ?_ fun side => ?_
        · rw [hlook] at h
          cases h
          rfl
        · cases side with
          | pre => exact hpre
          | post =>
            rw [Worker.nodes, hlook] at hselected
            exact hpost.trans hselected
    · next hs =>
      have hnothing := hw.nothing .post (Bool.not_eq_true _ ▸ hs) T
      refine .returned (by cases h; rfl) fun side => ?_
      cases side with
      | pre => exact hpre
      | post => exact hpost.trans hnothing.symm
  | beginHooks last => cases h
  | beginAttribute => cases h
  | endHooks last => cases h
  | endAttribute => cases h

/-- A step of the request while the call is under way. -/
theorem Calling.step {a : Action} (h : Calling first w n T rest done) (hw : Follows first n w) (hT : T ∈ targets first n)
    (hactive : rest.length < w.stack.length) (ha : Settled (targets first n) a) (hs : step w a = some w') :
    Calling first w' n T rest fun side => done side ++ ran side T rest.length w a := by
  obtain ⟨above, phase, pre, hstack, hstage⟩ | ⟨hstack, -⟩ := h
  · obtain ⟨hcode, hinstalled⟩ := code_step ha hs
    have hinstalled := hinstalled hw.installed
    have hstage' := hstage.grows hw hT (grows_step ha hs) hcode hinstalled
    -- a step that is not one of the call itself
    have hother (hran : ∀ side, ran side T rest.length w a = []) (above' : List Frame)
        (hstack' : w'.stack = above' ++ ⟨n, phase, pre⟩ :: rest) :
        Calling first w' n T rest fun side => done side ++ ran side T rest.length w a := by
      simp only [hran, List.append_nil]
      exact .active above' phase pre hstack' hstage'
    cases a with
    | requestInit config code => exact absurd ha id
    | bootstrapped =>
      rw [Observer.step] at hs
      split at hs
      · next hempty =>
        rw [List.isEmpty_iff, hstack] at hempty
        exact absurd hempty (by simp)
      · cases hs
    | instrumentFunction cName fName callableOnEntry callableOnExit =>
      cases hs
      exact hother (fun _ => rfl) above hstack
    | enter m =>
      cases hs
      obtain ⟨frame, hpush⟩ := stack_enter w m
      exact hother (fun _ => rfl) (frame :: above) (by rw [hpush, hstack]; rfl)
    | next =>
      cases above with
      | nil => exact Calling.ownNext hw hT hstack hstage hs
      | cons frame above =>
        have hran : ∀ side, ran side T rest.length w .next = [] := fun side => by
          have hne : ¬ (above ++ ⟨n, phase, pre⟩ :: rest).length = rest.length := by
            simp only [List.length_append, List.length_cons]
            omega
          rw [ran, hstack]
          exact if_neg hne
        rcases stack_next hstack hs with hpop | ⟨frame', hchange⟩
        · exact hother hran above hpop
        · exact hother hran (frame' :: above) hchange
    | leave =>
      cases above with
      | nil =>
        have hleave := Calling.ownLeave hw hT hstack hstage hs
        simpa only [ran, List.append_nil] using hleave
      | cons frame above =>
        rcases stack_leave hstack hs with hpop | ⟨frame', hchange⟩
        · exact hother (fun _ => rfl) above hpop
        · exact hother (fun _ => rfl) (frame' :: above) hchange
  · rw [hstack] at hactive
    exact absurd hactive (Nat.lt_irrefl _)

/-- A call that returns has run the closures of the list that was selected. -/
theorem Calling.run {acts : List Action} (h : Calling first w n T rest done) (hw : Follows first n w)
    (hT : T ∈ targets first n)
    (hpath : Path Observer.step (fun w a => rest.length < w.stack.length ∧ Settled (targets first n) a) w acts w')
    (hreturned : w'.stack.length = rest.length) (side : Side) :
    done side ++ ranDuring side T rest.length w acts = closures side T (first.selected n) := by
  induction acts generalizing w done with
  | nil =>
    cases hpath
    rw [ranDuring, List.append_nil]
    obtain ⟨above, phase, pre, hstack, -⟩ | ⟨-, hall⟩ := h
    · rw [hstack] at hreturned
      simp only [List.length_append, List.length_cons] at hreturned
      omega
    · exact hall side
  | cons a acts ih =>
    cases hpath with
    | cons hok hs hpath =>
      have hnext := ih (h.step hw hT hok.1 hok.2 hs) (hw.step hok.2 hs) hpath
      rw [ranDuring, hs, ← List.append_assoc]
      exact hnext

/-- The call begins: in the first handler, or, if there is none, in the body. -/
theorem calling_enter (hw : Follows first n (w.enter n)) (hT : T ∈ targets first n) :
    Calling first (w.enter n) n T w.stack fun _ => [] := by
  have hsame := (sameRequest_install w n).stack
  obtain ⟨hcode, hinstalled⟩ := code_enter w n
  have hhooks := (hooks_enter w n).1
  have hhandlers : (w.enter n).handlers n = (w.install n).handlers n := by rw [Worker.handlers, Worker.handlers, hinstalled]
  cases hbegin : ((w.install n).handlers n).begin with
  | true =>
    have hs : ((w.enter n).handlers n).of .pre = true := by rw [hhandlers]; exact hbegin
    cases hlook : (w.install n).hooks.lookup ((w.install n).code.func n).hash with
    | some nodes =>
      refine .active [] (.beginHooks none) none ?_ ⟨hs, rfl, rfl⟩
      unfold Worker.enter
      dsimp only
      rw [if_pos hbegin, hlook, hsame]
      rfl
    | none =>
      refine .active [] .beginAttribute none ?_ ⟨?_, rfl⟩
      · unfold Worker.enter
        dsimp only
        rw [if_pos hbegin, hlook, hsame]
        rfl
      · have hselected := hw.selected .pre hs T hT
        rw [Worker.nodes, hhooks, hcode, hlook] at hselected
        exact hselected
  | false =>
    have hs : ((w.enter n).handlers n).of .pre = false := by rw [hhandlers]; exact hbegin
    refine .active [] .body none ?_ ⟨(hw.nothing .pre hs T).symm, rfl⟩
    unfold Worker.enter
    dsimp only
    rw [if_neg (by rw [hbegin]; exact Bool.false_ne_true), hsame]
    rfl

end Call

/-! ## The rule -/

section Rule

variable {code : Code} (c : ObservedCall code)

theorem ObservedCall.follows : Follows c.first c.n (c.start.enter c.n) := by
  have hfiled := filed_of_run c.reached
  rcases c.isFirst with hnil | ⟨acts, hcons⟩
  · have hsince := c.since
    rw [hnil] at hsince
    have hstart : c.start = c.first := Option.some.inj hsince.run_eq.symm
    rw [hstart]
    exact follows_enter hfiled c.notCalled
  · have hsince := c.since
    rw [hcons] at hsince
    cases hsince with
    | cons _ hs hpath =>
      cases hs
      have hstart : Follows c.first c.n c.start :=
        hpath.invariant (fun _ _ _ hw ha hs => hw.step ha hs) (follows_enter hfiled c.notCalled)
      exact hstart.step (a := .enter c.n) trivial rfl

/-- **What a call runs**: in each handler the closures of the list that was selected at the first call. -/
theorem ObservedCall.ranDuring_eq (side : Side) {T : Names} (hT : T ∈ targets c.first c.n) :
    ranDuring side T c.start.stack.length (c.start.enter c.n) c.during = closures side T (c.first.selected c.n) :=
  (calling_enter c.follows hT).run c.follows hT c.calling c.returned side

/-- **Hooks of a method and of its interfaces**: a call runs each of them once exactly if the list that was selected at the
first call has them all. -/
theorem runsEachOnce_iff : c.RunsEachOnce ↔ c.AllSelected :=
  forall_congr' fun side => forall₂_congr fun T hT => by rw [c.ranDuring_eq side hT]

end Rule

/-! ## Two interfaces -/

/-- `C::m`, where `C` implements `I` and `J`. -/
def twoInterfaces : Code where
  func _ := { functionName := some (lit "m"), scope := lit "C" }
  interfaces c := if c = lit "c" then [lit "I", lit "J"] else []
  inherited c i hi j hj := by
    by_cases hc : c = lit "c"
    · rw [if_pos hc] at hi
      rcases List.mem_cons.mp hi with rfl | hi
      · cases hj
      · rw [List.mem_singleton.mp hi] at hj
        cases hj
    · rw [if_neg hc] at hi
      cases hi

/-- A hook for each interface. -/
def twoHooks : List Action :=
  [.requestInit {} twoInterfaces, .instrumentFunction (lit "I") (lit "m") (some (.closure 0)) none,
    .instrumentFunction (lit "J") (lit "m") (some (.closure 1)) none]

/-- The first call of `C::m` runs the hook of `I`, and not that of `J`. -/
theorem second_interface_ignored : ∃ c : ObservedCall twoInterfaces, c.earlier = twoHooks ∧ c.n = 0 ∧
    ranDuring .pre (Names.of (lit "I") (lit "m")) c.start.stack.length (c.start.enter c.n) c.during = [0] ∧
    ranDuring .pre (Names.of (lit "J") (lit "m")) c.start.stack.length (c.start.enter c.n) c.during = [] ∧
    registered .pre (Names.of (lit "J") (lit "m")) (registrations c.earlier) = [1] ∧ ¬ c.RunsEachOnce := by
  have hregistered : registered .pre (Names.of (lit "J") (lit "m")) (registrations twoHooks) = [1] := by decide
  refine ⟨⟨0, twoHooks, _, rfl, rfl, rfl, [], _, .nil _, .inl rfl, [.next, .next, .next, .leave], _,
    .cons ⟨Nat.zero_lt_one, trivial⟩ rfl (.cons ⟨Nat.zero_lt_one, trivial⟩ rfl
      (.cons ⟨Nat.zero_lt_one, trivial⟩ rfl (.cons ⟨Nat.zero_lt_one, trivial⟩ rfl (.nil _)))), rfl⟩,
    rfl, rfl, rfl, rfl, hregistered, fun hruns => ?_⟩
  have hmem : Names.of (lit "J") (lit "m") ∈ [Names.of (lit "C") (lit "m"), Names.of (lit "I") (lit "m"),
      Names.of (lit "J") (lit "m")] := by decide
  have hperm : ([] : List ℕ).Perm [1] := hregistered ▸ hruns .pre _ hmem
  exact absurd hperm.length_eq (by decide)

end OtelDistro.Instrumentation.Observer
