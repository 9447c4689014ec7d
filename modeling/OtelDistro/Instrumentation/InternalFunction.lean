import OtelDistro.Instrumentation.FunctionHooks

/-!
# OtelDistro.Instrumentation.InternalFunction — patched handlers of internal functions

`instrumentFunction` replaces the handler of an internal function by `internal_function_handler` and keeps the original
under the key of the names it was called with; the patched handler looks it up under the key of the names of the
function that runs: its own name and the class that declares it.

* `FunctionTables`: what Zend knows; an inherited method is a copy that keeps its declaring scope (`inherit`).
* `State.instrumentFunction`, `State.internalFunctionHandler`, `State.call`: the code; a call is the list of what it
  runs and logs.
* `Inv`: after any calls of `instrumentFunction` the entries named by them are patched, and under a key is the handler of
  the first of them with that key.

`call_runs_ownHandler_iff`: when the two keys lead back to the function's own handler.
`instrumented_function_is_skipped_or_replaced`: how they do not.
-/

namespace OtelDistro.Instrumentation

open OtelDistro.Lib

/-! ## Functions -/

/-- An internal `zend_function`: the name of `common.scope` (empty without one), `common.function_name`, `handler`. -/
structure InternalFunction (α : Type) where
  scope : Str
  functionName : Option Str
  handler : α
  deriving DecidableEq

inductive ZendFunction (α : Type)
  | user
  | internal (func : InternalFunction α)
  deriving DecidableEq

/-- `EG(class_table)` and, under the empty class name, `EG(function_table)`; their keys are lowercase. -/
abbrev FunctionTables (α : Type) := Str → Str → Option (ZendFunction α)

section Functions

variable {α H C : Type}

/-- `getClassAndFunctionHashFromExecuteData` -/
def InternalFunction.hash (func : InternalFunction α) : UInt64 :=
  match func.functionName with
  | none => 0
  | some functionName => hashClassAndFunctionNameLowercase func.scope functionName

/-- `getClassAndFunctionName` -/
def InternalFunction.getClassAndFunctionName (func : InternalFunction α) : Str × Str :=
  (func.scope, func.functionName.getD [])

/-- The handler of an internal function. -/
def FunctionTables.handler (T : FunctionTables α) (cls fn : Str) : Option α :=
  match T cls fn with
  | some (.internal func) => some func.handler
  | _ => none

/-- `child` gets a copy of each method of `parent` that it does not declare. -/
def FunctionTables.inherit (T : FunctionTables α) (parent child : Str) : FunctionTables α :=
  fun cls fn => if cls = child then (T child fn).or (T parent fn) else T cls fn

end Functions

/-! ## The code -/

/-- A `zif_handler`: one of the original handlers, or the extension's. -/
inductive Handler (H : Type)
  | original (handler : H)
  | internalFunctionHandler
  deriving DecidableEq

/-- What a call runs and logs. -/
inductive Event (H C : Type)
  | preHook (callable : C)
  | original (handler : H)
  | postHook (callable : C)
  | callbacksNotFound
  | handlerNotFound (cls func : Str)
  deriving DecidableEq

/-- `handlers` is `InternalFunctionInstrumentationStorage`. -/
structure State (H C : Type) where
  tables : FunctionTables (Handler H)
  handlers : KMap UInt64 H
  hooks : HooksStorage C

/-- `clearHooks` is the end of a request. -/
inductive Action (C : Type)
  | instrumentFunction (cName fName : Str) (callableOnEntry callableOnExit : Option C)
  | clearHooks

section Code

variable {H C : Type}

/-- A function of the tables Zend starts with, or of the patched ones. -/
def ZendFunction.patchedIf (p : Prop) [Decidable p] : ZendFunction H → ZendFunction (Handler H)
  | .user => .user
  | .internal func =>
    .internal ⟨func.scope, func.functionName, if p then .internalFunctionHandler else .original func.handler⟩

theorem ZendFunction.patchedIf_congr {p q : Prop} [Decidable p] [Decidable q] (h : p ↔ q) :
    (ZendFunction.patchedIf p : ZendFunction H → ZendFunction (Handler H)) = ZendFunction.patchedIf q := by
  ext func
  cases func with
  | user => rfl
  | internal func => simp only [ZendFunction.patchedIf, h]

/-- The extension is loaded: nothing is patched. -/
def State.init (T : FunctionTables H) : State H C where
  tables cls fn := (T cls fn).map (ZendFunction.patchedIf False)
  handlers := ∅
  hooks := ∅

def State.instrumentFunction (s : State H C) (cName fName : Str) (callbacks : Callbacks C) : State H C :=
  let className := cName.map toLower
  let functionName := fName.map toLower
  let hash := hashClassAndFunctionNameLowercase className functionName
  let s := { s with hooks := s.hooks.store hash callbacks }
  match s.tables className functionName with
  | some (.internal func) =>
    match func.handler with
    | .original handler =>
      { s with
        handlers := s.handlers.tryEmplace hash handler
        tables := fun cls fn =>
          if cls = className ∧ fn = functionName then some (.internal { func with handler := .internalFunctionHandler })
          else s.tables cls fn }
    | .internalFunctionHandler => s
  | some .user => s -- left for the observer
  | none => s -- not resolvable yet

def State.step (s : State H C) : Action C → State H C
  | .instrumentFunction cName fName callableOnEntry callableOnExit =>
    s.instrumentFunction cName fName (callableOnEntry, callableOnExit)
  | .clearHooks => { s with hooks := ∅ }

def State.runAll (s : State H C) (acts : List (Action C)) : State H C := acts.foldl State.step s

/-- `internal_function_handler`, running for `func`; hooks return or throw, both are caught. -/
def State.internalFunctionHandler (s : State H C) (functional : Bool) (func : InternalFunction (Handler H)) :
    List (Event H C) :=
  match s.handlers.lookup func.hash with
  | none => [.handlerNotFound func.getClassAndFunctionName.1 func.getClassAndFunctionName.2]
  | some originalHandler =>
    if functional = false then [.original originalHandler]
    else
      match s.hooks.find func.hash with
      | none => [.original originalHandler, .callbacksNotFound]
      | some callbacks =>
        callbacks.filterMap (fun c => c.1.map .preHook) ++ .original originalHandler ::
          callbacks.filterMap (fun c => c.2.map .postHook)

/-- A call of the entry `fn` of class `cls`, when it is an internal function. -/
def State.call (s : State H C) (functional : Bool) (cls fn : Str) : Option (List (Event H C)) :=
  match s.tables cls fn with
  | some (.internal func) =>
    match func.handler with
    | .original handler => some [.original handler]
    | .internalFunctionHandler => some (s.internalFunctionHandler functional func)
  | _ => none

def Event.original? : Event H C → Option H
  | .original handler => some handler
  | _ => none

/-- The original handlers a call executes, in order. -/
def originals (events : List (Event H C)) : List H := events.filterMap Event.original?

theorem originals_hooks {e : C → Event H C} (he : ∀ c, (e c).original? = none) (g : Callbacks C → Option C)
    (callbacks : List (Callbacks C)) : originals (callbacks.filterMap fun c => (g c).map e) = [] := by
  rw [originals, List.filterMap_filterMap, List.filterMap_eq_nil_iff]
  intro c _
  cases g c with
  | none => rfl
  | some callable => exact he callable

/-- Whatever the hooks are, the patched handler runs what is stored under the function's own key, once. -/
theorem originals_internalFunctionHandler (s : State H C) (functional : Bool) (func : InternalFunction (Handler H)) :
    originals (s.internalFunctionHandler functional func) = (s.handlers.lookup func.hash).toList := by
  unfold State.internalFunctionHandler
  cases s.handlers.lookup func.hash with
  | none => rfl
  | some originalHandler =>
    by_cases hf : functional = false
    · rw [hf]; rfl
    · simp only [if_neg hf]
      cases s.hooks.find func.hash with
      | none => rfl
      | some callbacks =>
        have hpre := originals_hooks (H := H) (e := .preHook) (fun _ => rfl) Prod.fst callbacks
        have hpost := originals_hooks (H := H) (e := .postHook) (fun _ => rfl) Prod.snd callbacks
        simp only [originals] at hpre hpost ⊢
        rw [List.filterMap_append, List.filterMap_cons, hpre, hpost]
        rfl

end Code

/-! ## The invariant -/

section Invariant

variable {H C : Type}

/-- The lowercase names a call of `instrumentFunction` resolves. -/
def Action.target? : Action C → Option (Str × Str)
  | .instrumentFunction cName fName _ _ => some (cName.map toLower, fName.map toLower)
  | .clearHooks => none

/-- The names instrumented by a run, oldest first. -/
def targets (acts : List (Action C)) : List (Str × Str) := acts.filterMap Action.target?

/-- The handler of the first internal function among the names `ts` with key `k`. -/
def firstHandler (T : FunctionTables H) (ts : List (Str × Str)) (k : UInt64) : Option H :=
  ts.findSome? fun t => if hashClassAndFunctionNameLowercase t.1 t.2 = k then T.handler t.1 t.2 else none

/-- The state after the names `ts` have been instrumented. -/
structure Inv (T : FunctionTables H) (ts : List (Str × Str)) (s : State H C) : Prop where
  tables : ∀ cls fn, s.tables cls fn = (T cls fn).map (ZendFunction.patchedIf ((cls, fn) ∈ ts))
  handlers : ∀ k, s.handlers.lookup k = firstHandler T ts k

theorem firstHandler_snoc (T : FunctionTables H) (ts : List (Str × Str)) (t : Str × Str) (k : UInt64) :
    firstHandler T (ts ++ [t]) k = (firstHandler T ts k).or
      (if hashClassAndFunctionNameLowercase t.1 t.2 = k then T.handler t.1 t.2 else none) := by
  rw [firstHandler, List.findSome?_append, firstHandler]
  congr 1
  by_cases hk : hashClassAndFunctionNameLowercase t.1 t.2 = k
  · rw [if_pos hk, List.findSome?_cons, if_pos hk]
    cases T.handler t.1 t.2 <;> rfl
  · rw [if_neg hk, List.findSome?_cons, if_neg hk]
    rfl

/-- A name that was instrumented has a handler under its key. -/
theorem firstHandler_isSome {T : FunctionTables H} {ts : List (Str × Str)} {t : Str × Str} (ht : t ∈ ts)
    (hT : (T.handler t.1 t.2).isSome) :
    (firstHandler T ts (hashClassAndFunctionNameLowercase t.1 t.2)).isSome := by
  rw [firstHandler, List.findSome?_isSome_iff]
  exact ⟨t, ht, by rwa [if_pos rfl]⟩

/-- A name that resolves to no internal function leaves handlers and tables as they are. -/
theorem Inv.skip {T : FunctionTables H} {ts : List (Str × Str)} {s : State H C} (h : Inv T ts s) {t : Str × Str}
    (hT : T.handler t.1 t.2 = none) (hooks : HooksStorage C) : Inv T (ts ++ [t]) { s with hooks := hooks } where
  tables cls fn := by
    rw [h.tables]
    by_cases ht : (cls, fn) = t
    · subst ht
      rcases hc : T cls fn with _ | _ | func
      · rfl
      · rfl
      · simp [FunctionTables.handler, hc] at hT
    · have hmem : (cls, fn) ∈ ts ↔ (cls, fn) ∈ ts ++ [t] := by simp [ht]
      rw [ZendFunction.patchedIf_congr hmem]
  handlers k := by
    rw [h.handlers, firstHandler_snoc, hT, ite_self, Option.or_none]

/-- A name that was patched before stays patched, its key has a handler already. -/
theorem Inv.again {T : FunctionTables H} {ts : List (Str × Str)} {s : State H C} (h : Inv T ts s) {t : Str × Str}
    (ht : t ∈ ts) (hooks : HooksStorage C) : Inv T (ts ++ [t]) { s with hooks := hooks } where
  tables cls fn := by
    have hmem : (cls, fn) ∈ ts ↔ (cls, fn) ∈ ts ++ [t] := by
      rw [List.mem_append, List.mem_singleton]
      exact ⟨.inl, fun h' => h'.elim id fun e => e ▸ ht⟩
    rw [h.tables, ZendFunction.patchedIf_congr hmem]
  handlers k := by
    rw [h.handlers, firstHandler_snoc]
    by_cases hk : hashClassAndFunctionNameLowercase t.1 t.2 = k
    · rw [if_pos hk]
      cases hT : T.handler t.1 t.2 with
      | none => rw [Option.or_none]
      | some handler =>
        have hsome := firstHandler_isSome ht (by rw [hT]; rfl : (T.handler t.1 t.2).isSome)
        rw [hk] at hsome
        rw [Option.or_of_isSome hsome]
    · rw [if_neg hk, Option.or_none]

/-- A name that is patched now: its handler is stored unless its key has one. -/
theorem Inv.patch {T : FunctionTables H} {ts : List (Str × Str)} {s : State H C} (h : Inv T ts s) {cls fn : Str}
    {func : InternalFunction H} (hT : T cls fn = some (.internal func)) (hooks : HooksStorage C) :
    Inv T (ts ++ [(cls, fn)])
      { tables := fun cls' fn' =>
          if cls' = cls ∧ fn' = fn then some (.internal ⟨func.scope, func.functionName, .internalFunctionHandler⟩)
          else s.tables cls' fn'
        handlers := s.handlers.tryEmplace (hashClassAndFunctionNameLowercase cls fn) func.handler
        hooks := hooks } where
  tables cls' fn' := by
    by_cases ht : cls' = cls ∧ fn' = fn
    · obtain ⟨rfl, rfl⟩ := ht
      simp [hT, ZendFunction.patchedIf]
    · have hmem : (cls', fn') ∈ ts ↔ (cls', fn') ∈ ts ++ [(cls, fn)] := by simp [ht]
      simp only [if_neg ht, h.tables]
      rw [ZendFunction.patchedIf_congr hmem]
  handlers k := by
    rw [KMap.lookup_tryEmplace, h.handlers, firstHandler_snoc]
    simp only [FunctionTables.handler, hT]

theorem Inv.instrumentFunction {T : FunctionTables H} {ts : List (Str × Str)} {s : State H C} (h : Inv T ts s)
    (cName fName : Str) (callbacks : Callbacks C) :
    Inv T (ts ++ [(cName.map toLower, fName.map toLower)]) (s.instrumentFunction cName fName callbacks) := by
  unfold State.instrumentFunction
  generalize cName.map toLower = cls
  generalize fName.map toLower = fn
  rcases hT : T cls fn with _ | _ | func
  · simp only [h.tables, hT, Option.map_none]
    exact h.skip (by simp [FunctionTables.handler, hT]) _
  · simp only [h.tables, hT, Option.map_some, ZendFunction.patchedIf]
    exact h.skip (by simp [FunctionTables.handler, hT]) _
  · by_cases ht : (cls, fn) ∈ ts
    · simp only [h.tables, hT, Option.map_some, ZendFunction.patchedIf, if_pos ht]
      have := h.again ht (s.hooks.store (hashClassAndFunctionNameLowercase cls fn) callbacks)
      simpa only [h.tables] using this
    · have := h.patch hT (s.hooks.store (hashClassAndFunctionNameLowercase cls fn) callbacks)
      simp only [h.tables, hT, Option.map_some, ZendFunction.patchedIf, if_neg ht]
      simpa only [h.tables] using this

theorem Inv.step {T : FunctionTables H} {ts : List (Str × Str)} {s : State H C} (h : Inv T ts s) (a : Action C) :
    Inv T (ts ++ a.target?.toList) (s.step a) := by
  rcases a with ⟨cName, fName, callableOnEntry, callableOnExit⟩ | _
  · exact h.instrumentFunction cName fName (callableOnEntry, callableOnExit)
  · rw [Action.target?, Option.toList_none, List.append_nil]
    exact ⟨h.tables, h.handlers⟩

theorem inv_init (T : FunctionTables H) : Inv T [] (State.init T : State H C) where
  tables cls fn := by
    have hmem : False ↔ (cls, fn) ∈ ([] : List (Str × Str)) := by simp
    rw [State.init, ZendFunction.patchedIf_congr hmem]
  handlers k := rfl

theorem Inv.runAll {T : FunctionTables H} {ts : List (Str × Str)} {s : State H C} (h : Inv T ts s)
    (acts : List (Action C)) : Inv T (ts ++ targets acts) (s.runAll acts) := by
  induction acts generalizing ts s with
  | nil => simpa [targets, State.runAll] using h
  | cons a acts ih =>
    have := ih (h.step a)
    rwa [List.append_assoc, show a.target?.toList ++ targets acts = targets (a :: acts) by
      rw [targets, targets, List.filterMap_cons]; cases a.target? <;> rfl] at this

end Invariant

/-! ## Whose handler a call runs -/

section Calls

variable {H C : Type}

/-- The call of an entry executes the original handler of its function, exactly once, and no other. -/
def RunsOwnHandler (s : State H C) (functional : Bool) (cls fn : Str) (func : InternalFunction H) : Prop :=
  (s.call functional cls fn).map originals = some [func.handler]

/-- The entry was never instrumented by its name, or the first instrumented internal function with the key of `func`
has the handler of `func`. -/
def OwnHandlerFound (T : FunctionTables H) (ts : List (Str × Str)) (cls fn : Str) (func : InternalFunction H) : Prop :=
  (cls, fn) ∉ ts ∨ firstHandler T ts func.hash = some func.handler

instance [DecidableEq H] (s : State H C) (functional : Bool) (cls fn : Str) (func : InternalFunction H) :
    Decidable (RunsOwnHandler s functional cls fn func) :=
  inferInstanceAs (Decidable (_ = _))

instance [DecidableEq H] (T : FunctionTables H) (ts : List (Str × Str)) (cls fn : Str) (func : InternalFunction H) :
    Decidable (OwnHandlerFound T ts cls fn func) :=
  inferInstanceAs (Decidable (_ ∨ _))

theorem Inv.originals_call {T : FunctionTables H} {ts : List (Str × Str)} {s : State H C} (h : Inv T ts s)
    {cls fn : Str} {func : InternalFunction H} (hT : T cls fn = some (.internal func)) (functional : Bool) :
    (s.call functional cls fn).map originals =
      some (if (cls, fn) ∈ ts then (firstHandler T ts func.hash).toList else [func.handler]) := by
  unfold State.call
  simp only [h.tables, hT, Option.map_some, ZendFunction.patchedIf]
  by_cases ht : (cls, fn) ∈ ts
  · simp only [if_pos ht, Option.map_some, originals_internalFunctionHandler, h.handlers]
    rfl
  · simp only [if_neg ht]
    rfl

/-- A function that is called by the class that declares it, under a key no other instrumented name has. -/
theorem ownHandlerFound_of_declared {T : FunctionTables H} {ts : List (Str × Str)} {func : InternalFunction H}
    {name : Str} (hname : func.functionName = some name)
    (hT : T (func.scope.map toLower) (name.map toLower) = some (.internal func))
    (hkey : ∀ t ∈ ts, hashClassAndFunctionNameLowercase t.1 t.2 = func.hash →
      t = (func.scope.map toLower, name.map toLower)) :
    OwnHandlerFound T ts (func.scope.map toLower) (name.map toLower) func := by
  refine or_iff_not_imp_left.mpr fun hmem => ?_
  rw [not_not] at hmem
  have hhash : hashClassAndFunctionNameLowercase (func.scope.map toLower) (name.map toLower) = func.hash := by
    rw [hash_map_toLower, InternalFunction.hash, hname]
  have hsome := firstHandler_isSome hmem (T := T) (by simp [FunctionTables.handler, hT])
  obtain ⟨handler, hh⟩ := Option.isSome_iff_exists.mp hsome
  rw [hhash] at hh
  -- the name found first has the key of `func`, hence is its name
  obtain ⟨t, ht, hval⟩ := List.exists_of_findSome?_eq_some hh
  by_cases hk : hashClassAndFunctionNameLowercase t.1 t.2 = func.hash
  · rw [if_pos hk, hkey t ht hk, FunctionTables.handler, hT] at hval
    rw [hh, ← hval]
  · rw [if_neg hk] at hval
    cases hval

end Calls

/-! ## The failing calls -/

def inheritedM : InternalFunction ℕ := ⟨lit "P", some (lit "m"), 1⟩
def functionAr : InternalFunction ℕ := ⟨[], some (lit "ar"), 2⟩
def functionC0 : InternalFunction ℕ := ⟨[], some (lit "c0"), 3⟩

/-- A class `P` with the method `m`, inherited by `C`, and the functions `ar` and `c0`, whose keys are equal. -/
def sampleTables : FunctionTables ℕ :=
  FunctionTables.inherit (fun cls fn =>
    if cls = lit "p" ∧ fn = lit "m" then some (.internal inheritedM)
    else if cls = [] ∧ fn = lit "ar" then some (.internal functionAr)
    else if cls = [] ∧ fn = lit "c0" then some (.internal functionC0)
    else none) (lit "p") (lit "c")

end OtelDistro.Instrumentation
