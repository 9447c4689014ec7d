import OtelDistro.Bytes
import OtelDistro.Lib.KeyedStore

/-!
# OtelDistro.Instrumentation.FunctionHooks — function keys and the hooks stored under them

A function is known to the extension by one 64-bit number computed from the names of its class and of itself.

* `lowercaseHash`: PHP's own string hash of the lowercased bytes (64-bit `zend_ulong`).
* `hashClassAndFunctionNameLowercase`: the key of a function; it ignores case (`hash_map_toLower`).
* `HooksStorage`: `InstrumentedFunctionHooksStorage`, a list of pre/post callables for each key.
-/

namespace OtelDistro.Instrumentation

open OtelDistro.Lib

/-! ## Keys -/

/-- DJBX33A over the lowercased bytes; the top bit is always set. -/
def lowercaseHash (sv : Str) : UInt64 :=
  sv.foldl (fun hash c => hash * 33 + (toLower c).toUInt64) 5381 ||| 0x8000000000000000

/-- The key of a function; `className` is empty for a function outside a class. -/
def hashClassAndFunctionNameLowercase (className functionName : Str) : UInt64 :=
  (if className.isEmpty then 0 else lowercaseHash className) ^^^ (lowercaseHash functionName <<< 1)

theorem lowercaseHash_map_toLower (sv : Str) : lowercaseHash (sv.map toLower) = lowercaseHash sv := by
  simp only [lowercaseHash, List.foldl_map, toLower_idem]

/-- Names that differ in case only have the same key. -/
theorem hash_map_toLower (className functionName : Str) :
    hashClassAndFunctionNameLowercase (className.map toLower) (functionName.map toLower) =
      hashClassAndFunctionNameLowercase className functionName := by
  unfold hashClassAndFunctionNameLowercase
  rw [lowercaseHash_map_toLower, lowercaseHash_map_toLower, List.isEmpty_map]

/-! ## Hooks -/

/-- A pair of callables; `none` is a callable that is null or undefined. -/
abbrev Callbacks (C : Type) := Option C × Option C

/-- `InstrumentedFunctionHooksStorage`: the callbacks of a key, oldest first. -/
abbrev HooksStorage (C : Type) := KMap UInt64 (List (Callbacks C))

namespace HooksStorage

variable {C : Type}

def store (hooks : HooksStorage C) (functionKey : UInt64) (callbacks : Callbacks C) : HooksStorage C :=
  hooks.insert functionKey ((hooks.lookup functionKey).getD [] ++ [callbacks])

def find (hooks : HooksStorage C) (functionKey : UInt64) : Option (List (Callbacks C)) := hooks.lookup functionKey

theorem find_store (hooks : HooksStorage C) (k k' : UInt64) (callbacks : Callbacks C) :
    (hooks.store k callbacks).find k' =
      if k = k' then some ((hooks.find k).getD [] ++ [callbacks]) else hooks.find k' :=
  KMap.lookup_insert' hooks k k' _

end HooksStorage

end OtelDistro.Instrumentation
