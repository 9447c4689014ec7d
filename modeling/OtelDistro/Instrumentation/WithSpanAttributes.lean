import OtelDistro.Instrumentation.FunctionHooks

/-!
# OtelDistro.Instrumentation.WithSpanAttributes — the attributes of a user function

`#[WithSpan]` on a function and `#[SpanAttribute]` on its parameters and on the properties of its class are read into a
`WithSpanMetadata`.

* `UserFunction`: a compiled function with its attributes.
* `hasWithSpanAttribute`, `readWithSpanMetadata`: the code.
* `AttrHooksStorage`: the metadata kept under the key of a function.
-/

namespace OtelDistro.Instrumentation

open OtelDistro.Lib

/-! ## Functions -/

/-- What `zend_get_attribute_value` resolves an argument to. -/
inductive AttributeValue
  | string (s : Str)
  | long (n : Int64)
  | other
deriving DecidableEq

/-- `value` is `none` when it cannot be resolved. -/
structure AttributeArg where
  name : Option Str := none
  value : Option AttributeValue
deriving DecidableEq

/-- `offset` is 0 for the declaration itself and `i + 1` for its parameter `i`. -/
structure ZendAttribute where
  lcname : Str
  offset : ℕ := 0
  args : List AttributeArg := []
deriving DecidableEq

/-- A `zend_op_array`.  `scope` is the name of the class (empty without one), `properties` are the properties of the class. -/
structure UserFunction where
  scope : Str := []
  functionName : Option Str
  filename : Str := []
  isClosure : Bool := false
  attributes : List ZendAttribute := []
  argNames : List Str := []
  properties : List (Str × List ZendAttribute) := []

/-- `getClassAndFunctionHashFromExecuteData` -/
def UserFunction.hash (func : UserFunction) : UInt64 :=
  match func.functionName with
  | none => 0
  | some functionName => hashClassAndFunctionNameLowercase func.scope functionName

/-! ## Metadata -/

structure WithSpanMetadata where
  spanName : Option Str
  spanKind : Option Int64
  paramAttributes : List (ℕ × Str)
  propAttributes : List (Str × Str)
deriving DecidableEq

def withSpanLcName : Str := lit "opentelemetry\\api\\instrumentation\\withspan"

def spanAttrLcName : Str := lit "opentelemetry\\api\\instrumentation\\spanattribute"

/-- `zend_get_attribute_str` (offset 0) and `zend_get_parameter_attribute_str` -/
def getAttribute (attributes : List ZendAttribute) (lcname : Str) (offset : ℕ) : Option ZendAttribute :=
  attributes.find? fun a => a.offset = offset ∧ a.lcname = lcname

def findAttrArgIndex (attr : ZendAttribute) (positionalIdx : ℕ) (argName : Str) : Option ℕ :=
  (attr.args.zipIdx.find? fun p => p.1.name = none ∧ p.2 = positionalIdx ∨ p.1.name = some argName).map Prod.snd

def readAttrArg (attr : ZendAttribute) (positionalIdx : ℕ) (argName : Str) : Option AttributeValue :=
  (findAttrArgIndex attr positionalIdx argName).bind fun i => attr.args[i]?.bind (·.value)

/-- The `name` of a `#[SpanAttribute]`, or else the name of what carries it. -/
def readAttrKey (attr : ZendAttribute) (default : Str) : Str :=
  match readAttrArg attr 0 (lit "name") with
  | some (.string s) => if s.isEmpty then default else s
  | _ => default

def hasWithSpanAttribute (func : UserFunction) : Bool := (getAttribute func.attributes withSpanLcName 0).isSome

def readParamAttributes (func : UserFunction) : List (ℕ × Str) :=
  func.argNames.zipIdx.filterMap fun p =>
    (getAttribute func.attributes spanAttrLcName (p.2 + 1)).map fun attr => (p.2, readAttrKey attr p.1)

def readPropAttributes (func : UserFunction) : List (Str × Str) :=
  if func.scope.isEmpty then []
  else func.properties.filterMap fun p => (getAttribute p.2 spanAttrLcName 0).map fun attr => (p.1, readAttrKey attr p.1)

def readWithSpanMetadata (func : UserFunction) : Option WithSpanMetadata :=
  (getAttribute func.attributes withSpanLcName 0).map fun attr =>
    { spanName := match readAttrArg attr 0 (lit "span_name") with
        | some (.string s) => some s
        | _ => none
      spanKind := match readAttrArg attr 1 (lit "span_kind") with
        | some (.long n) => some n
        | _ => none
      paramAttributes := readParamAttributes func
      propAttributes := readPropAttributes func }

theorem readWithSpanMetadata_isSome (func : UserFunction) :
    (readWithSpanMetadata func).isSome = hasWithSpanAttribute func := Option.isSome_map ..

/-- A named argument is found wherever it stands; a positional one at its place only. -/
example : findAttrArgIndex ⟨withSpanLcName, 0, [⟨none, some .other⟩, ⟨some (lit "span_kind"), some (.long 2)⟩]⟩ 0
    (lit "span_name") = some 0 ∧
    findAttrArgIndex ⟨withSpanLcName, 0, [⟨some (lit "span_kind"), some (.long 2)⟩]⟩ 0 (lit "span_name") = none := by
  decide

/-- Never cleared; `store` overwrites. -/
abbrev AttrHooksStorage := KMap UInt64 WithSpanMetadata

end OtelDistro.Instrumentation
