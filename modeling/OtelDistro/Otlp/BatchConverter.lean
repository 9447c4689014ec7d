import OtelDistro.Lib.Grouping
import OtelDistro.Lib.KeyedStore
import OtelDistro.Otlp.Serialize

/-!
# OtelDistro.Otlp.BatchConverter — export requests of batches

`SpanConverter`, `LogsConverter` and `MetricConverter` group the items of a batch by resource and scope with two maps from
serialized keys to entries of the request.

* `convertBatch`: the loop the three have in common; `SpanConverter.convert`, `LogsConverter.convert`,
  `MetricConverter.convert`.
* `convertBatch_eq`: what the loop builds, without maps.
-/

namespace OtelDistro.Otlp

open Lib

/-! ## What the converters read -/

/-- `AttributesInterface`: the array of `toArray()`, by its counter and buckets, and `getDroppedAttributesCount()`. -/
structure Attributes where
  nNextFreeElement : Int64
  arData : List (Key × Zval)
  droppedAttributesCount : Int64

def Attributes.toArray (a : Attributes) : Zval := .array a.nNextFreeElement a.arData

structure ResourceInfo where
  schemaUrl : Option Str
  attributes : Attributes

structure InstrumentationScope where
  name : Str
  version : Option Str
  schemaUrl : Option Str
  attributes : Attributes

/-- A span, metric or log record: the name of its class, its resource and scope, and the rest. -/
structure BatchItem (α : Type) where
  className : Str
  resource : ResourceInfo
  instrumentationScope : InstrumentationScope
  body : α

/-- A batch, an array or another `iterable`. -/
structure Iterable (α : Type) where
  isArray : Bool
  items : List (BatchItem α)

/-! ## Requests -/

/-- What is set in a `ScopeSpans`, `ScopeMetrics` or `ScopeLogs` besides its items; a text that is not set is empty. -/
structure ScopeFields where
  name : Str
  version : Str
  attributes : List KeyValue
  droppedAttributesCount : UInt32
  schemaUrl : Str

structure ScopeEntry (Out : Type) extends ScopeFields where
  items : List Out

/-- What is set in a `ResourceSpans`, `ResourceMetrics` or `ResourceLogs` besides its scopes. -/
structure ResourceFields where
  attributes : List KeyValue
  droppedAttributesCount : UInt32
  schemaUrl : Str

structure ResourceEntry (Out : Type) extends ResourceFields where
  scopes : List (ScopeEntry Out)

/-! ## The code -/

/-- `zval` of a `?string`. -/
def zvalOf : Option Str → PhpValue
  | some s => .string s
  | none => .null

section

variable (S : Serializer)

/-- `ConverterHelpers::getResourceId` -/
def getResourceId (r : ResourceInfo) : Str :=
  S.serialize (.ofList [zvalOf r.schemaUrl, r.attributes.toArray.value, .long r.attributes.droppedAttributesCount])

/-- `ConverterHelpers::getScopeId` -/
def getScopeId (s : InstrumentationScope) : Str :=
  S.serialize (.ofList [.string s.name, zvalOf s.version, zvalOf s.schemaUrl, s.attributes.toArray.value,
    .long s.attributes.droppedAttributesCount])

def compositeKey (resourceId scopeId : Str) : Str := resourceId ++ lit "|" ++ scopeId

end

variable {α Out : Type}

/-- `set_dropped_attributes_count(getLong())` -/
def droppedCount (a : Attributes) : UInt32 := a.droppedAttributesCount.toUInt64.toUInt32

/-- `SpanConverter::convertResourceSpans`, `MetricConverter::convertResourceMetrics` -/
def convertResource (r : ResourceInfo) : ResourceFields :=
  ⟨convertEntries r.attributes.arData, droppedCount r.attributes, r.schemaUrl.getD []⟩

/-- `LogsConverter::convertResourceLogs`: no schema URL. -/
def convertResourceLogs (r : ResourceInfo) : ResourceFields :=
  ⟨convertEntries r.attributes.arData, droppedCount r.attributes, []⟩

/-- `convertScopeSpans`, `convertScopeMetrics`, `convertInstrumentationScope` -/
def convertScope (s : InstrumentationScope) : ScopeFields :=
  ⟨s.name, s.version.getD [], convertEntries s.attributes.arData, droppedCount s.attributes, s.schemaUrl.getD []⟩

/-- A new entry without items. -/
def ScopeFields.entry (f : ScopeFields) : ScopeEntry Out := { f with items := [] }

/-- A new entry without scopes. -/
def ResourceFields.entry (f : ResourceFields) : ResourceEntry Out := { f with scopes := [] }

/-- The request so far; the maps hold the places of the entries that the pointers point to. -/
structure ConvertState (Out : Type) where
  request : List (ResourceEntry Out) := []
  resourceMap : KMap Str ℕ := ∅
  scopeMap : KMap Str (ℕ × ℕ) := ∅

/-- The entry of a resource, a new one if there is none. -/
def ConvertState.findResource (st : ConvertState Out) (resourceId : Str) (new : ResourceFields) :
    ℕ × ConvertState Out :=
  match st.resourceMap.lookup resourceId with
  | some i => (i, st)
  | none =>
    (st.request.length,
      { st with request := st.request ++ [new.entry], resourceMap := st.resourceMap.insert resourceId st.request.length })

def ResourceEntry.addScope (e : ResourceEntry Out) (new : ScopeFields) : ResourceEntry Out :=
  { e with scopes := e.scopes ++ [new.entry] }

/-- The entry of a scope, a new one under the resource at `i` if there is none. -/
def ConvertState.findScope (st : ConvertState Out) (i : ℕ) (key : Str) (new : ScopeFields) :
    (ℕ × ℕ) × ConvertState Out :=
  match st.scopeMap.lookup key with
  | some p => (p, st)
  | none =>
    let p := (i, (st.request[i]?.map fun e => e.scopes.length).getD 0)
    (p, { st with
      request := st.request.modify i (·.addScope new), scopeMap := st.scopeMap.insert key p })

def ScopeEntry.addItem (s : ScopeEntry Out) (item : Out) : ScopeEntry Out := { s with items := s.items ++ [item] }

/-- Add an item to the scope at `p`. -/
def ConvertState.addItem (st : ConvertState Out) (p : ℕ × ℕ) (item : Out) : ConvertState Out :=
  { st with
    request := st.request.modify p.1 fun e => { e with scopes := e.scopes.modify p.2 (·.addItem item) } }

section

variable (S : Serializer) (convertResource : ResourceInfo → ResourceFields) (convertItem : BatchItem α → Out)

/-- One round of the loop. -/
def convertStep (st : ConvertState Out) (item : BatchItem α) : ConvertState Out :=
  let resourceId := getResourceId S item.resource
  let scopeId := getScopeId S item.instrumentationScope
  let (i, st) := st.findResource resourceId (convertResource item.resource)
  let (p, st) := st.findScope i (compositeKey resourceId scopeId) (convertScope item.instrumentationScope)
  st.addItem p (convertItem item)

/-- The loop. -/
def convertBatch (items : List (BatchItem α)) : List (ResourceEntry Out) :=
  (items.foldl (convertStep S convertResource convertItem) {}).request

end

/-- `AutoZval::assertObjectType` -/
def assertObjectType (type : Str) (item : BatchItem α) : Except Str Unit :=
  if type = item.className then .ok ()
  else .error (lit "Invalid object type: expected '" ++ type ++ lit "', but got '" ++ item.className ++ lit "'")

/-- The class of the spans, in a build with prefixed namespaces or without. -/
def immutableSpan (scopedNamespacesEnabled : Bool) : Str :=
  if scopedNamespacesEnabled then lit "OTelDistroScoped\\OpenTelemetry\\SDK\\Trace\\ImmutableSpan"
  else lit "OpenTelemetry\\SDK\\Trace\\ImmutableSpan"

/-- `SpanConverter::convert`: the first span of another class ends the loop. -/
def SpanConverter.convert (S : Serializer) (scopedNamespacesEnabled : Bool) (convertSpan : BatchItem α → Out)
    (spans : Iterable α) : Except Str (List (ResourceEntry Out)) :=
  if spans.isArray then do
    forM spans.items (assertObjectType (immutableSpan scopedNamespacesEnabled))
    pure (convertBatch S convertResource convertSpan spans.items)
  else throw (lit "Invalid iterable passed to SpanConverter")

/-- `LogsConverter::convert` -/
def LogsConverter.convert (S : Serializer) (convertLogRecord : BatchItem α → Out) (logs : Iterable α) :
    Except Str (List (ResourceEntry Out)) :=
  if logs.isArray then pure (convertBatch S convertResourceLogs convertLogRecord logs.items)
  else throw (lit "Invalid iterable passed to LogsConverter")

/-- `MetricConverter::convert` -/
def MetricConverter.convert (S : Serializer) (convertMetric : BatchItem α → Out) (metrics : Iterable α) :
    Except Str (List (ResourceEntry Out)) :=
  if metrics.isArray then pure (convertBatch S convertResource convertMetric metrics.items)
  else throw (lit "Invalid iterable passed to MetricsConverter")

/-! ## The loop without maps -/

section

variable (S : Serializer) (convertResource : ResourceInfo → ResourceFields) (convertItem : BatchItem α → Out)

abbrev resourceKey (item : BatchItem α) : Str := getResourceId S item.resource

abbrev scopeKey (item : BatchItem α) : Str := getScopeId S item.instrumentationScope

/-- The fields of a resource and its scopes by their ids. -/
abbrev ResourceGroup (Out : Type) := ResourceFields × List (Str × ScopeEntry Out)

def newResourceGroup (item : BatchItem α) : ResourceGroup Out := (convertResource item.resource, [])

def addToScopes (item : BatchItem α) (scopes : List (Str × ScopeEntry Out)) : List (Str × ScopeEntry Out) :=
  upsert (scopeKey S item) (convertScope item.instrumentationScope).entry (·.addItem (convertItem item)) scopes

def addToGroup (g : ResourceGroup Out) (item : BatchItem α) : ResourceGroup Out :=
  (g.1, addToScopes S convertItem item g.2)

/-- The groups of a batch. -/
def groupBatch (items : List (BatchItem α)) : List (Str × ResourceGroup Out) :=
  groupAll (resourceKey S) (newResourceGroup convertResource) (addToGroup S convertItem) items

end

/-- The entry of a group. -/
def ResourceGroup.entry (g : ResourceGroup Out) : ResourceEntry Out := { g.1 with scopes := g.2.map Prod.snd }

/-- Where the scope with the ids is. -/
def scopePlace (groups : List (Str × ResourceGroup Out)) (resourceId scopeId : Str) : Option (ℕ × ℕ) :=
  (indexOf resourceId groups).bind fun i => groups[i]?.bind fun g => (indexOf scopeId g.2.2).map fun j => (i, j)

/-- The state of the loop holds the groups. -/
structure Represents (S : Serializer) (st : ConvertState Out) (groups : List (Str × ResourceGroup Out)) : Prop where
  request : st.request = groups.map fun g => ResourceGroup.entry g.2
  resources : ∀ k, st.resourceMap.lookup k = indexOf k groups
  scopes : ∀ r s, st.scopeMap.lookup (compositeKey (getResourceId S r) (getScopeId S s)) =
    scopePlace groups (getResourceId S r) (getScopeId S s)

variable {S : Serializer} {st : ConvertState Out} {groups : List (Str × ResourceGroup Out)}

theorem compositeKey_inj {r r' : ResourceInfo} {s s' : InstrumentationScope} :
    compositeKey (getResourceId S r) (getScopeId S s) = compositeKey (getResourceId S r') (getScopeId S s') ↔
      getResourceId S r = getResourceId S r' ∧ getScopeId S s = getScopeId S s' := by
  constructor
  · intro h
    obtain ⟨hr, hs⟩ := S.selfDelimiting.separated_inj h
    exact ⟨congrArg S.serialize hr, hs⟩
  · rintro ⟨hr, hs⟩
    rw [hr, hs]

/-- After `findResource` there is a group of the resource. -/
theorem Represents.findResource (h : Represents S st groups) (r : ResourceInfo) (new : ResourceFields) :
    Represents S (st.findResource (getResourceId S r) new).2 (ensure (getResourceId S r) (new, []) groups) ∧
      indexOf (getResourceId S r) (ensure (getResourceId S r) (new, []) groups) =
        some (st.findResource (getResourceId S r) new).1 := by
  have hlen : st.request.length = groups.length := by rw [h.request, List.length_map]
  rw [ConvertState.findResource, h.resources]
  cases hi : indexOf (getResourceId S r) groups with
  | some i => exact ⟨by rw [ensure_of_some _ hi]; exact h, by rw [ensure_of_some _ hi]; exact hi⟩
  | none =>
    obtain ⟨heq, hlast⟩ := indexOf_ensure_of_none ((new, []) : ResourceGroup Out) hi
    refine ⟨⟨?_, fun k => ?_, fun r' s' => ?_⟩, by rw [hlast, hlen]⟩
    · rw [heq, List.map_append, ← h.request, List.map_singleton, ResourceGroup.entry, List.map_nil]
      rfl
    · rw [KMap.lookup_insert', h.resources, hlen, heq, indexOf_append_singleton]
      by_cases hk : getResourceId S r = k
      · subst hk
        rw [if_pos rfl, if_pos rfl, hi, Option.none_or]
      · rw [if_neg hk, if_neg hk, Option.or_none]
    · -- the new group has no scopes
      refine (h.scopes r' s').trans ?_
      rw [heq, scopePlace, scopePlace, indexOf_append_singleton]
      cases hr : indexOf (getResourceId S r') groups with
      | some i =>
        rw [Option.some_or, Option.bind_some, Option.bind_some, List.getElem?_append_left (indexOf_lt hr)]
      | none =>
        rw [Option.none_or, Option.bind_none]
        split
        · rw [Option.bind_some, List.getElem?_concat_length]
          rfl
        · rfl

theorem scopePlace_modify (groups : List (Str × ResourceGroup Out)) (i : ℕ)
    (f : List (Str × ScopeEntry Out) → List (Str × ScopeEntry Out)) (resourceId scopeId : Str) :
    scopePlace (groups.modify i fun g => (g.1, (g.2.1, f g.2.2))) resourceId scopeId =
      (indexOf resourceId groups).bind fun i' => groups[i']?.bind fun g =>
        (indexOf scopeId (if i = i' then f g.2.2 else g.2.2)).map fun j => (i', j) := by
  rw [scopePlace, indexOf_modify resourceId groups i fun g => (g.1, f g.2)]
  congr 1
  funext i'
  rw [List.getElem?_modify]
  cases groups[i']? with
  | none => rfl
  | some g => by_cases hi : i = i' <;> simp [hi]

theorem scopePlace_of_index {resourceId : Str} {i : ℕ} (hi : indexOf resourceId groups = some i)
    {g : ResourceGroup Out} (hg : groups[i]? = some (resourceId, g)) (scopeId : Str) :
    scopePlace groups resourceId scopeId = (indexOf scopeId g.2).map fun j => (i, j) := by
  rw [scopePlace, hi, Option.bind_some, hg, Option.bind_some]

/-- The entries of groups one of which changes its scopes. -/
theorem map_entry_modify (groups : List (Str × ResourceGroup Out)) (i : ℕ)
    (f : List (Str × ScopeEntry Out) → List (Str × ScopeEntry Out)) (f' : List (ScopeEntry Out) → List (ScopeEntry Out))
    (hf : ∀ k g, groups[i]? = some (k, g) → (f g.2).map Prod.snd = f' (g.2.map Prod.snd)) :
    (groups.modify i fun g => (g.1, (g.2.1, f g.2.2))).map (fun g => ResourceGroup.entry g.2) =
      (groups.map fun g => ResourceGroup.entry g.2).modify i fun e => { e with scopes := f' e.scopes } := by
  refine List.ext_getElem? fun j => ?_
  rw [List.getElem?_map, List.getElem?_modify, List.getElem?_modify, List.getElem?_map]
  by_cases hj : i = j
  · subst hj
    cases hg : groups[i]? with
    | none => rfl
    | some g => simp [ResourceGroup.entry, hf g.1 g.2 hg]
  · simp [hj]

/-- After `findScope` there is a scope, at the place that is found. -/
theorem Represents.findScope (h : Represents S st groups) {r : ResourceInfo} {i : ℕ}
    (hi : indexOf (getResourceId S r) groups = some i) (s : InstrumentationScope) (key : Str)
    (hkey : key = compositeKey (getResourceId S r) (getScopeId S s)) (new : ScopeFields) :
    Represents S (st.findScope i key new).2
        (groups.modify i fun g => (g.1, (g.2.1, ensure (getScopeId S s) new.entry g.2.2))) ∧
      ∃ g, groups[i]? = some (getResourceId S r, g) ∧
        ∃ j, (st.findScope i key new).1 = (i, j) ∧ indexOf (getScopeId S s) (ensure (getScopeId S s) new.entry g.2) = some j := by
  obtain ⟨g, hg⟩ := getElem?_indexOf hi
  have hplace := (h.scopes r s).trans (scopePlace_of_index hi hg (getScopeId S s))
  subst hkey
  rw [ConvertState.findScope, hplace]
  cases hj : indexOf (getScopeId S s) g.2 with
  | some j =>
    have hsame : (groups.modify i fun g => (g.1, (g.2.1, ensure (getScopeId S s) new.entry g.2.2))) = groups := by
      refine List.ext_getElem? fun i' => ?_
      rw [List.getElem?_modify]
      by_cases hii : i = i'
      · subst hii
        simp [hg, ensure_of_some _ hj]
      · simp [hii]
    exact ⟨by rw [hsame]; exact h, g, hg, j, rfl, by rw [ensure_of_some _ hj]; exact hj⟩
  | none =>
    obtain ⟨heq, hlast⟩ := indexOf_ensure_of_none (new.entry : ScopeEntry Out) hj
    have hlen : (st.request[i]?.map fun e => e.scopes.length).getD 0 = g.2.length := by
      rw [h.request, List.getElem?_map, hg]
      simp [ResourceGroup.entry]
    refine ⟨⟨?_, fun k => ?_, fun r' s' => ?_⟩, g, hg, g.2.length, ?_, hlast⟩
    · rw [map_entry_modify groups i _ (· ++ [new.entry]) ?_, ← h.request]
      · rfl
      · intro k g' hg'
        obtain rfl : g = g' := congrArg Prod.snd (Option.some.inj (hg.symm.trans hg'))
        rw [heq, List.map_append, List.map_singleton]
    · rw [indexOf_modify k groups i fun g => (g.1, ensure (getScopeId S s) new.entry g.2)]
      exact h.resources k
    · simp only [Option.map_none, hlen]
      rw [KMap.lookup_insert', h.scopes, scopePlace_modify, scopePlace]
      by_cases hr : getResourceId S r = getResourceId S r'
      · rw [← hr, hi, Option.bind_some, Option.bind_some, hg, Option.bind_some, Option.bind_some, if_pos rfl, heq,
          indexOf_append_singleton]
        by_cases hs : getScopeId S s = getScopeId S s'
        · rw [if_pos (by rw [hs]), ← hs, if_pos rfl, hj, Option.none_or, Option.map_some]
        · rw [if_neg fun e => hs (compositeKey_inj.mp e).2, if_neg hs, Option.or_none]
      · rw [if_neg fun e => hr (compositeKey_inj.mp e).1]
        cases hi' : indexOf (getResourceId S r') groups with
        | none => rfl
        | some i' =>
          have hne : i ≠ i' := by
            rintro rfl
            exact hr (indexOf_inj hi hi')
          simp only [Option.bind_some, if_neg hne]
    · simp only [Option.map_none, hlen]

/-- An item is added to the scope at a place. -/
theorem Represents.addItem (h : Represents S st groups) (i j : ℕ) (item : Out) :
    Represents S (st.addItem (i, j) item)
      (groups.modify i fun g => (g.1, (g.2.1, g.2.2.modify j fun e => (e.1, e.2.addItem item)))) := by
  let f (scopes : List (Str × ScopeEntry Out)) := scopes.modify j fun e => (e.1, e.2.addItem item)
  refine ⟨?_, fun k => ?_, fun r' s' => ?_⟩
  · refine .trans ?_ (map_entry_modify groups i f (·.modify j (·.addItem item)) fun k g' _ => ?_).symm
    · rw [← h.request]
      rfl
    · refine List.ext_getElem? fun j' => ?_
      rw [List.getElem?_map, List.getElem?_modify, List.getElem?_modify, List.getElem?_map]
      cases g'.2[j']? with
      | none => rfl
      | some e => by_cases hj : j = j' <;> simp [hj]
  · exact (h.resources k).trans (indexOf_modify k groups i fun g => (g.1, f g.2)).symm
  · refine (h.scopes r' s').trans (.trans ?_ (scopePlace_modify groups i f _ _).symm)
    rw [scopePlace]
    congr 1
    funext i'
    cases groups[i']? with
    | none => rfl
    | some g' =>
      rw [Option.bind_some, Option.bind_some]
      split
      · exact congrArg _ (indexOf_modify (getScopeId S s') g'.2.2 j fun e => e.addItem item).symm
      · rfl

section

variable (conv : ResourceInfo → ResourceFields) (convertItem : BatchItem α → Out)

/-- One round of the loop changes the group of the resource. -/
theorem Represents.convertStep (h : Represents S st groups) (item : BatchItem α) :
    Represents S (convertStep S conv convertItem st item)
      (upsert (resourceKey S item) (newResourceGroup conv item) (addToGroup S convertItem · item) groups) := by
  obtain ⟨h₁, hi⟩ := h.findResource item.resource (conv item.resource)
  obtain ⟨h₂, g, hg, j, hp, hj⟩ := h₁.findScope hi item.instrumentationScope _ rfl
    (convertScope item.instrumentationScope)
  have h₃ := h₂.addItem (st.findResource (resourceKey S item) (conv item.resource)).1 j (convertItem item)
  rw [← hp] at h₃
  have hi' : indexOf (resourceKey S item) (ensure (resourceKey S item) (newResourceGroup conv item) groups) =
    some (st.findResource (resourceKey S item) (conv item.resource)).1 := hi
  rw [upsert_eq_modify _ hi']
  refine cast (congrArg _ (List.ext_getElem? fun i' => ?_)) h₃
  rw [List.getElem?_modify, List.getElem?_modify, List.getElem?_modify]
  by_cases hii : (st.findResource (resourceKey S item) (conv item.resource)).1 = i'
  · -- at the group of the resource, making sure of the scope and adding to it is one `upsert`
    have hg' : (ensure (resourceKey S item) (newResourceGroup conv item) groups)[i']? = some (resourceKey S item, g) :=
      hii ▸ hg
    have hg'' : (ensure (getResourceId S item.resource) (conv item.resource, []) groups)[i']? =
      some (resourceKey S item, g) := hg'
    simp only [hii, hg', hg'', if_true, Option.map_eq_map, Option.map_some, addToGroup, addToScopes,
      upsert_eq_modify _ hj]
  · have hsame : (ensure (getResourceId S item.resource) (conv item.resource, []) groups)[i']? =
      (ensure (resourceKey S item) (newResourceGroup conv item) groups)[i']? := rfl
    simp only [hii, if_false, hsame, id_map']

theorem represents_foldl (items : List (BatchItem α)) :
    Represents S (items.foldl (Otlp.convertStep S conv convertItem) {}) (groupBatch S conv convertItem items) := by
  induction items using List.reverseRecOn with
  | nil => exact ⟨rfl, fun k => rfl, fun r s => rfl⟩
  | append_singleton items item ih =>
    rw [List.foldl_append, groupBatch, groupAll_concat]
    exact ih.convertStep conv convertItem item

theorem foldl_addToGroup (items : List (BatchItem α)) (g : ResourceGroup Out) :
    items.foldl (addToGroup S convertItem) g =
      (g.1, items.foldl (fun scopes item => addToScopes S convertItem item scopes) g.2) := by
  induction items generalizing g with
  | nil => rfl
  | cons item items ih =>
    rw [List.foldl_cons, List.foldl_cons, ih]
    rfl

theorem foldl_addItem (items : List (BatchItem α)) (e : ScopeEntry Out) :
    items.foldl (fun e item => e.addItem (convertItem item)) e = { e with items := e.items ++ items.map convertItem } := by
  induction items generalizing e with
  | nil => simp
  | cons item items ih =>
    rw [List.foldl_cons, ih]
    simp [ScopeEntry.addItem]

/-- The entry of a scope in a batch: its own fields and the items of the scope. -/
def scopeEntry (S : Serializer) (convertItem : BatchItem α → Out) (items : List (BatchItem α)) (first : BatchItem α) :
    ScopeEntry Out :=
  { convertScope first.instrumentationScope with
    items := (items.filter (scopeKey S · = scopeKey S first)).map convertItem }

/-- The entry of a resource in a batch: its own fields and the scopes of its items. -/
def resourceEntry (S : Serializer) (conv : ResourceInfo → ResourceFields) (convertItem : BatchItem α → Out)
    (items : List (BatchItem α)) (first : BatchItem α) : ResourceEntry Out :=
  let ofResource := items.filter (resourceKey S · = resourceKey S first)
  { conv first.resource with scopes := (firsts (scopeKey S) ofResource).map (scopeEntry S convertItem ofResource) }

/-- **What the loop builds**: an entry for each resource and scope in the order of their first items, with the items in
batch order. -/
theorem convertBatch_eq (items : List (BatchItem α)) : convertBatch S conv convertItem items =
    (firsts (resourceKey S) items).map (resourceEntry S conv convertItem items) := by
  rw [convertBatch, (represents_foldl conv convertItem items).request, groupBatch, groupAll_eq, List.map_map]
  refine List.map_congr_left fun a _ => ?_
  rw [Function.comp_apply, foldl_addToGroup, ResourceGroup.entry, resourceEntry, newResourceGroup]
  congr 1
  have hscopes (l : List (BatchItem α)) :
      l.foldl (fun scopes item => addToScopes S convertItem item scopes) [] =
        groupAll (scopeKey S) (fun item => (convertScope item.instrumentationScope).entry)
          (fun e item => e.addItem (convertItem item)) l := rfl
  rw [hscopes, groupAll_eq, List.map_map]
  refine List.map_congr_left fun b _ => ?_
  rw [Function.comp_apply, foldl_addItem]
  rfl

end

end OtelDistro.Otlp
