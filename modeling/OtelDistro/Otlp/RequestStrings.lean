import OtelDistro.Otlp.BatchGrouping
import OtelDistro.Otlp.ItemConverters

/-!
# OtelDistro.Otlp.RequestStrings — the texts of export requests

A receiver rejects a message with a string field that is not UTF-8, and `set_string` stores any bytes.

* `requestStrings`: the string fields of a request at every depth; `bytes_value`, `trace_id` and `span_id` are byte fields.
* `NamesUtf8`: the names, and the other texts that are stored unchecked, are UTF-8; values may be any bytes.
* `exports_utf8_iff`: the batches that become requests with valid texts only.
-/

namespace OtelDistro.Otlp

open Lib Util

/-! ## String fields -/

mutual

def AnyValue.strings : AnyValue → List Str
  | .stringValue s => [s]
  | .arrayValue values => valuesStrings values
  | .kvlistValue values => entriesStrings values
  | .unset => []
  | .boolValue _ => []
  | .intValue _ => []
  | .doubleValue _ => []
  | .bytesValue _ => []

def valuesStrings : List AnyValue → List Str
  | [] => []
  | v :: rest => v.strings ++ valuesStrings rest

def entriesStrings : List KeyValue → List Str
  | [] => []
  | (k, v) :: rest => k :: (v.strings ++ entriesStrings rest)

end

def SpanEvent.strings (e : SpanEvent) : List Str := e.name :: entriesStrings e.attributes

def SpanLink.strings (l : SpanLink) : List Str := l.traceState :: entriesStrings l.attributes

def Span.strings (s : Span) : List Str :=
  s.traceState :: s.name :: s.status.message :: (entriesStrings s.attributes ++ s.events.flatMap SpanEvent.strings ++
    s.links.flatMap SpanLink.strings)

def LogRecord.strings (r : LogRecord) : List Str :=
  r.severityText :: r.eventName :: ((r.body.map AnyValue.strings).getD [] ++ entriesStrings r.attributes)

def Exemplar.strings (e : Exemplar) : List Str := entriesStrings e.filteredAttributes

def NumberDataPoint.strings (p : NumberDataPoint) : List Str :=
  entriesStrings p.attributes ++ p.exemplars.flatMap Exemplar.strings

def HistogramDataPoint.strings (p : HistogramDataPoint) : List Str :=
  entriesStrings p.attributes ++ p.exemplars.flatMap Exemplar.strings

def MetricData.strings : MetricData → List Str
  | .notSet => []
  | .gauge dataPoints => dataPoints.flatMap NumberDataPoint.strings
  | .sum dataPoints _ _ => dataPoints.flatMap NumberDataPoint.strings
  | .histogram dataPoints _ => dataPoints.flatMap HistogramDataPoint.strings

def Metric.strings (m : Metric) : List Str := m.name :: m.description :: m.unit :: m.data.strings

def ScopeFields.strings (e : ScopeFields) : List Str :=
  e.name :: e.version :: e.schemaUrl :: entriesStrings e.attributes

def ResourceFields.strings (e : ResourceFields) : List Str := e.schemaUrl :: entriesStrings e.attributes

variable {α Out : Type}

def ScopeEntry.strings (itemStrings : Out → List Str) (e : ScopeEntry Out) : List Str :=
  e.toScopeFields.strings ++ e.items.flatMap itemStrings

def ResourceEntry.strings (itemStrings : Out → List Str) (e : ResourceEntry Out) : List Str :=
  e.toResourceFields.strings ++ e.scopes.flatMap (ScopeEntry.strings itemStrings)

def requestStrings (itemStrings : Out → List Str) (request : List (ResourceEntry Out)) : List Str :=
  request.flatMap (ResourceEntry.strings itemStrings)

/-- Every text is UTF-8. -/
def AllUtf8 (strings : List Str) : Prop := ∀ s ∈ strings, WellFormedUtf8 s

@[simp] theorem allUtf8_nil : AllUtf8 [] := fun _ h => absurd h List.not_mem_nil

@[simp] theorem allUtf8_cons {s : Str} {l : List Str} : AllUtf8 (s :: l) ↔ WellFormedUtf8 s ∧ AllUtf8 l :=
  List.forall_mem_cons

@[simp] theorem allUtf8_append {l l' : List Str} : AllUtf8 (l ++ l') ↔ AllUtf8 l ∧ AllUtf8 l' :=
  List.forall_mem_append

@[simp] theorem allUtf8_flatMap {l : List α} {f : α → List Str} : AllUtf8 (l.flatMap f) ↔ ∀ a ∈ l, AllUtf8 (f a) := by
  simp only [AllUtf8, List.mem_flatMap, forall_exists_index, and_imp]
  exact ⟨fun h a ha s hs => h s a ha hs, fun h s a ha hs => h a ha s hs⟩

/-- A text that is not set is empty. -/
@[simp] theorem wellFormedUtf8_getD {s : Option Str} : WellFormedUtf8 (s.getD []) ↔ ∀ t ∈ s, WellFormedUtf8 t := by
  cases s with
  | none => simpa using wellFormedUtf8_nil
  | some s => simp

theorem valuesStrings_eq (values : List AnyValue) : valuesStrings values = values.flatMap AnyValue.strings := by
  induction values with
  | nil => rfl
  | cons v rest ih => rw [valuesStrings, ih, List.flatMap_cons]

theorem entriesStrings_eq (entries : List KeyValue) :
    entriesStrings entries = entries.flatMap fun kv => kv.1 :: kv.2.strings := by
  induction entries with
  | nil => rfl
  | cons kv rest ih => rw [entriesStrings, ih, List.flatMap_cons, List.cons_append]

/-! ## Texts that are stored unchecked -/

/-- The names in a value are UTF-8, at every depth where the conversion looks, and so is a string that has the flag
`IS_STR_VALID_UTF8`. -/
inductive Zval.NamesUtf8 : Zval → Prop
  | undef : NamesUtf8 .undef
  | null : NamesUtf8 .null
  | bool (b : Bool) : NamesUtf8 (.bool b)
  | long (n : Int64) : NamesUtf8 (.long n)
  | double (bits : UInt64) : NamesUtf8 (.double bits)
  | string {validUtf8 : Bool} {s : Str} : (validUtf8 = true → WellFormedUtf8 s) → NamesUtf8 (.string validUtf8 s)
  | list {next : Int64} {arData : List (Key × Zval)} : isSimpleArray next arData = true →
      (∀ e ∈ Zval.elements arData, NamesUtf8 e.2) → NamesUtf8 (.array next arData)
  | map {next : Int64} {arData : List (Key × Zval)} : isSimpleArray next arData = false →
      (∀ e ∈ Zval.elements arData, ∀ s, e.1 = .str s → WellFormedUtf8 s) →
      (∀ e ∈ Zval.elements arData, e.1.IsStr → NamesUtf8 e.2) → NamesUtf8 (.array next arData)

def Attributes.NamesUtf8 (a : Attributes) : Prop :=
  ∀ e ∈ Zval.elements a.arData, ∀ s, e.1 = .str s → WellFormedUtf8 s ∧ e.2.NamesUtf8

def ResourceInfo.NamesUtf8 (r : ResourceInfo) : Prop :=
  (∀ s ∈ r.schemaUrl, WellFormedUtf8 s) ∧ r.attributes.NamesUtf8

/-- The schema URL of a resource is not in requests of log records. -/
def ResourceInfo.NamesUtf8Logs (r : ResourceInfo) : Prop := r.attributes.NamesUtf8

@[mk_iff]
structure InstrumentationScope.NamesUtf8 (s : InstrumentationScope) : Prop where
  name : WellFormedUtf8 s.name
  version : ∀ t ∈ s.version, WellFormedUtf8 t
  schemaUrl : ∀ t ∈ s.schemaUrl, WellFormedUtf8 t
  attributes : s.attributes.NamesUtf8

/-- The first item of each resource has a resource with `R`, and the first one of each scope of a resource a scope with
valid texts. -/
structure FirstsUtf8 (R : ResourceInfo → Prop) (origins : List (ResourceInfo × InstrumentationScope)) : Prop where
  resources : ∀ pre o post, origins = pre ++ o :: post → (∀ p ∈ pre, p.1.value ≠ o.1.value) → R o.1
  scopes : ∀ pre o post, origins = pre ++ o :: post →
    (∀ p ∈ pre, p.1.value = o.1.value → p.2.value ≠ o.2.value) → o.2.NamesUtf8

@[mk_iff]
structure SpanData.NamesUtf8 (span : SpanData) : Prop where
  traceState : ∀ s ∈ span.context.traceState, WellFormedUtf8 s
  name : WellFormedUtf8 span.name
  description : WellFormedUtf8 span.status.description
  attributes : span.attributes.NamesUtf8
  events : ∀ e ∈ span.events, WellFormedUtf8 e.name ∧ e.attributes.NamesUtf8
  links : ∀ l ∈ span.links, (∀ s ∈ l.spanContext.traceState, WellFormedUtf8 s) ∧ l.attributes.NamesUtf8

@[mk_iff]
structure LogRecordData.NamesUtf8 (log : LogRecordData) : Prop where
  severityText : ∀ s ∈ log.severityText, WellFormedUtf8 s
  eventName : ∀ s ∈ log.eventName, WellFormedUtf8 s
  body : log.body.NamesUtf8
  attributes : log.attributes.NamesUtf8

/-- What a loop over the property sees. -/
def PhpIterable.elements : PhpIterable α → List α
  | .array items => items
  | .traversable => []

namespace Sdk

def NumberDataPoint.NamesUtf8 (p : NumberDataPoint) : Prop :=
  p.attributes.NamesUtf8 ∧ ∀ ex ∈ p.exemplars.elements, ex.attributes.NamesUtf8

def HistogramDataPoint.NamesUtf8 (p : HistogramDataPoint) : Prop :=
  p.attributes.NamesUtf8 ∧ ∀ ex ∈ p.exemplars.elements, ex.attributes.NamesUtf8

def DataContent.NamesUtf8 : DataContent → Prop
  | .gauge dataPoints => ∀ p ∈ dataPoints.elements, p.NamesUtf8
  | .sum dataPoints _ _ => ∀ p ∈ dataPoints.elements, p.NamesUtf8
  | .histogram dataPoints _ => ∀ p ∈ dataPoints.elements, p.NamesUtf8
  | .other => True

/-- Data of a class that the converter does not know is not looked at. -/
@[mk_iff]
structure Metric.NamesUtf8 (scopedNamespacesEnabled : Bool) (m : Metric) : Prop where
  name : WellFormedUtf8 m.name
  description : ∀ s ∈ m.description, WellFormedUtf8 s
  unit : ∀ s ∈ m.unit, WellFormedUtf8 s
  data : m.data.prefixed = scopedNamespacesEnabled → m.data.content.NamesUtf8

end Sdk

/-! ## Attributes -/

theorem allUtf8_convertString {validUtf8 : Bool} {s : Str} :
    AllUtf8 (convertString validUtf8 s).strings ↔ (validUtf8 = true → WellFormedUtf8 s) := by
  rw [convertString]
  by_cases hs : isUtf8 s = true
  · simp [hs, AnyValue.strings, isUtf8_sound hs]
  · cases validUtf8 with
    | true => simp [AnyValue.strings]
    | false => simp [hs, AnyValue.strings]

theorem allUtf8_convertEntries {arData : List (Key × Zval)} : AllUtf8 (entriesStrings (convertEntries arData)) ↔
    ∀ e ∈ Zval.elements arData, ∀ s, e.1 = .str s → WellFormedUtf8 s ∧ AllUtf8 (convertAnyValue e.2).strings := by
  rw [entriesStrings_eq, convertEntries_eq, allUtf8_flatMap]
  constructor
  · rintro h ⟨k, v⟩ he s rfl
    exact allUtf8_cons.mp (h (s, convertAnyValue v) (List.mem_filterMap.mpr ⟨_, he, rfl⟩))
  · intro h kv hkv
    obtain ⟨⟨k, v⟩, he, hentry⟩ := List.mem_filterMap.mp hkv
    cases k with
    | num n => cases hentry
    | str s =>
      cases hentry
      exact allUtf8_cons.mpr (h _ he s rfl)

/-- A value has valid texts exactly when its names are valid: the texts of its strings are checked. -/
theorem allUtf8_convertAnyValue (v : Zval) : AllUtf8 (convertAnyValue v).strings ↔ v.NamesUtf8 := by
  induction v using Zval.induct with
  | undef => exact iff_of_true allUtf8_nil .undef
  | null => exact iff_of_true allUtf8_nil .null
  | bool b => exact iff_of_true allUtf8_nil (.bool b)
  | long n => exact iff_of_true allUtf8_nil (.long n)
  | double bits => exact iff_of_true allUtf8_nil (.double bits)
  | string u s =>
    rw [convertAnyValue, allUtf8_convertString]
    constructor
    · exact .string
    · intro h
      cases h with
      | string hs => exact hs
  | array next arData ih =>
    have ih' : ∀ e ∈ Zval.elements arData, (AllUtf8 (convertAnyValue e.2).strings ↔ e.2.NamesUtf8) := fun e he =>
      ih e (Zval.mem_elements.mp he).1
    rw [convertAnyValue]
    cases hsimple : isSimpleArray next arData with
    | true =>
      rw [if_pos rfl, AnyValue.strings, valuesStrings_eq, convertValues_eq, allUtf8_flatMap, List.forall_mem_map]
      constructor
      · intro h
        exact .list hsimple fun e he => (ih' e he).mp (h e he)
      · intro h e he
        cases h with
        | list _ hall => exact (ih' e he).mpr (hall e he)
        | map hs _ _ => exact Bool.noConfusion (hs.symm.trans hsimple)
    | false =>
      rw [if_neg Bool.false_ne_true, AnyValue.strings, allUtf8_convertEntries]
      constructor
      · intro h
        refine .map hsimple (fun e he s hs => (h e he s hs).1) fun e he hstr => ?_
        obtain ⟨s, hs⟩ := hstr
        exact (ih' e he).mp (h e he s hs).2
      · intro h e he s hs
        cases h with
        | list hs' _ => exact Bool.noConfusion (hs'.symm.trans hsimple)
        | map _ hkeys hall => exact ⟨hkeys e he s hs, (ih' e he).mpr (hall e he ⟨s, hs⟩)⟩

theorem allUtf8_attributes {a : Attributes} : AllUtf8 (entriesStrings (convertEntries a.arData)) ↔ a.NamesUtf8 := by
  simp only [allUtf8_convertEntries, allUtf8_convertAnyValue, Attributes.NamesUtf8]

/-! ## Entries and items -/

theorem allUtf8_convertResource {r : ResourceInfo} : AllUtf8 (convertResource r).strings ↔ r.NamesUtf8 := by
  simp only [convertResource, ResourceFields.strings, allUtf8_cons, wellFormedUtf8_getD, allUtf8_attributes,
    ResourceInfo.NamesUtf8]

theorem allUtf8_convertResourceLogs {r : ResourceInfo} : AllUtf8 (convertResourceLogs r).strings ↔ r.NamesUtf8Logs := by
  simp only [convertResourceLogs, ResourceFields.strings, allUtf8_cons, wellFormedUtf8_nil, true_and,
    allUtf8_attributes, ResourceInfo.NamesUtf8Logs]

theorem allUtf8_convertScope {s : InstrumentationScope} : AllUtf8 (convertScope s).strings ↔ s.NamesUtf8 := by
  simp only [convertScope, ScopeFields.strings, allUtf8_cons, wellFormedUtf8_getD, allUtf8_attributes,
    InstrumentationScope.namesUtf8_iff]

theorem allUtf8_convertSpan {span : SpanData} : AllUtf8 (convertSpan span).strings ↔ span.NamesUtf8 := by
  simp only [convertSpan, Span.strings, allUtf8_cons, allUtf8_append, wellFormedUtf8_getD, allUtf8_attributes,
    allUtf8_flatMap, List.forall_mem_map, convertEvent, SpanEvent.strings, convertLink, SpanLink.strings,
    SpanData.namesUtf8_iff, and_assoc]

theorem allUtf8_convertLogRecord {log : LogRecordData} : AllUtf8 (convertLogRecord log).strings ↔ log.NamesUtf8 := by
  have hbody : AllUtf8 (((if log.body.isNullOrUndef then none else some (convertAnyValue log.body)).map
      AnyValue.strings).getD []) ↔ log.body.NamesUtf8 := by
    rw [← allUtf8_convertAnyValue]
    cases log.body <;> exact Iff.rfl
  simp only [convertLogRecord, LogRecord.strings, allUtf8_cons, allUtf8_append, wellFormedUtf8_getD, hbody,
    allUtf8_attributes, LogRecordData.namesUtf8_iff]

/-! ## Metrics -/

/-- Texts of a list of messages that come from the elements of a list. -/
theorem allUtf8_flatMap_of_forall₂ {β : Type} {R : α → β → Prop} {strings : β → List Str} {P : α → Prop}
    (hR : ∀ a b, R a b → (AllUtf8 (strings b) ↔ P a)) {l : List α} {l' : List β} (h : List.Forall₂ R l l') :
    AllUtf8 (l'.flatMap strings) ↔ ∀ a ∈ l, P a := by
  induction h with
  | nil => simp
  | cons hab _ ih => rw [List.flatMap_cons, allUtf8_append, hR _ _ hab, ih, List.forall_mem_cons]

theorem loop_eq_ok {items : PhpIterable α} {l : List α} (h : items.loop = .ok l) : items.elements = l := by
  cases items with
  | array items =>
    cases h
    rfl
  | traversable => cases h

/-- A loop over a property that converts its elements. -/
theorem allUtf8_loop {β : Type} {f : α → Except Str β} {strings : β → List Str} {P : α → Prop}
    (hf : ∀ a b, f a = .ok b → (AllUtf8 (strings b) ↔ P a)) {items : PhpIterable α} {l : List α} {l' : List β}
    (hl : items.loop = .ok l) (hmap : l.mapM f = .ok l') :
    AllUtf8 (l'.flatMap strings) ↔ ∀ a ∈ items.elements, P a := by
  rw [loop_eq_ok hl]
  exact allUtf8_flatMap_of_forall₂ hf (forall₂_of_mapM hmap)

theorem allUtf8_convertExemplar (ex : Sdk.Exemplar) (out : Exemplar) (h : convertExemplar ex = .ok out) :
    AllUtf8 out.strings ↔ ex.attributes.NamesUtf8 := by
  obtain ⟨spanId, -, h⟩ := bind_eq_ok.mp h
  obtain ⟨traceId, -, h⟩ := bind_eq_ok.mp h
  cases h
  exact allUtf8_attributes

theorem allUtf8_convertNumberDataPoint (point : Sdk.NumberDataPoint) (out : NumberDataPoint)
    (h : convertNumberDataPoint point = .ok out) : AllUtf8 out.strings ↔ point.NamesUtf8 := by
  obtain ⟨l, hl, h⟩ := bind_eq_ok.mp h
  obtain ⟨exemplars, hex, h⟩ := bind_eq_ok.mp h
  cases h
  have hexemplars := allUtf8_loop allUtf8_convertExemplar hl hex
  rw [NumberDataPoint.strings, allUtf8_append, allUtf8_attributes, hexemplars, Sdk.NumberDataPoint.NamesUtf8]

theorem allUtf8_convertHistogramDataPoint (point : Sdk.HistogramDataPoint) (out : HistogramDataPoint)
    (h : convertHistogramDataPoint point = .ok out) : AllUtf8 out.strings ↔ point.NamesUtf8 := by
  obtain ⟨sum, -, h⟩ := bind_eq_ok.mp h
  obtain ⟨min, -, h⟩ := bind_eq_ok.mp h
  obtain ⟨max, -, h⟩ := bind_eq_ok.mp h
  obtain ⟨bucketCounts, -, h⟩ := bind_eq_ok.mp h
  obtain ⟨explicitBounds, -, h⟩ := bind_eq_ok.mp h
  obtain ⟨l, hl, h⟩ := bind_eq_ok.mp h
  obtain ⟨exemplars, hex, h⟩ := bind_eq_ok.mp h
  cases h
  have hexemplars := allUtf8_loop allUtf8_convertExemplar hl hex
  rw [HistogramDataPoint.strings, allUtf8_append, allUtf8_attributes, hexemplars, Sdk.HistogramDataPoint.NamesUtf8]

theorem allUtf8_convertMetricData {scopedNamespacesEnabled : Bool} {data : Sdk.Data} {out : MetricData}
    (h : convertMetricData scopedNamespacesEnabled data = .ok out) :
    AllUtf8 out.strings ↔ (data.prefixed = scopedNamespacesEnabled → data.content.NamesUtf8) := by
  obtain ⟨isPrefixed, content⟩ := data
  rw [convertMetricData] at h
  by_cases hclass : isPrefixed = scopedNamespacesEnabled
  · rw [if_pos hclass] at h
    refine Iff.trans ?_ (imp_iff_right hclass).symm
    cases content with
    | gauge dataPoints =>
      obtain ⟨l, hl, h⟩ := bind_eq_ok.mp h
      obtain ⟨points, hpoints, h⟩ := bind_eq_ok.mp h
      cases h
      exact allUtf8_loop allUtf8_convertNumberDataPoint hl hpoints
    | sum dataPoints monotonic temporality =>
      obtain ⟨l, hl, h⟩ := bind_eq_ok.mp h
      obtain ⟨points, hpoints, h⟩ := bind_eq_ok.mp h
      obtain ⟨t, -, h⟩ := bind_eq_ok.mp h
      cases h
      exact allUtf8_loop allUtf8_convertNumberDataPoint hl hpoints
    | histogram dataPoints temporality =>
      obtain ⟨l, hl, h⟩ := bind_eq_ok.mp h
      obtain ⟨points, hpoints, h⟩ := bind_eq_ok.mp h
      obtain ⟨t, -, h⟩ := bind_eq_ok.mp h
      cases h
      exact allUtf8_loop allUtf8_convertHistogramDataPoint hl hpoints
    | other =>
      cases h
      exact iff_of_true allUtf8_nil trivial
  · rw [if_neg hclass] at h
    cases h
    exact iff_of_true allUtf8_nil fun h => absurd h hclass

theorem allUtf8_convertMetric {scopedNamespacesEnabled : Bool} {metric : Sdk.Metric} {out : Metric}
    (h : convertMetric scopedNamespacesEnabled metric = .ok out) :
    AllUtf8 out.strings ↔ metric.NamesUtf8 scopedNamespacesEnabled := by
  obtain ⟨data, hdata, h⟩ := bind_eq_ok.mp h
  cases h
  simp only [Metric.strings, allUtf8_cons, wellFormedUtf8_getD, allUtf8_convertMetricData hdata,
    Sdk.Metric.namesUtf8_iff]

/-! ## Requests -/

section

variable {S : Serializer} {conv : ResourceInfo → ResourceFields} {convertItem : BatchItem α → Out}
  {itemStrings : Out → List Str} {items : List (BatchItem α)}

/-- The texts of a request are those of the first items of the resources and scopes, and of all items. -/
theorem allUtf8_convertBatch : AllUtf8 (requestStrings itemStrings (convertBatch S conv convertItem items)) ↔
    (∀ a ∈ firsts (resourceKey S) items, AllUtf8 (conv a.resource).strings) ∧
      (∀ b ∈ firsts (fun a => (resourceKey S a, scopeKey S a)) items,
        AllUtf8 (convertScope b.instrumentationScope).strings) ∧
      ∀ item ∈ items, AllUtf8 (itemStrings (convertItem item)) := by
  have hentries : AllUtf8 (requestStrings itemStrings (convertBatch S conv convertItem items)) ↔
      ∀ a ∈ firsts (resourceKey S) items, AllUtf8 (conv a.resource).strings ∧
        ∀ b ∈ firsts (scopeKey S) (items.filter (resourceKey S · = resourceKey S a)),
          AllUtf8 (convertScope b.instrumentationScope).strings ∧
            ∀ item ∈ items, resourceKey S item = resourceKey S a → scopeKey S item = scopeKey S b →
              AllUtf8 (itemStrings (convertItem item)) := by
    simp only [convertBatch_eq, requestStrings, allUtf8_flatMap, List.forall_mem_map, ResourceEntry.strings,
      allUtf8_append, resourceEntry, ScopeEntry.strings, scopeEntry, List.mem_filter, decide_eq_true_eq, and_imp]
  rw [hentries]
  constructor
  · intro h
    -- the entry of a scope is under that of the first item of its resource
    have hscope : ∀ b ∈ firsts (fun a => (resourceKey S a, scopeKey S a)) items,
        AllUtf8 (convertScope b.instrumentationScope).strings ∧
          ∀ item ∈ items, resourceKey S item = resourceKey S b → scopeKey S item = scopeKey S b →
            AllUtf8 (itemStrings (convertItem item)) := by
      intro b hb
      obtain ⟨a, ha, hkey⟩ := exists_mem_firsts (resourceKey S) (mem_of_mem_firsts _ hb)
      have hab := (h a ha).2 b (mem_firsts_scopeKey.mpr ⟨hb, hkey.symm⟩)
      rwa [hkey] at hab
    refine ⟨fun a ha => (h a ha).1, fun b hb => (hscope b hb).1, fun item hitem => ?_⟩
    obtain ⟨b, hb, hkey⟩ := exists_mem_firsts (fun a => (resourceKey S a, scopeKey S a)) hitem
    obtain ⟨hr, hs⟩ := Prod.mk.inj hkey
    exact (hscope b hb).2 item hitem hr.symm hs.symm
  · rintro ⟨hr, hs, hi⟩ a ha
    refine ⟨hr a ha, fun b hb => ⟨hs b (mem_firsts_scopeKey.mp hb).1, ?_⟩⟩
    intro item hitem _ _
    exact hi item hitem

/-- The same in terms of the batch. -/
theorem allUtf8_convertBatch_iff {R : ResourceInfo → Prop} {P : BatchItem α → Prop}
    (hR : ∀ r, AllUtf8 (conv r).strings ↔ R r)
    (hP : ∀ item ∈ items, (AllUtf8 (itemStrings (convertItem item)) ↔ P item)) :
    AllUtf8 (requestStrings itemStrings (convertBatch S conv convertItem items)) ↔
      FirstsUtf8 R (items.map BatchItem.origin) ∧ ∀ item ∈ items, P item := by
  have hfirsts : FirstsUtf8 R (items.map BatchItem.origin) ↔
      (∀ a ∈ firsts (resourceKey S) items, R a.resource) ∧
        ∀ b ∈ firsts (fun a => (resourceKey S a, scopeKey S a)) items, b.instrumentationScope.NamesUtf8 := by
    rw [← forall_firsts_resource, ← forall_firsts_scope]
    exact ⟨fun h => ⟨h.resources, h.scopes⟩, fun h => ⟨h.1, h.2⟩⟩
  rw [allUtf8_convertBatch, hfirsts, and_assoc]
  simp only [hR, allUtf8_convertScope]
  exact and_congr_right fun _ => and_congr_right fun _ => forall₂_congr hP

end

instance : Inhabited Metric := ⟨⟨[], [], [], .notSet⟩⟩

/-- **Valid requests**: the texts of a request are all UTF-8 exactly when the names and other unchecked texts are, those of
every item and those of the first item of each resource and of each scope of a resource. -/
theorem exports_utf8_iff (S : Serializer) (scopedNamespacesEnabled : Bool) :
    (∀ spans request, exportSpans S scopedNamespacesEnabled spans = .ok request →
      (AllUtf8 (requestStrings Span.strings request) ↔
        FirstsUtf8 ResourceInfo.NamesUtf8 (spans.items.map BatchItem.origin) ∧
          ∀ item ∈ spans.items, item.body.NamesUtf8)) ∧
    (∀ metrics request, exportMetrics S scopedNamespacesEnabled metrics = .ok request →
      (AllUtf8 (requestStrings Metric.strings request) ↔
        FirstsUtf8 ResourceInfo.NamesUtf8 (metrics.items.map BatchItem.origin) ∧
          ∀ item ∈ metrics.items, item.body.NamesUtf8 scopedNamespacesEnabled)) ∧
    (∀ logs request, exportLogs S logs = .ok request →
      (AllUtf8 (requestStrings LogRecord.strings request) ↔
        FirstsUtf8 ResourceInfo.NamesUtf8Logs (logs.items.map BatchItem.origin) ∧
          ∀ item ∈ logs.items, item.body.NamesUtf8)) := by
  refine ⟨fun spans request h => ?_, fun metrics request h => ?_, fun logs request h => ?_⟩
  · obtain ⟨isArray, items⟩ := spans
    cases isArray with
    | false => cases h
    | true =>
      obtain ⟨u, -, h⟩ := bind_eq_ok.mp h
      cases h
      exact allUtf8_convertBatch_iff (fun r => allUtf8_convertResource) fun item _ => allUtf8_convertSpan
  · obtain ⟨isArray, items⟩ := metrics
    cases isArray with
    | false => cases h
    | true =>
      obtain ⟨hall, rfl⟩ := convertBatchM_ok h
      refine allUtf8_convertBatch_iff (fun r => allUtf8_convertResource) fun item hitem => ?_
      obtain ⟨out, hout⟩ := hall item hitem
      rw [hout]
      exact allUtf8_convertMetric hout
  · obtain ⟨isArray, items⟩ := logs
    cases isArray with
    | false => cases h
    | true =>
      cases h
      exact allUtf8_convertBatch_iff (fun r => allUtf8_convertResourceLogs) fun item _ => allUtf8_convertLogRecord

/-- It is enough that the names of all items are valid. -/
theorem firstsUtf8_of_forall {R : ResourceInfo → Prop} {items : List (BatchItem α)}
    (h : ∀ item ∈ items, R item.resource ∧ item.instrumentationScope.NamesUtf8) :
    FirstsUtf8 R (items.map BatchItem.origin) := by
  have horigin : ∀ o ∈ items.map BatchItem.origin, R o.1 ∧ o.2.NamesUtf8 := List.forall_mem_map.mpr h
  constructor
  · intro pre o post heq _
    exact (horigin o (heq ▸ List.mem_append_right _ List.mem_cons_self)).1
  · intro pre o post heq _
    exact (horigin o (heq ▸ List.mem_append_right _ List.mem_cons_self)).2

/-! ## A span with an invalid name -/

def noAttributes : Attributes := ⟨0, [], 0⟩

theorem noAttributes_namesUtf8 : noAttributes.NamesUtf8 := fun _ he => absurd he List.not_mem_nil

/-- An item with the scope `scope` and no attributes. -/
def itemOf (className : Str) (body : α) : BatchItem α :=
  ⟨className, ⟨none, noAttributes⟩, ⟨lit "scope", none, none, noAttributes⟩, body⟩

def localContext : SpanContext := ⟨List.replicate 16 1, List.replicate 8 1, 1, none, false, true⟩

def spanNamed (name : Str) : BatchItem SpanData :=
  itemOf (immutableSpan false)
    { context := localContext, parentContext := localContext, name := name, kind := 0, startEpochNanos := 1,
      endEpochNanos := 2, attributes := noAttributes, events := [], totalDroppedEvents := 0, links := [],
      totalDroppedLinks := 0, status := ⟨lit "Ok", []⟩ }

def logNamed (eventName : Str) : BatchItem LogRecordData :=
  itemOf (lit "OpenTelemetry\\SDK\\Logs\\ReadableLogRecord")
    { body := .string false [0xFF], timestamp := none, observedTimestamp := none, spanContext := none,
      severityNumber := none, severityText := none, eventName := some eventName, attributes := noAttributes }

def metricNamed (name : Str) : BatchItem Sdk.Metric :=
  itemOf (lit "OpenTelemetry\\SDK\\Metrics\\Data\\Metric")
    { name := name, description := none, unit := none,
      data := ⟨false, .gauge (.array [⟨.long 1, noAttributes, 1, 2, .array []⟩])⟩ }

theorem scope_namesUtf8 : InstrumentationScope.NamesUtf8 ⟨lit "scope", none, none, noAttributes⟩ where
  name := isUtf8_sound (by decide)
  version := fun t ht => by cases ht
  schemaUrl := fun t ht => by cases ht
  attributes := noAttributes_namesUtf8

theorem lit_get_utf8 : WellFormedUtf8 (lit "GET") := isUtf8_sound (by decide)

/-- A span, a metric and a log record with the name `GET`; the body of the record is no text. -/
theorem exports_utf8_iff_get :
    (∃ request, exportSpans bitsSerializer false ⟨true, [spanNamed (lit "GET")]⟩ = .ok request ∧
      AllUtf8 (requestStrings Span.strings request)) ∧
    (∃ request, exportMetrics bitsSerializer false ⟨true, [metricNamed (lit "GET")]⟩ = .ok request ∧
      AllUtf8 (requestStrings Metric.strings request)) ∧
    (∃ request, exportLogs bitsSerializer ⟨true, [logNamed (lit "GET")]⟩ = .ok request ∧
      AllUtf8 (requestStrings LogRecord.strings request)) := by
  obtain ⟨hspans, hmetrics, hlogs⟩ := exports_utf8_iff bitsSerializer false
  refine ⟨⟨_, rfl, (hspans ⟨true, [spanNamed (lit "GET")]⟩ _ rfl).mpr ⟨?_, ?_⟩⟩,
    ⟨_, rfl, (hmetrics ⟨true, [metricNamed (lit "GET")]⟩ _ rfl).mpr ⟨?_, ?_⟩⟩,
    ⟨_, rfl, (hlogs ⟨true, [logNamed (lit "GET")]⟩ _ rfl).mpr ⟨?_, ?_⟩⟩⟩
  · apply firstsUtf8_of_forall
    exact List.forall_mem_singleton.mpr ⟨⟨by simp [spanNamed, itemOf], noAttributes_namesUtf8⟩, scope_namesUtf8⟩
  · refine List.forall_mem_singleton.mpr ⟨?_, lit_get_utf8, wellFormedUtf8_nil, noAttributes_namesUtf8, ?_, ?_⟩
    · simp [spanNamed, itemOf, localContext]
    · exact fun e he => absurd he List.not_mem_nil
    · exact fun l hl => absurd hl List.not_mem_nil
  · apply firstsUtf8_of_forall
    exact List.forall_mem_singleton.mpr ⟨⟨by simp [metricNamed, itemOf], noAttributes_namesUtf8⟩, scope_namesUtf8⟩
  · refine List.forall_mem_singleton.mpr ⟨lit_get_utf8, ?_, ?_, fun _ => ?_⟩
    · simp [metricNamed, itemOf]
    · simp [metricNamed, itemOf]
    · exact List.forall_mem_singleton.mpr ⟨noAttributes_namesUtf8, fun ex hex => absurd hex List.not_mem_nil⟩
  · apply firstsUtf8_of_forall
    exact List.forall_mem_singleton.mpr ⟨noAttributes_namesUtf8, scope_namesUtf8⟩
  · refine List.forall_mem_singleton.mpr ⟨?_, ?_, .string fun h => ?_, noAttributes_namesUtf8⟩
    · simp [logNamed, itemOf]
    · intro s hs
      obtain rfl := Option.mem_some.mp hs
      exact lit_get_utf8
    · exact absurd h Bool.false_ne_true

/-- The name `\xFF` of one span makes the request invalid. -/
theorem invalid_name_is_exported :
    (∃ request, exportSpans bitsSerializer false ⟨true, [spanNamed (lit "GET"), spanNamed [0xFF]]⟩ = .ok request ∧
      ¬ AllUtf8 (requestStrings Span.strings request)) ∧
    ¬ ∀ S scopedNamespacesEnabled spans request, exportSpans S scopedNamespacesEnabled spans = .ok request →
      AllUtf8 (requestStrings Span.strings request) := by
  have hexport : ∃ request,
      exportSpans bitsSerializer false ⟨true, [spanNamed (lit "GET"), spanNamed [0xFF]]⟩ = .ok request ∧
        ¬ AllUtf8 (requestStrings Span.strings request) := by
    refine ⟨_, rfl, fun h => ?_⟩
    have hname := (allUtf8_convertSpan.mp ((allUtf8_convertBatch.mp h).2.2 (spanNamed [0xFF]) (by simp))).name
    exact absurd (lead_of_wellFormedUtf8 hname) (by decide)
  refine ⟨hexport, fun h => ?_⟩
  obtain ⟨request, hok, hnot⟩ := hexport
  exact hnot (h _ _ _ request hok)

end OtelDistro.Otlp
