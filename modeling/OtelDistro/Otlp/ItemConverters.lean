import OtelDistro.Config.OptionParsers
import OtelDistro.Otlp.BatchConverter

/-!
# OtelDistro.Otlp.ItemConverters — spans, log records and metrics in export requests

`convertSpan`, `convertLogRecord` and `convertMetric`, with what they read from the objects of the SDK and the messages they
fill.  A text that is not set is empty; `trace_id` and `span_id` are byte fields.  Of these converters only `convertMetric`
throws: its points and exemplars are `iterable`, its numbers and temporalities any value.
-/

namespace OtelDistro.Otlp

/-! ## Spans as the SDK has them -/

/-- `SpanContextInterface`; the trace state as the text of `__toString`. -/
structure SpanContext where
  traceIdBinary : Str
  spanIdBinary : Str
  traceFlags : Int64
  traceState : Option Str
  isRemote : Bool
  isValid : Bool

/-- `EventInterface` -/
structure EventData where
  name : Str
  epochNanos : Int64
  attributes : Attributes

/-- `LinkInterface` -/
structure LinkData where
  spanContext : SpanContext
  attributes : Attributes

/-- `StatusDataInterface` -/
structure StatusData where
  code : Str
  description : Str

/-- `SpanDataInterface` without resource and scope. -/
structure SpanData where
  context : SpanContext
  parentContext : SpanContext
  name : Str
  kind : Int64
  startEpochNanos : Int64
  endEpochNanos : Int64
  attributes : Attributes
  events : List EventData
  totalDroppedEvents : Int64
  links : List LinkData
  totalDroppedLinks : Int64
  status : StatusData

/-! ## Spans of a request -/

inductive SpanKind
  | unspecified
  | internal
  | server
  | client
  | producer
  | consumer
  deriving DecidableEq

inductive StatusCode
  | unset
  | ok
  | error
  deriving DecidableEq

/-- `Span.Event` -/
structure SpanEvent where
  timeUnixNano : UInt64
  name : Str
  attributes : List KeyValue
  droppedAttributesCount : UInt32

/-- `Span.Link` -/
structure SpanLink where
  traceId : Str
  spanId : Str
  traceState : Str
  attributes : List KeyValue
  droppedAttributesCount : UInt32
  flags : UInt32

structure Status where
  message : Str
  code : StatusCode

structure Span where
  traceId : Str
  spanId : Str
  traceState : Str
  parentSpanId : Str
  flags : UInt32
  name : Str
  kind : SpanKind
  startTimeUnixNano : UInt64
  endTimeUnixNano : UInt64
  attributes : List KeyValue
  droppedAttributesCount : UInt32
  events : List SpanEvent
  droppedEventsCount : UInt32
  links : List SpanLink
  droppedLinksCount : UInt32
  status : Status

/-! ## `SpanConverter` -/

def convertSpanKind (kind : Int32) : SpanKind :=
  match kind.toInt with
  | 0 => .internal
  | 1 => .client
  | 2 => .server
  | 3 => .producer
  | 4 => .consumer
  | _ => .unspecified

def convertStatusCode (status : Str) : StatusCode :=
  if Config.ciEq status "Unset" then .unset
  else if Config.ciEq status "Ok" then .ok
  else if Config.ciEq status "Error" then .error
  else .unset

/-- `addRemoteFlags`, with the masks `SPAN_FLAGS_CONTEXT_HAS_IS_REMOTE_MASK` and `SPAN_FLAGS_CONTEXT_IS_REMOTE_MASK`. -/
def addRemoteFlags (spanContext : SpanContext) (baseFlags : UInt32) : UInt32 :=
  let flags := baseFlags ||| 0x100
  if spanContext.isRemote then flags ||| 0x200 else flags

/-- `buildFlagsForSpan`: the flags of the span, remote as its parent is. -/
def buildFlagsForSpan (spanContext parentSpanContext : SpanContext) : UInt32 :=
  addRemoteFlags parentSpanContext spanContext.traceFlags.toUInt64.toUInt32

def buildFlagsForLink (linkSpanContext : SpanContext) : UInt32 :=
  addRemoteFlags linkSpanContext linkSpanContext.traceFlags.toUInt64.toUInt32

/-- The loop over the events. -/
def convertEvent (event : EventData) : SpanEvent where
  timeUnixNano := event.epochNanos.toUInt64
  name := event.name
  attributes := convertEntries event.attributes.arData
  droppedAttributesCount := droppedCount event.attributes

/-- The loop over the links. -/
def convertLink (link : LinkData) : SpanLink where
  traceId := link.spanContext.traceIdBinary
  spanId := link.spanContext.spanIdBinary
  flags := buildFlagsForLink link.spanContext
  traceState := link.spanContext.traceState.getD []
  attributes := convertEntries link.attributes.arData
  droppedAttributesCount := droppedCount link.attributes

def convertSpan (span : SpanData) : Span where
  traceId := span.context.traceIdBinary
  spanId := span.context.spanIdBinary
  flags := buildFlagsForSpan span.context span.parentContext
  traceState := span.context.traceState.getD []
  parentSpanId := if span.parentContext.isValid then span.parentContext.spanIdBinary else []
  name := span.name
  kind := convertSpanKind span.kind.toInt32
  startTimeUnixNano := span.startEpochNanos.toUInt64
  endTimeUnixNano := span.endEpochNanos.toUInt64
  droppedAttributesCount := droppedCount span.attributes
  attributes := convertEntries span.attributes.arData
  events := span.events.map convertEvent
  droppedEventsCount := span.totalDroppedEvents.toUInt64.toUInt32
  links := span.links.map convertLink
  droppedLinksCount := span.totalDroppedLinks.toUInt64.toUInt32
  status := { message := span.status.description, code := convertStatusCode span.status.code }

/-! ## Log records -/

/-- `ReadableLogRecord` without resource and scope. -/
structure LogRecordData where
  body : Zval
  timestamp : Option Int64
  observedTimestamp : Option Int64
  spanContext : Option SpanContext
  severityNumber : Option Int64
  severityText : Option Str
  eventName : Option Str
  attributes : Attributes

/-- The severity number is the number of the enumeration. -/
structure LogRecord where
  body : Option AnyValue
  timeUnixNano : UInt64
  observedTimeUnixNano : UInt64
  traceId : Str
  spanId : Str
  flags : UInt32
  severityNumber : Int32
  severityText : Str
  eventName : Str
  attributes : List KeyValue
  droppedAttributesCount : UInt32

/-- `isNull() || isUndef()` -/
def Zval.isNullOrUndef : Zval → Bool
  | .null => true
  | .undef => true
  | _ => false

/-- `LogsConverter::convertLogRecord` -/
def convertLogRecord (log : LogRecordData) : LogRecord :=
  let spanContext := log.spanContext.filter SpanContext.isValid
  { body := if log.body.isNullOrUndef then none else some (convertAnyValue log.body)
    timeUnixNano := (log.timestamp.getD 0).toUInt64
    observedTimeUnixNano := (log.observedTimestamp.getD 0).toUInt64
    traceId := (spanContext.map SpanContext.traceIdBinary).getD []
    spanId := (spanContext.map SpanContext.spanIdBinary).getD []
    flags := (spanContext.map fun c => c.traceFlags.toUInt64.toUInt32).getD 0
    severityNumber := (log.severityNumber.map Int64.toInt32).getD 0
    severityText := log.severityText.getD []
    eventName := log.eventName.getD []
    attributes := convertEntries log.attributes.arData
    droppedAttributesCount := droppedCount log.attributes }

/-! ## Metrics as the SDK has them -/

/-- The value of an `iterable` property. -/
inductive PhpIterable (α : Type)
  | array (items : List α)
  | traversable

/-- `begin()` of a loop. -/
def PhpIterable.loop {α : Type} : PhpIterable α → Except Str (List α)
  | .array items => .ok items
  | .traversable => .error (lit "Zval is not an array")

namespace Sdk

/-- `Data\Exemplar`; what is no number, or no text, is left out. -/
structure Exemplar where
  value : Zval
  timestamp : Int64
  attributes : Attributes
  traceId : Option Str
  spanId : Option Str

/-- `Data\NumberDataPoint` -/
structure NumberDataPoint where
  value : Zval
  attributes : Attributes
  startTimestamp : Int64
  timestamp : Int64
  exemplars : PhpIterable Exemplar

/-- `Data\HistogramDataPoint` -/
structure HistogramDataPoint where
  count : Int64
  sum : Zval
  min : Zval
  max : Zval
  bucketCounts : List Zval
  explicitBounds : List Zval
  attributes : Attributes
  startTimestamp : Int64
  timestamp : Int64
  exemplars : PhpIterable Exemplar

/-- An object of one of the classes `Data\Gauge`, `Data\Sum` and `Data\Histogram`, or of another one. -/
inductive DataContent
  | gauge (dataPoints : PhpIterable NumberDataPoint)
  | sum (dataPoints : PhpIterable NumberDataPoint) (monotonic : Bool) (temporality : Zval)
  | histogram (dataPoints : PhpIterable HistogramDataPoint) (temporality : Zval)
  | other

/-- The data of a metric, of a class with the prefix of the distribution or without. -/
structure Data where
  prefixed : Bool
  content : DataContent

/-- `Data\Metric` without resource and scope. -/
structure Metric where
  name : Str
  description : Option Str
  unit : Option Str
  data : Data

end Sdk

/-! ## Metrics of a request -/

inductive AggregationTemporality
  | unspecified
  | delta
  | cumulative
  deriving DecidableEq

/-- The `oneof` of `as_int` and `as_double`. -/
inductive NumberValue
  | notSet
  | asInt (n : Int64)
  | asDouble (bits : UInt64)
  deriving DecidableEq

structure Exemplar where
  filteredAttributes : List KeyValue
  timeUnixNano : UInt64
  value : NumberValue
  spanId : Str
  traceId : Str

structure NumberDataPoint where
  attributes : List KeyValue
  startTimeUnixNano : UInt64
  timeUnixNano : UInt64
  value : NumberValue
  exemplars : List Exemplar

structure HistogramDataPoint where
  attributes : List KeyValue
  startTimeUnixNano : UInt64
  timeUnixNano : UInt64
  count : UInt64
  sum : UInt64
  min : UInt64
  max : UInt64
  bucketCounts : List UInt64
  explicitBounds : List UInt64
  exemplars : List Exemplar

/-- The `oneof` of `gauge`, `sum` and `histogram`. -/
inductive MetricData
  | notSet
  | gauge (dataPoints : List NumberDataPoint)
  | sum (dataPoints : List NumberDataPoint) (isMonotonic : Bool) (aggregationTemporality : AggregationTemporality)
  | histogram (dataPoints : List HistogramDataPoint) (aggregationTemporality : AggregationTemporality)

structure Metric where
  name : Str
  description : Str
  unit : Str
  data : MetricData

/-! ## `MetricConverter` -/

/-- `getNumberAsDouble` -/
def getNumberAsDouble : Zval → Except Str UInt64
  | .double bits => .ok bits
  | .long n => .ok n.toFloat.toBits
  | _ => .error (lit "Not a number")

def getLong : Zval → Except Str Int64
  | .long n => .ok n
  | _ => .error (lit "Not a long")

/-- The value of a point or an exemplar. -/
def numberValue : Zval → NumberValue
  | .long n => .asInt n
  | .double bits => .asDouble bits
  | _ => .notSet

def hexDigit (c : UInt8) : Option UInt8 :=
  if 48 ≤ c ∧ c ≤ 57 then some (c - 48)
  else if 65 ≤ c ∧ c ≤ 70 then some (c - 55)
  else if 97 ≤ c ∧ c ≤ 102 then some (c - 87)
  else none

/-- `boost::algorithm::unhex`, with the names of its exceptions. -/
def unhex : Str → Except Str Str
  | [] => .ok []
  | [c] => if (hexDigit c).isSome then .error (lit "not_enough_input") else .error (lit "non_hex_input")
  | c :: d :: rest =>
    match hexDigit c, hexDigit d with
    | some x, some y => ((x * 16 + y) :: ·) <$> unhex rest
    | _, _ => .error (lit "non_hex_input")

def hex2bin (input : Str) : Except Str Str :=
  if input.length % 2 ≠ 0 then .error (lit "hex2bin: input string must have even length") else unhex input

def convertTemporality : Zval → Except Str AggregationTemporality
  | .long n =>
    match n.toInt with
    | 1 => .ok .delta
    | 2 => .ok .cumulative
    | _ => .ok .unspecified
  | .string _ s =>
    if Config.ciEq s "Delta" then .ok .delta
    else if Config.ciEq s "Cumulative" then .ok .cumulative
    else .ok .unspecified
  | _ => .error (lit "Invalid temporality value: expected int or string (DELTA, CUMULATIVE, UNSPECIFIED)")

/-- `hex2bin` of a text that is there. -/
def hexField (id : Option Str) : Except Str Str :=
  match id with
  | some s => hex2bin s
  | none => .ok []

def convertExemplar (ex : Sdk.Exemplar) : Except Str Exemplar := do
  let spanId ← hexField ex.spanId
  let traceId ← hexField ex.traceId
  pure
    { filteredAttributes := convertEntries ex.attributes.arData
      timeUnixNano := ex.timestamp.toUInt64
      value := numberValue ex.value
      spanId := spanId
      traceId := traceId }

def convertNumberDataPoint (point : Sdk.NumberDataPoint) : Except Str NumberDataPoint := do
  let exemplars ← (← point.exemplars.loop).mapM convertExemplar
  pure
    { attributes := convertEntries point.attributes.arData
      startTimeUnixNano := point.startTimestamp.toUInt64
      timeUnixNano := point.timestamp.toUInt64
      value := numberValue point.value
      exemplars := exemplars }

def convertHistogramDataPoint (point : Sdk.HistogramDataPoint) : Except Str HistogramDataPoint := do
  let sum ← getNumberAsDouble point.sum
  let min ← getNumberAsDouble point.min
  let max ← getNumberAsDouble point.max
  let bucketCounts ← point.bucketCounts.mapM getLong
  let explicitBounds ← point.explicitBounds.mapM getNumberAsDouble
  let exemplars ← (← point.exemplars.loop).mapM convertExemplar
  pure
    { attributes := convertEntries point.attributes.arData
      startTimeUnixNano := point.startTimestamp.toUInt64
      timeUnixNano := point.timestamp.toUInt64
      count := point.count.toUInt64
      sum := sum
      min := min
      max := max
      bucketCounts := bucketCounts.map Int64.toUInt64
      explicitBounds := explicitBounds
      exemplars := exemplars }

def convertGauge (dataPoints : PhpIterable Sdk.NumberDataPoint) : Except Str MetricData := do
  let points ← (← dataPoints.loop).mapM convertNumberDataPoint
  pure (.gauge points)

def convertSum (dataPoints : PhpIterable Sdk.NumberDataPoint) (monotonic : Bool) (temporality : Zval) :
    Except Str MetricData := do
  let points ← (← dataPoints.loop).mapM convertNumberDataPoint
  pure (.sum points monotonic (← convertTemporality temporality))

def convertHistogram (dataPoints : PhpIterable Sdk.HistogramDataPoint) (temporality : Zval) : Except Str MetricData := do
  let points ← (← dataPoints.loop).mapM convertHistogramDataPoint
  pure (.histogram points (← convertTemporality temporality))

/-- `convertMetricData`: the names of the classes have the prefix exactly in a build with prefixed namespaces. -/
def convertMetricData (scopedNamespacesEnabled : Bool) (data : Sdk.Data) : Except Str MetricData :=
  if data.prefixed = scopedNamespacesEnabled then
    match data.content with
    | .gauge dataPoints => convertGauge dataPoints
    | .sum dataPoints monotonic temporality => convertSum dataPoints monotonic temporality
    | .histogram dataPoints temporality => convertHistogram dataPoints temporality
    | .other => pure .notSet
  else pure .notSet

def convertMetric (scopedNamespacesEnabled : Bool) (metric : Sdk.Metric) : Except Str Metric := do
  let data ← convertMetricData scopedNamespacesEnabled metric.data
  pure
    { name := metric.name
      description := metric.description.getD []
      unit := metric.unit.getD []
      data := data }

/-! ## The exports -/

/-- `SpanConverter` with its conversion of spans. -/
def exportSpans (S : Serializer) (scopedNamespacesEnabled : Bool) (spans : Iterable SpanData) :
    Except Str (List (ResourceEntry Span)) :=
  SpanConverter.convert S scopedNamespacesEnabled (fun item => convertSpan item.body) spans

/-- `LogsConverter` with its conversion of log records. -/
def exportLogs (S : Serializer) (logs : Iterable LogRecordData) : Except Str (List (ResourceEntry LogRecord)) :=
  LogsConverter.convert S (fun item => convertLogRecord item.body) logs

/-- The loop with a conversion that may throw, at the end of a round. -/
def convertBatchM {α Out : Type} (S : Serializer) (convertResource : ResourceInfo → ResourceFields)
    (convertItem : BatchItem α → Except Str Out) (items : List (BatchItem α)) : Except Str (List (ResourceEntry Out)) := do
  let st ← items.foldlM (fun st item => do
    let out ← convertItem item
    pure (convertStep S convertResource (fun _ => out) st item)) {}
  pure st.request

/-- `MetricConverter` with its conversion of metrics. -/
def exportMetrics (S : Serializer) (scopedNamespacesEnabled : Bool) (metrics : Iterable Sdk.Metric) :
    Except Str (List (ResourceEntry Metric)) :=
  if metrics.isArray then
    convertBatchM S convertResource (fun item => convertMetric scopedNamespacesEnabled item.body) metrics.items
  else throw (lit "Invalid iterable passed to MetricsConverter")

/-! ## Computations that may throw -/

theorem bind_eq_ok {α β : Type} {x : Except Str α} {f : α → Except Str β} {b : β} :
    x >>= f = .ok b ↔ ∃ a, x = .ok a ∧ f a = .ok b := by
  cases x with
  | error e => exact iff_of_false (fun h => by cases h) fun ⟨a, h, _⟩ => by cases h
  | ok a =>
    constructor
    · intro h
      exact ⟨a, rfl, h⟩
    · rintro ⟨a', ha, h⟩
      cases ha
      exact h

/-- Each element of a list that is converted. -/
theorem forall₂_of_mapM {α β : Type} {f : α → Except Str β} {l : List α} {l' : List β} (h : l.mapM f = .ok l') :
    List.Forall₂ (fun a b => f a = .ok b) l l' := by
  induction l generalizing l' with
  | nil =>
    cases h
    exact .nil
  | cons a l ih =>
    rw [List.mapM_cons] at h
    obtain ⟨b, hb, h⟩ := bind_eq_ok.mp h
    obtain ⟨bs, hbs, h⟩ := bind_eq_ok.mp h
    cases h
    exact .cons hb (ih hbs)

/-- A loop that throws nowhere is the loop over what the conversion gives. -/
theorem convertBatchM_ok {α Out : Type} [Inhabited Out] {S : Serializer} {conv : ResourceInfo → ResourceFields}
    {f : BatchItem α → Except Str Out} {items : List (BatchItem α)} {request : List (ResourceEntry Out)}
    (h : convertBatchM S conv f items = .ok request) :
    (∀ item ∈ items, ∃ out, f item = .ok out) ∧
      request = convertBatch S conv (fun item => (f item).toOption.getD default) items := by
  obtain ⟨st', hfold, hreq⟩ := bind_eq_ok.mp h
  cases hreq
  suffices hstate : ∀ st, items.foldlM (fun st item => do
      let out ← f item
      pure (convertStep S conv (fun _ => out) st item)) st = .ok st' →
      (∀ item ∈ items, ∃ out, f item = .ok out) ∧
        st' = items.foldl (convertStep S conv fun item => (f item).toOption.getD default) st by
    obtain ⟨hall, hst⟩ := hstate _ hfold
    exact ⟨hall, congrArg ConvertState.request hst⟩
  clear h hfold
  induction items with
  | nil =>
    intro st hst
    cases hst
    exact ⟨fun item hitem => absurd hitem List.not_mem_nil, rfl⟩
  | cons item items ih =>
    intro st hst
    rw [List.foldlM_cons] at hst
    obtain ⟨st₁, hstep, hrest⟩ := bind_eq_ok.mp hst
    obtain ⟨out, hout, hst₁⟩ := bind_eq_ok.mp hstep
    cases hst₁
    obtain ⟨hall, heq⟩ := ih _ hrest
    refine ⟨List.forall_mem_cons.mpr ⟨⟨out, hout⟩, hall⟩, ?_⟩
    rw [heq, List.foldl_cons]
    congr 1
    rw [convertStep, convertStep, hout]
    rfl

end OtelDistro.Otlp
