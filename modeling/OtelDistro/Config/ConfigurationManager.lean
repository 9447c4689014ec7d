import OtelDistro.Config.OptionParsers
import OtelDistro.Lib.KeyedStore
import OtelDistro.Lib.Runs

/-!
# OtelDistro.Config.ConfigurationManager — from the texts of all options to a snapshot

`update` reads the text of every option (dynamic value, ini entry, environment), parses it by the type of the option and
installs a new snapshot.  A parser's `std::invalid_argument` is caught for the option; nothing else is.

* `options_`: the table of options, with the defaults of `ConfigurationSnapshot`.
* `fetchStringValue`, `updateOptions`, `ConfigurationManager.update`: the code.
* `Updated`: every option has the parsed value of its text, or its default.
* `update_iff`: when `update` does that; `notWrapped_afterUpdates`: how long the counter of revisions lasts.
-/

namespace OtelDistro.Config

open Lib

/-! ## Options -/

inductive OptionType
  | boolean
  | string
  | duration
  | loglevel
  | bytes
deriving DecidableEq

/-- A value of an option; a duration is in milliseconds. -/
inductive OptionValue
  | boolean (b : Bool)
  | string (s : Str)
  | duration (ms : Int64)
  | loglevel (level : LogLevel)
  | bytes (n : UInt64)
deriving DecidableEq

def OptionValue.type : OptionValue → OptionType
  | .boolean _ => .boolean
  | .string _ => .string
  | .duration _ => .duration
  | .loglevel _ => .loglevel
  | .bytes _ => .bytes

/-- `default` is what `ConfigurationSnapshot` holds for the option; it has the type of the option. -/
structure OptionMetadata where
  name : String
  otelNativeOption : Bool
  default : OptionValue

def OptionMetadata.type (o : OptionMetadata) : OptionType := o.default.type

/-- `BUILD_OTEL_PHP_OPTION_METADATA` -/
def distroOption (name : String) (default : OptionValue) : OptionMetadata := ⟨name, false, default⟩

/-- `BUILD_OPTION_METADATA` -/
def nativeOption (name : String) (default : OptionValue) : OptionMetadata := ⟨name, true, default⟩

/-- The table, in the order of the map. -/
def options_ : List OptionMetadata :=
  [nativeOption "OTEL_EXPORTER_OTLP_CERTIFICATE" (.string []),
    nativeOption "OTEL_EXPORTER_OTLP_CLIENT_CERTIFICATE" (.string []),
    nativeOption "OTEL_EXPORTER_OTLP_CLIENT_KEY" (.string []),
    nativeOption "OTEL_EXPORTER_OTLP_CLIENT_KEYPASS" (.string []),
    nativeOption "OTEL_EXPORTER_OTLP_ENDPOINT" (.string []),
    nativeOption "OTEL_EXPORTER_OTLP_INSECURE" (.boolean false),
    nativeOption "OTEL_EXPORTER_OTLP_LOGS_CERTIFICATE" (.string []),
    nativeOption "OTEL_EXPORTER_OTLP_LOGS_CLIENT_CERTIFICATE" (.string []),
    nativeOption "OTEL_EXPORTER_OTLP_LOGS_CLIENT_KEY" (.string []),
    nativeOption "OTEL_EXPORTER_OTLP_LOGS_CLIENT_KEYPASS" (.string []),
    nativeOption "OTEL_EXPORTER_OTLP_LOGS_ENDPOINT" (.string []),
    nativeOption "OTEL_EXPORTER_OTLP_LOGS_INSECURE" (.boolean false),
    nativeOption "OTEL_EXPORTER_OTLP_METRICS_CERTIFICATE" (.string []),
    nativeOption "OTEL_EXPORTER_OTLP_METRICS_CLIENT_CERTIFICATE" (.string []),
    nativeOption "OTEL_EXPORTER_OTLP_METRICS_CLIENT_KEY" (.string []),
    nativeOption "OTEL_EXPORTER_OTLP_METRICS_CLIENT_KEYPASS" (.string []),
    nativeOption "OTEL_EXPORTER_OTLP_METRICS_ENDPOINT" (.string []),
    nativeOption "OTEL_EXPORTER_OTLP_METRICS_INSECURE" (.boolean false),
    nativeOption "OTEL_EXPORTER_OTLP_TRACES_CERTIFICATE" (.string []),
    nativeOption "OTEL_EXPORTER_OTLP_TRACES_CLIENT_CERTIFICATE" (.string []),
    nativeOption "OTEL_EXPORTER_OTLP_TRACES_CLIENT_KEY" (.string []),
    nativeOption "OTEL_EXPORTER_OTLP_TRACES_CLIENT_KEYPASS" (.string []),
    nativeOption "OTEL_EXPORTER_OTLP_TRACES_ENDPOINT" (.string []),
    nativeOption "OTEL_EXPORTER_OTLP_TRACES_INSECURE" (.boolean false),
    distroOption "async_transport" (.boolean true),
    distroOption "async_transport_shutdown_timeout" (.duration 30000),
    distroOption "attr_hooks_enabled" (.boolean false),
    distroOption "bootstrap_php_part_file" (.string []),
    distroOption "debug_diagnostic_file" (.string []),
    distroOption "debug_instrument_all" (.boolean false),
    distroOption "debug_php_hooks_enabled" (.boolean false),
    distroOption "dependency_autoloader_guard_enabled" (.boolean false),
    distroOption "enabled" (.boolean true),
    distroOption "inferred_spans_enabled" (.boolean false),
    distroOption "inferred_spans_min_duration" (.duration 0),
    distroOption "inferred_spans_reduction_enabled" (.boolean true),
    distroOption "inferred_spans_sampling_interval" (.duration 50),
    distroOption "inferred_spans_stacktrace_enabled" (.boolean true),
    distroOption "log_features" (.string []),
    distroOption "log_file" (.string []),
    distroOption "log_level" (.loglevel .off),
    distroOption "log_level_file" (.loglevel .off),
    distroOption "log_level_stderr" (.loglevel .off),
    distroOption "log_level_syslog" (.loglevel .info),
    distroOption "max_send_queue_size" (.bytes (2 * 1024 * 1204)),
    distroOption "native_otlp_serializer_enabled" (.boolean true),
    distroOption "opamp_certificate" (.string []),
    distroOption "opamp_client_certificate" (.string []),
    distroOption "opamp_client_key" (.string []),
    distroOption "opamp_client_keypass" (.string []),
    distroOption "opamp_endpoint" (.string []),
    distroOption "opamp_headers" (.string []),
    distroOption "opamp_heartbeat_interval" (.duration 30000),
    distroOption "opamp_insecure" (.boolean false),
    distroOption "opamp_polling_interval" (.duration 30000),
    distroOption "opamp_send_max_retries" (.bytes 3),
    distroOption "opamp_send_retry_delay" (.duration 10000),
    distroOption "opamp_send_timeout" (.duration 10000),
    distroOption "opentelemetry_extension_emulation_enabled" (.boolean true),
    distroOption "scoped_deps_enabled" (.boolean true),
    distroOption "user_bootstrap_php_file" (.string [])]

theorem options_names_nodup : (options_.map (·.name)).Nodup := by decide +kernel

/-! ## The code -/

abbrev ConfigFiles := KMap Str Str

/-- Where texts of options come from; a dynamic value may depend on the remote config files. -/
structure OptionValueProvider where
  getDynamicOptionValue : ConfigFiles → Str → Option Str
  getIniOptionValue : Str → Option Str
  getEnvironmentOptionValue : Str → Option Str

def toUpper (c : UInt8) : UInt8 := if 97 ≤ c ∧ c ≤ 122 then c - 32 else c

def getIniName (optionName : Str) : Str := lit "opentelemetry_distro." ++ optionName

def getEnvName (optionName : Str) : Str := lit "OTEL_PHP_" ++ optionName.map toUpper

def OptionValueProvider.fetchStringValue (provider : OptionValueProvider) (files : ConfigFiles) (name : Str)
    (isOtelNativeOption : Bool) : Option Str :=
  match provider.getDynamicOptionValue files name with
  | some value => some value
  | none =>
    match provider.getIniOptionValue (if isOtelNativeOption then name else getIniName name) with
    | some value => some value
    | none => provider.getEnvironmentOptionValue (if isOtelNativeOption then name else getEnvName name)

/-- `value` is the field of an option. -/
structure ConfigurationSnapshot where
  value : String → OptionValue
  revision : UInt64 := 0
  remoteConfigFiles : ConfigFiles := ∅

/-- The default of an option. -/
def defaultValue (name : String) : OptionValue := ((options_.find? (·.name = name)).map (·.default)).getD (.string [])

structure ConfigurationManager where
  upcomingConfigRevision : UInt64
  current : ConfigurationSnapshot

/-- The constructor. -/
def ConfigurationManager.init : ConfigurationManager := ⟨1, { value := defaultValue, revision := 1 }⟩

section

variable (A : DoubleArithmetic)

/-- The parser of the type. -/
def parseOptionValue (optionValue : Str) : OptionType → Except StdException OptionValue
  | .string => .ok (.string optionValue)
  | .boolean => .ok (.boolean (parseBoolean optionValue))
  | .duration => (convertDurationWithUnit A optionValue).map .duration
  | .loglevel => (parseLogLevel optionValue).map .loglevel
  | .bytes => (parseByteUnits optionValue).map .bytes

/-- The loop over the options; `fetch` gives the text of an option. -/
def updateOptions (fetch : OptionMetadata → Option Str) :
    List OptionMetadata → (String → OptionValue) → Except StdException (String → OptionValue)
  | [], value => .ok value
  | o :: rest, value =>
    match fetch o with
    | none => updateOptions fetch rest value -- keep default from snapshot
    | some optionVal =>
      match parseOptionValue A optionVal o.type with
      | .ok v => updateOptions fetch rest (Function.update value o.name v)
      | .error (.invalidArgument _) => updateOptions fetch rest value
      | .error (.outOfRange what) => .error (.outOfRange what)

def OptionValueProvider.fetch (provider : OptionValueProvider) (files : ConfigFiles) (o : OptionMetadata) : Option Str :=
  provider.fetchStringValue files (lit o.name) o.otelNativeOption

/-- An exception leaves the manager with the revision taken and the old snapshot. -/
def ConfigurationManager.update (m : ConfigurationManager) (provider : OptionValueProvider) (files : ConfigFiles) :
    Except StdException Unit × ConfigurationManager :=
  let revision := m.upcomingConfigRevision + 1
  match updateOptions A (provider.fetch files) options_ defaultValue with
  | .error e => (.error e, { m with upcomingConfigRevision := revision })
  | .ok value => (.ok (), ⟨revision, ⟨value, revision, files⟩⟩)

/-! ## What an update is meant to do -/

/-- The parsed value of a valid text, else the default. -/
def OptionMetadata.intended (o : OptionMetadata) (text : Option Str) : OptionValue :=
  match text.map fun t => parseOptionValue A t o.type with
  | some (.ok v) => v
  | _ => o.default

/-- The update returned and installed a newer snapshot, with the intended value of every option. -/
structure Updated (m : ConfigurationManager) (provider : OptionValueProvider) (files : ConfigFiles) : Prop where
  returned : (m.update A provider files).1 = .ok ()
  revision : m.current.revision < (m.update A provider files).2.current.revision
  configFiles : (m.update A provider files).2.current.remoteConfigFiles = files
  values : ∀ o ∈ options_, (m.update A provider files).2.current.value o.name = o.intended A (provider.fetch files o)

/-- The parser of the option throws `std::out_of_range`: the number at the beginning of the text is too large (or, for a
`double`, too small). -/
def OptionMetadata.OutOfRange (o : OptionMetadata) (text : Str) : Prop :=
  match o.type with
  | .bytes => BytesOutOfRange text
  | .duration => DurationOutOfRange A text
  | _ => False

/-- No text makes its parser throw `std::out_of_range`. -/
def AllInRange (provider : OptionValueProvider) (files : ConfigFiles) : Prop :=
  ∀ o ∈ options_, ∀ text, provider.fetch files o = some text → ¬ o.OutOfRange A text

/-- The counter of revisions has not come to its end. -/
def ConfigurationManager.NotWrapped (m : ConfigurationManager) : Prop :=
  m.current.revision ≤ m.upcomingConfigRevision ∧ m.upcomingConfigRevision.toNat + 1 < 2 ^ 64

/-! ## One option -/

section

variable {A}

theorem throwsOutOfRange_map {α β : Type} {x : Except StdException α} (f : α → β) :
    ThrowsOutOfRange (x.map f) ↔ ThrowsOutOfRange x := by
  cases x with
  | error e => exact (throwsOutOfRange_error e).trans (throwsOutOfRange_error e).symm
  | ok a => exact iff_of_false (throwsOutOfRange_ok _) (throwsOutOfRange_ok a)

theorem throwsOutOfRange_parseOptionValue (o : OptionMetadata) (text : Str) :
    ThrowsOutOfRange (parseOptionValue A text o.type) ↔ o.OutOfRange A text := by
  unfold OptionMetadata.OutOfRange
  cases o.type with
  | bytes => exact (throwsOutOfRange_map _).trans (throwsOutOfRange_parseByteUnits text)
  | duration => exact (throwsOutOfRange_map _).trans (throwsOutOfRange_convertDurationWithUnit text)
  | loglevel => exact iff_of_false ((throwsOutOfRange_map _).not.mpr (throwsOutOfRange_parseLogLevel text)) id
  | boolean => exact iff_of_false (throwsOutOfRange_ok _) id
  | string => exact iff_of_false (throwsOutOfRange_ok _) id

/-! ## The loop -/

variable {fetch : OptionMetadata → Option Str}

/-- What one round of the loop does to the options read so far. -/
theorem updateOptions_cons {o : OptionMetadata} {rest : List OptionMetadata} {value : String → OptionValue}
    (hin : ∀ text, fetch o = some text → ¬ o.OutOfRange A text) (hdefault : value o.name = o.default) :
    updateOptions A fetch (o :: rest) value =
      updateOptions A fetch rest (Function.update value o.name (o.intended A (fetch o))) := by
  have hkeep : Function.update value o.name o.default = value := by rw [← hdefault, Function.update_eq_self]
  rw [updateOptions, OptionMetadata.intended]
  cases hf : fetch o with
  | none => simp only [Option.map_none, hkeep]
  | some text =>
    simp only [Option.map_some]
    cases hp : parseOptionValue A text o.type with
    | ok v => rfl
    | error e =>
      cases e with
      | invalidArgument what => simp only [hkeep]
      | outOfRange what =>
        refine absurd ((throwsOutOfRange_parseOptionValue o text).mp ?_) (hin text hf)
        rw [hp, throwsOutOfRange_error]
        trivial

/-- An option that is out of range ends the loop with an exception. -/
theorem updateOptions_outOfRange {o : OptionMetadata} {text : Str} (hf : fetch o = some text)
    (hout : o.OutOfRange A text) (rest : List OptionMetadata) (value : String → OptionValue) :
    ThrowsOutOfRange (updateOptions A fetch (o :: rest) value) := by
  obtain ⟨e, hp, he⟩ := (throwsOutOfRange_parseOptionValue (A := A) o text).mpr hout
  cases e with
  | invalidArgument what => exact absurd he id
  | outOfRange what =>
    simp only [updateOptions, hf, hp]
    exact ⟨_, rfl, trivial⟩

/-- With all texts in range, the loop gives every option its intended value and leaves the other fields. -/
theorem updateOptions_inRange {options : List OptionMetadata} (hnd : (options.map (·.name)).Nodup)
    (hin : ∀ o ∈ options, ∀ text, fetch o = some text → ¬ o.OutOfRange A text) (value : String → OptionValue)
    (hdefault : ∀ o ∈ options, value o.name = o.default) :
    ∃ value', updateOptions A fetch options value = .ok value' ∧
      (∀ o ∈ options, value' o.name = o.intended A (fetch o)) ∧
      ∀ name ∉ options.map (·.name), value' name = value name := by
  induction options generalizing value with
  | nil => exact ⟨value, rfl, fun o ho => absurd ho List.not_mem_nil, fun _ _ => rfl⟩
  | cons o rest ih =>
    rw [List.map_cons, List.nodup_cons] at hnd
    have hother : ∀ p ∈ rest, p.name ≠ o.name := fun p hp h => hnd.1 (h ▸ List.mem_map_of_mem hp)
    obtain ⟨value', hok, hvalues, hframe⟩ := ih hnd.2 (fun p hp => hin p (List.mem_cons_of_mem o hp))
      (Function.update value o.name (o.intended A (fetch o))) (fun p hp => by
        rw [Function.update_of_ne (hother p hp)]
        exact hdefault p (List.mem_cons_of_mem o hp))
    refine ⟨value', ?_, ?_, ?_⟩
    · rw [updateOptions_cons (hin o List.mem_cons_self) (hdefault o List.mem_cons_self), hok]
    · intro p hp
      rcases List.mem_cons.mp hp with rfl | hp
      · rw [hframe _ hnd.1, Function.update_self]
      · exact hvalues p hp
    · intro name hname
      rw [List.map_cons, List.mem_cons, not_or] at hname
      rw [hframe name hname.2, Function.update_of_ne hname.1]

/-- Any text out of range ends the loop. -/
theorem updateOptions_throws {options : List OptionMetadata} {o : OptionMetadata} (ho : o ∈ options) {text : Str}
    (hf : fetch o = some text) (hout : o.OutOfRange A text) (value : String → OptionValue) :
    ThrowsOutOfRange (updateOptions A fetch options value) := by
  induction options generalizing value with
  | nil => exact absurd ho List.not_mem_nil
  | cons p rest ih =>
    rcases List.mem_cons.mp ho with rfl | ho
    · exact updateOptions_outOfRange hf hout rest value
    · cases hp : fetch p with
      | none =>
        simp only [updateOptions, hp]
        exact ih ho value
      | some ptext =>
        simp only [updateOptions, hp]
        split
        · exact ih ho _
        · exact ih ho _
        · exact ⟨_, rfl, trivial⟩

end

/-! ## The whole update -/

theorem find?_name {options : List OptionMetadata} (hnd : (options.map (·.name)).Nodup) {o : OptionMetadata}
    (ho : o ∈ options) : options.find? (·.name = o.name) = some o := by
  induction options with
  | nil => exact absurd ho List.not_mem_nil
  | cons p rest ih =>
    rw [List.map_cons, List.nodup_cons] at hnd
    rcases List.mem_cons.mp ho with rfl | ho
    · exact List.find?_cons_of_pos (by simp)
    · have hne : p.name ≠ o.name := fun h => hnd.1 (h ▸ List.mem_map_of_mem ho)
      rw [List.find?_cons_of_neg (by simpa using hne), ih hnd.2 ho]

theorem defaultValue_eq {o : OptionMetadata} (ho : o ∈ options_) : defaultValue o.name = o.default := by
  rw [defaultValue, find?_name options_names_nodup ho]
  rfl

section

variable {A} {m : ConfigurationManager} {provider : OptionValueProvider} {files : ConfigFiles}

/-- The revision that an update takes is newer exactly as long as the counter has not wrapped. -/
theorem ConfigurationManager.notWrapped_iff :
    m.NotWrapped ↔ m.current.revision < m.upcomingConfigRevision + 1 := by
  rw [NotWrapped, UInt64.lt_iff_toNat_lt, UInt64.le_iff_toNat_le, UInt64.toNat_add]
  have hlt := m.upcomingConfigRevision.toNat_lt
  have hone : (1 : UInt64).toNat = 1 := rfl
  omega

theorem update_inRange (hin : AllInRange A provider files) :
    ∃ value, m.update A provider files =
        (.ok (), ⟨m.upcomingConfigRevision + 1, ⟨value, m.upcomingConfigRevision + 1, files⟩⟩) ∧
      ∀ o ∈ options_, value o.name = o.intended A (provider.fetch files o) := by
  obtain ⟨value, hok, hvalues, -⟩ :=
    updateOptions_inRange options_names_nodup hin defaultValue fun o ho => defaultValue_eq ho
  exact ⟨value, by simp only [ConfigurationManager.update, hok], hvalues⟩

theorem update_throws (hout : ¬ AllInRange A provider files) :
    ThrowsOutOfRange (m.update A provider files).1 ∧
      (m.update A provider files).2 = { m with upcomingConfigRevision := m.upcomingConfigRevision + 1 } := by
  simp only [AllInRange, not_forall, not_not] at hout
  obtain ⟨o, ho, text, hf, hout⟩ := hout
  obtain ⟨e, he, hrange⟩ := updateOptions_throws ho hf hout defaultValue
  refine ⟨⟨e, ?_, hrange⟩, ?_⟩
  · simp only [ConfigurationManager.update, he]
  · simp only [ConfigurationManager.update, he]

end

/-- An update does what it is meant to exactly when no text is out of range and the counter of revisions has not come to
its end. -/
theorem update_iff (m : ConfigurationManager) (provider : OptionValueProvider) (files : ConfigFiles) :
    Updated A m provider files ↔ AllInRange A provider files ∧ m.NotWrapped := by
  constructor
  · intro h
    have hin : AllInRange A provider files := by
      by_contra hout
      obtain ⟨⟨e, he, -⟩, -⟩ := update_throws (m := m) hout
      exact absurd (he.symm.trans h.returned) (by simp)
    obtain ⟨value, hupdate, -⟩ := update_inRange (m := m) hin
    refine ⟨hin, ConfigurationManager.notWrapped_iff.mpr ?_⟩
    have hrevision := h.revision
    rwa [hupdate] at hrevision
  · rintro ⟨hin, hwrap⟩
    obtain ⟨value, hupdate, hvalues⟩ := update_inRange (m := m) hin
    exact ⟨by rw [hupdate], by rw [hupdate]; exact ConfigurationManager.notWrapped_iff.mp hwrap, by rw [hupdate],
      by rw [hupdate]; exact hvalues⟩

/-- The environment asks for a queue of 99999999999999999999 bytes and an ini file switches the extension off. -/
def hugeQueue : OptionValueProvider where
  getDynamicOptionValue _ _ := none
  getIniOptionValue name := if name = lit "opentelemetry_distro.enabled" then some (lit "off") else none
  getEnvironmentOptionValue name :=
    if name = lit "OTEL_PHP_MAX_SEND_QUEUE_SIZE" then some (lit "99999999999999999999") else none

/-- The exception leaves `update`, and the extension stays on. -/
theorem one_text_stops_the_others :
    ThrowsOutOfRange (ConfigurationManager.init.update writtenNumbers hugeQueue ∅).1 ∧
    hugeQueue.fetch ∅ (distroOption "enabled" (.boolean true)) = some (lit "off") ∧
    parseBoolean (lit "off") = false ∧
    (ConfigurationManager.init.update writtenNumbers hugeQueue ∅).2.current.value "enabled" = .boolean true ∧
    (ConfigurationManager.init.update writtenNumbers hugeQueue ∅).2.current.revision = 1 ∧
    ¬ Updated writtenNumbers ConfigurationManager.init hugeQueue ∅ := by
  let maxSendQueueSize := distroOption "max_send_queue_size" (.bytes (2 * 1024 * 1204))
  have hmem : maxSendQueueSize ∈ options_ := by
    simp only [options_, List.mem_cons, maxSendQueueSize, true_or, or_true]
  have hfetch : hugeQueue.fetch ∅ maxSendQueueSize = some (lit "99999999999999999999") := by decide +kernel
  have hrange : maxSendQueueSize.OutOfRange writtenNumbers (lit "99999999999999999999") :=
    ⟨false, 99999999999999999999, by decide +kernel, by omega⟩
  have hout : ¬ AllInRange writtenNumbers hugeQueue ∅ := fun h => h _ hmem _ hfetch hrange
  obtain ⟨hthrows, hkept⟩ := update_throws (m := ConfigurationManager.init) hout
  refine ⟨hthrows, by decide +kernel, by decide +kernel, ?_, ?_, ?_⟩
  · rw [hkept]
    decide +kernel
  · rw [hkept]
    rfl
  · intro h
    rw [h.returned] at hthrows
    exact throwsOutOfRange_ok () hthrows

/-! ## Runs of updates -/

/-- The manager after updates, whether they throw or not. -/
def ConfigurationManager.afterUpdates (m : ConfigurationManager) (updates : List (OptionValueProvider × ConfigFiles)) :
    ConfigurationManager :=
  updates.foldl (fun m u => (m.update A u.1 u.2).2) m

theorem update_revisions (m : ConfigurationManager) (provider : OptionValueProvider) (files : ConfigFiles) :
    (m.update A provider files).2.upcomingConfigRevision = m.upcomingConfigRevision + 1 ∧
      ((m.update A provider files).2.current.revision = m.upcomingConfigRevision + 1 ∨
        (m.update A provider files).2.current.revision = m.current.revision) := by
  by_cases hin : AllInRange A provider files
  · obtain ⟨value, hupdate, -⟩ := update_inRange (m := m) hin
    rw [hupdate]
    exact ⟨rfl, .inl rfl⟩
  · rw [(update_throws (m := m) hin).2]
    exact ⟨rfl, .inr rfl⟩

/-- The counter of revisions comes to its end after `2 ^ 64 - 1` updates only. -/
theorem notWrapped_afterUpdates (updates : List (OptionValueProvider × ConfigFiles))
    (hlen : updates.length + 2 < 2 ^ 64) : (ConfigurationManager.init.afterUpdates A updates).NotWrapped := by
  have hrun : ∀ (m : ConfigurationManager), m.NotWrapped → m.upcomingConfigRevision.toNat + updates.length + 1 < 2 ^ 64 →
      (m.afterUpdates A updates).NotWrapped := by
    clear hlen
    induction updates with
    | nil => exact fun m hm _ => hm
    | cons u rest ih =>
      intro m hm hlen
      obtain ⟨hupcoming, hcurrent⟩ := update_revisions A m u.1 u.2
      rw [List.length_cons] at hlen
      have hnext : (m.upcomingConfigRevision + 1).toNat = m.upcomingConfigRevision.toNat + 1 := by
        rw [UInt64.toNat_add, show (1 : UInt64).toNat = 1 from rfl]
        omega
      have hle := UInt64.le_iff_toNat_le.mp hm.1
      refine ih _ ⟨?_, by rw [hupcoming]; omega⟩ (by rw [hupcoming]; omega)
      rw [hupcoming, UInt64.le_iff_toNat_le]
      rcases hcurrent with h | h
      · rw [h]
      · rw [h]
        omega
  refine hrun _ ⟨by decide, by decide⟩ ?_
  rw [show ConfigurationManager.init.upcomingConfigRevision.toNat = 1 from rfl]
  omega

end

end OtelDistro.Config
