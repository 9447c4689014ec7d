import OtelDistro.Util.KeyValueString

/-!
# OtelDistro.Transport.ResourceAttributes — how the agent describes itself

`ResourceDetector` collects the resource attributes of the process; `sendInitialAgentToServer` of `OpAmp.cpp` sends them as
identifying attributes.

* `ResourceDetector`: the map, from the environment, the host and the vendor.
* `Identifies`: what the list of the initial message is to be for that map.

`identifies_iff`: it is, unless both names of the deployment environment have a value.
-/

namespace OtelDistro.Transport

open Lib Util

/-! ## The detector -/

def kServiceName : Str := lit "service.name"
def kServiceInstanceId : Str := lit "service.instance.id"
def kDeploymentEnvironment : Str := lit "deployment.environment"
def kDeploymentEnvironmentName : Str := lit "deployment.environment.name"
def kOsType : Str := lit "os.type"
def kOsName : Str := lit "os.name"
def kOsDescription : Str := lit "os.description"
def kOsVersion : Str := lit "os.version"
def kHostName : Str := lit "host.name"
def kHostArch : Str := lit "host.arch"

structure ResourceDetector where
  resourceAttributes : KMap Str Str

/-- What the process runs on: its two environment variables, the `os.type` it was compiled for and `phpUname`. -/
structure Host where
  resourceAttributes : Option Str := none
  serviceName : Option Str := none
  osType : Str
  phpUname : Char → Str

namespace ResourceDetector

variable (r : ResourceDetector)

def get (key : Str) : Str := (r.resourceAttributes.lookup key).getD []

/-- `resourceAttributes_[key] = value` -/
def set (key value : Str) : ResourceDetector := ⟨r.resourceAttributes.insert key value⟩

def setNonEmpty (key value : Str) : ResourceDetector := if value = [] then r else r.set key value

def addAttributes (attrs : KMap Str Str) : ResourceDetector := ⟨r.resourceAttributes.emplaceAll attrs.pairs⟩

def getFromEnvironment (host : Host) : ResourceDetector :=
  let r := match host.resourceAttributes with
    | none => r
    | some resourceAttributes => r.addAttributes (parseUrlEncodedKeyValueString resourceAttributes)
  r.setNonEmpty kServiceName (host.serviceName.getD [])

def getHostAndOsAttributes (host : Host) : ResourceDetector :=
  (((((r.set kOsType host.osType).setNonEmpty kOsName (host.phpUname 's')).setNonEmpty kOsDescription
    (host.phpUname 'r')).setNonEmpty kOsVersion (host.phpUname 'v')).setNonEmpty kHostName
    (host.phpUname 'n')).setNonEmpty kHostArch (host.phpUname 'm')

/-- The constructor. -/
def new (host : Host) : ResourceDetector := (getFromEnvironment ⟨∅⟩ host).getHostAndOsAttributes host

end ResourceDetector

/-! ## The initial message -/

/-- A `boost::uuids::uuid` -/
structure Uuid where
  data : Str
  length_data : data.length = 16

/-- `boost::uuids::to_string`: hexadecimal digits, with dashes behind the bytes 4, 6, 8 and 10. -/
def Uuid.toString (uuid : Uuid) : Str :=
  uuid.data.zipIdx.flatMap fun (c, i) =>
    [hexDigit false (c.toNat / 16), hexDigit false (c.toNat % 16)] ++ if i = 3 ∨ i = 5 ∨ i = 7 ∨ i = 9 then [45] else []

inductive AgentCapabilities
  | acceptsRemoteConfig
  | reportsStatus
  | reportsHeartbeat
  | acceptsOpAMPConnectionSettings
  | reportsRemoteConfig

structure InitialAgentToServer where
  instanceUid : Str
  identifyingAttributes : List (Str × Str)
  capabilities : List AgentCapabilities

/-- get deprecated if exists and send as modern value -/
def deprecatedAlias (r : ResourceDetector) : List (Str × Str) :=
  if r.get kDeploymentEnvironment ≠ [] then [(kDeploymentEnvironmentName, r.get kDeploymentEnvironment)] else []

/-- The loop over the resource attributes. -/
def nonEmptyAttributes (r : ResourceDetector) : List (Str × Str) :=
  (r.resourceAttributes.orderedPairs (fun a b => a ≤ b)).filter fun resource => resource.2 ≠ []

def generatedId (r : ResourceDetector) (agentUid : Uuid) : List (Str × Str) :=
  if r.get kServiceInstanceId = [] then [(kServiceInstanceId, agentUid.toString)] else []

/-- The attributes in the order of the calls of `addKeyValue`. -/
def identifyingAttributes (r : ResourceDetector) (agentUid : Uuid) : List (Str × Str) :=
  deprecatedAlias r ++ nonEmptyAttributes r ++ generatedId r agentUid

def sendInitialAgentToServer (r : ResourceDetector) (agentUid : Uuid) : InitialAgentToServer where
  instanceUid := agentUid.data
  identifyingAttributes := identifyingAttributes r agentUid
  capabilities := [.acceptsRemoteConfig, .reportsStatus, .reportsHeartbeat, .acceptsOpAMPConnectionSettings,
    .reportsRemoteConfig]

/-- The attributes of the message stand for the resource: each key once, every attribute with a value once, an instance id, and
the deployment environment under its modern name. -/
structure Identifies (r : ResourceDetector) (attrs : List (Str × Str)) : Prop where
  distinct : (attrs.map Prod.fst).Nodup
  complete : ∀ key value, r.resourceAttributes.lookup key = some value → value ≠ [] → attrs.count (key, value) = 1
  instanceId : ∃ value, value ≠ [] ∧ (kServiceInstanceId, value) ∈ attrs
  modern : r.get kDeploymentEnvironmentName ≠ [] →
    ∀ value, (kDeploymentEnvironmentName, value) ∈ attrs ↔ value = r.get kDeploymentEnvironmentName
  deprecated : r.get kDeploymentEnvironmentName = [] → r.get kDeploymentEnvironment ≠ [] →
    ∀ value, (kDeploymentEnvironmentName, value) ∈ attrs ↔ value = r.get kDeploymentEnvironment

/-! ## Parts of the list -/

section

variable {r : ResourceDetector} {agentUid : Uuid} {key value : Str}

theorem get_eq (hv : value ≠ []) : r.get key = value ↔ r.resourceAttributes.lookup key = some value := by
  unfold ResourceDetector.get
  cases r.resourceAttributes.lookup key with
  | none => exact iff_of_false (fun h => hv h.symm) nofun
  | some v => simp

theorem mem_nonEmptyAttributes : (key, value) ∈ nonEmptyAttributes r ↔ value ≠ [] ∧ r.get key = value := by
  unfold nonEmptyAttributes
  rw [List.mem_filter, ← firstAt_eq_some_iff (r.resourceAttributes.nodup_orderedPairs _), KMap.firstAt_orderedPairs]
  simp only [decide_eq_true_eq]
  constructor
  · rintro ⟨h, hv⟩
    exact ⟨hv, (get_eq hv).mpr h⟩
  · rintro ⟨hv, h⟩
    exact ⟨(get_eq hv).mp h, hv⟩

theorem nodup_nonEmptyAttributes (r : ResourceDetector) : ((nonEmptyAttributes r).map Prod.fst).Nodup :=
  (r.resourceAttributes.nodup_orderedPairs _).sublist (List.filter_sublist.map Prod.fst)

theorem notMem_keys_nonEmptyAttributes (h : r.get key = []) : key ∉ (nonEmptyAttributes r).map Prod.fst := by
  intro hk
  obtain ⟨⟨key', value⟩, hmem, rfl⟩ := List.mem_map.mp hk
  obtain ⟨hv, hget⟩ := mem_nonEmptyAttributes.mp hmem
  exact hv (hget.symm.trans h)

theorem Uuid.toString_ne_nil (uuid : Uuid) : uuid.toString ≠ [] := by
  obtain ⟨data, hlen⟩ := uuid
  cases data with
  | nil => cases hlen
  | cons c data => simp [Uuid.toString, List.zipIdx_cons]

theorem mem_deprecatedAlias : (key, value) ∈ deprecatedAlias r ↔
    value ≠ [] ∧ key = kDeploymentEnvironmentName ∧ value = r.get kDeploymentEnvironment := by
  unfold deprecatedAlias
  split
  · next h =>
    rw [List.mem_singleton, Prod.mk.injEq]
    exact ⟨fun ⟨hk, hv⟩ => ⟨hv ▸ h, hk, hv⟩, fun ⟨_, hk, hv⟩ => ⟨hk, hv⟩⟩
  · next h =>
    rw [not_not] at h
    exact iff_of_false List.not_mem_nil fun ⟨hne, _, hv⟩ => hne (hv.trans h)

theorem mem_generatedId : (key, value) ∈ generatedId r agentUid ↔
    r.get kServiceInstanceId = [] ∧ key = kServiceInstanceId ∧ value = agentUid.toString := by
  unfold generatedId
  split
  · next h => simp [h]
  · next h => exact iff_of_false List.not_mem_nil fun h' => h h'.1

/-- What is in the list. -/
theorem mem_identifyingAttributes : (key, value) ∈ identifyingAttributes r agentUid ↔
    (value ≠ [] ∧ key = kDeploymentEnvironmentName ∧ value = r.get kDeploymentEnvironment) ∨
      (value ≠ [] ∧ r.get key = value) ∨
      (r.get kServiceInstanceId = [] ∧ key = kServiceInstanceId ∧ value = agentUid.toString) := by
  rw [identifyingAttributes, List.mem_append, List.mem_append, mem_deprecatedAlias, mem_nonEmptyAttributes,
    mem_generatedId, or_assoc]

theorem name_ne_instanceId : kDeploymentEnvironmentName ≠ kServiceInstanceId := by decide

/-- Both names have a value: the modern one is there twice. -/
theorem not_nodup_identifyingAttributes (hdeprecated : r.get kDeploymentEnvironment ≠ [])
    (hmodern : r.get kDeploymentEnvironmentName ≠ []) : ¬ ((identifyingAttributes r agentUid).map Prod.fst).Nodup := by
  intro h
  have hloop : (kDeploymentEnvironmentName, r.get kDeploymentEnvironmentName) ∈ nonEmptyAttributes r :=
    mem_nonEmptyAttributes.mpr ⟨hmodern, rfl⟩
  rw [identifyingAttributes, deprecatedAlias, if_pos hdeprecated, List.singleton_append, List.cons_append, List.map_cons,
    List.nodup_cons, List.map_append, List.mem_append] at h
  exact h.1 (.inl (List.mem_map.mpr ⟨_, hloop, rfl⟩))

theorem nodup_identifyingAttributes (h : r.get kDeploymentEnvironment = [] ∨ r.get kDeploymentEnvironmentName = []) :
    ((identifyingAttributes r agentUid).map Prod.fst).Nodup := by
  have halias : ((deprecatedAlias r).map Prod.fst).Nodup := by
    unfold deprecatedAlias
    split <;> simp
  have hid : ((generatedId r agentUid).map Prod.fst).Nodup := by
    unfold generatedId
    split <;> simp
  rw [identifyingAttributes, List.map_append, List.map_append]
  refine List.Nodup.append (List.Nodup.append halias (nodup_nonEmptyAttributes r) ?_) hid ?_
  · -- the alias and the loop
    intro key hkey hloop
    obtain ⟨⟨key, value⟩, hmem, rfl⟩ := List.mem_map.mp hkey
    obtain ⟨hv, rfl, rfl⟩ := mem_deprecatedAlias.mp hmem
    exact notMem_keys_nonEmptyAttributes (h.resolve_left hv) hloop
  · -- the generated id and what is before it
    intro key hkey hid
    obtain ⟨⟨key, value⟩, hmem, rfl⟩ := List.mem_map.mp hid
    obtain ⟨hempty, rfl, -⟩ := mem_generatedId.mp hmem
    rcases List.mem_append.mp hkey with hkey | hkey
    · obtain ⟨⟨key, value⟩, hmem, hkey⟩ := List.mem_map.mp hkey
      exact name_ne_instanceId ((mem_deprecatedAlias.mp hmem).2.1.symm.trans hkey)
    · exact notMem_keys_nonEmptyAttributes hempty hkey

theorem identifies_of (h : r.get kDeploymentEnvironment = [] ∨ r.get kDeploymentEnvironmentName = []) :
    Identifies r (identifyingAttributes r agentUid) where
  distinct := nodup_identifyingAttributes h
  complete key value hlook hv := by
    have hmem : (key, value) ∈ identifyingAttributes r agentUid :=
      mem_identifyingAttributes.mpr (.inr (.inl ⟨hv, (get_eq hv).mpr hlook⟩))
    exact List.count_eq_one_of_mem (nodup_identifyingAttributes h).of_map hmem
  instanceId := by
    by_cases hid : r.get kServiceInstanceId = []
    · exact ⟨_, agentUid.toString_ne_nil, mem_identifyingAttributes.mpr (.inr (.inr ⟨hid, rfl, rfl⟩))⟩
    · exact ⟨_, hid, mem_identifyingAttributes.mpr (.inr (.inl ⟨hid, rfl⟩))⟩
  modern hmodern value := by
    have hdeprecated := h.resolve_right hmodern
    rw [mem_identifyingAttributes]
    constructor
    · rintro (⟨hv, -, rfl⟩ | ⟨-, rfl⟩ | ⟨-, hname, -⟩)
      · exact absurd hdeprecated hv
      · rfl
      · exact absurd hname name_ne_instanceId
    · rintro rfl
      exact .inr (.inl ⟨hmodern, rfl⟩)
  deprecated hmodern hdeprecated value := by
    rw [mem_identifyingAttributes]
    constructor
    · rintro (⟨-, -, rfl⟩ | ⟨hv, rfl⟩ | ⟨-, hname, -⟩)
      · rfl
      · exact absurd hmodern hv
      · exact absurd hname name_ne_instanceId
    · rintro rfl
      exact .inl ⟨hdeprecated, rfl, rfl⟩

/-- **The identifying attributes** of the initial message stand for the resource if and only if not both names of the
deployment environment have a value. -/
theorem identifies_iff (r : ResourceDetector) (agentUid : Uuid) :
    Identifies r (sendInitialAgentToServer r agentUid).identifyingAttributes ↔
      ¬ (r.get kDeploymentEnvironment ≠ [] ∧ r.get kDeploymentEnvironmentName ≠ []) := by
  refine ⟨fun h hboth => not_nodup_identifyingAttributes hboth.1 hboth.2 h.distinct, fun h => identifies_of ?_⟩
  rw [not_and_or, not_not, not_not] at h
  exact h

end

/-! ## Both names -/

/-- `deployment.environment=staging,deployment.environment.name=prod` -/
theorem both_names_sent_twice : ∃ host : Host,
    host.resourceAttributes = some (lit "deployment.environment=staging,deployment.environment.name=prod") ∧
      ∀ agentUid, ¬ Identifies (.new host) (sendInitialAgentToServer (.new host) agentUid).identifyingAttributes := by
  let text := lit "deployment.environment=staging,deployment.environment.name=prod"
  let l := [(kDeploymentEnvironment, lit "staging"), (kDeploymentEnvironmentName, lit "prod")]
  let host : Host := { resourceAttributes := some text, osType := lit "linux", phpUname := fun _ => [] }
  have hparse : parseUrlEncodedKeyValueString text = KMap.emplaceAll ∅ l := by
    have hwritten : text = writeKeyValueString (fun _ => true) l := by decide +kernel
    rw [hwritten]
    exact parsePairs_write (by decide) ∅
  have hnew : ResourceDetector.new host = (ResourceDetector.addAttributes ⟨∅⟩ (KMap.emplaceAll ∅ l)).set kOsType (lit "linux") := by
    rw [← hparse]
    rfl
  refine ⟨host, rfl, fun agentUid h => not_nodup_identifyingAttributes ?_ ?_ h.distinct⟩
  · rw [hnew]
    decide
  · rw [hnew]
    decide

end OtelDistro.Transport
