import OtelDistro.Otlp.BatchConverter

/-!
# OtelDistro.Otlp.BatchGrouping — every item under its resource and scope

* `ResourceFields.recover`, `ScopeFields.recover`: what a receiver reads from an entry.
* `GroupingLaw`: every item once, in batch order, under entries from which its resource and scope can be read; no two
  entries with equal resources, or with equal scopes under one resource.
* `FirstsRecoverable`: what the law comes down to, the first item of each resource and scope loses nothing.
* `grouping_iff`: the batches for which each of the converters obeys the law.
-/

namespace OtelDistro.Otlp

open Lib

/-! ## What can be read from a request -/

/-- A resource as PHP code sees it. -/
structure Resource where
  attributes : List (Key × PhpValue)
  droppedAttributesCount : ℤ
  schemaUrl : Option Str

/-- An instrumentation scope as PHP code sees it. -/
structure Scope where
  name : Str
  version : Option Str
  attributes : List (Key × PhpValue)
  droppedAttributesCount : ℤ
  schemaUrl : Option Str

def ResourceInfo.value (r : ResourceInfo) : Resource :=
  ⟨valueElements r.attributes.arData, r.attributes.droppedAttributesCount.toInt, r.schemaUrl⟩

def InstrumentationScope.value (s : InstrumentationScope) : Scope :=
  ⟨s.name, s.version, valueElements s.attributes.arData, s.attributes.droppedAttributesCount.toInt, s.schemaUrl⟩

/-- A text that is not set is empty. -/
def recoverText (s : Str) : Option Str := if s = [] then none else some s

def ResourceFields.recover (e : ResourceFields) : Resource :=
  ⟨recoverEntries e.attributes, e.droppedAttributesCount.toNat, recoverText e.schemaUrl⟩

def ScopeFields.recover (e : ScopeFields) : Scope :=
  ⟨e.name, recoverText e.version, recoverEntries e.attributes, e.droppedAttributesCount.toNat, recoverText e.schemaUrl⟩

/-- Names that are strings, values that survive, and a count of 32 bits. -/
def Attributes.Recoverable (a : Attributes) : Prop :=
  (∀ e ∈ Zval.elements a.arData, e.1.IsStr ∧ Otlp.Recoverable e.2) ∧
    0 ≤ a.droppedAttributesCount.toInt ∧ a.droppedAttributesCount.toInt < 2 ^ 32

/-- A schema URL is not the empty text. -/
def ResourceInfo.Recoverable (r : ResourceInfo) : Prop := r.attributes.Recoverable ∧ r.schemaUrl ≠ some []

/-- There is no schema URL. -/
def ResourceInfo.RecoverableLogs (r : ResourceInfo) : Prop := r.attributes.Recoverable ∧ r.schemaUrl = none

/-- Neither version nor schema URL is the empty text. -/
def InstrumentationScope.Recoverable (s : InstrumentationScope) : Prop :=
  s.attributes.Recoverable ∧ s.version ≠ some [] ∧ s.schemaUrl ≠ some []

theorem recoverText_getD_iff {s : Option Str} : recoverText (s.getD []) = s ↔ s ≠ some [] := by
  cases s with
  | none => simp [recoverText]
  | some s =>
    rw [Option.getD_some, recoverText]
    by_cases h : s = [] <;> simp [h]

theorem droppedCount_iff {n : Int64} : ((n.toUInt64.toUInt32.toNat : ℤ) = n.toInt) ↔ 0 ≤ n.toInt ∧ n.toInt < 2 ^ 32 := by
  have hnat : n.toUInt64.toUInt32.toNat = n.toBitVec.toNat % 2 ^ 32 := rfl
  have hint : n.toInt = n.toBitVec.toInt := rfl
  have hlt := n.toBitVec.isLt
  rw [hnat, hint, BitVec.toInt_eq_toNat_cond]
  split <;> omega

theorem recover_attributes_iff {a : Attributes} : (recoverEntries (convertEntries a.arData) = valueElements a.arData ∧
    ((droppedCount a).toNat : ℤ) = a.droppedAttributesCount.toInt) ↔ a.Recoverable :=
  and_congr recover_entries_iff droppedCount_iff

theorem recover_convertResource_iff (r : ResourceInfo) : (convertResource r).recover = r.value ↔ r.Recoverable := by
  rw [ResourceFields.recover, ResourceInfo.value, Resource.mk.injEq, ← and_assoc]
  exact and_congr recover_attributes_iff recoverText_getD_iff

theorem recover_convertResourceLogs_iff (r : ResourceInfo) :
    (convertResourceLogs r).recover = r.value ↔ r.RecoverableLogs := by
  rw [ResourceFields.recover, ResourceInfo.value, Resource.mk.injEq, ← and_assoc]
  exact and_congr recover_attributes_iff eq_comm

theorem recover_convertScope_iff (s : InstrumentationScope) : (convertScope s).recover = s.value ↔ s.Recoverable := by
  have hattributes := recover_attributes_iff (a := s.attributes)
  have hversion := recoverText_getD_iff (s := s.version)
  have hschema := recoverText_getD_iff (s := s.schemaUrl)
  rw [ScopeFields.recover, InstrumentationScope.value, Scope.mk.injEq, InstrumentationScope.Recoverable, ← hattributes,
    ← hversion, ← hschema]
  simp only [convertScope, true_and]
  tauto

theorem zvalOf_inj {s s' : Option Str} : zvalOf s = zvalOf s' ↔ s = s' := by
  cases s <;> cases s' <;> simp [zvalOf]

/-- Ids tell resources apart. -/
theorem getResourceId_inj {S : Serializer} {r r' : ResourceInfo} :
    getResourceId S r = getResourceId S r' ↔ r.value = r'.value := by
  rw [getResourceId, getResourceId, S.selfDelimiting.injective.eq_iff, PhpValue.ofList_inj, ResourceInfo.value,
    ResourceInfo.value, Resource.mk.injEq]
  simp only [List.cons.injEq, zvalOf_inj, Attributes.toArray, Zval.value, PhpValue.array.injEq, PhpValue.long.injEq,
    Int64.toInt_inj, and_true]
  tauto

/-- Ids tell scopes apart. -/
theorem getScopeId_inj {S : Serializer} {s s' : InstrumentationScope} :
    getScopeId S s = getScopeId S s' ↔ s.value = s'.value := by
  rw [getScopeId, getScopeId, S.selfDelimiting.injective.eq_iff, PhpValue.ofList_inj, InstrumentationScope.value,
    InstrumentationScope.value, Scope.mk.injEq]
  simp only [List.cons.injEq, zvalOf_inj, Attributes.toArray, Zval.value, PhpValue.array.injEq, PhpValue.long.injEq,
    PhpValue.string.injEq, Int64.toInt_inj, and_true]
  tauto

/-! ## The law -/

variable {α Out : Type}

def ScopeEntry.mapItems {Out' : Type} (f : Out → Out') (e : ScopeEntry Out) : ScopeEntry Out' :=
  { e.toScopeFields with items := e.items.map f }

def ResourceEntry.mapItems {Out' : Type} (f : Out → Out') (e : ResourceEntry Out) : ResourceEntry Out' :=
  { e.toResourceFields with scopes := e.scopes.map (·.mapItems f) }

/-- The item with another body. -/
def BatchItem.withBody {β : Type} (item : BatchItem α) (body : β) : BatchItem β :=
  ⟨item.className, item.resource, item.instrumentationScope, body⟩

/-- The items with their places in the batch as bodies. -/
def numbered (items : List (BatchItem α)) : List (BatchItem ℕ) := items.mapIdx fun i item => item.withBody i

/-- `places` is the request with the place of each item in its stead. -/
structure GroupingLaw (items : List (BatchItem α)) (convertItem : BatchItem α → Out) (request : List (ResourceEntry Out))
    (places : List (ResourceEntry ℕ)) : Prop where
  converted : request.map (·.mapItems some) = places.map (·.mapItems fun i => items[i]?.map convertItem)
  once : (places.flatMap fun r => r.scopes.flatMap (·.items)).Perm (List.range items.length)
  recovered : ∀ r ∈ places, ∀ s ∈ r.scopes, ∀ i ∈ s.items, ∃ item, items[i]? = some item ∧
    r.recover = item.resource.value ∧ s.recover = item.instrumentationScope.value
  resources_nodup : (places.map fun r => r.recover).Nodup
  scopes_nodup : ∀ r ∈ places, (r.scopes.map fun s => s.recover).Nodup
  batch_order : ∀ r ∈ places, ∀ s ∈ r.scopes, s.items.Pairwise (· < ·)

/-- The first item of each resource has a resource with `R`, and the first one of each scope of a resource a scope that
loses nothing. -/
structure FirstsRecoverable (R : ResourceInfo → Prop) (origins : List (ResourceInfo × InstrumentationScope)) : Prop where
  resources : ∀ pre o post, origins = pre ++ o :: post → (∀ p ∈ pre, p.1.value ≠ o.1.value) → R o.1
  scopes : ∀ pre o post, origins = pre ++ o :: post →
    (∀ p ∈ pre, p.1.value = o.1.value → p.2.value ≠ o.2.value) → o.2.Recoverable

def BatchItem.origin (item : BatchItem α) : ResourceInfo × InstrumentationScope :=
  (item.resource, item.instrumentationScope)

/-! ## Items and their places -/

section

variable (S : Serializer) (conv : ResourceInfo → ResourceFields)

/-- The loop sees resource, scope and the converted item only. -/
theorem convertBatch_withBody (convertItem : BatchItem α → Out) (items : List (BatchItem α)) :
    convertBatch S conv convertItem items =
      convertBatch S conv BatchItem.body (items.map fun item => item.withBody (convertItem item)) := by
  rw [convertBatch, convertBatch, List.foldl_map]
  rfl

theorem scopeEntry_mapItems (f : α → Out) (items : List (BatchItem α)) (first : BatchItem α) :
    (scopeEntry S BatchItem.body items first).mapItems f =
      scopeEntry S BatchItem.body (items.map fun item => item.withBody (f item.body)) (first.withBody (f first.body)) := by
  rw [scopeEntry, scopeEntry, ScopeEntry.mapItems, List.filter_map, List.map_map, List.map_map]
  rfl

/-- What is done to the items afterwards could have been done before. -/
theorem convertBatch_mapItems (f : α → Out) (items : List (BatchItem α)) :
    (convertBatch S conv BatchItem.body items).map (·.mapItems f) =
      convertBatch S conv BatchItem.body (items.map fun item => item.withBody (f item.body)) := by
  have hfirsts (l : List (BatchItem α)) (key : ∀ {β}, BatchItem β → Str)
      (hkey : ∀ item : BatchItem α, key (item.withBody (f item.body)) = key item) :
      firsts key (l.map fun item => item.withBody (f item.body)) =
        (firsts key l).map fun item => item.withBody (f item.body) := by
    rw [firsts_map]
    simp only [hkey]
  rw [convertBatch_eq, convertBatch_eq, hfirsts items (resourceKey S) fun _ => rfl, List.map_map, List.map_map]
  refine List.map_congr_left fun a _ => ?_
  rw [Function.comp_apply, Function.comp_apply, resourceEntry, resourceEntry, ResourceEntry.mapItems, List.filter_map]
  congr 1
  rw [hfirsts _ (scopeKey S) fun _ => rfl, List.map_map, List.map_map]
  refine List.map_congr_left fun b _ => ?_
  exact scopeEntry_mapItems S f _ b

theorem converted_places (convertItem : BatchItem α → Out) (items : List (BatchItem α)) :
    (convertBatch S conv convertItem items).map (·.mapItems some) =
      (convertBatch S conv BatchItem.body (numbered items)).map
        (·.mapItems fun i => items[i]?.map convertItem) := by
  rw [convertBatch_withBody, convertBatch_mapItems, convertBatch_mapItems, List.map_map]
  congr 1
  refine List.ext_getElem? fun i => ?_
  rw [List.getElem?_map, List.getElem?_map, numbered, List.getElem?_mapIdx]
  cases h : items[i]? with
  | none => rfl
  | some item => simp [BatchItem.withBody, h]

end

theorem mem_numbered {items : List (BatchItem α)} {n : BatchItem ℕ} (h : n ∈ numbered items) :
    ∃ item, items[n.body]? = some item ∧ n.resource = item.resource ∧
      n.instrumentationScope = item.instrumentationScope := by
  obtain ⟨i, hi, rfl⟩ := List.mem_mapIdx.mp h
  exact ⟨items[i], List.getElem?_eq_getElem hi, rfl, rfl⟩

theorem map_body_numbered (items : List (BatchItem α)) : (numbered items).map BatchItem.body = List.range items.length := by
  refine List.ext_getElem (by simp [numbered]) fun i hi hi' => ?_
  simp [numbered, BatchItem.withBody]

theorem map_origin_numbered (items : List (BatchItem α)) :
    (numbered items).map BatchItem.origin = items.map BatchItem.origin := by
  refine List.ext_getElem (by simp [numbered]) fun i hi hi' => ?_
  simp [numbered, BatchItem.withBody, BatchItem.origin]

/-! ## When the law holds -/

section

variable {S : Serializer} {conv : ResourceInfo → ResourceFields} {R : ResourceInfo → Prop}

/-- What holds of every split of the items, in terms of their origins. -/
theorem split_origins (items : List (BatchItem α)) {P : List (BatchItem α) → BatchItem α → Prop}
    {Q : List (ResourceInfo × InstrumentationScope) → ResourceInfo × InstrumentationScope → Prop}
    (hPQ : ∀ pre item, P pre item ↔ Q (pre.map BatchItem.origin) item.origin) :
    (∀ pre o post, items.map BatchItem.origin = pre ++ o :: post → Q pre o) ↔
      ∀ pre item post, items = pre ++ item :: post → P pre item := by
  constructor
  · rintro h pre item post rfl
    exact (hPQ pre item).mpr (h _ item.origin (post.map BatchItem.origin) (by simp))
  · intro h pre o post heq
    obtain ⟨pre', rest, rfl, rfl, hrest⟩ := List.map_eq_append_iff.mp heq
    obtain ⟨item, post', rfl, rfl, rfl⟩ := List.map_eq_cons_iff.mp hrest
    exact (hPQ pre' item).mp (h pre' item post' rfl)

/-- The first items of the resources, in terms of the ids. -/
theorem forall_firsts_resource {P : ResourceInfo → Prop} {items : List (BatchItem α)} :
    (∀ pre o post, items.map BatchItem.origin = pre ++ o :: post → (∀ p ∈ pre, p.1.value ≠ o.1.value) → P o.1) ↔
      ∀ a ∈ firsts (resourceKey S) items, P a.resource := by
  rw [split_origins items (P := fun pre item => (∀ p ∈ pre, resourceKey S p ≠ resourceKey S item) → P item.resource)
    fun pre item => by simp only [List.forall_mem_map, BatchItem.origin, ne_eq, getResourceId_inj]]
  constructor
  · intro h a ha
    obtain ⟨pre, post, heq, hpre⟩ := (mem_firsts _).mp ha
    exact h pre a post heq hpre
  · intro h pre a post heq hpre
    exact h a ((mem_firsts _).mpr ⟨pre, post, heq, hpre⟩)

/-- The first items of the scopes of the resources, in terms of the ids. -/
theorem forall_firsts_scope {P : InstrumentationScope → Prop} {items : List (BatchItem α)} :
    (∀ pre o post, items.map BatchItem.origin = pre ++ o :: post →
      (∀ p ∈ pre, p.1.value = o.1.value → p.2.value ≠ o.2.value) → P o.2) ↔
      ∀ b ∈ firsts (fun a => (resourceKey S a, scopeKey S a)) items, P b.instrumentationScope := by
  rw [split_origins items (P := fun pre item =>
      (∀ p ∈ pre, (resourceKey S p, scopeKey S p) ≠ (resourceKey S item, scopeKey S item)) →
        P item.instrumentationScope) fun pre item => by
    simp only [List.forall_mem_map, BatchItem.origin, ne_eq, Prod.mk.injEq, getResourceId_inj, getScopeId_inj, not_and]]
  constructor
  · intro h b hb
    obtain ⟨pre, post, heq, hpre⟩ := (mem_firsts _).mp hb
    exact h pre b post heq hpre
  · intro h pre b post heq hpre
    exact h b ((mem_firsts _).mpr ⟨pre, post, heq, hpre⟩)

/-- The condition in terms of the ids. -/
theorem firstsRecoverable_iff {items : List (BatchItem α)} : FirstsRecoverable R (items.map BatchItem.origin) ↔
    (∀ a ∈ firsts (resourceKey S) items, R a.resource) ∧
      ∀ b ∈ firsts (fun a => (resourceKey S a, scopeKey S a)) items, b.instrumentationScope.Recoverable := by
  constructor
  · rintro ⟨hr, hs⟩
    exact ⟨forall_firsts_resource.mp hr, forall_firsts_scope.mp hs⟩
  · rintro ⟨hr, hs⟩
    exact ⟨forall_firsts_resource.mpr hr, forall_firsts_scope.mpr hs⟩

theorem mem_firsts_scopeKey {items : List (BatchItem α)} {a b : BatchItem α} :
    b ∈ firsts (scopeKey S) (items.filter (resourceKey S · = resourceKey S a)) ↔
      b ∈ firsts (fun c => (resourceKey S c, scopeKey S c)) items ∧ resourceKey S b = resourceKey S a := by
  rw [firsts_filter, List.mem_filter, decide_eq_true_eq]

/-- The entries of a request and the items under them. -/
theorem mem_places {items : List (BatchItem ℕ)} {r : ResourceEntry ℕ} {s : ScopeEntry ℕ}
    (hr : r ∈ convertBatch S conv BatchItem.body items) (hs : s ∈ r.scopes) :
    ∃ a ∈ firsts (resourceKey S) items, ∃ b ∈ firsts (fun c => (resourceKey S c, scopeKey S c)) items,
      r.toResourceFields = conv a.resource ∧ s.toScopeFields = convertScope b.instrumentationScope ∧
      s.items = ((items.filter (resourceKey S · = resourceKey S a)).filter (scopeKey S · = scopeKey S b)).map
        BatchItem.body := by
  rw [convertBatch_eq, List.mem_map] at hr
  obtain ⟨a, ha, rfl⟩ := hr
  obtain ⟨b, hb, rfl⟩ := List.mem_map.mp hs
  exact ⟨a, ha, b, (mem_firsts_scopeKey.mp hb).1, rfl, rfl, rfl⟩

/-- The place of an item: its entries are made from the first items of its resource and scope. -/
theorem exists_place {items : List (BatchItem ℕ)} {a b n : BatchItem ℕ} (ha : a ∈ firsts (resourceKey S) items)
    (hb : b ∈ firsts (fun c => (resourceKey S c, scopeKey S c)) items) (hn : n ∈ items)
    (hab : resourceKey S b = resourceKey S a) (hna : resourceKey S n = resourceKey S a)
    (hnb : scopeKey S n = scopeKey S b) :
    ∃ r ∈ convertBatch S conv BatchItem.body items, ∃ s ∈ r.scopes, n.body ∈ s.items ∧
      r.toResourceFields = conv a.resource ∧ s.toScopeFields = convertScope b.instrumentationScope := by
  refine ⟨resourceEntry S conv BatchItem.body items a, ?_, ?_⟩
  · rw [convertBatch_eq]
    exact List.mem_map_of_mem ha
  · refine ⟨scopeEntry S BatchItem.body (items.filter (resourceKey S · = resourceKey S a)) b, ?_, ?_, rfl, rfl⟩
    · exact List.mem_map_of_mem (mem_firsts_scopeKey.mpr ⟨hb, hab⟩)
    · exact List.mem_map_of_mem
        (List.mem_filter.mpr ⟨List.mem_filter.mpr ⟨hn, decide_eq_true hna⟩, decide_eq_true hnb⟩)

/-- Distinct ids come from distinct values. -/
theorem nodup_map_of_keys {β V : Type} {key : β → Str} {value : β → V} (h : ∀ b c, value b = value c → key b = key c)
    {l : List β} (hnd : (l.map key).Nodup) : (l.map value).Nodup := by
  rw [List.nodup_iff_pairwise_ne, List.pairwise_map] at hnd ⊢
  exact hnd.imp fun hne e => hne (h _ _ e)

/-- Everything but the recovery holds in any case. -/
theorem once_places (items : List (BatchItem ℕ)) :
    ((convertBatch S conv BatchItem.body items).flatMap fun r => r.scopes.flatMap (·.items)).Perm
      (items.map BatchItem.body) := by
  rw [convertBatch_eq, List.flatMap_map]
  have hscopes (l : List (BatchItem ℕ)) :
      (((firsts (scopeKey S) l).map (scopeEntry S BatchItem.body l)).flatMap (·.items)).Perm (l.map BatchItem.body) := by
    rw [List.flatMap_map]
    refine .trans (.of_eq ?_) ((perm_flatMap_filter (scopeKey S) l).map BatchItem.body)
    rw [List.map_flatMap]
    rfl
  refine .trans (List.Perm.flatMap_left _ fun a _ => hscopes _) ?_
  refine .trans (.of_eq ?_) ((perm_flatMap_filter (resourceKey S) items).map BatchItem.body)
  rw [List.map_flatMap]

/-- An item under entries that give its resource and scope back. -/
theorem GroupingLaw.recovered_of_first {items : List (BatchItem α)} {convertItem : BatchItem α → Out}
    (h : GroupingLaw items convertItem (convertBatch S conv convertItem items)
      (convertBatch S conv BatchItem.body (numbered items)))
    {a b n : BatchItem ℕ} (ha : a ∈ firsts (resourceKey S) (numbered items))
    (hb : b ∈ firsts (fun c => (resourceKey S c, scopeKey S c)) (numbered items)) (hn : n ∈ numbered items)
    (hab : resourceKey S b = resourceKey S a) (hna : resourceKey S n = resourceKey S a)
    (hnb : scopeKey S n = scopeKey S b) :
    (conv a.resource).recover = n.resource.value ∧
      (convertScope b.instrumentationScope).recover = n.instrumentationScope.value := by
  obtain ⟨r, hr, s, hs, hi, hra, hsb⟩ := @exists_place S conv _ _ _ _ ha hb hn hab hna hnb
  obtain ⟨item, hitem, hres, hscope⟩ := h.recovered r hr s hs n.body hi
  obtain ⟨item', hitem', hnr, hns⟩ := mem_numbered hn
  obtain rfl : item = item' := Option.some.inj (hitem.symm.trans hitem')
  rw [← hra, ← hsb, hnr, hns]
  exact ⟨hres, hscope⟩

/-- The law for a conversion of resources that loses nothing for `R`. -/
theorem groupingLaw_iff (hR : ∀ r, (conv r).recover = r.value ↔ R r) (items : List (BatchItem α))
    (convertItem : BatchItem α → Out) :
    GroupingLaw items convertItem (convertBatch S conv convertItem items)
        (convertBatch S conv BatchItem.body (numbered items)) ↔
      FirstsRecoverable R (items.map BatchItem.origin) := by
  rw [← map_origin_numbered, firstsRecoverable_iff (S := S)]
  constructor
  · intro h
    refine ⟨fun a ha => ?_, fun b hb => ?_⟩
    · have hmem := mem_of_mem_firsts _ ha
      obtain ⟨b, hb, hkey⟩ := exists_mem_firsts (fun c => (resourceKey S c, scopeKey S c)) hmem
      obtain ⟨hkr, hks⟩ := Prod.mk.inj hkey
      exact (hR _).mp (h.recovered_of_first ha hb hmem hkr rfl hks.symm).1
    · have hmem := mem_of_mem_firsts _ hb
      obtain ⟨a, ha, hkey⟩ := exists_mem_firsts (resourceKey S) hmem
      exact (recover_convertScope_iff _).mp (h.recovered_of_first ha hb hmem hkey.symm hkey.symm rfl).2
  · rintro ⟨hr, hs⟩
    have hresource {a : BatchItem ℕ} (ha : a ∈ firsts (resourceKey S) (numbered items)) :
        (conv a.resource).recover = a.resource.value := (hR _).mpr (hr a ha)
    have hscope {b : BatchItem ℕ} (hb : b ∈ firsts (fun c => (resourceKey S c, scopeKey S c)) (numbered items)) :
        (convertScope b.instrumentationScope).recover = b.instrumentationScope.value :=
      (recover_convertScope_iff _).mpr (hs b hb)
    refine ⟨converted_places S conv convertItem items, map_body_numbered items ▸ once_places _, ?_, ?_, ?_, ?_⟩
    · intro r hr s hs i hi
      obtain ⟨a, ha, b, hb, hra, hsb, hitems⟩ := mem_places hr hs
      rw [hitems, List.mem_map] at hi
      obtain ⟨n, hn, rfl⟩ := hi
      simp only [List.mem_filter, decide_eq_true_eq, getResourceId_inj, getScopeId_inj] at hn
      obtain ⟨⟨hmem, hna⟩, hnb⟩ := hn
      obtain ⟨item, hitem, hnr, hns⟩ := mem_numbered hmem
      refine ⟨item, hitem, ?_, ?_⟩
      · rw [hra, hresource ha, ← hna, hnr]
      · rw [hsb, hscope hb, ← hnb, hns]
    · rw [convertBatch_eq, List.map_map]
      have hvalues : (firsts (resourceKey S) (numbered items)).map
          ((fun r => r.recover) ∘ resourceEntry S conv BatchItem.body (numbered items)) =
            (firsts (resourceKey S) (numbered items)).map fun a => a.resource.value :=
        List.map_congr_left fun a ha => hresource ha
      rw [hvalues]
      exact nodup_map_of_keys (fun b c h => getResourceId_inj.mpr h) (nodup_keys_firsts (resourceKey S) _)
    · intro r hr
      rw [convertBatch_eq, List.mem_map] at hr
      obtain ⟨a, -, rfl⟩ := hr
      rw [resourceEntry, List.map_map]
      have hvalues (F : List (BatchItem ℕ)) (hF : ∀ b ∈ firsts (scopeKey S) F,
          b ∈ firsts (fun c => (resourceKey S c, scopeKey S c)) (numbered items)) :
          (firsts (scopeKey S) F).map ((fun s => s.recover) ∘ scopeEntry S BatchItem.body F) =
            (firsts (scopeKey S) F).map fun b => b.instrumentationScope.value :=
        List.map_congr_left fun b hb => hscope (hF b hb)
      rw [hvalues _ fun b hb => (mem_firsts_scopeKey.mp hb).1]
      exact nodup_map_of_keys (fun b c h => getScopeId_inj.mpr h) (nodup_keys_firsts (scopeKey S) _)
    · intro r hr s hs
      obtain ⟨a, -, b, -, -, -, hitems⟩ := mem_places hr hs
      have hsub : s.items.Sublist ((numbered items).map BatchItem.body) := by
        rw [hitems]
        exact (List.filter_sublist.trans List.filter_sublist).map _
      rw [map_body_numbered] at hsub
      exact List.pairwise_lt_range.sublist hsub

end

/-- The converter returned a request that obeys the law. -/
def ConvertsLawfully (S : Serializer) (conv : ResourceInfo → ResourceFields) (items : List (BatchItem α))
    (convertItem : BatchItem α → Out) (result : Except Str (List (ResourceEntry Out))) : Prop :=
  ∃ request, result = .ok request ∧
    GroupingLaw items convertItem request (convertBatch S conv BatchItem.body (numbered items))

theorem convertsLawfully_ok {S : Serializer} {conv : ResourceInfo → ResourceFields} {items : List (BatchItem α)}
    {convertItem : BatchItem α → Out} {request : List (ResourceEntry Out)} :
    ConvertsLawfully S conv items convertItem (.ok request) ↔
      GroupingLaw items convertItem request (convertBatch S conv BatchItem.body (numbered items)) := by
  constructor
  · rintro ⟨request', heq, h⟩
    cases heq
    exact h
  · intro h
    exact ⟨request, rfl, h⟩

theorem not_convertsLawfully_error {S : Serializer} {conv : ResourceInfo → ResourceFields} {items : List (BatchItem α)}
    {convertItem : BatchItem α → Out} {e : Str} : ¬ ConvertsLawfully S conv items convertItem (.error e) := by
  rintro ⟨request, heq, -⟩
  cases heq

theorem forM_assertObjectType (type : Str) (items : List (BatchItem α)) :
    forM items (assertObjectType type) = .ok () ↔ ∀ item ∈ items, type = item.className := by
  induction items with
  | nil => exact iff_of_true rfl fun item h => absurd h List.not_mem_nil
  | cons item items ih =>
    rw [List.forM_cons, List.forall_mem_cons, ← ih, assertObjectType]
    by_cases h : type = item.className
    · rw [if_pos h]
      exact (and_iff_right h).symm
    · rw [if_neg h]
      exact iff_of_false (fun e => by cases e) fun e => h e.1

/-- A log record of a resource with a schema URL. -/
def logRecord (schemaUrl : String) : BatchItem Unit where
  className := lit "OpenTelemetry\\SDK\\Logs\\ReadableLogRecord"
  resource := ⟨some (lit schemaUrl), ⟨0, [], 0⟩⟩
  instrumentationScope := ⟨lit "scope", none, none, ⟨0, [], 0⟩⟩
  body := ()

/-- Two log records whose resources differ in the schema URL. -/
def twoSchemaUrls : Iterable Unit := ⟨true, [logRecord "https://a/1", logRecord "https://a/2"]⟩

end OtelDistro.Otlp
