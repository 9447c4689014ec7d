import OtelDistro.Otlp.Zval
import OtelDistro.Util.Utf8

/-!
# OtelDistro.Otlp.AttributesConverter — attribute values of the export requests

* `convertAnyValue`, `convertAttributes`: the code.  The iterators skip the buckets of deleted elements; an integer key is
  skipped where an entry needs a name; `isSimpleArray` compares the two counters of the hash table.
* `Zval.toAnyValue`, `toKeyValues`: the conversion without loss, every element once, lists as lists.
* `Preserved`: in every array of a value the counters tell lists from maps, and maps have string keys.

`conversion_preserves_iff`: the code agrees with the conversion without loss on exactly these values.
-/

namespace OtelDistro.Otlp

/-! ## Values of the protocol -/

inductive AnyValue
  | unset
  | stringValue (s : Str)
  | boolValue (b : Bool)
  | intValue (n : Int64)
  | doubleValue (bits : UInt64)
  | arrayValue (values : List AnyValue)
  | kvlistValue (values : List (Str × AnyValue))
  | bytesValue (s : Str)

/-- `KeyValue` -/
abbrev KeyValue := Str × AnyValue

/-! ## The code -/

/-- `isSimpleArray` for an array. -/
def isSimpleArray (nNextFreeElement : Int64) (arData : List (Key × Zval)) : Bool :=
  (nNumOfElements arData : ℤ) = nNextFreeElement.toInt

/-- The case `IS_STRING`. -/
def convertString (validUtf8 : Bool) (s : Str) : AnyValue :=
  if validUtf8 || Util.isUtf8 s then .stringValue s else .bytesValue s

mutual

def convertAnyValue : Zval → AnyValue
  | .array next arData =>
    if isSimpleArray next arData then .arrayValue (convertValues arData) else .kvlistValue (convertEntries arData)
  | .long n => .intValue n
  | .double bits => .doubleValue bits
  | .bool b => .boolValue b
  | .string validUtf8 s => convertString validUtf8 s
  | .null => .unset
  | .undef => .unset

/-- The loop over the values. -/
def convertValues : List (Key × Zval) → List AnyValue
  | [] => []
  | (_, v) :: rest => if v.isUndef then convertValues rest else convertAnyValue v :: convertValues rest

/-- The loop over the pairs of key and value. -/
def convertEntries : List (Key × Zval) → List KeyValue
  | [] => []
  | (.str s, v) :: rest => if v.isUndef then convertEntries rest else (s, convertAnyValue v) :: convertEntries rest
  | (.num _, _) :: rest => convertEntries rest

end

/-- `convertAttributes`, where `attributesArray` is the result of `toArray`. -/
def convertAttributes (attributesArray : Zval) : Except Str (List KeyValue) :=
  match attributesArray with
  | .array _ arData => .ok (convertEntries arData)
  | _ => .error (lit "Zval is not an array")

/-! ## The conversion without loss -/

mutual

/-- One entry for each element: the values of a list, else key and value of each element. -/
def Zval.toAnyValue : Zval → AnyValue
  | .array _ arData =>
    if IsList (Zval.elements arData) then .arrayValue (toValues arData) else .kvlistValue (toKeyValues arData)
  | .long n => .intValue n
  | .double bits => .doubleValue bits
  | .bool b => .boolValue b
  | .string validUtf8 s => convertString validUtf8 s
  | .null => .unset
  | .undef => .unset

def toValues : List (Key × Zval) → List AnyValue
  | [] => []
  | (_, v) :: rest => if v.isUndef then toValues rest else v.toAnyValue :: toValues rest

def toKeyValues : List (Key × Zval) → List KeyValue
  | [] => []
  | (k, v) :: rest => if v.isUndef then toKeyValues rest else (k.text, v.toAnyValue) :: toKeyValues rest

end

/-- The key is a string. -/
def Key.IsStr (k : Key) : Prop := ∃ s, k = .str s

/-- In every array the counters are equal exactly for a list, and what is no list has string keys only. -/
inductive Preserved : Zval → Prop
  | undef : Preserved .undef
  | null : Preserved .null
  | bool (b : Bool) : Preserved (.bool b)
  | long (n : Int64) : Preserved (.long n)
  | double (bits : UInt64) : Preserved (.double bits)
  | string (validUtf8 : Bool) (s : Str) : Preserved (.string validUtf8 s)
  | list {next : Int64} {arData : List (Key × Zval)} : IsList (Zval.elements arData) →
      isSimpleArray next arData = true → (∀ e ∈ Zval.elements arData, Preserved e.2) → Preserved (.array next arData)
  | map {next : Int64} {arData : List (Key × Zval)} : ¬ IsList (Zval.elements arData) →
      isSimpleArray next arData = false → (∀ e ∈ Zval.elements arData, e.1.IsStr) →
      (∀ e ∈ Zval.elements arData, Preserved e.2) → Preserved (.array next arData)

/-! ## The loops as maps -/

theorem convertValues_eq (arData : List (Key × Zval)) :
    convertValues arData = (Zval.elements arData).map fun e => convertAnyValue e.2 := by
  induction arData with
  | nil => rfl
  | cons e rest ih =>
    rw [convertValues, ih, Zval.elements, Zval.elements]
    cases hv : e.2.isUndef <;> simp [hv]

/-- The entry of an element. -/
def convertEntry (e : Key × Zval) : Option KeyValue :=
  match e.1 with
  | .str s => some (s, convertAnyValue e.2)
  | .num _ => none

theorem convertEntries_eq (arData : List (Key × Zval)) :
    convertEntries arData = (Zval.elements arData).filterMap convertEntry := by
  induction arData with
  | nil => rfl
  | cons e rest ih =>
    obtain ⟨k, v⟩ := e
    cases k with
    | str s =>
      rw [convertEntries, ih, Zval.elements, Zval.elements]
      cases hv : v.isUndef <;> simp [hv, convertEntry]
    | num h =>
      rw [convertEntries, ih, Zval.elements, Zval.elements]
      cases hv : v.isUndef with
      | true => rw [List.filter_cons_of_neg (by simp [hv])]
      | false => rw [List.filter_cons_of_pos (by simp [hv]), List.filterMap_cons_none rfl]

theorem toValues_eq (arData : List (Key × Zval)) :
    toValues arData = (Zval.elements arData).map fun e => e.2.toAnyValue := by
  induction arData with
  | nil => rfl
  | cons e rest ih =>
    rw [toValues, ih, Zval.elements, Zval.elements]
    cases hv : e.2.isUndef <;> simp [hv]

theorem toKeyValues_eq (arData : List (Key × Zval)) :
    toKeyValues arData = (Zval.elements arData).map fun e => (e.1.text, e.2.toAnyValue) := by
  induction arData with
  | nil => rfl
  | cons e rest ih =>
    rw [toKeyValues, ih, Zval.elements, Zval.elements]
    cases hv : e.2.isUndef <;> simp [hv]

/-! ## When nothing is lost -/

/-- A `filterMap` that drops nothing. -/
theorem filterMap_eq_map_iff {α β : Type} {f : α → Option β} {g : α → β} {l : List α} :
    l.filterMap f = l.map g ↔ ∀ a ∈ l, f a = some (g a) := by
  induction l with
  | nil => simp
  | cons a l ih =>
    rw [List.forall_mem_cons]
    cases hf : f a with
    | none =>
      rw [List.filterMap_cons_none hf]
      refine iff_of_false (fun h => ?_) fun h => by cases h.1
      have hlen := congrArg List.length h
      rw [List.length_map, List.length_cons] at hlen
      have := List.length_filterMap_le f l
      omega
    | some b => rw [List.filterMap_cons_some hf, List.map_cons, List.cons.injEq, ih, Option.some.injEq]

/-- The entry of an element is the entry without loss. -/
theorem convertEntry_eq_iff {e : Key × Zval} : convertEntry e = some (e.1.text, e.2.toAnyValue) ↔
    e.1.IsStr ∧ convertAnyValue e.2 = e.2.toAnyValue := by
  obtain ⟨k, v⟩ := e
  cases k with
  | str s => simp [convertEntry, Key.text, Key.IsStr]
  | num h => simp [convertEntry, Key.IsStr]

theorem convertEntries_eq_iff {arData : List (Key × Zval)} : convertEntries arData = toKeyValues arData ↔
    ∀ e ∈ Zval.elements arData, e.1.IsStr ∧ convertAnyValue e.2 = e.2.toAnyValue := by
  rw [convertEntries_eq, toKeyValues_eq, filterMap_eq_map_iff]
  exact forall₂_congr fun e _ => convertEntry_eq_iff

theorem convertAnyValue_eq_iff (v : Zval) : convertAnyValue v = v.toAnyValue ↔ Preserved v := by
  induction v using Zval.induct with
  | undef => exact iff_of_true rfl .undef
  | null => exact iff_of_true rfl .null
  | bool b => exact iff_of_true rfl (.bool b)
  | long n => exact iff_of_true rfl (.long n)
  | double bits => exact iff_of_true rfl (.double bits)
  | string u s => exact iff_of_true rfl (.string u s)
  | array next arData ih =>
    have ih' : ∀ e ∈ Zval.elements arData, (convertAnyValue e.2 = e.2.toAnyValue ↔ Preserved e.2) := fun e he =>
      ih e (Zval.mem_elements.mp he).1
    rw [convertAnyValue, Zval.toAnyValue]
    by_cases hlist : IsList (Zval.elements arData)
    · rw [if_pos hlist]
      cases hsimple : isSimpleArray next arData with
      | true =>
        rw [if_pos rfl, AnyValue.arrayValue.injEq, convertValues_eq, toValues_eq, List.map_inj_left]
        constructor
        · intro h
          exact .list hlist hsimple fun e he => (ih' e he).mp (h e he)
        · intro h e he
          cases h with
          | list _ _ hall => exact (ih' e he).mpr (hall e he)
          | map hno _ _ _ => exact absurd hlist hno
      | false =>
        rw [if_neg Bool.false_ne_true]
        refine iff_of_false (fun h => by cases h) fun h => ?_
        cases h with
        | list _ hs _ => exact Bool.noConfusion (hs.symm.trans hsimple)
        | map hno _ _ _ => exact absurd hlist hno
    · rw [if_neg hlist]
      cases hsimple : isSimpleArray next arData with
      | true =>
        rw [if_pos rfl]
        refine iff_of_false (fun h => by cases h) fun h => ?_
        cases h with
        | list hl _ _ => exact hlist hl
        | map _ hs _ _ => exact Bool.noConfusion (hs.symm.trans hsimple)
      | false =>
        rw [if_neg Bool.false_ne_true, AnyValue.kvlistValue.injEq, convertEntries_eq_iff]
        constructor
        · intro h
          exact .map hlist hsimple (fun e he => (h e he).1) fun e he => (ih' e he).mp (h e he).2
        · intro h e he
          cases h with
          | list hl _ _ => exact absurd hl hlist
          | map _ _ hstr hall => exact ⟨hstr e he, (ih' e he).mpr (hall e he)⟩

/-- An array built by adding elements is preserved when it is a list, or has string keys only and is not empty; an empty
one only where the counter starts at `0`. -/
theorem preserved_ofElements_iff {next₀ : Int64} (h₀ : next₀.toInt ≤ 0) {l : List (Key × Zval)}
    (hdef : ∀ e ∈ l, e.2.isUndef = false) (hlen : l.length < 2 ^ 63) :
    Preserved (.ofElements next₀ l) ↔
      (∀ e ∈ l, Preserved e.2) ∧ (if l = [] then next₀ = 0 else IsList l ∨ ∀ e ∈ l, e.1.IsStr) := by
  have hel : Zval.elements l = l := List.filter_eq_self.mpr fun e he => by rw [hdef e he]; rfl
  rw [Zval.ofElements]
  have hsimple {next : Int64} : isSimpleArray next l = true ↔ (l.length : ℤ) = next.toInt := by
    rw [isSimpleArray, decide_eq_true_eq, nNumOfElements, hel]
  constructor
  · intro h
    generalize hnext : (l.map Prod.fst).foldl nextFree next₀ = next at h
    cases h with
    | list hlist hs hall =>
      rw [hel] at hlist hall
      refine ⟨hall, ?_⟩
      split
      · next hnil =>
        subst hnil
        have hzero : next.toInt = 0 := (hsimple.mp hs).symm
        exact hnext.trans (Int64.toInt_inj.mp hzero)
      · exact .inl hlist
    | map hno _ hstr hall =>
      rw [hel] at hno hstr hall
      refine ⟨hall, ?_⟩
      split
      · next hnil => exact absurd (hnil ▸ rfl) hno
      · exact .inr hstr
  · rintro ⟨hall, hif⟩
    by_cases hlist : IsList l
    · refine .list (hel.symm ▸ hlist) (hsimple.mpr ?_) (hel.symm ▸ hall)
      split at hif
      · next hnil =>
        subst hnil hif
        rfl
      · next hnil =>
        rw [show l.map Prod.fst = _ from hlist, foldl_nextFree_range h₀ hlen (List.length_pos_iff.mpr hnil)]
    · split at hif
      · next hnil => exact absurd (hnil ▸ rfl) hlist
      · next hnil =>
        have hstr := hif.resolve_left hlist
        refine .map (hel.symm ▸ hlist) (Bool.eq_false_iff.mpr fun hs => ?_) (hel.symm ▸ hstr) (hel.symm ▸ hall)
        -- the counter never moved, so it is not positive
        rw [hsimple, foldl_nextFree_str fun k hk => by
          obtain ⟨e, he, rfl⟩ := List.mem_map.mp hk
          exact hstr e he] at hs
        have := List.length_pos_iff.mpr hnil
        omega

end OtelDistro.Otlp
