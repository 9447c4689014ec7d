import OtelDistro.Otlp.AttributesConverter

/-!
# OtelDistro.Otlp.PhpValue — the values that PHP code sees

Two arrays with the same elements in the same order are the same value, whatever their buckets and counters.

* `Zval.value`, `AnyValue.recover`: the value of a `zval`, and the value a receiver reads from an `AnyValue`.
* `recover_convertAnyValue_iff`: the values that survive the conversion (`Recoverable`).
-/

namespace OtelDistro.Otlp

inductive PhpValue
  | null
  | bool (b : Bool)
  | long (n : Int64)
  | double (bits : UInt64)
  | string (s : Str)
  | array (elements : List (Key × PhpValue))

namespace PhpValue

/-- Induction over a value and its elements. -/
theorem induct {P : PhpValue → Prop} (null : P .null) (bool : ∀ b, P (.bool b)) (long : ∀ n, P (.long n))
    (double : ∀ d, P (.double d)) (string : ∀ s, P (.string s))
    (array : ∀ elements, (∀ e ∈ elements, P e.2) → P (.array elements)) (v : PhpValue) : P v :=
  @PhpValue.rec P (fun l => ∀ e ∈ l, P e.2) (fun e => P e.2) null bool long double string array
    (fun _ he => absurd he List.not_mem_nil)
    (fun _ _ head tail e he => (List.mem_cons.mp he).elim (fun h => h ▸ head) (tail e)) (fun _ _ h => h) v

/-- The keys of a list. -/
def listKeys (n : ℕ) : List Key := (List.range n).map fun i => Key.num (Int64.ofNat i)

/-- The array with the keys `0, 1, 2, …`. -/
def ofList (values : List PhpValue) : PhpValue := .array ((listKeys values.length).zip values)

theorem ofList_inj {l l' : List PhpValue} : ofList l = ofList l' ↔ l = l' := by
  have hsnd (l : List PhpValue) : ((listKeys l.length).zip l).map Prod.snd = l :=
    List.map_snd_zip (by rw [listKeys, List.length_map, List.length_range])
  rw [ofList, ofList, PhpValue.array.injEq]
  constructor
  · intro h
    rw [← hsnd l, h, hsnd]
  · rintro rfl
    rfl

end PhpValue

/-! ## Values of `zval`s -/

mutual

def Zval.value : Zval → PhpValue
  | .undef => .null
  | .null => .null
  | .bool b => .bool b
  | .long n => .long n
  | .double bits => .double bits
  | .string _ s => .string s
  | .array _ arData => .array (valueElements arData)

/-- The elements of a hash table, as values. -/
def valueElements : List (Key × Zval) → List (Key × PhpValue)
  | [] => []
  | (k, v) :: rest => if v.isUndef then valueElements rest else (k, v.value) :: valueElements rest

end

theorem valueElements_eq (arData : List (Key × Zval)) :
    valueElements arData = (Zval.elements arData).map fun e => (e.1, e.2.value) := by
  induction arData with
  | nil => rfl
  | cons e rest ih =>
    rw [valueElements, ih, Zval.elements, Zval.elements]
    cases hv : e.2.isUndef <;> simp [hv]

/-! ## Values of the protocol -/

mutual

/-- A receiver reads a list as an array with the keys `0, 1, 2, …`. -/
def AnyValue.recover : AnyValue → PhpValue
  | .unset => .null
  | .stringValue s => .string s
  | .boolValue b => .bool b
  | .intValue n => .long n
  | .doubleValue bits => .double bits
  | .arrayValue values => .ofList (recoverValues values)
  | .kvlistValue values => .array (recoverEntries values)
  | .bytesValue s => .string s

def recoverValues : List AnyValue → List PhpValue
  | [] => []
  | v :: rest => v.recover :: recoverValues rest

def recoverEntries : List KeyValue → List (Key × PhpValue)
  | [] => []
  | (k, v) :: rest => (.str k, v.recover) :: recoverEntries rest

end

theorem recoverValues_eq (values : List AnyValue) : recoverValues values = values.map AnyValue.recover := by
  induction values with
  | nil => rfl
  | cons v rest ih => rw [recoverValues, ih, List.map_cons]

theorem recoverEntries_eq (values : List KeyValue) :
    recoverEntries values = values.map fun kv => (Key.str kv.1, kv.2.recover) := by
  induction values with
  | nil => rfl
  | cons v rest ih => rw [recoverEntries, ih, List.map_cons]

/-! ## Values that survive the conversion -/

/-- Every array with elements is a list and its counters are equal, or it has string keys only and they differ. -/
inductive Recoverable : Zval → Prop
  | undef : Recoverable .undef
  | null : Recoverable .null
  | bool (b : Bool) : Recoverable (.bool b)
  | long (n : Int64) : Recoverable (.long n)
  | double (bits : UInt64) : Recoverable (.double bits)
  | string (validUtf8 : Bool) (s : Str) : Recoverable (.string validUtf8 s)
  | list {next : Int64} {arData : List (Key × Zval)} : IsList (Zval.elements arData) →
      isSimpleArray next arData = true → (∀ e ∈ Zval.elements arData, Recoverable e.2) → Recoverable (.array next arData)
  | map {next : Int64} {arData : List (Key × Zval)} : isSimpleArray next arData = false →
      (∀ e ∈ Zval.elements arData, e.1.IsStr) → (∀ e ∈ Zval.elements arData, Recoverable e.2) →
      Recoverable (.array next arData)

theorem recover_convertString (validUtf8 : Bool) (s : Str) : (convertString validUtf8 s).recover = .string s := by
  rw [convertString]
  split <;> rfl

/-- The elements of a list of pairs are those of two lists. -/
theorem zip_eq_map_iff {α β γ δ : Type} {ks : List α} {xs : List β} {l : List γ} {f : γ → α} {g : γ → δ} {r : β → δ}
    (hx : xs.length = l.length) (hk : ks.length = l.length) :
    ks.zip (xs.map r) = l.map (fun e => (f e, g e)) ↔ l.map f = ks ∧ xs.map r = l.map g := by
  constructor
  · intro h
    constructor
    · have := congrArg (List.map Prod.fst) h
      rw [List.map_fst_zip (by simp [hx, hk]), List.map_map] at this
      exact this.symm
    · have := congrArg (List.map Prod.snd) h
      rwa [List.map_snd_zip (by simp [hx, hk]), List.map_map] at this
  · rintro ⟨hf, hg⟩
    rw [hg, ← hf, List.zip_map']

/-- An entry gives the element back. -/
theorem recover_convertEntry_iff {e : Key × Zval} :
    (convertEntry e).map (fun kv => (Key.str kv.1, kv.2.recover)) = some (e.1, e.2.value) ↔
      e.1.IsStr ∧ (convertAnyValue e.2).recover = e.2.value := by
  obtain ⟨k, v⟩ := e
  cases k with
  | str s => simp [convertEntry, Key.IsStr]
  | num h => simp [convertEntry, Key.IsStr]

theorem recover_convertEntries_iff {arData : List (Key × Zval)} :
    recoverEntries (convertEntries arData) = valueElements arData ↔
      ∀ e ∈ Zval.elements arData, e.1.IsStr ∧ (convertAnyValue e.2).recover = e.2.value := by
  rw [recoverEntries_eq, convertEntries_eq, valueElements_eq, List.map_filterMap, filterMap_eq_map_iff]
  exact forall₂_congr fun e _ => recover_convertEntry_iff

/-- The values that survive. -/
theorem recover_convertAnyValue_iff (v : Zval) : (convertAnyValue v).recover = v.value ↔ Recoverable v := by
  induction v using Zval.induct with
  | undef => exact iff_of_true rfl .undef
  | null => exact iff_of_true rfl .null
  | bool b => exact iff_of_true rfl (.bool b)
  | long n => exact iff_of_true rfl (.long n)
  | double bits => exact iff_of_true rfl (.double bits)
  | string u s => exact iff_of_true (recover_convertString u s) (.string u s)
  | array next arData ih =>
    have ih' : ∀ e ∈ Zval.elements arData, ((convertAnyValue e.2).recover = e.2.value ↔ Recoverable e.2) :=
      fun e he => ih e (Zval.mem_elements.mp he).1
    rw [convertAnyValue, Zval.value]
    cases hsimple : isSimpleArray next arData with
    | true =>
      have hlen : (convertValues arData).length = (Zval.elements arData).length := by
        rw [convertValues_eq, List.length_map]
      rw [if_pos rfl, AnyValue.recover, PhpValue.ofList, PhpValue.array.injEq, recoverValues_eq, valueElements_eq,
        List.length_map, zip_eq_map_iff hlen (by rw [PhpValue.listKeys, List.length_map, List.length_range, hlen]), hlen,
        convertValues_eq, List.map_map, List.map_inj_left]
      constructor
      · rintro ⟨hkeys, hvalues⟩
        exact .list hkeys hsimple fun e he => (ih' e he).mp (hvalues e he)
      · intro h
        cases h with
        | list hlist _ hall => exact ⟨hlist, fun e he => (ih' e he).mpr (hall e he)⟩
        | map hs _ _ => exact Bool.noConfusion (hs.symm.trans hsimple)
    | false =>
      rw [if_neg Bool.false_ne_true, AnyValue.recover, PhpValue.array.injEq, recover_convertEntries_iff]
      constructor
      · intro h
        exact .map hsimple (fun e he => (h e he).1) fun e he => (ih' e he).mp (h e he).2
      · intro h e he
        cases h with
        | list _ hs _ => exact Bool.noConfusion (hs.symm.trans hsimple)
        | map _ hstr hall => exact ⟨hstr e he, (ih' e he).mpr (hall e he)⟩

/-- The elements that survive as entries. -/
theorem recover_entries_iff {arData : List (Key × Zval)} :
    recoverEntries (convertEntries arData) = valueElements arData ↔
      ∀ e ∈ Zval.elements arData, e.1.IsStr ∧ Recoverable e.2 :=
  recover_convertEntries_iff.trans
    (forall₂_congr fun e _ => and_congr_right fun _ => recover_convertAnyValue_iff e.2)

end OtelDistro.Otlp
