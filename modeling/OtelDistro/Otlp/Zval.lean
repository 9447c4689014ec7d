import OtelDistro.Bytes

/-!
# OtelDistro.Otlp.Zval — PHP values as the native part sees them

A value is a `zval`; an array is a hash table.  Of a hash table the converters see its buckets, in order, and two counters:
`nNumOfElements` and `nNextFreeElement`, the key the next append would get.  The bucket of a deleted element stays
behind with an undefined value, and the iterators skip it (`moveToValid`).

* `Zval.elements`: the elements of a list of buckets.
* `Key.text`: a key as text, integer keys in decimal.
* `IsList`: the keys are `0, 1, 2, …` in order.
* `Zval.ofElements`: the array that adding elements to an empty one gives.
-/

namespace OtelDistro.Otlp

/-- A key of a hash table, a string or a `zend_long`. -/
inductive Key
  | str (s : Str)
  | num (h : Int64)
  deriving DecidableEq

/-- Decimal digits. -/
def decimal (n : ℤ) : Str := lit (toString n)

def Key.text : Key → Str
  | .str s => s
  | .num h => decimal h.toInt

/-- A value without objects, resources and references.  A string carries the flag `IS_STR_VALID_UTF8`, a double its 64 bits. -/
inductive Zval
  | undef
  | null
  | bool (b : Bool)
  | long (n : Int64)
  | double (bits : UInt64)
  | string (validUtf8 : Bool) (s : Str)
  | array (nNextFreeElement : Int64) (arData : List (Key × Zval))

namespace Zval

/-- Induction over a value and the values in its buckets. -/
theorem induct {P : Zval → Prop} (undef : P .undef) (null : P .null) (bool : ∀ b, P (.bool b)) (long : ∀ n, P (.long n))
    (double : ∀ d, P (.double d)) (string : ∀ u s, P (.string u s))
    (array : ∀ next arData, (∀ e ∈ arData, P e.2) → P (.array next arData)) (v : Zval) : P v :=
  @Zval.rec P (fun l => ∀ e ∈ l, P e.2) (fun e => P e.2) undef null bool long double string array
    (fun _ he => absurd he List.not_mem_nil)
    (fun _ _ head tail e he => (List.mem_cons.mp he).elim (fun h => h ▸ head) (tail e)) (fun _ _ h => h) v

/-- `Z_ISUNDEF_P` -/
def isUndef : Zval → Bool
  | .undef => true
  | _ => false

/-- The elements of a hash table. -/
def elements (arData : List (Key × Zval)) : List (Key × Zval) := arData.filter (fun e => !e.2.isUndef)

@[simp] theorem elements_nil : elements [] = [] := rfl

theorem mem_elements {arData : List (Key × Zval)} {e : Key × Zval} :
    e ∈ elements arData ↔ e ∈ arData ∧ e.2.isUndef = false := by
  rw [elements, List.mem_filter, Bool.not_eq_true']

end Zval

/-- `nNumOfElements` -/
def nNumOfElements (arData : List (Key × Zval)) : ℕ := (Zval.elements arData).length

/-- The keys are `0, …, n - 1` in order. -/
def IsList {V : Type} (elements : List (Key × V)) : Prop :=
  elements.map Prod.fst = (List.range elements.length).map fun i => Key.num (Int64.ofNat i)

instance {V : Type} (elements : List (Key × V)) : Decidable (IsList elements) :=
  inferInstanceAs (Decidable (elements.map Prod.fst = _))

/-! ## Arrays as they are built -/

/-- `nNextFreeElement` after an element with a new key. -/
def nextFree (next : Int64) : Key → Int64
  | .str _ => next
  | .num h => if next ≤ h then (if h < Int64.maxValue then h + 1 else Int64.maxValue) else next

/-- Adding elements to an empty array; `next₀` is the counter of an empty array, `0` or (from PHP 8.3 on) the least
`zend_long`. -/
def Zval.ofElements (next₀ : Int64) (l : List (Key × Zval)) : Zval :=
  .array ((l.map Prod.fst).foldl nextFree next₀) l

theorem nextFree_toInt {next : Int64} {n : ℕ} (hn : n < 2 ^ 63 - 1) (h : next.toInt ≤ n) :
    (nextFree next (.num (Int64.ofNat n))).toInt = n + 1 := by
  have hof : (Int64.ofNat n).toInt = n := Int64.toInt_ofNat_of_lt (by omega)
  have hle : next ≤ Int64.ofNat n := by rw [Int64.le_iff_toInt_le, hof]; exact h
  have hlt : Int64.ofNat n < Int64.maxValue := by
    rw [Int64.lt_iff_toInt_lt, hof, Int64.toInt_maxValue]
    omega
  rw [nextFree, if_pos hle, if_pos hlt, show Int64.ofNat n + 1 = Int64.ofNat (n + 1) by rw [Int64.ofNat_add]; rfl,
    Int64.toInt_ofNat_of_lt (by omega)]
  rfl

/-- Appending `n` elements to an empty array. -/
theorem foldl_nextFree_range {next₀ : Int64} (h₀ : next₀.toInt ≤ 0) {n : ℕ} (hn : n < 2 ^ 63) (hpos : 0 < n) :
    (((List.range n).map fun i => Key.num (Int64.ofNat i)).foldl nextFree next₀).toInt = n := by
  induction n with
  | zero => exact absurd hpos (Nat.lt_irrefl 0)
  | succ n ih =>
    rw [List.range_succ, List.map_append, List.foldl_append]
    refine nextFree_toInt (by omega) ?_
    rcases Nat.eq_zero_or_pos n with rfl | hn0
    · exact h₀
    · exact Int.le_of_eq (ih (by omega) hn0)

theorem foldl_nextFree_str {next : Int64} {keys : List Key} (h : ∀ k ∈ keys, ∃ s, k = .str s) :
    keys.foldl nextFree next = next := by
  induction keys with
  | nil => rfl
  | cons k keys ih =>
    obtain ⟨s, rfl⟩ := h k List.mem_cons_self
    exact ih fun k hk => h k (List.mem_cons_of_mem _ hk)

end OtelDistro.Otlp
