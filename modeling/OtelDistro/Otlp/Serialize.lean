import OtelDistro.Lib.SelfDelimiting
import OtelDistro.Otlp.PhpValue

/-!
# OtelDistro.Otlp.Serialize — PHP's `serialize`

The converters only use that no text of `serialize` is the beginning of another one (`Serializer`).
`phpSerializer` is the format of PHP: `N;`, `b:1;`, `i:5;`, `d:0.5;`, `s:3:"abc";`, `a:2:{…}`; how a `double` is written is a
parameter.
-/

namespace OtelDistro.Otlp

open Lib

/-- The function `serialize`. -/
structure Serializer where
  serialize : PhpValue → Str
  selfDelimiting : SelfDelimiting serialize

/-! ## Decimal numbers -/

theorem lit_eq_map (s : String) : lit s = s.toList.map fun c => c.toNat.toUInt8 := rfl

theorem toNat_of_isDigit {c : Char} (h : c.isDigit = true) : 48 ≤ c.toNat ∧ c.toNat ≤ 57 := by
  rw [Char.isDigit, Bool.and_eq_true, decide_eq_true_eq, decide_eq_true_eq] at h
  exact ⟨UInt32.le_iff_toNat_le.mp h.1, UInt32.le_iff_toNat_le.mp h.2⟩

/-- The characters of an integer. -/
theorem toList_toString (n : ℤ) : (toString n).toList = if n < 0 then '-' :: Nat.toDigits 10 n.natAbs else
    Nat.toDigits 10 n.natAbs := by
  cases n with
  | ofNat m =>
    rw [if_neg (show ¬ Int.ofNat m < 0 from Int.not_lt.mpr (Int.natCast_nonneg m))]
    exact Nat.toList_repr
  | negSucc m =>
    rw [if_pos (Int.negSucc_lt_zero m)]
    show ("-" ++ (m + 1).repr).toList = _
    rw [String.toList_append, Nat.toList_repr]
    rfl

theorem toNat_of_mem_toString {n : ℤ} {c : Char} (h : c ∈ (toString n).toList) :
    c = '-' ∨ 48 ≤ c.toNat ∧ c.toNat ≤ 57 := by
  have hdigit : c ∈ Nat.toDigits 10 n.natAbs → 48 ≤ c.toNat ∧ c.toNat ≤ 57 := fun hc =>
    toNat_of_isDigit (Nat.isDigit_of_mem_toDigits (by omega) (by omega) hc)
  rw [toList_toString] at h
  split at h
  · rcases List.mem_cons.mp h with rfl | h
    · exact .inl rfl
    · exact .inr (hdigit h)
  · exact .inr (hdigit h)

theorem toString_int_injective {m n : ℤ} (h : (toString m).toList = (toString n).toList) : m = n := by
  have habs {k l : ℕ} (h : Nat.toDigits 10 k = Nat.toDigits 10 l) : k = l := by
    have := congrArg (Nat.ofDigitChars 10 · 0) h
    simpa only [Nat.ofDigitChars_ten_toDigits] using this
  have hsign {k l : ℕ} : '-' :: Nat.toDigits 10 k ≠ Nat.toDigits 10 l := by
    intro h
    have hmem : '-' ∈ Nat.toDigits 10 l := h ▸ List.mem_cons_self
    have := toNat_of_isDigit (Nat.isDigit_of_mem_toDigits (by omega) (by omega) hmem)
    revert this
    decide
  rw [toList_toString, toList_toString] at h
  split at h <;> split at h
  · have := habs (List.cons.inj h).2
    omega
  · exact absurd h hsign
  · exact absurd h.symm hsign
  · have := habs h
    omega

theorem toNat_toUInt8_of_mem {n : ℤ} {c : Char} (h : c ∈ (toString n).toList) :
    c.toNat.toUInt8.toNat = c.toNat := by
  refine UInt8.toNat_ofNat_of_lt' ?_
  rcases toNat_of_mem_toString h with rfl | h
  · decide
  · exact Nat.lt_of_le_of_lt h.2 (by decide)

theorem decimal_injective {m n : ℤ} (h : decimal m = decimal n) : m = n := by
  have hback (k : ℤ) : (decimal k).map (fun b => Char.ofNat b.toNat) = (toString k).toList := by
    rw [decimal, lit_eq_map, List.map_map]
    refine (List.map_congr_left fun c hc => ?_).trans (List.map_id _)
    rw [Function.comp_apply, toNat_toUInt8_of_mem hc, Char.ofNat_toNat, id]
  exact toString_int_injective (by rw [← hback m, ← hback n, h])

/-- Neither `:` nor `;` is in a number. -/
theorem notMem_decimal {b : UInt8} (hb : 57 < b.toNat) (n : ℤ) : b ∉ decimal n := by
  rw [decimal, lit_eq_map, List.mem_map]
  rintro ⟨c, hc, rfl⟩
  rw [toNat_toUInt8_of_mem hc] at hb
  rcases toNat_of_mem_toString hc with rfl | h
  · exact absurd hb (by decide)
  · omega

/-- A number up to its terminator. -/
theorem decimal_cons_inj {m n : ℤ} {b : UInt8} (hb : 57 < b.toNat) {t u : Str}
    (h : decimal m ++ b :: t = decimal n ++ b :: u) : m = n ∧ t = u := by
  obtain ⟨hmn, htu⟩ := cons_inj_of_notMem (notMem_decimal hb m) (notMem_decimal hb n) h
  exact ⟨decimal_injective hmn, htu⟩

/-! ## The format -/

section

variable (doubleText : UInt64 → Str)

def serializeString (s : Str) : Str := lit "s:" ++ decimal s.length ++ lit ":\"" ++ s ++ lit "\";"

def serializeKey : Key → Str
  | .str s => serializeString s
  | .num h => lit "i:" ++ decimal h.toInt ++ lit ";"

mutual

def serialize : PhpValue → Str
  | .null => lit "N;"
  | .bool b => lit "b:" ++ lit (if b then "1" else "0") ++ lit ";"
  | .long n => lit "i:" ++ decimal n.toInt ++ lit ";"
  | .double bits => lit "d:" ++ doubleText bits ++ lit ";"
  | .string s => serializeString s
  | .array elements => lit "a:" ++ decimal elements.length ++ lit ":\x7b" ++ serializeElements elements ++ lit "\x7d"

def serializeElements : List (Key × PhpValue) → Str
  | [] => []
  | (k, v) :: rest => serializeKey k ++ serialize v ++ serializeElements rest

end

/-! ## Where a text ends -/

theorem serializeString_inj {s s' t u : Str} (h : serializeString s ++ t = serializeString s' ++ u) :
    s = s' ∧ t = u := by
  simp only [serializeString, List.append_assoc] at h
  obtain ⟨hlen, htail⟩ := decimal_cons_inj (b := 58) (by decide) (List.append_cancel_left h)
  have hrest : s ++ (lit "\";" ++ t) = s' ++ (lit "\";" ++ u) := (List.cons.inj htail).2
  obtain ⟨hs, hend⟩ := List.append_inj hrest (Int.ofNat.inj hlen)
  exact ⟨hs, List.append_cancel_left hend⟩

theorem serializeInt_inj {m n : Int64} {t u : Str}
    (h : lit "i:" ++ decimal m.toInt ++ lit ";" ++ t = lit "i:" ++ decimal n.toInt ++ lit ";" ++ u) :
    m = n ∧ t = u := by
  simp only [List.append_assoc] at h
  obtain ⟨hmn, ht⟩ := decimal_cons_inj (b := 59) (by decide) (List.append_cancel_left h)
  exact ⟨Int64.toInt_inj.mp hmn, ht⟩

theorem serializeKey_inj {k k' : Key} {t u : Str} (h : serializeKey k ++ t = serializeKey k' ++ u) :
    k = k' ∧ t = u := by
  cases k with
  | str s =>
    cases k' with
    | str s' =>
      obtain ⟨rfl, ht⟩ := serializeString_inj h
      exact ⟨rfl, ht⟩
    | num n => exact absurd (congrArg List.head? h) (by simp [serializeKey, serializeString, lit])
  | num m =>
    cases k' with
    | str s' => exact absurd (congrArg List.head? h) (by simp [serializeKey, serializeString, lit])
    | num n =>
      obtain ⟨rfl, ht⟩ := serializeInt_inj h
      exact ⟨rfl, ht⟩

/-- The first letter. -/
def PhpValue.tag : PhpValue → UInt8
  | .null => 78
  | .bool _ => 98
  | .long _ => 105
  | .double _ => 100
  | .string _ => 115
  | .array _ => 97

theorem head?_serialize (v : PhpValue) (t : Str) : (serialize doubleText v ++ t).head? = some v.tag := by
  cases v with
  | null => rfl
  | bool b => rfl
  | long n => rfl
  | double bits => rfl
  | string s => rfl
  | array elements => rfl

theorem serializeElements_eq (elements : List (Key × PhpValue)) : serializeElements doubleText elements =
    elements.flatMap fun e => serializeKey e.1 ++ serialize doubleText e.2 := by
  induction elements with
  | nil => rfl
  | cons e rest ih => rw [serializeElements, ih, List.flatMap_cons]

variable {doubleText}

theorem selfDelimiting_serialize (hinj : Function.Injective doubleText) (hend : ∀ bits, 59 ∉ doubleText bits) :
    SelfDelimiting (serialize doubleText) := by
  suffices hboth : ∀ v w t u, serialize doubleText v ++ t = serialize doubleText w ++ u → v = w ∧ t = u from
    fun v w t u h => (hboth v w t u h).1
  have htag {v w : PhpValue} {t u : Str} (h : serialize doubleText v ++ t = serialize doubleText w ++ u) :
      v.tag = w.tag := by
    have hhead := congrArg List.head? h
    rwa [head?_serialize, head?_serialize, Option.some.injEq] at hhead
  intro v
  induction v using PhpValue.induct with
  | null =>
    intro w t u h
    cases w with
    | null => exact ⟨rfl, List.append_cancel_left h⟩
    | _ => exact absurd (htag h) (by simp [PhpValue.tag])
  | bool b =>
    intro w t u h
    cases w with
    | bool b' =>
      simp only [serialize, List.append_assoc] at h
      have hb := List.append_cancel_left h
      cases b <;> cases b' <;> simp_all [lit]
    | _ => exact absurd (htag h) (by simp [PhpValue.tag])
  | long n =>
    intro w t u h
    cases w with
    | long n' =>
      obtain ⟨rfl, ht⟩ := serializeInt_inj h
      exact ⟨rfl, ht⟩
    | _ => exact absurd (htag h) (by simp [PhpValue.tag])
  | double bits =>
    intro w t u h
    cases w with
    | double bits' =>
      simp only [serialize, List.append_assoc] at h
      obtain ⟨hbits, ht⟩ := cons_inj_of_notMem (hend bits) (hend bits') (List.append_cancel_left h)
      exact ⟨congrArg _ (hinj hbits), ht⟩
    | _ => exact absurd (htag h) (by simp [PhpValue.tag])
  | string s =>
    intro w t u h
    cases w with
    | string s' =>
      obtain ⟨rfl, ht⟩ := serializeString_inj h
      exact ⟨rfl, ht⟩
    | _ => exact absurd (htag h) (by simp [PhpValue.tag])
  | array elements ih =>
    intro w t u h
    cases w with
    | array elements' =>
      simp only [serialize, List.append_assoc, serializeElements_eq] at h
      obtain ⟨hlen, htail⟩ := decimal_cons_inj (b := 58) (by decide) (List.append_cancel_left h)
      -- the count tells where the elements end
      obtain ⟨rfl, hclose⟩ := flatMap_inj (fun e he e' t u heq => by
        rw [List.append_assoc, List.append_assoc] at heq
        obtain ⟨hkey, hvalue⟩ := serializeKey_inj heq
        obtain ⟨hv, ht⟩ := ih e he e'.2 t u hvalue
        exact ⟨Prod.ext hkey hv, ht⟩) (Int.ofNat.inj hlen) (List.cons.inj htail).2
      exact ⟨rfl, List.append_cancel_left hclose⟩
    | _ => exact absurd (htag h) (by simp [PhpValue.tag])

/-- The function as PHP has it. -/
def phpSerializer (hinj : Function.Injective doubleText) (hend : ∀ bits, 59 ∉ doubleText bits) : Serializer :=
  ⟨serialize doubleText, selfDelimiting_serialize hinj hend⟩

/-- The function as PHP has it, but for doubles, which are written as their bits. -/
def bitsSerializer : Serializer :=
  @phpSerializer (fun bits => decimal bits.toNat)
    (fun _ _ h => UInt64.toNat_inj.mp (Int.ofNat.inj (decimal_injective h))) fun _ => notMem_decimal (by decide) _

end

end OtelDistro.Otlp
