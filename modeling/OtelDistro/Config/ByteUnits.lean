import OtelDistro.Config.OptionParsers
import OtelDistro.Lib.SelfDelimiting

/-!
# OtelDistro.Config.ByteUnits — sizes with a unit, as numbers

* `IsByteSize`: without its white space a text is the digits of a number and a unit, a power of 1024.
* `ParsesByteUnits`: `parseByteUnits` returns these sizes as numbers, and throws for every other text.
* `parseByteUnits_eq_ok_iff`: what it returns; `parsesByteUnits_iff`: it does so unless the product is too large for 64 bits.
-/

namespace OtelDistro.Config

open Lib

/-- `unit` stands for `1024 ^ k`. -/
def IsByteUnit (unit : Str) (k : ℕ) : Prop :=
  (unit = [] ∧ k = 0) ∨ (unit.map toLower = lit "b" ∧ k = 0) ∨ (unit.map toLower = lit "kb" ∧ k = 1) ∨
    (unit.map toLower = lit "mb" ∧ k = 2) ∨ (unit.map toLower = lit "gb" ∧ k = 3)

/-- Without white space the text is the digits of `n` and the unit `1024 ^ k`. -/
def IsByteSize (text : Str) (n k : ℕ) : Prop :=
  ∃ digits unit, withoutSpaces text = digits ++ unit ∧ digits ≠ [] ∧ (∀ c ∈ digits, isDigit c = true) ∧
    digitsValue digits = n ∧ IsByteUnit unit k

/-- Sizes are returned as numbers, everything else throws: also a size that has more than 64 bits. -/
def ParsesByteUnits (text : Str) : Prop :=
  ∀ v, parseByteUnits text = .ok v ↔ ∃ n k, IsByteSize text n k ∧ v.toNat = n * 1024 ^ k

/-- The digits fit into 64 bits, and the size does not. -/
def ByteSizeWraps (text : Str) : Prop := ∃ n k, IsByteSize text n k ∧ n < 2 ^ 64 ∧ 2 ^ 64 ≤ n * 1024 ^ k

/-! ## Reading the digits -/

section

variable {digits rest : Str}

theorem isDigit_ne_zero {c : UInt8} (h : isDigit c = true) : c ≠ 0 := by
  rintro rfl
  cases h

theorem not_isSpace_of_isDigit {c : UInt8} (h : isDigit c = true) : isSpace c = false := by
  simp only [isDigit, Bool.and_eq_true, decide_eq_true_eq, UInt8.le_iff_toNat_le] at h
  simp only [isSpace, Bool.or_eq_false_iff, Bool.and_eq_false_iff, beq_eq_false_iff_ne, ne_eq, decide_eq_false_iff_not,
    UInt8.le_iff_toNat_le, ← UInt8.toNat_inj]
  simp only [UInt8.reduceToNat] at h ⊢
  omega

theorem sign_of_isDigit {c : UInt8} (h : isDigit c = true) (s : Str) : sign (c :: s) = (false, c :: s) := by
  unfold sign
  split
  · next heq => exact absurd h (by rw [(List.cons.inj heq).1]; decide)
  · next heq => exact absurd h (by rw [(List.cons.inj heq).1]; decide)
  · rfl

/-- What is before the first NUL byte has the digits at the beginning. -/
theorem takeWhile_isDigit_cStr (s : Str) : (cStr s).takeWhile isDigit = s.takeWhile isDigit := by
  induction s with
  | nil => rfl
  | cons c s ih =>
    by_cases hc : isDigit c = true
    · have hne := isDigit_ne_zero hc
      rw [cStr, List.takeWhile_cons_of_pos (by simpa using hne), List.takeWhile_cons_of_pos hc, List.takeWhile_cons_of_pos hc,
        ← ih, cStr]
    · rw [List.takeWhile_cons_of_neg hc, cStr]
      by_cases h0 : c = 0
      · rw [List.takeWhile_cons_of_neg (by simpa using h0), List.takeWhile_nil]
      · rw [List.takeWhile_cons_of_pos (by simpa using h0), List.takeWhile_cons_of_neg hc]

/-- Digits at the beginning are the number that is read. -/
theorem readInteger_digits (hne : digits ≠ []) (hdigits : ∀ c ∈ digits, isDigit c = true) (hrest : Stops isDigit rest) :
    readInteger (cStr (digits ++ rest)) = some (false, digitsValue digits) := by
  have htake := takeWhile_isDigit_cStr (digits ++ rest)
  rw [takeWhile_of_stops hdigits hrest] at htake
  obtain ⟨c, digits, rfl⟩ := List.exists_cons_of_ne_nil hne
  have hc := hdigits c List.mem_cons_self
  obtain ⟨s, hs⟩ : ∃ s, cStr ((c :: digits) ++ rest) = c :: s :=
    ⟨_, List.takeWhile_cons_of_pos (by simpa using isDigit_ne_zero hc)⟩
  rw [hs] at htake ⊢
  rw [readInteger, List.dropWhile_cons_of_neg (by simp [not_isSpace_of_isDigit hc]), sign_of_isDigit hc]
  simp [htake]

end

/-! ## Units -/

section

variable {unit : Str}

theorem ciEq_iff {a : Str} {b : String} (hb : (lit b).map toLower = lit b) : ciEq a b = true ↔ a.map toLower = lit b := by
  rw [ciEq, hb, beq_iff_eq]

theorem le_of_toLower {c : UInt8} (h : 65 ≤ (toLower c).toNat) : 65 ≤ c.toNat := by
  unfold toLower at h
  split at h
  · next hc => exact UInt8.le_iff_toNat_le.mp hc.1
  · exact h

/-- A unit begins with a letter. -/
theorem IsByteUnit.letter {k : ℕ} (h : IsByteUnit unit k) : ∀ c ∈ unit.head?, 65 ≤ c.toNat := by
  intro c hc
  have hmap : (unit.map toLower).head? = some (toLower c) := by rw [List.head?_map, hc]; rfl
  apply le_of_toLower
  rcases h with ⟨rfl, -⟩ | ⟨h, -⟩ | ⟨h, -⟩ | ⟨h, -⟩ | ⟨h, -⟩
  · cases hc
  all_goals
    rw [h] at hmap
    rw [← Option.some.inj hmap]
    decide

theorem not_isDigit_of_letter {c : UInt8} (h : 65 ≤ c.toNat) : isDigit c = false := by
  simp only [isDigit, Bool.and_eq_false_iff, decide_eq_false_iff_not, UInt8.le_iff_toNat_le, UInt8.reduceToNat]
  omega

theorem IsByteUnit.stops {k : ℕ} (h : IsByteUnit unit k) : Stops isDigit unit :=
  fun c hc => not_isDigit_of_letter (h.letter c hc)

/-- No number begins with a letter. -/
theorem readInteger_unit {k : ℕ} (h : IsByteUnit unit k) : readInteger (cStr unit) = none := by
  cases unit with
  | nil => rfl
  | cons c unit =>
    have hc := h.letter c rfl
    have hne : c ≠ 0 := by rintro rfl; exact absurd hc (by decide)
    have hspace : isSpace c = false := by
      simp only [isSpace, Bool.or_eq_false_iff, Bool.and_eq_false_iff, beq_eq_false_iff_ne, ne_eq,
        decide_eq_false_iff_not, UInt8.le_iff_toNat_le, ← UInt8.toNat_inj, UInt8.reduceToNat]
      omega
    have hsign : sign (c :: cStr unit) = (false, c :: cStr unit) := by
      unfold sign
      split
      · next heq => exact absurd hc (by rw [(List.cons.inj heq).1]; decide)
      · next heq => exact absurd hc (by rw [(List.cons.inj heq).1]; decide)
      · rfl
    have hcStr : cStr (c :: unit) = c :: cStr unit := List.takeWhile_cons_of_pos (by simpa using hne)
    rw [hcStr, readInteger, List.dropWhile_cons_of_neg (by simp [hspace]), hsign]
    simp [List.takeWhile_cons_of_neg, not_isDigit_of_letter hc]

/-- The chain of comparisons. -/
def unitExponent (unit : Str) : Option ℕ :=
  if unit = [] then some 0
  else if ciEq unit "b" then some 0
  else if ciEq unit "kb" then some 1
  else if ciEq unit "mb" then some 2
  else if ciEq unit "gb" then some 3
  else none

theorem unitExponent_eq_some_iff {k : ℕ} : unitExponent unit = some k ↔ IsByteUnit unit k := by
  have hb := ciEq_iff (a := unit) (b := "b") rfl
  have hkb := ciEq_iff (a := unit) (b := "kb") rfl
  have hmb := ciEq_iff (a := unit) (b := "mb") rfl
  have hgb := ciEq_iff (a := unit) (b := "gb") rfl
  unfold unitExponent IsByteUnit
  simp only [hb, hkb, hmb, hgb]
  constructor
  · intro h
    split_ifs at h with h0 h1 h2 h3 h4
    · exact .inl ⟨h0, (Option.some.inj h).symm⟩
    · exact .inr (.inl ⟨h1, (Option.some.inj h).symm⟩)
    · exact .inr (.inr (.inl ⟨h2, (Option.some.inj h).symm⟩))
    · exact .inr (.inr (.inr (.inl ⟨h3, (Option.some.inj h).symm⟩)))
    · exact .inr (.inr (.inr (.inr ⟨h4, (Option.some.inj h).symm⟩)))
  · rintro (⟨rfl, rfl⟩ | ⟨h, rfl⟩ | ⟨h, rfl⟩ | ⟨h, rfl⟩ | ⟨h, rfl⟩)
    · rfl
    all_goals
      have hne : unit ≠ [] := by rintro rfl; cases h
      rw [if_neg hne, h]
      rfl

end

/-! ## The parser -/

section

variable {text : Str} {v : UInt64}

theorem parseByteUnits_eq (text : Str) : parseByteUnits text = (stoul (cStr (withoutSpaces text))).bind fun value =>
    match unitExponent ((withoutSpaces text).dropWhile isDigit) with
    | some k => .ok (value * UInt64.ofNat (1024 ^ k))
    | none => .error (.invalidArgument (lit "Invalid byte unit.")) := by
  refine congrArg (Except.bind _) (funext fun value => ?_)
  cases (withoutSpaces text).dropWhile isDigit with
  | nil => simp [unitExponent, pure, Except.pure]
  | cons c unit =>
    simp only [unitExponent, if_neg (List.cons_ne_nil c unit)]
    split_ifs <;> simp [pure, Except.pure, UInt64.mul_assoc]
    rfl

/-- `std::stoul` of the digits at the beginning. -/
theorem stoul_digits {digits rest : Str} (hne : digits ≠ []) (hdigits : ∀ c ∈ digits, isDigit c = true)
    (hrest : Stops isDigit rest) : stoul (cStr (digits ++ rest)) =
      if digitsValue digits < 2 ^ 64 then .ok (UInt64.ofNat (digitsValue digits))
      else .error (.outOfRange (lit "stoul")) := by
  rw [stoul, readInteger_digits hne hdigits hrest]
  rfl

theorem toNat_scaled {n k : ℕ} (hk : 1024 ^ k < 2 ^ 64) :
    (UInt64.ofNat n * UInt64.ofNat (1024 ^ k)).toNat = n * 1024 ^ k % 2 ^ 64 := by
  rw [UInt64.toNat_mul, UInt64.toNat_ofNat', UInt64.toNat_ofNat', Nat.mod_eq_of_lt hk, Nat.mod_mul_mod]

theorem IsByteUnit.scale_lt {unit : Str} {k : ℕ} (h : IsByteUnit unit k) : 1024 ^ k < 2 ^ 64 := by
  rcases h with ⟨-, rfl⟩ | ⟨-, rfl⟩ | ⟨-, rfl⟩ | ⟨-, rfl⟩ | ⟨-, rfl⟩ <;> decide

/-- What is returned: the product modulo `2^64`. -/
theorem parseByteUnits_eq_ok_iff : parseByteUnits text = .ok v ↔
    ∃ n k, IsByteSize text n k ∧ n < 2 ^ 64 ∧ v.toNat = n * 1024 ^ k % 2 ^ 64 := by
  rw [parseByteUnits_eq]
  constructor
  · intro h
    have hsplit := List.takeWhile_append_dropWhile (p := isDigit) (l := withoutSpaces text)
    generalize hunit : (withoutSpaces text).dropWhile isDigit = unit at h hsplit
    have hdigits : ∀ c ∈ (withoutSpaces text).takeWhile isDigit, isDigit c = true := fun c => List.mem_takeWhile_imp
    generalize (withoutSpaces text).takeWhile isDigit = digits at hsplit hdigits
    rw [← hsplit] at h
    cases hk : unitExponent unit with
    | none =>
      simp only [hk] at h
      cases hs : stoul (cStr (digits ++ unit)) <;> rw [hs] at h <;> cases h
    | some k =>
      have hbyte := unitExponent_eq_some_iff.mp hk
      by_cases hne : digits = []
      · -- no number before the unit
        rw [hne, List.nil_append, stoul, readInteger_unit hbyte] at h
        cases h
      · rw [stoul_digits hne hdigits hbyte.stops] at h
        by_cases hn : digitsValue digits < 2 ^ 64
        · rw [if_pos hn, hk] at h
          refine ⟨_, k, ⟨digits, unit, hsplit.symm, hne, hdigits, rfl, hbyte⟩, hn, ?_⟩
          rw [← toNat_scaled hbyte.scale_lt]
          exact congrArg UInt64.toNat (Except.ok.inj h).symm
        · rw [if_neg hn] at h
          cases h
  · rintro ⟨n, k, ⟨digits, unit, htext, hne, hdigits, rfl, hbyte⟩, hn, hv⟩
    rw [htext, stoul_digits hne hdigits hbyte.stops, if_pos hn, dropWhile_of_stops hdigits hbyte.stops,
      unitExponent_eq_some_iff.mpr hbyte]
    rw [← toNat_scaled hbyte.scale_lt] at hv
    exact congrArg Except.ok (UInt64.toNat_inj.mp hv).symm

/-- A text has one number and one unit. -/
theorem IsByteSize.unique {n n' k k' : ℕ} (h : IsByteSize text n k) (h' : IsByteSize text n' k') : n = n' ∧ k = k' := by
  obtain ⟨digits, unit, htext, -, hdigits, rfl, hbyte⟩ := h
  obtain ⟨digits', unit', htext', -, hdigits', rfl, hbyte'⟩ := h'
  obtain ⟨rfl, rfl⟩ := append_inj_of_stops hdigits hdigits' hbyte.stops hbyte'.stops (htext.symm.trans htext')
  rw [← unitExponent_eq_some_iff] at hbyte hbyte'
  exact ⟨rfl, Option.some.inj (hbyte.symm.trans hbyte')⟩

/-- **Sizes with a unit**: `parseByteUnits` returns the sizes that fit into 64 bits as numbers and throws for every other
text, except for a size whose digits fit and whose product does not. -/
theorem parsesByteUnits_iff (text : Str) : ParsesByteUnits text ↔ ¬ ByteSizeWraps text := by
  unfold ParsesByteUnits
  simp only [parseByteUnits_eq_ok_iff]
  constructor
  · rintro h ⟨n, k, hsize, hn, hlarge⟩
    have hmod : (UInt64.ofNat (n * 1024 ^ k)).toNat = n * 1024 ^ k % 2 ^ 64 := UInt64.toNat_ofNat'
    obtain ⟨n', k', hsize', hv⟩ := (h (UInt64.ofNat (n * 1024 ^ k))).mp ⟨n, k, hsize, hn, hmod⟩
    obtain ⟨rfl, rfl⟩ := hsize.unique hsize'
    have := (UInt64.ofNat (n * 1024 ^ k)).toNat_lt
    omega
  · intro h v
    constructor
    · rintro ⟨n, k, hsize, hn, hv⟩
      refine ⟨n, k, hsize, ?_⟩
      rw [hv, Nat.mod_eq_of_lt]
      by_contra hlarge
      exact h ⟨n, k, hsize, hn, Nat.le_of_not_lt hlarge⟩
    · rintro ⟨n, k, hsize, hv⟩
      have hlt := v.toNat_lt
      have hn : n ≤ n * 1024 ^ k := Nat.le_mul_of_pos_right n (Nat.pow_pos (by decide))
      exact ⟨n, k, hsize, by omega, by rw [← hv, Nat.mod_eq_of_lt hlt]⟩

/-- Seventeen billion gigabytes are read as no bytes. -/
theorem gigabytes_wrap : parseByteUnits (lit "17179869184gb") = .ok 0 ∧ ¬ ParsesByteUnits (lit "17179869184gb") := by
  have hsize : IsByteSize (lit "17179869184gb") 17179869184 3 :=
    ⟨lit "17179869184", lit "gb", rfl, by decide, List.all_eq_true.mp rfl, rfl, .inr (.inr (.inr (.inr ⟨rfl, rfl⟩)))⟩
  have hzero : parseByteUnits (lit "17179869184gb") = .ok 0 :=
    parseByteUnits_eq_ok_iff.mpr ⟨_, _, hsize, by decide, by decide⟩
  refine ⟨hzero, fun h => ?_⟩
  obtain ⟨n, k, hsize', hv⟩ := (h 0).mp hzero
  obtain ⟨rfl, rfl⟩ := hsize.unique hsize'
  exact absurd hv (by decide)

end

end OtelDistro.Config
