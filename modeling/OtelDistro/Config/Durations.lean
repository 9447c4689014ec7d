import OtelDistro.Config.ByteUnits
import OtelDistro.Lib.Binary64

/-!
# OtelDistro.Config.Durations — durations with a unit, as milliseconds

`convertDurationWithUnit` over the numbers of a `double`: `std::stod` rounds what is written, the conversion to seconds or
minutes rounds the product, and `duration_cast` cuts off the fraction.

* `binary64`: this arithmetic.  What C++ leaves open are parameters: whether `strtod` reports a number too small for the normal
  numbers, and what the conversion of a number outside of 64 bits gives.
* `IsDuration`: without white space a text is a decimal number and a unit.
* `ConvertsDuration`: such texts are converted if they fit, whole numbers exactly, and every other text is refused with
  `std::invalid_argument`.

`convertsDuration_iff`: the texts for which the parser does so whatever C++ leaves open: the number is in the range of a
`double`, no second point follows it, the milliseconds fit, and those of a whole number are a `double`.
-/

namespace OtelDistro.Config

open Lib

/-! ## Numbers of a `double` -/

inductive Double
  | finite (x : Binary64)
  | infinity (negative : Bool)
  | nan

def Scientific.value (x : Scientific) : ℚ := (if x.negative then -1 else 1) * x.mantissa * (x.base : ℚ) ^ x.exponent

/-- `strtod` sets `ERANGE`; for the numbers below the normal ones this is up to the implementation. -/
def OutOfDouble (rangeError : ℚ → Bool) (x : Scientific) : Prop :=
  2 ^ 1024 ≤ |nearest x.value| ∨ x.value ≠ 0 ∧ |x.value| < 2 ^ (-1022 : ℤ) ∧ rangeError x.value = true

instance (rangeError : ℚ → Bool) (x : Scientific) : Decidable (OutOfDouble rangeError x) :=
  inferInstanceAs (Decidable (_ ∨ _))

/-- Without the fraction. -/
def truncate (x : ℚ) : ℤ := if 0 ≤ x then ⌊x⌋ else ⌈x⌉

/-- The conversion to a signed number of 64 bits; `outside` is what it gives for the others. -/
def toInt64 (outside : Double → Int64) (x : Double) : Int64 :=
  match x with
  | .finite d => if -2 ^ 63 ≤ truncate d.value ∧ truncate d.value < 2 ^ 63 then Int64.ofInt (truncate d.value) else outside x
  | _ => outside x

/-- The product with a number of milliseconds. -/
def Double.scale (f : ℕ) : Double → Double
  | .finite d => ((Binary64.ofRat? (d.value * f)).map .finite).getD (.infinity (decide (d.value < 0)))
  | x => x

def binary64 (rangeError : ℚ → Bool) (outside : Double → Int64) : DoubleArithmetic where
  Double := Double
  ofScientific x := if OutOfDouble rangeError x then none else (Binary64.ofRat? x.value).map .finite
  infinity := .infinity
  nan := .nan
  milliseconds
    | .ms, x => toInt64 outside x
    | .s, x => toInt64 outside (x.scale 1000)
    | .m, x => toInt64 outside (x.scale 60000)

/-! ## What a duration is -/

/-- The value of digits around a point. -/
def decimalValue (whole fraction : Str) : ℚ := digitsValue (whole ++ fraction) / 10 ^ fraction.length

/-- Digits with at most one point. -/
def IsDecimal (s : Str) (q : ℚ) : Prop :=
  ∃ whole fraction, (∀ c ∈ whole, isDigit c = true) ∧ (∀ c ∈ fraction, isDigit c = true) ∧ whole ++ fraction ≠ [] ∧
    (s = whole ∧ fraction = [] ∨ s = whole ++ 46 :: fraction) ∧ q = decimalValue whole fraction

/-- `unit` stands for `f` milliseconds. -/
def IsTimeUnit (unit : Str) (f : ℕ) : Prop :=
  (unit = [] ∧ f = 1) ∨ (unit = lit "ms" ∧ f = 1) ∨ (unit = lit "s" ∧ f = 1000) ∨ (unit = lit "m" ∧ f = 60000)

/-- Without white space the text is the number `q` and a unit of `f` milliseconds. -/
def IsDuration (text : Str) (q : ℚ) (f : ℕ) : Prop :=
  ∃ number unit, withoutSpaces text = number ++ unit ∧ IsDecimal number q ∧ IsTimeUnit unit f

/-- Durations that fit are returned, whole numbers exactly, and everything else is an invalid argument. -/
structure ConvertsDuration (A : DoubleArithmetic) (text : Str) : Prop where
  returns : (∃ v, convertDurationWithUnit A text = .ok v) ↔ ∃ q f, IsDuration text q f ∧ q * f < 2 ^ 63
  refuses : (¬ ∃ q f, IsDuration text q f ∧ q * f < 2 ^ 63) →
    ∃ what, convertDurationWithUnit A text = .error (.invalidArgument what)
  exact : ∀ (n f : ℕ) v, IsDuration text n f → convertDurationWithUnit A text = .ok v → v.toInt = n * f

/-- A second point behind the number, and a unit. -/
def ManyPoints (text : Str) : Prop :=
  ∃ whole fraction more unit f, withoutSpaces text = whole ++ 46 :: (fraction ++ 46 :: more) ++ unit ∧
    (∀ c ∈ whole, isDigit c = true) ∧ (∀ c ∈ fraction, isDigit c = true) ∧ whole ++ fraction ≠ [] ∧
    (∀ c ∈ more, (isDigit c || c == 46) = true) ∧ IsTimeUnit unit f

/-- The text begins with a number for which `strtod` sets `ERANGE`. -/
def NumberOutOfRange (rangeError : ℚ → Bool) (text : Str) : Prop :=
  ∃ x, readFloat (cStr (withoutSpaces text)) = some (.finite x) ∧ OutOfDouble rangeError x

/-! ## Reading the number -/

/-- A byte of a number, as the search for the unit has it. -/
def numberByte (c : UInt8) : Bool := isDigit c || c == 46

/-- A byte of a number or of a unit. -/
def plainByte (c : UInt8) : Bool := numberByte c || c == 109 || c == 115

section

variable {c : UInt8} {s run unit whole fraction more tail : Str}

theorem plainByte_cases (h : plainByte c = true) : (48 ≤ c.toNat ∧ c.toNat ≤ 57) ∨ c = 46 ∨ c = 109 ∨ c = 115 := by
  simp only [plainByte, numberByte, isDigit, Bool.or_eq_true, Bool.and_eq_true, decide_eq_true_eq, beq_iff_eq,
    UInt8.le_iff_toNat_le] at h
  rcases h with ((h | h) | h) | h
  · exact .inl h
  · exact .inr (.inl h)
  · exact .inr (.inr (.inl h))
  · exact .inr (.inr (.inr h))

theorem plainByte_of_numberByte (h : numberByte c = true) : plainByte c = true := by
  rw [plainByte, h]
  rfl

theorem numberByte_of_isDigit (h : isDigit c = true) : numberByte c = true := by
  rw [numberByte, h]
  rfl

theorem toLower_of_plainByte (h : plainByte c = true) : toLower c = c := by
  unfold toLower
  rw [if_neg]
  rintro ⟨hlow, hhigh⟩
  rw [UInt8.le_iff_toNat_le] at hlow hhigh
  simp only [UInt8.reduceToNat] at hlow hhigh
  rcases plainByte_cases h with h | rfl | rfl | rfl
  · omega
  · exact absurd hlow (by decide)
  · exact absurd hhigh (by decide)
  · exact absurd hhigh (by decide)

/-- No plain byte is one of `n`, unless this is a digit, a point or a letter of a unit. -/
theorem ne_of_plainByte (h : plainByte c = true) {n : UInt8} (hn : plainByte n = false) : c ≠ n := by
  rintro rfl
  rw [h] at hn
  cases hn

theorem not_isSpace_of_plainByte (h : plainByte c = true) : isSpace c = false := by
  simp only [isSpace, Bool.or_eq_false_iff, Bool.and_eq_false_iff, beq_eq_false_iff_ne, ne_eq, decide_eq_false_iff_not,
    UInt8.le_iff_toNat_le, ← UInt8.toNat_inj, UInt8.reduceToNat]
  rcases plainByte_cases h with h | rfl | rfl | rfl
  · omega
  · decide
  · decide
  · decide

theorem cStr_of_plain (h : ∀ c ∈ s, plainByte c = true) : cStr s = s :=
  cStr_eq_self_iff.mpr fun h0 => absurd (h 0 h0) (by decide)

/-- No name of a special number, and no mark of a hexadecimal one. -/
theorem hasPrefix_of_plain (h : ∀ c ∈ s, plainByte c = true) {name : Str} (hname : ∃ n ∈ name, plainByte n = false) :
    hasPrefix name s = false := by
  have hlower : s.map toLower = s := (List.map_congr_left fun c hc => toLower_of_plainByte (h c hc)).trans s.map_id
  rw [hasPrefix, hlower, Bool.eq_false_iff]
  intro hbegins
  obtain ⟨n, hn, hplain⟩ := hname
  have hmem : n ∈ s := (List.isPrefixOf_iff_prefix.mp hbegins).subset hn
  rw [h n hmem] at hplain
  cases hplain

theorem sign_of_plain (h : ∀ c ∈ s, plainByte c = true) : sign s = (false, s) := by
  unfold sign
  split
  · exact absurd (h 45 List.mem_cons_self) (by decide)
  · exact absurd (h 43 List.mem_cons_self) (by decide)
  · rfl

theorem readExponent_of_plain (h : ∀ c ∈ s, plainByte c = true) : readExponent 101 s = 0 := by
  cases s with
  | nil => rfl
  | cons c s =>
    have hc := h c List.mem_cons_self
    have hne : toLower c ≠ 101 := by
      rw [toLower_of_plainByte hc]
      exact ne_of_plainByte hc (by decide)
    simp only [readExponent, hne, false_and, if_false]

theorem readDigits_tail_subset : ∀ c ∈ (readDigits isDigit s).2.2, c ∈ s := by
  intro c hc
  have hdrop : ∀ c ∈ s.dropWhile isDigit, c ∈ s := fun c hc => (List.dropWhile_suffix isDigit).subset hc
  unfold readDigits at hc
  split at hc
  · next rest heq =>
    refine hdrop c ?_
    rw [heq]
    exact List.mem_cons_of_mem _ ((List.dropWhile_suffix isDigit).subset hc)
  · exact hdrop c hc

/-- What `strtod` reads of digits, points and a unit. -/
theorem readFloat_of_plain (h : ∀ c ∈ s, plainByte c = true) (hread : readDigits isDigit s = (whole, fraction, tail)) :
    readFloat s = if whole ++ fraction = [] then none
      else some (.finite ⟨false, digitsValue (whole ++ fraction), 10, -fraction.length⟩) := by
  have hspace : s.dropWhile isSpace = s := by
    cases s with
    | nil => rfl
    | cons c s => exact List.dropWhile_cons_of_neg (by simp [not_isSpace_of_plainByte (h c List.mem_cons_self)])
  have htail : ∀ c ∈ tail, plainByte c = true := fun c hc => h c (readDigits_tail_subset c (by rw [hread]; exact hc))
  have hinf : hasPrefix (lit "inf") s = false := hasPrefix_of_plain h ⟨105, by decide, by decide⟩
  have hnan : hasPrefix (lit "nan") s = false := hasPrefix_of_plain h ⟨110, by decide, by decide⟩
  have hhex : hasPrefix (lit "0x") s = false := hasPrefix_of_plain h ⟨120, by decide, by decide⟩
  unfold readFloat
  simp only [hspace, sign_of_plain h, hinf, hnan, hhex, Bool.false_eq_true, if_false, Bool.false_and, hread,
    readExponent_of_plain htail, List.isEmpty_iff, zero_sub]

/-! ## Digits and points -/

/-- Digits without a point. -/
theorem readDigits_whole (hwhole : ∀ c ∈ whole, isDigit c = true) (htail : Stops numberByte tail) :
    readDigits isDigit (whole ++ tail) = (whole, [], tail) := by
  have hstops : Stops isDigit tail := fun c hc => by
    have hc := htail c hc
    simp only [numberByte, Bool.or_eq_false_iff] at hc
    exact hc.1
  unfold readDigits
  rw [takeWhile_of_stops hwhole hstops, dropWhile_of_stops hwhole hstops]
  split
  · exact absurd (htail 46 rfl) (by decide)
  · rfl

/-- Digits around a point. -/
theorem readDigits_point (hwhole : ∀ c ∈ whole, isDigit c = true) (hfraction : ∀ c ∈ fraction, isDigit c = true)
    (htail : Stops isDigit tail) : readDigits isDigit (whole ++ 46 :: (fraction ++ tail)) = (whole, fraction, tail) := by
  have hstops : Stops isDigit (46 :: (fraction ++ tail)) := stops_cons (by decide)
  unfold readDigits
  simp only [takeWhile_of_stops hwhole hstops, dropWhile_of_stops hwhole hstops, takeWhile_of_stops hfraction htail,
    dropWhile_of_stops hfraction htail]

/-- Digits and points are a number, or a number with a second point behind it. -/
theorem digits_cases (h : ∀ c ∈ run, numberByte c = true) : (∀ c ∈ run, isDigit c = true) ∨
    ∃ whole rest, run = whole ++ 46 :: rest ∧ (∀ c ∈ whole, isDigit c = true) ∧ ∀ c ∈ rest, numberByte c = true := by
  have hsplit := List.takeWhile_append_dropWhile (p := isDigit) (l := run)
  have hdigits : ∀ c ∈ run.takeWhile isDigit, isDigit c = true := fun c => List.mem_takeWhile_imp
  cases hrest : run.dropWhile isDigit with
  | nil =>
    rw [hrest, List.append_nil] at hsplit
    exact .inl (hsplit ▸ hdigits)
  | cons c rest =>
    have hc : isDigit c = false := by
      have := List.head?_dropWhile_not isDigit run
      rw [hrest] at this
      simpa using this
    rw [hrest] at hsplit
    have hmem : ∀ b ∈ c :: rest, numberByte b = true := fun b hb => h b (by rw [← hsplit]; exact List.mem_append_right _ hb)
    have hpoint : c = 46 := by
      have := hmem c List.mem_cons_self
      rw [numberByte, hc, Bool.false_or, beq_iff_eq] at this
      exact this
    subst hpoint
    exact .inr ⟨_, rest, hsplit.symm, hdigits, fun b hb => hmem b (List.mem_cons_of_mem _ hb)⟩

/-! ## Units -/

def factor : TimeUnit → ℕ
  | .ms => 1
  | .s => 1000
  | .m => 60000

/-- The chain of comparisons. -/
def timeUnit (unit : Str) : Option TimeUnit :=
  if unit = [] then some .ms
  else if unit = lit "ms" then some .ms
  else if unit = lit "s" then some .s
  else if unit = lit "m" then some .m
  else none

theorem isTimeUnit_iff {f : ℕ} : IsTimeUnit unit f ↔ ∃ u, timeUnit unit = some u ∧ factor u = f := by
  unfold timeUnit IsTimeUnit
  constructor
  · rintro (⟨rfl, rfl⟩ | ⟨rfl, rfl⟩ | ⟨rfl, rfl⟩ | ⟨rfl, rfl⟩)
    · exact ⟨.ms, rfl, rfl⟩
    · exact ⟨.ms, rfl, rfl⟩
    · exact ⟨.s, rfl, rfl⟩
    · exact ⟨.m, rfl, rfl⟩
  · rintro ⟨u, hu, rfl⟩
    split_ifs at hu with h0 h1 h2 h3
    · exact .inl ⟨h0, by rw [← Option.some.inj hu]; rfl⟩
    · exact .inr (.inl ⟨h1, by rw [← Option.some.inj hu]; rfl⟩)
    · exact .inr (.inr (.inl ⟨h2, by rw [← Option.some.inj hu]; rfl⟩))
    · exact .inr (.inr (.inr ⟨h3, by rw [← Option.some.inj hu]; rfl⟩))

theorem IsTimeUnit.factor_ne_zero {f : ℕ} (h : IsTimeUnit unit f) : f ≠ 0 := by
  rcases h with ⟨-, rfl⟩ | ⟨-, rfl⟩ | ⟨-, rfl⟩ | ⟨-, rfl⟩ <;> decide

theorem IsTimeUnit.stops {f : ℕ} (h : IsTimeUnit unit f) : Stops numberByte unit := by
  rcases h with ⟨rfl, -⟩ | ⟨rfl, -⟩ | ⟨rfl, -⟩ | ⟨rfl, -⟩
  · exact stops_nil _
  all_goals exact stops_cons (by decide)

theorem IsTimeUnit.plain {f : ℕ} (h : IsTimeUnit unit f) : ∀ c ∈ unit, plainByte c = true := by
  rcases h with ⟨rfl, -⟩ | ⟨rfl, -⟩ | ⟨rfl, -⟩ | ⟨rfl, -⟩ <;> exact List.all_eq_true.mp rfl

/-- The digits and points before a unit are read as without it. -/
theorem readDigits_append {f : ℕ} (hrun : ∀ c ∈ run, numberByte c = true) (hunit : IsTimeUnit unit f)
    (hread : readDigits isDigit run = (whole, fraction, more)) :
    readDigits isDigit (run ++ unit) = (whole, fraction, more ++ unit) := by
  have hdigit : Stops isDigit unit := fun c hc => by
    have := hunit.stops c hc
    simp only [numberByte, Bool.or_eq_false_iff] at this
    exact this.1
  rcases digits_cases hrun with hdigits | ⟨w, rest, rfl, hw, hrest⟩
  · rw [← List.append_nil run, readDigits_whole hdigits (stops_nil _)] at hread
    cases hread
    exact readDigits_whole hdigits hunit.stops
  · rcases digits_cases hrest with hfraction | ⟨fr, rest, rfl, hfr, -⟩
    · rw [← List.append_nil rest, readDigits_point hw hfraction (stops_nil _)] at hread
      cases hread
      rw [List.append_assoc, List.cons_append]
      exact readDigits_point hw hfraction hdigit
    · rw [readDigits_point hw hfr (stops_cons (by decide))] at hread
      cases hread
      rw [List.append_assoc, List.cons_append, List.append_assoc]
      exact readDigits_point hw hfr (stops_cons (by decide))

end

/-! ## Milliseconds -/

section

variable {rangeError : ℚ → Bool} {outside : Double → Int64} {n f : ℕ} {d : Binary64}

theorem scale_one (d : Binary64) : (Double.finite d).scale 1 = .finite d := by
  have hd : Binary64.ofRat? (d.value * (1 : ℕ)) = some d := by
    rw [Binary64.ofRat?_eq_some_iff, Nat.cast_one, mul_one, nearest_eq_self d.representable]
  simp only [Double.scale, hd, Option.map_some, Option.getD_some]

theorem milliseconds_eq (u : TimeUnit) (d : Binary64) :
    (binary64 rangeError outside).milliseconds u (Double.finite d) = toInt64 outside ((Double.finite d).scale (factor u)) := by
  cases u with
  | ms => rw [factor, scale_one]; rfl
  | s => rfl
  | m => rfl

theorem truncate_intCast (k : ℤ) : truncate k = k := by
  unfold truncate
  split
  · exact Int.floor_intCast k
  · exact Int.ceil_intCast k

theorem toInt64_intCast {k : ℤ} (hd : d.value = k) : toInt64 outside (.finite d) =
    if -2 ^ 63 ≤ k ∧ k < 2 ^ 63 then Int64.ofInt k else outside (.finite d) := by
  simp only [toInt64, hd, truncate_intCast]

/-- The product of a whole number is a whole number of a `double`, or it comes from outside of 64 bits. -/
theorem scaled_cases {k : ℤ} (hd : d.value = k) (f : ℕ) :
    (∃ j : ℤ, IsRepresentable j ∧ ∀ outside, (toInt64 outside ((Double.finite d).scale f)).toInt = j) ∨
      ∀ outside, toInt64 outside ((Double.finite d).scale f) = outside ((Double.finite d).scale f) := by
  cases hy : Binary64.ofRat? (d.value * f) with
  | none =>
    have hscale : (Double.finite d).scale f = .infinity (decide (d.value < 0)) := by
      simp only [Double.scale, hy, Option.map_none, Option.getD_none]
    exact .inr fun outside => by rw [hscale]; rfl
  | some y =>
    have hscale : (Double.finite d).scale f = .finite y := by
      simp only [Double.scale, hy, Option.map_some, Option.getD_some]
    obtain ⟨j, hj⟩ := nearest_intCast (k * f)
    push_cast at hj
    rw [Binary64.ofRat?_eq_some_iff, hd, hj] at hy
    rw [hscale]
    by_cases hrange : -2 ^ 63 ≤ j ∧ j < 2 ^ 63
    · refine .inl ⟨j, hy ▸ y.representable, fun outside => ?_⟩
      rw [toInt64_intCast hy, if_pos hrange, Int64.toInt_ofInt_of_le hrange.1 hrange.2]
    · exact .inr fun outside => by rw [toInt64_intCast hy, if_neg hrange]

/-- The milliseconds are a number of a `double`, and so is the number before. -/
theorem exact_of_representable (hd : d.value = nearest n) (hf : f ≠ 0) (hfits : n * f < 2 ^ 63)
    (hrep : IsRepresentable (n * f)) (outside : Double → Int64) :
    (toInt64 outside ((Double.finite d).scale f)).toInt = n * f := by
  have hn : d.value = n := hd.trans (nearest_eq_self (hrep.of_mul hf))
  have hbound : |(n : ℚ) * f| < 2 ^ 1024 := by
    rw [abs_of_nonneg (by positivity)]
    calc (n : ℚ) * f < 2 ^ 63 := by exact_mod_cast hfits
      _ < 2 ^ 1024 := pow_lt_pow_right₀ (by norm_num) (by norm_num)
  have hy : Binary64.ofRat? (d.value * f) = some ⟨n * f, hrep, hbound⟩ := by
    rw [Binary64.ofRat?_eq_some_iff, hn, nearest_eq_self hrep]
  have hvalue : (n : ℚ) * f = ((n * f : ℕ) : ℤ) := by push_cast; rfl
  simp only [Double.scale, hy, Option.map_some, Option.getD_some]
  rw [toInt64_intCast (k := (n * f : ℕ)) hvalue, if_pos (by omega), Int64.toInt_ofInt_of_le (by omega) (by omega)]
  push_cast
  rfl

/-- The milliseconds of a whole number are exact, whatever a conversion from outside of 64 bits gives, if and only if they are
a number of a `double`. -/
theorem exact_iff (hd : d.value = nearest n) (hf : f ≠ 0) (hfits : (n : ℚ) * f < 2 ^ 63) :
    (∀ outside, (toInt64 outside ((Double.finite d).scale f)).toInt = n * f) ↔ IsRepresentable (n * f) := by
  have hfits : n * f < 2 ^ 63 := by exact_mod_cast hfits
  refine ⟨fun h => ?_, exact_of_representable hd hf hfits⟩
  obtain ⟨k, hk⟩ := nearest_intCast n
  rw [Int.cast_natCast, ← hd] at hk
  rcases scaled_cases hk f with ⟨j, hj, hexact⟩ | houtside
  · have heq : j = n * f := (hexact fun _ => 0).symm.trans (h fun _ => 0)
    rw [heq] at hj
    exact_mod_cast hj
  · -- two conversions from outside cannot both give the product
    have hzero := h fun _ => 0
    have hone := h fun _ => 1
    rw [houtside] at hzero hone
    exact absurd (hzero.trans hone.symm) (by decide)

theorem ofScientific_eq_none_iff (x : Scientific) :
    (binary64 rangeError outside).ofScientific x = none ↔ OutOfDouble rangeError x := by
  show (if OutOfDouble rangeError x then none else (Binary64.ofRat? x.value).map Double.finite) = none ↔ _
  split
  · next h => exact iff_of_true rfl h
  · next h =>
    rw [Option.map_eq_none_iff, Binary64.ofRat?_eq_none_iff]
    exact iff_of_false (fun hlarge => h (.inl hlarge)) h

theorem ofScientific_of_inRange {x : Scientific} (h : ¬ OutOfDouble rangeError x) :
    ∃ d : Binary64, d.value = nearest x.value ∧
      ∀ outside, (binary64 rangeError outside).ofScientific x = some (Double.finite d) := by
  obtain ⟨d, hd⟩ : ∃ d, Binary64.ofRat? x.value = some d := by
    rw [← Option.ne_none_iff_exists', ne_eq, Binary64.ofRat?_eq_none_iff]
    exact fun hlarge => h (.inl hlarge)
  refine ⟨d, Binary64.ofRat?_eq_some_iff.mp hd, fun outside => ?_⟩
  show (if OutOfDouble rangeError x then none else (Binary64.ofRat? x.value).map Double.finite) = _
  rw [if_neg h, hd]
  rfl

theorem value_decimal (whole fraction : Str) :
    Scientific.value ⟨false, digitsValue (whole ++ fraction), 10, -fraction.length⟩ = decimalValue whole fraction := by
  simp only [Scientific.value, decimalValue, Bool.false_eq_true, if_false, one_mul, zpow_neg, zpow_natCast,
    Nat.cast_ofNat, div_eq_mul_inv]

end

/-! ## The parser -/

section

variable {rangeError : ℚ → Bool} {outside : Double → Int64} {text run unit whole fraction more : Str} {f : ℕ} {q : ℚ}

theorem convertDurationWithUnit_eq (A : DoubleArithmetic) (text : Str) : convertDurationWithUnit A text =
    (stod A (cStr (withoutSpaces text))).bind fun timeValue =>
      match timeUnit ((withoutSpaces text).dropWhile numberByte) with
      | some u => .ok (A.milliseconds u timeValue)
      | none => .error (.invalidArgument (lit "Invalid time unit.")) := by
  refine congrArg (Except.bind _) (funext fun timeValue => ?_)
  have hbyte : (fun c => isDigit c || c == 46) = numberByte := rfl
  rw [hbyte]
  cases (withoutSpaces text).dropWhile numberByte with
  | nil => rfl
  | cons c unit =>
    simp only [timeUnit, if_neg (List.cons_ne_nil c unit)]
    split_ifs <;> rfl

theorem durationOutOfRange_iff (outside : Double → Int64) :
    DurationOutOfRange (binary64 rangeError outside) text ↔ NumberOutOfRange rangeError text := by
  simp only [DurationOutOfRange, NumberOutOfRange, ofScientific_eq_none_iff]

/-- A number in the range of a `double` is read, or there is none. -/
theorem stod_of_inRange (hin : ¬ NumberOutOfRange rangeError text) {e : StdException}
    (he : stod (binary64 rangeError outside) (cStr (withoutSpaces text)) = .error e) :
    e = .invalidArgument (lit "stod") := by
  unfold stod at he
  split at he
  · exact (Except.error.inj he).symm
  · cases he
  · cases he
  · next x hx =>
    split at he
    · cases he
    · next hnone => exact absurd ⟨x, hx, (ofScientific_eq_none_iff x).mp hnone⟩ hin

/-- Digits and points, and a unit. -/
structure NumberWithUnit (text run unit : Str) (f : ℕ) : Prop where
  split : withoutSpaces text = run ++ unit
  number : ∀ c ∈ run, numberByte c = true
  unit : IsTimeUnit unit f

theorem NumberWithUnit.plain (h : NumberWithUnit text run unit f) : ∀ c ∈ run ++ unit, plainByte c = true := by
  intro c hc
  rcases List.mem_append.mp hc with hc | hc
  · exact plainByte_of_numberByte (h.number c hc)
  · exact h.unit.plain c hc

theorem NumberWithUnit.timeUnit (h : NumberWithUnit text run unit f) :
    ∃ u, timeUnit ((withoutSpaces text).dropWhile numberByte) = some u ∧ factor u = f := by
  rw [h.split, dropWhile_of_stops h.number h.unit.stops]
  exact isTimeUnit_iff.mp h.unit

/-- A text has one number and one unit. -/
theorem NumberWithUnit.unique {run' unit' : Str} {f' : ℕ} (h : NumberWithUnit text run unit f)
    (h' : NumberWithUnit text run' unit' f') : run' = run ∧ f' = f := by
  obtain ⟨rfl, rfl⟩ := append_inj_of_stops h.number h'.number h.unit.stops h'.unit.stops (h.split.symm.trans h'.split)
  obtain ⟨u, hu, rfl⟩ := isTimeUnit_iff.mp h.unit
  obtain ⟨u', hu', rfl⟩ := isTimeUnit_iff.mp h'.unit
  cases hu.symm.trans hu'
  exact ⟨rfl, rfl⟩

/-- A number is all of the digits and points. -/
theorem IsDecimal.read {number : Str} (h : IsDecimal number q) : (∀ c ∈ number, numberByte c = true) ∧
    ∃ whole fraction, readDigits isDigit number = (whole, fraction, []) ∧ whole ++ fraction ≠ [] ∧
      q = decimalValue whole fraction := by
  obtain ⟨whole, fraction, hwhole, hfraction, hne, ⟨rfl, rfl⟩ | rfl, rfl⟩ := h
  · refine ⟨fun c hc => numberByte_of_isDigit (hwhole c hc), number, [], ?_, hne, rfl⟩
    conv_lhs => rw [← List.append_nil number]
    exact readDigits_whole hwhole (stops_nil _)
  · refine ⟨fun c hc => ?_, whole, fraction, ?_, hne, rfl⟩
    · rcases List.mem_append.mp hc with hc | hc
      · exact numberByte_of_isDigit (hwhole c hc)
      · rcases List.mem_cons.mp hc with rfl | hc
        · rfl
        · exact numberByte_of_isDigit (hfraction c hc)
    · have := readDigits_point hwhole hfraction (stops_nil isDigit)
      rwa [List.append_nil] at this

theorem IsDuration.numberWithUnit (h : IsDuration text q f) : ∃ run unit, NumberWithUnit text run unit f ∧
    ∃ whole fraction, readDigits isDigit run = (whole, fraction, []) ∧ whole ++ fraction ≠ [] ∧
      q = decimalValue whole fraction := by
  obtain ⟨number, unit, hsplit, hdecimal, hunit⟩ := h
  obtain ⟨hnumber, hread⟩ := hdecimal.read
  exact ⟨number, unit, ⟨hsplit, hnumber, hunit⟩, hread⟩

theorem ManyPoints.numberWithUnit (h : ManyPoints text) : ∃ run unit f, NumberWithUnit text run unit f ∧
    ∃ whole fraction more, readDigits isDigit run = (whole, fraction, 46 :: more) ∧ whole ++ fraction ≠ [] := by
  obtain ⟨whole, fraction, more, unit, f, hsplit, hwhole, hfraction, hne, hmore, hunit⟩ := h
  refine ⟨_, unit, f, ⟨hsplit, fun c hc => ?_, hunit⟩, whole, fraction, more,
    readDigits_point hwhole hfraction (stops_cons (by decide)), hne⟩
  simp only [List.mem_append, List.mem_cons] at hc
  rcases hc with hc | rfl | hc | rfl | hc
  · exact numberByte_of_isDigit (hwhole c hc)
  · rfl
  · exact numberByte_of_isDigit (hfraction c hc)
  · rfl
  · exact hmore c hc

/-- The digits and points are a number, or they go on with a second point, or there is no digit to read. -/
theorem NumberWithUnit.kinds (h : NumberWithUnit text run unit f) :
    (∃ whole fraction, readDigits isDigit run = (whole, fraction, []) ∧ whole ++ fraction ≠ [] ∧
        IsDuration text (decimalValue whole fraction) f) ∨
      (∃ whole fraction more, readDigits isDigit run = (whole, fraction, 46 :: more) ∧ whole ++ fraction ≠ [] ∧
        ManyPoints text) ∨
      ∃ more, readDigits isDigit run = ([], [], more) := by
  rcases digits_cases h.number with hwhole | ⟨whole, rest, rfl, hwhole, hrest⟩
  · have hread : readDigits isDigit run = (run, [], []) := by
      have := readDigits_whole hwhole (stops_nil numberByte)
      rwa [List.append_nil] at this
    by_cases hne : run = []
    · subst hne
      exact .inr (.inr ⟨[], hread⟩)
    · exact .inl ⟨run, [], hread, by rwa [List.append_nil],
        run, unit, h.split, ⟨run, [], hwhole, nofun, by rwa [List.append_nil], .inl ⟨rfl, rfl⟩, rfl⟩, h.unit⟩
  · rcases digits_cases hrest with hfraction | ⟨fraction, more, rfl, hfraction, hmore⟩
    · have hread : readDigits isDigit (whole ++ 46 :: rest) = (whole, rest, []) := by
        have := readDigits_point hwhole hfraction (stops_nil isDigit)
        rwa [List.append_nil] at this
      by_cases hne : whole ++ rest = []
      · obtain ⟨rfl, rfl⟩ := List.append_eq_nil_iff.mp hne
        exact .inr (.inr ⟨[], hread⟩)
      · exact .inl ⟨whole, rest, hread, hne,
          _, unit, h.split, ⟨whole, rest, hwhole, hfraction, hne, .inr rfl, rfl⟩, h.unit⟩
    · have hread : readDigits isDigit (whole ++ 46 :: (fraction ++ 46 :: more)) = (whole, fraction, 46 :: more) :=
        readDigits_point hwhole hfraction (stops_cons (by decide))
      by_cases hne : whole ++ fraction = []
      · obtain ⟨rfl, rfl⟩ := List.append_eq_nil_iff.mp hne
        exact .inr (.inr ⟨_, hread⟩)
      · exact .inr (.inl ⟨whole, fraction, more, hread, hne,
          whole, fraction, more, unit, f, h.split, hwhole, hfraction, hne, hmore, h.unit⟩)

/-- Without a unit that is known the text is refused. -/
theorem convert_of_noUnit (hin : ¬ NumberOutOfRange rangeError text)
    (hnone : ∀ run unit f, ¬ NumberWithUnit text run unit f) :
    ∃ what, convertDurationWithUnit (binary64 rangeError outside) text = .error (.invalidArgument what) := by
  have hunit : timeUnit ((withoutSpaces text).dropWhile numberByte) = none := by
    by_contra hsome
    obtain ⟨u, hu⟩ := Option.ne_none_iff_exists'.mp hsome
    exact hnone _ _ _ ⟨List.takeWhile_append_dropWhile.symm, fun c => List.mem_takeWhile_imp, isTimeUnit_iff.mpr ⟨u, hu, rfl⟩⟩
  rw [convertDurationWithUnit_eq, hunit]
  cases hstod : stod (binary64 rangeError outside) (cStr (withoutSpaces text)) with
  | error e => exact ⟨_, congrArg Except.error (stod_of_inRange hin hstod)⟩
  | ok timeValue => exact ⟨_, rfl⟩

theorem NumberWithUnit.readFloat (h : NumberWithUnit text run unit f)
    (hread : readDigits isDigit run = (whole, fraction, more)) : readFloat (cStr (withoutSpaces text)) =
      if whole ++ fraction = [] then none
      else some (.finite ⟨false, digitsValue (whole ++ fraction), 10, -fraction.length⟩) := by
  rw [h.split, cStr_of_plain h.plain]
  exact readFloat_of_plain h.plain (readDigits_append h.number h.unit hread)

/-- No digit is read: the text is refused. -/
theorem convert_of_noDigit (h : NumberWithUnit text run unit f) (hread : readDigits isDigit run = ([], [], more)) :
    ∃ what, convertDurationWithUnit (binary64 rangeError outside) text = .error (.invalidArgument what) := by
  rw [convertDurationWithUnit_eq, stod, h.readFloat hread, if_pos (List.append_nil [])]
  exact ⟨_, rfl⟩

/-- The number at the beginning is rounded, and so are its milliseconds. -/
theorem convert_of_digits (h : NumberWithUnit text run unit f) (hin : ¬ NumberOutOfRange rangeError text)
    (hread : readDigits isDigit run = (whole, fraction, more)) (hne : whole ++ fraction ≠ []) :
    ∃ d : Binary64, d.value = nearest (decimalValue whole fraction) ∧ ∀ outside,
      convertDurationWithUnit (binary64 rangeError outside) text = .ok (toInt64 outside ((Double.finite d).scale f)) := by
  have hfloat := h.readFloat hread
  rw [if_neg hne] at hfloat
  have hrange : ¬ OutOfDouble rangeError _ := fun hout => hin ⟨_, hfloat, hout⟩
  obtain ⟨d, hd, hA⟩ := ofScientific_of_inRange hrange
  rw [value_decimal] at hd
  obtain ⟨u, hu, rfl⟩ := h.timeUnit
  refine ⟨d, hd, fun outside => ?_⟩
  rw [convertDurationWithUnit_eq, hu, stod, hfloat]
  simp only [hA, Except.bind, milliseconds_eq]

theorem NumberWithUnit.duration {f' : ℕ} (h : NumberWithUnit text run unit f)
    (hread : readDigits isDigit run = (whole, fraction, more)) (hq : IsDuration text q f') :
    more = [] ∧ whole ++ fraction ≠ [] ∧ q = decimalValue whole fraction ∧ f' = f := by
  obtain ⟨run', unit', h', whole', fraction', hread', hne, rfl⟩ := hq.numberWithUnit
  obtain ⟨rfl, rfl⟩ := h.unique h'
  cases hread.symm.trans hread'
  exact ⟨rfl, hne, rfl, rfl⟩

theorem NumberWithUnit.manyPoints (h : NumberWithUnit text run unit f)
    (hread : readDigits isDigit run = (whole, fraction, more)) (hmany : ManyPoints text) :
    more ≠ [] ∧ whole ++ fraction ≠ [] := by
  obtain ⟨run', unit', f', h', whole', fraction', more', hread', hne⟩ := hmany.numberWithUnit
  obtain ⟨rfl, -⟩ := h.unique h'
  cases hread.symm.trans hread'
  exact ⟨List.cons_ne_nil _ _, hne⟩

/-! ## What is converted -/

/-- The exception is of another type. -/
theorem not_converts_of_outOfRange (hout : NumberOutOfRange rangeError text) :
    ¬ ConvertsDuration (binary64 rangeError outside) text := by
  intro h
  obtain ⟨e, he, hrange⟩ := (throwsOutOfRange_convertDurationWithUnit text).mpr
    ((durationOutOfRange_iff outside).mpr hout)
  by_cases hfits : ∃ q f, IsDuration text q f ∧ q * f < 2 ^ 63
  · obtain ⟨v, hv⟩ := h.returns.mpr hfits
    cases he.symm.trans hv
  · obtain ⟨what, hwhat⟩ := h.refuses hfits
    cases he.symm.trans hwhat
    exact hrange

theorem converts_of_refused {A : DoubleArithmetic}
    (hrefused : ∃ what, convertDurationWithUnit A text = .error (.invalidArgument what))
    (hduration : ∀ q f, ¬ IsDuration text q f) : ConvertsDuration A text where
  returns := by
    obtain ⟨what, hwhat⟩ := hrefused
    refine iff_of_false ?_ fun ⟨q, f, h, _⟩ => hduration q f h
    rintro ⟨v, hv⟩
    cases hwhat.symm.trans hv
  refuses := fun _ => hrefused
  exact := fun n f _ h => absurd h (hduration n f)

/-- A duration is converted as it should be if its milliseconds fit and those of a whole number are a `double`. -/
theorem converts_duration_iff (h : NumberWithUnit text run unit f) (hin : ¬ NumberOutOfRange rangeError text)
    (hread : readDigits isDigit run = (whole, fraction, [])) (hne : whole ++ fraction ≠ [])
    (hduration : IsDuration text (decimalValue whole fraction) f) :
    (∀ outside, ConvertsDuration (binary64 rangeError outside) text) ↔
      decimalValue whole fraction * f < 2 ^ 63 ∧ ∀ n : ℕ, decimalValue whole fraction = n → IsRepresentable (n * f) := by
  obtain ⟨d, hd, hconvert⟩ := convert_of_digits h hin hread hne
  constructor
  · intro hall
    obtain ⟨q, f', hq, hfits⟩ := (hall fun _ => 0).returns.mp ⟨_, hconvert _⟩
    obtain ⟨-, -, rfl, rfl⟩ := h.duration hread hq
    refine ⟨hfits, fun n hn => ?_⟩
    rw [hn] at hd hfits hduration
    exact (exact_iff hd h.unit.factor_ne_zero hfits).mp fun outside =>
      (hall outside).exact n f' _ hduration (hconvert outside)
  · rintro ⟨hfits, hwhole⟩ outside
    refine ⟨iff_of_true ⟨_, hconvert outside⟩ ⟨_, _, hduration, hfits⟩, fun hno => absurd ⟨_, _, hduration, hfits⟩ hno, ?_⟩
    intro n f' v hn hv
    obtain ⟨-, -, heq, rfl⟩ := h.duration hread hn
    rw [← heq] at hd hfits
    cases (hconvert outside).symm.trans hv
    exact (exact_iff hd h.unit.factor_ne_zero hfits).mpr (hwhole n heq.symm) outside

/-- **Durations with a unit**: whatever C++ leaves open about conversions, `convertDurationWithUnit` returns the durations that
fit, the whole ones exactly, and refuses every other text, if the number at the beginning is in the range of a `double`, no
second point follows it, the milliseconds fit and those of a whole number are a `double`; and not otherwise. -/
theorem convertsDuration_iff (rangeError : ℚ → Bool) (text : Str) :
    (∀ outside, ConvertsDuration (binary64 rangeError outside) text) ↔
      ¬ NumberOutOfRange rangeError text ∧ ¬ ManyPoints text ∧
        ∀ q f, IsDuration text q f → q * f < 2 ^ 63 ∧ ∀ n : ℕ, q = n → IsRepresentable (n * f) := by
  by_cases hout : NumberOutOfRange rangeError text
  · exact iff_of_false (fun h => not_converts_of_outOfRange hout (h fun _ => 0)) fun h => h.1 hout
  by_cases hunit : ∃ run unit f, NumberWithUnit text run unit f
  · obtain ⟨run, unit, f, hunit⟩ := hunit
    rcases hunit.kinds with ⟨whole, fraction, hread, hne, hduration⟩ | ⟨whole, fraction, more, hread, hne, hmany⟩ |
      ⟨more, hread⟩
    · rw [converts_duration_iff hunit hout hread hne hduration]
      constructor
      · refine fun h => ⟨hout, fun hmany => (hunit.manyPoints hread hmany).1 rfl, fun q f' hq => ?_⟩
        obtain ⟨-, -, rfl, rfl⟩ := hunit.duration hread hq
        exact h
      · exact fun h => h.2.2 _ _ hduration
    · -- the text is accepted and is no duration
      obtain ⟨d, -, hconvert⟩ := convert_of_digits hunit hout hread hne
      refine iff_of_false (fun h => ?_) fun h => h.2.1 hmany
      obtain ⟨q, f', hq, -⟩ := (h fun _ => 0).returns.mp ⟨_, hconvert _⟩
      exact absurd (hunit.duration hread hq).1 (List.cons_ne_nil _ _)
    · have hduration : ∀ q f', ¬ IsDuration text q f' := fun q f' hq => (hunit.duration hread hq).2.1 rfl
      exact iff_of_true (fun outside => converts_of_refused (convert_of_noDigit hunit hread) hduration)
        ⟨hout, fun hmany => (hunit.manyPoints hread hmany).2 rfl, fun q f' hq => absurd hq (hduration q f')⟩
  · have hduration : ∀ q f, ¬ IsDuration text q f := by
      intro q f hq
      obtain ⟨run, unit, h, -⟩ := hq.numberWithUnit
      exact hunit ⟨run, unit, f, h⟩
    have hmany : ¬ ManyPoints text := by
      intro hmany
      obtain ⟨run, unit, f, h, -⟩ := hmany.numberWithUnit
      exact hunit ⟨run, unit, f, h⟩
    exact iff_of_true
      (fun outside => converts_of_refused (convert_of_noUnit hout fun run unit f h => hunit ⟨run, unit, f, h⟩) hduration)
      ⟨hout, hmany, fun q f hq => absurd hq (hduration q f)⟩

/-- A second point and what follows are skipped; beyond 53 bits a whole number is rounded, and one of 400 digits is no
`std::invalid_argument`. -/
theorem second_point_skipped :
    convertDurationWithUnit (binary64 (fun _ => true) fun _ => 0) (lit "1.0.5s") = .ok 1000 ∧
    convertDurationWithUnit (binary64 (fun _ => true) fun _ => 0) (lit "9007199254740993ms") = .ok 9007199254740992 ∧
    convertDurationWithUnit (binary64 (fun _ => true) fun _ => 0) (List.replicate 400 57) = .error (.outOfRange (lit "stod")) ∧
    ¬ ConvertsDuration (binary64 (fun _ => true) fun _ => 0) (lit "1.0.5s") := by
  have hunit : NumberWithUnit (lit "1.0.5s") (lit "1.0.5") (lit "s") 1000 :=
    ⟨rfl, List.all_eq_true.mp rfl, .inr (.inr (.inl ⟨rfl, rfl⟩))⟩
  have hread : readDigits isDigit (lit "1.0.5") = (lit "1", lit "0", lit ".5") := rfl
  have hok : convertDurationWithUnit (binary64 (fun _ => true) fun _ => 0) (lit "1.0.5s") = .ok 1000 := by
    decide +kernel
  refine ⟨hok, by decide +kernel, by decide +kernel, fun h => ?_⟩
  obtain ⟨q, f, hq, -⟩ := h.returns.mp ⟨_, hok⟩
  exact absurd (hunit.duration hread hq).1 (List.cons_ne_nil _ _)

end

end OtelDistro.Config
