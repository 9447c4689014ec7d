import OtelDistro.Bytes

/-!
# OtelDistro.Config.OptionParsers — the texts of options and their values

`parseByteUnits`, `convertDurationWithUnit`, `parseBoolean` and `parseLogLevel` of `CommonUtils.cpp`, over the conversions of
the standard library: `stoul` and `stod` read the longest number at the beginning of a text and throw for no number and
for a number out of range.  What a number is as a `double`, and how many milliseconds that is, is a parameter
(`DoubleArithmetic`).

* `throwsOutOfRange_parseByteUnits`, `throwsOutOfRange_convertDurationWithUnit`: the texts for which a parser throws
  `std::out_of_range`, which is no `std::invalid_argument`.
-/

namespace OtelDistro.Config

/-! ## The standard library -/

/-- Exceptions, with the text of `what()`. -/
inductive StdException
  | invalidArgument (what : Str)
  | outOfRange (what : Str)
deriving DecidableEq, Repr

/-- `std::isspace` in the C locale. -/
def isSpace (c : UInt8) : Bool := c == 32 || (9 ≤ c && c ≤ 13)

/-- `std::isdigit` -/
def isDigit (c : UInt8) : Bool := 48 ≤ c && c ≤ 57

/-- The value of decimal digits. -/
def digitsValue (digits : Str) : ℕ := digits.foldl (fun n c => n * 10 + (c.toNat - 48)) 0

/-- An optional sign: whether it is a minus, and the text behind it. -/
def sign : Str → Bool × Str
  | 45 :: rest => (true, rest)
  | 43 :: rest => (false, rest)
  | s => (false, s)

/-- The integer `strtoul` reads: its sign and its absolute value. -/
def readInteger (s : Str) : Option (Bool × ℕ) :=
  let (negative, rest) := sign (s.dropWhile isSpace)
  let digits := rest.takeWhile isDigit
  if digits.isEmpty then none else some (negative, digitsValue digits)

/-- `std::stoul` in base 10: a minus sign negates modulo `2^64`. -/
def stoul (s : Str) : Except StdException UInt64 :=
  match readInteger s with
  | none => .error (.invalidArgument (lit "stoul"))
  | some (negative, n) =>
    if n < 2 ^ 64 then .ok (if negative then 0 - UInt64.ofNat n else UInt64.ofNat n)
    else .error (.outOfRange (lit "stoul"))

/-- A number as it is written: `mantissa * base ^ exponent`, `base` being 10 or 2. -/
structure Scientific where
  negative : Bool
  mantissa : ℕ
  base : ℕ
  exponent : ℤ
deriving DecidableEq, Repr

inductive FloatText
  | finite (x : Scientific)
  | infinity (negative : Bool)
  | nan
deriving DecidableEq, Repr

/-- `text` begins with `name`, up to the case of letters. -/
def hasPrefix (name text : Str) : Bool := name.isPrefixOf (text.map toLower)

def isHexDigit (c : UInt8) : Bool := isDigit c || (97 ≤ toLower c && toLower c ≤ 102)

def hexValue (digits : Str) : ℕ :=
  digits.foldl (fun n c => n * 16 + (if isDigit c then c.toNat - 48 else (toLower c).toNat - 87)) 0

/-- Digits, and digits behind a `.`; and what follows. -/
def readDigits (digit : UInt8 → Bool) (s : Str) : Str × Str × Str :=
  match s.dropWhile digit with
  | 46 :: rest => (s.takeWhile digit, rest.takeWhile digit, rest.dropWhile digit)
  | rest => (s.takeWhile digit, [], rest)

/-- The exponent behind the letter `mark`, `0` where there is none. -/
def readExponent (mark : UInt8) : Str → ℤ
  | [] => 0
  | c :: rest =>
    let (negative, rest) := sign rest
    let digits := rest.takeWhile isDigit
    if toLower c = mark ∧ digits ≠ [] then (if negative then -(digitsValue digits : ℤ) else digitsValue digits) else 0

/-- The number `strtod` reads. -/
def readFloat (s : Str) : Option FloatText :=
  let (negative, rest) := sign (s.dropWhile isSpace)
  if hasPrefix (lit "inf") rest then some (.infinity negative)
  else if hasPrefix (lit "nan") rest then some .nan
  else
    let (whole, fraction, tail) := readDigits isHexDigit (rest.drop 2)
    if hasPrefix (lit "0x") rest && !(whole ++ fraction).isEmpty then
      some (.finite ⟨negative, hexValue (whole ++ fraction), 2, readExponent 112 tail - 4 * fraction.length⟩)
    else
      let (whole, fraction, tail) := readDigits isDigit rest
      if (whole ++ fraction).isEmpty then none
      else some (.finite ⟨negative, digitsValue (whole ++ fraction), 10, readExponent 101 tail - fraction.length⟩)

inductive TimeUnit
  | ms
  | s
  | m

/-- Arithmetic of `double`.  `ofScientific` is `none` where `strtod` sets `ERANGE`; `milliseconds` is the
`duration_cast` from the unit. -/
structure DoubleArithmetic where
  Double : Type
  ofScientific : Scientific → Option Double
  infinity : Bool → Double
  nan : Double
  milliseconds : TimeUnit → Double → Int64

/-- Numbers as they are written, without rounding; `none` for the others. -/
def writtenNumbers : DoubleArithmetic where
  Double := Option Scientific
  ofScientific x :=
    if x.mantissa * x.base ^ x.exponent.toNat < 2 ^ 1024 * x.base ^ (-x.exponent).toNat then some (some x) else none
  infinity _ := none
  nan := none
  milliseconds unit x :=
    match x with
    | none => 0
    | some x =>
      let factor := match unit with
        | .ms => 1
        | .s => 1000
        | .m => 60000
      let n := x.mantissa * factor * x.base ^ x.exponent.toNat / x.base ^ (-x.exponent).toNat
      Int64.ofInt (if x.negative then -n else n)

variable (A : DoubleArithmetic)

/-- `std::stod` -/
def stod (s : Str) : Except StdException A.Double :=
  match readFloat s with
  | none => .error (.invalidArgument (lit "stod"))
  | some (.infinity negative) => .ok (A.infinity negative)
  | some .nan => .ok A.nan
  | some (.finite x) =>
    match A.ofScientific x with
    | some d => .ok d
    | none => .error (.outOfRange (lit "stod"))

/-! ## The parsers -/

/-- `remove_if` with `isspace`, and `erase`. -/
def withoutSpaces (s : Str) : Str := s.filter fun c => !isSpace c

/-- Comparison of an `istring_view`. -/
def ciEq (a : Str) (b : String) : Bool := a.map toLower == (lit b).map toLower

def parseByteUnits (bytesWithUnit : Str) : Except StdException UInt64 := do
  let text := withoutSpaces bytesWithUnit
  let value ← stoul (cStr text)
  match text.dropWhile isDigit with
  | [] => pure value
  | unit =>
    if ciEq unit "b" then pure value
    else if ciEq unit "kb" then pure (value * 1024)
    else if ciEq unit "mb" then pure (value * 1024 * 1024)
    else if ciEq unit "gb" then pure (value * 1024 * 1024 * 1024)
    else throw (.invalidArgument (lit "Invalid byte unit."))

def convertDurationWithUnit (timeWithUnit : Str) : Except StdException Int64 := do
  let text := withoutSpaces timeWithUnit
  let timeValue ← stod A (cStr text)
  match text.dropWhile fun c => isDigit c || c == 46 with
  | [] => pure (A.milliseconds .ms timeValue)
  | unit =>
    if unit = lit "ms" then pure (A.milliseconds .ms timeValue)
    else if unit = lit "s" then pure (A.milliseconds .s timeValue)
    else if unit = lit "m" then pure (A.milliseconds .m timeValue)
    else throw (.invalidArgument (lit "Invalid time unit."))

def trim (value : Str) : Str := ((value.dropWhile isSpace).reverse.dropWhile isSpace).reverse

/-- `std::from_chars` for an `int`; `none` for an error. -/
def fromChars (s : Str) : Option ℤ :=
  let negative := s.head? = some 45
  let digits := (if negative then s.drop 1 else s).takeWhile isDigit
  let n : ℤ := if negative then -(digitsValue digits : ℤ) else digitsValue digits
  if digits.isEmpty || n < -(2 ^ 31) || n ≥ 2 ^ 31 then none else some n

def parseBoolean (val : Str) : Bool :=
  let value := trim val
  if value.isEmpty then false
  else if ciEq value "true" || ciEq value "yes" || ciEq value "on" then true
  else
    match fromChars value with
    | some iVal => iVal != 0
    | none => false

inductive LogLevel
  | off
  | critical
  | error
  | warning
  | info
  | debug
  | trace
deriving DecidableEq, Repr

/-- `levels` -/
def levels : List (String × LogLevel) :=
  [("OFF", .off), ("CRITICAL", .critical), ("ERROR", .error), ("WARNING", .warning), ("INFO", .info), ("DEBUG", .debug),
    ("TRACE", .trace)]

def parseLogLevel (val : Str) : Except StdException LogLevel :=
  match levels.find? fun l => ciEq (trim val) l.1 with
  | some l => .ok l.2
  | none => .error (.invalidArgument (lit "Unknown log level: " ++ val))

/-! ## Texts that are out of range -/

/-- The exception is no `std::invalid_argument`. -/
def StdException.IsOutOfRange : StdException → Prop
  | .invalidArgument _ => False
  | .outOfRange _ => True

/-- The parser throws `std::out_of_range`. -/
def ThrowsOutOfRange {α : Type} (r : Except StdException α) : Prop := ∃ e, r = .error e ∧ e.IsOutOfRange

/-- The text begins with an integer of more than 64 bits. -/
def BytesOutOfRange (text : Str) : Prop :=
  ∃ negative n, readInteger (cStr (withoutSpaces text)) = some (negative, n) ∧ 2 ^ 64 ≤ n

/-- The text begins with a number for which `strtod` sets `ERANGE`. -/
def DurationOutOfRange (text : Str) : Prop :=
  ∃ x, readFloat (cStr (withoutSpaces text)) = some (.finite x) ∧ A.ofScientific x = none

section

variable {A}

@[simp] theorem throwsOutOfRange_ok {α : Type} (a : α) : ¬ ThrowsOutOfRange (.ok a : Except StdException α) := by
  rintro ⟨e, he, -⟩
  cases he

@[simp] theorem throwsOutOfRange_error {α : Type} (e : StdException) :
    ThrowsOutOfRange (.error e : Except StdException α) ↔ e.IsOutOfRange := by
  constructor
  · rintro ⟨e', he, h⟩
    cases he
    exact h
  · intro h
    exact ⟨e, rfl, h⟩

theorem not_throwsOutOfRange_invalidArgument {α : Type} (what : Str) :
    ¬ ThrowsOutOfRange (.error (.invalidArgument what) : Except StdException α) :=
  (throwsOutOfRange_error _).not.mpr id

/-- A conversion whose continuation throws `std::invalid_argument` at most. -/
theorem throwsOutOfRange_bind {α β : Type} {x : Except StdException α} {f : α → Except StdException β}
    (hf : ∀ a, ¬ ThrowsOutOfRange (f a)) : ThrowsOutOfRange (x >>= f) ↔ ThrowsOutOfRange x := by
  cases x with
  | error e => exact (throwsOutOfRange_error e).trans (throwsOutOfRange_error e).symm
  | ok a => exact iff_of_false (hf a) (throwsOutOfRange_ok a)

theorem throwsOutOfRange_stoul (s : Str) :
    ThrowsOutOfRange (stoul s) ↔ ∃ negative n, readInteger s = some (negative, n) ∧ 2 ^ 64 ≤ n := by
  rw [stoul]
  cases readInteger s with
  | none => simp [StdException.IsOutOfRange]
  | some p =>
    obtain ⟨negative, n⟩ := p
    by_cases hn : n < 2 ^ 64
    · simp only [hn, if_true, throwsOutOfRange_ok, false_iff]
      rintro ⟨negative', n', h, hle⟩
      cases h
      omega
    · simp only [hn, if_false, throwsOutOfRange_error, StdException.IsOutOfRange, true_iff]
      exact ⟨negative, n, rfl, Nat.le_of_not_lt hn⟩

theorem throwsOutOfRange_stod (s : Str) :
    ThrowsOutOfRange (stod A s) ↔ ∃ x, readFloat s = some (.finite x) ∧ A.ofScientific x = none := by
  rw [stod]
  cases readFloat s with
  | none => simp [StdException.IsOutOfRange]
  | some text =>
    cases text with
    | finite x => cases hx : A.ofScientific x <;> simp [hx, StdException.IsOutOfRange]
    | infinity negative => simp
    | nan => simp

theorem throwsOutOfRange_parseByteUnits (text : Str) :
    ThrowsOutOfRange (parseByteUnits text) ↔ BytesOutOfRange text := by
  rw [parseByteUnits, throwsOutOfRange_bind, throwsOutOfRange_stoul, BytesOutOfRange]
  intro value
  split
  · exact throwsOutOfRange_ok _
  · split_ifs
    all_goals first | exact throwsOutOfRange_ok _ | exact not_throwsOutOfRange_invalidArgument _

theorem throwsOutOfRange_convertDurationWithUnit (text : Str) :
    ThrowsOutOfRange (convertDurationWithUnit A text) ↔ DurationOutOfRange A text := by
  rw [convertDurationWithUnit, throwsOutOfRange_bind, throwsOutOfRange_stod, DurationOutOfRange]
  intro timeValue
  split
  · exact throwsOutOfRange_ok _
  · split_ifs
    all_goals first | exact throwsOutOfRange_ok _ | exact not_throwsOutOfRange_invalidArgument _

theorem throwsOutOfRange_parseLogLevel (val : Str) : ¬ ThrowsOutOfRange (parseLogLevel val) := by
  rw [parseLogLevel]
  split
  · exact throwsOutOfRange_ok _
  · exact not_throwsOutOfRange_invalidArgument _

end

end OtelDistro.Config
