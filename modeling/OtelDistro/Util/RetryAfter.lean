import OtelDistro.Config.OptionParsers
import OtelDistro.Lib.SelfDelimiting
import Mathlib.Tactic.IntervalCases

/-!
# OtelDistro.Util.RetryAfter — the value of a `Retry-After` header

`parseRetryAfter` of `CommonUtils.cpp` over `std::stoi` and `std::get_time`: a number of seconds, or else a date in the
format `%a, %d %b %Y %H:%M:%S GMT`.  It reads `value.data()`, so it also sees the bytes behind the view.

* `RetryAfterValue`: the two forms a value has in HTTP, and the delay each asks for.

`parseRetryAfter_seconds`, `parseRetryAfter_date`: a valid value is read as what it asks for, unless an `int` cannot hold
the seconds.
-/

namespace OtelDistro.Util

open OtelDistro.Lib
open OtelDistro.Config (isSpace isDigit digitsValue sign)

/-! ## The standard library -/

/-- `std::stoi` in base 10: the number and how many bytes were read; `none` where it throws. -/
def stoi (s : Str) : Option (ℤ × ℕ) :=
  let (negative, rest) := sign (s.dropWhile isSpace)
  let digits := rest.takeWhile isDigit
  let n : ℤ := if negative then -(digitsValue digits : ℤ) else digitsValue digits
  if digits.isEmpty ∨ n < -2 ^ 31 ∨ 2 ^ 31 ≤ n then none
  else some (n, s.length - rest.length + digits.length)

/-- The fields of `std::tm` that are read; `year` counts from the year 0. -/
structure Tm where
  day : ℕ
  month : ℕ
  year : ℕ
  hour : ℕ
  minute : ℕ
  second : ℕ
deriving DecidableEq, Repr

def dayNames : List Str :=
  ["Sunday", "Monday", "Tuesday", "Wednesday", "Thursday", "Friday", "Saturday"].map lit

def monthNames : List Str :=
  ["January", "February", "March", "April", "May", "June", "July", "August", "September", "October", "November",
    "December"].map lit

/-- `text` up to the case of letters. -/
def readText (text s : Str) : Option Str :=
  if (text.map toLower).isPrefixOf (s.map toLower) then some (s.drop text.length) else none

/-- A name in full or by its first three letters: which one, and what follows. -/
def readName (names : List Str) (s : Str) : Option (ℕ × Str) :=
  (names.zipIdx.findSome? fun (name, i) => (readText name s).map fun rest => (i, rest)).or
    (names.zipIdx.findSome? fun (name, i) => (readText (name.take 3) s).map fun rest => (i, rest))

/-- A number of at most `width` digits from `lo` to `hi`. -/
def readNumber (width lo hi : ℕ) (s : Str) : Option (ℕ × Str) :=
  let digits := (s.take width).takeWhile isDigit
  if digits ≠ [] ∧ lo ≤ digitsValue digits ∧ digitsValue digits ≤ hi then
    some (digitsValue digits, s.drop digits.length)
  else none

/-- `std::get_time` with the format `%a, %d %b %Y %H:%M:%S GMT`; a space in the format stands for any number of spaces. -/
def getTime (s : Str) : Option Tm := do
  let (_, s) ← readName dayNames (s.dropWhile isSpace)
  let s ← readText (lit ",") s
  let (day, s) ← readNumber 2 1 31 (s.dropWhile isSpace)
  let (month, s) ← readName monthNames (s.dropWhile isSpace)
  let (year, s) ← readNumber 4 0 9999 (s.dropWhile isSpace)
  let (hour, s) ← readNumber 2 0 23 (s.dropWhile isSpace)
  let s ← readText (lit ":") s
  let (minute, s) ← readNumber 2 0 59 s
  let s ← readText (lit ":") s
  let (second, s) ← readNumber 2 0 60 s
  let _ ← readText (lit "GMT") (s.dropWhile isSpace)
  return ⟨day, month, year, hour, minute, second⟩

/-- Days since 1970-01-01; a year begins in March here, and `month` counts from January as 0. -/
def sysDays (year month day : ℕ) : ℤ :=
  let y : ℤ := if month < 2 then year - 1 else year
  let m : ℤ := (month + 10) % 12
  365 * y + y / 4 - y / 100 + y / 400 + (153 * m + 2) / 5 + day - 719469

/-- Seconds since 1970. -/
def Tm.sysSeconds (tm : Tm) : ℤ :=
  86400 * sysDays tm.year tm.month tm.day + 3600 * tm.hour + 60 * tm.minute + tm.second

/-! ## `parseRetryAfter` -/

/-- The delay in milliseconds; `behind` follows the view in memory, `now` is the system clock in seconds. -/
def parseRetryAfter (value behind : Str) (now : ℤ) : Option ℤ :=
  let date : Option ℤ := (getTime (cStr (value ++ behind))).map fun tm =>
    if tm.sysSeconds ≤ now then 0 else 1000 * (tm.sysSeconds - now)
  match stoi (cStr (value ++ behind)) with
  | none => date
  | some (seconds, idx) => if idx = value.length ∧ 0 ≤ seconds then some (1000 * seconds) else date

example : parseRetryAfter (lit "120") [13, 10] 0 = some 120000 := by decide

example : parseRetryAfter (lit "not-a-number") [] 0 = none := by decide

example : parseRetryAfter (lit "Wed, 01 Jan 2000 00:00:00 GMT") [] 946684740 = some 60000 := by decide

/-! ## What is valid -/

/-- `n` with `width` decimal digits. -/
def padded : ℕ → ℕ → Str
  | 0, _ => []
  | width + 1, n => padded width (n / 10) ++ [(48 + n % 10).toUInt8]

/-- A date as it stands in HTTP headers. -/
structure HttpDate extends Tm where
  weekday : ℕ
  weekday_lt : weekday < 7 := by decide
  day_ok : 1 ≤ day ∧ day ≤ 31 := by decide
  month_lt : month < 12 := by decide
  year_le : year ≤ 9999 := by decide
  hour_le : hour ≤ 23 := by decide
  minute_le : minute ≤ 59 := by decide
  second_le : second ≤ 60 := by decide

def HttpDate.text (d : HttpDate) : Str :=
  (dayNames.getD d.weekday []).take 3 ++ lit ", " ++ padded 2 d.day ++ lit " " ++ (monthNames.getD d.month []).take 3 ++
    lit " " ++ padded 4 d.year ++ lit " " ++ padded 2 d.hour ++ lit ":" ++ padded 2 d.minute ++ lit ":" ++
    padded 2 d.second ++ lit " GMT"

/-- The value asks for a delay of `ms` milliseconds. -/
inductive RetryAfterValue (now : ℤ) : Str → ℤ → Prop
  | seconds (digits : Str) (hne : digits ≠ []) (hdigits : ∀ c ∈ digits, isDigit c = true) :
      RetryAfterValue now digits (1000 * digitsValue digits)
  | date (d : HttpDate) : RetryAfterValue now d.text (1000 * (d.sysSeconds - now))

section Valid

variable {s behind : Str} {c : UInt8} {n width lo hi : ℕ}

theorem not_isSpace_of_isDigit (h : isDigit c = true) : isSpace c = false := by
  simp only [isDigit, isSpace, Bool.and_eq_true, decide_eq_true_eq, Bool.or_eq_false_iff, beq_eq_false_iff_ne,
    Bool.and_eq_false_iff, decide_eq_false_iff_not, UInt8.le_iff_toNat_le] at h ⊢
  obtain ⟨h1, -⟩ := h
  have h48 : (48 : UInt8).toNat = 48 := rfl
  have h13 : (13 : UInt8).toNat = 13 := rfl
  refine ⟨fun e => ?_, .inr (by omega)⟩
  subst e
  exact absurd h1 (by decide)

theorem digitsValue_snoc (s : Str) (c : UInt8) : digitsValue (s ++ [c]) = digitsValue s * 10 + (c.toNat - 48) := by
  rw [digitsValue, List.foldl_append]
  rfl

theorem toNat_digit (n : ℕ) : ((48 + n % 10).toUInt8).toNat = 48 + n % 10 := by
  rw [Nat.toUInt8, UInt8.toNat_ofNat']
  omega

theorem length_padded (width n : ℕ) : (padded width n).length = width := by
  induction width generalizing n with
  | zero => rfl
  | succ width ih => rw [padded, List.length_append, ih, List.length_singleton]

theorem isDigit_of_mem_padded (h : c ∈ padded width n) : isDigit c = true := by
  induction width generalizing n with
  | zero => cases h
  | succ width ih =>
    rw [padded, List.mem_append, List.mem_singleton] at h
    rcases h with h | rfl
    · exact ih h
    · have h48 : (48 : UInt8).toNat = 48 := rfl
      have h57 : (57 : UInt8).toNat = 57 := rfl
      have := toNat_digit n
      simp only [isDigit, Bool.and_eq_true, decide_eq_true_eq, UInt8.le_iff_toNat_le]
      omega

theorem digitsValue_padded (h : n < 10 ^ width) : digitsValue (padded width n) = n := by
  induction width generalizing n with
  | zero =>
    rw [Nat.pow_zero, Nat.lt_one_iff] at h
    rw [h]
    rfl
  | succ width ih =>
    rw [padded, digitsValue_snoc, ih (by rw [Nat.pow_succ] at h; omega), toNat_digit]
    omega

/-- A number of full width is read back, whatever follows. -/
theorem readNumber_padded (hn : n < 10 ^ (width + 1)) (hlo : lo ≤ n) (hhi : n ≤ hi) :
    readNumber (width + 1) lo hi (padded (width + 1) n ++ s) = some (n, s) := by
  have hlen := length_padded (width + 1) n
  have htake : (padded (width + 1) n ++ s).take (width + 1) = padded (width + 1) n := List.take_left' hlen
  have hall : (padded (width + 1) n).takeWhile isDigit = padded (width + 1) n :=
    List.takeWhile_eq_self_iff.mpr fun c hc => isDigit_of_mem_padded hc
  have hne : padded (width + 1) n ≠ [] := List.ne_nil_of_length_pos (by omega)
  rw [readNumber, htake, hall, digitsValue_padded hn, if_pos ⟨hne, hlo, hhi⟩, List.drop_left]

theorem readName_weekday (hn : n < 7) (s : Str) :
    readName dayNames ((dayNames.getD n []).take 3 ++ (lit ", " ++ s)) = some (n, lit ", " ++ s) := by
  interval_cases n <;> rfl

theorem readName_month (hn : n < 12) (s : Str) :
    readName monthNames ((monthNames.getD n []).take 3 ++ (lit " " ++ s)) = some (n, lit " " ++ s) := by
  interval_cases n <;> rfl

theorem dropWhile_isSpace_weekday (hn : n < 7) (s : Str) :
    ((dayNames.getD n []).take 3 ++ s).dropWhile isSpace = (dayNames.getD n []).take 3 ++ s := by
  interval_cases n <;> rfl

theorem dropWhile_isSpace_month (hn : n < 12) (s : Str) :
    ((monthNames.getD n []).take 3 ++ s).dropWhile isSpace = (monthNames.getD n []).take 3 ++ s := by
  interval_cases n <;> rfl

theorem dropWhile_isSpace_padded (s : Str) : (padded (width + 1) n ++ s).dropWhile isSpace = padded (width + 1) n ++ s := by
  obtain ⟨c, t, hct⟩ := List.exists_cons_of_length_pos (l := padded (width + 1) n) (by rw [length_padded]; omega)
  have hc : isSpace c = false := not_isSpace_of_isDigit (isDigit_of_mem_padded (hct ▸ List.mem_cons_self))
  rw [hct, List.cons_append, List.dropWhile_cons_of_neg (by simp [hc])]

/-- A date is read back, whatever follows. -/
theorem getTime_text (d : HttpDate) (s : Str) : getTime (d.text ++ s) = some d.toTm := by
  have hspace : ∀ t, (lit " " ++ t).dropWhile isSpace = t.dropWhile isSpace := fun t => rfl
  have hcomma : ∀ t, readText (lit ",") (lit ", " ++ t) = some (lit " " ++ t) := fun t => rfl
  have hcolon : ∀ t, readText (lit ":") (lit ":" ++ t) = some t := fun t => rfl
  have hgmt : ∀ t, readText (lit "GMT") ((lit " GMT" ++ t).dropWhile isSpace) = some t := fun t => rfl
  have hday : ∀ t, readNumber 2 1 31 (padded 2 d.day ++ t) = some (d.day, t) :=
    fun t => readNumber_padded (by have := d.day_ok; omega) d.day_ok.1 d.day_ok.2
  have hyear : ∀ t, readNumber 4 0 9999 (padded 4 d.year ++ t) = some (d.year, t) :=
    fun t => readNumber_padded (by have := d.year_le; omega) d.year.zero_le d.year_le
  have hhour : ∀ t, readNumber 2 0 23 (padded 2 d.hour ++ t) = some (d.hour, t) :=
    fun t => readNumber_padded (by have := d.hour_le; omega) d.hour.zero_le d.hour_le
  have hminute : ∀ t, readNumber 2 0 59 (padded 2 d.minute ++ t) = some (d.minute, t) :=
    fun t => readNumber_padded (by have := d.minute_le; omega) d.minute.zero_le d.minute_le
  have hsecond : ∀ t, readNumber 2 0 60 (padded 2 d.second ++ t) = some (d.second, t) :=
    fun t => readNumber_padded (by have := d.second_le; omega) d.second.zero_le d.second_le
  simp only [getTime, HttpDate.text, List.append_assoc, Option.bind_eq_bind, Option.bind_some, hspace, hcomma, hcolon, hgmt,
    dropWhile_isSpace_weekday d.weekday_lt, readName_weekday d.weekday_lt, dropWhile_isSpace_month d.month_lt,
    readName_month d.month_lt, dropWhile_isSpace_padded, hday, hyear, hhour, hminute, hsecond]
  rfl

/-- A valid value ends before the bytes behind it, and has no NUL byte. -/
theorem cStr_append (h : NulFree s) (t : Str) : cStr (s ++ t) = s ++ cStr t := by
  have hs := cStr_eq_self_iff.mpr h
  rw [cStr, List.takeWhile_append, ← cStr, ← cStr, hs, if_pos rfl]

theorem nulFree_padded : NulFree (padded width n) := by
  intro h
  exact absurd (isDigit_of_mem_padded h) (by decide)

theorem nulFree_text (d : HttpDate) : NulFree d.text := by
  have hday : ∀ n < 7, (0 : UInt8) ∉ (dayNames.getD n []).take 3 := by decide
  have hmonth : ∀ n < 12, (0 : UInt8) ∉ (monthNames.getD n []).take 3 := by decide
  have hpadded : ∀ width n, (0 : UInt8) ∉ padded width n := fun _ _ => nulFree_padded
  have hlit : (0 : UInt8) ∉ lit ", " ∧ (0 : UInt8) ∉ lit " " ∧ (0 : UInt8) ∉ lit ":" ∧ (0 : UInt8) ∉ lit " GMT" := by decide
  simp only [NulFree, HttpDate.text, List.mem_append, hday _ d.weekday_lt, hmonth _ d.month_lt, hpadded, hlit, or_self,
    not_false_eq_true]

theorem stops_cStr {p : UInt8 → Bool} (h : Stops p behind) : Stops p (cStr behind) := by
  cases behind with
  | nil => exact h
  | cons c t =>
    have hc : p c = false := h c rfl
    by_cases h0 : c = 0
    · subst h0
      exact stops_nil p
    · rw [cStr, List.takeWhile_cons_of_pos (by simpa using h0)]
      exact stops_cons hc

/-- Digits are read as seconds, if an `int` can hold them. -/
theorem parseRetryAfter_seconds (hne : s ≠ []) (hdigits : ∀ c ∈ s, isDigit c = true) (hint : digitsValue s < 2 ^ 31)
    (hbehind : Stops isDigit behind) (now : ℤ) : parseRetryAfter s behind now = some (1000 * digitsValue s) := by
  have hnul : NulFree s := fun h => absurd (hdigits 0 h) (by decide)
  obtain ⟨c, t, rfl⟩ := List.exists_cons_of_ne_nil hne
  have hc := hdigits c List.mem_cons_self
  have hsign : sign (c :: (t ++ cStr behind)) = (false, c :: (t ++ cStr behind)) := by
    unfold sign
    split
    · rename_i heq
      cases heq
      cases hc
    · rename_i heq
      cases heq
      cases hc
    · rfl
  have htake : (c :: (t ++ cStr behind)).takeWhile isDigit = c :: t :=
    takeWhile_of_stops (s := c :: t) hdigits (stops_cStr hbehind)
  have hstoi : stoi (c :: (t ++ cStr behind)) = some ((digitsValue (c :: t) : ℤ), (c :: t).length) := by
    unfold stoi
    rw [List.dropWhile_cons_of_neg (by simp [not_isSpace_of_isDigit hc]), hsign]
    simp only [htake, Nat.sub_self, Nat.zero_add, Bool.false_eq_true, if_false]
    rw [if_neg]
    rintro (h | h | h)
    · cases h
    · omega
    · omega
  rw [parseRetryAfter, cStr_append hnul, List.cons_append, hstoi]
  simp

/-- A date is read as the time until then. -/
theorem parseRetryAfter_date (d : HttpDate) (behind : Str) (now : ℤ) :
    parseRetryAfter d.text behind now = some (max 0 (1000 * (d.sysSeconds - now))) := by
  have hstoi : ∀ n < 7, ∀ t, stoi ((dayNames.getD n []).take 3 ++ t) = none := by
    intro n hn t
    unfold stoi
    rw [dropWhile_isSpace_weekday hn]
    interval_cases n <;> rfl
  rw [parseRetryAfter, cStr_append (nulFree_text d), getTime_text]
  simp only [HttpDate.text, List.append_assoc, hstoi _ d.weekday_lt, Option.map_some, Option.some.injEq]
  split <;> omega

end Valid

end OtelDistro.Util
