import OtelDistro.Bytes
import OtelDistro.Lib.Replace
import Mathlib.Data.List.Infix

/-!
# OtelDistro.Logging.StartupPreamble — the environment in the startup log

`logStartupPreamble` logs command line and environment of the process, with the value of `OTEL_EXPORTER_OTLP_HEADERS` replaced by
`***`.  Where that value ends is decided in the flattened text, by the pattern `NAME=("[^"]*"|[^,\s]*)`.

* `sanitizeKeyValueString`, `getProcDataToString`, `logStartupPreamble`: the code.
* `Header`, `headersText`: values of the documented form `key=value,key2=value2`.
* `exposed`: what is left of such a value.
* `preamble_eq_iff`: when two values leave the same log.
-/

namespace OtelDistro.Logging

open Lib

/-! ## The code -/

/-- `,` or `\s` (in the C locale). -/
def endsValue (c : UInt8) : Bool := c == 44 || c == 32 || (9 ≤ c && c ≤ 13)

/-- `"` -/
abbrev quote : UInt8 := 34

/-- The length of `("[^"]*"|[^,\s]*)` at the beginning of a text: the first alternative if it matches. -/
def valueLength : Str → ℕ
  | [] => 0
  | c :: rest =>
    if c = quote ∧ quote ∈ rest then (rest.takeWhile (fun b => b ≠ quote)).length + 2
    else ((c :: rest).takeWhile (fun b => !endsValue b)).length

/-- `text` begins with `name`, up to the case of letters. -/
def startsWith (name text : Str) : Bool := (name.map toLower).isPrefixOf (text.map toLower)

/-- The length of the match of `tokenName + R"(=("[^"]*"|[^,\s]*))"` at the beginning of a text; `tokenName` is a word. -/
def matchLength (tokenName text : Str) : ℕ :=
  if startsWith (tokenName ++ lit "=") text then
    tokenName.length + 1 + valueLength (text.drop (tokenName.length + 1))
  else 0

def sanitizeKeyValueString (tokenName text : Str) : Str :=
  replaceAll (matchLength tokenName) (tokenName ++ lit "=***") 0 text

/-- The bytes of a file of `/proc/self`. -/
def getProcDataToString (file : Str) : Str := file.map fun data => if data = 0 then 32 else data

/-- `/proc/self/environ` -/
def environFile (environ : List Str) : Str := environ.flatMap fun entry => entry ++ [0]

/-- `"%*s%s"` with the width `-40`. -/
def row (title text : Str) : Str := title ++ List.replicate (40 - title.length) 32 ++ text

/-- The constants and the customisation the lines above name. -/
structure Distribution where
  vendorCustomizations : Option (Str × Str)
  productName : Str
  version : Str

def OTEL_EXPORTER_OTLP_HEADERS : Str := lit "OTEL_EXPORTER_OTLP_HEADERS"

/-- The messages logged. -/
def logStartupPreamble (distribution : Distribution) (cmdlineFile environFile : Str) : List Str :=
  (match distribution.vendorCustomizations with
    | some (distributionName, distributionVersion) =>
      [distributionName ++ lit " version: " ++ distributionVersion,
        row (lit "OpenTelemetry distro base version:") distribution.version]
    | none => [distribution.productName, row (lit "Native part version:") distribution.version]) ++
  [row (lit "Process command line:")
      (cStr (sanitizeKeyValueString OTEL_EXPORTER_OTLP_HEADERS (getProcDataToString cmdlineFile))),
    row (lit "Process environment:")
      (cStr (sanitizeKeyValueString OTEL_EXPORTER_OTLP_HEADERS (getProcDataToString environFile)))]

/-! ## Values of the documented form -/

/-- One `key=value`. -/
structure Header where
  key : Str
  value : Str
  key_ne : key ≠ []
  key_ok : ∀ c ∈ key, c ≠ quote ∧ c ≠ 44 ∧ c ≠ 61 ∧ c ≠ 0
  value_ok : ∀ c ∈ value, c ≠ 44 ∧ c ≠ 0

def Header.text (h : Header) : Str := h.key ++ lit "=" ++ h.value

/-- `key=value,key2=value2` -/
def headersText : List Header → Str
  | [] => []
  | [h] => h.text
  | h :: rest => h.text ++ lit "," ++ headersText rest

/-- The environment whose value of the variable is `value`, between the entries `before` and `after`. -/
def withHeaders (before : List Str) (value : Str) (after : List Str) : List Str :=
  before ++ (OTEL_EXPORTER_OTLP_HEADERS ++ lit "=" ++ value) :: after

/-! ## What is left of a value -/

/-- What is left of a text, where `hidden` tells that the bytes up to the next comma or white space are not shown.  The
variable's own name and `=` hide the bytes that follow them. -/
def exposed (tokenName : Str) : Bool → Str → Str
  | _, [] => []
  | hidden, c :: rest =>
    if endsValue c then c :: exposed tokenName false rest
    else if hidden then exposed tokenName true rest
    else if startsWith (tokenName ++ lit "=") (c :: rest) then
      tokenName ++ lit "=***" ++ exposed tokenName true rest
    else c :: exposed tokenName false rest

/-- The variable's own name, `=` and a quote that is not closed in the text. -/
def OpensQuote (tokenName text : Str) : Prop :=
  ∃ s ∈ tried (matchLength tokenName) 0 text, startsWith (tokenName ++ lit "=") s = true ∧
    ∃ rest, s.drop (tokenName.length + 1) = quote :: rest ∧ quote ∉ rest

/-- No quote behind the variable's own name and `=`. -/
def NoOwnQuote (tokenName text : Str) : Prop :=
  ∀ s ∈ text.tails, startsWith (tokenName ++ lit "=" ++ [quote]) s = false

/-- Quotes of the value delimit nothing: the text before it leaves no quote open for them to close, and behind its first
comma or white space they do not follow the variable's own name and `=`. -/
def PlainQuotes (tokenName before value : Str) : Prop :=
  quote ∉ value ∨ ¬ OpensQuote tokenName before ∧ NoOwnQuote tokenName (value.dropWhile fun b => !endsValue b)

/-! ## Where a match ends -/

theorem toLower_eq_of_not_letter {c : UInt8} (h : ¬ (65 ≤ c ∧ c ≤ 90)) : toLower c = c := if_neg h

theorem toLower_eq_quote {c : UInt8} (h : toLower c = toLower quote) : c = quote := by
  by_cases hc : 65 ≤ c ∧ c ≤ 90
  · rw [toLower, if_pos hc] at h
    obtain ⟨h1, h2⟩ := hc
    rw [UInt8.le_iff_toNat_le] at h1 h2
    have h3 := congrArg UInt8.toNat h
    rw [UInt8.toNat_add, show (32 : UInt8).toNat = 32 from rfl, show (toLower quote).toNat = 34 from rfl] at h3
    have h4 : (65 : UInt8).toNat = 65 := rfl
    have h5 : (90 : UInt8).toNat = 90 := rfl
    omega
  · rwa [toLower_eq_of_not_letter hc] at h

/-- Case does not move the end of a value. -/
theorem endsValue_toLower (c : UInt8) : endsValue (toLower c) = endsValue c := by
  by_cases h : 65 ≤ c ∧ c ≤ 90
  · have hne : ∀ d : UInt8, 65 ≤ d → endsValue d = false := by
      intro d hd
      rw [UInt8.le_iff_toNat_le] at hd
      have h44 : d ≠ 44 := by rintro rfl; exact absurd hd (by decide)
      have h32 : d ≠ 32 := by rintro rfl; exact absurd hd (by decide)
      have h13 : ¬ d ≤ 13 := by
        rw [UInt8.le_iff_toNat_le]
        exact fun h => absurd (hd.trans h) (by decide)
      simp [endsValue, h44, h32, h13]
    rw [hne c h.1, toLower, if_pos h]
    apply hne
    obtain ⟨h1, h2⟩ := h
    rw [UInt8.le_iff_toNat_le] at h1 h2 ⊢
    have h3 : (65 : UInt8).toNat = 65 := rfl
    have h4 : (90 : UInt8).toNat = 90 := rfl
    have h5 : (32 : UInt8).toNat = 32 := rfl
    rw [UInt8.toNat_add, h3, h5]
    omega
  · rw [toLower_eq_of_not_letter h]

theorem startsWith_iff {name text : Str} :
    startsWith name text = true ↔ name.map toLower = (text.take name.length).map toLower := by
  rw [startsWith, List.isPrefixOf_iff_prefix, List.prefix_iff_eq_take, List.length_map, List.map_take]

theorem startsWith_append {name s : Str} (x : Str) (h : name.length ≤ s.length) :
    startsWith name (s ++ x) = startsWith name s := by
  rw [Bool.eq_iff_iff, startsWith_iff, startsWith_iff, List.take_append_of_le_length h]

theorem startsWith_self (name x : Str) : startsWith name (name ++ x) = true := by
  rw [startsWith_iff, List.take_left']
  rfl

/-- A text that begins with a word has no end of a value in it. -/
theorem not_endsValue_of_startsWith {name text : Str} (hname : ∀ c ∈ name, endsValue c = false)
    (h : startsWith name text = true) : ∀ c ∈ text.take name.length, endsValue c = false := by
  intro c hc
  rw [startsWith_iff] at h
  have hmem : toLower c ∈ name.map toLower := h ▸ List.mem_map_of_mem hc
  obtain ⟨d, hd, hdc⟩ := List.mem_map.mp hmem
  rw [← endsValue_toLower c, ← hdc, endsValue_toLower d]
  exact hname d hd

theorem length_le_of_startsWith {name text : Str} (h : startsWith name text = true) : name.length ≤ text.length := by
  rw [startsWith_iff] at h
  have := congrArg List.length h
  rw [List.length_map, List.length_map, List.length_take] at this
  omega

/-- A value cannot go on from `s` into `x`. -/
def Bounded (s x : Str) : Prop :=
  (∃ s' c, s = s' ++ [c] ∧ endsValue c = true) ∨ ∃ c x', x = c :: x' ∧ endsValue c = true

theorem Bounded.of_suffix {s t x : Str} (h : Bounded s x) (hts : t <:+ s) (ht : t ≠ []) : Bounded t x := by
  rcases h with ⟨s', c, rfl, hc⟩ | h
  · obtain ⟨t', d, rfl⟩ : ∃ t' d, t = t' ++ [d] := ⟨_, _, (List.dropLast_append_getLast ht).symm⟩
    obtain ⟨u, hu⟩ := hts
    rw [← List.append_assoc] at hu
    obtain ⟨-, hdc⟩ := List.append_inj' hu rfl
    obtain rfl : d = c := List.cons.inj hdc |>.1
    exact .inl ⟨t', d, rfl, hc⟩
  · exact .inr h

theorem takeWhile_of_bounded {w x : Str} (h : Bounded w x) :
    (w ++ x).takeWhile (fun b => !endsValue b) = w.takeWhile (fun b => !endsValue b) := by
  rw [List.takeWhile_append]
  split
  · next hlen =>
    have hw : w.takeWhile (fun b => !endsValue b) = w := List.IsPrefix.eq_of_length (List.takeWhile_prefix _) hlen
    rcases h with ⟨w', c, rfl, hc⟩ | ⟨c, x', rfl, hc⟩
    · have := List.takeWhile_eq_self_iff.mp hw c (by simp)
      simp [hc] at this
    · rw [List.takeWhile_cons_of_neg (by simp [hc]), List.append_nil, hw]
  · rfl

/-- `dropWhile` by the length of `takeWhile`. -/
theorem drop_takeWhile (p : UInt8 → Bool) (w : Str) : w.drop (w.takeWhile p).length = w.dropWhile p := by
  induction w with
  | nil => rfl
  | cons c w ih => cases hc : p c <;> simp [hc, ih]

theorem valueLength_of_not_quoted {w : Str} (h : ∀ rest, w = quote :: rest → quote ∉ rest) :
    valueLength w = (w.takeWhile fun b => !endsValue b).length := by
  cases w with
  | nil => rfl
  | cons c rest => rw [valueLength, if_neg fun hq => h rest (by rw [hq.1]) hq.2]

/-- A quoted text ends at the next quote. -/
theorem valueLength_quoted {s rest : Str} (hs : quote ∉ s) : valueLength (quote :: (s ++ quote :: rest)) = s.length + 2 := by
  rw [valueLength, if_pos ⟨rfl, by simp⟩, List.takeWhile_append_of_pos fun b hb => by simpa using ne_of_mem_of_not_mem hb hs,
    List.takeWhile_cons_of_neg (by simp), List.append_nil]

theorem valueLength_append {w x : Str} (h : Bounded w x) (hq : ∀ rest, w = quote :: rest → quote ∉ rest → quote ∉ x) :
    valueLength (w ++ x) = valueLength w := by
  by_cases hquoted : ∃ s rest, w = quote :: (s ++ quote :: rest) ∧ quote ∉ s
  · obtain ⟨s, rest, rfl, hs⟩ := hquoted
    rw [List.cons_append, List.append_assoc, List.cons_append, valueLength_quoted hs, valueLength_quoted hs]
  · have hopen : ∀ rest, w = quote :: rest → quote ∉ rest := by
      rintro rest rfl hmem
      obtain ⟨s, t, rfl, hs⟩ := List.eq_append_cons_of_mem hmem
      exact hquoted ⟨s, t, rfl, hs⟩
    rw [valueLength_of_not_quoted hopen, valueLength_of_not_quoted, takeWhile_of_bounded h]
    intro rest hrest
    cases w with
    | nil =>
      rcases h with ⟨s', c, hs', -⟩ | ⟨c, x', rfl, hc⟩
      · simp at hs'
      · obtain rfl : c = quote := (List.cons.inj hrest).1
        exact absurd hc (by decide)
    | cons c w =>
      obtain ⟨rfl, rfl⟩ := List.cons.inj hrest
      have hnot : quote ∉ w ++ x := by
        rw [List.mem_append, not_or]
        exact ⟨hopen w rfl, hq w rfl (hopen w rfl)⟩
      exact hnot

theorem valueLength_le (w : Str) : valueLength w ≤ w.length := by
  by_cases hquoted : ∃ s rest, w = quote :: (s ++ quote :: rest) ∧ quote ∉ s
  · obtain ⟨s, rest, rfl, hs⟩ := hquoted
    rw [valueLength_quoted hs]
    simp only [List.length_cons, List.length_append]
    omega
  · rw [valueLength_of_not_quoted]
    · exact (List.takeWhile_prefix _).length_le
    · rintro rest rfl hmem
      obtain ⟨s, t, rfl, hs⟩ := List.eq_append_cons_of_mem hmem
      exact hquoted ⟨s, t, rfl, hs⟩

theorem matchLength_le (tokenName s : Str) : matchLength tokenName s ≤ s.length := by
  rw [matchLength]
  split
  · next hstart =>
    have h1 := length_le_of_startsWith hstart
    have h2 := valueLength_le (s.drop (tokenName.length + 1))
    rw [List.length_append, show (lit "=").length = 1 from rfl] at h1
    rw [List.length_drop] at h2
    omega
  · exact Nat.zero_le _

/-! ## The exposed part -/

section

variable {tokenName : Str}

theorem exposed_true (text : Str) :
    exposed tokenName true text = exposed tokenName false (text.dropWhile fun b => !endsValue b) := by
  induction text with
  | nil => rfl
  | cons c rest ih =>
    cases hc : endsValue c with
    | true => rw [List.dropWhile_cons_of_neg (by simp [hc]), exposed, exposed, if_pos hc, if_pos hc]
    | false =>
      rw [List.dropWhile_cons_of_pos (by simp [hc]), exposed, if_neg (by simp [hc]), if_pos rfl, ih]

/-- Nothing is read behind bytes that end no value. -/
theorem exposed_true_append {w : Str} (hw : ∀ c ∈ w, endsValue c = false) (rest : Str) :
    exposed tokenName true (w ++ rest) = exposed tokenName true rest := by
  induction w with
  | nil => rfl
  | cons c w ih =>
    rw [List.cons_append, exposed, if_neg (by simp [hw c]), if_pos rfl, ih fun d hd => hw d (List.mem_cons_of_mem c hd)]

theorem NoOwnQuote.suffix {s t : Str} (h : NoOwnQuote tokenName s) (hts : t <:+ s) : NoOwnQuote tokenName t :=
  fun u hu => h u ((List.mem_tails _ _).mpr (((List.mem_tails _ _).mp hu).trans hts))

theorem NoOwnQuote.of_notMem {s : Str} (h : quote ∉ s) : NoOwnQuote tokenName s := by
  intro t ht
  rw [Bool.eq_false_iff]
  intro hstart
  have hlen := length_le_of_startsWith hstart
  rw [startsWith_iff] at hstart
  have hmem : toLower quote ∈ (t.take (tokenName ++ lit "=" ++ [quote]).length).map toLower := by
    rw [← hstart, List.map_append]
    exact List.mem_append_right _ List.mem_cons_self
  obtain ⟨c, hc, hcq⟩ := List.mem_map.mp hmem
  obtain rfl := toLower_eq_quote hcq
  exact h (((List.mem_tails _ _).mp ht).subset (List.mem_of_mem_take hc))

theorem NoOwnQuote.drop_ne {s rest : Str} (h : NoOwnQuote tokenName s)
    (hstart : startsWith (tokenName ++ lit "=") s = true) : s.drop (tokenName.length + 1) ≠ quote :: rest := by
  intro hdrop
  have hno := h s ((List.mem_tails _ _).mpr (List.suffix_refl s))
  have hlen : (tokenName ++ lit "=").length = tokenName.length + 1 := by rw [List.length_append]; rfl
  rw [startsWith_iff, hlen] at hstart
  refine Bool.noConfusion (hno.symm.trans (startsWith_iff.mpr ?_))
  rw [List.length_append, hlen, List.take_add, hdrop, List.map_append, hstart, ← List.map_append]
  rfl

/-- A text with no own quote leaves none open. -/
theorem NoOwnQuote.not_opensQuote {s : Str} (h : NoOwnQuote tokenName s) : ¬ OpensQuote tokenName s := by
  rintro ⟨t, ht, hstart, rest, hrest, -⟩
  exact (h.suffix (tried_suffix ht).1).drop_ne hstart hrest

end

/-! ## What is left of a text -/

section

variable {tokenName : Str} (hword : ∀ c ∈ tokenName, endsValue c = false)

include hword

theorem word_assign : ∀ c ∈ tokenName ++ lit "=", endsValue c = false := by
  intro c hc
  rcases List.mem_append.mp hc with hc | hc
  · exact hword c hc
  · obtain rfl : c = 61 := by simpa [lit] using hc
    rfl

theorem matchLength_append {s x : Str} (hs : s ≠ []) (h : Bounded s x)
    (hq : startsWith (tokenName ++ lit "=") s = true →
      ∀ rest, s.drop (tokenName.length + 1) = quote :: rest → quote ∉ rest → quote ∉ x) :
    matchLength tokenName (s ++ x) = matchLength tokenName s := by
  have hlen : (tokenName ++ lit "=").length = tokenName.length + 1 := by rw [List.length_append]; rfl
  by_cases hle : tokenName.length + 1 ≤ s.length
  · rw [matchLength, matchLength, startsWith_append x (hlen ▸ hle)]
    split
    · next hstart =>
      rw [List.drop_append_of_le_length hle, valueLength_append _ (hq hstart)]
      have hnot := not_endsValue_of_startsWith (word_assign hword) hstart
      rw [hlen] at hnot
      -- the end of a value that bounds `s` is not in the name
      rcases h with ⟨s', c, rfl, hc⟩ | h
      · refine .inl ⟨s'.drop (tokenName.length + 1), c, ?_, hc⟩
        rw [List.drop_append_of_le_length]
        by_contra hgt
        have htake : (s' ++ [c]).take (tokenName.length + 1) = s' ++ [c] := by
          rw [List.take_of_length_le]
          rw [List.length_append, List.length_singleton]
          omega
        have := hnot c (by rw [htake]; exact List.mem_append_right s' List.mem_cons_self)
        exact Bool.noConfusion (this.symm.trans hc)
      · exact .inr h
    · rfl
  · have hno : startsWith (tokenName ++ lit "=") s = false := by
      rw [Bool.eq_false_iff]
      exact fun hstart => hle (hlen ▸ length_le_of_startsWith hstart)
    have hno' : startsWith (tokenName ++ lit "=") (s ++ x) = false := by
      rw [Bool.eq_false_iff]
      intro hstart
      have hnot := not_endsValue_of_startsWith (word_assign hword) hstart
      rw [hlen] at hnot
      rcases h with ⟨s', c, rfl, hc⟩ | ⟨c, x', rfl, hc⟩
      · have := hnot c (by
          rw [List.take_append, List.take_of_length_le (by omega)]
          exact List.mem_append_left _ (List.mem_append_right s' List.mem_cons_self))
        exact Bool.noConfusion (this.symm.trans hc)
      · have := hnot c (by
          rw [List.take_append, List.take_of_length_le (by omega)]
          refine List.mem_append_right _ ?_
          rw [show tokenName.length + 1 - s.length = (tokenName.length - s.length) + 1 by omega]
          exact List.mem_cons_self)
        exact Bool.noConfusion (this.symm.trans hc)
    rw [matchLength, matchLength, hno, hno']
    rfl

/-- A text that follows is searched by itself, unless it closes a quote. -/
theorem sanitize_append {s x : Str} (h : s = [] ∨ Bounded s x) (hq : OpensQuote tokenName s → quote ∉ x) :
    sanitizeKeyValueString tokenName (s ++ x) =
      sanitizeKeyValueString tokenName s ++ sanitizeKeyValueString tokenName x := by
  refine replaceAll_append fun t ht => ⟨?_, matchLength_le tokenName t⟩
  obtain ⟨hts, hne⟩ := tried_suffix ht
  have hb : Bounded s x := h.resolve_left fun h => hne (List.suffix_nil.mp (h ▸ hts))
  exact matchLength_append hword hne (hb.of_suffix hts hne) fun hstart rest hrest hopen =>
    hq ⟨t, ht, hstart, rest, hrest, hopen⟩

/-- Behind the quote that closes one left open, nothing depends on what stood before it. -/
theorem sanitize_of_opensQuote {s a₁ a₂ rest : Str} (h₁ : Bounded s (a₁ ++ quote :: rest))
    (h₂ : Bounded s (a₂ ++ quote :: rest)) (ha₁ : quote ∉ a₁) (ha₂ : quote ∉ a₂) (hopen : OpensQuote tokenName s) :
    sanitizeKeyValueString tokenName (s ++ (a₁ ++ quote :: rest)) =
      sanitizeKeyValueString tokenName (s ++ (a₂ ++ quote :: rest)) := by
  have key : ∀ t ∈ tried (matchLength tokenName) 0 s, (startsWith (tokenName ++ lit "=") t = true ∧
      ∃ rest, t.drop (tokenName.length + 1) = quote :: rest ∧ quote ∉ rest) →
      EndsAlike (matchLength tokenName) (a₁ ++ quote :: rest) (a₂ ++ quote :: rest) t := by
    rintro t - ⟨hstart, w, hw, hwq⟩
    have hlen : (tokenName ++ lit "=").length = tokenName.length + 1 := by rw [List.length_append]; rfl
    have hle : tokenName.length + 1 ≤ t.length := hlen ▸ length_le_of_startsWith hstart
    have hmatch : ∀ a : Str, quote ∉ a →
        matchLength tokenName (t ++ (a ++ quote :: rest)) = t.length + (a.length + 1) := by
      intro a ha
      rw [matchLength, startsWith_append _ (hlen ▸ hle), hstart, if_pos rfl, List.drop_append_of_le_length hle, hw,
        List.cons_append, ← List.append_assoc, valueLength_quoted (by simp [hwq, ha])]
      have := congrArg List.length hw
      rw [List.length_drop, List.length_cons] at this
      rw [List.length_append]
      omega
    have hdrop : ∀ a : Str, (t ++ (a ++ quote :: rest)).drop (t.length + (a.length + 1)) = rest := by
      intro a
      rw [show t ++ (a ++ quote :: rest) = (t ++ (a ++ [quote])) ++ rest by simp, List.drop_left']
      simp
    refine ⟨?_, ?_, ?_⟩
    · rw [hmatch a₁ ha₁]
      omega
    · rw [hmatch a₂ ha₂]
      omega
    · rw [hmatch a₁ ha₁, hmatch a₂ ha₂, hdrop, hdrop]
  refine replaceAll_append_congr (fun t ht => ?_) ?_
  · obtain ⟨hts, hne⟩ := tried_suffix ht
    by_cases ho : startsWith (tokenName ++ lit "=") t = true ∧
        ∃ rest, t.drop (tokenName.length + 1) = quote :: rest ∧ quote ∉ rest
    · exact .inr (key t ht ho)
    · refine .inl ⟨?_, ?_, matchLength_le tokenName t⟩
      · exact matchLength_append hword hne (h₁.of_suffix hts hne) fun hstart w hw hwq => absurd ⟨hstart, w, hw, hwq⟩ ho
      · exact matchLength_append hword hne (h₂.of_suffix hts hne) fun hstart w hw hwq => absurd ⟨hstart, w, hw, hwq⟩ ho
  · obtain ⟨t, ht, ho⟩ := hopen
    exact ⟨t, ht, key t ht ho⟩

/-- The exposed part of a text is what the replacement leaves of it. -/
theorem sanitize_of_noOwnQuote (text : Str) (h : NoOwnQuote tokenName text) :
    sanitizeKeyValueString tokenName text = exposed tokenName false text := by
  induction hn : text.length using Nat.strong_induction_on generalizing text with
  | _ n ih =>
    cases text with
    | nil => rfl
    | cons c rest =>
      have hlen : (tokenName ++ lit "=").length = tokenName.length + 1 := by rw [List.length_append]; rfl
      have hrest : sanitizeKeyValueString tokenName rest = exposed tokenName false rest :=
        ih rest.length (by simp [← hn]) rest (h.suffix (List.suffix_cons c rest)) rfl
      rw [exposed]
      cases hstart : startsWith (tokenName ++ lit "=") (c :: rest) with
      | false =>
        rw [sanitizeKeyValueString, replaceAll_of_none (by rw [matchLength, hstart]; rfl)]
        simp only [Bool.false_eq_true, if_false, ite_self]
        exact congrArg (c :: ·) hrest
      | true =>
        have hnot := not_endsValue_of_startsWith (word_assign hword) hstart
        have hc : endsValue c = false := hnot c (by rw [hlen]; exact List.mem_cons_self)
        obtain ⟨w, hw⟩ : ∃ w, (c :: rest).drop (tokenName.length + 1) = w := ⟨_, rfl⟩
        have hsplit : rest = rest.take tokenName.length ++ w := by
          rw [← hw, List.drop_succ_cons, List.take_append_drop]
        have hm : matchLength tokenName (c :: rest) =
            tokenName.length + 1 + (w.takeWhile fun b => !endsValue b).length := by
          rw [matchLength, hstart, if_pos rfl, hw, valueLength_of_not_quoted]
          intro r hr
          exact absurd (hw.trans hr) (h.drop_ne hstart)
        have hdrop : (c :: rest).drop (matchLength tokenName (c :: rest)) = w.dropWhile fun b => !endsValue b := by
          rw [hm, ← List.drop_drop, hw, drop_takeWhile]
        rw [if_neg (by simp [hc]), if_neg Bool.false_ne_true, if_pos rfl, sanitizeKeyValueString,
          replaceAll_of_match (List.cons_ne_nil c rest) (by rw [hm]; omega), hdrop, hsplit, exposed_true_append, exposed_true]
        · congr 1
          have hsuf : (w.dropWhile fun b => !endsValue b) <:+ c :: rest :=
            (List.dropWhile_suffix _).trans (hw ▸ List.drop_suffix _ _)
          refine ih _ ?_ _ (h.suffix hsuf) rfl
          have h1 := (List.dropWhile_suffix (fun b => !endsValue b) (l := w)).length_le
          have h2 := congrArg List.length hw
          rw [List.length_drop] at h2
          simp only [List.length_cons] at h2 hn
          omega
        · intro d hd
          refine hnot d ?_
          rw [hlen, List.take_succ_cons]
          exact List.mem_cons_of_mem c hd

/-- **What is left of a value**: its exposed part, between what is left of the texts around it. -/
theorem sanitize_assignment {value after : Str} (hv : ∀ rest, value ≠ quote :: rest)
    (hplain : NoOwnQuote tokenName (value.dropWhile fun b => !endsValue b)) :
    sanitizeKeyValueString tokenName (tokenName ++ lit "=" ++ value ++ 32 :: after) =
      tokenName ++ lit "=***" ++ exposed tokenName true value ++ sanitizeKeyValueString tokenName (32 :: after) := by
  have hlen : (tokenName ++ lit "=").length = tokenName.length + 1 := by rw [List.length_append]; rfl
  have hb : ∀ s : Str, Bounded s (32 :: after) := fun s => .inr ⟨32, after, rfl, rfl⟩
  have hm : matchLength tokenName (tokenName ++ lit "=" ++ value ++ 32 :: after) =
      tokenName.length + 1 + (value.takeWhile fun b => !endsValue b).length := by
    rw [matchLength, List.append_assoc, startsWith_self, if_pos rfl, ← hlen, List.drop_left,
      valueLength_append (hb value) fun rest hrest => absurd hrest (hv rest),
      valueLength_of_not_quoted fun rest hrest => absurd hrest (hv rest)]
  have hdrop : (tokenName ++ lit "=" ++ value ++ 32 :: after).drop
      (matchLength tokenName (tokenName ++ lit "=" ++ value ++ 32 :: after)) =
      (value.dropWhile fun b => !endsValue b) ++ 32 :: after := by
    rw [hm, List.append_assoc, ← List.drop_drop, ← hlen, List.drop_left,
      List.drop_append_of_le_length (List.takeWhile_prefix _).length_le, drop_takeWhile]
  rw [sanitizeKeyValueString, replaceAll_of_match (by simp) (by rw [hm]; omega), hdrop, exposed_true,
    ← sanitize_of_noOwnQuote hword _ hplain]
  simp only [List.append_assoc]
  refine congrArg (tokenName ++ ·) (congrArg (lit "=***" ++ ·) ?_)
  exact sanitize_append hword (.inr (hb _)) fun hopen => absurd hopen (hplain.not_opensQuote)

end

/-! ## The log -/

theorem nulFree_sanitize (file : Str) :
    NulFree (sanitizeKeyValueString OTEL_EXPORTER_OTLP_HEADERS (getProcDataToString file)) := by
  intro h
  rcases mem_of_mem_replaceAll h with h | h
  · obtain ⟨b, -, hb⟩ := List.mem_map.mp h
    split at hb
    · cases hb
    · next hne => exact hne hb
  · exact absurd h (by decide)

theorem logStartupPreamble_inj {distribution : Distribution} {cmdlineFile file₁ file₂ : Str} :
    logStartupPreamble distribution cmdlineFile file₁ = logStartupPreamble distribution cmdlineFile file₂ ↔
      sanitizeKeyValueString OTEL_EXPORTER_OTLP_HEADERS (getProcDataToString file₁) =
        sanitizeKeyValueString OTEL_EXPORTER_OTLP_HEADERS (getProcDataToString file₂) := by
  rw [logStartupPreamble, logStartupPreamble, cStr_eq_self_iff.mpr (nulFree_sanitize _),
    cStr_eq_self_iff.mpr (nulFree_sanitize _), cStr_eq_self_iff.mpr (nulFree_sanitize _), List.append_cancel_left_eq,
    List.cons.injEq, List.cons.injEq]
  simp only [true_and, and_true, row, List.append_assoc, List.append_cancel_left_eq]

/-- The text of the entries before or after the variable. -/
def entriesText (entries : List Str) : Str := getProcDataToString (environFile entries)

theorem entriesText_withHeaders {before after : List Str} {value : Str} (hv : NulFree value) :
    entriesText (withHeaders before value after) =
      entriesText before ++ (OTEL_EXPORTER_OTLP_HEADERS ++ lit "=" ++ value ++ 32 :: entriesText after) := by
  have hvalue : getProcDataToString value = value := by
    rw [getProcDataToString]
    conv_rhs => rw [← List.map_id value]
    refine List.map_congr_left fun b hb => if_neg ?_
    rintro rfl
    exact hv hb
  have happ : ∀ a b : Str, getProcDataToString (a ++ b) = getProcDataToString a ++ getProcDataToString b :=
    fun a b => List.map_append
  rw [entriesText, withHeaders, environFile, List.flatMap_append, List.flatMap_cons, happ, happ, happ, happ, happ, hvalue]
  simp only [List.append_assoc]
  rfl

theorem quote_mem_entriesText {entries : List Str} : quote ∈ entriesText entries ↔ ∃ e ∈ entries, quote ∈ e := by
  rw [entriesText, getProcDataToString, List.mem_map]
  constructor
  · rintro ⟨b, hb, hq⟩
    split at hq
    · cases hq
    · subst hq
      obtain ⟨e, he, hqe⟩ := List.mem_flatMap.mp hb
      exact ⟨e, he, (List.mem_append.mp hqe).resolve_right (by decide)⟩
  · rintro ⟨e, he, hq⟩
    exact ⟨quote, List.mem_flatMap.mpr ⟨e, he, List.mem_append_left _ hq⟩, rfl⟩

/-- The entries end in a space. -/
theorem entriesText_cases (entries : List Str) : entriesText entries = [] ∨ ∃ s, entriesText entries = s ++ [32] := by
  rcases List.eq_nil_or_concat entries with rfl | ⟨l, e, rfl⟩
  · exact .inl rfl
  · refine .inr ⟨entriesText l ++ getProcDataToString e, ?_⟩
    rw [entriesText, environFile, List.concat_eq_append, List.flatMap_append, getProcDataToString, List.map_append]
    simp [entriesText, environFile, getProcDataToString]

theorem headersText_cons (h : Header) (rest : List Header) :
    headersText (h :: rest) = h.text ∨ headersText (h :: rest) = h.text ++ lit "," ++ headersText rest := by
  cases rest with
  | nil => exact .inl rfl
  | cons h' rest => exact .inr rfl

theorem headersText_ne_quote (headers : List Header) (rest : Str) : headersText headers ≠ quote :: rest := by
  intro h
  cases headers with
  | nil => cases h
  | cons header headers =>
    obtain ⟨c, key, hkey⟩ := List.exists_cons_of_ne_nil header.key_ne
    have hc : c ≠ quote := (header.key_ok c (hkey ▸ List.mem_cons_self)).1
    have htext : header.text = c :: (key ++ lit "=" ++ header.value) := by
      rw [Header.text, hkey]
      rfl
    rcases headersText_cons header headers with h' | h'
    · rw [h', htext] at h
      exact hc (List.cons.inj h).1
    · rw [h', htext] at h
      exact hc (List.cons.inj h).1

theorem nulFree_headersText (headers : List Header) : NulFree (headersText headers) := by
  intro h0
  have htext (h : Header) : (0 : UInt8) ∉ h.text := by
    simp only [Header.text, List.mem_append, not_or]
    exact ⟨⟨fun hk => (h.key_ok 0 hk).2.2.2 rfl, by decide⟩, fun hv => (h.value_ok 0 hv).2 rfl⟩
  induction headers with
  | nil => cases h0
  | cons h rest ih =>
    rcases headersText_cons h rest with h' | h'
    · exact htext h (h' ▸ h0)
    · rw [h', List.mem_append, List.mem_append] at h0
      rcases h0 with (h0 | h0) | h0
      · exact htext h h0
      · exact absurd h0 (by decide)
      · exact ih h0

theorem forall_of_all {p : UInt8 → Prop} [DecidablePred p] {s : Str} (h : s.all (fun c => decide (p c)) = true) :
    ∀ c ∈ s, p c :=
  fun c hc => of_decide_eq_true (List.all_eq_true.mp h c hc)

theorem word_headers : ∀ c ∈ OTEL_EXPORTER_OTLP_HEADERS, endsValue c = false := forall_of_all (by decide)

/-- **Two values leave the same log** exactly when the same is left of them, or the text before them leaves a quote open
that the text behind them closes. -/
theorem preamble_eq_iff (distribution : Distribution) (cmdlineFile : Str) (before after : List Str)
    (headers₁ headers₂ : List Header)
    (plain₁ : PlainQuotes OTEL_EXPORTER_OTLP_HEADERS (entriesText before) (headersText headers₁))
    (plain₂ : PlainQuotes OTEL_EXPORTER_OTLP_HEADERS (entriesText before) (headersText headers₂)) :
    logStartupPreamble distribution cmdlineFile (environFile (withHeaders before (headersText headers₁) after)) =
        logStartupPreamble distribution cmdlineFile (environFile (withHeaders before (headersText headers₂) after)) ↔
      exposed OTEL_EXPORTER_OTLP_HEADERS true (headersText headers₁) =
          exposed OTEL_EXPORTER_OTLP_HEADERS true (headersText headers₂) ∨
        OpensQuote OTEL_EXPORTER_OTLP_HEADERS (entriesText before) ∧ ∃ e ∈ after, quote ∈ e := by
  have hb {x : Str} : entriesText before = [] ∨ Bounded (entriesText before) x :=
    (entriesText_cases before).imp_right fun ⟨s, hs⟩ => .inl ⟨s, 32, hs, rfl⟩
  rw [logStartupPreamble_inj]
  change sanitizeKeyValueString _ (entriesText _) = sanitizeKeyValueString _ (entriesText _) ↔ _
  rw [entriesText_withHeaders (nulFree_headersText headers₁), entriesText_withHeaders (nulFree_headersText headers₂),
    ← quote_mem_entriesText]
  by_cases hclosed : OpensQuote OTEL_EXPORTER_OTLP_HEADERS (entriesText before) ∧ quote ∈ entriesText after
  · refine iff_of_true ?_ (.inr hclosed)
    -- the values hold no quote, so both texts are read on behind the first one after them
    obtain ⟨a, rest, ha, hq⟩ := List.eq_append_cons_of_mem hclosed.2
    have hno {headers : List Header}
        (plain : PlainQuotes OTEL_EXPORTER_OTLP_HEADERS (entriesText before) (headersText headers)) :
        quote ∉ OTEL_EXPORTER_OTLP_HEADERS ++ lit "=" ++ headersText headers ++ 32 :: a := by
      have hv : quote ∉ headersText headers := plain.resolve_right fun h => h.1 hclosed.1
      rw [List.mem_append, List.mem_append, List.mem_cons]
      rintro ((h | h) | h | h)
      · exact absurd h (by decide)
      · exact hv h
      · exact absurd h (by decide)
      · exact hq h
    have hne : entriesText before ≠ [] := by
      intro hnil
      obtain ⟨s, hs, -⟩ := hclosed.1
      rw [hnil] at hs
      exact absurd hs List.not_mem_nil
    have hsplit (v : Str) : OTEL_EXPORTER_OTLP_HEADERS ++ lit "=" ++ v ++ 32 :: (a ++ quote :: rest) =
        (OTEL_EXPORTER_OTLP_HEADERS ++ lit "=" ++ v ++ 32 :: a) ++ quote :: rest := by simp
    rw [ha, hsplit, hsplit]
    exact sanitize_of_opensQuote word_headers (hb.resolve_left hne) (hb.resolve_left hne) (hno plain₁) (hno plain₂)
      hclosed.1
  · rw [or_iff_left hclosed]
    have hleft {headers : List Header}
        (plain : PlainQuotes OTEL_EXPORTER_OTLP_HEADERS (entriesText before) (headersText headers)) :
        sanitizeKeyValueString OTEL_EXPORTER_OTLP_HEADERS (entriesText before ++
            (OTEL_EXPORTER_OTLP_HEADERS ++ lit "=" ++ headersText headers ++ 32 :: entriesText after)) =
          sanitizeKeyValueString OTEL_EXPORTER_OTLP_HEADERS (entriesText before) ++ (OTEL_EXPORTER_OTLP_HEADERS ++
            lit "=***" ++ exposed OTEL_EXPORTER_OTLP_HEADERS true (headersText headers) ++
            sanitizeKeyValueString OTEL_EXPORTER_OTLP_HEADERS (32 :: entriesText after)) := by
      rw [sanitize_append word_headers hb, sanitize_assignment word_headers (headersText_ne_quote headers)]
      · rcases plain with hv | h
        · exact .of_notMem fun h => hv ((List.dropWhile_suffix _).subset h)
        · exact h.2
      · intro hopen
        have hv : quote ∉ headersText headers := plain.resolve_right fun h => h.1 hopen
        rw [List.mem_append, List.mem_append, List.mem_cons]
        rintro ((h | h) | h | h)
        · exact absurd h (by decide)
        · exact hv h
        · exact absurd h (by decide)
        · exact hclosed ⟨hopen, h⟩
    rw [hleft plain₁, hleft plain₂, List.append_cancel_left_eq, List.append_cancel_right_eq, List.append_cancel_left_eq]

/-- `Authorization=` followed by a credential. -/
def authorization (credential : Str) (h : ∀ c ∈ credential, c ≠ 44 ∧ c ≠ 0) : Header where
  key := lit "Authorization"
  value := credential
  key_ne := by decide
  key_ok := forall_of_all (by decide)
  value_ok := h

theorem preamble_eq_iff_witness :
    logStartupPreamble ⟨none, lit "OpenTelemetry PHP distribution", lit "1.0"⟩ [] (environFile (withHeaders [lit "A=\""]
        (headersText [authorization (lit "Basic") (forall_of_all (by decide))]) [lit "B=C"])) =
      logStartupPreamble ⟨none, lit "OpenTelemetry PHP distribution", lit "1.0"⟩ [] (environFile (withHeaders [lit "A=\""]
        (headersText [authorization (lit "Token") (forall_of_all (by decide))]) [lit "B=C"])) :=
  (preamble_eq_iff _ _ _ _ _ _ (.inl (by decide)) (.inl (by decide))).mpr (.inl (by decide +kernel))

/-- The token of a bearer authorization is logged. -/
theorem bearer_token_is_logged :
    (logStartupPreamble ⟨none, lit "OpenTelemetry PHP distribution", lit "1.0"⟩ [] (environFile (withHeaders [lit "A=B"]
        (headersText [authorization (lit "Bearer secret") (forall_of_all (by decide))]) []))).getLast? =
      some (lit "Process environment:                    A=B OTEL_EXPORTER_OTLP_HEADERS=*** secret ") ∧
    ¬ ∀ (distribution : Distribution) (cmdlineFile : Str) (before after : List Str) (headers₁ headers₂ : List Header),
      logStartupPreamble distribution cmdlineFile (environFile (withHeaders before (headersText headers₁) after)) =
        logStartupPreamble distribution cmdlineFile (environFile (withHeaders before (headersText headers₂) after)) := by
  refine ⟨by decide +kernel, fun h => ?_⟩
  have := h ⟨none, [], []⟩ [] [] [] [authorization (lit "Bearer secret") (forall_of_all (by decide))]
    [authorization (lit "Bearer other") (forall_of_all (by decide))]
  rw [logStartupPreamble_inj] at this
  revert this
  decide +kernel

end OtelDistro.Logging
