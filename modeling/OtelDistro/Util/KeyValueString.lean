import OtelDistro.Config.OptionParsers
import OtelDistro.Lib.KeyedStore
import OtelDistro.Lib.SelfDelimiting
import OtelDistro.Util.Utf8

/-!
# OtelDistro.Util.KeyValueString — the list format of headers and resource attributes

`percentDecode` and `parseUrlEncodedKeyValueString` of `CommonUtils.cpp`: pairs `key=value` with commas between them, the
values percent-encoded.  The first value of a key wins.

* `percentEncode`, `writeKeyValueString`: how such a list is written.
* `HasEscape`: the text holds a complete `%XX`.

`parse_write`: reading undoes writing, and a text without escape is left alone.
-/

namespace OtelDistro.Util

open OtelDistro.Lib
open OtelDistro.Config (isDigit isHexDigit hexValue)

/-! ## Reading -/

def percentDecode : Str → Str
  | c :: d :: e :: rest =>
    if c = 37 ∧ isHexDigit d = true ∧ isHexDigit e = true then UInt8.ofNat (hexValue [d, e]) :: percentDecode rest
    else c :: percentDecode (d :: e :: rest)
  | rest => rest -- no room for an escape

/-- `result.insert` for a pair with a `=`. -/
def insertPair (result : KMap Str Str) (pair : Str) : KMap Str Str :=
  match pair.dropWhile (· ≠ 61) with
  | [] => result
  | _ :: value => result.tryEmplace (pair.takeWhile (· ≠ 61)) (percentDecode value)

/-- The loop: the text up to the next comma, and what follows it. -/
def parsePairs (result : KMap Str Str) (input : Str) : KMap Str Str :=
  if _hne : input = [] then result
  else
    let result := insertPair result (input.takeWhile (· ≠ 44))
    let rest := input.dropWhile (· ≠ 44)
    if rest = [] then result else parsePairs result rest.tail
termination_by input.length
decreasing_by
  have hle := (List.dropWhile_suffix (l := input) (· ≠ 44)).length_le
  have hpos := List.length_pos_iff.mpr _hne
  rw [List.length_tail]
  omega

def parseUrlEncodedKeyValueString (input : Str) : KMap Str Str := parsePairs ∅ input

/-! ## Writing -/

def isAlphanumeric (c : UInt8) : Bool := isDigit c || (97 ≤ toLower c && toLower c ≤ 122)

/-- A digit in base 16, its letters in upper or lower case. -/
def hexDigit (upper : Bool) (n : ℕ) : UInt8 := UInt8.ofNat (if n < 10 then 48 + n else if upper then 55 + n else 87 + n)

/-- A byte of a value; `upper` is the case of the letters in its escape. -/
def percentEncodeByte (upper : UInt8 → Bool) (c : UInt8) : Str :=
  if isAlphanumeric c then [c] else [37, hexDigit (upper c) (c.toNat / 16), hexDigit (upper c) (c.toNat % 16)]

def percentEncode (upper : UInt8 → Bool) (value : Str) : Str := value.flatMap (percentEncodeByte upper)

def writePair (upper : UInt8 → Bool) (p : Str × Str) : Str := p.1 ++ 61 :: percentEncode upper p.2

def writeKeyValueString (upper : UInt8 → Bool) : List (Str × Str) → Str
  | [] => []
  | [p] => writePair upper p
  | p :: q :: l => writePair upper p ++ 44 :: writeKeyValueString upper (q :: l)

/-- The text holds a complete `%XX`. -/
def HasEscape (s : Str) : Prop :=
  ∃ before d e after, s = before ++ 37 :: d :: e :: after ∧ isHexDigit d = true ∧ isHexDigit e = true

/-! ## Escapes -/

theorem percentDecode_escape {d e : UInt8} (hd : isHexDigit d = true) (he : isHexDigit e = true) (rest : Str) :
    percentDecode (37 :: d :: e :: rest) = UInt8.ofNat (hexValue [d, e]) :: percentDecode rest := by
  rw [percentDecode, if_pos ⟨rfl, hd, he⟩]

/-- A byte that begins no escape. -/
theorem percentDecode_cons {c : UInt8} {rest : Str}
    (h : ∀ d e after, rest = d :: e :: after → ¬ (c = 37 ∧ isHexDigit d = true ∧ isHexDigit e = true)) :
    percentDecode (c :: rest) = c :: percentDecode rest := by
  match rest with
  | [] => rfl
  | [d] => rfl
  | d :: e :: after => rw [percentDecode, if_neg (h d e after rfl)]

theorem percentDecode_of_not_hasEscape {s : Str} (h : ¬ HasEscape s) : percentDecode s = s := by
  induction s with
  | nil => rfl
  | cons c s ih =>
    rw [percentDecode_cons, ih]
    · rintro ⟨before, d, e, after, rfl, hd, he⟩
      exact h ⟨c :: before, d, e, after, rfl, hd, he⟩
    · rintro d e after rfl ⟨rfl, hd, he⟩
      exact h ⟨[], d, e, after, rfl, hd, he⟩

theorem hexDigits_byte : ∀ c : UInt8, ∀ upper : Bool,
    isHexDigit (hexDigit upper (c.toNat / 16)) = true ∧ isHexDigit (hexDigit upper (c.toNat % 16)) = true ∧
      UInt8.ofNat (hexValue [hexDigit upper (c.toNat / 16), hexDigit upper (c.toNat % 16)]) = c :=
  forall_byte (by decide +kernel)

/-- A byte comes back from its escape. -/
theorem percentDecode_encodeByte (upper : UInt8 → Bool) (c : UInt8) (rest : Str) :
    percentDecode (percentEncodeByte upper c ++ rest) = c :: percentDecode rest := by
  unfold percentEncodeByte
  split
  · next halnum =>
    refine percentDecode_cons fun d e after _ => ?_
    rintro ⟨rfl, -⟩
    exact absurd halnum (by decide)
  · obtain ⟨hd, he, hvalue⟩ := hexDigits_byte c (upper c)
    have hescape := percentDecode_escape hd he rest
    rw [hvalue] at hescape
    exact hescape

theorem percentDecode_encode (upper : UInt8 → Bool) (value : Str) : percentDecode (percentEncode upper value) = value := by
  induction value with
  | nil => rfl
  | cons c value ih => rw [percentEncode, List.flatMap_cons, percentDecode_encodeByte, ← percentEncode, ih]

/-- What is written for a value holds no separator. -/
theorem separator_notMem_encode (upper : UInt8 → Bool) (value : Str) :
    (44 : UInt8) ∉ percentEncode upper value ∧ (61 : UInt8) ∉ percentEncode upper value := by
  have hbyte : ∀ c : UInt8, ∀ u : Bool, (44 : UInt8) ∉ percentEncodeByte (fun _ => u) c ∧
      (61 : UInt8) ∉ percentEncodeByte (fun _ => u) c := forall_byte (by decide +kernel)
  have hsame (c : UInt8) : percentEncodeByte upper c = percentEncodeByte (fun _ => upper c) c := rfl
  unfold percentEncode
  simp only [List.mem_flatMap, not_exists, not_and]
  exact ⟨fun c _ => hsame c ▸ (hbyte c (upper c)).1, fun c _ => hsame c ▸ (hbyte c (upper c)).2⟩

/-! ## Lists -/

section

variable {upper : UInt8 → Bool} {p : Str × Str} {rest : Str}

theorem span_ne {c : UInt8} {s : Str} (h : c ∉ s) (rest : Str) :
    (s ++ c :: rest).takeWhile (· ≠ c) = s ∧ (s ++ c :: rest).dropWhile (· ≠ c) = c :: rest := by
  have hs : ∀ b ∈ s, (decide (b ≠ c)) = true := fun b hb => decide_eq_true fun e => h (e ▸ hb)
  have hc : Stops (fun b => decide (b ≠ c)) (c :: rest) := stops_cons (by simp)
  exact ⟨takeWhile_of_stops hs hc, dropWhile_of_stops hs hc⟩

theorem span_ne_end {c : UInt8} {s : Str} (h : c ∉ s) : s.takeWhile (· ≠ c) = s ∧ s.dropWhile (· ≠ c) = [] := by
  have hs : ∀ b ∈ s, (decide (b ≠ c)) = true := fun b hb => decide_eq_true fun e => h (e ▸ hb)
  exact ⟨List.takeWhile_eq_self_iff.mpr hs, List.dropWhile_eq_nil_iff.mpr hs⟩

theorem insertPair_writePair (result : KMap Str Str) (hkey : (61 : UInt8) ∉ p.1) :
    insertPair result (writePair upper p) = result.tryEmplace p.1 p.2 := by
  obtain ⟨htake, hdrop⟩ := span_ne hkey (percentEncode upper p.2)
  rw [insertPair, writePair, hdrop, htake]
  exact congrArg (result.tryEmplace p.1) (percentDecode_encode upper p.2)

theorem comma_notMem_writePair (upper : UInt8 → Bool) (hkey : (44 : UInt8) ∉ p.1) : (44 : UInt8) ∉ writePair upper p := by
  unfold writePair
  simp only [List.mem_append, List.mem_cons, not_or]
  exact ⟨hkey, by decide, (separator_notMem_encode upper p.2).1⟩

theorem writePair_ne_nil : writePair upper p ≠ [] := by simp [writePair]

/-- Reading a list inserts its pairs one after the other. -/
theorem parsePairs_write {l : List (Str × Str)} (hkeys : ∀ p ∈ l, (44 : UInt8) ∉ p.1 ∧ (61 : UInt8) ∉ p.1)
    (result : KMap Str Str) : parsePairs result (writeKeyValueString upper l) = result.emplaceAll l := by
  induction l generalizing result with
  | nil =>
    rw [writeKeyValueString, parsePairs, dif_pos rfl]
    rfl
  | cons p l ih =>
    obtain ⟨hcomma, hequal⟩ := hkeys p List.mem_cons_self
    cases l with
    | nil =>
      obtain ⟨htake, hdrop⟩ := span_ne_end (comma_notMem_writePair upper hcomma)
      rw [writeKeyValueString, parsePairs, dif_neg writePair_ne_nil]
      dsimp only
      rw [htake, hdrop, if_pos rfl, insertPair_writePair result hequal]
      rfl
    | cons q l =>
      obtain ⟨htake, hdrop⟩ := span_ne (comma_notMem_writePair upper hcomma) (writeKeyValueString upper (q :: l))
      rw [writeKeyValueString, parsePairs, dif_neg (by simp)]
      dsimp only
      rw [htake, hdrop, if_neg (by simp), List.tail_cons, insertPair_writePair result hequal,
        ih fun p hp => hkeys p (List.mem_cons_of_mem _ hp)]
      rfl

end

/-- **Reading undoes writing**: a map whose keys hold no separator comes back from its list, in whatever order its pairs are
written; and `percentDecode` leaves a text without escape alone. -/
theorem parse_write :
    (∀ (upper : UInt8 → Bool) (m : KMap Str Str) (l : List (Str × Str)), l.Perm m.pairs →
      (∀ p ∈ l, (44 : UInt8) ∉ p.1 ∧ (61 : UInt8) ∉ p.1) →
      ∀ k, (parseUrlEncodedKeyValueString (writeKeyValueString upper l)).lookup k = m.lookup k) ∧
    ∀ s, ¬ HasEscape s → percentDecode s = s := by
  refine ⟨fun upper m l hl hkeys k => ?_, fun s hs => percentDecode_of_not_hasEscape hs⟩
  rw [parseUrlEncodedKeyValueString, parsePairs_write hkeys, KMap.lookup_emplaceAll, AList.lookup_empty, Option.none_or,
    KMap.lookup_eq_firstAt]
  exact firstAt_perm ((hl.map Prod.fst).nodup_iff.mpr m.nodup_pairs) hl

/-- A value with a separator and a percent sign, and a text with half an escape. -/
theorem parse_write_separators :
    (parseUrlEncodedKeyValueString (lit "a=x%2C%3d,b=")).lookup (lit "a") = some (lit "x,=") ∧
      percentDecode (lit "50%2") = lit "50%2" := by
  have hpairs : (KMap.emplaceAll ∅ [(lit "a", lit "x,="), (lit "b", [])] : KMap Str Str).pairs.Perm
      [(lit "a", lit "x,="), (lit "b", [])] := by decide
  refine ⟨parse_write.1 (fun c => c ≠ 61) _ _ hpairs.symm (by decide) (lit "a"), parse_write.2 _ ?_⟩
  have hbytes : lit "50%2" = [53, 48, 37, 50] := rfl
  rintro ⟨before, d, e, after, h, -⟩
  rw [hbytes] at h
  match before with
  | [] => cases h
  | [a] => cases h
  | a :: b :: before =>
    have hlen := congrArg List.length h
    simp at hlen
    omega

end OtelDistro.Util
