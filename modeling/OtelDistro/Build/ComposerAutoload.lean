import OtelDistro.Util.PhpStrings

/-!
# OtelDistro.Build.ComposerAutoload — the autoload files of Composer

`fix_composer_autoload_order.php` and the texts it works on, `autoload_files.php` and `autoload_static.php` of a vendor directory.

* `prependEarlySetupEntry`, `findEntryContaining`, `reorderAutoloadEntries`: the steps of the script, on bytes;
  `fixComposerAutoloadOrder`: the script.
* `FilesText`: a text around a list of entries, in any layout.
* `parseFilesArray`: what PHP reads in a text; `parseFilesArray_toText`: it reads the entries.
-/

namespace OtelDistro.Build

open OtelDistro.Util

/-! ## The script -/

/-- The two files of `vendor/composer` that list the files to load. -/
inductive AutoloadFile where
  | files
  | static
deriving DecidableEq

/-- `md5('otel-distro:OpenTelemetry/Distro/earlySetup.php')` -/
def earlySetupHash : Str := lit "6a1208cc856fe9ad319affe54635f6ae"

namespace AutoloadFile

/-- The pattern before `\s*\(`. -/
def insertAfter : AutoloadFile → Str
  | files => lit "return array"
  | static => lit "public static $files = array"

/-- The path expression of `earlySetup.php`. -/
def earlySetup : AutoloadFile → Str
  | files => lit "$baseDir . '/OpenTelemetry/Distro/earlySetup.php'"
  | static => lit "__DIR__ . '/../../OpenTelemetry/Distro/earlySetup.php'"

def entry (file : AutoloadFile) : Str := lit "'" ++ earlySetupHash ++ lit "' => " ++ file.earlySetup ++ lit ", "

end AutoloadFile

/-- The pattern at the beginning of a text: what is behind the bracket. -/
def openingMatch (opening s : Str) : Option Str :=
  if opening <+: s then
    match dropSpaces (s.drop opening.length) with
    | 40 :: rest => some rest
    | _ => none
  else none

/-- The first match of the pattern: the text up to the bracket, and what is behind it. -/
def insertionPoint (opening : Str) : Str → Option (Str × Str)
  | [] => none
  | c :: s =>
    match openingMatch opening (c :: s) with
    | some rest => some ((c :: s).take (s.length + 1 - rest.length), rest)
    | none => (insertionPoint opening s).map fun m => (c :: m.1, m.2)

/-- Without a result the script exits with 1, as below. -/
def prependEarlySetupEntry (file : AutoloadFile) (content : Str) : Option Str :=
  if lit "earlySetup.php" <:+: content then some content
  else (insertionPoint file.insertAfter content).map fun m => m.1 ++ file.entry ++ m.2

def isQuote (b : UInt8) : Bool := b = 39 || b = 34

/-- `\s*=>` -/
def arrowAhead (s : Str) : Bool := [61, 62] <+: dropSpaces s

/-- The length of a match of `(['"])[^'"]+\1\s*=>`. -/
def keyMatch : Str → Option ℕ
  | [] => none
  | q :: s =>
    if isQuote q then
      let name := s.takeWhile fun b => !isQuote b
      match s.dropWhile fun b => !isQuote b with
      | q' :: rest =>
        if name ≠ [] ∧ q' = q ∧ arrowAhead rest then some (name.length + (rest.takeWhile isPcreSpace).length + 4) else none
      | [] => none
    else none

/-- `preg_match_all`: the offsets of the matches.  The first argument counts the bytes of a match still to be skipped. -/
def keyOffsets : ℕ → ℕ → Str → List ℕ
  | _, _, [] => []
  | k + 1, offset, _ :: s => keyOffsets k (offset + 1) s
  | 0, offset, c :: s =>
    match keyMatch (c :: s) with
    | some len => offset :: keyOffsets (len - 1) (offset + 1) s
    | none => keyOffsets 0 (offset + 1) s

structure FoundEntry where
  start : ℕ
  sourceText : Str
  insertionText : Str

def findEntryContaining (content marker : Str) : Option FoundEntry := do
  let markerPos ← strpos marker content
  let offsets := keyOffsets 0 0 content
  let entryStart ← (offsets.takeWhile fun offset => offset ≤ markerPos).getLast?
  let nextEntryStart := offsets.find? fun offset => entryStart < offset
  let arrayEnd ← strposFrom (lit ");") content (markerPos + marker.length)
  let entryBoundary := nextEntryStart.elim arrayEnd fun next => min next arrayEnd
  let withoutComma :=
    let entryText := rtrim ((content.drop entryStart).take (entryBoundary - entryStart))
    ⟨entryStart, entryText, entryText ++ lit ","⟩
  match strposFrom (lit ",") content (markerPos + marker.length) with
  | some commaPos =>
    if commaPos < entryBoundary then
      let entryText := (content.drop entryStart).take (commaPos + 1 - entryStart)
      some ⟨entryStart, entryText, entryText⟩
    else some withoutComma
  | none => some withoutComma

/-- A path with the quote behind it. -/
def marker (path : Str) : Str := path ++ lit "'"

def reorderAutoloadEntries (pathToMove insertBefore : Str) (required : Bool) (content : Str) : Option Str :=
  match strpos (marker pathToMove) content, strpos (marker insertBefore) content with
  | some pathToMovePos, some insertBeforePos =>
    if pathToMovePos < insertBeforePos then some content
    else do
      let moved ← findEntryContaining content (marker pathToMove)
      let removed := content.take moved.start ++ content.drop (moved.start + moved.sourceText.length)
      let before ← findEntryContaining removed (marker insertBefore)
      let newContent := removed.take before.start ++ moved.insertionText ++ removed.drop before.start
      if newContent = content then none else some newContent
  | _, _ => if required then none else some content

def exporterOtlp : Str := lit "/open-telemetry/exporter-otlp/_register.php"

def transportGrpc : Str := lit "/open-telemetry/transport-grpc/_register.php"

def sdk : Str := lit "/open-telemetry/sdk/_autoload.php"

/-- The files of `vendor/composer`, where they exist. -/
structure ComposerDir where
  autoloadFiles : Option Str
  autoloadStatic : Option Str
deriving DecidableEq

namespace ComposerDir

def get (dir : ComposerDir) : AutoloadFile → Option Str
  | .files => dir.autoloadFiles
  | .static => dir.autoloadStatic

def put (dir : ComposerDir) (content : Str) : AutoloadFile → ComposerDir
  | .files => { dir with autoloadFiles := some content }
  | .static => { dir with autoloadStatic := some content }

end ComposerDir

structure Script where
  dir : ComposerDir
  exited : Bool
deriving DecidableEq

/-- A step on a file; a file that does not exist is skipped. -/
def Script.onFile (file : AutoloadFile) (step : Str → Option Str) (s : Script) : Script :=
  if s.exited then s
  else
    match s.dir.get file with
    | none => s
    | some content =>
      match step content with
      | none => { s with exited := true }
      | some newContent => { s with dir := s.dir.put newContent file }

def fixComposerAutoloadOrder (dir : ComposerDir) : Script :=
  let s := Script.onFile .files (prependEarlySetupEntry .files) ⟨dir, false⟩
  let s := s.onFile .static (prependEarlySetupEntry .static)
  let s := s.onFile .files (reorderAutoloadEntries exporterOtlp sdk false)
  let s := s.onFile .static (reorderAutoloadEntries exporterOtlp sdk false)
  let s := s.onFile .files (reorderAutoloadEntries transportGrpc sdk true)
  s.onFile .static (reorderAutoloadEntries transportGrpc sdk true)

/-! ## Texts -/

/-- A byte of a key or a path literal. -/
def isPathByte (b : UInt8) : Bool := !isQuote b && b ≠ 44

/-- A byte of an expression around its literals. -/
def isCodeByte (b : UInt8) : Bool := isPathByte b && b ≠ 59 && b ≠ 61

/-- Code and a path literal. -/
def piece (p : Str × Str) : Str := p.1 ++ 39 :: (p.2 ++ [39])

/-- An entry: a key and an expression with path literals. -/
structure Entry where
  key : Str
  pieces : List (Str × Str)
  tail : Str
  key_path : ∀ b ∈ key, isPathByte b = true
  literals : ∀ p ∈ pieces, ∀ b ∈ p.2, isPathByte b = true
  code : ∀ p ∈ pieces, ∀ b ∈ p.1, isCodeByte b = true
  tail_code : ∀ b ∈ tail, isCodeByte b = true
  nonempty : pieces.flatMap piece ++ tail ≠ []
  head : ∀ b ∈ (pieces.flatMap piece ++ tail).head?, isWhitespace b = false
  last : ∀ b ∈ (pieces.flatMap piece ++ tail).getLast?, isWhitespace b = false

namespace Entry

def value (e : Entry) : Str := e.pieces.flatMap piece ++ e.tail

/-- What PHP reads. -/
def pair (e : Entry) : Str × Str := (e.key, e.value)

def toText (e : Entry) : Str := 39 :: (e.key ++ (lit "' => " ++ e.value))

end Entry

/-- An entry in the array, with a comma or without, and the whitespace behind it. -/
structure Item where
  entry : Entry
  comma : Bool
  spaces : Str
  blank : ∀ b ∈ spaces, isWhitespace b = true

def Item.toText (item : Item) : Str := item.entry.toText ++ ((if item.comma then [44] else []) ++ item.spaces)

/-- A text: what stands up to the bracket of the array, the entries, and what is behind the array.  The last entry may stand
without a comma. -/
structure FilesText (file : AutoloadFile) where
  header : Str
  spaces : Str
  items : List Item
  footer : Str
  opens : insertionPoint file.insertAfter header = some (header, [])
  blank : ∀ b ∈ spaces, isWhitespace b = true
  separated : ∀ item ∈ items.dropLast, item.comma = true

namespace FilesText

variable {file : AutoloadFile}

def toText (t : FilesText file) : Str := t.header ++ (t.spaces ++ (t.items.flatMap Item.toText ++ (lit ");" ++ t.footer)))

def entries (t : FilesText file) : List Entry := t.items.map Item.entry

end FilesText

/-! ## Reading -/

/-- An expression up to a comma or the end of the array, and what is there.  The flag says whether a literal is open. -/
def parseValue : Bool → Str → Str × Str
  | _, [] => ([], [])
  | true, c :: s =>
    let m := parseValue (c ≠ 39) s
    (c :: m.1, m.2)
  | false, c :: s =>
    if c = 44 ∨ c = 41 ∧ s.head? = some 59 then ([], c :: s)
    else
      let m := parseValue (c = 39) s
      (c :: m.1, m.2)

/-- An entry, and what is behind it and its comma. -/
def parseEntry (s : Str) : Option ((Str × Str) × Str) :=
  match s with
  | 39 :: s =>
    match s.dropWhile (fun b => b ≠ 39) with
    | 39 :: behind =>
      match behind.dropWhile isWhitespace with
      | 61 :: 62 :: behind =>
        let m := parseValue false (behind.dropWhile isWhitespace)
        some ((s.takeWhile (fun b => b ≠ 39), trimEnd isWhitespace m.1), if m.2.head? = some 44 then m.2.tail else m.2)
      | _ => none
    | _ => none
  | _ => none

/-- The entries of the array, and what is behind it. -/
def parseEntries : ℕ → Str → Option (List (Str × Str) × Str)
  | 0, _ => none
  | fuel + 1, s =>
    match s.dropWhile isWhitespace with
    | 41 :: 59 :: footer => some ([], footer)
    | s => do
      let (entry, s) ← parseEntry s
      let (entries, footer) ← parseEntries fuel s
      some (entry :: entries, footer)

/-- What is before the entries, the entries, and what is behind them. -/
def parseFilesArray (file : AutoloadFile) (content : Str) : Option (Str × List (Str × Str) × Str) := do
  let (header, s) ← insertionPoint file.insertAfter content
  let (entries, footer) ← parseEntries (s.length + 1) s
  some (header, entries, footer)

/-! ## The entries are read -/

section Reading

variable {s t code : Str}

theorem openingMatch_append {opening : Str} (hopening : 40 ∉ opening) (hs : 40 ∈ s) (t : Str) :
    openingMatch opening (s ++ t) = (openingMatch opening s).map (· ++ t) := by
  have hiff : opening <+: s ++ t ↔ opening <+: s := by
    refine ⟨fun h => ?_, fun h => h.trans (List.prefix_append s t)⟩
    rcases List.prefix_or_prefix_of_prefix h (List.prefix_append s t) with h | ⟨x, rfl⟩
    · exact h
    · exact absurd (List.mem_append_left x hs) hopening
  rw [openingMatch, openingMatch]
  by_cases h : opening <+: s
  · obtain ⟨y, rfl⟩ := h
    have hy : 40 ∈ y := (List.mem_append.mp hs).resolve_left hopening
    have hdrop : y.dropWhile isPcreSpace ≠ [] := fun hnil => absurd (List.dropWhile_eq_nil_iff.mp hnil 40 hy) (by decide)
    rw [if_pos (hiff.mpr (List.prefix_append _ _)), if_pos (List.prefix_append _ _), List.append_assoc, List.drop_left,
      List.drop_left, dropSpaces, dropSpaces, List.dropWhile_append, if_neg (fun h => hdrop (List.isEmpty_iff.mp h))]
    cases hd : y.dropWhile isPcreSpace with
    | nil => exact absurd hd hdrop
    | cons d rest =>
      by_cases hd40 : d = 40
      · subst hd40
        rfl
      · simp [hd40]
  · rw [if_neg fun hprefix => h (hiff.mp hprefix), if_neg h]
    rfl

theorem mem_of_openingMatch {opening rest : Str} (h : openingMatch opening s = some rest) : 40 ∈ s := by
  rw [openingMatch] at h
  split at h
  · split at h
    · next heq =>
      have hmem : 40 ∈ dropSpaces (s.drop opening.length) := heq ▸ List.mem_cons_self
      exact List.mem_of_mem_drop ((List.dropWhile_suffix _).subset hmem)
    · cases h
  · cases h

theorem mem_of_insertionPoint {opening : Str} {m : Str × Str} (h : insertionPoint opening s = some m) : 40 ∈ s := by
  induction s generalizing m with
  | nil => cases h
  | cons c s ih =>
    rw [insertionPoint] at h
    split at h
    · next heq => exact mem_of_openingMatch heq
    · obtain ⟨m', hm', -⟩ := Option.map_eq_some_iff.mp h
      exact List.mem_cons_of_mem c (ih hm')

theorem insertionPoint_append {opening x rest : Str} (hopening : 40 ∉ opening) (h : insertionPoint opening s = some (x, rest))
    (t : Str) : insertionPoint opening (s ++ t) = some (x, rest ++ t) := by
  induction s generalizing x with
  | nil => cases h
  | cons c s ih =>
    have hmem := mem_of_insertionPoint h
    rw [insertionPoint] at h
    rw [List.cons_append, insertionPoint, ← List.cons_append, openingMatch_append hopening hmem]
    cases hmatch : openingMatch opening (c :: s) with
    | some rest' =>
      rw [hmatch] at h
      obtain ⟨rfl, rfl⟩ := Prod.mk.inj (Option.some.inj h)
      have hlen : (s ++ t).length + 1 - (rest' ++ t).length = s.length + 1 - rest'.length := by
        simp only [List.length_append]
        omega
      simp only [Option.map_some, hlen]
      rw [List.take_append_of_le_length]
      rw [List.length_cons]
      exact Nat.sub_le _ _
    | none =>
      rw [hmatch] at h
      obtain ⟨⟨x', rest'⟩, hm, heq⟩ := Option.map_eq_some_iff.mp h
      obtain ⟨rfl, rfl⟩ := Prod.mk.inj heq
      simp only [Option.map_none, ih hm, Option.map_some]

theorem parseValue_code (hcode : ∀ b ∈ code, isCodeByte b = true) (hs : s.head? ≠ some 59) :
    parseValue false (code ++ s) = (code ++ (parseValue false s).1, (parseValue false s).2) := by
  induction code with
  | nil => rfl
  | cons c code ih =>
    have hc := hcode c List.mem_cons_self
    simp only [isCodeByte, isPathByte, isQuote, Bool.and_eq_true, Bool.not_eq_true', Bool.or_eq_false_iff,
      decide_eq_false_iff_not, decide_eq_true_eq] at hc
    have hend : ¬ (c = 44 ∨ c = 41 ∧ (code ++ s).head? = some 59) := by
      rintro (h | ⟨-, h⟩)
      · exact hc.1.1.2 h
      · cases code with
        | nil => exact hs h
        | cons d code =>
          obtain rfl : d = 59 := Option.some.inj h
          exact absurd (hcode 59 (by simp)) (by decide)
    rw [List.cons_append, parseValue, if_neg hend, decide_eq_false hc.1.1.1.1,
      ih fun b hb => hcode b (List.mem_cons_of_mem c hb)]
    rfl

theorem parseValue_literal (hcode : ∀ b ∈ code, isPathByte b = true) (s : Str) :
    parseValue true (code ++ 39 :: s) = (code ++ 39 :: (parseValue false s).1, (parseValue false s).2) := by
  induction code with
  | nil => rfl
  | cons c code ih =>
    have hc : c ≠ 39 := fun h => absurd (hcode 39 (h ▸ List.mem_cons_self)) (by decide)
    rw [List.cons_append, parseValue, decide_eq_true hc, ih fun b hb => hcode b (List.mem_cons_of_mem c hb)]
    rfl

theorem parseValue_pieces {pieces : List (Str × Str)} (hliterals : ∀ p ∈ pieces, ∀ b ∈ p.2, isPathByte b = true)
    (hcode : ∀ p ∈ pieces, ∀ b ∈ p.1, isCodeByte b = true) (s : Str) :
    parseValue false (pieces.flatMap piece ++ s) =
      (pieces.flatMap piece ++ (parseValue false s).1, (parseValue false s).2) := by
  induction pieces with
  | nil => rfl
  | cons p pieces ih =>
    have hquote (s : Str) : parseValue false (39 :: s) = (39 :: (parseValue true s).1, (parseValue true s).2) := by
      rw [parseValue, if_neg (fun h => h.elim (by decide) fun h => absurd h.1 (by decide))]
      rfl
    simp only [List.flatMap_cons, piece, List.append_assoc, List.cons_append, List.nil_append]
    rw [parseValue_code (hcode p List.mem_cons_self) (by simp), hquote, parseValue_literal (hliterals p List.mem_cons_self),
      ih (fun p hp => hliterals p (List.mem_cons_of_mem _ hp)) (fun p hp => hcode p (List.mem_cons_of_mem _ hp))]

theorem parseValue_value (e : Entry) (hs : s.head? ≠ some 59) :
    parseValue false (e.value ++ s) = (e.value ++ (parseValue false s).1, (parseValue false s).2) := by
  rw [Entry.value, List.append_assoc, parseValue_pieces e.literals e.code, parseValue_code e.tail_code hs,
    List.append_assoc]

theorem dropWhile_of_head? {p : UInt8 → Bool} (h : ∀ b ∈ s.head?, p b = false) : s.dropWhile p = s := by
  cases s with
  | nil => rfl
  | cons c s => exact List.dropWhile_cons_of_neg (by simp [h c rfl])

theorem Entry.value_ne_nil (e : Entry) : e.value ≠ [] := e.nonempty

theorem parseEntry_toText (e : Entry) (hs : s.head? ≠ some 59) (hblank : ∀ b ∈ (parseValue false s).1, isWhitespace b = true) :
    parseEntry (e.toText ++ s) =
      some (e.pair, if (parseValue false s).2.head? = some 44 then (parseValue false s).2.tail else (parseValue false s).2) := by
  have hkey : ∀ b ∈ e.key, (fun b : UInt8 => decide (b ≠ 39)) b = true := by
    intro b hb
    refine decide_eq_true fun h => ?_
    exact absurd (e.key_path 39 (h ▸ hb)) (by decide)
  have harrow : lit "' => " = [39, 32, 61, 62, 32] := lit_ofList _
  have hspace : (32 :: (e.value ++ s)).dropWhile isWhitespace = e.value ++ s := by
    rw [List.dropWhile_cons_of_pos (by decide), dropWhile_of_head?]
    intro b hb
    refine e.head b ?_
    rwa [List.head?_append_of_ne_nil _ e.value_ne_nil] at hb
  have hvalue : trimEnd isWhitespace (e.value ++ (parseValue false s).1) = e.value :=
    trimEnd_append e.last hblank
  have htext : e.toText ++ s = 39 :: (e.key ++ (39 :: ([32] ++ (61 :: 62 :: (32 :: (e.value ++ s)))))) := by
    simp [Entry.toText, harrow]
  rw [htext, parseEntry, List.dropWhile_append_of_pos hkey, List.takeWhile_append_of_pos hkey,
    List.dropWhile_cons_of_neg (by decide), List.takeWhile_cons_of_neg (by decide), List.append_nil]
  simp only
  rw [List.dropWhile_append_of_pos (by decide), List.dropWhile_cons_of_neg (by decide)]
  simp only
  rw [hspace, parseValue_value e hs]
  simp only [hvalue, Entry.pair]

theorem isCodeByte_of_isWhitespace {b : UInt8} (h : isWhitespace b = true) : isCodeByte b = true := by
  simp only [isWhitespace, Bool.or_eq_true, decide_eq_true_eq] at h
  rcases h with ((rfl | rfl) | rfl) | rfl <;> decide

theorem parseValue_end (s : Str) : parseValue false (41 :: 59 :: s) = ([], 41 :: 59 :: s) := if_pos (.inr ⟨rfl, rfl⟩)

theorem parseValue_comma (s : Str) : parseValue false (44 :: s) = ([], 44 :: s) := if_pos (.inl rfl)

/-- An entry and the comma or the whitespace behind it. -/
theorem parseEntry_item (item : Item) (s : Str) : parseEntry (item.toText ++ (if item.comma then s else 41 :: 59 :: s)) =
    some (item.entry.pair, if item.comma then item.spaces ++ s else 41 :: 59 :: s) := by
  rw [Item.toText, List.append_assoc, List.append_assoc]
  cases item.comma with
  | true =>
    rw [if_pos rfl, if_pos rfl, if_pos rfl, List.singleton_append, parseEntry_toText _ (by simp), parseValue_comma]
    · rfl
    · rw [parseValue_comma]
      exact fun b hb => absurd hb List.not_mem_nil
  | false =>
    have hcode : ∀ b ∈ item.spaces, isCodeByte b = true := fun b hb => isCodeByte_of_isWhitespace (item.blank b hb)
    have hspaces : parseValue false (item.spaces ++ 41 :: 59 :: s) = (item.spaces, 41 :: 59 :: s) := by
      rw [parseValue_code hcode (by simp), parseValue_end, List.append_nil]
    rw [if_neg Bool.false_ne_true, if_neg Bool.false_ne_true, if_neg Bool.false_ne_true, List.nil_append,
      parseEntry_toText, hspaces]
    · rfl
    · cases hs : item.spaces with
      | nil => simp
      | cons b spaces =>
        intro h
        obtain rfl : b = 59 := Option.some.inj h
        exact absurd (item.blank 59 (hs ▸ List.mem_cons_self)) (by decide)
    · rw [hspaces]
      exact item.blank

theorem head?_toText (item : Item) (s : Str) : (item.toText ++ s).head? = some 39 := rfl

theorem parseEntries_items {items : List Item} {spaces : Str} {fuel : ℕ} (hfuel : items.length < fuel)
    (hseparated : ∀ item ∈ items.dropLast, item.comma = true) (hspaces : ∀ b ∈ spaces, isWhitespace b = true) (footer : Str) :
    parseEntries fuel (spaces ++ (items.flatMap Item.toText ++ 41 :: 59 :: footer)) =
      some (items.map fun item => item.entry.pair, footer) := by
  induction items generalizing spaces fuel with
  | nil =>
    obtain ⟨fuel, rfl⟩ := Nat.exists_eq_add_of_lt hfuel
    rw [List.flatMap_nil, List.nil_append, parseEntries, List.dropWhile_append_of_pos hspaces,
      List.dropWhile_cons_of_neg (by decide)]
    rfl
  | cons item items ih =>
    obtain ⟨fuel, rfl⟩ : ∃ n, fuel = n + 1 := ⟨fuel - 1, by rw [List.length_cons] at hfuel; omega⟩
    have hfuel' : items.length < fuel := by simpa using hfuel
    have hseparated' : ∀ item ∈ items.dropLast, item.comma = true := by
      intro item' hitem
      refine hseparated item' ?_
      cases items with
      | nil => cases hitem
      | cons item'' items => exact List.mem_cons_of_mem item hitem
    rw [List.flatMap_cons, List.append_assoc, parseEntries, List.dropWhile_append_of_pos hspaces,
      dropWhile_of_head? (by rw [head?_toText]; rintro b ⟨⟩; decide)]
    have hentry : parseEntry (item.toText ++ (items.flatMap Item.toText ++ 41 :: 59 :: footer)) = some (item.entry.pair,
        (if item.comma then item.spaces else []) ++ (items.flatMap Item.toText ++ 41 :: 59 :: footer)) := by
      have h (s : Str) := parseEntry_item item s
      cases hcomma : item.comma with
      | true => simpa [hcomma] using h (items.flatMap Item.toText ++ 41 :: 59 :: footer)
      | false =>
        -- only the last entry stands without a comma
        cases items with
        | nil => simpa [hcomma] using h footer
        | cons item' items => exact absurd (hseparated item List.mem_cons_self) (by simp [hcomma])
    have hrest : parseEntries fuel ((if item.comma then item.spaces else []) ++
        (items.flatMap Item.toText ++ 41 :: 59 :: footer)) = some (items.map fun item => item.entry.pair, footer) := by
      refine ih hfuel' hseparated' ?_
      split
      · exact item.blank
      · exact fun b hb => absurd hb List.not_mem_nil
    have htext : ∃ s, item.toText ++ (items.flatMap Item.toText ++ 41 :: 59 :: footer) = 39 :: s := ⟨_, rfl⟩
    obtain ⟨s, hs⟩ := htext
    rw [hs] at hentry ⊢
    simp [hentry, hrest]

theorem length_le_flatMap_toText (items : List Item) : items.length ≤ (items.flatMap Item.toText).length := by
  induction items with
  | nil => exact Nat.le_refl _
  | cons item items ih =>
    rw [List.flatMap_cons, List.length_append, List.length_cons]
    have : item.toText.length ≥ 1 := Nat.succ_le_of_lt (List.length_pos_iff.mpr (List.cons_ne_nil _ _))
    omega

theorem not_mem_insertAfter (file : AutoloadFile) : 40 ∉ file.insertAfter := by
  cases file <;> decide

/-- What PHP reads in a text. -/
theorem parseFilesArray_toText {file : AutoloadFile} (t : FilesText file) :
    parseFilesArray file t.toText = some (t.header, t.entries.map Entry.pair, t.footer) := by
  have hend : lit ");" = [41, 59] := lit_ofList _
  have hfuel : t.items.length < (t.spaces ++ (t.items.flatMap Item.toText ++ 41 :: 59 :: t.footer)).length + 1 := by
    have := length_le_flatMap_toText t.items
    simp only [List.length_append]
    omega
  have hentries := parseEntries_items hfuel t.separated t.blank t.footer
  rw [parseFilesArray, FilesText.toText, insertionPoint_append (not_mem_insertAfter file) t.opens, hend]
  simp only [List.nil_append, List.cons_append, Option.bind_eq_bind, Option.bind_some, hentries]
  rw [FilesText.entries, List.map_map]
  rfl

end Reading

end OtelDistro.Build
