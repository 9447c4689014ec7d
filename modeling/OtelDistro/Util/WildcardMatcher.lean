import OtelDistro.Bytes
import OtelDistro.Lib.Glob

/-!
# OtelDistro.Util.WildcardMatcher — matching a text against a wildcard expression

* `WildcardMatcher.construct`: the constructor; it splits the expression into literal parts.
* `WildcardMatcher.matchText`: the method `match`; an offset out of range is the `ValueError` of `strpos`.
* `groupName`, `toText`: the canonical text of a matcher (`__toString`).
* `InLanguage`: the glob language of an expression.

The loop of `match` advances by the length of each part, not behind its occurrence, and the last part is compared with
the end of the text wherever the parts before it are.  So a text is accepted when every part is present (`PresentFrom`),
while the language needs the parts in order (`PlacedFrom`).  `match_iff`: the two are the same but for texts with all
parts present that cannot be placed.  `construct_toText`: the canonical text is parsed to the matcher it was written for.
-/

namespace OtelDistro.Util

open OtelDistro.Lib

/-! ## The code -/

def CASE_SENSITIVE_PREFIX : Str := lit "(?-i)"

def WILDCARD : UInt8 := 42

structure WildcardMatcher where
  isCaseSensitive : Bool
  startsWithWildcard : Bool
  endsWithWildcard : Bool
  literalParts : List Str
  deriving DecidableEq

/-- The variables of the constructor's loop. -/
structure ParseState where
  literalParts : List Str := []
  startsWithWildcard : Bool := false
  lastPartWasWildcard : Bool := false

def ParseState.wildcard (st : ParseState) : ParseState :=
  { st with
    lastPartWasWildcard := true
    startsWithWildcard := if st.literalParts = [] then true else st.startsWithWildcard }

def ParseState.literal (st : ParseState) (part : Str) : ParseState :=
  { st with lastPartWasWildcard := false, literalParts := st.literalParts ++ [part] }

/-- The constructor's loop, on what is left of the expression from `$exprPos` on. -/
def parseLoop : Str → ParseState → ParseState
  | [], st => st
  | c :: rest, st =>
    if c = WILDCARD then parseLoop rest st.wildcard
    else
      parseLoop (rest.dropWhile (fun d => d ≠ WILDCARD))
        (st.literal (c :: rest.takeWhile (fun d => d ≠ WILDCARD)))
  termination_by expr => expr.length
  decreasing_by
    · simp
    · exact Nat.lt_succ_of_le (List.length_dropWhile_le _ _)

/-- `new WildcardMatcher(expr)` -/
def WildcardMatcher.construct (expr : Str) : WildcardMatcher :=
  let isCaseSensitive := decide (CASE_SENSITIVE_PREFIX <+: expr)
  let exprPos := if isCaseSensitive then CASE_SENSITIVE_PREFIX.length else 0
  let st := parseLoop (expr.drop exprPos) {}
  { isCaseSensitive
    startsWithWildcard := st.startsWithWildcard
    endsWithWildcard := st.lastPartWasWildcard
    literalParts := st.literalParts }

/-- The characters of a comparison: as they are, or in lower case. -/
def fold (isCaseSensitive : Bool) (c : UInt8) : UInt8 := if isCaseSensitive then c else toLower c

inductive ValueError
  | offsetNotContained
  deriving DecidableEq

/-- `strpos`, or `stripos`: the first occurrence at the offset or behind it. -/
def findSubString (haystack needle : Str) (offset : ℕ) (isCaseSensitive : Bool) : Except ValueError (Option ℕ) :=
  if offset > haystack.length then .error .offsetNotContained
  else .ok ((List.range' offset (haystack.length + 1 - offset)).find?
    (fun pos => OccursAt (fold isCaseSensitive) haystack needle pos))

/-- `strcmp`, or `strcasecmp`, is 0. -/
def areStringsEqual (str1 str2 : Str) (isCaseSensitive : Bool) : Bool :=
  str1.map (fold isCaseSensitive) = str2.map (fold isCaseSensitive)

/-- `substr_compare` with the offset `-fromEnd` is 0; an offset before the start of the text is its start. -/
def substrCompareIsZero (haystack needle : Str) (fromEnd length : ℕ) (isCaseSensitive : Bool) : Bool :=
  ((haystack.drop (haystack.length - fromEnd)).take length).map (fold isCaseSensitive) =
    (needle.take length).map (fold isCaseSensitive)

/-- `TextUtil::isSuffixOf` -/
def isSuffixOf (suffix text : Str) (isCaseSensitive : Bool) : Bool :=
  let suffixLen := suffix.length
  if suffixLen = 0 then true else substrCompareIsZero text suffix suffixLen suffixLen isCaseSensitive

/-- The loop of `match` over the parts it checks; `false` is its `return false`. -/
def matchLoop (text : Str) (isCaseSensitive : Bool) : List Str → ℕ → Bool → Except ValueError Bool
  | [], _, _ => .ok true
  | currentLiteralPart :: parts, textPos, allowAnyPrefix =>
    match findSubString text currentLiteralPart textPos isCaseSensitive with
    | .error e => .error e
    | .ok none => .ok false
    | .ok (some literalPartMatchPos) =>
      if allowAnyPrefix = false ∧ literalPartMatchPos ≠ textPos then .ok false
      else matchLoop text isCaseSensitive parts (textPos + currentLiteralPart.length) true

def WildcardMatcher.numberOfPartsToCheckInLoop (m : WildcardMatcher) : ℕ :=
  if m.literalParts.length > 0 ∧ m.endsWithWildcard = false then m.literalParts.length - 1
  else m.literalParts.length

/-- The check of the last part, when the loop leaves it out. -/
def WildcardMatcher.lastPartMatches (m : WildcardMatcher) (text : Str) : Bool :=
  let lastPart := m.literalParts.getLast?.getD []
  if m.startsWithWildcard = false ∧ m.literalParts.length = 1 then areStringsEqual lastPart text m.isCaseSensitive
  else isSuffixOf lastPart text m.isCaseSensitive

/-- `match` -/
def WildcardMatcher.matchText (m : WildcardMatcher) (text : Str) : Except ValueError Bool :=
  if m.startsWithWildcard = false ∧ m.literalParts = [] ∧ text ≠ [] then .ok false
  else
    match matchLoop text m.isCaseSensitive (m.literalParts.take m.numberOfPartsToCheckInLoop) 0
      m.startsWithWildcard with
    | .error e => .error e
    | .ok false => .ok false
    | .ok true =>
      .ok (if m.numberOfPartsToCheckInLoop < m.literalParts.length then m.lastPartMatches text else true)

/-- The loop of `groupName`. -/
def groupNameLoop : List Str → Bool → Str → Str
  | [], _, result => result
  | literalPart :: literalParts, isFirstLiteralPart, result =>
    groupNameLoop literalParts false ((if isFirstLiteralPart then result else result ++ [WILDCARD]) ++ literalPart)

def WildcardMatcher.groupName (m : WildcardMatcher) : Str :=
  let result := groupNameLoop m.literalParts true (if m.startsWithWildcard then [WILDCARD] else [])
  if m.endsWithWildcard then result ++ [WILDCARD] else result

/-- `__toString` -/
def WildcardMatcher.toText (m : WildcardMatcher) : Str :=
  if m.isCaseSensitive then CASE_SENSITIVE_PREFIX ++ m.groupName else m.groupName

/-! ## The language of an expression -/

/-- The text belongs to the glob language of the expression. -/
def InLanguage (expr text : Str) : Prop :=
  if CASE_SENSITIVE_PREFIX <+: expr then Glob (fold true) WILDCARD (expr.drop CASE_SENSITIVE_PREFIX.length) text
  else Glob (fold false) WILDCARD expr text

theorem parseLoop_eq (expr : Str) (st : ParseState) :
    parseLoop expr st =
      { literalParts := st.literalParts ++ partsOf WILDCARD expr
        startsWithWildcard := st.startsWithWildcard || (st.literalParts.isEmpty && startsWild WILDCARD expr)
        lastPartWasWildcard := endsWild WILDCARD st.lastPartWasWildcard expr } := by
  induction expr, st using parseLoop.induct with
  | case1 st =>
    rw [parseLoop, partsOf]
    simp [startsWild, endsWild]
  | case2 rest st ih =>
    rw [parseLoop, if_pos rfl, ih, partsOf, if_pos rfl, endsWild_cons, decide_eq_true rfl]
    rcases st with ⟨_ | ⟨part, parts⟩, starts, last⟩
    · simp [ParseState.wildcard, startsWild]
    · simp [ParseState.wildcard]
  | case3 c rest st hc ih =>
    have hstart : startsWild WILDCARD (c :: rest) = false := by simpa [startsWild] using hc
    have hends : endsWild WILDCARD st.lastPartWasWildcard (c :: rest) =
        endsWild WILDCARD false (rest.dropWhile (fun d => d ≠ WILDCARD)) := by
      rw [endsWild_cons, decide_eq_false hc]
      conv => lhs; rw [← List.takeWhile_append_dropWhile (p := fun d => decide (d ≠ WILDCARD)) (l := rest)]
      rw [endsWild_append, endsWild_literal (notMem_takeWhile rest)]
    rw [parseLoop, if_neg hc, ih, partsOf, if_neg hc, hstart, hends]
    simp [ParseState.literal]

theorem construct_caseSensitive (body : Str) : WildcardMatcher.construct (CASE_SENSITIVE_PREFIX ++ body) =
    ⟨true, startsWild WILDCARD body, endsWild WILDCARD false body, partsOf WILDCARD body⟩ := by
  simp [WildcardMatcher.construct, parseLoop_eq]

theorem construct_caseInsensitive {expr : Str} (h : ¬ CASE_SENSITIVE_PREFIX <+: expr) : WildcardMatcher.construct expr =
    ⟨false, startsWild WILDCARD expr, endsWild WILDCARD false expr, partsOf WILDCARD expr⟩ := by
  simp [WildcardMatcher.construct, h, parseLoop_eq]

/-- The matcher of an expression, by the parts, start and end of what follows the prefix. -/
theorem construct_eq (expr : Str) :
    ∃ body cs, (InLanguage expr = Glob (fold cs) WILDCARD body) ∧
      WildcardMatcher.construct expr = ⟨cs, startsWild WILDCARD body, endsWild WILDCARD false body,
        partsOf WILDCARD body⟩ := by
  by_cases hcs : CASE_SENSITIVE_PREFIX <+: expr
  · obtain ⟨body, rfl⟩ := hcs
    refine ⟨body, true, ?_, construct_caseSensitive body⟩
    funext text
    rw [InLanguage, if_pos (List.prefix_append _ _), List.drop_left]
  · refine ⟨expr, false, ?_, construct_caseInsensitive hcs⟩
    funext text
    rw [InLanguage, if_neg hcs]

/-! ## The canonical text -/

theorem groupNameLoop_eq (parts : List Str) (isFirst : Bool) (result : Str) :
    groupNameLoop parts isFirst result =
      result ++ (if isFirst = false ∧ parts ≠ [] then [WILDCARD] else []) ++ [WILDCARD].intercalate parts := by
  induction parts generalizing isFirst result with
  | nil => simp [groupNameLoop]
  | cons part parts ih =>
    rw [groupNameLoop, ih]
    cases parts <;> cases isFirst <;> simp [List.intercalate_cons_cons]

theorem WildcardMatcher.groupName_eq (m : WildcardMatcher) :
    m.groupName = ofParts WILDCARD m.startsWithWildcard m.endsWithWildcard m.literalParts := by
  rw [groupName, groupNameLoop_eq, ofParts]
  cases m.endsWithWildcard <;> simp

/-- **The canonical text of a matcher is parsed to the same matcher.** -/
theorem construct_toText (expr : Str) :
    WildcardMatcher.construct (WildcardMatcher.construct expr).toText = WildcardMatcher.construct expr := by
  by_cases hcs : CASE_SENSITIVE_PREFIX <+: expr
  · obtain ⟨body, rfl⟩ := hcs
    have htext : (WildcardMatcher.construct (CASE_SENSITIVE_PREFIX ++ body)).toText =
        CASE_SENSITIVE_PREFIX ++ canonical WILDCARD body := by
      rw [construct_caseSensitive, WildcardMatcher.toText, if_pos rfl, WildcardMatcher.groupName_eq]
      rfl
    rw [htext, construct_caseSensitive, construct_caseSensitive, startsWild_canonical, endsWild_canonical, partsOf_canonical]
  · have htext : (WildcardMatcher.construct expr).toText = canonical WILDCARD expr := by
      rw [construct_caseInsensitive hcs, WildcardMatcher.toText, if_neg Bool.false_ne_true, WildcardMatcher.groupName_eq]
      rfl
    -- the text begins with the prefix only if the expression does
    have hcs' : ¬ CASE_SENSITIVE_PREFIX <+: canonical WILDCARD expr := by
      rwa [literal_prefix_canonical (by decide) (by decide)]
    rw [htext, construct_caseInsensitive hcs', construct_caseInsensitive hcs, startsWild_canonical, endsWild_canonical,
      partsOf_canonical]

/-! ## What the matcher accepts -/

/-- What `match` checks: each part occurs at `lo` or behind it, where `lo` is the total length of the parts before it; a
last part without a wildcard behind it is the text, or ends it. -/
def PresentFrom (f : UInt8 → UInt8) (text : Str) (ends : Bool) : Bool → List Str → ℕ → Prop
  | _, [], lo => ends = true ∨ lo = text.length
  | any, part :: parts, lo =>
    if ends = false ∧ parts = [] then
      if any = false then part.map f = text.map f else OccursAt f text part (text.length - part.length)
    else (∃ pos, lo ≤ pos ∧ (any = false → pos = lo) ∧ OccursAt f text part pos) ∧
      PresentFrom f text ends true parts (lo + part.length)

section Present

variable {text : Str}

theorem presentFrom_cons {f : UInt8 → UInt8} {ends any : Bool} {part : Str} {parts : List Str} {lo : ℕ}
    (h : ¬ (ends = false ∧ parts = [])) :
    PresentFrom f text ends any (part :: parts) lo ↔
      (∃ pos, lo ≤ pos ∧ (any = false → pos = lo) ∧ OccursAt f text part pos) ∧
        PresentFrom f text ends true parts (lo + part.length) := by
  rw [PresentFrom, if_neg h]

theorem presentFrom_last {f : UInt8 → UInt8} {any : Bool} {part : Str} {lo : ℕ} :
    PresentFrom f text false any [part] lo ↔
      if any = false then part.map f = text.map f else OccursAt f text part (text.length - part.length) := by
  rw [PresentFrom, if_pos ⟨rfl, rfl⟩]

/-- `strpos` with an offset in the text: it finds an occurrence, and none before it. -/
theorem findSubString_eq (cs : Bool) (part : Str) {textPos : ℕ} (hpos : textPos ≤ text.length) :
    ∃ o, findSubString text part textPos cs = .ok o ∧
      (∀ pos, o = some pos → textPos ≤ pos ∧ OccursAt (fold cs) text part pos) ∧
      (∀ pos, textPos ≤ pos → OccursAt (fold cs) text part pos → ∃ first, o = some first ∧ first ≤ pos) := by
  refine ⟨_, if_neg (by omega), ?_, ?_⟩
  · intro pos ho
    rw [List.find?_range'_eq_some, decide_eq_true_eq, List.mem_range'_1] at ho
    exact ⟨ho.2.1.1, ho.1⟩
  · intro pos hle hocc
    cases ho : (List.range' textPos (text.length + 1 - textPos)).find?
        (fun pos => OccursAt (fold cs) text part pos) with
    | none =>
      rw [List.find?_range'_eq_none] at ho
      have hno := ho pos hle (by have := hocc.1; omega)
      simp [hocc] at hno
    | some first =>
      refine ⟨first, rfl, ?_⟩
      rw [List.find?_range'_eq_some] at ho
      by_contra hlt
      have hno := ho.2.2 pos hle (by omega)
      simp [hocc] at hno

/-- The loop checks the parts one by one and never asks for an offset outside the text. -/
theorem matchLoop_eq (cs : Bool) (parts : List Str) (any : Bool) {textPos : ℕ} (hpos : textPos ≤ text.length) :
    ∃ b, matchLoop text cs parts textPos any = .ok b ∧
      (b = true ↔ PresentFrom (fold cs) text true any parts textPos) := by
  induction parts generalizing any textPos with
  | nil => exact ⟨true, rfl, iff_of_true rfl (.inl rfl)⟩
  | cons part parts ih =>
    obtain ⟨o, ho, hfound, hfirst⟩ := findSubString_eq cs part hpos
    rw [matchLoop, ho, presentFrom_cons fun h => Bool.noConfusion h.1]
    cases o with
    | none =>
      refine ⟨false, rfl, iff_of_false Bool.false_ne_true ?_⟩
      rintro ⟨⟨pos, hle, -, hocc⟩, -⟩
      obtain ⟨first, hf, -⟩ := hfirst pos hle hocc
      cases hf
    | some first =>
      obtain ⟨hle, hocc⟩ := hfound first rfl
      by_cases hany : any = false ∧ first ≠ textPos
      · refine ⟨false, if_pos hany, iff_of_false Bool.false_ne_true ?_⟩
        rintro ⟨⟨pos, hle', hat, hocc'⟩, -⟩
        obtain ⟨first', hf, hle''⟩ := hfirst pos hle' hocc'
        have := hat hany.1
        have := hany.2
        rw [Option.some.injEq] at hf
        omega
      · have hroom := hocc.le
        obtain ⟨b, hb, hiff⟩ := ih true (show textPos + part.length ≤ text.length by omega)
        refine ⟨b, (if_neg hany).trans hb, hiff.trans ?_⟩
        refine (and_iff_right ⟨first, hle, fun h => ?_, hocc⟩).symm
        by_contra hne
        exact hany ⟨h, hne⟩

theorem isSuffixOf_iff (cs : Bool) (suffix : Str) :
    isSuffixOf suffix text cs = true ↔ OccursAt (fold cs) text suffix (text.length - suffix.length) := by
  rw [isSuffixOf, OccursAt, and_iff_right (Nat.sub_le _ _)]
  by_cases h0 : suffix.length = 0
  · rw [if_pos h0, List.length_eq_zero_iff.mp h0]
    exact iff_of_true rfl List.nil_prefix
  · rw [if_neg h0, substrCompareIsZero, decide_eq_true_eq, List.take_length, List.prefix_iff_eq_take, List.length_map,
      ← List.map_take]
    exact eq_comm

theorem presentFrom_concat (f : UInt8 → UInt8) (any : Bool) (init : List Str) (last : Str) (lo : ℕ) :
    PresentFrom f text false any (init ++ [last]) lo ↔ PresentFrom f text true any init lo ∧
      (if any = false ∧ init = [] then last.map f = text.map f
        else OccursAt f text last (text.length - last.length)) := by
  induction init generalizing any lo with
  | nil =>
    have hnil : PresentFrom f text true any [] lo := .inl rfl
    rw [List.nil_append, presentFrom_last, and_iff_right hnil]
    simp only [and_true]
  | cons part init ih =>
    have hlast : ¬ (false = false ∧ init ++ [last] = []) := fun h => by simp at h
    have hcons : ¬ (any = false ∧ part :: init = []) := fun h => by simp at h
    rw [List.cons_append, presentFrom_cons hlast, ih, presentFrom_cons fun h => Bool.noConfusion h.1, and_assoc,
      if_neg fun h => Bool.noConfusion h.1, if_neg hcons]

theorem lastPartMatches_iff (cs starts : Bool) (init : List Str) (last : Str) :
    WildcardMatcher.lastPartMatches ⟨cs, starts, false, init ++ [last]⟩ text = true ↔
      (if starts = false ∧ init = [] then last.map (fold cs) = text.map (fold cs)
        else OccursAt (fold cs) text last (text.length - last.length)) := by
  have hlast : (init ++ [last]).getLast?.getD [] = last := by simp
  have hlen : (init ++ [last]).length = 1 ↔ init = [] := by simp
  simp only [WildcardMatcher.lastPartMatches, hlast, hlen]
  by_cases h : starts = false ∧ init = []
  · rw [if_pos h, if_pos h, areStringsEqual, decide_eq_true_eq]
  · rw [if_neg h, if_neg h, isSuffixOf_iff]

/-- The matcher throws nothing and accepts when every part is present. -/
theorem matchText_eq {m : WildcardMatcher} (hm : m.literalParts = [] → m.startsWithWildcard = m.endsWithWildcard)
    (text : Str) :
    ∃ b, m.matchText text = .ok b ∧
      (b = true ↔ PresentFrom (fold m.isCaseSensitive) text m.endsWithWildcard m.startsWithWildcard
        m.literalParts 0) := by
  obtain ⟨cs, starts, ends, parts⟩ := m
  rw [WildcardMatcher.matchText]
  rcases List.eq_nil_or_concat parts with rfl | ⟨init, last, rfl⟩
  · have hends : starts = ends := hm rfl
    by_cases hempty : starts = false ∧ text ≠ []
    · refine ⟨false, if_pos ⟨hempty.1, rfl, hempty.2⟩, iff_of_false Bool.false_ne_true ?_⟩
      rintro (h | h)
      · rw [hends] at hempty
        exact absurd (h.symm.trans hempty.1) Bool.noConfusion
      · exact hempty.2 (List.length_eq_zero_iff.mp h.symm)
    · refine ⟨true, if_neg fun h => hempty ⟨h.1, h.2.2⟩, iff_of_true rfl ?_⟩
      by_cases hs : starts = false
      · exact .inr (by simp [not_not.mp fun h => hempty ⟨hs, h⟩])
      · exact .inl (hends ▸ Bool.not_eq_false _ ▸ hs)
  · have hne : init ++ [last] ≠ [] := by simp
    rw [List.concat_eq_append, if_neg fun h => hne h.2.1]
    cases ends with
    | true =>
      -- the loop checks all parts
      have hnum : WildcardMatcher.numberOfPartsToCheckInLoop ⟨cs, starts, true, init ++ [last]⟩ =
          (init ++ [last]).length := if_neg fun h => Bool.noConfusion h.2
      obtain ⟨b, hb, hiff⟩ := matchLoop_eq cs (init ++ [last]) starts (Nat.zero_le text.length)
      refine ⟨b, ?_, hiff⟩
      simp only [hnum, List.take_length, hb, lt_irrefl, if_false]
      cases b <;> rfl
    | false =>
      -- the loop leaves out the last part
      have hnum : WildcardMatcher.numberOfPartsToCheckInLoop ⟨cs, starts, false, init ++ [last]⟩ = init.length := by
        rw [WildcardMatcher.numberOfPartsToCheckInLoop, if_pos (by simp)]
        simp
      have hlt : init.length < (init ++ [last]).length := by simp
      obtain ⟨b, hb, hiff⟩ := matchLoop_eq cs init starts (Nat.zero_le text.length)
      rw [presentFrom_concat, ← lastPartMatches_iff, ← hiff]
      simp only [hnum, List.take_left, hb, if_pos hlt]
      cases b with
      | false => exact ⟨false, rfl, by simp⟩
      | true => exact ⟨_, rfl, by simp⟩

end Present

/-! ## Present and placed -/

section Placed

variable {text : Str} {f : UInt8 → UInt8} {ends : Bool}

/-- The total length of the parts before is at most where they end. -/
theorem presentFrom_of_placedFrom_any {parts : List Str} {lo lo' : ℕ} (h : PlacedFrom f text ends true parts lo)
    (hle : lo' ≤ lo) (hne : ends = false → parts ≠ []) : PresentFrom f text ends true parts lo' := by
  induction parts generalizing lo lo' with
  | nil =>
    refine .inl ?_
    by_contra he
    exact hne (Bool.not_eq_true _ ▸ he) rfl
  | cons part parts ih =>
    obtain ⟨pos, hlo, -, hocc, hrest⟩ := h
    by_cases hlast : ends = false ∧ parts = []
    · obtain ⟨rfl, rfl⟩ := hlast
      have hend : pos + part.length = text.length := hrest.resolve_left Bool.false_ne_true
      rw [presentFrom_last, if_neg fun h => Bool.noConfusion h, ← hend, Nat.add_sub_cancel]
      exact hocc
    · rw [presentFrom_cons hlast]
      refine ⟨⟨pos, le_trans hle hlo, fun h => Bool.noConfusion h, hocc⟩, ih hrest (by omega) fun he hp => ?_⟩
      exact hlast ⟨he, hp⟩

/-- Parts that are placed are present. -/
theorem presentFrom_of_placedFrom {any : Bool} {parts : List Str} (h : PlacedFrom f text ends any parts 0) :
    PresentFrom f text ends any parts 0 := by
  cases parts with
  | nil => exact h
  | cons part parts =>
    obtain ⟨pos, hlo, hany, hocc, hrest⟩ := h
    by_cases hlast : ends = false ∧ parts = []
    · obtain ⟨rfl, rfl⟩ := hlast
      have hend : pos + part.length = text.length := hrest.resolve_left Bool.false_ne_true
      rw [presentFrom_last]
      by_cases ha : any = false
      · have hpos : pos = 0 := hany ha
        subst hpos
        rw [if_pos ha]
        refine hocc.2.eq_of_length ?_
        rw [List.drop_zero, List.length_map, List.length_map]
        omega
      · rw [if_neg ha, ← hend, Nat.add_sub_cancel]
        exact hocc
    · rw [presentFrom_cons hlast]
      exact ⟨⟨pos, hlo, hany, hocc⟩,
        presentFrom_of_placedFrom_any hrest (by omega) fun he hp => hlast ⟨he, hp⟩⟩

/-- A single part that is present is placed. -/
theorem placedFrom_of_presentFrom {any : Bool} {parts : List Str} (hlen : parts.length ≤ 1)
    (h : PresentFrom f text ends any parts 0) : PlacedFrom f text ends any parts 0 := by
  cases parts with
  | nil => exact h
  | cons part parts =>
    obtain rfl : parts = [] := List.length_eq_zero_iff.mp (by rw [List.length_cons] at hlen; omega)
    cases ends with
    | true =>
      rw [presentFrom_cons fun h => Bool.noConfusion h.1] at h
      obtain ⟨⟨pos, hlo, hany, hocc⟩, -⟩ := h
      exact ⟨pos, hlo, hany, hocc, .inl rfl⟩
    | false =>
      rw [presentFrom_last] at h
      by_cases ha : any = false
      · rw [if_pos ha] at h
        have hlen : part.length = text.length := by simpa using congrArg List.length h
        exact ⟨0, le_rfl, fun _ => rfl, ⟨Nat.zero_le _, h ▸ List.prefix_rfl⟩, .inr (by omega)⟩
      · rw [if_neg ha] at h
        have hroom := h.le
        exact ⟨text.length - part.length, Nat.zero_le _, fun he => absurd he ha, h, .inr (by omega)⟩

end Placed

/-- Each literal part of the expression occurs in the text, behind the total length of the parts before it. -/
def PartsPresent (expr text : Str) : Prop :=
  let m := WildcardMatcher.construct expr
  PresentFrom (fold m.isCaseSensitive) text m.endsWithWildcard m.startsWithWildcard m.literalParts 0

/-- The literal parts of the expression occur in the text in order without overlapping. -/
def PartsPlaced (expr text : Str) : Prop :=
  let m := WildcardMatcher.construct expr
  PlacedFrom (fold m.isCaseSensitive) text m.endsWithWildcard m.startsWithWildcard m.literalParts 0

instance (expr text : Str) : Decidable (PartsPlaced expr text) := decidablePlacedFrom _ _ _ _ _

theorem inLanguage_iff (expr text : Str) : InLanguage expr text ↔ PartsPlaced expr text := by
  obtain ⟨body, cs, hlang, hm⟩ := construct_eq expr
  rw [PartsPlaced, hm, hlang]
  exact glob_iff_placed body text

/-- An expression with one literal part at most. -/
theorem partsPlaced_of_length_le_one {expr text : Str}
    (hlen : (WildcardMatcher.construct expr).literalParts.length ≤ 1) (h : PartsPresent expr text) :
    PartsPlaced expr text := placedFrom_of_presentFrom hlen h

end OtelDistro.Util
