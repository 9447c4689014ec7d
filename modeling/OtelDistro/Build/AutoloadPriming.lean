import OtelDistro.Util.PhpStrings

/-!
# OtelDistro.Build.AutoloadPriming — class names in calls of `hook()`

`primeAutoloadBeforeHook`, the patcher of php-scoper for auto-instrumentation packages.  A hook is lost when its class is not
loaded yet, so a statement that loads the class is put before the line of the call.

* `occurrence`: the pattern from `hook(` on; `matchLine`: the whole pattern, at the beginning of a line.
* `segments`: what `preg_replace_callback` keeps and what it replaces.
* `primeAutoloadBeforeHook`: the patcher, with the check for calls that the pattern does not cover.
* `Leads`: an occurrence whose line begins behind all earlier ones that lead; `matchAt_segmentsFrom_iff`: these are the matches.
-/

namespace OtelDistro.Build

open OtelDistro.Util

/-! ## The pattern -/

/-- `[ \t]` -/
def isBlank (b : UInt8) : Bool := b = 32 || b = 9

/-- `[A-Za-z0-9_]` -/
def isWordByte (b : UInt8) : Bool := 65 ≤ b && b ≤ 90 || 97 ≤ b && b ≤ 122 || 48 ≤ b && b ≤ 57 || b = 95

/-- `s` begins with a word byte. -/
def beginsWord (s : Str) : Bool := s.head?.any isWordByte

/-- `[A-Za-z_][A-Za-z0-9_]*` -/
def isIdentifier : Str → Bool
  | [] => false
  | c :: s => isWordByte c && !(48 ≤ c && c ≤ 57) && s.all isWordByte

def isClassByte (b : UInt8) : Bool := isWordByte b || b = 92

/-- `\\?` and identifiers with `\\` between them. -/
def isClassRef (s : Str) : Bool := ((if s.head? = some 92 then s.tail else s).splitOn 92).all isIdentifier

/-- The class of a `ClassName::class` argument, and what is behind it. -/
def classArgument (args : Str) : Option (Str × Str) :=
  let s := dropSpaces args
  let className := s.takeWhile isClassByte
  let rest := s.dropWhile isClassByte
  if isClassRef className ∧ lit "::class" <+: rest ∧ beginsWord (rest.drop 7) = false then some (className, rest.drop 7)
  else none

/-- The pattern from `hook(` on: the class, and what is behind the comma. -/
def occurrence (s : Str) : Option (Str × Str) :=
  if lit "hook(" <+: s then
    match classArgument (s.drop 5) with
    | some (className, rest) =>
      match dropSpaces rest with
      | 44 :: behind => some (className, behind)
      | _ => none
    | none => none
  else none

/-- The pattern at the beginning of a line: what is on the line before `hook(`, the class, and what is behind the comma. -/
def matchLine : Str → Option (Str × Str × Str)
  | [] => none
  | c :: s =>
    match occurrence (c :: s) with
    | some (className, behind) => some ([], className, behind)
    | none => if c = 10 then none else (matchLine s).map fun m => (c :: m.1, m.2)

/-! ## The patcher -/

/-- A byte that is kept, or a match. -/
inductive Segment where
  | kept (b : UInt8)
  | primed (source linePart className : Str)

/-- The statement that loads the class. -/
def prime (className : Str) : Str :=
  lit "\\class_exists(" ++ className ++ lit "::class) || \\interface_exists(" ++ className ++ lit "::class);"

namespace Segment

def source : Segment → Str
  | kept b => [b]
  | primed source _ _ => source

def target : Segment → Str
  | kept b => [b]
  | primed _ linePart className =>
    let indent := linePart.takeWhile isBlank
    let linePrefix := linePart.dropWhile isBlank
    indent ++ prime className ++ [10] ++ indent ++ linePrefix ++ lit "hook(" ++ className ++ lit "::class,"

def isPrimed : Segment → Bool
  | kept _ => false
  | primed .. => true

end Segment

/-- `preg_replace_callback`: the pattern is tried at the beginnings of lines, and again behind a match.  The first argument
counts the bytes of a match still to be skipped. -/
def segmentsFrom : ℕ → Bool → Str → List Segment
  | _, _, [] => []
  | k + 1, _, c :: s => segmentsFrom k (c = 10) s
  | 0, atLineStart, c :: s =>
    match if atLineStart then matchLine (c :: s) else none with
    | some (linePart, className, behind) =>
      .primed ((c :: s).take (s.length + 1 - behind.length)) linePart className ::
        segmentsFrom (s.length - behind.length) false s
    | none => .kept c :: segmentsFrom 0 (c = 10) s

def segments (content : Str) : List Segment := segmentsFrom 0 true content

/-- `hook\s*\(`: what is behind the bracket. -/
def callArgs (s : Str) : Option Str :=
  if lit "hook" <+: s then
    match dropSpaces (s.drop 4) with
    | 40 :: args => some args
    | _ => none
  else none

/-- `\bfunction\s+hook\s*\(`, not behind a word byte. -/
def functionHook (behindWord : Bool) (s : Str) : Option Str :=
  if behindWord = false ∧ lit "function" <+: s ∧ (s.drop 8).head?.any isPcreSpace then callArgs (dropSpaces (s.drop 8))
  else none

/-- `::\s*hook\s*\(` -/
def staticHook (_behindWord : Bool) (s : Str) : Option Str :=
  if lit "::" <+: s then callArgs (dropSpaces (s.drop 2)) else none

/-- `preg_replace` of what `find` finds by `(`. -/
def strip (find : Bool → Str → Option Str) : ℕ → Bool → Str → Str
  | _, _, [] => []
  | k + 1, _, c :: s => strip find k (isWordByte c) s
  | 0, behindWord, c :: s =>
    match find behindWord (c :: s) with
    | some behind => 40 :: strip find (s.length - behind.length) (isWordByte c) s
    | none => c :: strip find 0 (isWordByte c) s

/-- `null\b`, behind spaces. -/
def startsWithNull (args : Str) : Bool := lit "null" <+: dropSpaces args && !beginsWord ((dropSpaces args).drop 4)

/-- `\bhook\s*\((?>\s*)(?!null\b)` is found. -/
def hasUncoveredCall : Bool → Str → Bool
  | _, [] => false
  | behindWord, c :: s =>
    (!behindWord && (callArgs (c :: s)).any fun args => !startsWithNull args) || hasUncoveredCall (isWordByte c) s

def uncoveredCallMessage (filePath : Str) : Str :=
  lit "php-scoper patcher: " ++ filePath ++ lit " contains hook() calls with a non-null class argument " ++
    lit "but none matched the autoload-priming pattern (ClassName::class). Check for self::class, " ++
    lit "static::class, or variable class references and either extend the pattern or confirm " ++
    lit "autoload priming is not needed."

def primeAutoloadBeforeHook (filePath content : Str) : Except Str Str :=
  if ¬ lit "/opentelemetry-auto-" <:+: filePath then .ok content
  else
    let matchCount := (segments content).countP Segment.isPrimed
    let result := (segments content).flatMap Segment.target
    let contentForHookCheck := strip staticHook 0 false (strip functionHook 0 false result)
    if matchCount = 0 ∧ hasUncoveredCall false contentForHookCheck then .error (uncoveredCallMessage filePath)
    else .ok result

/-! ## Where the pattern matches -/

/-- The beginning of the line of the byte `i`. -/
def lineStart (content : Str) : ℕ → ℕ
  | 0 => 0
  | i + 1 => if content[i]? = some 10 then i + 1 else lineStart content i

def classAt (content : Str) (j : ℕ) : Option Str := (occurrence (content.drop j)).map Prod.fst

/-- Behind the comma of the occurrence at `j`. -/
def endOf (content : Str) (j : ℕ) : ℕ :=
  match occurrence (content.drop j) with
  | some (_, behind) => content.length - behind.length
  | none => j

/-- An occurrence whose line begins behind all earlier ones that lead. -/
def Leads (content : Str) (j : ℕ) : Prop :=
  (classAt content j).isSome ∧ ∀ k, k < j → Leads content k → endOf content k ≤ lineStart content j
termination_by j

section Matches

variable {s t args content className behind rest linePart : Str} {b : Bool} {i j k : ℕ}

theorem dropSpaces_suffix (s : Str) : dropSpaces s <:+ s := List.dropWhile_suffix _

theorem classArgument_suffix (h : classArgument args = some (className, rest)) : rest <:+ args := by
  unfold classArgument at h
  dsimp only at h
  split at h
  · rw [Option.some.injEq, Prod.mk.injEq] at h
    rw [← h.2]
    exact ((List.drop_suffix _ _).trans (List.dropWhile_suffix _)).trans (dropSpaces_suffix args)
  · cases h

theorem occurrence_split (h : occurrence s = some (className, behind)) : ∃ o, o ≠ [] ∧ s = o ++ 44 :: behind := by
  unfold occurrence at h
  split at h
  · next hhook =>
    split at h
    · next className' rest hargs =>
      split at h
      · next behind' hcomma =>
        obtain ⟨rfl, rfl⟩ := Prod.mk.inj (Option.some.inj h)
        obtain ⟨o, ho⟩ := (dropSpaces_suffix rest).trans (classArgument_suffix hargs)
        rw [hcomma] at ho
        refine ⟨s.take 5 ++ o, ?_, ?_⟩
        · obtain ⟨t, rfl⟩ := hhook
          exact List.append_ne_nil_of_left_ne_nil (by simp [lit]) _
        · rw [List.append_assoc, ho, List.take_append_drop]
      · cases h
    · cases h
  · cases h

@[simp] theorem occurrence_nil : occurrence [] = none := by decide

/-- The first occurrence on the line. -/
theorem matchLine_some (h : matchLine s = some (linePart, className, behind)) :
    occurrence (s.drop linePart.length) = some (className, behind) ∧ linePart = s.take linePart.length ∧ 10 ∉ linePart ∧
      ∀ q < linePart.length, occurrence (s.drop q) = none := by
  induction s generalizing linePart with
  | nil => cases h
  | cons c s ih =>
    rw [matchLine] at h
    split at h
    · next className' behind' hocc =>
      obtain ⟨rfl, hrest⟩ := Prod.mk.inj (Option.some.inj h)
      obtain ⟨rfl, rfl⟩ := Prod.mk.inj hrest
      exact ⟨hocc, rfl, List.not_mem_nil, fun q hq => absurd hq (Nat.not_lt_zero q)⟩
    · next hocc =>
      split at h
      · cases h
      · next hc =>
        obtain ⟨⟨linePart', m⟩, hm, heq⟩ := Option.map_eq_some_iff.mp h
        obtain ⟨rfl, rfl⟩ := Prod.mk.inj heq
        obtain ⟨h₁, h₂, h₃, h₄⟩ := ih hm
        refine ⟨h₁, congrArg _ h₂, ?_, fun q hq => ?_⟩
        · rw [List.mem_cons, not_or]
          exact ⟨fun h => hc h.symm, h₃⟩
        · cases q with
          | zero => exact hocc
          | succ q => exact h₄ q (Nat.lt_of_succ_lt_succ hq)

theorem matchLine_none (h : matchLine s = none) (hline : 10 ∉ s.take k) : occurrence (s.drop k) = none := by
  induction s generalizing k with
  | nil => simp
  | cons c s ih =>
    rw [matchLine] at h
    split at h
    · cases h
    · next hocc =>
      cases k with
      | zero => exact hocc
      | succ k =>
        rw [List.take_succ_cons, List.mem_cons, not_or] at hline
        rw [if_neg fun h => hline.1 h.symm, Option.map_eq_none_iff] at h
        exact ih h hline.2

theorem segmentsFrom_skip (x behind : Str) (b : Bool) :
    segmentsFrom (x.length + 1) b (x ++ 44 :: behind) = segmentsFrom 0 false behind := by
  induction x generalizing b with
  | nil => rfl
  | cons c x ih => exact ih _

theorem lineStart_le (content : Str) (i : ℕ) : lineStart content i ≤ i := by
  induction i with
  | zero => exact Nat.le_refl 0
  | succ i ih =>
    rw [lineStart]
    split
    · exact Nat.le_refl _
    · exact Nat.le_succ_of_le ih

/-- A line goes on where no newline stands. -/
theorem lineStart_add (h : 10 ∉ (content.drop i).take k) (hk : i + k ≤ content.length) :
    lineStart content (i + k) = lineStart content i := by
  induction k with
  | zero => rfl
  | succ k ih =>
    have hlt : k < (content.drop i).length := by
      rw [List.length_drop]
      omega
    have htake := List.take_succ_eq_append_getElem hlt
    rw [htake, List.mem_append, not_or] at h
    rw [← Nat.add_assoc, lineStart, if_neg, ih h.1 (by omega)]
    intro hnl
    rw [List.getElem_drop] at h
    rw [List.getElem?_eq_getElem (by omega), Option.some.injEq] at hnl
    exact h.2 (List.mem_singleton.mpr hnl.symm)

/-- The bytes between the beginning of a line and a place on it. -/
theorem lineStart_eq (h : lineStart content (i + k) = i) : 10 ∉ (content.drop i).take k ∧ lineStart content i = i := by
  induction k with
  | zero => exact ⟨List.not_mem_nil, h⟩
  | succ k ih =>
    rw [← Nat.add_assoc, lineStart] at h
    split at h
    · omega
    · next hnl =>
      obtain ⟨hmem, hstart⟩ := ih h
      refine ⟨?_, hstart⟩
      rw [List.take_add_one, List.mem_append, not_or, List.getElem?_drop]
      refine ⟨hmem, fun h => hnl ?_⟩
      exact (Option.mem_toList.mp h)

theorem leads_iff : Leads content j ↔
    (classAt content j).isSome ∧ ∀ k, k < j → Leads content k → endOf content k ≤ lineStart content j := by
  rw [Leads]

/-- Before `i` nothing leads beyond it, and nothing leads on the line of `i` from `i` on unless this is a beginning. -/
structure Scanned (content : Str) (i : ℕ) (atLineStart : Bool) : Prop where
  le_length : i ≤ content.length
  earlier : ∀ k < i, Leads content k → endOf content k ≤ i
  line : ∀ j, i ≤ j → lineStart content j < i → ¬ Leads content j
  flag : atLineStart = true ↔ lineStart content i = i

theorem scanned_zero (content : Str) : Scanned content 0 true where
  le_length := Nat.zero_le _
  earlier _ h := absurd h (Nat.not_lt_zero _)
  line _ _ h := absurd h (Nat.not_lt_zero _)
  flag := iff_of_true rfl rfl

theorem not_leads_of_occurrence (h : occurrence (content.drop j) = none) : ¬ Leads content j := by
  intro hleads
  have hsome := (leads_iff.mp hleads).1
  rw [classAt, h] at hsome
  cases hsome

/-- A byte is kept where no match begins. -/
theorem Scanned.keep {c : UInt8} {s : Str} (h : Scanned content i b) (hs : content.drop i = c :: s)
    (hnone : b = true → matchLine (c :: s) = none) : Scanned content (i + 1) (c = 10) ∧ ¬ Leads content i := by
  have hnot : ¬ Leads content i := by
    cases b with
    | true =>
      have hocc := matchLine_none (k := 0) (hnone rfl) List.not_mem_nil
      exact not_leads_of_occurrence (hs ▸ hocc)
    | false =>
      have hne : lineStart content i ≠ i := fun heq => absurd (h.flag.mpr heq) Bool.false_ne_true
      exact h.line i (Nat.le_refl i) (Nat.lt_of_le_of_ne (lineStart_le content i) hne)
  have hlt : i < content.length := by
    by_contra hge
    rw [List.drop_eq_nil_of_le (Nat.le_of_not_lt hge)] at hs
    cases hs
  refine ⟨⟨hlt, fun k hk hleads => ?_, fun j hj hstart => ?_, ?_⟩, hnot⟩
  · rcases Nat.lt_succ_iff_lt_or_eq.mp hk with hk | rfl
    · exact Nat.le_succ_of_le (h.earlier k hk hleads)
    · exact absurd hleads hnot
  · rcases Nat.lt_succ_iff_lt_or_eq.mp hstart with hstart | hstart
    · exact h.line j (Nat.le_of_succ_le hj) hstart
    · -- on the line that begins here the pattern has been tried
      obtain ⟨k, rfl⟩ := Nat.exists_eq_add_of_le (Nat.le_of_succ_le hj)
      obtain ⟨hline, hi⟩ := lineStart_eq hstart
      have hocc := matchLine_none (hnone (h.flag.mpr hi)) (hs ▸ hline)
      rw [← hs, List.drop_drop] at hocc
      exact not_leads_of_occurrence hocc
  · have hget : content[i]? = some c := by
      rw [← List.head?_drop, hs]
      rfl
    rw [lineStart, hget, decide_eq_true_eq]
    by_cases hc : c = 10
    · rw [if_pos (congrArg some hc)]
      exact iff_of_true hc rfl
    · rw [if_neg fun heq => hc (Option.some.inj heq)]
      exact iff_of_false hc (Nat.ne_of_lt (Nat.lt_succ_of_le (lineStart_le content i)))

/-- Behind a match. -/
theorem Scanned.skip (h : Scanned content i true)
    (hmatch : matchLine (content.drop i) = some (linePart, className, behind)) :
    Scanned content (endOf content (i + linePart.length)) false ∧ Leads content (i + linePart.length) ∧
      lineStart content (i + linePart.length) = i ∧
      ∀ j, i ≤ j → j < endOf content (i + linePart.length) → Leads content j → j = i + linePart.length := by
  obtain ⟨hocc, htake, hline, hfirst⟩ := matchLine_some hmatch
  rw [List.drop_drop] at hocc
  obtain ⟨o, ho, hsplit⟩ := occurrence_split hocc
  have hend : endOf content (i + linePart.length) = i + linePart.length + o.length + 1 := by
    have hlen := congrArg List.length hsplit
    simp only [List.length_drop, List.length_append, List.length_cons] at hlen
    rw [endOf, hocc]
    dsimp only
    omega
  have hle : i + linePart.length + o.length + 1 ≤ content.length := by
    have hlen := congrArg List.length hsplit
    simp only [List.length_drop, List.length_append, List.length_cons] at hlen
    omega
  have hstart : lineStart content (i + linePart.length) = i := by
    rw [lineStart_add (htake ▸ hline) (by omega), h.flag.mp rfl]
  -- before the occurrence there is no other one on the line
  have hbefore (k : ℕ) (hk : i ≤ k) (hlt : k < i + linePart.length) : ¬ Leads content k := by
    obtain ⟨q, rfl⟩ := Nat.exists_eq_add_of_le hk
    have hq := hfirst q (by omega)
    rw [List.drop_drop] at hq
    exact not_leads_of_occurrence hq
  have hleads : Leads content (i + linePart.length) := by
    refine leads_iff.mpr ⟨by rw [classAt, hocc]; rfl, fun k hk hleads => ?_⟩
    rw [hstart]
    rcases Nat.lt_or_ge k i with hlt | hge
    · exact h.earlier k hlt hleads
    · exact absurd hleads (hbefore k hge hk)
  have hafter (k : ℕ) (hk : i + linePart.length < k) (h : Leads content k) :
      endOf content (i + linePart.length) ≤ lineStart content k := (leads_iff.mp h).2 _ hk hleads
  have honly (j : ℕ) (hj : i ≤ j) (hlt : j < endOf content (i + linePart.length)) (h : Leads content j) :
      j = i + linePart.length := by
    rcases Nat.lt_trichotomy j (i + linePart.length) with hlt' | heq | hgt
    · exact absurd h (hbefore j hj hlt')
    · exact heq
    · have := (hafter j hgt h).trans (lineStart_le content j)
      omega
  refine ⟨⟨hend ▸ hle, fun k hk hk' => ?_, fun j hj hlt hj' => ?_, ?_⟩, hleads, hstart, honly⟩
  · rcases Nat.lt_or_ge k i with hlt | hge
    · have := h.earlier k hlt hk'
      omega
    · rw [honly k hge hk hk']
  · have := hafter j (by omega) hj'
    omega
  · refine iff_of_false Bool.false_ne_true ?_
    have hcomma : content[i + linePart.length + o.length]? = some 44 := by
      rw [← List.getElem?_drop, hsplit, List.getElem?_append_right (Nat.le_refl _), Nat.sub_self]
      rfl
    rw [hend, lineStart, hcomma, if_neg (by decide)]
    exact Nat.ne_of_lt (Nat.lt_succ_of_le (lineStart_le _ _))

/-- A match for the class at the place `n` of the source. -/
def MatchAt (segs : List Segment) (className : Str) (n : ℕ) : Prop := ∃ before source linePart after,
  segs = before ++ .primed source linePart className :: after ∧ (before.flatMap Segment.source).length = n

theorem matchAt_cons {seg : Segment} {segs : List Segment} {n : ℕ} : MatchAt (seg :: segs) className n ↔
    (n = 0 ∧ ∃ source linePart, seg = .primed source linePart className) ∨
      ∃ m, n = seg.source.length + m ∧ MatchAt segs className m := by
  constructor
  · rintro ⟨before, source, linePart, after, heq, rfl⟩
    cases before with
    | nil =>
      obtain ⟨rfl, -⟩ := List.cons.inj heq
      exact .inl ⟨rfl, source, linePart, rfl⟩
    | cons seg' before =>
      obtain ⟨rfl, rfl⟩ := List.cons.inj heq
      exact .inr ⟨_, by rw [List.flatMap_cons, List.length_append], before, source, linePart, after, rfl, rfl⟩
  · rintro (⟨rfl, source, linePart, rfl⟩ | ⟨m, rfl, before, source, linePart, after, rfl, rfl⟩)
    · exact ⟨[], source, linePart, segs, rfl, rfl⟩
    · exact ⟨seg :: before, source, linePart, after, rfl, by rw [List.flatMap_cons, List.length_append]⟩

/-- A match in its text. -/
theorem match_source {c : UInt8} {s : Str} (hs : content.drop i = c :: s)
    (hm : matchLine (c :: s) = some (linePart, className, behind)) :
    classAt content (i + linePart.length) = some className ∧ i + linePart.length < endOf content (i + linePart.length) ∧
      content.drop (endOf content (i + linePart.length)) = behind ∧
      segmentsFrom (s.length - behind.length) false s = segmentsFrom 0 false behind ∧
      ((c :: s).take (s.length + 1 - behind.length)).length = endOf content (i + linePart.length) - i := by
  obtain ⟨hocc, htake, -⟩ := matchLine_some hm
  obtain ⟨o, ho, hsplit⟩ := occurrence_split hocc
  have hocc' : occurrence (content.drop (i + linePart.length)) = some (className, behind) := by
    rwa [← List.drop_drop, hs]
  have hend : endOf content (i + linePart.length) = content.length - behind.length := by rw [endOf, hocc']
  have hwhole : c :: s = linePart ++ o ++ 44 :: behind := by
    rw [List.append_assoc, ← hsplit]
    conv_lhs => rw [← List.take_append_drop linePart.length (c :: s), ← htake]
  obtain ⟨d, x, hx⟩ := List.exists_cons_of_ne_nil (List.append_ne_nil_of_right_ne_nil linePart ho)
  rw [hx] at hwhole
  obtain ⟨rfl, hs'⟩ : c = d ∧ s = x ++ 44 :: behind := List.cons.inj hwhole
  subst hs'
  have hlength := congrArg List.length hs
  have hxlength := congrArg List.length hx
  simp only [List.length_drop, List.length_append, List.length_cons] at hlength hxlength
  have hopos := List.length_pos_iff.mpr ho
  have hsuffix : behind <:+ content := by
    refine List.IsSuffix.trans ⟨c :: x ++ [44], ?_⟩ (List.drop_suffix i content)
    rw [hs, List.append_assoc]
    rfl
  refine ⟨by rw [classAt, hocc']; rfl, by omega, ?_, ?_, ?_⟩
  · rw [hend]
    exact (List.suffix_iff_eq_drop.mp hsuffix).symm
  · rw [List.length_append, List.length_cons, ← segmentsFrom_skip x behind false]
    congr 1
    omega
  · rw [List.length_take, List.length_cons, List.length_append, List.length_cons, hend]
    omega

/-- The matches are the occurrences that lead, each at the beginning of its line. -/
theorem matchAt_segmentsFrom_iff (h : Scanned content i b) (n : ℕ) :
    MatchAt (segmentsFrom 0 b (content.drop i)) className n ↔
      ∃ j, i ≤ j ∧ Leads content j ∧ classAt content j = some className ∧ lineStart content j = i + n := by
  induction hlen : content.length - i using Nat.strong_induction_on generalizing i b n with
  | _ len ih =>
    subst hlen
    cases hs : content.drop i with
    | nil =>
      constructor
      · rintro ⟨before, source, linePart, after, heq, -⟩
        cases before <;> cases heq
      · rintro ⟨j, hj, hleads, -⟩
        refine absurd hleads (not_leads_of_occurrence ?_)
        obtain ⟨k, rfl⟩ := Nat.exists_eq_add_of_le hj
        rw [← List.drop_drop, hs, List.drop_nil, occurrence_nil]
    | cons c s =>
      have hlt : i < content.length := by
        by_contra hge
        rw [List.drop_eq_nil_of_le (Nat.le_of_not_lt hge)] at hs
        cases hs
      cases hm : (if b then matchLine (c :: s) else none) with
      | none =>
        have hnone (hb : b = true) : matchLine (c :: s) = none := by rwa [if_pos hb] at hm
        obtain ⟨hnext, hnot⟩ := h.keep hs hnone
        have hdrop : content.drop (i + 1) = s := by
          rw [← List.drop_drop, hs]
          rfl
        have ih' (m : ℕ) := ih _ (by omega) hnext m rfl
        rw [hdrop] at ih'
        rw [segmentsFrom, hm, matchAt_cons]
        constructor
        · rintro (⟨-, source, linePart, hseg⟩ | ⟨m, rfl, hmatch⟩)
          · cases hseg
          · obtain ⟨j, hj, hleads, hclass, hstart⟩ := (ih' m).mp hmatch
            exact ⟨j, Nat.le_of_succ_le hj, hleads, hclass, by rw [hstart, Nat.add_assoc]; rfl⟩
        · rintro ⟨j, hj, hleads, hclass, hstart⟩
          have hlt : i < j := Nat.lt_of_le_of_ne hj fun heq => hnot (heq ▸ hleads)
          have hn : n ≠ 0 := fun hn => hnext.line j hlt (by omega) hleads
          exact .inr ⟨n - 1, by change n = 1 + (n - 1); omega, (ih' _).mpr ⟨j, hlt, hleads, hclass, by omega⟩⟩
      | some m =>
        obtain ⟨linePart, className', behind⟩ := m
        cases b with
        | false => cases hm
        | true =>
          rw [if_pos rfl] at hm
          obtain ⟨hnext, hleads, hstart, honly⟩ := h.skip (hs ▸ hm)
          obtain ⟨hclass, hend, hdrop, hskip, hlength⟩ := match_source hs hm
          have ih' (m : ℕ) := ih _ (by omega) hnext m rfl
          rw [hdrop] at ih'
          rw [segmentsFrom, if_pos rfl, hm, matchAt_cons, hskip, Segment.source, hlength]
          constructor
          · rintro (⟨rfl, source, linePart', hseg⟩ | ⟨m, rfl, hmatch⟩)
            · cases hseg
              exact ⟨_, Nat.le_add_right _ _, hleads, hclass, hstart⟩
            · obtain ⟨j, hj, hleads', hclass', hstart'⟩ := (ih' m).mp hmatch
              exact ⟨j, by omega, hleads', hclass', by omega⟩
          · rintro ⟨j, hj, hleads', hclass', hstart'⟩
            rcases Nat.lt_or_ge j (endOf content (i + linePart.length)) with hlt | hge
            · obtain rfl := honly j hj hlt hleads'
              rw [hclass, Option.some.injEq] at hclass'
              exact .inl ⟨by omega, _, linePart, by rw [hclass']⟩
            · have hle := (leads_iff.mp hleads').2 _ (by omega) hleads
              exact .inr ⟨lineStart content j - endOf content (i + linePart.length), by omega,
                (ih' _).mpr ⟨j, hge, hleads', hclass', by omega⟩⟩

theorem flatMap_source_segmentsFrom (b : Bool) (s : Str) : (segmentsFrom 0 b s).flatMap Segment.source = s := by
  induction hlen : s.length using Nat.strong_induction_on generalizing b s with
  | _ len ih =>
    subst hlen
    cases s with
    | nil => rfl
    | cons c s =>
      cases hm : (if b then matchLine (c :: s) else none) with
      | none =>
        rw [segmentsFrom, hm, List.flatMap_cons, ih _ (Nat.lt_succ_self _) _ s rfl]
        rfl
      | some m =>
        obtain ⟨linePart, className, behind⟩ := m
        cases b with
        | false => cases hm
        | true =>
          rw [if_pos rfl] at hm
          have hdrop' : (c :: s).drop 0 = c :: s := rfl
          obtain ⟨-, hpos, hdrop, hskip, hlength⟩ := match_source hdrop' hm
          rw [Nat.zero_add] at hpos hdrop hlength
          have hlt : behind.length < (c :: s).length := by
            rw [← hdrop, List.length_drop, List.length_cons]
            omega
          have hbehind : (c :: s).drop (s.length + 1 - behind.length) = behind := by
            rw [List.length_take, List.length_cons, Nat.min_eq_left (Nat.sub_le _ _), Nat.sub_zero] at hlength
            rw [hlength, hdrop]
          rw [segmentsFrom, if_pos rfl, hm, List.flatMap_cons, hskip, ih _ hlt _ behind rfl]
          have hparts := List.take_append_drop (s.length + 1 - behind.length) (c :: s)
          rwa [hbehind] at hparts

theorem flatMap_target_of_kept {segs : List Segment} (h : ∀ seg ∈ segs, ¬ seg.isPrimed = true) :
    segs.flatMap Segment.target = segs.flatMap Segment.source := by
  induction segs with
  | nil => rfl
  | cons seg segs ih =>
    rw [List.flatMap_cons, List.flatMap_cons, ih fun seg' hseg => h seg' (List.mem_cons_of_mem seg hseg)]
    cases seg with
    | kept => rfl
    | primed => exact absurd rfl (h _ List.mem_cons_self)

/-- Without a match nothing is changed. -/
theorem flatMap_target_eq_self (h : (segments content).countP Segment.isPrimed = 0) :
    (segments content).flatMap Segment.target = content :=
  (flatMap_target_of_kept (List.countP_eq_zero.mp h)).trans (flatMap_source_segmentsFrom true content)

end Matches

end OtelDistro.Build
