import OtelDistro.Build.ScopedAutoload
import OtelDistro.Lib.Lines
import OtelDistro.Util.PhpStrings

/-!
# OtelDistro.Build.FunctionNames — function names after php-scoper

`restoreUnscopedExtensionFunctions`, the patcher of php-scoper for the names of functions.  The distribution is scoped in two
runs, and the patcher sees a file after each of them.

* `Hook.text`: an import or a call of `OpenTelemetry\Instrumentation\hook`, with some number of prefixes.
* `dedupeCount`, `importCount`, `callCount`: what the steps do with this number; `Hook.count`: the patcher.
* `KeepsDelimiters`: a text keeps its delimiters, and is changed by itself where it ends with one.
* `restore_hook`: a hook and the texts around it are changed by themselves.

The search for an unprefixed call also finds a prefixed one: its prefix ends with the separator.  The prefixes were made one
before that.
-/

namespace OtelDistro.Build

open Lib Util

/-! ## The patcher -/

def extensionFunctionFqcns : List Str :=
  [lit "OpenTelemetry\\Distro\\log_feature",
   lit "OpenTelemetry\\Distro\\get_config_option_by_name",
   lit "OpenTelemetry\\Distro\\hook",
   lit "OpenTelemetry\\Distro\\get_remote_configuration",
   lit "OpenTelemetry\\Distro\\is_enabled",
   lit "OpenTelemetry\\Distro\\OtlpExporters\\convert_spans",
   lit "OpenTelemetry\\Distro\\OtlpExporters\\convert_logs",
   lit "OpenTelemetry\\Distro\\OtlpExporters\\convert_metrics",
   lit "OpenTelemetry\\Distro\\HttpTransport\\initialize",
   lit "OpenTelemetry\\Distro\\HttpTransport\\enqueue",
   lit "OpenTelemetry\\Distro\\InferredSpans\\force_set_object_property_value"]

def instrumentationHook : Str := lit "OpenTelemetry\\Instrumentation\\hook"

def useFunction : Str := lit "use function "

def prefixedRoot (scoperPrefix : Str) : Str := scoperPrefix ++ separator

def scopedInstrumentationHook (scoperPrefix : Str) : Str := prefixedRoot scoperPrefix ++ instrumentationHook

/-- A prefix that stands twice is made one. -/
def dedupePrefix (scoperPrefix content : Str) : Str :=
  strReplace (prefixedRoot scoperPrefix ++ prefixedRoot scoperPrefix) (prefixedRoot scoperPrefix) content

def importSearch : Str := useFunction ++ instrumentationHook ++ lit ";"

def scopeImports (scoperPrefix content : Str) : Str :=
  strReplace importSearch (useFunction ++ scopedInstrumentationHook scoperPrefix ++ lit ";") content

def callSearch : Str := separator ++ instrumentationHook ++ lit "("

def scopeCalls (scoperPrefix content : Str) : Str :=
  strReplace callSearch (separator ++ scopedInstrumentationHook scoperPrefix ++ lit "(") content

/-- The prefix of each of the functions is taken away. -/
def unscopeFunctions (scoperPrefix : Str) (functions : List Str) (content : Str) : Str :=
  functions.foldl (fun content functionFqcn =>
    strReplace (prefixedRoot scoperPrefix ++ functionFqcn) functionFqcn content) content

/-- Only the sources of the distribution call the functions of the extension. -/
def IsDistroSource (filePath : Str) : Prop := lit "/prod/php/OpenTelemetry/" <:+: filePath

instance (filePath : Str) : Decidable (IsDistroSource filePath) := inferInstanceAs (Decidable (_ <:+: _))

def restoreUnscopedExtensionFunctions (filePath scoperPrefix content : Str) : Str :=
  let content := scopeCalls scoperPrefix (scopeImports scoperPrefix (dedupePrefix scoperPrefix content))
  if IsDistroSource filePath then unscopeFunctions scoperPrefix extensionFunctionFqcns content else content

theorem restore_of_distroSource {filePath scoperPrefix : Str} (h : IsDistroSource filePath) :
    restoreUnscopedExtensionFunctions filePath scoperPrefix = fun content =>
      unscopeFunctions scoperPrefix extensionFunctionFqcns
        (scopeCalls scoperPrefix (scopeImports scoperPrefix (dedupePrefix scoperPrefix content))) :=
  funext fun _ => if_pos h

theorem restore_of_not_distroSource {filePath scoperPrefix : Str} (h : ¬ IsDistroSource filePath) :
    restoreUnscopedExtensionFunctions filePath scoperPrefix = fun content =>
      scopeCalls scoperPrefix (scopeImports scoperPrefix (dedupePrefix scoperPrefix content)) :=
  funext fun _ => if_neg h

/-! ## Names -/

/-- A letter, digit, underscore or separator. -/
def isNamespaceByte (b : UInt8) : Bool :=
  65 ≤ b && b ≤ 90 || 97 ≤ b && b ≤ 122 || 48 ≤ b && b ≤ 57 || b = 95 || b = 92 || 128 ≤ b

def isDelimiter (b : UInt8) : Bool := !isNamespaceByte b

/-- The namespace that php-scoper adds. -/
structure IsScoperPrefix (scoperPrefix : Str) : Prop where
  ne_nil : scoperPrefix ≠ []
  namespaceBytes : ∀ b ∈ scoperPrefix, isNamespaceByte b = true
  head_ne : scoperPrefix.head? ≠ some 92

/-- `name` behind `n` prefixes. -/
def prefixed (scoperPrefix name : Str) : ℕ → Str
  | 0 => name
  | n + 1 => prefixedRoot scoperPrefix ++ prefixed scoperPrefix name n

@[simp] theorem prefixedRoot_ne_nil (scoperPrefix : Str) : prefixedRoot scoperPrefix ≠ [] := List.concat_ne_nil _ _

section Names

variable {u v w name : Str}

/-- The separators of a name. -/
def separators (s : Str) : ℕ := s.count 92

@[simp] theorem separators_append (v w : Str) : separators (v ++ w) = separators v + separators w := List.count_append

theorem separators_prefixedRoot (scoperPrefix : Str) : separators (prefixedRoot scoperPrefix) = separators scoperPrefix + 1 :=
  separators_append _ _

/-- Where `w` lies in `u ++ name`. -/
theorem infix_append_cases (h : w <:+: u ++ name) : w <+: u ++ name ∨ w <:+: name ∨ w <:+: u ∨
    ∃ x y z, x ≠ [] ∧ y ≠ [] ∧ u = x ++ y ∧ w = y ++ z ∧ z <+: name := by
  rcases List.infix_append_iff_ne_nil.mp h with h | h | ⟨y, z, hy, -, rfl, ⟨x, rfl⟩, hz⟩
  · exact .inr (.inr (.inl h))
  · exact .inr (.inl h)
  · by_cases hx : x = []
    · subst hx
      exact .inl ((List.prefix_append_right_inj y).mpr hz)
    · exact .inr (.inr (.inr ⟨x, y, z, hx, hy, rfl, rfl, hz⟩))

/-- A part of the prefix that the prefix begins with and ends with has fewer separators. -/
theorem separators_of_border {scoperPrefix x y z w : Str} (hx : x ≠ []) (hy : y ≠ [])
    (hu : prefixedRoot scoperPrefix = x ++ y) (hw : prefixedRoot scoperPrefix ++ w = y ++ z) :
    0 < separators y ∧ separators y < separators (prefixedRoot scoperPrefix) := by
  have hlast : y.getLast? = some 92 := by
    have h : (x ++ y).getLast? = some 92 := by rw [← hu]; exact List.getLast?_concat
    obtain ⟨b, hb⟩ := Option.isSome_iff_exists.mp (List.getLast?_isSome.mpr hy)
    rw [List.getLast?_append, hb] at h
    rw [hb]
    exact h
  refine ⟨List.count_pos_iff.mpr (List.mem_of_getLast? hlast), ?_⟩
  have hlen : y.length < (prefixedRoot scoperPrefix).length := by
    have := List.length_pos_iff.mpr hx
    rw [hu, List.length_append]
    omega
  have hy' : y <+: prefixedRoot scoperPrefix ++ w := ⟨z, hw.symm⟩
  have hle : y <+: scoperPrefix := by
    refine List.prefix_of_prefix_length_le hy' ?_ ?_
    · rw [prefixedRoot, List.append_assoc]
      exact List.prefix_append _ _
    · rw [prefixedRoot, List.length_append] at hlen
      exact Nat.le_of_lt_succ hlen
  rw [separators_prefixedRoot]
  exact Nat.lt_succ_of_le (hle.sublist.count_le 92)

theorem separators_instrumentationHook : separators instrumentationHook = 2 := by
  have h : instrumentationHook = _ := lit_ofList _
  rw [h]
  decide

/-- What the functions of the extension are called. -/
theorem functionFqcn_facts : ∀ functionFqcn ∈ extensionFunctionFqcns, functionFqcn ≠ [] ∧ 2 ≤ separators functionFqcn ∧
    ¬ functionFqcn <+: instrumentationHook ∧ ∀ b ∈ functionFqcn, isNamespaceByte b = true := by
  decide +kernel

theorem functionFqcn_ne_nil : ∀ functionFqcn ∈ extensionFunctionFqcns, functionFqcn ≠ [] := fun functionFqcn hF =>
  (functionFqcn_facts functionFqcn hF).1

theorem separators_functionFqcn : ∀ functionFqcn ∈ extensionFunctionFqcns, 2 ≤ separators functionFqcn := fun functionFqcn hF =>
  (functionFqcn_facts functionFqcn hF).2.1

theorem functionFqcn_not_prefix : ∀ functionFqcn ∈ extensionFunctionFqcns, ¬ functionFqcn <+: instrumentationHook :=
  fun functionFqcn hF => (functionFqcn_facts functionFqcn hF).2.2.1

theorem functionFqcn_namespaceBytes : ∀ functionFqcn ∈ extensionFunctionFqcns, ∀ b ∈ functionFqcn,
    isNamespaceByte b = true := fun functionFqcn hF => (functionFqcn_facts functionFqcn hF).2.2.2

/-- No namespace of the name of the hook is repeated. -/
theorem no_square : ∀ i < 35, ∀ k < 35, (instrumentationHook.drop i).take k = (instrumentationHook.drop (i + k)).take k →
    ((instrumentationHook.drop i).take k).getLast? ≠ some 92 := by
  decide +kernel

theorem not_doubled_infix_instrumentationHook (scoperPrefix : Str) :
    ¬ prefixedRoot scoperPrefix ++ prefixedRoot scoperPrefix <:+: instrumentationHook := by
  rintro ⟨before, behind, heq⟩
  have hlength : instrumentationHook.length = 34 := by
    have h : instrumentationHook = _ := lit_ofList _
    rw [h]
    rfl
  have hlast : (prefixedRoot scoperPrefix).getLast? = some 92 := List.getLast?_concat
  generalize prefixedRoot scoperPrefix = u at heq hlast
  have hlen := congrArg List.length heq
  simp only [List.length_append, hlength] at hlen
  refine no_square before.length (by omega) u.length (by omega) ?_ ?_
  · rw [← heq, List.append_assoc, List.append_assoc, List.drop_left, List.take_left, ← List.append_assoc before,
      ← List.length_append, List.drop_left, List.take_left]
  · rw [← heq, List.append_assoc, List.append_assoc, List.drop_left, List.take_left, hlast]

/-- Two prefixes are in the name with one only when the name begins with the prefix. -/
theorem doubled_infix_iff {scoperPrefix : Str} : prefixedRoot scoperPrefix ++ prefixedRoot scoperPrefix <:+:
    prefixedRoot scoperPrefix ++ instrumentationHook ↔ prefixedRoot scoperPrefix <+: instrumentationHook := by
  constructor
  · intro h
    rcases infix_append_cases h with h | h | h | ⟨x, y, z, hx, hy, hu, hw, hz⟩
    · exact (List.prefix_append_right_inj _).mp h
    · exact absurd h (not_doubled_infix_instrumentationHook _)
    · have := h.length_le
      have hpos := List.length_pos_iff.mpr (prefixedRoot_ne_nil scoperPrefix)
      rw [List.length_append] at this
      omega
    · have hcount := congrArg separators hw
      have hle : separators z ≤ 2 := separators_instrumentationHook ▸ hz.sublist.count_le 92
      obtain ⟨hpos, hlt⟩ := separators_of_border hx hy hu hw
      rw [separators_append, separators_append] at hcount
      omega
  · exact fun h => ((List.prefix_append_right_inj _).mpr h).isInfix

/-- A function of the extension is not in the name with one prefix. -/
theorem not_functionFqcn_infix {scoperPrefix functionFqcn : Str} (hF : functionFqcn ∈ extensionFunctionFqcns) :
    ¬ prefixedRoot scoperPrefix ++ functionFqcn <:+: prefixedRoot scoperPrefix ++ instrumentationHook := by
  intro h
  have hF2 := separators_functionFqcn functionFqcn hF
  have hroot : 0 < separators (prefixedRoot scoperPrefix) := separators_prefixedRoot scoperPrefix ▸ Nat.succ_pos _
  rcases infix_append_cases h with h | h | h | ⟨x, y, z, hx, hy, hu, hw, hz⟩
  · exact functionFqcn_not_prefix functionFqcn hF ((List.prefix_append_right_inj _).mp h)
  · have hle := h.sublist.count_le 92
    rw [← separators, ← separators, separators_append, separators_instrumentationHook] at hle
    omega
  · have hle := h.sublist.count_le 92
    rw [← separators, ← separators, separators_append] at hle
    omega
  · have hcount := congrArg separators hw
    have hle : separators z ≤ 2 := separators_instrumentationHook ▸ hz.sublist.count_le 92
    obtain ⟨hpos, hlt⟩ := separators_of_border hx hy hu hw
    rw [separators_append, separators_append] at hcount
    omega

end Names

/-! ## Imports and calls -/

/-- An import from its keyword up to the name. -/
structure StartsImport (intro : Str) : Prop where
  keyword : (intro.take 3).map toLower = lit "use"
  delimited : Delimited isDelimiter intro
  no_separator : 92 ∉ intro
  one_statement : 59 ∉ intro

/-- `intro` is what stands before the name, `behind` the byte behind it, `gap` what stands before the bracket. -/
inductive Hook where
  | importHook (intro : Str) (h : StartsImport intro) (leading : Bool) (behind : UInt8)
      (hb : isDelimiter behind = true ∧ behind ≠ 40)
  | callHook (gap : Str) (h : ∀ b ∈ gap, isWhitespace b = true)

namespace Hook

def before : Hook → Str
  | importHook intro _ leading _ _ => intro ++ if leading then separator else []
  | callHook _ _ => separator

def behind : Hook → Str
  | importHook _ _ _ b _ => [b]
  | callHook gap _ => gap ++ lit "("

/-- The hook with `n` prefixes. -/
def text (scoperPrefix : Str) (h : Hook) (n : ℕ) : Str :=
  h.before ++ (prefixed scoperPrefix instrumentationHook n ++ h.behind)

def IsCall : Hook → Prop
  | importHook .. => False
  | callHook .. => True

/-- Without prefix it is searched for. -/
def Found : Hook → Prop
  | importHook intro _ leading b _ => useFunction <:+ intro ∧ leading = false ∧ b = 59
  | callHook gap _ => gap = []

instance : (h : Hook) → Decidable h.IsCall
  | importHook .. => inferInstanceAs (Decidable False)
  | callHook .. => inferInstanceAs (Decidable True)

instance : (h : Hook) → Decidable h.Found
  | importHook .. => inferInstanceAs (Decidable (_ <:+ _ ∧ _ = _ ∧ _ = _))
  | callHook .. => inferInstanceAs (Decidable (_ = _))

end Hook

/-! ## What the steps do with a name -/

/-- The name with both prefixes holds a function of the extension: only when the prefix begins with one. -/
def Overlaps (scoperPrefix : Str) : Prop := ∃ functionFqcn ∈ extensionFunctionFqcns,
  prefixedRoot scoperPrefix ++ functionFqcn <:+: prefixed scoperPrefix instrumentationHook 2

instance (scoperPrefix : Str) : Decidable (Overlaps scoperPrefix) :=
  inferInstanceAs (Decidable (∃ functionFqcn ∈ extensionFunctionFqcns, _ <:+: _))

def dedupeCount (scoperPrefix : Str) : ℕ → ℕ
  | 0 => 0
  | 1 => if prefixedRoot scoperPrefix <+: instrumentationHook then 0 else 1
  | _ + 2 => 1

section Counts

variable {filePath scoperPrefix : Str} {n : ℕ}

theorem dedupePrefix_prefixed (hn : n ≤ 2) : dedupePrefix scoperPrefix (prefixed scoperPrefix instrumentationHook n) =
    prefixed scoperPrefix instrumentationHook (dedupeCount scoperPrefix n) := by
  have hne : prefixedRoot scoperPrefix ++ prefixedRoot scoperPrefix ≠ [] := by simp
  have hname := not_doubled_infix_instrumentationHook scoperPrefix
  match n, hn with
  | 0, _ => exact strReplace_eq_self hname
  | 1, _ =>
    rw [dedupeCount]
    split
    · next hroot =>
      obtain ⟨rest, hrest⟩ := hroot
      have hrest' : ¬ prefixedRoot scoperPrefix ++ prefixedRoot scoperPrefix <:+: rest :=
        fun h => hname (h.trans ⟨prefixedRoot scoperPrefix, [], by rw [List.append_nil, hrest]⟩)
      rw [prefixed, prefixed, prefixed, ← hrest, ← List.append_assoc, dedupePrefix, strReplace_match hne,
        strReplace_eq_self hrest']
    · next hroot => exact strReplace_eq_self fun h => hroot (doubled_infix_iff.mp h)
  | 2, _ =>
    rw [prefixed, prefixed, prefixed, ← List.append_assoc, dedupePrefix, strReplace_match hne, strReplace_eq_self hname]
    rfl

/-- One function of the extension. -/
theorem strReplace_functionFqcn {functionFqcn : Str} (hF : functionFqcn ∈ extensionFunctionFqcns) :
    strReplace (prefixedRoot scoperPrefix ++ functionFqcn) functionFqcn (prefixed scoperPrefix instrumentationHook 2) =
      if prefixedRoot scoperPrefix ++ functionFqcn <:+: prefixed scoperPrefix instrumentationHook 2
      then prefixed scoperPrefix instrumentationHook 1 else prefixed scoperPrefix instrumentationHook 2 := by
  split
  · next h =>
    have hnot : ¬ prefixedRoot scoperPrefix ++ functionFqcn <:+: prefixedRoot scoperPrefix ++ instrumentationHook :=
      not_functionFqcn_infix hF
    have hne : prefixedRoot scoperPrefix ++ functionFqcn ≠ [] := by simp
    obtain ⟨before, behind, heq, -, hreplaced⟩ := strReplace_of_infix hne h
    rw [hreplaced functionFqcn]
    simp only [prefixed] at heq ⊢
    -- the match begins in the first prefix: behind it is the name with one prefix
    rcases List.append_eq_append_iff.mp heq with ⟨rest, rfl, hrest⟩ | ⟨rest, hroot, hrest⟩
    · exact absurd ⟨rest, behind, by rw [List.append_assoc, ← hrest]⟩ hnot
    · have hdrop : functionFqcn ++ behind = (prefixedRoot scoperPrefix ++ instrumentationHook).drop before.length := by
        have := congrArg (List.drop (prefixedRoot scoperPrefix).length) hrest
        rw [List.append_assoc, List.drop_left, List.drop_append, List.drop_eq_nil_of_le (by simp [hroot]), List.nil_append,
          hroot, List.length_append, Nat.add_sub_cancel] at this
        rw [this, hroot]
      have hbehind : ¬ prefixedRoot scoperPrefix ++ functionFqcn <:+: behind := fun h =>
        hnot (h.trans ((List.suffix_append functionFqcn behind).trans (hdrop ▸ List.drop_suffix _ _)).isInfix)
      rw [strReplace_eq_self hbehind, hdrop]
      have htake : (prefixedRoot scoperPrefix ++ instrumentationHook).take before.length = before := by
        rw [hroot, List.append_assoc, List.take_left]
      have hparts := List.take_append_drop before.length (prefixedRoot scoperPrefix ++ instrumentationHook)
      rwa [htake] at hparts
  · next h => exact strReplace_eq_self h

theorem unscopeFunctions_cons (scoperPrefix functionFqcn : Str) (functions : List Str) (content : Str) :
    unscopeFunctions scoperPrefix (functionFqcn :: functions) content =
      unscopeFunctions scoperPrefix functions (strReplace (prefixedRoot scoperPrefix ++ functionFqcn) functionFqcn content) := rfl

theorem unscopeFunctions_eq_self {functions : List Str} {content : Str}
    (h : ∀ functionFqcn ∈ functions, ¬ prefixedRoot scoperPrefix ++ functionFqcn <:+: content) :
    unscopeFunctions scoperPrefix functions content = content := by
  induction functions with
  | nil => rfl
  | cons functionFqcn functions ih =>
    rw [unscopeFunctions_cons, strReplace_eq_self (h functionFqcn List.mem_cons_self)]
    exact ih fun F hF => h F (List.mem_cons_of_mem functionFqcn hF)

/-- The first function that is found takes one prefix away, and no other one is found then. -/
theorem unscopeFunctions_of_mem {functions : List Str} (hsub : functions ⊆ extensionFunctionFqcns)
    (h : ∃ functionFqcn ∈ functions,
      prefixedRoot scoperPrefix ++ functionFqcn <:+: prefixed scoperPrefix instrumentationHook 2) :
    unscopeFunctions scoperPrefix functions (prefixed scoperPrefix instrumentationHook 2) =
      prefixed scoperPrefix instrumentationHook 1 := by
  induction functions with
  | nil => exact absurd h (by simp)
  | cons functionFqcn functions ih =>
    rw [unscopeFunctions_cons, strReplace_functionFqcn (hsub List.mem_cons_self)]
    split
    · exact unscopeFunctions_eq_self fun F hF => not_functionFqcn_infix (hsub (List.mem_cons_of_mem functionFqcn hF))
    · next hnot =>
      obtain ⟨F, hF, hwithin⟩ := h
      rcases List.mem_cons.mp hF with rfl | hF
      · exact absurd hwithin hnot
      · exact ih (fun F hF => hsub (List.mem_cons_of_mem functionFqcn hF)) ⟨F, hF, hwithin⟩

theorem unscopeFunctions_prefixed (hn : n ≤ 2) :
    unscopeFunctions scoperPrefix extensionFunctionFqcns (prefixed scoperPrefix instrumentationHook n) =
      prefixed scoperPrefix instrumentationHook (if n = 2 ∧ Overlaps scoperPrefix then 1 else n) := by
  by_cases h : n = 2 ∧ Overlaps scoperPrefix
  · obtain ⟨rfl, h⟩ := h
    rw [if_pos ⟨rfl, h⟩]
    exact unscopeFunctions_of_mem (List.Subset.refl _) h
  · rw [if_neg h]
    refine unscopeFunctions_eq_self fun functionFqcn hF hwithin => ?_
    match n, hn with
    | 0, _ => exact not_functionFqcn_infix hF (hwithin.trans (List.suffix_append _ _).isInfix)
    | 1, _ => exact not_functionFqcn_infix hF hwithin
    | 2, _ => exact h ⟨rfl, functionFqcn, hF, hwithin⟩

end Counts

/-! ## What the steps do with a hook -/

section Hooks

variable {scoperPrefix search replace s t : Str} {n : ℕ}

theorem isNamespaceByte_of_prefixedRoot (hP : IsScoperPrefix scoperPrefix) :
    ∀ b ∈ prefixedRoot scoperPrefix, isNamespaceByte b = true := by
  intro b hb
  rcases List.mem_append.mp hb with hb | hb
  · exact hP.namespaceBytes b hb
  · rw [List.mem_singleton.mp hb]
    rfl

/-- A search string that is a name of several parts. -/
structure IsSearchedName (search : Str) : Prop where
  namespaceBytes : ∀ b ∈ search, isNamespaceByte b = true
  separator_mem : 92 ∈ search
  head_ne : search.head? ≠ some 92

theorem isSearchedName_prefixedRoot (hP : IsScoperPrefix scoperPrefix) (hs : ∀ b ∈ s, isNamespaceByte b = true) :
    IsSearchedName (prefixedRoot scoperPrefix ++ s) where
  namespaceBytes b hb := (List.mem_append.mp hb).elim (isNamespaceByte_of_prefixedRoot hP b) (hs b)
  separator_mem := List.mem_append_left _ (List.mem_append_right _ List.mem_cons_self)
  head_ne := by
    obtain ⟨c, rest, hc⟩ := List.exists_cons_of_ne_nil hP.ne_nil
    have hhead := hP.head_ne
    rw [hc] at hhead
    rw [prefixedRoot, hc]
    exact hhead

/-- A name is not found across the end of a text that a delimiter ends. -/
theorem noStraddle_of_delimited (hsearch : ∀ b ∈ search.dropLast, isNamespaceByte b = true) (hs : Delimited isDelimiter s)
    (t : Str) : NoStraddle search s t := by
  refine noStraddle_of_last (fun b hb hmem => ?_) t
  have hdelim := hs b hb
  rw [isDelimiter, hsearch b hmem] at hdelim
  cases hdelim

theorem isDelimiter_of_isWhitespace {b : UInt8} (h : isWhitespace b = true) : isDelimiter b = true := by
  simp only [isWhitespace, Bool.or_eq_true, decide_eq_true_eq] at h
  rcases h with ((rfl | rfl) | rfl) | rfl <;> rfl

/-- The bytes of the names and of the two search strings. -/
theorem search_facts : (∀ b ∈ instrumentationHook, isNamespaceByte b = true) ∧ instrumentationHook.getLast? = some 107 ∧
    (∀ b ∈ callSearch.dropLast, isNamespaceByte b = true) ∧ 40 ∉ callSearch.dropLast ∧ 92 ∈ callSearch ∧
    59 ∉ importSearch.dropLast ∧ importSearch.length = 48 ∧ importSearch ≠ [] ∧ callSearch ≠ [] := by
  decide +kernel

theorem callSearch_namespaceBytes : ∀ b ∈ callSearch.dropLast, isNamespaceByte b = true := search_facts.2.2.1

theorem prefixed_append (scoperPrefix v w : Str) (n : ℕ) :
    prefixed scoperPrefix (v ++ w) n = prefixed scoperPrefix v n ++ w := by
  induction n with
  | zero => rfl
  | succ n ih => rw [prefixed, prefixed, ih, List.append_assoc]

theorem getLast?_append_prefixed (s scoperPrefix : Str) (n : ℕ) :
    (s ++ prefixed scoperPrefix [] (n + 1)).getLast? = some 92 := by
  induction n generalizing s with
  | zero =>
    rw [prefixed, prefixed, List.append_nil, prefixedRoot, ← List.append_assoc]
    exact List.getLast?_concat
  | succ n ih =>
    rw [prefixed, ← List.append_assoc]
    exact ih _

theorem prefixed_succ (scoperPrefix name : Str) (n : ℕ) :
    prefixed scoperPrefix name (n + 1) = prefixed scoperPrefix (prefixedRoot scoperPrefix ++ name) n := by
  induction n with
  | zero => rfl
  | succ n ih => rw [prefixed, ih, prefixed]

/-- The last prefix ends with the separator of a name without prefix. -/
theorem separator_append_prefixed (hP : IsScoperPrefix scoperPrefix) (n : ℕ) : ∃ w, (∀ b ∈ w, isNamespaceByte b = true) ∧
    ∀ name, separator ++ prefixed scoperPrefix name n = w ++ (separator ++ name) := by
  induction n with
  | zero => exact ⟨[], fun b hb => absurd hb List.not_mem_nil, fun _ => rfl⟩
  | succ n ih =>
    obtain ⟨w, hw, heq⟩ := ih
    refine ⟨separator ++ scoperPrefix ++ w, ?_, fun name => ?_⟩
    · simp only [List.mem_append]
      rintro b ((hb | hb) | hb)
      · rw [List.mem_singleton.mp hb]
        rfl
      · exact hP.namespaceBytes b hb
      · exact hw b hb
    · rw [prefixed, prefixedRoot, List.append_assoc scoperPrefix, heq]
      simp only [List.append_assoc]

theorem prefixed_namespaceBytes (hP : IsScoperPrefix scoperPrefix) (hs : ∀ b ∈ s, isNamespaceByte b = true) (n : ℕ) :
    ∀ b ∈ prefixed scoperPrefix s n, isNamespaceByte b = true := by
  induction n with
  | zero => exact hs
  | succ n ih => exact fun b hb => (List.mem_append.mp hb).elim (isNamespaceByte_of_prefixedRoot hP b) (ih b)

theorem instrumentationHook_namespaceBytes : ∀ b ∈ instrumentationHook, isNamespaceByte b = true := search_facts.1

theorem not_mem_prefixed (hP : IsScoperPrefix scoperPrefix) {b : UInt8} (hb : isDelimiter b = true) (n : ℕ) :
    b ∉ prefixed scoperPrefix instrumentationHook n := by
  intro hmem
  rw [isDelimiter, prefixed_namespaceBytes hP instrumentationHook_namespaceBytes n b hmem] at hb
  cases hb

namespace Hook

theorem strReplace_before (h : Hook) (hsearch : IsSearchedName search) (t : Str) :
    strReplace search replace (h.before ++ t) = h.before ++ strReplace search replace t := by
  have hseparator (t : Str) : strReplace search replace (separator ++ t) = separator ++ strReplace search replace t := by
    refine strReplace_cons fun hprefix => hsearch.head_ne ?_
    obtain ⟨behind, heq⟩ := hprefix
    cases search with
    | nil => exact absurd hsearch.separator_mem List.not_mem_nil
    | cons c search => exact congrArg some (List.cons.inj heq).1
  cases h with
  | callHook => exact hseparator t
  | importHook intro hintro leading =>
    have hself : strReplace search replace intro = intro :=
      strReplace_eq_self fun hwithin => hintro.no_separator (hwithin.subset hsearch.separator_mem)
    have hno := noStraddle_of_delimited (fun b hb => hsearch.namespaceBytes b (List.mem_of_mem_dropLast hb)) hintro.delimited
    rw [before, List.append_assoc, strReplace_append (hno _), hself, List.append_assoc]
    cases leading
    · rfl
    · rw [if_pos rfl, hseparator]

theorem isDelimiter_of_mem_behind (h : Hook) : ∀ b ∈ h.behind, isDelimiter b = true := by
  cases h with
  | importHook intro hintro leading b hb =>
    intro c hc
    rw [List.mem_singleton.mp hc]
    exact hb.1
  | callHook gap hgap =>
    intro c hc
    rcases List.mem_append.mp hc with hc | hc
    · exact isDelimiter_of_isWhitespace (hgap c hc)
    · rw [List.mem_singleton.mp hc]
      rfl

theorem strReplace_behind (h : Hook) (hsearch : IsSearchedName search) (t : Str) :
    strReplace search replace (t ++ h.behind) = strReplace search replace t ++ h.behind := by
  have hno : NoStraddle search t h.behind := by
    refine noStraddle_of_head (fun b hb hmem => ?_) t
    have hdelim := h.isDelimiter_of_mem_behind b (List.mem_of_mem_head? hb)
    rw [isDelimiter, hsearch.namespaceBytes b (List.mem_of_mem_tail hmem)] at hdelim
    cases hdelim
  have hself : strReplace search replace h.behind = h.behind := by
    refine strReplace_eq_self fun hwithin => ?_
    have := h.isDelimiter_of_mem_behind 92 (hwithin.subset hsearch.separator_mem)
    cases this
  rw [strReplace_append hno, hself]

/-- The searches for names change the name. -/
theorem strReplace_text (h : Hook) (hsearch : IsSearchedName search) (n : ℕ) :
    strReplace search replace (h.text scoperPrefix n) =
      h.before ++ (strReplace search replace (prefixed scoperPrefix instrumentationHook n) ++ h.behind) := by
  rw [text, h.strReplace_before hsearch, h.strReplace_behind hsearch]

theorem dedupePrefix_text (hP : IsScoperPrefix scoperPrefix) (h : Hook) (hn : n ≤ 2) :
    dedupePrefix scoperPrefix (h.text scoperPrefix n) = h.text scoperPrefix (dedupeCount scoperPrefix n) := by
  have hsearch := isSearchedName_prefixedRoot hP (isNamespaceByte_of_prefixedRoot hP)
  rw [dedupePrefix, h.strReplace_text hsearch, ← dedupePrefix, dedupePrefix_prefixed hn, text]

theorem unscopeFunctions_text (hP : IsScoperPrefix scoperPrefix) (h : Hook) (hn : n ≤ 2) :
    unscopeFunctions scoperPrefix extensionFunctionFqcns (h.text scoperPrefix n) =
      h.text scoperPrefix (if n = 2 ∧ Overlaps scoperPrefix then 1 else n) := by
  have hname (functions : List Str) (hsub : functions ⊆ extensionFunctionFqcns) (name : Str) :
      unscopeFunctions scoperPrefix functions (h.before ++ (name ++ h.behind)) =
        h.before ++ (unscopeFunctions scoperPrefix functions name ++ h.behind) := by
    induction functions generalizing name with
    | nil => rfl
    | cons functionFqcn functions ih =>
      have hsearch := isSearchedName_prefixedRoot hP (functionFqcn_namespaceBytes _ (hsub List.mem_cons_self))
      rw [unscopeFunctions_cons, h.strReplace_before hsearch, h.strReplace_behind hsearch]
      exact ih (fun F hF => hsub (List.mem_cons_of_mem functionFqcn hF)) _
  rw [text, hname _ (List.Subset.refl _), unscopeFunctions_prefixed hn, text]

/-- What the search for imports does with the number of prefixes. -/
def importCount (h : Hook) (n : ℕ) : ℕ := if h.Found ∧ ¬ h.IsCall ∧ n = 0 then 1 else n

/-- What the search for calls does with it. -/
def callCount (h : Hook) (n : ℕ) : ℕ := if h.Found ∧ h.IsCall then n + 1 else n

theorem scopeImports_text (hP : IsScoperPrefix scoperPrefix) (h : Hook) (n : ℕ) :
    scopeImports scoperPrefix (h.text scoperPrefix n) = h.text scoperPrefix (h.importCount n) := by
  have hlast : importSearch.getLast? = some 59 := List.getLast?_concat
  have hdrop : 59 ∉ importSearch.dropLast := search_facts.2.2.2.2.2.1
  have hname := not_mem_prefixed hP (b := 59) rfl n
  cases h with
  | callHook gap hgap =>
    rw [importCount, if_neg (fun h => h.2.1 trivial)]
    refine strReplace_eq_self fun hwithin => ?_
    have hmem := hwithin.subset (List.mem_of_getLast? hlast)
    simp only [text, before, behind, List.mem_append] at hmem
    rcases hmem with hmem | hmem | hmem | hmem
    · exact absurd hmem (by decide)
    · exact hname hmem
    · exact absurd (hgap 59 hmem) (by decide)
    · exact absurd hmem (by decide)
  | importHook intro hintro leading b hb =>
    by_cases hfound : useFunction <:+ intro ∧ leading = false ∧ b = 59 ∧ n = 0
    · obtain ⟨⟨w, rfl⟩, rfl, rfl, rfl⟩ := hfound
      rw [importCount, if_pos ⟨⟨List.suffix_append _ _, rfl, rfl⟩, not_false, rfl⟩]
      have hw : 59 ∉ w := fun hmem => hintro.one_statement (List.mem_append_left _ hmem)
      have hreplaced : scopeImports scoperPrefix (w ++ importSearch) =
          w ++ (useFunction ++ scopedInstrumentationHook scoperPrefix ++ lit ";") :=
        strReplace_append_self hlast hw hdrop
      simp only [List.append_assoc] at hreplaced
      simp only [text, before, behind, Bool.false_eq_true, if_false, List.append_nil, List.append_assoc]
      exact hreplaced
    · rw [importCount, if_neg (fun h => hfound ⟨h.1.1, h.1.2.1, h.1.2.2, h.2.2⟩)]
      refine strReplace_eq_self fun hwithin => hfound ?_
      -- the semicolon is the end of the import
      have hnot : 59 ∉ (text scoperPrefix (importHook intro hintro leading b hb) n).dropLast := by
        rw [text, before, behind, ← List.append_assoc, List.dropLast_concat, List.mem_append, List.mem_append]
        rintro ((hmem | hmem) | hmem)
        · exact hintro.one_statement hmem
        · cases leading <;> exact absurd hmem (by decide)
        · exact hname hmem
      obtain ⟨w, heq⟩ := suffix_of_infix_last hnot hlast hwithin
      rw [importSearch, text, before, behind, ← List.append_assoc w, ← List.append_assoc (intro ++ _)] at heq
      obtain ⟨hbefore, hbehind⟩ := List.append_inj' heq rfl
      obtain rfl : 59 = b := (List.cons.inj hbehind).1
      have hprefixed := prefixed_append scoperPrefix [] instrumentationHook n
      rw [List.nil_append] at hprefixed
      rw [hprefixed, ← List.append_assoc, ← List.append_assoc] at hbefore
      have huse := List.append_cancel_right hbefore
      -- before the name stands a space and no separator
      have hspace : ((intro ++ if leading then separator else []) ++ prefixed scoperPrefix [] n).getLast? = some 32 :=
        huse ▸ List.getLast?_append_of_ne_nil w (by decide)
      cases n with
      | succ n =>
        rw [getLast?_append_prefixed] at hspace
        cases hspace
      | zero =>
        cases leading with
        | true =>
          rw [prefixed, List.append_nil, if_pos rfl, separator, lit] at hspace
          simp at hspace
        | false =>
          rw [prefixed, if_neg Bool.false_ne_true, List.append_nil, List.append_nil] at huse
          exact ⟨⟨w, huse⟩, rfl, rfl, rfl⟩

theorem scopeCalls_text (hP : IsScoperPrefix scoperPrefix) (h : Hook) (n : ℕ) :
    scopeCalls scoperPrefix (h.text scoperPrefix n) = h.text scoperPrefix (h.callCount n) := by
  have hlast : callSearch.getLast? = some 40 := List.getLast?_concat
  have hdrop : 40 ∉ callSearch.dropLast := search_facts.2.2.2.1
  have hname := not_mem_prefixed hP (b := 40) rfl n
  cases h with
  | importHook intro hintro leading b hb =>
    rw [callCount, if_neg (fun h => h.2)]
    have hno := noStraddle_of_delimited (s := intro) (fun b hb => callSearch_namespaceBytes b hb) hintro.delimited
    have hintro' : scopeCalls scoperPrefix intro = intro :=
      strReplace_eq_self fun hwithin => hintro.no_separator (hwithin.subset search_facts.2.2.2.2.1)
    rw [text, before, List.append_assoc, scopeCalls, strReplace_append (hno _), ← scopeCalls, hintro', strReplace_eq_self]
    intro hwithin
    have hmem := hwithin.subset (List.mem_of_getLast? hlast)
    simp only [behind, List.mem_append, List.mem_singleton] at hmem
    rcases hmem with hmem | hmem | rfl
    · cases leading <;> exact absurd hmem (by decide)
    · exact hname hmem
    · exact hb.2 rfl
  | callHook gap hgap =>
    obtain ⟨w, hw, hslash⟩ := separator_append_prefixed hP n
    by_cases hfound : gap = []
    · subst hfound
      have htext (name : Str) :
          separator ++ (prefixed scoperPrefix name n ++ lit "(") = w ++ (separator ++ name ++ lit "(") := by
        rw [← List.append_assoc, hslash, List.append_assoc]
      have hw' : 40 ∉ w := fun hmem => absurd (hw 40 hmem) (by decide)
      rw [callCount, if_pos ⟨rfl, trivial⟩, text, text, before, behind, List.nil_append, prefixed_succ, htext, htext]
      exact strReplace_append_self hlast hw' hdrop
    · rw [callCount, if_neg (fun h => hfound h.1)]
      refine strReplace_eq_self fun hwithin => ?_
      -- the bracket is the end of the call, and does not follow the name
      have hassoc : text scoperPrefix (callHook gap hgap) n =
          (separator ++ (prefixed scoperPrefix instrumentationHook n ++ gap)) ++ lit "(" := by
        rw [text, before, behind, List.append_assoc, List.append_assoc]
      have hnot : 40 ∉ (text scoperPrefix (callHook gap hgap) n).dropLast := by
        have hbracket : lit "(" = [40] := lit_ofList _
        rw [hassoc, hbracket, List.dropLast_concat, List.mem_append, List.mem_append]
        rintro (hmem | hmem | hmem)
        · exact absurd hmem (by decide)
        · exact hname hmem
        · exact absurd (hgap 40 hmem) (by decide)
      obtain ⟨v, heq⟩ := suffix_of_infix_last hnot hlast hwithin
      rw [hassoc, callSearch, ← List.append_assoc v] at heq
      have hk : (v ++ (separator ++ instrumentationHook)).getLast? = some 107 :=
        List.getLast?_append_of_ne_nil v (by decide)
      rw [List.append_cancel_right heq, ← List.append_assoc, List.getLast?_append_of_ne_nil _ hfound] at hk
      exact absurd (hgap 107 (List.mem_of_getLast? hk)) (by decide)

/-! ### Between the hooks -/

theorem delimited_text (h : Hook) (scoperPrefix : Str) (n : ℕ) : Delimited isDelimiter (h.text scoperPrefix n) := by
  intro b hb
  have hne : h.behind ≠ [] := by cases h <;> simp [behind, lit]
  rw [text, ← List.append_assoc, List.getLast?_append_of_ne_nil _ hne] at hb
  exact h.isDelimiter_of_mem_behind b (List.mem_of_getLast? hb)

theorem head?_text (h : Hook) (n : ℕ) (t : Str) :
    ∃ b, (h.text scoperPrefix n ++ t).head? = some b ∧ (toLower b = 117 ∨ b = 92) := by
  cases h with
  | callHook => exact ⟨92, rfl, .inr rfl⟩
  | importHook intro hintro =>
    have hkeyword := hintro.keyword
    have huse : lit "use" = [117, 115, 101] := lit_ofList _
    rw [huse] at hkeyword
    cases intro with
    | nil => cases hkeyword
    | cons b intro => exact ⟨b, rfl, .inl (List.cons.inj hkeyword).1⟩

/-- Where a delimiter can cut it. -/
theorem importSearch_cut : ∀ k < 48, 0 < k → (importSearch.take k).getLast?.all isDelimiter = true →
    (importSearch.take k).getLast? = some 32 ∧ (importSearch.take k).dropLast ≠ [] ∧
      (importSearch.take k).dropLast.getLast? ≠ some 107 ∧
      (importSearch.drop k).head?.all (fun b => toLower b ≠ 117 && b ≠ 92) = true := by
  decide +kernel

theorem length_importSearch : importSearch.length = 48 := search_facts.2.2.2.2.2.2.1

theorem noStraddle_before_hook (hs : Delimited isDelimiter s) (h : Hook) (t : Str) :
    NoStraddle importSearch s (h.text scoperPrefix n ++ t) := by
  rintro k hpos hlt htake ⟨behind, hdrop⟩
  have hdelim : (importSearch.take k).getLast?.all isDelimiter = true := by
    rw [Option.all_eq_true]
    obtain ⟨before, rfl⟩ := htake
    exact fun b hb => hs b (List.mem_getLast?_append_of_mem_getLast? hb)
  obtain ⟨-, -, -, hhead⟩ := importSearch_cut k (length_importSearch ▸ hlt) hpos hdelim
  obtain ⟨b, hb, hb'⟩ := h.head?_text n t
  have hne : importSearch.drop k ≠ [] := List.ne_nil_of_length_pos (by rw [List.length_drop]; omega)
  rw [← hdrop, List.head?_append_of_ne_nil _ hne] at hb
  rw [hb, Option.all_some, Bool.and_eq_true, decide_eq_true_eq, decide_eq_true_eq] at hhead
  exact hb'.elim hhead.1 hhead.2

theorem getLast?_prefixed (n : ℕ) : (prefixed scoperPrefix instrumentationHook n).getLast? = some 107 := by
  have hlast : instrumentationHook.getLast? = some 107 := search_facts.2.1
  have hprefixed := prefixed_append scoperPrefix [] instrumentationHook n
  rw [List.nil_append] at hprefixed
  rw [hprefixed, List.getLast?_append, hlast]
  rfl

theorem noStraddle_behind_hook (h : Hook) (t : Str) : NoStraddle importSearch (h.text scoperPrefix n) t := by
  rintro k hpos hlt ⟨before', htake⟩ -
  have hne : importSearch.take k ≠ [] := List.ne_nil_of_length_pos (by rw [List.length_take]; omega)
  have hlast := congrArg List.getLast? htake
  rw [List.getLast?_append_of_ne_nil _ hne] at hlast
  have hdelim : (importSearch.take k).getLast?.all isDelimiter = true := by
    rw [Option.all_eq_true, hlast]
    exact h.delimited_text scoperPrefix n
  obtain ⟨hspace, hdropLast, hnot, -⟩ := importSearch_cut k (length_importSearch ▸ hlt) hpos hdelim
  rw [hspace] at hlast
  cases h with
  | callHook gap hgap =>
    rw [text, behind, ← List.append_assoc, ← List.append_assoc, List.getLast?_append_of_ne_nil _ (by decide)] at hlast
    exact absurd hlast (by decide)
  | importHook intro hintro leading b hb =>
    -- the byte before the last one is that of the name
    have hbyte := congrArg (fun s : Str => s.dropLast.getLast?) htake
    simp only [text, behind] at hbyte
    rw [← List.append_assoc, List.dropLast_concat, List.dropLast_append_of_ne_nil hne,
      List.getLast?_append_of_ne_nil _ hdropLast, List.getLast?_append, getLast?_prefixed] at hbyte
    exact hnot hbyte

end Hook

/-! ## What the patcher does with the text around -/

/-- A text keeps its delimiters, and is changed by itself where it ends with one. -/
structure KeepsDelimiters (patch : Str → Str) : Prop where
  filter : ∀ s, (patch s).filter isDelimiter = s.filter isDelimiter
  delimited : ∀ s, Delimited isDelimiter s → Delimited isDelimiter (patch s)

theorem keepsDelimiters_strReplace (hne : search ≠ []) (hlast : replace.getLast? = search.getLast?)
    (hfilter : replace.filter isDelimiter = search.filter isDelimiter) : KeepsDelimiters (strReplace search replace) where
  filter := filter_strReplace hne hfilter
  delimited s hs b hb := hs b (getLast?_strReplace hne hlast s ▸ hb)

theorem KeepsDelimiters.comp {patch patch' : Str → Str} (h : KeepsDelimiters patch) (h' : KeepsDelimiters patch') :
    KeepsDelimiters fun s => patch (patch' s) where
  filter s := (h.filter _).trans (h'.filter s)
  delimited s hs := h.delimited _ (h'.delimited s hs)

theorem filter_isDelimiter_eq_nil (hs : ∀ b ∈ s, isNamespaceByte b = true) : s.filter isDelimiter = [] := by
  rw [List.filter_eq_nil_iff]
  intro b hb hdelim
  rw [isDelimiter, hs b hb] at hdelim
  cases hdelim

theorem keepsDelimiters_dedupePrefix (hP : IsScoperPrefix scoperPrefix) : KeepsDelimiters (dedupePrefix scoperPrefix) := by
  have hroot := filter_isDelimiter_eq_nil (isNamespaceByte_of_prefixedRoot hP)
  refine keepsDelimiters_strReplace (by simp) ?_ ?_
  · rw [List.getLast?_append_of_ne_nil _ (prefixedRoot_ne_nil _)]
  · rw [List.filter_append, hroot, List.append_nil]

theorem keepsDelimiters_scopeImports (hP : IsScoperPrefix scoperPrefix) : KeepsDelimiters (scopeImports scoperPrefix) := by
  have hroot := filter_isDelimiter_eq_nil (isNamespaceByte_of_prefixedRoot hP)
  refine keepsDelimiters_strReplace search_facts.2.2.2.2.2.2.2.1 ?_ ?_
  · exact List.getLast?_concat.trans List.getLast?_concat.symm
  · simp only [importSearch, scopedInstrumentationHook, List.filter_append, hroot, List.nil_append]

theorem keepsDelimiters_scopeCalls (hP : IsScoperPrefix scoperPrefix) : KeepsDelimiters (scopeCalls scoperPrefix) := by
  have hroot := filter_isDelimiter_eq_nil (isNamespaceByte_of_prefixedRoot hP)
  refine keepsDelimiters_strReplace search_facts.2.2.2.2.2.2.2.2 ?_ ?_
  · exact List.getLast?_concat.trans List.getLast?_concat.symm
  · simp only [callSearch, scopedInstrumentationHook, List.filter_append, hroot, List.nil_append]

theorem keepsDelimiters_functionFqcn (hP : IsScoperPrefix scoperPrefix) {functionFqcn : Str}
    (hF : functionFqcn ∈ extensionFunctionFqcns) :
    KeepsDelimiters (strReplace (prefixedRoot scoperPrefix ++ functionFqcn) functionFqcn) := by
  have hroot := filter_isDelimiter_eq_nil (isNamespaceByte_of_prefixedRoot hP)
  refine keepsDelimiters_strReplace (by simp) ?_ ?_
  · rw [List.getLast?_append_of_ne_nil _ (functionFqcn_ne_nil _ hF)]
  · rw [List.filter_append, hroot, List.nil_append]

theorem keepsDelimiters_unscopeFunctions (hP : IsScoperPrefix scoperPrefix) {functions : List Str}
    (hsub : functions ⊆ extensionFunctionFqcns) : KeepsDelimiters (unscopeFunctions scoperPrefix functions) := by
  induction functions with
  | nil => exact ⟨fun _ => rfl, fun _ h => h⟩
  | cons functionFqcn functions ih =>
    exact (ih fun F hF => hsub (List.mem_cons_of_mem functionFqcn hF)).comp
      (keepsDelimiters_functionFqcn hP (hsub List.mem_cons_self))

theorem keepsDelimiters_restore (hP : IsScoperPrefix scoperPrefix) (filePath : Str) :
    KeepsDelimiters (restoreUnscopedExtensionFunctions filePath scoperPrefix) := by
  have hsteps := (keepsDelimiters_scopeCalls hP).comp
    ((keepsDelimiters_scopeImports hP).comp (keepsDelimiters_dedupePrefix hP))
  by_cases h : IsDistroSource filePath
  · rw [restore_of_distroSource h]
    exact (keepsDelimiters_unscopeFunctions hP (List.Subset.refl _)).comp hsteps
  · rw [restore_of_not_distroSource h]
    exact hsteps

/-! ## A hook in its text -/

theorem dedupePrefix_append (hP : IsScoperPrefix scoperPrefix) (hs : Delimited isDelimiter s) (t : Str) :
    dedupePrefix scoperPrefix (s ++ t) = dedupePrefix scoperPrefix s ++ dedupePrefix scoperPrefix t := by
  have hsearch := isSearchedName_prefixedRoot hP (isNamespaceByte_of_prefixedRoot hP)
  exact strReplace_append
    (noStraddle_of_delimited (fun b hb => hsearch.namespaceBytes b (List.mem_of_mem_dropLast hb)) hs t)

theorem scopeCalls_append (hs : Delimited isDelimiter s) (t : Str) :
    scopeCalls scoperPrefix (s ++ t) = scopeCalls scoperPrefix s ++ scopeCalls scoperPrefix t :=
  strReplace_append (noStraddle_of_delimited callSearch_namespaceBytes hs t)

theorem unscopeFunctions_append (hP : IsScoperPrefix scoperPrefix) {functions : List Str}
    (hsub : functions ⊆ extensionFunctionFqcns) (hs : Delimited isDelimiter s) (t : Str) :
    unscopeFunctions scoperPrefix functions (s ++ t) =
      unscopeFunctions scoperPrefix functions s ++ unscopeFunctions scoperPrefix functions t := by
  induction functions generalizing s t with
  | nil => rfl
  | cons functionFqcn functions ih =>
    have hF := hsub List.mem_cons_self
    have hsearch := isSearchedName_prefixedRoot hP (functionFqcn_namespaceBytes _ hF)
    have hno := noStraddle_of_delimited (fun b hb => hsearch.namespaceBytes b (List.mem_of_mem_dropLast hb)) hs t
    rw [unscopeFunctions_cons, strReplace_append hno]
    exact ih (fun F hF => hsub (List.mem_cons_of_mem functionFqcn hF)) ((keepsDelimiters_functionFqcn hP hF).delimited s hs) _

theorem scopeImports_hook (hP : IsScoperPrefix scoperPrefix) (hs : Delimited isDelimiter s) (h : Hook) (t : Str) :
    scopeImports scoperPrefix (s ++ (h.text scoperPrefix n ++ t)) =
      scopeImports scoperPrefix s ++ (h.text scoperPrefix (h.importCount n) ++ scopeImports scoperPrefix t) := by
  rw [← h.scopeImports_text hP]
  exact (strReplace_append (Hook.noStraddle_before_hook hs h t)).trans
    (congrArg _ (strReplace_append (h.noStraddle_behind_hook t)))

namespace Hook

/-- What the patcher does with the number of prefixes. -/
def count (filePath scoperPrefix : Str) (h : Hook) (n : ℕ) : ℕ :=
  let k := h.callCount (h.importCount (dedupeCount scoperPrefix n))
  if IsDistroSource filePath ∧ k = 2 ∧ Overlaps scoperPrefix then 1 else k

theorem dedupeCount_le (scoperPrefix : Str) (n : ℕ) : dedupeCount scoperPrefix n ≤ 1 := by
  unfold dedupeCount
  split
  · exact Nat.zero_le 1
  · split <;> decide
  · exact Nat.le_refl 1

theorem importCount_le (h : Hook) {n : ℕ} (hn : n ≤ 1) : h.importCount n ≤ 1 := by
  unfold importCount
  split
  · exact Nat.le_refl 1
  · exact hn

theorem callCount_le (h : Hook) {n : ℕ} (hn : n ≤ 1) : h.callCount n ≤ 2 := by
  unfold callCount
  split <;> omega

theorem count_le (filePath scoperPrefix : Str) (h : Hook) (n : ℕ) : h.count filePath scoperPrefix n ≤ 2 := by
  have hle := h.callCount_le (h.importCount_le (dedupeCount_le scoperPrefix n))
  unfold count
  dsimp only
  split
  · decide
  · exact hle

end Hook

/-- What is before a hook, the hook and what is behind it are changed by themselves. -/
theorem restore_hook (hP : IsScoperPrefix scoperPrefix) (filePath : Str) (hs : Delimited isDelimiter s) (h : Hook)
    (hn : n ≤ 2) (t : Str) : restoreUnscopedExtensionFunctions filePath scoperPrefix (s ++ (h.text scoperPrefix n ++ t)) =
      restoreUnscopedExtensionFunctions filePath scoperPrefix s ++
        (h.text scoperPrefix (h.count filePath scoperPrefix n) ++
          restoreUnscopedExtensionFunctions filePath scoperPrefix t) := by
  have hs₁ := (keepsDelimiters_dedupePrefix hP).delimited s hs
  have hs₂ := (keepsDelimiters_scopeImports hP).delimited _ hs₁
  have hs₃ := (keepsDelimiters_scopeCalls hP).delimited _ hs₂
  have hle := h.callCount_le (h.importCount_le (Hook.dedupeCount_le scoperPrefix n))
  have hsteps : scopeCalls scoperPrefix (scopeImports scoperPrefix
        (dedupePrefix scoperPrefix (s ++ (h.text scoperPrefix n ++ t)))) =
      scopeCalls scoperPrefix (scopeImports scoperPrefix (dedupePrefix scoperPrefix s)) ++
        (h.text scoperPrefix (h.callCount (h.importCount (dedupeCount scoperPrefix n))) ++
          scopeCalls scoperPrefix (scopeImports scoperPrefix (dedupePrefix scoperPrefix t))) := by
    rw [dedupePrefix_append hP hs, dedupePrefix_append hP (h.delimited_text _ _), h.dedupePrefix_text hP hn,
      scopeImports_hook hP hs₁, scopeCalls_append hs₂, scopeCalls_append (h.delimited_text _ _), h.scopeCalls_text hP]
  by_cases hdistro : IsDistroSource filePath
  · rw [restore_of_distroSource hdistro]
    have hsub := List.Subset.refl extensionFunctionFqcns
    simp only [hsteps]
    rw [unscopeFunctions_append hP hsub hs₃, unscopeFunctions_append hP hsub (h.delimited_text _ _),
      h.unscopeFunctions_text hP hle]
    simp only [Hook.count, hdistro, true_and]
  · rw [restore_of_not_distroSource hdistro]
    simp only [hsteps, Hook.count, hdistro, false_and, if_false]

end Hooks

end OtelDistro.Build
