import OtelDistro.Build.FunctionNames

/-!
# OtelDistro.Build.RestoredFunctions — which files the patcher restores

A file by its imports and calls of `OpenTelemetry\Instrumentation\hook`, each without prefix or with one, as php-scoper
leaves it.

* `Content`: the hooks of a file and the texts between them.
* `Restores`: afterwards each hook has one prefix, and a second run changes nothing.
* `Hook.Ok`: one that is searched for is no call; one that is not searched for has its prefix already.
* `TextOk`: a text in which each prefix stands once or twice.
* `restores_iff_settled`: each hook and each text is by itself; `settled_of_textOk`: a text needs no second run.
-/

namespace OtelDistro.Build

open Lib Util

/-! ## Files -/

/-- A hook, which may have its prefix already, and the text before it. -/
structure Piece where
  before : Str
  delimited : Delimited isDelimiter before
  hook : Hook
  isPrefixed : Bool

structure Content where
  pieces : List Piece
  rest : Str

namespace Content

/-- The file when `patch` has changed its texts and each hook has `count` prefixes. -/
def assemble (scoperPrefix : Str) (patch : Str → Str) (count : Piece → ℕ) (c : Content) : Str :=
  c.pieces.foldr (fun p behind => patch p.before ++ (p.hook.text scoperPrefix (count p) ++ behind)) (patch c.rest)

def text (scoperPrefix : Str) (c : Content) : Str := c.assemble scoperPrefix id fun p => p.isPrefixed.toNat

/-- What is not an import or a call of the hook. -/
def texts (c : Content) : List Str := c.pieces.map Piece.before ++ [c.rest]

end Content

/-- Afterwards each import and call has one prefix, and a second run changes nothing. -/
structure Restores (filePath scoperPrefix : Str) (c : Content) : Prop where
  named : restoreUnscopedExtensionFunctions filePath scoperPrefix (c.text scoperPrefix) =
    c.assemble scoperPrefix (restoreUnscopedExtensionFunctions filePath scoperPrefix) fun _ => 1
  idempotent : restoreUnscopedExtensionFunctions filePath scoperPrefix
      (restoreUnscopedExtensionFunctions filePath scoperPrefix (c.text scoperPrefix)) =
    restoreUnscopedExtensionFunctions filePath scoperPrefix (c.text scoperPrefix)

/-- One that is searched for is no call, or the prefixes are made one again after all: because the name begins with the
prefix, or the prefix with a function of the extension.  One that is not searched for has its prefix already. -/
def Hook.Ok (filePath scoperPrefix : Str) (h : Hook) (isPrefixed : Bool) : Prop :=
  if h.Found then
    ¬ h.IsCall ∨ prefixedRoot scoperPrefix <+: instrumentationHook ∨ IsDistroSource filePath ∧ Overlaps scoperPrefix
  else isPrefixed = true ∧ ¬ prefixedRoot scoperPrefix <+: instrumentationHook

/-- A second run does not change the text. -/
def Settled (filePath scoperPrefix text : Str) : Prop :=
  restoreUnscopedExtensionFunctions filePath scoperPrefix (restoreUnscopedExtensionFunctions filePath scoperPrefix text) =
    restoreUnscopedExtensionFunctions filePath scoperPrefix text

section Files

variable {filePath scoperPrefix : Str} {patch patch' : Str → Str} {count count' : Piece → ℕ} {c : Content}

/-- The hooks and the text around are changed by themselves. -/
theorem restore_assemble (hP : IsScoperPrefix scoperPrefix) (hpatch : KeepsDelimiters patch)
    (hcount : ∀ p ∈ c.pieces, count p ≤ 2) :
    restoreUnscopedExtensionFunctions filePath scoperPrefix (c.assemble scoperPrefix patch count) =
      c.assemble scoperPrefix (fun s => restoreUnscopedExtensionFunctions filePath scoperPrefix (patch s))
        fun p => p.hook.count filePath scoperPrefix (count p) := by
  obtain ⟨pieces, rest⟩ := c
  induction pieces with
  | nil => rfl
  | cons p pieces ih =>
    have ih := ih fun q hq => hcount q (List.mem_cons_of_mem p hq)
    simp only [Content.assemble, List.foldr_cons] at ih ⊢
    rw [restore_hook hP filePath (hpatch.delimited _ p.delimited) p.hook (hcount p List.mem_cons_self), ih]

theorem filter_hook_text (hP : IsScoperPrefix scoperPrefix) (h : Hook) (n k : ℕ) :
    (h.text scoperPrefix n).filter isDelimiter = (h.text scoperPrefix k).filter isDelimiter := by
  have hname (n : ℕ) := filter_isDelimiter_eq_nil (prefixed_namespaceBytes hP instrumentationHook_namespaceBytes n)
  simp only [Hook.text, List.filter_append, hname]

theorem hook_text_injective (h : Hook) {n k : ℕ} (heq : h.text scoperPrefix n = h.text scoperPrefix k) : n = k := by
  have hlength (n : ℕ) : (prefixed scoperPrefix instrumentationHook n).length =
      n * (prefixedRoot scoperPrefix).length + instrumentationHook.length := by
    induction n with
    | zero => rw [prefixed, Nat.zero_mul, Nat.zero_add]
    | succ n ih =>
      rw [prefixed, List.length_append, ih, Nat.succ_mul]
      omega
  have hlen := congrArg List.length heq
  simp only [Hook.text, List.length_append, hlength] at hlen
  have hpos := List.length_pos_iff.mpr (prefixedRoot_ne_nil scoperPrefix)
  exact Nat.eq_of_mul_eq_mul_right hpos (by omega)

/-- A file tells its texts and the prefixes of its hooks. -/
theorem assemble_inj (hP : IsScoperPrefix scoperPrefix) (hpatch : KeepsDelimiters patch) (hpatch' : KeepsDelimiters patch')
    (heq : c.assemble scoperPrefix patch count = c.assemble scoperPrefix patch' count') :
    (∀ p ∈ c.pieces, count p = count' p) ∧ ∀ s ∈ c.texts, patch s = patch' s := by
  obtain ⟨pieces, rest⟩ := c
  induction pieces with
  | nil =>
    refine ⟨fun p hp => absurd hp List.not_mem_nil, fun s hs => ?_⟩
    rw [List.mem_singleton.mp hs]
    exact heq
  | cons p pieces ih =>
    simp only [Content.assemble, List.foldr_cons] at ih heq
    obtain ⟨hbefore, heq⟩ := Delimited.append_inj (hpatch.delimited _ p.delimited) (hpatch'.delimited _ p.delimited)
      ((hpatch.filter _).trans (hpatch'.filter _).symm) heq
    obtain ⟨hhook, heq⟩ := Delimited.append_inj (p.hook.delimited_text _ _) (p.hook.delimited_text _ _)
      (filter_hook_text hP p.hook _ _) heq
    obtain ⟨hcounts, htexts⟩ := ih heq
    refine ⟨fun q hq => ?_, fun s hs => ?_⟩
    · rcases List.mem_cons.mp hq with rfl | hq
      · exact hook_text_injective _ hhook
      · exact hcounts q hq
    · rcases List.mem_cons.mp hs with rfl | hs
      · exact hbefore
      · exact htexts s hs

theorem assemble_congr (hcount : ∀ p ∈ c.pieces, count p = count' p) (hpatch : ∀ s ∈ c.texts, patch s = patch' s) :
    c.assemble scoperPrefix patch count = c.assemble scoperPrefix patch' count' := by
  obtain ⟨pieces, rest⟩ := c
  induction pieces with
  | nil => exact hpatch rest List.mem_cons_self
  | cons p pieces ih =>
    have ih := ih (fun q hq => hcount q (List.mem_cons_of_mem p hq)) fun s hs => hpatch s (List.mem_cons_of_mem p.before hs)
    simp only [Content.assemble, List.foldr_cons] at ih ⊢
    rw [hcount p List.mem_cons_self, hpatch p.before List.mem_cons_self, ih]

theorem hook_ok_iff (h : Hook) (isPrefixed : Bool) : h.Ok filePath scoperPrefix isPrefixed ↔
    h.count filePath scoperPrefix isPrefixed.toNat = 1 ∧ h.count filePath scoperPrefix 1 = 1 := by
  by_cases hfound : h.Found <;> by_cases hcall : h.IsCall <;>
    by_cases hroot : prefixedRoot scoperPrefix <+: instrumentationHook <;>
    by_cases hdistro : IsDistroSource filePath <;> by_cases hoverlaps : Overlaps scoperPrefix <;> cases isPrefixed <;>
    simp [Hook.Ok, Hook.count, Hook.callCount, Hook.importCount, dedupeCount, hfound, hcall, hroot, hdistro, hoverlaps]

/-- Each hook and each text is by itself. -/
theorem restores_iff_settled (hP : IsScoperPrefix scoperPrefix) (c : Content) : Restores filePath scoperPrefix c ↔
    (∀ p ∈ c.pieces, p.hook.Ok filePath scoperPrefix p.isPrefixed) ∧ ∀ s ∈ c.texts, Settled filePath scoperPrefix s := by
  have hkeeps := keepsDelimiters_restore hP filePath
  have hid : KeepsDelimiters id := ⟨fun _ => rfl, fun _ h => h⟩
  have hfirst : restoreUnscopedExtensionFunctions filePath scoperPrefix (c.text scoperPrefix) =
      c.assemble scoperPrefix (restoreUnscopedExtensionFunctions filePath scoperPrefix)
        fun p => p.hook.count filePath scoperPrefix p.isPrefixed.toNat :=
    restore_assemble hP hid fun p _ => (Bool.toNat_le p.isPrefixed).trans (by decide)
  have hsecond : restoreUnscopedExtensionFunctions filePath scoperPrefix
        (restoreUnscopedExtensionFunctions filePath scoperPrefix (c.text scoperPrefix)) =
      c.assemble scoperPrefix (fun s => restoreUnscopedExtensionFunctions filePath scoperPrefix
          (restoreUnscopedExtensionFunctions filePath scoperPrefix s))
        fun p => p.hook.count filePath scoperPrefix (p.hook.count filePath scoperPrefix p.isPrefixed.toNat) := by
    rw [hfirst]
    exact restore_assemble hP hkeeps fun p _ => p.hook.count_le filePath scoperPrefix _
  constructor
  · rintro ⟨hnamed, hidempotent⟩
    rw [hfirst] at hnamed
    rw [hsecond, hfirst] at hidempotent
    have hone := (assemble_inj hP hkeeps hkeeps hnamed).1
    obtain ⟨htwice, htexts⟩ := assemble_inj hP (hkeeps.comp hkeeps) hkeeps hidempotent
    refine ⟨fun p hp => (hook_ok_iff p.hook p.isPrefixed).mpr ⟨hone p hp, ?_⟩, htexts⟩
    have hp' := htwice p hp
    rwa [hone p hp] at hp'
  · rintro ⟨hok, htexts⟩
    have hone (p : Piece) (hp : p ∈ c.pieces) := (hook_ok_iff p.hook p.isPrefixed).mp (hok p hp)
    refine ⟨hfirst.trans (assemble_congr (fun p hp => (hone p hp).1) fun _ _ => rfl), ?_⟩
    rw [hsecond, hfirst]
    refine assemble_congr (fun p hp => ?_) htexts
    rw [(hone p hp).1, (hone p hp).2]

end Files

/-! ## The text around -/

def vendorRoot : Str := lit "OpenTelemetry\\"

/-- The prefix cannot be taken for a part of the names of the functions. -/
structure Apart (scoperPrefix : Str) : Prop where
  vendor : ¬ vendorRoot <:+: prefixedRoot scoperPrefix ++ prefixedRoot scoperPrefix
  functions : ∀ functionFqcn ∈ extensionFunctionFqcns, ∀ k < functionFqcn.length,
    ¬ functionFqcn.drop k <+: prefixedRoot scoperPrefix ++ functionFqcn

/-- Each prefix stands once, and no import or call is searched for. -/
structure Plain (filePath scoperPrefix text : Str) : Prop where
  single : ¬ prefixedRoot scoperPrefix ++ prefixedRoot scoperPrefix <:+: text
  no_import : ¬ importSearch <:+: text
  no_call : ¬ callSearch <:+: text
  functions : IsDistroSource filePath → Apart scoperPrefix ∨
    ∀ functionFqcn ∈ extensionFunctionFqcns, ¬ prefixedRoot scoperPrefix ++ functionFqcn <:+: text

/-- A plain text, in which some prefixes may stand twice. -/
def TextOk (filePath scoperPrefix text : Str) : Prop :=
  ∃ plain, Doubled (prefixedRoot scoperPrefix) plain text ∧ Plain filePath scoperPrefix plain

section Texts

variable {filePath scoperPrefix text x y : Str} {functionFqcn functionFqcn' : Str}

/-- Without the searched strings the first three steps do nothing. -/
theorem steps_eq_self (h : Plain filePath scoperPrefix text) :
    scopeCalls scoperPrefix (scopeImports scoperPrefix (dedupePrefix scoperPrefix text)) = text := by
  have h₁ : dedupePrefix scoperPrefix text = text := strReplace_eq_self h.single
  have h₂ : scopeImports scoperPrefix text = text := strReplace_eq_self h.no_import
  have h₃ : scopeCalls scoperPrefix text = text := strReplace_eq_self h.no_call
  rw [h₁, h₂, h₃]

/-- The functions of the extension against the vendor's namespace, the search strings and each other. -/
theorem vendorRoot_facts : vendorRoot.length = 14 ∧ 92 ∉ vendorRoot.take (vendorRoot.length - 1) ∧
    (∀ functionFqcn ∈ extensionFunctionFqcns, (vendorRoot <+: functionFqcn ∧ 92 ∉ functionFqcn.take 13) ∧
      ¬ functionFqcn <:+: importSearch ∧ ¬ functionFqcn <:+: callSearch) ∧
    ∀ functionFqcn ∈ extensionFunctionFqcns, ∀ functionFqcn' ∈ extensionFunctionFqcns,
      ∀ k < functionFqcn'.length, 0 < k → ¬ (functionFqcn'.drop k <+: functionFqcn ∨ functionFqcn <+: functionFqcn'.drop k) := by
  decide +kernel

theorem vendorRoot_prefix_functionFqcn : ∀ functionFqcn ∈ extensionFunctionFqcns,
    vendorRoot <+: functionFqcn ∧ 92 ∉ functionFqcn.take 13 :=
  fun functionFqcn hF => (vendorRoot_facts.2.2.1 functionFqcn hF).1

/-- What ends with a separator and meets a function begins like it. -/
theorem vendorRoot_prefix_of_meets (hF : functionFqcn ∈ extensionFunctionFqcns) (hlast : 92 ∈ y)
    (h : Meets functionFqcn y) : vendorRoot <+: y := by
  obtain ⟨hroot, hno⟩ := vendorRoot_prefix_functionFqcn functionFqcn hF
  rcases h with h | h
  · have hlength : vendorRoot.length = 14 := vendorRoot_facts.1
    refine List.prefix_of_prefix_length_le hroot h ?_
    rw [hlength]
    by_contra hlt
    rw [List.prefix_iff_eq_take.mp h] at hlast
    exact hno (List.take_subset_take_left _ (by omega) hlast)
  · exact hroot.trans h

theorem not_meets_end : ∀ functionFqcn ∈ extensionFunctionFqcns, ∀ functionFqcn' ∈ extensionFunctionFqcns,
    ∀ k < functionFqcn'.length, 0 < k → ¬ Meets functionFqcn (functionFqcn'.drop k) := vendorRoot_facts.2.2.2

theorem functionFqcn_not_infix_searches : ∀ functionFqcn ∈ extensionFunctionFqcns,
    ¬ functionFqcn <:+: importSearch ∧ ¬ functionFqcn <:+: callSearch :=
  fun functionFqcn hF => (vendorRoot_facts.2.2.1 functionFqcn hF).2

theorem not_meets_importSearch (hF : functionFqcn ∈ extensionFunctionFqcns) (hy : y ≠ []) (heq : importSearch = x ++ y) :
    ¬ Meets functionFqcn y := by
  have hlast : importSearch.getLast? = some 59 := List.getLast?_concat
  rw [heq, List.getLast?_append_of_ne_nil _ hy] at hlast
  rintro (h | h)
  · have hname := functionFqcn_namespaceBytes functionFqcn hF 59 (h.subset (List.mem_of_getLast? hlast))
    cases hname
  · exact functionFqcn_not_infix_searches functionFqcn hF |>.1 (h.isInfix.trans ⟨x, [], by rw [heq, List.append_nil]⟩)

theorem not_meets_callSearch (hF : functionFqcn ∈ extensionFunctionFqcns) (hy : y ≠ []) (heq : callSearch = x ++ y) :
    ¬ Meets functionFqcn y := by
  have hlast : callSearch.getLast? = some 40 := List.getLast?_concat
  rw [heq, List.getLast?_append_of_ne_nil _ hy] at hlast
  rintro (h | h)
  · have hname := functionFqcn_namespaceBytes functionFqcn hF 40 (h.subset (List.mem_of_getLast? hlast))
    cases hname
  · exact functionFqcn_not_infix_searches functionFqcn hF |>.2 (h.isInfix.trans ⟨x, [], by rw [heq, List.append_nil]⟩)

/-- The prefix ends with the separator, and so does what is left of it. -/
theorem separator_mem_of_suffix {w v : Str} (hy : y ≠ []) (heq : w ++ prefixedRoot scoperPrefix = v ++ y) : 92 ∈ y := by
  have hlast : (w ++ prefixedRoot scoperPrefix).getLast? = some 92 := by
    rw [List.getLast?_append_of_ne_nil _ (prefixedRoot_ne_nil _)]
    exact List.getLast?_concat
  rw [heq, List.getLast?_append_of_ne_nil _ hy] at hlast
  exact List.mem_of_getLast? hlast

theorem Apart.not_meets_doubled (h : Apart scoperPrefix) (hF : functionFqcn ∈ extensionFunctionFqcns) (hy : y ≠ [])
    (heq : prefixedRoot scoperPrefix ++ prefixedRoot scoperPrefix = x ++ y) : ¬ Meets functionFqcn y := by
  intro hmeets
  have hroot := vendorRoot_prefix_of_meets hF (separator_mem_of_suffix hy heq) hmeets
  exact h.vendor (heq ▸ hroot.isInfix.trans (List.suffix_append x y).isInfix)

theorem Apart.eq_prefixedRoot_of_meets (h : Apart scoperPrefix) (hF : functionFqcn ∈ extensionFunctionFqcns)
    (hF' : functionFqcn' ∈ extensionFunctionFqcns) (hy : y ≠ []) (heq : prefixedRoot scoperPrefix ++ functionFqcn' = x ++ y)
    (hmeets : Meets functionFqcn y) : x = prefixedRoot scoperPrefix := by
  rcases List.append_eq_append_iff.mp heq with ⟨v, rfl, hv⟩ | ⟨v, hv, rfl⟩
  · -- `y` is in the name of the function
    cases v with
    | nil => exact List.append_nil _
    | cons c v =>
      have hlt : (c :: v).length < functionFqcn'.length := by
        rw [hv, List.length_append]
        exact Nat.lt_add_of_pos_right (List.length_pos_iff.mpr hy)
      have hdrop : functionFqcn'.drop (c :: v).length = y := by rw [hv, List.drop_left]
      exact absurd (hdrop ▸ hmeets) (not_meets_end _ hF _ hF' _ hlt (Nat.succ_pos _))
  · -- `y` begins in the prefix
    by_cases hempty : v = []
    · rw [hv, hempty, List.append_nil]
    · have hmem : 92 ∈ v := separator_mem_of_suffix hempty ((List.nil_append _).trans hv)
      have hroot := vendorRoot_prefix_of_meets hF (List.mem_append_left _ hmem) hmeets
      have hwithin : v <:+: prefixedRoot scoperPrefix ++ prefixedRoot scoperPrefix := by
        refine List.IsInfix.trans ?_ (List.suffix_append (prefixedRoot scoperPrefix) _).isInfix
        exact hv ▸ (List.suffix_append x v).isInfix
      refine absurd ?_ h.vendor
      rcases List.prefix_or_prefix_of_prefix hroot (List.prefix_append v _) with hle | hle
      · exact hle.isInfix.trans hwithin
      · have hlength : vendorRoot.length ≤ v.length := by
          by_contra hlt
          rw [List.prefix_iff_eq_take.mp hle] at hmem
          exact absurd (List.take_subset_take_left _ (Nat.le_pred_of_lt (Nat.lt_of_not_le hlt)) hmem) vendorRoot_facts.2.1
        exact hle.eq_of_length_le hlength ▸ hwithin

/-- Each prefix stands once, nothing is searched for as a hook, and none of the functions `done` has the prefix. -/
structure Bare (scoperPrefix : Str) (done : List Str) (text : Str) : Prop where
  single : ¬ prefixedRoot scoperPrefix ++ prefixedRoot scoperPrefix <:+: text
  no_import : ¬ importSearch <:+: text
  no_call : ¬ callSearch <:+: text
  functions : ∀ functionFqcn ∈ done, ¬ prefixedRoot scoperPrefix ++ functionFqcn <:+: text

theorem Bare.step {done : List Str} (hapart : Apart scoperPrefix) (hdone : done ⊆ extensionFunctionFqcns)
    (hF : functionFqcn ∈ extensionFunctionFqcns) (h : Bare scoperPrefix done text) :
    Bare scoperPrefix (done ++ [functionFqcn])
      (strReplace (prefixedRoot scoperPrefix ++ functionFqcn) functionFqcn text) := by
  have hne : prefixedRoot scoperPrefix ++ functionFqcn ≠ [] := by simp
  -- where a function with its prefix would stand, the prefix stood twice
  have hdoubled {F x y : Str} (hF' : F ∈ extensionFunctionFqcns) (heq : prefixedRoot scoperPrefix ++ F = x ++ y)
      (hy : y ≠ []) (hmeets : Meets functionFqcn y) (hwithin : x ++ (prefixedRoot scoperPrefix ++ functionFqcn) <:+: text) : False := by
    rw [hapart.eq_prefixedRoot_of_meets hF hF' hy heq hmeets, ← List.append_assoc] at hwithin
    exact h.single ((List.prefix_append _ _).isInfix.trans hwithin)
  refine ⟨fun hwithin => ?_, fun hwithin => ?_, fun hwithin => ?_, fun F hF' hwithin => ?_⟩
  · rcases infix_strReplace_drop hne hwithin with hwithin | ⟨x, y, heq, -, hy, hmeets, -⟩
    · exact h.single hwithin
    · exact hapart.not_meets_doubled hF hy heq hmeets
  · rcases infix_strReplace_drop hne hwithin with hwithin | ⟨x, y, heq, -, hy, hmeets, -⟩
    · exact h.no_import hwithin
    · exact not_meets_importSearch hF hy heq hmeets
  · rcases infix_strReplace_drop hne hwithin with hwithin | ⟨x, y, heq, -, hy, hmeets, -⟩
    · exact h.no_call hwithin
    · exact not_meets_callSearch hF hy heq hmeets
  · rcases List.mem_append.mp hF' with hF' | hF'
    · rcases infix_strReplace_drop hne hwithin with hwithin | ⟨x, y, heq, -, hy, hmeets, hx⟩
      · exact h.functions F hF' hwithin
      · exact hdoubled (hdone hF') heq hy hmeets hx
    · obtain rfl := List.mem_singleton.mp hF'
      obtain ⟨x, y, heq, -, hy, hmeets, hx⟩ :=
        search_infix_strReplace_drop (prefixedRoot_ne_nil scoperPrefix) (hapart.functions F hF) hwithin
      exact hdoubled hF heq hy hmeets hx

theorem Bare.unscopeFunctions {done functions : List Str} (hapart : Apart scoperPrefix)
    (hdone : done ++ functions ⊆ extensionFunctionFqcns) (h : Bare scoperPrefix done text) :
    Bare scoperPrefix (done ++ functions) (unscopeFunctions scoperPrefix functions text) := by
  induction functions generalizing done text with
  | nil => rwa [List.append_nil]
  | cons functionFqcn functions ih =>
    have hstep := h.step hapart (List.Subset.trans (List.subset_append_left _ _) hdone)
      (hdone (List.mem_append_right done List.mem_cons_self))
    rw [List.append_cons] at hdone ⊢
    exact ih hdone hstep

/-- A plain text is changed at most once. -/
theorem settled_of_textOk (h : TextOk filePath scoperPrefix text) : Settled filePath scoperPrefix text := by
  obtain ⟨plain, hdoubled, hplain⟩ := h
  have hsteps : scopeCalls scoperPrefix (scopeImports scoperPrefix (dedupePrefix scoperPrefix text)) = plain := by
    have hdedupe : dedupePrefix scoperPrefix text = dedupePrefix scoperPrefix plain :=
      (strReplace_of_doubled (prefixedRoot_ne_nil _) hplain.single hdoubled).trans (strReplace_eq_self hplain.single).symm
    rw [hdedupe, steps_eq_self hplain]
  by_cases hdistro : IsDistroSource filePath
  · rw [Settled, restore_of_distroSource hdistro]
    simp only [hsteps]
    rcases hplain.functions hdistro with hapart | hnone
    · have hbare : Bare scoperPrefix extensionFunctionFqcns (unscopeFunctions scoperPrefix extensionFunctionFqcns plain) := by
        have h : Bare scoperPrefix [] plain :=
          ⟨hplain.single, hplain.no_import, hplain.no_call, fun _ h => absurd h List.not_mem_nil⟩
        exact h.unscopeFunctions hapart (List.Subset.refl _)
      have hplain' : Plain filePath scoperPrefix (unscopeFunctions scoperPrefix extensionFunctionFqcns plain) :=
        ⟨hbare.single, hbare.no_import, hbare.no_call, fun _ => .inl hapart⟩
      rw [steps_eq_self hplain']
      exact unscopeFunctions_eq_self hbare.functions
    · have hself : unscopeFunctions scoperPrefix extensionFunctionFqcns plain = plain := unscopeFunctions_eq_self hnone
      rw [hself, steps_eq_self hplain, hself]
  · rw [Settled, restore_of_not_distroSource hdistro]
    simp only [hsteps, steps_eq_self hplain]

end Texts

/-- Exactly the hooks that are not as `Hook.Ok` says are left wrong; the text around is no concern where it is plain. -/
theorem restores_of_ok_iff {filePath scoperPrefix : Str} (hP : IsScoperPrefix scoperPrefix) (c : Content) :
    ((∀ s ∈ c.texts, TextOk filePath scoperPrefix s) →
      (Restores filePath scoperPrefix c ↔ ∀ p ∈ c.pieces, p.hook.Ok filePath scoperPrefix p.isPrefixed)) ∧
      (Restores filePath scoperPrefix c → ∀ p ∈ c.pieces, p.hook.Ok filePath scoperPrefix p.isPrefixed) := by
  refine ⟨fun htexts => ⟨fun h => ?_, fun hok => ?_⟩, fun h => ((restores_iff_settled hP c).mp h).1⟩
  · exact ((restores_iff_settled hP c).mp h).1
  · exact (restores_iff_settled hP c).mpr ⟨hok, fun s hs => settled_of_textOk (htexts s hs)⟩

theorem isScoperPrefix_default : IsScoperPrefix (lit "OTelDistroScoped") where
  ne_nil := by decide +kernel
  namespaceBytes := by decide +kernel
  head_ne := by decide +kernel

/-- `<?php use function OpenTelemetry\Instrumentation\hook;` -/
def importingFile : Content where
  pieces := [⟨lit "<?php ", by unfold Delimited; decide +kernel,
    .importHook useFunction
      ⟨by decide +kernel, by unfold Delimited; decide +kernel, by decide +kernel, by decide +kernel⟩ false 59 (by decide +kernel),
    false⟩]
  rest := []

theorem blank_of_none : ∀ b ∈ ([] : Str), isWhitespace b = true := fun _ h => absurd h List.not_mem_nil

/-- `<?php \OpenTelemetry\Instrumentation\hook(null, 'f');`, perhaps with the prefix. -/
def callingFile (isPrefixed : Bool) : Content where
  pieces := [⟨lit "<?php ", by unfold Delimited; decide +kernel, .callHook [] blank_of_none, isPrefixed⟩]
  rest := lit "null, 'f');"

theorem restores_of_ok_iff_default : Restores (lit "/vendor/_register.php") (lit "OTelDistroScoped") importingFile ∧
    ¬ Restores (lit "/vendor/_register.php") (lit "OTelDistroScoped") (callingFile true) := by
  have hvendor : ¬ IsDistroSource (lit "/vendor/_register.php") := by decide +kernel
  refine ⟨((restores_of_ok_iff isScoperPrefix_default importingFile).1 fun s hs => ?_).mpr fun p hp => ?_, fun h => ?_⟩
  · refine ⟨s, Doubled.refl _ s, ?_⟩
    simp only [importingFile, Content.texts, List.map_cons, List.map_nil, List.cons_append, List.nil_append, List.mem_cons,
      List.not_mem_nil, or_false] at hs
    rcases hs with rfl | rfl
    · exact ⟨by decide +kernel, by decide +kernel, by decide +kernel, fun h => absurd h hvendor⟩
    · exact ⟨by decide +kernel, by decide +kernel, by decide +kernel, fun h => absurd h hvendor⟩
  · rw [List.mem_singleton.mp hp, Hook.Ok, if_pos (by decide +kernel)]
    exact .inl not_false
  · have hok := (restores_of_ok_iff isScoperPrefix_default _).2 h _ List.mem_cons_self
    rw [Hook.Ok, if_pos (by decide +kernel)] at hok
    rcases hok with hok | hok | hok
    · exact hok trivial
    · exact absurd hok (by decide +kernel)
    · exact hvendor hok.1

/-- A call that has the prefix gets a second one, and a call that has none gets it in the second run. -/
theorem not_restores_callingFile : ¬ Restores (lit "/vendor/_register.php") (lit "OTelDistroScoped") (callingFile true) ∧
    ¬ Restores (lit "/vendor/_register.php") (lit "OTelDistroScoped") (callingFile false) := by
  refine ⟨fun h => ?_, fun h => ?_⟩
  · have := h.named
    revert this
    decide +kernel
  · have := h.idempotent
    revert this
    decide +kernel

end OtelDistro.Build
