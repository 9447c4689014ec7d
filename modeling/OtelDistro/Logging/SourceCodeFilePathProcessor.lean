import OtelDistro.Lib.MinimalElements
import OtelDistro.Util.PhpStrings

/-!
# OtelDistro.Logging.SourceCodeFilePathProcessor — the root directories that are cut off logged paths

`buildSourceCodeRootDirsPrefixes` turns the root directories of the source code into prefixes: doubled separators become
one, a separator is added at the end, and of nested directories only the outermost stays.

* `collapse`, `normalizedDir`: a directory as the prefix it stands for.
* `removeDuplicateDirSeparators_eq`: the loop of `str_replace` collapses the separators.
* `buildSourceCodeRootDirsPrefixes_eq`: the prefixes are the minimal elements of the directories that are not empty.
* `prefixes_of_rootDirs`: what the prefixes are like, and the paths they cover.
-/

namespace OtelDistro.Logging

open OtelDistro.Lib OtelDistro.Util

/-! ## The code -/

def findPrefix (text : Str) (prefixCandidates : List Str) : Option Str :=
  prefixCandidates.find? fun prefixCandidate => prefixCandidate <+: text

/-- The `do` loop; a turn that replaces something makes the path shorter. -/
def removeDuplicateDirSeparators (path dirSeparator : Str) : Str :=
  if strReplaceCount (dirSeparator ++ dirSeparator) path = 0 then
    strReplace (dirSeparator ++ dirSeparator) dirSeparator path
  else removeDuplicateDirSeparators (strReplace (dirSeparator ++ dirSeparator) dirSeparator path) dirSeparator
termination_by path.length
decreasing_by
  rename_i h
  have hlen := length_strReplace (dirSeparator ++ dirSeparator) dirSeparator path
  have hpos : 0 < dirSeparator.length := by
    refine List.length_pos_iff.mpr ?_
    rintro rfl
    exact h (strReplaceCount_nil path)
  have hcount := Nat.mul_pos (Nat.pos_of_ne_zero h) hpos
  rw [List.length_append, Nat.mul_add] at hlen
  omega

/-- A turn of the `foreach` over the directories. -/
def addRootDir (DIRECTORY_SEPARATOR : UInt8) (sourceCodeRootDirsPrefixes : List Str) (dirFullPath : Str) : List Str :=
  let newPrefix := removeDuplicateDirSeparators dirFullPath [DIRECTORY_SEPARATOR]
  if newPrefix = [] then sourceCodeRootDirsPrefixes
  else
    let newPrefix := if [DIRECTORY_SEPARATOR] <:+ newPrefix then newPrefix else newPrefix ++ [DIRECTORY_SEPARATOR]
    if findPrefix newPrefix sourceCodeRootDirsPrefixes = none then
      sourceCodeRootDirsPrefixes.filter (fun alreadyAddedPrefix => ¬ newPrefix <+: alreadyAddedPrefix) ++ [newPrefix]
    else sourceCodeRootDirsPrefixes

def buildSourceCodeRootDirsPrefixes (DIRECTORY_SEPARATOR : UInt8) (sourceCodeRootDirs : List Str) : List Str :=
  sourceCodeRootDirs.foldl (addRootDir DIRECTORY_SEPARATOR) []

/-- `basename`: the last component, without the separators behind it. -/
def basename (DIRECTORY_SEPARATOR : UInt8) (path : Str) : Str :=
  ((path.reverse.dropWhile (· = DIRECTORY_SEPARATOR)).takeWhile (· ≠ DIRECTORY_SEPARATOR)).reverse

/-- `rootDirsPrefixes` is set by the constructor. -/
def processPath (DIRECTORY_SEPARATOR : UInt8) (rootDirs : List Str) (filePath : Str) : Str :=
  if findPrefix filePath (buildSourceCodeRootDirsPrefixes DIRECTORY_SEPARATOR rootDirs) ≠ none then
    basename DIRECTORY_SEPARATOR filePath
  else filePath

/-! ## Normal forms -/

/-- Each run of separators becomes one separator. -/
def collapse (sep : UInt8) : Str → Str
  | [] => []
  | c :: path => if c = sep ∧ (collapse sep path).head? = some sep then collapse sep path else c :: collapse sep path

/-- Collapsed, with one separator at the end. -/
def normalizedDir (sep : UInt8) (dir : Str) : Str :=
  if [sep] <:+ collapse sep dir then collapse sep dir else collapse sep dir ++ [sep]

section Normal

variable {sep c : UInt8} {path path' dir : Str}

theorem collapse_cons_congr (h : collapse sep path = collapse sep path') :
    collapse sep (c :: path) = collapse sep (c :: path') := by
  rw [collapse, collapse, h]

theorem head?_collapse (sep : UInt8) (path : Str) : (collapse sep path).head? = path.head? := by
  cases path with
  | nil => rfl
  | cons c path =>
    rw [collapse]
    split
    · next h => rw [h.2, h.1, List.head?_cons]
    · rfl

theorem collapse_eq_nil_iff : collapse sep path = [] ↔ path = [] := by
  rw [← List.head?_eq_none_iff, head?_collapse, List.head?_eq_none_iff]

theorem collapse_double : collapse sep (sep :: sep :: path) = collapse sep (sep :: path) := by
  conv => lhs; rw [collapse]
  rw [if_pos ⟨rfl, head?_collapse sep (sep :: path)⟩]

theorem doubled_cons_iff : [sep, sep] <:+: c :: path ↔ c = sep ∧ path.head? = some sep ∨ [sep, sep] <:+: path := by
  rw [List.infix_cons_iff, List.cons_prefix_cons]
  cases path with
  | nil => simp
  | cons d path => simp [eq_comm]

/-- A path without doubled separators is collapsed. -/
theorem collapse_eq_self (h : ¬ [sep, sep] <:+: path) : collapse sep path = path := by
  induction path with
  | nil => rfl
  | cons c path ih =>
    obtain ⟨hhead, hrest⟩ := not_or.mp (mt doubled_cons_iff.mpr h)
    rw [collapse, ih hrest, if_neg hhead]

theorem not_doubled_collapse (sep : UInt8) (path : Str) : ¬ [sep, sep] <:+: collapse sep path := by
  induction path with
  | nil => simp [collapse]
  | cons c path ih =>
    rw [collapse]
    split
    · exact ih
    · next hno =>
      rw [doubled_cons_iff]
      exact not_or.mpr ⟨hno, ih⟩

/-- A pass of `str_replace` does not change what the path collapses to. -/
theorem collapse_strReplace (sep : UInt8) (path : Str) :
    collapse sep (strReplace [sep, sep] [sep] path) = collapse sep path := by
  suffices H : ∀ k path, collapse sep (replaceAll (matchOf [sep, sep]) [sep] k path) = collapse sep (path.drop k) from
    H 0 path
  intro k path
  induction path generalizing k with
  | nil => simp
  | cons c path ih =>
    cases k with
    | succ k => exact ih k
    | zero =>
      rw [replaceAll, matchOf]
      by_cases hmatch : [sep, sep] <+: c :: path
      · rw [if_pos hmatch]
        obtain ⟨rest, heq⟩ := hmatch
        obtain ⟨rfl, rfl⟩ := List.cons.inj heq
        exact (collapse_cons_congr (ih 1)).trans collapse_double.symm
      · rw [if_neg hmatch]
        exact collapse_cons_congr (ih 0)

/-- **The loop collapses the separators.** -/
theorem removeDuplicateDirSeparators_eq (sep : UInt8) (path : Str) :
    removeDuplicateDirSeparators path [sep] = collapse sep path := by
  induction path using removeDuplicateDirSeparators.induct [sep] with
  | case1 path h =>
    have hno : ¬ [sep, sep] <:+: path := (strReplaceCount_eq_zero_iff (List.cons_ne_nil _ _)).mp h
    rw [removeDuplicateDirSeparators, if_pos h, collapse_eq_self hno]
    exact strReplace_eq_self hno
  | case2 path h ih =>
    rw [removeDuplicateDirSeparators, if_neg h, ih]
    exact collapse_strReplace sep path

theorem suffix_normalizedDir (sep : UInt8) (dir : Str) : [sep] <:+ normalizedDir sep dir := by
  unfold normalizedDir
  split
  · next h => exact h
  · exact List.suffix_append _ _

theorem not_doubled_normalizedDir (sep : UInt8) (dir : Str) : ¬ [sep, sep] <:+: normalizedDir sep dir := by
  unfold normalizedDir
  split
  · exact not_doubled_collapse sep dir
  · next hends =>
    intro hdouble
    rcases List.infix_concat_iff.mp hdouble with hsuffix | hwithin
    · obtain ⟨before, heq⟩ := hsuffix
      have heq' : before ++ [sep] ++ [sep] = collapse sep dir ++ [sep] := by simpa using heq
      exact hends ⟨before, List.append_cancel_right heq'⟩
    · exact not_doubled_collapse sep dir hwithin

end Normal

/-! ## The prefixes -/

section Prefixes

variable {sep : UInt8} {prefixes dirs : List Str} {text dir : Str}

theorem findPrefix_eq_none_iff : findPrefix text prefixes = none ↔ ¬ ∃ p ∈ prefixes, p <+: text := by
  simp [findPrefix]

/-- A directory that is not empty is added as its normal form. -/
theorem addRootDir_eq (sep : UInt8) (prefixes : List Str) (dir : Str) :
    addRootDir sep prefixes dir = if dir = [] then prefixes
      else insertMinimal (· <+: ·) prefixes (normalizedDir sep dir) := by
  simp only [addRootDir, removeDuplicateDirSeparators_eq, collapse_eq_nil_iff]
  rw [← normalizedDir]
  simp only [findPrefix_eq_none_iff, insertMinimal, ite_not]

/-- **The prefixes** are the minimal elements of the normal forms, for the order of prefixes. -/
theorem buildSourceCodeRootDirsPrefixes_eq (sep : UInt8) (dirs : List Str) :
    buildSourceCodeRootDirsPrefixes sep dirs =
      minimalElements (· <+: ·) ((dirs.filter (· ≠ [])).map (normalizedDir sep)) := by
  rw [buildSourceCodeRootDirsPrefixes, minimalElements]
  generalize ([] : List Str) = prefixes
  induction dirs generalizing prefixes with
  | nil => rfl
  | cons dir dirs ih =>
    rw [List.foldl_cons, addRootDir_eq, ih]
    by_cases hdir : dir = []
    · rw [if_pos hdir, List.filter_cons_of_neg (by simp [hdir])]
    · rw [if_neg hdir, List.filter_cons_of_pos (by simp [hdir])]
      rfl

theorem covered_iff (sep : UInt8) (rootDirs : List Str) (path : Str) :
    (∃ p ∈ buildSourceCodeRootDirsPrefixes sep rootDirs, p <+: path) ↔
      ∃ dir ∈ rootDirs, dir ≠ [] ∧ normalizedDir sep dir <+: path := by
  rw [buildSourceCodeRootDirsPrefixes_eq, covered_minimalElements]
  simp [and_assoc]

/-- The paths below one of the directories are cut. -/
theorem processPath_eq (sep : UInt8) (rootDirs : List Str) (filePath : Str)
    [Decidable (∃ dir ∈ rootDirs, dir ≠ [] ∧ normalizedDir sep dir <+: filePath)] :
    processPath sep rootDirs filePath =
      if ∃ dir ∈ rootDirs, dir ≠ [] ∧ normalizedDir sep dir <+: filePath then basename sep filePath else filePath := by
  simp only [processPath, ne_eq, findPrefix_eq_none_iff, covered_iff, not_not]

end Prefixes

/-- **The prefixes of the root directories**: none begins another, each ends with the separator and has none doubled;
they cover the paths that the directories cover; and their order apart they do not depend on that of the directories. -/
theorem prefixes_of_rootDirs (sep : UInt8) (rootDirs : List Str) :
    (buildSourceCodeRootDirsPrefixes sep rootDirs).Pairwise (fun p q => ¬ p <+: q ∧ ¬ q <+: p) ∧
      (∀ p ∈ buildSourceCodeRootDirsPrefixes sep rootDirs, [sep] <:+ p ∧ ¬ [sep, sep] <:+: p) ∧
      (∀ path, (∃ p ∈ buildSourceCodeRootDirsPrefixes sep rootDirs, p <+: path) ↔
        ∃ dir ∈ rootDirs, dir ≠ [] ∧ normalizedDir sep dir <+: path) ∧
      ∀ rootDirs', rootDirs.Perm rootDirs' →
        (buildSourceCodeRootDirsPrefixes sep rootDirs).Perm (buildSourceCodeRootDirsPrefixes sep rootDirs') := by
  refine ⟨?_, fun p hp => ?_, covered_iff sep rootDirs, fun rootDirs' hperm => ?_⟩
  · rw [buildSourceCodeRootDirsPrefixes_eq]
    exact minimalElements_pairwise _
  · rw [buildSourceCodeRootDirsPrefixes_eq] at hp
    obtain ⟨dir, -, rfl⟩ := List.mem_map.mp (minimalElements_subset hp)
    exact ⟨suffix_normalizedDir sep dir, not_doubled_normalizedDir sep dir⟩
  · rw [buildSourceCodeRootDirsPrefixes_eq, buildSourceCodeRootDirsPrefixes_eq]
    exact minimalElements_perm ((hperm.filter _).map _)

end OtelDistro.Logging
