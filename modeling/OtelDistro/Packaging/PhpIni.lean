import OtelDistro.Bytes
import OtelDistro.Lib.Lines

/-!
# OtelDistro.Packaging.PhpIni — the block of the distro in `php.ini`

On a host without a directory for additional ini files, `post-install.sh` appends a block of four lines to `php.ini`, and
`before-uninstall.sh` takes it out again: it counts the lines that match each line's pattern, and deletes four lines from the
header on.  `grep` and `sed` work on bytes, as in the C locale.

* `grepLine`: the basic regular expressions of the scripts (`.` and `.*` beside plain bytes).
* `postInstall`, `beforeUninstall`: the scripts on an existing `php.ini`; the extension is enabled in between.
* `Removable`: the file ends its last line, and the patterns match nothing in it.

`round_trip_iff`: install and uninstall give the file back exactly when it is `Removable`; `commented_extension_stays` and
`unfinished_line_is_deleted` are files that are not.
-/

namespace OtelDistro.Packaging

open OtelDistro.Lib

/-! ## `grep` and `sed` -/

inductive Atom
  | byte (c : UInt8)
  /-- `.` -/
  | dot
  /-- `.*` -/
  | dotStar
deriving DecidableEq

/-- The atoms of a pattern. -/
def bre : Str → List Atom
  | 46 :: 42 :: rest => .dotStar :: bre rest
  | 46 :: rest => .dot :: bre rest
  | c :: rest => .byte c :: bre rest
  | [] => []

/-- The pattern matches at the beginning. -/
def matchHere : List Atom → Str → Bool
  | [], _ => true
  | .byte c :: p, x :: s => x == c && matchHere p s
  | .dot :: p, _ :: s => matchHere p s
  | .byte _ :: _, [] | .dot :: _, [] => false
  | .dotStar :: p, s => s.tails.any (matchHere p)

def grepLine (pattern line : Str) : Bool := line.tails.any (matchHere (bre pattern))

/-- `grep -q` -/
def grepQuiet (pattern file : Str) : Bool := (lines 10 file).any (grepLine pattern)

/-- `grep -c` -/
def grepCount (pattern file : Str) : ℕ := (lines 10 file).countP (grepLine pattern)

/-- `grep -n`, and the numbers that `cut` leaves of it; the first line has the number `n`. -/
def grepNumbers (pattern : Str) : ℕ → List Str → List ℕ
  | _, [] => []
  | n, l :: ls => if grepLine pattern l then n :: grepNumbers pattern (n + 1) ls else grepNumbers pattern (n + 1) ls

/-- `grep -A`, where one line matches.  For a file with a NUL byte there is a message in place of the lines. -/
def grepAfter (pattern : Str) (count : ℕ) (file : Str) : List Str :=
  if 0 ∈ file then [lit "Binary file matches"]
  else ((lines 10 file).dropWhile fun l => !grepLine pattern l).take (count + 1)

/-- `sed` deletes `count` lines from line `n` on. -/
def deleteLines (n count : ℕ) (file : Str) : Str :=
  ((pieces 10 file).take (n - 1) ++ (pieces 10 file).drop (n - 1 + count)).flatten

/-! ## The scripts -/

def EXTENSION_FILE_PATH : Str := lit "/opt/opentelemetry/php/distro/opentelemetry_php_distro_loader.so"

def BOOTSTRAP_FILE_PATH : Str := lit "/opt/opentelemetry/php/distro/php/bootstrap_php_part.php"

def HEADER : Str := lit "; THIS IS AN AUTO-GENERATED FILE by the OpenTelemetry PHP Distro post-install.sh script"

def FOOTER : Str := lit "; END OF AUTO-GENERATED by the OpenTelemetry PHP Distro post-install.sh script"

def EXTENSION : Str := lit "extension=.*"

def BOOTSTRAP : Str := lit "opentelemetry_distro.bootstrap_php_part_file=.*"

/-- `add_extension_configuration` -/
def extensionLine : Str := lit "extension=" ++ EXTENSION_FILE_PATH

def bootstrapLine : Str := lit "opentelemetry_distro.bootstrap_php_part_file=" ++ BOOTSTRAP_FILE_PATH

/-- The block; its first and last line are the patterns of the other script. -/
def block : Str := HEADER ++ 10 :: (extensionLine ++ 10 :: (bootstrapLine ++ 10 :: (FOOTER ++ [10])))

def addExtensionConfigurationToFile (ini : Str) : Str := ini ++ block

def postInstall (ini : Str) : Str :=
  if grepQuiet EXTENSION_FILE_PATH ini then ini else addExtensionConfigurationToFile ini

def removeExtensionConfigurationToFile (ini : Str) : Str :=
  if grepCount HEADER ini = 1 ∧ grepCount EXTENSION ini = 1 ∧ grepCount BOOTSTRAP ini = 1 ∧ grepCount FOOTER ini = 1 then
    let tmp := grepAfter HEADER 3 ini
    if grepNumbers EXTENSION 1 tmp = [2] ∧ grepNumbers BOOTSTRAP 1 tmp = [3] ∧ grepNumbers FOOTER 1 tmp = [4] then
      match grepNumbers HEADER 1 (lines 10 ini) with
      | [] => ini
      | headerLine :: _ => deleteLines headerLine 4 ini
    else ini
  else ini

def beforeUninstall (ini : Str) : Str :=
  if grepQuiet (lit "opentelemetry_php_distro_loader.so") ini then removeExtensionConfigurationToFile ini else ini

/-! ## What the patterns match -/

section Grep

variable {pattern line a b : Str} {p q : List Atom} {s t : Str} {ls rest : List Str} {n : ℕ}

/-- A pattern that matches the end of a line matches the line. -/
theorem grepLine_append (a : Str) (h : grepLine pattern b = true) : grepLine pattern (a ++ b) = true := by
  unfold grepLine at h ⊢
  rw [List.any_eq_true] at h ⊢
  obtain ⟨t, ht, hm⟩ := h
  rw [List.mem_tails] at ht
  exact ⟨t, (List.mem_tails _ _).mpr (ht.trans (List.suffix_append a b)), hm⟩

/-- The rest of a pattern matches further on. -/
theorem matchHere_suffix (h : matchHere (p ++ q) s = true) : ∃ t, t <:+ s ∧ matchHere q t = true := by
  induction p generalizing s with
  | nil => exact ⟨s, List.suffix_refl s, h⟩
  | cons atom p ih =>
    cases atom with
    | byte c =>
      cases s with
      | nil => cases h
      | cons x s =>
        rw [List.cons_append, matchHere, Bool.and_eq_true] at h
        obtain ⟨t, ht, hm⟩ := ih h.2
        exact ⟨t, ht.trans (List.suffix_cons x s), hm⟩
    | dot =>
      cases s with
      | nil => cases h
      | cons x s =>
        obtain ⟨t, ht, hm⟩ := ih h
        exact ⟨t, ht.trans (List.suffix_cons x s), hm⟩
    | dotStar =>
      rw [List.cons_append, matchHere, List.any_eq_true] at h
      obtain ⟨u, hu, hm⟩ := h
      obtain ⟨t, ht, hm⟩ := ih hm
      exact ⟨t, ht.trans ((List.mem_tails _ _).mp hu), hm⟩

theorem matchHere_bytes (h : matchHere (a.map .byte ++ q) s = true) : a <+: s := by
  induction a generalizing s with
  | nil => exact List.nil_prefix
  | cons c a ih =>
    cases s with
    | nil => cases h
    | cons x s =>
      rw [List.map_cons, List.cons_append, matchHere, Bool.and_eq_true, beq_iff_eq] at h
      rw [List.cons_prefix_cons]
      exact ⟨h.1.symm, ih h.2⟩

/-- The bytes of a pattern stand in every line it matches. -/
theorem infix_of_grepLine (hp : bre pattern = p ++ (a.map .byte ++ q)) (h : grepLine pattern line = true) : a <:+: line := by
  unfold grepLine at h
  rw [List.any_eq_true, hp] at h
  obtain ⟨s, hs, hm⟩ := h
  obtain ⟨t, ht, hm⟩ := matchHere_suffix hm
  exact (matchHere_bytes hm).isInfix.trans (ht.trans ((List.mem_tails _ _).mp hs)).isInfix

theorem grepNumbers_append (h : ∀ l ∈ ls, grepLine pattern l = false) (rest : List Str) :
    grepNumbers pattern n (ls ++ rest) = grepNumbers pattern (n + ls.length) rest := by
  induction ls generalizing n with
  | nil => rfl
  | cons l ls ih =>
    rw [List.cons_append, grepNumbers, if_neg (by simp [h l List.mem_cons_self]),
      ih (fun l hl => h l (List.mem_cons_of_mem _ hl)), List.length_cons]
    congr 1
    omega

theorem grepQuiet_eq_false (hp : bre pattern = p ++ (a.map .byte ++ q)) (h : ¬ a <:+: s) : grepQuiet pattern s = false := by
  unfold grepQuiet
  rw [List.any_eq_false]
  intro l hl hm
  exact h ((infix_of_grepLine hp hm).trans (infix_of_mem_lines hl))

end Grep

/-! ## The file behind the installation -/

/-- The loader's name. -/
def LOADER : Str := lit "opentelemetry_php_distro_loader"

/-- The file ends its last line, and the patterns match nothing in it. -/
structure Removable (ini : Str) : Prop where
  complete : Complete 10 ini
  text : 0 ∉ ini
  free : ∀ line ∈ lines 10 ini, grepLine HEADER line = false ∧ grepLine EXTENSION line = false ∧
    grepLine BOOTSTRAP line = false ∧ grepLine FOOTER line = false

section Block

variable {pre last ini : Str}

theorem extensionLine_eq : extensionLine = lit "extension=/opt/opentelemetry/php/distro/opentelemetry_php_distro_loader.so" := by
  have hl : lit "extension=" = _ := lit_ofList _
  have hr : EXTENSION_FILE_PATH = _ := lit_ofList _
  have h : lit "extension=/opt/opentelemetry/php/distro/opentelemetry_php_distro_loader.so" = _ := lit_ofList _
  rw [extensionLine, hl, hr, h]
  rfl

theorem bootstrapLine_eq : bootstrapLine =
    lit "opentelemetry_distro.bootstrap_php_part_file=/opt/opentelemetry/php/distro/php/bootstrap_php_part.php" := by
  have hl : lit "opentelemetry_distro.bootstrap_php_part_file=" = _ := lit_ofList _
  have hr : BOOTSTRAP_FILE_PATH = _ := lit_ofList _
  have h : lit "opentelemetry_distro.bootstrap_php_part_file=/opt/opentelemetry/php/distro/php/bootstrap_php_part.php" = _ :=
    lit_ofList _
  rw [bootstrapLine, hl, hr, h]
  rfl

/-- What is computed of the block: its four lines, which of the patterns match them, and where the loader's name stands. -/
theorem block_facts : (∀ line ∈ [HEADER, extensionLine, bootstrapLine, FOOTER], (10 : UInt8) ∉ line ∧ 0 ∉ line) ∧
    (grepLine HEADER HEADER = true ∧ grepLine HEADER extensionLine = false ∧
      grepLine HEADER bootstrapLine = false ∧ grepLine HEADER FOOTER = false ∧
      grepLine EXTENSION HEADER = false ∧ grepLine EXTENSION extensionLine = true ∧
      grepLine EXTENSION bootstrapLine = false ∧ grepLine EXTENSION FOOTER = false ∧
      grepLine BOOTSTRAP HEADER = false ∧ grepLine BOOTSTRAP extensionLine = false ∧
      grepLine BOOTSTRAP bootstrapLine = true ∧ grepLine BOOTSTRAP FOOTER = false ∧
      grepLine FOOTER HEADER = false ∧ grepLine FOOTER extensionLine = false ∧
      grepLine FOOTER bootstrapLine = false ∧ grepLine FOOTER FOOTER = true) ∧
    (block.length = 344 ∧ (∀ t ∈ block.tails, LOADER.isPrefixOf t = true → t.length = 216) ∧
      LOADER.isPrefixOf (block.drop 128) = true ∧ block.head? = some 59 ∧ (59 : UInt8) ∉ LOADER) ∧
    (bre EXTENSION_FILE_PATH = (lit "/opt/opentelemetry/php/distro/").map .byte ++ (LOADER.map .byte ++ bre (lit ".so")) ∧
      bre (lit "opentelemetry_php_distro_loader.so") = LOADER.map .byte ++ bre (lit ".so")) ∧
    grepLine EXTENSION_FILE_PATH extensionLine = true ∧
      grepLine (lit "opentelemetry_php_distro_loader.so") extensionLine = true := by
  have h1 : HEADER = _ := lit_ofList _
  have h2 : extensionLine = _ := extensionLine_eq.trans (lit_ofList _)
  have h3 : bootstrapLine = _ := bootstrapLine_eq.trans (lit_ofList _)
  have h4 : FOOTER = _ := lit_ofList _
  have h5 : EXTENSION = _ := lit_ofList _
  have h6 : BOOTSTRAP = _ := lit_ofList _
  have h7 : LOADER = _ := lit_ofList _
  have h8 : EXTENSION_FILE_PATH = _ := lit_ofList _
  have h9 : lit "opentelemetry_php_distro_loader.so" = _ := lit_ofList _
  rw [block, h1, h2, h3, h4, h5, h6, h7, h8, h9]
  decide +kernel

/-- The four lines are lines of text. -/
theorem block_lines : ∀ line ∈ [HEADER, extensionLine, bootstrapLine, FOOTER], (10 : UInt8) ∉ line ∧ 0 ∉ line := block_facts.1

/-- Which of the four patterns match which of the four lines. -/
theorem block_matches : grepLine HEADER HEADER = true ∧ grepLine HEADER extensionLine = false ∧
    grepLine HEADER bootstrapLine = false ∧ grepLine HEADER FOOTER = false ∧
    grepLine EXTENSION HEADER = false ∧ grepLine EXTENSION extensionLine = true ∧
    grepLine EXTENSION bootstrapLine = false ∧ grepLine EXTENSION FOOTER = false ∧
    grepLine BOOTSTRAP HEADER = false ∧ grepLine BOOTSTRAP extensionLine = false ∧
    grepLine BOOTSTRAP bootstrapLine = true ∧ grepLine BOOTSTRAP FOOTER = false ∧
    grepLine FOOTER HEADER = false ∧ grepLine FOOTER extensionLine = false ∧
    grepLine FOOTER bootstrapLine = false ∧ grepLine FOOTER FOOTER = true := block_facts.2.1

/-- The loader's name stands in one place of the block, and has not the letter the block begins with. -/
theorem loader_in_block : block.length = 344 ∧ (∀ t ∈ block.tails, LOADER.isPrefixOf t = true → t.length = 216) ∧
    LOADER.isPrefixOf (block.drop 128) = true ∧ block.head? = some 59 ∧ (59 : UInt8) ∉ LOADER := block_facts.2.2.1

/-- The patterns that look for the loader. -/
theorem bre_loader : (∃ p q, bre EXTENSION_FILE_PATH = p ++ (LOADER.map .byte ++ q)) ∧
    ∃ p q, bre (lit "opentelemetry_php_distro_loader.so") = p ++ (LOADER.map .byte ++ q) :=
  ⟨⟨_, _, block_facts.2.2.2.1.1⟩, [], _, block_facts.2.2.2.1.2⟩

/-- They find it in its line. -/
theorem loader_found : grepLine EXTENSION_FILE_PATH extensionLine = true ∧
    grepLine (lit "opentelemetry_php_distro_loader.so") extensionLine = true := block_facts.2.2.2.2

theorem pieces_install (hpre : Complete 10 pre) (hlast : 10 ∉ last) : pieces 10 (pre ++ last ++ block) =
    pieces 10 pre ++ [last ++ HEADER ++ [10], extensionLine ++ [10], bootstrapLine ++ [10], FOOTER ++ [10]] := by
  have hheader : 10 ∉ last ++ HEADER := by
    rw [List.mem_append, not_or]
    exact ⟨hlast, (block_lines _ (by simp)).1⟩
  have hline : ∀ line ∈ [HEADER, extensionLine, bootstrapLine, FOOTER], 10 ∉ line := fun line h => (block_lines line h).1
  rw [List.append_assoc, pieces_append hpre, block, ← List.append_assoc, pieces_line hheader, pieces_line (hline _ (by simp)),
    pieces_line (hline _ (by simp)), pieces_line (hline _ (by simp))]
  rfl

theorem lines_install (hpre : Complete 10 pre) (hlast : 10 ∉ last) : lines 10 (pre ++ last ++ block) =
    lines 10 pre ++ [last ++ HEADER, extensionLine, bootstrapLine, FOOTER] := by
  have hheader : 10 ∉ last ++ HEADER := by
    rw [List.mem_append, not_or]
    exact ⟨hlast, (block_lines _ (by simp)).1⟩
  have hline : ∀ line ∈ [HEADER, extensionLine, bootstrapLine, FOOTER], 10 ∉ line := fun line h => (block_lines line h).1
  rw [List.append_assoc, lines_append hpre, block, ← List.append_assoc, lines_line hheader, lines_line (hline _ (by simp)),
    lines_line (hline _ (by simp)), lines_line (hline _ (by simp))]
  rfl

theorem grepQuiet_install (hpre : Complete 10 pre) (hlast : 10 ∉ last) {pattern : Str}
    (h : grepLine pattern extensionLine = true) : grepQuiet pattern (pre ++ last ++ block) = true := by
  rw [grepQuiet, lines_install hpre hlast, List.any_append]
  simp [h]

/-- The first installation appends the block, the others leave the file as it is. -/
theorem postInstall_iterate (h : ¬ LOADER <:+: ini) (n : ℕ) : postInstall^[n + 1] ini = ini ++ block := by
  obtain ⟨pre, last, rfl, hpre, hlast⟩ := exists_complete_append 10 ini
  obtain ⟨p, q, hbre⟩ := bre_loader.1
  induction n with
  | zero =>
    show postInstall (pre ++ last) = _
    rw [postInstall, grepQuiet_eq_false hbre h]
    rfl
  | succ n ih =>
    rw [Function.iterate_succ_apply', ih, postInstall, grepQuiet_install hpre hlast loader_found.1]
    rfl

/-- How often a pattern matches in the file behind the installation. -/
theorem grepCount_install (hpre : Complete 10 pre) (hlast : 10 ∉ last) (pattern : Str) :
    grepCount pattern (pre ++ last ++ block) = grepCount pattern pre +
      [last ++ HEADER, extensionLine, bootstrapLine, FOOTER].countP (grepLine pattern) := by
  rw [grepCount, lines_install hpre hlast, List.countP_append]
  rfl

theorem grepCount_eq_zero_iff (pattern file : Str) :
    grepCount pattern file = 0 ↔ ∀ line ∈ lines 10 file, grepLine pattern line = false := by
  rw [grepCount, List.countP_eq_zero]
  exact forall₂_congr fun _ _ => by rw [Bool.not_eq_true]

/-- Every pattern is counted once. -/
theorem counts_install_iff (hpre : Complete 10 pre) (hlast : 10 ∉ last) :
    (grepCount HEADER (pre ++ last ++ block) = 1 ∧ grepCount EXTENSION (pre ++ last ++ block) = 1 ∧
      grepCount BOOTSTRAP (pre ++ last ++ block) = 1 ∧ grepCount FOOTER (pre ++ last ++ block) = 1) ↔
    (∀ line ∈ lines 10 pre, grepLine HEADER line = false ∧ grepLine EXTENSION line = false ∧
      grepLine BOOTSTRAP line = false ∧ grepLine FOOTER line = false) ∧ grepLine EXTENSION (last ++ HEADER) = false ∧
      grepLine BOOTSTRAP (last ++ HEADER) = false ∧ grepLine FOOTER (last ++ HEADER) = false := by
  obtain ⟨h1, h2, h3, h4, -, h6, h7, h8, -, h10, h11, h12, -, h14, h15, h16⟩ := block_matches
  have hglued : grepLine HEADER (last ++ HEADER) = true := grepLine_append last h1
  have hcounts : (∀ line ∈ lines 10 pre, grepLine HEADER line = false ∧ grepLine EXTENSION line = false ∧
      grepLine BOOTSTRAP line = false ∧ grepLine FOOTER line = false) ↔ grepCount HEADER pre = 0 ∧
        grepCount EXTENSION pre = 0 ∧ grepCount BOOTSTRAP pre = 0 ∧ grepCount FOOTER pre = 0 := by
    simp only [grepCount_eq_zero_iff]
    exact ⟨fun h => ⟨fun l hl => (h l hl).1, fun l hl => (h l hl).2.1, fun l hl => (h l hl).2.2.1, fun l hl => (h l hl).2.2.2⟩,
      fun h l hl => ⟨h.1 l hl, h.2.1 l hl, h.2.2.1 l hl, h.2.2.2 l hl⟩⟩
  rw [hcounts]
  simp only [grepCount_install hpre hlast, List.countP_cons, List.countP_nil, hglued, h2, h3, h4, h6, h7, h8, h10, h11, h12,
    h14, h15, h16, Bool.false_eq_true, if_true, if_false]
  cases grepLine EXTENSION (last ++ HEADER) <;> cases grepLine BOOTSTRAP (last ++ HEADER) <;>
    cases grepLine FOOTER (last ++ HEADER) <;> simp

/-- The lines before the block, and the line that the header was appended to, are free of the patterns. -/
def Counted (pre last : Str) : Prop :=
  (∀ line ∈ lines 10 pre, grepLine HEADER line = false ∧ grepLine EXTENSION line = false ∧
    grepLine BOOTSTRAP line = false ∧ grepLine FOOTER line = false) ∧ grepLine EXTENSION (last ++ HEADER) = false ∧
    grepLine BOOTSTRAP (last ++ HEADER) = false ∧ grepLine FOOTER (last ++ HEADER) = false

/-- Four lines are deleted: the block, and what stands in front of it in its first line. -/
theorem deleteLines_install (hpre : Complete 10 pre) (hlast : 10 ∉ last) :
    deleteLines (1 + (lines 10 pre).length) 4 (pre ++ last ++ block) = pre := by
  have hlen : (lines 10 pre).length = (pieces 10 pre).length := List.length_map _
  rw [deleteLines, pieces_install hpre hlast, hlen, Nat.add_sub_cancel_left, List.take_left, ← List.drop_drop, List.drop_left]
  show (pieces 10 pre ++ []).flatten = pre
  rw [List.append_nil, flatten_pieces]

theorem beforeUninstall_install (hpre : Complete 10 pre) (hlast : 10 ∉ last) :
    (Counted pre last ∧ 0 ∉ pre ++ last → beforeUninstall (pre ++ last ++ block) = pre) ∧
      (¬ (Counted pre last ∧ 0 ∉ pre ++ last) → beforeUninstall (pre ++ last ++ block) = pre ++ last ++ block) := by
  obtain ⟨h1, h2, h3, h4, -, h6, h7, h8, -, h10, h11, h12, -, h14, h15, h16⟩ := block_matches
  have hglued : grepLine HEADER (last ++ HEADER) = true := grepLine_append last h1
  have hfound := grepQuiet_install hpre hlast loader_found.2
  have hblock : (0 : UInt8) ∉ block := by
    have hline := fun line h => (block_lines line h).2
    simp only [block, List.mem_append, List.mem_cons, not_or]
    simp [hline HEADER (by simp), hline extensionLine (by simp), hline bootstrapLine (by simp), hline FOOTER (by simp)]
  rw [beforeUninstall, if_pos hfound, removeExtensionConfigurationToFile]
  by_cases hcounts : Counted pre last
  · rw [if_pos ((counts_install_iff hpre hlast).mpr hcounts)]
    obtain ⟨hfree, hext, hboot, hfoot⟩ := hcounts
    by_cases htext : 0 ∈ pre ++ last
    · refine ⟨fun h => absurd htext h.2, fun _ => ?_⟩
      have htmp : grepAfter HEADER 3 (pre ++ last ++ block) = [lit "Binary file matches"] :=
        if_pos (List.mem_append_left _ htext)
      rw [htmp, if_neg]
      exact fun h => absurd h.1 (by decide +kernel)
    · refine ⟨fun _ => ?_, fun h => absurd ⟨⟨hfree, hext, hboot, hfoot⟩, htext⟩ h⟩
      have hdrop : (lines 10 pre).dropWhile (fun l => !grepLine HEADER l) = [] :=
        List.dropWhile_eq_nil_iff.mpr fun l hl => by simp [(hfree l hl).1]
      have htmp : grepAfter HEADER 3 (pre ++ last ++ block) = [last ++ HEADER, extensionLine, bootstrapLine, FOOTER] := by
        rw [grepAfter, if_neg (by rw [List.mem_append, not_or]; exact ⟨htext, hblock⟩), lines_install hpre hlast,
          List.dropWhile_append, hdrop]
        simp [hglued]
      have hnumbers : grepNumbers HEADER 1 (lines 10 (pre ++ last ++ block)) = [1 + (lines 10 pre).length] := by
        rw [lines_install hpre hlast, grepNumbers_append fun l hl => (hfree l hl).1]
        simp [grepNumbers, hglued, h2, h3, h4]
      have hformat : grepNumbers EXTENSION 1 [last ++ HEADER, extensionLine, bootstrapLine, FOOTER] = [2] ∧
          grepNumbers BOOTSTRAP 1 [last ++ HEADER, extensionLine, bootstrapLine, FOOTER] = [3] ∧
          grepNumbers FOOTER 1 [last ++ HEADER, extensionLine, bootstrapLine, FOOTER] = [4] := by
        simp [grepNumbers, hext, hboot, hfoot, h6, h7, h8, h10, h11, h12, h14, h15, h16]
      simp only [htmp, if_pos hformat, hnumbers]
      exact deleteLines_install hpre hlast
  · rw [if_neg fun h => hcounts ((counts_install_iff hpre hlast).mp h)]
    exact ⟨fun h => absurd h.1 hcounts, fun _ => rfl⟩

theorem removable_iff (hpre : Complete 10 pre) (hlast : 10 ∉ last) :
    Removable (pre ++ last) ↔ last = [] ∧ Counted pre last ∧ 0 ∉ pre ++ last := by
  obtain ⟨-, -, -, -, h5, -, -, -, h9, -, -, -, h13, -, -, -⟩ := block_matches
  constructor
  · intro hR
    obtain rfl := (complete_append_iff hpre hlast).mp hR.complete
    have hfree := hR.free
    rw [List.append_nil] at hfree
    exact ⟨rfl, ⟨hfree, h5, h9, h13⟩, hR.text⟩
  · rintro ⟨rfl, hcounts, htext⟩
    refine ⟨(complete_append_iff hpre hlast).mpr rfl, htext, ?_⟩
    rw [List.append_nil]
    exact hcounts.1

/-- A name without the letter that `b` begins with is found in `a` or behind it. -/
theorem prefix_drop_append {name a b : Str} {c : UInt8} (hb : b.head? = some c) (hc : c ∉ name) {pos : ℕ}
    (h : name <+: (a ++ b).drop pos) : name <:+: a ∨ a.length ≤ pos := by
  by_cases hpos : a.length ≤ pos
  · exact .inr hpos
  · refine .inl ?_
    have hsuffix : a.drop pos <:+: a := (List.drop_suffix pos a).isInfix
    rw [List.drop_append_of_le_length (by omega)] at h
    rcases List.prefix_or_prefix_of_prefix h (List.prefix_append (a.drop pos) b) with hle | ⟨rest, hrest⟩
    · exact hle.isInfix.trans hsuffix
    · -- the rest of the name begins as `b` does
      subst hrest
      rw [List.prefix_append_right_inj] at h
      cases rest with
      | nil =>
        rw [List.append_nil]
        exact hsuffix
      | cons x rest =>
        obtain ⟨tail, rfl⟩ := h
        obtain rfl := Option.some.inj hb
        exact absurd (List.mem_append_right _ List.mem_cons_self) hc

theorem block_occurs_once (h : ¬ LOADER <:+: ini) : ∃! pos, block <+: (ini ++ block).drop pos := by
  obtain ⟨hlen, hplace, hname, hhead, hfree⟩ := loader_in_block
  refine ⟨ini.length, ?_, fun pos hpos => ?_⟩
  · show block <+: (ini ++ block).drop ini.length
    rw [List.drop_left]
  · have hloader : LOADER <+: (ini ++ block).drop (pos + 128) := by
      rw [← List.drop_drop]
      exact (List.isPrefixOf_iff_prefix.mp hname).trans (hpos.drop 128)
    have hbehind := (prefix_drop_append hhead hfree hloader).resolve_left h
    obtain ⟨k, hk⟩ := Nat.exists_eq_add_of_le hbehind
    rw [hk, List.drop_length_add_append] at hloader
    have hk' := hplace _ ((List.mem_tails _ _).mpr (List.drop_suffix k block)) (List.isPrefixOf_iff_prefix.mpr hloader)
    rw [List.length_drop, hlen] at hk'
    omega

end Block

/-! ## Main results -/

/-- **The round trip**: for a file that does not name the loader, any number of installations and the uninstallation give
the file back exactly when there was no installation or the file is `Removable`; an installed file has the block once. -/
theorem round_trip_iff (ini : Str) (h : ¬ LOADER <:+: ini) (n : ℕ) :
    (beforeUninstall (postInstall^[n] ini) = ini ↔ n = 0 ∨ Removable ini) ∧
      (n ≠ 0 → ∃! pos, block <+: (postInstall^[n] ini).drop pos) := by
  cases n with
  | zero =>
    obtain ⟨p, q, hbre⟩ := bre_loader.2
    refine ⟨⟨fun _ => .inl rfl, fun _ => ?_⟩, fun hn => absurd rfl hn⟩
    show beforeUninstall ini = ini
    rw [beforeUninstall, grepQuiet_eq_false hbre h]
    rfl
  | succ n =>
    rw [postInstall_iterate h n]
    refine ⟨?_, fun _ => block_occurs_once h⟩
    obtain ⟨pre, last, rfl, hpre, hlast⟩ := exists_complete_append 10 ini
    obtain ⟨hremoved, hkept⟩ := beforeUninstall_install hpre hlast
    rw [removable_iff hpre hlast]
    by_cases hcounts : Counted pre last ∧ 0 ∉ pre ++ last
    · rw [hremoved hcounts]
      constructor
      · intro heq
        exact .inr ⟨List.append_cancel_left (heq.symm.trans (List.append_nil pre).symm), hcounts⟩
      · rintro (hn | ⟨rfl, -⟩)
        · cases hn
        · exact (List.append_nil pre).symm
    · rw [hkept hcounts]
      constructor
      · intro heq
        have hlen := congrArg List.length heq
        have hblock := loader_in_block.1
        rw [List.length_append] at hlen
        omega
      · rintro (hn | ⟨-, h⟩)
        · cases hn
        · exact absurd h hcounts

/-- A file that loads nothing. -/
def plainIni : Str := lit "engine = On" ++ [10]

theorem round_trip_iff_plain : beforeUninstall (postInstall^[3] plainIni) = plainIni := by
  have hloader : ¬ LOADER <:+: plainIni := by decide +kernel
  have hfree : ∀ line ∈ lines 10 plainIni, grepLine HEADER line = false ∧ grepLine EXTENSION line = false ∧
      grepLine BOOTSTRAP line = false ∧ grepLine FOOTER line = false := by
    have h1 : HEADER = _ := lit_ofList _
    have h2 : FOOTER = _ := lit_ofList _
    rw [h1, h2]
    decide +kernel
  refine (round_trip_iff plainIni hloader 3).1.mpr (.inr ⟨?_, by decide +kernel, hfree⟩)
  intro c hc
  obtain rfl := Option.some.inj hc
  rfl

/-- **A commented `extension=` line keeps the block in the file.** -/
theorem commented_extension_stays : ¬ LOADER <:+: lit ";extension=bz2" ++ [10] ∧
    beforeUninstall (postInstall (lit ";extension=bz2" ++ [10])) = lit ";extension=bz2" ++ [10] ++ block := by
  have hloader : ¬ LOADER <:+: lit ";extension=bz2" ++ [10] := by decide +kernel
  have hcomplete : Complete 10 (lit ";extension=bz2" ++ [10]) := by
    intro c hc
    obtain rfl := Option.some.inj hc
    rfl
  have hkept := (beforeUninstall_install hcomplete (List.not_mem_nil : (10 : UInt8) ∉ [])).2 fun h =>
    absurd (h.1.1 (lit ";extension=bz2") (by decide +kernel)).2.1 (by decide +kernel)
  have hinstall := postInstall_iterate hloader 0
  rw [List.append_nil] at hkept
  exact ⟨hloader, (congrArg beforeUninstall hinstall).trans hkept⟩

/-- **The last line of a file is deleted with the block** when it lacks its end. -/
theorem unfinished_line_is_deleted : beforeUninstall (postInstall (lit "engine = On")) = [] := by
  have hloader : ¬ LOADER <:+: lit "engine = On" := by decide +kernel
  have hcounts : Counted [] (lit "engine = On") := by
    have h1 : HEADER = _ := lit_ofList _
    have h2 : FOOTER = _ := lit_ofList _
    rw [Counted, h1, h2]
    decide +kernel
  have hremoved := (beforeUninstall_install complete_nil (show 10 ∉ lit "engine = On" by decide +kernel)).1
    ⟨hcounts, by decide +kernel⟩
  exact (congrArg beforeUninstall (postInstall_iterate hloader 0)).trans hremoved

end OtelDistro.Packaging
