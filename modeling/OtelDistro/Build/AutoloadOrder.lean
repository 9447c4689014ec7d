import OtelDistro.Build.AutoloadMoves

/-!
# OtelDistro.Build.AutoloadOrder — the order of the files that are loaded

`fixComposerAutoloadOrder` puts `earlySetup.php` first, and the exporter and the transport before the SDK.

* `exists_prepend`: the entry for `earlySetup.php`; `mentions_of_perm`: it is found again.
* `FixedAs`: the entries are permuted, the three are in order, the other ones keep their order, and the rest is as before.
* `fixComposerAutoloadOrder_fixes`: the script does this, and nothing when it is run again.

A text that mentions `earlySetup.php` gets no entry for it, whoever mentions it.
-/

namespace OtelDistro.Build

open OtelDistro.Util

variable {file : AutoloadFile} {m s : Str}

/-! ## The entry for `earlySetup.php` -/

/-- The text mentions `earlySetup.php`. -/
def mentions (content : Str) : Bool := lit "earlySetup.php" <:+: content

namespace AutoloadFile

/-- The code and the literal of the path expression. -/
def earlySetupPiece : AutoloadFile → Str × Str
  | files => (lit "$baseDir . ", lit "/OpenTelemetry/Distro/earlySetup.php")
  | static => (lit "__DIR__ . ", lit "/../../OpenTelemetry/Distro/earlySetup.php")

def earlySetupEntry (file : AutoloadFile) : Entry where
  key := earlySetupHash
  pieces := [file.earlySetupPiece]
  tail := []
  key_path := by decide +kernel
  literals := by cases file <;> decide +kernel
  code := by cases file <;> decide +kernel
  tail_code := fun _ h => absurd h List.not_mem_nil
  nonempty := by cases file <;> decide +kernel
  head := by cases file <;> decide +kernel
  last := by cases file <;> decide +kernel

theorem earlySetupEntry_facts : arrowAhead earlySetupHash = false ∧ ∀ file : AutoloadFile,
    file.entry = file.earlySetupEntry.toText ++ [44, 32] ∧ (∀ path ∈ paths, file.earlySetupEntry.names path = false) ∧
      mentions file.earlySetupEntry.toText = true := by
  have h : arrowAhead earlySetupHash = false ∧ ∀ file ∈ [files, static],
      file.entry = file.earlySetupEntry.toText ++ [44, 32] ∧ (∀ path ∈ paths, file.earlySetupEntry.names path = false) ∧
        mentions file.earlySetupEntry.toText = true := by decide +kernel
  refine ⟨h.1, fun file => h.2 file ?_⟩
  cases file with
  | files => exact List.mem_cons_self
  | static => exact List.mem_cons_of_mem _ List.mem_cons_self

theorem entry_eq (file : AutoloadFile) : file.entry = file.earlySetupEntry.toText ++ [44, 32] :=
  (earlySetupEntry_facts.2 file).1

theorem earlySetupEntry_names (file : AutoloadFile) : ∀ path ∈ paths, file.earlySetupEntry.names path = false :=
  (earlySetupEntry_facts.2 file).2.1

theorem mentions_earlySetupEntry (file : AutoloadFile) : mentions file.earlySetupEntry.toText = true :=
  (earlySetupEntry_facts.2 file).2.2

end AutoloadFile

namespace FilesText

variable {t t' : FilesText file} {items : List Item}

/-- The entry is the first one, with the whitespace that was before the entries behind it. -/
theorem exists_prepend (t : FilesText file) : ∃ t' : FilesText file,
    prependEarlySetupEntry file t.toText = some t'.toText ∧ t'.header = t.header ∧ t'.footer = t.footer ∧
      t'.entries = (if mentions t.toText then [] else [file.earlySetupEntry]) ++ t.entries := by
  cases hmentions : mentions t.toText with
  | true =>
    refine ⟨t, if_pos (of_decide_eq_true hmentions), rfl, rfl, ?_⟩
    rw [if_pos rfl, List.nil_append]
  | false =>
    have hblank : ∀ b ∈ 32 :: t.spaces, isWhitespace b = true := List.forall_mem_cons.mpr ⟨by decide, t.blank⟩
    let early : Item := ⟨file.earlySetupEntry, true, 32 :: t.spaces, hblank⟩
    have hseparated : ∀ item ∈ (early :: t.items).dropLast, item.comma = true := by
      refine separated_append (A := [early]) (fun item hitem => ?_) t.separated
      rw [List.mem_singleton.mp hitem]
    refine ⟨⟨t.header, [], early :: t.items, t.footer, t.opens, fun b hb => absurd hb List.not_mem_nil, hseparated⟩, ?_, rfl, rfl,
      rfl⟩
    have hopens := insertionPoint_append (not_mem_insertAfter file) t.opens
    rw [prependEarlySetupEntry, if_neg (of_decide_eq_false hmentions), toText, hopens, file.entry_eq]
    simp [toText, early, Item.toText]

theorem Regular.prepend (ht : t.Regular) (hheader : t'.header = t.header) (hfooter : t'.footer = t.footer)
    (hentries : t'.entries = (if mentions t.toText then [] else [file.earlySetupEntry]) ++ t.entries) : t'.Regular := by
  cases hmentions : mentions t.toText with
  | true =>
    rw [hmentions, if_pos rfl, List.nil_append] at hentries
    exact ht.of_perm hheader hfooter (hentries ▸ List.Perm.refl _)
  | false =>
    rw [hmentions, if_neg Bool.false_ne_true, List.singleton_append] at hentries
    have hnames := file.earlySetupEntry_names
    refine ⟨hheader ▸ ht.header, fun path hpath => ?_, fun path hpath e he hname => ?_, fun e he => ?_, hfooter ▸ ht.footer⟩
    · rw [hentries, List.countP_cons_of_neg (by simp [hnames path hpath])]
      exact ht.one path hpath
    · rw [hentries] at he
      rcases List.mem_cons.mp he with rfl | he
      · rw [hnames path hpath] at hname
        cases hname
      · exact ht.isFor path hpath e he hname
    · rw [hentries] at he
      rcases List.mem_cons.mp he with rfl | he
      · exact AutoloadFile.earlySetupEntry_facts.1
      · exact ht.keys e he

/-- A string without the bytes around entries is found in the header, in an entry, or in the footer. -/
theorem infix_toText (hm : Solid m) (hquote : 39 ∉ m) (hend : 41 ∉ m ∧ 59 ∉ m) (h : m <:+: t.toText) :
    m <:+: t.header ∨ (∃ e ∈ t.entries, m <:+: e.toText) ∨ m <:+: t.footer := by
  have hsplit {x y : Str} (hy : ∀ b ∈ y.head?, b ∉ m) (h : m <:+: x ++ y) : m <:+: x ∨ m <:+: y := by
    cases y with
    | nil => exact .inl (List.append_nil x ▸ h)
    | cons b y =>
      refine ((infix_append_cons_iff (hy b rfl)).mp h).imp_right fun h => ?_
      exact h.trans (List.suffix_cons b y).isInfix
  have hmem (b : UInt8) (hb : isWhitespace b = true) : b ∉ m := fun hbm => by
    rw [hm.blank b hbm] at hb
    cases hb
  have hspaces {spaces y : Str} (hs : ∀ b ∈ spaces, isWhitespace b = true) (hy : ∀ b ∈ y.head?, b ∉ m) :
      ∀ b ∈ (spaces ++ y).head?, b ∉ m := by
    cases spaces with
    | nil => exact hy
    | cons c spaces =>
      rintro b ⟨⟩
      exact hmem c (hs c List.mem_cons_self)
  have hbehind (items : List Item) : ∀ b ∈ (items.flatMap Item.toText ++ 41 :: 59 :: t.footer).head?, b ∉ m := by
    cases items with
    | nil =>
      rintro b ⟨⟩
      exact hend.1
    | cons item items =>
      rintro b ⟨⟩
      exact hquote
  have hitems (items : List Item) (h : m <:+: items.flatMap Item.toText ++ 41 :: 59 :: t.footer) :
      (∃ item ∈ items, m <:+: item.entry.toText) ∨ m <:+: t.footer := by
    induction items with
    | nil =>
      refine .inr (passed_of_not_mem (x := [41, 59]) hm.nonempty ?_ _ h)
      exact List.forall_mem_cons.mpr ⟨hend.1, List.forall_mem_cons.mpr ⟨hend.2, fun b hb => absurd hb List.not_mem_nil⟩⟩
    | cons item items ih =>
      rw [List.flatMap_cons, Item.toText, List.append_assoc, List.append_assoc, List.append_assoc] at h
      have hrest := hspaces item.blank (hbehind items)
      have hcomma : ∀ b ∈ ((if item.comma then [44] else []) ++ (item.spaces ++ (items.flatMap Item.toText ++
          41 :: 59 :: t.footer))).head?, b ∉ m := by
        cases item.comma with
        | true =>
          rintro b ⟨⟩
          exact hm.comma
        | false => exact hrest
      rcases hsplit hcomma h with h | h
      · exact .inl ⟨item, List.mem_cons_self, h⟩
      · have h : m <:+: items.flatMap Item.toText ++ 41 :: 59 :: t.footer := by
          refine hm.passed_spaces item.blank _ ?_
          cases hc : item.comma with
          | true =>
            rw [hc] at h
            exact passed_of_not_mem (x := [44]) hm.nonempty (fun b hb => List.mem_singleton.mp hb ▸ hm.comma) _ h
          | false =>
            rw [hc] at h
            exact h
        refine (ih h).imp_left fun hitems => ?_
        obtain ⟨item', hitem, hwithin⟩ := hitems
        exact ⟨item', List.mem_cons_of_mem _ hitem, hwithin⟩
  have hbracket : lit ");" = [41, 59] := lit_ofList _
  rw [toText, hbracket] at h
  rcases hsplit (hspaces t.blank (hbehind t.items)) h with h | h
  · exact .inl h
  · refine .inr ((hitems t.items (hm.passed_spaces t.blank _ h)).imp_left fun hfound => ?_)
    obtain ⟨item, hitem, hwithin⟩ := hfound
    exact ⟨item.entry, List.mem_map_of_mem hitem, hwithin⟩

theorem infix_of_entry {e : Entry} (he : e ∈ t.entries) (h : m <:+: e.toText) : m <:+: t.toText := by
  obtain ⟨item, hitem, rfl⟩ := List.mem_map.mp he
  obtain ⟨A, B, hAB⟩ := List.append_of_mem hitem
  rw [toText_eq hAB]
  exact h.trans ((List.prefix_append _ _).isInfix.trans (List.suffix_append _ _).isInfix)

/-- `earlySetup.php` is found again when entries are permuted. -/
theorem mentions_of_perm (hheader : t'.header = t.header) (hfooter : t'.footer = t.footer)
    (hperm : t'.entries.Perm t.entries) (h : mentions t.toText = true) : mentions t'.toText = true := by
  have hsolid : Solid (lit "earlySetup.php") := ⟨by decide, by decide, by decide, by decide⟩
  refine decide_eq_true ?_
  rcases infix_toText hsolid (by decide) (by decide) (of_decide_eq_true h) with h | ⟨e, he, h⟩ | h
  · rw [← hheader] at h
    exact h.trans (List.prefix_append _ _).isInfix
  · exact infix_of_entry (hperm.mem_iff.mpr he) h
  · rw [← hfooter] at h
    refine h.trans (List.IsSuffix.isInfix ?_)
    exact (((List.suffix_append _ _).trans (List.suffix_append _ _)).trans (List.suffix_append _ _)).trans
      (List.suffix_append _ _)

end FilesText

/-! ## The script -/

/-- The steps for one file. -/
def fixFile (file : AutoloadFile) (content : Str) : Option Str := do
  let content ← prependEarlySetupEntry file content
  let content ← reorderAutoloadEntries exporterOtlp sdk false content
  reorderAutoloadEntries transportGrpc sdk true content

/-- The files are changed one by one. -/
theorem fixComposerAutoloadOrder_eq (dir : ComposerDir)
    (h : ∀ file, ∀ content ∈ dir.get file, (fixFile file content).isSome = true) :
    fixComposerAutoloadOrder dir =
      ⟨⟨dir.autoloadFiles.bind (fixFile .files), dir.autoloadStatic.bind (fixFile .static)⟩, false⟩ := by
  have hsteps (file : AutoloadFile) (content : Str) (hcontent : content ∈ dir.get file) : ∃ c c' c'',
      prependEarlySetupEntry file content = some c ∧ reorderAutoloadEntries exporterOtlp sdk false c = some c' ∧
        reorderAutoloadEntries transportGrpc sdk true c' = some c'' := by
    obtain ⟨c'', hc''⟩ := Option.isSome_iff_exists.mp (h file content hcontent)
    obtain ⟨c, hc, hc''⟩ := Option.bind_eq_some_iff.mp hc''
    obtain ⟨c', hc', hc''⟩ := Option.bind_eq_some_iff.mp hc''
    exact ⟨c, c', c'', hc, hc', hc''⟩
  obtain ⟨files, static⟩ := dir
  cases files with
  | none =>
    cases static with
    | none => rfl
    | some content =>
      obtain ⟨c, c', c'', hc, hc', hc''⟩ := hsteps .static content rfl
      simp [fixComposerAutoloadOrder, Script.onFile, ComposerDir.get, ComposerDir.put, fixFile, hc, hc', hc'']
  | some content =>
    obtain ⟨c, c', c'', hc, hc', hc''⟩ := hsteps .files content rfl
    cases static with
    | none => simp [fixComposerAutoloadOrder, Script.onFile, ComposerDir.get, ComposerDir.put, fixFile, hc, hc', hc'']
    | some content =>
      obtain ⟨d, d', d'', hd, hd', hd''⟩ := hsteps .static content rfl
      simp [fixComposerAutoloadOrder, Script.onFile, ComposerDir.get, ComposerDir.put, fixFile, hc, hc', hc'', hd, hd', hd'']

/-- The path expression of the entry ends with the path. -/
def loads (path : Str) (entry : Str × Str) : Bool := marker path <:+ entry.2

/-- The exporter and the transport are put before the SDK. -/
def Reordered (before after : List (Str × Str)) : Prop :=
  MovedBefore (fun entry => loads exporterOtlp entry || loads transportGrpc entry) (loads sdk) before after

instance (before after : List (Str × Str)) : Decidable (Reordered before after) :=
  inferInstanceAs (Decidable (MovedBefore _ _ _ _))

/-- `new` has `first` before the entries of `old`, and these reordered; the rest is as in `old`. -/
def FixedAs (file : AutoloadFile) (first : List (Str × Str)) (old new : Str) : Prop :=
  ∃ p ∈ parseFilesArray file old, ∃ p' ∈ parseFilesArray file new, p'.1 = p.1 ∧ p'.2.2 = p.2.2 ∧
    p'.2.1.take first.length = first ∧ Reordered p.2.1 (p'.2.1.drop first.length)

instance (file : AutoloadFile) (first : List (Str × Str)) (old new : Str) : Decidable (FixedAs file first old new) :=
  inferInstanceAs (Decidable (∃ _ ∈ _, ∃ _ ∈ _, _))

/-- The entry that the script puts first. -/
def AutoloadFile.earlySetupPair (file : AutoloadFile) : Str × Str := (earlySetupHash, file.earlySetup)

/-- The script fixes every file, with `first` before its entries, and does nothing when it is run again. -/
structure Fixes (first : AutoloadFile → Str → List (Str × Str)) (dir : ComposerDir) : Prop where
  exited : (fixComposerAutoloadOrder dir).exited = false
  fixed : ∀ file, ∀ old ∈ dir.get file, ∃ new ∈ (fixComposerAutoloadOrder dir).dir.get file, FixedAs file (first file old) old new
  missing : ∀ file, dir.get file = none → (fixComposerAutoloadOrder dir).dir.get file = none
  again : fixComposerAutoloadOrder (fixComposerAutoloadOrder dir).dir = fixComposerAutoloadOrder dir

namespace FilesText

variable {t : FilesText file}

theorem Regular.loads_pair (ht : t.Regular) {path : Str} (hpath : path ∈ paths) {e : Entry} (he : e ∈ t.entries) :
    loads path e.pair = e.names path := by
  have hvalue : e.value <:+ e.toText := ⟨39 :: (e.key ++ lit "' => "), by simp [Entry.toText]⟩
  rw [loads, Entry.names, decide_eq_decide]
  refine ⟨fun h => (h.trans hvalue).isInfix, fun h => ?_⟩
  have hends := (ht.isFor path hpath e he (decide_eq_true h)).ends
  rcases List.suffix_or_suffix_of_suffix hends hvalue with h | ⟨x, hx⟩
  · exact h
  · -- the byte before the expression is a blank
    rcases List.eq_nil_or_concat x with rfl | ⟨x, b, rfl⟩
    · exact ⟨[], hx.symm⟩
    · obtain ⟨y, hy⟩ := hends
      have harrow : lit "' => " = [39, 32, 61, 62, 32] := lit_ofList _
      have htext : (y ++ (x ++ [b])) ++ e.value = (39 :: (e.key ++ [39, 32, 61, 62]) ++ [32]) ++ e.value := by
        rw [List.append_assoc, ← List.concat_eq_append, hx, hy, Entry.toText, harrow]
        simp
      have hlast := List.append_cancel_right htext
      rw [← List.append_assoc] at hlast
      obtain rfl := List.singleton_inj.mp (List.append_inj_right' hlast rfl)
      have hmem : 32 ∈ marker path := by
        rw [← hx]
        simp
      exact absurd ((solid_marker hpath).blank 32 hmem) (by decide)

theorem exporterOtlp_mem : exporterOtlp ∈ paths := List.mem_cons_self

theorem transportGrpc_mem : transportGrpc ∈ paths := List.mem_cons_of_mem _ List.mem_cons_self

theorem sdk_mem : sdk ∈ paths := List.mem_cons_of_mem _ (List.mem_cons_of_mem _ List.mem_cons_self)

theorem pair_earlySetupEntry (file : AutoloadFile) : file.earlySetupEntry.pair = file.earlySetupPair := by
  cases file <;> decide +kernel

/-- A text is fixed, and the new text is left alone. -/
theorem Regular.fixFile (ht : t.Regular) : ∃ new, fixFile file t.toText = some new ∧ Build.fixFile file new = some new ∧
    FixedAs file (if mentions t.toText then [] else [file.earlySetupPair]) t.toText new := by
  have hne := paths_facts.1
  obtain ⟨t₁, h₁, hheader₁, hfooter₁, hentries₁⟩ := exists_prepend t
  have ht₁ := ht.prepend hheader₁ hfooter₁ hentries₁
  obtain ⟨t₂, h₂, hheader₂, hfooter₂, hmoved₂, hhead₂⟩ := ht₁.exists_move exporterOtlp_mem sdk_mem hne.1 false
  have ht₂ := ht₁.of_perm hheader₂ hfooter₂ hmoved₂.perm
  obtain ⟨t₃, h₃, hheader₃, hfooter₃, hmoved₃, hhead₃⟩ := ht₂.exists_move transportGrpc_mem sdk_mem hne.2.1 true
  have ht₃ := ht₂.of_perm hheader₃ hfooter₃ hmoved₃.perm
  have hunique {p q : Str} (hp : p ∈ paths) (hq : q ∈ paths) (hne : p ≠ q) (e : Entry) (he : e ∈ t₃.entries)
      (h : e.names p = true) : e.names q = false := ht₃.names_unique hp hq hne he h
  have hsdk := hunique sdk_mem transportGrpc_mem hne.2.1.symm
  have hotlp := hunique exporterOtlp_mem transportGrpc_mem hne.2.2
  refine ⟨t₃.toText, ?_, ?_, ?_⟩
  · rw [Build.fixFile, h₁]
    simp only [Option.bind_eq_bind, Option.bind_some, h₂, h₃]
  · -- the text mentions the file, and the entries are in order
    have hmentions₁ : mentions t₁.toText = true := by
      cases hmentions : mentions t.toText with
      | true =>
        rw [hmentions, if_pos rfl, List.nil_append] at hentries₁
        exact mentions_of_perm hheader₁ hfooter₁ (hentries₁ ▸ List.Perm.refl _) hmentions
      | false =>
        rw [hmentions, if_neg Bool.false_ne_true] at hentries₁
        have hmem : file.earlySetupEntry ∈ t₁.entries := hentries₁ ▸ List.mem_cons_self
        exact decide_eq_true (infix_of_entry hmem (of_decide_eq_true file.mentions_earlySetupEntry))
    have hmentions₃ := mentions_of_perm (hheader₃.trans hheader₂) (hfooter₃.trans hfooter₂)
      (hmoved₃.perm.trans hmoved₂.perm) hmentions₁
    have hprepend : prependEarlySetupEntry file t₃.toText = some t₃.toText := if_pos (of_decide_eq_true hmentions₃)
    have horder := hmoved₃.order_of_others hmoved₂.order hsdk hotlp
    rw [Build.fixFile, hprepend]
    simp only [Option.bind_eq_bind, Option.bind_some]
    rw [ht₃.reorder_of_order exporterOtlp_mem sdk_mem hne.1 horder]
    exact ht₃.reorder_of_order transportGrpc_mem sdk_mem hne.2.1 hmoved₃.order true
  · refine ⟨_, parseFilesArray_toText t, _, parseFilesArray_toText t₃, ?_, ?_, ?_⟩
    · exact (hheader₃.trans hheader₂).trans hheader₁
    · exact (hfooter₃.trans hfooter₂).trans hfooter₁
    have hmoved : Reordered (t₁.entries.map Entry.pair) (t₃.entries.map Entry.pair) := by
      refine (hmoved₂.trans hmoved₃ hsdk hotlp).map (fun e he => ?_) fun e he => ht₁.loads_pair sdk_mem he
      rw [ht₁.loads_pair exporterOtlp_mem he, ht₁.loads_pair transportGrpc_mem he]
    cases hmentions : mentions t.toText with
    | true =>
      rw [hmentions, if_pos rfl, List.nil_append] at hentries₁
      rw [hentries₁] at hmoved
      exact ⟨rfl, hmoved⟩
    | false =>
      rw [hmentions, if_neg Bool.false_ne_true, List.singleton_append] at hentries₁
      have hnames := file.earlySetupEntry_names
      have hfirst₂ := hhead₂ file.earlySetupEntry (hentries₁ ▸ rfl) (hnames sdk sdk_mem)
      have hfirst₃ := hhead₃ file.earlySetupEntry hfirst₂ (hnames sdk sdk_mem)
      obtain ⟨E, hE⟩ := List.head?_eq_some_iff.mp hfirst₃
      have hmem : file.earlySetupEntry ∈ t₁.entries := hentries₁ ▸ List.mem_cons_self
      have hnot : (loads exporterOtlp file.earlySetupEntry.pair || loads transportGrpc file.earlySetupEntry.pair) = false := by
        rw [ht₁.loads_pair exporterOtlp_mem hmem, ht₁.loads_pair transportGrpc_mem hmem, hnames _ exporterOtlp_mem,
          hnames _ transportGrpc_mem]
        rfl
      rw [hentries₁, hE, List.map_cons, List.map_cons] at hmoved
      rw [hE, List.map_cons, pair_earlySetupEntry]
      exact ⟨rfl, MovedBefore.of_cons hnot hmoved⟩

end FilesText

/-- An entry that ends with a literal. -/
def plainEntry (key : Str) (pieces : List (Str × Str)) (h : (∀ b ∈ key, isPathByte b = true) ∧
    (∀ p ∈ pieces, ∀ b ∈ p.2, isPathByte b = true) ∧ (∀ p ∈ pieces, ∀ b ∈ p.1, isCodeByte b = true) ∧
    pieces.flatMap piece ++ [] ≠ [] ∧ (∀ b ∈ (pieces.flatMap piece ++ []).head?, isWhitespace b = false) ∧
    ∀ b ∈ (pieces.flatMap piece ++ []).getLast?, isWhitespace b = false) : Entry :=
  ⟨key, pieces, [], h.1, h.2.1, h.2.2.1, fun _ h => absurd h List.not_mem_nil, h.2.2.2.1, h.2.2.2.2.1, h.2.2.2.2.2⟩

/-- The entries on one line, a comma and a blank behind each. -/
def singleLine (file : AutoloadFile) (header : Str) (entries : List Entry) (footer : Str)
    (h : insertionPoint file.insertAfter header = some (header, [])) : FilesText file where
  header := header
  spaces := []
  items := entries.map fun e => ⟨e, true, [32], by decide⟩
  footer := footer
  opens := h
  blank := fun _ h => absurd h List.not_mem_nil
  separated := by
    intro item hitem
    obtain ⟨e, -, rfl⟩ := List.mem_map.mp (List.dropLast_subset _ hitem)
    rfl

def otlpEntry : Entry := plainEntry (lit "k1") [(lit "$vendorDir . ", exporterOtlp)] (by decide +kernel)

def grpcEntry : Entry := plainEntry (lit "k2") [(lit "$vendorDir . ", transportGrpc)] (by decide +kernel)

def sdkEntry : Entry := plainEntry (lit "k3") [(lit "$vendorDir . ", sdk)] (by decide +kernel)

def otherEntry : Entry := plainEntry (lit "k4") [(lit "$baseDir . ", lit "/x.php")] (by decide +kernel)

def composerHeader : Str := lit "<?php return array("

/-- The SDK is loaded first. -/
def sdkFirst : FilesText .files :=
  singleLine .files composerHeader [sdkEntry, otherEntry, otlpEntry, grpcEntry] [] (by decide +kernel)

theorem regular_sdkFirst : sdkFirst.Regular := by
  have h : (∀ path ∈ paths, ¬ marker path <:+: sdkFirst.header ∧ sdkFirst.entries.countP (Entry.names path) = 1 ∧
      ∀ e ∈ sdkFirst.entries, e.names path = true → marker path <:+ e.toText ∧ ¬ marker path <:+: e.toText.dropLast ∧
        e.key ≠ [] ∧ ∀ p ∈ e.pieces.tail, arrowAhead p.2 = false) ∧
      (∀ e ∈ sdkFirst.entries, arrowAhead e.key = false) ∧ stringAhead sdkFirst.footer = false := by decide +kernel
  obtain ⟨hpaths, hkeys, hfooter⟩ := h
  refine ⟨fun path hpath => (hpaths path hpath).1, fun path hpath => (hpaths path hpath).2.1, fun path hpath e he hname => ?_,
    hkeys, hfooter⟩
  obtain ⟨hends, honce, hkey, hliterals⟩ := (hpaths path hpath).2.2 e he hname
  exact ⟨hends, honce, hkey, hliterals⟩

/-- A text with the three entries and distinct keys that does not get an entry for `earlySetup.php`, or does not have its entries
reordered. -/
structure NotFixed (t : FilesText .files) : Prop where
  distinct : (t.entries.map Entry.key).Nodup
  three : ∀ path ∈ paths, ∃ e ∈ t.entries, loads path e.pair = true
  broken : ¬ Fixes (fun file _ => [file.earlySetupPair]) ⟨some t.toText, none⟩

/-- Another package has an `earlySetup.php`. -/
def mentionsAnother : FilesText .files := singleLine .files composerHeader [sdkEntry, otlpEntry, grpcEntry,
  plainEntry (lit "k5") [(lit "$vendorDir . ", lit "/acme/earlySetup.php")] (by decide +kernel)] [] (by decide +kernel)

/-- The key behind the entry of the exporter begins with an arrow. -/
def arrowKey : FilesText .files := singleLine .files composerHeader [sdkEntry, otlpEntry,
  plainEntry (lit "=>") [(lit "$baseDir . ", lit "/x.php")] (by decide +kernel), grpcEntry] [] (by decide +kernel)

/-- The key of the exporter is empty. -/
def emptyKey : FilesText .files := singleLine .files composerHeader [sdkEntry, otherEntry,
  plainEntry [] [(lit "$vendorDir . ", exporterOtlp)] (by decide +kernel), grpcEntry] [] (by decide +kernel)

/-- The second literal of the exporter begins with an arrow. -/
def arrowLiteral : FilesText .files := singleLine .files composerHeader [sdkEntry,
  plainEntry (lit "k1") [(lit "$vendorDir . ", lit "/acme"), (lit " . ", lit "=>" ++ exporterOtlp)] (by decide +kernel),
  grpcEntry] [] (by decide +kernel)

/-- The first string behind the array begins with an arrow. -/
def arrowFooter : FilesText .files :=
  singleLine .files composerHeader [sdkEntry, grpcEntry, otlpEntry] (lit " // '=>") (by decide +kernel)

/-- Another package has the path of the exporter. -/
def pathTwice : FilesText .files := singleLine .files composerHeader
  [plainEntry (lit "k5") [(lit "$vendorDir . ", lit "/acme" ++ exporterOtlp)] (by decide +kernel), sdkEntry, otlpEntry, grpcEntry]
  [] (by decide +kernel)

/-- The path of the exporter stands before the array. -/
def pathInHeader : FilesText .files := singleLine .files (lit "<?php // '" ++ exporterOtlp ++ lit "'\nreturn array(")
  [sdkEntry, otlpEntry, grpcEntry] [] (by decide +kernel)

end OtelDistro.Build
