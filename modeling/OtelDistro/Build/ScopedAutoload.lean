import OtelDistro.Bytes
import OtelDistro.Lib.KeyedStore

/-!
# OtelDistro.Build.ScopedAutoload — the autoloader of the scoped vendor directory

php-scoper moves the classes of the vendor directory under a namespace of the distribution, those of excluded namespaces not.
Composer's maps still have the old names, and `fix_scoped_composer_autoload.php` rewrites them.

* `ScoperConfig`: the configuration of php-scoper; `scopedName` is the name that a class has afterwards.
* `Vendor`: the two maps, and the classes that the files declare.
* `rewrite`: the script; `ClassLoader`: Composer's class loader, which is not part of the repository.
* `Agrees`: a class name leads to a file that declares it, and every class is still found.
* `agrees_iff_matches`: when the script and php-scoper agree on what is excluded, and no unscoped class name is in the class map.
-/

namespace OtelDistro.Build

open Lib

/-! ## php-scoper -/

def separator : Str := lit "\\"

structure ScoperConfig where
  namespacePrefix : Str
  excludeNamespaces : List Str

/-- An entry between tildes is a regex. -/
def isRegex (entry : Str) : Bool :=
  2 ≤ entry.length && entry.head? = (lit "~").head? && entry.getLast? = (lit "~").getLast?

/-- Everything before the last separator. -/
def namespaceOf (className : Str) : Str := ((className.reverse.dropWhile fun b => b ≠ 92).drop 1).reverse

namespace ScoperConfig

def scopedPrefix (cfg : ScoperConfig) : Str := cfg.namespacePrefix ++ separator

/-- A regex entry excludes what it matches (`pregMatch`), another entry what contains it. -/
def excludes (cfg : ScoperConfig) (pregMatch : Str → Str → Bool) (ns : Str) : Bool :=
  cfg.excludeNamespaces.any fun entry => if isRegex entry then pregMatch entry ns else decide (entry <:+: ns)

def scopedName (cfg : ScoperConfig) (pregMatch : Str → Str → Bool) (className : Str) : Str :=
  if cfg.excludes pregMatch (namespaceOf className) then className else cfg.scopedPrefix ++ className

/-- A class or namespace without the prefix. -/
def unscope (cfg : ScoperConfig) (name : Str) : Str :=
  if cfg.scopedPrefix <+: name then name.drop cfg.scopedPrefix.length else name

/-! ## The script -/

def excludedPsr4Prefixes (cfg : ScoperConfig) : List Str := cfg.excludeNamespaces.map fun ns => ns ++ separator

def isExcluded (cfg : ScoperConfig) (ns : Str) : Bool := cfg.excludedPsr4Prefixes.any fun excl => decide (excl <+: ns)

/-- The namespace that a PSR-4 prefix is rewritten to. -/
def newNamespace (cfg : ScoperConfig) (ns : Str) : Str :=
  if cfg.isExcluded ns then ns else if cfg.scopedPrefix <+: ns then ns else cfg.scopedPrefix ++ ns

/-- The entries of the class map that an entry is rewritten to. -/
def newClassNames (cfg : ScoperConfig) (className : Str) : List Str :=
  className :: if 92 ∈ className ∧ ¬ cfg.scopedPrefix <+: className then [cfg.scopedPrefix ++ className] else []

end ScoperConfig

/-- `ComposerStaticInit`, as it is before and after the rewrite. -/
structure AutoloadStatic (D F : Type) where
  prefixLengthsPsr4 : KMap UInt8 (KMap Str ℕ)
  prefixDirsPsr4 : KMap Str (List D)
  classMap : KMap Str F

/-- The vendor directory after php-scoper.  `file d r` is the file in `d` for the rest `r` of a class name; `classes` are the
classes of a file, by their names before.  The keys of the maps may have the prefix already. -/
structure Vendor (cfg : ScoperConfig) (D F : Type) where
  classMap : List (Str × F)
  prefixDirsPsr4 : List (Str × List D)
  file : D → Str → Option F
  classes : F → List Str
  unscoped : ∀ f, ∀ c ∈ classes f, ¬ cfg.scopedPrefix <+: c
  namespaces : ∀ e ∈ prefixDirsPsr4, ∃ ns, e.1 = ns ++ separator
  classMap_declared : ∀ e ∈ classMap, cfg.unscope e.1 ∈ classes e.2
  psr4_declared : ∀ e ∈ prefixDirsPsr4, ∀ d ∈ e.2, ∀ r f, file d r = some f → cfg.unscope e.1 ++ r ∈ classes f

section

variable {cfg : ScoperConfig} {D F : Type}

def newPrefixDirsPsr4 (v : Vendor cfg D F) : KMap Str (List D) :=
  v.prefixDirsPsr4.foldl (fun m e => m.insert (cfg.newNamespace e.1) e.2) ∅

def newPrefixLengthsPsr4 (v : Vendor cfg D F) : KMap UInt8 (KMap Str ℕ) :=
  v.prefixDirsPsr4.foldl (fun m e =>
    let ns := cfg.newNamespace e.1
    m.insert (ns.headD 0) (((m.lookup (ns.headD 0)).getD ∅).insert ns ns.length)) ∅

def newClassMap (v : Vendor cfg D F) : KMap Str F :=
  v.classMap.foldl (fun m e => (cfg.newClassNames e.1).foldl (fun m className => m.insert className e.2) m) ∅

def rewrite (v : Vendor cfg D F) : AutoloadStatic D F := ⟨newPrefixLengthsPsr4 v, newPrefixDirsPsr4 v, newClassMap v⟩

/-- Composer's class loader: a class is looked up in the class map, then in the directories of the PSR-4 prefixes it starts
with. -/
structure ClassLoader (file : D → Str → Option F) where
  findFile : AutoloadStatic D F → Str → Option F
  classMap_first : ∀ s c f, s.classMap.lookup c = some f → findFile s c = some f
  psr4_sound : ∀ s c f, s.classMap.lookup c = none → findFile s c = some f →
    ∃ ns dirs d r, s.prefixDirsPsr4.lookup ns = some dirs ∧ d ∈ dirs ∧ c = ns ++ r ∧ file d r = some f
  psr4_complete : ∀ s ns dirs d r, s.prefixDirsPsr4.lookup ns = some dirs → d ∈ dirs → (file d r).isSome →
    (∃ ns', ns = ns' ++ separator) → (s.prefixLengthsPsr4.lookup (ns.headD 0)).isSome → (findFile s (ns ++ r)).isSome

/-! ## Agreement -/

namespace Vendor

/-- The names that a file declares after php-scoper. -/
def declares (v : Vendor cfg D F) (pregMatch : Str → Str → Bool) (f : F) : List Str :=
  (v.classes f).map (cfg.scopedName pregMatch)

/-- A file of the directories of `e` has the class. -/
def InDirs (v : Vendor cfg D F) (e : Str × List D) (c : Str) : Prop :=
  ∃ d ∈ e.2, ∃ r, (v.file d r).isSome ∧ c = cfg.unscope e.1 ++ r

/-- The maps lead to a file with the class. -/
def Provides (v : Vendor cfg D F) (c : Str) : Prop :=
  (∃ e ∈ v.classMap, cfg.unscope e.1 = c) ∨ ∃ e ∈ v.prefixDirsPsr4, v.InDirs e c

/-- No later prefix is rewritten to the same one. -/
def Kept (v : Vendor cfg D F) (e : Str × List D) : Prop :=
  ∃ before after, v.prefixDirsPsr4 = before ++ e :: after ∧ ∀ e' ∈ after, cfg.newNamespace e'.1 ≠ cfg.newNamespace e.1

end Vendor

/-- A class name leads to a file that declares it, and every class is still found. -/
structure Agrees (v : Vendor cfg D F) (pregMatch : Str → Str → Bool) (loader : ClassLoader v.file) : Prop where
  declared : ∀ c f, loader.findFile (rewrite v) c = some f → c ∈ v.declares pregMatch f
  resolved : ∀ c, v.Provides c → (loader.findFile (rewrite v) (cfg.scopedName pregMatch c)).isSome

/-- In the class map: a scoped name of a class that is not excluded, or a name without namespace that is. -/
def ScoperConfig.ClassMapOk (cfg : ScoperConfig) (pregMatch : Str → Str → Bool) (className : Str) : Prop :=
  cfg.scopedPrefix <+: className ∧ cfg.excludes pregMatch (namespaceOf (cfg.unscope className)) = false ∨
    ¬ cfg.scopedPrefix <+: className ∧ 92 ∉ className ∧ cfg.excludes pregMatch (namespaceOf className) = true

/-- For a class under a PSR-4 prefix the script and php-scoper have one answer. -/
def ScoperConfig.Psr4Ok (cfg : ScoperConfig) (pregMatch : Str → Str → Bool) (ns r : Str) : Prop :=
  if cfg.scopedPrefix <+: ns then cfg.excludes pregMatch (namespaceOf (cfg.unscope ns ++ r)) = false
  else cfg.isExcluded ns = cfg.excludes pregMatch (namespaceOf (ns ++ r))

/-- The last condition is about two prefixes that become one: the directories of the first are lost. -/
structure Matches (v : Vendor cfg D F) (pregMatch : Str → Str → Bool) : Prop where
  classMap : ∀ e ∈ v.classMap, cfg.ClassMapOk pregMatch e.1
  psr4 : ∀ e, v.Kept e → ∀ d ∈ e.2, ∀ r, (v.file d r).isSome → cfg.Psr4Ok pregMatch e.1 r
  lost : ∀ c, v.Provides c → (∃ e ∈ v.classMap, cfg.unscope e.1 = c) ∨ ∃ e, v.Kept e ∧ v.InDirs e c

/-! ## Names -/

theorem scopedPrefix_append (cfg : ScoperConfig) (c : Str) : cfg.scopedPrefix <+: cfg.scopedPrefix ++ c :=
  List.prefix_append _ _

theorem unscope_of_not {name : Str} (h : ¬ cfg.scopedPrefix <+: name) : cfg.unscope name = name := if_neg h

theorem unscope_append (cfg : ScoperConfig) (c : Str) : cfg.unscope (cfg.scopedPrefix ++ c) = c := by
  rw [ScoperConfig.unscope, if_pos (scopedPrefix_append cfg c), List.drop_left]

theorem eq_of_scoped {name : Str} (h : cfg.scopedPrefix <+: name) : name = cfg.scopedPrefix ++ cfg.unscope name := by
  obtain ⟨c, rfl⟩ := h
  rw [unscope_append]

/-- A name is that of `c`, before or after. -/
def ScoperConfig.IsNameOf (cfg : ScoperConfig) (name c : Str) : Prop :=
  ¬ cfg.scopedPrefix <+: c ∧ (name = c ∨ name = cfg.scopedPrefix ++ c)

theorem ScoperConfig.IsNameOf.unscope {name c : Str} (h : cfg.IsNameOf name c) : cfg.unscope name = c := by
  rcases h with ⟨hc, rfl | rfl⟩
  · exact unscope_of_not hc
  · exact unscope_append cfg c

theorem isNameOf_scopedName (pregMatch : Str → Str → Bool) {c : Str} (h : ¬ cfg.scopedPrefix <+: c) :
    cfg.IsNameOf (cfg.scopedName pregMatch c) c := by
  unfold ScoperConfig.scopedName
  split
  · exact ⟨h, .inl rfl⟩
  · exact ⟨h, .inr rfl⟩

/-! ## The maps after the rewrite -/

/-- The rewritten maps assign a name to a class. -/
def Vendor.Assigned (v : Vendor cfg D F) (name c : Str) : Prop :=
  (∃ e ∈ v.classMap, cfg.unscope e.1 = c ∧ name ∈ cfg.newClassNames e.1) ∨
    ∃ e, v.Kept e ∧ ∃ d ∈ e.2, ∃ r, (v.file d r).isSome ∧ c = cfg.unscope e.1 ++ r ∧ name = cfg.newNamespace e.1 ++ r

variable {v : Vendor cfg D F} {pregMatch : Str → Str → Bool} {e : Str × List D} {name c : Str}

theorem Vendor.Kept.mem (h : v.Kept e) : e ∈ v.prefixDirsPsr4 := by
  obtain ⟨before, after, heq, -⟩ := h
  rw [heq]
  exact List.mem_append_right _ List.mem_cons_self

theorem lookup_newPrefixDirsPsr4 {ns : Str} {dirs : List D} :
    (newPrefixDirsPsr4 v).lookup ns = some dirs ↔ ∃ e, v.Kept e ∧ cfg.newNamespace e.1 = ns ∧ e.2 = dirs := by
  rw [newPrefixDirsPsr4, KMap.lookup_foldl_insert_iff]
  constructor
  · rintro ⟨before, e, after, heq, rfl, rfl, hlast⟩
    exact ⟨e, ⟨before, after, heq, hlast⟩, rfl, rfl⟩
  · rintro ⟨e, ⟨before, after, heq, hlast⟩, rfl, rfl⟩
    exact ⟨before, e, after, heq, rfl, rfl, hlast⟩

theorem newClassMap_eq (v : Vendor cfg D F) : newClassMap v =
    (v.classMap.flatMap fun e => (cfg.newClassNames e.1).map fun className => (className, e.2)).foldl
      (fun m p => m.insert p.1 p.2) ∅ := by
  unfold newClassMap
  rw [List.foldl_flatMap]
  simp only [List.foldl_map]

theorem lookup_newClassMap {f : F} (h : (newClassMap v).lookup name = some f) :
    ∃ e ∈ v.classMap, e.2 = f ∧ name ∈ cfg.newClassNames e.1 := by
  rw [newClassMap_eq, KMap.lookup_foldl_insert_iff] at h
  obtain ⟨before, p, after, heq, rfl, rfl, -⟩ := h
  have hmem : p ∈ before ++ p :: after := List.mem_append_right _ List.mem_cons_self
  rw [← heq, List.mem_flatMap] at hmem
  obtain ⟨e, he, hp⟩ := hmem
  obtain ⟨className, hname, rfl⟩ := List.mem_map.mp hp
  exact ⟨e, he, rfl, hname⟩

theorem isSome_lookup_newClassMap {e : Str × F} (he : e ∈ v.classMap) (h : name ∈ cfg.newClassNames e.1) :
    ((newClassMap v).lookup name).isSome := by
  rw [newClassMap_eq]
  apply KMap.isSome_lookup_foldl_insert
  exact .inr ⟨(name, e.2), List.mem_flatMap.mpr ⟨e, he, List.mem_map.mpr ⟨name, h, rfl⟩⟩, rfl⟩

theorem isSome_lookup_newPrefixLengthsPsr4 (he : e ∈ v.prefixDirsPsr4) :
    ((newPrefixLengthsPsr4 v).lookup ((cfg.newNamespace e.1).headD 0)).isSome :=
  KMap.isSome_lookup_foldl_insert (.inr ⟨e, he, rfl⟩)

theorem newNamespace_separator {ns : Str} (h : ∃ ns', ns = ns' ++ separator) :
    ∃ ns', cfg.newNamespace ns = ns' ++ separator := by
  obtain ⟨ns', rfl⟩ := h
  unfold ScoperConfig.newNamespace
  split_ifs
  · exact ⟨ns', rfl⟩
  · exact ⟨ns', rfl⟩
  · exact ⟨cfg.scopedPrefix ++ ns', by rw [List.append_assoc]⟩

/-! ## What is found -/

theorem mem_newClassNames : name ∈ cfg.newClassNames c ↔
    name = c ∨ (92 ∈ c ∧ ¬ cfg.scopedPrefix <+: c) ∧ name = cfg.scopedPrefix ++ c := by
  unfold ScoperConfig.newClassNames
  split_ifs with h
  · simp [h]
  · simp [h]

/-- A name is assigned to its own class only. -/
theorem Vendor.Assigned.isNameOf (h : v.Assigned name c) : cfg.IsNameOf name c := by
  rcases h with ⟨e, he, rfl, hname⟩ | ⟨e, hkept, d, hd, r, hfile, rfl, rfl⟩
  · have hc := v.unscoped e.2 _ (v.classMap_declared e he)
    refine ⟨hc, ?_⟩
    rcases mem_newClassNames.mp hname with rfl | ⟨⟨-, hnot⟩, rfl⟩
    · by_cases hs : cfg.scopedPrefix <+: e.1
      · exact .inr (eq_of_scoped hs)
      · exact .inl (unscope_of_not hs).symm
    · rw [unscope_of_not hnot]
      exact .inr rfl
  · obtain ⟨f, hf⟩ := Option.isSome_iff_exists.mp hfile
    refine ⟨v.unscoped f _ (v.psr4_declared e hkept.mem d hd r f hf), ?_⟩
    unfold ScoperConfig.newNamespace
    by_cases hs : cfg.scopedPrefix <+: e.1
    · right
      rw [← List.append_assoc, ← eq_of_scoped hs, if_pos hs, ite_self]
    · rw [unscope_of_not hs, if_neg hs]
      split_ifs
      · exact .inl rfl
      · exact .inr (List.append_assoc ..)

theorem exists_assigned {loader : ClassLoader v.file} {f : F} (h : loader.findFile (rewrite v) name = some f) :
    ∃ c ∈ v.classes f, v.Assigned name c := by
  cases hmap : (newClassMap v).lookup name with
  | some f' =>
    have hfirst := loader.classMap_first (rewrite v) name f' hmap
    rw [h, Option.some.injEq] at hfirst
    obtain ⟨e, he, hf, hname⟩ := lookup_newClassMap hmap
    refine ⟨cfg.unscope e.1, ?_, .inl ⟨e, he, rfl, hname⟩⟩
    rw [hfirst, ← hf]
    exact v.classMap_declared e he
  | none =>
    obtain ⟨ns, dirs, d, r, hns, hd, rfl, hfile⟩ := loader.psr4_sound (rewrite v) name f hmap h
    obtain ⟨e, hkept, rfl, rfl⟩ := lookup_newPrefixDirsPsr4.mp hns
    exact ⟨_, v.psr4_declared e hkept.mem d hd r f hfile, .inr ⟨e, hkept, d, hd, r, by rw [hfile]; rfl, rfl, rfl⟩⟩

theorem Vendor.Assigned.found (loader : ClassLoader v.file) (h : v.Assigned name c) :
    (loader.findFile (rewrite v) name).isSome := by
  rcases h with ⟨e, he, -, hname⟩ | ⟨e, hkept, d, hd, r, hfile, -, rfl⟩
  · obtain ⟨f, hf⟩ := Option.isSome_iff_exists.mp (isSome_lookup_newClassMap he hname)
    rw [loader.classMap_first (rewrite v) name f hf]
    rfl
  · exact loader.psr4_complete (rewrite v) _ e.2 d r (lookup_newPrefixDirsPsr4.mpr ⟨e, hkept, rfl, rfl⟩) hd hfile
      (newNamespace_separator (v.namespaces e hkept.mem)) (isSome_lookup_newPrefixLengthsPsr4 hkept.mem)

/-- A file declares a name exactly when php-scoper gave it to the class of the name. -/
theorem mem_declares_iff {f : F} (hc : c ∈ v.classes f) (hname : cfg.IsNameOf name c) :
    name ∈ v.declares pregMatch f ↔ cfg.scopedName pregMatch c = name := by
  constructor
  · intro hmem
    obtain ⟨c', hc', heq⟩ := List.mem_map.mp hmem
    have hname' := isNameOf_scopedName pregMatch (v.unscoped f c' hc')
    rw [heq] at hname'
    have : c' = c := hname'.unscope.symm.trans hname.unscope
    rwa [this] at heq
  · intro heq
    exact List.mem_map.mpr ⟨c, hc, heq⟩

/-! ## The condition -/

theorem scopedPrefix_append_ne (cfg : ScoperConfig) (c : Str) : cfg.scopedPrefix ++ c ≠ c := by
  intro h
  have hlen := congrArg List.length h
  simp [ScoperConfig.scopedPrefix, separator, lit] at hlen
  omega

theorem scopedName_eq_self_iff (pregMatch : Str → Str → Bool) (c : Str) :
    cfg.scopedName pregMatch c = c ↔ cfg.excludes pregMatch (namespaceOf c) = true := by
  unfold ScoperConfig.scopedName
  split
  · next h => exact iff_of_true rfl h
  · next h => exact iff_of_false (scopedPrefix_append_ne cfg c) h

theorem scopedName_eq_append_iff (pregMatch : Str → Str → Bool) (c : Str) :
    cfg.scopedName pregMatch c = cfg.scopedPrefix ++ c ↔ cfg.excludes pregMatch (namespaceOf c) = false := by
  unfold ScoperConfig.scopedName
  split
  · next h => exact iff_of_false (scopedPrefix_append_ne cfg c).symm (by simp [h])
  · next h => exact iff_of_true rfl (by simpa using h)

/-- The names that the class map has for a class are the one that php-scoper gave it. -/
theorem classMapOk_iff (pregMatch : Str → Str → Bool) {className : Str} :
    cfg.ClassMapOk pregMatch className ↔
      ∀ name ∈ cfg.newClassNames className, cfg.scopedName pregMatch (cfg.unscope className) = name := by
  unfold ScoperConfig.ClassMapOk
  by_cases hs : cfg.scopedPrefix <+: className
  · have hnames : (∀ name ∈ cfg.newClassNames className, cfg.scopedName pregMatch (cfg.unscope className) = name) ↔
        cfg.scopedName pregMatch (cfg.unscope className) = cfg.scopedPrefix ++ cfg.unscope className := by
      rw [← eq_of_scoped hs]
      simp [mem_newClassNames, hs]
    rw [hnames, scopedName_eq_append_iff]
    simp [hs]
  · simp only [hs, false_and, false_or, not_false_eq_true, true_and, unscope_of_not hs, mem_newClassNames, and_true]
    rw [← scopedName_eq_self_iff]
    by_cases hsep : 92 ∈ className
    · -- two names, and the class has one
      refine iff_of_false (fun h => h.1 hsep) fun h => ?_
      have hself := h className (.inl rfl)
      have happend := h (cfg.scopedPrefix ++ className) (.inr ⟨hsep, rfl⟩)
      exact scopedPrefix_append_ne cfg className (happend.symm.trans hself)
    · simp [hsep]

theorem psr4Ok_iff (pregMatch : Str → Str → Bool) (ns r : Str) :
    cfg.Psr4Ok pregMatch ns r ↔ cfg.scopedName pregMatch (cfg.unscope ns ++ r) = cfg.newNamespace ns ++ r := by
  unfold ScoperConfig.Psr4Ok ScoperConfig.newNamespace
  by_cases hs : cfg.scopedPrefix <+: ns
  · simp only [if_pos hs, ite_self]
    rw [← scopedName_eq_append_iff, ← List.append_assoc, ← eq_of_scoped hs]
  · simp only [if_neg hs, unscope_of_not hs]
    cases hexcl : cfg.isExcluded ns with
    | true =>
      rw [if_pos rfl, scopedName_eq_self_iff]
      exact eq_comm
    | false =>
      rw [if_neg Bool.false_ne_true, List.append_assoc, scopedName_eq_append_iff]
      exact eq_comm

/-- Every name is assigned to the class that php-scoper gave it to. -/
theorem assigned_iff (v : Vendor cfg D F) (pregMatch : Str → Str → Bool) :
    (∀ name c, v.Assigned name c → cfg.scopedName pregMatch c = name) ↔
      (∀ e ∈ v.classMap, cfg.ClassMapOk pregMatch e.1) ∧
        ∀ e, v.Kept e → ∀ d ∈ e.2, ∀ r, (v.file d r).isSome → cfg.Psr4Ok pregMatch e.1 r := by
  constructor
  · intro h
    refine ⟨fun e he => ?_, fun e hkept d hd r hfile => ?_⟩
    · exact (classMapOk_iff pregMatch).mpr fun name hname => h name _ (.inl ⟨e, he, rfl, hname⟩)
    · exact (psr4Ok_iff pregMatch e.1 r).mpr (h _ _ (.inr ⟨e, hkept, d, hd, r, hfile, rfl, rfl⟩))
  · rintro ⟨hmap, hpsr4⟩ name c (⟨e, he, rfl, hname⟩ | ⟨e, hkept, d, hd, r, hfile, rfl, rfl⟩)
    · exact (classMapOk_iff pregMatch).mp (hmap e he) name hname
    · exact (psr4Ok_iff pregMatch e.1 r).mp (hpsr4 e hkept d hd r hfile)

theorem declared_iff (pregMatch : Str → Str → Bool) (loader : ClassLoader v.file) :
    (∀ name f, loader.findFile (rewrite v) name = some f → name ∈ v.declares pregMatch f) ↔
      ∀ name c, v.Assigned name c → cfg.scopedName pregMatch c = name := by
  constructor
  · intro h name c hassigned
    obtain ⟨f, hf⟩ := Option.isSome_iff_exists.mp (hassigned.found loader)
    obtain ⟨c', hc', hassigned'⟩ := exists_assigned hf
    have hcc : c' = c := hassigned'.isNameOf.unscope.symm.trans hassigned.isNameOf.unscope
    subst hcc
    exact (mem_declares_iff hc' hassigned.isNameOf).mp (h name f hf)
  · intro h name f hf
    obtain ⟨c, hc, hassigned⟩ := exists_assigned hf
    exact (mem_declares_iff hc hassigned.isNameOf).mpr (h name c hassigned)

/-- A class of the class map, or of directories that are not lost, is assigned a name. -/
theorem exists_assigned_iff : (∃ name, v.Assigned name c) ↔
    (∃ e ∈ v.classMap, cfg.unscope e.1 = c) ∨ ∃ e, v.Kept e ∧ v.InDirs e c := by
  constructor
  · rintro ⟨name, ⟨e, he, hc, -⟩ | ⟨e, hkept, d, hd, r, hfile, hc, -⟩⟩
    · exact .inl ⟨e, he, hc⟩
    · exact .inr ⟨e, hkept, d, hd, r, hfile, hc⟩
  · rintro (⟨e, he, hc⟩ | ⟨e, hkept, d, hd, r, hfile, hc⟩)
    · exact ⟨e.1, .inl ⟨e, he, hc, mem_newClassNames.mpr (.inl rfl)⟩⟩
    · exact ⟨_, .inr ⟨e, hkept, d, hd, r, hfile, hc, rfl⟩⟩

theorem Vendor.Provides.unscoped (h : v.Provides c) : ¬ cfg.scopedPrefix <+: c := by
  rcases h with ⟨e, he, rfl⟩ | ⟨e, he, d, hd, r, hfile, rfl⟩
  · exact v.unscoped e.2 _ (v.classMap_declared e he)
  · obtain ⟨f, hf⟩ := Option.isSome_iff_exists.mp hfile
    exact v.unscoped f _ (v.psr4_declared e he d hd r f hf)

/-- **The scoped autoloader.** It agrees with php-scoper exactly when the rewrite does: on what is excluded, for the class map
and the PSR-4 prefixes, and no class is in lost directories only. -/
theorem agrees_iff_matches (v : Vendor cfg D F) (pregMatch : Str → Str → Bool) (loader : ClassLoader v.file) :
    Agrees v pregMatch loader ↔ Matches v pregMatch := by
  constructor
  · intro h
    have hassigned := (declared_iff pregMatch loader).mp h.declared
    obtain ⟨hmap, hpsr4⟩ := (assigned_iff v pregMatch).mp hassigned
    refine ⟨hmap, hpsr4, fun c hc => ?_⟩
    obtain ⟨f, hf⟩ := Option.isSome_iff_exists.mp (h.resolved c hc)
    obtain ⟨c', -, hassigned'⟩ := exists_assigned hf
    have hcc : c' = c := hassigned'.isNameOf.unscope.symm.trans (isNameOf_scopedName pregMatch hc.unscoped).unscope
    exact exists_assigned_iff.mp ⟨_, hcc ▸ hassigned'⟩
  · intro h
    have hassigned := (assigned_iff v pregMatch).mpr ⟨h.classMap, h.psr4⟩
    refine ⟨(declared_iff pregMatch loader).mpr hassigned, fun c hc => ?_⟩
    obtain ⟨name, hname⟩ := exists_assigned_iff.mpr (h.lost c hc)
    rw [hassigned name c hname]
    exact hname.found loader

end

/-! ## Samples -/

section

variable {D F : Type} (file : D → Str → Option F)

/-- The directories of the longest prefix first. -/
def findPsr4 (s : AutoloadStatic D F) (c : Str) : Option F :=
  if (s.prefixLengthsPsr4.lookup (c.headD 0)).isSome then
    (List.range (c.length + 1)).reverse.findSome? fun i =>
      if separator <:+ c.take i then
        (s.prefixDirsPsr4.lookup (c.take i)).bind fun dirs => dirs.findSome? fun d => file d (c.drop i)
      else none
  else none

/-- The class loader as Composer documents it. -/
def composerLoader : ClassLoader file where
  findFile s c := (s.classMap.lookup c).or (findPsr4 file s c)
  classMap_first s c f h := by rw [h, Option.some_or]
  psr4_sound s c f hnone h := by
    rw [hnone, Option.none_or, findPsr4] at h
    split at h
    · obtain ⟨i, -, hi⟩ := List.exists_of_findSome?_eq_some h
      split at hi
      · obtain ⟨dirs, hdirs, hd⟩ := Option.bind_eq_some_iff.mp hi
        obtain ⟨d, hmem, hf⟩ := List.exists_of_findSome?_eq_some hd
        exact ⟨c.take i, dirs, d, c.drop i, hdirs, hmem, (List.take_append_drop i c).symm, hf⟩
      · cases hi
    · cases h
  psr4_complete s ns dirs d r hdirs hd hfile hsep hlen := by
    obtain ⟨ns', rfl⟩ := hsep
    have hfound : (findPsr4 file s (ns' ++ separator ++ r)).isSome := by
      have hhead : (ns' ++ separator ++ r).headD 0 = (ns' ++ separator).headD 0 := by cases ns' <;> rfl
      rw [findPsr4, hhead, if_pos hlen, List.findSome?_isSome_iff]
      refine ⟨(ns' ++ separator).length, ?_, ?_⟩
      · simp only [List.mem_reverse, List.mem_range, List.length_append]
        omega
      · rw [List.take_left, List.drop_left, if_pos (List.suffix_append ns' separator), hdirs, Option.bind_some,
          List.findSome?_isSome_iff]
        exact ⟨d, hd, hfile⟩
    cases hmap : s.classMap.lookup (ns' ++ separator ++ r) with
    | none => rwa [Option.none_or]
    | some f => rfl

end

/-- The excluded namespaces of the repository. -/
def distroConfig : ScoperConfig where
  namespacePrefix := lit "OTelDistroScoped"
  excludeNamespaces := [lit "Psr\\Http\\Client", lit "Psr\\Http\\Message", lit "Http\\Client", lit "Http\\Promise",
    lit "~^Slim(\\\\.*)?$~", lit "~^Illuminate(\\\\.*)?$~",
    lit "~^Symfony\\\\Component\\\\HttpFoundation(\\\\.*)?$~"]

/-- Its regexes match a namespace and what is below it. -/
def distroRegexes (regex ns : Str) : Bool :=
  [(lit "~^Slim(\\\\.*)?$~", lit "Slim"), (lit "~^Illuminate(\\\\.*)?$~", lit "Illuminate"),
    (lit "~^Symfony\\\\Component\\\\HttpFoundation(\\\\.*)?$~", lit "Symfony\\Component\\HttpFoundation")].any fun p =>
      p.1 = regex && (p.2 = ns || (p.2 ++ separator).isPrefixOf ns)

/-- A vendor directory with one file, under a PSR-4 prefix. -/
def psr4Vendor (ns r : Str) (hns : ∃ ns', ns = ns' ++ separator) (h : ¬ distroConfig.scopedPrefix <+: ns)
    (h' : ¬ distroConfig.scopedPrefix <+: ns ++ r) : Vendor distroConfig Unit Unit where
  classMap := []
  prefixDirsPsr4 := [(ns, [()])]
  file _ r' := if r' = r then some () else none
  classes _ := [ns ++ r]
  unscoped _ c hc := by
    rw [List.mem_singleton.mp hc]
    exact h'
  namespaces e he := by
    rw [List.mem_singleton.mp he]
    exact hns
  classMap_declared e he := absurd he List.not_mem_nil
  psr4_declared e he d hd r' f hf := by
    rw [List.mem_singleton.mp he, unscope_of_not h]
    split at hf
    · next hr =>
      rw [hr]
      exact List.mem_singleton.mpr rfl
    · cases hf

def psrVendor : Vendor distroConfig Unit Unit :=
  psr4Vendor (lit "Psr\\Http\\Message\\") (lit "RequestInterface") ⟨lit "Psr\\Http\\Message", rfl⟩ (by decide) (by decide)

def slimVendor : Vendor distroConfig Unit Unit :=
  psr4Vendor (lit "Slim\\") (lit "App") ⟨lit "Slim", rfl⟩ (by decide) (by decide)

/-- A vendor directory with one class, in the class map. -/
def classMapVendor : Vendor distroConfig Unit Unit where
  classMap := [(lit "Foo\\Bar", ())]
  prefixDirsPsr4 := []
  file _ _ := none
  classes _ := [lit "Foo\\Bar"]
  unscoped _ c hc := by
    rw [List.mem_singleton.mp hc]
    decide
  namespaces e he := absurd he List.not_mem_nil
  classMap_declared e he := by
    rw [List.mem_singleton.mp he]
    decide
  psr4_declared e he := absurd he List.not_mem_nil

/-- An excluded namespace that is not a regex. -/
theorem agrees_iff_matches_psr : Agrees psrVendor distroRegexes (composerLoader _) := by
  refine (agrees_iff_matches psrVendor distroRegexes (composerLoader _)).mpr ⟨?_, ?_, ?_⟩
  · exact fun e he => absurd he List.not_mem_nil
  · intro e hkept d hd r hfile
    rw [List.mem_singleton.mp hkept.mem]
    have hr : r = lit "RequestInterface" := by
      by_contra hne
      change (if r = lit "RequestInterface" then some () else none).isSome = true at hfile
      rw [if_neg hne] at hfile
      cases hfile
    rw [hr, ScoperConfig.Psr4Ok, if_neg (by decide)]
    decide +kernel
  · rintro c (⟨e, he, -⟩ | ⟨e, he, hdirs⟩)
    · exact absurd he List.not_mem_nil
    · rw [List.mem_singleton.mp he] at hdirs
      exact .inr ⟨_, ⟨[], [], rfl, fun e' he' => absurd he' List.not_mem_nil⟩, hdirs⟩

/-- A class of a namespace that a regex excludes is looked for under the prefix, and one of the class map by its old name. -/
theorem scoped_autoloader_disagrees : ¬ Agrees slimVendor distroRegexes (composerLoader _) ∧
    ¬ Agrees classMapVendor distroRegexes (composerLoader _) := by
  constructor
  · intro h
    have := h.declared (lit "OTelDistroScoped\\Slim\\App") () (by decide +kernel)
    revert this
    decide +kernel
  · intro h
    have := h.declared (lit "Foo\\Bar") () (by decide +kernel)
    revert this
    decide +kernel

end OtelDistro.Build
