import OtelDistro.Bridge.CompiledFiles
import OtelDistro.Lib.Runs

/-!
# OtelDistro.Bridge.AutoLoaderGuard — application copies of packages the distro has loaded

`DependencyAutoLoaderGuard`: a file of the application's vendor directory is not compiled when the distro's own copy of it
has been compiled already, since its classes would be declared twice.

* `Request`: the guard, PHP's tables, and the files compiled so far; `step`: PHP compiles files, they declare classes and
  functions, a request ends.
* `Delivered`: the distro's copy was compiled in this request, and is no file of Composer.
* `DecidesRightly`: a compilation is discarded exactly when it is that of an application copy of such a file.
* `Unmistaken`: what a path and the files compiled before it must be like for that.

`decides_rightly_iff`: the decisions in a run are right if they are all made on such paths, and not otherwise.
-/

namespace OtelDistro.Bridge

open OtelDistro.Lib

/-! ## The guard -/

structure DependencyAutoLoaderGuard where
  lastClass : ℕ := 0
  lastFunction : ℕ := 0
  compiledFiles : List Str := []

/-- The rest behind the first `/vendor/`. -/
def afterVendor : Str → Option Str
  | [] => none
  | c :: fileName =>
    match (c :: fileName).dropPrefix? (lit "/vendor/") with
    | some rest => some rest
    | none => afterVendor fileName

section Guard

variable (vendorPath : Str)

/-- `recordFile`: dependencies delivered by the distro are stored, but Composer's own files. -/
def recordFile (compiledFiles : List Str) (name : Str) : List Str :=
  if vendorPath <+: name then
    if lit "/composer/" <+: name.drop vendorPath.length then compiledFiles
    else if name ∈ compiledFiles then compiledFiles
    else name :: compiledFiles
  else compiledFiles

/-- The search in `compiledFiles`; none: `substr` throws. -/
def findStored (rest : Str) : List Str → Option Bool
  | [] => some false
  | storedFile :: compiledFiles =>
    if storedFile.length < vendorPath.length + 1 then none
    else if storedFile.drop (vendorPath.length + 1) = rest then some true
    else findStored rest compiledFiles

def wasDeliveredByDistro (compiledFiles : List Str) (fileName : Str) : Option Bool :=
  match afterVendor fileName with
  | none => some false
  | some rest => findStored vendorPath rest compiledFiles

/-- `compiledFilePath` is the canonical path of a file that exists, the name of another; none: finding out throws. -/
def shouldDiscardFileCompilation (classTable functionTable : HashTable) (g : DependencyAutoLoaderGuard)
    (compiledFilePath : Option Str) : DependencyAutoLoaderGuard × Bool :=
  match compiledFilePath with
  | none => (g, false)
  | some compiledFilePath =>
    if vendorPath <+: compiledFilePath then (g, false)
    else
      let (names, lastClass, lastFunction) := getNewlyCompiledFiles classTable functionTable g.lastClass g.lastFunction
      let g := ⟨lastClass, lastFunction, names.foldl (recordFile vendorPath) g.compiledFiles⟩
      (g, wasDeliveredByDistro vendorPath g.compiledFiles compiledFilePath = some true)

end Guard

/-! ## Requests -/

/-- `compiled` are the files compiled in this request. -/
structure Request where
  guard : DependencyAutoLoaderGuard := {}
  classTable : HashTable
  functionTable : HashTable
  compiled : List Str := []

/-- A file that PHP is going to compile; what it declares is recorded under its path.  `throws`: `exists` or `canonical`
throws for it. -/
structure Compilation where
  file : Str
  throws : Bool := false
  succeeds : Bool := true
  classes : ℕ := 0
  functions : ℕ := 0

inductive Action
  | compile (c : Compilation)
  | declare (file : Str) (classes functions : ℕ) -- when the code of a compiled file runs
  | nextRequest

/-- Entries of one file. -/
def declared (file : Str) (n : ℕ) : HashTable := List.replicate n (some ⟨true, some file⟩)

def Request.declare (s : Request) (file : Str) (classes functions : ℕ) : Request :=
  { s with
    classTable := s.classTable ++ declared file classes
    functionTable := s.functionTable ++ declared file functions }

/-- The tables of a new request: user classes and functions are gone. -/
def internalOnly (table : HashTable) : HashTable := table.filter fun b => b.all fun e => !e.user

section Step

variable (vendorPath : Str)

def Request.guarded (s : Request) (c : Compilation) : DependencyAutoLoaderGuard × Bool :=
  shouldDiscardFileCompilation vendorPath s.classTable s.functionTable s.guard (if c.throws then none else some c.file)

/-- The vendor directory is no file. -/
def step (s : Request) : Action → Option Request
  | .compile c =>
    if c.file = vendorPath then none
    else
      let (guard, discard) := s.guarded vendorPath c
      if discard ∨ c.succeeds = false then some { s with guard }
      else some { Request.declare { s with guard } c.file c.classes c.functions with compiled := c.file :: s.compiled }
  | .declare file classes functions => if file ∈ s.compiled then some (s.declare file classes functions) else none
  | .nextRequest =>
    some { classTable := internalOnly s.classTable, functionTable := internalOnly s.functionTable }

end Step

/-- The first request, with PHP's own classes and functions. -/
def Request.init (classes functions : ℕ) : Request where
  classTable := List.replicate classes (some ⟨false, none⟩)
  functionTable := List.replicate functions (some ⟨false, none⟩)

/-! ## Right decisions -/

section Rule

variable (vendorPath : Str) (s : Request)

/-- The file `rest` of the vendor directory was compiled in this request, and is not under `composer/`. -/
def Delivered (rest : Str) : Prop := vendorPath ++ lit "/" ++ rest ∈ s.compiled ∧ ¬ lit "composer/" <+: rest

/-- A user class or function of the file is in the tables. -/
def Request.Declares (file : Str) : Prop := file ∈ files s.classTable ∨ file ∈ files s.functionTable

/-- A file of the vendor directory is compiled; another one `root/vendor/rest`, for whatever root, is discarded exactly if
`rest` was delivered. -/
structure DecidesRightly (c : Compilation) : Prop where
  inside : vendorPath ++ lit "/" <+: c.file → (s.guarded vendorPath c).2 = false
  outside : ¬ vendorPath ++ lit "/" <+: c.file → ∀ root rest, c.file = root ++ lit "/vendor/" ++ rest →
    ((s.guarded vendorPath c).2 = true ↔ Delivered vendorPath s rest)

/-- A file outside the vendor directory with `rest` behind the first `/vendor/` of its path. -/
structure Unmistaken (c : Compilation) (rest : Str) : Prop where
  /-- The other ways to take the path for one in a vendor directory lead to the same answer. -/
  oneAnswer : ∀ root rest', c.file = root ++ lit "/vendor/" ++ rest' →
    (Delivered vendorPath s rest' ↔ Delivered vendorPath s rest)
  /-- If `rest` was delivered, it declares something, and the path can be found out and is not in a sibling directory. -/
  found : Delivered vendorPath s rest →
    c.throws = false ∧ ¬ vendorPath <+: c.file ∧ ∃ b, s.Declares (vendorPath ++ b :: rest)
  /-- If not, no file of a sibling directory takes its place. -/
  alone : ¬ Delivered vendorPath s rest →
    c.throws = true ∨ vendorPath <+: c.file ∨ ∀ b, b ≠ 47 → ¬ s.Declares (vendorPath ++ b :: rest)

def StepRight : Action → Prop
  | .compile c => DecidesRightly vendorPath s c
  | _ => True

def StepUnmistaken : Action → Prop
  | .compile c => ¬ vendorPath ++ lit "/" <+: c.file → ∀ rest ∈ afterVendor c.file, Unmistaken vendorPath s c rest
  | _ => True

end Rule

/-! ## What the guard knows -/

section Guard

variable {vendorPath : Str} {name rest fileName : Str} {names compiledFiles : List Str}

/-- The names that `recordFile` stores. -/
def Stored (vendorPath name : Str) : Prop :=
  vendorPath <+: name ∧ ¬ lit "/composer/" <+: name.drop vendorPath.length

theorem mem_recordFile {stored : Str} :
    name ∈ recordFile vendorPath compiledFiles stored ↔ name ∈ compiledFiles ∨ (name = stored ∧ Stored vendorPath stored) := by
  unfold recordFile Stored
  split
  · next hbegins =>
    split
    · next hcomposer => simp [hcomposer]
    · next hcomposer =>
      split
      · next hmem =>
        refine ⟨.inl, fun h => h.elim id ?_⟩
        rintro ⟨rfl, -⟩
        exact hmem
      · simp [hbegins, hcomposer, or_comm]
  · next hbegins => simp [hbegins]

theorem mem_recordFiles :
    name ∈ names.foldl (recordFile vendorPath) compiledFiles ↔
      name ∈ compiledFiles ∨ (name ∈ names ∧ Stored vendorPath name) := by
  induction names generalizing compiledFiles with
  | nil => simp
  | cons stored names ih =>
    rw [List.foldl_cons, ih, mem_recordFile, List.mem_cons, or_assoc]
    refine or_congr_right ?_
    constructor
    · rintro (⟨rfl, h⟩ | ⟨hmem, h⟩)
      · exact ⟨.inl rfl, h⟩
      · exact ⟨.inr hmem, h⟩
    · rintro ⟨rfl | hmem, h⟩
      · exact .inl ⟨rfl, h⟩
      · exact .inr ⟨hmem, h⟩

/-- No stored file is as short as the vendor path, so nothing is thrown. -/
theorem findStored_eq (hlong : ∀ f ∈ compiledFiles, vendorPath.length < f.length) :
    findStored vendorPath rest compiledFiles = some true ↔ ∃ f ∈ compiledFiles, f.drop (vendorPath.length + 1) = rest := by
  induction compiledFiles with
  | nil => simp [findStored]
  | cons f compiledFiles ih =>
    have hf : ¬ f.length < vendorPath.length + 1 := by
      have := hlong f List.mem_cons_self
      omega
    rw [findStored, if_neg hf]
    by_cases hrest : f.drop (vendorPath.length + 1) = rest
    · rw [if_pos hrest]
      exact iff_of_true rfl ⟨f, List.mem_cons_self, hrest⟩
    · rw [if_neg hrest, ih fun g hg => hlong g (List.mem_cons_of_mem f hg)]
      simp [hrest]

theorem afterVendor_spec (h : afterVendor fileName = some rest) : ∃ root, fileName = root ++ lit "/vendor/" ++ rest := by
  induction fileName with
  | nil => cases h
  | cons c fileName ih =>
    rw [afterVendor] at h
    cases hdrop : (c :: fileName).dropPrefix? (lit "/vendor/") with
    | some rest' =>
      rw [hdrop] at h
      cases h
      obtain ⟨p, hp, heq⟩ := List.dropPrefix?_eq_some_iff.mp hdrop
      exact ⟨[], by rw [hp, eq_of_beq heq]; rfl⟩
    | none =>
      rw [hdrop] at h
      obtain ⟨root, hroot⟩ := ih h
      exact ⟨c :: root, by rw [hroot]; rfl⟩

theorem afterVendor_isSome (root rest : Str) : ∃ rest', afterVendor (root ++ lit "/vendor/" ++ rest) = some rest' := by
  induction root with
  | nil =>
    have hvendor : lit "/vendor/" = 47 :: [118, 101, 110, 100, 111, 114, 47] := by decide
    have hdrop : (lit "/vendor/" ++ rest).dropPrefix? (lit "/vendor/") = some rest :=
      List.dropPrefix?_eq_some_iff.mpr ⟨_, rfl, beq_self_eq_true _⟩
    rw [List.nil_append]
    rw [hvendor, List.cons_append] at hdrop ⊢
    rw [afterVendor, hvendor, hdrop]
    exact ⟨rest, rfl⟩
  | cons c root ih =>
    rw [List.cons_append, List.cons_append, afterVendor]
    cases (c :: (root ++ lit "/vendor/" ++ rest)).dropPrefix? (lit "/vendor/") with
    | some rest' => exact ⟨rest', rfl⟩
    | none => exact ih

/-- A stored name by what follows the vendor path. -/
theorem stored_append {b : UInt8} : Stored vendorPath (vendorPath ++ b :: rest) ↔ (b = 47 → ¬ lit "composer/" <+: rest) := by
  have hcomposer : lit "/composer/" = 47 :: lit "composer/" := by decide
  rw [Stored, List.drop_left, hcomposer, List.cons_prefix_cons]
  simp only [List.prefix_append, true_and, not_and]
  exact imp_congr_left eq_comm

end Guard

/-! ## The invariant -/

section Invariant

variable {vendorPath : Str} {s s' : Request} {a : Action} {c : Compilation}

/-- The guard has stored what it should of the entries it has passed; only compiled files declare anything. -/
structure Inv (vendorPath : Str) (s : Request) : Prop where
  full : none ∉ s.classTable ∧ none ∉ s.functionTable
  positions : s.guard.lastClass ≤ s.classTable.length ∧ s.guard.lastFunction ≤ s.functionTable.length
  stored : ∀ name, name ∈ s.guard.compiledFiles ↔ Stored vendorPath name ∧
    (name ∈ files (s.classTable.take s.guard.lastClass) ∨ name ∈ files (s.functionTable.take s.guard.lastFunction))
  known : ∀ name, s.Declares name → name ∈ s.compiled
  noFile : vendorPath ∉ s.compiled

/-- The guard after it has looked at the tables. -/
structure UpToDate (vendorPath : Str) (s : Request) (g : DependencyAutoLoaderGuard) : Prop where
  lastClass : g.lastClass = s.classTable.length
  lastFunction : g.lastFunction = s.functionTable.length
  stored : ∀ name, name ∈ g.compiledFiles ↔ Stored vendorPath name ∧ s.Declares name

theorem mem_files_split (table : HashTable) (n : ℕ) (name : Str) :
    name ∈ files table ↔ name ∈ files (table.take n) ∨ name ∈ files (table.drop n) := by
  have h : files table = files (table.take n) ++ files (table.drop n) := by
    rw [← files_append, List.take_append_drop]
  rw [h, List.mem_append]

/-- Looking at the tables brings the guard up to date. -/
theorem Inv.upToDate (h : Inv vendorPath s) {g : DependencyAutoLoaderGuard} {names : List Str} {lastClass lastFunction : ℕ}
    (hnew : getNewlyCompiledFiles s.classTable s.functionTable s.guard.lastClass s.guard.lastFunction =
      (names, lastClass, lastFunction))
    (hg : g = ⟨lastClass, lastFunction, names.foldl (recordFile vendorPath) s.guard.compiledFiles⟩) :
    UpToDate vendorPath s g := by
  unfold getNewlyCompiledFiles at hnew
  rw [scan_snd_of_full h.full.1 h.positions.1, scan_snd_of_full h.full.2 h.positions.2, scan_fst, scan_fst] at hnew
  cases hnew
  subst hg
  refine ⟨rfl, rfl, fun name => ?_⟩
  have hclass := mem_files_split s.classTable s.guard.lastClass name
  have hfunction := mem_files_split s.functionTable s.guard.lastFunction name
  rw [mem_recordFiles, h.stored, List.mem_append, Request.Declares, hclass, hfunction]
  constructor
  · rintro (⟨hs, hold | hold⟩ | ⟨hnew | hnew, hs⟩)
    · exact ⟨hs, .inl (.inl hold)⟩
    · exact ⟨hs, .inr (.inl hold)⟩
    · exact ⟨hs, .inl (.inr hnew)⟩
    · exact ⟨hs, .inr (.inr hnew)⟩
  · rintro ⟨hs, (hold | hnew) | hold | hnew⟩
    · exact .inl ⟨hs, .inl hold⟩
    · exact .inr ⟨.inl hnew, hs⟩
    · exact .inl ⟨hs, .inr hold⟩
    · exact .inr ⟨.inr hnew, hs⟩

/-- What the decision comes to: the guard is as it was and nothing is discarded, or it is up to date and some stored file
has the same rest. -/
theorem Inv.guarded (h : Inv vendorPath s) (c : Compilation) :
    ((c.throws = true ∨ vendorPath <+: c.file) ∧ s.guarded vendorPath c = (s.guard, false)) ∨
      (c.throws = false ∧ ¬ vendorPath <+: c.file ∧ UpToDate vendorPath s (s.guarded vendorPath c).1 ∧
        ((s.guarded vendorPath c).2 = true ↔ ∃ rest, afterVendor c.file = some rest ∧
          ∃ b, s.Declares (vendorPath ++ b :: rest) ∧ (b = 47 → ¬ lit "composer/" <+: rest))) := by
  unfold Request.guarded shouldDiscardFileCompilation
  cases hthrows : c.throws with
  | true => exact .inl ⟨.inl rfl, rfl⟩
  | false =>
    by_cases hbegins : vendorPath <+: c.file
    · refine .inl ⟨.inr hbegins, ?_⟩
      rw [if_neg Bool.false_ne_true]
      exact if_pos hbegins
    · right
      rw [if_neg Bool.false_ne_true]
      dsimp only
      rw [if_neg hbegins]
      generalize hnew : getNewlyCompiledFiles s.classTable s.functionTable s.guard.lastClass s.guard.lastFunction = result
      obtain ⟨names, lastClass, lastFunction⟩ := result
      have hdate := h.upToDate hnew rfl
      refine ⟨rfl, hbegins, hdate, ?_⟩
      dsimp only
      have hlong : ∀ f ∈ names.foldl (recordFile vendorPath) s.guard.compiledFiles, vendorPath.length < f.length := by
        intro f hf
        obtain ⟨⟨hpre, -⟩, hdecl⟩ := (hdate.stored f).mp hf
        refine lt_of_le_of_ne hpre.length_le fun hlen => ?_
        exact h.noFile (hpre.eq_of_length hlen ▸ h.known f hdecl)
      rw [decide_eq_true_iff, wasDeliveredByDistro]
      cases hafter : afterVendor c.file with
      | none => simp
      | some rest =>
        simp only [Option.some.injEq, exists_eq_left']
        rw [findStored_eq hlong]
        constructor
        · rintro ⟨f, hf, hrest⟩
          obtain ⟨hstored, hdecl⟩ := (hdate.stored f).mp hf
          obtain ⟨tail, rfl⟩ := hstored.1
          cases tail with
          | nil =>
            have hlen := hlong _ hf
            simp at hlen
          | cons b tail =>
            obtain rfl : tail = rest := by simpa using hrest
            exact ⟨b, hdecl, stored_append.mp hstored⟩
        · rintro ⟨b, hdecl, hcomposer⟩
          exact ⟨_, (hdate.stored _).mpr ⟨stored_append.mpr hcomposer, hdecl⟩, by simp⟩

theorem inv_init (vendorPath : Str) (classes functions : ℕ) : Inv vendorPath (Request.init classes functions) where
  full := ⟨fun h => by simpa using List.eq_of_mem_replicate h, fun h => by simpa using List.eq_of_mem_replicate h⟩
  positions := ⟨Nat.zero_le _, Nat.zero_le _⟩
  stored name := by simp [Request.init, files, entries]
  known name h := by
    rcases h with h | h <;> cases List.eq_of_mem_replicate (mem_files_iff.mp h)
  noFile := List.not_mem_nil

theorem Inv.withGuard (h : Inv vendorPath s) {g : DependencyAutoLoaderGuard} (hg : UpToDate vendorPath s g) :
    Inv vendorPath { s with guard := g } where
  full := h.full
  positions := ⟨Nat.le_of_eq hg.lastClass, Nat.le_of_eq hg.lastFunction⟩
  stored name := by
    rw [hg.stored]
    dsimp only
    rw [hg.lastClass, hg.lastFunction, List.take_length, List.take_length, Request.Declares]
  known := h.known
  noFile := h.noFile

theorem mem_declared {file name : Str} {n : ℕ} (h : name ∈ files (declared file n)) : name = file := by
  have heq := List.eq_of_mem_replicate (mem_files_iff.mp h)
  simpa using heq

/-- New entries come behind those the guard has passed. -/
theorem Inv.declare (h : Inv vendorPath s) {file : Str} (hfile : file ∈ s.compiled) (classes functions : ℕ) :
    Inv vendorPath (s.declare file classes functions) where
  full := by
    have hno : ∀ n, (none : Option TableEntry) ∉ declared file n := fun n hn => by cases List.eq_of_mem_replicate hn
    exact ⟨fun hm => (List.mem_append.mp hm).elim h.full.1 (hno _),
      fun hm => (List.mem_append.mp hm).elim h.full.2 (hno _)⟩
  positions := by
    obtain ⟨h1, h2⟩ := h.positions
    simp only [Request.declare, List.length_append]
    omega
  stored name := by
    rw [show (s.declare file classes functions).guard = s.guard from rfl, h.stored, Request.declare]
    dsimp only
    rw [List.take_append_of_le_length h.positions.1, List.take_append_of_le_length h.positions.2]
  known name hname := by
    simp only [Request.declare, Request.Declares, files_append, List.mem_append] at hname
    rcases hname with (hname | hname) | hname | hname
    · exact h.known name (.inl hname)
    · exact mem_declared hname ▸ hfile
    · exact h.known name (.inr hname)
    · exact mem_declared hname ▸ hfile
  noFile := h.noFile

/-- What is left of the tables declares nothing. -/
theorem notMem_files_internalOnly (table : HashTable) (name : Str) : name ∉ files (internalOnly table) := by
  intro h
  obtain ⟨-, hinternal⟩ := List.mem_filter.mp (mem_files_iff.mp h)
  cases hinternal

theorem Inv.nextRequest (h : Inv vendorPath s) :
    Inv vendorPath { classTable := internalOnly s.classTable, functionTable := internalOnly s.functionTable } where
  full := ⟨fun hm => h.full.1 (List.mem_filter.mp hm).1, fun hm => h.full.2 (List.mem_filter.mp hm).1⟩
  positions := ⟨Nat.zero_le _, Nat.zero_le _⟩
  stored name := by simp [files, entries]
  known name hname := by
    rcases hname with hname | hname <;> exact absurd hname (notMem_files_internalOnly _ name)
  noFile := List.not_mem_nil

theorem Inv.step (h : Inv vendorPath s) (hstep : step vendorPath s a = some s') : Inv vendorPath s' := by
  cases a with
  | compile c =>
    rw [Bridge.step] at hstep
    split at hstep
    · cases hstep
    · next hne =>
      have hguard : Inv vendorPath { s with guard := (s.guarded vendorPath c).1 } := by
        rcases h.guarded c with ⟨-, heq⟩ | ⟨-, -, hdate, -⟩
        · rw [heq]
          exact h
        · exact h.withGuard hdate
      generalize s.guarded vendorPath c = decision at hstep hguard
      obtain ⟨guard, discard⟩ := decision
      dsimp only at hstep hguard
      split at hstep
      · cases hstep
        exact hguard
      · cases hstep
        have hcompiled : Inv vendorPath { s with guard := guard, compiled := c.file :: s.compiled } :=
          ⟨hguard.full, hguard.positions, hguard.stored, fun name hname => List.mem_cons_of_mem _ (hguard.known name hname),
            fun hm => (List.mem_cons.mp hm).elim (fun heq => hne heq.symm) h.noFile⟩
        exact hcompiled.declare List.mem_cons_self c.classes c.functions
  | declare file classes functions =>
    rw [Bridge.step] at hstep
    split at hstep
    · next hfile =>
      cases hstep
      exact h.declare hfile classes functions
    · cases hstep
  | nextRequest =>
    cases hstep
    exact h.nextRequest

/-! ## The rule -/

/-- A file is discarded exactly if its path can be found out, does not begin like the vendor directory, and one of the files
that the stored names stand for declares something. -/
theorem Inv.discards_iff (h : Inv vendorPath s) (c : Compilation) :
    (s.guarded vendorPath c).2 = true ↔ c.throws = false ∧ ¬ vendorPath <+: c.file ∧ ∃ rest, afterVendor c.file = some rest ∧
      ∃ b, s.Declares (vendorPath ++ b :: rest) ∧ (b = 47 → ¬ lit "composer/" <+: rest) := by
  rcases h.guarded c with ⟨hquiet, heq⟩ | ⟨hthrows, hbegins, -, hiff⟩
  · rw [heq]
    refine iff_of_false Bool.false_ne_true fun ⟨hthrows, hbegins, _⟩ => ?_
    rcases hquiet with hthrows' | hbegins'
    · rw [hthrows] at hthrows'
      cases hthrows'
    · exact hbegins hbegins'
  · rw [hiff, and_iff_right hthrows, and_iff_right hbegins]

/-- A file of the vendor directory that declares something was delivered. -/
theorem Inv.delivered_of_declares {rest : Str} (h : Inv vendorPath s) (hdecl : s.Declares (vendorPath ++ 47 :: rest))
    (hcomposer : ¬ lit "composer/" <+: rest) : Delivered vendorPath s rest := by
  have hfile : vendorPath ++ lit "/" ++ rest = vendorPath ++ 47 :: rest := by
    rw [show lit "/" = [47] from by decide, List.append_assoc]
    rfl
  exact ⟨hfile ▸ h.known _ hdecl, hcomposer⟩

/-- For the reading of the path that the guard uses, its answer is right in these two cases only. -/
theorem Inv.discards_delivered_iff {rest : Str} (h : Inv vendorPath s) (hrest : afterVendor c.file = some rest) :
    ((s.guarded vendorPath c).2 = true ↔ Delivered vendorPath s rest) ↔
      (Delivered vendorPath s rest →
        c.throws = false ∧ ¬ vendorPath <+: c.file ∧ ∃ b, s.Declares (vendorPath ++ b :: rest)) ∧
      (¬ Delivered vendorPath s rest →
        c.throws = true ∨ vendorPath <+: c.file ∨ ∀ b, b ≠ 47 → ¬ s.Declares (vendorPath ++ b :: rest)) := by
  rw [h.discards_iff c]
  constructor
  · intro hiff
    refine ⟨fun hdel => ?_, fun hdel => ?_⟩
    · obtain ⟨hthrows, hbegins, rest', hrest', b, hdecl, -⟩ := hiff.mpr hdel
      obtain rfl := Option.some.inj (hrest.symm.trans hrest')
      exact ⟨hthrows, hbegins, b, hdecl⟩
    · by_contra hno
      obtain ⟨hthrows, hbegins, hdecl⟩ : c.throws = false ∧ ¬ vendorPath <+: c.file ∧
          ∃ b, b ≠ 47 ∧ s.Declares (vendorPath ++ b :: rest) := by
        simpa only [not_or, not_forall, not_not, Bool.not_eq_true, exists_prop] using hno
      obtain ⟨b, hb, hdecl⟩ := hdecl
      exact hdel (hiff.mp ⟨hthrows, hbegins, rest, hrest, b, hdecl, fun heq => absurd heq hb⟩)
  · rintro ⟨hfound, halone⟩
    constructor
    · rintro ⟨hthrows, hbegins, rest', hrest', b, hdecl, hcomposer⟩
      obtain rfl := Option.some.inj (hrest.symm.trans hrest')
      by_contra hdel
      rcases halone hdel with hthrows' | hbegins' | hno
      · rw [hthrows] at hthrows'
        cases hthrows'
      · exact hbegins hbegins'
      · obtain rfl : b = 47 := by
          by_contra hb
          exact hno b hb hdecl
        exact hdel (h.delivered_of_declares hdecl (hcomposer rfl))
    · intro hdel
      obtain ⟨hthrows, hbegins, b, hdecl⟩ := hfound hdel
      exact ⟨hthrows, hbegins, rest, hrest, b, hdecl, fun _ => hdel.2⟩

/-- A decision is right exactly for a path that is not mistaken. -/
theorem Inv.decidesRightly_iff (h : Inv vendorPath s) (c : Compilation) :
    DecidesRightly vendorPath s c ↔ StepUnmistaken vendorPath s (.compile c) := by
  constructor
  · intro hright houtside rest hrest
    obtain ⟨root, hroot⟩ := afterVendor_spec hrest
    have hdiscard := hright.outside houtside root rest hroot
    obtain ⟨hfound, halone⟩ := (h.discards_delivered_iff hrest).mp hdiscard
    exact ⟨fun root' rest' hroot' => (hright.outside houtside root' rest' hroot').symm.trans hdiscard, hfound, halone⟩
  · intro hok
    refine ⟨fun hin => ?_, fun houtside root rest hroot => ?_⟩
    · rw [Bool.eq_false_iff]
      intro hdiscard
      obtain ⟨-, hbegins, -⟩ := (h.discards_iff c).mp hdiscard
      exact hbegins ((List.prefix_append _ _).trans hin)
    · obtain ⟨first, hfirst⟩ := afterVendor_isSome root rest
      rw [← hroot] at hfirst
      obtain ⟨hone, hfound, halone⟩ := hok houtside first hfirst
      rw [hone root rest hroot]
      exact (h.discards_delivered_iff hfirst).mpr ⟨hfound, halone⟩

/-- **Right decisions**: in a run of requests all compilations are decided rightly if none is of a path that is mistaken, and
not otherwise. -/
theorem decides_rightly_iff (vendorPath : Str) (classes functions : ℕ) (acts : List Action) (s : Request) :
    Path (Bridge.step vendorPath) (StepRight vendorPath) (Request.init classes functions) acts s ↔
      Path (Bridge.step vendorPath) (StepUnmistaken vendorPath) (Request.init classes functions) acts s := by
  refine path_congr (I := Inv vendorPath) (fun s a t hI hst => hI.step hst) (fun s a t hI _ => ?_) (inv_init _ _ _)
  cases a with
  | compile c => exact hI.decidesRightly_iff c
  | declare file classes functions => exact .rfl
  | nextRequest => exact .rfl

end Invariant

/-! ## A sibling directory -/

def distroVendor : Str := lit "/opt/d/84/vendor"

/-- The distro's `pkg/A.php` is compiled, and a file of the directory `vendor-app` beside the vendor directory. -/
def siblingActions : List Action :=
  [.compile { file := lit "/opt/d/84/vendor/pkg/A.php", classes := 1 },
    .compile { file := lit "/opt/d/84/vendor-app/B.php", classes := 1 }]

def copyInSibling : Compilation := { file := lit "/opt/d/84/vendor-app/vendor/pkg/A.php" }

def applicationFile : Compilation := { file := lit "/srv/vendor/app/B.php" }

/-- The application's copy of `A.php` in that directory is compiled a second time; its `app/B.php`, which the distro has never
loaded, is discarded. -/
theorem sibling_mistaken : ∃ s, run (step distroVendor) (Request.init 3 2) siblingActions = some s ∧
    (s.guarded distroVendor copyInSibling).2 = false ∧ Delivered distroVendor s (lit "pkg/A.php") ∧
    (s.guarded distroVendor applicationFile).2 = true ∧ ¬ Delivered distroVendor s (lit "app/B.php") ∧
    ¬ DecidesRightly distroVendor s copyInSibling ∧ ¬ DecidesRightly distroVendor s applicationFile := by
  have hrun : (run (step distroVendor) (Request.init 3 2) siblingActions).map (fun s =>
      (s.compiled, (s.guarded distroVendor copyInSibling).2, (s.guarded distroVendor applicationFile).2)) =
        some ([lit "/opt/d/84/vendor-app/B.php", lit "/opt/d/84/vendor/pkg/A.php"], false, true) := by decide +kernel
  obtain ⟨s, hs, heq⟩ := Option.map_eq_some_iff.mp hrun
  simp only [Prod.mk.injEq] at heq
  obtain ⟨hcompiled, hkept, hdiscarded⟩ := heq
  have hdelivered : Delivered distroVendor s (lit "pkg/A.php") := by
    rw [Delivered, hcompiled]
    decide
  have hother : ¬ Delivered distroVendor s (lit "app/B.php") := by
    rw [Delivered, hcompiled]
    decide
  refine ⟨s, hs, hkept, hdelivered, hdiscarded, hother, fun hright => ?_, fun hright => ?_⟩
  · have hcopy := hright.outside (by decide) (lit "/opt/d/84/vendor-app") (lit "pkg/A.php") (by decide)
    rw [hkept] at hcopy
    exact absurd (hcopy.mpr hdelivered) Bool.false_ne_true
  · exact hother ((hright.outside (by decide) (lit "/srv") (lit "app/B.php") (by decide)).mp hdiscarded)

end OtelDistro.Bridge
