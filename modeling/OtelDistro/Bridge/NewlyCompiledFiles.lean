import OtelDistro.Bridge.CompiledFiles

/-!
# OtelDistro.Bridge.NewlyCompiledFiles — scans of tables that change between them

A request appends entries to the class and the function table and deletes entries of them, which leaves holes; between these
steps `getNewlyCompiledFiles` is called, each time from the positions that the last call returned.  A position counts the
entries a scan has passed, while the scan starts at the bucket of that number, so holes make a later scan start too early,
and never too late.

* `Scanned`: a table with its position and the buckets whose entries were reported so far.
* `Inv`: every entry before the position was reported.
* `entries_reported`: after each call every entry that is still there was reported.
-/

namespace OtelDistro.Bridge

/-- The file that the entry of a bucket is reported with. -/
def fileAt (table : HashTable) (bucket : ℕ) : Option Str := table[bucket]?.join.bind TableEntry.recorded

/-- The buckets of the entries that a scan from `lastIndex` on reports. -/
def reportedFrom (lastIndex : ℕ) (table : HashTable) : List ℕ :=
  (List.range' lastIndex (table.length - lastIndex)).filter fun bucket => (fileAt table bucket).isSome

/-! ## A request -/

/-- A table, the position of the last scan, and the buckets whose entries have been reported. -/
structure Scanned where
  table : HashTable
  lastIndex : ℕ := 0
  reported : List ℕ := []

structure Tables where
  classTable : Scanned
  functionTable : Scanned
  /-- The calls of `recordFile`. -/
  recorded : List Str := []

inductive TableAction
  | appendClass (e : TableEntry)
  | appendFunction (e : TableEntry)
  | deleteClass (bucket : ℕ)
  | deleteFunction (bucket : ℕ)
  | getNewlyCompiledFiles

/-- A new entry gets the bucket behind the last one: the table is not compacted. -/
def Scanned.append (t : Scanned) (e : TableEntry) : Scanned := { t with table := t.table ++ [some e] }

def Scanned.delete (t : Scanned) (bucket : ℕ) : Scanned := { t with table := t.table.set bucket none }

/-- A scan has returned the position `lastIndex`. -/
def Scanned.scanned (t : Scanned) (lastIndex : ℕ) : Scanned :=
  { t with lastIndex, reported := t.reported ++ reportedFrom t.lastIndex t.table }

def Tables.step (s : Tables) : TableAction → Tables
  | .appendClass e => { s with classTable := s.classTable.append e }
  | .appendFunction e => { s with functionTable := s.functionTable.append e }
  | .deleteClass bucket => { s with classTable := s.classTable.delete bucket }
  | .deleteFunction bucket => { s with functionTable := s.functionTable.delete bucket }
  | .getNewlyCompiledFiles =>
    let (files, lastClassIndex, lastFunctionIndex) := getNewlyCompiledFiles s.classTable.table s.functionTable.table
      s.classTable.lastIndex s.functionTable.lastIndex
    { classTable := s.classTable.scanned lastClassIndex
      functionTable := s.functionTable.scanned lastFunctionIndex
      recorded := s.recorded ++ files }

/-- A request starts with whatever the tables hold. -/
def Tables.init (classTable functionTable : HashTable) : Tables where
  classTable := { table := classTable }
  functionTable := { table := functionTable }

/-- The entry of every bucket was reported: `recordFile` was called for it, with its file. -/
def Tables.Reported (s : Tables) (t : Scanned) : Prop :=
  ∀ bucket name, t.table[bucket]? = some (some ⟨true, some name⟩) → bucket ∈ t.reported ∧ name ∈ s.recorded

/-! ## What the scans find -/

section Find

variable {table : HashTable} {lastIndex bucket : ℕ} {name : Str} {t : Scanned} {recorded recorded' : List Str}

theorem fileAt_eq_some_iff : fileAt table bucket = some name ↔ table[bucket]? = some (some ⟨true, some name⟩) := by
  rw [fileAt]
  cases h : table[bucket]? with
  | none => simp
  | some b =>
    cases b with
    | none => simp
    | some e =>
      obtain ⟨user, filename⟩ := e
      cases user <;> simp [TableEntry.recorded]

theorem mem_reportedFrom :
    bucket ∈ reportedFrom lastIndex table ↔ lastIndex ≤ bucket ∧ ∃ name, fileAt table bucket = some name := by
  rw [reportedFrom, List.mem_filter, List.mem_range'_1, Option.isSome_iff_exists]
  refine ⟨fun h => ⟨h.1.1, h.2⟩, fun ⟨hle, name, hname⟩ => ⟨⟨hle, ?_⟩, name, hname⟩⟩
  have hlt := (List.getElem?_eq_some_iff.mp (fileAt_eq_some_iff.mp hname)).1
  omega

theorem filterMap_fileAt (lastIndex n : ℕ) (hn : lastIndex + n = table.length) :
    (List.range' lastIndex n).filterMap (fileAt table) = files (table.drop lastIndex) := by
  induction n generalizing lastIndex with
  | zero =>
    rw [List.drop_eq_nil_of_le (show table.length ≤ lastIndex by omega)]
    rfl
  | succ n ih =>
    have hlt : lastIndex < table.length := by omega
    rw [List.range'_succ, List.filterMap_cons, ih (lastIndex + 1) (by omega), ← List.getElem_cons_drop hlt, fileAt,
      List.getElem?_eq_getElem hlt]
    cases h : table[lastIndex] with
    | none => rfl
    | some e =>
      rw [files, files, entries_some, List.filterMap_cons]
      rfl

/-- **The calls of a scan** are those for the entries of these buckets. -/
theorem scan_reportedFrom (h : lastIndex ≤ table.length) :
    (scan lastIndex (table.drop lastIndex)).1 = (reportedFrom lastIndex table).filterMap (fileAt table) := by
  rw [scan_fst, ← filterMap_fileAt lastIndex (table.length - lastIndex) (by omega), reportedFrom, List.filterMap_filter]
  congr 1
  funext bucket
  cases fileAt table bucket <;> rfl

theorem mem_scan (h : fileAt table bucket = some name) (hle : lastIndex ≤ bucket) :
    name ∈ (scan lastIndex (table.drop lastIndex)).1 := by
  have hlt := (List.getElem?_eq_some_iff.mp (fileAt_eq_some_iff.mp h)).1
  rw [scan_reportedFrom (by omega)]
  exact List.mem_filterMap.mpr ⟨bucket, mem_reportedFrom.mpr ⟨hle, name, h⟩, h⟩

/-- A scan does not move beyond the end of the table. -/
theorem scan_snd_le (h : lastIndex ≤ table.length) : (scan lastIndex (table.drop lastIndex)).2 ≤ table.length := by
  have hlen : (entries (table.drop lastIndex)).length ≤ table.length - lastIndex := by
    rw [← List.length_drop]
    exact List.length_filterMap_le _ _
  rw [scan_snd]
  omega

/-! ## The invariant -/

/-- The position is within the table, and the entries before it were reported. -/
structure Scanned.Inv (t : Scanned) (recorded : List Str) : Prop where
  position : t.lastIndex ≤ t.table.length
  reported : ∀ bucket < t.lastIndex, ∀ name, fileAt t.table bucket = some name → bucket ∈ t.reported ∧ name ∈ recorded

theorem Scanned.Inv.append (h : t.Inv recorded) (e : TableEntry) : (t.append e).Inv recorded where
  position := by
    have := h.position
    simp only [Scanned.append, List.length_append]
    omega
  reported bucket hlt name hname := by
    refine h.reported bucket hlt name ?_
    have hbucket : bucket < t.table.length := Nat.lt_of_lt_of_le hlt h.position
    rwa [fileAt, Scanned.append, List.getElem?_append_left hbucket] at hname

theorem Scanned.Inv.delete (h : t.Inv recorded) (hole : ℕ) : (t.delete hole).Inv recorded where
  position := by
    rw [Scanned.delete, List.length_set]
    exact h.position
  reported bucket hlt name hname := by
    refine h.reported bucket hlt name ?_
    rw [fileAt_eq_some_iff, Scanned.delete, List.getElem?_set] at hname
    split at hname
    · split at hname <;> cases hname
    · exact fileAt_eq_some_iff.mpr hname

/-- A scan reports the entries that were not reported before, and moves to a position within the table. -/
theorem Scanned.Inv.scanned (h : t.Inv recorded)
    (hscan : ∀ name ∈ (scan t.lastIndex (t.table.drop t.lastIndex)).1, name ∈ recorded') (hold : recorded ⊆ recorded') :
    (t.scanned (scan t.lastIndex (t.table.drop t.lastIndex)).2).Inv recorded' ∧
      ∀ bucket name, fileAt t.table bucket = some name →
        bucket ∈ t.reported ++ reportedFrom t.lastIndex t.table ∧ name ∈ recorded' := by
  have hall : ∀ bucket name, fileAt t.table bucket = some name →
      bucket ∈ t.reported ++ reportedFrom t.lastIndex t.table ∧ name ∈ recorded' := by
    intro bucket name hname
    rcases Nat.lt_or_ge bucket t.lastIndex with hlt | hge
    · obtain ⟨hreported, hrecorded⟩ := h.reported bucket hlt name hname
      exact ⟨List.mem_append_left _ hreported, hold hrecorded⟩
    · exact ⟨List.mem_append_right _ (mem_reportedFrom.mpr ⟨hge, name, hname⟩), hscan name (mem_scan hname hge)⟩
  exact ⟨⟨scan_snd_le h.position, fun bucket _ => hall bucket⟩, hall⟩

end Find

/-! ## Runs -/

section Runs

variable {s : Tables}

def Tables.Inv (s : Tables) : Prop := s.classTable.Inv s.recorded ∧ s.functionTable.Inv s.recorded

theorem Tables.inv_init (classTable functionTable : HashTable) : (Tables.init classTable functionTable).Inv :=
  ⟨⟨Nat.zero_le _, fun bucket h => absurd h (Nat.not_lt_zero bucket)⟩,
    ⟨Nat.zero_le _, fun bucket h => absurd h (Nat.not_lt_zero bucket)⟩⟩

/-- A call keeps the invariant and leaves nothing unreported. -/
theorem Tables.Inv.call (h : s.Inv) : (s.step .getNewlyCompiledFiles).Inv ∧
    (s.step .getNewlyCompiledFiles).Reported (s.step .getNewlyCompiledFiles).classTable ∧
    (s.step .getNewlyCompiledFiles).Reported (s.step .getNewlyCompiledFiles).functionTable := by
  have hold : s.recorded ⊆ (s.step .getNewlyCompiledFiles).recorded := List.subset_append_left _ _
  obtain ⟨hclass, hclasses⟩ := h.1.scanned
    (fun name hname => List.mem_append_right _ (List.mem_append_left _ hname)) hold
  obtain ⟨hfunction, hfunctions⟩ := h.2.scanned
    (fun name hname => List.mem_append_right _ (List.mem_append_right _ hname)) hold
  exact ⟨⟨hclass, hfunction⟩, fun bucket name hb => hclasses bucket name (fileAt_eq_some_iff.mpr hb),
    fun bucket name hb => hfunctions bucket name (fileAt_eq_some_iff.mpr hb)⟩

theorem Tables.Inv.step (h : s.Inv) (a : TableAction) : (s.step a).Inv := by
  cases a with
  | appendClass e => exact ⟨h.1.append e, h.2⟩
  | appendFunction e => exact ⟨h.1, h.2.append e⟩
  | deleteClass bucket => exact ⟨h.1.delete bucket, h.2⟩
  | deleteFunction bucket => exact ⟨h.1, h.2.delete bucket⟩
  | getNewlyCompiledFiles => exact h.call.1

theorem Tables.Inv.run (h : s.Inv) (acts : List TableAction) : (acts.foldl Tables.step s).Inv := by
  induction acts generalizing s with
  | nil => exact h
  | cons a acts ih => exact ih (h.step a)

/-- **After each call** every class and function of user code that is still in the tables was reported, and the positions are
within the tables. -/
theorem entries_reported (classTable functionTable : HashTable) (acts : List TableAction) :
    let s := (acts ++ [TableAction.getNewlyCompiledFiles]).foldl Tables.step (Tables.init classTable functionTable)
    s.Reported s.classTable ∧ s.Reported s.functionTable ∧
      s.classTable.lastIndex ≤ s.classTable.table.length ∧ s.functionTable.lastIndex ≤ s.functionTable.table.length := by
  intro s
  have hs : s = (acts.foldl Tables.step (Tables.init classTable functionTable)).step .getNewlyCompiledFiles := by
    simp only [s, List.foldl_append, List.foldl_cons, List.foldl_nil]
  obtain ⟨hinv, hclasses, hfunctions⟩ := ((Tables.inv_init classTable functionTable).run acts).call
  rw [hs]
  exact ⟨hclasses, hfunctions, hinv.1.position, hinv.2.position⟩

end Runs

end OtelDistro.Bridge
