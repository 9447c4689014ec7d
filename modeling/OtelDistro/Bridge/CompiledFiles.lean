import OtelDistro.Bytes

/-!
# OtelDistro.Bridge.CompiledFiles — the files behind the classes and functions of a request

`PhpBridge::getNewlyCompiledFiles`: PHP keeps no list of the files it has compiled, so they are read off the class table
and the function table, from the positions where the last call has stopped.

* `HashTable`: the used part of a table's buckets, holes included.
* `files`: the files of the user classes or functions of a table.

`scan_fst`, `scan_snd`: a scan calls back with the files of the entries it passes, and moves by their number.
-/

namespace OtelDistro.Bridge

/-- A class entry or a function; `user` is `ZEND_USER_CLASS` or `ZEND_USER_FUNCTION`. -/
structure TableEntry where
  user : Bool
  filename : Option Str := none
deriving DecidableEq

/-- The buckets up to `nNumUsed`; an entry that was deleted leaves a hole. -/
abbrev HashTable := List (Option TableEntry)

/-- The file that `recordFile` is called with. -/
def TableEntry.recorded (e : TableEntry) : Option Str := if e.user then e.filename else none

/-- `ZEND_HASH_FOREACH_PTR_FROM` over the buckets that are left: the files, and the position, which counts entries. -/
def scan (lastIndex : ℕ) : HashTable → List Str × ℕ
  | [] => ([], lastIndex)
  | none :: buckets => scan lastIndex buckets
  | some e :: buckets => (e.recorded.toList ++ (scan (lastIndex + 1) buckets).1, (scan (lastIndex + 1) buckets).2)

/-- The files in the order of the calls, and the positions to go on from. -/
def getNewlyCompiledFiles (classTable functionTable : HashTable) (lastClassIndex lastFunctionIndex : ℕ) :
    List Str × ℕ × ℕ :=
  ((scan lastClassIndex (classTable.drop lastClassIndex)).1 ++
      (scan lastFunctionIndex (functionTable.drop lastFunctionIndex)).1,
    (scan lastClassIndex (classTable.drop lastClassIndex)).2, (scan lastFunctionIndex (functionTable.drop lastFunctionIndex)).2)

/-! ## What a scan finds -/

section Scan

/-- The entries of a table, without the holes. -/
def entries (table : HashTable) : List TableEntry := table.filterMap fun b => b

/-- The files of the user entries. -/
def files (table : HashTable) : List Str := (entries table).filterMap TableEntry.recorded

variable {table table' : HashTable} {lastIndex : ℕ} {name : Str}

@[simp] theorem entries_none (table : HashTable) : entries (none :: table) = entries table := rfl

@[simp] theorem entries_some (e : TableEntry) (table : HashTable) : entries (some e :: table) = e :: entries table := rfl

@[simp] theorem files_append (table table' : HashTable) : files (table ++ table') = files table ++ files table' := by
  simp [files, entries]

theorem mem_files_iff : name ∈ files table ↔ some ⟨true, some name⟩ ∈ table := by
  unfold files entries
  rw [List.mem_filterMap]
  constructor
  · rintro ⟨⟨user, filename⟩, he, hname⟩
    obtain ⟨b, hb, rfl⟩ := List.mem_filterMap.mp he
    cases user with
    | false => cases hname
    | true =>
      have hfile : filename = some name := hname
      rwa [hfile] at hb
  · intro h
    exact ⟨⟨true, some name⟩, List.mem_filterMap.mpr ⟨_, h, rfl⟩, rfl⟩

/-- A scan calls back with the files of the entries it passes. -/
theorem scan_fst (lastIndex : ℕ) (buckets : HashTable) : (scan lastIndex buckets).1 = files buckets := by
  induction buckets generalizing lastIndex with
  | nil => rfl
  | cons b buckets ih =>
    cases b with
    | none => exact ih lastIndex
    | some e =>
      rw [scan, ih, files, files, entries_some, List.filterMap_cons]
      cases e.recorded <;> rfl

/-- The position moves by the entries that are passed. -/
theorem scan_snd (lastIndex : ℕ) (buckets : HashTable) :
    (scan lastIndex buckets).2 = lastIndex + (entries buckets).length := by
  induction buckets generalizing lastIndex with
  | nil => rfl
  | cons b buckets ih =>
    cases b with
    | none => exact ih lastIndex
    | some e =>
      rw [scan, ih, entries_some, List.length_cons]
      omega

theorem length_entries_of_full (hfull : none ∉ table) : (entries table).length = table.length := by
  induction table with
  | nil => rfl
  | cons b table ih =>
    cases b with
    | none => exact absurd List.mem_cons_self hfull
    | some e => rw [entries_some, List.length_cons, List.length_cons, ih fun h => hfull (List.mem_cons_of_mem _ h)]

/-- In a table without holes the position is the end of the table. -/
theorem scan_snd_of_full (hfull : none ∉ table) (hle : lastIndex ≤ table.length) :
    (scan lastIndex (table.drop lastIndex)).2 = table.length := by
  rw [scan_snd, length_entries_of_full fun h => hfull (List.mem_of_mem_drop h), List.length_drop]
  omega

end Scan

end OtelDistro.Bridge
