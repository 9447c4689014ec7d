import OtelDistro.Coordinator.ConfigurationProvider

/-!
# OtelDistro.Coordinator.StoreAtomicity — `storeConfigFiles` in a segment that fills up

* `Segment`: what the allocator of the shared segment does, as far as `storeConfigFiles` asks it; any call may fail.
* `SharedData.storeConfigFilesIn`: the loop allocation by allocation, and whether it reached its end.
* `storeConfigFilesIn_eq`: it is `storeConfigFiles` with the file at which the segment was exhausted.

`exhausted_store_tears`: a call that fails has raised the revision and stored the files before the failure, and a worker
that had applied the old revision is given them among the old ones.  `exhausted_store_serves_mixture` is such a call.
-/

namespace OtelDistro.Coordinator

open OtelDistro.Lib

/-- The allocator of the segment; `none` is `bad_alloc`. -/
structure Segment (σ : Type) where
  /-- The constructor of a `ShmemString`. -/
  newString : σ → Str → Option σ
  /-- The map node of a new file. -/
  newNode : σ → Option σ
  /-- The destructors at the end of an iteration, for a file that was known or a new one. -/
  release : σ → Bool → σ

section Store

variable {σ : Type} (seg : Segment σ)

/-- The allocations of one iteration. -/
def Segment.allocate (s : σ) (known : Bool) (file : Str × Str) : Option σ := do
  let s ← seg.newString s file.1
  let s ← seg.newString s file.2
  let s ← if known then some s else seg.newNode s
  return seg.release s known

/-- The loop of `storeConfigFiles`: the map it leaves, and whether it reached its end. -/
def storeLoop : σ → ConfigFiles → List (Str × Str) → ConfigFiles × Bool
  | _, configFiles, [] => (configFiles, true)
  | s, configFiles, file :: files =>
    match seg.allocate s (configFiles.lookup file.1).isSome file with
    | none => (configFiles, false)
    | some s => storeLoop s (configFiles.insert file.1 file.2) files

def SharedData.storeConfigFilesIn (d : SharedData) (s : σ) (configFiles : ConfigFiles) : SharedData × Bool :=
  (⟨d.configRevision + 1, (storeLoop seg s d.configFiles configFiles.pairs).1⟩,
    (storeLoop seg s d.configFiles configFiles.pairs).2)

/-- The loop stores a prefix of its files, all of them when it reaches its end. -/
theorem storeLoop_eq (s : σ) (configFiles : ConfigFiles) (files : List (Str × Str)) : ∃ n ≤ files.length,
    storeLoop seg s configFiles files = (configFiles.insertAll (files.take n), decide (n = files.length)) := by
  induction files generalizing s configFiles with
  | nil => exact ⟨0, Nat.le_refl 0, rfl⟩
  | cons file files ih =>
    cases ha : seg.allocate s (configFiles.lookup file.1).isSome file with
    | none =>
      refine ⟨0, Nat.zero_le _, ?_⟩
      rw [storeLoop, ha]
      rfl
    | some s' =>
      obtain ⟨n, hn, heq⟩ := ih s' (configFiles.insert file.1 file.2)
      refine ⟨n + 1, Nat.succ_le_succ hn, ?_⟩
      rw [storeLoop, ha]
      refine heq.trans (Prod.ext rfl ?_)
      simp only [List.length_cons, Nat.add_right_cancel_iff]

/-- Whatever the allocator does, the call is the one that is exhausted at some file, or not at all. -/
theorem storeConfigFilesIn_eq (d : SharedData) (s : σ) (configFiles : ConfigFiles) : ∃ x : Option ℕ,
    d.storeConfigFilesIn seg s configFiles = (d.storeConfigFiles configFiles x, storeCompletes configFiles x) := by
  obtain ⟨n, hn, heq⟩ := storeLoop_eq seg s d.configFiles configFiles.pairs
  refine ⟨some n, ?_⟩
  rw [SharedData.storeConfigFilesIn, heq]
  refine Prod.ext rfl ?_
  rw [storeCompletes, decide_eq_decide]
  exact ⟨fun h => h ▸ Nat.le_refl n, fun h => Nat.le_antisymm hn h⟩

end Store

/-! ## Main results -/

/-- The call has left revision and files as they were. -/
def SameData (d d' : SharedData) : Prop := d'.configRevision = d.configRevision ∧ SameFiles d'.configFiles d.configFiles

/-- **A failed store is half done**: whatever allocation fails, at whatever file, the revision is raised, the files before
are stored over the old ones, and a worker that had applied the old revision is given the mixture. -/
theorem exhausted_store_tears {σ : Type} (seg : Segment σ) (s : σ) (d : SharedData) (configFiles : ConfigFiles)
    (h : (d.storeConfigFilesIn seg s configFiles).2 = false) :
    ¬ SameData d (d.storeConfigFilesIn seg s configFiles).1 ∧ ∃ n < configFiles.pairs.length,
      (∀ f, (d.storeConfigFilesIn seg s configFiles).1.configFiles.lookup f =
        (firstAt f (configFiles.pairs.take n)).or (d.configFiles.lookup f)) ∧
      (d.storeConfigFilesIn seg s configFiles).1.triggerUpdateIfChanged d.configRevision =
        (d.configRevision + 1, some (d.storeConfigFilesIn seg s configFiles).1.getConfigurationNoLock) := by
  obtain ⟨x, heq⟩ := storeConfigFilesIn_eq seg d s configFiles
  rw [heq] at h ⊢
  have hne : d.configRevision + 1 ≠ d.configRevision := by simp
  refine ⟨fun hsame => hne hsame.1, ?_⟩
  cases x with
  | none => cases h
  | some n =>
    have hlt : n < configFiles.pairs.length := Nat.lt_of_not_le (of_decide_eq_false h)
    refine ⟨n, hlt, fun f => ?_, if_pos hne⟩
    refine KMap.lookup_insertAll_of_nodup ?_ _ _
    exact configFiles.nodup_pairs.sublist ((List.take_sublist n _).map Prod.fst)

/-- A segment of so many bytes that gives nothing back. -/
def countedBytes : Segment ℕ where
  newString n text := if text.length ≤ n then some (n - text.length) else none
  newNode n := if 8 ≤ n then some (n - 8) else none
  release n _ := n

/-- Two files, in two versions. -/
def twoFiles (content : Str) : ConfigFiles := (AList.singleton (lit "b") content).insert (lit "a") content

/-- **A mixture is served**: the second file of a new version finds no memory, and a worker is given the first file of the
new version and the second of the old one. -/
theorem exhausted_store_serves_mixture :
    let old : SharedData := ⟨7, twoFiles (lit "old")⟩
    let (d, completed) := old.storeConfigFilesIn countedBytes 6 (twoFiles (lit "new"))
    completed = false ∧ ¬ SameData old d ∧ ∃ files, d.triggerUpdateIfChanged 7 = (8, some files) ∧
      files.lookup (lit "a") = some (lit "new") ∧ files.lookup (lit "b") = some (lit "old") := by
  refine ⟨rfl, fun h => ?_, _, rfl, ?_, ?_⟩
  · cases h.1
  · decide
  · decide

/-- The same call, by the theorem. -/
theorem exhausted_store_tears_at_second :
    ¬ SameData ⟨7, twoFiles (lit "old")⟩ (SharedData.storeConfigFilesIn countedBytes ⟨7, twoFiles (lit "old")⟩ 6
      (twoFiles (lit "new"))).1 :=
  (exhausted_store_tears countedBytes 6 ⟨7, twoFiles (lit "old")⟩ (twoFiles (lit "new")) rfl).1

end OtelDistro.Coordinator
