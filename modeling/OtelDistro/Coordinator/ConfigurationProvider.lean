import OtelDistro.Bytes
import OtelDistro.Lib.KeyedStore

/-!
# OtelDistro.Coordinator.ConfigurationProvider — the shared-memory copy of the remote configuration

`SharedData` is what the coordinator and its workers share: a revision counter and a map of configuration files.

* `storeConfigFiles` (coordinator): bump the revision, insert or assign every file.  `exhaustedAt = some n` is the run
  in which an allocation of the shared segment fails at the `n`-th file; the files before it stay stored.
* `getConfigurationNoLock` (worker): copy the map out, names and contents through `c_str()`.
* `triggerUpdateIfChanged` (worker): copy when the revision differs from the local one.

Both sides hold the interprocess mutex for the whole operation, so each is one atomic step.
-/

namespace OtelDistro.Coordinator

open OtelDistro.Lib

/-- `configFiles_t`: file name to content. -/
abbrev ConfigFiles := KMap Str Str

/-- The two maps hold the same files with the same contents. -/
def SameFiles (a b : ConfigFiles) : Prop := ∀ f, a.lookup f = b.lookup f

/-- Every name and every content is free of NUL bytes. -/
def NulFreeFiles (m : ConfigFiles) : Prop := ∀ f c, m.lookup f = some c → NulFree f ∧ NulFree c

structure SharedData where
  configRevision : UInt64 := 1
  configFiles : ConfigFiles := ∅

/-- Did the loop of `storeConfigFiles` reach its end? -/
def storeCompletes (configFiles : ConfigFiles) : Option ℕ → Bool
  | none => true
  | some n => decide (configFiles.pairs.length ≤ n)

/-- The files inserted before the segment is exhausted. -/
def storedPairs (configFiles : ConfigFiles) : Option ℕ → List (Str × Str)
  | none => configFiles.pairs
  | some n => configFiles.pairs.take n

def SharedData.storeConfigFiles (d : SharedData) (configFiles : ConfigFiles) (exhaustedAt : Option ℕ) : SharedData :=
  ⟨d.configRevision + 1, d.configFiles.insertAll (storedPairs configFiles exhaustedAt)⟩

/-- The map is ordered by file name; `emplace` keeps the first content of a name. -/
def SharedData.getConfigurationNoLock (d : SharedData) : ConfigFiles :=
  KMap.emplaceAll ∅ ((d.configFiles.orderedPairs (fun a b => a ≤ b)).map (fun p => (cStr p.1, cStr p.2)))

/-- The new local revision, and the map the watchers are called with. -/
def SharedData.triggerUpdateIfChanged (d : SharedData) (localConfigRevision : UInt64) : UInt64 × Option ConfigFiles :=
  if d.configRevision ≠ localConfigRevision then (d.configRevision, some d.getConfigurationNoLock)
  else (localConfigRevision, none)

theorem storedPairs_of_completes {m : ConfigFiles} {x : Option ℕ} (h : storeCompletes m x = true) :
    storedPairs m x = m.pairs := by
  cases x with
  | none => rfl
  | some n => exact List.take_of_length_le (by simpa [storeCompletes] using h)

/-- A completed store: a new file replaces the old one, a file absent from the new map stays. -/
theorem lookup_storeConfigFiles {d : SharedData} {m : ConfigFiles} {x : Option ℕ}
    (h : storeCompletes m x = true) (f : Str) :
    (d.storeConfigFiles m x).configFiles.lookup f = (m.lookup f).or (d.configFiles.lookup f) := by
  rw [SharedData.storeConfigFiles, storedPairs_of_completes h, KMap.lookup_insertAll_pairs]

theorem map_cStr_pairs {l : List (Str × Str)} (h : ∀ p ∈ l, NulFree p.1 ∧ NulFree p.2) :
    l.map (fun p => (cStr p.1, cStr p.2)) = l := by
  refine (List.map_congr_left fun p hp => ?_).trans (List.map_id l)
  obtain ⟨h1, h2⟩ := h p hp
  rw [cStr_eq_self_iff.mpr h1, cStr_eq_self_iff.mpr h2]
  rfl

/-- Without NUL bytes the copy is exact. -/
theorem getConfigurationNoLock_same {d : SharedData} (h : NulFreeFiles d.configFiles) :
    SameFiles d.getConfigurationNoLock d.configFiles := by
  intro f
  have hfree : ∀ p ∈ d.configFiles.orderedPairs (fun a b => a ≤ b), NulFree p.1 ∧ NulFree p.2 := by
    intro p hp
    refine h p.1 p.2 ?_
    rw [KMap.lookup_eq_firstAt]
    exact (firstAt_eq_some_iff d.configFiles.nodup_pairs).mpr
      ((d.configFiles.orderedPairs_perm _).mem_iff.mp hp)
  rw [SharedData.getConfigurationNoLock, map_cStr_pairs hfree, KMap.lookup_emplaceAll, KMap.firstAt_orderedPairs]
  simp

theorem NulFreeFiles.congr {a b : ConfigFiles} (h : NulFreeFiles a) (hs : SameFiles a b) : NulFreeFiles b :=
  fun f c hc => h f c ((hs f).trans hc)

end OtelDistro.Coordinator
