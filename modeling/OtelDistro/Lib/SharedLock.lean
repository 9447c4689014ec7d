import Mathlib.Data.Finset.Basic

/-!
# OtelDistro.Lib.SharedLock — a readers/writer lock

Any number of owners hold the lock sharably, or one holds it exclusively.  A lock of type `SharedLock ι` cannot be held
both ways; an operation that would have to wait is `none`.
-/

namespace OtelDistro.Lib

/-- `sharable`: who holds the lock sharably.  `exclusive`: who holds it exclusively. -/
structure SharedLock (ι : Type) where
  sharable : Finset ι := ∅
  exclusive : Option ι := none
  excluded : exclusive ≠ none → sharable = ∅ := by simp

namespace SharedLock

variable {ι : Type}

section

variable [DecidableEq ι]

def lockSharable (l : SharedLock ι) (i : ι) : Option (SharedLock ι) :=
  if l.exclusive = none then
    some { sharable := insert i l.sharable, exclusive := none, excluded := fun hne => absurd rfl hne }
  else none

def unlockSharable (l : SharedLock ι) (i : ι) : SharedLock ι where
  sharable := l.sharable.erase i
  exclusive := l.exclusive
  excluded h := by rw [l.excluded h]; rfl

def lock (l : SharedLock ι) (i : ι) : Option (SharedLock ι) :=
  if l.exclusive = none ∧ l.sharable = ∅ then
    some { sharable := ∅, exclusive := some i, excluded := fun _ => rfl }
  else none

end

def unlock (l : SharedLock ι) : SharedLock ι where
  sharable := l.sharable

/-- `held` says of each owner how it holds the lock: `none` not at all, `some false` sharably, `some true` exclusively. -/
structure Holds (l : SharedLock ι) (held : ι → Option Bool) : Prop where
  sharable : ∀ i, i ∈ l.sharable ↔ held i = some false
  exclusive : ∀ i, l.exclusive = some i ↔ held i = some true

variable {l l' : SharedLock ι} {held held' : ι → Option Bool} {i j : ι}

theorem holds_new : (({} : SharedLock ι)).Holds (fun _ => none) :=
  ⟨fun i => by simp, fun i => by simp⟩

theorem Holds.congr (h : l.Holds held) (heq : ∀ i, held' i = held i) : l.Holds held' := by
  rwa [show held' = held from funext heq]

/-- **Exclusion**: beside an exclusive owner nobody holds the lock. -/
theorem Holds.alone (h : l.Holds held) (hi : held i = some true) (hj : j ≠ i) : held j = none := by
  have hex : l.exclusive = some i := (h.exclusive i).mpr hi
  cases hh : held j with
  | none => rfl
  | some b =>
    cases b with
    | false =>
      have hmem := (h.sharable j).mpr hh
      rw [l.excluded (by simp [hex])] at hmem
      exact absurd hmem (Finset.notMem_empty j)
    | true =>
      have hej := (h.exclusive j).mpr hh
      rw [hex, Option.some.injEq] at hej
      exact absurd hej.symm hj

section Updates

variable [DecidableEq ι] (hother : ∀ k, k ≠ i → held' k = held k)

include hother

theorem Holds.lockSharable (h : l.Holds held) (hl : l.lockSharable i = some l') (hi' : held' i = some false) :
    l'.Holds held' := by
  unfold SharedLock.lockSharable at hl
  split at hl
  · next hnone =>
    rw [Option.some.injEq] at hl
    subst hl
    refine ⟨fun k => ?_, fun k => ?_⟩
    · by_cases hk : k = i
      · subst hk; simp [hi']
      · rw [hother k hk, ← h.sharable k]; simp [hk]
    · by_cases hk : k = i
      · subst hk; simp [hi']
      · rw [hother k hk, ← h.exclusive k, hnone]
  · cases hl

theorem Holds.unlockSharable (h : l.Holds held) (hi : held i = some false) (hi' : held' i = none) :
    (l.unlockSharable i).Holds held' := by
  refine ⟨fun k => ?_, fun k => ?_⟩
  · by_cases hk : k = i
    · subst hk; simp [SharedLock.unlockSharable, hi']
    · rw [hother k hk, ← h.sharable k]; simp [SharedLock.unlockSharable, hk]
  · show l.exclusive = some k ↔ _
    by_cases hk : k = i
    · subst hk; rw [h.exclusive k, hi, hi']; simp
    · rw [hother k hk, ← h.exclusive k]

theorem Holds.lock (h : l.Holds held) (hl : l.lock i = some l') (hi' : held' i = some true) : l'.Holds held' := by
  unfold SharedLock.lock at hl
  split at hl
  · next hfree =>
    rw [Option.some.injEq] at hl
    subst hl
    refine ⟨fun k => ?_, fun k => ?_⟩
    · by_cases hk : k = i
      · subst hk; simp [hi']
      · rw [hother k hk, ← h.sharable k, hfree.2]
    · by_cases hk : k = i
      · subst hk; simp [hi']
      · rw [hother k hk, ← h.exclusive k, hfree.1]; simp [Ne.symm hk]
  · cases hl

omit [DecidableEq ι] in
theorem Holds.unlock (h : l.Holds held) (hi : held i = some true) (hi' : held' i = none) : l.unlock.Holds held' := by
  have hex : l.exclusive = some i := (h.exclusive i).mpr hi
  refine ⟨fun k => ?_, fun k => ?_⟩
  · show k ∈ l.sharable ↔ _
    by_cases hk : k = i
    · subst hk; rw [h.sharable k, hi, hi']; simp
    · rw [hother k hk, ← h.sharable k]
  · show none = some k ↔ _
    by_cases hk : k = i
    · subst hk; simp [hi']
    · rw [hother k hk, ← h.exclusive k, hex]; simp [Ne.symm hk]

end Updates

end SharedLock

end OtelDistro.Lib
