import Mathlib.Logic.Function.Basic
import OtelDistro.Lib.Runs
import OtelDistro.Lib.SharedLock

/-!
# OtelDistro.Util.SharedMemoryState — the task that one worker of all executes

`shouldExecuteOneTimeTaskAmongWorkers` reads a flag in shared memory under a sharable lock and, if it was clear, once more
under an exclusive lock, where it sets it.  Each call is one caller of type `ι`; a run is any order of their steps.

* `step`: the next step of one call.
* `OneTimeTask`: what the component is for, a task that the first taker gets.
* `Implements`: the calls and the shared data implement it; `implements_step` is one step, `implements` a whole run.
* `one_call_returns_true`: at most one call returns `true`, and no call returns `false` before it.
-/

namespace OtelDistro.Util

open Lib

/-- Where a call stands. -/
inductive Call
  | called
  /-- In the first block, before the flag is read. -/
  | sharable
  /-- In the first block, with what was read. -/
  | sharableRead (flag : Bool)
  /-- Between the blocks. -/
  | unlocked
  /-- Under the exclusive lock, before the flag is read. -/
  | ulock
  /-- Under the exclusive lock, the flag was clear. -/
  | ulockClear
  /-- Under the exclusive lock, with the result. -/
  | ulockDone (result : Bool)
  | returned (result : Bool)
deriving DecidableEq

/-- How the call holds the lock. -/
def Call.held : Call → Option Bool
  | .sharable | .sharableRead _ => some false
  | .ulock | .ulockClear | .ulockDone _ => some true
  | _ => none

/-- The call has set the flag: it returns `true` or has done so. -/
def Call.taker : Call → Bool
  | .ulockDone r | .returned r => r
  | _ => false

structure SharedMemoryState (ι : Type) where
  mutex : SharedLock ι := {}
  oneTimeTaskAmongWorkersExecuted : Bool := false
  calls : ι → Call := fun _ => .called

variable {ι : Type}

section

variable [DecidableEq ι]

def SharedMemoryState.at (s : SharedMemoryState ι) (i : ι) (c : Call) : SharedMemoryState ι :=
  { s with calls := Function.update s.calls i c }

/-- The next step of the call `i`: a lock operation, a read or a write. -/
def SharedMemoryState.step (s : SharedMemoryState ι) (i : ι) : Option (SharedMemoryState ι) :=
  match s.calls i with
  | .called => (s.mutex.lockSharable i).map fun m => { s with mutex := m }.at i .sharable
  | .sharable => some (s.at i (.sharableRead s.oneTimeTaskAmongWorkersExecuted))
  | .sharableRead flag =>
    some ({ s with mutex := s.mutex.unlockSharable i }.at i (if flag then .returned false else .unlocked))
  | .unlocked => (s.mutex.lock i).map fun m => { s with mutex := m }.at i .ulock
  | .ulock => some (s.at i (if s.oneTimeTaskAmongWorkersExecuted then .ulockDone false else .ulockClear))
  | .ulockClear => some ({ s with oneTimeTaskAmongWorkersExecuted := true }.at i (.ulockDone true))
  | .ulockDone result => some ({ s with mutex := s.mutex.unlock }.at i (.returned result))
  | .returned _ => none

end

/-! ## What it is for -/

/-- A task for one of the workers: who took it. -/
abbrev OneTimeTask (ι : Type) := Option ι

/-- `i` asks for the task, which goes to the first. -/
def OneTimeTask.take (task : OneTimeTask ι) (i : ι) : OneTimeTask ι := task.or (some i)

/-- The call has read a set flag: it returns `false` or has done so. -/
def Call.refused : Call → Bool
  | .sharableRead flag => flag
  | .ulockDone r | .returned r => !r
  | _ => false

/-- The shared data and the calls implement the task: the flag is set when it is taken, the calls that return `true` are
the taker, and whoever is refused comes after the taker has returned. -/
structure Implements (s : SharedMemoryState ι) (task : OneTimeTask ι) : Prop where
  mutex : s.mutex.Holds (fun i => (s.calls i).held)
  flag : s.oneTimeTaskAmongWorkersExecuted = task.isSome
  taker : ∀ i, (s.calls i).taker = true ↔ task = some i
  clear : ∀ i, s.calls i = .ulockClear → task = none
  refused : ∀ i, (s.calls i).refused = true → ∃ j, s.calls j = .returned true

section

variable {s s' : SharedMemoryState ι} {task : OneTimeTask ι} {i : ι}

theorem implements_new : Implements ({} : SharedMemoryState ι) none :=
  ⟨SharedLock.holds_new, rfl, fun i => by simp [Call.taker], fun i h => rfl, fun i h => by simp [Call.refused] at h⟩

/-- A set flag that is read under the lock was set by a call that has returned. -/
theorem Implements.read_set (h : Implements s task) (hflag : s.oneTimeTaskAmongWorkersExecuted = true)
    (hheld : (s.calls i).held ≠ none) (htaker : (s.calls i).taker = false) : ∃ j, s.calls j = .returned true := by
  rw [h.flag, Option.isSome_iff_exists] at hflag
  obtain ⟨j, hj⟩ := hflag
  have htj : (s.calls j).taker = true := (h.taker j).mpr hj
  have hne : i ≠ j := by
    rintro rfl
    rw [htj] at htaker
    cases htaker
  refine ⟨j, ?_⟩
  cases hc : s.calls j with
  | ulockDone r => exact absurd (h.mutex.alone (i := j) (by simp [hc, Call.held]) hne) hheld
  | returned r =>
    rw [hc] at htj
    exact congrArg Call.returned htj
  | _ => simp [hc, Call.taker] at htj

variable [DecidableEq ι]

theorem at_self (s : SharedMemoryState ι) (i : ι) (c : Call) : (s.at i c).calls i = c := Function.update_self ..

theorem at_other (s : SharedMemoryState ι) {i j : ι} (c : Call) (h : j ≠ i) : (s.at i c).calls j = s.calls j :=
  Function.update_of_ne h ..

/-- A call moves on without taking the task: what is to be checked is its new place. -/
theorem Implements.move (h : Implements s task) {m : SharedLock ι} {c : Call}
    (hm : m.Holds (fun j => (({ s with mutex := m } : SharedMemoryState ι).at i c |>.calls j).held))
    (htaker : c.taker = (s.calls i).taker) (hclear : c = .ulockClear → task = none)
    (hkept : s.calls i ≠ .returned true) (hrefused : c.refused = true → ∃ j, s.calls j = .returned true) :
    Implements ({ s with mutex := m }.at i c) task := by
  have hreturned : (∃ j, s.calls j = .returned true) →
      ∃ j, (({ s with mutex := m } : SharedMemoryState ι).at i c).calls j = .returned true := by
    rintro ⟨j, hj⟩
    have hji : j ≠ i := by
      rintro rfl
      exact hkept hj
    exact ⟨j, (at_other _ c hji).trans hj⟩
  refine ⟨hm, h.flag, fun j => ?_, fun j hj => ?_, fun j hj => hreturned ?_⟩
  · by_cases hji : j = i
    · subst hji; rw [at_self, htaker]; exact h.taker j
    · rw [at_other _ c hji]; exact h.taker j
  · by_cases hji : j = i
    · subst hji; rw [at_self] at hj; exact hclear hj
    · rw [at_other _ c hji] at hj; exact h.clear j hj
  · by_cases hji : j = i
    · subst hji; rw [at_self] at hj; exact hrefused hj
    · rw [at_other _ c hji] at hj; exact h.refused j hj

/-- The write: the call takes the task. -/
theorem Implements.write (h : Implements s task) (hc : s.calls i = .ulockClear) :
    Implements ({ s with oneTimeTaskAmongWorkersExecuted := true }.at i (.ulockDone true)) (task.take i) := by
  have hnone : task = none := h.clear i hc
  have hheld : (s.calls i).held = some true := by rw [hc]; rfl
  subst hnone
  refine ⟨?_, rfl, fun j => ?_, fun j hj => ?_, fun j hj => ?_⟩
  · refine h.mutex.congr fun k => ?_
    by_cases hk : k = i
    · subst hk; rw [at_self, hheld]; rfl
    · rw [at_other _ _ hk]
  · by_cases hji : j = i
    · subst hji; rw [at_self]; simp [Call.taker, OneTimeTask.take]
    · rw [at_other _ _ hji, h.taker j]; simp [OneTimeTask.take, Ne.symm hji]
  · by_cases hji : j = i
    · subst hji; rw [at_self] at hj; cases hj
    · -- the exclusive lock is the writer's
      rw [at_other _ _ hji] at hj
      have hfree : (s.calls j).held = none := h.mutex.alone hheld hji
      have hj : s.calls j = .ulockClear := hj
      rw [hj] at hfree
      cases hfree
  · by_cases hji : j = i
    · subst hji; rw [at_self] at hj; simp [Call.refused] at hj
    · rw [at_other _ _ hji] at hj
      obtain ⟨k, hk⟩ := h.refused j hj
      exact absurd ((h.taker k).mp (by rw [hk]; rfl)) (by simp)

/-- The task after a step of `i`. -/
def OneTimeTask.after (task : OneTimeTask ι) (s : SharedMemoryState ι) (i : ι) : OneTimeTask ι :=
  if s.calls i = .ulockClear then task.take i else task

/-- **One step**: the write is the taking of the task, every other step leaves it. -/
theorem implements_step (h : Implements s task) (hs : s.step i = some s') : Implements s' (task.after s i) := by
  have hother : ∀ (m : SharedLock ι) (c : Call) (k : ι), k ≠ i →
      ((({ s with mutex := m } : SharedMemoryState ι).at i c).calls k).held = (s.calls k).held := by
    intro m c k hk
    rw [at_other _ c hk]
  have hsame : ∀ c : Call, c.held = (s.calls i).held →
      s.mutex.Holds (fun k => ((s.at i c).calls k).held) := by
    intro c hheld
    refine h.mutex.congr fun k => ?_
    by_cases hk : k = i
    · subst hk; rw [at_self, hheld]
    · rw [at_other _ c hk]
  unfold SharedMemoryState.step at hs
  unfold OneTimeTask.after
  cases hc : s.calls i with
  | called =>
    simp only [hc, Option.map_eq_some_iff] at hs
    obtain ⟨m, hm, rfl⟩ := hs
    exact h.move (h.mutex.lockSharable (hother m _) hm (by rw [at_self]; rfl)) (by rw [hc]; rfl) nofun
      (by rw [hc]; nofun) nofun
  | sharable =>
    simp only [hc, Option.some.injEq] at hs
    subst hs
    refine h.move (hsame _ (by rw [hc]; rfl)) (by rw [hc]; rfl) nofun (by rw [hc]; nofun) fun hflag => ?_
    exact h.read_set (i := i) hflag (by simp [hc, Call.held]) (by rw [hc]; rfl)
  | sharableRead flag =>
    simp only [hc, Option.some.injEq] at hs
    subst hs
    refine h.move (h.mutex.unlockSharable (hother _ _) (by rw [hc]; rfl) ?_) ?_ ?_ (by rw [hc]; nofun) fun href => ?_
    · rw [at_self]; cases flag <;> rfl
    · rw [hc]; cases flag <;> rfl
    · cases flag <;> nofun
    · refine h.refused i ?_
      rw [hc]
      cases flag
      · cases href
      · rfl
  | unlocked =>
    simp only [hc, Option.map_eq_some_iff] at hs
    obtain ⟨m, hm, rfl⟩ := hs
    exact h.move (h.mutex.lock (hother m _) hm (by rw [at_self]; rfl)) (by rw [hc]; rfl) nofun (by rw [hc]; nofun) nofun
  | ulock =>
    simp only [hc, Option.some.injEq] at hs
    subst hs
    have hflag := h.flag
    refine h.move (hsame _ ?_) ?_ ?_ (by rw [hc]; nofun) fun href => ?_
    · rw [hc]; split <;> rfl
    · rw [hc]; split <;> rfl
    · intro hclear
      split at hclear
      · cases hclear
      · next hunset => simpa [hflag] using hunset
    · split at href
      · next hset => exact h.read_set (i := i) hset (by simp [hc, Call.held]) (by rw [hc]; rfl)
      · cases href
  | ulockClear =>
    simp only [hc, Option.some.injEq] at hs
    subst hs
    exact h.write hc
  | ulockDone result =>
    simp only [hc, Option.some.injEq] at hs
    subst hs
    refine h.move (h.mutex.unlock (hother _ _) (by rw [hc]; rfl) (by rw [at_self]; rfl)) (by rw [hc]; rfl) nofun
      (by rw [hc]; nofun) fun href => ?_
    exact h.refused i (by rw [hc]; exact href)
  | returned result => simp [hc] at hs

/-- **A whole run** implements the task. -/
theorem implements {calls : List ι} (h : run SharedMemoryState.step {} calls = some s) : ∃ task, Implements s task :=
  run_invariant (I := fun s => ∃ task, Implements s task)
    (fun s i _ hI hs => hI.elim fun task hI => ⟨task.after s i, implements_step hI hs⟩) h ⟨none, implements_new⟩

/-- Data race freedom: while a call holds the lock for the write, no other call is inside a block. -/
theorem no_access_beside_write {calls : List ι} (h : run SharedMemoryState.step {} calls = some s) {j : ι}
    (hi : (s.calls i).held = some true) (hj : j ≠ i) : (s.calls j).held = none := by
  obtain ⟨task, hI⟩ := implements h
  exact hI.mutex.alone hi hj

/-- **One task**: at most one call returns `true`; when a call has returned `false`, the flag is set and a call that
returns `true` has set it and returned. -/
theorem one_call_returns_true {calls : List ι} (h : run SharedMemoryState.step {} calls = some s) :
    (∀ i j, s.calls i = .returned true → s.calls j = .returned true → i = j) ∧
      (∀ i, s.calls i = .returned false →
        s.oneTimeTaskAmongWorkersExecuted = true ∧ ∃ j, s.calls j = .returned true) := by
  obtain ⟨task, hI⟩ := implements h
  have htask : ∀ i, s.calls i = .returned true → task = some i := by
    intro i hi
    exact (hI.taker i).mp (by rw [hi]; rfl)
  refine ⟨fun i j hi hj => ?_, fun i hi => ?_⟩
  · exact Option.some.inj ((htask i hi).symm.trans (htask j hj))
  · obtain ⟨j, hj⟩ := hI.refused i (by rw [hi]; rfl)
    exact ⟨by rw [hI.flag, htask j hj]; rfl, j, hj⟩

end

/-- Two calls between the blocks at once: the second finds the flag set under the exclusive lock. -/
theorem one_call_returns_true_of_two :
    ∃ s : SharedMemoryState ℕ, run SharedMemoryState.step {} [0, 1, 0, 1, 0, 1, 1, 1, 1, 1, 0, 0, 0] = some s ∧
      s.calls 1 = .returned true ∧ s.calls 0 = .returned false ∧
      (∀ i j, s.calls i = .returned true → s.calls j = .returned true → i = j) ∧
      (∀ i, s.calls i = .returned false →
        s.oneTimeTaskAmongWorkersExecuted = true ∧ ∃ j, s.calls j = .returned true) := by
  obtain ⟨s, h, h1, h0⟩ : ∃ s : SharedMemoryState ℕ,
      run SharedMemoryState.step {} [0, 1, 0, 1, 0, 1, 1, 1, 1, 1, 0, 0, 0] = some s ∧
        s.calls 1 = .returned true ∧ s.calls 0 = .returned false := ⟨_, rfl, rfl, rfl⟩
  exact ⟨s, h, h1, h0, one_call_returns_true h⟩

end OtelDistro.Util
