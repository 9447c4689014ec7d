import Mathlib.Logic.Basic
import Mathlib.Data.List.Basic

/-!
# OtelDistro.Lib.Runs — runs of a partial step function

A component is given by `step : σ → α → Option σ` (`none` = the action is not enabled).

* `run step s as`: execute a list of actions.
* `Path step ok s as t`: the run from `s` to `t` over `as` in which every step meets `ok`, a condition on the
  state before the step and the action.  `ok = fun _ _ => True` is an arbitrary run (`path_true_iff`).
* `Path.invariant`: what every step preserves, every run preserves.
* `Path.potential`: what the steps gain is paid for by a rank that falls.
* `path_congr`: two conditions that agree in the states of an invariant.
* `run_good_iff`: a property that is lost for good exactly at the steps that do not meet `ok`.
* `path_holds_iff`: a property that holds all along a run exactly when all steps meet `ok`.
* `Inevitable`: every way on over steps that meet `ok` ends at the goal (`inevitable_of_rank`: by a number that falls).
-/

namespace OtelDistro.Lib

variable {σ α : Type}

/-- Execute the actions of a list, stopping at the first one that is not enabled. -/
def run (step : σ → α → Option σ) : σ → List α → Option σ
  | s, [] => some s
  | s, a :: as => (step s a).bind (fun t => run step t as)

/-- A run whose steps all meet `ok`. -/
inductive Path (step : σ → α → Option σ) (ok : σ → α → Prop) : σ → List α → σ → Prop
  | nil (s : σ) : Path step ok s [] s
  | cons {s t u : σ} {a : α} {as : List α} : ok s a → step s a = some t → Path step ok t as u →
      Path step ok s (a :: as) u

/-- Steps that meet `ok` get to the goal, whichever are taken, and do not get stuck before it. -/
inductive Inevitable (step : σ → α → Option σ) (ok : σ → α → Prop) (goal : σ → Prop) : σ → Prop
  | here {s : σ} : goal s → Inevitable step ok goal s
  | after {s : σ} : (∃ a t, ok s a ∧ step s a = some t) →
      (∀ a t, ok s a → step s a = some t → Inevitable step ok goal t) → Inevitable step ok goal s

section Run

variable {step : σ → α → Option σ} {ok ok' : σ → α → Prop} {s t u : σ} {a : α} {as bs : List α}

@[simp] theorem run_nil : run step s [] = some s := rfl

@[simp] theorem run_cons : run step s (a :: as) = (step s a).bind (fun t => run step t as) := rfl

theorem run_append (as bs : List α) (s : σ) :
    run step s (as ++ bs) = (run step s as).bind (fun t => run step t bs) := by
  induction as generalizing s with
  | nil => rfl
  | cons a as ih =>
    simp only [List.cons_append, run_cons, ih]
    cases step s a <;> rfl

theorem run_append_of (h : run step s as = some t) : run step s (as ++ bs) = run step t bs := by
  rw [run_append, h]; rfl

theorem Path.run_eq (h : Path step ok s as t) : run step s as = some t := by
  induction h with
  | nil => rfl
  | cons _ hs _ ih => rw [run_cons, hs]; exact ih

theorem path_true_iff : Path step (fun _ _ => True) s as t ↔ run step s as = some t := by
  refine ⟨Path.run_eq, fun h => ?_⟩
  induction as generalizing s with
  | nil =>
    rw [run_nil, Option.some.injEq] at h
    exact h ▸ .nil s
  | cons a as ih =>
    rw [run_cons, Option.bind_eq_some_iff] at h
    obtain ⟨s', hs, h⟩ := h
    exact .cons trivial hs (ih h)

/-- A run whose actions all meet a condition on the action alone. -/
theorem path_of_run {p : α → Prop} (h : run step s as = some t) (hp : ∀ a ∈ as, p a) : Path step (fun _ a => p a) s as t := by
  induction as generalizing s with
  | nil =>
    rw [run_nil, Option.some.injEq] at h
    exact h ▸ .nil s
  | cons a as ih =>
    rw [run_cons, Option.bind_eq_some_iff] at h
    obtain ⟨s', hs, h⟩ := h
    rw [List.forall_mem_cons] at hp
    exact .cons hp.1 hs (ih h hp.2)

theorem Path.split (h : Path step ok s (as ++ bs) u) :
    ∃ t, Path step ok s as t ∧ Path step ok t bs u := by
  induction as generalizing s with
  | nil => exact ⟨s, .nil s, h⟩
  | cons a as ih =>
    cases h with
    | cons ho hs h' =>
      obtain ⟨t, h1, h2⟩ := ih h'
      exact ⟨t, .cons ho hs h1, h2⟩

theorem Path.single (h : Path step ok s [a] t) : ok s a ∧ step s a = some t := by
  cases h with
  | cons ho hs h' =>
    cases h' with
    | nil => exact ⟨ho, hs⟩

theorem Path.mono (hok : ∀ s a, ok s a → ok' s a) (h : Path step ok s as t) : Path step ok' s as t := by
  induction h with
  | nil => exact .nil _
  | cons ho hs _ ih => exact .cons (hok _ _ ho) hs ih

/-- **Invariant rule**: a property of the initial state that every admissible step preserves holds at the end of
every run of admissible steps. -/
theorem Path.invariant {I : σ → Prop} (hstep : ∀ s a t, I s → ok s a → step s a = some t → I t)
    (h : Path step ok s as t) (hs : I s) : I t := by
  induction h with
  | nil => exact hs
  | cons ho hst _ ih => exact ih (hstep _ _ _ hs ho hst)

/-- **Potential rule**: until it is done, a step that gains takes it from the rank or from a step that is charged for.  So a run
that is not done has gained at most its first rank and the charges. -/
theorem Path.potential {I done : σ → Prop} {rank : σ → ℕ} {gain charge : α → Bool}
    (hstep : ∀ s a t, I s → ok s a → step s a = some t →
      I t ∧ (done s → done t) ∧ (¬ done t → rank t + (gain a).toNat ≤ rank s + (charge a).toNat))
    (h : Path step ok s as t) (hs : I s) :
    I t ∧ (done s → done t) ∧ (¬ done t → rank t + as.countP gain ≤ rank s + as.countP charge) := by
  have hcount : ∀ (p : α → Bool) (a : α) (as : List α), (a :: as).countP p = as.countP p + (p a).toNat := by
    intro p a as
    rw [List.countP_cons]
    cases p a <;> rfl
  induction h with
  | nil => exact ⟨hs, fun hd => hd, fun _ => Nat.le_refl _⟩
  | cons ho hst _ ih =>
    obtain ⟨hI, hkeep, hone⟩ := hstep _ _ _ hs ho hst
    obtain ⟨hIt, hkeeps, hrest⟩ := ih hI
    refine ⟨hIt, fun hd => hkeeps (hkeep hd), fun hnd => ?_⟩
    have hlast := hrest hnd
    have hfirst := hone fun hd => hnd (hkeeps hd)
    rw [hcount, hcount]
    omega

/-- A run in which no step needs a condition, from a run of the step function. -/
theorem run_invariant {I : σ → Prop} (hstep : ∀ s a t, I s → step s a = some t → I t)
    (h : run step s as = some t) (hs : I s) : I t :=
  (path_true_iff.mpr h).invariant (fun s a t hI _ hst => hstep s a t hI hst) hs

/-- Conditions that agree in the states of an invariant admit the same runs. -/
theorem path_congr {I : σ → Prop} (hI : ∀ s a t, I s → step s a = some t → I t)
    (hok : ∀ s a t, I s → step s a = some t → (ok s a ↔ ok' s a)) (hs : I s) : Path step ok s as t ↔ Path step ok' s as t := by
  have hone : ∀ {ok ok' : σ → α → Prop}, (∀ s a t, I s → step s a = some t → ok s a → ok' s a) →
      ∀ {as s}, I s → Path step ok s as t → Path step ok' s as t := by
    intro ok ok' himp as s hs h
    induction h with
    | nil => exact .nil _
    | cons ho hst _ ih => exact .cons (himp _ _ _ hs hst ho) hst (ih (hI _ _ _ hs hst))
  exact ⟨hone (fun s a t hs hst => (hok s a t hs hst).mp) hs, hone (fun s a t hs hst => (hok s a t hs hst).mpr) hs⟩

/-- A property that no step gives back, and that a step keeps exactly when it meets `ok`: it holds at the end of a run exactly
when all steps met `ok`. -/
theorem run_good_iff {I G : σ → Prop} (hI : ∀ s a t, I s → step s a = some t → I t)
    (hback : ∀ s a t, I s → step s a = some t → G t → G s)
    (hok : ∀ s a t, I s → G s → step s a = some t → (G t ↔ ok s a)) (hs : I s) (hg : G s)
    (h : run step s as = some t) : G t ↔ Path step ok s as t := by
  constructor
  · induction as generalizing s with
    | nil =>
      intro _
      rw [run_nil, Option.some.injEq] at h
      exact h ▸ .nil s
    | cons a as ih =>
      intro hgt
      rw [run_cons, Option.bind_eq_some_iff] at h
      obtain ⟨s', hs', h⟩ := h
      have hg' : G s' := by
        by_contra hn
        have hlost := run_invariant (I := fun s => I s ∧ ¬ G s)
          (fun _ _ _ hs hst => ⟨hI _ _ _ hs.1 hst, fun hg => hs.2 (hback _ _ _ hs.1 hst hg)⟩) h ⟨hI _ _ _ hs hs', hn⟩
        exact hlost.2 hgt
      exact .cons ((hok _ _ _ hs hg hs').mp hg') hs' (ih (hI _ _ _ hs hs') hg' h hgt)
  · intro hp
    have hboth := hp.invariant (I := fun s => I s ∧ G s)
      (fun s a t hIG ho hst => ⟨hI s a t hIG.1 hst, (hok s a t hIG.1 hIG.2 hst).mpr ho⟩) ⟨hs, hg⟩
    exact hboth.2

/-- A property that a step keeps exactly when it meets `ok`: it holds after every step of a run exactly when all of them do. -/
theorem path_holds_iff {I G : σ → Prop} (hI : ∀ s a t, I s → step s a = some t → I t)
    (hok : ∀ s a t, I s → G s → step s a = some t → (G t ↔ ok s a)) (hs : I s) (hg : G s) :
    Path step (fun s a => ∀ t, step s a = some t → G t) s as t ↔ Path step ok s as t := by
  constructor
  · intro h
    induction h with
    | nil => exact .nil _
    | cons ho hst _ ih =>
      have ht := ho _ hst
      exact .cons ((hok _ _ _ hs hg hst).mp ht) hst (ih (hI _ _ _ hs hst) ht)
  · intro h
    induction h with
    | nil => exact .nil _
    | cons ho hst _ ih =>
      have hall : ∀ t', step _ _ = some t' → G t' := fun t' hst' => (hok _ _ _ hs hg hst').mpr ho
      exact .cons hall hst (ih (hI _ _ _ hs hst) (hall _ hst))

/-- **Progress rule**: short of the goal there is a step, and every step keeps the invariant and lowers the rank. -/
theorem inevitable_of_rank {I goal : σ → Prop} (rank : σ → ℕ)
    (hgo : ∀ s, I s → ¬ goal s → ∃ a t, ok s a ∧ step s a = some t)
    (hstep : ∀ s a t, I s → ¬ goal s → ok s a → step s a = some t → I t ∧ rank t < rank s) (hs : I s) :
    Inevitable step ok goal s := by
  induction hn : rank s using Nat.strongRecOn generalizing s with
  | ind n ih =>
    by_cases hg : goal s
    · exact .here hg
    · refine .after (hgo s hs hg) fun a t ho hst => ?_
      obtain ⟨ht, hlt⟩ := hstep s a t hs hg ho hst
      exact ih (rank t) (hn ▸ hlt) ht rfl

end Run

end OtelDistro.Lib
