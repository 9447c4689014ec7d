import Mathlib.Data.List.Basic
import Mathlib.Tactic.Common

/-!
# OtelDistro.Lib.Replace — replacing all matches of a pattern from left to right

`m text` is the length of the match at the beginning of `text`, `0` where there is none.  `replaceAll m r` copies what is
not matched and writes `r` for every match; the search goes on behind the match (`std::regex_replace`).

* `tried m text`: the suffixes of `text` at which a match was looked for.
* `matchCount m text`: the number of matches that are replaced.
* `replaceAll_append`: a text that follows and changes no match is searched by itself.
* `replaceAll_append_congr`: two texts that follow cannot be told apart behind a match that ends in them at the same place.
-/

namespace OtelDistro.Lib

variable {α : Type}

/-- The first argument counts the elements of a match still to be skipped. -/
def replaceAll (m : List α → ℕ) (r : List α) : ℕ → List α → List α
  | _, [] => []
  | k + 1, _ :: rest => replaceAll m r k rest
  | 0, c :: rest =>
    match m (c :: rest) with
    | 0 => c :: replaceAll m r 0 rest
    | n + 1 => r ++ replaceAll m r n rest

/-- The suffixes at which a match is looked for. -/
def tried (m : List α → ℕ) : ℕ → List α → List (List α)
  | _, [] => []
  | k + 1, _ :: rest => tried m k rest
  | 0, c :: rest => (c :: rest) :: tried m (m (c :: rest) - 1) rest

/-- The number of matches that are replaced. -/
def matchCount (m : List α → ℕ) : ℕ → List α → ℕ
  | _, [] => 0
  | k + 1, _ :: rest => matchCount m k rest
  | 0, c :: rest =>
    match m (c :: rest) with
    | 0 => matchCount m 0 rest
    | n + 1 => matchCount m n rest + 1

section

variable {m : List α → ℕ} {r : List α}

@[simp] theorem replaceAll_nil (k : ℕ) : replaceAll m r k [] = [] := by cases k <;> rfl

@[simp] theorem replaceAll_succ (k : ℕ) (c : α) (rest : List α) :
    replaceAll m r (k + 1) (c :: rest) = replaceAll m r k rest := rfl

theorem replaceAll_eq_drop (k : ℕ) (text : List α) : replaceAll m r k text = replaceAll m r 0 (text.drop k) := by
  induction text generalizing k with
  | nil => simp
  | cons c rest ih =>
    cases k with
    | zero => rfl
    | succ k => exact ih k

theorem replaceAll_of_none {c : α} {rest : List α} (h : m (c :: rest) = 0) :
    replaceAll m r 0 (c :: rest) = c :: replaceAll m r 0 rest := by
  rw [replaceAll, h]

theorem replaceAll_of_match {text : List α} (hne : text ≠ []) (h : m text ≠ 0) :
    replaceAll m r 0 text = r ++ replaceAll m r 0 (text.drop (m text)) := by
  obtain ⟨c, rest, rfl⟩ := List.exists_cons_of_ne_nil hne
  obtain ⟨n, hn⟩ := Nat.exists_eq_succ_of_ne_zero h
  rw [replaceAll, hn]
  simp only [Nat.succ_eq_add_one, List.drop_succ_cons]
  rw [replaceAll_eq_drop n rest]

/-- Nothing is counted where nothing matches, and the text stays. -/
theorem matchCount_eq_zero_iff {text : List α} :
    matchCount m 0 text = 0 ↔ ∀ s, s <:+ text → s ≠ [] → m s = 0 := by
  induction text with
  | nil =>
    refine iff_of_true rfl fun s hs hne => ?_
    exact absurd (List.suffix_nil.mp hs) hne
  | cons c rest ih =>
    rw [matchCount]
    constructor
    · intro h s hs hne
      split at h
      · next hm =>
        rcases List.suffix_cons_iff.mp hs with rfl | hs
        · exact hm
        · exact ih.mp h s hs hne
      · cases h
    · intro h
      rw [h _ (List.suffix_refl _) (List.cons_ne_nil c rest)]
      exact ih.mpr fun s hs => h s (hs.trans (List.suffix_cons c rest))

theorem replaceAll_eq_self {text : List α} (h : ∀ s, s <:+ text → s ≠ [] → m s = 0) : replaceAll m r 0 text = text := by
  induction text with
  | nil => rfl
  | cons c rest ih =>
    rw [replaceAll_of_none (h _ (List.suffix_refl _) (List.cons_ne_nil c rest)),
      ih fun s hs => h s (hs.trans (List.suffix_cons c rest))]

/-- With matches of one length the replaced text has this length less and that of the replacement more for each. -/
theorem length_replaceAll {n : ℕ} (h : ∀ s, m s = 0 ∨ m s = n ∧ n ≤ s.length) (k : ℕ) (text : List α) :
    (replaceAll m r k text).length + matchCount m k text * n =
      (text.drop k).length + matchCount m k text * r.length := by
  induction text generalizing k with
  | nil => simp [matchCount]
  | cons c rest ih =>
    cases k with
    | succ k => simpa [matchCount] using ih k
    | zero =>
      rw [replaceAll, matchCount]
      rcases h (c :: rest) with hm | ⟨hm, hle⟩
      · rw [hm]
        have := ih 0
        simp only [List.length_cons, List.drop_zero] at this ⊢
        omega
      · cases hn : n with
        | zero =>
          rw [hm, hn]
          have := ih 0
          simp only [List.length_cons, List.drop_zero, hn] at this ⊢
          omega
        | succ n' =>
          rw [hm, hn]
          have := ih n'
          simp only [List.length_append, List.drop_zero, List.length_cons, List.length_drop, hn, Nat.add_mul] at this hle ⊢
          omega

/-- Nothing appears that is not in the text or in the replacement. -/
theorem mem_of_mem_replaceAll {k : ℕ} {text : List α} {c : α} (h : c ∈ replaceAll m r k text) : c ∈ text ∨ c ∈ r := by
  induction text generalizing k with
  | nil =>
    rw [replaceAll_nil] at h
    exact absurd h List.not_mem_nil
  | cons d rest ih =>
    have hcons : c ∈ rest ∨ c ∈ r → c ∈ d :: rest ∨ c ∈ r := Or.imp_left (List.mem_cons_of_mem d)
    cases k with
    | succ k => exact hcons (ih h)
    | zero =>
      rw [replaceAll] at h
      split at h
      · rcases List.mem_cons.mp h with rfl | h
        · exact .inl List.mem_cons_self
        · exact hcons (ih h)
      · rcases List.mem_append.mp h with h | h
        · exact .inr h
        · exact hcons (ih h)

theorem tried_suffix {k : ℕ} {text s : List α} (h : s ∈ tried m k text) : s <:+ text ∧ s ≠ [] := by
  induction text generalizing k with
  | nil => cases k <;> exact absurd h List.not_mem_nil
  | cons c rest ih =>
    cases k with
    | succ k => exact ⟨(ih h).1.trans (List.suffix_cons c rest), (ih h).2⟩
    | zero =>
      rcases List.mem_cons.mp h with rfl | h
      · exact ⟨List.suffix_refl _, List.cons_ne_nil c rest⟩
      · exact ⟨(ih h).1.trans (List.suffix_cons c rest), (ih h).2⟩

/-- No match of `text` changes when `x` follows. -/
theorem replaceAll_append {text x : List α}
    (h : ∀ s ∈ tried m 0 text, m (s ++ x) = m s ∧ m s ≤ s.length) :
    replaceAll m r 0 (text ++ x) = replaceAll m r 0 text ++ replaceAll m r 0 x := by
  suffices H : ∀ k ≤ text.length, (∀ s ∈ tried m k text, m (s ++ x) = m s ∧ m s ≤ s.length) →
      replaceAll m r k (text ++ x) = replaceAll m r k text ++ replaceAll m r 0 x from H 0 (Nat.zero_le _) h
  clear h
  intro k hk h
  induction text generalizing k with
  | nil =>
    obtain rfl : k = 0 := Nat.le_zero.mp hk
    rfl
  | cons c rest ih =>
    cases k with
    | succ k => exact ih k (Nat.le_of_succ_le_succ hk) h
    | zero =>
      obtain ⟨hx, hle⟩ := h (c :: rest) List.mem_cons_self
      have ih' := ih (m (c :: rest) - 1) (Nat.sub_le_of_le_add hle) fun s hs => h s (List.mem_cons_of_mem _ hs)
      rw [List.cons_append] at hx ⊢
      rw [replaceAll, replaceAll, hx]
      cases hm : m (c :: rest) with
      | zero =>
        rw [hm] at ih'
        simp only [List.cons_append]
        rw [ih']
      | succ n =>
        rw [hm, Nat.add_sub_cancel] at ih'
        simp only [List.append_assoc]
        rw [← ih']

/-- The match at `s` ends in the text that follows, at the same place in `x` and in `y`. -/
def EndsAlike (m : List α → ℕ) (x y s : List α) : Prop :=
  m (s ++ x) ≠ 0 ∧ m (s ++ y) ≠ 0 ∧ (s ++ x).drop (m (s ++ x)) = (s ++ y).drop (m (s ++ y))

/-- Behind a match that ends alike in `x` and in `y` nothing depends on which of them follows. -/
theorem replaceAll_append_congr {text x y : List α}
    (h : ∀ s ∈ tried m 0 text, m (s ++ x) = m s ∧ m (s ++ y) = m s ∧ m s ≤ s.length ∨ EndsAlike m x y s)
    (hend : ∃ s ∈ tried m 0 text, EndsAlike m x y s) :
    replaceAll m r 0 (text ++ x) = replaceAll m r 0 (text ++ y) := by
  suffices H : ∀ k ≤ text.length,
      (∀ s ∈ tried m k text, m (s ++ x) = m s ∧ m (s ++ y) = m s ∧ m s ≤ s.length ∨ EndsAlike m x y s) →
      (∃ s ∈ tried m k text, EndsAlike m x y s) →
      replaceAll m r k (text ++ x) = replaceAll m r k (text ++ y) from H 0 (Nat.zero_le _) h hend
  clear h hend
  intro k hk h hend
  induction text generalizing k with
  | nil =>
    obtain ⟨s, hs, -⟩ := hend
    cases k <;> exact absurd hs List.not_mem_nil
  | cons c rest ih =>
    cases k with
    | succ k => exact ih k (Nat.le_of_succ_le_succ hk) h hend
    | zero =>
      by_cases hhead : EndsAlike m x y (c :: rest)
      · obtain ⟨hx, hy, hdrop⟩ := hhead
        rw [replaceAll_of_match (by simp) hx, replaceAll_of_match (by simp) hy, hdrop]
      · obtain ⟨hx, hy, hle⟩ := (h (c :: rest) List.mem_cons_self).resolve_right hhead
        have ih' := ih (m (c :: rest) - 1) (Nat.sub_le_of_le_add hle) (fun s hs => h s (List.mem_cons_of_mem _ hs)) (by
          obtain ⟨s, hs, hs'⟩ := hend
          rcases List.mem_cons.mp hs with rfl | hs
          · exact absurd hs' hhead
          · exact ⟨s, hs, hs'⟩)
        rw [List.cons_append] at hx hy ⊢
        rw [List.cons_append, replaceAll, replaceAll, hx, hy]
        cases hm : m (c :: rest) with
        | zero =>
          rw [hm] at ih'
          simp only [List.cons.injEq, true_and]
          exact ih'
        | succ n =>
          rw [hm] at ih'
          simp only [List.append_cancel_left_eq]
          exact ih'

end

end OtelDistro.Lib
