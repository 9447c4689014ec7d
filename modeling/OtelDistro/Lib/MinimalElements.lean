import Mathlib.Data.List.Infix
import Mathlib.Data.List.Pairwise
import Mathlib.Tactic.Common

/-!
# OtelDistro.Lib.MinimalElements — a list kept minimal while elements are added

`insertMinimal le l a` adds `a` to `l` if nothing in `l` is below it, and drops what is above it; `minimalElements le l`
adds the elements of `l` one after the other.  For a partial order the result has the minimal elements of the list
(`mem_minimalElements`), each once and no two of them comparable, and is above nothing the list is not above
(`covered_minimalElements`); the order in which the elements come does not matter (`minimalElements_perm`).
-/

namespace OtelDistro.Lib

section

variable {α : Type} (le : α → α → Prop) [DecidableRel le]

def insertMinimal (l : List α) (a : α) : List α :=
  if ∃ b ∈ l, le b a then l else l.filter (fun b => ¬ le a b) ++ [a]

def minimalElements (l : List α) : List α := l.foldl (insertMinimal le) []

/-- Neither of the two is below the other. -/
def Incomparable (a b : α) : Prop := ¬ le a b ∧ ¬ le b a

variable {le} {l l' : List α} {a b c : α}

theorem mem_insertMinimal : c ∈ insertMinimal le l a ↔
    (∃ b ∈ l, le b a) ∧ c ∈ l ∨ (¬ ∃ b ∈ l, le b a) ∧ (c ∈ l ∧ ¬ le a c ∨ c = a) := by
  unfold insertMinimal
  split
  · next h => simp [h]
  · next h => simp [h]

theorem insertMinimal_pairwise (h : l.Pairwise (Incomparable le)) : (insertMinimal le l a).Pairwise (Incomparable le) := by
  unfold insertMinimal
  split
  · exact h
  · next hno =>
    refine List.pairwise_append.mpr ⟨h.sublist List.filter_sublist, List.pairwise_singleton _ _, fun b hb c hc => ?_⟩
    obtain ⟨hbl, hab⟩ := List.mem_filter.mp hb
    obtain rfl := List.mem_singleton.mp hc
    exact ⟨fun hba => hno ⟨b, hbl, hba⟩, of_decide_eq_true hab⟩

theorem foldl_insertMinimal_pairwise (h : l.Pairwise (Incomparable le)) (l' : List α) :
    (l'.foldl (insertMinimal le) l).Pairwise (Incomparable le) := by
  induction l' generalizing l with
  | nil => exact h
  | cons a l' ih => exact ih (insertMinimal_pairwise h)

theorem minimalElements_subset (h : c ∈ minimalElements le l) : c ∈ l := by
  suffices H : ∀ l', c ∈ l.foldl (insertMinimal le) l' → c ∈ l' ∨ c ∈ l by
    exact (H [] h).resolve_left List.not_mem_nil
  clear h
  induction l with
  | nil => exact fun l' => .inl
  | cons a l ih =>
    intro l' h
    rcases ih _ h with h | h
    · rcases mem_insertMinimal.mp h with ⟨-, h⟩ | ⟨-, ⟨h, -⟩ | rfl⟩
      · exact .inl h
      · exact .inl h
      · exact .inr List.mem_cons_self
    · exact .inr (List.mem_cons_of_mem _ h)

/-- No two elements that are left are comparable; as every element is below itself, none is there twice. -/
theorem minimalElements_pairwise (l : List α) : (minimalElements le l).Pairwise (Incomparable le) :=
  foldl_insertMinimal_pairwise List.Pairwise.nil l

instance : Std.Symm (Incomparable le) := ⟨fun _ _ h => ⟨h.2, h.1⟩⟩

variable [IsPartialOrder α le]

/-- What is above an element of the list or above the new one is above an element that is kept. -/
theorem covered_insertMinimal : (∃ b ∈ insertMinimal le l a, le b c) ↔ (∃ b ∈ l, le b c) ∨ le a c := by
  constructor
  · rintro ⟨b, hb, hbc⟩
    rcases mem_insertMinimal.mp hb with ⟨-, hb⟩ | ⟨-, ⟨hb, -⟩ | rfl⟩
    · exact .inl ⟨b, hb, hbc⟩
    · exact .inl ⟨b, hb, hbc⟩
    · exact .inr hbc
  · intro h
    by_cases hbelow : ∃ b ∈ l, le b a
    · rcases h with ⟨b, hb, hbc⟩ | hac
      · exact ⟨b, mem_insertMinimal.mpr (.inl ⟨hbelow, hb⟩), hbc⟩
      · obtain ⟨b, hb, hba⟩ := hbelow
        exact ⟨b, mem_insertMinimal.mpr (.inl ⟨⟨b, hb, hba⟩, hb⟩), trans_of le hba hac⟩
    · have hnew : a ∈ insertMinimal le l a := mem_insertMinimal.mpr (.inr ⟨hbelow, .inr rfl⟩)
      rcases h with ⟨b, hb, hbc⟩ | hac
      · by_cases hab : le a b
        · exact ⟨a, hnew, trans_of le hab hbc⟩
        · exact ⟨b, mem_insertMinimal.mpr (.inr ⟨hbelow, .inl ⟨hb, hab⟩⟩), hbc⟩
      · exact ⟨a, hnew, hac⟩

theorem covered_foldl_insertMinimal (l l' : List α) :
    (∃ b ∈ l'.foldl (insertMinimal le) l, le b c) ↔ (∃ b ∈ l, le b c) ∨ ∃ b ∈ l', le b c := by
  induction l' generalizing l with
  | nil => simp
  | cons a l' ih => rw [List.foldl_cons, ih, covered_insertMinimal, List.exists_mem_cons_iff, or_assoc]

theorem nodup_minimalElements (l : List α) : (minimalElements le l).Nodup :=
  (minimalElements_pairwise l).imp fun h hab => h.1 (by rw [hab]; exact refl_of le _)

theorem covered_minimalElements : (∃ b ∈ minimalElements le l, le b c) ↔ ∃ b ∈ l, le b c := by
  rw [minimalElements, covered_foldl_insertMinimal]
  simp

/-- The elements that are left are the minimal ones. -/
theorem mem_minimalElements : c ∈ minimalElements le l ↔ c ∈ l ∧ ∀ b ∈ l, le b c → b = c := by
  constructor
  · intro hc
    refine ⟨minimalElements_subset hc, fun b hb hbc => ?_⟩
    obtain ⟨d, hd, hdb⟩ := covered_minimalElements.mpr ⟨b, hb, refl_of le b⟩
    have hdc : d = c := by
      by_contra hne
      have hincomparable : Incomparable le d c :=
        (minimalElements_pairwise l).forall hd hc hne
      exact hincomparable.1 (trans_of le hdb hbc)
    subst hdc
    exact antisymm_of le hbc hdb
  · rintro ⟨hc, hminimal⟩
    obtain ⟨b, hb, hbc⟩ := covered_minimalElements.mpr ⟨c, hc, refl_of le c⟩
    obtain rfl := hminimal b (minimalElements_subset hb) hbc
    exact hb

/-- The order of the list is irrelevant. -/
theorem minimalElements_perm (h : l.Perm l') : (minimalElements le l).Perm (minimalElements le l') := by
  refine (List.perm_ext_iff_of_nodup (nodup_minimalElements l) (nodup_minimalElements l')).mpr fun c => ?_
  rw [mem_minimalElements, mem_minimalElements, h.mem_iff]
  simp only [h.mem_iff]

end

end OtelDistro.Lib
