import Mathlib.Data.List.Basic

/-!
# OtelDistro.Lib.IndexedArray — arrays that keep their keys when elements are removed

The array of a scripting language: pairs of an integer key and a value, in order of insertion.  Removing an element leaves a
hole; the keys are consecutive again only after the values are renumbered.

* `numbered first vs`: the values `vs` under the keys `first`, `first + 1` and so on; a list is `numbered 0 vs`.
* `unset`, `values`, `unshift`, `reference`: the operations.
* `lookup_numbered`, `unset_numbered`, `values_numbered`, `unshift_numbered`: what they do to numbered values.
-/

namespace OtelDistro.Lib.IndexedArray

variable {V : Type}

/-- The values under consecutive keys. -/
def numbered : ℕ → List V → List (ℕ × V)
  | _, [] => []
  | first, v :: vs => (first, v) :: numbered (first + 1) vs

/-- Remove the element with the key; the others keep theirs. -/
def unset (a : List (ℕ × V)) (key : ℕ) : List (ℕ × V) := a.filter fun p => p.1 ≠ key

/-- The values under new keys, from zero. -/
def values (a : List (ℕ × V)) : List (ℕ × V) := numbered 0 (a.map Prod.snd)

/-- Put a value in front, under new keys. -/
def unshift (a : List (ℕ × V)) (v : V) : List (ℕ × V) := numbered 0 (v :: a.map Prod.snd)

/-- A reference to the element with the key: a missing one is created, with the value `null`. -/
def reference (a : List (ℕ × V)) (key : ℕ) (null : V) : List (ℕ × V) :=
  if (a.lookup key).isNone then a ++ [(key, null)] else a

variable (first key : ℕ) (v : V) (vs : List V)

@[simp] theorem map_snd_numbered : (numbered first vs).map Prod.snd = vs := by
  induction vs generalizing first with
  | nil => rfl
  | cons v vs ih => rw [numbered, List.map_cons, ih]

@[simp] theorem length_numbered : (numbered first vs).length = vs.length := by
  rw [← List.length_map (f := Prod.snd), map_snd_numbered]

theorem le_of_mem_numbered {p : ℕ × V} (h : p ∈ numbered first vs) : first ≤ p.1 := by
  induction vs generalizing first with
  | nil => cases h
  | cons v vs ih =>
    rcases List.mem_cons.mp h with rfl | h
    · exact Nat.le_refl _
    · exact Nat.le_of_succ_le (ih (first + 1) h)

theorem mem_numbered {p : ℕ × V} (h : p ∈ numbered first vs) : p.2 ∈ vs := by
  rw [← map_snd_numbered first vs]
  exact List.mem_map_of_mem h

/-- Reading below the first key finds nothing. -/
theorem lookup_numbered_lt (h : key < first) : (numbered first vs).lookup key = none := by
  rw [List.lookup_eq_none_iff]
  intro p hp
  have hle := le_of_mem_numbered first vs hp
  simp only [bne_iff_ne, ne_eq]
  omega

theorem lookup_numbered (offset : ℕ) : (numbered first vs).lookup (first + offset) = vs[offset]? := by
  induction vs generalizing first offset with
  | nil => rfl
  | cons v vs ih =>
    cases offset with
    | zero => simp [numbered]
    | succ offset =>
      have hkey : first + (offset + 1) = first + 1 + offset := by omega
      have hne : (first + 1 + offset == first) = false := by
        rw [beq_eq_false_iff_ne]
        omega
      rw [hkey, numbered, List.lookup_cons, hne, List.getElem?_cons_succ]
      exact ih (first + 1) offset

theorem unset_numbered : unset (numbered first (v :: vs)) first = numbered (first + 1) vs := by
  rw [unset, numbered, List.filter_cons_of_neg (by simp), List.filter_eq_self]
  intro p hp
  have hle := le_of_mem_numbered (first + 1) vs hp
  simp only [ne_eq, decide_not, Bool.not_eq_eq_eq_not, Bool.not_true, decide_eq_false_iff_not]
  omega

@[simp] theorem values_numbered : values (numbered first vs) = numbered 0 vs := by
  rw [values, map_snd_numbered]

@[simp] theorem unshift_numbered : unshift (numbered first vs) v = numbered 0 (v :: vs) := by
  rw [unshift, map_snd_numbered]

/-- Taking a reference to an element that exists changes nothing. -/
theorem reference_of_lookup {a : List (ℕ × V)} {null : V} (h : a.lookup key = some v) : reference a key null = a := by
  rw [reference, h]
  rfl

theorem numbered_injective {first : ℕ} {vs ws : List V} (h : numbered first vs = numbered first ws) : vs = ws := by
  rw [← map_snd_numbered first vs, h, map_snd_numbered]

end OtelDistro.Lib.IndexedArray
