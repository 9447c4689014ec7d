import Mathlib.Data.List.GetD
import Mathlib.Logic.Function.Basic
import Mathlib.Order.Lattice

/-!
# OtelDistro.Lib.SlotList — a list kept in the slots of a memory

A memory `κ → Option V` has undefined slots (`none`).  A list is kept in it through an addressing function `ℕ → κ`.

* `assign`, `assignAll`: replace a position of a list, or append it, with `null` in the gaps.
* `writeAll`, `clearAll`: write to, or undefine, the slots of some positions.
* `StoredAt`: the first `n` addresses hold a list, an undefined slot being read as `null`.

`StoredAt.writeAll`: writing slots is assigning positions, when the writer's addresses are the reader's and the reader's
are distinct.
-/

namespace OtelDistro.Lib

variable {κ V : Type}

/-! ## Assigning positions of a list -/

section Assign

variable (null : V)

/-- Position `p` becomes `v`; the list is extended by `null` as far as needed. -/
def assign (l : List V) (p : ℕ) (v : V) : List V := (l ++ List.replicate (p + 1 - l.length) null).set p v

def assignAll (l : List V) (ws : List (ℕ × V)) : List V := ws.foldl (fun l w => assign null l w.1 w.2) l

@[simp] theorem assignAll_nil (l : List V) : assignAll null l [] = l := rfl

@[simp] theorem assignAll_cons (l : List V) (w : ℕ × V) (ws : List (ℕ × V)) :
    assignAll null l (w :: ws) = assignAll null (assign null l w.1 w.2) ws := rfl

@[simp] theorem length_assign (l : List V) (p : ℕ) (v : V) : (assign null l p v).length = max l.length (p + 1) := by
  rw [assign, List.length_set, List.length_append, List.length_replicate]
  omega

theorem getD_append_replicate (l : List V) (n i : ℕ) :
    (l ++ List.replicate n null).getD i null = l.getD i null := by
  rw [List.getD_eq_getElem?_getD, List.getD_eq_getElem?_getD, List.getElem?_append]
  by_cases h : i < l.length
  · rw [if_pos h]
  · rw [if_neg h, List.getElem?_eq_none (Nat.le_of_not_lt h), List.getElem?_replicate]
    by_cases h' : i - l.length < n
    · rw [if_pos h']; rfl
    · rw [if_neg h']

theorem getD_assign (l : List V) (p i : ℕ) (v : V) :
    (assign null l p v).getD i null = if p = i then v else l.getD i null := by
  by_cases h : p = i
  · subst h
    have hlt : p < (l ++ List.replicate (p + 1 - l.length) null).length := by
      rw [List.length_append, List.length_replicate]
      omega
    rw [if_pos rfl, assign, List.getD_eq_getElem?_getD, List.getElem?_set_self hlt]
    rfl
  · rw [if_neg h, assign, List.getD_eq_getElem?_getD, List.getElem?_set_ne h, ← List.getD_eq_getElem?_getD,
      getD_append_replicate]

theorem le_length_assignAll (l : List V) (ws : List (ℕ × V)) : l.length ≤ (assignAll null l ws).length := by
  induction ws generalizing l with
  | nil => exact le_rfl
  | cons w ws ih =>
    have h := ih (assign null l w.1 w.2)
    rw [length_assign] at h
    exact le_trans (le_max_left _ _) h

theorem lt_length_assignAll {ws : List (ℕ × V)} {w : ℕ × V} (hw : w ∈ ws) (l : List V) :
    w.1 < (assignAll null l ws).length := by
  induction ws generalizing l with
  | nil => cases hw
  | cons w' ws ih =>
    rw [assignAll_cons]
    rcases List.mem_cons.mp hw with rfl | hw
    · have h := le_length_assignAll null (assign null l w.1 w.2) ws
      rw [length_assign] at h
      omega
    · exact ih hw _

theorem length_assignAll_le {ws : List (ℕ × V)} {l : List V} {n : ℕ} (hl : l.length ≤ n)
    (hws : ∀ w ∈ ws, w.1 < n) : (assignAll null l ws).length ≤ n := by
  induction ws generalizing l with
  | nil => exact hl
  | cons w ws ih =>
    have hw : w.1 < n := hws w List.mem_cons_self
    refine ih ?_ fun w' hw' => hws w' (List.mem_cons_of_mem _ hw')
    rw [length_assign]
    omega

/-- A position that is written with `v` only holds `v`. -/
theorem getD_assignAll_const {ws : List (ℕ × V)} {v : V} (hv : ∀ w ∈ ws, w.2 = v) (l : List V) (i : ℕ) :
    (assignAll null l ws).getD i null = if ∃ w ∈ ws, w.1 = i then v else l.getD i null := by
  induction ws generalizing l with
  | nil => simp
  | cons w ws ih =>
    rw [assignAll_cons, ih fun w' hw' => hv w' (List.mem_cons_of_mem _ hw'), getD_assign, hv w List.mem_cons_self]
    by_cases h : ∃ w' ∈ ws, w'.1 = i
    · obtain ⟨w', hw', hi⟩ := h
      rw [if_pos ⟨w', hw', hi⟩, if_pos ⟨w', List.mem_cons_of_mem _ hw', hi⟩]
    · rw [if_neg h]
      by_cases hw : w.1 = i
      · rw [if_pos hw, if_pos ⟨w, List.mem_cons_self, hw⟩]
      · rw [if_neg hw, if_neg]
        rintro ⟨w', hw', hi⟩
        rcases List.mem_cons.mp hw' with rfl | hw'
        · exact hw hi
        · exact h ⟨w', hw', hi⟩

end Assign

theorem ext_getD (null : V) {l l' : List V} (hlen : l.length = l'.length)
    (h : ∀ i < l.length, l.getD i null = l'.getD i null) : l = l' := by
  refine List.ext_getElem hlen fun i h1 h2 => ?_
  have hi := h i h1
  rwa [List.getD_eq_getElem _ _ h1, List.getD_eq_getElem _ _ h2] at hi

theorem assign_self {null : V} {l : List V} {p : ℕ} {v : V} (hp : p < l.length) (hv : l.getD p null = v) :
    assign null l p v = l := by
  refine ext_getD null ?_ fun i _ => ?_
  · rw [length_assign]
    omega
  · rw [getD_assign]
    by_cases h : p = i
    · rw [if_pos h, ← h, hv]
    · rw [if_neg h]

/-- Assigning to positions what they hold changes nothing. -/
theorem assignAll_self {null : V} {l : List V} {ws : List (ℕ × V)}
    (h : ∀ w ∈ ws, w.1 < l.length ∧ l.getD w.1 null = w.2) : assignAll null l ws = l := by
  induction ws with
  | nil => rfl
  | cons w ws ih =>
    obtain ⟨hp, hv⟩ := h w List.mem_cons_self
    rw [assignAll_cons, assign_self hp hv]
    exact ih fun w' hw' => h w' (List.mem_cons_of_mem _ hw')

/-! ## Writing slots -/

section Write

variable [DecidableEq κ]

/-- Write the slots of the positions of `ws`, in order. -/
def writeAll (addr : ℕ → κ) (mem : κ → Option V) (ws : List (ℕ × V)) : κ → Option V :=
  ws.foldl (fun mem w => Function.update mem (addr w.1) (some w.2)) mem

/-- Undefine the slots of the positions below `n`. -/
def clearAll (addr : ℕ → κ) (mem : κ → Option V) (n : ℕ) : κ → Option V :=
  (List.range n).foldl (fun mem i => Function.update mem (addr i) none) mem

theorem writeAll_cons (addr : ℕ → κ) (mem : κ → Option V) (w : ℕ × V) (ws : List (ℕ × V)) :
    writeAll addr mem (w :: ws) = writeAll addr (Function.update mem (addr w.1) (some w.2)) ws := rfl

theorem writeAll_of_notMem {addr : ℕ → κ} {ws : List (ℕ × V)} {a : κ} (ha : ∀ w ∈ ws, addr w.1 ≠ a)
    (mem : κ → Option V) : writeAll addr mem ws a = mem a := by
  induction ws generalizing mem with
  | nil => rfl
  | cons w ws ih =>
    rw [writeAll_cons, ih fun w' hw' => ha w' (List.mem_cons_of_mem _ hw')]
    exact Function.update_of_ne (ha w List.mem_cons_self).symm _ _

theorem isSome_writeAll {a : κ} (addr : ℕ → κ) (ws : List (ℕ × V)) {mem : κ → Option V} (h : (mem a).isSome) :
    (writeAll addr mem ws a).isSome := by
  induction ws generalizing mem with
  | nil => exact h
  | cons w ws ih =>
    rw [writeAll_cons]
    refine ih ?_
    by_cases ha : addr w.1 = a
    · rw [← ha, Function.update_self]; rfl
    · rwa [Function.update_of_ne (Ne.symm ha)]

/-- A slot that is written is defined. -/
theorem writeAll_of_mem {addr : ℕ → κ} {ws : List (ℕ × V)} {w : ℕ × V} (hw : w ∈ ws) (mem : κ → Option V) :
    (writeAll addr mem ws (addr w.1)).isSome := by
  induction ws generalizing mem with
  | nil => cases hw
  | cons w' ws ih =>
    rw [writeAll_cons]
    rcases List.mem_cons.mp hw with rfl | hw
    · exact isSome_writeAll addr ws (by rw [Function.update_self]; rfl)
    · exact ih hw _

theorem clearAll_succ (addr : ℕ → κ) (mem : κ → Option V) (n : ℕ) :
    clearAll addr mem (n + 1) = Function.update (clearAll addr mem n) (addr n) none := by
  rw [clearAll, List.range_succ, List.foldl_append]
  rfl

theorem clearAll_apply (addr : ℕ → κ) (mem : κ → Option V) (n : ℕ) (a : κ) :
    clearAll addr mem n a = if ∃ i < n, addr i = a then none else mem a := by
  induction n with
  | zero => simp [clearAll]
  | succ n ih =>
    rw [clearAll_succ]
    by_cases hn : addr n = a
    · subst hn
      rw [Function.update_self, if_pos ⟨n, Nat.lt_succ_self n, rfl⟩]
    · rw [Function.update_of_ne (Ne.symm hn), ih]
      have hiff : (∃ i < n, addr i = a) ↔ ∃ i < n + 1, addr i = a := by
        refine ⟨fun ⟨i, hi, he⟩ => ⟨i, Nat.lt_succ_of_lt hi, he⟩, fun ⟨i, hi, he⟩ => ⟨i, ?_, he⟩⟩
        have hne : i ≠ n := fun e => hn (e ▸ he)
        omega
      simp only [hiff]

/-- The first `n` addresses hold the list `l`. -/
def StoredAt (null : V) (addr : ℕ → κ) (mem : κ → Option V) (n : ℕ) (l : List V) : Prop :=
  ∀ i < n, (mem (addr i)).getD null = l.getD i null

variable {null : V} {addr : ℕ → κ} {mem : κ → Option V} {n : ℕ} {l : List V}

theorem StoredAt.write (h : StoredAt null addr mem n l) (hinj : ∀ i < n, ∀ j < n, addr i = addr j → i = j) {p : ℕ}
    (hp : p < n) (v : V) : StoredAt null addr (Function.update mem (addr p) (some v)) n (assign null l p v) := by
  intro i hi
  rw [getD_assign]
  by_cases hpi : p = i
  · subst hpi
    rw [Function.update_self, if_pos rfl]
    rfl
  · have hne : addr i ≠ addr p := fun e => hpi (hinj i hi p hp e).symm
    rw [Function.update_of_ne hne, if_neg hpi]
    exact h i hi

/-- **Writing slots is assigning positions**, for a writer whose addresses `tgt` are those the list is read at. -/
theorem StoredAt.writeAll (h : StoredAt null addr mem n l) (hinj : ∀ i < n, ∀ j < n, addr i = addr j → i = j)
    {tgt : ℕ → κ} {ws : List (ℕ × V)} (hws : ∀ w ∈ ws, w.1 < n ∧ tgt w.1 = addr w.1) :
    StoredAt null addr (writeAll tgt mem ws) n (assignAll null l ws) := by
  induction ws generalizing mem l with
  | nil => exact h
  | cons w ws ih =>
    obtain ⟨hlt, heq⟩ := hws w List.mem_cons_self
    rw [writeAll_cons, heq, assignAll_cons]
    exact ih (h.write hinj hlt w.2) fun w' hw' => hws w' (List.mem_cons_of_mem _ hw')

end Write

end OtelDistro.Lib
