import Mathlib.Data.List.Infix
import Mathlib.Data.List.TakeWhile

/-!
# OtelDistro.Lib.Lines — a text by its lines

Letters of any type, one of them ends a line; the last line may lack its end.

* `pieces nl s`: the lines with their ends (`flatten_pieces`).
* `lines nl s`: the lines without their ends.
* `Complete nl s`: the last line has its end.

* `Delimited p s`: the same for several letters that may be the last one.

`pieces_append`: the pieces of a text go on where it is complete; `exists_complete_append`: every text is a complete one and
an unfinished line.
-/

namespace OtelDistro.Lib

variable {α : Type} [DecidableEq α]

/-- The lines with their ends. -/
def pieces (nl : α) : List α → List (List α)
  | [] => []
  | c :: s =>
    if c = nl then [c] :: pieces nl s
    else match pieces nl s with
      | [] => [[c]]
      | l :: ls => (c :: l) :: ls

def lines (nl : α) (s : List α) : List (List α) := (pieces nl s).map fun l => l.takeWhile fun c => c ≠ nl

/-- There is no last line without its end. -/
def Complete (nl : α) (s : List α) : Prop := ∀ c ∈ s.getLast?, c = nl

section Pieces

variable {nl : α} {s t l : List α}

@[simp] theorem pieces_nil : pieces nl [] = [] := rfl

theorem pieces_end (s : List α) : pieces nl (nl :: s) = [nl] :: pieces nl s := if_pos rfl

theorem pieces_cons {c : α} (hc : c ≠ nl) {ls : List (List α)} (h : pieces nl s = l :: ls) :
    pieces nl (c :: s) = (c :: l) :: ls := by
  rw [pieces, if_neg hc, h]

theorem flatten_pieces (s : List α) : (pieces nl s).flatten = s := by
  induction s with
  | nil => rfl
  | cons c s ih =>
    unfold pieces
    split
    · rw [List.flatten_cons, ih]
      rfl
    · split
      · rename_i h
        rw [h] at ih
        rw [← ih]
        rfl
      · rename_i h
        rw [h] at ih
        rw [← ih]
        rfl

theorem pieces_eq_nil_iff : pieces nl s = [] ↔ s = [] := by
  refine ⟨fun h => ?_, fun h => by rw [h]; rfl⟩
  have hflat : (pieces nl s).flatten = s := flatten_pieces s
  rw [← hflat, h]
  rfl

omit [DecidableEq α] in
theorem complete_nil : Complete nl ([] : List α) := fun _ h => by cases h

omit [DecidableEq α] in
theorem Complete.tail {c : α} (h : Complete nl (c :: s)) : Complete nl s := by
  cases s with
  | nil => exact complete_nil
  | cons d s => exact h

theorem pieces_append (h : Complete nl s) (t : List α) : pieces nl (s ++ t) = pieces nl s ++ pieces nl t := by
  induction s with
  | nil => rfl
  | cons c s ih =>
    by_cases hc : c = nl
    · subst hc
      rw [List.cons_append, pieces_end, pieces_end, ih h.tail]
      rfl
    · cases hs : pieces nl s with
      | nil =>
        rw [pieces_eq_nil_iff] at hs
        subst hs
        exact absurd (h c rfl) hc
      | cons l ls =>
        have happend := ih h.tail
        rw [hs, List.cons_append] at happend
        rw [List.cons_append, pieces_cons hc happend, pieces_cons hc hs]
        rfl

/-- A line with its end. -/
theorem pieces_line (h : nl ∉ l) (t : List α) : pieces nl (l ++ nl :: t) = (l ++ [nl]) :: pieces nl t := by
  induction l with
  | nil => exact pieces_end t
  | cons c l ih =>
    rw [List.mem_cons, not_or] at h
    rw [List.cons_append, pieces_cons (fun e => h.1 e.symm) (ih h.2)]
    rfl

/-- A line without its end. -/
theorem pieces_unfinished (h : nl ∉ l) (hne : l ≠ []) : pieces nl l = [l] := by
  induction l with
  | nil => exact absurd rfl hne
  | cons c l ih =>
    rw [List.mem_cons, not_or] at h
    cases l with
    | nil => exact if_neg fun e => h.1 e.symm
    | cons d l => exact pieces_cons (fun e => h.1 e.symm) (ih h.2 (List.cons_ne_nil _ _))

theorem lines_append (h : Complete nl s) (t : List α) : lines nl (s ++ t) = lines nl s ++ lines nl t := by
  rw [lines, pieces_append h, List.map_append]
  rfl

theorem lines_line (h : nl ∉ l) (t : List α) : lines nl (l ++ nl :: t) = l :: lines nl t := by
  rw [lines, pieces_line h, List.map_cons]
  refine congrArg (· :: _) ?_
  rw [List.takeWhile_append_of_pos (fun c hc => by simpa using fun e : c = nl => h (e ▸ hc)), List.takeWhile_cons_of_neg (by simp),
    List.append_nil]

theorem infix_of_mem_lines (h : l ∈ lines nl s) : l <:+: s := by
  obtain ⟨piece, hpiece, rfl⟩ := List.mem_map.mp h
  have hwithin : piece <:+: s := by
    obtain ⟨before, behind, heq⟩ := List.append_of_mem hpiece
    have hflat : (pieces nl s).flatten = s := flatten_pieces s
    refine ⟨before.flatten, behind.flatten, ?_⟩
    rw [← hflat, heq, List.flatten_append, List.flatten_cons, List.append_assoc]
  exact (List.takeWhile_prefix _).isInfix.trans hwithin

/-- Every text is a complete one and an unfinished line. -/
theorem exists_complete_append (nl : α) (s : List α) : ∃ pre last, s = pre ++ last ∧ Complete nl pre ∧ nl ∉ last := by
  induction s using List.reverseRecOn with
  | nil => exact ⟨[], [], rfl, complete_nil, List.not_mem_nil⟩
  | append_singleton s c ih =>
    obtain ⟨pre, last, rfl, hpre, hlast⟩ := ih
    by_cases hc : c = nl
    · refine ⟨pre ++ last ++ [c], [], (List.append_nil _).symm, ?_, List.not_mem_nil⟩
      intro d hd
      rw [List.getLast?_concat, Option.mem_some_iff] at hd
      exact hd ▸ hc
    · refine ⟨pre, last ++ [c], List.append_assoc _ _ _, hpre, ?_⟩
      rw [List.mem_append, List.mem_singleton, not_or]
      exact ⟨hlast, fun e => hc e.symm⟩

omit [DecidableEq α] in
theorem complete_append_iff (hs : Complete nl s) (hl : nl ∉ l) : Complete nl (s ++ l) ↔ l = [] := by
  constructor
  · intro h
    by_contra hne
    have hlast := List.getLast?_eq_some_getLast hne
    have hmem : l.getLast hne ∈ (s ++ l).getLast? := by
      rw [List.getLast?_append, hlast]
      rfl
    exact hl (h _ hmem ▸ List.getLast_mem hne)
  · rintro rfl
    rw [List.append_nil]
    exact hs

end Pieces

/-! ## Several delimiters -/

section Delimited

omit [DecidableEq α]

variable {p : α → Bool} {s t x y : List α}

/-- The last letter is a delimiter. -/
def Delimited (p : α → Bool) (s : List α) : Prop := ∀ c ∈ s.getLast?, p c = true

theorem delimited_nil : Delimited p [] := fun _ h => by cases h

theorem Delimited.append (hs : Delimited p s) (ht : Delimited p t) : Delimited p (s ++ t) := by
  intro c hc
  rw [List.getLast?_append] at hc
  cases hlast : t.getLast? with
  | none =>
    rw [hlast] at hc
    exact hs c hc
  | some d =>
    rw [hlast] at hc
    exact ht c (hlast ▸ hc)

/-- Delimited beginnings of one text that have the same delimiters are one. -/
theorem Delimited.append_inj (hx : Delimited p x) (hy : Delimited p y) (hf : x.filter p = y.filter p)
    (h : x ++ s = y ++ t) : x = y ∧ s = t := by
  suffices H : ∀ {x y : List α}, Delimited p y → x.filter p = y.filter p → ∀ rest, y = x ++ rest → rest = [] by
    rcases List.append_eq_append_iff.mp h with ⟨rest, hyx, hrest⟩ | ⟨rest, hxy, hrest⟩
    · obtain rfl := H hy hf rest hyx
      exact ⟨by rw [hyx, List.append_nil], hrest⟩
    · obtain rfl := H hx hf.symm rest hxy
      exact ⟨by rw [hxy, List.append_nil], hrest.symm⟩
  intro x y hy hf rest heq
  by_contra hne
  have hlast := List.getLast?_eq_some_getLast hne
  have hdelim : p (rest.getLast hne) = true := hy _ (by rw [heq, List.getLast?_append, hlast]; rfl)
  rw [heq, List.filter_append] at hf
  have hmem : rest.getLast hne ∈ rest.filter p := List.mem_filter.mpr ⟨List.getLast_mem hne, hdelim⟩
  rw [List.self_eq_append_right.mp hf] at hmem
  exact List.not_mem_nil hmem

end Delimited

end OtelDistro.Lib
