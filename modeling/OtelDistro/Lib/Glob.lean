import Mathlib.Data.List.TakeWhile
import Mathlib.Data.List.Infix
import Mathlib.Order.Basic

/-!
# OtelDistro.Lib.Glob — wildcard patterns

A pattern is a list of characters in which `wild` matches any list and every other character the characters with the same
image under `fold` (the identity, or a folding of case).

* `Glob`: the language of a pattern.
* `partsOf`, `startsWild`, `endsWild`: its maximal literal parts, and whether a wildcard comes first or last.
* `ofParts`: the pattern of given parts, which `partsOf_ofParts` reads back; `canonical`: that of the parts of a pattern.
* `PlacedFrom`: the parts occur in a text in order, without overlapping, anchored at an end without a wildcard.

`glob_iff_placed`: the language is the texts in which the literal parts can be placed.
-/

namespace OtelDistro.Lib

variable {α β : Type} (fold : α → β) (wild : α)

/-- The texts a pattern matches. -/
inductive Glob : List α → List α → Prop
  | nil : Glob [] []
  | skip {p t : List α} : Glob p t → Glob (wild :: p) t
  | eat {p t : List α} {c : α} : Glob (wild :: p) t → Glob (wild :: p) (c :: t)
  | char {p t : List α} {a c : α} : a ≠ wild → fold a = fold c → Glob p t → Glob (a :: p) (c :: t)

/-- `part` occurs in `text` at the position `pos`. -/
def OccursAt (text part : List α) (pos : ℕ) : Prop :=
  pos ≤ text.length ∧ part.map fold <+: (text.drop pos).map fold

/-- The parts occur in order from `lo` on, each behind the one before; the first one at `lo` unless `any`, and the last
one up to the end of the text unless `ends`. -/
def PlacedFrom (text : List α) (ends : Bool) : Bool → List (List α) → ℕ → Prop
  | _, [], lo => ends = true ∨ lo = text.length
  | any, part :: parts, lo => ∃ pos, lo ≤ pos ∧ (any = false → pos = lo) ∧ OccursAt fold text part pos ∧
      PlacedFrom text ends true parts (pos + part.length)

section Occurrences

variable {fold}

instance [DecidableEq β] (text part : List α) (pos : ℕ) : Decidable (OccursAt fold text part pos) :=
  inferInstanceAs (Decidable (_ ∧ _))

/-- Parts can be placed by trying every position. -/
instance decidablePlacedFrom [DecidableEq β] (text : List α) (ends : Bool) :
    ∀ (any : Bool) (parts : List (List α)) (lo : ℕ), Decidable (PlacedFrom fold text ends any parts lo)
  | _, [], _ => inferInstanceAs (Decidable (_ ∨ _))
  | any, part :: parts, lo =>
    have (pos : ℕ) : Decidable (PlacedFrom fold text ends true parts (pos + part.length)) :=
      decidablePlacedFrom text ends true parts _
    decidable_of_iff (∃ pos < text.length + 1, lo ≤ pos ∧ (any = false → pos = lo) ∧ OccursAt fold text part pos ∧
        PlacedFrom fold text ends true parts (pos + part.length))
      ⟨fun ⟨pos, _, h⟩ => ⟨pos, h⟩, fun ⟨pos, h⟩ => ⟨pos, Nat.lt_succ_of_le h.2.2.1.1, h⟩⟩

theorem OccursAt.le {text part : List α} {pos : ℕ} (h : OccursAt fold text part pos) :
    pos + part.length ≤ text.length := by
  have hlen := h.2.length_le
  have hpos := h.1
  rw [List.length_map, List.length_map, List.length_drop] at hlen
  omega

end Occurrences

/-! ## The language -/

section Language

variable {fold wild} {p t : List α}

theorem glob_nil_iff : Glob fold wild [] t ↔ t = [] := by
  constructor
  · intro h
    cases h
    rfl
  · rintro rfl
    exact .nil

theorem glob_cons_iff {a : α} (ha : a ≠ wild) :
    Glob fold wild (a :: p) t ↔ ∃ c t', t = c :: t' ∧ fold a = fold c ∧ Glob fold wild p t' := by
  constructor
  · intro h
    cases h with
    | skip _ => exact absurd rfl ha
    | eat _ => exact absurd rfl ha
    | char _ hf h => exact ⟨_, _, rfl, hf, h⟩
  · rintro ⟨c, t', rfl, hf, h⟩
    exact .char ha hf h

theorem glob_wild_of_drop {k : ℕ} (h : Glob fold wild p (t.drop k)) : Glob fold wild (wild :: p) t := by
  induction t generalizing k with
  | nil => exact .skip (by simpa using h)
  | cons c t ih =>
    cases k with
    | zero => exact .skip h
    | succ k => exact .eat (ih h)

/-- A wildcard drops any number of characters. -/
theorem glob_wild_iff : Glob fold wild (wild :: p) t ↔ ∃ k ≤ t.length, Glob fold wild p (t.drop k) := by
  refine ⟨fun h => ?_, fun ⟨k, _, h⟩ => glob_wild_of_drop h⟩
  induction t with
  | nil =>
    cases h with
    | skip h => exact ⟨0, Nat.zero_le _, h⟩
  | cons c t ih =>
    cases h with
    | skip h => exact ⟨0, Nat.zero_le _, h⟩
    | eat h =>
      obtain ⟨k, hk, hg⟩ := ih h
      exact ⟨k + 1, Nat.succ_le_succ hk, hg⟩
    | char hne _ _ => exact absurd rfl hne

theorem glob_wild_wild_iff : Glob fold wild (wild :: wild :: p) t ↔ Glob fold wild (wild :: p) t := by
  refine ⟨fun h => ?_, .skip⟩
  obtain ⟨k, -, h⟩ := glob_wild_iff.mp h
  obtain ⟨j, -, h⟩ := glob_wild_iff.mp h
  rw [List.drop_drop] at h
  exact glob_wild_of_drop h

/-- A literal part matches a prefix. -/
theorem glob_append_iff {l : List α} (hl : wild ∉ l) :
    Glob fold wild (l ++ p) t ↔ l.map fold <+: t.map fold ∧ Glob fold wild p (t.drop l.length) := by
  induction l generalizing t with
  | nil => exact ⟨fun h => ⟨List.nil_prefix, h⟩, fun h => h.2⟩
  | cons a l ih =>
    rw [List.mem_cons, not_or] at hl
    rw [List.cons_append, glob_cons_iff (Ne.symm hl.1)]
    constructor
    · rintro ⟨c, t', rfl, hf, h⟩
      obtain ⟨hpre, hg⟩ := (ih hl.2).mp h
      rw [List.map_cons, List.map_cons, hf]
      exact ⟨(List.prefix_cons_inj _).mpr hpre, hg⟩
    · rintro ⟨hpre, hg⟩
      cases t with
      | nil => simp at hpre
      | cons c t' =>
        rw [List.map_cons, List.map_cons, List.cons_prefix_cons] at hpre
        exact ⟨c, t', rfl, hpre.1, (ih hl.2).mpr ⟨hpre.2, hg⟩⟩

/-- A pattern that may follow a wildcard. -/
theorem glob_any_iff (any : Bool) {p t : List α} {lo : ℕ} (hlo : lo ≤ t.length) :
    Glob fold wild (if any = true then wild :: p else p) (t.drop lo) ↔
      ∃ pos, lo ≤ pos ∧ pos ≤ t.length ∧ (any = false → pos = lo) ∧ Glob fold wild p (t.drop pos) := by
  cases any with
  | false =>
    rw [if_neg Bool.false_ne_true]
    exact ⟨fun h => ⟨lo, le_rfl, hlo, fun _ => rfl, h⟩, fun ⟨pos, _, _, he, h⟩ => he rfl ▸ h⟩
  | true =>
    rw [if_pos rfl, glob_wild_iff]
    constructor
    · rintro ⟨k, hk, h⟩
      rw [List.length_drop] at hk
      rw [List.drop_drop] at h
      exact ⟨lo + k, Nat.le_add_right _ _, by omega, fun hany => Bool.noConfusion hany, h⟩
    · rintro ⟨pos, hle, hpos, -, h⟩
      refine ⟨pos - lo, by rw [List.length_drop]; omega, ?_⟩
      rwa [List.drop_drop, Nat.add_sub_cancel' hle]

end Language

/-! ## The literal parts -/

section Parts

variable [DecidableEq α]

/-- The maximal parts without a wildcard. -/
def partsOf : List α → List (List α)
  | [] => []
  | c :: cs =>
    if c = wild then partsOf cs
    else (c :: cs.takeWhile (fun d => d ≠ wild)) :: partsOf (cs.dropWhile (fun d => d ≠ wild))
  termination_by p => p.length
  decreasing_by
    · simp
    · exact Nat.lt_succ_of_le (List.length_dropWhile_le _ _)

def startsWild (p : List α) : Bool := p.head? = some wild

/-- Whether the last character is a wildcard, `last` for an empty pattern. -/
def endsWild (last : Bool) (p : List α) : Bool := p.foldl (fun _ c => decide (c = wild)) last

variable {wild}

theorem endsWild_cons (last : Bool) (c : α) (p : List α) :
    endsWild wild last (c :: p) = endsWild wild (decide (c = wild)) p := rfl

theorem endsWild_append (last : Bool) (l p : List α) :
    endsWild wild last (l ++ p) = endsWild wild (endsWild wild last l) p := List.foldl_append

theorem endsWild_literal {l : List α} (hl : wild ∉ l) : endsWild wild false l = false := by
  induction l with
  | nil => rfl
  | cons a l ih =>
    rw [List.mem_cons, not_or] at hl
    rw [endsWild_cons, decide_eq_false (Ne.symm hl.1)]
    exact ih hl.2

/-- A pattern without literal parts starts and ends with a wildcard, or is empty. -/
theorem startsWild_eq_endsWild {p : List α} (hp : partsOf wild p = []) : startsWild wild p = endsWild wild false p := by
  have hends : ∀ (p : List α), partsOf wild p = [] → endsWild wild true p = true := by
    intro p
    induction p using partsOf.induct wild with
    | case1 => exact fun _ => rfl
    | case2 cs ih =>
      intro hp
      rw [partsOf, if_pos rfl] at hp
      rw [endsWild_cons, decide_eq_true rfl]
      exact ih hp
    | case3 c cs hc _ =>
      intro hp
      rw [partsOf, if_neg hc] at hp
      exact absurd hp (List.cons_ne_nil _ _)
  cases p with
  | nil => rfl
  | cons c cs =>
    by_cases hc : c = wild
    · rw [partsOf, if_pos hc] at hp
      rw [endsWild_cons, decide_eq_true hc, hends cs hp]
      simp [startsWild, hc]
    · rw [partsOf, if_neg hc] at hp
      exact absurd hp (List.cons_ne_nil _ _)

theorem notMem_takeWhile (l : List α) : wild ∉ l.takeWhile (fun d => d ≠ wild) := fun h => by
  simpa using List.mem_takeWhile_imp h

/-- Behind a literal part there is a wildcard or nothing. -/
theorem dropWhile_cases (l : List α) :
    l.dropWhile (fun d => d ≠ wild) = [] ∨ startsWild wild (l.dropWhile (fun d => d ≠ wild)) = true := by
  induction l with
  | nil => exact .inl rfl
  | cons a l ih =>
    by_cases ha : a = wild
    · subst ha
      refine .inr ?_
      simp [startsWild]
    · rw [List.dropWhile_cons_of_pos (by simpa using ha)]
      exact ih

/-- A part that is followed by a wildcard or by nothing. -/
theorem partsOf_append {part rest : List α} (hne : part ≠ []) (hlit : wild ∉ part)
    (hrest : rest = [] ∨ startsWild wild rest = true) : partsOf wild (part ++ rest) = part :: partsOf wild rest := by
  obtain ⟨c, part, rfl⟩ := List.exists_cons_of_ne_nil hne
  rw [List.mem_cons, not_or] at hlit
  have hall : ∀ d ∈ part, decide (d ≠ wild) = true := fun d hd => decide_eq_true fun h => hlit.2 (h ▸ hd)
  have htake : rest.takeWhile (fun d => d ≠ wild) = [] ∧ rest.dropWhile (fun d => d ≠ wild) = rest := by
    cases rest with
    | nil => exact ⟨rfl, rfl⟩
    | cons d rest =>
      have hd : d = wild := by simpa [startsWild] using hrest
      simp [hd]
  rw [List.cons_append, partsOf, if_neg (Ne.symm hlit.1), List.takeWhile_append_of_pos hall, List.dropWhile_append_of_pos hall,
    htake.1, htake.2, List.append_nil]

theorem mem_partsOf {p part : List α} (h : part ∈ partsOf wild p) : part ≠ [] ∧ wild ∉ part := by
  induction p using partsOf.induct wild with
  | case1 =>
    rw [partsOf] at h
    exact absurd h List.not_mem_nil
  | case2 cs ih =>
    rw [partsOf, if_pos rfl] at h
    exact ih h
  | case3 c cs hc ih =>
    rw [partsOf, if_neg hc] at h
    rcases List.mem_cons.mp h with rfl | h
    · refine ⟨List.cons_ne_nil _ _, ?_⟩
      rw [List.mem_cons, not_or]
      exact ⟨Ne.symm hc, notMem_takeWhile cs⟩
    · exact ih h

/-- A literal text begins a pattern only within its first part. -/
theorem literal_prefix_iff {p l : List α} (hne : l ≠ []) (hlit : wild ∉ l) :
    l <+: p ↔ startsWild wild p = false ∧ ∃ part ∈ (partsOf wild p).head?, l <+: part := by
  obtain ⟨a, l, rfl⟩ := List.exists_cons_of_ne_nil hne
  cases p with
  | nil => simp [partsOf]
  | cons c cs =>
    by_cases hc : c = wild
    · subst hc
      refine iff_of_false (fun h => ?_) (by simp [startsWild])
      exact hlit (List.mem_cons.mpr (.inl (List.cons_prefix_cons.mp h).1.symm))
    · rw [partsOf, if_neg hc]
      have hstart : startsWild wild (c :: cs) = false := by simpa [startsWild] using hc
      simp only [hstart, List.head?_cons, Option.mem_some_iff, exists_eq_left', true_and, List.cons_prefix_cons]
      refine and_congr_right fun _ => ⟨fun h => ?_, fun h => h.trans (List.takeWhile_prefix _)⟩
      obtain ⟨behind, rfl⟩ := h
      rw [List.mem_cons, not_or] at hlit
      have hall : ∀ d ∈ l, decide (d ≠ wild) = true := fun d hd => decide_eq_true fun h => hlit.2 (h ▸ hd)
      rw [List.takeWhile_append_of_pos hall]
      exact List.prefix_append _ _

/-! ## The pattern of given parts -/

/-- The parts with one wildcard between two of them. -/
def ofParts (wild : α) (starts ends : Bool) (parts : List (List α)) : List α :=
  (if starts then [wild] else []) ++ ([wild].intercalate parts ++ if ends then [wild] else [])

section OfParts

variable {starts ends : Bool} {parts : List (List α)}

/-- A pattern that is empty or starts with a wildcard, and ends with one if it is not empty. -/
theorem partsOf_intercalate (hparts : ∀ part ∈ parts, part ≠ [] ∧ wild ∉ part) {tail : List α}
    (htail : tail = [] ∨ startsWild wild tail = true) :
    partsOf wild ([wild].intercalate parts ++ tail) = parts ++ partsOf wild tail := by
  induction parts with
  | nil => rfl
  | cons part parts ih =>
    obtain ⟨⟨hne, hlit⟩, hparts⟩ := List.forall_mem_cons.mp hparts
    cases parts with
    | nil =>
      rw [List.intercalate_singleton, partsOf_append hne hlit htail]
      rfl
    | cons next parts =>
      rw [List.intercalate_cons_cons, List.append_assoc, List.append_assoc, partsOf_append hne hlit (.inr (by simp [startsWild])),
        List.singleton_append, partsOf, if_pos rfl, ih hparts]
      rfl

theorem partsOf_wilds : partsOf wild (if ends then [wild] else []) = [] := by
  cases ends <;> simp [partsOf]

/-- **The parts are read back.** -/
theorem partsOf_ofParts (hparts : ∀ part ∈ parts, part ≠ [] ∧ wild ∉ part) :
    partsOf wild (ofParts wild starts ends parts) = parts := by
  have hrest : partsOf wild ([wild].intercalate parts ++ if ends then [wild] else []) = parts := by
    rw [partsOf_intercalate hparts (by cases ends <;> simp [startsWild]), partsOf_wilds, List.append_nil]
  cases starts with
  | false => exact hrest
  | true =>
    rw [ofParts, if_pos rfl, List.singleton_append, partsOf, if_pos rfl, hrest]

theorem startsWild_ofParts (hparts : ∀ part ∈ parts, part ≠ [] ∧ wild ∉ part) (hnil : parts = [] → starts = ends) :
    startsWild wild (ofParts wild starts ends parts) = starts := by
  cases starts with
  | true => simp [ofParts, startsWild]
  | false =>
    cases parts with
    | nil => simp [ofParts, ← hnil rfl, startsWild]
    | cons part parts =>
      obtain ⟨⟨hne, hlit⟩, -⟩ := List.forall_mem_cons.mp hparts
      obtain ⟨c, part, rfl⟩ := List.exists_cons_of_ne_nil hne
      have hc : c ≠ wild := fun h => hlit (h ▸ List.mem_cons_self)
      cases parts <;> simp [ofParts, startsWild, List.intercalate_cons_cons, hc]

theorem endsWild_intercalate (hparts : ∀ part ∈ parts, part ≠ [] ∧ wild ∉ part) (hne : parts ≠ []) (last : Bool) :
    endsWild wild last ([wild].intercalate parts) = false := by
  induction parts generalizing last with
  | nil => exact absurd rfl hne
  | cons part parts ih =>
    obtain ⟨⟨hpart, hlit⟩, hparts⟩ := List.forall_mem_cons.mp hparts
    cases parts with
    | nil =>
      obtain ⟨c, part, rfl⟩ := List.exists_cons_of_ne_nil hpart
      rw [List.mem_cons, not_or] at hlit
      rw [List.intercalate_singleton, endsWild_cons, decide_eq_false (Ne.symm hlit.1)]
      exact endsWild_literal hlit.2
    | cons next parts =>
      rw [List.intercalate_cons_cons, endsWild_append]
      exact ih hparts (List.cons_ne_nil _ _) _

theorem endsWild_ofParts (hparts : ∀ part ∈ parts, part ≠ [] ∧ wild ∉ part) (hnil : parts = [] → starts = ends) :
    endsWild wild false (ofParts wild starts ends parts) = ends := by
  rw [ofParts, endsWild_append, endsWild_append]
  by_cases hne : parts = []
  · subst hne
    obtain rfl := hnil rfl
    cases starts <;> simp [endsWild]
  · rw [endsWild_intercalate hparts hne]
    cases ends <;> simp [endsWild]

end OfParts

/-- The pattern with every run of wildcards between two parts shortened to one. -/
def canonical (wild : α) (p : List α) : List α := ofParts wild (startsWild wild p) (endsWild wild false p) (partsOf wild p)

theorem partsOf_canonical (p : List α) : partsOf wild (canonical wild p) = partsOf wild p :=
  partsOf_ofParts fun _ => mem_partsOf

theorem startsWild_canonical (p : List α) : startsWild wild (canonical wild p) = startsWild wild p :=
  startsWild_ofParts (fun _ => mem_partsOf) startsWild_eq_endsWild

theorem endsWild_canonical (p : List α) : endsWild wild false (canonical wild p) = endsWild wild false p :=
  endsWild_ofParts (fun _ => mem_partsOf) startsWild_eq_endsWild

/-- The same literal texts begin a pattern and its canonical form. -/
theorem literal_prefix_canonical {p l : List α} (hne : l ≠ []) (hlit : wild ∉ l) : l <+: canonical wild p ↔ l <+: p := by
  rw [literal_prefix_iff hne hlit, literal_prefix_iff hne hlit, startsWild_canonical, partsOf_canonical]

end Parts

/-! ## Placing the parts -/

section Placed

variable [DecidableEq α] {fold wild}

theorem placedFrom_startsWild {text : List α} {ends : Bool} {p : List α} (lo : ℕ)
    (hp : p = [] ∨ startsWild wild p = true) :
    PlacedFrom fold text ends (startsWild wild p) (partsOf wild p) lo ↔
      PlacedFrom fold text ends true (partsOf wild p) lo := by
  rcases hp with rfl | hp
  · rw [partsOf]; rfl
  · rw [hp]

theorem glob_iff_placedFrom (p t : List α) (any : Bool) {lo : ℕ} (hlo : lo ≤ t.length) :
    Glob fold wild (if any = true then wild :: p else p) (t.drop lo) ↔
      PlacedFrom fold t (endsWild wild any p) (any || startsWild wild p) (partsOf wild p) lo := by
  induction p using partsOf.induct wild generalizing any lo with
  | case1 =>
    rw [partsOf]
    cases any with
    | false =>
      rw [if_neg Bool.false_ne_true, glob_nil_iff, List.drop_eq_nil_iff]
      show t.length ≤ lo ↔ false = true ∨ lo = t.length
      exact ⟨fun h => .inr (Nat.le_antisymm hlo h), fun h => (h.resolve_left Bool.false_ne_true).ge⟩
    | true =>
      rw [if_pos rfl]
      refine ⟨fun _ => .inl rfl, fun _ => glob_wild_of_drop (k := t.length) ?_⟩
      rw [List.drop_drop, List.drop_eq_nil_of_le (Nat.le_add_left _ _)]
      exact .nil
  | case2 cs ih =>
    have hhead : Glob fold wild (if any = true then wild :: wild :: cs else wild :: cs) (t.drop lo) ↔
        Glob fold wild (if true = true then wild :: cs else cs) (t.drop lo) := by
      cases any with
      | false => rfl
      | true => exact glob_wild_wild_iff
    have hparts : partsOf wild (wild :: cs) = partsOf wild cs := by rw [partsOf, if_pos rfl]
    have hends : endsWild wild any (wild :: cs) = endsWild wild true cs := by
      rw [endsWild_cons, decide_eq_true rfl]
    rw [hhead, ih true hlo, hparts, hends]
    simp [startsWild]
  | case3 c cs hc ih =>
    -- the pattern is a literal part and the rest behind it
    obtain ⟨part, hpart⟩ : ∃ part, part = c :: cs.takeWhile (fun d => d ≠ wild) := ⟨_, rfl⟩
    obtain ⟨rest, hrest⟩ : ∃ rest, rest = cs.dropWhile (fun d => d ≠ wild) := ⟨_, rfl⟩
    rw [← hrest] at ih
    have hsplit : c :: cs = part ++ rest := by
      rw [hpart, hrest, List.cons_append, List.takeWhile_append_dropWhile]
    have hlit : wild ∉ part := by
      rw [hpart, List.mem_cons, not_or]
      exact ⟨Ne.symm hc, notMem_takeWhile cs⟩
    have hparts : partsOf wild (c :: cs) = part :: partsOf wild rest := by rw [partsOf, if_neg hc, hpart, hrest]
    have hends : endsWild wild any (c :: cs) = endsWild wild false rest := by
      rw [hsplit, endsWild_append, hpart, endsWild_cons, decide_eq_false hc, endsWild_literal (notMem_takeWhile cs)]
    have hstart : startsWild wild (c :: cs) = false := by simpa [startsWild] using hc
    rw [glob_any_iff any hlo, hparts, hends, hstart, Bool.or_false, PlacedFrom]
    refine exists_congr fun pos => ?_
    have hrec : pos + part.length ≤ t.length → (Glob fold wild rest (t.drop (pos + part.length)) ↔
        PlacedFrom fold t (endsWild wild false rest) true (partsOf wild rest) (pos + part.length)) := fun hle => by
      rw [← placedFrom_startsWild _ (hrest ▸ dropWhile_cases cs)]
      exact ih false hle
    rw [hsplit, glob_append_iff hlit, List.drop_drop]
    constructor
    · rintro ⟨hlo, hpos, hany, hpre, hg⟩
      have hocc : OccursAt fold t part pos := ⟨hpos, hpre⟩
      exact ⟨hlo, hany, hocc, (hrec hocc.le).mp hg⟩
    · rintro ⟨hlo, hany, hocc, hplaced⟩
      exact ⟨hlo, hocc.1, hany, hocc.2, (hrec hocc.le).mpr hplaced⟩

/-- **The language of a pattern**: its literal parts can be placed in order without overlapping. -/
theorem glob_iff_placed (p t : List α) :
    Glob fold wild p t ↔ PlacedFrom fold t (endsWild wild false p) (startsWild wild p) (partsOf wild p) 0 :=
  glob_iff_placedFrom p t false (Nat.zero_le _)

end Placed

end OtelDistro.Lib
