import Mathlib.Data.List.Basic
import Mathlib.Data.List.Induction
import Mathlib.Data.List.Nodup
import Mathlib.Data.List.Perm.Basic

/-!
# OtelDistro.Lib.Grouping — groups in the order of their first elements

* `firsts key l`: the elements of `l` with a key that no earlier element has.
* `upsert`: change the group of a key, or append a new one; `groupAll` folds it over a list.
* `groupAll_eq`: a group for each of the `firsts`, with the elements of its key in order.
* `perm_flatMap_filter`: the groups of all keys together are the list.
-/

namespace OtelDistro.Lib

variable {α K G : Type} [DecidableEq K]

/-! ## First elements -/

section

variable (key : α → K)

/-- The elements whose key no earlier element has. -/
def firsts (l : List α) : List α := l.foldl (fun acc a => if key a ∈ acc.map key then acc else acc ++ [a]) []

@[simp] theorem firsts_nil : firsts key [] = [] := rfl

theorem firsts_concat' (l : List α) (a : α) : firsts key (l ++ [a]) =
    if key a ∈ (firsts key l).map key then firsts key l else firsts key l ++ [a] := by
  rw [firsts, List.foldl_append]
  rfl

/-- Every key has a first element. -/
theorem mem_keys_firsts {l : List α} {k : K} : k ∈ (firsts key l).map key ↔ k ∈ l.map key := by
  induction l using List.reverseRecOn with
  | nil => exact Iff.rfl
  | append_singleton l a ih =>
    rw [firsts_concat', List.map_append, List.mem_append, List.map_singleton, List.mem_singleton]
    split
    · next h =>
      rw [ih]
      refine ⟨.inl, ?_⟩
      rintro (h' | rfl)
      · exact h'
      · exact ih.mp h
    · rw [List.map_append, List.mem_append, List.map_singleton, List.mem_singleton, ih]

theorem firsts_concat (l : List α) (a : α) : firsts key (l ++ [a]) =
    if key a ∈ l.map key then firsts key l else firsts key l ++ [a] := by
  rw [firsts_concat']
  exact if_congr (mem_keys_firsts key) rfl rfl

theorem nodup_keys_firsts (l : List α) : ((firsts key l).map key).Nodup := by
  induction l using List.reverseRecOn with
  | nil => exact List.nodup_nil
  | append_singleton l a ih =>
    rw [firsts_concat']
    split
    · exact ih
    · next h =>
      rw [List.map_append, List.map_singleton, List.nodup_append]
      refine ⟨ih, List.nodup_singleton _, ?_⟩
      intro k hk k' hk' heq
      rw [List.mem_singleton] at hk'
      exact h (hk' ▸ heq ▸ hk)

/-- An element is a first one when no element before it has its key. -/
theorem mem_firsts {l : List α} {a : α} :
    a ∈ firsts key l ↔ ∃ pre post, l = pre ++ a :: post ∧ ∀ p ∈ pre, key p ≠ key a := by
  induction l using List.reverseRecOn with
  | nil => simp
  | append_singleton l b ih =>
    have hold : a ∈ firsts key l → ∃ pre post, l ++ [b] = pre ++ a :: post ∧ ∀ p ∈ pre, key p ≠ key a := by
      intro h
      obtain ⟨pre, post, rfl, hpre⟩ := ih.mp h
      exact ⟨pre, post ++ [b], by rw [List.append_assoc, List.cons_append], hpre⟩
    rw [firsts_concat]
    constructor
    · intro h
      split at h
      · exact hold h
      · next hnew =>
        rcases List.mem_append.mp h with h | h
        · exact hold h
        · rw [List.mem_singleton.mp h]
          exact ⟨l, [], rfl, fun p hp e => hnew (e ▸ List.mem_map_of_mem hp)⟩
    · rintro ⟨pre, post, heq, hpre⟩
      rcases List.eq_nil_or_concat post with rfl | ⟨post, c, rfl⟩
      · -- the element is the last one of the list
        obtain ⟨rfl, hb⟩ := List.append_inj' heq rfl
        obtain rfl : b = a := List.singleton_inj.mp hb
        rw [if_neg fun hmem => ?_]
        · exact List.mem_append_right _ (List.mem_singleton_self _)
        · obtain ⟨p, hp, hkey⟩ := List.mem_map.mp hmem
          exact hpre p hp hkey
      · rw [List.concat_eq_append, ← List.cons_append, ← List.append_assoc] at heq
        obtain ⟨rfl, -⟩ := List.append_inj' heq rfl
        have hmem := ih.mpr ⟨pre, post, rfl, hpre⟩
        split
        · exact hmem
        · exact List.mem_append_left _ hmem

theorem mem_of_mem_firsts {l : List α} {a : α} (h : a ∈ firsts key l) : a ∈ l := by
  obtain ⟨pre, post, rfl, -⟩ := (mem_firsts key).mp h
  exact List.mem_append_right _ List.mem_cons_self

/-- The element of a key among the first ones. -/
theorem exists_mem_firsts {l : List α} {a : α} (h : a ∈ l) : ∃ b ∈ firsts key l, key b = key a :=
  List.mem_map.mp ((mem_keys_firsts key).mpr (List.mem_map_of_mem h))

theorem firsts_map {β : Type} (f : β → α) (l : List β) :
    firsts key (l.map f) = (firsts (fun b => key (f b)) l).map f := by
  induction l using List.reverseRecOn with
  | nil => rfl
  | append_singleton l b ih =>
    rw [List.map_append, List.map_singleton, firsts_concat, firsts_concat, List.map_map, ih, Function.comp_def]
    by_cases h : key (f b) ∈ l.map fun b => key (f b)
    · rw [if_pos h, if_pos h]
    · rw [if_neg h, if_neg h, List.map_append, List.map_singleton]

/-- The first elements of the keys of a part are those of the pairs of part and key. -/
theorem firsts_filter {P : Type} [DecidableEq P] (part : α → P) (p : P) (l : List α) :
    firsts key (l.filter (part · = p)) = (firsts (fun a => (part a, key a)) l).filter (part · = p) := by
  induction l using List.reverseRecOn with
  | nil => rfl
  | append_singleton l a ih =>
    rw [List.filter_append, firsts_concat]
    by_cases hp : part a = p
    · subst hp
      rw [List.filter_cons_of_pos (by simp), List.filter_nil, firsts_concat, ih]
      have hmem : key a ∈ (l.filter (part · = part a)).map key ↔ (part a, key a) ∈ l.map fun b => (part b, key b) := by
        simp only [List.mem_map, List.mem_filter, decide_eq_true_eq, Prod.mk.injEq, and_assoc]
      by_cases h : (part a, key a) ∈ l.map fun b => (part b, key b)
      · rw [if_pos h, if_pos (hmem.mpr h)]
      · rw [if_neg h, if_neg (hmem.not.mpr h), List.filter_append, List.filter_cons_of_pos (by simp), List.filter_nil]
    · rw [List.filter_cons_of_neg (by simpa using hp), List.filter_nil, List.append_nil, ih]
      split
      · rfl
      · rw [List.filter_append, List.filter_cons_of_neg (by simpa using hp), List.filter_nil, List.append_nil]

/-- The elements of distinct keys, key after key, are the elements of these keys. -/
theorem perm_flatMap_filter_of_nodup (l : List α) {keys : List K} (hnd : keys.Nodup) :
    (keys.flatMap fun k => l.filter (key · = k)).Perm (l.filter (key · ∈ keys)) := by
  induction keys with
  | nil => simp
  | cons k keys ih =>
    rw [List.nodup_cons] at hnd
    rw [List.flatMap_cons]
    refine .trans ?_ (List.filter_append_perm (key · = k) (l.filter (key · ∈ k :: keys)))
    rw [List.filter_filter, List.filter_filter]
    refine .append (.of_eq ?_) ((ih hnd.2).trans (.of_eq ?_))
    · refine List.filter_congr fun a _ => ?_
      by_cases h : key a = k <;> simp [h]
    · refine List.filter_congr fun a _ => ?_
      by_cases h : key a = k
      · simp [h, hnd.1]
      · simp [h]

/-- All groups together. -/
theorem perm_flatMap_filter (l : List α) :
    ((firsts key l).flatMap fun a => l.filter (key · = key a)).Perm l := by
  have h := perm_flatMap_filter_of_nodup key l (nodup_keys_firsts key l)
  rw [List.flatMap_map] at h
  refine h.trans (.of_eq (List.filter_eq_self.mpr fun a ha => ?_))
  rw [decide_eq_true_eq, mem_keys_firsts]
  exact List.mem_map_of_mem ha

end

/-! ## Groups by keys -/

/-- Where the group of a key is. -/
def indexOf (k : K) (groups : List (K × G)) : Option ℕ := groups.findIdx? (·.1 = k)

/-- Change the group of `k`, or append one that is made from `init`. -/
def upsert (k : K) (init : G) (f : G → G) (groups : List (K × G)) : List (K × G) :=
  match indexOf k groups with
  | some i => groups.modify i fun g => (g.1, f g.2)
  | none => groups ++ [(k, f init)]

/-- The groups with one of `k`, a new one if there is none. -/
def ensure (k : K) (init : G) (groups : List (K × G)) : List (K × G) :=
  match indexOf k groups with
  | some _ => groups
  | none => groups ++ [(k, init)]

theorem indexOf_eq_none_iff {k : K} {groups : List (K × G)} :
    indexOf k groups = none ↔ k ∉ groups.map Prod.fst := by
  rw [indexOf, List.findIdx?_eq_none_iff, List.mem_map]
  constructor
  · rintro h ⟨g, hg, rfl⟩
    simpa using h g hg
  · intro h g hg
    simpa using fun e => h ⟨g, hg, e⟩

theorem indexOf_lt {k : K} {groups : List (K × G)} {i : ℕ} (h : indexOf k groups = some i) : i < groups.length := by
  rw [indexOf, List.findIdx?_eq_some_iff_getElem] at h
  exact h.choose

/-- The group of `k` is where its index is. -/
theorem getElem?_indexOf {k : K} {groups : List (K × G)} {i : ℕ} (h : indexOf k groups = some i) :
    ∃ g, groups[i]? = some (k, g) := by
  rw [indexOf, List.findIdx?_eq_some_iff_getElem] at h
  obtain ⟨hi, hk, -⟩ := h
  rw [decide_eq_true_eq] at hk
  exact ⟨groups[i].2, by rw [List.getElem?_eq_getElem hi, ← hk]⟩

theorem indexOf_inj {k k' : K} {groups : List (K × G)} {i : ℕ} (h : indexOf k groups = some i)
    (h' : indexOf k' groups = some i) : k = k' := by
  obtain ⟨g, hg⟩ := getElem?_indexOf h
  obtain ⟨g', hg'⟩ := getElem?_indexOf h'
  rw [hg, Option.some.injEq] at hg'
  exact congrArg Prod.fst hg'

theorem indexOf_cons (k : K) (g : K × G) (groups : List (K × G)) :
    indexOf k (g :: groups) = if g.1 = k then some 0 else (indexOf k groups).map (· + 1) := by
  simp only [indexOf, List.findIdx?_cons, decide_eq_true_eq]

theorem indexOf_append_singleton (k : K) (g : K × G) (groups : List (K × G)) : indexOf k (groups ++ [g]) =
    (indexOf k groups).or (if g.1 = k then some groups.length else none) := by
  rw [indexOf, List.findIdx?_append, ← indexOf]
  by_cases h : g.1 = k <;> simp [List.findIdx?_cons, h]

theorem indexOf_ensure_of_none {k : K} (init : G) {groups : List (K × G)} (h : indexOf k groups = none) :
    ensure k init groups = groups ++ [(k, init)] ∧ indexOf k (ensure k init groups) = some groups.length := by
  rw [ensure, h]
  refine ⟨rfl, ?_⟩
  rw [indexOf_append_singleton, h, if_pos rfl, Option.none_or]

theorem ensure_of_some {k : K} (init : G) {groups : List (K × G)} {i : ℕ} (h : indexOf k groups = some i) :
    ensure k init groups = groups := by
  rw [ensure, h]

theorem modify_length_append (l : List G) (a : G) (f : G → G) : (l ++ [a]).modify l.length f = l ++ [f a] := by
  induction l with
  | nil => rfl
  | cons b l ih => rw [List.cons_append, List.length_cons, List.modify_succ_cons, ih, List.cons_append]

/-- A change of the group of `k` after it is made sure that there is one. -/
theorem upsert_eq_modify {k : K} {init : G} (f : G → G) {groups : List (K × G)} {i : ℕ}
    (h : indexOf k (ensure k init groups) = some i) :
    upsert k init f groups = (ensure k init groups).modify i fun g => (g.1, f g.2) := by
  rw [upsert]
  cases hk : indexOf k groups with
  | some j =>
    rw [ensure_of_some init hk] at h ⊢
    rw [hk, Option.some.injEq] at h
    rw [h]
  | none =>
    obtain ⟨heq, hlast⟩ := indexOf_ensure_of_none init hk
    rw [hlast, Option.some.injEq] at h
    subst h
    rw [heq, modify_length_append]

/-- An index of a group depends on the keys only. -/
theorem indexOf_congr {G' : Type} {k : K} {groups : List (K × G)} {groups' : List (K × G')}
    (h : groups.map Prod.fst = groups'.map Prod.fst) : indexOf k groups = indexOf k groups' := by
  have key {H : Type} (l : List (K × H)) : indexOf k l = (l.map Prod.fst).findIdx? (· = k) := by
    rw [List.findIdx?_map]
    rfl
  rw [key, key, h]

omit [DecidableEq K] in
theorem map_fst_modify (groups : List (K × G)) (i : ℕ) (f : G → G) :
    (groups.modify i fun g => (g.1, f g.2)).map Prod.fst = groups.map Prod.fst := by
  refine List.ext_getElem (by simp) fun j hj hj' => ?_
  simp only [List.getElem_map, List.getElem_modify]
  split <;> rfl

theorem indexOf_modify (k : K) (groups : List (K × G)) (i : ℕ) (f : G → G) :
    indexOf k (groups.modify i fun g => (g.1, f g.2)) = indexOf k groups :=
  indexOf_congr (map_fst_modify groups i f)

/-- Among distinct keys, the group of one key changes. -/
theorem upsert_of_mem {k : K} (init : G) (f : G → G) {groups : List (K × G)} (hnd : (groups.map Prod.fst).Nodup)
    (hk : k ∈ groups.map Prod.fst) :
    upsert k init f groups = groups.map fun g => if g.1 = k then (g.1, f g.2) else g := by
  induction groups with
  | nil => exact absurd hk List.not_mem_nil
  | cons g groups ih =>
    rw [List.map_cons, List.nodup_cons] at hnd
    rw [upsert, indexOf_cons, List.map_cons]
    by_cases hg : g.1 = k
    · subst hg
      have hrest : groups.map (fun g' => if g'.1 = g.1 then (g'.1, f g'.2) else g') = groups := by
        refine (List.map_congr_left fun g' hg' => if_neg fun e => ?_).trans (List.map_id' groups)
        exact hnd.1 (e ▸ List.mem_map_of_mem hg')
      simp only [if_true, List.modify_zero_cons, hrest]
    · have hk' : k ∈ groups.map Prod.fst := (List.mem_cons.mp hk).resolve_left (Ne.symm hg)
      have ih := ih hnd.2 hk'
      rw [upsert] at ih
      cases hi : indexOf k groups with
      | none => exact absurd hk' (indexOf_eq_none_iff.mp hi)
      | some i =>
        rw [hi] at ih
        simp only [if_neg hg, Option.map_some, List.modify_succ_cons]
        rw [← ih]

theorem upsert_of_notMem {k : K} (init : G) (f : G → G) {groups : List (K × G)} (hk : k ∉ groups.map Prod.fst) :
    upsert k init f groups = groups ++ [(k, f init)] := by
  rw [upsert, indexOf_eq_none_iff.mpr hk]

/-! ## Grouping a list -/

/-- Add the elements one by one to the groups of their keys. -/
def groupAll (key : α → K) (init : α → G) (add : G → α → G) (l : List α) : List (K × G) :=
  l.foldl (fun groups a => upsert (key a) (init a) (add · a) groups) []

variable (key : α → K) (init : α → G) (add : G → α → G)

theorem groupAll_concat (l : List α) (a : α) : groupAll key init add (l ++ [a]) =
    upsert (key a) (init a) (add · a) (groupAll key init add l) := by
  rw [groupAll, List.foldl_append]
  rfl

/-- **The groups**: one for each first element, made from it, with the elements of its key added in order. -/
theorem groupAll_eq (l : List α) : groupAll key init add l =
    (firsts key l).map fun a => (key a, (l.filter (key · = key a)).foldl add (init a)) := by
  induction l using List.reverseRecOn with
  | nil => rfl
  | append_singleton l b ih =>
    have hkeys : (groupAll key init add l).map Prod.fst = (firsts key l).map key := by
      rw [ih, List.map_map]
      rfl
    rw [groupAll_concat, firsts_concat]
    by_cases hb : key b ∈ l.map key
    · rw [if_pos hb, upsert_of_mem _ _ (hkeys ▸ nodup_keys_firsts key l) (hkeys ▸ (mem_keys_firsts key).mpr hb), ih,
        List.map_map]
      refine List.map_congr_left fun a _ => ?_
      by_cases hab : key a = key b
      · simp [List.filter_append, hab]
      · simp [List.filter_append, hab, Ne.symm hab]
    · rw [if_neg hb, upsert_of_notMem _ _ (hkeys ▸ fun h => hb ((mem_keys_firsts key).mp h)), ih, List.map_append,
        List.map_singleton]
      congr 1
      · refine List.map_congr_left fun a ha => ?_
        have hab : key b ≠ key a := fun h => hb (h ▸ List.mem_map_of_mem (mem_of_mem_firsts key ha))
        simp [List.filter_append, hab]
      · have hnone : l.filter (key · = key b) = [] :=
          List.filter_eq_nil_iff.mpr fun a ha h => hb (by simpa using ⟨a, ha, by simpa using h⟩)
        simp [List.filter_append, hnone]

end OtelDistro.Lib
