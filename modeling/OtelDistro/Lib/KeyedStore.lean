import Mathlib.Data.List.AList
import Mathlib.Data.List.Induction
import Mathlib.Data.List.Sort

/-!
# OtelDistro.Lib.KeyedStore — finite maps filled by repeated insertion

`KMap K V` is Mathlib's `AList` at a constant value type: an association list whose keys are distinct.

* `tryEmplace`: store only when the key is absent (the first value of a key wins), `AList.insert`: replace.
* `emplaceAll`, `insertAll`: the two, folded over a list of pairs; `lookup_emplaceAll`, `lookup_insertAll` say what
  is found afterwards.
* `filterMapValues`: drop or replace entries one by one.
* `eraseLoop`: a loop that erases while it iterates; `eraseLoop_eq`: it comes to every entry once (`filterMapValues`).
* `firstAt k l`: the value of the first pair of `l` with key `k`; for distinct keys the order of `l` is irrelevant
  (`firstAt_perm`), so a map may be iterated in any order.
-/

namespace OtelDistro.Lib

/-- Finite maps with distinct keys. -/
abbrev KMap (K V : Type) := AList (fun _ : K => V)

section Pairs

variable {K V : Type} [DecidableEq K]

/-- The value of the first pair with key `k`. -/
def firstAt (k : K) (l : List (K × V)) : Option V := (l.find? (fun p => p.1 = k)).map Prod.snd

@[simp] theorem firstAt_nil (k : K) : firstAt k ([] : List (K × V)) = none := rfl

theorem firstAt_cons (k : K) (p : K × V) (l : List (K × V)) :
    firstAt k (p :: l) = if p.1 = k then some p.2 else firstAt k l := by
  by_cases h : p.1 = k <;> simp [firstAt, h]

theorem firstAt_append (k : K) (l l' : List (K × V)) :
    firstAt k (l ++ l') = (firstAt k l).or (firstAt k l') := by
  induction l with
  | nil => simp
  | cons p l ih =>
    rw [List.cons_append, firstAt_cons, firstAt_cons, ih]
    by_cases h : p.1 = k <;> simp [h]

theorem mem_of_firstAt {k : K} {v : V} {l : List (K × V)} (h : firstAt k l = some v) : (k, v) ∈ l := by
  induction l with
  | nil => simp at h
  | cons p l ih =>
    rw [firstAt_cons] at h
    by_cases hk : p.1 = k
    · rw [if_pos hk, Option.some.injEq] at h
      subst hk h
      exact List.mem_cons_self
    · rw [if_neg hk] at h
      exact List.mem_cons_of_mem _ (ih h)

theorem firstAt_eq_some_iff {k : K} {v : V} {l : List (K × V)} (hnd : (l.map Prod.fst).Nodup) :
    firstAt k l = some v ↔ (k, v) ∈ l := by
  refine ⟨mem_of_firstAt, fun h => ?_⟩
  induction l with
  | nil => simp at h
  | cons p l ih =>
    rw [List.map_cons, List.nodup_cons] at hnd
    rw [firstAt_cons]
    rcases List.mem_cons.mp h with rfl | h
    · simp
    · have hne : p.1 ≠ k := fun e => hnd.1 (e ▸ List.mem_map_of_mem (f := Prod.fst) h)
      rw [if_neg hne]
      exact ih hnd.2 h

/-- The order of pairs with distinct keys is irrelevant. -/
theorem firstAt_perm {k : K} {l l' : List (K × V)} (hnd : (l.map Prod.fst).Nodup) (h : l.Perm l') :
    firstAt k l = firstAt k l' := by
  have hnd' : (l'.map Prod.fst).Nodup := (h.map Prod.fst).nodup_iff.mp hnd
  refine Option.ext fun v => ?_
  rw [firstAt_eq_some_iff hnd, firstAt_eq_some_iff hnd', h.mem_iff]

end Pairs

namespace KMap

variable {K V : Type}

/-- The pairs of a map, in the order of its entries. -/
def pairs (m : KMap K V) : List (K × V) := m.entries.map (fun e => (e.1, e.2))

theorem pairs_keys (m : KMap K V) : m.pairs.map Prod.fst = m.entries.map Sigma.fst := by
  rw [pairs, List.map_map]; rfl

theorem nodup_pairs (m : KMap K V) : (m.pairs.map Prod.fst).Nodup := by
  rw [pairs_keys]; exact m.nodupKeys

/-- The pairs of a map in the order of `le` on its keys (iteration of an ordered map). -/
def orderedPairs (le : K → K → Prop) [DecidableRel le] (m : KMap K V) : List (K × V) :=
  m.pairs.insertionSort (fun p q => le p.1 q.1)

theorem orderedPairs_perm (le : K → K → Prop) [DecidableRel le] (m : KMap K V) :
    (m.orderedPairs le).Perm m.pairs := List.perm_insertionSort _ _

theorem nodup_orderedPairs (le : K → K → Prop) [DecidableRel le] (m : KMap K V) :
    ((m.orderedPairs le).map Prod.fst).Nodup :=
  ((m.orderedPairs_perm le).map Prod.fst).nodup_iff.mpr m.nodup_pairs

/-- The entries that `f` keeps, with the values it gives them. -/
def keepEntries {W : Type} (f : K → V → Option W) (l : List (Σ _ : K, V)) : List (Σ _ : K, W) :=
  l.filterMap (fun e => (f e.1 e.2).map (Sigma.mk e.1))

theorem keepEntries_cons {W : Type} (f : K → V → Option W) (e : Σ _ : K, V) (l : List (Σ _ : K, V)) :
    keepEntries f (e :: l) = ((f e.1 e.2).map (Sigma.mk e.1)).toList ++ keepEntries f l := by
  rw [keepEntries, List.filterMap_cons]
  cases f e.1 e.2 <;> rfl

theorem keys_keepEntries_sublist {W : Type} (f : K → V → Option W) (l : List (Σ _ : K, V)) :
    (keepEntries f l).keys.Sublist l.keys := by
  induction l with
  | nil => exact .refl _
  | cons e l ih =>
    rw [keepEntries_cons]
    cases f e.1 e.2 with
    | none => exact ih.cons _
    | some w => exact ih.cons_cons _

/-- Drop the keys `f` gives no value, replace the values of the others. -/
def filterMapValues {W : Type} (f : K → V → Option W) (m : KMap K V) : KMap K W :=
  ⟨keepEntries f m.entries, (show m.entries.keys.Nodup from m.nodupKeys).sublist (keys_keepEntries_sublist f m.entries)⟩

theorem keys_modify (l : List (Σ _ : K, V)) (pos : ℕ) (v : V) : (l.modify pos fun e => ⟨e.1, v⟩).keys = l.keys := by
  induction l generalizing pos with
  | nil => cases pos <;> rfl
  | cons e l ih =>
    cases pos with
    | zero => rfl
    | succ pos => exact congrArg (e.1 :: ·) (ih pos)

/-- `erase` at an iterator; the iterator that comes back is at the same position. -/
def eraseAt (m : KMap K V) (pos : ℕ) : KMap K V := ⟨m.entries.eraseIdx pos, m.nodupKeys.sublist (List.eraseIdx_sublist _ _)⟩

/-- The value at an iterator is changed in place. -/
def updateAt (m : KMap K V) (pos : ℕ) (v : V) : KMap K V :=
  ⟨m.entries.modify pos fun e => ⟨e.1, v⟩, by
    rw [List.NodupKeys, keys_modify]
    exact m.nodupKeys⟩

/-- The loop from the position of an iterator on.  For each entry `body` gives the value it leaves there, or `none` to erase
it; the end is reached behind the last entry. -/
def eraseLoop (body : K → V → Option V) (m : KMap K V) (pos : ℕ) : KMap K V :=
  if h : pos < m.entries.length then
    match body m.entries[pos].1 m.entries[pos].2 with
    | none => eraseLoop body (m.eraseAt pos) pos
    | some v => eraseLoop body (m.updateAt pos v) (pos + 1)
  else m
termination_by m.entries.length - pos
decreasing_by
  all_goals
    simp only [eraseAt, updateAt, List.length_eraseIdx, List.length_modify, if_pos h]
    omega

/-- What is before the iterator stays, the entries from there on are come to once each. -/
theorem entries_eraseLoop (body : K → V → Option V) (m : KMap K V) (pos : ℕ) :
    (m.eraseLoop body pos).entries = m.entries.take pos ++ keepEntries body (m.entries.drop pos) := by
  induction m, pos using eraseLoop.induct body with
  | case1 m pos h hbody ih =>
    have hdrop : (m.entries.eraseIdx pos).drop pos = m.entries.drop (pos + 1) := by
      rw [List.eraseIdx_eq_take_drop_succ, List.drop_left' (List.length_take_of_le (Nat.le_of_lt h))]
    have htake : (m.entries.eraseIdx pos).take pos = m.entries.take pos := by
      rw [List.eraseIdx_eq_take_drop_succ, List.take_left' (List.length_take_of_le (Nat.le_of_lt h))]
    rw [eraseLoop, dif_pos h, hbody]
    refine ih.trans ?_
    rw [eraseAt, htake, hdrop, ← List.getElem_cons_drop h, keepEntries_cons, hbody]
    rfl
  | case2 m pos h v hbody ih =>
    have hsplit : (m.updateAt pos v).entries =
        m.entries.take pos ++ ⟨m.entries[pos].1, v⟩ :: m.entries.drop (pos + 1) :=
      List.modify_eq_take_cons_drop h
    have hlen : (m.entries.take pos).length = pos := List.length_take_of_le (Nat.le_of_lt h)
    rw [eraseLoop, dif_pos h, hbody]
    refine ih.trans ?_
    rw [hsplit, List.append_cons, List.take_left' (by simp [hlen]), List.drop_left' (by simp [hlen]),
      ← List.getElem_cons_drop h, keepEntries_cons, hbody, List.append_assoc]
    rfl
  | case3 m pos h =>
    rw [eraseLoop, dif_neg h, List.take_of_length_le (Nat.not_lt.mp h), List.drop_eq_nil_of_le (Nat.not_lt.mp h)]
    exact (List.append_nil _).symm

/-- **A loop that erases while it iterates** comes to every entry once. -/
theorem eraseLoop_eq (body : K → V → Option V) (m : KMap K V) : m.eraseLoop body 0 = m.filterMapValues body :=
  AList.ext (entries_eraseLoop body m 0)

variable [DecidableEq K]

theorem dlookup_keepEntries {W : Type} (f : K → V → Option W) (k : K) {l : List (Σ _ : K, V)} (hnd : l.NodupKeys) :
    (keepEntries f l).dlookup k = (l.dlookup k).bind (f k) := by
  induction l with
  | nil => rfl
  | cons e l ih =>
    have hl : (keepEntries f l).dlookup k = (l.dlookup k).bind (f k) := ih (List.nodupKeys_of_nodupKeys_cons hnd)
    obtain ⟨k', v⟩ := e
    rw [keepEntries_cons]
    by_cases hk : k = k'
    · subst hk
      rw [List.dlookup_cons_eq, Option.bind_some]
      have hnone : l.dlookup k = none := List.dlookup_eq_none.mpr (List.notMem_keys_of_nodupKeys_cons hnd)
      cases hf : f k v with
      | none => simpa [hf, hnone] using hl
      | some w => simp
    · rw [List.dlookup_cons_ne l ⟨k', v⟩ hk, ← hl]
      cases hf : f k' v with
      | none => simp
      | some w => simpa using List.dlookup_cons_ne _ (⟨k', w⟩ : Σ _ : K, W) hk

theorem lookup_filterMapValues {W : Type} (f : K → V → Option W) (m : KMap K V) (k : K) :
    (m.filterMapValues f).lookup k = (m.lookup k).bind (f k) :=
  dlookup_keepEntries f k m.nodupKeys

theorem lookup_erase' (m : KMap K V) (k k' : K) :
    (m.erase k).lookup k' = if k = k' then none else m.lookup k' := by
  by_cases h : k = k'
  · subst h; simp
  · rw [if_neg h, AList.lookup_erase_ne (Ne.symm h)]

theorem lookup_of_isEmpty {m : KMap K V} (h : m.entries.isEmpty = true) (k : K) : m.lookup k = none := by
  rw [AList.lookup, List.isEmpty_iff.mp h, List.dlookup_nil]

theorem lookup_eq_firstAt (m : KMap K V) (k : K) : m.lookup k = firstAt k m.pairs := by
  refine Option.ext fun v => ?_
  rw [firstAt_eq_some_iff m.nodup_pairs, ← Option.mem_def, AList.mem_lookup_iff, pairs, List.mem_map]
  exact ⟨fun h => ⟨⟨k, v⟩, h, rfl⟩, by rintro ⟨⟨k', v'⟩, h, e⟩; cases e; exact h⟩

/-- Store `v` under `k` unless the key is present. -/
def tryEmplace (m : KMap K V) (k : K) (v : V) : KMap K V := if (m.lookup k).isSome then m else m.insert k v

theorem lookup_insert' (m : KMap K V) (k k' : K) (v : V) :
    (m.insert k v).lookup k' = if k = k' then some v else m.lookup k' := by
  by_cases h : k = k'
  · subst h; simp
  · rw [if_neg h, AList.lookup_insert_ne (Ne.symm h)]

theorem lookup_tryEmplace (m : KMap K V) (k k' : K) (v : V) :
    (m.tryEmplace k v).lookup k' = (m.lookup k').or (if k = k' then some v else none) := by
  unfold tryEmplace
  cases hm : m.lookup k with
  | some w =>
    rw [Option.isSome_some, if_pos rfl]
    by_cases h : k = k'
    · subst h; simp [hm]
    · simp [h]
  | none =>
    rw [Option.isSome_none, if_neg Bool.false_ne_true, lookup_insert']
    by_cases h : k = k'
    · subst h; simp [hm]
    · simp [h]

/-- Fold `tryEmplace` over a list of pairs. -/
def emplaceAll (m : KMap K V) (l : List (K × V)) : KMap K V := l.foldl (fun m p => m.tryEmplace p.1 p.2) m

/-- Fold `insert` over a list of pairs. -/
def insertAll (m : KMap K V) (l : List (K × V)) : KMap K V := l.foldl (fun m p => m.insert p.1 p.2) m

/-- **First wins**: after `emplaceAll` a key has its old value, or the first one of the list. -/
theorem lookup_emplaceAll (l : List (K × V)) (m : KMap K V) (k : K) :
    (m.emplaceAll l).lookup k = (m.lookup k).or (firstAt k l) := by
  induction l generalizing m with
  | nil => simp [emplaceAll]
  | cons p l ih =>
    have h := ih (m.tryEmplace p.1 p.2)
    rw [emplaceAll, List.foldl_cons, ← emplaceAll, h, lookup_tryEmplace, firstAt_cons, Option.or_assoc]
    by_cases hk : p.1 = k <;> simp [hk]

/-- **Last wins**: after `insertAll` a key has the last value of the list, or its old one. -/
theorem lookup_insertAll (l : List (K × V)) (m : KMap K V) (k : K) :
    (m.insertAll l).lookup k = (firstAt k l.reverse).or (m.lookup k) := by
  induction l generalizing m with
  | nil => simp [insertAll]
  | cons p l ih =>
    have h := ih (m.insert p.1 p.2)
    rw [insertAll, List.foldl_cons, ← insertAll, h, lookup_insert', List.reverse_cons, firstAt_append, firstAt_cons,
      firstAt_nil, Option.or_assoc]
    by_cases hk : p.1 = k <;> simp [hk]

theorem lookup_insertAll_of_nodup {l : List (K × V)} (hnd : (l.map Prod.fst).Nodup) (m : KMap K V) (k : K) :
    (m.insertAll l).lookup k = (firstAt k l).or (m.lookup k) := by
  rw [lookup_insertAll, firstAt_perm hnd (List.reverse_perm l).symm]

theorem lookup_insertAll_pairs (m m' : KMap K V) (k : K) :
    (m.insertAll m'.pairs).lookup k = (m'.lookup k).or (m.lookup k) := by
  rw [lookup_insertAll_of_nodup m'.nodup_pairs, lookup_eq_firstAt m']

/-- The last insertion under a key decides. -/
theorem lookup_foldl_insert_iff {A : Type} {key : A → K} {val : A → V} {l : List A} {k : K} {v : V} :
    (l.foldl (fun m a => m.insert (key a) (val a)) (∅ : KMap K V)).lookup k = some v ↔
      ∃ before a after, l = before ++ a :: after ∧ key a = k ∧ val a = v ∧ ∀ b ∈ after, key b ≠ k := by
  induction l using List.reverseRecOn with
  | nil => simp
  | append_singleton l a ih =>
    rw [List.foldl_append, List.foldl_cons, List.foldl_nil, lookup_insert']
    by_cases hk : key a = k
    · rw [if_pos hk, Option.some.injEq]
      constructor
      · rintro rfl
        exact ⟨l, a, [], rfl, hk, rfl, by simp⟩
      · rintro ⟨before, b, after, heq, -, rfl, hlast⟩
        rcases List.eq_nil_or_concat after with rfl | ⟨after, c, rfl⟩
        · obtain ⟨-, rfl⟩ := List.append_inj' heq rfl |>.imp id List.singleton_inj.mp
          rfl
        · rw [List.concat_eq_append] at heq hlast
          rw [← List.cons_append, ← List.append_assoc] at heq
          obtain rfl := List.singleton_inj.mp (List.append_inj' heq rfl).2
          exact absurd hk (hlast a (by simp))
    · rw [if_neg hk, ih]
      constructor
      · rintro ⟨before, b, after, rfl, hb, hv, hlast⟩
        refine ⟨before, b, after ++ [a], by simp, hb, hv, fun c hc => ?_⟩
        rcases List.mem_append.mp hc with hc | hc
        · exact hlast c hc
        · rwa [List.mem_singleton.mp hc]
      · rintro ⟨before, b, after, heq, hb, hv, hlast⟩
        rcases List.eq_nil_or_concat after with rfl | ⟨after, c, rfl⟩
        · obtain rfl := List.singleton_inj.mp (List.append_inj' heq rfl).2
          exact absurd hb hk
        · rw [List.concat_eq_append] at heq hlast
          rw [← List.cons_append, ← List.append_assoc] at heq
          obtain ⟨rfl, -⟩ := List.append_inj' heq rfl
          exact ⟨before, b, after, rfl, hb, hv, fun c hc => hlast c (List.mem_append_left _ hc)⟩

theorem isSome_lookup_foldl_insert {A : Type} {key : A → K} {val : KMap K V → A → V} {l : List A} {m : KMap K V} {k : K}
    (h : (m.lookup k).isSome ∨ ∃ a ∈ l, key a = k) :
    ((l.foldl (fun m a => m.insert (key a) (val m a)) m).lookup k).isSome := by
  induction l generalizing m with
  | nil => exact h.resolve_right (by simp)
  | cons a l ih =>
    refine ih ?_
    rw [lookup_insert']
    by_cases hk : key a = k
    · rw [if_pos hk]
      exact .inl rfl
    · rw [if_neg hk]
      refine h.imp id ?_
      rintro ⟨b, hb, hbk⟩
      rcases List.mem_cons.mp hb with rfl | hb
      · exact absurd hbk hk
      · exact ⟨b, hb, hbk⟩

/-- Pairs with new and distinct keys are all there. -/
theorem pairs_insertAll_perm {l : List (K × V)} (hnd : (l.map Prod.fst).Nodup) {m : KMap K V}
    (hnew : ∀ p ∈ l, p.1 ∉ m) : (m.insertAll l).pairs.Perm (l ++ m.pairs) := by
  induction l generalizing m with
  | nil => exact .refl _
  | cons p l ih =>
    rw [List.map_cons, List.nodup_cons] at hnd
    have hp := AList.entries_insert_of_notMem (b := p.2) (hnew p List.mem_cons_self)
    have hnew' : ∀ q ∈ l, q.1 ∉ AList.insert p.1 p.2 m := by
      intro q hq hmem
      rcases (AList.mem_insert m).mp hmem with h | h
      · exact hnd.1 (h ▸ List.mem_map_of_mem hq)
      · exact hnew q (List.mem_cons_of_mem p hq) h
    refine (ih hnd.2 hnew').trans ?_
    rw [pairs, hp]
    exact List.perm_middle

theorem firstAt_orderedPairs (le : K → K → Prop) [DecidableRel le] (m : KMap K V) (k : K) :
    firstAt k (m.orderedPairs le) = m.lookup k := by
  rw [lookup_eq_firstAt, firstAt_perm (m.nodup_orderedPairs le) (m.orderedPairs_perm le)]

end KMap

end OtelDistro.Lib
