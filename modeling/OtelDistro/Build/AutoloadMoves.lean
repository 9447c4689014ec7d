import OtelDistro.Build.AutoloadEntries

/-!
# OtelDistro.Build.AutoloadMoves — entries are moved

What `reorderAutoloadEntries` does to the entries of a text.

* `FilesText.Regular`: each of the three paths stands in one entry, at its end, and no string disturbs the search.
* `strpos_marker`, `findEntryContaining_item`: the search finds the entry by its marker.
* `exists_removed`, `exists_inserted`: an entry is cut out, and put before another one.
* `MovedBefore`: what this is for the entries; `Regular.exists_move`: a step does it.
-/

namespace OtelDistro.Build

open OtelDistro.Util

variable {file : AutoloadFile} {m x y s : Str}

/-! ## Markers in a text -/

/-- No occurrence of `m` begins in `x`. -/
def Passed (m x : Str) : Prop := ∀ s, m <:+: x ++ s → m <:+: s

theorem Passed.append (hx : Passed m x) (hy : Passed m y) : Passed m (x ++ y) := by
  intro s h
  rw [List.append_assoc] at h
  exact hy s (hx _ h)

theorem passed_of_not_mem (hm : m ≠ []) (h : ∀ b ∈ x, b ∉ m) : Passed m x := by
  intro s hs
  induction x with
  | nil => exact hs
  | cons c x ih =>
    rcases List.infix_cons_iff.mp hs with hprefix | hs
    · cases m with
      | nil => exact absurd rfl hm
      | cons d m => exact absurd ((List.cons_prefix_cons.mp hprefix).1 ▸ List.mem_cons_self) (h c List.mem_cons_self)
    · exact ih (fun b hb => h b (List.mem_cons_of_mem c hb)) hs

/-- A text that ends with a byte which `m` does not have. -/
theorem passed_of_last {b : UInt8} (hb : b ∉ m) (hx : ¬ m <:+: x) : Passed m (x ++ [b]) := by
  intro s h
  rw [List.append_assoc, List.singleton_append, infix_append_cons_iff hb] at h
  exact h.resolve_left hx

/-- A string without the bytes around entries. -/
structure Solid (m : Str) : Prop where
  nonempty : m ≠ []
  comma : 44 ∉ m
  bracket : 40 ∉ m
  blank : ∀ b ∈ m, isWhitespace b = false

theorem Solid.passed_spaces (hm : Solid m) {spaces : Str} (h : ∀ b ∈ spaces, isWhitespace b = true) : Passed m spaces :=
  passed_of_not_mem hm.nonempty fun b hb hmem => by
    have := h b hb
    rw [hm.blank b hmem] at this
    cases this

theorem Solid.passed_item (hm : Solid m) {item : Item} (hcomma : item.comma = true) (h : ¬ m <:+: item.entry.toText) :
    Passed m item.toText := by
  rw [Item.toText, hcomma, if_pos rfl, ← List.append_assoc]
  exact (passed_of_last hm.comma h).append (hm.passed_spaces item.blank)

theorem Solid.passed_items (hm : Solid m) {items : List Item} (hcomma : ∀ item ∈ items, item.comma = true)
    (h : ∀ item ∈ items, ¬ m <:+: item.entry.toText) : Passed m (items.flatMap Item.toText) := by
  induction items with
  | nil => exact fun s hs => hs
  | cons item items ih =>
    rw [List.flatMap_cons]
    refine (hm.passed_item (hcomma item List.mem_cons_self) (h item List.mem_cons_self)).append (ih ?_ ?_)
    · exact fun item hitem => hcomma item (List.mem_cons_of_mem _ hitem)
    · exact fun item hitem => h item (List.mem_cons_of_mem _ hitem)

theorem openingMatch_split {opening rest : Str} (h : openingMatch opening s = some rest) : ∃ y, s = y ++ 40 :: rest := by
  rw [openingMatch] at h
  split at h
  · split at h
    · next heq =>
      obtain rfl := Option.some.inj h
      obtain ⟨y, hy⟩ := List.dropWhile_suffix (l := s.drop opening.length) isPcreSpace
      rw [← dropSpaces, heq] at hy
      exact ⟨s.take opening.length ++ y, by rw [List.append_assoc, hy, List.take_append_drop]⟩
    · cases h
  · cases h

/-- The first match ends with its bracket. -/
theorem insertionPoint_split {opening rest : Str} (h : insertionPoint opening s = some (x, rest)) : ∃ y, x = y ++ [40] := by
  induction s generalizing x with
  | nil => cases h
  | cons c s ih =>
    rw [insertionPoint] at h
    split at h
    · next heq =>
      obtain ⟨rfl, rfl⟩ := Prod.mk.inj (Option.some.inj h)
      obtain ⟨y, hy⟩ := openingMatch_split heq
      have hlen := congrArg List.length hy
      simp only [List.length_cons, List.length_append] at hlen
      refine ⟨y, ?_⟩
      rw [hy, List.append_cons, List.take_left' (by simp only [List.length_append, List.length_cons, List.length_nil]; omega)]
    · obtain ⟨⟨x', rest'⟩, hm, heq⟩ := Option.map_eq_some_iff.mp h
      obtain ⟨rfl, rfl⟩ := Prod.mk.inj heq
      obtain ⟨y, rfl⟩ := ih hm
      exact ⟨c :: y, rfl⟩

namespace FilesText

variable {t : FilesText file} {A B : List Item} {item : Item}

/-- What is before the entries behind `A`. -/
def before (t : FilesText file) (A : List Item) : Str := t.header ++ (t.spaces ++ A.flatMap Item.toText)

/-- What is behind an entry. -/
def behind (t : FilesText file) (item : Item) (B : List Item) : Str :=
  (if item.comma then [44] else []) ++ (item.spaces ++ (B.flatMap Item.toText ++ (lit ");" ++ t.footer)))

theorem toText_eq (h : t.items = A ++ item :: B) : t.toText = t.before A ++ (item.entry.toText ++ t.behind item B) := by
  simp only [toText, before, behind, h, List.flatMap_append, List.flatMap_cons, Item.toText, List.append_assoc]

theorem comma_of_mem (h : t.items = A ++ item :: B) {item' : Item} (hmem : item' ∈ A) : item'.comma = true := by
  refine t.separated item' ?_
  rw [h, List.dropLast_append_cons]
  exact List.mem_append_left _ hmem

theorem eq_nil_of_not_comma (h : t.items = A ++ item :: B) (hcomma : item.comma = false) : B = [] := by
  cases B with
  | nil => rfl
  | cons item' B =>
    have hmem : item ∈ t.items.dropLast := by
      rw [h, List.dropLast_append_cons, List.dropLast_cons_cons]
      exact List.mem_append_right _ List.mem_cons_self
    rw [t.separated item hmem] at hcomma
    cases hcomma

theorem passed_before (hm : Solid m) (h : t.items = A ++ item :: B) (hheader : ¬ m <:+: t.header)
    (hA : ∀ item' ∈ A, ¬ m <:+: item'.entry.toText) : Passed m (t.before A) := by
  obtain ⟨y, hy⟩ := insertionPoint_split t.opens
  have hheader' : Passed m t.header := by
    rw [hy]
    refine passed_of_last hm.bracket fun hwithin => hheader ?_
    rw [hy]
    exact hwithin.trans (List.prefix_append y [40]).isInfix
  refine hheader'.append ((hm.passed_spaces t.blank).append (hm.passed_items ?_ hA))
  exact fun item' hmem => comma_of_mem h hmem

/-- The first occurrence of a marker is at the end of its entry. -/
theorem strpos_marker (hm : Solid m) (h : t.items = A ++ item :: B) (hheader : ¬ m <:+: t.header)
    (hA : ∀ item' ∈ A, ¬ m <:+: item'.entry.toText) (hends : m <:+ item.entry.toText)
    (honce : ¬ m <:+: item.entry.toText.dropLast) :
    strpos m t.toText = some ((t.before A).length + (item.entry.toText.length - m.length)) := by
  obtain ⟨y, hy⟩ := hends
  have hfirst : ¬ m <:+: (t.before A ++ y) ++ m.dropLast := by
    intro hwithin
    rw [List.append_assoc] at hwithin
    refine honce ?_
    rw [← hy, List.dropLast_append_of_ne_nil hm.nonempty]
    exact passed_before hm h hheader hA _ hwithin
  have hpos := strpos_of_first hm.nonempty hfirst (t.behind item B)
  rw [toText_eq h, ← hy, List.append_assoc, ← List.append_assoc, hpos, List.length_append, List.length_append,
    Nat.add_sub_cancel]

/-- The search finds an entry by its marker. -/
theorem findEntryContaining_item (hm : Solid m) (hlast : m.getLast? = some 39) (h : t.items = A ++ item :: B)
    (hheader : ¬ m <:+: t.header) (hA : ∀ item' ∈ A, ¬ m <:+: item'.entry.toText) (hends : m <:+ item.entry.toText)
    (honce : ¬ m <:+: item.entry.toText.dropLast) (hkeyed : item.entry.Keyed)
    (hB : ∀ item' ∈ B, arrowAhead item'.entry.key = false) (hfooter : stringAhead t.footer = false) :
    findEntryContaining t.toText m = some ⟨(t.before A).length,
      item.entry.toText ++ (if item.comma then [44] else []), item.entry.toText ++ [44]⟩ := by
  have hbracket : lit ");" = [41, 59] := lit_ofList _
  have hmarker := strpos_marker hm h hheader hA hends honce
  have hlength : item.entry.toText.length - m.length + m.length = item.entry.toText.length :=
    Nat.sub_add_cancel hends.length_le
  have hblank : ∀ b ∈ item.spaces, isQuote b = false := fun b hb =>
    isQuote_of_isCodeByte (isCodeByte_of_isWhitespace (item.blank b hb))
  have hcontent := toText_eq h
  rw [behind] at hcontent
  cases hcomma : item.comma with
  | true =>
    rw [hcomma, if_pos rfl, List.singleton_append] at hcontent
    refine findEntryContaining_comma hkeyed hcontent hmarker hlength hm.nonempty ?_ ?_
    · exact ⟨item.spaces ++ B.flatMap Item.toText, t.footer, by simp only [List.append_assoc]⟩
    · rw [stringAhead_append hblank]
      cases B with
      | nil =>
        have hend : ∀ b ∈ lit ");", isQuote b = false := by decide
        rw [List.flatMap_nil, List.nil_append, stringAhead_append hend, hfooter]
      | cons item' B =>
        have hkey := hB item' List.mem_cons_self
        have hquote : lit "' => " = 39 :: lit " => " := by decide
        simp only [List.flatMap_cons, Item.toText, Entry.toText, hquote, List.append_assoc, List.cons_append]
        rw [stringAhead_quote (by decide), arrowAhead_append_quote (by decide), hkey]
  | false =>
    obtain rfl := eq_nil_of_not_comma h hcomma
    rw [hcomma, if_neg Bool.false_ne_true, List.nil_append, List.flatMap_nil, List.nil_append, hbracket] at hcontent
    rw [if_neg Bool.false_ne_true, List.append_nil]
    refine findEntryContaining_last hkeyed hcontent item.blank hmarker hlength hm.nonempty ?_ hfooter
    obtain ⟨y, hy⟩ := hends
    rw [← hy, List.getLast?_append, hlast]
    rfl

end FilesText

/-! ## Regular texts -/

/-- The paths of the exporter, the transport and the SDK. -/
def paths : List Str := [exporterOtlp, transportGrpc, sdk]

theorem solid_marker {path : Str} (h : path ∈ paths) : Solid (marker path) := by
  simp only [paths, List.mem_cons, List.not_mem_nil, or_false] at h
  rcases h with rfl | rfl | rfl <;> exact ⟨by decide, by decide, by decide, by decide⟩

theorem getLast?_marker (path : Str) : (marker path).getLast? = some 39 := by
  rw [marker, show lit "'" = [39] from lit_ofList _]
  exact List.getLast?_concat

theorem paths_facts : (exporterOtlp ≠ sdk ∧ transportGrpc ≠ sdk ∧ exporterOtlp ≠ transportGrpc) ∧
    ∀ p ∈ paths, ∀ q ∈ paths, p ≠ q → ¬ marker p <:+ marker q := by
  decide +kernel

theorem not_suffix_marker : ∀ p ∈ paths, ∀ q ∈ paths, p ≠ q → ¬ marker p <:+ marker q := paths_facts.2

namespace Entry

/-- The entry has the path of a marker. -/
def names (path : Str) (e : Entry) : Bool := marker path <:+: e.toText

/-- The path stands at the end of the entry, and the key and the literals do not disturb the search. -/
structure IsFor (path : Str) (e : Entry) : Prop where
  ends : marker path <:+ e.toText
  once : ¬ marker path <:+: e.toText.dropLast
  key : e.key ≠ []
  literals : ∀ p ∈ e.pieces.tail, arrowAhead p.2 = false

end Entry

/-- Each of the paths stands in one entry, and not before the array; no string begins with an arrow. -/
structure FilesText.Regular (t : FilesText file) : Prop where
  header : ∀ path ∈ paths, ¬ marker path <:+: t.header
  one : ∀ path ∈ paths, t.entries.countP (Entry.names path) = 1
  isFor : ∀ path ∈ paths, ∀ e ∈ t.entries, e.names path = true → e.IsFor path
  keys : ∀ e ∈ t.entries, arrowAhead e.key = false
  footer : stringAhead t.footer = false

theorem FilesText.Regular.of_perm {t t' : FilesText file} (ht : t.Regular) (hheader : t'.header = t.header)
    (hfooter : t'.footer = t.footer) (hperm : t'.entries.Perm t.entries) : t'.Regular where
  header := hheader ▸ ht.header
  one path hpath := (hperm.countP_eq _).trans (ht.one path hpath)
  isFor path hpath e he := ht.isFor path hpath e (hperm.mem_iff.mp he)
  keys e he := ht.keys e (hperm.mem_iff.mp he)
  footer := hfooter ▸ ht.footer

section

variable {α : Type*} {p q : α → Bool} {l A B : List α} {a : α}

theorem exists_of_countP_eq_one (h : l.countP p = 1) :
    ∃ A x B, l = A ++ x :: B ∧ p x = true ∧ (∀ z ∈ A, p z = false) ∧ ∀ z ∈ B, p z = false := by
  induction l with
  | nil => cases h
  | cons c l ih =>
    cases hc : p c with
    | true =>
      rw [List.countP_cons_of_pos hc, Nat.add_eq_right, List.countP_eq_zero] at h
      exact ⟨[], c, l, rfl, hc, fun z hz => absurd hz List.not_mem_nil, fun z hz => Bool.eq_false_iff.mpr (h z hz)⟩
    | false =>
      rw [List.countP_cons_of_neg (by simp [hc])] at h
      obtain ⟨A, x, B, rfl, hx, hA, hB⟩ := ih h
      refine ⟨c :: A, x, B, rfl, hx, fun z hz => ?_, hB⟩
      exact (List.mem_cons.mp hz).elim (fun hz => hz ▸ hc) (hA z)

/-- One for `p` and one for `q`, in one of the two orders. -/
theorem exists_two (hp : l.countP p = 1) (hq : l.countP q = 1) (hpq : ∀ x ∈ l, p x = true → q x = false) :
    ∃ A x B y C, (∀ z ∈ A, p z = false ∧ q z = false) ∧ (∀ z ∈ B, p z = false ∧ q z = false) ∧
      (∀ z ∈ C, p z = false ∧ q z = false) ∧ l = A ++ x :: (B ++ y :: C) ∧
        (p x = true ∧ q y = true ∨ q x = true ∧ p y = true) := by
  obtain ⟨A, x, B, rfl, hx, hA, hB⟩ := exists_of_countP_eq_one hp
  have hqx := hpq x (by simp) hx
  rw [List.countP_append, List.countP_cons_of_neg (by simp [hqx])] at hq
  rcases Nat.eq_zero_or_pos (A.countP q) with hqA | hqA
  · obtain ⟨B, y, C, rfl, hy, hB', hC'⟩ := exists_of_countP_eq_one (p := q) (l := B) (by omega)
    refine ⟨A, x, B, y, C, fun z hz => ⟨hA z hz, ?_⟩, fun z hz => ⟨hB z (by simp [hz]), hB' z hz⟩,
      fun z hz => ⟨hB z (by simp [hz]), hC' z hz⟩, rfl, .inl ⟨hx, hy⟩⟩
    exact Bool.eq_false_iff.mpr (List.countP_eq_zero.mp hqA z hz)
  · obtain ⟨A, y, B', rfl, hy, hA', hB'⟩ := exists_of_countP_eq_one (p := q) (l := A) (by omega)
    refine ⟨A, y, B', x, B, fun z hz => ⟨hA z (by simp [hz]), hA' z hz⟩, fun z hz => ⟨hA z (by simp [hz]), hB' z hz⟩,
      fun z hz => ⟨hB z hz, ?_⟩, by simp, .inr ⟨hy, hx⟩⟩
    have hqB : B.countP q = 0 := by omega
    exact Bool.eq_false_iff.mpr (List.countP_eq_zero.mp hqB z hz)

/-- None for `q` stands before the one for `p`. -/
theorem pairwise_append_cons (hA : ∀ z ∈ A, q z = false) (hB : ∀ z ∈ B, p z = false) :
    (A ++ a :: B).Pairwise fun x y => ¬ (q x = true ∧ p y = true) := by
  refine List.pairwise_append.mpr ⟨?_, List.pairwise_cons.mpr ⟨fun y hy h => ?_, ?_⟩, fun x hx y _ h => ?_⟩
  · exact List.pairwise_of_forall_mem_list fun x hx y _ h => by simp [hA x hx] at h
  · simp [hB y hy] at h
  · exact List.pairwise_of_forall_mem_list fun x _ y hy h => by simp [hB y hy] at h
  · simp [hA x hx] at h

end

/-! ## The moves -/

section

variable {α β : Type*} {p q p' : α → Bool} {l l' l'' : List α} {a : α}

/-- The elements of `l` with those for `p` put before those for `q`. -/
structure MovedBefore (p q : α → Bool) (l l' : List α) : Prop where
  perm : l'.Perm l
  others : (l'.filter fun e => !p e) = l.filter fun e => !p e
  order : l'.Pairwise fun a b => ¬ (q a = true ∧ p b = true)

theorem movedBefore_iff : MovedBefore p q l l' ↔ l'.Perm l ∧ ((l'.filter fun e => !p e) = l.filter fun e => !p e) ∧
    l'.Pairwise fun a b => ¬ (q a = true ∧ p b = true) :=
  ⟨fun h => ⟨h.perm, h.others, h.order⟩, fun h => ⟨h.1, h.2.1, h.2.2⟩⟩

instance [DecidableEq α] : Decidable (MovedBefore p q l l') := decidable_of_iff _ movedBefore_iff.symm

/-- A second move keeps what the first one has put in order. -/
theorem MovedBefore.order_of_others (h : MovedBefore p q l l') (horder : l.Pairwise fun a b => ¬ (q a = true ∧ p' b = true))
    (hq : ∀ e ∈ l', q e = true → p e = false) (hp' : ∀ e ∈ l', p' e = true → p e = false) :
    l'.Pairwise fun a b => ¬ (q a = true ∧ p' b = true) := by
  have hfilter := horder.filter fun e => !p e
  rw [← h.others, List.pairwise_filter] at hfilter
  refine hfilter.imp_of_mem fun ha hb himp hab => ?_
  exact himp (by simp [hq _ ha hab.1]) (by simp [hp' _ hb hab.2]) hab

theorem MovedBefore.trans (h : MovedBefore p q l l') (h' : MovedBefore p' q l' l'') (hq : ∀ e ∈ l'', q e = true → p' e = false)
    (hp : ∀ e ∈ l'', p e = true → p' e = false) : MovedBefore (fun e => p e || p' e) q l l'' where
  perm := h'.perm.trans h.perm
  others := by
    have hsplit (l : List α) : (l.filter fun e => !(p e || p' e)) = (l.filter fun e => !p e).filter fun e => !p' e := by
      simp [List.filter_filter, Bool.and_comm]
    have hsplit' (l : List α) : (l.filter fun e => !(p e || p' e)) = (l.filter fun e => !p' e).filter fun e => !p e := by
      simp [List.filter_filter]
    rw [hsplit', h'.others, ← hsplit', hsplit, h.others, ← hsplit]
  order := by
    refine (h'.order.and (h'.order_of_others h.order hq hp)).imp fun hab ⟨hqa, hpb⟩ => ?_
    rcases (Bool.or_eq_true _ _).mp hpb with hb | hb
    · exact hab.2 ⟨hqa, hb⟩
    · exact hab.1 ⟨hqa, hb⟩

theorem MovedBefore.map {f : α → β} {P Q : β → Bool} (h : MovedBefore p q l l') (hP : ∀ e ∈ l, P (f e) = p e)
    (hQ : ∀ e ∈ l, Q (f e) = q e) : MovedBefore P Q (l.map f) (l'.map f) where
  perm := h.perm.map f
  others := by
    have hfilter (l : List α) (hl : ∀ e ∈ l, P (f e) = p e) :
        ((l.map f).filter fun e => !P e) = (l.filter fun e => !p e).map f := by
      rw [List.filter_map]
      congr 1
      exact List.filter_congr fun e he => by rw [Function.comp_apply, hl e he]
    rw [hfilter l hP, hfilter l' fun e he => hP e (h.perm.mem_iff.mp he), h.others]
  order := by
    refine List.pairwise_map.mpr (h.order.imp_of_mem fun ha hb hab hPQ => ?_)
    rw [hQ _ (h.perm.mem_iff.mp ha), hP _ (h.perm.mem_iff.mp hb)] at hPQ
    exact hab hPQ

theorem MovedBefore.of_cons (hp : p a = false) (h : MovedBefore p q (a :: l) (a :: l')) : MovedBefore p q l l' where
  perm := h.perm.cons_inv
  others := by
    have := h.others
    rw [List.filter_cons_of_pos (by simp [hp]), List.filter_cons_of_pos (by simp [hp])] at this
    exact (List.cons.inj this).2
  order := (List.pairwise_cons.mp h.order).2

end

namespace FilesText

variable {t : FilesText file} {A B C X : List Item} {item o x : Item} {path pathToMove insertBefore : Str}

theorem Regular.names_unique (ht : t.Regular) {p q : Str} (hp : p ∈ paths) (hq : q ∈ paths) (hne : p ≠ q) {e : Entry}
    (he : e ∈ t.entries) (h : e.names p = true) : e.names q = false := by
  refine Bool.eq_false_iff.mpr fun h' => ?_
  have hends := (ht.isFor p hp e he h).ends
  rcases List.suffix_or_suffix_of_suffix hends (ht.isFor q hq e he h').ends with hs | hs
  · exact not_suffix_marker p hp q hq hne hs
  · exact not_suffix_marker q hq p hp (Ne.symm hne) hs

theorem entry_mem (h : t.items = A ++ item :: B) : item.entry ∈ t.entries := by
  rw [entries, h]
  exact List.mem_map_of_mem (List.mem_append_right _ List.mem_cons_self)

theorem not_infix_of_names {l : List Item} (h : ∀ item ∈ l, item.entry.names path = false) :
    ∀ item ∈ l, ¬ marker path <:+: item.entry.toText := fun item hitem => of_decide_eq_false (h item hitem)

/-- Where the marker of an entry is. -/
theorem Regular.strpos (ht : t.Regular) (hpath : path ∈ paths) (h : t.items = A ++ item :: B)
    (hA : ∀ item' ∈ A, item'.entry.names path = false) (hitem : item.entry.names path = true) :
    ∃ k, Util.strpos (marker path) t.toText = some ((t.before A).length + k) ∧ k < item.entry.toText.length := by
  have hfor := ht.isFor path hpath _ (entry_mem h) hitem
  have hsolid := solid_marker hpath
  refine ⟨_, strpos_marker hsolid h (ht.header path hpath) (not_infix_of_names hA) hfor.ends hfor.once, ?_⟩
  have hpos := List.length_pos_iff.mpr hsolid.nonempty
  have hle := hfor.ends.length_le
  omega

theorem Regular.find (ht : t.Regular) (hpath : path ∈ paths) (h : t.items = A ++ item :: B)
    (hA : ∀ item' ∈ A, item'.entry.names path = false) (hitem : item.entry.names path = true) :
    findEntryContaining t.toText (marker path) = some ⟨(t.before A).length,
      item.entry.toText ++ (if item.comma then [44] else []), item.entry.toText ++ [44]⟩ := by
  have hfor := ht.isFor path hpath _ (entry_mem h) hitem
  refine findEntryContaining_item (solid_marker hpath) (getLast?_marker path) h (ht.header path hpath) (not_infix_of_names hA)
    hfor.ends hfor.once ⟨hfor.key, ht.keys _ (entry_mem h), hfor.literals⟩ (fun item' hitem' => ?_) ht.footer
  refine ht.keys _ ?_
  rw [entries, h]
  exact List.mem_map_of_mem (List.mem_append_right _ (List.mem_cons_of_mem _ hitem'))

theorem length_before_lt (t : FilesText file) (A B : List Item) (item : Item) :
    (t.before A).length + item.entry.toText.length ≤ (t.before (A ++ item :: B)).length := by
  simp only [before, Item.toText, List.flatMap_append, List.flatMap_cons, List.length_append]
  omega

/-- The markers are in the order of their entries. -/
theorem Regular.strpos_lt (ht : t.Regular) {p q : Str} (hp : p ∈ paths) (hq : q ∈ paths)
    (h : t.items = A ++ x :: (B ++ item :: C)) (hA : ∀ item' ∈ A, item'.entry.names p = false)
    (hB : ∀ item' ∈ A ++ x :: B, item'.entry.names q = false) (hx : x.entry.names p = true)
    (hitem : item.entry.names q = true) :
    ∃ i j, Util.strpos (marker p) t.toText = some i ∧ Util.strpos (marker q) t.toText = some j ∧ i < j := by
  obtain ⟨k, hk, hlt⟩ := ht.strpos hp h hA hx
  have h' : t.items = (A ++ x :: B) ++ item :: C := by rw [h, List.append_assoc, List.cons_append]
  obtain ⟨k', hk', -⟩ := ht.strpos hq h' hB hitem
  refine ⟨_, _, hk, hk', ?_⟩
  have := length_before_lt t A B x
  omega

theorem reorder_of_lt {i j : ℕ} (hi : Util.strpos (marker pathToMove) s = some i)
    (hj : Util.strpos (marker insertBefore) s = some j) (hlt : i < j) (required : Bool) :
    reorderAutoloadEntries pathToMove insertBefore required s = some s := by
  rw [reorderAutoloadEntries, hi, hj]
  exact if_pos hlt

/-- Whitespace behind the last entry. -/
theorem exists_spaces (x : Item) (X : List Item) {spaces : Str} (hspaces : ∀ b ∈ spaces, isWhitespace b = true) :
    ∃ x' X', (x' :: X').flatMap Item.toText = (x :: X).flatMap Item.toText ++ spaces ∧
      x'.entry = x.entry ∧ X'.map Item.entry = X.map Item.entry ∧
      ((∀ item ∈ x :: X, item.comma = true) → ∀ item ∈ x' :: X', item.comma = true) := by
  induction X generalizing x with
  | nil =>
    refine ⟨{ x with spaces := x.spaces ++ spaces, blank := fun b hb => ?_ }, [], ?_, rfl, rfl, fun h item hitem => ?_⟩
    · exact (List.mem_append.mp hb).elim (x.blank b) (hspaces b)
    · simp only [List.flatMap_cons, List.flatMap_nil, Item.toText, List.append_assoc, List.append_nil]
    · rw [List.mem_singleton.mp hitem]
      exact h x List.mem_cons_self
  | cons y X ih =>
    obtain ⟨y', X', htext, hentry, hmap, hcomma⟩ := ih y
    refine ⟨x, y' :: X', ?_, rfl, ?_, fun h item hitem => ?_⟩
    · rw [List.flatMap_cons, htext, ← List.append_assoc]
      rfl
    · rw [List.map_cons, List.map_cons, hentry, hmap]
    · rcases List.mem_cons.mp hitem with rfl | hitem
      · exact h item List.mem_cons_self
      · exact hcomma (fun item hitem => h item (List.mem_cons_of_mem _ hitem)) item hitem

theorem separated_append (hA : ∀ item ∈ A, item.comma = true) (hB : ∀ item ∈ B.dropLast, item.comma = true) :
    ∀ item ∈ (A ++ B).dropLast, item.comma = true := by
  intro item hitem
  cases B with
  | nil =>
    rw [List.append_nil] at hitem
    exact hA item (List.dropLast_subset A hitem)
  | cons b B =>
    rw [List.dropLast_append_cons] at hitem
    exact (List.mem_append.mp hitem).elim (hA item) (hB item)

theorem mem_dropLast_of (h : t.items = A ++ o :: C) (hmem : item ∈ C.dropLast) : item.comma = true := by
  refine t.separated item ?_
  cases C with
  | nil => cases hmem
  | cons c C =>
    rw [h, List.dropLast_append_cons, List.dropLast_cons_cons]
    exact List.mem_append_right _ (List.mem_cons_of_mem _ hmem)

/-- The text without an entry: its whitespace is behind the entry before it. -/
theorem exists_removed (h : t.items = (A ++ x :: X) ++ o :: C) : ∃ (x' : Item) (X' : List Item) (r : FilesText file),
    r.toText = t.before (A ++ x :: X) ++ (o.spaces ++ (C.flatMap Item.toText ++ (lit ");" ++ t.footer))) ∧
      r.header = t.header ∧ r.spaces = t.spaces ∧ r.footer = t.footer ∧ r.items = A ++ x' :: (X' ++ C) ∧
      x'.entry = x.entry ∧ X'.map Item.entry = X.map Item.entry := by
  obtain ⟨x', X', htext, hentry, hmap, hcomma⟩ := exists_spaces x X o.blank
  have hbefore (item : Item) (hitem : item ∈ A ++ x :: X) : item.comma = true := comma_of_mem h hitem
  have hseparated : ∀ item ∈ (A ++ x' :: (X' ++ C)).dropLast, item.comma = true := by
    rw [← List.cons_append, ← List.append_assoc]
    refine separated_append (fun item hitem => ?_) fun item hitem => mem_dropLast_of h hitem
    rcases List.mem_append.mp hitem with hitem | hitem
    · exact hbefore item (List.mem_append_left _ hitem)
    · exact hcomma (fun item hitem => hbefore item (List.mem_append_right _ hitem)) item hitem
  have hitems : (A ++ x' :: (X' ++ C)).flatMap Item.toText =
      (A ++ x :: X).flatMap Item.toText ++ (o.spaces ++ C.flatMap Item.toText) := by
    rw [← List.cons_append, List.flatMap_append, List.flatMap_append, List.flatMap_append, htext]
    simp only [List.append_assoc]
  refine ⟨x', X', ⟨t.header, t.spaces, A ++ x' :: (X' ++ C), t.footer, t.opens, t.blank, hseparated⟩, ?_, rfl, rfl, rfl, rfl,
    hentry, hmap⟩
  rw [toText, before]
  dsimp only
  rw [hitems]
  simp only [List.append_assoc]

/-- The text with another entry before one. -/
theorem exists_inserted (e : Entry) (h : t.items = A ++ item :: B) : ∃ (inserted : Item) (t' : FilesText file),
    t'.toText = t.before A ++ (e.toText ++ [44]) ++ (item.entry.toText ++ t.behind item B) ∧
      t'.header = t.header ∧ t'.footer = t.footer ∧ t'.items = A ++ inserted :: item :: B ∧ inserted.entry = e := by
  let inserted : Item := ⟨e, true, [], fun b hb => absurd hb List.not_mem_nil⟩
  have hseparated : ∀ item' ∈ (A ++ inserted :: item :: B).dropLast, item'.comma = true := by
    refine separated_append (fun item' hitem => comma_of_mem h hitem) fun item' hitem => ?_
    rw [List.dropLast_cons_cons] at hitem
    rcases List.mem_cons.mp hitem with rfl | hitem
    · rfl
    · refine t.separated item' ?_
      rw [h, List.dropLast_append_cons]
      exact List.mem_append_right _ hitem
  refine ⟨inserted, ⟨t.header, t.spaces, A ++ inserted :: item :: B, t.footer, t.opens, t.blank, hseparated⟩, ?_, rfl, rfl,
    rfl, rfl⟩
  simp only [toText, before, behind, inserted, Item.toText, List.flatMap_append, List.flatMap_cons, List.append_assoc,
    if_true, List.nil_append]

/-- An entry behind the one it has to stand before is cut out and put there. -/
theorem Regular.reorder_of_behind (ht : t.Regular) (hmove : pathToMove ∈ paths) (hinsert : insertBefore ∈ paths)
    (h : t.items = A ++ x :: (X ++ o :: C)) (hA : ∀ item ∈ A, item.entry.names pathToMove = false)
    (hA' : ∀ item ∈ A, item.entry.names insertBefore = false) (hX : ∀ item ∈ x :: X, item.entry.names pathToMove = false)
    (hx : x.entry.names insertBefore = true) (ho : o.entry.names pathToMove = true)
    (ho' : o.entry.names insertBefore = false) (required : Bool) :
    ∃ t' : FilesText file, reorderAutoloadEntries pathToMove insertBefore required t.toText = some t'.toText ∧
      t'.header = t.header ∧ t'.footer = t.footer ∧
      t'.entries = A.map Item.entry ++ o.entry :: (x.entry :: X.map Item.entry ++ C.map Item.entry) := by
  have h' : t.items = (A ++ x :: X) ++ o :: C := by rw [h, List.append_assoc, List.cons_append]
  have hAX : ∀ item ∈ A ++ x :: X, item.entry.names pathToMove = false := fun item hitem =>
    (List.mem_append.mp hitem).elim (hA item) (hX item)
  have hmoved := ht.find hmove h' hAX ho
  obtain ⟨x', X', r, htext, hheader, hspaces, hfooter, hitems, hentry, hmap⟩ := exists_removed h'
  have hbefore : r.before A = t.before A := by rw [before, before, hheader, hspaces]
  have hkeys (item : Item) (hitem : item ∈ X' ++ C) : arrowAhead item.entry.key = false := by
    refine ht.keys item.entry ?_
    have hmem : item.entry ∈ X.map Item.entry ++ C.map Item.entry := by
      rw [← hmap, ← List.map_append]
      exact List.mem_map_of_mem hitem
    rw [entries, h, List.map_append, List.map_cons, List.map_append, List.map_cons]
    refine List.mem_append_right _ (List.mem_cons_of_mem _ ?_)
    exact (List.mem_append.mp hmem).elim (List.mem_append_left _) fun hC => List.mem_append_right _ (List.mem_cons_of_mem _ hC)
  have hinserted : findEntryContaining r.toText (marker insertBefore) = some ⟨(t.before A).length,
      x'.entry.toText ++ (if x'.comma then [44] else []), x'.entry.toText ++ [44]⟩ := by
    have hfor := ht.isFor insertBefore hinsert x.entry (entry_mem h) hx
    have hkey := ht.keys x.entry (entry_mem h)
    rw [← hentry] at hfor hkey
    rw [← hbefore]
    exact findEntryContaining_item (solid_marker hinsert) (getLast?_marker insertBefore) hitems
      (hheader ▸ ht.header insertBefore hinsert) (not_infix_of_names hA') hfor.ends hfor.once
      ⟨hfor.key, hkey, hfor.literals⟩ hkeys (hfooter ▸ ht.footer)
  obtain ⟨o', t', htext', hheader', hfooter', hitems', ho''⟩ := exists_inserted o.entry hitems
  have hentries : t'.entries = A.map Item.entry ++ o.entry :: (x.entry :: X.map Item.entry ++ C.map Item.entry) := by
    rw [entries, hitems', List.map_append, List.map_cons, List.map_cons, List.map_append, ho'', hentry, hmap]
    rfl
  have hperm : t'.entries.Perm t.entries := by
    have hmiddle : (x.entry :: X.map Item.entry ++ o.entry :: C.map Item.entry).Perm
        (o.entry :: (x.entry :: X.map Item.entry ++ C.map Item.entry)) := List.perm_middle
    rw [hentries, entries, h, List.map_append, List.map_cons, List.map_append, List.map_cons, ← List.cons_append]
    exact hmiddle.symm.append_left (A.map Item.entry)
  refine ⟨t', ?_, hheader'.trans hheader, hfooter'.trans hfooter, hentries⟩
  obtain ⟨i, j, hi, hj, hlt⟩ := ht.strpos_lt hinsert hmove h hA' hAX hx ho
  -- the markers have changed places
  have hchanged : t'.toText ≠ t.toText := by
    intro heq
    have ht' := ht.of_perm (hheader'.trans hheader) (hfooter'.trans hfooter) hperm
    have hAo : ∀ item ∈ A ++ o' :: [], item.entry.names insertBefore = false := by
      intro item hitem
      rcases List.mem_append.mp hitem with hitem | hitem
      · exact hA' item hitem
      · rw [List.mem_singleton.mp hitem, ho'', ho']
    obtain ⟨j', i', hj', hi', hlt'⟩ := ht'.strpos_lt hmove hinsert hitems' hA hAo (by rw [ho'', ho]) (by rw [hentry, hx])
    rw [heq, hj] at hj'
    rw [heq, hi] at hi'
    obtain rfl := Option.some.inj hj'
    obtain rfl := Option.some.inj hi'
    exact Nat.lt_asymm hlt hlt'
  have hremoved : t.toText.take (t.before (A ++ x :: X)).length ++ t.toText.drop ((t.before (A ++ x :: X)).length +
      (o.entry.toText ++ (if o.comma then [44] else [])).length) = r.toText := by
    rw [htext, toText_eq h', List.take_left, behind]
    congr 1
    rw [← List.append_assoc o.entry.toText, List.drop_length_add_append, List.drop_left]
  have hplace : r.toText = t.before A ++ (x'.entry.toText ++ r.behind x' (X' ++ C)) := by rw [toText_eq hitems, hbefore]
  rw [reorderAutoloadEntries, hi, hj]
  simp only
  rw [if_neg (Nat.not_lt_of_gt hlt), hmoved]
  simp only [Option.bind_eq_bind, Option.bind_some, hremoved, hinserted]
  rw [hplace, List.take_left, List.drop_left, ← hbefore, ← htext', if_neg hchanged]

/-- The two entries, in one of the two orders. -/
theorem Regular.exists_two (ht : t.Regular) {p q : Str} (hp : p ∈ paths) (hq : q ∈ paths) (hne : p ≠ q) :
    ∃ A x B y C, (∀ z ∈ A, z.entry.names p = false ∧ z.entry.names q = false) ∧
      (∀ z ∈ B, z.entry.names p = false ∧ z.entry.names q = false) ∧
      (∀ z ∈ C, z.entry.names p = false ∧ z.entry.names q = false) ∧ t.items = A ++ x :: (B ++ y :: C) ∧
        (x.entry.names p = true ∧ y.entry.names q = true ∨ x.entry.names q = true ∧ y.entry.names p = true) := by
  have hone (path : Str) (hpath : path ∈ paths) : t.items.countP (fun item => item.entry.names path) = 1 := by
    have := ht.one path hpath
    rwa [entries, List.countP_map] at this
  refine Build.exists_two (hone p hp) (hone q hq) fun x hx h => ?_
  exact ht.names_unique hp hq hne (List.mem_map_of_mem hx) h

theorem Regular.strpos_lt_of (ht : t.Regular) {p q : Str} (hp : p ∈ paths) (hq : q ∈ paths) (hne : p ≠ q)
    (h : t.items = A ++ x :: (B ++ item :: C)) (hA : ∀ z ∈ A, z.entry.names p = false ∧ z.entry.names q = false)
    (hB : ∀ z ∈ B, z.entry.names p = false ∧ z.entry.names q = false) (hx : x.entry.names p = true)
    (hitem : item.entry.names q = true) :
    ∃ i j, Util.strpos (marker p) t.toText = some i ∧ Util.strpos (marker q) t.toText = some j ∧ i < j := by
  refine ht.strpos_lt hp hq h (fun z hz => (hA z hz).1) (fun z hz => ?_) hx hitem
  rcases List.mem_append.mp hz with hz | hz
  · exact (hA z hz).2
  · rcases List.mem_cons.mp hz with rfl | hz
    · exact ht.names_unique hp hq hne (entry_mem h) hx
    · exact (hB z hz).2

/-- A step puts the entry where it belongs. -/
theorem Regular.exists_move (ht : t.Regular) (hmove : pathToMove ∈ paths) (hinsert : insertBefore ∈ paths)
    (hne : pathToMove ≠ insertBefore) (required : Bool) :
    ∃ t' : FilesText file, reorderAutoloadEntries pathToMove insertBefore required t.toText = some t'.toText ∧
      t'.header = t.header ∧ t'.footer = t.footer ∧
      MovedBefore (Entry.names pathToMove) (Entry.names insertBefore) t.entries t'.entries ∧
      ∀ e ∈ t.entries.head?, e.names insertBefore = false → t'.entries.head? = some e := by
  obtain ⟨A, x, B, y, C, hA, hB, hC, h, hxy⟩ := ht.exists_two hmove hinsert hne
  have hentries : t.entries = A.map Item.entry ++ x.entry :: (B.map Item.entry ++ y.entry :: C.map Item.entry) := by
    rw [entries, h, List.map_append, List.map_cons, List.map_append, List.map_cons]
  have hA' : ∀ e ∈ A.map Item.entry, e.names insertBefore = false := List.forall_mem_map.mpr fun z hz => (hA z hz).2
  have hB' : ∀ e ∈ B.map Item.entry, e.names pathToMove = false := List.forall_mem_map.mpr fun z hz => (hB z hz).1
  have hC' : ∀ e ∈ C.map Item.entry, e.names pathToMove = false := List.forall_mem_map.mpr fun z hz => (hC z hz).1
  have hxmem : x.entry ∈ t.entries := entry_mem h
  have hymem : y.entry ∈ t.entries := by
    rw [hentries]
    exact List.mem_append_right _ (List.mem_cons_of_mem _ (List.mem_append_right _ List.mem_cons_self))
  rcases hxy with ⟨hx, hy⟩ | ⟨hx, hy⟩
  · obtain ⟨i, j, hi, hj, hlt⟩ := ht.strpos_lt_of hmove hinsert hne h hA hB hx hy
    refine ⟨t, reorder_of_lt hi hj hlt required, rfl, rfl, ⟨List.Perm.refl _, rfl, ?_⟩, fun e he _ => he⟩
    rw [hentries]
    refine pairwise_append_cons hA' (List.forall_mem_append.mpr ⟨hB', List.forall_mem_cons.mpr ⟨?_, hC'⟩⟩)
    exact ht.names_unique hinsert hmove hne.symm hymem hy
  · have hx' := ht.names_unique hinsert hmove hne.symm hxmem hx
    have hy' := ht.names_unique hmove hinsert hne hymem hy
    obtain ⟨t', ht', hheader, hfooter, hentries'⟩ := ht.reorder_of_behind hmove hinsert h (fun z hz => (hA z hz).1)
      (fun z hz => (hA z hz).2) (List.forall_mem_cons.mpr ⟨hx', fun z hz => (hB z hz).1⟩) hx hy hy' required
    refine ⟨t', ht', hheader, hfooter, ⟨?_, ?_, ?_⟩, fun e he hne => ?_⟩
    · have hmiddle : (x.entry :: B.map Item.entry ++ y.entry :: C.map Item.entry).Perm
          (y.entry :: (x.entry :: B.map Item.entry ++ C.map Item.entry)) := List.perm_middle
      rw [hentries', hentries, ← List.cons_append]
      exact hmiddle.symm.append_left (A.map Item.entry)
    · rw [hentries', hentries]
      simp [List.filter_cons, hy]
    · rw [hentries']
      refine pairwise_append_cons hA' ?_
      exact List.forall_mem_append.mpr ⟨List.forall_mem_cons.mpr ⟨hx', hB'⟩, hC'⟩
    · rw [hentries] at he
      rw [hentries']
      cases hA : A.map Item.entry with
      | nil =>
        rw [hA] at he
        obtain rfl : x.entry = e := Option.some.inj he
        rw [hx] at hne
        cases hne
      | cons e' A' =>
        rw [hA] at he
        exact he

/-- Nothing is moved when the entries are in order. -/
theorem Regular.reorder_of_order (ht : t.Regular) (hmove : pathToMove ∈ paths) (hinsert : insertBefore ∈ paths)
    (hne : pathToMove ≠ insertBefore)
    (horder : t.entries.Pairwise fun a b => ¬ (a.names insertBefore = true ∧ b.names pathToMove = true)) (required : Bool) :
    reorderAutoloadEntries pathToMove insertBefore required t.toText = some t.toText := by
  obtain ⟨A, x, B, y, C, hA, hB, hC, h, ⟨hx, hy⟩ | ⟨hx, hy⟩⟩ := ht.exists_two hmove hinsert hne
  · obtain ⟨i, j, hi, hj, hlt⟩ := ht.strpos_lt_of hmove hinsert hne h hA hB hx hy
    exact reorder_of_lt hi hj hlt required
  · rw [entries, h, List.map_append, List.map_cons, List.map_append, List.map_cons] at horder
    have hafter := (List.pairwise_append.mp horder).2.1
    exact absurd ⟨hx, hy⟩ ((List.pairwise_cons.mp hafter).1 y.entry (List.mem_append_right _ List.mem_cons_self))

end FilesText

end OtelDistro.Build
