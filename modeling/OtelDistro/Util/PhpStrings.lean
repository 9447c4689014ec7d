import OtelDistro.Bytes
import OtelDistro.Lib.Replace

/-!
# OtelDistro.Util.PhpStrings — string functions of PHP

`str_replace` for one search string: `strReplace`, with the count it reports (`strReplaceCount`).  An empty search string
is never found.

* `NoStraddle search s t`: no match begins in `s` and ends in `t`; then the two are replaced apart (`strReplace_append`).
* `strReplace_of_infix`: the first match is replaced, and what is behind it by itself.
* `getLast?_strReplace`, `filter_strReplace`: the last byte and certain bytes stay when the replacement has those of the search
  string.
* `Doubled u r s`: some occurrences of `u` in `r` stand twice in `s`; they are made one again (`strReplace_of_doubled`).
* `infix_strReplace_drop`: what is found after the beginning of a search string has been taken away.

`strpos` is the place of the first occurrence (`strpos_of_first`), `rtrim` the text without the blanks at its end.
-/

namespace OtelDistro.Util

open OtelDistro.Lib

variable {search replace subject s t : Str}

/-- The length of the match at the beginning of the subject. -/
def matchOf (search subject : Str) : ℕ := if search <+: subject then search.length else 0

/-- `str_replace($search, $replace, $subject)` -/
def strReplace (search replace subject : Str) : Str := replaceAll (matchOf search) replace 0 subject

/-- The `$count` of `str_replace`. -/
def strReplaceCount (search subject : Str) : ℕ := matchCount (matchOf search) 0 subject

theorem matchOf_eq_zero_iff (hne : search ≠ []) : matchOf search s = 0 ↔ ¬ search <+: s := by
  unfold matchOf
  split
  · next h => simp [h, hne]
  · next h => simp [h]

theorem matchOf_cases (search s : Str) :
    matchOf search s = 0 ∨ matchOf search s = search.length ∧ search.length ≤ s.length := by
  unfold matchOf
  split
  · next h => exact .inr ⟨rfl, h.length_le⟩
  · exact .inl rfl

theorem forall_suffix_matchOf_iff (hne : search ≠ []) :
    (∀ s, s <:+ subject → s ≠ [] → matchOf search s = 0) ↔ ¬ search <:+: subject := by
  constructor
  · rintro h ⟨before, after, rfl⟩
    refine (matchOf_eq_zero_iff hne).mp (h (search ++ after) ?_ ?_) (List.prefix_append _ _)
    · rw [List.append_assoc]
      exact List.suffix_append _ _
    · simp [hne]
  · intro h s hs _
    refine (matchOf_eq_zero_iff hne).mpr fun hbegins => h ?_
    exact hbegins.isInfix.trans hs.isInfix

theorem strReplaceCount_eq_zero_iff (hne : search ≠ []) :
    strReplaceCount search subject = 0 ↔ ¬ search <:+: subject := by
  rw [strReplaceCount, matchCount_eq_zero_iff, forall_suffix_matchOf_iff hne]

@[simp] theorem strReplaceCount_nil (subject : Str) : strReplaceCount [] subject = 0 :=
  matchCount_eq_zero_iff.mpr fun _ _ _ => if_pos List.nil_prefix

theorem strReplace_eq_self (h : ¬ search <:+: subject) : strReplace search replace subject = subject := by
  have hne : search ≠ [] := fun hnil => h (hnil ▸ List.nil_infix)
  exact replaceAll_eq_self ((forall_suffix_matchOf_iff hne).mpr h)

theorem length_strReplace (search replace subject : Str) :
    (strReplace search replace subject).length + strReplaceCount search subject * search.length =
      subject.length + strReplaceCount search subject * replace.length :=
  length_replaceAll (matchOf_cases search) 0 subject

/-! ## Where matches lie -/

/-- No match begins in `s` and ends in `t`. -/
def NoStraddle (search s t : Str) : Prop :=
  ∀ k, 0 < k → k < search.length → search.take k <:+ s → ¬ search.drop k <+: t

theorem strReplace_append (h : NoStraddle search s t) :
    strReplace search replace (s ++ t) = strReplace search replace s ++ strReplace search replace t := by
  refine replaceAll_append fun tried htried => ?_
  obtain ⟨hsuffix, hne⟩ := tried_suffix htried
  have hle : matchOf search tried ≤ tried.length := by
    rcases matchOf_cases search tried with hm | ⟨hm, hm'⟩ <;> omega
  refine ⟨?_, hle⟩
  have hiff : search <+: tried ++ t ↔ search <+: tried := by
    refine ⟨fun hmatch => ?_, fun hmatch => hmatch.trans (List.prefix_append _ _)⟩
    rcases Nat.lt_or_ge tried.length search.length with hlt | hge
    · obtain ⟨behind, heq⟩ := hmatch
      have htake : search.take tried.length = tried := by
        have := congrArg (List.take tried.length) heq
        rwa [List.take_append_of_le_length (Nat.le_of_lt hlt), List.take_left] at this
      have hdrop : search.drop tried.length <+: t := by
        refine ⟨behind, ?_⟩
        have := congrArg (List.drop tried.length) heq
        rwa [List.drop_append_of_le_length (Nat.le_of_lt hlt), List.drop_left] at this
      exact absurd hdrop (h tried.length (List.length_pos_iff.mpr hne) hlt (htake.symm ▸ hsuffix))
    · exact List.prefix_of_prefix_length_le hmatch (List.prefix_append _ _) hge
  simp only [matchOf, hiff]

/-- A text that ends with a byte which the search string has at most as its last one. -/
theorem noStraddle_of_last (h : ∀ b ∈ s.getLast?, b ∉ search.dropLast) (t : Str) : NoStraddle search s t := by
  rintro k hpos hlt ⟨before, rfl⟩ -
  have hne : search.take k ≠ [] := List.ne_nil_of_length_pos (by rw [List.length_take]; omega)
  obtain ⟨b, hb⟩ := Option.isSome_iff_exists.mp (List.getLast?_isSome.mpr hne)
  refine h b ?_ ?_
  · rw [List.getLast?_append, hb]
    rfl
  · have hmem := List.mem_of_getLast? hb
    rw [List.dropLast_eq_take]
    exact (List.take_subset_take_left _ (by omega)) hmem

/-- A text that begins with a byte which the search string has at most as its first one. -/
theorem noStraddle_of_head (h : ∀ b ∈ t.head?, b ∉ search.tail) (s : Str) : NoStraddle search s t := by
  rintro k hpos hlt - ⟨behind, rfl⟩
  have hne : search.drop k ≠ [] := List.ne_nil_of_length_pos (by rw [List.length_drop]; omega)
  obtain ⟨b, rest, hb⟩ := List.exists_cons_of_ne_nil hne
  refine h b (by rw [hb]; rfl) ?_
  have hmem : b ∈ search.drop k := hb ▸ List.mem_cons_self
  rw [← List.drop_one]
  exact (List.drop_subset_drop_left _ hpos) hmem

@[simp] theorem strReplace_nil_subject : strReplace search replace [] = [] := rfl

theorem strReplace_cons {c : UInt8} (h : ¬ search <+: c :: s) :
    strReplace search replace (c :: s) = c :: strReplace search replace s := by
  have hne : search ≠ [] := fun hnil => h (hnil ▸ List.nil_prefix)
  exact replaceAll_of_none ((matchOf_eq_zero_iff hne).mpr h)

theorem strReplace_match (hne : search ≠ []) (s : Str) :
    strReplace search replace (search ++ s) = replace ++ strReplace search replace s := by
  have hmatch : matchOf search (search ++ s) = search.length := if_pos (List.prefix_append _ _)
  have hpos := List.length_pos_iff.mpr hne
  rw [strReplace, replaceAll_of_match (by simp [hne]) (by omega), hmatch, List.drop_left]
  rfl

/-- The first match is replaced, and what is behind it by itself. -/
theorem strReplace_of_infix (hne : search ≠ []) (h : search <:+: s) : ∃ before behind, s = before ++ (search ++ behind) ∧
    ¬ search <:+: before ∧
    ∀ replace, strReplace search replace s = before ++ (replace ++ strReplace search replace behind) := by
  induction s with
  | nil => exact absurd (List.infix_nil.mp h) hne
  | cons c s ih =>
    by_cases hmatch : search <+: c :: s
    · obtain ⟨behind, heq⟩ := hmatch
      refine ⟨[], behind, heq.symm, fun h => hne (List.infix_nil.mp h), fun replace => ?_⟩
      rw [← heq, strReplace_match hne]
      rfl
    · obtain ⟨before, behind, rfl, hbefore, heq⟩ := ih ((List.infix_cons_iff.mp h).resolve_left hmatch)
      refine ⟨c :: before, behind, rfl, fun h => ?_, fun replace => by rw [strReplace_cons hmatch, heq, List.cons_append]⟩
      exact (List.infix_cons_iff.mp h).elim (fun h => hmatch (h.trans (List.prefix_append (c :: before) _))) hbefore

/-- A search string whose last byte is nowhere else is found at the end alone. -/
theorem strReplace_append_self {b : UInt8} (hlast : search.getLast? = some b) (hs : b ∉ s) (hsearch : b ∉ search.dropLast) :
    strReplace search replace (s ++ search) = s ++ replace := by
  have hne : search ≠ [] := fun hnil => by simp [hnil] at hlast
  induction s with
  | nil =>
    have hmatch : strReplace search replace (search ++ []) = replace ++ strReplace search replace [] :=
      strReplace_match hne []
    rwa [List.append_nil, strReplace_nil_subject, List.append_nil] at hmatch
  | cons c s ih =>
    rw [List.cons_append, strReplace_cons ?_, ih (fun h => hs (List.mem_cons_of_mem c h))]
    · rfl
    · rintro ⟨behind, heq⟩
      have hdrop : b ∈ ((c :: s) ++ search).dropLast := by
        rw [List.cons_append, ← heq]
        rcases List.eq_nil_or_concat behind with rfl | ⟨behind, d, rfl⟩
        · have := congrArg List.length heq
          simp only [List.append_nil, List.length_append, List.length_cons] at this
          omega
        · rw [List.concat_eq_append, ← List.append_assoc, List.dropLast_concat]
          exact List.mem_append_left _ (List.mem_of_getLast? hlast)
      rw [List.dropLast_append_of_ne_nil hne] at hdrop
      exact (List.mem_append.mp hdrop).elim hs hsearch

/-- The last byte stays when the replacement ends like the search string. -/
theorem getLast?_strReplace (hne : search ≠ []) (hreplace : replace.getLast? = search.getLast?) (s : Str) :
    (strReplace search replace s).getLast? = s.getLast? := by
  induction hn : s.length using Nat.strong_induction_on generalizing s with
  | _ n ih =>
    subst hn
    by_cases h : search <:+: s
    · obtain ⟨before, behind, rfl, -, heq⟩ := strReplace_of_infix hne h
      have hlen : behind.length < (before ++ (search ++ behind)).length := by
        have := List.length_pos_iff.mpr hne
        simp only [List.length_append]
        omega
      rw [heq, List.getLast?_append, List.getLast?_append, List.getLast?_append, List.getLast?_append,
        ih _ hlen behind rfl, hreplace]
    · rw [strReplace_eq_self h]

/-- The bytes that the replacement has like the search string stay. -/
theorem filter_strReplace {p : UInt8 → Bool} (hne : search ≠ []) (hreplace : replace.filter p = search.filter p) (s : Str) :
    (strReplace search replace s).filter p = s.filter p := by
  induction hn : s.length using Nat.strong_induction_on generalizing s with
  | _ n ih =>
    subst hn
    by_cases h : search <:+: s
    · obtain ⟨before, behind, rfl, -, heq⟩ := strReplace_of_infix hne h
      have hlen : behind.length < (before ++ (search ++ behind)).length := by
        have := List.length_pos_iff.mpr hne
        simp only [List.length_append]
        omega
      rw [heq]
      simp only [List.filter_append, hreplace, ih _ hlen behind rfl]
    · rw [strReplace_eq_self h]

/-! ## A string that stands twice -/

/-- Some occurrences of `u` in the first text stand twice in the second one. -/
inductive Doubled (u : Str) : Str → Str → Prop where
  | nil : Doubled u [] []
  | keep {r s : Str} (c : UInt8) (h : Doubled u r s) : Doubled u (c :: r) (c :: s)
  | twice {r s : Str} (h : Doubled u r s) : Doubled u (u ++ r) (u ++ (u ++ s))

section

variable {u r s : Str}

theorem Doubled.append (x : Str) (h : Doubled u r s) : Doubled u (x ++ r) (x ++ s) := by
  induction x with
  | nil => exact h
  | cons c x ih => exact .keep c ih

theorem Doubled.refl (u r : Str) : Doubled u r r := by
  have h := Doubled.append r (Doubled.nil : Doubled u [] [])
  rwa [List.append_nil] at h

/-- The first place where `u` stands twice. -/
theorem Doubled.first (h : Doubled u r s) :
    r = s ∨ ∃ x r' s', r = x ++ (u ++ r') ∧ s = x ++ (u ++ (u ++ s')) ∧ Doubled u r' s' := by
  induction h with
  | nil => exact .inl rfl
  | keep c h ih =>
    rcases ih with rfl | ⟨x, r', s', rfl, rfl, h'⟩
    · exact .inl rfl
    · exact .inr ⟨c :: x, r', s', rfl, rfl, h'⟩
  | twice h => exact .inr ⟨[], _, _, rfl, rfl, h⟩

/-- Where the search finds `u` twice, one of the two may be taken for the other. -/
theorem Doubled.of_match (hr : ¬ u ++ u <:+: r) {behind : Str} (h : Doubled u r (u ++ (u ++ behind))) :
    ∃ r', r = u ++ r' ∧ Doubled u r' behind := by
  rcases h.first with rfl | ⟨x, r', s', rfl, hs, h'⟩
  · exact absurd ⟨[], behind, by simp⟩ hr
  · rcases Nat.lt_or_ge x.length u.length with hlt | hge
    · -- `x` is the beginning of `u`, and `x ++ u` begins with `u`
      have htake : x = u.take x.length := by
        have := congrArg (List.take x.length) hs
        rw [List.take_left, List.take_append_of_le_length (Nat.le_of_lt hlt)] at this
        exact this.symm
      have hcomm : u ++ x = x ++ u := by
        have := congrArg (List.take (u.length + x.length)) hs
        rw [List.take_length_add_append, List.take_append_of_le_length (Nat.le_of_lt hlt), Nat.add_comm,
          List.take_length_add_append, List.take_left, ← htake] at this
        exact this
      have hbehind : behind = x ++ s' := by
        have heq : u ++ (u ++ behind) = u ++ (u ++ (x ++ s')) := by
          rw [hs, ← List.append_assoc x, ← hcomm, List.append_assoc, ← List.append_assoc x, ← hcomm, List.append_assoc]
        exact List.append_cancel_left (List.append_cancel_left heq)
      refine ⟨x ++ r', ?_, hbehind ▸ h'.append x⟩
      rw [← List.append_assoc, ← hcomm, List.append_assoc]
    · refine absurd ?_ hr
      have hprefix : u ++ u <+: x ++ u := by
        refine List.prefix_of_prefix_length_le ⟨behind, List.append_assoc u u behind⟩ ⟨u ++ s', ?_⟩ ?_
        · rw [hs, List.append_assoc]
        · rw [List.length_append, List.length_append]
          omega
      exact hprefix.isInfix.trans ⟨[], r', by simp⟩

theorem strReplace_of_doubled (hu : u ≠ []) (hr : ¬ u ++ u <:+: r) (h : Doubled u r s) : strReplace (u ++ u) u s = r := by
  have hne : u ++ u ≠ [] := by simp [hu]
  induction hn : s.length using Nat.strong_induction_on generalizing r s with
  | _ n ih =>
    subst hn
    by_cases hmatch : u ++ u <+: s
    · obtain ⟨behind, rfl⟩ := hmatch
      rw [List.append_assoc] at h
      obtain ⟨r', rfl, h'⟩ := h.of_match hr
      have hlen : behind.length < (u ++ u ++ behind).length := by
        have := List.length_pos_iff.mpr hne
        rw [List.length_append]
        omega
      rw [strReplace_match hne, ih _ hlen (fun hwithin => hr (hwithin.trans (List.suffix_append u r').isInfix)) h' rfl]
    · cases h with
      | nil => rfl
      | keep c h =>
        have hr' := fun hwithin => hr (List.IsInfix.trans hwithin (List.suffix_cons c _).isInfix)
        rw [strReplace_cons hmatch, ih _ (Nat.lt_succ_self _) hr' h rfl]
      | twice h => exact absurd ⟨_, List.append_assoc u u _⟩ hmatch

end

/-! ## A beginning that is taken away -/

section

variable {v w x y z : Str}

/-- `y` cannot be told from the beginning of `w`. -/
def Meets (w y : Str) : Prop := y <+: w ∨ w <+: y

theorem prefix_strReplace_drop (hne : v ++ w ≠ []) (h : z <+: strReplace (v ++ w) w s) :
    z <+: s ∨ ∃ x y, z = x ++ y ∧ Meets w y ∧ x ++ (v ++ w) <+: s := by
  by_cases hfound : v ++ w <:+: s
  · obtain ⟨before, behind, rfl, -, heq⟩ := strReplace_of_infix hne hfound
    rw [heq] at h
    rcases List.prefix_or_prefix_of_prefix h (List.prefix_append before _) with hz | ⟨y, rfl⟩
    · exact .inl (hz.trans (List.prefix_append _ _))
    · refine .inr ⟨before, y, rfl, ?_, behind, List.append_assoc _ _ _⟩
      exact List.prefix_or_prefix_of_prefix ((List.prefix_append_right_inj before).mp h) (List.prefix_append _ _)
  · rw [strReplace_eq_self hfound] at h
    exact .inl h

/-- What is found afterwards was there before, or goes on where a beginning `v` was. -/
theorem infix_strReplace_drop (hne : v ++ w ≠ []) (h : z <:+: strReplace (v ++ w) w s) :
    z <:+: s ∨ ∃ x y, z = x ++ y ∧ x ≠ [] ∧ y ≠ [] ∧ Meets w y ∧ x ++ (v ++ w) <:+: s := by
  induction hn : s.length using Nat.strong_induction_on generalizing s with
  | _ n ih =>
    subst hn
    by_cases hfound : v ++ w <:+: s
    · obtain ⟨before, behind, rfl, -, heq⟩ := strReplace_of_infix hne hfound
      have hlen : behind.length < (before ++ (v ++ w ++ behind)).length := by
        have := List.length_pos_iff.mpr hne
        rw [List.length_append, List.length_append]
        omega
      have hw : w ++ behind <:+: before ++ (v ++ w ++ behind) := ⟨before ++ v, [], by simp⟩
      rw [heq] at h
      rcases List.infix_append_iff_ne_nil.mp h with h | h | ⟨x, y, hx, hy, rfl, ⟨x', rfl⟩, hy'⟩
      · exact .inl (h.trans (List.prefix_append _ _).isInfix)
      · rcases List.infix_append_iff_ne_nil.mp h with h | h | ⟨x, y, hx, hy, rfl, ⟨x', rfl⟩, hy'⟩
        · exact .inl ((h.trans (List.prefix_append _ _).isInfix).trans hw)
        · -- behind the first match
          have hbehind : behind <:+: before ++ (v ++ w ++ behind) :=
            ((List.suffix_append _ _).trans (List.suffix_append _ _)).isInfix
          rcases ih _ hlen h rfl with h | ⟨x, y, rfl, hx, hy, hmeets, hx'⟩
          · exact .inl (h.trans hbehind)
          · exact .inr ⟨x, y, rfl, hx, hy, hmeets, hx'.trans hbehind⟩
        · -- out of the replacement of the first match
          have hx' : x ++ behind <:+: x' ++ x ++ behind := ⟨x', [], by simp⟩
          rcases prefix_strReplace_drop hne hy' with hy' | ⟨x₂, y₂, rfl, hmeets, hx₂⟩
          · exact .inl ((((List.prefix_append_right_inj x).mpr hy').isInfix.trans hx').trans hw)
          · by_cases hy₂ : y₂ = []
            · subst hy₂
              rw [List.append_nil]
              have hx₂' : x₂ <+: behind := (List.prefix_append _ _).trans hx₂
              exact .inl ((((List.prefix_append_right_inj x).mpr hx₂').isInfix.trans hx').trans hw)
            · refine .inr ⟨x ++ x₂, y₂, (List.append_assoc _ _ _).symm, by simp [hx], hy₂, hmeets, ?_⟩
              rw [List.append_assoc]
              exact (((List.prefix_append_right_inj x).mpr hx₂).isInfix.trans hx').trans hw
      · -- into the replacement of the first match
        refine .inr ⟨x, y, rfl, hx, hy, List.prefix_or_prefix_of_prefix hy' (List.prefix_append _ _), x', behind, ?_⟩
        simp only [List.append_assoc]
    · rw [strReplace_eq_self hfound] at h
      exact .inl h

/-- The search string itself is not found again where no match begins in the end of a replacement. -/
theorem search_infix_strReplace_drop (hv : v ≠ []) (hw : ∀ k < w.length, ¬ w.drop k <+: v ++ w)
    (h : v ++ w <:+: strReplace (v ++ w) w s) :
    ∃ x y, v ++ w = x ++ y ∧ x ≠ [] ∧ y ≠ [] ∧ Meets w y ∧ x ++ (v ++ w) <:+: s := by
  have hne : v ++ w ≠ [] := by simp [hv]
  induction hn : s.length using Nat.strong_induction_on generalizing s with
  | _ n ih =>
    subst hn
    have hfound : v ++ w <:+: s := by
      by_contra hnot
      rw [strReplace_eq_self hnot] at h
      exact hnot h
    obtain ⟨before, behind, rfl, hbefore, heq⟩ := strReplace_of_infix hne hfound
    rw [heq] at h
    rcases List.infix_append_iff_ne_nil.mp h with h | h | ⟨x, y, hx, hy, hxy, ⟨x', rfl⟩, hy'⟩
    · exact absurd h hbefore
    · rcases List.infix_append_iff_ne_nil.mp h with h | h | ⟨x, y, hx, hy, hxy, ⟨x', hx'⟩, hy'⟩
      · have hle := h.length_le
        have := List.length_pos_iff.mpr hv
        rw [List.length_append] at hle
        omega
      · have hlen : behind.length < (before ++ (v ++ w ++ behind)).length := by
          have := List.length_pos_iff.mpr hne
          rw [List.length_append, List.length_append]
          omega
        obtain ⟨x, y, hxy, hx, hy, hmeets, hx'⟩ := ih _ hlen h rfl
        exact ⟨x, y, hxy, hx, hy, hmeets, hx'.trans ((List.suffix_append _ _).trans (List.suffix_append _ _)).isInfix⟩
      · have hpos := List.length_pos_iff.mpr hx
        refine absurd ⟨y, ?_⟩ (hw x'.length (by rw [← hx', List.length_append]; omega))
        rw [← hx', List.drop_left, hx', hxy]
    · refine ⟨x, y, hxy, hx, hy, List.prefix_or_prefix_of_prefix hy' (List.prefix_append _ _), x', behind, ?_⟩
      simp only [List.append_assoc]

end

/-- A text without the byte `b` lies on one side of it. -/
theorem infix_append_cons_iff {b : UInt8} (hb : b ∉ search) :
    search <:+: s ++ b :: t ↔ search <:+: s ∨ search <:+: t := by
  constructor
  · rintro ⟨before, behind, heq⟩
    rw [List.append_assoc] at heq
    rcases List.append_eq_append_iff.mp heq with ⟨rest, rfl, hrest⟩ | ⟨rest, rfl, hrest⟩
    · -- the match begins in `s`
      rcases List.append_eq_append_iff.mp hrest with ⟨x, rfl, hx⟩ | ⟨x, rfl, hx⟩
      · exact .inl ⟨before, x, by rw [List.append_assoc]⟩
      · cases x with
        | nil => exact .inl ⟨before, [], by simp⟩
        | cons d x =>
          obtain rfl : b = d := (List.cons.inj hx).1
          exact absurd (List.mem_append_right _ List.mem_cons_self) hb
    · cases rest with
      | nil =>
        cases search with
        | nil => exact .inl List.nil_infix
        | cons d search => exact absurd ((List.cons.inj hrest).1 ▸ List.mem_cons_self) hb
      | cons d rest =>
        obtain ⟨-, rfl⟩ := List.cons.inj hrest
        exact .inr ⟨rest, behind, List.append_assoc _ _ _⟩
  · rintro (h | h)
    · exact h.trans (List.infix_append [] s _)
    · exact h.trans ((List.suffix_cons b t).isInfix.trans (List.suffix_append s _).isInfix)

/-- A text whose last byte occurs only at the end of another one can only end it. -/
theorem suffix_of_infix_last {b : UInt8} (hb : b ∉ s.dropLast) (hlast : search.getLast? = some b) (h : search <:+: s) :
    search <:+ s := by
  obtain ⟨before, behind, rfl⟩ := h
  cases behind with
  | nil => exact ⟨before, by simp⟩
  | cons c behind =>
    refine absurd ?_ hb
    rw [List.dropLast_append_of_ne_nil (List.cons_ne_nil _ _)]
    exact List.mem_append_left _ (List.mem_append_right _ (List.mem_of_getLast? hlast))

/-! ## Places -/

/-- `\s` -/
def isPcreSpace (b : UInt8) : Bool := 9 ≤ b && b ≤ 13 || b = 32

def dropSpaces (s : Str) : Str := s.dropWhile isPcreSpace

/-- Whitespace between the tokens of PHP. -/
def isWhitespace (b : UInt8) : Bool := b = 32 || b = 9 || b = 10 || b = 13

/-- The bytes that `rtrim` takes away: `" \n\r\t\v\0"` -/
def isTrimmed (b : UInt8) : Bool := b = 32 || b = 10 || b = 13 || b = 9 || b = 11 || b = 0

/-- The text without the bytes of `p` at its end. -/
def trimEnd (p : UInt8 → Bool) (s : Str) : Str := (s.reverse.dropWhile p).reverse

/-- `rtrim($string)` -/
def rtrim (s : Str) : Str := trimEnd isTrimmed s

/-- `strpos($haystack, $needle)` -/
def strpos (needle : Str) : Str → Option ℕ
  | [] => if needle = [] then some 0 else none
  | c :: s => if needle <+: c :: s then some 0 else (strpos needle s).map (· + 1)

/-- `strpos($haystack, $needle, $offset)` -/
def strposFrom (needle haystack : Str) (offset : ℕ) : Option ℕ := (strpos needle (haystack.drop offset)).map (· + offset)

section

variable {needle before after : Str}

theorem strpos_of_begins (h : needle <+: s) : strpos needle s = some 0 := by
  cases s with
  | nil => exact if_pos (List.prefix_nil.mp h)
  | cons c s => exact if_pos h

theorem strpos_cons {c : UInt8} (h : ¬ needle <+: c :: s) : strpos needle (c :: s) = (strpos needle s).map (· + 1) :=
  if_neg h

theorem strpos_eq_none_iff : strpos needle s = none ↔ ¬ needle <:+: s := by
  induction s with
  | nil =>
    rw [strpos, List.infix_nil]
    split
    · next h => simp [h]
    · next h => simp [h]
  | cons c s ih =>
    rw [List.infix_cons_iff, not_or, ← ih]
    by_cases h : needle <+: c :: s
    · simp [strpos_of_begins h, h]
    · simp [strpos_cons h, h]

/-- Where no occurrence begins earlier. -/
theorem strpos_of_first (hne : needle ≠ []) (h : ¬ needle <:+: before ++ needle.dropLast) (after : Str) :
    strpos needle (before ++ (needle ++ after)) = some before.length := by
  induction before with
  | nil => exact strpos_of_begins (List.prefix_append _ _)
  | cons c before ih =>
    have hcons : ¬ needle <+: c :: (before ++ (needle ++ after)) := by
      intro hprefix
      refine h (List.IsPrefix.isInfix ?_)
      refine List.prefix_of_prefix_length_le hprefix ⟨needle.getLast hne :: after, ?_⟩ ?_
      · conv_rhs => rw [← List.dropLast_concat_getLast hne]
        simp
      · have := List.length_pos_iff.mpr hne
        simp only [List.length_append, List.length_cons, List.length_dropLast]
        omega
    rw [List.cons_append, strpos_cons hcons, ih fun hwithin => h (hwithin.trans (List.suffix_cons c _).isInfix)]
    rfl

/-- No occurrence begins in a text without the first byte of the needle. -/
theorem strpos_append {b : UInt8} (hb : b ∉ before) (s : Str) :
    strpos (b :: needle) (before ++ s) = (strpos (b :: needle) s).map (· + before.length) := by
  induction before with
  | nil => simp
  | cons c before ih =>
    have hcons : ¬ b :: needle <+: c :: (before ++ s) := fun h => hb ((List.cons_prefix_cons.mp h).1 ▸ List.mem_cons_self)
    rw [List.cons_append, strpos_cons hcons, ih fun h => hb (List.mem_cons_of_mem c h), Option.map_map]
    rfl

end

theorem trimEnd_append {p : UInt8 → Bool} (hs : ∀ b ∈ s.getLast?, p b = false) (ht : ∀ b ∈ t, p b = true) :
    trimEnd p (s ++ t) = s := by
  rw [trimEnd, List.reverse_append, List.dropWhile_append_of_pos fun b hb => ht b (List.mem_reverse.mp hb),
    List.dropWhile_eq_self_iff.mpr, List.reverse_reverse]
  intro hpos
  have hlast : s.reverse[0] ∈ s.getLast? := by
    rw [← List.head?_reverse, ← List.head_eq_getElem_zero (List.ne_nil_of_length_pos hpos), List.head?_eq_some_head]
    exact rfl
  rw [hs _ hlast]
  exact Bool.false_ne_true

end OtelDistro.Util
