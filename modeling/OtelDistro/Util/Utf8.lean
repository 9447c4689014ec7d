import OtelDistro.Bytes

/-!
# OtelDistro.Util.Utf8 — the UTF-8 check of the native part

`isUtf8` of `CommonUtils.cpp`: one turn of the loop takes a lead byte and the continuation bytes its table entry
announces.  `WellFormedUtf8` says what it is about; `isUtf8_sound` and `isUtf8_complete` say that these texts and no others are
accepted.

`isUtf8Loop` is the loop with its pointer and its count of bytes, where a read behind the end of the input shows:
`isUtf8_iff`.
-/

namespace OtelDistro.Util

/-- `utf8_table`: the number of continuation bytes, by the low six bits of the lead byte. -/
def utf8Table : List ℕ := List.replicate 32 1 ++ List.replicate 16 2 ++ List.replicate 8 3

/-- The byte is a continuation byte. -/
def isContinuation (b : UInt8) : Bool := b &&& 0xC0 == 0x80

def isUtf8 : Str → Bool
  | [] => true
  | c :: rest =>
    if c < 0x80 then isUtf8 rest
    else if c < 0xC0 || c ≥ 0xF5 then false
    else
      match utf8Table.getD (c &&& 0x3F).toNat 0, rest with
      | 1, d :: tail => isContinuation d && !(c &&& 0x3E == 0) && isUtf8 tail
      | 2, d :: e :: tail =>
        isContinuation d && isContinuation e && !(c == 0xE0 && d &&& 0x20 == 0) && !(c == 0xED && d ≥ 0xA0) &&
          isUtf8 tail
      | 3, d :: e :: f :: tail =>
        isContinuation d && isContinuation e && isContinuation f && !(c == 0xF0 && d &&& 0x30 == 0) &&
          !(c > 0xF4 || (c == 0xF4 && d > 0x8F)) && isUtf8 tail
      | _, _ => false -- fewer bytes left than announced

/-- Well-formed UTF-8: the encoding of some characters. -/
def WellFormedUtf8 (s : Str) : Prop := ∃ cs : List Char, cs.flatMap String.utf8EncodeChar = s

/-! ## What is accepted is well formed -/

theorem wellFormedUtf8_nil : WellFormedUtf8 [] := ⟨[], rfl⟩

theorem WellFormedUtf8.append {s t : Str} (hs : WellFormedUtf8 s) (ht : WellFormedUtf8 t) : WellFormedUtf8 (s ++ t) := by
  obtain ⟨cs, rfl⟩ := hs
  obtain ⟨ds, rfl⟩ := ht
  exact ⟨cs ++ ds, List.flatMap_append⟩

/-- The encoding of the character with the number `v`. -/
theorem wellFormedUtf8_of_encode {v : ℕ} (hv : v.isValidChar) {s : Str}
    (h : ∀ ch : Char, ch.val.toNat = v → String.utf8EncodeChar ch = s) : WellFormedUtf8 s :=
  ⟨[Char.ofNatAux v hv], by rw [List.flatMap_cons, List.flatMap_nil, List.append_nil, h _ rfl]⟩

theorem wellFormedUtf8_one {c : UInt8} (hc : c.toNat < 128) : WellFormedUtf8 [c] := by
  refine wellFormedUtf8_of_encode (v := c.toNat) (.inl (by omega)) fun ch hch => ?_
  simp only [String.utf8EncodeChar, hch]
  rw [if_pos (by omega), UInt8.ofNat_toNat]

theorem wellFormedUtf8_two {c d : UInt8} (hc : 194 ≤ c.toNat ∧ c.toNat < 224) (hd : 128 ≤ d.toNat ∧ d.toNat < 192) :
    WellFormedUtf8 [c, d] := by
  obtain ⟨v, hv⟩ : ∃ v, v = (c.toNat - 192) * 64 + (d.toNat - 128) := ⟨_, rfl⟩
  refine wellFormedUtf8_of_encode (v := v) (.inl (by omega)) fun ch hch => ?_
  have hc' : v / 64 % 32 + 192 = c.toNat := by omega
  have hd' : v % 64 + 128 = d.toNat := by omega
  simp only [String.utf8EncodeChar, hch]
  rw [if_neg (by omega), if_pos (by omega), hc', hd', UInt8.ofNat_toNat, UInt8.ofNat_toNat]

theorem wellFormedUtf8_three {c d e : UInt8} (hc : 224 ≤ c.toNat ∧ c.toNat < 240) (hd : 128 ≤ d.toNat ∧ d.toNat < 192)
    (he : 128 ≤ e.toNat ∧ e.toNat < 192) (hshort : c.toNat = 224 → 160 ≤ d.toNat)
    (hsurrogate : c.toNat = 237 → d.toNat < 160) : WellFormedUtf8 [c, d, e] := by
  obtain ⟨v, hv⟩ : ∃ v, v = (c.toNat - 224) * 4096 + (d.toNat - 128) * 64 + (e.toNat - 128) := ⟨_, rfl⟩
  have hvalid : v.isValidChar := by
    rcases Nat.lt_or_ge c.toNat 238 with h | h
    · exact .inl (by omega)
    · exact .inr ⟨by omega, by omega⟩
  refine wellFormedUtf8_of_encode hvalid fun ch hch => ?_
  have hc' : v / 4096 % 16 + 224 = c.toNat := by omega
  have hd' : v / 64 % 64 + 128 = d.toNat := by omega
  have he' : v % 64 + 128 = e.toNat := by omega
  simp only [String.utf8EncodeChar, hch]
  rw [if_neg (by omega), if_neg (by omega), if_pos (by omega), hc', hd', he', UInt8.ofNat_toNat, UInt8.ofNat_toNat,
    UInt8.ofNat_toNat]

theorem wellFormedUtf8_four {c d e f : UInt8} (hc : 240 ≤ c.toNat ∧ c.toNat < 245)
    (hd : 128 ≤ d.toNat ∧ d.toNat < 192) (he : 128 ≤ e.toNat ∧ e.toNat < 192) (hf : 128 ≤ f.toNat ∧ f.toNat < 192)
    (hshort : c.toNat = 240 → 144 ≤ d.toNat) (hlast : c.toNat = 244 → d.toNat < 144) : WellFormedUtf8 [c, d, e, f] := by
  obtain ⟨v, hv⟩ : ∃ v, v =
    (c.toNat - 240) * 262144 + (d.toNat - 128) * 4096 + (e.toNat - 128) * 64 + (f.toNat - 128) := ⟨_, rfl⟩
  refine wellFormedUtf8_of_encode (v := v) (.inr ⟨by omega, by omega⟩) fun ch hch => ?_
  have hc' : v / 262144 % 8 + 240 = c.toNat := by omega
  have hd' : v / 4096 % 64 + 128 = d.toNat := by omega
  have he' : v / 64 % 64 + 128 = e.toNat := by omega
  have hf' : v % 64 + 128 = f.toNat := by omega
  simp only [String.utf8EncodeChar, hch]
  rw [if_neg (by omega), if_neg (by omega), if_neg (by omega), hc', hd', he', hf', UInt8.ofNat_toNat,
    UInt8.ofNat_toNat, UInt8.ofNat_toNat, UInt8.ofNat_toNat]

/-- The first byte of well-formed text. -/
theorem lead_of_wellFormedUtf8 {b : UInt8} {s : Str} (h : WellFormedUtf8 (b :: s)) : b.toNat < 248 := by
  obtain ⟨cs, hcs⟩ := h
  cases cs with
  | nil => cases hcs
  | cons ch cs =>
    rw [List.flatMap_cons, String.utf8EncodeChar] at hcs
    have hlead {v : ℕ} {l : List UInt8} (hv : v < 248) (heq : UInt8.ofNat v :: l = b :: s) : b.toNat < 248 := by
      obtain ⟨rfl, -⟩ := List.cons.inj heq
      rw [UInt8.toNat_ofNat']
      omega
    split at hcs
    · exact hlead (by omega) hcs
    · split at hcs
      · exact hlead (by omega) hcs
      · split at hcs
        · exact hlead (by omega) hcs
        · exact hlead (by omega) hcs

/-- What holds of 256 bytes holds of all. -/
theorem forall_byte {P : UInt8 → Prop} (h : ∀ n : Fin 256, P (UInt8.ofNat n)) (b : UInt8) : P b := by
  have hb := h ⟨b.toNat, b.toNat_lt⟩
  rwa [UInt8.ofNat_toNat] at hb

theorem isContinuation_iff : ∀ d : UInt8, isContinuation d = true ↔ 128 ≤ d.toNat ∧ d.toNat < 192 :=
  forall_byte (by decide +kernel)

/-- The table, for lead bytes. -/
theorem utf8Table_facts : ∀ c : UInt8,
    (192 ≤ c.toNat →
      (utf8Table.getD (c &&& 0x3F).toNat 0 = 1 → c.toNat < 224 ∧ ((c &&& 0x3E == 0) = false → 194 ≤ c.toNat)) ∧
      (utf8Table.getD (c &&& 0x3F).toNat 0 = 2 → 224 ≤ c.toNat ∧ c.toNat < 240) ∧
      (utf8Table.getD (c &&& 0x3F).toNat 0 = 3 → 240 ≤ c.toNat)) ∧
    (194 ≤ c.toNat → c.toNat < 224 → utf8Table.getD (c &&& 0x3F).toNat 0 = 1 ∧ (c &&& 0x3E == 0) = false) ∧
    (224 ≤ c.toNat → c.toNat < 240 → utf8Table.getD (c &&& 0x3F).toNat 0 = 2) ∧
    (240 ≤ c.toNat → c.toNat < 245 → utf8Table.getD (c &&& 0x3F).toNat 0 = 3) :=
  forall_byte (by decide +kernel)

/-- The tests of single bits, for continuation bytes. -/
theorem mask_facts : ∀ d : UInt8,
    (isContinuation d = true →
      ((d &&& 0x20 == 0) = false → 160 ≤ d.toNat) ∧ ((d &&& 0x30 == 0) = false → 144 ≤ d.toNat)) ∧
    (d.toNat < 192 → (160 ≤ d.toNat → (d &&& 0x20 == 0) = false) ∧ (144 ≤ d.toNat → (d &&& 0x30 == 0) = false)) :=
  forall_byte (by decide +kernel)

theorem lead_of_utf8Table (c : UInt8) (hc : 192 ≤ c.toNat) :
    (utf8Table.getD (c &&& 0x3F).toNat 0 = 1 → c.toNat < 224 ∧ ((c &&& 0x3E == 0) = false → 194 ≤ c.toNat)) ∧
    (utf8Table.getD (c &&& 0x3F).toNat 0 = 2 → 224 ≤ c.toNat ∧ c.toNat < 240) ∧
    (utf8Table.getD (c &&& 0x3F).toNat 0 = 3 → 240 ≤ c.toNat) :=
  (utf8Table_facts c).1 hc

theorem second_of_mask (d : UInt8) (hd : isContinuation d = true) :
    ((d &&& 0x20 == 0) = false → 160 ≤ d.toNat) ∧ ((d &&& 0x30 == 0) = false → 144 ≤ d.toNat) :=
  (mask_facts d).1 hd

theorem lead_of_not {c : UInt8} (h : ¬(decide (c < 0xC0) || decide (c ≥ 0xF5)) = true) :
    192 ≤ c.toNat ∧ c.toNat < 245 := by
  simp only [Bool.or_eq_true, decide_eq_true_eq, not_or, ge_iff_le, UInt8.not_lt, UInt8.not_le] at h
  exact ⟨UInt8.le_iff_toNat_le.mp h.1, UInt8.lt_iff_toNat_lt.mp h.2⟩

/-- What `isUtf8` accepts is well formed. -/
theorem isUtf8_sound {s : Str} (h : isUtf8 s = true) : WellFormedUtf8 s := by
  fun_induction isUtf8 s with
  | case1 => exact wellFormedUtf8_nil
  | case2 c rest hc ih => exact (wellFormedUtf8_one (UInt8.lt_iff_toNat_lt.mp hc)).append (ih h)
  | case3 => cases h
  | case4 c hc hlead d tail htable ih =>
    simp only [Bool.and_eq_true, Bool.not_eq_true'] at h
    obtain ⟨⟨hd, hshort⟩, htail⟩ := h
    obtain ⟨hc', hc''⟩ := (lead_of_utf8Table c (lead_of_not hlead).1).1 htable
    exact (wellFormedUtf8_two ⟨hc'' hshort, hc'⟩ ((isContinuation_iff d).mp hd)).append (ih htail)
  | case5 c hc hlead d e tail htable ih =>
    simp only [Bool.and_eq_true, Bool.not_eq_true', Bool.and_eq_false_imp, beq_iff_eq, decide_eq_false_iff_not] at h
    obtain ⟨⟨⟨⟨hd, he⟩, hshort⟩, hsurrogate⟩, htail⟩ := h
    have hc' := (lead_of_utf8Table c (lead_of_not hlead).1).2.1 htable
    refine (wellFormedUtf8_three hc' ((isContinuation_iff d).mp hd) ((isContinuation_iff e).mp he) ?_ ?_).append
      (ih htail)
    · intro h
      exact (second_of_mask d hd).1 (hshort (UInt8.toNat_inj.mp h))
    · intro h
      exact UInt8.lt_iff_toNat_lt.mp (UInt8.not_le.mp (hsurrogate (UInt8.toNat_inj.mp h)))
  | case6 c hc hlead d e f tail htable ih =>
    simp only [Bool.and_eq_true, Bool.not_eq_true', Bool.and_eq_false_imp, Bool.or_eq_false_iff, beq_iff_eq,
      decide_eq_false_iff_not] at h
    obtain ⟨⟨⟨⟨⟨hd, he⟩, hf⟩, hshort⟩, -, hlast⟩, htail⟩ := h
    have hc' := (lead_of_utf8Table c (lead_of_not hlead).1).2.2 htable
    refine (wellFormedUtf8_four ⟨hc', (lead_of_not hlead).2⟩ ((isContinuation_iff d).mp hd)
      ((isContinuation_iff e).mp he) ((isContinuation_iff f).mp hf) ?_ ?_).append (ih htail)
    · intro h
      exact (second_of_mask d hd).2 (hshort (UInt8.toNat_inj.mp h))
    · intro h
      have hle := UInt8.not_lt.mp (hlast (UInt8.toNat_inj.mp h))
      exact Nat.lt_succ_of_le (UInt8.le_iff_toNat_le.mp hle)
  | case7 => cases h

example : isUtf8 [0xC3, 0xA9] = true ∧ isUtf8 [0xC0, 0x80] = false := by decide +kernel

/-! ## What is well formed is accepted -/

theorem utf8Table_of_lead (c : UInt8) :
    (194 ≤ c.toNat → c.toNat < 224 → utf8Table.getD (c &&& 0x3F).toNat 0 = 1 ∧ (c &&& 0x3E == 0) = false) ∧
    (224 ≤ c.toNat → c.toNat < 240 → utf8Table.getD (c &&& 0x3F).toNat 0 = 2) ∧
    (240 ≤ c.toNat → c.toNat < 245 → utf8Table.getD (c &&& 0x3F).toNat 0 = 3) :=
  (utf8Table_facts c).2

theorem mask_of_second (d : UInt8) (hd : d.toNat < 192) :
    (160 ≤ d.toNat → (d &&& 0x20 == 0) = false) ∧ (144 ≤ d.toNat → (d &&& 0x30 == 0) = false) :=
  (mask_facts d).2 hd

section

variable {c d e f : UInt8} (rest : Str)

theorem not_lt_of_lead (hc : 128 ≤ c.toNat) : ¬ c < 0x80 := UInt8.not_lt.mpr (UInt8.le_iff_toNat_le.mpr hc)

theorem lead_ok (hc : 192 ≤ c.toNat ∧ c.toNat < 245) : ¬(decide (c < 0xC0) || decide (c ≥ 0xF5)) = true := by
  simp only [Bool.or_eq_true, decide_eq_true_eq, not_or, ge_iff_le, UInt8.not_lt, UInt8.not_le]
  exact ⟨UInt8.le_iff_toNat_le.mpr hc.1, UInt8.lt_iff_toNat_lt.mpr hc.2⟩

theorem isUtf8_one (hc : c.toNat < 128) : isUtf8 (c :: rest) = isUtf8 rest := by
  rw [isUtf8.eq_def (c :: rest)]
  dsimp only
  rw [if_pos (UInt8.lt_iff_toNat_lt.mpr hc)]

theorem isUtf8_two (hc : 194 ≤ c.toNat ∧ c.toNat < 224) (hd : 128 ≤ d.toNat ∧ d.toNat < 192) :
    isUtf8 (c :: d :: rest) = isUtf8 rest := by
  obtain ⟨htable, hshort⟩ := (utf8Table_of_lead c).1 hc.1 hc.2
  rw [isUtf8.eq_def (c :: d :: rest)]
  dsimp only
  rw [if_neg (not_lt_of_lead (by omega)), if_neg (lead_ok (by omega)), htable]
  simp only [(isContinuation_iff d).mpr hd, hshort, Bool.not_false, Bool.and_self, Bool.true_and]

theorem isUtf8_three (hc : 224 ≤ c.toNat ∧ c.toNat < 240) (hd : 128 ≤ d.toNat ∧ d.toNat < 192)
    (he : 128 ≤ e.toNat ∧ e.toNat < 192) (hshort : c.toNat = 224 → 160 ≤ d.toNat)
    (hsurrogate : c.toNat = 237 → d.toNat < 160) : isUtf8 (c :: d :: e :: rest) = isUtf8 rest := by
  have htable := (utf8Table_of_lead c).2.1 hc.1 hc.2
  have hshort' : (c == 0xE0 && d &&& 0x20 == 0) = false := by
    rw [Bool.and_eq_false_imp, beq_iff_eq]
    rintro rfl
    exact (mask_of_second d hd.2).1 (hshort rfl)
  have hsurrogate' : (c == 0xED && decide (d ≥ 0xA0)) = false := by
    rw [Bool.and_eq_false_imp, beq_iff_eq, decide_eq_false_iff_not]
    rintro rfl
    exact UInt8.not_le.mpr (UInt8.lt_iff_toNat_lt.mpr (hsurrogate rfl))
  rw [isUtf8.eq_def (c :: d :: e :: rest)]
  dsimp only
  rw [if_neg (not_lt_of_lead (by omega)), if_neg (lead_ok (by omega)), htable]
  simp only [(isContinuation_iff d).mpr hd, (isContinuation_iff e).mpr he, hshort', hsurrogate', Bool.not_false,
    Bool.and_self, Bool.true_and]

theorem isUtf8_four (hc : 240 ≤ c.toNat ∧ c.toNat < 245) (hd : 128 ≤ d.toNat ∧ d.toNat < 192)
    (he : 128 ≤ e.toNat ∧ e.toNat < 192) (hf : 128 ≤ f.toNat ∧ f.toNat < 192) (hshort : c.toNat = 240 → 144 ≤ d.toNat)
    (hlast : c.toNat = 244 → d.toNat < 144) : isUtf8 (c :: d :: e :: f :: rest) = isUtf8 rest := by
  have htable := (utf8Table_of_lead c).2.2 hc.1 hc.2
  have hshort' : (c == 0xF0 && d &&& 0x30 == 0) = false := by
    rw [Bool.and_eq_false_imp, beq_iff_eq]
    rintro rfl
    exact (mask_of_second d hd.2).2 (hshort rfl)
  have hlast' : (c == 0xF4 && decide (d > 0x8F)) = false := by
    rw [Bool.and_eq_false_imp, beq_iff_eq, decide_eq_false_iff_not]
    rintro rfl
    exact UInt8.not_lt.mpr (UInt8.le_iff_toNat_le.mpr (Nat.le_of_lt_succ (hlast rfl)))
  have hmax : decide (c > 0xF4) = false := by
    rw [decide_eq_false_iff_not]
    exact UInt8.not_lt.mpr (UInt8.le_iff_toNat_le.mpr (Nat.le_of_lt_succ hc.2))
  rw [isUtf8.eq_def (c :: d :: e :: f :: rest)]
  dsimp only
  rw [if_neg (not_lt_of_lead (by omega)), if_neg (lead_ok (by omega)), htable]
  simp only [(isContinuation_iff d).mpr hd, (isContinuation_iff e).mpr he, (isContinuation_iff f).mpr hf, hshort', hlast',
    hmax, Bool.or_self, Bool.not_false, Bool.and_self, Bool.true_and]

/-- The numbers of characters: no surrogates, nothing above `0x10FFFF`. -/
theorem val_bounds (ch : Char) : ch.val.toNat < 55296 ∨ 57343 < ch.val.toNat ∧ ch.val.toNat < 1114112 := ch.valid

/-- The check goes on behind the encoding of a character. -/
theorem isUtf8_encodeChar (ch : Char) : isUtf8 (String.utf8EncodeChar ch ++ rest) = isUtf8 rest := by
  have hv := val_bounds ch
  rw [String.utf8EncodeChar]
  generalize ch.val.toNat = v at hv
  have htoNat {n : ℕ} (hn : n < 256) : (UInt8.ofNat n).toNat = n := UInt8.toNat_ofNat_of_lt' hn
  split
  · next hone => exact isUtf8_one rest (by rw [htoNat (by omega)]; omega)
  · split
    · next hone htwo => exact isUtf8_two rest (by rw [htoNat (by omega)]; omega) (by rw [htoNat (by omega)]; omega)
    · split
      · next hone htwo hthree =>
        refine isUtf8_three rest ?_ ?_ ?_ ?_ ?_
        all_goals
          repeat rw [htoNat (by omega)]
          omega
      · next hone htwo hthree =>
        refine isUtf8_four rest ?_ ?_ ?_ ?_ ?_ ?_
        all_goals
          repeat rw [htoNat (by omega)]
          omega

end

/-- What is well formed is accepted. -/
theorem isUtf8_complete {s : Str} (h : WellFormedUtf8 s) : isUtf8 s = true := by
  obtain ⟨cs, rfl⟩ := h
  induction cs with
  | nil => rfl
  | cons ch cs ih => rw [List.flatMap_cons, isUtf8_encodeChar, ih]

/-! ## The loop over the bytes -/

/-- One turn with the pointer at `p` and `length` bytes left; `none` is a read behind the end.  `some none` is `return false`,
else the pointer and the length for the next turn. -/
def isUtf8Turn (input : Str) (p length : ℕ) : Option (Option (ℕ × ℕ)) := do
  let c ← input[p]?
  let p := p + 1
  let length := length - 1
  if c < 0x80 then pure (some (p, length))
  else if c < 0xC0 || c ≥ 0xF5 then pure none
  else
    let ab ← utf8Table[(c &&& 0x3F).toNat]?
    if length < ab then pure none
    else
      let length := length - ab
      let d ← input[p]?
      if isContinuation d = false then pure none
      else
        match ab with
        | 1 => if c &&& 0x3E == 0 then pure none else pure (some (p + 1, length))
        | 2 =>
          let e ← input[p + 1]?
          if isContinuation e = false || (c == 0xE0 && d &&& 0x20 == 0) || (c == 0xED && d ≥ 0xA0) then pure none
          else pure (some (p + 2, length))
        | 3 =>
          let e ← input[p + 1]?
          if isContinuation e = false then pure none
          else
            let f ← input[p + 2]?
            if isContinuation f = false || (c == 0xF0 && d &&& 0x30 == 0) || (c > 0xF4 || (c == 0xF4 && d > 0x8F)) then
              pure none
            else pure (some (p + 3, length))
        | _ => pure (some (p + 1, length))

/-- `while (length > 0)`, for at most `turns` turns; `none` is a read behind the end of the input. -/
def isUtf8Loop (input : Str) : ℕ → ℕ → ℕ → Option Bool
  | 0, _, length => if length > 0 then none else some true
  | turns + 1, p, length =>
    if length > 0 then
      match isUtf8Turn input p length with
      | none => none
      | some none => some false
      | some (some (p, length)) => isUtf8Loop input turns p length
    else some true

theorem utf8Table_read : ∀ c : UInt8, 192 ≤ c.toNat ∧ c.toNat < 245 → ∃ ab ∈ [1, 2, 3],
    utf8Table[(c &&& 0x3F).toNat]? = some ab ∧ utf8Table.getD (c &&& 0x3F).toNat 0 = ab :=
  forall_byte (by decide +kernel)

/-- A turn returns `false`, or goes on behind the bytes it has read: `isUtf8` does the same. -/
def TurnAgrees (input : Str) (p : ℕ) (c : UInt8) (rest : Str) : Prop :=
  (isUtf8Turn input p (rest.length + 1) = some none ∧ isUtf8 (c :: rest) = false) ∨
    ∃ n, n ≤ rest.length ∧ isUtf8Turn input p (rest.length + 1) = some (some (p + 1 + n, rest.length - n)) ∧
      isUtf8 (c :: rest) = isUtf8 (rest.drop n)

theorem isUtf8Turn_agrees {input : Str} {p : ℕ} {c : UInt8} {rest : Str} (h : input.drop p = c :: rest) :
    TurnAgrees input p c rest := by
  have hread (i : ℕ) : input[p + i]? = (c :: rest)[i]? := by rw [← h, List.getElem?_drop]
  have hread0 : input[p]? = some c := hread 0
  have hread1 : input[p + 1]? = rest[0]? := hread 1
  have hread2 : input[p + 1 + 1]? = rest[1]? := hread 2
  have hread3 : input[p + 1 + 2]? = rest[2]? := hread 3
  unfold TurnAgrees isUtf8Turn
  rw [isUtf8.eq_def]
  simp only [hread0, hread1, hread2, hread3, Option.bind_eq_bind, Option.bind_some, Nat.add_sub_cancel, Option.pure_def]
  by_cases hc : c < 0x80
  · exact .inr ⟨0, Nat.zero_le _, by rw [if_pos hc]; rfl, by rw [if_pos hc]; rfl⟩
  rw [if_neg hc, if_neg hc]
  by_cases hlead : (decide (c < 0xC0) || decide (c ≥ 0xF5)) = true
  · exact .inl ⟨by rw [if_pos hlead], by rw [if_pos hlead]⟩
  rw [if_neg hlead, if_neg hlead]
  obtain ⟨ab, hab, htable, hgetD⟩ := utf8Table_read c (lead_of_not hlead)
  simp only [htable, hgetD, Option.bind_some]
  simp only [List.mem_cons, List.not_mem_nil, or_false] at hab
  rcases hab with rfl | rfl | rfl
  · match rest with
    | [] => exact .inl ⟨rfl, rfl⟩
    | d :: tail =>
      simp only [List.getElem?_cons_zero, Option.bind_some]
      rw [if_neg (by simp)]
      generalize isContinuation d = continues, (c &&& 0x3E == 0) = short
      cases continues
      · exact .inl ⟨rfl, rfl⟩
      · cases short
        · exact .inr ⟨1, by simp, rfl, rfl⟩
        · exact .inl ⟨rfl, rfl⟩
  · match rest with
    | [] => exact .inl ⟨rfl, rfl⟩
    | [d] => exact .inl ⟨rfl, rfl⟩
    | d :: e :: tail =>
      simp only [List.getElem?_cons_zero, List.getElem?_cons_succ, Option.bind_some]
      rw [if_neg (by simp)]
      generalize isContinuation d = continues, isContinuation e = continues', (c == 0xE0 && d &&& 0x20 == 0) = short,
        (c == 0xED && decide (d ≥ 0xA0)) = surrogate
      cases continues
      · exact .inl ⟨rfl, rfl⟩
      · cases continues' <;> cases short <;> cases surrogate
        case true.false.false => exact .inr ⟨2, by simp, rfl, rfl⟩
        all_goals exact .inl ⟨rfl, rfl⟩
  · match rest with
    | [] => exact .inl ⟨rfl, rfl⟩
    | [d] => exact .inl ⟨rfl, rfl⟩
    | [d, e] => exact .inl ⟨rfl, rfl⟩
    | d :: e :: f :: tail =>
      simp only [List.getElem?_cons_zero, List.getElem?_cons_succ, Option.bind_some]
      rw [if_neg (by simp)]
      generalize isContinuation d = continues, isContinuation e = continues', isContinuation f = continues'',
        (c == 0xF0 && d &&& 0x30 == 0) = short, (decide (c > 0xF4) || (c == 0xF4 && decide (d > 0x8F))) = large
      cases continues
      · exact .inl ⟨rfl, rfl⟩
      · cases continues' <;> cases continues'' <;> cases short <;> cases large
        case true.true.false.false => exact .inr ⟨3, by simp, rfl, rfl⟩
        all_goals exact .inl ⟨rfl, rfl⟩

/-- The loop with the pointer at `p`, for the bytes that are left. -/
theorem isUtf8Loop_eq {input : Str} {turns p : ℕ} {s : Str} (h : input.drop p = s) (hturns : s.length ≤ turns) :
    isUtf8Loop input turns p s.length = some (isUtf8 s) := by
  induction turns generalizing p s with
  | zero =>
    obtain rfl := List.eq_nil_of_length_eq_zero (Nat.le_zero.mp hturns)
    rw [isUtf8Loop, isUtf8]
    rfl
  | succ turns ih =>
    cases s with
    | nil =>
      rw [isUtf8Loop, isUtf8]
      rfl
    | cons c rest =>
      rw [isUtf8Loop, if_pos (List.length_pos_iff.mpr (List.cons_ne_nil c rest)), List.length_cons]
      rcases isUtf8Turn_agrees h with ⟨hturn, hs⟩ | ⟨n, hn, hturn, hs⟩
      · rw [hturn, hs]
      · have hrest : input.drop (p + 1 + n) = rest.drop n := by
          rw [Nat.add_assoc, ← List.drop_drop, h, Nat.add_comm, List.drop_succ_cons]
        rw [List.length_cons] at hturns
        rw [hturn, hs, ← List.length_drop]
        exact ih hrest (by rw [List.length_drop]; omega)

/-- **The UTF-8 check**: for every byte string the loop ends without a read behind the end, and returns whether the string is
well-formed UTF-8. -/
theorem isUtf8_iff (input : Str) : ∃ accepted : Bool,
    isUtf8Loop input input.length 0 input.length = some accepted ∧ (accepted = true ↔ WellFormedUtf8 input) :=
  ⟨isUtf8 input, isUtf8Loop_eq rfl (Nat.le_refl _), isUtf8_sound, isUtf8_complete⟩

end OtelDistro.Util
