import OtelDistro.Build.ComposerAutoload

/-!
# OtelDistro.Build.AutoloadEntries — where an entry is found

`findEntryContaining` goes by offsets: the first occurrence of the marker, the matches of the key pattern, the next comma, the
next `);`.

* `keyOffsets_append`: the matches on both sides of a quote, when what is behind it does not begin with an arrow.
* `keyOffsets_entry`: an entry has one match, at its beginning.
* `findEntryContaining_comma`, `findEntryContaining_last`: the entry is found, with its comma or without.

A string that begins with `=>` makes the closing quote before it look like the beginning of a key.
-/

namespace OtelDistro.Build

open OtelDistro.Util

variable {s t post code : Str} {q c : UInt8} {offset k : ℕ}

/-! ## The key pattern -/

/-- The first string of a text begins with an arrow. -/
def stringAhead (s : Str) : Bool := (s.dropWhile fun b => !isQuote b).tail |> arrowAhead

theorem arrowAhead_nil : arrowAhead [] = false := rfl

/-- An arrow is not put together around a quote. -/
theorem arrowAhead_append_quote (hq : isQuote q = true) (s t : Str) : arrowAhead (s ++ q :: t) = arrowAhead s := by
  have hq' : q = 39 ∨ q = 34 := by simpa [isQuote] using hq
  have hspace : isPcreSpace q = false := by rcases hq' with rfl | rfl <;> decide
  have h61 : (61 == q) = false := by rcases hq' with rfl | rfl <;> decide
  have h62 : (62 == q) = false := by rcases hq' with rfl | rfl <;> decide
  rw [arrowAhead, arrowAhead, dropSpaces, dropSpaces, List.dropWhile_append]
  cases hd : s.dropWhile isPcreSpace with
  | nil =>
    rw [List.isEmpty_nil, if_pos rfl, List.dropWhile_cons_of_neg (by simp [hspace])]
    simp [beq_eq_false_iff_ne.mp h61]
  | cons d s' =>
    rw [List.isEmpty_cons, if_neg Bool.false_ne_true]
    cases s' with
    | nil => simp [beq_eq_false_iff_ne.mp h62]
    | cons e s'' => simp [List.cons_prefix_cons]

theorem arrowAhead_append (hcode : 61 ∉ code) (h : arrowAhead s = false) : arrowAhead (code ++ s) = false := by
  rw [arrowAhead, dropSpaces, List.dropWhile_append]
  cases hd : code.dropWhile isPcreSpace with
  | nil => exact h
  | cons d code' =>
    have hmem : d ∈ code := (List.dropWhile_suffix isPcreSpace).subset (hd ▸ List.mem_cons_self)
    have hne : 61 ≠ d := fun heq => hcode (heq ▸ hmem)
    simp [List.cons_prefix_cons, hne]

theorem stringAhead_append (hcode : ∀ b ∈ code, isQuote b = false) (s : Str) : stringAhead (code ++ s) = stringAhead s := by
  rw [stringAhead, List.dropWhile_append_of_pos fun b hb => by rw [hcode b hb]; rfl]
  rfl

theorem stringAhead_quote (hq : isQuote q = true) (s : Str) : stringAhead (q :: s) = arrowAhead s := by
  rw [stringAhead, List.dropWhile_cons_of_neg (by simp [hq])]
  rfl

theorem keyMatch_of_not_isQuote (h : isQuote c = false) (s : Str) : keyMatch (c :: s) = none := by
  rw [keyMatch, if_neg (by simp [h])]

/-- Behind the closing quote of a match there is an arrow. -/
theorem keyMatch_of_not_stringAhead (h : stringAhead s = false) (c : UInt8) : keyMatch (c :: s) = none := by
  rw [stringAhead] at h
  rw [keyMatch]
  split
  · split
    · next heq =>
      rw [heq] at h
      exact if_neg fun hmatch => absurd (hmatch.2.2.symm.trans h) (by decide)
    · rfl
  · rfl

theorem keyMatch_le {len : ℕ} (h : keyMatch (c :: s) = some len) : 0 < len ∧ len ≤ s.length + 1 := by
  rw [keyMatch] at h
  split at h
  · dsimp only at h
    split at h
    · next q' rest heq =>
      split at h
      · next hmatch =>
        obtain rfl := Option.some.inj h
        have hsplit := congrArg List.length (List.takeWhile_append_dropWhile (p := fun b => !isQuote b) (l := s))
        have hspaces := congrArg List.length (List.takeWhile_append_dropWhile (p := isPcreSpace) (l := rest))
        have harrow : 2 ≤ (rest.dropWhile isPcreSpace).length := (of_decide_eq_true hmatch.2.2).length_le
        rw [heq] at hsplit
        simp only [List.length_append, List.length_cons] at hsplit hspaces
        omega
      · cases h
    · cases h
  · cases h

theorem takeWhile_append_quote (hq : isQuote q = true) (s t : Str) :
    (s ++ q :: t).takeWhile isPcreSpace = s.takeWhile isPcreSpace := by
  have hq' : q = 39 ∨ q = 34 := by simpa [isQuote] using hq
  have hspace : isPcreSpace q = false := by rcases hq' with rfl | rfl <;> decide
  rw [List.takeWhile_append, List.takeWhile_cons_of_neg (by simp [hspace]), List.append_nil]
  split
  · next hlen => exact ((List.takeWhile_prefix isPcreSpace).eq_of_length hlen).symm
  · rfl

/-- A match ends before a quote that is not its own. -/
theorem keyMatch_append (hq : isQuote q = true) (harrow : arrowAhead t = false) (c : UInt8) (s : Str) :
    keyMatch (c :: (s ++ q :: t)) = keyMatch (c :: s) := by
  rw [keyMatch, keyMatch]
  cases hc : isQuote c with
  | false => rfl
  | true =>
    rw [if_pos rfl, if_pos rfl, List.takeWhile_append, List.dropWhile_append]
    cases hd : s.dropWhile fun b => !isQuote b with
    | nil =>
      rw [List.isEmpty_nil, if_pos rfl, List.dropWhile_cons_of_neg (by simp [hq])]
      simp only [harrow, Bool.false_eq_true, and_false, if_false]
    | cons q' rest =>
      have hne : (s.takeWhile fun b => !isQuote b).length ≠ s.length := by
        intro hlen
        have hsplit := congrArg List.length (List.takeWhile_append_dropWhile (p := fun b => !isQuote b) (l := s))
        rw [hd, List.length_append, List.length_cons] at hsplit
        omega
      rw [List.isEmpty_cons, if_neg Bool.false_ne_true, if_neg hne]
      simp only [List.cons_append, arrowAhead_append_quote hq]
      rw [takeWhile_append_quote hq]

/-! ## The offsets of keys -/

theorem keyOffsets_skip (t s : Str) (offset : ℕ) :
    keyOffsets t.length offset (t ++ s) = keyOffsets 0 (offset + t.length) s := by
  induction t generalizing offset with
  | nil => rfl
  | cons c t ih =>
    rw [List.length_cons, List.cons_append, keyOffsets, ih, Nat.add_assoc, Nat.add_comm 1]

theorem keyOffsets_of_none (h : keyMatch (c :: s) = none) : keyOffsets 0 offset (c :: s) = keyOffsets 0 (offset + 1) s := by
  rw [keyOffsets, h]

/-- No match begins in a text without quotes. -/
theorem keyOffsets_code (hcode : ∀ b ∈ code, isQuote b = false) (s : Str) (offset : ℕ) :
    keyOffsets 0 offset (code ++ s) = keyOffsets 0 (offset + code.length) s := by
  induction code generalizing offset with
  | nil => rfl
  | cons c code ih =>
    rw [List.cons_append, keyOffsets_of_none (keyMatch_of_not_isQuote (hcode c List.mem_cons_self) _),
      ih fun b hb => hcode b (List.mem_cons_of_mem c hb), List.length_cons, Nat.add_assoc, Nat.add_comm 1]

theorem mem_keyOffsets {n : ℕ} (h : n ∈ keyOffsets k offset s) : offset ≤ n ∧ n < offset + s.length := by
  induction s generalizing k offset with
  | nil => cases k <;> cases h
  | cons c s ih =>
    rw [List.length_cons]
    cases k with
    | succ k =>
      have := ih h
      omega
    | zero =>
      rw [keyOffsets] at h
      split at h
      · rcases List.mem_cons.mp h with rfl | h
        · omega
        · have := ih h
          omega
      · have := ih h
        omega

/-- The matches before a quote, and those from it on. -/
theorem keyOffsets_append (hq : isQuote q = true) (harrow : arrowAhead t = false) (hk : k ≤ s.length) :
    keyOffsets k offset (s ++ q :: t) = keyOffsets k offset s ++ keyOffsets 0 (offset + s.length) (q :: t) := by
  induction s generalizing k offset with
  | nil =>
    obtain rfl : k = 0 := Nat.le_zero.mp hk
    rfl
  | cons c s ih =>
    have hlength (offset : ℕ) : offset + 1 + s.length = offset + (c :: s).length := by
      rw [List.length_cons]
      omega
    cases k with
    | succ k => rw [List.cons_append, keyOffsets, ih (Nat.le_of_succ_le_succ hk), hlength, ← keyOffsets]
    | zero =>
      cases hmatch : keyMatch (c :: s) with
      | none => rw [List.cons_append, keyOffsets, keyMatch_append hq harrow, hmatch, keyOffsets_of_none hmatch,
          ih (Nat.zero_le _), hlength]
      | some len =>
        obtain ⟨hpos, hle⟩ := keyMatch_le hmatch
        rw [List.cons_append, keyOffsets, keyMatch_append hq harrow, keyOffsets, hmatch]
        dsimp only
        rw [ih (by omega), hlength, List.cons_append]

theorem isQuote_of_isPathByte {b : UInt8} (h : isPathByte b = true) : isQuote b = false := by
  rw [isPathByte, Bool.and_eq_true, Bool.not_eq_true'] at h
  exact h.1

theorem isQuote_of_isCodeByte {b : UInt8} (h : isCodeByte b = true) : isQuote b = false := by
  rw [isCodeByte, Bool.and_eq_true, Bool.and_eq_true] at h
  exact isQuote_of_isPathByte h.1.1

theorem not_mem_of_isCodeByte (h : ∀ b ∈ code, isCodeByte b = true) : 61 ∉ code := fun hmem =>
  absurd (h 61 hmem) (by decide)

/-- Behind the literals of an expression. -/
theorem arrowAhead_pieces {pieces : List (Str × Str)} (hcode : ∀ p ∈ pieces, ∀ b ∈ p.1, isCodeByte b = true)
    (h : arrowAhead post = false) : arrowAhead (pieces.flatMap piece ++ post) = false := by
  cases pieces with
  | nil => exact h
  | cons p pieces =>
    rw [List.flatMap_cons, piece, List.append_assoc, List.append_assoc, List.cons_append,
      arrowAhead_append_quote (by decide), ← List.append_nil p.1]
    exact arrowAhead_append (not_mem_of_isCodeByte (hcode p List.mem_cons_self)) rfl

theorem stringAhead_pieces {pieces : List (Str × Str)} (hcode : ∀ p ∈ pieces, ∀ b ∈ p.1, isCodeByte b = true)
    (harrow : ∀ p ∈ pieces, arrowAhead p.2 = false) (h : stringAhead post = false) :
    stringAhead (pieces.flatMap piece ++ post) = false := by
  cases pieces with
  | nil => exact h
  | cons p pieces =>
    rw [List.flatMap_cons, piece, List.append_assoc, List.append_assoc, List.cons_append,
      stringAhead_append fun b hb => isQuote_of_isCodeByte (hcode p List.mem_cons_self b hb),
      stringAhead_quote (by decide), List.append_assoc, List.singleton_append, arrowAhead_append_quote (by decide)]
    exact harrow p List.mem_cons_self

/-- No match begins in an expression.  The first literal may begin with an arrow: the quote before it ends the key. -/
theorem keyOffsets_pieces {pieces : List (Str × Str)} (hliterals : ∀ p ∈ pieces, ∀ b ∈ p.2, isPathByte b = true)
    (hcode : ∀ p ∈ pieces, ∀ b ∈ p.1, isCodeByte b = true) (harrow : ∀ p ∈ pieces.tail, arrowAhead p.2 = false)
    (hpost : arrowAhead post = false) (hstring : stringAhead post = false) (offset : ℕ) :
    keyOffsets 0 offset (pieces.flatMap piece ++ post) =
      keyOffsets 0 (offset + (pieces.flatMap piece).length) post := by
  induction pieces generalizing offset with
  | nil => rfl
  | cons p pieces ih =>
    have hcode' : ∀ p ∈ pieces, ∀ b ∈ p.1, isCodeByte b = true := fun p hp => hcode p (List.mem_cons_of_mem _ hp)
    have hquote : keyMatch (39 :: (p.2 ++ 39 :: (pieces.flatMap piece ++ post))) = none := by
      refine keyMatch_of_not_stringAhead ?_ 39
      rw [stringAhead_append fun b hb => isQuote_of_isPathByte (hliterals p List.mem_cons_self b hb),
        stringAhead_quote (by decide)]
      exact arrowAhead_pieces hcode' hpost
    have hclose : keyMatch (39 :: (pieces.flatMap piece ++ post)) = none :=
      keyMatch_of_not_stringAhead (stringAhead_pieces hcode' harrow hstring) 39
    rw [List.flatMap_cons, piece]
    simp only [List.append_assoc, List.cons_append, List.nil_append]
    rw [keyOffsets_code fun b hb => isQuote_of_isCodeByte (hcode p List.mem_cons_self b hb), keyOffsets_of_none hquote,
      keyOffsets_code fun b hb => isQuote_of_isPathByte (hliterals p List.mem_cons_self b hb), keyOffsets_of_none hclose,
      ih (fun p hp => hliterals p (List.mem_cons_of_mem _ hp)) hcode' fun p hp => harrow p (List.mem_of_mem_tail hp)]
    congr 1
    simp only [List.length_append, List.length_cons]
    omega

/-- A key that is not empty is matched. -/
theorem keyMatch_key {key : Str} (hne : key ≠ []) (hkey : ∀ b ∈ key, isPathByte b = true) (s : Str) :
    keyMatch (39 :: (key ++ (39 :: 32 :: 61 :: 62 :: s))) = some (key.length + 5) := by
  have hplain : ∀ b ∈ key, (fun b => !isQuote b) b = true := by
    intro b hb
    simp only [isQuote_of_isPathByte (hkey b hb), Bool.not_false]
  rw [keyMatch, if_pos (by decide), List.takeWhile_append_of_pos hplain, List.dropWhile_append_of_pos hplain,
    List.takeWhile_cons_of_neg (by decide), List.dropWhile_cons_of_neg (by decide), List.append_nil]
  have harrow : arrowAhead (32 :: 61 :: 62 :: s) = true := by
    rw [arrowAhead, dropSpaces, List.dropWhile_cons_of_pos (by decide), List.dropWhile_cons_of_neg (by decide)]
    exact decide_eq_true (List.prefix_append [61, 62] s)
  simp only [harrow]
  rw [if_pos ⟨hne, trivial, trivial⟩, List.takeWhile_cons_of_pos (by decide), List.takeWhile_cons_of_neg (by decide)]
  rfl

theorem Entry.toText_eq (e : Entry) :
    e.toText = 39 :: (e.key ++ (39 :: 32 :: 61 :: 62 :: ([32] ++ (e.pieces.flatMap piece ++ e.tail)))) := by
  have harrow : lit "' => " = [39, 32, 61, 62, 32] := lit_ofList _
  rw [Entry.toText, harrow]
  rfl

/-- An entry has one match, at its beginning. -/
theorem keyOffsets_entry {e : Entry} (hne : e.key ≠ []) (hliterals : ∀ p ∈ e.pieces.tail, arrowAhead p.2 = false)
    (hpost : arrowAhead post = false) (hstring : stringAhead post = false) (offset : ℕ) :
    keyOffsets 0 offset (e.toText ++ post) = offset :: keyOffsets 0 (offset + e.toText.length) post := by
  have htail : ∀ b ∈ e.tail, isQuote b = false := fun b hb => isQuote_of_isCodeByte (e.tail_code b hb)
  have hspace : keyMatch (32 :: (e.pieces.flatMap piece ++ (e.tail ++ post))) = none := keyMatch_of_not_isQuote (by decide) _
  -- the match is the key with the arrow
  have hskip (s : Str) : keyOffsets (e.key.length + 4) (offset + 1) (e.key ++ (39 :: 32 :: 61 :: 62 :: s)) =
      keyOffsets 0 (offset + e.key.length + 5) s := by
    have h := keyOffsets_skip (e.key ++ [39, 32, 61, 62]) s (offset + 1)
    have hlen : (e.key ++ [39, 32, 61, 62]).length = e.key.length + 4 := List.length_append
    have hoffset : offset + 1 + (e.key.length + 4) = offset + e.key.length + 5 := by omega
    rwa [hlen, hoffset, List.append_assoc] at h
  have hlen : e.toText.length = e.key.length + 6 + (e.pieces.flatMap piece).length + e.tail.length := by
    rw [e.toText_eq]
    simp only [List.length_cons, List.length_append, List.length_nil]
    omega
  rw [hlen, e.toText_eq]
  simp only [List.append_assoc, List.cons_append]
  rw [keyOffsets, keyMatch_key hne e.key_path]
  dsimp only
  rw [Nat.add_sub_cancel (e.key.length + 4) 1, hskip, List.nil_append, keyOffsets_of_none hspace,
    keyOffsets_pieces e.literals e.code hliterals (arrowAhead_append (not_mem_of_isCodeByte e.tail_code) hpost)
      ((stringAhead_append htail post).trans hstring), keyOffsets_code htail]
  congr 2
  omega

/-- The offsets of keys around an entry. -/
theorem keyOffsets_around {e : Entry} (hkey : arrowAhead e.key = false) (hne : e.key ≠ [])
    (hliterals : ∀ p ∈ e.pieces.tail, arrowAhead p.2 = false) (hpost : arrowAhead post = false)
    (hstring : stringAhead post = false) (pre : Str) : keyOffsets 0 0 (pre ++ (e.toText ++ post)) =
      keyOffsets 0 0 pre ++ pre.length :: keyOffsets 0 (pre.length + e.toText.length) post := by
  rw [← keyOffsets_entry hne hliterals hpost hstring, Entry.toText]
  simp only [List.append_assoc, List.cons_append]
  have hquote : lit "' => " = 39 :: lit " => " := by decide
  have harrow (s : Str) : arrowAhead (e.key ++ (lit "' => " ++ s)) = false := by
    rw [hquote, List.cons_append, arrowAhead_append_quote (by decide), hkey]
  rw [keyOffsets_append (by decide) (harrow _) (Nat.zero_le _), Nat.zero_add]

/-! ## The search -/

section

variable {l r : List ℕ} {a n : ℕ}

/-- The last number up to `n` of a list. -/
theorem getLast?_takeWhile_le (hl : ∀ x ∈ l, x ≤ n) (ha : a ≤ n) (hr : ∀ x ∈ r, n < x) :
    ((l ++ a :: r).takeWhile fun x => x ≤ n).getLast? = some a := by
  rw [List.takeWhile_append_of_pos fun x hx => decide_eq_true (hl x hx), List.takeWhile_cons_of_pos (by simpa using ha)]
  have hnil : (r.takeWhile fun x => decide (x ≤ n)) = [] := by
    cases r with
    | nil => rfl
    | cons b r => exact List.takeWhile_cons_of_neg (by simpa using hr b List.mem_cons_self)
  rw [hnil, List.getLast?_append]
  rfl

/-- The first number above `a`. -/
theorem find?_lt (hl : ∀ x ∈ l, x ≤ a) (hr : ∀ x ∈ r, a < x) : (l ++ a :: r).find? (fun x => a < x) = r.head? := by
  have hnone : l.find? (fun x => decide (a < x)) = none := by
    refine List.find?_eq_none.mpr fun x hx => ?_
    have := hl x hx
    simpa using this
  rw [List.find?_append, hnone, Option.none_or, List.find?_cons_of_neg (by simp)]
  cases r with
  | nil => rfl
  | cons b r => exact List.find?_cons_of_pos (decide_eq_true (hr b List.mem_cons_self))

end

/-- An entry whose key and literals do not disturb the pattern. -/
structure Entry.Keyed (e : Entry) : Prop where
  nonempty : e.key ≠ []
  key : arrowAhead e.key = false
  literals : ∀ p ∈ e.pieces.tail, arrowAhead p.2 = false

section

variable {e : Entry} {content pre m : Str}

/-- The start of the entry, and of the next one. -/
theorem entryStart_eq (he : e.Keyed) (hpost : arrowAhead post = false) (hstring : stringAhead post = false)
    (hlt : k < e.toText.length) (hcontent : content = pre ++ (e.toText ++ post))
    (hnext : ∀ x ∈ keyOffsets 0 (pre.length + e.toText.length) post, pre.length + e.toText.length ≤ x) :
    ((keyOffsets 0 0 content).takeWhile fun x => x ≤ pre.length + k).getLast? = some pre.length ∧
      (keyOffsets 0 0 content).find? (fun x => pre.length < x) =
        (keyOffsets 0 (pre.length + e.toText.length) post).head? := by
  rw [hcontent, keyOffsets_around he.key he.nonempty he.literals hpost hstring]
  have hbefore : ∀ x ∈ keyOffsets 0 0 pre, x < pre.length := fun x hx => by
    have := mem_keyOffsets hx
    omega
  refine ⟨getLast?_takeWhile_le (fun x hx => ?_) (Nat.le_add_right _ _) fun x hx => ?_, find?_lt (fun x hx => ?_) fun x hx => ?_⟩
  · exact (Nat.le_of_lt (hbefore x hx)).trans (Nat.le_add_right _ _)
  · have := hnext x hx
    omega
  · exact Nat.le_of_lt (hbefore x hx)
  · have := hnext x hx
    omega

theorem drop_append_entry (hcontent : content = pre ++ (e.toText ++ post)) :
    content.drop (pre.length + e.toText.length) = post := by
  rw [hcontent, ← List.append_assoc, ← List.length_append, List.drop_left]

/-- An entry with a comma behind it. -/
theorem findEntryContaining_comma (he : e.Keyed) (hcontent : content = pre ++ (e.toText ++ 44 :: post))
    (hmarker : strpos m content = some (pre.length + k)) (hlength : k + m.length = e.toText.length) (hm : m ≠ [])
    (hend : lit ");" <:+: post) (hstring : stringAhead post = false) :
    findEntryContaining content m = some ⟨pre.length, e.toText ++ [44], e.toText ++ [44]⟩ := by
  have hbracket : lit ");" = [41, 59] := lit_ofList _
  have hcomma : lit "," = [44] := lit_ofList _
  have harrow : arrowAhead (44 :: post) = false := by
    rw [arrowAhead, dropSpaces, List.dropWhile_cons_of_neg (by decide)]
    simp [List.cons_prefix_cons]
  have hquote : ∀ b ∈ [(44 : UInt8)], isQuote b = false := by decide
  have hstring' : stringAhead (44 :: post) = false := (stringAhead_append hquote post).trans hstring
  -- matches, and the end of the array, are behind the comma
  have hnext : ∀ x ∈ keyOffsets 0 (pre.length + e.toText.length) (44 :: post), pre.length + e.toText.length + 1 ≤ x := by
    rw [keyOffsets_of_none (keyMatch_of_not_isQuote (by decide) _)]
    exact fun x hx => (mem_keyOffsets hx).1
  have hlt : k < e.toText.length := by
    have := List.length_pos_iff.mpr hm
    omega
  obtain ⟨hstart, hfind⟩ := entryStart_eq he harrow hstring' hlt hcontent fun x hx => Nat.le_of_succ_le (hnext x hx)
  obtain ⟨n, hn⟩ : ∃ n, strpos (lit ");") post = some n :=
    Option.ne_none_iff_exists'.mp fun hnone => strpos_eq_none_iff.mp hnone hend
  have hn' : strpos [41, 59] (44 :: post) = some (n + 1) := by
    rw [strpos_cons (by simp [List.cons_prefix_cons]), ← hbracket, hn]
    rfl
  have hcomma' : strpos [44] (44 :: post) = some 0 := strpos_of_begins (List.prefix_append [44] post)
  rw [findEntryContaining, hmarker]
  simp only [Option.bind_eq_bind, Option.bind_some, hstart, hfind, strposFrom, Nat.add_assoc, hlength,
    drop_append_entry hcontent, hbracket, hcomma, hn', hcomma', Option.map_some, Nat.zero_add]
  have hboundary : pre.length + e.toText.length <
      (keyOffsets 0 (pre.length + e.toText.length) (44 :: post)).head?.elim (n + (1 + (pre.length + e.toText.length)))
        fun next => min next (n + (1 + (pre.length + e.toText.length))) := by
    cases hx : (keyOffsets 0 (pre.length + e.toText.length) (44 :: post)).head? with
    | none =>
      rw [Option.elim_none]
      omega
    | some x =>
      have := hnext x (List.mem_of_mem_head? hx)
      rw [Option.elim_some]
      omega
  have htake : (content.drop pre.length).take (e.toText.length + 1) = e.toText ++ [44] := by
    rw [hcontent, List.drop_left, List.take_length_add_append]
    rfl
  rw [if_pos hboundary, Nat.add_sub_cancel_left, htake]

/-- The last entry without a comma. -/
theorem findEntryContaining_last {spaces footer : Str} (he : e.Keyed)
    (hcontent : content = pre ++ (e.toText ++ (spaces ++ 41 :: 59 :: footer))) (hspaces : ∀ b ∈ spaces, isWhitespace b = true)
    (hmarker : strpos m content = some (pre.length + k)) (hlength : k + m.length = e.toText.length) (hm : m ≠ [])
    (hlast : e.toText.getLast? = some 39) (hstring : stringAhead footer = false) :
    findEntryContaining content m = some ⟨pre.length, e.toText, e.toText ++ [44]⟩ := by
  have hbracket : lit ");" = [41, 59] := lit_ofList _
  have hcomma : lit "," = [44] := lit_ofList _
  have hcode : ∀ b ∈ spaces, isCodeByte b = true := fun b hb => isCodeByte_of_isWhitespace (hspaces b hb)
  have hquote : ∀ b ∈ spaces ++ [41, 59], isQuote b = false := by
    intro b hb
    rcases List.mem_append.mp hb with hb | hb
    · exact isQuote_of_isCodeByte (hcode b hb)
    · exact (by decide : ∀ b ∈ [(41 : UInt8), 59], isQuote b = false) b hb
  have hassoc : spaces ++ 41 :: 59 :: footer = spaces ++ [41, 59] ++ footer := by simp
  have harrow : arrowAhead (spaces ++ 41 :: 59 :: footer) = false := by
    refine arrowAhead_append (not_mem_of_isCodeByte hcode) ?_
    rw [arrowAhead, dropSpaces, List.dropWhile_cons_of_neg (by decide)]
    simp [List.cons_prefix_cons]
  have hstring' : stringAhead (spaces ++ 41 :: 59 :: footer) = false := by
    rw [hassoc, stringAhead_append hquote, hstring]
  have hnext : ∀ x ∈ keyOffsets 0 (pre.length + e.toText.length) (spaces ++ 41 :: 59 :: footer),
      pre.length + e.toText.length + (spaces.length + 2) ≤ x := by
    rw [hassoc, keyOffsets_code hquote, List.length_append]
    exact fun x hx => (mem_keyOffsets hx).1
  have hlt : k < e.toText.length := by
    have := List.length_pos_iff.mpr hm
    omega
  obtain ⟨hstart, hfind⟩ := entryStart_eq he harrow hstring' hlt hcontent fun x hx => (Nat.le_add_right _ _).trans (hnext x hx)
  have hmem (b : UInt8) (hb : isWhitespace b = false) : b ∉ spaces := fun hmem => by simp [hspaces b hmem] at hb
  have hend : strpos [41, 59] (spaces ++ 41 :: 59 :: footer) = some spaces.length := by
    have hbegin : strpos [41, 59] (41 :: 59 :: footer) = some 0 := strpos_of_begins (List.prefix_append [41, 59] footer)
    rw [strpos_append (hmem 41 (by decide)), hbegin, Option.map_some, Nat.zero_add]
  have hboundary : (keyOffsets 0 (pre.length + e.toText.length) (spaces ++ 41 :: 59 :: footer)).head?.elim
      (spaces.length + (pre.length + e.toText.length)) (fun next => min next (spaces.length + (pre.length + e.toText.length))) =
        spaces.length + (pre.length + e.toText.length) := by
    cases hx : (keyOffsets 0 (pre.length + e.toText.length) (spaces ++ 41 :: 59 :: footer)).head? with
    | none => rfl
    | some x =>
      have := hnext x (List.mem_of_mem_head? hx)
      rw [Option.elim_some]
      omega
  -- a comma is behind the array
  have hbehind (c : ℕ) (h : strpos [44] (spaces ++ 41 :: 59 :: footer) = some c) : spaces.length ≤ c := by
    rw [strpos_append (hmem 44 (by decide)), Option.map_eq_some_iff] at h
    obtain ⟨c', -, rfl⟩ := h
    omega
  have htext : rtrim ((content.drop pre.length).take (spaces.length + (pre.length + e.toText.length) - pre.length)) =
      e.toText := by
    have hlen : spaces.length + (pre.length + e.toText.length) - pre.length = e.toText.length + spaces.length := by omega
    rw [hcontent, List.drop_left, hlen, List.take_length_add_append, List.take_left]
    refine trimEnd_append (fun b hb => ?_) fun b hb => ?_
    · obtain rfl : 39 = b := Option.some.inj (hlast.symm.trans hb)
      decide
    · have hb := hspaces b hb
      simp only [isWhitespace, Bool.or_eq_true, decide_eq_true_eq] at hb
      rcases hb with ((rfl | rfl) | rfl) | rfl <;> decide
  rw [findEntryContaining, hmarker]
  simp only [Option.bind_eq_bind, Option.bind_some, hstart, hfind, strposFrom, Nat.add_assoc, hlength,
    drop_append_entry hcontent, hbracket, hcomma, hend, Option.map_some, hboundary, htext]
  cases hc : strpos [44] (spaces ++ 41 :: 59 :: footer) with
  | none => rfl
  | some c =>
    have := hbehind c hc
    simp only [Option.map_some]
    rw [if_neg (by omega)]

end

end OtelDistro.Build
