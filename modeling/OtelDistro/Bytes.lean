import Mathlib.Data.UInt
import Mathlib.Data.List.TakeWhile
import Mathlib.Tactic.Common

/-!
# OtelDistro.Bytes — byte strings of the native and PHP parts

`std::string`, `zend_string` and PHP strings are byte strings (`Str`).  `cStr` is what a reader of `c_str()` sees,
`toLower` the C-locale `tolower` of `std::tolower`, `stripos` and `strcasecmp`.  `ByteVec` is a byte vector or
string with the size bound every C++ container has (`max_size()` is below `2^63`), so that its `size()` is exact.
-/

namespace OtelDistro

/-- A byte string. -/
abbrev Str := List UInt8

/-- The bytes of an ASCII literal. -/
def lit (s : String) : Str := s.toList.map (fun c => c.toNat.toUInt8)

/-- A literal by its characters.  `have h : lit "..." = _ := lit_ofList _` spells it out for the kernel. -/
theorem lit_ofList (l : List Char) : lit (String.ofList l) = l.map fun c => c.toNat.toUInt8 := by
  rw [lit, String.toList_ofList]

/-- Bytes of a text are tried one by one; the 256 bytes there are are not. -/
instance (priority := high) decidableForallMem (s : Str) (p : UInt8 → Prop) [DecidablePred p] : Decidable (∀ b ∈ s, p b) :=
  List.decidableBAll p s

instance (priority := high) decidableForallMemOption (o : Option UInt8) (p : UInt8 → Prop) [DecidablePred p] :
    Decidable (∀ b ∈ o, p b) :=
  Option.decidableForallMem o

/-- The text seen through `c_str()`: everything before the first NUL byte. -/
def cStr (s : Str) : Str := s.takeWhile (fun b => b ≠ 0)

/-- `s` has no NUL byte. -/
def NulFree (s : Str) : Prop := (0 : UInt8) ∉ s

instance (s : Str) : Decidable (NulFree s) := inferInstanceAs (Decidable ((0 : UInt8) ∉ s))

theorem cStr_eq_self_iff {s : Str} : cStr s = s ↔ NulFree s := by
  rw [cStr, List.takeWhile_eq_self_iff, NulFree]
  exact ⟨fun h h0 => by simpa using h 0 h0, fun h b hb => by simpa using fun e : b = 0 => h (e ▸ hb)⟩

/-- `tolower` in the C locale. -/
def toLower (c : UInt8) : UInt8 := if 65 ≤ c ∧ c ≤ 90 then c + 32 else c

theorem toLower_idem (c : UInt8) : toLower (toLower c) = toLower c := by
  unfold toLower
  by_cases h : 65 ≤ c ∧ c ≤ 90
  · rw [if_pos h, if_neg]
    rintro ⟨-, h2⟩
    obtain ⟨h3, h4⟩ := h
    rw [UInt8.le_iff_toNat_le] at h2 h3 h4
    rw [UInt8.toNat_add] at h2
    simp at h2 h3 h4
    omega
  · rw [if_neg h, if_neg h]

/-- A byte container: its size is below `max_size()`. -/
structure ByteVec where
  bytes : Str
  fits : bytes.length < 2 ^ 63

namespace ByteVec

/-- `size()`. -/
def size (v : ByteVec) : UInt64 := UInt64.ofNat v.bytes.length

@[simp] theorem size_toNat (v : ByteVec) : v.size.toNat = v.bytes.length := by
  have := v.fits
  rw [size, UInt64.toNat_ofNat']
  omega

end ByteVec

end OtelDistro
