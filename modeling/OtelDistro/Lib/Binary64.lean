import Mathlib.Data.Int.Log
import Mathlib.Data.Rat.Floor
import Mathlib.Data.Nat.Factorization.Basic
import Mathlib.RingTheory.Coprime.Lemmas
import Mathlib.Algebra.Order.Field.Basic
import Mathlib.Tactic.Linarith
import Mathlib.Tactic.Positivity
import Mathlib.Tactic.Ring

/-!
# OtelDistro.Lib.Binary64 — rounding to 53 bits

The numbers of the format binary64 as rationals, and rounding to the nearest of them.

* `IsRepresentable`: an integer of 53 bits times a power of two from `2 ^ -1074` on; `Binary64` is bounded from above, too.
* `nearest`: to the nearest, ties to even, as if there were no largest number; `Binary64.ofRat?` is `none` beyond it.
* `nearest_representable`, `nearest_eq_self`: what is rounded is representable, and what is representable stays.
* `nearest_intCast`: integers are rounded to integers.
* `IsRepresentable.of_mul`: what is representable times an integer is representable.
-/

namespace OtelDistro.Lib

/-- `m * 2 ^ e` with 53 bits. -/
def IsRepresentable (x : ℚ) : Prop := ∃ m e : ℤ, |m| < 2 ^ 53 ∧ -1074 ≤ e ∧ x = m * 2 ^ e

/-- The nearest integer, ties to even. -/
def roundEven (x : ℚ) : ℤ :=
  if x - ⌊x⌋ < 1 / 2 ∨ (x - ⌊x⌋ = 1 / 2 ∧ ⌊x⌋ % 2 = 0) then ⌊x⌋ else ⌊x⌋ + 1

/-- The exponent of the last place of 53 bits. -/
def lastPlace (x : ℚ) : ℤ := max (-1074) (Int.log 2 |x| - 52)

/-- The nearest representable number, ties to even. -/
def nearest (x : ℚ) : ℚ := roundEven (x / 2 ^ lastPlace x) * 2 ^ lastPlace x

/-- A number that has a finite `binary64`; the sign of a zero is left out. -/
structure Binary64 where
  value : ℚ
  representable : IsRepresentable value
  bounded : |value| < 2 ^ 1024

section

variable {x : ℚ}

/-! ## Integers -/

theorem roundEven_intCast (n : ℤ) : roundEven n = n := by
  rw [roundEven, if_pos]
  · exact Int.floor_intCast n
  · left
    rw [Int.floor_intCast, sub_self]
    norm_num

theorem abs_roundEven_le {n : ℤ} (h : |x| < n) : |roundEven x| ≤ n := by
  obtain ⟨hlow, hhigh⟩ := abs_lt.mp h
  have hfloor : -n ≤ ⌊x⌋ := Int.le_floor.mpr (by push_cast; exact hlow.le)
  have hlt : ⌊x⌋ < n := Int.floor_lt.mpr hhigh
  rw [abs_le, roundEven]
  split <;> omega

/-! ## What is rounded is representable -/

theorem two_zpow_pos (e : ℤ) : (0 : ℚ) < 2 ^ e := zpow_pos (by norm_num) e

theorem abs_div_lastPlace_lt (x : ℚ) : |x / 2 ^ lastPlace x| < (2 ^ 53 : ℤ) := by
  have hlog := Int.lt_zpow_succ_log_self (b := 2) one_lt_two |x|
  rw [abs_div, abs_of_pos (two_zpow_pos _), div_lt_iff₀ (two_zpow_pos _)]
  push_cast at hlog ⊢
  calc |x| < 2 ^ (Int.log 2 |x| + 1) := hlog
    _ ≤ 2 ^ ((53 : ℕ) + lastPlace x) := zpow_le_zpow_right₀ (by norm_num) (by unfold lastPlace; omega)
    _ = 2 ^ 53 * 2 ^ lastPlace x := by rw [zpow_add₀ (by norm_num), zpow_natCast]

theorem nearest_representable (x : ℚ) : IsRepresentable (nearest x) := by
  have hle := abs_roundEven_le (abs_div_lastPlace_lt x)
  have hlow : -1074 ≤ lastPlace x := le_max_left _ _
  unfold nearest
  generalize roundEven (x / 2 ^ lastPlace x) = m at hle ⊢
  generalize lastPlace x = e at hlow ⊢
  rcases lt_or_eq_of_le hle with hlt | heq
  · exact ⟨m, e, hlt, hlow, rfl⟩
  · -- a carry into the bit above: one place higher
    refine ⟨m / 2, e + 1, ?_, by omega, ?_⟩
    · rw [abs_lt]
      rcases abs_eq (by norm_num) |>.mp heq with rfl | rfl <;> norm_num
    · have htwo : m = 2 * (m / 2) := by rcases abs_eq (by norm_num) |>.mp heq with rfl | rfl <;> norm_num
      rw [zpow_add_one₀ (by norm_num), mul_comm _ (2 : ℚ), ← mul_assoc]
      congr 1
      conv_lhs => rw [htwo]
      push_cast
      ring

/-- Rounding with a largest number. -/
def Binary64.ofRat? (x : ℚ) : Option Binary64 :=
  if h : |nearest x| < 2 ^ 1024 then some ⟨nearest x, nearest_representable x, h⟩ else none

theorem Binary64.ofRat?_eq_none_iff : ofRat? x = none ↔ 2 ^ 1024 ≤ |nearest x| := by
  unfold ofRat?
  split <;> simp_all

theorem Binary64.ofRat?_eq_some_iff {d : Binary64} : ofRat? x = some d ↔ d.value = nearest x := by
  obtain ⟨value, representable, bounded⟩ := d
  unfold ofRat?
  split
  · simp [eq_comm]
  · next h => exact iff_of_false nofun fun heq => h (heq ▸ bounded)

/-! ## What is representable stays -/

/-- A multiple of the last place is left alone. -/
theorem nearest_of_multiple {n e : ℤ} (he : lastPlace x ≤ e) (hx : x = n * 2 ^ e) : nearest x = x := by
  have hint : x / 2 ^ lastPlace x = (n * 2 ^ (e - lastPlace x).toNat : ℤ) := by
    rw [div_eq_iff (two_zpow_pos _).ne']
    conv_lhs => rw [hx]
    push_cast
    rw [mul_assoc, ← zpow_natCast, ← zpow_add₀ (by norm_num)]
    congr 2
    omega
  rw [nearest, hint, roundEven_intCast, ← hint, div_mul_cancel₀ _ (two_zpow_pos _).ne']

theorem nearest_eq_self (h : IsRepresentable x) : nearest x = x := by
  obtain ⟨m, e, hm, he, hx⟩ := h
  by_cases hzero : x = 0
  · rw [nearest, hzero, zero_div, ← Int.cast_zero, roundEven_intCast, Int.cast_zero, zero_mul]
  · refine nearest_of_multiple ?_ hx
    have hpos : 0 < |x| := abs_pos.mpr hzero
    have hlt : |x| < ((2 : ℕ) : ℚ) ^ (53 + e) := by
      have hcast : |(m : ℚ)| < 2 ^ 53 := by exact_mod_cast hm
      rw [hx, abs_mul, abs_of_pos (two_zpow_pos e), Nat.cast_ofNat, zpow_add₀ (by norm_num)]
      exact mul_lt_mul_of_pos_right hcast (two_zpow_pos e)
    have hlog := (Int.lt_zpow_iff_log_lt one_lt_two hpos).mp hlt
    unfold lastPlace
    omega

theorem nearest_eq_self_iff : nearest x = x ↔ IsRepresentable x :=
  ⟨fun h => h ▸ nearest_representable x, nearest_eq_self⟩

/-- Integers are rounded to integers. -/
theorem nearest_intCast (n : ℤ) : ∃ k : ℤ, nearest n = k := by
  by_cases h : lastPlace n ≤ 0
  · exact ⟨n, nearest_of_multiple h (by rw [zpow_zero, mul_one])⟩
  · obtain ⟨e, he⟩ := Int.eq_ofNat_of_zero_le (not_le.mp h).le
    refine ⟨roundEven (n / 2 ^ lastPlace n) * 2 ^ e, ?_⟩
    rw [nearest, he]
    push_cast
    rw [zpow_natCast]

/-! ## Factors -/

theorem IsRepresentable.of_mul {n f : ℕ} (hf : f ≠ 0) (h : IsRepresentable (n * f)) : IsRepresentable n := by
  by_cases hn : n = 0
  · exact ⟨0, 0, by norm_num, by norm_num, by rw [hn]; norm_num⟩
  obtain ⟨k, o, hodd, rfl⟩ := Nat.exists_eq_two_pow_mul_odd hn
  obtain ⟨m, e, hm, -, hx⟩ := h
  -- the odd part divides the integer of 53 bits
  have hdvd : (o : ℤ) ∣ m := by
    rcases le_or_gt 0 e with he | he
    · obtain ⟨j, rfl⟩ := Int.eq_ofNat_of_zero_le he
      rw [zpow_natCast] at hx
      have hint : (2 ^ k * o * f : ℤ) = m * 2 ^ j := by exact_mod_cast hx
      have hcoprime : IsCoprime (o : ℤ) (2 ^ j) := by
        have := (Nat.coprime_two_right.mpr hodd).pow_right j
        exact_mod_cast Nat.isCoprime_iff_coprime.mpr this
      exact hcoprime.dvd_of_dvd_mul_right ⟨2 ^ k * f, by rw [← hint]; ring⟩
    · obtain ⟨j, rfl⟩ : ∃ j : ℕ, e = -j := ⟨(-e).toNat, by omega⟩
      rw [zpow_neg, zpow_natCast, ← div_eq_mul_inv, eq_div_iff (by positivity)] at hx
      have hint : (2 ^ k * o * f * 2 ^ j : ℤ) = m := by exact_mod_cast hx
      exact ⟨2 ^ k * f * 2 ^ j, by rw [← hint]; ring⟩
  have hne : m ≠ 0 := by
    rintro rfl
    rw [Int.cast_zero, zero_mul, mul_eq_zero] at hx
    rcases hx with hx | hx
    · exact hn (by exact_mod_cast hx)
    · exact hf (by exact_mod_cast hx)
  have hle := Int.le_of_dvd (abs_pos.mpr hne) ((dvd_abs _ _).mpr hdvd)
  refine ⟨o, k, ?_, by omega, by push_cast; rw [zpow_natCast]; ring⟩
  rw [Nat.abs_cast]
  exact hle.trans_lt hm

end

end OtelDistro.Lib
