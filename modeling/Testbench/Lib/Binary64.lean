import Mathlib

/-!
Rounding to binary64.

`toBinary64` is the value a floating point operation returns for an exact result that does
not overflow: nearest, ties to even, with the exponent bounded below. `roundDigits` is
`round` to decimal digits. Rounding does not leave an interval between zero and a natural
number that is a binary64 value itself (`toBinary64_le_natCast`).
-/

namespace Testbench.Lib

/-- The nearest integer, ties to even. -/
def roundHalfEven (x : ℚ) : ℤ :=
  if x - ⌊x⌋ < 1 / 2 then ⌊x⌋
  else if 1 / 2 < x - ⌊x⌋ then ⌊x⌋ + 1
  else ⌊x⌋ + ⌊x⌋ % 2

/-- The exponent of the unit in the last place. -/
def ulpExponent (x : ℚ) : ℤ := max (Int.log 2 |x| - 52) (-1074)

/-- The binary64 value nearest to a rational number. -/
def toBinary64 (x : ℚ) : ℚ :=
  roundHalfEven (x / 2 ^ ulpExponent x) * 2 ^ ulpExponent x

/-- `round(x, n)` of a binary64 value: the nearest decimal, as a binary64 value. -/
def roundDigits (x : ℚ) (n : Nat) : ℚ := toBinary64 (roundHalfEven (x * 10 ^ n) / 10 ^ n)

/-! ### Integers -/

theorem roundHalfEven_nonneg {x : ℚ} (h : 0 ≤ x) : 0 ≤ roundHalfEven x := by
  have hfloor : 0 ≤ ⌊x⌋ := Int.floor_nonneg.mpr h
  unfold roundHalfEven
  split
  · exact hfloor
  · split
    · omega
    · have hmod : 0 ≤ ⌊x⌋ % 2 := Int.emod_nonneg _ (by decide)
      omega

/-- Rounding does not pass an integer. -/
theorem roundHalfEven_le {x : ℚ} {k : ℤ} (h : x ≤ k) : roundHalfEven x ≤ k := by
  rcases eq_or_lt_of_le h with rfl | hlt
  · simp [roundHalfEven]
  · have hfloor : ⌊x⌋ < k := Int.floor_lt.mpr hlt
    have hmod : ⌊x⌋ % 2 < 2 := Int.emod_lt_of_pos _ (by decide)
    unfold roundHalfEven
    split
    · exact hfloor.le
    · split <;> omega

/-! ### Binary64 values -/

theorem toBinary64_nonneg {x : ℚ} (h : 0 ≤ x) : 0 ≤ toBinary64 x := by
  unfold toBinary64
  have hround : 0 ≤ roundHalfEven (x / 2 ^ ulpExponent x) :=
    roundHalfEven_nonneg (div_nonneg h (by positivity))
  have hcast : (0 : ℚ) ≤ roundHalfEven (x / 2 ^ ulpExponent x) := by exact_mod_cast hround
  exact mul_nonneg hcast (by positivity)

/-- Below 2^53 the unit in the last place is at most one. -/
theorem ulpExponent_nonpos {x : ℚ} (h : 0 ≤ x) (hlt : x < 2 ^ 53) : ulpExponent x ≤ 0 := by
  unfold ulpExponent
  rw [abs_of_nonneg h]
  have hlog : Int.log 2 x < 53 := by
    rcases eq_or_lt_of_le h with rfl | hpos
    · rw [Int.log_zero_right]
      decide
    · rw [← Int.lt_zpow_iff_log_lt Nat.one_lt_two hpos]
      exact_mod_cast hlt
  omega

/-- **Rounding does not pass a natural number below 2^53.** -/
theorem toBinary64_le_natCast {x : ℚ} {m : Nat} (h : 0 ≤ x) (hle : x ≤ m) (hm : m < 2 ^ 53) :
    toBinary64 x ≤ m := by
  have hexp : ulpExponent x ≤ 0 := by
    apply ulpExponent_nonpos h
    calc x ≤ m := hle
      _ < 2 ^ 53 := by exact_mod_cast hm
  obtain ⟨k, hk⟩ : ∃ k : Nat, ulpExponent x = -k := ⟨(-ulpExponent x).toNat, by omega⟩
  have hpow : (2 : ℚ) ^ ulpExponent x = (2 ^ k)⁻¹ := by rw [hk, zpow_neg, zpow_natCast]
  have hround : roundHalfEven (x / 2 ^ ulpExponent x) ≤ (m * 2 ^ k : ℤ) := by
    apply roundHalfEven_le
    rw [hpow, div_inv_eq_mul]
    push_cast
    gcongr
  have hcast : (roundHalfEven (x / 2 ^ ulpExponent x) : ℚ) ≤ m * 2 ^ k := by exact_mod_cast hround
  unfold toBinary64
  calc (roundHalfEven (x / 2 ^ ulpExponent x) : ℚ) * 2 ^ ulpExponent x
      ≤ m * 2 ^ k * 2 ^ ulpExponent x := by gcongr
    _ = m := by rw [hpow, mul_inv_cancel_right₀ (by positivity)]

/-- Nor does rounding to decimal digits. -/
theorem roundDigits_nonneg {x : ℚ} (h : 0 ≤ x) (n : Nat) : 0 ≤ roundDigits x n := by
  apply toBinary64_nonneg
  have hround : 0 ≤ roundHalfEven (x * 10 ^ n) := roundHalfEven_nonneg (by positivity)
  have hcast : (0 : ℚ) ≤ roundHalfEven (x * 10 ^ n) := by exact_mod_cast hround
  positivity

theorem roundDigits_le_natCast {x : ℚ} {m : Nat} (h : 0 ≤ x) (hle : x ≤ m) (hm : m < 2 ^ 53)
    (n : Nat) : roundDigits x n ≤ m := by
  have hround : roundHalfEven (x * 10 ^ n) ≤ (m * 10 ^ n : ℤ) := by
    apply roundHalfEven_le
    push_cast
    gcongr
  have hcast : (roundHalfEven (x * 10 ^ n) : ℚ) ≤ m * 10 ^ n := by exact_mod_cast hround
  have hnonneg : (0 : ℚ) ≤ roundHalfEven (x * 10 ^ n) := by
    exact_mod_cast roundHalfEven_nonneg (by positivity)
  apply toBinary64_le_natCast (by positivity) _ hm
  rw [div_le_iff₀ (by positivity)]
  exact hcast

end Testbench.Lib
