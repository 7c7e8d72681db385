import Mathlib

/-!
# Decimal arithmetic to a number of significant digits

Rounding half to even, to an integer or to a number of significant digits, over the
nonnegative rationals. A decimal context of `p` digits computes exactly as long as what it
computes stays below a power of ten and on the grid that `p` digits reach below it.

## Key results

- `le_halfEven` / `halfEven_le`: an integer on one side of a number stays on that side
- `toDigits_eq_self`: what has few enough digits is not rounded
- `le_toDigits`: nothing is rounded below a power of ten that it has reached
-/

namespace Rounding

/-- The nearest integer; of two, the even one. -/
def halfEven (x : ℚ) : ℤ :=
  let below := ⌊x⌋
  let rest := x - below
  if rest < 1 / 2 then below
  else if 1 / 2 < rest then below + 1
  else if below % 2 = 0 then below
  else below + 1

/-- Rounding to even does not go below the floor. -/
theorem floor_le_halfEven (x : ℚ) : ⌊x⌋ ≤ halfEven x := by
  unfold halfEven
  dsimp only
  split
  · exact le_refl _
  · split
    · omega
    · split <;> omega

/-- Nor does it go above the ceiling. -/
theorem halfEven_le_ceil (x : ℚ) : halfEven x ≤ ⌈x⌉ := by
  -- with nothing behind the point nothing is rounded up
  have hround : ¬ x - ⌊x⌋ < 1 / 2 → ⌊x⌋ + 1 ≤ ⌈x⌉ := by
    intro hrest
    rw [Int.add_one_le_iff, Int.lt_ceil]
    push Not at hrest
    linarith
  have hfloor := Int.floor_le_ceil x
  unfold halfEven
  dsimp only
  split
  · exact hfloor
  · rename_i hrest
    split
    · exact hround hrest
    · split
      · exact hfloor
      · exact hround hrest

/-- It is monotone against the integers, from below. -/
theorem le_halfEven {x : ℚ} {n : ℤ} (h : (n : ℚ) ≤ x) : n ≤ halfEven x :=
  (Int.le_floor.mpr h).trans (floor_le_halfEven x)

/-- And from above. -/
theorem halfEven_le {x : ℚ} {n : ℤ} (h : x ≤ n) : halfEven x ≤ n :=
  (halfEven_le_ceil x).trans (Int.ceil_le.mpr h)

@[simp] theorem halfEven_intCast (n : ℤ) : halfEven n = n :=
  le_antisymm (halfEven_le (le_refl _)) (le_halfEven (le_refl _))

@[simp] theorem halfEven_natCast (n : ℕ) : halfEven n = n := halfEven_intCast n

/-- The weight of the last of `p` significant digits of a number. -/
def unit (p : ℕ) (x : ℚ) : ℚ := 10 ^ (Int.log 10 x + 1 - p)

/-- A number to `p` significant digits. -/
def toDigits (p : ℕ) (x : ℚ) : ℚ := halfEven (x / unit p x) * unit p x

variable {p : ℕ} {x : ℚ}

/-- The unit is positive. -/
theorem unit_pos (p : ℕ) (x : ℚ) : 0 < unit p x := by
  unfold unit
  positivity

@[simp] theorem toDigits_zero (p : ℕ) : toDigits p 0 = 0 := by
  have hzero : halfEven 0 = 0 := halfEven_natCast 0
  rw [toDigits, zero_div, hzero, Int.cast_zero, zero_mul]

/-- What is not negative does not become negative. -/
theorem toDigits_nonneg (p : ℕ) (hx : 0 ≤ x) : 0 ≤ toDigits p x := by
  have hcast : ((0 : ℤ) : ℚ) ≤ x / unit p x := by
    rw [Int.cast_zero]
    exact div_nonneg hx (unit_pos p x).le
  have hcoeff : (0 : ℚ) ≤ halfEven (x / unit p x) := by exact_mod_cast le_halfEven hcast
  exact mul_nonneg hcoeff (unit_pos p x).le

/-- A multiple of a power of ten, fewer than `10 ^ p` times it, is not rounded. -/
theorem toDigits_eq_self {n : ℕ} {k : ℤ} (h : n < 10 ^ p) :
    toDigits p ((n : ℚ) * 10 ^ k) = n * 10 ^ k := by
  rcases Nat.eq_zero_or_pos n with rfl | hn
  · simp
  · have hpos : (0 : ℚ) < n * 10 ^ k := by positivity
    -- the number is below the power of ten that its digits reach
    have hlog : Int.log 10 ((n : ℚ) * 10 ^ k) < p + k := by
      rw [← Int.lt_zpow_iff_log_lt (by norm_num) hpos]
      have hlt : (n : ℚ) < 10 ^ p := by exact_mod_cast h
      rw [Nat.cast_ofNat, zpow_add₀ (by norm_num), zpow_natCast]
      exact mul_lt_mul_of_pos_right hlt (by positivity)
    -- so its last digit weighs a whole number of times what the last of `p` weighs
    obtain ⟨m, hm⟩ := Int.eq_ofNat_of_zero_le
      (show 0 ≤ k - (Int.log 10 ((n : ℚ) * 10 ^ k) + 1 - p) by omega)
    have hwhole : (n : ℚ) * 10 ^ k / unit p ((n : ℚ) * 10 ^ k) = ((n * 10 ^ m : ℕ) : ℚ) := by
      have hten : (10 : ℚ) ^ (m : ℤ) = 10 ^ m := zpow_natCast 10 m
      rw [unit, mul_div_assoc, ← zpow_sub₀ (by norm_num), hm, hten]
      push_cast
      ring
    rw [toDigits, hwhole, halfEven_natCast, Int.cast_natCast, ← hwhole]
    exact div_mul_cancel₀ _ (unit_pos p _).ne'

/-- A number at or above a power of ten is not rounded below it. -/
theorem le_toDigits {k : ℤ} (hp : 0 < p) (h : (10 : ℚ) ^ k ≤ x) : 10 ^ k ≤ toDigits p x := by
  have hx : 0 < x := lt_of_lt_of_le (by positivity) h
  have hlog : k ≤ Int.log 10 x := by
    rw [← Int.zpow_le_iff_le_log (by norm_num) hx]
    exact_mod_cast h
  -- the leading digit is not lost
  have hlead : ((10 ^ (p - 1) : ℕ) : ℤ) ≤ halfEven (x / unit p x) := by
    refine le_halfEven ?_
    have hself : (10 : ℚ) ^ Int.log 10 x ≤ x := by
      have hle := Int.zpow_log_le_self (b := 10) (by norm_num) hx
      exact_mod_cast hle
    rw [le_div_iff₀ (unit_pos p x)]
    refine le_trans (le_of_eq ?_) hself
    have hexp : ((p - 1 : ℕ) : ℤ) + (Int.log 10 x + 1 - p) = Int.log 10 x := by omega
    push_cast
    rw [unit, ← zpow_natCast, ← zpow_add₀ (by norm_num), hexp]
  have hmul : ((10 ^ (p - 1) : ℕ) : ℚ) * unit p x ≤ toDigits p x := by
    refine mul_le_mul_of_nonneg_right ?_ (unit_pos p x).le
    exact_mod_cast hlead
  refine le_trans ?_ hmul
  have hexp : ((p - 1 : ℕ) : ℤ) + (Int.log 10 x + 1 - p) = Int.log 10 x := by omega
  push_cast
  rw [unit, ← zpow_natCast, ← zpow_add₀ (by norm_num), hexp]
  exact zpow_le_zpow_right₀ (by norm_num) hlog

/-- A number that rounds to less than a power of ten is less than it. -/
theorem lt_of_toDigits_lt {k : ℤ} (hp : 0 < p) (h : toDigits p x < 10 ^ k) : x < 10 ^ k := by
  by_contra hge
  push Not at hge
  exact absurd (le_toDigits hp hge) (not_le.mpr h)

end Rounding
