import Mathlib

/-!
# Decimal notation

Unsigned numerals, with a point or without: the characters they are written with, the number
they stand for, and that number in units of a power of ten below one, as amounts of money are
counted. Reading and writing are inverse to each other, and a count of units that is written
with a fixed number of places reads back to itself.

Nothing here is about a particular program.
-/

namespace Decimals

/-! ## Rows of digits -/

/-- The number a row of digits stands for. -/
def number (digits : List Char) : Nat := Nat.ofDigitChars 10 digits 0

@[simp] theorem number_nil : number [] = 0 := rfl

@[simp] theorem number_toDigits (n : Nat) : number (Nat.toDigits 10 n) = n :=
  Nat.ofDigitChars_ten_toDigits

/-- Digits that follow shift the number before them by their count. -/
theorem number_append (a b : List Char) :
    number (a ++ b) = number a * 10 ^ b.length + number b := by
  unfold number
  rw [Nat.ofDigitChars_append, Nat.ofDigitChars_eq_ofDigitChars_zero, Nat.mul_comm]

/-- The last `k` digits of a number, with zeros in front where it has fewer. -/
def lastDigits : Nat → Nat → List Char
  | 0, _ => []
  | k + 1, n => lastDigits k (n / 10) ++ [Nat.digitChar (n % 10)]

@[simp] theorem length_lastDigits (k n : Nat) : (lastDigits k n).length = k := by
  induction k generalizing n with
  | zero => rfl
  | succ k ih => simp [lastDigits, ih]

/-- The last digits are digits. -/
theorem isDigit_lastDigits {k n : Nat} {c : Char} (h : c ∈ lastDigits k n) :
    c.isDigit = true := by
  induction k generalizing n with
  | zero => cases h
  | succ k ih =>
    rw [lastDigits, List.mem_append, List.mem_singleton] at h
    rcases h with h | rfl
    · exact ih h
    · have hlast : Nat.digitChar (n % 10) ∈ Nat.toDigits 10 (n % 10) := by
        rw [Nat.toDigits_of_lt_base (Nat.mod_lt n (by decide))]
        exact List.mem_singleton_self _
      exact Nat.isDigit_of_mem_toDigits (by decide) (by decide) hlast

/-- They are the digits of the remainder. -/
theorem number_lastDigits (k n : Nat) : number (lastDigits k n) = n % 10 ^ k := by
  induction k generalizing n with
  | zero => rw [lastDigits, number_nil, pow_zero, Nat.mod_one]
  | succ k ih =>
    have hlast : number [Nat.digitChar (n % 10)] = n % 10 := by
      rw [← Nat.toDigits_of_lt_base (Nat.mod_lt n (by decide)), number_toDigits]
    rw [lastDigits, number_append, ih, hlast, List.length_singleton, pow_one, pow_succ',
      Nat.mod_mul, Nat.mul_comm, Nat.add_comm]

/-- A number that has more than `k` digits is written as its front and its last `k` digits. -/
theorem toDigits_eq_append {k n : Nat} (h : 10 ^ k ≤ n) :
    Nat.toDigits 10 n = Nat.toDigits 10 (n / 10 ^ k) ++ lastDigits k n := by
  induction k generalizing n with
  | zero => rw [pow_zero, Nat.div_one, lastDigits, List.append_nil]
  | succ k ih =>
    have hten : 10 ≤ n := (Nat.le_self_pow (Nat.succ_ne_zero k) 10).trans h
    have hfront : 10 ^ k ≤ n / 10 := by
      rw [Nat.le_div_iff_mul_le (by decide), ← pow_succ]
      exact h
    rw [Nat.toDigits_of_base_le (by decide) hten, ih hfront, lastDigits, List.append_assoc,
      Nat.div_div_eq_div_mul, ← pow_succ']

/-- The last digits of zero are zeros. -/
theorem lastDigits_zero (k : Nat) : lastDigits k 0 = List.replicate k '0' := by
  induction k with
  | zero => rfl
  | succ k ih =>
    rw [lastDigits, Nat.zero_div, ih, List.replicate_succ']
    rfl

/-- One that has no more gets zeros in front. -/
theorem lastDigits_eq_append {k n : Nat} (hk : 0 < k) (h : n < 10 ^ k) :
    lastDigits k n =
      List.replicate (k - (Nat.toDigits 10 n).length) '0' ++ Nat.toDigits 10 n := by
  induction k generalizing n with
  | zero => exact absurd hk (Nat.lt_irrefl 0)
  | succ k ih =>
    rw [lastDigits]
    by_cases hten : n < 10
    · -- one digit: what stands before it are zeros
      rw [Nat.toDigits_of_lt_base hten, Nat.div_eq_of_lt hten, Nat.mod_eq_of_lt hten,
        lastDigits_zero]
      rfl
    · have hten : 10 ≤ n := Nat.le_of_not_lt hten
      -- otherwise the digits before the last, by induction
      have hfront : n / 10 < 10 ^ k := by
        rw [Nat.div_lt_iff_lt_mul (by decide), ← pow_succ]
        exact h
      have hpos : 0 < k := by
        rcases Nat.eq_zero_or_pos k with rfl | hpos
        · omega
        · exact hpos
      rw [Nat.toDigits_of_base_le (by decide) hten, ih hpos hfront, List.length_append,
        List.length_singleton, Nat.add_sub_add_right, List.append_assoc]

/-! ## Numerals -/

/-- An unsigned numeral: its digits before the point and behind it. -/
@[ext] structure Numeral where
  whole : List Char
  fraction : List Char
  whole_ne_nil : whole ≠ []
  isDigit_whole : ∀ c ∈ whole, c.isDigit = true
  isDigit_fraction : ∀ c ∈ fraction, c.isDigit = true

namespace Numeral

/-- How it is written: with no digits behind it there is no point. -/
def text (x : Numeral) : List Char :=
  if x.fraction = [] then x.whole else x.whole ++ '.' :: x.fraction

/-- A numeral is written with digits and the point. -/
theorem mem_text {x : Numeral} {c : Char} (h : c ∈ x.text) : c.isDigit = true ∨ c = '.' := by
  unfold text at h
  split at h
  · exact .inl (x.isDigit_whole c h)
  · rw [List.mem_append, List.mem_cons] at h
    rcases h with h | h | h
    · exact .inl (x.isDigit_whole c h)
    · exact .inr h
    · exact .inl (x.isDigit_fraction c h)

/-- What it stands for. -/
def value (x : Numeral) : ℚ := number (x.whole ++ x.fraction) / 10 ^ x.fraction.length

/-- The same in units, of which one has `10 ^ places`. A numeral with more places than that
    stands for no whole number of them, unless the rest are zeros. -/
def units (places : Nat) (x : Numeral) : Nat :=
  number (x.whole ++ x.fraction) * 10 ^ (places - x.fraction.length)

/-- With places enough for the fraction, nothing is lost in counting units. -/
theorem units_eq_value {places : Nat} {x : Numeral} (h : x.fraction.length ≤ places) :
    (x.units places : ℚ) = x.value * 10 ^ places := by
  have hpow : (10 : ℚ) ^ places =
      10 ^ (places - x.fraction.length) * 10 ^ x.fraction.length := by
    rw [← pow_add, Nat.sub_add_cancel h]
  rw [units, value, hpow, Nat.cast_mul, Nat.cast_pow, Nat.cast_ofNat]
  field_simp

/-- A whole number. -/
def ofNat (n : Nat) : Numeral where
  whole := Nat.toDigits 10 n
  fraction := []
  whole_ne_nil := Nat.toDigits_ne_nil
  isDigit_whole _ h := Nat.isDigit_of_mem_toDigits (by decide) (by decide) h
  isDigit_fraction _ h := by cases h

@[simp] theorem text_ofNat (n : Nat) : (ofNat n).text = Nat.toDigits 10 n := rfl

@[simp] theorem value_ofNat (n : Nat) : (ofNat n).value = n := by
  simp [value, ofNat]

/-- `n` units, written with all `places`. -/
def fixed (places n : Nat) : Numeral where
  whole := Nat.toDigits 10 (n / 10 ^ places)
  fraction := lastDigits places n
  whole_ne_nil := Nat.toDigits_ne_nil
  isDigit_whole _ h := Nat.isDigit_of_mem_toDigits (by decide) (by decide) h
  isDigit_fraction _ h := isDigit_lastDigits h

theorem whole_fixed (places n : Nat) :
    (fixed places n).whole = Nat.toDigits 10 (n / 10 ^ places) := rfl

theorem fraction_fixed (places n : Nat) : (fixed places n).fraction = lastDigits places n := rfl

@[simp] theorem length_fraction_fixed (places n : Nat) :
    (fixed places n).fraction.length = places := length_lastDigits places n

/-- A count of units, written with the point, is read back. -/
theorem units_fixed (places n : Nat) : (fixed places n).units places = n := by
  rw [units, length_fraction_fixed, Nat.sub_self, pow_zero, Nat.mul_one, number_append]
  simp only [fixed, number_toDigits, length_lastDigits, number_lastDigits]
  rw [Nat.mul_comm]
  exact Nat.div_add_mod n (10 ^ places)

end Numeral

/-! ## Reading -/

/-- Reads a numeral: one digit or more and, if there is a point, one or more behind it; and
    nothing else. -/
def parse (text : List Char) : Option Numeral :=
  let whole := text.takeWhile Char.isDigit
  let rest := text.dropWhile Char.isDigit
  if h : whole ≠ [] ∧ (rest = [] ∨ (rest.head? = some '.' ∧ rest.tail ≠ [])) ∧
      rest.tail.all Char.isDigit = true then
    some
      { whole
        fraction := rest.tail
        whole_ne_nil := h.1
        isDigit_whole := fun _ => List.mem_takeWhile_imp
        isDigit_fraction := List.all_eq_true.mp h.2.2 }
  else none

/-- The whole part is what stands before the point. -/
theorem takeWhile_text (x : Numeral) : x.text.takeWhile Char.isDigit = x.whole := by
  unfold Numeral.text
  split
  · exact List.takeWhile_eq_self_iff.mpr x.isDigit_whole
  · rw [List.takeWhile_append_of_pos x.isDigit_whole]
    simp

/-- The point is written only where a fraction follows. -/
theorem dropWhile_text (x : Numeral) :
    x.text.dropWhile Char.isDigit = if x.fraction = [] then [] else '.' :: x.fraction := by
  unfold Numeral.text
  split
  · exact List.dropWhile_eq_nil_iff.mpr x.isDigit_whole
  · rw [List.dropWhile_append_of_pos x.isDigit_whole]
    simp

/-- What is written is read. -/
theorem parse_text (x : Numeral) : parse x.text = some x := by
  have hrest := dropWhile_text x
  -- past the point, if there is one, stands the fraction
  have htail : (x.text.dropWhile Char.isDigit).tail = x.fraction := by
    rw [hrest]
    split
    · rename_i hnil
      exact hnil.symm
    · rfl
  unfold parse
  dsimp only
  rw [dif_pos]
  · rw [Option.some_inj]
    exact Numeral.ext (takeWhile_text x) htail
  · rw [takeWhile_text, htail, hrest]
    refine ⟨x.whole_ne_nil, ?_, List.all_eq_true.mpr x.isDigit_fraction⟩
    split
    · exact .inl rfl
    · rename_i hsome
      exact .inr ⟨rfl, hsome⟩

/-- And nothing but what is written. -/
theorem text_of_parse {text : List Char} {x : Numeral} (h : parse text = some x) :
    x.text = text := by
  unfold parse at h
  dsimp only at h
  split at h
  · rename_i hwf
    have hpoint := hwf.2.1
    rw [Option.some_inj] at h
    subst h
    have hjoin := List.takeWhile_append_dropWhile (p := Char.isDigit) (l := text)
    rcases hpoint with hnil | ⟨hhead, htail⟩
    · -- without a point the digits are all there is
      rw [hnil, List.append_nil] at hjoin
      simp only [Numeral.text, hnil, List.tail_nil, if_true]
      exact hjoin
    · simp only [Numeral.text, if_neg htail]
      rw [← List.eq_cons_of_mem_head? hhead]
      exact hjoin
  · cases h

/-- A text is parsed to the one numeral that is written that way. -/
theorem parse_eq_some_iff {text : List Char} {x : Numeral} :
    parse text = some x ↔ x.text = text := by
  constructor
  · exact text_of_parse
  · intro h
    rw [← h]
    exact parse_text x

end Decimals
