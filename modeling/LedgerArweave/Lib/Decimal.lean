import Mathlib.Algebra.Field.Rat
import Mathlib.Data.List.DropRight
import Mathlib.Data.Nat.Digits.Defs
import Mathlib.Tactic.FieldSimp
import Mathlib.Tactic.Ring

set_option relaxedAutoImplicit false
set_option autoImplicit false

/-!
# Decimal strings

Numbers written as strings of ASCII digits, with or without a decimal point. Zeros before a whole
number and zeros after a fraction do not change what is written.

## Main definitions

* `Decimal.value` — the number a string of digits denotes.
* `Decimal.read` — the number a string of digits with a decimal point denotes.

## Main results

* `Decimal.read_point` — the value of a whole part and a fraction.
* `Decimal.value_append` — moving the decimal point out of the way.
-/

namespace Decimal

/-- An ASCII digit -/
def IsDigit (c : UInt8) : Prop := 0x30 ≤ c ∧ c ≤ 0x39

/-- Digits can be recognized by evaluation. -/
instance (c : UInt8) : Decidable (IsDigit c) := inferInstanceAs (Decidable (_ ∧ _))

/-- Only digits -/
def Digits (s : List UInt8) : Prop := ∀ c ∈ s, IsDigit c

/-- The same of words. -/
instance (s : List UInt8) : Decidable (Digits s) := inferInstanceAs (Decidable (∀ c ∈ s, _))

/-- The digit zero -/
def isZero (c : UInt8) : Bool := c == 0x30

/-- The number a string of digits denotes, the empty string denoting zero. -/
def value (s : List UInt8) : ℕ := Nat.ofDigits 10 (s.reverse.map fun c => c.toNat - 0x30)

/-- What stands before the first point. -/
def whole (s : List UInt8) : List UInt8 := s.takeWhile (· ≠ 0x2e)

/-- What stands behind the first point. -/
def fraction (s : List UInt8) : List UInt8 := (s.dropWhile (· ≠ 0x2e)).tail

/-- The number a decimal string denotes, if it is one. -/
def read (s : List UInt8) : Option ℚ :=
  if whole s ≠ [] ∧ Digits (whole s) ∧ Digits (fraction s) then
    some (value (whole s) + value (fraction s) / 10 ^ (fraction s).length)
  else none

/-! ## Whole numbers -/

/-- Digits joined are digits, and parts of digits are digits. -/
theorem digits_append {s t : List UInt8} : Digits (s ++ t) ↔ Digits s ∧ Digits t :=
  List.forall_mem_append

/-- A point is no digit, nor is the end of a C string. -/
theorem notMem_of_digits {s : List UInt8} (h : Digits s) {c : UInt8} (hc : ¬ IsDigit c) : c ∉ s :=
  fun hmem => hc (h c hmem)

/-- The value of joined digits: the first part is shifted by the length of the second. -/
theorem value_append (s t : List UInt8) : value (s ++ t) = value s * 10 ^ t.length + value t := by
  unfold value
  rw [List.reverse_append, List.map_append, Nat.ofDigits_append, List.length_map,
    List.length_reverse]
  ring

/-- Zeros have value zero. -/
theorem value_zeros (n : ℕ) : value (List.replicate n 0x30) = 0 := by
  rw [value, List.reverse_replicate, List.map_replicate,
    show (0x30 : UInt8).toNat - 0x30 = 0 from rfl, Nat.ofDigits_replicate_zero]

/-- A text of zeros is determined by its length. -/
theorem eq_zeros {s : List UInt8} (h : ∀ c ∈ s, isZero c = true) :
    s = List.replicate s.length 0x30 :=
  List.eq_replicate_of_mem fun c hc => beq_iff_eq.mp (h c hc)

/-- Zeros before a number -/
theorem value_dropZeros (s : List UInt8) : value (s.dropWhile isZero) = value s := by
  have hzeros := eq_zeros (s := s.takeWhile isZero) fun c hc => List.mem_takeWhile_imp hc
  conv_rhs => rw [← List.takeWhile_append_dropWhile (p := isZero) (l := s), value_append]
  rw [hzeros, value_zeros, Nat.zero_mul, Nat.zero_add]

/-! ## Fractions -/

/-- Zeros at the end of a fraction -/
theorem value_rdropZeros (a s : List UInt8) :
    (value (a ++ s.rdropWhile isZero) : ℚ) / 10 ^ (a ++ s.rdropWhile isZero).length =
      value (a ++ s) / 10 ^ (a ++ s).length := by
  have hzeros := eq_zeros (s := s.rtakeWhile isZero) fun c hc => List.mem_rtakeWhile_imp hc
  conv_rhs => rw [← List.rdropWhile_append_rtakeWhile (p := isZero) (l := s), ← List.append_assoc,
    value_append, List.length_append, hzeros, value_zeros]
  rw [List.length_replicate, Nat.add_zero, Nat.cast_mul, Nat.cast_pow, pow_add]
  exact (mul_div_mul_right _ _ (pow_ne_zero _ (by norm_num))).symm

/-- A fraction without the zeros at its end is a beginning of it. -/
theorem trimmed_prefix (f : List UInt8) (n : ℕ) :
    f.take n ++ (f.drop n).rdropWhile isZero <+: f := by
  conv_rhs => rw [← List.take_append_drop n f]
  exact (List.prefix_append_right_inj _).mpr (List.rdropWhile_prefix _ _)

/-! ## Decimal points -/

section Point

variable {i : List UInt8} (hi : 0x2e ∉ i) (f : List UInt8)

include hi

/-- The whole part ends at the point. -/
theorem whole_point : whole (i ++ 0x2e :: f) = i := by
  have hall : ∀ c ∈ i, decide (c ≠ 0x2e) = true := fun c hc =>
    decide_eq_true fun heq => hi (heq ▸ hc)
  rw [whole, List.takeWhile_append_of_pos hall, List.takeWhile_cons_of_neg (by decide),
    List.append_nil]

/-- The fraction begins behind the point. -/
theorem fraction_point : fraction (i ++ 0x2e :: f) = f := by
  have hall : ∀ c ∈ i, decide (c ≠ 0x2e) = true := fun c hc =>
    decide_eq_true fun heq => hi (heq ▸ hc)
  rw [fraction, List.dropWhile_append_of_pos hall, List.dropWhile_cons_of_neg (by decide),
    List.tail_cons]

end Point

/-- **A decimal string** with a point is read as its whole part plus its fraction.

**Proof sketch.** The point is the first one, so the whole part and the fraction are what stands
around it. -/
theorem read_point {i f : List UInt8} (hne : i ≠ []) (hi : Digits i) (hf : Digits f) :
    read (i ++ 0x2e :: f) = some ((value i : ℚ) + value f / 10 ^ f.length) := by
  have hpoint : 0x2e ∉ i := notMem_of_digits hi (by decide)
  rw [read, whole_point hpoint, fraction_point hpoint, if_pos ⟨hne, hi, hf⟩]

end Decimal
