import Mathlib.Algebra.Field.Rat
import Mathlib.Algebra.Order.Floor.Ring
import Mathlib.Data.Int.Log
import Mathlib.Data.List.DropRight
import Mathlib.Data.Rat.Floor
import Mathlib.Tactic.NormNum
import Mathlib.Tactic.Positivity

set_option relaxedAutoImplicit false
set_option autoImplicit false

/-!
# The numbers of JavaScript

Doubles as exact values, the sum of two of them, and the number that a string is converted to.
Whole numbers below `2 ^ 53` are doubles, and their decimal digits are converted to them.

## Main definitions

* `JsNumber` — a finite number, an infinity or `NaN`.
* `JsNumber.ofRat` — the nearest double.
* `JsNumber.add` — the operator `+`.
* `JsNumber.ofString` — the function `Number` on strings.

## Main results

* `JsNumber.ofRat_natCast` — whole numbers that are doubles.
* `JsNumber.ofString_toDigits` — reading what has been written in decimal.
-/

/-- A number: `NaN`, an infinity or a finite value. The two zeros are one value. -/
inductive JsNumber where
  | nan
  | infinity (negative : Bool)
  | finite (value : ℚ)
deriving DecidableEq

namespace JsNumber

/-! ## Rounding -/

/-- The nearest whole number, of two the even one. -/
def roundTiesEven (x : ℚ) : ℤ :=
  if x - ⌊x⌋ < 1 / 2 ∨ (x - ⌊x⌋ = 1 / 2 ∧ ⌊x⌋ % 2 = 0) then ⌊x⌋ else ⌊x⌋ + 1

/-- The distance between the doubles around a positive number. -/
def spacing (x : ℚ) : ℚ := 2 ^ (max (Int.log 2 x) (-1022) - 52)

/-- The double nearest to a number. -/
def ofRat (x : ℚ) : JsNumber :=
  let nearest := roundTiesEven (|x| / spacing |x|) * spacing |x|
  if 2 ^ 1024 ≤ nearest then .infinity (x < 0) else .finite (if x < 0 then -nearest else nearest)

/-- The operator `+` -/
def add : JsNumber → JsNumber → JsNumber
  | .finite x, .finite y => ofRat (x + y)
  | .finite _, .infinity negative => .infinity negative
  | .infinity negative, .finite _ => .infinity negative
  | .infinity negative, .infinity negative' =>
    if negative = negative' then .infinity negative else .nan
  | .nan, _ => .nan
  | _, .nan => .nan

/-- The operator `>=`, to the right a whole number. -/
def ge : JsNumber → ℕ → Bool
  | .finite x, n => (n : ℚ) ≤ x
  | .infinity negative, _ => !negative
  | .nan, _ => false

/-- Integers are not rounded. -/
theorem roundTiesEven_natCast (n : ℕ) : roundTiesEven n = n := by
  rw [roundTiesEven, Int.floor_natCast, if_pos]
  left
  rw [Int.cast_natCast, sub_self]
  norm_num

/-- **A whole number below `2 ^ 53` is a double.**

**Proof sketch.** The spacing of doubles around such a number is one over a power of two, so the
number is a multiple of it and is not rounded. -/
theorem ofRat_natCast {n : ℕ} (hn : n < 2 ^ 53) : ofRat n = .finite n := by
  obtain ⟨k, hk, hspacing⟩ : ∃ k ≤ 52, spacing (n : ℚ) = 1 / 2 ^ k := by
    have hlog : Nat.log 2 n ≤ 52 := Nat.lt_succ_iff.mp (Nat.log_lt_of_lt_pow' (by decide) hn)
    refine ⟨52 - Nat.log 2 n, Nat.sub_le _ _, ?_⟩
    have hexp : max (Int.log 2 (n : ℚ)) (-1022) - 52 = -((52 - Nat.log 2 n : ℕ) : ℤ) := by
      rw [Int.log_natCast]
      omega
    rw [spacing, hexp, zpow_neg, zpow_natCast, one_div]
  have habs : |(n : ℚ)| = n := Nat.abs_cast n
  have hscaled : (n : ℚ) / spacing n = ((n * 2 ^ k : ℕ) : ℚ) := by
    rw [hspacing]
    push_cast
    field_simp
  have hnearest : (roundTiesEven (|(n : ℚ)| / spacing |(n : ℚ)|) : ℚ) * spacing |(n : ℚ)| = n := by
    rw [habs, hscaled, roundTiesEven_natCast, hspacing]
    push_cast
    field_simp
  have hlt : ¬ (2 : ℚ) ^ 1024 ≤ n := by
    have hle : ((2 ^ 53 : ℕ) : ℚ) ≤ 2 ^ 1024 := by
      rw [Nat.cast_pow, Nat.cast_ofNat]
      exact pow_le_pow_right₀ (by norm_num) (by decide)
    exact not_le.mpr (lt_of_lt_of_le (Nat.cast_lt.mpr hn) hle)
  have hneg : ¬ (n : ℚ) < 0 := not_lt.mpr (Nat.cast_nonneg n)
  rw [ofRat, hnearest, if_neg hlt, if_neg hneg]

/-! ## Numbers from strings -/

/-- White space and line ends -/
def isWhiteSpace (c : Char) : Bool :=
  c.toNat ∈ [0x09, 0x0a, 0x0b, 0x0c, 0x0d, 0x20, 0xa0, 0x1680, 0x2028, 0x2029, 0x202f, 0x205f,
    0x3000, 0xfeff] ∨ (0x2000 ≤ c.toNat ∧ c.toNat ≤ 0x200a)

/-- A string without the white space around it. -/
def trim (s : List Char) : List Char := (s.dropWhile isWhiteSpace).rdropWhile isWhiteSpace

/-- A digit of a number in base 2, 8 or 16. -/
def digitValue (base : ℕ) (c : Char) : Option ℕ :=
  let v :=
    if c.isDigit then c.toNat - 0x30
    else if 'a' ≤ c ∧ c ≤ 'f' then c.toNat - 0x61 + 10
    else if 'A' ≤ c ∧ c ≤ 'F' then c.toNat - 0x41 + 10
    else base
  if v < base then some v else none

/-- The number after a `0b`, `0o` or `0x`. -/
def nonDecimal (base : ℕ) (digits : List Char) : JsNumber :=
  if digits = [] then .nan
  else
    match digits.mapM (digitValue base) with
    | none => .nan
    | some values => ofRat (values.foldl (fun n v => n * base + v) 0 : ℕ)

/-- One digit or more, in base ten. -/
def decimalDigits (digits : List Char) : Option ℕ :=
  if digits ≠ [] ∧ digits.all Char.isDigit then some (Nat.ofDigitChars 10 digits 0) else none

/-- The exponent at the end of a number, zero if there is none. -/
def exponentPart : List Char → Option ℤ
  | [] => some 0
  | e :: rest =>
    if e ≠ 'e' ∧ e ≠ 'E' then none
    else
      match rest with
      | '-' :: digits => (decimalDigits digits).map fun n => -(n : ℤ)
      | '+' :: digits => (decimalDigits digits).map fun n => (n : ℤ)
      | digits => (decimalDigits digits).map fun n => (n : ℤ)

/-- The value of a decimal number without a sign: digits, a point with digits before or after it,
an exponent. -/
def unsignedDecimal (s : List Char) : Option ℚ :=
  let whole := s.takeWhile Char.isDigit
  let afterWhole := s.dropWhile Char.isDigit
  let (fraction, rest) :=
    match afterWhole with
    | '.' :: afterPoint => (afterPoint.takeWhile Char.isDigit, afterPoint.dropWhile Char.isDigit)
    | _ => ([], afterWhole)
  if whole ++ fraction = [] then none
  else
    (exponentPart rest).map fun e =>
      (Nat.ofDigitChars 10 (whole ++ fraction) 0 : ℚ) * 10 ^ (e - (fraction.length : ℤ))

/-- A decimal number after its sign. -/
def signedDecimal (negative : Bool) (s : List Char) : JsNumber :=
  if s = "Infinity".toList then .infinity negative
  else
    match unsignedDecimal s with
    | none => .nan
    | some x => ofRat (if negative then -x else x)

/-- The base announced by the second character after a zero. -/
def radixOf (c : Char) : Option ℕ :=
  if c = 'x' ∨ c = 'X' then some 16
  else if c = 'o' ∨ c = 'O' then some 8
  else if c = 'b' ∨ c = 'B' then some 2
  else none

/-- A number without white space. -/
def literal : List Char → JsNumber
  | [] => .finite 0
  | first :: rest =>
    match (if first = '0' then rest.head?.bind radixOf else none) with
    | some base => nonDecimal base rest.tail
    | none =>
      if first = '+' then signedDecimal false rest
      else if first = '-' then signedDecimal true rest
      else signedDecimal false (first :: rest)

/-- `Number` on strings -/
def ofString (s : List Char) : JsNumber := literal (trim s)

/-! ## Decimal digits -/

/-- A character that is no digit is none of the digits. -/
theorem ne_of_isDigit {c d : Char} (hc : c.isDigit = true) (hd : d.isDigit = false) : c ≠ d := by
  rintro rfl
  exact absurd (hc.symm.trans hd) (by decide)

/-- Digits are not trimmed. -/
theorem isWhiteSpace_of_isDigit {c : Char} (h : c.isDigit = true) : isWhiteSpace c = false := by
  have hlo : 0x30 ≤ c.toNat := (Char.isDigit_iff_toNat.mp h).1
  have hhi : c.toNat ≤ 0x39 := (Char.isDigit_iff_toNat.mp h).2
  simp only [isWhiteSpace, decide_eq_false_iff_not, List.mem_cons, List.not_mem_nil, or_false]
  omega

/-- Digits are not white space. -/
theorem trim_digits {s : List Char} (h : ∀ c ∈ s, c.isDigit = true) : trim s = s := by
  have hspace : ∀ c ∈ s, ¬ isWhiteSpace c = true := by
    intro c hc
    rw [isWhiteSpace_of_isDigit (h c hc)]
    exact Bool.false_ne_true
  have hfront : s.dropWhile isWhiteSpace = s :=
    List.dropWhile_eq_self_iff.mpr fun hl => hspace _ (List.getElem_mem hl)
  rw [trim, hfront]
  exact List.rdropWhile_eq_self_iff.mpr fun hl => hspace _ (List.getLast_mem hl)

/-- The value of a string of digits. -/
theorem unsignedDecimal_digits {s : List Char} (hne : s ≠ []) (h : ∀ c ∈ s, c.isDigit = true) :
    unsignedDecimal s = some (Nat.ofDigitChars 10 s 0 : ℚ) := by
  have hwhole : s.takeWhile Char.isDigit = s := List.takeWhile_eq_self_iff.mpr h
  have hrest : s.dropWhile Char.isDigit = [] := List.dropWhile_eq_nil_iff.mpr h
  simp [unsignedDecimal, hwhole, hrest, hne, exponentPart]

/-- No digit announces a base. -/
theorem radixOf_of_isDigit {c : Char} (h : c.isDigit = true) : radixOf c = none := by
  have hne : ∀ d : Char, d.isDigit = false → c ≠ d := fun d => ne_of_isDigit h
  simp [radixOf, hne]

/-- **A string of digits** is converted to the number it denotes.

**Proof sketch.** Digits are no white space, no sign, no word and no radix prefix, so the literal is
an unsigned decimal. -/
theorem ofString_digits {s : List Char} (hne : s ≠ []) (h : ∀ c ∈ s, c.isDigit = true) :
    ofString s = ofRat (Nat.ofDigitChars 10 s 0 : ℕ) := by
  have hvalue := unsignedDecimal_digits hne h
  rw [ofString, trim_digits h]
  cases s with
  | nil => exact absurd rfl hne
  | cons first rest =>
    have hfirst : first.isDigit = true := h first List.mem_cons_self
    have hbase : (if first = '0' then rest.head?.bind radixOf else none) = none := by
      split_ifs
      · cases rest with
        | nil => rfl
        | cons second rest =>
          exact radixOf_of_isDigit (h second (List.mem_cons_of_mem _ List.mem_cons_self))
      · rfl
    have hplus : first ≠ '+' := ne_of_isDigit hfirst (by decide)
    have hminus : first ≠ '-' := ne_of_isDigit hfirst (by decide)
    have hword : first :: rest ≠ "Infinity".toList := by
      intro heq
      have hhead : some first = some 'I' := congrArg List.head? heq
      exact ne_of_isDigit hfirst (by decide) (Option.some.inj hhead)
    rw [literal, hbase]
    dsimp only
    rw [if_neg hplus, if_neg hminus, signedDecimal, if_neg hword, hvalue]
    rfl

/-- **A number written in decimal** is read back.

**Proof sketch.** The decimal digits of a number denote it, and it is a double. -/
theorem ofString_toDigits {n : ℕ} (hn : n < 2 ^ 53) :
    ofString (Nat.toDigits 10 n) = .finite n := by
  have hdigits : ∀ c ∈ Nat.toDigits 10 n, c.isDigit = true := fun _ hc =>
    Nat.isDigit_of_mem_toDigits (by decide) (by decide) hc
  rw [ofString_digits Nat.toDigits_ne_nil hdigits, Nat.ofDigitChars_ten_toDigits,
    ofRat_natCast hn]

end JsNumber
