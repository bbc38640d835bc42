import LedgerArweave.Hash.Sha512
import Mathlib.Analysis.SpecialFunctions.Pow.Real
import Mathlib.Data.Nat.Digits.Defs
import Mathlib.Data.UInt
import Mathlib.NumberTheory.PrimeCounting

set_option relaxedAutoImplicit false
set_option autoImplicit false

/-!
# The standard SHA-384

The Secure Hash Standard to which `sha512.c` refers, in its own terms: the constants are digits of
roots of primes, a word of the message schedule is given by the ones before it, and each of the
80 rounds does the same. The code has tables for the constants and a loop for the schedule, and
renames the variables instead of moving their values. Here the processing of one block is shown
to be the standard one.

## Main definitions

* `Standard.constant`, `Standard.initial` — the constants.
* `Standard.schedule`, `Standard.oneRound`, `Standard.compress` — the processing of a block.
* `Standard.pad`, `Standard.sha384` — the padding and the hash of a message.

## Main results

* `roundConstants_eq`, `starts_state` — the tables of the code.
* `process_eq` — the code processes a block as the standard does.
-/

namespace LedgerArweave.Sha512

/-! ## The standard -/

namespace Standard

/-- Rotation to the right. -/
def rotateRight (n : ℕ) (x : UInt64) : UInt64 := ⟨x.toBitVec.rotateRight n⟩

/-- `Ch` -/
def ch (x y z : UInt64) : UInt64 := (x &&& y) ^^^ (~~~x &&& z)

/-- `Maj` -/
def maj (x y z : UInt64) : UInt64 := (x &&& y) ^^^ (x &&& z) ^^^ (y &&& z)

/-- `Σ₀` -/
def bigSigma0 (x : UInt64) : UInt64 := rotateRight 28 x ^^^ rotateRight 34 x ^^^ rotateRight 39 x

/-- `Σ₁` -/
def bigSigma1 (x : UInt64) : UInt64 := rotateRight 14 x ^^^ rotateRight 18 x ^^^ rotateRight 41 x

/-- `σ₀` -/
def smallSigma0 (x : UInt64) : UInt64 := rotateRight 1 x ^^^ rotateRight 8 x ^^^ (x >>> 7)

/-- `σ₁` -/
def smallSigma1 (x : UInt64) : UInt64 := rotateRight 19 x ^^^ rotateRight 61 x ^^^ (x >>> 6)

/-- The first 64 bits of the fractional part of the `k`-th root of a number. -/
noncomputable def fractionBits (k p : ℕ) : UInt64 :=
  UInt64.ofNat ⌊Int.fract ((p : ℝ) ^ (1 / (k : ℝ))) * 2 ^ 64⌋₊

/-- The constant of round `t`, from the cube root of a prime. -/
noncomputable def constant (t : ℕ) : UInt64 := fractionBits 3 (Nat.nth Nat.Prime t)

/-- The initial hash value, from the square roots of the ninth to the sixteenth prime. -/
noncomputable def initial : Words :=
  let word (i : ℕ) := fractionBits 2 (Nat.nth Nat.Prime (8 + i))
  ⟨word 0, word 1, word 2, word 3, word 4, word 5, word 6, word 7⟩

/-- The number with the given digits to base 256, the highest one first. -/
def number (b : Bytes) : ℕ := Nat.ofDigits 256 (b.reverse.map UInt8.toNat)

/-- The lowest `n` digits of a number to base 256, the highest one first. -/
def digits (n x : ℕ) : Bytes := (List.range n).map fun i => UInt8.ofNat (x / 256 ^ (n - 1 - i))

/-- Word `t` of a block. -/
def word (block : Bytes) (t : ℕ) : UInt64 := UInt64.ofNat (number ((block.drop (8 * t)).take 8))

/-- The message schedule. -/
def schedule (block : Bytes) (t : ℕ) : UInt64 :=
  if t < 16 then word block t
  else smallSigma1 (schedule block (t - 2)) + schedule block (t - 7) +
    smallSigma0 (schedule block (t - 15)) + schedule block (t - 16)
  termination_by t

/-- One round with the constant `k` and the word `w` of the schedule. -/
def oneRound (r : Words) (k w : UInt64) : Words :=
  let t1 := r.h + bigSigma1 r.e + ch r.e r.f r.g + k + w
  let t2 := bigSigma0 r.a + maj r.a r.b r.c
  ⟨t1 + t2, r.a, r.b, r.c, r.d + t1, r.e, r.f, r.g⟩

/-- The hash value after a block. -/
noncomputable def compress (r : Words) (block : Bytes) : Words :=
  addWords r ((List.range 80).foldl (fun q t => oneRound q (constant t) (schedule block t)) r)

/-- What is put behind a message of `l` bytes: a bit 1, bits 0 and the length in bits. -/
def pad (l : ℕ) : Bytes :=
  0x80 :: List.replicate ((239 - l % 128) % 128) 0 ++ digits 16 (8 * l)

/-- The bytes of a hash value. -/
def output (r : Words) : Bytes :=
  digits 8 r.a.toNat ++ digits 8 r.b.toNat ++ digits 8 r.c.toNat ++ digits 8 r.d.toNat ++
    digits 8 r.e.toNat ++ digits 8 r.f.toNat ++ digits 8 r.g.toNat ++ digits 8 r.h.toNat

/-- SHA-384 -/
noncomputable def sha384 (message : Bytes) : Bytes :=
  (output (absorb 128 compress initial (message ++ pad message.length)).1).take 48

end Standard

open Standard

/-! ## The functions of a round -/

/-- The macro is a rotation.

**Proof sketch.** Shifting right by `n` and left by `64 - n` and joining the two is how rotation of
bit vectors is defined. -/
theorem rotr_eq {n : ℕ} (h0 : 0 < n) (h : n < 64) (x : UInt64) :
    rotr x (UInt64.ofNat n) = rotateRight n x := by
  have hnat : (UInt64.ofNat n).toNat = n :=
    UInt64.toNat_ofNat_of_lt' (Nat.lt_trans h (by decide))
  have hright : (UInt64.ofNat n).toNat % 64 = n := by rw [hnat, Nat.mod_eq_of_lt h]
  have hleft : (64 - UInt64.ofNat n).toNat % 64 = 64 - n := by
    have hle : UInt64.ofNat n ≤ 64 := by
      rw [UInt64.le_iff_toNat_le, hnat]
      exact h.le
    rw [UInt64.toNat_sub_of_le _ _ hle, hnat, show (64 : UInt64).toNat = 64 from rfl]
    omega
  apply UInt64.toBitVec_inj.mp
  rw [rotr, shr, rotateRight, BitVec.rotateRight_def, UInt64.toBitVec_or,
    UInt64.toBitVec_shiftRight, UInt64.toBitVec_shiftLeft, Nat.mod_eq_of_lt h,
    BitVec.ushiftRight_eq', BitVec.shiftLeft_eq']
  congr 1
  · exact congrArg (x.toBitVec >>> ·) hright
  · exact congrArg (x.toBitVec <<< ·) hleft

/-- `S0` is `σ₀`. -/
theorem s0_eq (x : UInt64) : s0 x = smallSigma0 x := by
  have h1 := rotr_eq (n := 1) (by decide) (by decide) x
  have h8 := rotr_eq (n := 8) (by decide) (by decide) x
  exact congrArg₂ (· ^^^ · ^^^ x >>> 7) h1 h8

/-- `S1` is `σ₁`. -/
theorem s1_eq (x : UInt64) : s1 x = smallSigma1 x := by
  have h19 := rotr_eq (n := 19) (by decide) (by decide) x
  have h61 := rotr_eq (n := 61) (by decide) (by decide) x
  exact congrArg₂ (· ^^^ · ^^^ x >>> 6) h19 h61

/-- `S2` is `Σ₀`. -/
theorem s2_eq (x : UInt64) : s2 x = bigSigma0 x := by
  have h28 := rotr_eq (n := 28) (by decide) (by decide) x
  have h34 := rotr_eq (n := 34) (by decide) (by decide) x
  have h39 := rotr_eq (n := 39) (by decide) (by decide) x
  exact congrArg₂ (· ^^^ ·) (congrArg₂ (· ^^^ ·) h28 h34) h39

/-- `S3` is `Σ₁`. -/
theorem s3_eq (x : UInt64) : s3 x = bigSigma1 x := by
  have h14 := rotr_eq (n := 14) (by decide) (by decide) x
  have h18 := rotr_eq (n := 18) (by decide) (by decide) x
  have h41 := rotr_eq (n := 41) (by decide) (by decide) x
  exact congrArg₂ (· ^^^ ·) (congrArg₂ (· ^^^ ·) h14 h18) h41

/-- `F0` is `Maj`, bit by bit. -/
theorem f0_eq (x y z : UInt64) : f0 x y z = maj x y z := by
  apply UInt64.toBitVec_inj.mp
  ext i hi
  simp only [f0, maj, UInt64.toBitVec_or, UInt64.toBitVec_and, UInt64.toBitVec_xor,
    BitVec.getElem_or, BitVec.getElem_and, BitVec.getElem_xor]
  cases x.toBitVec[i] <;> cases y.toBitVec[i] <;> cases z.toBitVec[i] <;> rfl

/-- `F1` is `Ch`, bit by bit. -/
theorem f1_eq (x y z : UInt64) : f1 x y z = ch x y z := by
  apply UInt64.toBitVec_inj.mp
  ext i hi
  simp only [f1, ch, UInt64.toBitVec_and, UInt64.toBitVec_xor, UInt64.toBitVec_not,
    BitVec.getElem_and, BitVec.getElem_xor, BitVec.getElem_not]
  cases x.toBitVec[i] <;> cases y.toBitVec[i] <;> cases z.toBitVec[i] <;> rfl

/-! ## The constants -/

/-- The fractional part of a root, from bounds on a power.

**Proof sketch.** The bounds say that the root, scaled by `2 ^ 64`, lies between two consecutive
integers. Its floor is then `a`, and the scaled fraction has the floor `c`. -/
theorem fractionBits_eq {k p a : ℕ} {c : UInt64} (hk : k ≠ 0)
    (hle : (a * 2 ^ 64 + c.toNat) ^ k ≤ p * 2 ^ (64 * k))
    (hlt : p * 2 ^ (64 * k) < (a * 2 ^ 64 + c.toNat + 1) ^ k) : fractionBits k p = c := by
  have hroot : ((p : ℝ) ^ (1 / (k : ℝ)) * 2 ^ 64) ^ k = p * 2 ^ (64 * k) := by
    rw [mul_pow, one_div, Real.rpow_inv_natCast_pow (Nat.cast_nonneg p) hk, pow_mul]
  have hnonneg : 0 ≤ (p : ℝ) ^ (1 / (k : ℝ)) * 2 ^ 64 := by positivity
  have hlow : (a : ℝ) * 2 ^ 64 + c.toNat ≤ (p : ℝ) ^ (1 / (k : ℝ)) * 2 ^ 64 := by
    refine le_of_pow_le_pow_left₀ hk hnonneg ?_
    rw [hroot]
    exact_mod_cast hle
  have hhigh : (p : ℝ) ^ (1 / (k : ℝ)) * 2 ^ 64 < a * 2 ^ 64 + c.toNat + 1 := by
    refine lt_of_pow_lt_pow_left₀ k (by positivity) ?_
    rw [hroot]
    exact_mod_cast hlt
  have hc : (c.toNat : ℝ) + 1 ≤ 2 ^ 64 := by exact_mod_cast c.toNat_lt
  have hfloor : ⌊(p : ℝ) ^ (1 / (k : ℝ))⌋ = a := by
    rw [Int.floor_eq_iff]
    constructor
    · have hpos : (0 : ℝ) ≤ c.toNat := Nat.cast_nonneg _
      push_cast
      linarith
    · push_cast
      linarith
  have hdigits : ⌊Int.fract ((p : ℝ) ^ (1 / (k : ℝ))) * 2 ^ 64⌋₊ = c.toNat := by
    rw [Nat.floor_eq_iff (mul_nonneg (Int.fract_nonneg _) (by positivity)), Int.fract, hfloor]
    push_cast
    constructor <;> linarith
  rw [fractionBits, hdigits, UInt64.ofNat_toNat]

/-- The first 80 primes. -/
def primes : List ℕ :=
  [2, 3, 5, 7, 11, 13, 17, 19, 23, 29, 31, 37, 41, 43, 47, 53, 59, 61, 67, 71, 73, 79, 83, 89,
    97, 101, 103, 107, 109, 113, 127, 131, 137, 139, 149, 151, 157, 163, 167, 173, 179, 181, 191,
    193, 197, 199, 211, 223, 227, 229, 233, 239, 241, 251, 257, 263, 269, 271, 277, 281, 283,
    293, 307, 311, 313, 317, 331, 337, 347, 349, 353, 359, 367, 373, 379, 383, 389, 397, 401, 409]

/-- The numbers with a property, below a bound, are the first ones with it.

**Proof sketch.** By induction on the bound: a new number with the property is the last of the list,
and `Nat.nth` at the count of those before it. -/
theorem getD_filter_range (q : ℕ → Prop) [DecidablePred q] (n : ℕ) :
    ((List.range n).filter q).length = Nat.count q n ∧
      ∀ t < Nat.count q n, ((List.range n).filter q).getD t 0 = Nat.nth q t := by
  induction n with
  | zero => exact ⟨rfl, fun t ht => absurd ht (Nat.not_lt_zero t)⟩
  | succ n ih =>
    obtain ⟨hlen, hget⟩ := ih
    rw [List.range_succ, List.filter_append, Nat.count_succ]
    by_cases hq : q n
    · rw [List.filter_singleton, decide_eq_true hq, if_pos hq]
      rw [cond_true]
      refine ⟨by rw [List.length_append, hlen, List.length_singleton], fun t ht => ?_⟩
      rw [List.getD_eq_getElem?_getD]
      rcases Nat.lt_or_ge t (Nat.count q n) with hold | hnew
      · rw [List.getElem?_append_left (by omega), ← List.getD_eq_getElem?_getD, hget t hold]
      · obtain rfl : t = Nat.count q n := by omega
        rw [← hlen, List.getElem?_concat_length, Option.getD_some, hlen, Nat.nth_count hq]
    · rw [List.filter_singleton, decide_eq_false hq, if_neg hq, cond_false, List.append_nil]
      exact ⟨hlen, hget⟩

/-- Trial division up to the square root. -/
theorem prime_iff_trial {n : ℕ} (hn : n < 410) :
    n.Prime ↔ 2 ≤ n ∧ ∀ m < 21, 2 ≤ m → m * m ≤ n → n % m ≠ 0 := by
  rw [Nat.prime_def_le_sqrt]
  refine and_congr_right fun _ => ⟨fun h m _ hm hle hmod => ?_, fun h m hm hle hdvd => ?_⟩
  · exact h m hm (Nat.le_sqrt.mpr hle) (Nat.dvd_of_mod_eq_zero hmod)
  · have hsq : m * m ≤ n := Nat.le_sqrt.mp hle
    exact h m (by nlinarith) hm hsq (Nat.mod_eq_zero_of_dvd hdvd)

/-- The list of primes holds the first eighty.

**Proof sketch.** It is a sorted list of primes, and between them there are no others: `Nat.nth`
counts the same. -/
theorem primes_getD {t : ℕ} (ht : t < 80) : primes.getD t 0 = Nat.nth Nat.Prime t := by
  have htrial : (List.range 410).filter Nat.Prime =
      (List.range 410).filter fun n =>
        decide (2 ≤ n ∧ ∀ m < 21, 2 ≤ m → m * m ≤ n → n % m ≠ 0) :=
    List.filter_congr fun n hn => decide_eq_decide.mpr (prime_iff_trial (List.mem_range.mp hn))
  have htable : (List.range 410).filter Nat.Prime = primes := by
    rw [htrial]
    decide +kernel
  obtain ⟨hlen, hget⟩ := getD_filter_range Nat.Prime 410
  rw [htable] at hlen hget
  exact hget t (by rw [← hlen]; exact ht)

/-- What makes a word the digits of the root of the prime with number `t`. The integer part of the
root is less than 8 for the primes in question. -/
def IsPrimeRoot (k t : ℕ) (c : UInt64) : Prop :=
  ∃ a < 8, (a * 2 ^ 64 + c.toNat) ^ k ≤ primes.getD t 0 * 2 ^ (64 * k) ∧
    primes.getD t 0 * 2 ^ (64 * k) < (a * 2 ^ 64 + c.toNat + 1) ^ k

/-- A constant can be checked by evaluation. -/
instance (k t : ℕ) (c : UInt64) : Decidable (IsPrimeRoot k t c) :=
  inferInstanceAs (Decidable (∃ a < 8, _ ∧ _))

/-- A word that passes the test is the fraction of the root of its prime. -/
theorem IsPrimeRoot.eq {k t : ℕ} {c : UInt64} (hk : k ≠ 0) (ht : t < 80)
    (h : IsPrimeRoot k t c) : c = fractionBits k (Nat.nth Nat.Prime t) := by
  obtain ⟨a, -, hle, hlt⟩ := h
  rw [← primes_getD ht, fractionBits_eq hk hle hlt]

/-- **The table of round constants** holds the constants of the standard.

**Proof sketch.** Each entry passes the test `IsPrimeRoot`, which compares powers of naturals and is
decided. -/
theorem roundConstants_eq {t : ℕ} (ht : t < 80) : roundConstants.getD t 0 = constant t := by
  have htable : ∀ t < 80, IsPrimeRoot 3 t (roundConstants.getD t 0) := by decide +kernel
  exact (htable t ht).eq (by decide) ht

/-- **A context starts** with the initial hash value of the standard.

**Proof sketch.** Each of the eight words passes the test `IsPrimeRoot` for square roots. -/
theorem starts_state (ctx : Sha512Context) : (starts ctx).state = initial := by
  apply Words.ext
  · exact (show IsPrimeRoot 2 8 0xcbbb9d5dc1059ed8 by decide +kernel).eq (by decide) (by decide)
  · exact (show IsPrimeRoot 2 9 0x629a292a367cd507 by decide +kernel).eq (by decide) (by decide)
  · exact (show IsPrimeRoot 2 10 0x9159015a3070dd17 by decide +kernel).eq (by decide) (by decide)
  · exact (show IsPrimeRoot 2 11 0x152fecd8f70e5939 by decide +kernel).eq (by decide) (by decide)
  · exact (show IsPrimeRoot 2 12 0x67332667ffc00b31 by decide +kernel).eq (by decide) (by decide)
  · exact (show IsPrimeRoot 2 13 0x8eb44a8768581511 by decide +kernel).eq (by decide) (by decide)
  · exact (show IsPrimeRoot 2 14 0xdb0c2e0d64f98fa7 by decide +kernel).eq (by decide) (by decide)
  · exact (show IsPrimeRoot 2 15 0x47b5481dbefa4fa4 by decide +kernel).eq (by decide) (by decide)

/-! ## Words and bytes -/

/-- No bytes are the number zero. -/
theorem number_nil : number [] = 0 := rfl

/-- A byte more is a digit more. -/
theorem number_snoc (b : Bytes) (x : UInt8) : number (b ++ [x]) = 256 * number b + x.toNat := by
  rw [number, List.reverse_append, List.map_append]
  simp only [List.reverse_singleton, List.map_singleton, List.singleton_append,
    Nat.ofDigits_cons, number]
  exact Nat.add_comm _ _

/-- A byte moved to its place. -/
theorem toNat_byte_shift (x : UInt8) {n : ℕ} (hn : n ≤ 56) :
    (x.toUInt64 <<< UInt64.ofNat n).toNat = x.toNat <<< n := by
  have hnat : (UInt64.ofNat n).toNat = n :=
    UInt64.toNat_ofNat_of_lt' (Nat.lt_of_le_of_lt hn (by decide))
  have hlt : x.toNat <<< n < 2 ^ 64 := by
    rw [Nat.shiftLeft_eq]
    calc x.toNat * 2 ^ n < 2 ^ 8 * 2 ^ n := Nat.mul_lt_mul_of_pos_right x.toNat_lt (by positivity)
      _ ≤ 2 ^ 8 * 2 ^ 56 := Nat.mul_le_mul_left _ (Nat.pow_le_pow_right (by decide) hn)
  rw [UInt64.toNat_shiftLeft, hnat, Nat.mod_eq_of_lt (show n < 64 by omega),
    UInt8.toNat_toUInt64, Nat.mod_eq_of_lt hlt]

/-- A byte behind the bits above it. -/
theorem bytes_or (x : UInt8) (h : ℕ) (n : ℕ) :
    h <<< (n + 8) ||| x.toNat <<< n = (256 * h + x.toNat) <<< n := by
  have hsplit := Nat.shiftLeft_add_eq_or_of_lt (show x.toNat < 2 ^ 8 from x.toNat_lt) h
  rw [Nat.add_comm n, Nat.shiftLeft_add, ← Nat.shiftLeft_or_distrib, ← hsplit,
    Nat.shiftLeft_eq h, Nat.mul_comm h]

/-- Eight bytes as a word.

**Proof sketch.** Bytes shifted to disjoint places are joined by `|||` as by addition, from the
highest one on. -/
theorem toNat_getUint64Be (b : Bytes) (i : ℕ) : (getUint64Be b i).toNat =
    number ((List.range 8).map fun j => b.getD (i + j) 0) := by
  have h56 : ((b.getD i 0).toUInt64 <<< 56).toNat = (b.getD i 0).toNat <<< 56 :=
    toNat_byte_shift (n := 56) _ (by decide)
  have h48 : ((b.getD (i + 1) 0).toUInt64 <<< 48).toNat = (b.getD (i + 1) 0).toNat <<< 48 :=
    toNat_byte_shift (n := 48) _ (by decide)
  have h40 : ((b.getD (i + 2) 0).toUInt64 <<< 40).toNat = (b.getD (i + 2) 0).toNat <<< 40 :=
    toNat_byte_shift (n := 40) _ (by decide)
  have h32 : ((b.getD (i + 3) 0).toUInt64 <<< 32).toNat = (b.getD (i + 3) 0).toNat <<< 32 :=
    toNat_byte_shift (n := 32) _ (by decide)
  have h24 : ((b.getD (i + 4) 0).toUInt64 <<< 24).toNat = (b.getD (i + 4) 0).toNat <<< 24 :=
    toNat_byte_shift (n := 24) _ (by decide)
  have h16 : ((b.getD (i + 5) 0).toUInt64 <<< 16).toNat = (b.getD (i + 5) 0).toNat <<< 16 :=
    toNat_byte_shift (n := 16) _ (by decide)
  have h8 : ((b.getD (i + 6) 0).toUInt64 <<< 8).toNat = (b.getD (i + 6) 0).toNat <<< 8 :=
    toNat_byte_shift (n := 8) _ (by decide)
  have h0 : (b.getD (i + 7) 0).toUInt64.toNat = (b.getD (i + 7) 0).toNat <<< 0 := rfl
  have hlist : (List.range 8).map (fun j => b.getD (i + j) 0) =
      [] ++ [b.getD i 0] ++ [b.getD (i + 1) 0] ++ [b.getD (i + 2) 0] ++ [b.getD (i + 3) 0] ++
        [b.getD (i + 4) 0] ++ [b.getD (i + 5) 0] ++ [b.getD (i + 6) 0] ++ [b.getD (i + 7) 0] := rfl
  rw [hlist, getUint64Be]
  simp only [UInt64.toNat_or, number_snoc]
  rw [h56, h48, h40, h32, h24, h16, h8, h0]
  rw [bytes_or _ _ 48, bytes_or _ _ 40, bytes_or _ _ 32, bytes_or _ _ 24, bytes_or _ _ 16,
    bytes_or _ _ 8, bytes_or _ _ 0, Nat.shiftLeft_zero, number_nil, Nat.mul_zero, Nat.zero_add]

/-- A word as eight bytes.

**Proof sketch.** Shifting right by multiples of eight and cutting to a byte gives the digits to
base 256. -/
theorem putUint64Be_eq (n : UInt64) : putUint64Be n = digits 8 n.toNat := by
  have hbyte : ∀ k ≤ 7,
      (n >>> UInt64.ofNat (8 * k)).toUInt8 = UInt8.ofNat (n.toNat / 256 ^ k) := by
    intro k hk
    have hnat : (UInt64.ofNat (8 * k)).toNat = 8 * k :=
      UInt64.toNat_ofNat_of_lt' (Nat.lt_of_le_of_lt (Nat.mul_le_mul_left 8 hk) (by decide))
    apply UInt8.toNat_inj.mp
    rw [UInt64.toNat_toUInt8, UInt64.toNat_shiftRight, hnat,
      Nat.mod_eq_of_lt (show 8 * k < 64 by omega), Nat.shiftRight_eq_div_pow, Nat.pow_mul]
    rfl
  have hput : putUint64Be n =
      (List.range 8).map fun i => (n >>> UInt64.ofNat (8 * (7 - i))).toUInt8 := by
    have hzero : n >>> UInt64.ofNat (8 * (7 - 7)) = n := UInt64.shiftRight_zero
    rw [putUint64Be]
    nth_rewrite 8 [← hzero]
    rfl
  rw [hput, digits]
  apply List.map_congr_left
  intro i _
  exact hbyte (7 - i) (by omega)

/-! ## One block -/

/-- The words that the code reads are those of the block. -/
theorem getUint64Be_eq_word {block : Bytes} (hblock : block.length = 128) {t : ℕ} (ht : t < 16) :
    getUint64Be block (t <<< 3) = word block t := by
  have hshift : t <<< 3 = 8 * t := by rw [Nat.shiftLeft_eq, Nat.mul_comm]
  have hbytes : (List.range 8).map (fun j => block.getD (8 * t + j) 0) =
      (block.drop (8 * t)).take 8 := by
    apply List.ext_getElem
    · simp only [List.length_map, List.length_range, List.length_take, List.length_drop]
      omega
    · intro j hj hj'
      rw [List.length_map, List.length_range] at hj
      rw [List.getElem_map, List.getElem_range, List.getElem_take, List.getElem_drop,
        List.getD_eq_getElem?_getD, List.getElem?_eq_getElem (by omega), Option.getD_some]
  rw [word, ← hbytes, hshift, ← toNat_getUint64Be, UInt64.ofNat_toNat]

/-- The first words of the schedule are those of the block. -/
theorem schedule_of_lt {block : Bytes} {t : ℕ} (ht : t < 16) :
    schedule block t = word block t := by
  rw [schedule, if_pos ht]

/-- The later words of the schedule follow from earlier ones. -/
theorem schedule_of_le {block : Bytes} {t : ℕ} (ht : 16 ≤ t) :
    schedule block t = smallSigma1 (schedule block (t - 2)) + schedule block (t - 7) +
      smallSigma0 (schedule block (t - 15)) + schedule block (t - 16) := by
  rw [schedule, if_neg (by omega)]

/-- Every round of the loop writes the next word of the schedule.

**Proof sketch.** By induction on the number of words to write; the next one depends on the last
sixteen. -/
theorem expandWords_spec {block : Bytes} (n : ℕ) {w : List UInt64} (hw : 16 ≤ w.length)
    (h : ∀ t < w.length, w.getD t 0 = schedule block t) :
    ∀ t < w.length + n, (expandWords n w).getD t 0 = schedule block t := by
  induction n generalizing w with
  | zero => exact h
  | succ n ih =>
    have hnext : s1 (w.getD (w.length - 2) 0) + w.getD (w.length - 7) 0 +
        s0 (w.getD (w.length - 15) 0) + w.getD (w.length - 16) 0 = schedule block w.length := by
      rw [schedule_of_le hw, h _ (by omega), h _ (by omega), h _ (by omega), h _ (by omega), s0_eq,
        s1_eq]
    rw [expandWords, hnext, Nat.add_comm n, ← Nat.add_assoc]
    refine fun t ht => ih (w := w ++ [schedule block w.length]) ?_ ?_ t ?_
    · rw [List.length_append]
      omega
    · intro t ht
      rw [List.length_append, List.length_singleton] at ht
      rw [List.getD_eq_getElem?_getD]
      rcases Nat.lt_or_ge t w.length with hold | hnew
      · rw [List.getElem?_append_left hold, ← List.getD_eq_getElem?_getD, h t hold]
      · obtain rfl : t = w.length := by omega
        rw [List.getElem?_concat_length, Option.getD_some]
    · rwa [List.length_append, List.length_singleton]

/-- The array `W` holds the schedule. -/
theorem messageWords_spec {block : Bytes} (hblock : block.length = 128) {t : ℕ} (ht : t < 80) :
    (messageWords block).getD t 0 = schedule block t := by
  have hlen : (blockWords block).length = 16 := by
    rw [blockWords, List.length_map, List.length_range]
  refine expandWords_spec 64 (Nat.le_of_eq hlen.symm) ?_ t (by rwa [hlen])
  intro t ht
  rw [hlen] at ht
  rw [schedule_of_lt ht, ← getUint64Be_eq_word hblock ht, blockWords, List.getD_eq_getElem?_getD,
    List.getElem?_map, List.getElem?_range ht, Option.map_some, Option.getD_some]

/-- The eight calls of the macro are eight rounds: each leaves the variables that it does not
change where the next call expects them. -/
theorem eightRounds_eq (w : List UInt64) (r : Words) (i : ℕ) :
    eightRounds w r i = (List.range 8).foldl
      (fun q j => oneRound q (roundConstants.getD (i + j) 0) (w.getD (i + j) 0)) r := by
  have hp : ∀ q : Words, ∀ k x : UInt64,
      oneRound q k x = ⟨(p q.a q.b q.c q.d q.e q.f q.g q.h x k).2, q.a, q.b, q.c,
        (p q.a q.b q.c q.d q.e q.f q.g q.h x k).1, q.e, q.f, q.g⟩ := by
    intro q k x
    simp only [p, oneRound, s2_eq, s3_eq, f0_eq, f1_eq]
  simp only [hp]
  rfl

/-- A loop in steps of `m`. -/
theorem foldl_range_mul {α : Type} (f : α → ℕ → α) (m n : ℕ) (a : α) :
    (List.range n).foldl (fun x i => (List.range m).foldl (fun y j => f y (m * i + j)) x) a =
      (List.range (m * n)).foldl f a := by
  induction n with
  | zero => rfl
  | succ n ih =>
    rw [List.range_succ, List.foldl_append, ih, List.foldl_cons, List.foldl_nil, Nat.mul_succ,
      List.range_add, List.foldl_append, List.foldl_map]

/-- **A block** is processed as the standard does.

**Proof sketch.** The unrolled eight rounds are eight rounds of the standard, ten times, with the
constants of the table and the words of the schedule. -/
theorem process_eq (ctx : Sha512Context) {block : Bytes} (hblock : block.length = 128) :
    process ctx block = { ctx with state := compress ctx.state block } := by
  have hrounds : (List.range 10).foldl (fun r j => eightRounds (messageWords block) r (8 * j))
      ctx.state = (List.range 80).foldl (fun q t => oneRound q (constant t) (schedule block t))
        ctx.state := by
    simp only [eightRounds_eq]
    rw [foldl_range_mul (fun q t => oneRound q (roundConstants.getD t 0)
      ((messageWords block).getD t 0)) 8 10]
    apply List.foldl_ext
    intro q t ht
    rw [List.mem_range] at ht
    rw [roundConstants_eq ht, messageWords_spec hblock ht]
  rw [process, compress, hrounds]

end LedgerArweave.Sha512
