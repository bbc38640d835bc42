import Mathlib.Init

set_option relaxedAutoImplicit false
set_option autoImplicit false

/-!
# Base64 without padding

The regrouping of bytes into six-bit numbers that every variant of Base64 performs, apart from
the characters used for the numbers: three bytes become four numbers, and one or two bytes left
at the end become two or three numbers. Decoding gives the bytes back, for byte strings of any
length. The variant for URLs and file names then writes each number as a character of its
alphabet.

## Main definitions

* `Base64.encode`, `Base64.decode` — from bytes to six-bit numbers and back.
* `Base64.urlChar`, `Base64.urlIndex` — the alphabet for URLs and file names.
* `Base64.encodeUrl`, `Base64.decodeUrl` — from bytes to characters and back.

## Main results

* `Base64.decode_encode`, `Base64.decodeUrl_encodeUrl` — nothing is lost.
* `Base64.length_encode`, `Base64.lt_of_mem_encode` — the shape of an encoding.
* `Base64.encodeUrl_injective` — different byte strings have different encodings.
-/

namespace Base64

/-- The six-bit numbers of a byte string. -/
def encode : List UInt8 → List Nat
  | [] => []
  | [a] => [a.toNat / 4, a.toNat % 4 * 16]
  | [a, b] => [a.toNat / 4, a.toNat % 4 * 16 + b.toNat / 16, b.toNat % 16 * 4]
  | a :: b :: c :: rest =>
    a.toNat / 4 :: (a.toNat % 4 * 16 + b.toNat / 16) :: (b.toNat % 16 * 4 + c.toNat / 64) ::
      c.toNat % 64 :: encode rest

/-- The byte string of some six-bit numbers. -/
def decode : List Nat → List UInt8
  | w :: x :: y :: z :: rest =>
    UInt8.ofNat (w * 4 + x / 16) :: UInt8.ofNat (x % 16 * 16 + y / 4) ::
      UInt8.ofNat (y % 4 * 64 + z) :: decode rest
  | [w, x, y] => [UInt8.ofNat (w * 4 + x / 16), UInt8.ofNat (x % 16 * 16 + y / 4)]
  | [w, x] => [UInt8.ofNat (w * 4 + x / 16)]
  | _ => []

/-- A byte is recovered from a number that equals it. -/
private theorem ofNat_eq_of_eq_toNat {a : UInt8} {n : Nat} (h : n = a.toNat) :
    UInt8.ofNat n = a := by
  rw [h, UInt8.ofNat_toNat]

/-- **Decoding undoes encoding.**

**Proof sketch.** The recursion of `encode` goes by groups of three bytes; in each group the
quotients and remainders put together are the bytes again. -/
theorem decode_encode (bs : List UInt8) : decode (encode bs) = bs := by
  fun_induction encode bs with
  | case1 => rfl
  | case2 a =>
    have ha := a.toNat_lt
    rw [decode, ofNat_eq_of_eq_toNat (a := a) (by omega)]
  | case3 a b =>
    have ha := a.toNat_lt
    have hb := b.toNat_lt
    rw [decode, ofNat_eq_of_eq_toNat (a := a) (by omega),
      ofNat_eq_of_eq_toNat (a := b) (by omega)]
  | case4 a b c rest ih =>
    have ha := a.toNat_lt
    have hb := b.toNat_lt
    have hc := c.toNat_lt
    rw [decode, ih, ofNat_eq_of_eq_toNat (a := a) (by omega),
      ofNat_eq_of_eq_toNat (a := b) (by omega), ofNat_eq_of_eq_toNat (a := c) (by omega)]

/-- One number more for every three bytes and for what is left. -/
theorem length_encode (bs : List UInt8) :
    (encode bs).length = bs.length + (bs.length + 2) / 3 := by
  fun_induction encode bs with
  | case1 => rfl
  | case2 a => simp
  | case3 a b => simp
  | case4 a b c rest ih =>
    simp only [List.length_cons, ih]
    omega

/-- The numbers have six bits.

**Proof sketch.** By the groups of the encoding: each number is a quotient or a remainder of bytes
with six bits. -/
theorem lt_of_mem_encode {bs : List UInt8} {n : Nat} (h : n ∈ encode bs) : n < 64 := by
  fun_induction encode bs with
  | case1 => simp at h
  | case2 a =>
    have ha := a.toNat_lt
    simp only [List.mem_cons, List.not_mem_nil, or_false] at h
    omega
  | case3 a b =>
    have ha := a.toNat_lt
    have hb := b.toNat_lt
    simp only [List.mem_cons, List.not_mem_nil, or_false] at h
    omega
  | case4 a b c rest ih =>
    have ha := a.toNat_lt
    have hb := b.toNat_lt
    have hc := c.toNat_lt
    simp only [List.mem_cons] at h
    rcases h with h | h | h | h | h
    · omega
    · omega
    · omega
    · omega
    · exact ih h

/-! ## The alphabet for URLs and file names -/

/-- The character of a six-bit number: capital letters, small letters, digits, `-` and `_`. -/
def urlChar (n : Nat) : UInt8 :=
  if n < 26 then UInt8.ofNat (65 + n)
  else if n < 52 then UInt8.ofNat (97 + (n - 26))
  else if n < 62 then UInt8.ofNat (48 + (n - 52))
  else if n = 62 then 45
  else 95

/-- The six-bit number of a character of the alphabet. -/
def urlIndex (c : UInt8) : Nat :=
  if 97 ≤ c.toNat then c.toNat - 97 + 26
  else if c = 95 then 63
  else if 65 ≤ c.toNat then c.toNat - 65
  else if c = 45 then 62
  else c.toNat - 48 + 52

/-- The encoding of a byte string, without padding. -/
def encodeUrl (bs : List UInt8) : List UInt8 := (encode bs).map urlChar

/-- The byte string of an encoding without padding. -/
def decodeUrl (text : List UInt8) : List UInt8 := decode (text.map urlIndex)

/-- A character determines its number. -/
theorem urlIndex_urlChar {n : Nat} (hn : n < 64) : urlIndex (urlChar n) = n := by
  have hall : ∀ a : Fin 64, urlIndex (urlChar a.val) = a.val := by decide +kernel
  exact hall ⟨n, hn⟩

/-- Without padding, `n` bytes need `n` characters and one for every group of three that is begun.
-/
theorem length_encodeUrl (bs : List UInt8) :
    (encodeUrl bs).length = bs.length + (bs.length + 2) / 3 := by
  rw [encodeUrl, List.length_map, length_encode]

/-- **Decoding undoes encoding**, characters included.

**Proof sketch.** The characters of the numbers below 64 are told apart, so the indices read back
are the numbers; `decode_encode` does the rest. -/
theorem decodeUrl_encodeUrl (bs : List UInt8) : decodeUrl (encodeUrl bs) = bs := by
  have hindex : (encodeUrl bs).map urlIndex = encode bs := by
    rw [encodeUrl, List.map_map]
    refine (List.map_congr_left fun n hn => ?_).trans (List.map_id _)
    exact urlIndex_urlChar (lt_of_mem_encode hn)
  rw [decodeUrl, hindex, decode_encode]

/-- **Different byte strings have different encodings.** -/
theorem encodeUrl_injective {bs bs' : List UInt8} (h : encodeUrl bs = encodeUrl bs') :
    bs = bs' := by
  rw [← decodeUrl_encodeUrl bs, h, decodeUrl_encodeUrl]

end Base64
