import LedgerArweave.Lib.Base64
import LedgerArweave.Lib.Buffer
import LedgerArweave.Wire

set_option relaxedAutoImplicit false
set_option autoImplicit false

/-!
# The base64url encoder

`b64url.c` encodes bit by bit with a carry of zero, two or four bits between bytes. Over every
three bytes the carry returns to zero, so the characters written are those of the regrouping
of bytes into six-bit numbers. The table of characters is the alphabet of the variant for URLs
and file names, and no index outside it is read.

## Main definitions

* `b64urlEncode` — the encoder.
* `b64urlText` — the text of a byte string in this variant of Base64.
* `b64urlReads` — the indices at which the encoder reads its table.

## Main results

* `b64urlEncode_eq` — when the encoder writes, and what.
* `b64urlText_injective` — different byte strings have different texts.
* `b64url_encode_base64url` — the encoder computes the standard encoding, inside its buffers.
-/

namespace LedgerArweave

/-- `b64url_charset` -/
def b64urlCharset : Bytes :=
  ascii "ABCDEFGHIJKLMNOPQRSTUVWXYZabcdefghijklmnopqrstuvwxyz0123456789-_"

/-- `b64url_charset[idx]` -/
def b64urlChar (idx : ℕ) : UInt8 := b64urlCharset.getD idx 0

/-- The variables of the loop: `carry_count`, `carry_value` and the characters written. -/
structure B64State where
  carryCount : ℕ
  carryValue : ℕ
  out : Bytes

/-- One round of the loop. -/
def b64urlStep (st : B64State) (c : UInt8) : B64State :=
  let shift := 6 - st.carryCount
  let idx := (st.carryValue <<< shift ||| c.toNat >>> (st.carryCount + 2)) % 256
  let carryValue := c.toNat &&& (0xff >>> shift)
  let carryCount := st.carryCount + 2
  let out := st.out ++ [b64urlChar idx]
  if carryCount = 6 then ⟨0, 0, out ++ [b64urlChar carryValue]⟩
  else ⟨carryCount, carryValue, out⟩

/-- The characters written for an input. -/
def b64urlChars (inp : Bytes) : Bytes :=
  let st := inp.foldl b64urlStep ⟨0, 0, []⟩
  if st.carryCount > 0 then
    st.out ++ [b64urlChar (st.carryValue <<< (6 - st.carryCount))]
  else st.out

/-- `b64url_encode` into the buffer `out`: the buffer afterwards and the number returned. The
address of the input is only compared with `NULL`. -/
def b64urlEncode (out : Bytes) (inPtr : ℕ) (inp : Bytes) : Bytes × ℕ :=
  if inPtr = 0 then (out, 0)
  else
    let out := List.replicate out.length 0
    let minspace := inp.length / 3 + if inp.length % 3 ≠ 0 then 1 else 0
    if inp.length + minspace > out.length then (out, 0)
    else (overwrite out 0 (b64urlChars inp), (b64urlChars inp).length)

/-- The text of a byte string: the characters of its six-bit numbers. -/
def b64urlText (inp : Bytes) : Bytes := (Base64.encode inp).map b64urlChar

/-! ## The loop -/

section Loop

variable (out : Bytes) (c : UInt8)

/-- The index read without carry. -/
private theorem index_zero : c.toNat >>> 2 % 256 = c.toNat / 4 := by
  have hc := c.toNat_lt
  rw [Nat.shiftRight_eq_div_pow]
  omega

/-- The index read with two bits of carry. -/
private theorem index_two {v : ℕ} (hv : v < 4) :
    (v <<< 4 ||| c.toNat >>> 4) % 256 = v * 16 + c.toNat / 16 := by
  have hc := c.toNat_lt
  have hlt : c.toNat >>> 4 < 2 ^ 4 := by
    rw [Nat.shiftRight_eq_div_pow]
    omega
  rw [← Nat.shiftLeft_add_eq_or_of_lt hlt, Nat.shiftLeft_eq, Nat.shiftRight_eq_div_pow]
  omega

/-- The index read with four bits of carry. -/
private theorem index_four {v : ℕ} (hv : v < 16) :
    (v <<< 2 ||| c.toNat >>> 6) % 256 = v * 4 + c.toNat / 64 := by
  have hc := c.toNat_lt
  have hlt : c.toNat >>> 6 < 2 ^ 2 := by
    rw [Nat.shiftRight_eq_div_pow]
    omega
  rw [← Nat.shiftLeft_add_eq_or_of_lt hlt, Nat.shiftLeft_eq, Nat.shiftRight_eq_div_pow]
  omega

/-- A round without carry. -/
theorem b64urlStep_zero :
    b64urlStep ⟨0, 0, out⟩ c = ⟨2, c.toNat % 4, out ++ [b64urlChar (c.toNat / 4)]⟩ := by
  have hcarry : c.toNat &&& 3 = c.toNat % 4 := Nat.and_two_pow_sub_one_eq_mod _ 2
  simp [b64urlStep, index_zero, hcarry]

/-- A round with two bits of carry. -/
theorem b64urlStep_two {v : ℕ} (hv : v < 4) :
    b64urlStep ⟨2, v, out⟩ c =
      ⟨4, c.toNat % 16, out ++ [b64urlChar (v * 16 + c.toNat / 16)]⟩ := by
  have hcarry : c.toNat &&& 15 = c.toNat % 16 := Nat.and_two_pow_sub_one_eq_mod _ 4
  simp [b64urlStep, index_two c hv, hcarry]

/-- A round with four bits of carry writes two characters. -/
theorem b64urlStep_four {v : ℕ} (hv : v < 16) :
    b64urlStep ⟨4, v, out⟩ c =
      ⟨0, 0, out ++ [b64urlChar (v * 4 + c.toNat / 64), b64urlChar (c.toNat % 64)]⟩ := by
  have hcarry : c.toNat &&& 63 = c.toNat % 64 := Nat.and_two_pow_sub_one_eq_mod _ 6
  simp [b64urlStep, index_four c hv, hcarry]

end Loop

/-- **The loop regroups bytes into six-bit numbers.**

**Proof sketch.** By groups of three bytes, after which the carry is zero again. -/
theorem b64urlChars_eq (inp : Bytes) : b64urlChars inp = b64urlText inp := by
  have hloop : ∀ out : Bytes,
      (let st := inp.foldl b64urlStep ⟨0, 0, out⟩
        if st.carryCount > 0 then
          st.out ++ [b64urlChar (st.carryValue <<< (6 - st.carryCount))]
        else st.out) = out ++ b64urlText inp := by
    fun_induction Base64.encode inp with
    | case1 =>
      intro out
      simp [b64urlText, Base64.encode]
    | case2 a =>
      intro out
      simp [b64urlStep_zero, b64urlText, Base64.encode, Nat.shiftLeft_eq]
    | case3 a b =>
      intro out
      have hlt : a.toNat % 4 < 4 := Nat.mod_lt _ (by decide)
      simp [b64urlStep_zero, b64urlStep_two _ _ hlt, b64urlText, Base64.encode, Nat.shiftLeft_eq]
    | case4 a b c rest ih =>
      intro out
      have hlt : a.toNat % 4 < 4 := Nat.mod_lt _ (by decide)
      have hlt' : b.toNat % 16 < 16 := Nat.mod_lt _ (by decide)
      simp only [List.foldl_cons, b64urlStep_zero, b64urlStep_two _ _ hlt,
        b64urlStep_four _ _ hlt', ih]
      simp [b64urlText, Base64.encode]
  exact hloop []

/-- The length of the text of some bytes. -/
theorem length_b64urlText (inp : Bytes) :
    (b64urlText inp).length = inp.length + (inp.length + 2) / 3 := by
  rw [b64urlText, List.length_map, Base64.length_encode]

/-- **The encoder**: it writes the text of the input if this fits the buffer, and returns zero
otherwise, leaving zeros.

**Proof sketch.** The space that is checked is the length of the text. -/
theorem b64urlEncode_eq (out : Bytes) {inPtr : ℕ} (hin : inPtr ≠ 0) (inp : Bytes) :
    b64urlEncode out inPtr inp =
      if (b64urlText inp).length ≤ out.length then
        (overwrite (List.replicate out.length 0) 0 (b64urlText inp), (b64urlText inp).length)
      else (List.replicate out.length 0, 0) := by
  have hspace : inp.length + (inp.length / 3 + if inp.length % 3 ≠ 0 then 1 else 0) =
      (b64urlText inp).length := by
    rw [length_b64urlText]
    split_ifs <;> omega
  unfold b64urlEncode
  rw [if_neg hin]
  dsimp only
  rw [hspace, List.length_replicate, b64urlChars_eq]
  by_cases hfits : (b64urlText inp).length ≤ out.length
  · rw [if_neg (by omega), if_pos hfits]
  · rw [if_pos (by omega), if_neg hfits]

/-! ## The text -/

/-- Unpadded decoding of a text. -/
def b64urlDecode (text : Bytes) : Bytes := Base64.decode (text.map b64urlCharset.idxOf)

/-- The number of a character is found in the table. -/
theorem idxOf_b64urlChar {i : ℕ} (hi : i < 64) : b64urlCharset.idxOf (b64urlChar i) = i := by
  have hall : ∀ a : Fin 64, b64urlCharset.idxOf (b64urlChar a.val) = a.val := by decide +kernel
  exact hall ⟨i, hi⟩

/-- No character of a text is a terminator. -/
theorem b64urlChar_ne_zero {i : ℕ} (hi : i < 64) : b64urlChar i ≠ 0 := by
  have hall : ∀ a : Fin 64, b64urlChar a.val ≠ 0 := by decide +kernel
  exact hall ⟨i, hi⟩

/-- No character of the text is a terminator, so it is a C string. -/
theorem zero_notMem_b64urlText (inp : Bytes) : 0 ∉ b64urlText inp := by
  intro h
  obtain ⟨n, hn, hzero⟩ := List.mem_map.mp h
  exact b64urlChar_ne_zero (Base64.lt_of_mem_encode hn) hzero

/-- **Decoding a text gives back the byte string.**

**Proof sketch.** The text is the standard encoding, and decoding undoes it. -/
theorem b64urlDecode_b64urlText (inp : Bytes) : b64urlDecode (b64urlText inp) = inp := by
  have hindex : (b64urlText inp).map b64urlCharset.idxOf = Base64.encode inp := by
    rw [b64urlText, List.map_map]
    refine (List.map_congr_left fun n hn => ?_).trans (List.map_id _)
    exact idxOf_b64urlChar (Base64.lt_of_mem_encode hn)
  rw [b64urlDecode, hindex, Base64.decode_encode]

/-- **Different byte strings have different texts.** -/
theorem b64urlText_injective {inp inp' : Bytes} (h : b64urlText inp = b64urlText inp') :
    inp = inp' := by
  rw [← b64urlDecode_b64urlText inp, h, b64urlDecode_b64urlText]

example : b64urlText [1, 3, 5, 7] = ascii "AQMFBw" := by decide +kernel

/-! ## The table -/

/-- The table is the alphabet. -/
theorem b64urlChar_eq_urlChar {i : ℕ} (hi : i < 64) : b64urlChar i = Base64.urlChar i := by
  have hall : ∀ a : Fin 64, b64urlChar a.val = Base64.urlChar a.val := by decide +kernel
  exact hall ⟨i, hi⟩

/-- **The text is the standard encoding.** -/
theorem b64urlText_eq_encodeUrl (inp : Bytes) : b64urlText inp = Base64.encodeUrl inp :=
  List.map_congr_left fun _ hn => b64urlChar_eq_urlChar (Base64.lt_of_mem_encode hn)

/-- The indices of the table that one round of the loop reads. -/
def b64urlStepReads (st : B64State) (c : UInt8) : List ℕ :=
  let shift := 6 - st.carryCount
  let idx := (st.carryValue <<< shift ||| c.toNat >>> (st.carryCount + 2)) % 256
  let carryValue := c.toNat &&& (0xff >>> shift)
  if st.carryCount + 2 = 6 then [idx, carryValue] else [idx]

/-- The indices of the table that the encoder reads from some round on, in order. -/
def b64urlReads (st : B64State) : Bytes → List ℕ
  | [] => if st.carryCount > 0 then [st.carryValue <<< (6 - st.carryCount)] else []
  | c :: rest => b64urlStepReads st c ++ b64urlReads (b64urlStep st c) rest

/-- A round writes the characters at the indices that it reads. -/
theorem out_b64urlStep (st : B64State) (c : UInt8) :
    (b64urlStep st c).out = st.out ++ (b64urlStepReads st c).map b64urlChar := by
  unfold b64urlStep b64urlStepReads
  dsimp only
  split_ifs with hfull
  · simp
  · simp

/-- The encoder writes the characters at the indices that it reads.

**Proof sketch.** By induction on the input, from any state of the loop: each step appends the
characters at the indices it reads, and the carry left at the end is one more index. -/
theorem b64urlChars_eq_map_reads (inp : Bytes) :
    b64urlChars inp = (b64urlReads ⟨0, 0, []⟩ inp).map b64urlChar := by
  have hloop : ∀ st : B64State,
      (let st' := inp.foldl b64urlStep st
        if st'.carryCount > 0 then
          st'.out ++ [b64urlChar (st'.carryValue <<< (6 - st'.carryCount))]
        else st'.out) = st.out ++ (b64urlReads st inp).map b64urlChar := by
    induction inp with
    | nil =>
      intro st
      dsimp only [List.foldl_nil, b64urlReads]
      split_ifs with hcarry
      · rfl
      · simp
    | cons c rest ih =>
      intro st
      rw [List.foldl_cons, ih, out_b64urlStep, b64urlReads, List.map_append, List.append_assoc]
  exact hloop _

section Reads

variable (out : Bytes) (c : UInt8)

/-- At the first byte of a group, one entry of the table is read. -/
theorem b64urlStepReads_zero : b64urlStepReads ⟨0, 0, out⟩ c = [c.toNat / 4] := by
  simp [b64urlStepReads, index_zero]

/-- At the second byte of a group, one entry of the table is read. -/
theorem b64urlStepReads_two {v : ℕ} (hv : v < 4) :
    b64urlStepReads ⟨2, v, out⟩ c = [v * 16 + c.toNat / 16] := by
  simp [b64urlStepReads, index_two c hv]

/-- At the third byte of a group, two entries of the table are read. -/
theorem b64urlStepReads_four {v : ℕ} (hv : v < 16) :
    b64urlStepReads ⟨4, v, out⟩ c = [v * 4 + c.toNat / 64, c.toNat % 64] := by
  have hcarry : c.toNat &&& 63 = c.toNat % 64 := Nat.and_two_pow_sub_one_eq_mod _ 6
  simp [b64urlStepReads, index_four c hv, hcarry]

end Reads

/-- **The indices read are the six-bit numbers of the input**, so none lies outside the
table.

**Proof sketch.** By the groups of three bytes of the standard encoding. After a full group the
carry is empty again, so the loop starts anew with the rest. -/
theorem b64urlReads_eq_encode (inp : Bytes) : b64urlReads ⟨0, 0, []⟩ inp = Base64.encode inp := by
  have hloop : ∀ out : Bytes, b64urlReads ⟨0, 0, out⟩ inp = Base64.encode inp := by
    fun_induction Base64.encode inp with
    | case1 =>
      intro out
      simp [b64urlReads]
    | case2 a =>
      intro out
      simp [b64urlReads, b64urlStep_zero, b64urlStepReads_zero, Nat.shiftLeft_eq]
    | case3 a b =>
      intro out
      have hlt : a.toNat % 4 < 4 := Nat.mod_lt _ (by decide)
      simp [b64urlReads, b64urlStep_zero, b64urlStep_two _ _ hlt, b64urlStepReads_zero,
        b64urlStepReads_two _ _ hlt, Nat.shiftLeft_eq]
    | case4 a b c rest ih =>
      intro out
      have hlt : a.toNat % 4 < 4 := Nat.mod_lt _ (by decide)
      have hlt' : b.toNat % 16 < 16 := Nat.mod_lt _ (by decide)
      simp [b64urlReads, b64urlStep_zero, b64urlStep_two _ _ hlt, b64urlStep_four _ _ hlt',
        b64urlStepReads_zero, b64urlStepReads_two _ _ hlt, b64urlStepReads_four _ _ hlt', ih]
  exact hloop []

/-! ## The encoder and the standard -/

/-- The space that the encoding of `n` bytes takes: `n` characters and one for every three bytes
begun. -/
def b64urlSpace (n : ℕ) : ℕ := n + (n + 2) / 3

/-- What the encoder leaves when the encoding does not fit. -/
theorem b64urlEncode_short {out inp : Bytes} {inPtr : ℕ} (hin : inPtr ≠ 0)
    (hshort : out.length < b64urlSpace inp.length) :
    b64urlEncode out inPtr inp = (List.replicate out.length 0, 0) := by
  rw [b64urlEncode_eq out hin, length_b64urlText, if_neg]
  exact Nat.not_le.mpr hshort

/-- What the encoder leaves when the encoding fits. -/
theorem b64urlEncode_fits {out inp : Bytes} {inPtr : ℕ} (hin : inPtr ≠ 0)
    (hfits : b64urlSpace inp.length ≤ out.length) :
    b64urlEncode out inPtr inp =
      (Base64.encodeUrl inp ++ List.replicate (out.length - b64urlSpace inp.length) 0,
        b64urlSpace inp.length) := by
  have hlen : (b64urlText inp).length = b64urlSpace inp.length := length_b64urlText inp
  rw [b64urlEncode_eq out hin, hlen, if_pos hfits, overwrite, hlen, List.take_zero,
    List.nil_append, Nat.zero_add, List.drop_replicate, b64urlText_eq_encodeUrl]

/-- **`b64url_encode` computes the encoding of RFC 4648 for URLs and file names, without
padding.** Without room for the encoding it returns zero and leaves zeros. Otherwise it writes
that many characters, all inside the buffer, reads its table at indices below 64 only, leaves
zeros after them and returns their number; the input is recovered by decoding, and two inputs
that are both encoded have different characters.

**Proof sketch.** The characters written are those at the indices read, the indices are the six-bit
numbers of the standard encoding, and that is decoded by `Base64.decodeUrl_encodeUrl`. -/
theorem b64url_encode_base64url {inPtr : ℕ} (hin : inPtr ≠ 0) (inp out : Bytes) :
    (out.length < b64urlSpace inp.length →
      b64urlEncode out inPtr inp = (List.replicate out.length 0, 0)) ∧
    (b64urlSpace inp.length ≤ out.length →
      (Base64.encodeUrl inp).length = b64urlSpace inp.length ∧
      b64urlEncode out inPtr inp =
        (Base64.encodeUrl inp ++ List.replicate (out.length - b64urlSpace inp.length) 0,
          b64urlSpace inp.length) ∧
      (b64urlReads ⟨0, 0, []⟩ inp).length = b64urlSpace inp.length ∧
      (b64urlReads ⟨0, 0, []⟩ inp).map b64urlChar = Base64.encodeUrl inp ∧
      (∀ i ∈ b64urlReads ⟨0, 0, []⟩ inp, i < 64) ∧
      Base64.decodeUrl (Base64.encodeUrl inp) = inp ∧
      ∀ (inPtr' : ℕ) (inp' out' : Bytes), inPtr' ≠ 0 → b64urlSpace inp'.length ≤ out'.length →
        (b64urlEncode out inPtr inp).1.take (b64urlEncode out inPtr inp).2 =
          (b64urlEncode out' inPtr' inp').1.take (b64urlEncode out' inPtr' inp').2 →
        inp = inp') := by
  have hlen : ∀ bs : Bytes, (Base64.encodeUrl bs).length = b64urlSpace bs.length :=
    fun bs => Base64.length_encodeUrl bs
  refine ⟨b64urlEncode_short hin, fun hfits => ⟨hlen inp, b64urlEncode_fits hin hfits, ?_, ?_, ?_,
    Base64.decodeUrl_encodeUrl inp, ?_⟩⟩
  · rw [b64urlReads_eq_encode, Base64.length_encode]
    rfl
  · rw [b64urlReads_eq_encode, ← b64urlText_eq_encodeUrl]
    rfl
  · intro i hi
    rw [b64urlReads_eq_encode] at hi
    exact Base64.lt_of_mem_encode hi
  · intro inPtr' inp' out' hin' hfits' heq
    rw [b64urlEncode_fits hin hfits, b64urlEncode_fits hin' hfits', ← hlen, ← hlen,
      List.take_left, List.take_left] at heq
    exact Base64.encodeUrl_injective heq

/-- Four bytes in a buffer of eight. -/
theorem b64url_encode_base64url_four : b64urlSpace 4 = 6 ∧
    b64urlEncode (List.replicate 8 9) 1 [1, 3, 5, 7] = (ascii "AQMFBw" ++ [0, 0], 6) := by
  refine ⟨by decide, ?_⟩
  have h := b64url_encode_base64url (by decide : 1 ≠ 0) [1, 3, 5, 7] (List.replicate 8 9)
  rw [(h.2 (by decide)).2.1]
  decide +kernel

end LedgerArweave
