import LedgerArweave.Hash.Standard

set_option relaxedAutoImplicit false
set_option autoImplicit false

/-!
# Messages in pieces

`mbedtls_sha512_update` takes a message in pieces of any length. Some blocks it completes in the
buffer of the context and others it reads from the input, and it counts bytes in two words with a
carry. Between two calls the context stands for the bytes taken so far, and in the end the code
has hashed all of them with the padding of the standard.

## Main definitions

* `Represents` — what a context says about the bytes taken so far.

## Main results

* `Represents.update` — a piece is put behind them.
* `Represents.finish` — the hash of all of them.
* `finish_foldl_update`, `cryptoSha384_eq` — the code computes the standard SHA-384.
* `sha384_binding` — messages with the same output are equal, or two of their blocks clash.
-/

namespace LedgerArweave.Sha512

open Standard

/-- A context after the bytes of `m`: how many there are, the hash value after the whole blocks
among them, and what is left of them at the beginning of the buffer. -/
structure Represents (ctx : Sha512Context) (m : Bytes) : Prop where
  total : ctx.total0.toNat + 2 ^ 64 * ctx.total1.toNat = m.length % 2 ^ 128
  buffer : ctx.buffer.length = 128
  absorbed : absorb 128 compress initial m = (ctx.state, ctx.buffer.take (m.length % 128))

/-- A new context stands for no bytes. -/
theorem represents_starts : Represents (starts init) [] where
  total := rfl
  buffer := rfl
  absorbed := by rw [absorb_of_lt (by decide), ← starts_state]; rfl

/-! ## Pieces -/

/-- The loop processes the whole blocks of the input. -/
theorem processBlocks_eq (n : ℕ) (ctx : Sha512Context) (input : Bytes) (hn : input.length ≤ n) :
    processBlocks n ctx input =
      ({ ctx with state := (absorb 128 compress ctx.state input).1 },
        (absorb 128 compress ctx.state input).2) := by
  induction n generalizing ctx input with
  | zero =>
    rw [absorb_of_lt (by omega)]
    rfl
  | succ n ih =>
    rw [processBlocks]
    split_ifs with hblock
    · rw [ih _ _ (by rw [List.length_drop]; omega),
        process_eq ctx (List.length_take_of_le hblock), absorb_of_le (by decide) hblock]
    · rw [absorb_of_lt (by omega)]

/-- What is left of the input is written into the buffer. -/
theorem updateRest_eq (ctx : Sha512Context) (left : ℕ) (input : Bytes) :
    updateRest ctx left input =
      { ctx with
        state := (absorb 128 compress ctx.state input).1
        buffer := overwrite ctx.buffer left (absorb 128 compress ctx.state input).2 } := by
  rw [updateRest, processBlocks_eq _ _ _ (Nat.le_refl _)]
  dsimp only
  split_ifs with hrest
  · rfl
  · rw [List.length_eq_zero_iff.mp (Nat.eq_zero_of_not_pos hrest), overwrite_nil]

/-- Buffering the rest does not count. -/
@[simp] theorem updateRest_total0 (ctx : Sha512Context) (left : ℕ) (input : Bytes) :
    (updateRest ctx left input).total0 = ctx.total0 := by rw [updateRest_eq]

/-- Buffering the rest does not count the high word either. -/
@[simp] theorem updateRest_total1 (ctx : Sha512Context) (left : ℕ) (input : Bytes) :
    (updateRest ctx left input).total1 = ctx.total1 := by rw [updateRest_eq]

/-- From the loop on, the input is taken behind what is in the buffer, if the buffer is empty or
not filled by it.

**Proof sketch.** With an empty buffer the blocks of the input are compressed and the rest is kept.
With one that is not filled, nothing is compressed and the input is appended. -/
theorem updateRest_absorbed {ctx : Sha512Context} {left : ℕ} {input : Bytes}
    (hbuffer : ctx.buffer.length = 128) (h : left = 0 ∨ left + input.length < 128) :
    (updateRest ctx left input).buffer.length = 128 ∧
      absorb 128 compress ctx.state (ctx.buffer.take left ++ input) =
        ((updateRest ctx left input).state,
          (updateRest ctx left input).buffer.take ((left + input.length) % 128)) := by
  rw [updateRest_eq]
  rcases h with rfl | hshort
  · have hrest := length_absorb (b := 128) (f := compress) (s := ctx.state) (w := input)
    refine ⟨by rw [length_overwrite (by omega), hbuffer], ?_⟩
    rw [List.take_zero, List.nil_append, Nat.zero_add, ← hrest, take_overwrite]
  · have htake : (ctx.buffer.take left).length = left := List.length_take_of_le (by omega)
    rw [absorb_of_lt (by omega), absorb_of_lt (by rw [List.length_append]; omega)]
    refine ⟨by rw [length_overwrite (by dsimp only; omega), hbuffer], ?_⟩
    dsimp only
    have hlen : (left + input.length) % 128 = (ctx.buffer.take left ++ input).length := by
      rw [List.length_append, htake, Nat.mod_eq_of_lt hshort]
    rw [hlen, overwrite, List.take_left]

/-- The lower bits of the counter are the number of bytes in the buffer. -/
theorem Represents.left {ctx : Sha512Context} {m : Bytes} (h : Represents ctx m) :
    (ctx.total0 &&& 0x7F).toNat = m.length % 128 := by
  have htotal := h.total
  have hand : (ctx.total0 &&& 0x7F).toNat = ctx.total0.toNat % 128 := by
    rw [UInt64.toNat_and]
    exact Nat.and_two_pow_sub_one_eq_mod _ 7
  rw [hand]
  omega

/-- The counter after `n` more bytes. -/
def Sha512Context.count (ctx : Sha512Context) (n : UInt64) : Sha512Context :=
  let ctx := { ctx with total0 := ctx.total0 + n }
  if ctx.total0 < n then { ctx with total1 := ctx.total1 + 1 } else ctx

/-- Counting leaves the chaining value. -/
@[simp] theorem Sha512Context.count_state (ctx : Sha512Context) (n : UInt64) :
    (ctx.count n).state = ctx.state := by
  unfold count
  dsimp only
  split_ifs <;> rfl

/-- Counting leaves the buffer. -/
@[simp] theorem Sha512Context.count_buffer (ctx : Sha512Context) (n : UInt64) :
    (ctx.count n).buffer = ctx.buffer := by
  unfold count
  dsimp only
  split_ifs <;> rfl

/-- The lower word has wrapped around exactly if it is less than what has been added.

**Proof sketch.** The sum wraps at most once, and then it is less than each summand; the higher word
takes the carry. -/
theorem Sha512Context.count_total (ctx : Sha512Context) {l n : ℕ} (hn : n < 2 ^ 64)
    (h : ctx.total0.toNat + 2 ^ 64 * ctx.total1.toNat = l % 2 ^ 128) :
    (ctx.count (UInt64.ofNat n)).total0.toNat + 2 ^ 64 * (ctx.count (UInt64.ofNat n)).total1.toNat =
      (l + n) % 2 ^ 128 := by
  have hnat : (UInt64.ofNat n).toNat = n := UInt64.toNat_ofNat_of_lt' hn
  have h0 := ctx.total0.toNat_lt
  have h1 := ctx.total1.toNat_lt
  have hone : (1 : UInt64).toNat = 1 := rfl
  unfold count
  dsimp only
  split_ifs with hcarry
  · rw [UInt64.lt_iff_toNat_lt, UInt64.toNat_add, hnat] at hcarry
    rw [UInt64.toNat_add, UInt64.toNat_add, hnat, hone]
    omega
  · rw [UInt64.lt_iff_toNat_lt, UInt64.toNat_add, hnat] at hcarry
    dsimp only
    rw [UInt64.toNat_add, hnat]
    omega

/-- The two ways in which a piece is taken. -/
theorem update_eq {ctx : Sha512Context} {m input : Bytes} (h : Represents ctx m)
    (hinput : input ≠ []) :
    update ctx input =
      if m.length % 128 ≠ 0 ∧ 128 - m.length % 128 ≤ input.length then
        let ctx := ctx.count (UInt64.ofNat input.length)
        let block := overwrite ctx.buffer (m.length % 128) (input.take (128 - m.length % 128))
        updateRest (process { ctx with buffer := block } block) 0
          (input.drop (128 - m.length % 128))
      else updateRest (ctx.count (UInt64.ofNat input.length)) (m.length % 128) input := by
  rw [update, if_neg (by rwa [List.length_eq_zero_iff]), h.left]
  rfl

/-- From the loop on, the context comes to stand for a word that it would absorb the same way. -/
theorem represents_updateRest {ctx : Sha512Context} {w input : Bytes} {left : ℕ}
    (htotal : ctx.total0.toNat + 2 ^ 64 * ctx.total1.toNat = w.length % 2 ^ 128)
    (hbuffer : ctx.buffer.length = 128) (h : left = 0 ∨ left + input.length < 128)
    (hlen : (left + input.length) % 128 = w.length % 128)
    (habsorb : absorb 128 compress initial w =
      absorb 128 compress ctx.state (ctx.buffer.take left ++ input)) :
    Represents (updateRest ctx left input) w := by
  obtain ⟨hbuffer', hstate⟩ := updateRest_absorbed hbuffer h
  refine ⟨by rwa [updateRest_total0, updateRest_total1], hbuffer', ?_⟩
  rw [habsorb, hstate, hlen]

/-- **A piece** is put behind the bytes taken so far.

**Proof sketch.** `absorb_append` says what has to be computed. If the input completes the block in
the buffer, this block is compressed first and the rest is taken with an empty buffer; otherwise the
loop takes the input behind the buffer. -/
theorem Represents.update {ctx : Sha512Context} {m input : Bytes} (h : Represents ctx m)
    (hinput : input.length < 2 ^ 64) : Represents (update ctx input) (m ++ input) := by
  by_cases hempty : input = []
  · rw [hempty, List.append_nil]
    exact h
  have hbuffer := h.buffer
  have htotal := ctx.count_total hinput h.total
  rw [← List.length_append] at htotal
  have happend := absorb_append (by decide : 0 < 128) (f := compress) initial m input
  rw [h.absorbed] at happend
  have hleft : (ctx.buffer.take (m.length % 128)).length = m.length % 128 :=
    List.length_take_of_le (by omega)
  rw [update_eq h hempty]
  split_ifs with hfill
  · -- the input completes the block in the buffer
    obtain ⟨-, hfill⟩ := hfill
    have hblock : overwrite ctx.buffer (m.length % 128) (input.take (128 - m.length % 128)) =
        ctx.buffer.take (m.length % 128) ++ input.take (128 - m.length % 128) := by
      rw [overwrite, List.length_take_of_le hfill, Nat.add_sub_cancel' (by omega), ← hbuffer,
        List.drop_length, List.append_nil]
    have hlen : (ctx.buffer.take (m.length % 128) ++
        input.take (128 - m.length % 128)).length = 128 := by
      rw [List.length_append, hleft, List.length_take_of_le hfill]
      omega
    dsimp only
    rw [Sha512Context.count_buffer, hblock, process_eq _ hlen]
    refine represents_updateRest htotal hlen (Or.inl rfl) ?_ ?_
    · rw [List.length_drop, List.length_append]
      omega
    · rw [happend, List.take_zero, List.nil_append, Sha512Context.count_state,
        ← absorb_block (by decide) hlen, List.append_assoc, List.take_append_drop]
  · -- the buffer is empty, or it is not filled
    refine represents_updateRest htotal ?_ ?_ ?_ ?_
    · rw [Sha512Context.count_buffer, hbuffer]
    · omega
    · rw [List.length_append]
      omega
    · rw [happend, Sha512Context.count_buffer, Sha512Context.count_state]

/-- Pieces are put behind each other. -/
theorem Represents.foldl_update {ctx : Sha512Context} {m : Bytes} (h : Represents ctx m)
    (pieces : List Bytes) (hpieces : ∀ input ∈ pieces, input.length < 2 ^ 64) :
    Represents (pieces.foldl Sha512.update ctx) (m ++ pieces.flatten) := by
  induction pieces generalizing ctx m with
  | nil => rwa [List.flatten_nil, List.append_nil]
  | cons input pieces ih =>
    rw [List.flatten_cons, ← List.append_assoc]
    exact ih (h.update (hpieces input List.mem_cons_self)) fun x hx =>
      hpieces x (List.mem_cons_of_mem _ hx)

/-! ## The end of a message -/

/-- The digits of a number in two parts. -/
theorem digits_add (a b x : ℕ) : digits (a + b) x = digits a (x / 256 ^ b) ++ digits b x := by
  unfold digits
  rw [List.range_add, List.map_append, List.map_map]
  congr 1
  · apply List.map_congr_left
    intro i hi
    rw [List.mem_range] at hi
    rw [Nat.div_div_eq_div_mul, ← Nat.pow_add]
    congr 3
    omega
  · apply List.map_congr_left
    intro i hi
    rw [Function.comp_apply, Nat.sub_add_eq, Nat.sub_right_comm, Nat.sub_right_comm]
    congr 3
    omega

/-- Only the lower part of a number counts. -/
theorem digits_mod (n x : ℕ) : digits n (x % 256 ^ n) = digits n x := by
  unfold digits
  apply List.map_congr_left
  intro i hi
  rw [List.mem_range] at hi
  apply UInt8.toNat_inj.mp
  have hpow : 256 ^ n = 256 ^ (n - 1 - i) * 256 * 256 ^ i := by
    rw [← Nat.pow_succ, ← Nat.pow_add]
    congr 1
    omega
  rw [UInt8.toNat_ofNat', UInt8.toNat_ofNat', hpow, Nat.mul_assoc, Nat.mod_mul_right_div_self,
    Nat.mod_mul_right_mod]

/-- What `mbedtls_sha512_finish` writes into `msglen` is the length in bits.

**Proof sketch.** Both words are shifted left by three bits, and the bits that leave the lower one
enter the higher one. As numbers this is eight times the length, cut at 128 bits. -/
theorem msglen_eq {ctx : Sha512Context} {m : Bytes} (h : Represents ctx m) :
    putUint64Be (ctx.total0 >>> 61 ||| ctx.total1 <<< 3) ++ putUint64Be (ctx.total0 <<< 3) =
      digits 16 (8 * m.length) := by
  have htotal := h.total
  have h0 := ctx.total0.toNat_lt
  have h1 := ctx.total1.toNat_lt
  have hlow : (ctx.total0 <<< 3).toNat = ctx.total0.toNat * 8 % 2 ^ 64 := by
    rw [UInt64.toNat_shiftLeft, Nat.shiftLeft_eq]
    rfl
  have hhigh : (ctx.total0 >>> 61 ||| ctx.total1 <<< 3).toNat =
      2 ^ 3 * (ctx.total1.toNat % 2 ^ 61) + ctx.total0.toNat / 2 ^ 61 := by
    have hright : (ctx.total0 >>> 61).toNat = ctx.total0.toNat / 2 ^ 61 := by
      rw [UInt64.toNat_shiftRight, Nat.shiftRight_eq_div_pow]
      rfl
    have hleft : (ctx.total1 <<< 3).toNat = 2 ^ 3 * (ctx.total1.toNat % 2 ^ 61) := by
      rw [UInt64.toNat_shiftLeft, Nat.shiftLeft_eq, show (3 : UInt64).toNat % 64 = 3 from rfl]
      omega
    rw [UInt64.toNat_or, hright, hleft, Nat.or_comm, ← Nat.two_pow_add_eq_or_of_lt (by omega)]
  have hdigits : digits 16 (8 * m.length) = digits 8 (8 * m.length / 256 ^ 8) ++
      digits 8 (8 * m.length) := digits_add 8 8 _
  have hhigh' : 2 ^ 3 * (ctx.total1.toNat % 2 ^ 61) + ctx.total0.toNat / 2 ^ 61 =
      8 * m.length / 256 ^ 8 % 256 ^ 8 := by omega
  have hlow' : ctx.total0.toNat * 8 % 2 ^ 64 = 8 * m.length % 256 ^ 8 := by omega
  rw [putUint64Be_eq, putUint64Be_eq, hlow, hhigh, hdigits, hhigh', hlow', digits_mod, digits_mod]

/-- The bytes that `mbedtls_sha512_finish` takes from `sha512_padding`. -/
theorem padding_take (l : ℕ) :
    padding.take (if l % 128 < 112 then 112 - l % 128 else 240 - l % 128) =
      0x80 :: List.replicate ((239 - l % 128) % 128) 0 := by
  have hn : (if l % 128 < 112 then 112 - l % 128 else 240 - l % 128) =
      (239 - l % 128) % 128 + 1 := by
    split_ifs <;> omega
  rw [hn, padding, List.take_succ_cons, List.take_replicate, Nat.min_eq_left (by omega)]

/-- The padding fills the last block, behind at least one byte and the length. -/
theorem length_pad (l : ℕ) : (pad l).length = (239 - l % 128) % 128 + 17 := by
  rw [pad, List.length_append, List.length_cons, List.length_replicate, digits, List.length_map,
    List.length_range]

/-- The bytes of a chaining value are the output. -/
theorem words_bytes (r : Words) : r.bytes = output r := by
  simp only [Words.bytes, output, putUint64Be_eq]

/-- **The hash** of all bytes taken.

**Proof sketch.** The padding and the length are two more pieces for `Represents.update`, and
together they are `pad`; what is absorbed then has no rest. -/
theorem Represents.finish {ctx : Sha512Context} {m : Bytes} (h : Represents ctx m) :
    finish ctx = output (absorb 128 compress initial (m ++ pad m.length)).1 := by
  have hpadding := padding_take m.length
  rw [← h.left] at hpadding
  have hlen : (padding.take (if (ctx.total0 &&& 0x7F).toNat < 112
      then 112 - (ctx.total0 &&& 0x7F).toNat else 240 - (ctx.total0 &&& 0x7F).toNat)).length <
      2 ^ 64 := by
    rw [hpadding, List.length_cons, List.length_replicate, h.left]
    omega
  have hdigits : (digits 16 (8 * m.length)).length < 2 ^ 64 := by
    rw [digits, List.length_map, List.length_range]
    decide
  have hend := (h.update hlen).update hdigits
  have habsorbed := hend.absorbed
  rw [hpadding, h.left, List.append_assoc, ← pad] at habsorbed
  unfold Sha512.finish
  dsimp only
  rw [msglen_eq h, words_bytes, habsorbed, hpadding, h.left]

/-- **The hash of a message in pieces** is that of the standard.

**Proof sketch.** A context that represents the pieces taken so far represents one more piece after
`update`, and `finish` puts out the hash of what is represented. -/
theorem finish_foldl_update (pieces : List Bytes)
    (hpieces : ∀ input ∈ pieces, input.length < 2 ^ 64) :
    (finish (pieces.foldl update (starts init))).take 48 = Standard.sha384 pieces.flatten := by
  rw [(represents_starts.foldl_update pieces hpieces).finish]
  rfl

/-- Three pieces of which the second one fills the buffer. -/
theorem finish_foldl_update_three :
    let pieces : List Bytes := [[1, 2, 3], List.replicate 300 7, []]
    (finish (pieces.foldl update (starts init))).take 48 = Standard.sha384 pieces.flatten :=
  finish_foldl_update _ (by decide +kernel)

/-- `crypto_sha384` is SHA-384. -/
theorem cryptoSha384_eq {input : Bytes} (h : input.length < 2 ^ 64) :
    cryptoSha384 input = Standard.sha384 input := by
  rw [cryptoSha384, Sha512.sha384, (represents_starts.update h).finish]
  rfl

/-! ## Messages with the same output -/

/-- A number is written with as many bytes as asked for. -/
theorem length_digits (n x : ℕ) : (digits n x).length = n := by
  rw [digits, List.length_map, List.length_range]

/-- The digits determine a number that has no more of them. -/
theorem number_digits (n x : ℕ) : number (digits n x) = x % 256 ^ n := by
  induction n generalizing x with
  | zero => rw [Nat.pow_zero, Nat.mod_one]; rfl
  | succ n ih =>
    have hlast : digits 1 x = [UInt8.ofNat x] := by
      rw [digits, List.range_one, List.map_singleton, Nat.sub_self, Nat.pow_zero,
        Nat.div_one]
    rw [digits_add n 1, hlast, number_snoc, ih, UInt8.toNat_ofNat', Nat.pow_one, Nat.pow_succ,
      Nat.mul_comm _ 256, Nat.mod_mul, Nat.add_comm]

/-- Numbers that fit are told apart by their bytes.

**Proof sketch.** By induction on the number of bytes: the last one is the remainder modulo 256, the
others are those of the quotient. -/
theorem digits_inj {n x y : ℕ} (hx : x < 256 ^ n) (hy : y < 256 ^ n)
    (h : digits n x = digits n y) : x = y := by
  have hnumber := congrArg number h
  rwa [number_digits, number_digits, Nat.mod_eq_of_lt hx, Nat.mod_eq_of_lt hy] at hnumber

/-- The output determines the hash value.

**Proof sketch.** Word by word: eight bytes determine a word. -/
theorem output_inj {r q : Words} (h : output r = output q) : r = q := by
  have hword : ∀ x y : UInt64, digits 8 x.toNat = digits 8 y.toNat → x = y := fun x y hxy =>
    UInt64.toNat_inj.mp (digits_inj x.toNat_lt y.toNat_lt hxy)
  simp only [output, List.append_assoc] at h
  obtain ⟨ha, h⟩ := List.append_inj h (by rw [length_digits, length_digits])
  obtain ⟨hb, h⟩ := List.append_inj h (by rw [length_digits, length_digits])
  obtain ⟨hc, h⟩ := List.append_inj h (by rw [length_digits, length_digits])
  obtain ⟨hd, h⟩ := List.append_inj h (by rw [length_digits, length_digits])
  obtain ⟨he, h⟩ := List.append_inj h (by rw [length_digits, length_digits])
  obtain ⟨hf, h⟩ := List.append_inj h (by rw [length_digits, length_digits])
  obtain ⟨hg, hh⟩ := List.append_inj h (by rw [length_digits, length_digits])
  exact Words.ext (hword _ _ ha) (hword _ _ hb) (hword _ _ hc) (hword _ _ hd) (hword _ _ he)
    (hword _ _ hf) (hword _ _ hg) (hword _ _ hh)

/-- The number of blocks of a padded message, without the last one. -/
def innerBlocks (l : ℕ) : ℕ := (l + 16) / 128

/-- A padded message consists of whole blocks. -/
theorem length_padded (m : Bytes) :
    (m ++ pad m.length).length = 128 * (innerBlocks m.length + 1) := by
  rw [List.length_append, length_pad, innerBlocks]
  omega

/-- The last block ends with the length of the message. -/
theorem last_block (m : Bytes) :
    (((m ++ pad m.length).drop (128 * innerBlocks m.length)).take 128).drop 112 =
      digits 16 (8 * m.length) := by
  have hlen := length_padded m
  have hpad : m ++ pad m.length =
      (m ++ 0x80 :: List.replicate ((239 - m.length % 128) % 128) 0) ++
        digits 16 (8 * m.length) := by rw [pad, List.append_assoc]
  have hfront : 128 * innerBlocks m.length + 112 =
      (m ++ 0x80 :: List.replicate ((239 - m.length % 128) % 128) (0 : UInt8)).length := by
    rw [innerBlocks, List.length_append, List.length_cons, List.length_replicate]
    omega
  rw [List.take_of_length_le (by rw [List.length_drop]; omega), List.drop_drop, hfront, hpad,
    List.drop_left]

/-- The hash values and blocks to which the processing of a block is applied. -/
noncomputable def messageBlocks (m : Bytes) : List (Words × Bytes) :=
  compressions 128 compress (innerBlocks m.length + 1) initial (m ++ pad m.length)

/-- **Messages with the same output** of `SHA384` are equal, or two of their blocks clash: the
padding says how long a message is.

**Proof sketch.** The output is the hash value after the last block. Padded messages with the same
last block have the same length, so that they have the same number of blocks. -/
theorem sha384_binding {m m' : Bytes} (hm : m.length < 2 ^ 64) (hm' : m'.length < 2 ^ 64)
    (h : sha384 m = sha384 m') :
    m = m' ∨ Clash compress (messageBlocks m ++ messageBlocks m') := by
  rw [Sha512.sha384, Sha512.sha384, (represents_starts.update hm).finish,
    (represents_starts.update hm').finish, List.nil_append, List.nil_append] at h
  have hstate := output_inj h
  have hblocks : ∀ x : Bytes, (absorb 128 compress initial (x ++ pad x.length)).1 =
      absorbBlocks 128 compress (innerBlocks x.length + 1) initial (x ++ pad x.length) := by
    intro x
    rw [absorb, length_padded, Nat.mul_div_cancel_left _ (by decide)]
  rw [hblocks, hblocks] at hstate
  have hlast : ((m ++ pad m.length).drop (128 * innerBlocks m.length)).take 128 =
      ((m' ++ pad m'.length).drop (128 * innerBlocks m'.length)).take 128 →
        m.length = m'.length := by
    intro hlast
    have hdigits := congrArg (List.drop 112) hlast
    rw [last_block, last_block] at hdigits
    have hnat := digits_inj (by omega) (by omega) hdigits
    omega
  rcases eq_or_clash (length_padded m) (length_padded m') (fun h => by rw [hlast h]) hstate with
    hsame | hclash
  · have hcount : innerBlocks m.length = innerBlocks m'.length := by
      have hlen := congrArg List.length hsame
      rw [length_padded, length_padded] at hlen
      omega
    exact Or.inl (List.append_inj hsame (hlast (by rw [hsame, hcount]))).1
  · exact Or.inr hclash

/-- A message has the output of itself. -/
theorem sha384_binding_abc :
    ascii "abc" = ascii "abc" ∨
      Clash compress (messageBlocks (ascii "abc") ++ messageBlocks (ascii "abc")) :=
  sha384_binding (by decide) (by decide) rfl

end LedgerArweave.Sha512
