import LedgerArweave.Lib.Blocks
import LedgerArweave.Lib.Buffer
import LedgerArweave.Wire

set_option relaxedAutoImplicit false
set_option autoImplicit false

/-!
# SHA-384 of the host build

`sha512.c`, from which the builds that do not run on a device take SHA-384, and the function of
`crypto_helper.c` that calls it. A message is taken in pieces of any length; what does not fill a
block waits in the buffer of the context.

## Main definitions

* `Sha512Context` — `mbedtls_sha512_context`.
* `starts`, `process`, `update`, `finish`, `sha384` — the functions of `sha512.c`.
* `cryptoSha384` — `crypto_sha384`.

## Implementation notes

The macros are functions, and an array that is filled from its beginning is the list of what has
been written. `secure_wipe` clears a context that is not used any more, and is left out.
-/

namespace LedgerArweave.Sha512

/-! ## The context -/

/-- The eight words of `state`, which are also the variables `A` to `H`. -/
@[ext]
structure Words where
  a : UInt64
  b : UInt64
  c : UInt64
  d : UInt64
  e : UInt64
  f : UInt64
  g : UInt64
  h : UInt64
  deriving DecidableEq

/-- `mbedtls_sha512_context` -/
@[ext]
structure Sha512Context where
  /-- `total[0]`, the lower word of the number of bytes processed. -/
  total0 : UInt64
  /-- `total[1]`, the upper word. -/
  total1 : UInt64
  state : Words
  buffer : Bytes

/-- `GET_UINT64_BE` -/
def getUint64Be (b : Bytes) (i : ℕ) : UInt64 :=
  (b.getD i 0).toUInt64 <<< 56 ||| (b.getD (i + 1) 0).toUInt64 <<< 48 |||
    (b.getD (i + 2) 0).toUInt64 <<< 40 ||| (b.getD (i + 3) 0).toUInt64 <<< 32 |||
    (b.getD (i + 4) 0).toUInt64 <<< 24 ||| (b.getD (i + 5) 0).toUInt64 <<< 16 |||
    (b.getD (i + 6) 0).toUInt64 <<< 8 ||| (b.getD (i + 7) 0).toUInt64

/-- The bytes that `PUT_UINT64_BE` writes. -/
def putUint64Be (n : UInt64) : Bytes :=
  [(n >>> 56).toUInt8, (n >>> 48).toUInt8, (n >>> 40).toUInt8, (n >>> 32).toUInt8,
    (n >>> 24).toUInt8, (n >>> 16).toUInt8, (n >>> 8).toUInt8, n.toUInt8]

/-- `mbedtls_sha512_init` -/
def init : Sha512Context := ⟨0, 0, ⟨0, 0, 0, 0, 0, 0, 0, 0⟩, List.replicate 128 0⟩

/-- `mbedtls_sha512_starts` -/
def starts (ctx : Sha512Context) : Sha512Context :=
  { ctx with
    total0 := 0
    total1 := 0
    state := ⟨0xcbbb9d5dc1059ed8, 0x629a292a367cd507, 0x9159015a3070dd17, 0x152fecd8f70e5939,
      0x67332667ffc00b31, 0x8eb44a8768581511, 0xdb0c2e0d64f98fa7, 0x47b5481dbefa4fa4⟩ }

/-! ## One block -/

/-- The round constants `K`. -/
def roundConstants : List UInt64 :=
  [0x428A2F98D728AE22, 0x7137449123EF65CD, 0xB5C0FBCFEC4D3B2F, 0xE9B5DBA58189DBBC,
   0x3956C25BF348B538, 0x59F111F1B605D019, 0x923F82A4AF194F9B, 0xAB1C5ED5DA6D8118,
   0xD807AA98A3030242, 0x12835B0145706FBE, 0x243185BE4EE4B28C, 0x550C7DC3D5FFB4E2,
   0x72BE5D74F27B896F, 0x80DEB1FE3B1696B1, 0x9BDC06A725C71235, 0xC19BF174CF692694,
   0xE49B69C19EF14AD2, 0xEFBE4786384F25E3, 0x0FC19DC68B8CD5B5, 0x240CA1CC77AC9C65,
   0x2DE92C6F592B0275, 0x4A7484AA6EA6E483, 0x5CB0A9DCBD41FBD4, 0x76F988DA831153B5,
   0x983E5152EE66DFAB, 0xA831C66D2DB43210, 0xB00327C898FB213F, 0xBF597FC7BEEF0EE4,
   0xC6E00BF33DA88FC2, 0xD5A79147930AA725, 0x06CA6351E003826F, 0x142929670A0E6E70,
   0x27B70A8546D22FFC, 0x2E1B21385C26C926, 0x4D2C6DFC5AC42AED, 0x53380D139D95B3DF,
   0x650A73548BAF63DE, 0x766A0ABB3C77B2A8, 0x81C2C92E47EDAEE6, 0x92722C851482353B,
   0xA2BFE8A14CF10364, 0xA81A664BBC423001, 0xC24B8B70D0F89791, 0xC76C51A30654BE30,
   0xD192E819D6EF5218, 0xD69906245565A910, 0xF40E35855771202A, 0x106AA07032BBD1B8,
   0x19A4C116B8D2D0C8, 0x1E376C085141AB53, 0x2748774CDF8EEB99, 0x34B0BCB5E19B48A8,
   0x391C0CB3C5C95A63, 0x4ED8AA4AE3418ACB, 0x5B9CCA4F7763E373, 0x682E6FF3D6B2B8A3,
   0x748F82EE5DEFB2FC, 0x78A5636F43172F60, 0x84C87814A1F0AB72, 0x8CC702081A6439EC,
   0x90BEFFFA23631E28, 0xA4506CEBDE82BDE9, 0xBEF9A3F7B2C67915, 0xC67178F2E372532B,
   0xCA273ECEEA26619C, 0xD186B8C721C0C207, 0xEADA7DD6CDE0EB1E, 0xF57D4F7FEE6ED178,
   0x06F067AA72176FBA, 0x0A637DC5A2C898A6, 0x113F9804BEF90DAE, 0x1B710B35131C471B,
   0x28DB77F523047D84, 0x32CAAB7B40C72493, 0x3C9EBE0A15C9BEBC, 0x431D67C49C100D4C,
   0x4CC5D4BECB3E42B6, 0x597F299CFC657E2A, 0x5FCB6FAB3AD6FAEC, 0x6C44198C4A475817]

/-- `SHR` -/
def shr (x n : UInt64) : UInt64 := x >>> n

/-- `ROTR` -/
def rotr (x n : UInt64) : UInt64 := shr x n ||| x <<< (64 - n)

/-- `S0` -/
def s0 (x : UInt64) : UInt64 := rotr x 1 ^^^ rotr x 8 ^^^ shr x 7

/-- `S1` -/
def s1 (x : UInt64) : UInt64 := rotr x 19 ^^^ rotr x 61 ^^^ shr x 6

/-- `S2` -/
def s2 (x : UInt64) : UInt64 := rotr x 28 ^^^ rotr x 34 ^^^ rotr x 39

/-- `S3` -/
def s3 (x : UInt64) : UInt64 := rotr x 14 ^^^ rotr x 18 ^^^ rotr x 41

/-- `F0` -/
def f0 (x y z : UInt64) : UInt64 := (x &&& y) ||| (z &&& (x ||| y))

/-- `F1` -/
def f1 (x y z : UInt64) : UInt64 := z ^^^ (x &&& (y ^^^ z))

/-- What `P` leaves in `d` and `h`; it does not change its other arguments. -/
def p (a b c d e f g h x k : UInt64) : UInt64 × UInt64 :=
  let temp1 := h + s3 e + f1 e f g + k + x
  let temp2 := s2 a + f0 a b c
  (d + temp1, temp1 + temp2)

/-- The first loop of `mbedtls_sha512_process`, which reads the words of the block. -/
def blockWords (data : Bytes) : List UInt64 :=
  (List.range 16).map fun i => getUint64Be data (i <<< 3)

/-- The next `n` rounds of the second loop; `i` is the length of what has been written. -/
def expandWords : ℕ → List UInt64 → List UInt64
  | 0, w => w
  | n + 1, w =>
    let i := w.length
    expandWords n (w ++ [s1 (w.getD (i - 2) 0) + w.getD (i - 7) 0 + s0 (w.getD (i - 15) 0) +
      w.getD (i - 16) 0])

/-- `W` -/
def messageWords (data : Bytes) : List UInt64 := expandWords 64 (blockWords data)

/-- The body of the third loop: eight rounds, in each of which the variables move on by one. -/
def eightRounds (w : List UInt64) (r : Words) (i : ℕ) : Words :=
  let x (j : ℕ) := w.getD j 0
  let k (j : ℕ) := roundConstants.getD j 0
  let ⟨a, b, c, d, e, f, g, h⟩ := r
  let (d, h) := p a b c d e f g h (x i) (k i)
  let (c, g) := p h a b c d e f g (x (i + 1)) (k (i + 1))
  let (b, f) := p g h a b c d e f (x (i + 2)) (k (i + 2))
  let (a, e) := p f g h a b c d e (x (i + 3)) (k (i + 3))
  let (h, d) := p e f g h a b c d (x (i + 4)) (k (i + 4))
  let (g, c) := p d e f g h a b c (x (i + 5)) (k (i + 5))
  let (f, b) := p c d e f g h a b (x (i + 6)) (k (i + 6))
  let (e, a) := p b c d e f g h a (x (i + 7)) (k (i + 7))
  ⟨a, b, c, d, e, f, g, h⟩

/-- The additions at the end of `mbedtls_sha512_process`. -/
def addWords (r q : Words) : Words :=
  ⟨r.a + q.a, r.b + q.b, r.c + q.c, r.d + q.d, r.e + q.e, r.f + q.f, r.g + q.g, r.h + q.h⟩

/-- `mbedtls_sha512_process`; the third loop is run for `i` from 0 in steps of 8 below 80. -/
def process (ctx : Sha512Context) (data : Bytes) : Sha512Context :=
  let w := messageWords data
  let r := (List.range 10).foldl (fun r j => eightRounds w r (8 * j)) ctx.state
  { ctx with state := addWords ctx.state r }

/-! ## Messages -/

/-- The loop of `mbedtls_sha512_update`, with what is left of the input. It is run less often
than the input has bytes. -/
def processBlocks : ℕ → Sha512Context → Bytes → Sha512Context × Bytes
  | 0, ctx, input => (ctx, input)
  | n + 1, ctx, input =>
    if 128 ≤ input.length then
      processBlocks n (process ctx (input.take 128)) (input.drop 128)
    else (ctx, input)

/-- `mbedtls_sha512_update` from its loop on. -/
def updateRest (ctx : Sha512Context) (left : ℕ) (input : Bytes) : Sha512Context :=
  let (ctx, input) := processBlocks input.length ctx input
  if 0 < input.length then { ctx with buffer := overwrite ctx.buffer left input } else ctx

/-- `mbedtls_sha512_update` -/
def update (ctx : Sha512Context) (input : Bytes) : Sha512Context :=
  if input.length = 0 then ctx
  else
    let ilen := UInt64.ofNat input.length
    let left := (ctx.total0 &&& 0x7F).toNat
    let fill := 128 - left
    let ctx := { ctx with total0 := ctx.total0 + ilen }
    let ctx := if ctx.total0 < ilen then { ctx with total1 := ctx.total1 + 1 } else ctx
    if left ≠ 0 ∧ fill ≤ input.length then
      let ctx := { ctx with buffer := overwrite ctx.buffer left (input.take fill) }
      updateRest (process ctx ctx.buffer) 0 (input.drop fill)
    else updateRest ctx left input

/-- `sha512_padding` -/
def padding : Bytes := 0x80 :: List.replicate 127 0

/-- The bytes of the eight words, as `mbedtls_sha512_finish` writes them. -/
def Words.bytes (r : Words) : Bytes :=
  putUint64Be r.a ++ putUint64Be r.b ++ putUint64Be r.c ++ putUint64Be r.d ++ putUint64Be r.e ++
    putUint64Be r.f ++ putUint64Be r.g ++ putUint64Be r.h

/-- `mbedtls_sha512_finish`, with what it writes over the 64 bytes of `output`. -/
def finish (ctx : Sha512Context) : Bytes :=
  let high := ctx.total0 >>> 61 ||| ctx.total1 <<< 3
  let low := ctx.total0 <<< 3
  let msglen := putUint64Be high ++ putUint64Be low
  let last := (ctx.total0 &&& 0x7F).toNat
  let padn := if last < 112 then 112 - last else 240 - last
  let ctx := update ctx (padding.take padn)
  let ctx := update ctx msglen
  ctx.state.bytes

/-- `SHA384`; all 64 bytes of the buffer are written. -/
def sha384 (input : Bytes) : Bytes := finish (update (starts init) input)

/-- `crypto_sha384` of the host build. -/
def cryptoSha384 (input : Bytes) : Bytes := (sha384 input).take 48

example : cryptoSha384 [2] =
    [0xdb, 0x47, 0x52, 0x40, 0x47, 0x7c, 0x5e, 0x44, 0x97, 0xa2, 0xc5, 0x72,
      0x4c, 0xa4, 0x85, 0xf5, 0xb1, 0xf2, 0xc2, 0xfc, 0x06, 0x02, 0xb9, 0x2b,
      0xae, 0x23, 0x42, 0x38, 0xec, 0x8d, 0x4e, 0x87, 0x3a, 0x71, 0x48, 0xc7,
      0x39, 0x59, 0x3e, 0x95, 0xa7, 0xf4, 0xdf, 0xe7, 0xc6, 0xe6, 0x9f, 0x69] := by
  decide +kernel

end LedgerArweave.Sha512
