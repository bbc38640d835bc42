import LedgerArweave.Hash.Message
import LedgerArweave.Parser.Digest

set_option relaxedAutoImplicit false
set_option autoImplicit false

/-!
# The digest of the host build

With `crypto_sha384` of the host build for the hash function, `parser_getDigest` is a program
without parameters: the digest it returns for a transaction is Arweave's deep hash of the
transaction over the standard SHA-384.

## Main definitions

* `Sha512.hostSha384`, `Sha512.Standard.hash` — the two hash functions, with 48 bytes of output.

## Main results

* `deepHash_congr` — the deep hash applies the hash function to short words only.
* `hostDigest_deepHash` — the digest of the host build.
-/

namespace LedgerArweave

open TreeHash (Item)

/-! ## Short words -/

section Congr

variable {H H' : Bytes → Digest}

mutual

/-- Hash functions that agree on short words give the same deep hash.

**Proof sketch.** By recursion on the item. All words that are hashed are short: contents by
assumption, texts of tags because lengths have five digits, pairs because digests have 48 bytes. -/
theorem deepHash_congr (h : ∀ w : Bytes, w.length < 65536 → H w = H' w) (x : Item UInt8)
    (hx : x.Fits 65536) : deepHash H x = deepHash H' x := by
  cases x with
  | blob data =>
    have hdata : data.length < 65536 := by rwa [Item.Fits] at hx
    have hdec := length_decimal_le hdata
    have hname : (ascii "blob").length = 4 := by decide
    rw [deepHash, deepHash, h data hdata,
      h (ascii "blob" ++ decimal data.length) (by rw [List.length_append]; omega), h]
    rw [List.length_append, (H' _).property, (H' _).property]
    decide
  | list items =>
    obtain ⟨hcount, hitems⟩ : items.length < 65536 ∧ ∀ y ∈ items, y.Fits 65536 := by
      rwa [Item.Fits] at hx
    have hdec := length_decimal_le hcount
    have hname : (ascii "list").length = 4 := by decide
    rw [deepHash, deepHash, h (ascii "list" ++ decimal items.length)
      (by rw [List.length_append]; omega)]
    exact deepHashItems_congr h _ items hitems

/-- Hash functions that agree on short words give the same hashes of lists. -/
theorem deepHashItems_congr (h : ∀ w : Bytes, w.length < 65536 → H w = H' w) (acc : Digest)
    (xs : List (Item UInt8)) (hxs : ∀ y ∈ xs, y.Fits 65536) :
    deepHashItems H acc xs = deepHashItems H' acc xs := by
  cases xs with
  | nil => rfl
  | cons x xs =>
    rw [deepHashItems, deepHashItems, deepHash_congr h x (hxs x List.mem_cons_self), h]
    · exact deepHashItems_congr h _ xs fun y hy => hxs y (List.mem_cons_of_mem _ hy)
    · rw [List.length_append, acc.property, (deepHash H' x).property]
      decide

end

end Congr

/-! ## The two hash functions -/

namespace Sha512

/-- The output has 64 bytes. -/
theorem length_output (r : Words) : (Standard.output r).length = 64 := by
  simp only [Standard.output, List.length_append, length_digits]

/-- `crypto_sha384` returns 48 bytes. -/
theorem length_cryptoSha384 (input : Bytes) : (cryptoSha384 input).length = 48 := by
  rw [cryptoSha384, sha384, finish, words_bytes, List.length_take, length_output]
  rfl

/-- `crypto_sha384` of the host build. -/
def hostSha384 (input : Bytes) : Digest := ⟨cryptoSha384 input, length_cryptoSha384 input⟩

/-- SHA-384 with its length. -/
noncomputable def Standard.hash (message : Bytes) : Digest :=
  ⟨Standard.sha384 message, by rw [Standard.sha384, List.length_take, length_output]; rfl⟩

/-- On short words, the hash of the host build is that of the standard. -/
theorem hostSha384_eq {input : Bytes} (h : input.length < 65536) :
    hostSha384 input = Standard.hash input :=
  Subtype.ext (cryptoSha384_eq (Nat.lt_trans h (by decide)))

end Sha512

/-- **The digest of the host build.** For every transaction the parser accepts,
`parser_getDigest` returns the deep hash of its fields over SHA-384.

**Proof sketch.** `parser_getDigest` is the deep hash over any hash function, and that of the host
build agrees with the standard on the words it is asked for. -/
theorem hostDigest_deepHash {m : Memory} {dataLen : ℕ} {s s' : ParserState}
    (hmap : dataLen ≤ m.bytes.length)
    (hparse : (parserParse m m.base dataLen).exec s = (.ok (), s')) :
    (parserGetDigest Sha512.hostSha384 m s'.tx sha384DigestLen).val =
      .ok (deepHash Sha512.Standard.hash (s'.tx.fields m).item).val := by
  have hfits := fits_of_valid (valid_of_parserParse hmap hparse)
  rw [parserGetDigest_eq _ s'.tx hfits, Hashed.val_bind, val_hashItem,
    deepHash_congr (fun _ => Sha512.hostSha384_eq) _ hfits]
  rfl

/-- The digest of a small transaction. -/
theorem hostDigest_deepHash_sample :
    let m : Memory := ⟨1, transaction.encode (.small (List.replicate 512 0))⟩
    ∃ s', parseBuffer 1 m.bytes .zero = (.ok (), s') ∧
      (parserGetDigest Sha512.hostSha384 m s'.tx sha384DigestLen).val =
        .ok (deepHash Sha512.Standard.hash (s'.tx.fields m).item).val := by
  intro m
  obtain ⟨s', hs', -⟩ :=
    parseBuffer_small (List.length_replicate : (List.replicate 512 (0 : UInt8)).length = 512)
  exact ⟨s', hs', hostDigest_deepHash (m := m) le_rfl hs'⟩

end LedgerArweave
