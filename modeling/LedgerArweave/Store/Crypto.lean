import LedgerArweave.Parser.B64url
import LedgerArweave.Parser.Digest
import LedgerArweave.Store.CryptoStore

set_option relaxedAutoImplicit false
set_option autoImplicit false

/-!
# Signing and addresses

`crypto.c`: the functions the handlers use to hand out the public key, the address and the
signature, and to sign the transaction the parser holds.

## Main definitions

* `cryptoGetpubkeyPart`, `cryptoGetsignaturePart`, `cryptoFillAddress` — what is handed out.
* `cryptoSign` — sign the parsed transaction and store the signature.

## Implementation notes

The salt of the PSS padding is random; it is an argument of `cryptoSign`. SHA-384 is the
parameter `H` of the digest functions, which may fail as a whole like any call of the SDK.
`crypto_sign` does not check `cx_hash_sha256`, and it is assumed not to fail there: it is documented
to fail only if the output has no room for the 32 bytes of the hash, and here it has. Where its
result is checked, it may fail like the other calls.
-/

namespace LedgerArweave

/-- `MIN_BUFFER_LEN` -/
def minBufferLen : ℕ := 256

/-- `crypto_getpubkey_part` -/
def cryptoGetpubkeyPart (st : CryptoStore) (bufferLen index : ℕ) : Except ZxErr Bytes :=
  if ¬ cryptoStoreIsInitialized st ∨ bufferLen < minBufferLen then .error .invalidCryptoSettings
  else cryptoPubkeyPart st index

/-- `crypto_getsignature_part` -/
def cryptoGetsignaturePart (bufferLen index : ℕ) : StoreM Bytes := do
  if ¬ isSigSet (← getStore) ∨ bufferLen < minBufferLen then throw .invalidCryptoSettings
  cryptoSignaturePart index

section Sdk

variable (sdk : Sdk)

/-- `crypto_sign`: the digest, after the signature has been stored. The call of `cx_hash_sha256` is
not checked and taken as total. -/
def cryptoSign (H : Bytes → Digest) (m : Memory) (tx : ParserTx) (signatureMaxlen : ℕ)
    (salt : Bytes) : StoreM Bytes := do
  if ¬ cryptoStoreIsInitialized (← getStore) then throw .invalidCryptoSettings
  if signatureMaxlen < sha384DigestLen then throw .bufferTooSmall
  match ← sdkCall (parserGetDigest H m tx sha384DigestLen).val with
  | none => throw .unknown
  | some (.error _) => throw .unknown
  | some (.ok digest) =>
    match cryptoStoreGetPrivkey (← getStore) with
    | none => throw .invalidCryptoSettings
    | some rsaPrivkey =>
      let digestsmall := sdk.sha256 digest
      match ← sdkCall (sdk.rsaSign rsaPrivkey digestsmall salt) with
      | none => throw .unknown
      | some sig =>
        cryptoStoreSignature sig
        return digest

/-- The sizes of `answer_t` and of its address field. -/
def answerLen : ℕ := 47

/-- `sizeof_field(answer_t, addrStr)` -/
def addrStrLen : ℕ := 43

/-- `crypto_fillAddress`: the address text. -/
def cryptoFillAddress (bufferLen : ℕ) : StoreM Bytes := do
  let st ← getStore
  if ¬ cryptoStoreIsInitialized st then throw .invalidCryptoSettings
  if bufferLen < answerLen then throw .bufferTooSmall
  match cryptoStoreGetPubkey st with
  | none => throw .invalidCryptoSettings
  | some rsaPubkey =>
    match ← sdkCall (sdk.sha256 (rsaPubkey.n.val.take rsaPubkey.size)) with
    | none => throw .unknown
    | some hashPubkey =>
      let (addrStr, len) := b64urlEncode (List.replicate addrStrLen 0) 1 hashPubkey.val
      if len = 0 then throw .unknown
      return addrStr

end Sdk

end LedgerArweave
