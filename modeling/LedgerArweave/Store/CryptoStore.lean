import LedgerArweave.Lib.Buffer
import LedgerArweave.Lib.Fallible
import LedgerArweave.Wire
import Mathlib.Logic.Function.Basic

set_option relaxedAutoImplicit false
set_option autoImplicit false

/-!
# The key store

`crypto_store.c`: two slots in flash, each with a master seed, the primes derived from it and
the RSA key pair generated from these, a signature per slot, and the RAM variables that say
which slot is in use. A slot is filled in stages, each with its own writes to flash, and every
stage can fail.

## Main definitions

* `Sdk` — the cryptographic functions of the Ledger SDK.
* `CryptoSlot`, `Flash`, `CryptoStore` — the persistent and the volatile state.
* `StoreM` — functions on the store that call the SDK and write to flash.
* `cryptoStoreInit`, `cryptoStoreInitTest`, `cryptoInitializeSlot` and the stages they consist of.

## Implementation notes

The SDK is a parameter: its functions are deterministic, and any single call may fail instead.
Which calls fail is an input of a run, `StoreRun.faults`, consumed call by call; a run that
uses up the list meets no more failures. `StoreRun.failed`, `StoreRun.written` and
`StoreRun.signed` are ghosts: whether a call has failed, the contents of the flash after every
write, and the signatures handed to `crypto_store_signature`.

What the functions put on the screen is left out, as is `APP_TESTING`.
-/

namespace LedgerArweave

/-! ## The SDK -/

/-- What the device derives its keys from. -/
abbrev Seed := Bytes

/-- `cx_rsa_4096_public_key_t` -/
structure RsaPublicKey where
  size : ℕ
  e : Block 4
  n : Block 512
deriving DecidableEq

/-- `cx_rsa_4096_private_key_t` -/
structure RsaPrivateKey where
  size : ℕ
  d : Block 512
  n : Block 512
deriving DecidableEq

/-- The functions of the SDK the store and the signer call. -/
structure Sdk where
  /-- `os_derive_bip32_with_seed_no_throw` on Ed25519 -/
  deriveBip32 : Seed → List ℕ → Block 64
  /-- `cx_hash_sha256` -/
  sha256 : Bytes → Block 32
  /-- `cx_math_next_prime_no_throw` -/
  nextPrime : Block 256 → Block 256
  /-- `cx_rsa_generate_pair_no_throw`: exponent and primes -/
  rsaGeneratePair : Bytes → Bytes → RsaPublicKey × RsaPrivateKey
  /-- `cx_rsa_sign_no_throw` with PSS padding: key, hash and salt -/
  rsaSign : RsaPrivateKey → Block 32 → Bytes → Block 512

/-! ## The state -/

/-- The first `n` bytes of memory that holds the given bytes. -/
def toBlock (n : ℕ) (b : Bytes) : Block n :=
  ⟨(b ++ List.replicate n 0).take n, by simp⟩

/-- The zero block. -/
def zeroBlock (n : ℕ) : Block n := ⟨List.replicate n 0, List.length_replicate⟩

/-- An entry of `crypto_store_t` -/
structure CryptoSlot where
  masterSeed : Block 32
  pq : Bytes
  rsaPub : RsaPublicKey
  rsaPriv : RsaPrivateKey
  initialized : Bool
deriving DecidableEq

/-- `N_crypto_store` and `N_crypto_sig` -/
structure Flash where
  slots : Fin 2 → CryptoSlot
  sigs : Fin 2 → Block 512

/-- `KEY_SLOT_1` -/
def keySlot1 : Fin 2 := 0

/-- `KEY_SLOT_2` -/
def keySlot2 : Fin 2 := 1

/-- The flash and the variables `slot_in_use`, `device_initialized` and `signature_set`. -/
structure CryptoStore where
  flash : Flash
  slotInUse : Fin 2
  deviceInitialized : Bool
  signatureSet : UInt8

/-- A slot of zero bytes. -/
def CryptoSlot.zero : CryptoSlot :=
  ⟨zeroBlock 32, (zeroBlock 512).val, ⟨0, zeroBlock 4, zeroBlock 512⟩,
    ⟨0, zeroBlock 512, zeroBlock 512⟩, false⟩

/-- The flash of a freshly installed app. -/
def Flash.zero : Flash := ⟨fun _ => .zero, fun _ => zeroBlock 512⟩

/-- The store after a reset: the flash persists, the variables have their initial values. -/
def CryptoStore.reset (fl : Flash) : CryptoStore := ⟨fl, keySlot1, false, 0⟩

/-- Change one slot. -/
def Flash.setSlot (fl : Flash) (i : Fin 2) (f : CryptoSlot → CryptoSlot) : Flash :=
  { fl with slots := Function.update fl.slots i (f (fl.slots i)) }

/-- Change one signature. -/
def Flash.setSig (fl : Flash) (i : Fin 2) (sig : Block 512) : Flash :=
  { fl with sigs := Function.update fl.sigs i sig }

/-- The slot in use. -/
def CryptoStore.current (st : CryptoStore) : CryptoSlot := st.flash.slots st.slotInUse

/-! ## Functions on the store -/

/-- `zxerr_t` without `zxerr_ok` -/
inductive ZxErr where
  | unknown
  | noData
  | bufferTooSmall
  | outOfBounds
  | invalidCryptoSettings
deriving DecidableEq

/-- A store, the failures to come, and the ghosts. -/
structure StoreRun where
  store : CryptoStore
  faults : List Bool
  failed : Bool
  written : List Flash
  signed : List (Block 512)

/-- Functions on the store. -/
abbrev StoreM := Fallible ZxErr StoreRun

/-- Start a run. -/
def CryptoStore.start (st : CryptoStore) (faults : List Bool) : StoreRun :=
  ⟨st, faults, false, [], []⟩

/-- The store. -/
def getStore : StoreM CryptoStore := do
  return (← get).store

/-- Change the variables in RAM. -/
def modifyStore (f : CryptoStore → CryptoStore) : StoreM Unit :=
  modify fun r => { r with store := f r.store }

/-- Change the flash and record its new contents. -/
def StoreRun.write (r : StoreRun) (f : Flash → Flash) : StoreRun :=
  { r with
    store := { r.store with flash := f r.store.flash }
    written := r.written ++ [f r.store.flash] }

/-- `MEMCPY_NV` and `SET_NV`: one write to flash. -/
def writeNv (f : Flash → Flash) : StoreM Unit := modify fun r => r.write f

/-- A call of the SDK: its result, or nothing if the call fails. -/
def sdkCall {α : Type} (result : α) : StoreM (Option α) := do
  match (← get).faults with
  | true :: rest =>
    modify fun r => { r with faults := rest, failed := true }
    return none
  | false :: rest =>
    modify fun r => { r with faults := rest }
    return some result
  | [] => return some result

/-! ### Signatures -/

/-- `RSA_MODULUS_HALVE` -/
def rsaModulusHalve : ℕ := 256

/-- Bytes `index * RSA_MODULUS_HALVE` to the next half of a 512-byte block. -/
def halve (b : Block 512) (index : ℕ) : Bytes :=
  (b.val.drop (index * rsaModulusHalve)).take rsaModulusHalve

/-- `crypto_store_signature` -/
def cryptoStoreSignature (sig : Block 512) : StoreM Unit := do
  let st ← getStore
  modify fun r => { r with signed := r.signed ++ [sig] }
  writeNv fun fl => fl.setSig st.slotInUse sig
  modifyStore fun st => { st with signatureSet := 1 }

/-- `is_sig_set` -/
def isSigSet (st : CryptoStore) : Bool := st.signatureSet == 1

/-- `crypto_signature_part` -/
def cryptoSignaturePart (index : ℕ) : StoreM Bytes := do
  let st ← getStore
  if st.signatureSet ≠ 1 then throw .invalidCryptoSettings
  if index > 1 then throw .outOfBounds
  let sig := halve (st.flash.sigs st.slotInUse) index
  if index = 1 then
    writeNv fun fl => fl.setSig st.slotInUse (zeroBlock 512)
    modifyStore fun st => { st with signatureSet := 0 }
  return sig

/-! ### Deriving the keys -/

/-- `crypto_store_slot_is_initialized` -/
def cryptoStoreSlotIsInitialized (st : CryptoStore) (slot : Fin 2) : Bool :=
  (st.flash.slots slot).initialized

/-- `crypto_store_is_initialized` -/
def cryptoStoreIsInitialized (st : CryptoStore) : Bool := st.current.initialized

/-- `master_path` -/
def masterPath : List ℕ := [0x8000002c, 0x800001d8, 0x80000000, 0x80000000, 0x80000000]

/-- `RSA_PRIME_LEN` -/
def rsaPrimeLen : ℕ := 256

section Derive

variable (sdk : Sdk) (seed : Seed)

/-- The first `MASTERSEED_LEN` bytes of what is derived from the seed. -/
def masterSeedOf : Block 32 :=
  ⟨(sdk.deriveBip32 seed masterPath).val.take 32, by
    rw [List.length_take, (sdk.deriveBip32 seed masterPath).property]
    rfl⟩

/-- `crypto_deriveMasterSeed` -/
def cryptoDeriveMasterSeed : StoreM Unit := do
  match ← sdkCall (masterSeedOf sdk seed) with
  | none => throw .unknown
  | some masterSeed =>
    let st ← getStore
    writeNv fun fl => fl.setSlot st.slotInUse fun c => { c with masterSeed := masterSeed }

/-- `same_masterseed` -/
def sameMasterseed (slot : Fin 2) : StoreM Bool := do
  if slot.val > 1 then return false
  match ← sdkCall (masterSeedOf sdk seed) with
  | none => return false
  | some masterSeed => return decide (((← getStore).flash.slots slot).masterSeed = masterSeed)

/-- What `crypto_derivePrime` hashes: `0`, the index of the prime, the master seed and the
number of the hash. -/
def primeData (index : ℕ) (masterSeed : Block 32) (hashIndex : ℕ) : Bytes :=
  [0, UInt8.ofNat index] ++ masterSeed.val ++ [UInt8.ofNat hashIndex]

/-- The loop of `crypto_derivePrime`: as many hashes as the first argument says, one after
another from the position of `prime`. -/
def fillHashes (data : ℕ → Bytes) : ℕ → ℕ → ℕ → Bytes → StoreM Bytes
  | 0, _, _, mem => pure mem
  | k + 1, hashIndex, prime, mem => do
    match ← sdkCall (sdk.sha256 (data hashIndex)) with
    | none => throw .unknown
    | some h => fillHashes data k (hashIndex + 1) (prime + 32) (overwrite mem prime h.val)

/-- `crypto_derivePrime` for primes of `primeLen` bytes; `prime` is a position in `mem`. -/
def cryptoDerivePrime (primeLen : ℕ) (mem : Bytes) (prime index : ℕ) : StoreM Bytes := do
  let masterSeed := (← getStore).current.masterSeed
  let data := primeData index masterSeed
  let numHashes := primeLen * 8 / 256 % 65536
  if numHashes > 255 then throw .bufferTooSmall
  let remainder := primeLen * 8 % 256
  let mem ← fillHashes sdk data numHashes 0 prime mem
  if remainder > 0 then
    match ← sdkCall (sdk.sha256 (data numHashes)) with
    | none => throw .unknown
    | some h =>
      return overwrite mem (prime + 32 * numHashes) (h.val.take (remainder / 8 + 1))
  else return mem

/-- `*p |= 0x80` -/
def setTopBit (mem : Bytes) (p : ℕ) : Bytes := mem.modify p fun b => b ||| 0x80

/-- `crypto_init_primes` -/
def cryptoInitPrimes : StoreM Unit := do
  let pq ← cryptoDerivePrime sdk rsaPrimeLen (List.replicate (rsaPrimeLen * 2) 0) 0 0
  let pq ← cryptoDerivePrime sdk rsaPrimeLen pq rsaPrimeLen 1
  let pq := setTopBit (setTopBit pq 0) rsaPrimeLen
  match ← sdkCall (sdk.nextPrime (toBlock 256 (pq.take rsaPrimeLen))) with
  | none => throw .unknown
  | some p =>
    let pq := overwrite pq 0 p.val
    match ← sdkCall (sdk.nextPrime (toBlock 256 (pq.drop rsaPrimeLen))) with
    | none => throw .unknown
    | some q =>
      let pq := overwrite pq rsaPrimeLen q.val
      let st ← getStore
      writeNv fun fl => fl.setSlot st.slotInUse fun c => { c with pq := pq }

/-- `exp_be_buf` -/
def expBeBuf : Bytes := [0x00, 0x01, 0x00, 0x01]

/-- `crypto_init_keys`. The slot is marked initialized before the keys are written. -/
def cryptoInitKeys : StoreM Unit := do
  let st ← getStore
  match ← sdkCall (sdk.rsaGeneratePair expBeBuf st.current.pq) with
  | none => throw .unknown
  | some (rsaPub, rsaPriv) =>
    writeNv fun fl => fl.setSlot st.slotInUse fun c => { c with initialized := true }
    writeNv fun fl => fl.setSlot st.slotInUse fun c => { c with rsaPub := rsaPub }
    writeNv fun fl => fl.setSlot st.slotInUse fun c => { c with rsaPriv := rsaPriv }

/-- `crypto_uninitialized_slot`. The public key stays. -/
def cryptoUninitializedSlot (slot : Fin 2) : StoreM Unit := do
  if slot.val > 1 then throw .outOfBounds
  writeNv fun fl => fl.setSlot slot fun c => { c with pq := (zeroBlock 512).val }
  writeNv fun fl => fl.setSlot slot fun c =>
    { c with rsaPriv := ⟨0, zeroBlock 512, zeroBlock 512⟩ }
  writeNv fun fl => fl.setSlot slot fun c => { c with masterSeed := zeroBlock 32 }
  writeNv fun fl => fl.setSlot slot fun c => { c with initialized := false }

/-- `crypto_initialize_slot` -/
def cryptoInitializeSlot : StoreM Unit := do
  cryptoDeriveMasterSeed sdk seed
  cryptoInitPrimes sdk
  cryptoInitKeys sdk
  modifyStore fun st => { st with deviceInitialized := true }

/-- `slot_in_use = slot` -/
def useSlot (slot : Fin 2) : StoreM Unit := modifyStore fun st => { st with slotInUse := slot }

/-- `crypto_store_init` -/
def cryptoStoreInit : StoreM Unit := do
  if ¬ cryptoStoreSlotIsInitialized (← getStore) keySlot1 then
    useSlot keySlot1
    cryptoInitializeSlot sdk seed
  else if ← sameMasterseed sdk seed keySlot1 then
    useSlot keySlot1
  else if ¬ cryptoStoreSlotIsInitialized (← getStore) keySlot2 then
    useSlot keySlot2
    cryptoInitializeSlot sdk seed
  else if ← sameMasterseed sdk seed keySlot2 then
    useSlot keySlot2
  else
    cryptoUninitializedSlot keySlot1
    cryptoUninitializedSlot keySlot2
    useSlot keySlot1
    cryptoInitializeSlot sdk seed

/-- `crypto_store_init_test` -/
def cryptoStoreInitTest : StoreM Bool := do
  if ¬ cryptoStoreSlotIsInitialized (← getStore) keySlot1 then
    return false
  else if ← sameMasterseed sdk seed keySlot1 then
    useSlot keySlot1
    return true
  else if ¬ cryptoStoreSlotIsInitialized (← getStore) keySlot2 then
    return false
  else if ← sameMasterseed sdk seed keySlot2 then
    useSlot keySlot2
    return true
  else
    return false

/-! ### Start-up -/

/-- What `crypto_store_init_test` returns at a boot, and whether a call of the SDK has failed in
it. -/
structure BootReport where
  found : Bool
  failed : Bool

/-- The run of `crypto_store_init_test` after a reset. -/
def bootRun (fl : Flash) (faults : List Bool) : Except ZxErr Bool × StoreRun :=
  (cryptoStoreInitTest sdk seed).exec ((CryptoStore.reset fl).start faults)

/-- The part of `main` that looks for the keys of the seed after a reset. -/
def bootStore (fl : Flash) (faults : List Bool) : CryptoStore × BootReport :=
  let run := bootRun sdk seed fl faults
  let found := match run.1 with
    | .ok b => b
    | .error _ => false
  ({ run.2.store with deviceInitialized := found }, ⟨found, run.2.failed⟩)

/-- The run of `crypto_store_init`. -/
def storeInitRun (st : CryptoStore) (faults : List Bool) : StoreRun :=
  ((cryptoStoreInit sdk seed).exec (st.start faults)).2

/-- The screen that calls `crypto_store_init`; `main` shows it only if no keys were found. -/
def initializeStore (st : CryptoStore) (faults : List Bool) : CryptoStore :=
  if st.deviceInitialized then st else (storeInitRun sdk seed st faults).store

end Derive

/-! ### The keys in use -/

/-- `crypto_store_get_pubkey` -/
def cryptoStoreGetPubkey (st : CryptoStore) : Option RsaPublicKey :=
  if ¬ cryptoStoreIsInitialized st then none else some st.current.rsaPub

/-- `crypto_store_get_privkey` -/
def cryptoStoreGetPrivkey (st : CryptoStore) : Option RsaPrivateKey :=
  if ¬ cryptoStoreIsInitialized st then none else some st.current.rsaPriv

/-- `crypto_pubkey_part` -/
def cryptoPubkeyPart (st : CryptoStore) (index : ℕ) : Except ZxErr Bytes :=
  if ¬ cryptoStoreIsInitialized st then .error .invalidCryptoSettings
  else if index > 1 then .error .outOfBounds
  else
    match cryptoStoreGetPubkey st with
    | none => .error .invalidCryptoSettings
    | some rsaPubkey => .ok (halve rsaPubkey.n index)

end LedgerArweave
