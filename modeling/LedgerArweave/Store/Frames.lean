import LedgerArweave.Store.Crypto

set_option relaxedAutoImplicit false
set_option autoImplicit false

/-!
# What functions of the store leave alone

Only `crypto_sign` stores a signature, and handing out the address or the signature does not touch
the keys.

## Main definitions

* `StoreRun.SameStore` — the store is the same.
* `StoreRun.SameSigned` — no signature has been stored.
* `StoreRun.SameKeys` — moreover, the slots and the slot in use are the same.

## Main results

* `within_cryptoStoreInit`, `within_cryptoStoreInitTest` — setting up keys stores no signature.
* `within_cryptoGetsignaturePart`, `within_cryptoFillAddress` — handing out does not touch keys.
-/

namespace LedgerArweave

open Fallible

/-- No signature has been stored. -/
def StoreRun.SameSigned (r r' : StoreRun) : Prop := r'.signed = r.signed

/-- No signature has been stored and the keys are the same. -/
structure StoreRun.SameKeys (r r' : StoreRun) : Prop where
  signed : r'.signed = r.signed
  slots : r'.store.flash.slots = r.store.flash.slots
  slotInUse : r'.store.slotInUse = r.store.slotInUse
  deviceInitialized : r'.store.deviceInitialized = r.store.deviceInitialized

/-- The store is the same. -/
def StoreRun.SameStore (r r' : StoreRun) : Prop := r'.store = r.store

/-- A sequence leaves the store alone if its parts do. -/
instance : IsPreorder StoreRun StoreRun.SameStore where
  refl _ := rfl
  trans _ _ _ h h' := Eq.trans h' h

/-- A sequence stores no signature if its parts do not. -/
instance : IsPreorder StoreRun StoreRun.SameSigned where
  refl _ := rfl
  trans _ _ _ h h' := Eq.trans h' h

/-- A sequence keeps the keys if its parts do. -/
instance : IsPreorder StoreRun StoreRun.SameKeys where
  refl _ := ⟨rfl, rfl, rfl, rfl⟩
  trans _ _ _ h h' := ⟨h'.signed.trans h.signed, h'.slots.trans h.slots,
    h'.slotInUse.trans h.slotInUse, h'.deviceInitialized.trans h.deviceInitialized⟩

/-! ## The primitives -/

section Primitives

variable {R : StoreRun → StoreRun → Prop} [IsPreorder StoreRun R]

/-- Reading the store changes nothing. -/
theorem within_getStore : Within R getStore := within_get.bind fun _ => within_pure _

/-- A call of the SDK changes the failures to come and the record of failures only. -/
theorem within_sdkCall {α : Type} {x : α}
    (hR : ∀ (r : StoreRun) faults failed, R r { r with faults := faults, failed := failed }) :
    Within R (sdkCall x) := by
  intro r
  rcases hr : r with ⟨st, _ | ⟨_ | _, faults⟩, failed, written, signed⟩
  · exact refl_of R _
  · exact hR _ faults failed
  · exact hR _ faults true

/-- Writing to flash signs nothing. -/
theorem within_writeNv (f : Flash → Flash) : Within StoreRun.SameSigned (writeNv f) := fun _ => rfl

/-- Updating the store signs nothing. -/
theorem within_modifyStore (f : CryptoStore → CryptoStore) :
    Within StoreRun.SameSigned (modifyStore f) := fun _ => rfl

/-- A call of the SDK stores no signature. -/
theorem within_sdkCall_signed {α : Type} {x : α} : Within StoreRun.SameSigned (sdkCall x) :=
  within_sdkCall fun _ _ _ => rfl

end Primitives

/-! ## Setting up keys -/

section Derive

variable (sdk : Sdk) (seed : Seed)

/-- Deriving the master seed signs nothing. -/
theorem within_cryptoDeriveMasterSeed :
    Within StoreRun.SameSigned (cryptoDeriveMasterSeed sdk seed) := by
  refine within_sdkCall_signed.bind fun m => ?_
  cases m with
  | none => exact within_throw _
  | some m => exact within_getStore.bind fun _ => within_writeNv _

/-- Comparing the master seed of a slot signs nothing. -/
theorem within_sameMasterseed (slot : Fin 2) :
    Within StoreRun.SameSigned (sameMasterseed sdk seed slot) := by
  refine Within.ite (within_pure _) (within_sdkCall_signed.bind fun m => ?_)
  cases m with
  | none => exact within_pure _
  | some m => exact within_getStore.bind fun _ => within_pure _

/-- Filling a prime signs nothing. -/
theorem within_fillHashes (data : ℕ → Bytes) (k i prime : ℕ) (mem : Bytes) :
    Within StoreRun.SameSigned (fillHashes sdk data k i prime mem) := by
  induction k generalizing i prime mem with
  | zero => exact within_pure _
  | succ k ih =>
    refine within_sdkCall_signed.bind fun h => ?_
    cases h with
    | none => exact within_throw _
    | some h => exact ih _ _ _

/-- Deriving a prime signs nothing. -/
theorem within_cryptoDerivePrime (primeLen : ℕ) (mem : Bytes) (prime index : ℕ) :
    Within StoreRun.SameSigned (cryptoDerivePrime sdk primeLen mem prime index) := by
  refine within_getStore.bind fun st => ?_
  refine Within.ite (within_throw _) ((within_fillHashes sdk _ _ _ _ _).bind fun mem => ?_)
  refine Within.ite (within_sdkCall_signed.bind fun h => ?_) (within_pure _)
  cases h with
  | none => exact within_throw _
  | some h => exact within_pure _

/-- Setting up the primes signs nothing. -/
theorem within_cryptoInitPrimes : Within StoreRun.SameSigned (cryptoInitPrimes sdk) := by
  refine (within_cryptoDerivePrime sdk _ _ _ _).bind fun pq => ?_
  refine (within_cryptoDerivePrime sdk _ _ _ _).bind fun pq => ?_
  refine within_sdkCall_signed.bind fun p => ?_
  cases p with
  | none => exact within_throw _
  | some p =>
    refine within_sdkCall_signed.bind fun q => ?_
    cases q with
    | none => exact within_throw _
    | some q => exact within_getStore.bind fun _ => within_writeNv _

/-- Setting up the keys signs nothing. -/
theorem within_cryptoInitKeys : Within StoreRun.SameSigned (cryptoInitKeys sdk) := by
  refine within_getStore.bind fun st => within_sdkCall_signed.bind fun keys => ?_
  cases keys with
  | none => exact within_throw _
  | some keys =>
    exact (within_writeNv _).bind fun _ => (within_writeNv _).bind fun _ => within_writeNv _

/-- Erasing a slot signs nothing. -/
theorem within_cryptoUninitializedSlot (slot : Fin 2) :
    Within StoreRun.SameSigned (cryptoUninitializedSlot slot) :=
  Within.ite (within_throw _) ((within_writeNv _).bind fun _ => (within_writeNv _).bind fun _ =>
    (within_writeNv _).bind fun _ => within_writeNv _)

/-- Filling a slot signs nothing. -/
theorem within_cryptoInitializeSlot :
    Within StoreRun.SameSigned (cryptoInitializeSlot sdk seed) :=
  (within_cryptoDeriveMasterSeed sdk seed).bind fun _ => (within_cryptoInitPrimes sdk).bind fun _ =>
    (within_cryptoInitKeys sdk).bind fun _ => within_modifyStore _

/-- `crypto_store_init` stores no signature. -/
theorem within_cryptoStoreInit : Within StoreRun.SameSigned (cryptoStoreInit sdk seed) := by
  have hfill : ∀ slot, Within StoreRun.SameSigned
      (useSlot slot >>= fun _ => cryptoInitializeSlot sdk seed) := fun slot =>
    (within_modifyStore _).bind fun _ => within_cryptoInitializeSlot sdk seed
  refine within_getStore.bind fun st => Within.ite (hfill keySlot1) ?_
  refine (within_sameMasterseed sdk seed _).bind fun same => Within.ite (within_modifyStore _) ?_
  refine within_getStore.bind fun st => Within.ite (hfill keySlot2) ?_
  refine (within_sameMasterseed sdk seed _).bind fun same => Within.ite (within_modifyStore _) ?_
  exact (within_cryptoUninitializedSlot _).bind fun _ =>
    (within_cryptoUninitializedSlot _).bind fun _ => hfill keySlot1

/-- `crypto_store_init_test` stores no signature. -/
theorem within_cryptoStoreInitTest :
    Within StoreRun.SameSigned (cryptoStoreInitTest sdk seed) := by
  have huse : ∀ slot, Within StoreRun.SameSigned
      (useSlot slot >>= fun _ => (pure true : StoreM Bool)) := fun slot =>
    (within_modifyStore _).bind fun _ => within_pure _
  refine within_getStore.bind fun st => Within.ite (within_pure _) ?_
  refine (within_sameMasterseed sdk seed _).bind fun same => Within.ite (huse keySlot1) ?_
  refine within_getStore.bind fun st => Within.ite (within_pure _) ?_
  exact (within_sameMasterseed sdk seed _).bind fun same =>
    Within.ite (huse keySlot2) (within_pure _)

end Derive

/-! ## Handing out -/

/-- Handing out a part of the signature does not touch the keys. -/
theorem within_cryptoGetsignaturePart (bufferLen index : ℕ) :
    Within StoreRun.SameKeys (cryptoGetsignaturePart bufferLen index) := by
  have hpart : Within StoreRun.SameKeys (cryptoSignaturePart index) := by
    refine within_getStore.bind fun st => Within.ite (within_throw _) ?_
    refine Within.ite (within_throw _) (Within.ite ?_ (within_pure _))
    exact Within.bind (fun _ => ⟨rfl, rfl, rfl, rfl⟩) fun _ =>
      Within.bind (fun _ => ⟨rfl, rfl, rfl, rfl⟩) fun _ => within_pure _
  exact within_getStore.bind fun st => Within.ite (within_throw _) hpart

/-- Handing out the address changes the failures to come and the record of failures only. -/
theorem within_cryptoFillAddress {R : StoreRun → StoreRun → Prop} [IsPreorder StoreRun R]
    (hR : ∀ (r : StoreRun) faults failed, R r { r with faults := faults, failed := failed })
    (sdk : Sdk) (bufferLen : ℕ) : Within R (cryptoFillAddress sdk bufferLen) := by
  refine within_getStore.bind fun st => Within.ite (within_throw _) ?_
  refine Within.ite (within_throw _) ?_
  dsimp only
  cases cryptoStoreGetPubkey st with
  | none => exact within_throw _
  | some rsaPubkey =>
    refine (within_sdkCall hR).bind fun hash => ?_
    cases hash with
    | none => exact within_throw _
    | some hash => exact Within.ite (within_throw _) (within_pure _)

end LedgerArweave
