import LedgerArweave.Lib.Machine
import LedgerArweave.Store.Stages

set_option relaxedAutoImplicit false
set_option autoImplicit false

/-!
# Key identity

Which keys the store holds, over any number of resets with any seeds and any failing calls of
the SDK. A slot marked initialized holds the primes and the key pair of its master seed, and if
the device counts as initialized, the slot in use holds those of the current seed.

The invariant is a case analysis on the branches of `crypto_store_init` and
`crypto_store_init_test`.

## Main definitions

* `KeyInv` — the invariant.
* `keyStore` — resets and initializations as a machine.

## Main results

* `cryptoStoreInit_inv`, `cryptoStoreInitTest_spec` — the effect of the two entry points.
* `keyStore_identity` — key identity.
-/

namespace LedgerArweave

open Fallible

/-! ## The invariant -/

section Invariant

variable (sdk : Sdk)

/-- What holds of the flash: an initialized slot holds the primes and the key pair of its
master seed, and the slots are filled in order. -/
structure FlashInv (fl : Flash) : Prop where
  keys : ∀ i, (fl.slots i).initialized = true → fl.slots i = keySlot sdk (fl.slots i).masterSeed
  order : (fl.slots keySlot2).initialized = true → (fl.slots keySlot1).initialized = true

/-- The slot in use is initialized for the seed. -/
def CryptoStore.HoldsKeys (st : CryptoStore) (seed : Seed) : Prop :=
  st.current.initialized = true ∧ st.current.masterSeed = masterSeedOf sdk seed

/-- What holds of the store: if the device counts as initialized, the slot in use holds the
keys of the seed. -/
structure KeyInv (seed : Seed) (st : CryptoStore) : Prop extends FlashInv sdk st.flash where
  current : st.deviceInitialized = true → st.HoldsKeys sdk seed

variable {sdk} {seed : Seed}

/-- The flash of a new device satisfies the invariant: no slot is initialized. -/
theorem flashInv_zero : FlashInv sdk Flash.zero :=
  ⟨fun _ h => absurd (show false = true from h) (by decide), id⟩

/-- Changing a slot that is not initialized, without initializing it, keeps the invariant.

**Proof sketch.** The flags are the same before and afterwards, so an initialized slot is another
one. -/
theorem FlashInv.setSlot_unmarked {fl : Flash} (h : FlashInv sdk fl) {i : Fin 2}
    {f : CryptoSlot → CryptoSlot} (hi : (fl.slots i).initialized = false)
    (hf : (f (fl.slots i)).initialized = false) : FlashInv sdk (fl.setSlot i f) := by
  have hflag : ∀ j, ((fl.setSlot i f).slots j).initialized = (fl.slots j).initialized := by
    intro j
    by_cases hj : j = i
    · subst hj
      simp [Flash.setSlot, hi, hf]
    · simp [Flash.setSlot, Function.update_of_ne hj]
  refine ⟨fun j hj => ?_, fun h2 => ?_⟩
  · have hne : j ≠ i := by
      rintro rfl
      rw [hflag, hi] at hj
      exact absurd hj (by decide)
    rw [hflag] at hj
    simp only [Flash.setSlot, Function.update_of_ne hne]
    exact h.keys j hj
  · rw [hflag] at h2 ⊢
    exact h.order h2

/-- Filling a slot for a master seed keeps the invariant, if the slot before it is filled. -/
theorem FlashInv.setSlot_keySlot {fl : Flash} (h : FlashInv sdk fl) {i : Fin 2} (m : Block 32)
    (hi : i = keySlot1 ∨ (fl.slots keySlot1).initialized = true) :
    FlashInv sdk (fl.setSlot i fun _ => keySlot sdk m) := by
  refine ⟨fun j hj => ?_, fun h2 => ?_⟩
  · by_cases hji : j = i
    · subst hji
      simp [Flash.setSlot, keySlot]
    · simp only [Flash.setSlot, Function.update_of_ne hji] at hj ⊢
      exact h.keys j hj
  · by_cases h1 : keySlot1 = i
    · subst h1
      simp [Flash.setSlot, keySlot]
    · simp only [Flash.setSlot, Function.update_of_ne h1]
      exact hi.resolve_left (Ne.symm h1)

/-- **Filling the slot in use** establishes the invariant of the store, or keeps the flash
invariant with the device still not initialized.

**Proof sketch.** Filling the slot either leaves it with its flag unset, which the invariant does
not mind, or stores all that belongs to the seed. -/
theorem cryptoInitializeSlot_inv {r : StoreRun} (hflash : FlashInv sdk r.store.flash)
    (hdev : r.store.deviceInitialized = false) (hempty : r.store.current.initialized = false)
    (hslot : r.store.slotInUse = keySlot1 ∨
      (r.store.flash.slots keySlot1).initialized = true) :
    Ensures (cryptoInitializeSlot sdk seed) r fun _ r' => KeyInv sdk seed r'.store := by
  apply (cryptoInitializeSlot_spec sdk seed r).mono
  rintro (e | _) r' h
  · obtain ⟨m, pq, h⟩ := h
    rw [h]
    have hunmarked := hflash.setSlot_unmarked
      (f := fun c => { c with masterSeed := m, pq := pq }) hempty hempty
    refine ⟨hunmarked, fun hd => ?_⟩
    rw [CryptoStore.deviceInitialized_setCurrent, hdev] at hd
    exact absurd hd (by decide)
  · rw [h]
    refine ⟨hflash.setSlot_keySlot _ hslot, fun _ => ?_⟩
    have hcur : ∀ st : CryptoStore, ∀ c : CryptoSlot,
        CryptoStore.current { st.setCurrent (fun _ => c) with deviceInitialized := true } = c :=
      fun st c => st.current_setCurrent fun _ => c
    rw [CryptoStore.HoldsKeys, hcur]
    exact ⟨rfl, rfl⟩

/-- An answer of `same_masterseed` that is yes is right, and so is a no if no call has failed. -/
theorem sameMasterseed_bind {α : Type} {slot : Fin 2} {r : StoreRun} {f : Bool → StoreM α}
    {Q : Except ZxErr α → StoreRun → Prop}
    (hyes : ∀ r', r.Same r' → (r.store.flash.slots slot).masterSeed = masterSeedOf sdk seed →
      Ensures (f true) r' Q)
    (hno : ∀ r', r.Same r' →
      (r'.failed = false → (r.store.flash.slots slot).masterSeed ≠ masterSeedOf sdk seed) →
      Ensures (f false) r' Q) :
    Ensures (sameMasterseed sdk seed slot >>= f) r Q := by
  apply ensures_bind_of_exec (exec_sameMasterseed sdk seed slot r)
  by_cases hrec : r.Recognizes sdk seed slot
  · rw [decide_eq_true hrec]
    exact hyes _ r.same_spend hrec.1
  · rw [decide_eq_false hrec]
    refine hno _ r.same_spend fun hf heq => hrec ⟨heq, ?_⟩
    exact (Bool.or_eq_false_iff.mp hf).2

/-- A branch of `crypto_store_init` that is taken establishes the invariant.

**Proof sketch.** The branches that fill a slot are `cryptoInitializeSlot_inv`: slot 1 is filled
when it is not initialized or has just been erased, slot 2 when slot 1 is initialized. The
branches that find the seed only change the slot in use, with the device not initialized. -/
theorem perform_inv {choice : InitChoice} {r : StoreRun} (hflash : FlashInv sdk r.store.flash)
    (hdev : r.store.deviceInitialized = false)
    (hjust : choice.Justified sdk seed r.store.flash) :
    Ensures (choice.perform sdk seed) r fun _ r' => KeyInv sdk seed r'.store := by
  cases choice with
  | use slot =>
    have hidle : KeyInv sdk seed { r.store with slotInUse := slot } :=
      ⟨hflash, fun hd => absurd (hdev.symm.trans hd) (by decide)⟩
    exact hidle
  | fill slot =>
    obtain ⟨hempty, hslot⟩ := hjust
    exact ensures_modifyStore_bind (cryptoInitializeSlot_inv hflash hdev hempty
      (hslot.imp_right And.right))
  | refill =>
    refine (cryptoUninitializedSlot_spec keySlot1 r).bind ?_ (by rintro e r' ⟨he, -⟩; cases he)
    rintro _ r₁ ⟨-, h₁⟩
    refine (cryptoUninitializedSlot_spec keySlot2 r₁).bind ?_ (by rintro e r' ⟨he, -⟩; cases he)
    rintro _ r₂ ⟨-, h₂⟩
    rw [h₁] at h₂
    -- both slots have been erased, so nothing is asked of their contents
    have herased : ∀ i, (r₂.store.flash.slots i).initialized = false := by
      intro i
      have hne : keySlot1 ≠ keySlot2 := by decide
      rw [h₂]
      rcases slot_cases i with rfl | rfl
      · simp [Flash.setSlot, CryptoSlot.erased, Function.update_of_ne hne]
      · simp [Flash.setSlot, CryptoSlot.erased]
    refine ensures_modifyStore_bind (cryptoInitializeSlot_inv ⟨?_, ?_⟩ ?_ (herased _) (Or.inl rfl))
    · intro i hi
      rw [herased i] at hi
      exact absurd hi (by decide)
    · intro hi
      rw [herased keySlot2] at hi
      exact absurd hi (by decide)
    · rw [h₂]
      exact hdev

/-- **`crypto_store_init` establishes the invariant**, whichever branch it takes and wherever it
stops.

**Proof sketch.** The choice of a branch leaves the store alone and finds in flash what the branch
relies on, which is what keeping the invariant needs. -/
theorem cryptoStoreInit_inv {r : StoreRun} (hflash : FlashInv sdk r.store.flash)
    (hdev : r.store.deviceInitialized = false) :
    Ensures (cryptoStoreInit sdk seed) r fun _ r' => KeyInv sdk seed r'.store := by
  obtain ⟨hexec, hsame, hjust⟩ := exec_cryptoStoreInit sdk seed r
  rw [← hsame.store] at hflash hdev hjust
  exact (perform_inv hflash hdev hjust).of_exec_eq hexec

/-- **`crypto_store_init_test`** only chooses a slot. What it finds holds the keys of the seed, and
if no derivation fails it finds them wherever they are.

**Proof sketch.** The slots are compared in order. A slot is chosen only if the comparison says so,
which proves that its seed is the right one. Conversely `false` is returned only if each slot is
empty or, unless a derivation has failed, holds another seed; the second slot is not empty if the
first one is, by the order of slots. -/
theorem cryptoStoreInitTest_spec (r : StoreRun) :
    Ensures (cryptoStoreInitTest sdk seed) r fun res r' =>
      ∃ found slot, res = .ok found ∧ r'.store = { r.store with slotInUse := slot } ∧
        (found = true → r'.store.HoldsKeys sdk seed) ∧
        (FlashInv sdk r.store.flash → r'.failed = false →
          (found = true ↔ ∃ i, (r.store.flash.slots i).initialized = true ∧
            (r.store.flash.slots i).masterSeed = masterSeedOf sdk seed)) := by
  have hslots : ∀ {P : Fin 2 → Prop}, ¬ P keySlot1 → ¬ P keySlot2 → ¬ ∃ i, P i := by
    rintro P hp1 hp2 ⟨i, hi⟩
    rcases slot_cases i with rfl | rfl
    · exact hp1 hi
    · exact hp2 hi
  unfold cryptoStoreInitTest
  apply ensures_getStore_bind
  by_cases h1 : cryptoStoreSlotIsInitialized r.store keySlot1 = true
  swap
  · rw [if_pos h1]
    refine ensures_pure ⟨false, r.store.slotInUse, rfl, rfl, by simp, fun hinv _ => ?_⟩
    refine iff_of_false (by simp) (hslots (fun h => h1 h.1) fun h => h1 (hinv.order h.1))
  rw [if_neg (not_not.mpr h1)]
  refine sameMasterseed_bind ?_ ?_
  · intro r₁ hsame₁ heq
    refine ensures_modifyStore_bind (ensures_pure ⟨true, keySlot1, rfl, ?_, ?_, ?_⟩)
    · rw [hsame₁.store]
    · intro _
      rw [hsame₁.store]
      exact ⟨h1, heq⟩
    · exact fun _ _ => iff_of_true rfl ⟨keySlot1, h1, heq⟩
  intro r₁ hsame₁ hne₁
  apply ensures_getStore_bind
  rw [hsame₁.store]
  by_cases h2 : cryptoStoreSlotIsInitialized r.store keySlot2 = true
  swap
  · simp only [h2]
    refine ensures_pure ⟨false, r.store.slotInUse, rfl, hsame₁.store, by simp, fun _ hf => ?_⟩
    exact iff_of_false (by simp) (hslots (fun h => hne₁ hf h.2) fun h => h2 h.1)
  rw [if_neg (not_not.mpr h2)]
  refine sameMasterseed_bind ?_ ?_
  · intro r₂ hsame₂ heq
    rw [hsame₁.store] at heq
    refine ensures_modifyStore_bind (ensures_pure ⟨true, keySlot2, rfl, ?_, ?_, ?_⟩)
    · rw [hsame₂.store, hsame₁.store]
    · intro _
      rw [hsame₂.store, hsame₁.store]
      exact ⟨h2, heq⟩
    · exact fun _ _ => iff_of_true rfl ⟨keySlot2, h2, heq⟩
  · intro r₂ hsame₂ hne₂
    rw [hsame₁.store] at hne₂
    refine ensures_pure ⟨false, r.store.slotInUse, rfl, hsame₂.store.trans hsame₁.store, by simp,
      fun _ hf => iff_of_false (by simp) (hslots (fun h => ?_) fun h => hne₂ hf h.2)⟩
    have hf₁ : r₁.failed = false := by
      by_contra hfail
      rw [hsame₂.failed (by simpa using hfail)] at hf
      exact absurd hf (by decide)
    exact hne₁ hf₁ h.2

end Invariant

/-! ## Runs of the key store -/

section Runs

variable (sdk : Sdk)

/-- What happens to the key store: resets with the seed the device then holds, and calls of
`crypto_store_init` from the screen of a device that is not initialized, each with the calls of
the SDK that fail. -/
inductive StoreEvent where
  | boot (seed : Seed) (faults : List Bool)
  | storeInit (faults : List Bool)

/-- The store and the seed the device holds since the last reset. -/
structure KeyStore where
  store : CryptoStore
  seed : Seed

/-- A freshly installed app, before the first boot. -/
def KeyStore.fresh : KeyStore := ⟨.reset .zero, []⟩

/-- The key store as a machine; a boot reports what `crypto_store_init_test` has found. -/
def keyStore : Machine KeyStore StoreEvent (Option BootReport) where
  step st
    | .boot seed faults =>
      (⟨(bootStore sdk seed st.store.flash faults).1, seed⟩,
        some (bootStore sdk seed st.store.flash faults).2)
    | .storeInit faults => (⟨initializeStore sdk st.seed st.store faults, st.seed⟩, none)

/-- The key pair of a seed. -/
def keyPair (seed : Seed) : RsaPublicKey × RsaPrivateKey :=
  sdk.rsaGeneratePair expBeBuf (primes sdk (masterSeedOf sdk seed))

/-- A boot leaves the flash as it is, and what it finds holds the keys of the seed. -/
theorem bootStore_keeps (fl : Flash) (seed : Seed) (faults : List Bool) :
    (bootStore sdk seed fl faults).1.flash = fl ∧
      ((bootStore sdk seed fl faults).2.found = true →
        (bootStore sdk seed fl faults).1.HoldsKeys sdk seed) := by
  have hspec : Ensures (cryptoStoreInitTest sdk seed) ((CryptoStore.reset fl).start faults) _ :=
    cryptoStoreInitTest_spec _
  obtain ⟨found, slot, hres, hstore, hfound, -⟩ := hspec
  unfold bootStore bootRun
  dsimp only
  rw [hres]
  rw [hstore] at hfound ⊢
  exact ⟨rfl, hfound⟩

variable {sdk} {seed : Seed} {st : CryptoStore}

/-- A boot establishes the invariant for the new seed from what persists in flash, and reports
an initialized slot with the master seed of the new seed if there is one. -/
theorem bootStore_spec {fl : Flash} (h : FlashInv sdk fl) (seed : Seed) (faults : List Bool) :
    KeyInv sdk seed (bootStore sdk seed fl faults).1 ∧
      ((bootStore sdk seed fl faults).2.failed = false →
        ((bootStore sdk seed fl faults).2.found = true ↔ ∃ i,
          (fl.slots i).initialized = true ∧ (fl.slots i).masterSeed = masterSeedOf sdk seed)) := by
  obtain ⟨hflash, hkeys⟩ := bootStore_keeps sdk fl seed faults
  refine ⟨⟨by rw [hflash]; exact h, hkeys⟩, ?_⟩
  have hspec : Ensures (cryptoStoreInitTest sdk seed) ((CryptoStore.reset fl).start faults) _ :=
    cryptoStoreInitTest_spec _
  obtain ⟨found, -, hres, -, -, hreport⟩ := hspec
  unfold bootStore bootRun
  dsimp only
  rw [hres]
  exact hreport h

/-- Initializing keeps the invariant. -/
theorem initializeStore_inv (h : KeyInv sdk seed st) (faults : List Bool) :
    KeyInv sdk seed (initializeStore sdk seed st faults) := by
  unfold initializeStore
  by_cases hdev : st.deviceInitialized = true
  · rw [if_pos hdev]
    exact h
  · rw [if_neg hdev]
    have hinit : Ensures (cryptoStoreInit sdk seed) (st.start faults) fun _ r' =>
        KeyInv sdk seed r'.store := cryptoStoreInit_inv h.toFlashInv (eq_false_of_ne_true hdev)
    exact hinit

/-- In a store that counts as initialized, the keys in use are those of the seed. -/
theorem KeyInv.keys_in_use (h : KeyInv sdk seed st) (hdev : st.deviceInitialized = true) :
    cryptoStoreGetPubkey st = some (keyPair sdk seed).1 ∧
      cryptoStoreGetPrivkey st = some (keyPair sdk seed).2 := by
  obtain ⟨hinit, hseed⟩ := h.current hdev
  have hslot : st.current = keySlot sdk (masterSeedOf sdk seed) := by
    rw [← hseed]
    exact h.keys st.slotInUse hinit
  unfold cryptoStoreGetPubkey cryptoStoreGetPrivkey cryptoStoreIsInitialized
  rw [hslot]
  exact ⟨rfl, rfl⟩

/-- **Key identity**, for every history of resets with any seeds, of initializations and of
failing calls of the SDK: every initialized slot holds the primes and the key pair of its master
seed, slot 2 is filled after slot 1, the keys in use on an initialized device are those of the
current seed, and the next boot, with whatever seed, finds the keys of that seed exactly if
they are there, unless a derivation fails.

**Proof sketch.** `KeyInv` holds initially and every event keeps it: a reset by `bootStore_spec`, an
initialization by `initializeStore_inv`. The parts are read off the invariant, the last one from
`bootStore_spec` at the state reached. -/
theorem keyStore_identity (es : List StoreEvent) :
    let ks := (keyStore sdk).run .fresh es
    let slots := ks.store.flash.slots
    (∀ i, (slots i).initialized = true →
      (slots i).pq = primes sdk (slots i).masterSeed ∧
        ((slots i).rsaPub, (slots i).rsaPriv) = sdk.rsaGeneratePair expBeBuf (slots i).pq) ∧
    ((slots keySlot2).initialized = true → (slots keySlot1).initialized = true) ∧
    (ks.store.deviceInitialized = true →
      ks.store.current.initialized = true ∧
        ks.store.current.masterSeed = masterSeedOf sdk ks.seed ∧
        cryptoStoreGetPubkey ks.store = some (keyPair sdk ks.seed).1 ∧
        cryptoStoreGetPrivkey ks.store = some (keyPair sdk ks.seed).2) ∧
    ∀ seed faults, (bootStore sdk seed ks.store.flash faults).2.failed = false →
      ((bootStore sdk seed ks.store.flash faults).2.found = true ↔ ∃ i,
        (slots i).initialized = true ∧ (slots i).masterSeed = masterSeedOf sdk seed) := by
  intro ks slots
  have hinv : KeyInv sdk ks.seed ks.store := by
    refine Machine.invariant (G := fun _ => True)
      (I := fun ks : KeyStore => KeyInv sdk ks.seed ks.store)
      ⟨flashInv_zero, fun h => absurd (show false = true from h) (by decide)⟩ ?_
      (fun _ _ => trivial)
    intro ks e hks _
    cases e with
    | boot seed faults => exact (bootStore_spec hks.toFlashInv seed faults).1
    | storeInit faults => exact initializeStore_inv hks faults
  refine ⟨fun i hi => ?_, hinv.order, fun hdev => ?_, fun seed faults => ?_⟩
  · have hslot : slots i = keySlot sdk (slots i).masterSeed := hinv.keys i hi
    constructor
    · rw [hslot]
      rfl
    · rw [hslot]
      rfl
  · obtain ⟨hinit, hseed⟩ := hinv.current hdev
    exact ⟨hinit, hseed, hinv.keys_in_use hdev⟩
  · exact (bootStore_spec hinv.toFlashInv seed faults).2

end Runs

end LedgerArweave
