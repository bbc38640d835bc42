import LedgerArweave.Store.KeyIdentity

set_option relaxedAutoImplicit false
set_option autoImplicit false

/-!
# Keeping the keys of a seed

When `crypto_store_init` runs for a seed whose keys the store already holds, it should find them
and leave the flash alone. It takes a failing derivation for a different seed, and then fills
another slot, or erases both.

## Main definitions

* `Retains` — the keys of the seed are found and nothing in flash changes.
* `SeedRecognized` — the failing calls do no harm.

## Main results

* `unchanged_fill_iff`, `changed_refill` — when a branch leaves the flash as it is.
* `retains_iff` — when the keys of the seed are kept.
-/

namespace LedgerArweave

open Fallible

section Retention

variable (sdk : Sdk) (seed : Seed)

/-- Some slot in use holds the master seed of the current seed. -/
def Flash.HoldsSeed (fl : Flash) : Prop :=
  ∃ i, (fl.slots i).initialized = true ∧ (fl.slots i).masterSeed = masterSeedOf sdk seed

/-- `crypto_store_init` leaves both slots as they are, and if it succeeds the slot in use holds the
keys of the seed. -/
def Retains (st : CryptoStore) (faults : List Bool) : Prop :=
  let run := (cryptoStoreInit sdk seed).exec (st.start faults)
  run.2.store.flash.slots = st.flash.slots ∧
    (run.1 = .ok () → run.2.store.HoldsKeys sdk seed)

/-- Filling the slot fails before it has changed anything: the derivation of the master seed fails,
or that of the primes with the master seed already there, or the generation of the keys with the
primes already there too. -/
def RefillHarmless (c : CryptoSlot) (faults : List Bool) : Prop :=
  true ∈ faults.take 1 ∨
    c.masterSeed = masterSeedOf sdk seed ∧
      (true ∈ (faults.drop 1).take 18 ∨
        c.pq = primes sdk (masterSeedOf sdk seed) ∧ true ∈ (faults.drop 19).take 1)

/-- The failing calls do no harm: a slot with the master seed is reached before a derivation fails
that would have shown it, or what is filled instead fails before it has changed anything. -/
def SeedRecognized (fl : Flash) (faults : List Bool) : Prop :=
  if (fl.slots keySlot1).initialized then
    ((fl.slots keySlot1).masterSeed = masterSeedOf sdk seed ∧ faults.headD false = false) ∨
      if (fl.slots keySlot2).initialized then
        (fl.slots keySlot2).masterSeed = masterSeedOf sdk seed ∧ faults.tail.headD false = false
      else RefillHarmless sdk seed (fl.slots keySlot2) faults.tail
  else RefillHarmless sdk seed (fl.slots keySlot1) faults

variable {sdk seed}

/-- Writes to a slot leave the flash as it is if they leave the slot as it is. -/
theorem slots_applyAll_eq_iff {fl : Flash} {ws : List NvWrite} {slot : Fin 2}
    (hws : ∀ w ∈ ws, w.slot = slot) :
    (fl.applyAll ws).slots = fl.slots ↔
      (ws.map NvWrite.change).foldl (fun c change => change.apply c) (fl.slots slot) =
        fl.slots slot := by
  rw [fl.applyAll_slot hws]
  exact Function.update_eq_self_iff

/-- **Filling an empty slot** changes something in flash unless it fails before it has.

**Proof sketch.** By the stage in which a call fails. What has been written by then is compared with
what was there; if no call fails the flag is set, which it was not before. -/
theorem unchanged_fill_iff {fl : Flash} {slot : Fin 2}
    (hempty : (fl.slots slot).initialized = false) (faults : List Bool) :
    (fl.applyAll ((fillWrites sdk slot (masterSeedOf sdk seed)).take (fillDone faults))).slots =
      fl.slots ↔ RefillHarmless sdk seed (fl.slots slot) faults := by
  rw [slots_applyAll_eq_iff fun w hw => slot_of_mem_fillWrites (List.mem_of_mem_take hw)]
  unfold fillDone RefillHarmless
  generalize fl.slots slot = c at hempty
  obtain ⟨masterSeed, pq, rsaPub, rsaPriv, initialized⟩ := c
  by_cases h₁ : true ∈ faults.take 1
  · rw [if_pos h₁]
    exact iff_of_true rfl (Or.inl h₁)
  rw [if_neg h₁, or_iff_right h₁]
  by_cases h₂ : true ∈ (faults.drop 1).take 18
  · rw [if_pos h₂, and_iff_left (Or.inl h₂)]
    simp [fillWrites, NvChange.apply, eq_comm]
  rw [if_neg h₂, or_iff_right h₂]
  by_cases h₃ : true ∈ (faults.drop 19).take 1
  · rw [if_pos h₃, and_iff_left h₃]
    simp [fillWrites, NvChange.apply, eq_comm]
  · -- the keys are stored, and the flag is set
    rw [if_neg h₃, List.take_of_length_le (by simp [fillWrites])]
    refine iff_of_false (fun h => ?_) fun h => h₃ h.2.2
    have hflag : true = initialized := congrArg CryptoSlot.initialized h
    exact absurd (hflag.trans hempty) (by decide)

variable (sdk seed) in
/-- **Erasing both slots** changes something in flash, whatever happens to the first one then.

**Proof sketch.** The second slot was initialized, is erased, and stays so while the first one is
filled. -/
theorem changed_refill {r : StoreRun}
    (hinit : (r.store.flash.slots keySlot2).initialized = true) :
    Ensures (InitChoice.refill.perform sdk seed) r fun _ r' =>
      r'.store.flash.slots ≠ r.store.flash.slots := by
  have hne : keySlot2 ≠ keySlot1 := by decide
  refine (cryptoUninitializedSlot_spec keySlot1 r).bind ?_ (by rintro e r' ⟨he, -⟩; cases he)
  rintro _ r₁ ⟨-, h₁⟩
  refine (cryptoUninitializedSlot_spec keySlot2 r₁).bind ?_ (by rintro e r' ⟨he, -⟩; cases he)
  rintro _ r₂ ⟨-, h₂⟩
  have herased : (r₂.store.flash.slots keySlot2).initialized = false := by
    rw [h₂, Flash.slots_setSlot_self]
    rfl
  apply (perform_fill_wrote sdk seed keySlot1 r₂).mono
  rintro _ r' ⟨-, hwrote⟩ hsame
  have hslot : r'.store.flash.slots keySlot2 = r₂.store.flash.slots keySlot2 := by
    rw [hwrote.flash, Flash.applyAll_slot _ fun w hw =>
      slot_of_mem_fillWrites (List.mem_of_mem_take hw), Flash.slots_setSlot_of_ne _ hne]
  rw [hsame] at hslot
  rw [← hslot, hinit] at herased
  exact absurd herased (by decide)

/-- Filling an empty slot leaves the flash as it is only if it fails. -/
theorem perform_fill_unchanged {slot : Fin 2} {r : StoreRun}
    (hempty : (r.store.flash.slots slot).initialized = false) :
    Ensures ((InitChoice.fill slot).perform sdk seed) r fun res r' =>
      (r'.store.flash.slots = r.store.flash.slots ∧ (res = .ok () → r'.store.HoldsKeys sdk seed)) ↔
        RefillHarmless sdk seed (r.store.flash.slots slot) r.faults := by
  apply (perform_fill_wrote sdk seed slot r).mono
  rintro res r' ⟨hok, hwrote⟩
  rw [← unchanged_fill_iff hempty, hwrote.flash]
  refine ⟨And.left, fun hsame => ⟨hsame, fun hres => ?_⟩⟩
  -- a slot that has been filled is not the empty slot
  rw [hok hres] at hsame
  have hflag := congrArg (fun slots => (slots slot).initialized) hsame
  have hall : (fillWrites sdk slot (masterSeedOf sdk seed)).take 5 =
      fillWrites sdk slot (masterSeedOf sdk seed) := rfl
  rw [hall, Flash.applyAll_fillWrites, Flash.slots_setSlot_self, hempty] at hflag
  exact absurd hflag Bool.true_eq_false.mp

/-- `crypto_store_init` keeps the flash as it is, and what it selects holds the keys of the seed,
exactly if the failing calls do no harm.

**Proof sketch.** Along the decisions of `cryptoStoreInit`: a slot that is recognized is selected
without a write; filling an empty slot keeps the flash only if `RefillHarmless`; erasing both slots
never does. -/
theorem retains_iff_seedRecognized (st : CryptoStore) (faults : List Bool) :
    Retains sdk seed st faults ↔ SeedRecognized sdk seed st.flash faults := by
  have hexec := (exec_cryptoStoreInit sdk seed (st.start faults)).1
  have hflag : ∀ i, cryptoStoreSlotIsInitialized (st.start faults).store i =
      (st.flash.slots i).initialized := fun _ => rfl
  unfold Retains SeedRecognized
  rw [hexec]
  simp only [initChoice, hflag]
  by_cases h1 : (st.flash.slots keySlot1).initialized = true
  swap
  · rw [if_pos h1, if_neg h1]
    exact perform_fill_unchanged (r := st.start faults) (eq_false_of_ne_true h1)
  rw [if_neg (not_not.mpr h1), if_pos h1]
  by_cases hyes₁ : (st.start faults).Recognizes sdk seed keySlot1
  · rw [if_pos hyes₁]
    exact iff_of_true ⟨rfl, fun _ => ⟨h1, hyes₁.1⟩⟩ (Or.inl hyes₁)
  have hno₁ : ¬ ((st.flash.slots keySlot1).masterSeed = masterSeedOf sdk seed ∧
      faults.headD false = false) := hyes₁
  rw [if_neg hyes₁, or_iff_right hno₁]
  by_cases h2 : (st.flash.slots keySlot2).initialized = true
  swap
  · rw [if_pos h2, if_neg h2]
    exact perform_fill_unchanged (r := (st.start faults).spend) (eq_false_of_ne_true h2)
  rw [if_neg (not_not.mpr h2), if_pos h2]
  by_cases hyes₂ : (st.start faults).spend.Recognizes sdk seed keySlot2
  · rw [if_pos hyes₂]
    exact iff_of_true ⟨rfl, fun _ => ⟨h2, hyes₂.1⟩⟩ hyes₂
  · rw [if_neg hyes₂]
    have hchanged := changed_refill sdk seed (r := (st.start faults).spend.spend) h2
    exact iff_of_false (fun h => hchanged h.1) hyes₂

/-- **Keeping the keys of a seed**, for every content of the flash and every pattern of failing
calls: if some slot holds the keys of the current seed, then `crypto_store_init` changes neither
slot, and succeeds only with those keys in use, exactly if the failing calls do no harm.

**Proof sketch.** The equivalence holds for every flash, so also where a slot holds the keys. -/
theorem retains_iff (st : CryptoStore) (faults : List Bool) :
    (st.flash.HoldsSeed sdk seed → Retains sdk seed st faults) ↔
      (st.flash.HoldsSeed sdk seed → SeedRecognized sdk seed st.flash faults) :=
  imp_congr_right fun _ => retains_iff_seedRecognized st faults

end Retention

/-- A store that holds the keys of the seed; the derivation has failed at the last boot. -/
def unrecognizedStore : CryptoStore :=
  ((keyStore sampleSdk).run .fresh [.boot [] [], .storeInit [], .boot [] [true]]).store

/-- One failing derivation duplicates the keys in the other slot; two more erase both slots. -/
theorem not_retains :
    unrecognizedStore.flash.HoldsSeed sampleSdk [] ∧
      ¬ Retains sampleSdk [] unrecognizedStore [true] ∧
      (let duplicated := (storeInitRun sampleSdk [] unrecognizedStore [true]).store
      (∀ i, (duplicated.flash.slots i).initialized = true ∧
        (duplicated.flash.slots i).masterSeed = masterSeedOf sampleSdk []) ∧
      ∀ i, ((storeInitRun sampleSdk [] duplicated [true, true, true]).store.flash.slots
        i).initialized = false) := by
  refine ⟨⟨keySlot1, by decide +kernel, by decide +kernel⟩, ?_, by decide +kernel,
    by decide +kernel⟩
  intro hretains
  have hslot2 := congrArg (fun slots => (slots keySlot2).initialized) hretains.1
  exact absurd hslot2 (by decide +kernel)

end LedgerArweave
