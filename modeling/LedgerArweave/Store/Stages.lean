import LedgerArweave.Store.Calls

set_option relaxedAutoImplicit false
set_option autoImplicit false

/-!
# The stages of filling and erasing a slot

Each function of `crypto_store.c` that fills or erases a slot is described by the writes to flash
it performs, in order. What it leaves in the store when it returns is the effect of all of them;
what is in flash in between is the effect of the first of them.

## Main definitions

* `primes`, `keySlot` — what a slot for a master seed holds.
* `NvChange`, `NvWrite` — writes to flash.
* `StoreRun.Performs`, `StoreRun.Wrote` — a run has performed a list of writes.
* `fillWrites`, `eraseWrites` — the writes that fill or erase a slot.
* `initChoice` — the branch `crypto_store_init` takes.

## Main results

* `cryptoInitializeSlot_writes`, `cryptoUninitializedSlot_writes` — what the stages write.
* `cryptoInitializeSlot_spec`, `cryptoUninitializedSlot_spec` — what they leave in the store.
* `exec_cryptoStoreInit` — `crypto_store_init` performs the branch it has chosen.
-/

namespace LedgerArweave

open Fallible

/-! ## Runs of the primitives -/

/-- The store and the records have not changed, and no failure has been forgotten. -/
structure StoreRun.Same (r r' : StoreRun) : Prop where
  store : r'.store = r.store
  written : r'.written = r.written
  failed : r.failed = true → r'.failed = true
  signed : r'.signed = r.signed

/-- A run is the same as itself. -/
theorem StoreRun.Same.refl (r : StoreRun) : r.Same r := ⟨rfl, rfl, id, rfl⟩

/-- Two stretches without writes are one. -/
theorem StoreRun.Same.trans {r r' r'' : StoreRun} (h : r.Same r') (h' : r'.Same r'') :
    r.Same r'' :=
  ⟨h'.store.trans h.store, h'.written.trans h.written, fun hf => h'.failed (h.failed hf),
    h'.signed.trans h.signed⟩

section Primitives

variable {α : Type} {r : StoreRun} {Q : Except ZxErr α → StoreRun → Prop}

/-- A program that reads the store first. -/
theorem ensures_getStore_bind {f : CryptoStore → StoreM α} (h : Ensures (f r.store) r Q) :
    Ensures (getStore >>= f) r Q := h

/-- A program that updates the store first. -/
theorem ensures_modifyStore_bind {f : CryptoStore → CryptoStore} {q : Unit → StoreM α}
    (h : Ensures (q ()) { r with store := f r.store } Q) :
    Ensures (modifyStore f >>= q) r Q := ensures_modify_bind h

/-- The end of an update of the store. -/
theorem ensures_modifyStore {f : CryptoStore → CryptoStore}
    {Q : Except ZxErr Unit → StoreRun → Prop} (h : Q (.ok ()) { r with store := f r.store }) :
    Ensures (modifyStore f) r Q := h

/-- A program that writes to flash first. -/
theorem ensures_writeNv_bind {f : Flash → Flash} {q : Unit → StoreM α}
    (h : Ensures (q ()) (r.write f) Q) : Ensures (writeNv f >>= q) r Q := ensures_modify_bind h

/-- The end of a write to flash. -/
theorem ensures_writeNv {f : Flash → Flash} {Q : Except ZxErr Unit → StoreRun → Prop}
    (h : Q (.ok ()) (r.write f)) : Ensures (writeNv f) r Q := h

/-- A call of the SDK writes nothing. -/
theorem StoreRun.same_spend (r : StoreRun) : r.Same r.spend :=
  ⟨rfl, rfl, fun hf => by simp [StoreRun.spend, hf], rfl⟩

/-- A call of the SDK returns its result, or fails and leaves a note of it. -/
theorem sdkCall_spec (x : α) (r : StoreRun) :
    Ensures (sdkCall x) r fun res r' =>
      r.Same r' ∧ (res = .ok (some x) ∨ res = .ok none ∧ r'.failed = true) := by
  unfold Ensures
  rw [exec_sdkCall]
  refine ⟨r.same_spend, ?_⟩
  cases hfault : r.faults.headD false with
  | true => exact Or.inr ⟨rfl, by rw [StoreRun.spend, hfault]; exact Bool.or_true _⟩
  | false => exact Or.inl rfl

/-- A call of the SDK followed by what handles both outcomes. -/
theorem ensures_sdkCall_bind {γ : Type} {x : γ} {f : Option γ → StoreM α}
    (hok : ∀ r', r.Same r' → Ensures (f (some x)) r' Q)
    (hfail : ∀ r', r.Same r' → r'.failed = true → Ensures (f none) r' Q) :
    Ensures (sdkCall x >>= f) r Q := by
  refine (sdkCall_spec x r).bind ?_ ?_
  · rintro o r' ⟨hsame, ho | ⟨ho, hfailed⟩⟩
    · cases ho
      exact hok r' hsame
    · cases ho
      exact hfail r' hsame hfailed
  · rintro e r' ⟨-, he | ⟨he, -⟩⟩ <;> cases he

end Primitives

/-! ## The primes of a master seed -/

section Primes

variable (sdk : Sdk)

/-- The bytes `crypto_derivePrime` leaves at the place of the prime. -/
def primeBytes (primeLen : ℕ) (masterSeed : Block 32) (index : ℕ) : Bytes :=
  let numHashes := primeLen * 8 / 256 % 65536
  let remainder := primeLen * 8 % 256
  ((List.range numHashes).flatMap fun j => (sdk.sha256 (primeData index masterSeed j)).val) ++
    if remainder > 0 then
      (sdk.sha256 (primeData index masterSeed numHashes)).val.take (remainder / 8 + 1)
    else []

/-- One prime of a master seed. -/
def primeOf (masterSeed : Block 32) (index : ℕ) : Block 256 :=
  sdk.nextPrime (toBlock 256 (setTopBit (primeBytes sdk rsaPrimeLen masterSeed index) 0))

/-- The primes of a master seed. -/
def primes (masterSeed : Block 32) : Bytes :=
  (primeOf sdk masterSeed 0).val ++ (primeOf sdk masterSeed 1).val

/-- What a slot holds once it is filled for a master seed. -/
def keySlot (masterSeed : Block 32) : CryptoSlot where
  masterSeed := masterSeed
  pq := primes sdk masterSeed
  rsaPub := (sdk.rsaGeneratePair expBeBuf (primes sdk masterSeed)).1
  rsaPriv := (sdk.rsaGeneratePair expBeBuf (primes sdk masterSeed)).2
  initialized := true

end Primes

/-- Blocks of 32 bytes joined. -/
theorem length_flatMap_blocks (f : ℕ → Block 32) (l : List ℕ) :
    (l.flatMap fun j => (f j).val).length = 32 * l.length := by
  induction l with
  | nil => rfl
  | cons j l ih =>
    rw [List.flatMap_cons, List.length_append, ih, (f j).property, List.length_cons]
    omega

/-- The primes of the device have no remainder: eight hashes fill one. -/
theorem length_primeBytes (sdk : Sdk) (masterSeed : Block 32) (index : ℕ) :
    (primeBytes sdk rsaPrimeLen masterSeed index).length = rsaPrimeLen := by
  unfold primeBytes
  dsimp only
  rw [if_neg (by decide), List.append_nil, length_flatMap_blocks, List.length_range]
  decide

/-- Setting the top bits of both halves of a buffer, seen from the first half. -/
theorem take_setTopBit {a b : Bytes} {n : ℕ} (ha : a.length = n) :
    (setTopBit (setTopBit (a ++ b) 0) n).take n = setTopBit a 0 := by
  unfold setTopBit
  rw [List.take_modify, List.take_modify, ← ha, List.take_left]
  exact List.modify_eq_self (by rw [List.length_modify])

/-- Setting the top bits of both halves of a buffer, seen from the second half. -/
theorem drop_setTopBit {a b : Bytes} {n : ℕ} (ha : a.length = n) (hn : 0 < n) :
    (setTopBit (setTopBit (a ++ b) 0) n).drop n = setTopBit b 0 := by
  unfold setTopBit
  rw [List.drop_modify_of_ge _ _ _ _ le_rfl, List.drop_modify_of_lt _ _ _ _ hn, ← ha,
    List.drop_left, Nat.sub_self]

/-- Change the slot in use. -/
def CryptoStore.setCurrent (st : CryptoStore) (f : CryptoSlot → CryptoSlot) : CryptoStore :=
  { st with flash := st.flash.setSlot st.slotInUse f }

/-- The slot in use after it has been updated. -/
@[simp] theorem CryptoStore.current_setCurrent (st : CryptoStore) (f : CryptoSlot → CryptoSlot) :
    (st.setCurrent f).current = f st.current := Function.update_self _ _ _

/-- Updating the slot in use leaves the flag of the device. -/
@[simp] theorem CryptoStore.deviceInitialized_setCurrent (st : CryptoStore)
    (f : CryptoSlot → CryptoSlot) :
    (st.setCurrent f).deviceInitialized = st.deviceInitialized := rfl

/-- Giving the slot the contents it has changes nothing. -/
theorem CryptoStore.setCurrent_eq_self (st : CryptoStore) {f : CryptoSlot → CryptoSlot}
    (hf : f st.current = st.current) : st.setCurrent f = st := by
  unfold CryptoStore.setCurrent Flash.setSlot
  rw [show f (st.flash.slots st.slotInUse) = st.flash.slots st.slotInUse from hf,
    Function.update_eq_self]

/-! ## Writes to flash -/

/-- A write to a slot, by the function that makes it. -/
inductive NvChange where
  /-- `crypto_deriveMasterSeed` -/
  | masterSeed (m : Block 32)
  /-- `crypto_init_primes` -/
  | pq (b : Bytes)
  /-- `crypto_init_keys` -/
  | setInitialized
  | rsaPub (key : RsaPublicKey)
  | rsaPriv (key : RsaPrivateKey)
  /-- `crypto_uninitialized_slot` -/
  | clearPq
  | clearPriv
  | clearSeed
  | clearInitialized
deriving DecidableEq

/-- A private key of zero bytes. -/
def RsaPrivateKey.zero : RsaPrivateKey := ⟨0, zeroBlock 512, zeroBlock 512⟩

/-- A slot after a write. -/
def NvChange.apply : NvChange → CryptoSlot → CryptoSlot
  | .masterSeed m, c => { c with masterSeed := m }
  | .pq b, c => { c with pq := b }
  | .setInitialized, c => { c with initialized := true }
  | .rsaPub key, c => { c with rsaPub := key }
  | .rsaPriv key, c => { c with rsaPriv := key }
  | .clearPq, c => { c with pq := (zeroBlock 512).val }
  | .clearPriv, c => { c with rsaPriv := .zero }
  | .clearSeed, c => { c with masterSeed := zeroBlock 32 }
  | .clearInitialized, c => { c with initialized := false }

/-- A write to flash. -/
structure NvWrite where
  slot : Fin 2
  change : NvChange
deriving DecidableEq

/-- The flash after a write. -/
def NvWrite.apply (w : NvWrite) (fl : Flash) : Flash := fl.setSlot w.slot w.change.apply

/-- The flash after some writes. -/
def Flash.applyAll : Flash → List NvWrite → Flash
  | fl, [] => fl
  | fl, w :: ws => (w.apply fl).applyAll ws

/-- The contents of the flash after each of some writes. -/
def Flash.history : Flash → List NvWrite → List Flash
  | _, [] => []
  | fl, w :: ws => w.apply fl :: (w.apply fl).history ws

/-- Writes are made one after the other. -/
theorem Flash.applyAll_append (fl : Flash) (ws ws' : List NvWrite) :
    fl.applyAll (ws ++ ws') = (fl.applyAll ws).applyAll ws' := by
  induction ws generalizing fl with
  | nil => rfl
  | cons w ws ih => exact ih (w.apply fl)

/-- The history of further writes starts where the first ones have led. -/
theorem Flash.history_append (fl : Flash) (ws ws' : List NvWrite) :
    fl.history (ws ++ ws') = fl.history ws ++ (fl.applyAll ws).history ws' := by
  induction ws generalizing fl with
  | nil => rfl
  | cons w ws ih => exact congrArg (w.apply fl :: ·) (ih (w.apply fl))

/-- There is one content of the flash for each write. -/
@[simp] theorem Flash.length_history (fl : Flash) (ws : List NvWrite) :
    (fl.history ws).length = ws.length := by
  induction ws generalizing fl with
  | nil => rfl
  | cons w ws ih => exact congrArg (· + 1) (ih (w.apply fl))

/-- Two changes of one slot. -/
@[simp] theorem Flash.setSlot_setSlot (fl : Flash) (i : Fin 2) (f g : CryptoSlot → CryptoSlot) :
    (fl.setSlot i f).setSlot i g = fl.setSlot i (g ∘ f) := by
  simp [Flash.setSlot]

/-- The slot that is updated. -/
@[simp] theorem Flash.slots_setSlot_self (fl : Flash) (i : Fin 2) (f : CryptoSlot → CryptoSlot) :
    (fl.setSlot i f).slots i = f (fl.slots i) := Function.update_self _ _ _

/-- The other slot is left alone. -/
theorem Flash.slots_setSlot_of_ne (fl : Flash) {i j : Fin 2} (h : j ≠ i)
    (f : CryptoSlot → CryptoSlot) : (fl.setSlot i f).slots j = fl.slots j :=
  Function.update_of_ne h _ _

/-- Only what a change makes of the slot matters. -/
theorem Flash.setSlot_congr {fl : Flash} {i : Fin 2} {f g : CryptoSlot → CryptoSlot}
    (h : f (fl.slots i) = g (fl.slots i)) : fl.setSlot i f = fl.setSlot i g := by
  unfold Flash.setSlot
  rw [h]

/-- Writes to one slot. -/
theorem Flash.applyAll_slot (fl : Flash) {ws : List NvWrite} {slot : Fin 2}
    (hws : ∀ w ∈ ws, w.slot = slot) :
    fl.applyAll ws = fl.setSlot slot fun c =>
      (ws.map NvWrite.change).foldl (fun c change => change.apply c) c := by
  induction ws generalizing fl with
  | nil =>
    unfold Flash.setSlot
    exact (congrArg (Flash.mk · fl.sigs) (Function.update_eq_self slot fl.slots)).symm
  | cons w ws ih =>
    rw [Flash.applyAll, ih _ fun v hv => hws v (List.mem_cons_of_mem w hv), NvWrite.apply,
      hws w List.mem_cons_self, Flash.setSlot_setSlot]
    rfl

/-- A run has performed some writes, one after another, and changed nothing else in the store. -/
structure StoreRun.Performs (r : StoreRun) (ws : List NvWrite) (r' : StoreRun) : Prop where
  store : r'.store = { r.store with flash := r.store.flash.applyAll ws }
  written : r'.written = r.written ++ r.store.flash.history ws

/-- A stretch without writes performs none. -/
theorem StoreRun.Same.performs {r r' : StoreRun} (h : r.Same r') : r.Performs [] r' :=
  ⟨h.store, h.written.trans (List.append_nil _).symm⟩

/-- One write is performed. -/
theorem performs_write (r : StoreRun) (w : NvWrite) : r.Performs [w] (r.write w.apply) :=
  ⟨rfl, rfl⟩

/-- Writes that are performed one after the other. -/
theorem StoreRun.Performs.trans {r r' r'' : StoreRun} {ws ws' : List NvWrite}
    (h : r.Performs ws r') (h' : r'.Performs ws' r'') : r.Performs (ws ++ ws') r'' := by
  constructor
  · rw [h'.store, h.store, Flash.applyAll_append]
  · rw [h'.written, h.written, h.store, Flash.history_append, List.append_assoc]

/-- A run has performed some writes, one after another, and changed nothing else in flash. -/
structure StoreRun.Wrote (r : StoreRun) (ws : List NvWrite) (r' : StoreRun) : Prop where
  flash : r'.store.flash = r.store.flash.applyAll ws
  written : r'.written = r.written ++ r.store.flash.history ws

/-- What has performed writes has written them. -/
theorem StoreRun.Performs.wrote {r r' : StoreRun} {ws : List NvWrite} (h : r.Performs ws r') :
    r.Wrote ws r' :=
  ⟨by rw [h.store], h.written⟩

/-- Writes that have been written one after the other. -/
theorem StoreRun.Wrote.trans {r r' r'' : StoreRun} {ws ws' : List NvWrite} (h : r.Wrote ws r')
    (h' : r'.Wrote ws' r'') : r.Wrote (ws ++ ws') r'' := by
  constructor
  · rw [h'.flash, h.flash, Flash.applyAll_append]
  · rw [h'.written, h.written, h.flash, Flash.history_append, List.append_assoc]

/-! ## What the stages write -/

section Stages

variable (sdk : Sdk) (seed : Seed)

/-- The loop of hashes writes them one after another.

**Proof sketch.** By induction on the number of hashes that are left, for every place to write to;
two hashes written one behind the other are their concatenation written at once. -/
theorem fillHashes_spec (data : ℕ → Bytes) (k i : ℕ) {pos : ℕ} {mem : Bytes}
    (hpos : pos ≤ mem.length) (r : StoreRun) :
    Ensures (fillHashes sdk data k i pos mem) r fun res r' =>
      r.Same r' ∧ ∀ out, res = .ok out →
        out = overwrite mem pos ((List.range' i k).flatMap fun j => (sdk.sha256 (data j)).val) := by
  induction k generalizing i pos mem r with
  | zero =>
    refine ⟨.refl r, fun out hout => ?_⟩
    cases hout
    simp
  | succ k ih =>
    refine ensures_sdkCall_bind ?_ ?_
    · intro r' hsame
      have hlen := le_length_overwrite (a := (sdk.sha256 (data i)).val) hpos
      rw [(sdk.sha256 (data i)).property] at hlen
      apply (ih (i + 1) hlen r').mono
      rintro res r'' ⟨hsame', hout⟩
      refine ⟨hsame.trans hsame', fun out hres => ?_⟩
      have happ := overwrite_overwrite (a := (sdk.sha256 (data i)).val)
        (b := (List.range' (i + 1) k).flatMap fun j => (sdk.sha256 (data j)).val) hpos
      rw [(sdk.sha256 (data i)).property] at happ
      rw [hout out hres, happ, List.range'_succ, List.flatMap_cons]
    · intro r' hsame _
      exact ⟨hsame, fun out hout => by cases hout⟩

/-- `crypto_derivePrime` writes the bytes of the prime at the place of the prime, and the store
stays as it is.

**Proof sketch.** The loop writes the whole hashes. If bytes remain, the beginning of one more hash
is written behind them. -/
theorem cryptoDerivePrime_spec (primeLen : ℕ) {mem : Bytes} {prime : ℕ}
    (hprime : prime ≤ mem.length) (index : ℕ) (r : StoreRun) :
    Ensures (cryptoDerivePrime sdk primeLen mem prime index) r fun res r' =>
      r.Same r' ∧ ∀ out, res = .ok out →
        out = overwrite mem prime (primeBytes sdk primeLen r.store.current.masterSeed index) := by
  unfold cryptoDerivePrime
  apply ensures_getStore_bind
  dsimp only
  by_cases hmax : primeLen * 8 / 256 % 65536 > 255
  · rw [if_pos hmax]
    exact ensures_throw ⟨.refl r, fun out hout => by cases hout⟩
  rw [if_neg hmax]
  refine (fillHashes_spec sdk _ _ 0 hprime r).bind ?_ ?_
  · rintro mem' r' ⟨hsame, hmem'⟩
    rw [hmem' mem' rfl, ← List.range_eq_range']
    by_cases hrem : primeLen * 8 % 256 > 0
    · rw [if_pos hrem]
      refine ensures_sdkCall_bind ?_ ?_
      · intro r'' hsame'
        refine ensures_pure ⟨hsame.trans hsame', fun out hout => ?_⟩
        cases hout
        have happ := overwrite_overwrite
          (a := (List.range (primeLen * 8 / 256 % 65536)).flatMap fun j =>
            (sdk.sha256 (primeData index r.store.current.masterSeed j)).val)
          (b := (sdk.sha256 (primeData index r.store.current.masterSeed
            (primeLen * 8 / 256 % 65536))).val.take (primeLen * 8 % 256 / 8 + 1)) hprime
        rw [length_flatMap_blocks, List.length_range] at happ
        rw [happ, primeBytes, if_pos hrem]
      · intro r'' hsame' _
        exact ensures_throw ⟨hsame.trans hsame', fun out hout => by cases hout⟩
    · rw [if_neg hrem]
      refine ensures_pure ⟨hsame, fun out hout => ?_⟩
      cases hout
      rw [primeBytes, if_neg hrem, List.append_nil]
  · rintro e r' ⟨hsame, -⟩
    exact ⟨hsame, fun out hout => by cases hout⟩

/-- `crypto_deriveMasterSeed` stores the master seed in the slot in use, or writes nothing. -/
theorem cryptoDeriveMasterSeed_spec (r : StoreRun) :
    Ensures (cryptoDeriveMasterSeed sdk seed) r fun res r' =>
      match res with
      | .ok () => r.Performs [⟨r.store.slotInUse, .masterSeed (masterSeedOf sdk seed)⟩] r'
      | .error _ => r.Performs [] r' := by
  refine ensures_sdkCall_bind ?_ ?_
  · intro r' hsame
    refine ensures_getStore_bind (ensures_writeNv ?_)
    rw [hsame.store]
    exact hsame.performs.trans (performs_write r' ⟨_, .masterSeed _⟩)
  · intro r' hsame _
    exact ensures_throw hsame.performs

/-- `crypto_init_primes` stores the primes of the slot's master seed, or writes nothing.

**Proof sketch.** Both calls of `crypto_derivePrime` fill one half of `pq`, so setting the top
bits and searching from each half on its own gives the two primes of the master seed. -/
theorem cryptoInitPrimes_spec (r : StoreRun) :
    Ensures (cryptoInitPrimes sdk) r fun res r' =>
      match res with
      | .ok () => r.Performs [⟨r.store.slotInUse, .pq (primes sdk r.store.current.masterSeed)⟩] r'
      | .error _ => r.Performs [] r' := by
  set P := primeBytes sdk rsaPrimeLen r.store.current.masterSeed 0 with hPdef
  set Q := primeBytes sdk rsaPrimeLen r.store.current.masterSeed 1 with hQdef
  have hP : P.length = rsaPrimeLen := length_primeBytes sdk _ 0
  have hQ : Q.length = rsaPrimeLen := length_primeBytes sdk _ 1
  have hnext : ∀ x, (sdk.nextPrime x).val.length = rsaPrimeLen := fun x =>
    (sdk.nextPrime x).property
  have hzero : (List.replicate (rsaPrimeLen * 2) (0 : UInt8)).length =
      rsaPrimeLen + rsaPrimeLen := List.length_replicate
  refine (cryptoDerivePrime_spec sdk rsaPrimeLen (Nat.zero_le _) 0 r).bind ?_ ?_
  swap
  · rintro e r' ⟨hsame, -⟩
    exact hsame.performs
  rintro pq r₁ ⟨hsame₁, hpq⟩
  have hfit : rsaPrimeLen ≤ pq.length := by
    rw [hpq pq rfl, ← hPdef, overwrite, hP, List.length_append, List.length_append, hP]
    omega
  refine (cryptoDerivePrime_spec sdk rsaPrimeLen hfit 1 r₁).bind ?_ ?_
  swap
  · rintro e r' ⟨hsame, -⟩
    exact (hsame₁.trans hsame).performs
  rintro pq' r₂ ⟨hsame₂, hpq'⟩
  have hsame := hsame₁.trans hsame₂
  have hboth : pq' = P ++ Q := by
    rw [hpq' pq' rfl, hpq pq rfl, hsame₁.store]
    exact overwrite_halves hzero hP hQ
  subst hboth
  dsimp only
  rw [take_setTopBit hP]
  refine ensures_sdkCall_bind ?_ ?_
  swap
  · intro r' hsame' _
    exact ensures_throw (hsame.trans hsame').performs
  intro r₃ hsame₃
  dsimp only
  rw [drop_overwrite (hnext _), drop_setTopBit hP (by decide)]
  refine ensures_sdkCall_bind ?_ ?_
  swap
  · intro r' hsame' _
    exact ensures_throw ((hsame.trans hsame₃).trans hsame').performs
  intro r₄ hsame₄
  refine ensures_getStore_bind (ensures_writeNv ?_)
  have hmem : (setTopBit (setTopBit (P ++ Q) 0) rsaPrimeLen).length =
      rsaPrimeLen + rsaPrimeLen := by
    simp only [setTopBit, List.length_modify, List.length_append, hP, hQ]
  have hfinal := (hsame.trans hsame₃).trans hsame₄
  rw [overwrite_halves hmem (hnext _) (hnext _), hfinal.store]
  exact hfinal.performs.trans (performs_write r₄ ⟨_, .pq _⟩)

/-- `crypto_init_keys` marks the slot in use and then stores the key pair of its primes, or writes
nothing.

**Proof sketch.** The only call of the SDK comes before the first write. -/
theorem cryptoInitKeys_spec (r : StoreRun) :
    let keys := sdk.rsaGeneratePair expBeBuf r.store.current.pq
    Ensures (cryptoInitKeys sdk) r fun res r' =>
      match res with
      | .ok () => r.Performs [⟨r.store.slotInUse, .setInitialized⟩,
          ⟨r.store.slotInUse, .rsaPub keys.1⟩, ⟨r.store.slotInUse, .rsaPriv keys.2⟩] r'
      | .error _ => r.Performs [] r' := by
  intro keys
  refine ensures_getStore_bind (ensures_sdkCall_bind ?_ ?_)
  · intro r' hsame
    refine ensures_writeNv_bind (ensures_writeNv_bind (ensures_writeNv ?_))
    have hset := hsame.performs.trans (performs_write r' ⟨r.store.slotInUse, .setInitialized⟩)
    have hpub := hset.trans (performs_write _ ⟨r.store.slotInUse, .rsaPub keys.1⟩)
    exact hpub.trans (performs_write _ ⟨r.store.slotInUse, .rsaPriv keys.2⟩)
  · intro r' hsame _
    exact ensures_throw hsame.performs

/-- The writes that fill a slot for a master seed. -/
def fillWrites (slot : Fin 2) (m : Block 32) : List NvWrite :=
  [⟨slot, .masterSeed m⟩, ⟨slot, .pq (primes sdk m)⟩, ⟨slot, .setInitialized⟩,
    ⟨slot, .rsaPub (sdk.rsaGeneratePair expBeBuf (primes sdk m)).1⟩,
    ⟨slot, .rsaPriv (sdk.rsaGeneratePair expBeBuf (primes sdk m)).2⟩]

/-- The writes of a set-up leave the slot of the master seed. -/
theorem Flash.applyAll_fillWrites (fl : Flash) (slot : Fin 2) (m : Block 32) :
    fl.applyAll (fillWrites sdk slot m) = fl.setSlot slot fun _ => keySlot sdk m := by
  simp only [fillWrites, Flash.applyAll, NvWrite.apply, Flash.setSlot_setSlot]
  rfl

variable {sdk} in
/-- A set-up writes to its slot only. -/
theorem slot_of_mem_fillWrites {slot : Fin 2} {m : Block 32} {w : NvWrite}
    (h : w ∈ fillWrites sdk slot m) : w.slot = slot := by
  simp only [fillWrites, List.mem_cons, List.not_mem_nil, or_false] at h
  rcases h with rfl | rfl | rfl | rfl | rfl <;> rfl

/-- **`crypto_initialize_slot`** performs the writes that fill the slot in use for the current
seed, up to the stage in which a call of the SDK fails.

**Proof sketch.** The three functions one after another, each with its writes and with the calls it
makes. The calls in the list of faults are those of the master seed, then eighteen for the primes,
then one for the key pair, so a failing call tells how many writes have been performed. -/
theorem cryptoInitializeSlot_writes (r : StoreRun) :
    let ws := fillWrites sdk r.store.slotInUse (masterSeedOf sdk seed)
    Ensures (cryptoInitializeSlot sdk seed) r fun res r' =>
      match res with
      | .ok () => fillDone r.faults = 5 ∧ ∃ r₁, r.Performs ws r₁ ∧
          r' = { r₁ with store := { r₁.store with deviceInitialized := true } }
      | .error _ => fillDone r.faults ≤ 2 ∧ r.Performs (ws.take (fillDone r.faults)) r' := by
  intro ws
  refine ((cryptoDeriveMasterSeed_spec sdk seed r).and
    (calls_cryptoDeriveMasterSeed sdk seed r)).bind ?_ ?_
  swap
  · rintro e r' ⟨h, hcalls⟩
    rw [fillDone, if_pos hcalls.fails]
    exact ⟨by decide, h⟩
  rintro _ r₁ ⟨h₁, hcalls₁⟩
  obtain ⟨hok₁, hfaults₁⟩ := hcalls₁.succeeds
  refine ((cryptoInitPrimes_spec sdk r₁).and (calls_cryptoInitPrimes sdk r₁)).bind ?_ ?_
  swap
  · rintro e r' ⟨h, hcalls⟩
    rw [fillDone, if_neg hok₁, ← hfaults₁, if_pos hcalls.fails]
    exact ⟨by decide, h₁.trans h⟩
  rintro _ r₂ ⟨h₂, hcalls₂⟩
  obtain ⟨hok₂, hfaults₂⟩ := hcalls₂.succeeds
  dsimp only at h₁ h₂
  have hslot : r₁.store.slotInUse = r.store.slotInUse := by rw [h₁.store]
  have hseed : r₁.store.current.masterSeed = masterSeedOf sdk seed := by
    rw [CryptoStore.current, h₁.store]
    exact congrArg CryptoSlot.masterSeed (Flash.slots_setSlot_self _ _ _)
  rw [hslot, hseed] at h₂
  have hdrop : r₂.faults = r.faults.drop 19 := by rw [hfaults₂, hfaults₁, List.drop_drop]
  rw [hfaults₁] at hok₂
  refine ((cryptoInitKeys_spec sdk r₂).and (calls_cryptoInitKeys sdk r₂)).bind ?_ ?_
  swap
  · rintro e r' ⟨h, hcalls⟩
    rw [fillDone, if_neg hok₁, if_neg hok₂, ← hdrop, if_pos hcalls.fails]
    exact ⟨le_refl 2, (h₁.trans h₂).trans h⟩
  rintro _ r₃ ⟨h₃, hcalls₃⟩
  obtain ⟨hok₃, -⟩ := hcalls₃.succeeds
  rw [hdrop] at hok₃
  dsimp only at h₃
  have hslot' : r₂.store.slotInUse = r.store.slotInUse := by rw [h₂.store, hslot]
  have hpq : r₂.store.current.pq = primes sdk (masterSeedOf sdk seed) := by
    rw [CryptoStore.current, h₂.store, hslot]
    exact congrArg CryptoSlot.pq (Flash.slots_setSlot_self _ _ _)
  rw [hslot', hpq] at h₃
  refine ensures_modifyStore ⟨?_, r₃, (h₁.trans h₂).trans h₃, rfl⟩
  rw [fillDone, if_neg hok₁, if_neg hok₂, if_neg hok₃]

/-- `crypto_initialize_slot` fills the slot in use for the current seed, or leaves its keys and
its flag as they are.

**Proof sketch.** From the writes: none, one or two of them are performed on failure, which do not
include the flag, and all five on success. -/
theorem cryptoInitializeSlot_spec (r : StoreRun) :
    Ensures (cryptoInitializeSlot sdk seed) r fun res r' =>
      match res with
      | .ok () => r'.store =
          { r.store.setCurrent fun _ => keySlot sdk (masterSeedOf sdk seed) with
            deviceInitialized := true }
      | .error _ => ∃ m pq,
          r'.store = r.store.setCurrent fun c => { c with masterSeed := m, pq := pq } := by
  apply (cryptoInitializeSlot_writes sdk seed r).mono
  rintro (e | _) r' h
  · obtain ⟨hn, h⟩ := h
    rw [h.store]
    obtain hn | hn | hn : fillDone r.faults = 0 ∨ fillDone r.faults = 1 ∨
      fillDone r.faults = 2 := by omega
    all_goals rw [hn]
    · exact ⟨_, _, (r.store.setCurrent_eq_self rfl).symm⟩
    · refine ⟨masterSeedOf sdk seed, r.store.current.pq, ?_⟩
      exact congrArg (fun fl => { r.store with flash := fl }) (Flash.setSlot_congr rfl)
    · refine ⟨masterSeedOf sdk seed, primes sdk (masterSeedOf sdk seed), ?_⟩
      refine congrArg (fun fl => { r.store with flash := fl }) ?_
      exact (Flash.setSlot_setSlot _ _ _ _).trans (Flash.setSlot_congr rfl)
  · obtain ⟨-, r₁, h, rfl⟩ := h
    dsimp only
    rw [h.store, Flash.applyAll_fillWrites]
    rfl

end Stages

/-- A slot as `crypto_uninitialized_slot` leaves it. -/
def CryptoSlot.erased (c : CryptoSlot) : CryptoSlot :=
  ⟨zeroBlock 32, (zeroBlock 512).val, c.rsaPub, ⟨0, zeroBlock 512, zeroBlock 512⟩, false⟩

/-- The writes that erase a slot. -/
def eraseWrites (slot : Fin 2) : List NvWrite :=
  [⟨slot, .clearPq⟩, ⟨slot, .clearPriv⟩, ⟨slot, .clearSeed⟩, ⟨slot, .clearInitialized⟩]

/-- The writes of an erasure leave an erased slot. -/
theorem Flash.applyAll_eraseWrites (fl : Flash) (slot : Fin 2) :
    fl.applyAll (eraseWrites slot) = fl.setSlot slot CryptoSlot.erased := by
  simp only [eraseWrites, Flash.applyAll, NvWrite.apply, Flash.setSlot_setSlot]
  rfl

/-- An erasure writes to its slot only. -/
theorem slot_of_mem_eraseWrites {slot : Fin 2} {w : NvWrite} (h : w ∈ eraseWrites slot) :
    w.slot = slot := by
  simp only [eraseWrites, List.mem_cons, List.not_mem_nil, or_false] at h
  rcases h with rfl | rfl | rfl | rfl <;> rfl

/-- **`crypto_uninitialized_slot`** erases a slot, the flag last.

**Proof sketch.** Four writes in a row; no call of the SDK is made, so nothing fails. -/
theorem cryptoUninitializedSlot_writes (slot : Fin 2) (r : StoreRun) :
    Ensures (cryptoUninitializedSlot slot) r fun res r' =>
      res = .ok () ∧ r.Performs (eraseWrites slot) r' := by
  unfold cryptoUninitializedSlot
  rw [if_neg (by omega)]
  refine ensures_writeNv_bind (ensures_writeNv_bind (ensures_writeNv_bind (ensures_writeNv
    ⟨rfl, ?_⟩)))
  have hpq := performs_write r ⟨slot, .clearPq⟩
  have hpriv := hpq.trans (performs_write _ ⟨slot, .clearPriv⟩)
  have hseed := hpriv.trans (performs_write _ ⟨slot, .clearSeed⟩)
  exact hseed.trans (performs_write _ ⟨slot, .clearInitialized⟩)

/-- `crypto_uninitialized_slot` erases its slot and cannot fail. -/
theorem cryptoUninitializedSlot_spec (slot : Fin 2) (r : StoreRun) :
    Ensures (cryptoUninitializedSlot slot) r fun res r' =>
      res = .ok () ∧
        r'.store = { r.store with flash := r.store.flash.setSlot slot CryptoSlot.erased } := by
  apply (cryptoUninitializedSlot_writes slot r).mono
  rintro res r' ⟨hres, h⟩
  rw [h.store, Flash.applyAll_eraseWrites]
  exact ⟨hres, rfl⟩

/-! ## The choice of a slot -/

section Choice

variable (sdk : Sdk) (seed : Seed)

/-- The branches of `crypto_store_init`. -/
inductive InitChoice where
  | use (slot : Fin 2)
  | fill (slot : Fin 2)
  | refill

/-- What a branch of `crypto_store_init` does. -/
def InitChoice.perform : InitChoice → StoreM Unit
  | .use slot => useSlot slot
  | .fill slot => do
    useSlot slot
    cryptoInitializeSlot sdk seed
  | .refill => do
    cryptoUninitializedSlot keySlot1
    cryptoUninitializedSlot keySlot2
    useSlot keySlot1
    cryptoInitializeSlot sdk seed

/-- The slot holds the master seed of the current seed, and the next derivation succeeds. -/
def StoreRun.Recognizes (r : StoreRun) (slot : Fin 2) : Prop :=
  (r.store.flash.slots slot).masterSeed = masterSeedOf sdk seed ∧ r.faults.headD false = false

/-- Whether a slot is recognized can be evaluated. -/
instance (r : StoreRun) (slot : Fin 2) : Decidable (r.Recognizes sdk seed slot) :=
  inferInstanceAs (Decidable (_ ∧ _))

/-- The branch `crypto_store_init` takes, and the run up to there. -/
def initChoice (r : StoreRun) : InitChoice × StoreRun :=
  if ¬ cryptoStoreSlotIsInitialized r.store keySlot1 then (.fill keySlot1, r)
  else if r.Recognizes sdk seed keySlot1 then (.use keySlot1, r.spend)
  else if ¬ cryptoStoreSlotIsInitialized r.store keySlot2 then (.fill keySlot2, r.spend)
  else if r.spend.Recognizes sdk seed keySlot2 then (.use keySlot2, r.spend.spend)
  else (.refill, r.spend.spend)

/-- `same_masterseed` says yes to what is recognized. -/
theorem exec_sameMasterseed (slot : Fin 2) (r : StoreRun) :
    exec (sameMasterseed sdk seed slot) r =
      (.ok (decide (r.Recognizes sdk seed slot)), r.spend) := by
  unfold sameMasterseed
  rw [if_neg (by omega), exec_bind_ok (exec_sdkCall _ r)]
  cases hfault : r.faults.headD false with
  | true =>
    rw [decide_eq_false fun h => absurd (hfault.symm.trans h.2) (by decide)]
    rfl
  | false =>
    have hrec : r.Recognizes sdk seed slot ↔
        (r.store.flash.slots slot).masterSeed = masterSeedOf sdk seed := and_iff_left hfault
    simp only [hrec]
    rfl

/-- When `crypto_store_init` takes a branch. -/
def InitChoice.Justified (fl : Flash) : InitChoice → Prop
  | .use slot =>
    (fl.slots slot).initialized = true ∧ (fl.slots slot).masterSeed = masterSeedOf sdk seed
  | .fill slot => (fl.slots slot).initialized = false ∧
      (slot = keySlot1 ∨ slot = keySlot2 ∧ (fl.slots keySlot1).initialized = true)
  | .refill => ∀ i, (fl.slots i).initialized = true

/-- There are two slots. -/
theorem slot_cases : ∀ i : Fin 2, i = keySlot1 ∨ i = keySlot2 := by decide

/-- **`crypto_store_init`** chooses a branch without changing the store, and performs it.

**Proof sketch.** Along its decisions: is the first slot initialized, does it hold the seed, and the
same of the second one. Reading the store and comparing seeds change nothing but the list of faults.
-/
theorem exec_cryptoStoreInit (r : StoreRun) :
    let choice := initChoice sdk seed r
    exec (cryptoStoreInit sdk seed) r = exec (choice.1.perform sdk seed) choice.2 ∧
      r.Same choice.2 ∧ choice.1.Justified sdk seed r.store.flash := by
  have hget : ∀ (f : CryptoStore → StoreM Unit) r, exec (getStore >>= f) r = exec (f r.store) r :=
    fun _ _ => rfl
  have hspend : r.Same r.spend := r.same_spend
  have hspend₂ : r.Same r.spend.spend := hspend.trans r.spend.same_spend
  unfold cryptoStoreInit initChoice
  rw [hget]
  by_cases h1 : cryptoStoreSlotIsInitialized r.store keySlot1 = true
  swap
  · rw [if_pos h1, if_pos h1]
    exact ⟨rfl, .refl r, eq_false_of_ne_true h1, .inl rfl⟩
  rw [if_neg (not_not.mpr h1), if_neg (not_not.mpr h1),
    exec_bind_ok (exec_sameMasterseed sdk seed keySlot1 r)]
  by_cases hyes₁ : r.Recognizes sdk seed keySlot1
  · rw [if_pos hyes₁, decide_eq_true hyes₁]
    exact ⟨rfl, hspend, h1, hyes₁.1⟩
  rw [if_neg hyes₁, decide_eq_false hyes₁, if_neg Bool.false_ne_true, hget, hspend.store]
  by_cases h2 : cryptoStoreSlotIsInitialized r.store keySlot2 = true
  swap
  · rw [if_pos h2, if_pos h2]
    exact ⟨rfl, hspend, eq_false_of_ne_true h2, .inr ⟨rfl, h1⟩⟩
  rw [if_neg (not_not.mpr h2), if_neg (not_not.mpr h2),
    exec_bind_ok (exec_sameMasterseed sdk seed keySlot2 r.spend)]
  by_cases hyes₂ : r.spend.Recognizes sdk seed keySlot2
  · rw [if_pos hyes₂, decide_eq_true hyes₂]
    exact ⟨rfl, hspend₂, h2, hyes₂.1⟩
  · rw [if_neg hyes₂, decide_eq_false hyes₂]
    refine ⟨rfl, hspend₂, fun i => ?_⟩
    rcases slot_cases i with rfl | rfl
    · exact h1
    · exact h2

/-- **Filling a slot** performs its writes up to the stage in which a call of the SDK fails.

**Proof sketch.** Selecting the slot is no write to flash, and then `cryptoInitializeSlot_writes`
applies. -/
theorem perform_fill_wrote (slot : Fin 2) (r : StoreRun) :
    Ensures ((InitChoice.fill slot).perform sdk seed) r fun res r' =>
      (res = .ok () → fillDone r.faults = 5) ∧
        r.Wrote ((fillWrites sdk slot (masterSeedOf sdk seed)).take (fillDone r.faults)) r' := by
  refine ensures_modifyStore_bind ((cryptoInitializeSlot_writes sdk seed _).mono ?_)
  rintro (e | _) r' h
  · obtain ⟨-, h⟩ := h
    exact ⟨nofun, h.wrote.flash, h.wrote.written⟩
  · obtain ⟨hdone, r₁, h, rfl⟩ := h
    refine ⟨fun _ => hdone, ?_⟩
    rw [show fillDone r.faults = 5 from hdone]
    exact ⟨h.wrote.flash, h.wrote.written⟩

end Choice

/-! ## A sample SDK -/

/-- The first sixteen bytes of a message, and the last sixteen backwards. -/
def messageEnds (b : Bytes) : Block 32 := toBlock 32 (b.take 16 ++ b.reverse.take 16)

/-- A toy SDK: the seed is the master seed, a number is made odd to get a prime, a modulus has the
bytes of the master seed that are found in the primes, and a signature is the hash, the key and the
salt. -/
def sampleSdk : Sdk where
  deriveBip32 seed _ := toBlock 64 seed
  sha256 := messageEnds
  nextPrime n := ⟨n.val.modify 255 (· ||| 1), by rw [List.length_modify, n.property]⟩
  rsaGeneratePair e pq :=
    let n := toBlock 512 ((pq.drop 2).take 14)
    (⟨512, toBlock 4 e, n⟩, ⟨512, n, n⟩)
  rsaSign key hash salt := toBlock 512 (hash.val ++ key.d.val.take 14 ++ salt)

end LedgerArweave
