import LedgerArweave.Store.KeyIdentity

set_option relaxedAutoImplicit false
set_option autoImplicit false

/-!
# Losing power while keys are set up

`crypto_store_init` changes the flash one write at a time, and power can be lost between any two
writes. What the next boot finds in flash is the effect of the writes performed so far.

A slot whose flag is set should hold the key material of its master seed: the primes and the key
pair. It does not from the moment `crypto_init_keys` sets the flag until it has stored both keys,
nor from the moment `crypto_uninitialized_slot` erases the primes until it clears the flag.
Everywhere else power can be lost.

## Main definitions

* `initPlan` — the writes `crypto_store_init` is going to perform.
* `CryptoSlot.HoldsMaterial` — the key material of the master seed is there.
* `exposed` — the flag is set and some key material is not there.
* `powerStore` — the key store with losses of power as a machine.

## Main results

* `cryptoStoreInit_wrote` — `crypto_store_init` performs its plan up to some point.
* `cut_spec` — what the flash holds after any number of writes of the plan.
* `powerLoss_iff` — when losses of power are harmless.
-/

namespace LedgerArweave

open Fallible

/-! ## The plan of `crypto_store_init` -/

/-- After this write the flag of its slot is set and some key material is not there: the flag is set
before the keys are stored, and cleared after the primes, the private key and the master seed are
erased. -/
def NvChange.exposes : NvChange → Bool
  | .setInitialized | .rsaPub _ | .clearPq | .clearPriv | .clearSeed => true
  | _ => false

/-- The last of some writes leaves a slot marked that does not hold its key material. -/
def exposed (ws : List NvWrite) : Bool := ws.getLast?.any fun w => w.change.exposes

/-- Whether a slot is exposed is decided by the last write. -/
theorem exposed_append (ws ws' : List NvWrite) (h : ws' ≠ []) :
    exposed (ws ++ ws') = exposed ws' := by
  rw [exposed, List.getLast?_append_of_ne_nil _ h, exposed]

section Plan

variable (sdk : Sdk) (seed : Seed)

/-- The writes of a branch of `crypto_store_init`, if no call of the SDK fails in it. -/
def InitChoice.writes : InitChoice → List NvWrite
  | .use _ => []
  | .fill slot => fillWrites sdk slot (masterSeedOf sdk seed)
  | .refill => eraseWrites keySlot1 ++ (eraseWrites keySlot2 ++
      fillWrites sdk keySlot1 (masterSeedOf sdk seed))

/-- The writes `crypto_store_init` is going to perform. -/
def initPlan (r : StoreRun) : List NvWrite := (initChoice sdk seed r).1.writes sdk seed

variable {sdk seed}

/-- Filling a slot that fails has written no more than the master seed and the primes. -/
theorem exposed_fillDone (slot : Fin 2) (m : Block 32) (faults : List Bool) :
    exposed ((fillWrites sdk slot m).take (fillDone faults)) = false := by
  rcases fillDone_cases faults with h | h | h | h <;> rw [h] <;> rfl

/-- A branch performs its writes up to some point.

**Proof sketch.** Erasing makes no call of the SDK, so it is done in full, and only filling a slot
can stop early. It stops behind a write that leaves its slot sound, or before its first one, when
what has been erased last was completed. -/
theorem perform_wrote (choice : InitChoice) (r : StoreRun) :
    Ensures (choice.perform sdk seed) r fun _ r' =>
      ∃ n, exposed ((choice.writes sdk seed).take n) = false ∧
        r.Wrote ((choice.writes sdk seed).take n) r' := by
  cases choice with
  | use slot => exact ⟨0, rfl, rfl, (List.append_nil _).symm⟩
  | fill slot =>
    apply (perform_fill_wrote sdk seed slot r).mono
    rintro _ r' ⟨-, h⟩
    exact ⟨_, exposed_fillDone slot _ _, h⟩
  | refill =>
    refine (cryptoUninitializedSlot_writes keySlot1 r).bind ?_ (by rintro e r' ⟨he, -⟩; cases he)
    rintro _ r₁ ⟨-, h₁⟩
    refine (cryptoUninitializedSlot_writes keySlot2 r₁).bind ?_ (by rintro e r' ⟨he, -⟩; cases he)
    rintro _ r₂ ⟨-, h₂⟩
    have herased := h₁.wrote.trans h₂.wrote
    apply (perform_fill_wrote sdk seed keySlot1 r₂).mono
    rintro _ r' ⟨-, h⟩
    have htake : (InitChoice.refill.writes sdk seed).take (8 + fillDone r₂.faults) =
        eraseWrites keySlot1 ++ eraseWrites keySlot2 ++
          (fillWrites sdk keySlot1 (masterSeedOf sdk seed)).take (fillDone r₂.faults) := by
      rw [InitChoice.writes, ← List.append_assoc,
        show 8 = (eraseWrites keySlot1 ++ eraseWrites keySlot2).length from rfl,
        List.take_length_add_append]
    refine ⟨8 + fillDone r₂.faults, ?_, by rw [htake]; exact herased.trans h⟩
    rw [htake]
    by_cases hnone :
        (fillWrites sdk keySlot1 (masterSeedOf sdk seed)).take (fillDone r₂.faults) = []
    · rw [hnone]
      rfl
    · exact (exposed_append _ _ hnone).trans (exposed_fillDone _ _ _)

/-- **`crypto_store_init` performs its plan up to some point**, and where it stops by itself, no
slot is left exposed.

**Proof sketch.** The choice of a branch writes nothing, and the branch performs its writes up to
some point. -/
theorem cryptoStoreInit_wrote (r : StoreRun) :
    Ensures (cryptoStoreInit sdk seed) r fun _ r' =>
      ∃ n, exposed ((initPlan sdk seed r).take n) = false ∧
        r.Wrote ((initPlan sdk seed r).take n) r' := by
  obtain ⟨hexec, hsame, -⟩ := exec_cryptoStoreInit sdk seed r
  refine Ensures.of_exec_eq ?_ hexec
  apply (perform_wrote (initChoice sdk seed r).1 (initChoice sdk seed r).2).mono
  rintro _ r' ⟨n, hn, h⟩
  exact ⟨n, hn, hsame.performs.wrote.trans h⟩

end Plan

/-! ## What a loss of power leaves -/

section Cut

variable (sdk : Sdk)

/-- The slot holds the key material of its master seed: the primes, and the key pair generated from
them. -/
structure CryptoSlot.HoldsMaterial (c : CryptoSlot) : Prop where
  pq : c.pq = primes sdk c.masterSeed
  pair : (c.rsaPub, c.rsaPriv) = sdk.rsaGeneratePair expBeBuf (primes sdk c.masterSeed)

/-- The flag of the slot says whether it holds its key material; the private key of a slot without
its flag is erased. -/
structure CryptoSlot.Sound (c : CryptoSlot) : Prop where
  material : c.initialized = true → c.HoldsMaterial sdk
  blank : c.initialized = false → c.rsaPriv = .zero

/-- What some writes leave in a slot: it is sound, unless they leave it exposed, and then its flag
is set without the key material. -/
structure CryptoSlot.CutAt (c : CryptoSlot) (cs : List NvChange) : Prop where
  sound : cs.getLast?.any NvChange.exposes = false →
    (cs.foldl (fun c change => change.apply c) c).Sound sdk
  exposed : cs.getLast?.any NvChange.exposes = true →
    (cs.foldl (fun c change => change.apply c) c).initialized = true ∧
      ¬ (cs.foldl (fun c change => change.apply c) c).HoldsMaterial sdk

variable {sdk}

/-- What is used of the SDK: a prime is not zero, and a generated private key has 512 bytes. -/
structure Sdk.Generates (sdk : Sdk) : Prop where
  nextPrime : ∀ n, sdk.nextPrime n ≠ zeroBlock 256
  size : ∀ e pq, (sdk.rsaGeneratePair e pq).2.size = 512

variable (hsdk : sdk.Generates) {c : CryptoSlot}

include hsdk

/-- A slot whose primes are erased does not hold its key material, whatever its master seed. -/
theorem CryptoSlot.not_holdsMaterial_of_pq (hc : c.pq = (zeroBlock 512).val) :
    ¬ c.HoldsMaterial sdk := by
  intro h
  have hprimes : (primeOf sdk c.masterSeed 0).val ++ (primeOf sdk c.masterSeed 1).val =
      (zeroBlock 512).val := h.pq.symm.trans hc
  have htake := congrArg (List.take 256) hprimes
  rw [List.take_left' (primeOf sdk c.masterSeed 0).property, zeroBlock,
    List.take_replicate] at htake
  exact hsdk.nextPrime _ (Subtype.ext htake)

/-- An erased private key belongs to no key pair. -/
theorem CryptoSlot.pair_ne_of_rsaPriv (hc : c.rsaPriv = .zero) (pq : Bytes) :
    (c.rsaPub, c.rsaPriv) ≠ sdk.rsaGeneratePair expBeBuf pq := by
  intro hpair
  have hpriv : c.rsaPriv.size = 512 := by
    rw [show c.rsaPriv = _ from congrArg Prod.snd hpair]
    exact hsdk.size _ _
  rw [hc] at hpriv
  exact absurd hpriv (by decide)

/-- A slot whose private key is erased does not hold its key material. -/
theorem CryptoSlot.not_holdsMaterial_of_rsaPriv (hc : c.rsaPriv = .zero) :
    ¬ c.HoldsMaterial sdk :=
  fun h => CryptoSlot.pair_ne_of_rsaPriv hsdk hc _ h.pair

/-- Filling an empty slot exposes it from setting the flag to storing the private key.

**Proof sketch.** Five writes, hence six points. Before the flag is set the slot is blank as it was;
after the flag and after the public key the private key is still blank; after the private key the
slot is `keySlot` of the seed. -/
theorem CryptoSlot.Sound.cut_fill (h : c.Sound sdk) (hempty : c.initialized = false)
    (slot : Fin 2) (m : Block 32) (n : ℕ) :
    c.CutAt sdk (((fillWrites sdk slot m).take n).map NvWrite.change) := by
  have hblank := h.blank hempty
  match n with
  | 0 => exact ⟨fun _ => h, fun hx => absurd hx Bool.false_ne_true⟩
  | 1 | 2 => exact ⟨fun _ => ⟨fun hi => absurd (hempty.symm.trans hi) (by decide), fun _ => hblank⟩,
      fun hx => absurd hx Bool.false_ne_true⟩
  | 3 | 4 => exact ⟨fun hx => absurd hx.symm Bool.false_ne_true,
      fun _ => ⟨rfl, CryptoSlot.not_holdsMaterial_of_rsaPriv hsdk hblank⟩⟩
  | n + 5 =>
    rw [List.take_of_length_le (by simp [fillWrites])]
    exact ⟨fun _ => ⟨fun _ => ⟨rfl, rfl⟩, fun hi => absurd hi.symm Bool.false_ne_true⟩,
      fun hx => absurd hx Bool.false_ne_true⟩

/-- Erasing a filled slot exposes it from erasing the primes to clearing the flag.

**Proof sketch.** Four writes, hence five points. The first write erases the primes and none
restores them, so at the three points before the flag is cleared the material is missing, whatever
the master seed is by then. -/
theorem CryptoSlot.Sound.cut_erase (h : c.Sound sdk) (hinit : c.initialized = true)
    (slot : Fin 2) (n : ℕ) : c.CutAt sdk (((eraseWrites slot).take n).map NvWrite.change) := by
  match n with
  | 0 => exact ⟨fun _ => h, fun hx => absurd hx Bool.false_ne_true⟩
  | 1 | 2 | 3 => exact ⟨fun hx => absurd hx.symm Bool.false_ne_true,
      fun _ => ⟨hinit, CryptoSlot.not_holdsMaterial_of_pq hsdk rfl⟩⟩
  | n + 4 =>
    rw [List.take_of_length_le (by simp [eraseWrites])]
    exact ⟨fun _ => ⟨fun hi => absurd hi Bool.false_ne_true, fun _ => rfl⟩,
      fun hx => absurd hx Bool.false_ne_true⟩

omit hsdk

/-! ### Several slots -/

variable (sdk) in
/-- Every slot is sound. -/
def Flash.Sound (fl : Flash) : Prop := ∀ i, (fl.slots i).Sound sdk

variable (sdk) in
/-- What some writes leave in flash. -/
structure Flash.CutAt (fl : Flash) (ws : List NvWrite) : Prop where
  sound : exposed ws = false → (fl.applyAll ws).Sound sdk
  exposed : exposed ws = true → ∃ i, ((fl.applyAll ws).slots i).initialized = true ∧
    ¬ ((fl.applyAll ws).slots i).HoldsMaterial sdk

/-- Writes to one slot, cut off anywhere, are judged by that slot: the other one stays sound.

**Proof sketch.** What the writes do to flash is what their changes do to this slot, and their last
one exposes the one exactly if it exposes the other. -/
theorem Flash.Sound.cutAt_slot {fl : Flash} (h : fl.Sound sdk) {ws : List NvWrite} (slot : Fin 2)
    (hws : ∀ w ∈ ws, w.slot = slot) (hcut : (fl.slots slot).CutAt sdk (ws.map NvWrite.change)) :
    fl.CutAt sdk ws := by
  have hlast : (ws.map NvWrite.change).getLast?.any NvChange.exposes =
      LedgerArweave.exposed ws := by
    rw [List.getLast?_map, Option.any_map]
    rfl
  obtain ⟨hsound, hexposed⟩ := hcut
  rw [hlast] at hsound hexposed
  constructor
  · intro hx i
    rw [fl.applyAll_slot hws]
    by_cases hi : i = slot
    · subst hi
      rw [Flash.slots_setSlot_self]
      exact hsound hx
    · rw [Flash.slots_setSlot_of_ne _ hi]
      exact h i
  · intro hx
    refine ⟨slot, ?_⟩
    rw [fl.applyAll_slot hws, Flash.slots_setSlot_self]
    exact hexposed hx

/-- Cutting one list of writes after another.

**Proof sketch.** If nothing of the second list has been written, it is the first list that is cut
off. Otherwise the first one has been written in full. -/
theorem Flash.cutAt_append {fl : Flash} {ws ws' : List NvWrite}
    (h : ∀ n, fl.CutAt sdk (ws.take n)) (h' : ∀ n, (fl.applyAll ws).CutAt sdk (ws'.take n))
    (n : ℕ) : fl.CutAt sdk ((ws ++ ws').take n) := by
  rw [List.take_append]
  by_cases hne : ws'.take (n - ws.length) = []
  · rw [hne, List.append_nil]
    exact h n
  · have hn : ws.length ≤ n := by
      by_contra hlt
      rw [Nat.sub_eq_zero_of_le (le_of_not_ge hlt)] at hne
      exact hne rfl
    obtain ⟨hsound, hexposed⟩ := h' (n - ws.length)
    rw [← exposed_append ws _ hne, ← Flash.applyAll_append] at hsound hexposed
    rw [List.take_of_length_le hn]
    exact ⟨hsound, hexposed⟩

include hsdk in
/-- **Losing power in a branch of `crypto_store_init`**: after any number of its writes every slot
is sound, unless the last of them left one exposed.

**Proof sketch.** By the branch. The writes of each slot are judged by this slot: `cut_fill` for
filling one that is not initialized, `cut_erase` for erasing one that is. Erasing both and filling
the first are three such lists in a row, each starting from a sound flash. -/
theorem cut_spec {fl : Flash} (h : fl.Sound sdk) {seed : Seed} {choice : InitChoice}
    (hjust : choice.Justified sdk seed fl) (n : ℕ) :
    fl.CutAt sdk ((choice.writes sdk seed).take n) := by
  have hfill : ∀ (fl : Flash) (slot : Fin 2) (n : ℕ), fl.Sound sdk →
      (fl.slots slot).initialized = false →
      fl.CutAt sdk ((fillWrites sdk slot (masterSeedOf sdk seed)).take n) := by
    intro fl slot n h hempty
    exact h.cutAt_slot slot (fun w hw => slot_of_mem_fillWrites (List.mem_of_mem_take hw))
      ((h slot).cut_fill hsdk hempty slot _ n)
  have herase : ∀ (fl : Flash) (slot : Fin 2) (n : ℕ), fl.Sound sdk →
      (fl.slots slot).initialized = true → fl.CutAt sdk ((eraseWrites slot).take n) := by
    intro fl slot n h hinit
    exact h.cutAt_slot slot (fun w hw => slot_of_mem_eraseWrites (List.mem_of_mem_take hw))
      ((h slot).cut_erase hsdk hinit slot n)
  cases choice with
  | use slot =>
    rw [InitChoice.writes, List.take_nil]
    exact ⟨fun _ => h, fun hx => absurd hx (by decide)⟩
  | fill slot => exact hfill fl slot n h hjust.1
  | refill =>
    have hne : keySlot2 ≠ keySlot1 := by decide
    have h₁ := herase fl keySlot1 4 h (hjust keySlot1)
    have h₁ : (fl.applyAll (eraseWrites keySlot1)).Sound sdk := h₁.sound rfl
    have hinit₂ : ((fl.applyAll (eraseWrites keySlot1)).slots keySlot2).initialized = true := by
      rw [Flash.applyAll_eraseWrites, Flash.slots_setSlot_of_ne _ hne]
      exact hjust keySlot2
    have h₂ := herase _ keySlot2 4 h₁ hinit₂
    have h₂ : ((fl.applyAll (eraseWrites keySlot1)).applyAll (eraseWrites keySlot2)).Sound sdk :=
      h₂.sound rfl
    refine Flash.cutAt_append (fun n => herase fl keySlot1 n h (hjust keySlot1)) ?_ n
    refine Flash.cutAt_append (fun n => herase _ keySlot2 n h₁ hinit₂) ?_
    intro n
    refine hfill _ keySlot1 n h₂ ?_
    rw [Flash.applyAll_eraseWrites, Flash.applyAll_eraseWrites,
      Flash.slots_setSlot_of_ne _ hne.symm, Flash.slots_setSlot_self]
    rfl

end Cut

/-! ## Runs with losses of power -/

section Runs

variable (sdk : Sdk)

/-- The writes `crypto_store_init` performs when the screen calls it. -/
def initWrites (seed : Seed) (st : CryptoStore) (faults : List Bool) : List NvWrite :=
  if st.deviceInitialized then []
  else (initPlan sdk seed (st.start faults)).take (storeInitRun sdk seed st faults).written.length

/-- What is in flash when power is lost after `k` writes of `crypto_store_init`. -/
def cutFlash (seed : Seed) (st : CryptoStore) (faults : List Bool) (k : ℕ) : Flash :=
  if st.deviceInitialized then st.flash
  else ((storeInitRun sdk seed st faults).written.take k).getLastD st.flash

/-- What happens to the key store, and losses of power: `crypto_store_init` with the calls of the
SDK that fail, the number of writes until power is lost, and the next boot. -/
inductive PowerEvent where
  | store (event : StoreEvent)
  | powerLoss (faults : List Bool) (k : ℕ) (seed : Seed) (bootFaults : List Bool)

/-- The key store with losses of power as a machine. -/
def powerStore : Machine KeyStore PowerEvent (Option BootReport) where
  step ks
    | .store event => (keyStore sdk).step ks event
    | .powerLoss faults k seed bootFaults =>
      (keyStore sdk).step ⟨.reset (cutFlash sdk ks.seed ks.store faults k), ks.seed⟩
        (.boot seed bootFaults)

/-- A step of the key store with losses of power. -/
abbrev PowerStep := Transition KeyStore PowerEvent (Option BootReport)

/-- Power is not lost while the flag of a slot is set and some key material is not there: not right
after `crypto_init_keys` has set the flag or stored the public key, nor right after
`crypto_uninitialized_slot` has erased the primes, the private key or the master seed. -/
def PowerStep.Unexposed (t : PowerStep) : Prop :=
  match t.event with
  | .store _ => True
  | .powerLoss faults k _ _ =>
    exposed ((initWrites sdk t.before.seed t.before.store faults).take k) = false

/-- Every slot whose flag is set holds its key material, and so does the slot that the next boot
selects, with whatever seed. -/
def Flash.Ready (fl : Flash) : Prop :=
  (∀ i, (fl.slots i).initialized = true → (fl.slots i).HoldsMaterial sdk) ∧
  ∀ seed faults, (bootStore sdk seed fl faults).2.found = true →
    (bootStore sdk seed fl faults).1.current.HoldsMaterial sdk

variable {sdk}

/-- The last of the first `k` flash contents is the effect of the first `k` writes.

**Proof sketch.** By induction on the writes, from the content before them. -/
theorem Flash.getLastD_history_take (fl : Flash) (ws : List NvWrite) (k : ℕ) :
    ((fl.history ws).take k).getLastD fl = fl.applyAll (ws.take k) := by
  induction ws generalizing fl k with
  | nil => simp [Flash.history, Flash.applyAll]
  | cons w ws ih =>
    cases k with
    | zero => rfl
    | succ k =>
      rw [Flash.history, List.take_succ_cons, List.take_succ_cons, List.getLastD_cons]
      exact ih (w.apply fl) k

variable (sdk) in
/-- The run of `crypto_store_init` writes what `initWrites` says, and stops by itself with no slot
exposed. -/
theorem storeInitRun_wrote (seed : Seed) {st : CryptoStore} (hdev : st.deviceInitialized = false)
    (faults : List Bool) :
    exposed (initWrites sdk seed st faults) = false ∧
      (st.start faults).Wrote (initWrites sdk seed st faults)
        (storeInitRun sdk seed st faults) := by
  have hinit : Ensures (cryptoStoreInit sdk seed) (st.start faults) _ := cryptoStoreInit_wrote _
  obtain ⟨n, hn, hwrote⟩ := hinit
  have hlen : (initPlan sdk seed (st.start faults)).take
      (storeInitRun sdk seed st faults).written.length =
        (initPlan sdk seed (st.start faults)).take n := by
    have hwritten : (storeInitRun sdk seed st faults).written =
        st.flash.history ((initPlan sdk seed (st.start faults)).take n) := hwrote.written
    rw [hwritten, Flash.length_history, List.length_take, List.take_eq_take_min]
    simp
  rw [initWrites, hdev, if_neg Bool.false_ne_true, hlen]
  exact ⟨hn, hwrote⟩

/-- Power lost after `k` writes leaves the effect of the first `k` writes. -/
theorem cutFlash_eq (seed : Seed) (st : CryptoStore) (faults : List Bool) (k : ℕ) :
    cutFlash sdk seed st faults k =
      st.flash.applyAll ((initWrites sdk seed st faults).take k) := by
  by_cases hdev : st.deviceInitialized = true
  · simp [cutFlash, initWrites, hdev, Flash.applyAll]
  · have hwritten := (storeInitRun_wrote sdk seed (eq_false_of_ne_true hdev)
      faults).2.written
    rw [cutFlash, if_neg hdev, hwritten]
    exact Flash.getLastD_history_take _ _ _

/-- With every slot sound, the next boot selects only slots that hold their key material. -/
theorem Flash.Sound.ready {fl : Flash} (h : fl.Sound sdk) : fl.Ready sdk := by
  refine ⟨fun i => (h i).material, fun seed faults hfound => ?_⟩
  obtain ⟨hflash, hkeys⟩ := bootStore_keeps sdk fl seed faults
  have hinit := (hkeys hfound).1
  unfold CryptoStore.current at hinit ⊢
  rw [hflash] at hinit ⊢
  exact (h _).material hinit

/-- After any number of writes of `crypto_store_init` the flash is sound, unless the last of them
left a slot exposed, and then it is not ready. -/
theorem cutFlash_spec (hsdk : sdk.Generates) {st : CryptoStore}
    (h : st.flash.Sound sdk) (seed : Seed) (faults : List Bool) (k : ℕ) :
    st.flash.CutAt sdk ((initWrites sdk seed st faults).take k) := by
  obtain ⟨-, -, hjust⟩ := exec_cryptoStoreInit sdk seed (st.start faults)
  by_cases hdev : st.deviceInitialized = true
  · rw [initWrites, if_pos hdev, List.take_nil]
    exact ⟨fun _ => h, fun hx => absurd hx (by decide)⟩
  · rw [initWrites, if_neg hdev, List.take_take]
    exact cut_spec hsdk h hjust _

/-- What a step leaves in flash: a sound flash stays sound, unless the step exposes a slot, and then
the flash is not ready.

**Proof sketch.** A reset does not write. An initialization that ends by itself performs its plan up
to a point where no slot is exposed; one that loses power performs it up to any point, and both are
cases of `cut_spec`. Where it leaves a slot exposed, this slot has its flag without the keys. -/
theorem step_sound (hsdk : sdk.Generates) {ks : KeyStore}
    (h : ks.store.flash.Sound sdk) (e : PowerEvent) :
    let t := (powerStore sdk).transition ks e
    (PowerStep.Unexposed sdk t → t.after.store.flash.Sound sdk) ∧
      (¬ PowerStep.Unexposed sdk t → ¬ t.after.store.flash.Ready sdk) := by
  intro t
  rcases e with (⟨seed, faults⟩ | faults) | ⟨faults, k, seed, bootFaults⟩
  · refine ⟨fun _ => ?_, fun hx => absurd trivial hx⟩
    have hflash : t.after.store.flash = ks.store.flash :=
      (bootStore_keeps sdk ks.store.flash seed faults).1
    rw [hflash]
    exact h
  · refine ⟨fun _ => ?_, fun hx => absurd trivial hx⟩
    show (initializeStore sdk ks.seed ks.store faults).flash.Sound sdk
    by_cases hdev : ks.store.deviceInitialized = true
    · rw [initializeStore, if_pos hdev]
      exact h
    · obtain ⟨hx, hwrote⟩ := storeInitRun_wrote sdk ks.seed (eq_false_of_ne_true hdev) faults
      have hcut := cutFlash_spec hsdk h ks.seed faults
        (initWrites sdk ks.seed ks.store faults).length
      rw [List.take_length] at hcut
      rw [initializeStore, if_neg hdev, hwrote.flash]
      exact hcut.sound hx
  · have hflash : t.after.store.flash =
        ks.store.flash.applyAll ((initWrites sdk ks.seed ks.store faults).take k) := by
      rw [← cutFlash_eq]
      exact (bootStore_keeps sdk _ seed bootFaults).1
    obtain ⟨hsound, hexposed⟩ := cutFlash_spec hsdk h ks.seed faults k
    rw [hflash]
    refine ⟨hsound, fun hx hready => ?_⟩
    obtain ⟨i, hinit, hpair⟩ := hexposed (eq_true_of_ne_false hx)
    exact hpair (hready.1 i hinit)

/-- An empty flash is sound. -/
theorem sound_zero : Flash.zero.Sound sdk :=
  fun _ => ⟨fun h => absurd h Bool.false_ne_true, fun _ => rfl⟩

/-- **Losses of power**, in any number and in any history of resets, initializations and failing
calls of the SDK: every slot with its flag set holds the primes and the key pair of its master seed,
and so does what any next boot selects, exactly if power is never lost while a slot is exposed.

**Proof sketch.** Soundness of every slot is the invariant. A step keeps it unless it loses power
with a slot exposed, and such a step leaves a slot whose flag is set without its material. -/
theorem powerLoss_iff (hsdk : sdk.Generates)
    (es : List PowerEvent) :
    (∀ t ∈ (powerStore sdk).trace .fresh es, t.after.store.flash.Ready sdk) ↔
      ∀ t ∈ (powerStore sdk).trace .fresh es, PowerStep.Unexposed sdk t := by
  refine Machine.forall_trace_iff (G := PowerStep.Unexposed sdk)
    (P := fun t => t.after.store.flash.Ready sdk) (I := fun ks => ks.store.flash.Sound sdk)
    sound_zero ?_ ?_
  · intro ks e h hx
    have hsound := (step_sound hsdk h e).1 hx
    exact ⟨hsound, hsound.ready⟩
  · intro ks e h
    exact (step_sound hsdk h e).2

/-- The toy SDK makes odd primes, and keys of 512 bytes. -/
theorem sampleSdk_generates : sampleSdk.Generates := by
  refine ⟨fun n hn => ?_, fun _ _ => rfl⟩
  have hlast : (n.val.modify 255 (· ||| 1))[255]? = some 0 :=
    (congrArg (fun b : Block 256 => b.val[255]?) hn).trans rfl
  have hlt : 255 < n.val.length := by
    rw [n.property]
    decide
  rw [List.getElem?_modify_eq, List.getElem?_eq_getElem hlt] at hlast
  have hodd : n.val[255] ||| 1 = 0 := Option.some.inj hlast
  exact absurd (UInt8.or_eq_zero_iff.mp hodd).2 (by decide)

/-- Power lost when both the master seed and the primes are stored does no harm. -/
theorem powerLoss_iff_sample :
    ((powerStore sampleSdk).trace .fresh
      [.store (.boot [1] []), .powerLoss [] 2 [1] [], .store (.storeInit [])]).Forall
      fun t => t.after.store.flash.Ready sampleSdk := by
  apply List.forall_iff_forall_mem.mpr
  apply (powerLoss_iff sampleSdk_generates _).mpr
  intro t ht
  simp only [Machine.trace_cons, Machine.trace_nil, List.mem_cons, List.not_mem_nil, or_false] at ht
  rcases ht with rfl | rfl | rfl
  · trivial
  · show exposed _ = false
    decide +kernel
  · trivial

/-- The flash after power is lost right after `crypto_init_keys` has set the flag. -/
def unreadyFlash : Flash :=
  ((powerStore sampleSdk).run .fresh [.store (.boot [1] []), .powerLoss [] 3 [1] []]).store.flash

/-- Power lost right after the flag is set: the next boot with the same seed finds keys, and the
slot it selects has not the key pair of its master seed. -/
theorem powerLoss_unready :
    (bootStore sampleSdk [1] unreadyFlash []).2.found = true ∧
      let c := (bootStore sampleSdk [1] unreadyFlash []).1.current
      (c.rsaPub, c.rsaPriv) ≠ sampleSdk.rsaGeneratePair expBeBuf (primes sampleSdk c.masterSeed) ∧
        ¬ c.HoldsMaterial sampleSdk := by
  have hpriv : (bootStore sampleSdk [1] unreadyFlash []).1.current.rsaPriv = .zero := by
    decide +kernel
  exact ⟨by decide +kernel, CryptoSlot.pair_ne_of_rsaPriv sampleSdk_generates hpriv _,
    CryptoSlot.not_holdsMaterial_of_rsaPriv sampleSdk_generates hpriv⟩

end Runs

end LedgerArweave
