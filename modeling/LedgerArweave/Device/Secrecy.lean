import LedgerArweave.Device.Address
import LedgerArweave.Lib.Commutes

set_option relaxedAutoImplicit false
set_option autoImplicit false

/-!
# What the secrets have to do with the outputs

The flash holds the master seeds, the primes and the private keys, and the device holds its seed.
Commands and decisions of the user look at none of them, except that the private key in use makes
signatures. So if these secrets are exchanged for others, among them a private key that signs in
the same way, every run gives the same outputs: the host learns nothing about the secrets that the
signatures do not tell.

## Main definitions

* `Secrets` — what may be exchanged.
* `Device.withSecrets` — the device with other secrets.

## Main results

* `step_withSecrets` — one step with other secrets.
* `outputs_withSecrets` — the outputs of a run with other secrets.
-/

namespace LedgerArweave

open Fallible

/-! ## Other secrets -/

/-- The secret fields of a slot. -/
structure SlotSecrets where
  masterSeed : Block 32
  pq : Bytes
  rsaPriv : RsaPrivateKey

/-- The secrets of a device. -/
structure Secrets where
  seed : Seed
  slots : Fin 2 → SlotSecrets

/-- A slot with other secrets; it has the same public key. -/
def CryptoSlot.withSecrets (c : CryptoSlot) (x : SlotSecrets) : CryptoSlot :=
  { c with masterSeed := x.masterSeed, pq := x.pq, rsaPriv := x.rsaPriv }

/-- A flash with other secrets in both slots. -/
def Flash.withSecrets (fl : Flash) (x : Secrets) : Flash :=
  { fl with slots := fun i => (fl.slots i).withSecrets (x.slots i) }

/-- A store with other secrets in flash. -/
def CryptoStore.withSecrets (st : CryptoStore) (x : Secrets) : CryptoStore :=
  { st with flash := st.flash.withSecrets x }

/-- A run of the store with other secrets. -/
def StoreRun.withSecrets (r : StoreRun) (x : Secrets) : StoreRun :=
  { r with
    store := r.store.withSecrets x
    written := r.written.map fun fl => fl.withSecrets x }

section Device

variable {σ : Type}

/-- A device with other secrets. -/
def Device.withSecrets (d : Device σ) (x : Secrets) : Device σ :=
  { d with store := d.store.withSecrets x, seed := x.seed }

/-- A handler on a device with other secrets. -/
def Handler.withSecrets (h : Handler σ) (x : Secrets) : Handler σ :=
  { h with dev := h.dev.withSecrets x }

/-- The private key in use signs like the one it is exchanged for. -/
def SignsAlike (sdk : Sdk) (x : Secrets) (st : CryptoStore) : Prop :=
  sdk.rsaSign (x.slots st.slotInUse).rsaPriv = sdk.rsaSign st.current.rsaPriv

end Device

/-! ## Functions on the store -/

section Store

variable (x : Secrets) {α : Type}

/-- What is read from the store has nothing to do with the secrets. -/
theorem commutes_getStore_bind {f : CryptoStore → StoreM α}
    (hread : ∀ st, f (st.withSecrets x) = f st)
    (hf : ∀ st, Commutes (StoreRun.withSecrets · x) (f st)) :
    Commutes (StoreRun.withSecrets · x) (getStore >>= f) := by
  intro r
  show exec (f (r.store.withSecrets x)) (r.withSecrets x) = _
  rw [hread]
  exact hf r.store r

/-- The same for one run. -/
theorem commutesAt_getStore_bind {f : CryptoStore → StoreM α} {r : StoreRun}
    (hread : f (r.store.withSecrets x) = f r.store)
    (hf : CommutesAt (StoreRun.withSecrets · x) (f r.store) r) :
    CommutesAt (StoreRun.withSecrets · x) (getStore >>= f) r := by
  show exec (f (r.store.withSecrets x)) (r.withSecrets x) = _
  rw [hread]
  exact hf

/-- A call of the SDK with public arguments does not see the secrets. -/
theorem commutes_sdkCall (a : α) : Commutes (StoreRun.withSecrets · x) (sdkCall a) := by
  intro r
  unfold CommutesAt
  rw [exec_sdkCall, exec_sdkCall]
  rfl

/-- Writing a signature. -/
theorem commutes_writeSig (i : Fin 2) (sig : Block 512) :
    Commutes (StoreRun.withSecrets · x) (writeNv fun fl => fl.setSig i sig) := by
  refine commutes_modify fun r => ?_
  simp only [StoreRun.write, StoreRun.withSecrets, List.map_append, List.map_singleton]
  rfl

/-- Setting the flag of the signature does not see the secrets. -/
theorem commutes_setSignatureSet (b : UInt8) :
    Commutes (StoreRun.withSecrets · x) (modifyStore fun st => { st with signatureSet := b }) :=
  commutes_modify fun _ => rfl

/-- Storing a signature does not see the secrets. -/
theorem commutes_cryptoStoreSignature (sig : Block 512) :
    Commutes (StoreRun.withSecrets · x) (cryptoStoreSignature sig) := by
  refine commutes_getStore_bind x (fun _ => rfl) fun st => ?_
  refine Commutes.bind (commutes_modify fun _ => rfl) fun _ => ?_
  exact (commutes_writeSig x _ _).bind fun _ => commutes_setSignatureSet x 1

/-- Handing out a part of the signature does not see the secrets. -/
theorem commutes_cryptoGetsignaturePart (bufferLen index : ℕ) :
    Commutes (StoreRun.withSecrets · x) (cryptoGetsignaturePart bufferLen index) := by
  have hpart : Commutes (StoreRun.withSecrets · x) (cryptoSignaturePart index) := by
    refine commutes_getStore_bind x (fun _ => rfl) fun st => ?_
    refine Commutes.ite (commutes_throw _) (Commutes.ite (commutes_throw _) ?_)
    refine Commutes.ite ?_ (commutes_pure _)
    exact (commutes_writeSig x _ _).bind fun _ =>
      (commutes_setSignatureSet x 0).bind fun _ => commutes_pure _
  exact commutes_getStore_bind x (fun _ => rfl) fun st => Commutes.ite (commutes_throw _) hpart

/-- Computing the address does not see the secrets: it is hashed from the modulus. -/
theorem commutes_cryptoFillAddress (sdk : Sdk) (bufferLen : ℕ) :
    Commutes (StoreRun.withSecrets · x) (cryptoFillAddress sdk bufferLen) := by
  refine commutes_getStore_bind x (fun _ => rfl) fun st => ?_
  refine Commutes.ite (commutes_throw _) (Commutes.ite (commutes_throw _) ?_)
  dsimp only
  cases cryptoStoreGetPubkey st with
  | none => exact commutes_throw _
  | some rsaPubkey =>
    refine (commutes_sdkCall x _).bind fun hash => ?_
    cases hash with
    | none => exact commutes_throw _
    | some hash => exact Commutes.ite (commutes_throw _) (commutes_pure _)

/-- **Signing** looks at the private key, and nothing tells it from one that signs alike.

**Proof sketch.** Everything before the call of the signer does not see the secrets. The signer is
called with the private key, but both keys give the same signature by assumption. -/
theorem commutesAt_cryptoSign {sdk : Sdk} {r : StoreRun} (hsign : SignsAlike sdk x r.store)
    (H : Bytes → Digest) (m : Memory) (tx : ParserTx) (signatureMaxlen : ℕ) (salt : Bytes) :
    CommutesAt (StoreRun.withSecrets · x) (cryptoSign sdk H m tx signatureMaxlen salt) r := by
  refine commutesAt_getStore_bind x rfl ?_
  by_cases hinit : cryptoStoreIsInitialized r.store = true
  swap
  · rw [if_pos hinit]
    exact commutes_throw _ r
  rw [if_neg (not_not.mpr hinit)]
  by_cases hlen : signatureMaxlen < sha384DigestLen
  · rw [if_pos hlen]
    exact commutes_throw _ r
  rw [if_neg hlen]
  refine (commutes_sdkCall x _ r).bind fun res s hrun => ?_
  have hstore : s.store = r.store := by
    rw [exec_sdkCall] at hrun
    rw [← (Prod.mk.inj hrun).2]
    rfl
  rcases res with _ | _ | digest
  · exact commutes_throw _ s
  · exact commutes_throw _ s
  have hkey : cryptoStoreGetPrivkey r.store = some r.store.current.rsaPriv := by
    rw [cryptoStoreGetPrivkey, if_neg (not_not.mpr hinit)]
  have hkey' : cryptoStoreGetPrivkey (r.store.withSecrets x) =
      some (x.slots r.store.slotInUse).rsaPriv := by
    have hinit' : cryptoStoreIsInitialized (r.store.withSecrets x) = true := hinit
    rw [cryptoStoreGetPrivkey, if_neg (not_not.mpr hinit')]
    rfl
  refine commutesAt_getStore_bind x ?_ ?_
  · rw [hstore, hkey, hkey']
    dsimp only
    rw [hsign]
  · rw [hstore, hkey]
    refine (commutes_sdkCall x _ s).bind fun sig s' _ => ?_
    cases sig with
    | none => exact commutes_throw _ s'
    | some sig =>
      exact (commutes_cryptoStoreSignature x sig).bind (fun _ => commutes_pure _) s'

end Store

/-! ## Handlers -/

section Handlers

variable {σ : Type} (x : Secrets) {α : Type}

/-- Updates of the device that do not look at the secrets. -/
theorem commutes_modifyDevice {f : Device σ → Device σ}
    (hf : ∀ d, f (d.withSecrets x) = (f d).withSecrets x) :
    Commutes (Handler.withSecrets · x) (modifyDevice f) := by
  refine commutes_modify fun h => ?_
  show ({ h.withSecrets x with dev := f (h.dev.withSecrets x) } : Handler σ) = _
  rw [hf]
  rfl

/-- A check of a public condition. -/
theorem commutes_throwIf (condition : Prop) [Decidable condition] (code : ℕ) :
    Commutes (Handler.withSecrets · x) (throwIf condition code : HandlerM σ Unit) :=
  Commutes.ite (commutes_throw _) (commutes_pure _)

/-- Reading a byte of the buffer does not see the secrets. -/
theorem commutes_ioByte (i : ℕ) :
    Commutes (Handler.withSecrets · x) (ioByte i : HandlerM σ UInt8) :=
  commutes_get_bind (fun _ => rfl) fun _ => commutes_pure _

/-- Reading bytes of the buffer does not see the secrets. -/
theorem commutes_ioBytes (i n : ℕ) :
    Commutes (Handler.withSecrets · x) (ioBytes i n : HandlerM σ Bytes) :=
  commutes_get_bind (fun _ => rfl) fun _ => commutes_pure _

/-- Clearing the buffer does not see the secrets. -/
theorem commutes_zeroIo : Commutes (Handler.withSecrets · x) (zeroIo : HandlerM σ Unit) :=
  commutes_modifyDevice x fun _ => rfl

/-- Writing public bytes to the buffer does not see the secrets. -/
theorem commutes_writeIo (pos : ℕ) (w : Bytes) :
    Commutes (Handler.withSecrets · x) (writeIo pos w : HandlerM σ Unit) :=
  commutes_modifyDevice x fun _ => rfl

/-- Setting the length of the response does not see the secrets. -/
theorem commutes_setTx (n : ℕ) : Commutes (Handler.withSecrets · x) (setTx n : HandlerM σ Unit) :=
  commutes_modify fun _ => rfl

/-- Adding to the length of the response does not see the secrets. -/
theorem commutes_addTx (n : ℕ) : Commutes (Handler.withSecrets · x) (addTx n : HandlerM σ Unit) :=
  commutes_modify fun _ => rfl

/-- Replying with a code does not see the secrets. -/
theorem commutes_replyCode (offset code : ℕ) :
    Commutes (Handler.withSecrets · x) (replyCode offset code : HandlerM σ Unit) :=
  (commutes_writeIo x _ _).bind fun _ => commutes_setTx x _

/-- Opening a review does not see the secrets. -/
theorem commutes_reviewInit (review : Review) :
    Commutes (Handler.withSecrets · x) (reviewInit review : HandlerM σ Unit) :=
  commutes_modify fun _ => rfl

/-- A function on the store in a handler. -/
theorem commutesAt_runStore {p : StoreM α} {h : Handler σ}
    (hp : CommutesAt (StoreRun.withSecrets · x) p (h.dev.store.start h.faults)) :
    CommutesAt (Handler.withSecrets · x) (runStore p) h := by
  unfold CommutesAt at hp ⊢
  rw [exec_runStore, exec_runStore]
  have hstart : (h.withSecrets x).dev.store.start (h.withSecrets x).faults =
      (h.dev.store.start h.faults).withSecrets x := rfl
  rw [hstart, hp]
  rfl

/-- What does not see the secrets of the store does not see those of the device. -/
theorem commutes_runStore {p : StoreM α} (hp : Commutes (StoreRun.withSecrets · x) p) :
    Commutes (Handler.withSecrets · x) (runStore p : HandlerM σ (Except ZxErr α)) :=
  fun _ => commutesAt_runStore x (hp _)

variable (pf : Platform σ)

/-- Appending a payload does not see the secrets. -/
theorem commutes_appendPayload (rx : ℕ) :
    Commutes (Handler.withSecrets · x) (appendPayload pf rx) := by
  have happend : ∀ buffer, Commutes (Handler.withSecrets · x) (txAppend pf buffer) := fun buffer =>
    commutes_get_bind (fun _ => rfl) fun _ =>
      (commutes_modifyDevice x fun _ => rfl).bind fun _ => commutes_pure _
  refine (commutes_ioBytes x _ _).bind fun bytes => (happend bytes).bind fun added => ?_
  exact Commutes.ite ((commutes_modifyDevice x fun _ => rfl).bind fun _ => commutes_throw _)
    (commutes_pure _)

/-- Processing a chunk does not see the secrets. -/
theorem commutes_processChunk (rx : ℕ) :
    Commutes (Handler.withSecrets · x) (processChunk pf rx) := by
  refine (commutes_ioByte x _).bind fun payloadType => (commutes_throwIf x _ _).bind fun _ => ?_
  refine (commutes_ioByte x _).bind fun p2 => (commutes_throwIf x _ _).bind fun _ => ?_
  refine Commutes.ite ?_ (Commutes.ite ?_ (Commutes.ite ?_ ?_))
  · exact (commutes_modifyDevice x fun _ => rfl).bind fun _ =>
      (commutes_modifyDevice x fun _ => rfl).bind fun _ =>
        (commutes_modifyDevice x fun _ => rfl).bind fun _ => commutes_pure _
  · exact (commutes_appendPayload x pf rx).bind fun _ => commutes_pure _
  · exact commutes_get_bind (fun _ => rfl) fun h => (commutes_throwIf x _ _).bind fun _ =>
      (commutes_appendPayload x pf rx).bind fun _ => commutes_pure _
  · exact (commutes_modifyDevice x fun _ => rfl).bind fun _ => commutes_throw _

/-- The transaction is checked against the public key. -/
theorem commutes_txParse : Commutes (Handler.withSecrets · x) (txParse pf) := by
  intro h
  have hverdict : txVerdict pf (h.dev.withSecrets x) = txVerdict pf h.dev := rfl
  unfold CommutesAt
  rw [exec_txParse, exec_txParse]
  exact congrArg (·, _) hverdict

/-- `SIGN` does not see the secrets. -/
theorem commutes_handleSign (rx : ℕ) : Commutes (Handler.withSecrets · x) (handleSign pf rx) := by
  refine (commutes_processChunk x pf rx).bind fun last => (commutes_throwIf x _ _).bind fun _ => ?_
  refine (commutes_txParse x pf).bind fun msg => ?_
  cases msg with
  | none => exact commutes_reviewInit x _
  | some msg =>
    exact (commutes_writeIo x _ _).bind fun _ => (commutes_addTx x _).bind fun _ =>
      commutes_throw _

/-- `GET_ADDR` does not see the secrets.

**Proof sketch.** Each step of the handler commutes, since the address is made of the public key. -/
theorem commutes_handleGetAddress : Commutes (Handler.withSecrets · x) (handleGetAddress pf) := by
  have hfill : Commutes (Handler.withSecrets · x) (appFillAddress pf) := by
    refine (commutes_runStore x (commutes_cryptoFillAddress x _ _)).bind fun res => ?_
    cases res with
    | error e => exact (commutes_zeroIo x).bind fun _ => commutes_pure _
    | ok addrStr => exact (commutes_modifyDevice x fun _ => rfl).bind fun _ => commutes_pure _
  refine (commutes_setTx x _).bind fun _ => (commutes_ioByte x _).bind fun _ => ?_
  refine (commutes_throwIf x _ _).bind fun _ => (commutes_ioByte x _).bind fun _ => ?_
  refine (commutes_zeroIo x).bind fun _ => (commutes_modifyDevice x fun _ => rfl).bind fun _ => ?_
  refine hfill.bind fun err => commutes_get_bind (fun _ => rfl) fun h => ?_
  refine Commutes.ite ((commutes_setTx x _).bind fun _ => commutes_throw _) ?_
  exact Commutes.ite (commutes_reviewInit x _)
    ((commutes_setTx x _).bind fun _ => commutes_throw _)

/-- A request for a part that does not see the secrets. -/
theorem commutes_handleGetPart {getPart : ℕ → HandlerM σ (Except ZxErr Bytes)}
    (hpart : ∀ index, Commutes (Handler.withSecrets · x) (getPart index)) :
    Commutes (Handler.withSecrets · x) (handleGetPart getPart) := by
  refine (commutes_setTx x _).bind fun _ => (commutes_ioByte x _).bind fun _ => ?_
  refine (commutes_throwIf x _ _).bind fun _ => (commutes_ioByte x _).bind fun index => ?_
  refine (commutes_zeroIo x).bind fun _ => (hpart _).bind fun res => ?_
  cases res with
  | error e => exact (commutes_setTx x _).bind fun _ => commutes_throw _
  | ok part =>
    exact (commutes_writeIo x _ _).bind fun _ => (commutes_setTx x _).bind fun _ =>
      commutes_throw _

/-- The `switch` of `handleApdu`.

**Proof sketch.** Each handler commutes, and the branches do not depend on the secrets. -/
theorem commutes_switchIns (ins : UInt8) (rx : ℕ) (pinCheck : Option ErrorCode) :
    Commutes (Handler.withSecrets · x) (switchIns pf ins rx pinCheck) := by
  have hpin {p : HandlerM σ Unit} (hp : Commutes (Handler.withSecrets · x) p) :
      Commutes (Handler.withSecrets · x) (checkPinValidated pinCheck >>= fun _ => p) := by
    refine Commutes.bind ?_ fun _ => hp
    cases pinCheck with
    | none => exact commutes_pure _
    | some e => exact commutes_throw _
  have hversion : Commutes (Handler.withSecrets · x) (handleGetVersion pf) :=
    (commutes_writeIo x _ _).bind fun _ => (commutes_addTx x _).bind fun _ => commutes_throw _
  have hsig : Commutes (Handler.withSecrets · x) (handleGetSigPart : HandlerM σ Unit) :=
    commutes_handleGetPart x fun _ => commutes_runStore x (commutes_cryptoGetsignaturePart x _ _)
  have hkey : Commutes (Handler.withSecrets · x) (handleGetPubKeyPart : HandlerM σ Unit) :=
    commutes_handleGetPart x fun _ => commutes_get_bind (fun _ => rfl) fun _ => commutes_pure _
  refine Commutes.ite hversion (Commutes.ite (hpin (commutes_handleGetAddress x pf)) ?_)
  refine Commutes.ite (hpin (commutes_handleSign x pf rx)) (Commutes.ite (hpin hsig) ?_)
  exact Commutes.ite (hpin hkey) (commutes_throw _)

/-- No command sees the secrets.

**Proof sketch.** By the instruction, each handler on its own; the handler of thrown codes writes a
status word. -/
theorem commutes_handleApdu (rx : ℕ) (pinCheck : Option ErrorCode) :
    Commutes (Handler.withSecrets · x) (handleApdu pf rx pinCheck) := by
  refine Commutes.tryCatch ?_ fun e =>
    commutes_get_bind (fun _ => rfl) fun h => commutes_replyCode x _ _
  refine (commutes_ioByte x _).bind fun _ => (commutes_throwIf x _ _).bind fun _ => ?_
  refine (commutes_throwIf x _ _).bind fun _ => (commutes_ioByte x _).bind fun ins => ?_
  refine commutes_get_bind (fun _ => rfl) fun h => (commutes_throwIf x _ _).bind fun _ => ?_
  exact commutes_switchIns x pf ins rx pinCheck

end Handlers

/-! ## Runs -/

section Runs

variable {σ : Type} (pf : Platform σ) (x : Secrets)

/-- `app_sign` with other secrets. -/
theorem commutesAt_appSign {h : Handler σ} (hsign : SignsAlike pf.sdk x h.dev.store)
    (salt : Bytes) : CommutesAt (Handler.withSecrets · x) (appSign pf salt) h := by
  have hstore := commutesAt_runStore x (commutesAt_cryptoSign x
    (r := h.dev.store.start h.faults) hsign pf.sha384 (txBuffer pf h.dev) h.dev.parser.tx
    (ioApduBufferSize - 3) salt)
  refine commutesAt_get_bind rfl (hstore.bind fun res h' _ => ?_)
  cases res with
  | error e => exact commutes_replyCode x _ _ h'
  | ok digest =>
    exact (commutes_writeIo x _ _).bind (fun _ => commutes_replyCode x _ _) h'

/-- Rejecting does not see the secrets. -/
theorem commutes_appReject :
    Commutes (Handler.withSecrets · x) (appReject : HandlerM σ Unit) :=
  (commutes_zeroIo x).bind fun _ => commutes_replyCode x _ _

/-- Confirming an address does not see the secrets. -/
theorem commutes_appReplyAddress :
    Commutes (Handler.withSecrets · x) (appReplyAddress : HandlerM σ Unit) :=
  commutes_get_bind (fun _ => rfl) fun _ => commutes_replyCode x _ _

/-- The answer after a review with other secrets. -/
theorem commutesAt_closeReview {h : Handler σ} {answer : HandlerM σ Unit}
    (hanswer : CommutesAt (Handler.withSecrets · x) answer
      { h with dev := { h.dev with review := none } }) :
    CommutesAt (Handler.withSecrets · x) (closeReview answer) h := by
  refine (commutes_modifyDevice x (fun _ => rfl) h).bind fun _ h' hrun => ?_
  rw [← (Prod.mk.inj hrun).2]
  exact hanswer

/-- Running a handler with other secrets. -/
theorem run_withSecrets {d : Device σ} {p : HandlerM σ Unit} {faults : List Bool}
    (hp : CommutesAt (Handler.withSecrets · x) p (d.start faults)) :
    (d.withSecrets x).run p faults = ((d.run p faults).1.withSecrets x, (d.run p faults).2) := by
  unfold CommutesAt at hp
  have hstart : (d.withSecrets x).start faults = (d.start faults).withSecrets x := rfl
  rw [Device.run, hstart, hp]
  rfl

/-- What happens between resets: the keys are not set up. -/
def DeviceEvent.KeepsKeys : DeviceEvent → Prop
  | .boot _ _ | .storeInit _ => False
  | _ => True

/-- Whether an event keeps the keys is seen from its kind. -/
instance : DecidablePred DeviceEvent.KeepsKeys := fun e =>
  match e with
  | .boot _ _ | .storeInit _ => isFalse not_false
  | .setExpert _ | .apdu _ _ _ | .approve _ _ | .reject => isTrue trivial

/-- **A step with other secrets** gives the same output.

**Proof sketch.** By the kind of event: commands by `commutes_handleApdu`, the approval of a
transaction by `commutesAt_appSign`. -/
theorem step_withSecrets {d : Device σ} {e : DeviceEvent} (hsign : SignsAlike pf.sdk x d.store)
    (he : e.KeepsKeys) :
    (device pf).step (d.withSecrets x) e =
      (((device pf).step d e).1.withSecrets x, ((device pf).step d e).2) := by
  cases e with
  | boot seed faults => exact absurd he id
  | storeInit faults => exact absurd he id
  | setExpert expert => rfl
  | apdu a pinCheck faults =>
    have hreceive : (d.withSecrets x).receive a = (d.receive a).withSecrets x := rfl
    show ((d.withSecrets x).receive a).run _ faults = _
    rw [hreceive]
    exact run_withSecrets x (commutes_handleApdu x pf _ _ _)
  | approve salt faults =>
    have hreview : (d.withSecrets x).review = d.review := rfl
    rcases hd : d.review with _ | _ | _
    · rw [hd] at hreview
      simp only [device, hreview, hd]
    · rw [hd] at hreview
      simp only [device, hreview, hd]
      exact run_withSecrets x (commutesAt_closeReview x (commutesAt_appSign pf x hsign salt))
    · rw [hd] at hreview
      simp only [device, hreview, hd]
      exact run_withSecrets x (commutesAt_closeReview x (commutes_appReplyAddress x _))
  | reject =>
    have hreview : (d.withSecrets x).review = d.review := rfl
    rcases hd : d.review with _ | review
    · rw [hd] at hreview
      simp only [device, hreview, hd]
    · rw [hd] at hreview
      simp only [device, hreview, hd]
      exact run_withSecrets x (commutesAt_closeReview x (commutes_appReject x _))

/-- The keys in use stay the same, and so does what signs like them. -/
theorem signsAlike_step {d : Device σ} {e : DeviceEvent} (hsign : SignsAlike pf.sdk x d.store)
    (he : e.KeepsKeys) : SignsAlike pf.sdk x ((device pf).step d e).1.store := by
  have hsame := sameKeys_step pf d (e := e) (by rintro seed faults rfl; exact he)
    (by rintro faults rfl; exact he)
  unfold SignsAlike CryptoStore.current at hsign ⊢
  rw [hsame.slots, hsame.slotInUse]
  exact hsign

/-- **The outputs of a run with other secrets** are the same, and it ends in the same state but for
the secrets: between resets, replies, signatures and reviews depend on the private key in use by
the signatures it makes, and on the seed, the master seeds, the primes and the other private key
not at all.

**Proof sketch.** By `run_commutes`, with `step_withSecrets` for each step. The keys stay the same
between, so the assumption on the signer does too. -/
theorem outputs_withSecrets (d : Device σ) (hsign : SignsAlike pf.sdk x d.store)
    (es : List DeviceEvent) (hes : ∀ e ∈ es, e.KeepsKeys) :
    (device pf).run (d.withSecrets x) es = ((device pf).run d es).withSecrets x ∧
      ((device pf).trace (d.withSecrets x) es).map (·.output) =
        ((device pf).trace d es).map (·.output) :=
  Machine.run_commutes (I := fun d : Device σ => SignsAlike pf.sdk x d.store)
    (G := DeviceEvent.KeepsKeys) (fun _ _ hs he => signsAlike_step pf x hs he)
    (fun _ _ hs he => step_withSecrets pf x hs he) hsign hes

/-- The sample transaction is signed with other secrets: another seed, other primes, and a private
key that differs in what the toy SDK does not put into signatures. -/
theorem outputs_withSecrets_sample :
    let x : Secrets := ⟨[1, 2, 3], fun _ =>
      ⟨toBlock 32 [6], [4, 5], ⟨512, toBlock 512 (zeros 14 ++ [1]), toBlock 512 [7]⟩⟩⟩
    let es := [signChunk p1Last (sampleBytes.drop 500), .approve [] []]
    ((device hashingPlatform).trace (sampleDevice.withSecrets x) es).map (·.output) =
      ((device hashingPlatform).trace sampleDevice es).map (·.output) := by
  intro x es
  have hkey : (x.slots sampleDevice.store.slotInUse).rsaPriv.d.val.take 14 =
      sampleDevice.store.current.rsaPriv.d.val.take 14 := by decide +kernel
  have hsign : SignsAlike hashingPlatform.sdk x sampleDevice.store := by
    funext hash salt
    exact congrArg (fun key => toBlock 512 (hash.val ++ key ++ salt)) hkey
  exact (outputs_withSecrets hashingPlatform x sampleDevice hsign es (by decide +kernel)).2

end Runs

end LedgerArweave
