import LedgerArweave.Client.Genuine
import LedgerArweave.Client.Transfer
import LedgerArweave.Device.Verified

set_option relaxedAutoImplicit false
set_option autoImplicit false

/-!
# Genuine transactions are signed

A wallet gets its signature if nothing stands against it: whatever has happened to the device
before, if it has keys, is not locked, and the user approves, then a call of `sign` with a genuine
transaction that has a target and fits the buffer ends in success. What it returns is the deep hash
of this transaction and a signature that verifies under the key of the device. This is where the
encoder, the chunks, the buffer, the parser, the printers, the key store and the signer meet.

## Main results

* `uploaded_genuine` — the upload of a genuine transaction is accepted.
* `sign_genuine` — genuine transactions are signed.
-/

namespace LedgerArweave

open Fallible

section Success

variable {σ : Type} (pf : Platform σ)

/-! ## The upload -/

/-- A block is its two halves. -/
theorem halves (b : Block 512) : halve b 0 ++ halve b 1 = b.val := by
  have hrest : (b.val.drop rsaModulusHalve).take rsaModulusHalve = b.val.drop rsaModulusHalve := by
    rw [List.take_of_length_le]
    rw [List.length_drop, b.property]
    decide
  rw [halve, halve, Nat.zero_mul, Nat.one_mul, List.drop_zero, hrest, List.take_append_drop]

/-- Payloads that fit are appended, one after another, and the buffer stays where it is.

**Proof sketch.** By induction on the payloads, for every state of the buffer. -/
theorem exists_appendAll {capacity : ℕ} (hcap : pf.buffering.HasCapacity capacity)
    (hlaw : pf.buffering.Lawful) {payloads : List Bytes} {d : Device σ}
    (haddress : 0 < pf.buffering.address d.buffering)
    (hroom : (d.received pf).length + payloads.flatten.length ≤ capacity) :
    ∃ d', d.appendAll pf payloads = some d' ∧ 0 < pf.buffering.address d'.buffering := by
  induction payloads generalizing d with
  | nil => exact ⟨d, rfl, haddress⟩
  | cons payload payloads ih =>
    rw [List.flatten_cons, List.length_append] at hroom
    obtain ⟨hdata, hadded⟩ := hcap.fits d.buffering payload (show (d.received pf).length + _ ≤ _ by
      omega)
    let d₁ : Device σ := { d with buffering := (pf.buffering.append d.buffering payload).1 }
    have hfirst : d.append pf payload = some d₁ := (Device.append_eq_some pf).mpr ⟨hadded, rfl⟩
    have hreceived : d₁.received pf = d.received pf ++ payload := hdata
    obtain ⟨d', hrest, haddress'⟩ := ih (d := d₁) (hlaw.address_append _ _ haddress) (by
      rw [hreceived, List.length_append]
      omega)
    refine ⟨d', ?_, haddress'⟩
    rw [Device.appendAll, hfirst]
    exact hrest

variable (stringToBuffer : String → Bytes) {tx : ClientTx}

/-- A genuine transaction, alone in the buffer of the device of its owner, is accepted.

**Proof sketch.** The blob decodes to the fields of the transaction, so it is parsed; by
`validate_genuine` its items can be shown and its owner is the key in use. -/
theorem txVerdict_genuine (hzx : pf.zx.Amounts) (hutf8 : IsUtf8 stringToBuffer) {d : Device σ}
    (hinit : cryptoStoreIsInitialized d.store = true)
    (hgenuine : tx.Genuine d.store.current.rsaPub.n.val) (htarget : tx.target ≠ [])
    (hfits : (encodeTx stringToBuffer tx).length ≤ ramBufferSize + flashBufferSize)
    (haddress : 0 < pf.buffering.address d.buffering)
    (hreceived : d.received pf = encodeTx stringToBuffer tx) : txVerdict pf d = .ok none := by
  have hlen : (encodeTx stringToBuffer tx).length ≤ 65535 := hfits.trans (by decide)
  have hbuffer : txBuffer pf d =
      ⟨pf.buffering.address d.buffering, encodeTx stringToBuffer tx⟩ :=
    congrArg (Memory.mk (pf.buffering.address d.buffering)) hreceived
  have hformat : (tx.fields stringToBuffer).format = formatTwo :=
    (hutf8.eq_formatTwo_iff _).mpr hgenuine.format
  have howner : (tx.fields stringToBuffer).owner.length = rsaModulusLen := by
    show tx.owner.length = rsaModulusLen
    rw [hgenuine.owner]
    exact d.store.current.rsaPub.n.property
  have htags : (tx.fields stringToBuffer).tags.length ≤ maxNumberTags :=
    (List.length_map _).trans_le hgenuine.tags
  have hdecode : transaction.decode (encodeTx stringToBuffer tx) =
      some (tx.fields stringToBuffer, []) := by
    rw [encodeTx_eq, decode_encode_of_length (by rw [← encodeTx_eq]; omega),
      if_pos ⟨hformat, howner, htags⟩]
  obtain ⟨s', hparse, -⟩ := parseBuffer_accept haddress hlen hdecode d.parser
  have hvalid := (validate_genuine hzx hutf8 hinit hgenuine hfits haddress hparse d.expert).mpr
    htarget
  have hparsed : (parserParse (txBuffer pf d) (txBuffer pf d).base
      (txBuffer pf d).bytes.length).exec d.parser = (.ok (), s') := by
    rw [hbuffer]
    exact hparse
  rw [← hbuffer] at hvalid
  exact txVerdict_eq_ok pf hparsed hvalid

variable {surroundings : ℕ → Choice} {capacity : ℕ}

/-- **The upload** of a genuine transaction is accepted, whatever was in the buffer.

**Proof sketch.** `INIT` has emptied the buffer, so the chunks fit, and then the whole blob is in it
and accepted by `txVerdict_genuine`. -/
theorem uploaded_genuine (hlaw : pf.buffering.Lawful) (hcap : pf.buffering.HasCapacity capacity)
    (hbounded : pf.buffering.Bounded) (hzx : pf.zx.Amounts) (hutf8 : IsUtf8 stringToBuffer)
    {d : Device σ} (hinit : d.store.deviceInitialized = true)
    (hslot : cryptoStoreIsInitialized d.store = true)
    (hgenuine : tx.Genuine d.store.current.rsaPub.n.val) (htarget : tx.target ≠ [])
    (hfits : (encodeTx stringToBuffer tx).length ≤ capacity)
    (hunlocked : (surroundings 0).refusal = none) :
    let d₀ := d.afterInit pf (surroundings 0)
    d₀.received pf = [] ∧
      ∃ d', Uploaded pf d₀ (slices chunkSize (encodeTx stringToBuffer tx)) d' := by
  intro d₀
  have hd₀ : d₀ = d.setUpload ⟨true, pf.buffering.reset (pf.buffering.init d.buffering), .more⟩ :=
    if_pos ⟨hunlocked, hinit⟩
  have hempty : d₀.received pf = [] := by
    rw [hd₀]
    exact hlaw.data_reset _
  have haddress : 0 < pf.buffering.address d₀.buffering := by
    rw [hd₀]
    exact hlaw.address_reset _
  have hstore : d₀.store = d.store := by rw [hd₀]; rfl
  have hflat : (slices chunkSize (encodeTx stringToBuffer tx)).flatten =
      encodeTx stringToBuffer tx := flatten_slices (by decide : 0 < chunkSize) _
  have hroom : (d₀.received pf).length +
      (slices chunkSize (encodeTx stringToBuffer tx)).flatten.length ≤ capacity := by
    rw [hempty, hflat, List.length_nil, Nat.zero_add]
    exact hfits
  obtain ⟨d', happend, haddress'⟩ := exists_appendAll pf hcap hlaw haddress hroom
  have hreceived : d'.received pf = encodeTx stringToBuffer tx := by
    rw [received_appendAll pf hlaw happend, hempty, hflat, List.nil_append]
  have hbuffers : (encodeTx stringToBuffer tx).length ≤ ramBufferSize + flashBufferSize := by
    rw [← hreceived]
    exact length_received_le pf hbounded (slices_encodeTx stringToBuffer tx).1
      (fun x hx => ne_nil_of_mem_slices (by decide) hx) hlaw happend
  have hsame : d'.store = d.store := (sameBut_appendAll pf happend).store.trans hstore
  refine ⟨hempty, d', ⟨?_, ?_, happend, ?_⟩⟩
  · rw [hstore]
    exact hinit
  · rw [hd₀]
    rfl
  · exact txVerdict_genuine pf stringToBuffer hzx hutf8 (hsame ▸ hslot) (hsame ▸ hgenuine) htarget
      hbuffers haddress' hreceived

/-! ## The call -/

variable {verify : RsaPublicKey → Block 32 → Block 512 → Prop}

/-- The call on a device that holds the keys of a seed.

**Proof sketch.** The upload is accepted by `uploaded_genuine`, so the call succeeds by
`sign_friendly`. By `sign_ok` the signature is that of the digest, under the key in use, which is
the one of the seed. -/
theorem signed_genuine (hlaw : pf.buffering.Lawful) (hcap : pf.buffering.HasCapacity capacity)
    (hbounded : pf.buffering.Bounded) (hzx : pf.zx.Amounts) (hutf8 : IsUtf8 stringToBuffer)
    (hsdk : pf.sdk.SignsFor verify) {seed : Seed} {d : Device σ}
    (hkeys : KeyInv pf.sdk seed d.store) (hinit : d.store.deviceInitialized = true)
    (hgenuine : tx.Genuine d.store.current.rsaPub.n.val) (htarget : tx.target ≠ [])
    (hfits : (encodeTx stringToBuffer tx).length ≤ capacity)
    (hunlocked : (surroundings 0).refusal = none) {salt : Bytes}
    (hfriendly : Friendly surroundings salt) :
    let run := (sign pf surroundings stringToBuffer tx).run ⟨d, 0, []⟩
    let digest := deepHash pf.sha384 (tx.fields stringToBuffer).item
    run.1.returnCode = some 0x9000 ∧ run.1.deephash = some digest.val ∧
      ∃ sig : Block 512, run.1.signature = some sig.val ∧
        verify d.store.current.rsaPub (pf.sdk.sha256 digest.val) sig := by
  intro run digest
  obtain ⟨hempty, d', hup⟩ := uploaded_genuine pf stringToBuffer hlaw hcap hbounded hzx hutf8 hinit
    (hkeys.current hinit).1 hgenuine htarget hfits hunlocked
  have hok := sign_friendly pf surroundings stringToBuffer tx hfriendly hup
  obtain ⟨d'', salt', hsigned⟩ := sign_ok pf surroundings stringToBuffer tx d hok
  have hdigest : d''.deepHash pf = digest :=
    deepHash_of_uploaded pf hlaw hbounded hempty hsigned.uploaded
  have hstore : d''.store = d.store := by
    have hafter : d.afterInit pf (surroundings 0) = _ := if_pos ⟨hunlocked, hinit⟩
    rw [(sameBut_appendAll pf hsigned.uploaded.appendAll).store, hafter]
    rfl
  have hsig : d''.signature pf salt' =
      pf.sdk.rsaSign d.store.current.rsaPriv (pf.sdk.sha256 digest.val) salt' := by
    rw [Device.signature, hdigest, hstore]
  refine ⟨hok, ?_, d''.signature pf salt', ?_, ?_⟩
  · rw [hsigned.deephash, hdigest]
  · rw [hsigned.signature, halves]
  · rw [hsig, hkeys.current_eq hinit]
    exact hsdk _ _ _

/-- **Genuine transactions are signed**, whatever has happened to the device before: if it has keys
and is not locked, the user approves, and no call of the SDK fails, then `sign` ends in success for
every genuine transaction of the device with a target that fits the buffer. It returns the deep hash
of the transaction, and a signature that verifies for it under the key of the device.

**Proof sketch.** The invariant of the key store holds in every run, so the device holds the keys of
its seed, and `signed_genuine` applies. -/
theorem sign_genuine (hlaw : pf.buffering.Lawful) (hcap : pf.buffering.HasCapacity capacity)
    (hbounded : pf.buffering.Bounded) (hzx : pf.zx.Amounts) (hutf8 : IsUtf8 stringToBuffer)
    (hsdk : pf.sdk.SignsFor verify) (es : List DeviceEvent) {d : Device σ}
    (hd : d = (device pf).run (.fresh pf) es) (hinit : d.store.deviceInitialized = true)
    (hgenuine : tx.Genuine d.store.current.rsaPub.n.val) (htarget : tx.target ≠ [])
    (hfits : (encodeTx stringToBuffer tx).length ≤ capacity)
    (hunlocked : (surroundings 0).refusal = none) {salt : Bytes}
    (hfriendly : Friendly surroundings salt) :
    let run := (sign pf surroundings stringToBuffer tx).run ⟨d, 0, []⟩
    let digest := deepHash pf.sha384 (tx.fields stringToBuffer).item
    run.1.returnCode = some 0x9000 ∧ run.1.deephash = some digest.val ∧
      ∃ sig : Block 512, run.1.signature = some sig.val ∧
        verify d.store.current.rsaPub (pf.sdk.sha256 digest.val) sig := by
  have hkeys : KeyInv pf.sdk d.seed d.store := hd ▸ keyInv_run pf es
  exact signed_genuine pf stringToBuffer hlaw hcap hbounded hzx hutf8 hsdk hkeys hinit hgenuine
    htarget hfits hunlocked hfriendly

end Success

/-- The sample platform with decimal formatting. -/
def plainPlatform : Platform Bytes := { hashingPlatform with zx := plainFormat }

/-- The device with this platform after the keys of a seed are set up. -/
def plainDevice : Device Bytes :=
  (device plainPlatform).run (.fresh plainPlatform) [.boot [1, 2, 3] [], .storeInit []]

/-- A transaction of this device with a target. -/
def plainTx : ClientTx :=
  { genuineTx (List.replicate 32 1) with owner := plainDevice.store.current.rsaPub.n.val }

/-- It is a genuine one. -/
theorem plainTx_genuine : plainTx.Genuine plainDevice.store.current.rsaPub.n.val :=
  have hgenuine : (genuineTx (List.replicate 32 1)).Genuine _ := genuineTx_genuine (by decide)
  { hgenuine with owner := rfl }

/-- The call for this transaction. -/
def plainCall : SignResult × World Bytes :=
  (sign plainPlatform unlocked utf8 plainTx).run ⟨plainDevice, 0, []⟩

/-- The transaction is signed. -/
theorem sign_genuine_sample :
    plainCall.1.returnCode = some 0x9000 ∧ ∃ sig : Block 512, plainCall.1.signature = some sig.val ∧
      sampleVerify plainDevice.store.current.rsaPub
        (plainPlatform.sdk.sha256
          (deepHash plainPlatform.sha384 (plainTx.fields utf8).item).val) sig := by
  have hsdk : plainPlatform.sdk.SignsFor sampleVerify := sampleSdk_signsFor
  have hdevice : plainDevice = (device plainPlatform).run (.fresh plainPlatform)
    [.boot [1, 2, 3] [], .storeInit []] := rfl
  have hinit : plainDevice.store.deviceInitialized = true := by decide +kernel
  have hfriendly : Friendly unlocked [] := fun _ _ => rfl
  obtain ⟨hok, -, sig, hsig, hverify⟩ := sign_genuine plainPlatform utf8 sampleBuffering_lawful
    sampleBuffering_hasCapacity sampleBuffering_bounded plainFormat_amounts (fun _ => rfl) hsdk _
    hdevice hinit plainTx_genuine (by decide) (by decide +kernel) rfl hfriendly
  rw [plainCall]
  exact ⟨hok, sig, hsig, hverify⟩

end LedgerArweave
