import LedgerArweave.Device.Upload
import LedgerArweave.Store.KeyIdentity

set_option relaxedAutoImplicit false
set_option autoImplicit false

/-!
# Signatures

A signature is stored only when the user approves the review of a transaction, and then it is the
signature of the transaction that review was opened for. This rests on an invariant over runs in
which the host waits for the user: while such a review is pending, the parser, the buffer its
elements point into and the store are those of the step that opened it.

## Main definitions

* `Step.Waits` — no command is handed over while a review is pending.
* `Step.OpensReview` — a step opens the review of a transaction.
* `Device.SameReview` — a review is still the same.

## Main results

* `cryptoSign_spec` — what `crypto_sign` stores.
* `signed_of_approval` — where signatures come from.
-/

namespace LedgerArweave

open Fallible

/-! ## `crypto_sign` -/

/-- The store with a signature for the slot in use. -/
def CryptoStore.withSig (st : CryptoStore) (sig : Block 512) : CryptoStore :=
  { st with flash := st.flash.setSig st.slotInUse sig, signatureSet := 1 }

/-- **`crypto_sign`** stores the signature of the digest it returns, or nothing at all.

**Proof sketch.** By following `crypto_sign`: every way to fail comes before the signature is
stored. -/
theorem cryptoSign_spec (sdk : Sdk) (H : Bytes → Digest) (m : Memory) (tx : ParserTx)
    (signatureMaxlen : ℕ) (salt : Bytes) (r : StoreRun) :
    Ensures (cryptoSign sdk H m tx signatureMaxlen salt) r fun res r' =>
      match res with
      | .ok digest =>
        (parserGetDigest H m tx sha384DigestLen).val = .ok digest ∧
          cryptoStoreIsInitialized r.store = true ∧
          r'.store = r.store.withSig
            (sdk.rsaSign r.store.current.rsaPriv (sdk.sha256 digest) salt) ∧
          r'.signed = r.signed ++ [sdk.rsaSign r.store.current.rsaPriv (sdk.sha256 digest) salt]
      | .error _ => r'.store = r.store ∧ r'.signed = r.signed := by
  unfold cryptoSign
  apply ensures_getStore_bind
  by_cases hinit : cryptoStoreIsInitialized r.store = true
  swap
  · rw [if_pos hinit]
    exact ⟨rfl, rfl⟩
  rw [if_neg (not_not.mpr hinit)]
  by_cases hlen : signatureMaxlen < sha384DigestLen
  · rw [if_pos hlen]
    exact ⟨rfl, rfl⟩
  rw [if_neg hlen]
  refine ensures_sdkCall_bind ?_ fun r' hsame _ => ensures_throw ⟨hsame.store, hsame.signed⟩
  intro r' hsame
  rcases hdigest : (parserGetDigest H m tx sha384DigestLen).val with e | digest
  · exact ensures_throw ⟨hsame.store, hsame.signed⟩
  apply ensures_getStore_bind
  rw [hsame.store, cryptoStoreGetPrivkey, if_neg (not_not.mpr hinit)]
  refine ensures_sdkCall_bind ?_ fun r'' hsame' _ => ?_
  · intro r'' hsame'
    have hfinal := hsame.trans hsame'
    refine ⟨rfl, hinit, ?_, ?_⟩
    · show r''.store.withSig _ = _
      rw [hfinal.store]
    · show r''.signed ++ _ = _
      rw [hfinal.signed]
  · exact ensures_throw ⟨(hsame.trans hsame').store, (hsame.trans hsame').signed⟩

/-- If no call of the SDK fails, `crypto_sign` returns the digest.

**Proof sketch.** By following `crypto_sign` with an empty list of faults. -/
theorem exec_cryptoSign {sdk : Sdk} {H : Bytes → Digest} {m : Memory} {tx : ParserTx}
    {signatureMaxlen : ℕ} {salt digest : Bytes} {st : CryptoStore}
    (hinit : cryptoStoreIsInitialized st = true) (hlen : ¬ signatureMaxlen < sha384DigestLen)
    (hdigest : (parserGetDigest H m tx sha384DigestLen).val = .ok digest) :
    ∃ r, (cryptoSign sdk H m tx signatureMaxlen salt).exec (st.start []) = (.ok digest, r) := by
  have hkey : cryptoStoreGetPrivkey st = some st.current.rsaPriv := by
    rw [cryptoStoreGetPrivkey, if_neg (not_not.mpr hinit)]
  have hcall {α : Type} (x : α) : (sdkCall x).exec (st.start []) = (.ok (some x), st.start []) :=
    rfl
  have hstore : getStore.exec (st.start []) = (.ok st, st.start []) := rfl
  rw [cryptoSign, exec_bind_ok hstore, if_neg (not_not.mpr hinit), if_neg hlen,
    exec_bind_ok (hcall _), hdigest]
  dsimp only
  rw [exec_bind_ok hstore, hkey]
  dsimp only
  rw [exec_bind_ok (hcall _)]
  exact ⟨_, rfl⟩

section Signing

variable {σ : Type} (pf : Platform σ)

/-! ## The steps that sign -/

/-- `app_sign` leaves the store to `crypto_sign`.

**Proof sketch.** Besides running `crypto_sign` on the store, `app_sign` writes to the I/O buffer
only. -/
theorem run_appSign (d : Device σ) (salt : Bytes) (faults : List Bool) :
    let step := d.run (closeReview (appSign pf salt)) faults
    let run := (cryptoSign pf.sdk pf.sha384 (txBuffer pf d) d.parser.tx (ioApduBufferSize - 3)
      salt).exec (d.store.start faults)
    step.1.store = run.2.store ∧ step.2.signed = run.2.signed := by
  intro step run
  have hstep : step =
      ((appSign pf salt).exec (Device.start { d with review := none } faults)).2.finish := rfl
  have hrun : (cryptoSign pf.sdk pf.sha384 (txBuffer pf { d with review := none }) d.parser.tx
      (ioApduBufferSize - 3) salt).exec (d.store.start faults) = run := rfl
  rw [hstep, appSign, exec_get_bind, exec_bind_ok (exec_runStore _ _)]
  dsimp only [Device.start]
  rw [hrun]
  rcases run with ⟨e | digest, r⟩ <;> exact ⟨rfl, rfl⟩

/-- A command stores no signature. -/
theorem signed_apdu (d : Device σ) (a : Apdu) (pinCheck : Option ErrorCode) (faults : List Bool) :
    ((device pf).step d (.apdu a pinCheck faults)).2.signed = [] := by
  rcases hc : chunkOf d (.apdu a pinCheck faults) with _ | ⟨p1, payload⟩
  · exact (step_other pf hc).2.2
  · obtain ⟨io, hchunk⟩ := step_chunk pf hc
    rw [hchunk]
    cases (chunkEffect pf.buffering d.txInitialized d.buffering p1 payload).result with
    | more => rfl
    | refused code => rfl
    | last =>
      unfold chunkStep
      dsimp only
      split <;> rfl

/-- The approval of the review of a transaction stores its signature, or none at all.

**Proof sketch.** By `run_appSign` and the specification of `crypto_sign`. -/
theorem signed_approve {d : Device σ} (hreview : d.review = some .transaction) (salt : Bytes)
    (faults : List Bool) :
    let step := (device pf).step d (.approve salt faults)
    (step.2.signed = [] ∧ step.1.store = d.store) ∨ ∃ digest,
      (parserGetDigest pf.sha384 (txBuffer pf d) d.parser.tx sha384DigestLen).val = .ok digest ∧
      let sig := pf.sdk.rsaSign d.store.current.rsaPriv (pf.sdk.sha256 digest) salt
      step.2.signed = [sig] ∧ step.1.store = d.store.withSig sig := by
  intro step
  have hstep : step = d.run (closeReview (appSign pf salt)) faults := by
    simp only [step, device, hreview]
  obtain ⟨hstore, hsig⟩ := run_appSign pf d salt faults
  rw [← hstep] at hstore hsig
  have hspec := cryptoSign_spec pf.sdk pf.sha384 (txBuffer pf d) d.parser.tx
    (ioApduBufferSize - 3) salt (d.store.start faults)
  unfold Ensures at hspec
  rcases hres : ((cryptoSign pf.sdk pf.sha384 (txBuffer pf d) d.parser.tx
    (ioApduBufferSize - 3) salt).exec (d.store.start faults)).1 with e | digest
  · rw [hres] at hspec
    exact .inl ⟨hsig.trans hspec.2, hstore.trans hspec.1⟩
  · rw [hres] at hspec
    obtain ⟨hdigest, -, hstore', hsig'⟩ := hspec
    exact .inr ⟨digest, hdigest, hsig.trans hsig', hstore.trans hstore'⟩

/-- Only an approved review of a transaction leads to a signature.

**Proof sketch.** By the kind of event. Setting up keys and commands sign nothing; of the decisions,
only the approval of a transaction does, by `signed_approve`. -/
theorem step_signed {d : Device σ} {e : DeviceEvent} :
    let t : Step σ := (device pf).transition d e
    t.output.signed ≠ [] →
    ∃ salt faults digest, e = .approve salt faults ∧ d.review = some .transaction ∧
      (parserGetDigest pf.sha384 (txBuffer pf d) d.parser.tx sha384DigestLen).val = .ok digest ∧
      let sig := pf.sdk.rsaSign d.store.current.rsaPriv (pf.sdk.sha256 digest) salt
      t.output.signed = [sig] ∧ t.after.store = d.store.withSig sig := by
  intro t hsigned
  cases e with
  | boot seed faults =>
    exact absurd (within_cryptoStoreInitTest pf.sdk seed _) hsigned
  | storeInit faults =>
    have hinit : (storeInitRun pf.sdk d.seed d.store faults).signed = [] :=
      within_cryptoStoreInit pf.sdk d.seed (d.store.start faults)
    refine absurd ?_ hsigned
    simp [t, Machine.transition, device, hinit]
  | setExpert expert => exact absurd rfl hsigned
  | apdu a pinCheck faults => exact absurd (signed_apdu pf d a pinCheck faults) hsigned
  | approve salt faults =>
    cases hreview : d.review with
    | none =>
      refine absurd ?_ hsigned
      simp [t, Machine.transition, device, hreview, Output.silent]
    | some review =>
      cases review with
      | address =>
        refine absurd ?_ hsigned
        simp only [t, Machine.transition, device, hreview]
        rfl
      | transaction =>
        rcases signed_approve pf hreview salt faults with hnone | ⟨digest, hdigest, hsig, hstore⟩
        · exact absurd hnone.1 hsigned
        · exact ⟨salt, faults, digest, rfl, rfl, hdigest, hsig, hstore⟩
  | reject =>
    refine absurd ?_ hsigned
    simp only [t, Machine.transition, device]
    split <;> rfl

/-! ## The review of a transaction -/

/-- No command is handed over while a review is pending. -/
def Step.Waits (t : Step σ) : Prop :=
  ∀ a pinCheck faults, t.event = .apdu a pinCheck faults → t.before.review = none

/-- A step opens the review of a transaction: a `LAST` chunk is processed, and what is then in the
buffer is parsed and accepted. -/
structure Step.OpensReview (u : Step σ) (tx : Transaction) : Prop where
  closed : u.before.review ≠ some .transaction
  opened : u.after.review = some .transaction
  chunk : ∃ payload, u.chunk = some (p1Last, payload)
  parsed : u.output.parsed = some (txBuffer pf u.after).bytes
  parse : u.parse pf = (.ok (), u.after.parser)
  decode : ∃ rest, transaction.decode
    ((txBuffer pf u.after).bytes.take (u16 (txBuffer pf u.after).bytes.length)) = some (tx, rest)
  fields : u.after.parser.tx.fields (txBuffer pf u.after) = tx
  validate : parserValidate pf.zx (txBuffer pf u.after) u.after.store u.after.expert
    u.after.parser.tx = .ok ()
  owner : tx.owner = u.after.store.current.rsaPub.n.val
  tagsCount : u.after.parser.tx.tagsCount = tx.tags.length
  maxTags : tx.tags.length ≤ maxNumberTags
  initialized : u.after.store.deviceInitialized = true

/-- The review of a transaction pending in a device is still the one of another. -/
structure Device.SameReview (d d' : Device σ) : Prop where
  review : d'.review = some .transaction
  parser : d'.parser = d.parser
  buffering : d'.buffering = d.buffering
  store : d'.store = d.store

/-- What is accepted is parsed and validated without an error.

**Proof sketch.** By reading `txVerdict` back: it returns no message only if both succeed. -/
theorem accepted_of_txVerdict {d : Device σ} (h : txVerdict pf d = .ok none) :
    let m := txBuffer pf d
    (parserParse m m.base m.bytes.length).exec d.parser = (.ok (), txParsed pf d) ∧
      parserValidate pf.zx m d.store d.expert (txParsed pf d).tx = .ok () := by
  intro m
  unfold txVerdict at h
  dsimp only at h
  rcases hrun : (parserParse m m.base m.bytes.length).exec d.parser with ⟨(_ | _) | ⟨⟩, s'⟩
  · rw [hrun] at h
    exact absurd h (by simp)
  · rw [hrun] at h
    exact absurd h (by simp)
  · have hparsed : txParsed pf d = s' := congrArg Prod.snd hrun
    rw [hrun] at h
    rw [hparsed]
    refine ⟨rfl, ?_⟩
    dsimp only at h
    split at h
    · exact absurd h (by simp)
    · assumption

/-- The converse. -/
theorem txVerdict_eq_ok {d : Device σ} {s' : ParserState}
    (hparse : (parserParse (txBuffer pf d) (txBuffer pf d).base
      (txBuffer pf d).bytes.length).exec d.parser = (.ok (), s'))
    (hvalid : parserValidate pf.zx (txBuffer pf d) d.store d.expert s'.tx = .ok ()) :
    txVerdict pf d = .ok none := by
  unfold txVerdict
  dsimp only
  rw [hparse]
  dsimp only
  rw [hvalid]

/-- A step after which a review of a transaction is pending that was not before has opened it.

**Proof sketch.** The review is opened by `tx_parse`, so the step is a `LAST` chunk, and its verdict
is that nothing is wrong. What was parsed and validated is what is there after the step, because
opening the review changes nothing else. -/
theorem opensReview_of_review {d : Device σ} {e : DeviceEvent} :
    let t : Step σ := (device pf).transition d e
    t.after.review = some .transaction → d.review ≠ some .transaction →
      ∃ tx, t.OpensReview pf tx := by
  intro t hafter hbefore
  have hsome : t.output.parsed.isSome := (review_opened pf hafter).resolve_left hbefore
  obtain ⟨data, hdata⟩ := Option.isSome_iff_exists.mp hsome
  obtain ⟨-, payload, hc, hres⟩ := chunk_of_parsed pf hdata
  obtain ⟨hbytes, hparser⟩ := step_parsed pf hdata
  obtain ⟨io, hchunk⟩ := step_chunk pf hc
  rw [hres] at hchunk
  let d' := d.setUpload (chunkEffect pf.buffering d.txInitialized d.buffering p1Last payload)
  have hverdict : txVerdict pf d' = .ok none := by
    by_contra hne
    apply hbefore
    rw [← hafter]
    have hreview : t.after.review = (chunkStep pf d' .last).1.review :=
      congrArg (fun r => r.1.review) hchunk
    rw [hreview]
    unfold chunkStep
    dsimp only
    rcases hv : txVerdict pf d' with code | _ | msg
    · rfl
    · exact absurd hv hne
    · rfl
  have ht : t.after = Device.setIo
      { d' with parser := txParsed pf d', review := some .transaction } io := by
    have hfst : t.after = (chunkStep pf d' .last).1.setIo io := congrArg Prod.fst hchunk
    rw [hfst, chunkStep, hverdict]
  have hbuffer : txBuffer pf t.after = txBuffer pf d' := by rw [ht]; rfl
  obtain ⟨hparse, hvalidate⟩ := accepted_of_txVerdict pf hverdict
  rw [← hbuffer] at hparse hvalidate
  have hparsed : t.after.parser = txParsed pf d' := by rw [ht]; rfl
  have hstore : t.after.store = d.store := by rw [ht]; rfl
  have hexpert : t.after.expert = d.expert := by rw [ht]; rfl
  rw [← hparsed] at hparse hvalidate
  obtain ⟨rest, hdecode⟩ := fields_of_parserParse (le_refl _) hparse
  obtain ⟨-, -, htags, -⟩ :=
    (transaction_valid_iff _).mp (valid_of_parserParse (le_refl _) hparse)
  refine ⟨t.after.parser.tx.fields (txBuffer pf t.after), ?_⟩
  refine ⟨hbefore, hafter, ⟨payload, hc⟩, hbytes ▸ hdata, hparse, ⟨rest, hdecode⟩, rfl, ?_, ?_, ?_,
    htags, ?_⟩
  · rw [hstore, hexpert]
    exact hvalidate
  · rw [hstore]
    exact (owner_of_parserValidate hparse hvalidate).2
  · rw [ParserTx.fields, List.length_map, ParserTx.tagList, List.length_map, List.length_range]
  · rw [hstore]
    obtain ⟨a, faults, lc, -, -, hinit⟩ := eq_of_chunkOf hc
    exact hinit

/-- While the review of a transaction is pending, it is the one the last step that opened one has
opened. -/
def ReviewKept (h : List (Step σ)) (d : Device σ) : Prop :=
  d.review = some .transaction →
    ∃ h₁ u h₂ tx, h = h₁ ++ u :: h₂ ∧ u.OpensReview pf tx ∧
      (∀ v ∈ h₂, u.after.SameReview v.after) ∧ u.after.SameReview d

/-- Without a command, a pending review of an initialized device stays as it is.

**Proof sketch.** By the kind of event: a reset and the decisions close the review, the others leave
everything of it alone. -/
theorem sameReview_step {d : Device σ} {e : DeviceEvent}
    (hapdu : ∀ a pinCheck faults, e ≠ .apdu a pinCheck faults)
    (hinit : d.store.deviceInitialized = true) :
    let d' := ((device pf).step d e).1
    d'.review = some .transaction → d.SameReview d' := by
  intro d' hreview
  cases e with
  | boot seed faults => exact absurd hreview (by simp [d', device, Device.boot, Device.fresh])
  | storeInit faults =>
    have hstore : d'.store = d.store := if_pos hinit
    exact ⟨hreview, rfl, rfl, hstore⟩
  | setExpert expert => exact ⟨hreview, rfl, rfl, rfl⟩
  | apdu a pinCheck faults => exact absurd rfl (hapdu a pinCheck faults)
  | approve salt faults =>
    obtain ⟨-, -, -, hclosed, -⟩ := (answered_approve pf d salt faults).kept
    exact absurd (hclosed.symm.trans hreview) (by simp)
  | reject =>
    obtain ⟨-, -, -, hclosed, -⟩ := (answered_reject pf d).kept
    exact absurd (hclosed.symm.trans hreview) (by simp)

/-- Every step of a host that waits keeps the invariant.

**Proof sketch.** If the review was pending before, its opening is in the history and this step
keeps it. If not, this step has opened it. -/
theorem reviewKept_step {h : List (Step σ)} {d : Device σ} (hd : ReviewKept pf h d)
    (e : DeviceEvent) (hwaits : Step.Waits ((device pf).transition d e)) :
    ReviewKept pf (h ++ [(device pf).transition d e]) ((device pf).step d e).1 := by
  intro hreview
  by_cases hbefore : d.review = some .transaction
  · obtain ⟨h₁, u, h₂, tx, rfl, hopens, hmid, hsame⟩ := hd hbefore
    have hapdu : ∀ a pinCheck faults, e ≠ .apdu a pinCheck faults := by
      intro a pinCheck faults he
      exact absurd ((hwaits a pinCheck faults he).symm.trans hbefore) (by simp)
    have hinit : d.store.deviceInitialized = true := hsame.store ▸ hopens.initialized
    obtain ⟨-, hparser, hbuffering, hstore⟩ := sameReview_step pf hapdu hinit hreview
    have hafter : u.after.SameReview ((device pf).step d e).1 :=
      ⟨hreview, hparser.trans hsame.parser, hbuffering.trans hsame.buffering,
        hstore.trans hsame.store⟩
    refine ⟨h₁, u, h₂ ++ [(device pf).transition d e], tx, ?_, hopens, ?_, hafter⟩
    · rw [List.append_assoc, List.cons_append]
    · intro v hv
      rcases List.mem_append.mp hv with hv | hv
      · exact hmid v hv
      · rw [List.mem_singleton.mp hv]
        exact hafter
  · obtain ⟨tx, hopens⟩ := opensReview_of_review pf hreview hbefore
    exact ⟨h, _, [], tx, rfl, hopens, by simp, hreview, rfl, rfl, rfl⟩

/-- Approving an opened review stores a signature, if no call of the SDK fails.

**Proof sketch.** What is validated has a digest and an initialized slot, so `crypto_sign` succeeds
if no call fails. -/
theorem signed_of_opensReview {u : Step σ} {tx : Transaction} (hopens : u.OpensReview pf tx)
    (salt : Bytes) :
    ((device pf).step u.after (.approve salt [])).2.signed ≠ [] := by
  have hstep : (device pf).step u.after (.approve salt []) =
      u.after.run (closeReview (appSign pf salt)) [] := by
    simp only [device, hopens.opened]
  obtain ⟨-, hsigned⟩ := run_appSign pf u.after salt []
  have hinit := (owner_of_parserValidate hopens.parse hopens.validate).1
  have hexec : ∃ r, (cryptoSign pf.sdk pf.sha384 (txBuffer pf u.after) u.after.parser.tx
      (ioApduBufferSize - 3) salt).exec (u.after.store.start []) = (.ok _, r) :=
    exec_cryptoSign hinit (by decide)
      (val_parserGetDigest pf.sha384 (fits_of_valid (valid_of_parserParse le_rfl hopens.parse)))
  obtain ⟨r, hrun⟩ := hexec
  have hspec := cryptoSign_spec pf.sdk pf.sha384 (txBuffer pf u.after) u.after.parser.tx
    (ioApduBufferSize - 3) salt (u.after.store.start [])
  unfold Ensures at hspec
  rw [hrun] at hspec
  rw [hstep, hsigned, hrun, hspec.2.2.2]
  simp

end Signing

/-! ## A sample run -/

section Sample

/-- The memory of the sample upload buffer. -/
def sampleMemory (b : Bytes) : Memory := ⟨1, b⟩

/-- A device with the sample keys in expert mode that has received some bytes and parsed nothing
yet. -/
structure SampleReady (d : Device Bytes) (b : Bytes) : Prop where
  txInitialized : d.txInitialized = true
  buffering : d.buffering = b
  parser : d.parser = .zero
  expert : d.expert = true
  deviceInitialized : d.store.deviceInitialized = true
  initialized : cryptoStoreIsInitialized d.store = true
  modulus : d.store.current.rsaPub.n = zeroBlock 512

/-- The items of a sample transaction at the start of some bytes can be printed. -/
def SamplePrints (b : Bytes) (t : Transaction) : Prop :=
  ∀ idx < parserGetNumItems true (layout (sampleMemory b) 0 t ParserTx.zero.tags),
    ((parserGetItem sampleFormat (sampleMemory b) true
      (layout (sampleMemory b) 0 t ParserTx.zero.tags) idx 0).exec tmpOut).1 = .ok ()

/-- A sample transaction at the start of the buffer is accepted.

**Proof sketch.** The bytes begin with the encoding, so they are parsed as the transaction; its
owner is the key of the sample platform. -/
theorem txVerdict_sample {d : Device Bytes} {b rest : Bytes} {t : Transaction}
    (hd : SampleReady d b) (hb : b = transaction.encode t ++ rest) (hlen : b.length < 65536)
    (ht : transaction.Valid t) (howner : t.owner = (zeroBlock 512).val)
    (hprints : SamplePrints b t) :
    txVerdict hashingPlatform d = .ok none ∧
      (txParsed hashingPlatform d).tx.fields (txBuffer hashingPlatform d) = t := by
  have hbuffer : txBuffer hashingPlatform d = sampleMemory b := congrArg sampleMemory hd.buffering
  have hdecode : transaction.decode b = some (t, rest) := by
    rw [hb]
    exact transaction.decode_encode t rest ht
  have hparse := parserParse_accept (m := sampleMemory b) Nat.one_pos (List.prefix_refl b) hlen
    hdecode d.parser
  have hfields : (layout (sampleMemory b) 0 t ParserTx.zero.tags).fields (sampleMemory b) = t :=
    fields_layout (m := sampleMemory b) (o := 0) (List.prefix_refl b) hb _
  have htags : d.parser.tx.tags = ParserTx.zero.tags := by rw [hd.parser]; rfl
  have hbytes : (sampleMemory b).bytes.length = b.length := rfl
  rw [← hbytes, ← hbuffer, htags] at hparse
  have hparsed : (txParsed hashingPlatform d).tx =
      layout (txBuffer hashingPlatform d) 0 t ParserTx.zero.tags :=
    congrArg (fun run => run.2.tx) hparse
  constructor
  · apply txVerdict_eq_ok hashingPlatform hparse
    rw [hbuffer, hd.expert]
    refine parserValidate_eq_ok.mpr ⟨(validateTx_eq_ok ?_).mpr ⟨hd.initialized, ?_⟩, hprints⟩
    · show t.owner.length = _
      rw [howner, (zeroBlock 512).property, rsaModulusLen]
    · rw [hd.modulus, ← howner]
      exact congrArg Transaction.owner hfields
  · rw [hparsed, hbuffer]
    exact hfields

/-- `LAST` then opens a review, and its approval stores a signature.

**Proof sketch.** The payload is appended, and what is then in the buffer is accepted by
`txVerdict_sample`, which opens a review. -/
theorem sample_signed {d : Device Bytes} {b payload rest : Bytes} {e : DeviceEvent}
    {t : Transaction} (hd : SampleReady d b) (hnone : d.review = none)
    (hc : chunkOf d e = some (p1Last, payload))
    (hb : b ++ payload = transaction.encode t ++ rest) (hlen : b.length + payload.length ≤ 16384)
    (ht : transaction.Valid t) (howner : t.owner = (zeroBlock 512).val)
    (hprints : SamplePrints (b ++ payload) t) (salt : Bytes) :
    ((device hashingPlatform).step ((device hashingPlatform).step d e).1
      (.approve salt [])).2.signed ≠ [] := by
  have happend : sampleBuffering.append b payload = (b ++ payload, payload.length) := if_pos hlen
  have heffect : chunkEffect hashingPlatform.buffering d.txInitialized d.buffering p1Last payload =
      ⟨true, b ++ payload, .last⟩ := by
    rw [hd.txInitialized, hd.buffering]
    show appendEffect sampleBuffering true b payload .last = _
    rw [appendEffect, happend]
    exact if_pos rfl
  have hready : SampleReady (d.setUpload ⟨true, b ++ payload, .last⟩) (b ++ payload) :=
    ⟨rfl, rfl, hd.parser, hd.expert, hd.deviceInitialized, hd.initialized, hd.modulus⟩
  have hshort : (b ++ payload).length < 65536 := by
    rw [List.length_append]
    omega
  obtain ⟨hverdict, -⟩ := txVerdict_sample hready hb hshort ht howner hprints
  obtain ⟨io, hchunk⟩ := step_chunk hashingPlatform hc
  rw [heffect] at hchunk
  have hreview : ((device hashingPlatform).step d e).1.review = some .transaction := by
    rw [hchunk, chunkStep, hverdict]
    rfl
  obtain ⟨tx, hopens⟩ := opensReview_of_review hashingPlatform (d := d) (e := e) hreview
    (by rw [hnone]; simp)
  exact signed_of_opensReview hashingPlatform hopens salt

/-- The bytes of the sample transaction. -/
def sampleBytes : Bytes := transaction.encode (sampleTx [] [1])

/-- The sample upload without its last chunk. -/
def sampleUpload : List DeviceEvent :=
  sampleSetup ++ [.setExpert true, signChunk p1Init (zeros 20),
    signChunk p1Add (sampleBytes.take 250), signChunk p1Add ((sampleBytes.drop 250).take 250)]

/-- The device before the last chunk. -/
def sampleDevice : Device Bytes :=
  (device hashingPlatform).run (.fresh hashingPlatform) sampleUpload

/-- The device is ready for the rest of the sample upload. -/
theorem sampleDevice_ready : SampleReady sampleDevice (sampleBytes.take 500) where
  txInitialized := by decide +kernel
  buffering := by decide +kernel
  parser := parser_run hashingPlatform sampleUpload (by unfold Machine.Respects; decide +kernel)
  expert := by decide +kernel
  deviceInitialized := by decide +kernel
  initialized := by decide +kernel
  modulus := by decide +kernel

/-- The sample upload. -/
def sampleUploaded : List DeviceEvent :=
  sampleUpload ++ [signChunk p1Last (sampleBytes.drop 500)]

/-- Approving the review of the sample upload stores a signature.

**Proof sketch.** The upload is that of `sample_signed`, in two pieces. -/
theorem sampleUploaded_signed :
    ((device hashingPlatform).step ((device hashingPlatform).run (.fresh hashingPlatform)
      sampleUploaded) (.approve [] [])).2.signed ≠ [] := by
  have hsplit : sampleBytes.take 500 ++ sampleBytes.drop 500 =
      transaction.encode (sampleTx [] [1]) ++ [] := by
    rw [List.take_append_drop, List.append_nil]
    rfl
  obtain ⟨-, -, haccepted, -⟩ := samples_accepted
  have hprints : SamplePrints (sampleBytes.take 500 ++ sampleBytes.drop 500) (sampleTx [] [1]) := by
    rw [List.take_append_drop]
    exact (parserValidate_eq_ok.mp haccepted.validate).2
  have hvalid : transaction.Valid (sampleTx [] [1]) := sampleTx_valid (by simp) (by decide)
  have hstep := sample_signed (e := signChunk p1Last (sampleBytes.drop 500)) sampleDevice_ready
    (by decide +kernel) (by decide +kernel) hsplit (by decide +kernel) hvalid rfl hprints []
  have hrun : (device hashingPlatform).run (.fresh hashingPlatform) sampleUpload = sampleDevice :=
    rfl
  rw [sampleUploaded, Machine.run_concat, hrun]
  exact hstep

end Sample

/-! ## Where signatures come from -/

section Approval

variable {σ : Type} (pf : Platform σ)

/-- **Where signatures come from**, for every sequence of events in which the host waits: a step
that stores a signature is the approval of a review of a transaction. The signature is made with
the private key of the slot in use, for the deep hash of the transaction that review was opened
for; and from then on to the approval neither the parser, nor the buffer, nor the store has
changed.

**Proof sketch.** By `history_induction`, every pending review has been opened by a step of the
history and is as it was then (`reviewKept_step`). By `step_signed` the step that signs is an
approval of such a review, and what is signed is the digest of the parser's transaction, hence its
deep hash. -/
theorem signed_of_approval (es : List DeviceEvent)
    (hwaits : (device pf).Respects Step.Waits (.fresh pf) es) {pre post : List (Step σ)}
    {t : Step σ} (htrace : (device pf).trace (.fresh pf) es = pre ++ t :: post)
    (hsigned : t.output.signed ≠ []) :
    ∃ salt faults h₁ u h₂ tx,
      t.event = .approve salt faults ∧ t.before.review = some .transaction ∧
      pre = h₁ ++ u :: h₂ ∧ u.OpensReview pf tx ∧
      (∀ v ∈ h₂, u.after.SameReview v.after) ∧ u.after.SameReview t.before ∧
      let sig := pf.sdk.rsaSign t.before.store.current.rsaPriv
        (pf.sdk.sha256 (deepHash pf.sha384 tx.item).val) salt
      t.output.signed = [sig] ∧ t.after.store = t.before.store.withSig sig := by
  obtain ⟨es₁, e, es₂, rfl, rfl, rfl⟩ := Machine.exists_of_trace_eq _ htrace
  have hfirst : (device pf).Respects Step.Waits (.fresh pf) es₁ := by
    intro v hv
    apply hwaits
    rw [Machine.trace_append]
    exact List.mem_append_left _ hv
  have hkept : ReviewKept pf ((device pf).trace (.fresh pf) es₁)
      ((device pf).run (.fresh pf) es₁) :=
    Machine.history_induction (P := ReviewKept pf)
      (fun h => absurd h (by simp [Device.fresh]))
      (fun _ _ e hd hw => reviewKept_step pf hd e hw) hfirst
  obtain ⟨salt, faults, digest, he, hreview, hdigest, hsig, hstore⟩ := step_signed pf hsigned
  obtain ⟨h₁, u, h₂, tx, hpre, hopens, hmid, hsame⟩ := hkept hreview
  have hbuffer : txBuffer pf ((device pf).run (.fresh pf) es₁) = txBuffer pf u.after := by
    rw [txBuffer, hsame.buffering, txBuffer]
  have hdeep : digest = (deepHash pf.sha384 tx.item).val := by
    have hdeepHash := val_parserGetDigest pf.sha384
      (fits_of_valid (valid_of_parserParse le_rfl hopens.parse))
    rw [hopens.fields] at hdeepHash
    rw [hbuffer, hsame.parser, hdeepHash] at hdigest
    exact (Except.ok.inj hdigest).symm
  rw [hdeep] at hsig hstore
  exact ⟨salt, faults, h₁, u, h₂, tx, he, hreview, hpre, hopens, hmid, hsame, hsig, hstore⟩

/-- The transaction of the sample upload is signed when the user approves.

**Proof sketch.** By the theorem, for a run in which no command comes during a review. -/
theorem signed_of_approval_sample :
    let es := sampleUpload ++ [signChunk p1Last (sampleBytes.drop 500)]
    let t : Step Bytes := (device hashingPlatform).transition
      ((device hashingPlatform).run (.fresh hashingPlatform) es) (.approve [] [])
    t.output.signed ≠ [] ∧
      ∃ u ∈ (device hashingPlatform).trace (.fresh hashingPlatform) es, ∃ tx,
        Step.OpensReview hashingPlatform u tx ∧
        t.output.signed = [hashingPlatform.sdk.rsaSign t.before.store.current.rsaPriv
          (hashingPlatform.sdk.sha256 (deepHash hashingPlatform.sha384 tx.item).val) []] := by
  intro es t
  have hsigned : t.output.signed ≠ [] := by
    have ht : t = (device hashingPlatform).transition ((device hashingPlatform).run
        (.fresh hashingPlatform) sampleUploaded) (.approve [] []) := rfl
    rw [ht, Machine.output_transition]
    exact sampleUploaded_signed
  have hidle : ∀ v ∈ (device hashingPlatform).trace (.fresh hashingPlatform) es,
      v.before.review = none := by decide +kernel
  have hwaits : (device hashingPlatform).Respects Step.Waits (.fresh hashingPlatform)
      (es ++ [.approve [] []]) :=
    Machine.respects_concat.mpr ⟨fun v hv _ _ _ _ => hidle v hv, fun _ _ _ h => by cases h⟩
  have htrace : (device hashingPlatform).trace (.fresh hashingPlatform) (es ++ [.approve [] []]) =
      (device hashingPlatform).trace (.fresh hashingPlatform) es ++ t :: [] :=
    Machine.trace_concat _ _ _ _
  obtain ⟨salt, faults, h₁, u, h₂, tx', he, -, hpre, hopens', -, -, hsig, -⟩ :=
    signed_of_approval hashingPlatform _ hwaits htrace hsigned
  obtain ⟨rfl, rfl⟩ : ([] : Bytes) = salt ∧ ([] : List Bool) = faults := by
    injection he with h h'
    exact ⟨h, h'⟩
  exact ⟨hsigned, u, by rw [hpre]; simp, tx', hopens', hsig⟩

end Approval

end LedgerArweave
