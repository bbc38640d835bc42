import LedgerArweave.Device.Address

set_option relaxedAutoImplicit false
set_option autoImplicit false

/-!
# Signatures verify

What the host receives are bytes: two halves of a signature and two halves of a modulus. Between
the review and the requests there are writes to flash, a slot that may have been refilled, and keys
that were generated in another session. If the key pairs of the SDK are good for signing, then the
signature handed out nevertheless verifies under the public key handed out, for the deep hash of a
transaction that the user has approved and whose owner is that key.

## Main definitions

* `Sdk.SignsFor` — what is expected of the key pairs of the SDK.
* `Approved` — the user has approved a transaction, and the signature was made.
* `Endorsed` — a signature belongs to an approved transaction of the key in use, and verifies.
* `SigEndorsed` — what is known of a signature that is set.

## Main results

* `sigEndorsed_step`, `endorsed_run` — a signature that is set is endorsed.
* `signature_verifies` — what is handed out verifies.
-/

namespace LedgerArweave

open Fallible

/-- What is expected of the SDK: what is signed with the private key of a pair, generated from the
primes of the master seed of a seed, verifies under the public key. -/
def Sdk.SignsFor (sdk : Sdk) (verify : RsaPublicKey → Block 32 → Block 512 → Prop) : Prop :=
  ∀ seed hash salt,
    let keys := sdk.rsaGeneratePair expBeBuf (primes sdk (masterSeedOf sdk seed))
    verify keys.1 hash (sdk.rsaSign keys.2 hash salt)

/-- Choosing a slot or filling it does not set the signature.

**Proof sketch.** Along the branches of `crypto_store_init`: none of their writes is to the flag of
the signature. -/
theorem signatureSet_initializeStore (sdk : Sdk) (seed : Seed) (st : CryptoStore)
    (faults : List Bool) : (initializeStore sdk seed st faults).signatureSet = st.signatureSet := by
  have hfill : ∀ r, Ensures (cryptoInitializeSlot sdk seed) r fun _ r' =>
      r'.store.signatureSet = r.store.signatureSet := by
    intro r
    apply (cryptoInitializeSlot_spec sdk seed r).mono
    rintro (e | _) r' h
    · obtain ⟨m, pq, h⟩ := h
      rw [h]
      rfl
    · rw [h]
      rfl
  have hperform : ∀ (choice : InitChoice) r, Ensures (choice.perform sdk seed) r fun _ r' =>
      r'.store.signatureSet = r.store.signatureSet := by
    intro choice r
    cases choice with
    | use slot => exact (rfl : r.store.signatureSet = _)
    | fill slot => exact ensures_modifyStore_bind (hfill _)
    | refill =>
      refine (cryptoUninitializedSlot_spec keySlot1 r).bind ?_ (by rintro e r' ⟨he, -⟩; cases he)
      rintro _ r₁ ⟨-, h₁⟩
      refine (cryptoUninitializedSlot_spec keySlot2 r₁).bind ?_ (by rintro e r' ⟨he, -⟩; cases he)
      rintro _ r₂ ⟨-, h₂⟩
      rw [h₁] at h₂
      refine ensures_modifyStore_bind ((hfill _).mono fun _ r' h => h.trans ?_)
      rw [h₂]
  unfold initializeStore
  split_ifs
  · rfl
  · obtain ⟨hexec, hsame, -⟩ := exec_cryptoStoreInit sdk seed (st.start faults)
    have hinit : Ensures (cryptoStoreInit sdk seed) (st.start faults) fun _ r' =>
        r'.store.signatureSet = (initChoice sdk seed (st.start faults)).2.store.signatureSet :=
      (hperform _ _).of_exec_eq hexec
    exact hinit.trans (congrArg CryptoStore.signatureSet hsame.store)

/-- After a reset no signature is set. -/
theorem signatureSet_bootStore (sdk : Sdk) (seed : Seed) (fl : Flash) (faults : List Bool) :
    (bootStore sdk seed fl faults).1.signatureSet = 0 := by
  have hspec : Ensures (cryptoStoreInitTest sdk seed) ((CryptoStore.reset fl).start faults) _ :=
    cryptoStoreInitTest_spec _
  obtain ⟨-, slot, -, hstore, -⟩ := hspec
  exact congrArg CryptoStore.signatureSet hstore

/-- The slot in use of an initialized device. -/
theorem KeyInv.current_eq {sdk : Sdk} {seed : Seed} {st : CryptoStore} (h : KeyInv sdk seed st)
    (hdev : st.deviceInitialized = true) : st.current = keySlot sdk (masterSeedOf sdk seed) := by
  obtain ⟨hinit, hseed⟩ := h.current hdev
  rw [← hseed]
  exact h.keys st.slotInUse hinit

section Verified

variable {σ : Type} (pf : Platform σ)

/-! ## Devices without keys -/

/-- Without keys and a review of a transaction, only setting up keys changes the store.

**Proof sketch.** By the kind of event. Without keys, `GET_SIG` does not reach its handler. -/
theorem store_idle {d : Device σ} {e : DeviceEvent} (hinit : d.store.deviceInitialized = false)
    (hreview : d.review ≠ some .transaction) (hboot : ∀ seed faults, e ≠ .boot seed faults)
    (hset : ∀ faults, e ≠ .storeInit faults) : ((device pf).step d e).1.store = d.store := by
  cases e with
  | boot seed faults => exact absurd rfl (hboot seed faults)
  | storeInit faults => exact absurd rfl (hset faults)
  | setExpert expert => rfl
  | apdu a pinCheck faults =>
    refine store_other pf (Option.eq_none_iff_forall_ne_some.mpr ?_)
    rintro ⟨p1, index, lc⟩ hr
    obtain ⟨-, -, -, -, -, hkeys⟩ := eq_of_requestOf hr
    exact absurd (hinit.symm.trans hkeys) (by decide)
  | approve salt faults =>
    rcases hr : d.review with _ | _ | _
    · simp only [device, hr]
    · exact absurd hr hreview
    · simp only [device, hr]
      rfl
  | reject =>
    simp only [device]
    split <;> rfl

/-! ## Approved transactions -/

/-- The user has approved the review a transaction was opened for, and the signature was made. -/
def Approved (h : List (Step σ)) (tx : Transaction) (sig : Block 512) : Prop :=
  ∃ h₁ u h₂ v h₃, h = h₁ ++ u :: (h₂ ++ v :: h₃) ∧ u.OpensReview pf tx ∧
    u.after.SameReview v.before ∧ (∃ salt faults, v.event = .approve salt faults) ∧
    v.output.signed = [sig]

variable {pf} in
/-- What has been approved stays approved. -/
theorem Approved.concat {h : List (Step σ)} {tx : Transaction} {sig : Block 512}
    (ha : Approved pf h tx sig) (t : Step σ) : Approved pf (h ++ [t]) tx sig := by
  obtain ⟨h₁, u, h₂, v, h₃, rfl, hrest⟩ := ha
  refine ⟨h₁, u, h₂, v, h₃ ++ [t], ?_, hrest⟩
  simp only [List.append_assoc, List.cons_append]

/-- A signature belongs to an approved transaction of the key in use, and verifies. -/
structure Endorsed (verify : RsaPublicKey → Block 32 → Block 512 → Prop) (h : List (Step σ))
    (st : CryptoStore) (tx : Transaction) (sig : Block 512) : Prop where
  approved : Approved pf h tx sig
  owner : tx.owner = st.current.rsaPub.n.val
  verify : verify st.current.rsaPub (pf.sdk.sha256 (deepHash pf.sha384 tx.item).val) sig

variable {verify : RsaPublicKey → Block 32 → Block 512 → Prop}

/-- While the host waits, the review of a transaction pending in a run is the one opened last. -/
theorem reviewKept_run {es : List DeviceEvent}
    (hwaits : (device pf).Respects Step.Waits (.fresh pf) es) :
    ReviewKept pf ((device pf).trace (.fresh pf) es) ((device pf).run (.fresh pf) es) :=
  Machine.history_induction (P := ReviewKept pf) (fun h => absurd h (by simp [Device.fresh]))
    (fun _ _ e hd hw => reviewKept_step pf hd e hw) hwaits

/-- The digest signed in an opened review. -/
theorem digest_of_opensReview {u : Step σ} {tx : Transaction} (hopens : u.OpensReview pf tx)
    {d : Device σ} (hsame : u.after.SameReview d) {digest : Bytes}
    (hdigest : (parserGetDigest pf.sha384 (txBuffer pf d) d.parser.tx sha384DigestLen).val =
      .ok digest) : digest = (deepHash pf.sha384 tx.item).val := by
  have hbuffer : txBuffer pf d = txBuffer pf u.after := by
    rw [txBuffer, hsame.buffering, txBuffer]
  have hvalid := valid_of_parserParse (le_refl _) hopens.parse
  rw [hbuffer, hsame.parser, parserGetDigest_eq _ _ (fits_of_valid hvalid), hopens.fields,
    Hashed.val_bind, val_hashItem] at hdigest
  exact (Except.ok.inj hdigest).symm

/-- **Signing** endorses what it stores.

**Proof sketch.** The approval signs the digest of the reviewed transaction, with the private key of
the slot in use. The slot holds the key pair of the seed, for which the signer is correct, and the
owner of the transaction is the public key. -/
theorem endorsed_of_signed (hsdk : pf.sdk.SignsFor verify) {es : List DeviceEvent}
    (hwaits : (device pf).Respects Step.Waits (.fresh pf) es) (e : DeviceEvent) :
    let t : Step σ := (device pf).transition ((device pf).run (.fresh pf) es) e
    ∀ {sig}, t.output.signed = [sig] → ∃ tx,
      Endorsed pf verify ((device pf).trace (.fresh pf) es ++ [t]) t.before.store tx sig := by
  intro t sig hsig
  have hsome : t.output.signed ≠ [] := by
    rw [hsig]
    exact List.cons_ne_nil _ _
  obtain ⟨salt, faults, digest, he, hreview, hdigest, hsigned, -⟩ := step_signed pf hsome
  obtain ⟨h₁, u, h₂, tx, hpre, hopens, -, hsame⟩ := reviewKept_run pf hwaits hreview
  obtain rfl := digest_of_opensReview pf hopens hsame hdigest
  obtain rfl : sig = _ := (List.cons.inj (hsig.symm.trans hsigned)).1
  refine ⟨tx, ⟨h₁, u, h₂, t, [], ?_, hopens, hsame, ⟨salt, faults, he⟩, hsigned⟩, ?_, ?_⟩
  · rw [hpre, List.append_assoc, List.cons_append]
  · rw [hopens.owner, ← hsame.store]
    rfl
  · have hinit : t.before.store.deviceInitialized = true := hsame.store ▸ hopens.initialized
    have hkeys : t.before.store.current = keySlot pf.sdk (masterSeedOf pf.sdk t.before.seed) :=
      (keyInv_run pf es).current_eq hinit
    show verify t.before.store.current.rsaPub _ (pf.sdk.rsaSign t.before.store.current.rsaPriv _ _)
    rw [hkeys]
    exact hsdk _ _ _

/-- The signature in flash for the slot in use. -/
def CryptoStore.sig (st : CryptoStore) : Block 512 := st.flash.sigs st.slotInUse

/-- What is known of a signature that is set: the device has keys, and it is endorsed. -/
def SigEndorsed (verify : RsaPublicKey → Block 32 → Block 512 → Prop) (h : List (Step σ))
    (d : Device σ) : Prop :=
  d.store.signatureSet = 1 →
    d.store.deviceInitialized = true ∧ ∃ tx, Endorsed pf verify h d.store tx d.store.sig

variable {pf} in
/-- A step that leaves the store alone. -/
theorem SigEndorsed.kept {h : List (Step σ)} {d d' : Device σ} (hd : SigEndorsed pf verify h d)
    (t : Step σ) (hstore : d'.store = d.store) : SigEndorsed pf verify (h ++ [t]) d' := by
  intro hset
  rw [hstore] at hset ⊢
  obtain ⟨hinit, tx, hendorsed⟩ := hd hset
  exact ⟨hinit, tx, hendorsed.approved.concat t, hendorsed.owner, hendorsed.verify⟩

/-- A state in which no signature is set. -/
theorem sigEndorsed_of_unset {h : List (Step σ)} {d : Device σ} (hset : d.store.signatureSet ≠ 1) :
    SigEndorsed pf verify h d := fun h => absurd h hset

/-- **One step** of a host that waits.

**Proof sketch.** A reset leaves no signature set, and setting up keys happens without one. On a
device with keys a step stores an endorsed signature, erases one, or leaves the store alone. On a
device without keys no review is pending that could set a signature. -/
theorem sigEndorsed_step (hsdk : pf.sdk.SignsFor verify) {es : List DeviceEvent}
    (hwaits : (device pf).Respects Step.Waits (.fresh pf) es)
    (hd : SigEndorsed pf verify ((device pf).trace (.fresh pf) es)
      ((device pf).run (.fresh pf) es)) (e : DeviceEvent) :
    let t : Step σ := (device pf).transition ((device pf).run (.fresh pf) es) e
    SigEndorsed pf verify ((device pf).trace (.fresh pf) es ++ [t]) t.after := by
  intro t
  by_cases hboot : ∃ seed faults, e = .boot seed faults
  · obtain ⟨seed, faults, rfl⟩ := hboot
    have hzero : t.after.store.signatureSet = 0 := signatureSet_bootStore _ _ _ _
    exact sigEndorsed_of_unset pf (by rw [hzero]; decide)
  have hboot' : ∀ seed faults, e ≠ .boot seed faults := fun seed faults he =>
    hboot ⟨seed, faults, he⟩
  by_cases hinit : t.before.store.deviceInitialized = true
  · rcases store_step pf hinit hboot' with ⟨sig, hsig, hstore⟩ | ⟨-, -, -, hstore⟩ | ⟨-, -, hstore⟩
    · have hafter : t.after.store = t.before.store.withSig sig := hstore
      have hstored : (t.before.store.withSig sig).sig = sig := Function.update_self _ _ _
      obtain ⟨tx, hendorsed⟩ := endorsed_of_signed pf hsdk hwaits e hsig
      intro _
      rw [hafter, hstored]
      exact ⟨hinit, tx, hendorsed.approved, hendorsed.owner, hendorsed.verify⟩
    · have hafter : t.after.store = t.before.store.spent := hstore
      have hzero : t.before.store.spent.signatureSet = 0 := rfl
      exact sigEndorsed_of_unset pf (by rw [hafter, hzero]; decide)
    · exact hd.kept t hstore
  by_cases hkeys : ∃ faults, e = .storeInit faults
  · obtain ⟨faults, rfl⟩ := hkeys
    have hsame : t.after.store.signatureSet = t.before.store.signatureSet :=
      signatureSet_initializeStore _ _ _ _
    exact sigEndorsed_of_unset pf fun hset => hinit (hd (hsame.symm.trans hset)).1
  · have hreview : t.before.review ≠ some .transaction := fun hreview =>
      hinit (initialized_of_review pf es hreview)
    exact hd.kept t (store_idle pf (eq_false_of_ne_true hinit) hreview hboot' fun faults he =>
      hkeys ⟨faults, he⟩)

/-- **A signature that is set is endorsed**, in every run of a host that waits.

**Proof sketch.** By induction on the run, with `sigEndorsed_step` for one step. -/
theorem endorsed_run (hsdk : pf.sdk.SignsFor verify) {es : List DeviceEvent}
    (hwaits : (device pf).Respects Step.Waits (.fresh pf) es) :
    SigEndorsed pf verify ((device pf).trace (.fresh pf) es) ((device pf).run (.fresh pf) es) :=
  Machine.run_induction (P := SigEndorsed pf verify)
    (sigEndorsed_of_unset pf (show (0 : UInt8) ≠ 1 by decide))
    (fun _ e hes hd _ => sigEndorsed_step pf hsdk hes hd e) hwaits

/-! ## What is handed out -/

/-- A part of a signature that is set. -/
theorem handOut_of_ok {st : CryptoStore} {index : ℕ} {part : Bytes}
    (hpart : (st.handOut index).1 = .ok part) :
    st.signatureSet = 1 ∧ index ≤ 1 ∧ part = halve st.sig index := by
  unfold CryptoStore.handOut at hpart
  split_ifs at hpart with hset hindex hone
  all_goals exact ⟨not_not.mp hset, Nat.le_of_not_lt hindex, (Except.ok.inj hpart).symm⟩

/-- **What is handed out verifies**, for every run of a host that waits: a `GET_SIG` that succeeds
is answered with a half of a signature, and it verifies for the deep hash of a transaction the user
has approved, under the public key of which `GET_PK` would be answered with the halves, and which is
the owner of that transaction.

**Proof sketch.** A `GET_SIG` that succeeds has found a signature that is set, and this one is
endorsed by `endorsed_run`. The public key that `GET_PK` hands out is that of the slot in use, by
the invariant of the key store. -/
theorem signature_verifies (hsdk : pf.sdk.SignsFor verify) (es : List DeviceEvent)
    (hwaits : (device pf).Respects Step.Waits (.fresh pf) es) {pre post : List (Step σ)}
    {t : Step σ} (htrace : (device pf).trace (.fresh pf) es = pre ++ t :: post)
    {p1 index lc : UInt8} (hr : requestOf insGetSig t.before t.event = some (p1, index, lc))
    {reply : Bytes} (hreply : t.output.reply = some reply) (hok : statusOf reply = apduCodeOk) :
    ∃ sig tx pub, reply = halve sig index.toNat ++ statusReply apduCodeOk ∧ index.toNat ≤ 1 ∧
      Approved pf pre tx sig ∧ tx.owner = pub.n.val ∧
      verify pub (pf.sdk.sha256 (deepHash pf.sha384 tx.item).val) sig ∧
      ∀ e p1' index', index'.toNat ≤ 1 → requestOf insGetPk t.before e = some (p1', index', 0) →
        ((device pf).step t.before e).2.reply =
          some (halve pub.n index'.toNat ++ statusReply apduCodeOk) := by
  obtain ⟨es₁, e, es₂, rfl, rfl, rfl⟩ := Machine.exists_of_trace_eq _ htrace
  have hfirst : (device pf).Respects Step.Waits (.fresh pf) es₁ := by
    intro v hv
    apply hwaits
    rw [Machine.trace_append]
    exact List.mem_append_left _ hv
  let d := (device pf).run (.fresh pf) es₁
  obtain rfl : lc = 0 := by
    by_contra hlc
    obtain ⟨io, hstep⟩ := (step_getSig pf hr).1 hlc
    have hout : some (statusReply apduCodeCommandNotAllowed) = some reply :=
      (congrArg (fun r => r.2.reply) hstep).symm.trans hreply
    rw [← Option.some.inj hout] at hok
    exact statusOf_commandNotAllowed hok
  obtain rfl := Option.some.inj ((reply_getSig pf hr).symm.trans hreply)
  obtain ⟨part, hpart⟩ := (statusOf_partReply _).mp hok
  obtain ⟨hset, hindex, rfl⟩ := handOut_of_ok hpart
  obtain ⟨hinit, tx, hendorsed⟩ := endorsed_run pf hsdk hfirst hset
  refine ⟨d.store.sig, tx, d.store.current.rsaPub, ?_, hindex, hendorsed.approved,
    hendorsed.owner, hendorsed.verify, fun e p1' index' hle hpk => ?_⟩
  · rw [hpart]
    rfl
  · exact reply_getPk pf ((keyInv_run pf es₁).current hinit).1 hle hpk

end Verified

/-- A signature of the toy SDK begins with the hash and the key. -/
def sampleVerify (pub : RsaPublicKey) (hash : Block 32) (sig : Block 512) : Prop :=
  sig.val.take 46 = hash.val ++ pub.n.val.take 14

/-- The signatures of the toy SDK verify. -/
theorem sampleSdk_signsFor : sampleSdk.SignsFor sampleVerify := by
  intro seed hash salt keys
  have hlen : (hash.val ++ keys.1.n.val.take 14).length = 46 := by
    rw [List.length_append, hash.property, List.length_take_of_le]
    rw [keys.1.n.property]
    decide
  have hsig : (sampleSdk.rsaSign keys.2 hash salt).val =
      (hash.val ++ keys.1.n.val.take 14 ++ salt ++ List.replicate 512 0).take 512 := rfl
  rw [sampleVerify, hsig, List.take_take, List.append_assoc]
  exact List.take_left' hlen

/-- The signature of the sample transaction.

**Proof sketch.** By the theorem, for the upload, the approval and the request of the first half. -/
theorem signature_verifies_sample :
    let es := sampleUploaded ++ [.approve [] [], getSigEvent 0]
    ∃ pre t sig tx pub, (device hashingPlatform).trace (.fresh hashingPlatform) es = pre ++ [t] ∧
      t.output.reply = some (halve sig 0 ++ statusReply apduCodeOk) ∧
      Approved hashingPlatform pre tx sig ∧ tx.owner = pub.n.val ∧
      sampleVerify pub (sampleSdk.sha256 (deepHash lastBytes tx.item).val) sig := by
  -- which platform and which upload it is plays no role any more
  suffices hall : ∀ {σ : Type} (pf : Platform σ) {verify} (es₀ : List DeviceEvent),
      (device pf).Respects Step.Waits (.fresh pf) es₀ → pf.sdk.SignsFor verify →
      ((device pf).step ((device pf).run (.fresh pf) es₀) (.approve [] [])).2.signed ≠ [] →
      ∃ pre t sig tx pub, (device pf).trace (.fresh pf) (es₀ ++ [.approve [] [], getSigEvent 0]) =
          pre ++ [t] ∧ t.output.reply = some (halve sig 0 ++ statusReply apduCodeOk) ∧
        Approved pf pre tx sig ∧ tx.owner = pub.n.val ∧
        verify pub (pf.sdk.sha256 (deepHash pf.sha384 tx.item).val) sig by
    have hidle : ∀ v ∈ (device hashingPlatform).trace (.fresh hashingPlatform) sampleUploaded,
        v.before.review = none := by decide +kernel
    exact hall hashingPlatform sampleUploaded (fun v hv _ _ _ _ => hidle v hv)
      sampleSdk_signsFor sampleUploaded_signed
  intro σ pf verify es₀ hwaits hsdk hstored
  let d := (device pf).run (.fresh pf) es₀
  let d₁ := ((device pf).step d (.approve [] [])).1
  let es := es₀ ++ [.approve [] [], getSigEvent 0]
  have htrace : (device pf).trace (.fresh pf) es = ((device pf).trace (.fresh pf) es₀ ++
      [(device pf).transition d (.approve [] [])]) ++
        [(device pf).transition d₁ (getSigEvent 0)] := by
    rw [Machine.trace_append, List.append_assoc]
    rfl
  obtain ⟨_, _, digest, -, hreview, -, -, hstore⟩ := step_signed pf hstored
  have hset : d₁.store.signatureSet = 1 := congrArg CryptoStore.signatureSet hstore
  have hinit : d₁.store.deviceInitialized = true :=
    (congrArg CryptoStore.deviceInitialized hstore).trans (initialized_of_review pf es₀ hreview)
  have hidle : d₁.review = none := (answered_approve pf d [] []).kept.2.2.2.1
  have hrespects : (device pf).Respects Step.Waits (.fresh pf) es := by
    intro v hv a pinCheck faults he
    rw [htrace, List.mem_append, List.mem_append, List.mem_singleton, List.mem_singleton] at hv
    rcases hv with (hv | rfl) | rfl
    · exact hwaits v hv a pinCheck faults he
    · cases he
    · exact hidle
  have hr : requestOf insGetSig d₁ (getSigEvent 0) = some (0, 0, 0) :=
    requestOf_eq_some [] rfl hinit
  have hpart := congrArg Prod.fst (CryptoStore.handOut_of_set hset (Nat.zero_le 1))
  have hreply : ((device pf).step d₁ (getSigEvent 0)).2.reply =
      some (partReply (d₁.store.handOut 0).1) := reply_getSig pf hr
  have hok : statusOf (partReply (d₁.store.handOut 0).1) = apduCodeOk :=
    (statusOf_partReply _).mpr ⟨_, hpart⟩
  obtain ⟨sig, tx, pub, heq, -, happroved, howner, hverify, -⟩ :=
    signature_verifies pf hsdk es hrespects htrace hr hreply hok
  exact ⟨_, _, sig, tx, pub, htrace, hreply.trans (congrArg some heq), happroved, howner, hverify⟩

end LedgerArweave
