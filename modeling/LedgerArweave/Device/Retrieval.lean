import LedgerArweave.Device.Exchange

set_option relaxedAutoImplicit false
set_option autoImplicit false

/-!
# Retrieving a signature

The signature stored last can be retrieved until its second part has been handed out. Signing,
retrieval and the choice of a slot share the flag and the flash, so this rests on what a step can
do to the store as a whole: once the keys are set up, a step that is no reset stores a signature,
erases one, or leaves the store alone.

## Main definitions

* `Step.TakesSig` — a step hands out the second part of the signature.
* `Device.Offers`, `Device.Withholds` — how a device answers requests for the signature.

## Main results

* `store_step` — what a step can do to the store.
* `sig_retrieved` — what requests are answered with in every run.
-/

namespace LedgerArweave

open Fallible

section Retrieval

variable {σ : Type}

/-! ## Handlers that leave the store alone -/

/-- The store is the same. -/
def Handler.SameStore (h h' : Handler σ) : Prop := h'.dev.store = h.dev.store

/-- A sequence leaves the store alone if its parts do. -/
instance : IsPreorder (Handler σ) Handler.SameStore where
  refl _ := rfl
  trans _ _ _ h h' := Eq.trans h' h

/-- A check leaves the store. -/
theorem sameStore_throwIf (condition : Prop) [Decidable condition] (code : ℕ) :
    Within Handler.SameStore (throwIf condition code : HandlerM σ Unit) :=
  Within.ite (within_throw _) (within_pure _)

/-- Reading a byte leaves the store. -/
theorem sameStore_ioByte (i : ℕ) : Within Handler.SameStore (ioByte i : HandlerM σ UInt8) :=
  within_get.bind fun _ => within_pure _

/-- Reading bytes leaves the store. -/
theorem sameStore_ioBytes (i n : ℕ) : Within Handler.SameStore (ioBytes i n : HandlerM σ Bytes) :=
  within_get.bind fun _ => within_pure _

/-- Setting the length of the response leaves the store. -/
theorem sameStore_setTx (n : ℕ) : Within Handler.SameStore (setTx n : HandlerM σ Unit) :=
  fun _ => rfl

/-- Adding to the length of the response leaves the store. -/
theorem sameStore_addTx (n : ℕ) : Within Handler.SameStore (addTx n : HandlerM σ Unit) :=
  fun _ => rfl

/-- Writing to the buffer leaves the store. -/
theorem sameStore_writeIo (pos : ℕ) (w : Bytes) :
    Within Handler.SameStore (writeIo pos w : HandlerM σ Unit) := fun _ => rfl

/-- Clearing the buffer leaves the store. -/
theorem sameStore_zeroIo : Within Handler.SameStore (zeroIo : HandlerM σ Unit) := fun _ => rfl

/-- Replying with a code leaves the store. -/
theorem sameStore_replyCode (offset code : ℕ) :
    Within Handler.SameStore (replyCode offset code : HandlerM σ Unit) :=
  (sameStore_writeIo _ _).bind fun _ => sameStore_setTx _

/-- Opening a review leaves the store. -/
theorem sameStore_reviewInit (review : Review) :
    Within Handler.SameStore (reviewInit review : HandlerM σ Unit) := fun _ => rfl

variable (pf : Platform σ)

/-- `GET_VERSION` leaves the store. -/
theorem sameStore_handleGetVersion : Within Handler.SameStore (handleGetVersion pf) :=
  (sameStore_writeIo _ _).bind fun _ => (sameStore_addTx _).bind fun _ => within_throw _

/-- Preparing the address leaves the store. -/
theorem sameStore_appFillAddress : Within Handler.SameStore (appFillAddress pf) := by
  have hfill : Within StoreRun.SameStore (cryptoFillAddress pf.sdk (ioApduBufferSize - 2)) :=
    within_cryptoFillAddress (fun _ _ _ => rfl) _ _
  refine Within.bind (fun h => hfill (h.dev.store.start h.faults)) fun r => ?_
  cases r with
  | error e => exact sameStore_zeroIo.bind fun _ => within_pure _
  | ok addrStr => exact Within.bind (fun _ => rfl) fun _ => within_pure _

/-- `GET_ADDR` leaves the store. -/
theorem sameStore_handleGetAddress : Within Handler.SameStore (handleGetAddress pf) := by
  refine (sameStore_setTx _).bind fun _ => (sameStore_ioByte _).bind fun _ => ?_
  refine (sameStore_throwIf _ _).bind fun _ => (sameStore_ioByte _).bind fun _ => ?_
  refine sameStore_zeroIo.bind fun _ => Within.bind (fun _ => rfl) fun _ => ?_
  refine (sameStore_appFillAddress pf).bind fun err => within_get.bind fun h => ?_
  refine Within.ite ((sameStore_setTx _).bind fun _ => within_throw _) ?_
  exact Within.ite (sameStore_reviewInit _) ((sameStore_setTx _).bind fun _ => within_throw _)

/-- `GET_PK` leaves the store. -/
theorem sameStore_handleGetPubKeyPart :
    Within Handler.SameStore (handleGetPubKeyPart : HandlerM σ Unit) := by
  refine (sameStore_setTx _).bind fun _ => (sameStore_ioByte _).bind fun _ => ?_
  refine (sameStore_throwIf _ _).bind fun _ => (sameStore_ioByte _).bind fun _ => ?_
  refine sameStore_zeroIo.bind fun _ => (within_get.bind fun _ => within_pure _).bind fun r => ?_
  cases r with
  | error e => exact (sameStore_setTx _).bind fun _ => within_throw _
  | ok part =>
    exact (sameStore_writeIo _ _).bind fun _ => (sameStore_setTx _).bind fun _ => within_throw _

/-- Appending a payload leaves the store. -/
theorem sameStore_appendPayload (rx : ℕ) : Within Handler.SameStore (appendPayload pf rx) := by
  have happend (w : Bytes) : Within Handler.SameStore (txAppend pf w) :=
    within_get.bind fun _ => Within.bind (fun _ => rfl) fun _ => within_pure _
  refine (sameStore_ioBytes _ _).bind fun _ => (happend _).bind fun added => ?_
  exact Within.ite (Within.bind (fun _ => rfl) fun _ => within_throw _) (within_pure _)

/-- Processing a chunk leaves the store. -/
theorem sameStore_processChunk (rx : ℕ) : Within Handler.SameStore (processChunk pf rx) := by
  refine (sameStore_ioByte _).bind fun _ => (sameStore_throwIf _ _).bind fun _ => ?_
  refine (sameStore_ioByte _).bind fun _ => (sameStore_throwIf _ _).bind fun _ => ?_
  refine Within.ite ?init (Within.ite ?add (Within.ite ?last ?bad))
  case init =>
    exact Within.bind (fun _ => rfl) fun _ => Within.bind (fun _ => rfl) fun _ =>
      Within.bind (fun _ => rfl) fun _ => within_pure _
  case add => exact (sameStore_appendPayload pf rx).bind fun _ => within_pure _
  case last =>
    exact within_get.bind fun _ => (sameStore_throwIf _ _).bind fun _ =>
      (sameStore_appendPayload pf rx).bind fun _ => within_pure _
  case bad => exact Within.bind (fun _ => rfl) fun _ => within_throw _

/-- `SIGN` leaves the store: signing comes with the approval. -/
theorem sameStore_handleSign (rx : ℕ) : Within Handler.SameStore (handleSign pf rx) := by
  have hparse : Within Handler.SameStore (txParse pf) := by
    intro h
    rw [exec_txParse]
    rfl
  refine (sameStore_processChunk pf rx).bind fun _ => (sameStore_throwIf _ _).bind fun _ => ?_
  refine hparse.bind fun r => ?_
  cases r with
  | none => exact sameStore_reviewInit _
  | some errorMsg =>
    exact (sameStore_writeIo _ _).bind fun _ => (sameStore_addTx _).bind fun _ => within_throw _

/-- The branches of the `switch` other than `GET_SIG` leave the store alone. -/
theorem sameStore_switchIns {ins : UInt8} (hins : ins ≠ insGetSig) (rx : ℕ)
    (pinCheck : Option ErrorCode) : Within Handler.SameStore (switchIns pf ins rx pinCheck) := by
  have hpin {p : HandlerM σ Unit} (hp : Within Handler.SameStore p) :
      Within Handler.SameStore (checkPinValidated pinCheck >>= fun _ => p) := by
    cases pinCheck with
    | none => exact (within_pure _).bind fun _ => hp
    | some e => exact (within_throw _).bind fun _ => hp
  unfold switchIns
  rw [if_neg hins]
  refine Within.ite (sameStore_handleGetVersion pf) ?_
  refine Within.ite (hpin (sameStore_handleGetAddress pf)) ?_
  refine Within.ite (hpin (sameStore_handleSign pf rx)) ?_
  exact Within.ite (hpin sameStore_handleGetPubKeyPart) (within_throw _)

/-! ## What a step can do to the store -/

/-- A step hands out the second part of the signature: a request for it is answered with success. -/
def Step.TakesSig (t : Step σ) : Prop :=
  ∃ p1 lc reply, requestOf insGetSig t.before t.event = some (p1, 1, lc) ∧
    t.output.reply = some reply ∧ statusOf reply = apduCodeOk

/-- An answer to a request for a part is one of success if the part is there. -/
theorem statusOf_partReply (res : Except ZxErr Bytes) :
    statusOf (partReply res) = apduCodeOk ↔ ∃ part, res = .ok part := by
  cases res with
  | error e =>
    have hne : statusOf (partReply (.error e)) ≠ apduCodeOk :=
      statusOf_code_ne [] (.inr (.inr (.inr (.inr rfl))))
    exact iff_of_false hne (by simp)
  | ok part => exact iff_of_true (statusOf_ok part) ⟨part, rfl⟩

/-- A request with data is refused. -/
theorem statusOf_commandNotAllowed :
    statusOf (statusReply apduCodeCommandNotAllowed) ≠ apduCodeOk := by
  decide

section Command

variable {d : Device σ} {e : DeviceEvent} {p1 index lc : UInt8}

/-- Only a request for the second part takes the signature. -/
theorem eq_of_takesSig (hr : requestOf insGetSig d e = some (p1, index, lc)) :
    let t : Step σ := (device pf).transition d e
    t.TakesSig → index = 1 ∧
      ∃ reply, t.output.reply = some reply ∧ statusOf reply = apduCodeOk := by
  rintro t ⟨p1', lc', reply, hr', hreply, hok⟩
  have heq := hr.symm.trans hr'
  simp only [Option.some.injEq, Prod.mk.injEq] at heq
  exact ⟨heq.2.1, reply, hreply, hok⟩

/-- A part other than the second one, or of a signature that is not set, costs nothing. -/
theorem CryptoStore.handOut_store {st : CryptoStore} {i : ℕ} (h : ¬ (st.signatureSet = 1 ∧ i = 1)) :
    (st.handOut i).2 = st := by
  unfold CryptoStore.handOut
  split_ifs with hset hindex hone
  · rfl
  · rfl
  · exact absurd ⟨not_not.mp hset, hone⟩ h
  · rfl

/-- `GET_SIG` erases the signature if it hands out the second part, and leaves the store alone if
it does not.

**Proof sketch.** By `step_getSig`: the part that is handed out decides what becomes of the store,
and a command with data hands out none. -/
theorem store_getSig (hr : requestOf insGetSig d e = some (p1, index, lc)) :
    let t : Step σ := (device pf).transition d e
    (t.TakesSig ∧ d.store.signatureSet = 1 ∧ t.after.store = d.store.spent) ∨
      (¬ t.TakesSig ∧ t.after.store = d.store) := by
  intro t
  obtain ⟨hdata, hnodata⟩ := step_getSig pf hr
  have htakes := eq_of_takesSig pf hr
  by_cases hlc : lc = 0
  swap
  · obtain ⟨io, hstep⟩ := hdata hlc
    refine .inr ⟨fun ht => ?_, congrArg (fun r => r.1.store) hstep⟩
    obtain ⟨-, reply, hreply, hok⟩ := htakes ht
    have hout : t.output.reply = some (statusReply apduCodeCommandNotAllowed) :=
      congrArg (fun r => r.2.reply) hstep
    obtain rfl := Option.some.inj (hout.symm.trans hreply)
    exact statusOf_commandNotAllowed hok
  obtain ⟨io, hstep⟩ := hnodata hlc
  have hout : t.output.reply = some (partReply (d.store.handOut index.toNat).1) :=
    congrArg (fun r => r.2.reply) hstep
  have hafter : t.after.store = (d.store.handOut index.toNat).2 :=
    congrArg (fun r => r.1.store) hstep
  by_cases htake : d.store.signatureSet = 1 ∧ index = 1
  · obtain ⟨hset, rfl⟩ := htake
    have hpart := CryptoStore.handOut_of_set hset (le_refl 1)
    refine .inl ⟨⟨p1, lc, _, hr, hout, (statusOf_partReply _).mpr ⟨_, congrArg Prod.fst hpart⟩⟩,
      hset, ?_⟩
    rw [hafter]
    exact congrArg Prod.snd hpart
  · refine .inr ⟨fun ht => ?_, ?_⟩
    · obtain ⟨rfl, reply, hreply, hok⟩ := htakes ht
      obtain rfl := Option.some.inj (hout.symm.trans hreply)
      obtain ⟨part, hpart⟩ := (statusOf_partReply _).mp hok
      have hunset : d.store.signatureSet ≠ 1 := fun hset => htake ⟨hset, rfl⟩
      rw [CryptoStore.handOut, if_pos hunset] at hpart
      exact absurd hpart (by simp)
    · rw [hafter]
      exact CryptoStore.handOut_store fun h => htake ⟨h.1, UInt8.toNat_inj.mp h.2⟩

/-- Only a signature that is set is taken. -/
theorem store_of_takesSig :
    let t : Step σ := (device pf).transition d e
    t.TakesSig → d.store.deviceInitialized = true ∧ d.store.signatureSet = 1 ∧
      t.after.store = d.store.spent := by
  intro t htakes
  obtain ⟨p1, lc, reply, hr, -⟩ := id htakes
  have hr' : requestOf insGetSig d e = some (p1, 1, lc) := hr
  obtain ⟨-, -, -, -, -, hinit⟩ := eq_of_requestOf hr'
  obtain ⟨-, hset, hstore⟩ := (store_getSig pf hr').resolve_right fun hno => hno.1 htakes
  exact ⟨hinit, hset, hstore⟩

/-- A command that is no such request leaves the store alone.

**Proof sketch.** The checks are passed one after another. A `GET_SIG` that passes them all is a
request, and no other branch of the `switch` changes the store. -/
theorem dispatchApdu_sameStore {h : Handler σ} {a : Apdu} {rest : Bytes}
    {pinCheck : Option ErrorCode} (faults : List Bool)
    (hio : h.dev.ioApduBuffer = a.bytes ++ rest)
    (hr : requestOf insGetSig h.dev (.apdu a pinCheck faults) = none) :
    Handler.SameStore h ((dispatchApdu pf a.bytes.length pinCheck).exec h).2 := by
  rw [dispatchApdu, exec_ioByte_bind]
  by_cases hcla : h.dev.ioApduBuffer.getD offsetCla 0 = claByte
  swap
  · rw [exec_throwIf_pos h hcla]
    exact refl_of _ _
  rw [exec_throwIf_neg h (not_not.mpr hcla)]
  by_cases hrx : apduMinLength ≤ a.bytes.length
  swap
  · rw [exec_throwIf_pos h (Nat.lt_of_not_le hrx)]
    exact refl_of _ _
  rw [exec_throwIf_neg h (Nat.not_lt.mpr hrx), exec_ioByte_bind, exec_get_bind]
  by_cases hins : h.dev.ioApduBuffer.getD offsetIns 0 = insGetSig
  swap
  · exact (sameStore_throwIf _ _).bind (fun _ => sameStore_switchIns pf hins _ _) h
  rw [hins]
  by_cases hinit : h.dev.store.deviceInitialized = true
  swap
  · rw [exec_throwIf_pos h ⟨hinit, by decide⟩]
    exact refl_of _ _
  rw [exec_throwIf_neg h fun hc => hc.1 hinit]
  cases pinCheck with
  | some e => exact refl_of _ _
  | none =>
    obtain ⟨cla, ins, p1, p2, lc, payload, ha⟩ := exists_header hrx
    rw [hio, ha] at hcla hins
    obtain rfl : cla = claByte := hcla
    obtain rfl : ins = insGetSig := hins
    rw [requestOf_eq_some faults ha hinit] at hr
    exact absurd hr (by simp)

/-- The same of a whole step. -/
theorem store_other {a : Apdu} {pinCheck : Option ErrorCode} {faults : List Bool}
    (hr : requestOf insGetSig d (.apdu a pinCheck faults) = none) :
    ((device pf).step d (.apdu a pinCheck faults)).1.store = d.store := by
  have hdispatch := dispatchApdu_sameStore pf (h := (d.receive a).start faults) faults
    (receive_ioApduBuffer d a) hr
  rw [step_apdu]
  rcases hrun : (dispatchApdu pf a.bytes.length pinCheck).exec ((d.receive a).start faults)
    with ⟨e | ⟨⟩, h⟩ <;> rw [hrun] at hdispatch
  · exact (sameStore_replyCode _ _ h).trans hdispatch
  · exact hdispatch

/-- Only a request takes the signature. -/
theorem not_takesSig {t : Step σ} (hr : requestOf insGetSig t.before t.event = none) :
    ¬ t.TakesSig := by
  rintro ⟨p1, lc, reply, hsome, -⟩
  rw [hr] at hsome
  exact absurd hsome (by simp)

end Command

/-- **What a step can do to the store**, once the keys are set up: unless it is a reset, it stores
a signature, erases the one that is set, or leaves the store alone.

**Proof sketch.** By the kind of event. Among the commands only `GET_SIG` touches the store, among
the decisions only the approval of a transaction. -/
theorem store_step {d : Device σ} {e : DeviceEvent} (hinit : d.store.deviceInitialized = true)
    (hboot : ∀ seed faults, e ≠ .boot seed faults) :
    let t : Step σ := (device pf).transition d e
    (∃ sig, t.output.signed = [sig] ∧ t.after.store = d.store.withSig sig) ∨
      (t.TakesSig ∧ t.output.signed = [] ∧ d.store.signatureSet = 1 ∧
        t.after.store = d.store.spent) ∨
      (¬ t.TakesSig ∧ t.output.signed = [] ∧ t.after.store = d.store) := by
  intro t
  cases e with
  | boot seed faults => exact absurd rfl (hboot seed faults)
  | storeInit faults =>
    exact .inr (.inr ⟨not_takesSig rfl, if_pos hinit, if_pos hinit⟩)
  | setExpert expert => exact .inr (.inr ⟨not_takesSig rfl, rfl, rfl⟩)
  | apdu a pinCheck faults =>
    have hsigned := signed_apdu pf d a pinCheck faults
    rcases hr : requestOf insGetSig d (.apdu a pinCheck faults) with _ | ⟨p1, index, lc⟩
    · exact .inr (.inr ⟨not_takesSig hr, hsigned, store_other pf hr⟩)
    · rcases store_getSig pf hr with ⟨htakes, hset, hstore⟩ | ⟨hno, hstore⟩
      · exact .inr (.inl ⟨htakes, hsigned, hset, hstore⟩)
      · exact .inr (.inr ⟨hno, hsigned, hstore⟩)
  | approve salt faults =>
    have hno : ¬ t.TakesSig := not_takesSig rfl
    rcases hreview : d.review with _ | _ | _
    · have hstep : (device pf).step d (.approve salt faults) = (d, .silent) := by
        simp only [device, hreview]
      refine .inr (.inr ⟨hno, ?_, ?_⟩)
      · exact congrArg (fun r => r.2.signed) hstep
      · exact congrArg (fun r => r.1.store) hstep
    · rcases signed_approve pf hreview salt faults with ⟨hsigned, hstore⟩ | ⟨_, -, hsigned, hstore⟩
      · exact .inr (.inr ⟨hno, hsigned, hstore⟩)
      · exact .inl ⟨_, hsigned, hstore⟩
    · have hstep : (device pf).step d (.approve salt faults) =
          d.run (closeReview appReplyAddress) faults := by
        simp only [device, hreview]
      refine .inr (.inr ⟨hno, ?_, ?_⟩)
      · exact congrArg (fun r => r.2.signed) hstep
      · exact congrArg (fun r => r.1.store) hstep
  | reject =>
    refine .inr (.inr ⟨not_takesSig rfl, ?_, ?_⟩)
    all_goals
      simp only [t, Machine.transition, device]
      split <;> rfl

/-- Only a device with keys shows the review of a transaction.

**Proof sketch.** By induction on the run. A review is opened by parsing, which needs keys, and only
a reset takes them away, which closes the review. -/
theorem initialized_of_review (es : List DeviceEvent) :
    let d := (device pf).run (.fresh pf) es
    d.review = some .transaction → d.store.deviceInitialized = true := by
  refine Machine.invariant (G := fun _ => True)
    (I := fun d : Device σ => d.review = some .transaction → d.store.deviceInitialized = true)
    (fun h => absurd h (by simp [Device.fresh])) ?_ (fun _ _ => trivial)
  intro d e hd _ hreview
  have hboot : ∀ seed faults, e ≠ .boot seed faults := by
    rintro seed faults rfl
    exact absurd hreview (by simp [device, Device.boot, Device.fresh])
  have hinit : d.store.deviceInitialized = true := by
    rcases review_opened pf hreview with hbefore | hparsed
    · exact hd hbefore
    · obtain ⟨data, hdata⟩ := Option.isSome_iff_exists.mp hparsed
      obtain ⟨-, payload, hc, -⟩ := chunk_of_parsed pf hdata
      obtain ⟨-, -, -, -, -, hinit⟩ := eq_of_chunkOf hc
      exact hinit
  rcases store_step pf hinit hboot with ⟨sig, -, hstore⟩ | ⟨-, -, -, hstore⟩ | ⟨-, -, hstore⟩
  all_goals
    rw [Machine.after_transition] at hstore
    rw [hstore]
    exact hinit

/-! ## The answers -/

/-- A `GET_SIG` of any length. -/
def DeviceEvent.AsksSig (e : DeviceEvent) : Prop :=
  ∃ a pinCheck faults rest, e = .apdu a pinCheck faults ∧ a.bytes = claByte :: insGetSig :: rest

/-- An event is answered with an error. -/
def Device.Refuses (d : Device σ) (e : DeviceEvent) : Prop :=
  ∃ reply, ((device pf).step d e).2.reply = some reply ∧ statusOf reply ≠ apduCodeOk

/-- A device hands out both parts of a signature. -/
structure Device.Offers (d : Device σ) (sig : Block 512) : Prop where
  deviceInitialized : d.store.deviceInitialized = true
  signatureSet : d.store.signatureSet = 1
  stored : d.store.flash.sigs d.store.slotInUse = sig
  first : ∀ e p1, requestOf insGetSig d e = some (p1, 0, 0) →
    ((device pf).step d e).2.reply = some (halve sig 0 ++ statusReply apduCodeOk)
  second : ∀ e p1, requestOf insGetSig d e = some (p1, 1, 0) →
    ((device pf).step d e).2.reply = some (halve sig 1 ++ statusReply apduCodeOk)
  refused : ∀ e p1 index lc, requestOf insGetSig d e = some (p1, index, lc) →
    1 < index.toNat ∨ lc ≠ 0 → d.Refuses pf e

/-- A device has no signature, nor any trace of one, to hand out. -/
structure Device.Withholds (d : Device σ) : Prop where
  signatureSet : d.store.signatureSet = 0
  erased : d.store.flash.sigs d.store.slotInUse = zeroBlock 512
  refused : ∀ e : DeviceEvent, e.AsksSig → d.Refuses pf e
  notTaken : ∀ e : DeviceEvent, ¬ Step.TakesSig ((device pf).transition d e)

/-- The answer to a request without data. -/
theorem reply_getSig {d : Device σ} {e : DeviceEvent} {p1 index : UInt8}
    (hr : requestOf insGetSig d e = some (p1, index, 0)) :
    ((device pf).step d e).2.reply = some (partReply (d.store.handOut index.toNat).1) := by
  obtain ⟨io, hstep⟩ := (step_getSig pf hr).2 rfl
  rw [hstep]

/-- A request is refused if the store has nothing for it. -/
theorem refuses_getSig {d : Device σ} {e : DeviceEvent} {p1 index lc : UInt8}
    (hr : requestOf insGetSig d e = some (p1, index, lc))
    (hno : lc ≠ 0 ∨ ∀ part, (d.store.handOut index.toNat).1 ≠ .ok part) : d.Refuses pf e := by
  by_cases hlc : lc = 0
  · subst hlc
    refine ⟨_, reply_getSig pf hr, fun hok => ?_⟩
    obtain ⟨part, hpart⟩ := (statusOf_partReply _).mp hok
    exact hno.resolve_left (not_not.mpr rfl) part hpart
  · obtain ⟨io, hstep⟩ := (step_getSig pf hr).1 hlc
    exact ⟨_, by rw [hstep], statusOf_commandNotAllowed⟩

/-- While a signature is set, its parts are handed out.

**Proof sketch.** By the reply of `GET_SIG`, which is the half that the signature has at this index.
-/
theorem offers_of_store {d : Device σ} (hinit : d.store.deviceInitialized = true)
    (hset : d.store.signatureSet = 1) :
    d.Offers pf (d.store.flash.sigs d.store.slotInUse) where
  deviceInitialized := hinit
  signatureSet := hset
  stored := rfl
  first e p1 hr := by
    rw [reply_getSig pf hr]
    exact congrArg (fun r => some (partReply r.1)) (CryptoStore.handOut_of_set hset zero_le_one)
  second e p1 hr := by
    rw [reply_getSig pf hr]
    exact congrArg (fun r => some (partReply r.1)) (CryptoStore.handOut_of_set hset le_rfl)
  refused e p1 index lc hr hbad := by
    refine refuses_getSig pf hr (hbad.symm.imp_right fun hindex part hpart => ?_)
    rw [CryptoStore.handOut, if_neg (not_not.mpr hset), if_pos hindex] at hpart
    exact absurd hpart (by simp)

/-- A short command is refused.

**Proof sketch.** The check of the length comes before the instruction is looked at. -/
theorem refuses_short {d : Device σ} {a : Apdu} {rest : Bytes} {pinCheck : Option ErrorCode}
    {faults : List Bool} (hbytes : a.bytes = claByte :: rest)
    (hrx : a.bytes.length < apduMinLength) : d.Refuses pf (.apdu a pinCheck faults) := by
  have hio := receive_ioApduBuffer d a
  have hcla : ((d.receive a).start faults).dev.ioApduBuffer.getD offsetCla 0 = claByte := by
    show (d.receive a).ioApduBuffer.getD offsetCla 0 = claByte
    rw [hio, hbytes]
    rfl
  have hdispatch : (dispatchApdu pf a.bytes.length pinCheck).exec ((d.receive a).start faults) =
      (.error apduCodeWrongLength, (d.receive a).start faults) := by
    rw [dispatchApdu, exec_ioByte_bind, exec_throwIf_neg _ (not_not.mpr hcla),
      exec_throwIf_pos _ hrx]
  obtain ⟨io, hfinish⟩ := finish_afterDispatch_code apduCodeWrongLength
    (h := (d.receive a).start faults) rfl rfl
  exact ⟨statusReply apduCodeWrongLength, by rw [step_apdu, hdispatch, hfinish], by decide⟩

/-- Without a signature, every request is refused.

**Proof sketch.** A command that is too short or meets a locked device is refused before its
handler; the handler finds no signature. -/
theorem withholds_of_store {d : Device σ} (hinit : d.store.deviceInitialized = true)
    (hunset : d.store.signatureSet = 0)
    (herased : d.store.flash.sigs d.store.slotInUse = zeroBlock 512) : d.Withholds pf where
  signatureSet := hunset
  erased := herased
  notTaken e htakes := by
    obtain ⟨-, hset, -⟩ := store_of_takesSig pf htakes
    exact absurd (hunset.symm.trans hset) (by decide)
  refused := by
    rintro _ ⟨a, pinCheck, faults, rest, rfl, hbytes⟩
    by_cases hrx : a.bytes.length < apduMinLength
    · exact refuses_short pf hbytes hrx
    obtain ⟨cla, ins, p1, p2, lc, payload, hheader⟩ := exists_header (Nat.le_of_not_lt hrx)
    rw [hheader] at hbytes
    obtain ⟨rfl, rfl, -⟩ : cla = claByte ∧ ins = insGetSig ∧ _ = rest := by
      simpa using hbytes
    cases pinCheck with
    | some code =>
      obtain ⟨io, hstep⟩ := step_locked pf (by decide) code faults hheader hinit
      exact ⟨_, by rw [hstep], statusOf_statusReply_ne code⟩
    | none =>
      refine refuses_getSig pf (requestOf_eq_some faults hheader hinit) (.inr fun part hpart => ?_)
      have hset : d.store.signatureSet ≠ 1 := by
        rw [hunset]
        decide
      rw [CryptoStore.handOut, if_pos hset] at hpart
      exact absurd hpart (by simp)

/-! ## Retrieval -/

/-- A step after which nothing about the signature has changed: no reset, no signature is stored,
and the second part is not handed out. -/
def Step.LeavesSig (t : Step σ) : Prop :=
  ¬ t.IsBoot ∧ t.output.signed = [] ∧ ¬ t.TakesSig

/-- What such steps leave alone is the whole store. -/
theorem store_since {es : List DeviceEvent} {pre mid : List (Step σ)} {t : Step σ}
    (htrace : (device pf).trace (.fresh pf) es = pre ++ t :: mid)
    (hmid : ∀ u ∈ mid, u.LeavesSig) (hinit : t.after.store.deviceInitialized = true) :
    ((device pf).run (.fresh pf) es).store = t.after.store := by
  refine Machine.invariant_since (G := Step.LeavesSig)
    (I := fun d : Device σ => d.store = t.after.store) htrace rfl ?_ hmid
  rintro d e hd ⟨hboot, hsigned, hno⟩
  have hboot' : ∀ seed faults, e ≠ .boot seed faults := fun seed faults he =>
    hboot ⟨seed, faults, he⟩
  rcases store_step pf (hd ▸ hinit) hboot' with ⟨sig, hsig, -⟩ | ⟨htakes, -⟩ | ⟨-, -, hstore⟩
  · rw [hsigned] at hsig
    exact absurd hsig (by simp)
  · exact absurd htakes hno
  · exact hstore.trans hd

/-- **Retrieving a signature**, in every run: from the step that has stored a signature until a
reset, the next signature or the step that hands out the second part, both parts are handed out,
whatever else happens. From the step that has handed out the second part until a reset or the next
signature, nothing is left in flash and every request is refused.

**Proof sketch.** The step has stored the signature, or erased it, and the steps afterwards leave
the store alone by `store_since`. What the store then answers is `offers_of_store` and
`withholds_of_store`. -/
theorem sig_retrieved (es : List DeviceEvent) {pre mid : List (Step σ)} {t : Step σ}
    (htrace : (device pf).trace (.fresh pf) es = pre ++ t :: mid)
    (hmid : ∀ u ∈ mid, u.LeavesSig) :
    let d := (device pf).run (.fresh pf) es
    (∀ sig, t.output.signed = [sig] → d.Offers pf sig) ∧ (t.TakesSig → d.Withholds pf) := by
  intro d
  obtain ⟨es₁, e, es₂, -, -, rfl⟩ := Machine.exists_of_trace_eq _ htrace
  constructor
  · intro sig hsigned
    obtain ⟨salt, faults, digest, -, hreview, -, hsig, hstore⟩ := step_signed pf
      (hsigned.trans_ne (List.cons_ne_nil sig []))
    rw [← List.singleton_inj.mp (hsigned.symm.trans hsig)] at hstore
    have hinit := initialized_of_review pf es₁ hreview
    have hd := (store_since pf htrace hmid (by rw [hstore]; exact hinit)).trans hstore
    have hsigs : d.store.flash.sigs d.store.slotInUse = sig := by
      rw [hd]
      exact Function.update_self _ _ _
    have hoffers : d.Offers pf (d.store.flash.sigs d.store.slotInUse) :=
      offers_of_store pf (by rw [hd]; exact hinit) (by rw [hd]; rfl)
    rwa [hsigs] at hoffers
  · intro htakes
    obtain ⟨hinit, -, hstore⟩ := store_of_takesSig pf htakes
    have hd := (store_since pf htrace hmid (by rw [hstore]; exact hinit)).trans hstore
    refine withholds_of_store pf (by rw [hd]; exact hinit) (by rw [hd]; rfl) ?_
    rw [hd]
    exact Function.update_self _ _ _

end Retrieval

/-! ## A sample run -/

section Sample

/-- `GET_SIG` for a part. -/
def getSigEvent (index : UInt8) : DeviceEvent :=
  .apdu (command insGetSig 0 index [] (by decide)) none []

/-- A request that does not ask for the second part leaves the signature alone. -/
theorem leavesSig_getSig {σ : Type} (pf : Platform σ) (d : Device σ) {index : UInt8}
    (hindex : index ≠ 1) : Step.LeavesSig ((device pf).transition d (getSigEvent index)) := by
  refine ⟨?_, signed_apdu pf d _ none [], ?_⟩
  · rintro ⟨seed, faults, hboot⟩
    cases hboot
  · rintro ⟨p1, lc, reply, hr, -⟩
    obtain ⟨a, faults, payload, he, hbytes, -⟩ := eq_of_requestOf hr
    cases he
    exact hindex (List.cons.inj (List.cons.inj (List.cons.inj (List.cons.inj hbytes).2).2).2).1

/-- The signature of the sample transaction is handed out in two parts, and then no more.

**Proof sketch.** Two uses of the theorem: after the approval, and after the second half. -/
theorem sig_retrieved_sample :
    let es := sampleUploaded ++ [.approve [] [], getSigEvent 0]
    let d := (device hashingPlatform).run (.fresh hashingPlatform) es
    (∃ sig, d.Offers hashingPlatform sig) ∧
      ((device hashingPlatform).step d (getSigEvent 1)).1.Withholds hashingPlatform := by
  -- which platform and which upload it is plays no role any more
  suffices hall : ∀ {σ : Type} (pf : Platform σ) (es₀ : List DeviceEvent),
      ((device pf).step ((device pf).run (.fresh pf) es₀) (.approve [] [])).2.signed ≠ [] →
      let d := (device pf).run (.fresh pf) (es₀ ++ [.approve [] [], getSigEvent 0])
      (∃ sig, d.Offers pf sig) ∧ ((device pf).step d (getSigEvent 1)).1.Withholds pf from
    hall hashingPlatform sampleUploaded sampleUploaded_signed
  intro σ pf es₀ hstored d
  let es := es₀ ++ [.approve [] [], getSigEvent 0]
  obtain ⟨_, _, _, -, -, -, hsigned, -⟩ := step_signed pf hstored
  have htrace := (device pf).trace_append (.fresh pf) es₀ [.approve [] [], getSigEvent 0]
  rw [Machine.trace_cons, Machine.trace_cons, Machine.trace_nil] at htrace
  have hoffers := (sig_retrieved pf es htrace (by
    rintro u hu
    obtain rfl := List.mem_singleton.mp hu
    exact leavesSig_getSig pf _ (by decide))).1 _ hsigned
  refine ⟨⟨_, hoffers⟩, ?_⟩
  have hr : requestOf insGetSig d (getSigEvent 1) = some (0, 1, 0) :=
    requestOf_eq_some [] rfl hoffers.deviceInitialized
  have htakes : Step.TakesSig ((device pf).transition d (getSigEvent 1)) :=
    ⟨0, 0, _, hr, hoffers.second _ _ hr, statusOf_ok _⟩
  have hlast := (sig_retrieved pf (es ++ [getSigEvent 1]) (Machine.trace_concat _ _ _ _)
    (fun u hu => absurd hu List.not_mem_nil)).2 htakes
  rwa [Machine.run_concat] at hlast

end Sample

end LedgerArweave
