import LedgerArweave.Device.Retrieval
import LedgerArweave.Parser.Coverage

set_option relaxedAutoImplicit false
set_option autoImplicit false

/-!
# The address

`GET_ADDR` hands out the base64url text of the hash of the modulus, at once or when the user has
confirmed what `addr.c` shows of the I/O buffer; `GET_PK` hands out the modulus in two parts, and a
transaction must have it as its owner. The three paths read the key on their own, and agree.

## Main definitions

* `addrGetNumItems`, `addrGetItem` — the review of an address.
* `addressOf` — the address of the key in use.
* `Device.Confirms` — how a pending review of an address is shown and answered.

## Main results

* `step_getAddr` — the step of `GET_ADDR`.
* `keyInv_run` — on an initialized device, the slot in use holds the keys of the seed.

## Implementation notes

`pageString` is `pageStringExt` for the C string at an address.
-/

namespace LedgerArweave

open Fallible

/-! ## The review of an address -/

/-- `addr_getNumItems` -/
def addrGetNumItems : ℕ := 1

/-- `addr_getItem`, for the contents of the I/O buffer. -/
def addrGetItem (zx : ZxFormat) (ioApduBuffer : Bytes) (displayIdx : Int8) (pageIdx : ℕ) :
    Fallible ZxErr ItemOut Unit := do
  if displayIdx = 0 then
    modify fun o => { o with outKey := snprintf o.outKey o.outKey.length (ascii "Address") }
    modify fun o =>
      { o with
        outVal := (zx.pageStringExt o.outVal.length (cstr ioApduBuffer) pageIdx).1
        pageCount := (zx.pageStringExt o.outVal.length (cstr ioApduBuffer) pageIdx).2 }
  else throw .noData

/-- A page of the item. -/
def addrPage (zx : ZxFormat) (ioApduBuffer : Bytes) (keyLen valLen page : ℕ) : ItemOut :=
  ((addrGetItem zx ioApduBuffer 0 page).exec ⟨zeros keyLen, zeros valLen, 0⟩).2

/-- All pages of the item, as C strings. -/
def shownAddress (zx : ZxFormat) (ioApduBuffer : Bytes) (keyLen valLen : ℕ) : Shown :=
  let out := addrPage zx ioApduBuffer keyLen valLen 0
  ⟨cstr out.outKey, out.pageCount,
    (List.range out.pageCount).map fun page =>
      cstr (addrPage zx ioApduBuffer keyLen valLen page).outVal⟩

/-- **The review shows the C string in the I/O buffer**, if this is not empty and needs at most
255 pages.

**Proof sketch.** The pages are slices of the text. `pages_iff` says when slices can be put together
again. -/
theorem shownAddress_eq {zx : ZxFormat} (hzx : zx.Pages) {io text : Bytes} (htext : cstr io = text)
    (hne : text ≠ []) {keyLen valLen : ℕ} (hval : 2 ≤ valLen)
    (hlen : text.length ≤ 255 * (valLen - 1)) :
    let shown := shownAddress zx io keyLen valLen
    1 ≤ shown.pageCount ∧ shown.texts.flatten = text := by
  intro shown
  have hfree : 0 ∉ text := by
    rw [← htext]
    exact zero_notMem_cstr io
  have hshown : shown = ⟨cstr (snprintf (zeros keyLen) keyLen (ascii "Address")),
      sliceCount (valLen - 1) text % 256,
      (List.range (sliceCount (valLen - 1) text % 256)).map fun page =>
        cstr (slice (valLen - 1) text page)⟩ := by
    refine shown_of_pages hzx hval fun page => ?_
    rw [← htext, addrPage, addrGetItem, if_pos rfl]
    simp [exec_bind, ItemOut.showing]
  rw [hshown]
  exact (pages_iff (by omega) (.inl rfl)).mpr ⟨hne, hfree, hlen⟩

/-! ## `crypto_fillAddress` -/

/-- The address of the key in use. -/
def addressOf (sdk : Sdk) (st : CryptoStore) : Bytes :=
  b64urlText (sdk.sha256 (st.current.rsaPub.n.val.take st.current.rsaPub.size)).val

/-- An address has 43 characters. -/
theorem length_addressOf (sdk : Sdk) (st : CryptoStore) :
    (addressOf sdk st).length = addrStrLen := by
  have hhash := (sdk.sha256 (st.current.rsaPub.n.val.take st.current.rsaPub.size)).property
  rw [addressOf, length_b64urlText, hhash]
  rfl

/-- The address fills its field exactly. -/
theorem b64urlEncode_address (hash : Block 32) :
    b64urlEncode (List.replicate addrStrLen 0) 1 hash.val = (b64urlText hash.val, addrStrLen) := by
  have hlen : (b64urlText hash.val).length = addrStrLen := by
    rw [length_b64urlText, hash.property]
    rfl
  have hwrite : overwrite (List.replicate addrStrLen 0) 0 (b64urlText hash.val) =
      b64urlText hash.val := by
    rw [overwrite, List.take_zero, List.nil_append, Nat.zero_add, hlen, List.drop_replicate,
      Nat.sub_self, List.replicate_zero, List.append_nil]
  rw [b64urlEncode_eq _ one_ne_zero, List.length_replicate, hlen, if_pos le_rfl, hwrite]

/-- **`crypto_fillAddress`** hands out the address of the key in use unless the hash fails.

**Proof sketch.** The hash is the only call of the SDK, and its encoding in base64url has the 43
characters that fit. -/
theorem exec_cryptoFillAddress (sdk : Sdk) {st : CryptoStore}
    (hinit : cryptoStoreIsInitialized st = true) {bufferLen : ℕ} (hlen : ¬ bufferLen < answerLen)
    (faults : List Bool) :
    (cryptoFillAddress sdk bufferLen).exec (st.start faults) =
      (if faults.headD false then .error .unknown else .ok (addressOf sdk st),
        (st.start faults).spend) := by
  have hstore : getStore.exec (st.start faults) = (.ok st, st.start faults) := rfl
  have hkey : cryptoStoreGetPubkey st = some st.current.rsaPub := by
    rw [cryptoStoreGetPubkey, if_neg (not_not.mpr hinit)]
  rw [cryptoFillAddress, exec_bind_ok hstore, if_neg (not_not.mpr hinit), if_neg hlen, hkey]
  dsimp only
  rw [exec_bind_ok (exec_sdkCall _ _)]
  have hhead : (st.start faults).faults.headD false = faults.headD false := rfl
  rw [hhead]
  cases faults.headD false with
  | true => rfl
  | false =>
    rw [if_neg Bool.false_ne_true, if_neg Bool.false_ne_true]
    dsimp only
    rw [b64urlEncode_address, if_neg (by decide : ¬ addrStrLen = 0)]
    rfl

/-! ## The step of `GET_ADDR` -/

section Address

variable {σ : Type} (pf : Platform σ)

/-- The device that has put the address into the I/O buffer. -/
def Device.addressed (d : Device σ) : Device σ :=
  { d with
    ioApduBuffer := overwrite (zeros ioApduBufferSize) 0 (addressOf pf.sdk d.store)
    actionAddrResponseLen := addrStrLen }

/-- `app_fill_address`

**Proof sketch.** By `exec_cryptoFillAddress`, run on the store of the device. -/
theorem exec_appFillAddress {h : Handler σ} (hinit : cryptoStoreIsInitialized h.dev.store = true) :
    (appFillAddress pf).exec h =
      if h.faults.headD false then
        (.ok (.error .unknown), { h with
          dev := h.dev.setIo (zeros ioApduBufferSize)
          faults := h.faults.tail
          signed := h.signed ++ [] })
      else
        (.ok (.ok ()), { h with
          dev := h.dev.addressed pf
          faults := h.faults.tail
          signed := h.signed ++ [] }) := by
  have hrun := exec_cryptoFillAddress pf.sdk hinit
    (by decide : ¬ ioApduBufferSize - 2 < answerLen) h.faults
  rw [appFillAddress, exec_bind_ok (exec_runStore _ _)]
  dsimp only
  rw [hrun]
  cases h.faults.headD false with
  | true => rfl
  | false => rfl

/-- `handleGetAddress` on a command without data.

**Proof sketch.** By following the handler: it clears the I/O buffer, prepares the address, and
looks at the result. -/
theorem exec_handleGetAddress {h h' : Handler σ} {res : Except ZxErr Unit}
    (hlc : h.dev.ioApduBuffer.getD offsetDataLen 0 = 0)
    (hfill : (appFillAddress pf).exec { h with
      dev := { h.dev with ioApduBuffer := zeros ioApduBufferSize, actionAddrResponseLen := 0 }
      tx := 0 } = (.ok res, h')) :
    (handleGetAddress pf).exec h =
      if ¬ res.isOk ∨ h'.dev.actionAddrResponseLen = 0 then
        (.error apduCodeExecutionError, { h' with tx := 0 })
      else if h.dev.ioApduBuffer.getD offsetPayloadType 0 ≠ 0 then
        (.ok (), { h' with dev := { h'.dev with review := some .address }, asynchReply := true })
      else (.error apduCodeOk, { h' with tx := h'.dev.actionAddrResponseLen }) := by
  rw [handleGetAddress, setTx, exec_bind_ok (exec_modify _ _), exec_ioByte_bind,
    exec_throwIf_neg _ (not_not.mpr hlc), exec_ioByte_bind, zeroIo,
    exec_bind_ok (exec_modifyDevice _ _), exec_bind_ok (exec_modifyDevice _ _),
    exec_bind_ok hfill, exec_get_bind]
  dsimp only
  split_ifs <;> rfl

/-- **The step of `GET_ADDR`**, if the keys in use are set up: the address is handed out at once or
put up for review, unless the hash fails.

**Proof sketch.** The command reaches its handler with an empty payload. Preparing the address fails
only with the hash, and otherwise leaves it in the I/O buffer with its length, which is not zero. -/
theorem step_getAddr {d : Device σ} {a : Apdu} {faults : List Bool} {p1 p2 : UInt8}
    (hinit : cryptoStoreIsInitialized d.store = true)
    (hr : requestOf insGetAddr d (.apdu a none faults) = some (p1, p2, 0)) :
    let step := (device pf).step d (.apdu a none faults)
    (faults.headD false = true → ∃ io,
      step = (Device.setIo { d with actionAddrResponseLen := 0 } io,
        ⟨some (statusReply apduCodeExecutionError), none, []⟩)) ∧
    (faults.headD false = false → p1 = 0 → ∃ io,
      step = ((d.addressed pf).setIo io,
        ⟨some (addressOf pf.sdk d.store ++ statusReply apduCodeOk), none, []⟩)) ∧
    (faults.headD false = false → p1 ≠ 0 →
      step = ({ d.addressed pf with review := some .address }, .silent)) := by
  intro step
  obtain ⟨a', faults', he, hstep, hp1, -, hlc⟩ := step_requested pf hr
  obtain ⟨rfl, rfl⟩ : a = a' ∧ faults = faults' := by
    injection he with h₁ h₂ h₃
    exact ⟨h₁, h₃⟩
  have hswitch : switchIns pf insGetAddr a.bytes.length none = handleGetAddress pf := rfl
  rw [hswitch] at hstep
  let h : Handler σ := (d.receive a).start faults
  let h₁ : Handler σ := { h with
    dev := { h.dev with ioApduBuffer := zeros ioApduBufferSize, actionAddrResponseLen := 0 }
    tx := 0 }
  have hfill := exec_appFillAddress pf (h := h₁) hinit
  have hhead : h₁.faults.headD false = faults.headD false := rfl
  have htype : h.dev.ioApduBuffer.getD offsetPayloadType 0 = p1 := hp1
  rw [hhead] at hfill
  have hrefl : step = (afterDispatch ((handleGetAddress pf).exec h)).2.finish := hstep
  have hthere : ∀ h' : Handler σ, h'.dev.actionAddrResponseLen = addrStrLen →
      ¬ (¬ (Except.ok () : Except ZxErr Unit).isOk ∨ h'.dev.actionAddrResponseLen = 0) := by
    intro h' hlen
    rw [hlen]
    decide
  rw [hrefl]
  refine ⟨fun hfail => ?_, fun hok hnow => ?_, fun hok hreview => ?_⟩
  · rw [if_pos hfail] at hfill
    rw [exec_handleGetAddress pf hlc hfill, if_pos (.inl (by decide))]
    exact finish_afterDispatch_code apduCodeExecutionError rfl rfl
  · rw [if_neg (by rw [hok]; decide)] at hfill
    rw [exec_handleGetAddress pf hlc hfill, htype, if_neg (hthere _ rfl),
      if_neg (not_not.mpr hnow)]
    have hlen := length_addressOf pf.sdk d.store
    have hio : (d.addressed pf).ioApduBuffer = addressOf pf.sdk d.store ++
        (zeros ioApduBufferSize).drop addrStrLen := by
      show overwrite _ 0 _ = _
      rw [overwrite, List.take_zero, List.nil_append, Nat.zero_add, hlen]
    exact finish_afterDispatch apduCodeOk _ hio hlen.symm rfl
  · rw [if_neg (by rw [hok]; decide)] at hfill
    rw [exec_handleGetAddress pf hlc hfill, htype, if_neg (hthere _ rfl),
      if_pos hreview]
    rfl

/-! ## The keys in use -/

/-- What only a reset or the initialization of the keys changes. -/
structure Device.SameKeys (d d' : Device σ) : Prop where
  slots : d'.store.flash.slots = d.store.flash.slots
  slotInUse : d'.store.slotInUse = d.store.slotInUse
  deviceInitialized : d'.store.deviceInitialized = d.store.deviceInitialized
  seed : d'.seed = d.seed

/-- Devices with one store and one seed have the same keys. -/
theorem sameKeys_of_store {d d' : Device σ} (hstore : d'.store = d.store)
    (hseed : d'.seed = d.seed) : d.SameKeys d' := by
  refine ⟨?_, ?_, ?_, hseed⟩ <;> rw [hstore]

/-- A decision of the user does not change the seed. -/
theorem Device.Answered.seed {d : Device σ} {step : Device σ × Output} (h : d.Answered step) :
    step.1.seed = d.seed := by
  rcases h with ⟨-, rfl⟩ | ⟨answer, faults, hanswer, rfl⟩
  · rfl
  · exact (hanswer (Device.start { d with review := none } faults)).seed

/-- **The keys in use** stay the same in every step but a reset and the initialization.

**Proof sketch.** By the kind of event. A command keeps them by its frame, a chunk does not touch
the store, and an approval at most stores a signature. -/
theorem sameKeys_step (d : Device σ) {e : DeviceEvent}
    (hboot : ∀ seed faults, e ≠ .boot seed faults) (hinit : ∀ faults, e ≠ .storeInit faults) :
    d.SameKeys ((device pf).step d e).1 := by
  cases e with
  | boot seed faults => exact absurd rfl (hboot seed faults)
  | storeInit faults => exact absurd rfl (hinit faults)
  | setExpert expert => exact ⟨rfl, rfl, rfl, rfl⟩
  | apdu a pinCheck faults =>
    rcases hc : chunkOf d (.apdu a pinCheck faults) with _ | ⟨p1, payload⟩
    · have hframe := (step_other pf hc).1
      exact ⟨hframe.slots, hframe.slotInUse, hframe.deviceInitialized, hframe.seed⟩
    · obtain ⟨io, hchunk⟩ := step_chunk pf hc
      rw [hchunk]
      cases (chunkEffect pf.buffering d.txInitialized d.buffering p1 payload).result with
      | more => exact ⟨rfl, rfl, rfl, rfl⟩
      | refused code => exact ⟨rfl, rfl, rfl, rfl⟩
      | last =>
        unfold chunkStep
        dsimp only
        split <;> exact ⟨rfl, rfl, rfl, rfl⟩
  | approve salt faults =>
    have hseed := (answered_approve pf d salt faults).seed
    rcases hreview : d.review with _ | _ | _
    · refine sameKeys_of_store ?_ hseed
      simp only [device, hreview]
    · rcases signed_approve pf hreview salt faults with ⟨-, hstore⟩ | ⟨_, -, -, hstore⟩
      · exact sameKeys_of_store hstore hseed
      · refine ⟨?_, ?_, ?_, hseed⟩ <;> rw [hstore] <;> rfl
    · refine sameKeys_of_store ?_ hseed
      simp only [device, hreview]
      rfl
  | reject =>
    refine sameKeys_of_store ?_ (answered_reject pf d).seed
    simp only [device]
    split <;> rfl

/-- **The invariant of the key store** holds in every run of the device: on an initialized device,
the slot in use holds the keys of the seed.

**Proof sketch.** A reset and the initialization establish the invariant by the results on the
store; all other steps keep the keys by `sameKeys_step`. -/
theorem keyInv_run (es : List DeviceEvent) :
    let d := (device pf).run (.fresh pf) es
    KeyInv pf.sdk d.seed d.store := by
  refine Machine.invariant (G := fun _ => True)
    (I := fun d : Device σ => KeyInv pf.sdk d.seed d.store)
    ⟨flashInv_zero, fun h => absurd (show false = true from h) (by decide)⟩ ?_ (fun _ _ => trivial)
  intro d e hd _
  by_cases hboot : ∃ seed faults, e = .boot seed faults
  · obtain ⟨seed, faults, rfl⟩ := hboot
    exact (bootStore_spec hd.toFlashInv seed faults).1
  by_cases hinit : ∃ faults, e = .storeInit faults
  · obtain ⟨faults, rfl⟩ := hinit
    exact initializeStore_inv hd faults
  · obtain ⟨hslots, hslot, hdev, hseed⟩ := sameKeys_step pf d (e := e)
      (fun seed faults h => hboot ⟨seed, faults, h⟩) fun faults h => hinit ⟨faults, h⟩
    refine ⟨⟨?_, ?_⟩, ?_⟩
    · rw [hslots]
      exact hd.keys
    · rw [hslots]
      exact hd.order
    · rw [hdev, hseed, CryptoStore.HoldsKeys, CryptoStore.current, hslots, hslot]
      exact hd.current

/-- On an initialized device, the slot in use is initialized. -/
theorem isInitialized_run (es : List DeviceEvent) :
    let d := (device pf).run (.fresh pf) es
    d.store.deviceInitialized = true → cryptoStoreIsInitialized d.store = true :=
  fun hdev => ((keyInv_run pf es).current hdev).1

/-! ## A review of the address -/

/-- The review of an address: what it shows, and the answer when the user approves. -/
structure Device.Confirms (d : Device σ) (address : Bytes) : Prop where
  shows : ∀ keyLen valLen, 2 ≤ valLen →
    let shown := shownAddress pf.zx d.ioApduBuffer keyLen valLen
    1 ≤ shown.pageCount ∧ shown.texts.flatten = address
  answers : ∀ salt faults, ((device pf).step d (.approve salt faults)).2.reply =
    some (address ++ statusReply apduCodeOk)

/-- A device that reviews an address. -/
structure Device.AddressReview (d : Device σ) (address : Bytes) : Prop where
  review : d.review = some .address
  ioApduBuffer : d.ioApduBuffer = overwrite (zeros ioApduBufferSize) 0 address
  length : d.actionAddrResponseLen = address.length

/-- What is reviewed is shown and answered.

**Proof sketch.** The address is what the I/O buffer holds up to its end, and `appReplyAddress`
sends it with the status word. -/
theorem Device.AddressReview.confirms {d : Device σ} {address : Bytes} (h : d.AddressReview address)
    (hzx : pf.zx.Pages) (hfree : 0 ∉ address) (hne : address ≠ []) (hlen : address.length ≤ 255) :
    d.Confirms pf address where
  shows keyLen valLen hval := by
    refine shownAddress_eq hzx ?_ hne hval (hlen.trans (Nat.le_mul_of_pos_right 255 (by omega)))
    rw [h.ioApduBuffer]
    exact cstr_overwrite_zeros hfree
  answers salt faults := by
    have hstep : ((device pf).step d (.approve salt faults)).2.reply =
        some ((overwrite d.ioApduBuffer d.actionAddrResponseLen (be16.encode apduCodeOk)).take
          (d.actionAddrResponseLen + 2)) := by
      simp only [device, h.review]
      rfl
    have hwrite : overwrite (overwrite (zeros ioApduBufferSize) 0 address) (0 + address.length)
        (be16.encode apduCodeOk) =
          overwrite (zeros ioApduBufferSize) 0 (address ++ be16.encode apduCodeOk) :=
      overwrite_overwrite (Nat.zero_le _)
    have htake := take_overwrite (zeros ioApduBufferSize) (address ++ be16.encode apduCodeOk)
    rw [← hwrite, Nat.zero_add, List.length_append, length_be16_encode] at htake
    rw [hstep, h.ioApduBuffer, h.length, htake]
    rfl

/-- A step that is no command. -/
def Step.NoCommand (t : Step σ) : Prop := ∀ a pinCheck faults, t.event ≠ .apdu a pinCheck faults

/-- While the host waits, a review of an address stays as it is until it is closed.

**Proof sketch.** Every step without a command keeps the review as it is, or closes it. -/
theorem addressReview_run {d : Device σ} {address : Bytes} (h : d.AddressReview address)
    {es : List DeviceEvent} (hwaits : (device pf).Respects Step.NoCommand d es) :
    let d' := (device pf).run d es
    d'.review = some .address → d'.AddressReview address := by
  intro d' hreview
  have hinv : d'.review = none ∨ d'.AddressReview address := by
    refine Machine.invariant (I := fun d : Device σ => d.review = none ∨ d.AddressReview address)
      (.inr h) ?_ hwaits
    intro d e hd hno
    cases e with
    | boot seed faults => exact .inl rfl
    | storeInit faults => exact hd.imp id fun h => ⟨h.review, h.ioApduBuffer, h.length⟩
    | setExpert expert => exact hd.imp id fun h => ⟨h.review, h.ioApduBuffer, h.length⟩
    | apdu a pinCheck faults => exact absurd rfl (hno a pinCheck faults)
    | approve salt faults => exact .inl (answered_approve pf d salt faults).kept.2.2.2.1
    | reject => exact .inl (answered_reject pf d).kept.2.2.2.1
  exact hinv.resolve_left (by rw [hreview]; simp)

/-! ## The three ways the key is read -/

/-- The address of a public key. -/
def addressOfKey (sdk : Sdk) (pk : Bytes) : Bytes := b64urlText (sdk.sha256 pk).val

/-- Whatever the device hands out of the key in use or compares with it is, or belongs to, one
public key. -/
structure Device.Agrees (d : Device σ) (pk : Bytes) : Prop where
  getPk : ∃ part₀ part₁, pk = part₀ ++ part₁ ∧ part₀.length = 256 ∧ part₁.length = 256 ∧
    (∀ e p1, requestOf insGetPk d e = some (p1, 0, 0) →
      ((device pf).step d e).2.reply = some (part₀ ++ statusReply apduCodeOk)) ∧
    ∀ e p1, requestOf insGetPk d e = some (p1, 1, 0) →
      ((device pf).step d e).2.reply = some (part₁ ++ statusReply apduCodeOk)
  length : (addressOfKey pf.sdk pk).length = 43
  getAddr : ∀ a faults p2, requestOf insGetAddr d (.apdu a none faults) = some (0, p2, 0) →
    ((device pf).step d (.apdu a none faults)).2.reply =
      some (if faults.headD false then statusReply apduCodeExecutionError
        else addressOfKey pf.sdk pk ++ statusReply apduCodeOk)
  confirm : ∀ a faults p1 p2, requestOf insGetAddr d (.apdu a none faults) = some (p1, p2, 0) →
    p1 ≠ 0 →
    let step := (device pf).step d (.apdu a none faults)
    (faults.headD false = true → step.2.reply = some (statusReply apduCodeExecutionError)) ∧
    (faults.headD false = false → step.2.reply = none ∧ step.1.review = some .address ∧
      ∀ es, (device pf).Respects Step.NoCommand step.1 es →
        ((device pf).run step.1 es).review = some .address →
        ((device pf).run step.1 es).Confirms pf (addressOfKey pf.sdk pk))
  owner : ∀ m tx, tx.owner.len = rsaModulusLen →
    (validateTx m d.store tx = .ok () ↔ m.deref tx.owner = pk)

/-- The public key is handed out in halves.

**Proof sketch.** By the step of `GET_PK`; all its conditions hold. -/
theorem reply_getPk {d : Device σ} {e : DeviceEvent} {p1 index : UInt8}
    (hinit : cryptoStoreIsInitialized d.store = true) (hindex : index.toNat ≤ 1)
    (hr : requestOf insGetPk d e = some (p1, index, 0)) :
    ((device pf).step d e).2.reply =
      some (halve d.store.current.rsaPub.n index.toNat ++ statusReply apduCodeOk) := by
  obtain ⟨io, hstep⟩ := (step_getPk pf hr).2 rfl
  rw [hstep, cryptoGetpubkeyPart_eq hindex hinit (by decide)]
  rfl

/-- **The three ways agree**, if the slot in use is initialized and its modulus has 512 bytes.

**Proof sketch.** The modulus has 512 bytes, so its halves are all of it, and the address is the
hash of all of it. `reply_getPk` and `step_getAddr` say what is handed out,
`Device.AddressReview.confirms` what is shown, and the owner is compared with the same modulus. -/
theorem agrees_of_store (hzx : pf.zx.Pages) {d : Device σ}
    (hinit : cryptoStoreIsInitialized d.store = true)
    (hsize : d.store.current.rsaPub.size = rsaModulusLen) :
    d.Agrees pf d.store.current.rsaPub.n.val := by
  let n := d.store.current.rsaPub.n
  have haddr : addressOf pf.sdk d.store = addressOfKey pf.sdk n.val := by
    have htake : n.val.take rsaModulusLen = n.val := List.take_of_length_le n.property.le
    rw [addressOf, hsize, htake, addressOfKey]
  have hlen : (addressOfKey pf.sdk n.val).length = 43 := by
    rw [← haddr]
    exact length_addressOf pf.sdk d.store
  refine ⟨⟨halve n 0, halve n 1, (halve_append n).symm, length_halve n (Nat.zero_le 1),
    length_halve n le_rfl, fun _ _ => reply_getPk pf hinit (Nat.zero_le 1),
    fun _ _ => reply_getPk pf hinit le_rfl⟩, hlen, ?_, ?_, ?_⟩
  · intro a faults p2 hr
    obtain ⟨hfail, hnow, -⟩ := step_getAddr pf hinit hr
    cases hhead : faults.headD false with
    | true =>
      obtain ⟨io, hstep⟩ := hfail hhead
      rw [hstep]
      rfl
    | false =>
      obtain ⟨io, hstep⟩ := hnow hhead rfl
      rw [hstep, haddr]
      rfl
  · intro a faults p1 p2 hr hp1
    obtain ⟨hfail, -, hreview⟩ := step_getAddr pf hinit hr
    refine ⟨fun hhead => ?_, fun hhead => ?_⟩
    · obtain ⟨io, hstep⟩ := hfail hhead
      rw [hstep]
    · rw [hreview hhead hp1]
      refine ⟨rfl, rfl, fun es hwaits hpending => ?_⟩
      have hopen : Device.AddressReview { d.addressed pf with review := some .address }
          (addressOfKey pf.sdk n.val) :=
        ⟨rfl, by rw [← haddr]; rfl, by rw [hlen]; rfl⟩
      refine (addressReview_run pf hopen hwaits hpending).confirms pf hzx
        (zero_notMem_b64urlText _) ?_ (by omega)
      exact List.ne_nil_of_length_pos (by omega)
  · intro m tx howner
    rw [validateTx_eq_ok howner]
    exact and_iff_right hinit

end Address

end LedgerArweave
