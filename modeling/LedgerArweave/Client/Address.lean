import LedgerArweave.Client.Sign
import LedgerArweave.Device.Address

set_option relaxedAutoImplicit false
set_option autoImplicit false

/-!
# The client's address

`ArweaveApp.getAddress` of the JavaScript client: it asks for the address and for both parts of the
public key, and makes the owner of a transaction from these. What it returns together belongs
together, and the device accepts the owner.

## Main definitions

* `getAddressHash`, `getPubKeyPart`, `getAddress` — the client.

## Main results

* `address_agrees` — address, public key and owner agree.

## Implementation notes

The text `toString` makes of an address is given by its bytes. `Arweave.utils.bufferTob64Url`
comes from the `arweave` package; it is a parameter, of which only that the package can undo it is
used.
-/

namespace LedgerArweave

open Fallible

section Client

variable {σ : Type} (pf : Platform σ) (surroundings : ℕ → Choice)

/-! ## The client -/

/-- `processGetAddrResponse` -/
def processGetAddrResponse (response : Bytes) : Reply :=
  ⟨some (response.take (response.length - 2)), statusOf response,
    errorCodeToString (statusOf response)⟩

/-- `getAddressHash` -/
def getAddressHash : ClientM σ Reply := do
  let settled ← send pf surroundings insGetAddr 0 0 [] [0x9000]
  return thenReply processGetAddrResponse settled

/-- `getPubKeyPart` -/
def getPubKeyPart (partnum : ℕ) : ClientM σ Reply := do
  let settled ← send pf surroundings insGetPk 0 (if partnum = 0 then 0 else 1) [] [0x9000]
  return thenReply processGetRSAResponse settled

/-- What `getAddress` resolves to. -/
structure AddressResult where
  address : Option Bytes
  pubkey : Option Bytes
  owner : Option String
  returnCode : Option ℕ
  errorMessage : String

/-- A reply that ends `getAddress` early. -/
def Reply.noAddress (r : Reply) : AddressResult := ⟨none, none, none, r.returnCode, r.errorMessage⟩

/-- `getAddress` -/
def getAddress (bufferTob64Url : Bytes → String) : ClientM σ AddressResult := do
  let req1 ← getAddressHash pf surroundings
  if req1.returnCode ≠ some 0x9000 then return req1.noAddress
  else
    let req2 ← getPubKeyPart pf surroundings 0
    if req2.returnCode ≠ some 0x9000 then return req2.noAddress
    else
      let req3 ← getPubKeyPart pf surroundings 1
      if req3.returnCode ≠ some 0x9000 then return req3.noAddress
      else
        let pk := req2.output.getD [] ++ req3.output.getD []
        return { address := req1.output
                 pubkey := some pk
                 owner := some (bufferTob64Url pk)
                 returnCode := some 0x9000
                 errorMessage := errorCodeToString (some 0x9000) }

/-! ## One request -/

/-- A request without data. -/
theorem run_send (w : World σ) (ins p1 p2 : UInt8) (statusList : List ℕ) :
    let x := exchange pf (surroundings w.sent) (command ins p1 p2 [] (by decide)) w.dev
    (send pf surroundings ins p1 p2 [] statusList).run w =
      (settle statusList x.response, w.after x) := by
  unfold send
  rw [dif_pos (by decide)]
  rfl

/-- What a request for an output has led to: the keys stay as they are, a success carries the
output, and without a refusal or a failing call it is one. -/
structure Asked (w : World σ) (output : Bytes) (run : Reply × World σ) : Prop where
  store : run.2.dev.store = w.dev.store
  answer : run.1.returnCode = some 0x9000 → run.1.output = some output
  friendly : (surroundings w.sent).refusal = none → (surroundings w.sent).faults = [] →
    run.1.returnCode = some 0x9000

/-- How a device answers a command that reaches its handler: the keys stay as they are, a success
carries the output, and without failing calls it is one. -/
structure Serves (onFulfilled : Bytes → Reply) (output : Bytes) (d : Device σ) (c : Choice)
    (x : Exchanged σ) : Prop where
  store : x.dev.store = d.store
  answer : statusOf x.response = apduCodeOk → (onFulfilled x.response).output = some output
  friendly : c.faults = [] → statusOf x.response = apduCodeOk

/-- A request asks for what the device hands out.

**Proof sketch.** If the device processes the command, its answer is what it serves. If it refuses,
the response is an error and the device keeps its store. -/
theorem asked_of_serves {w : World σ} {ins p1 p2 : UInt8} (hins : ins ∈ guardedIns)
    (hinit : w.dev.store.deviceInitialized = true) {onFulfilled : Bytes → Reply} {output : Bytes}
    (hcode : ∀ response, (onFulfilled response).returnCode = statusOf response)
    (hserves : ∀ c, Processed c w.dev → Serves onFulfilled output w.dev c
      (exchange pf c (command ins p1 p2 [] (by decide)) w.dev)) :
    Asked surroundings w output ((do
      let settled ← send pf surroundings ins p1 p2 [] [0x9000]
      return thenReply onFulfilled settled : ClientM σ Reply).run w) := by
  let x := exchange pf (surroundings w.sent) (command ins p1 p2 [] (by decide)) w.dev
  have hrun : (do
      let settled ← send pf surroundings ins p1 p2 [] [0x9000]
      return thenReply onFulfilled settled : ClientM σ Reply).run w =
        (thenReply onFulfilled (settle [0x9000] x.response), w.after x) := by
    rw [StateT.run_bind, run_send]
    rfl
  have hreturn : (thenReply onFulfilled (settle [0x9000] x.response)).returnCode =
      statusOf x.response := returnCode_thenReply hcode _ _
  rw [hrun]
  by_cases hproc : Processed (surroundings w.sent) w.dev
  · have hx := hserves _ hproc
    refine ⟨hx.store, fun hok => ?_, fun _ hfaults => hreturn.trans (hx.friendly hfaults)⟩
    have hstatus : statusOf x.response = apduCodeOk := hreturn.symm.trans hok
    rw [thenReply_ok _ _ (by simp) hstatus]
    exact hx.answer hstatus
  · obtain ⟨io, response, hne, hx⟩ := exchange_refused pf ins p1 p2 hins hproc
      (by decide : ([] : Bytes).length < 256)
    have hx' : x = ⟨w.dev.setIo io, response, []⟩ := hx
    refine ⟨?_, fun hok => ?_, fun hrefusal _ => absurd ⟨hrefusal, hinit⟩ hproc⟩
    · rw [hx']
      rfl
    · have hstatus : statusOf x.response = apduCodeOk := hreturn.symm.trans hok
      rw [hx'] at hstatus
      exact absurd hstatus hne

/-- A command other than `GET_SIG` that is answered at once leaves the keys as they are.

**Proof sketch.** The command is answered without a review, so the exchange is one step. A step that
is no `GET_SIG` does not touch the store. -/
theorem serves_of_reply {c : Choice} {d : Device σ} {ins p1 p2 : UInt8} (hins : ins ≠ insGetSig)
    {onFulfilled : Bytes → Reply} {output response : Bytes}
    (hreply : ((device pf).step d (.apdu (command ins p1 p2 [] (by decide)) c.refusal
      c.faults)).2.reply = some response)
    (hanswer : statusOf response = apduCodeOk → (onFulfilled response).output = some output)
    (hfriendly : c.faults = [] → statusOf response = apduCodeOk) :
    Serves onFulfilled output d c (exchange pf c (command ins p1 p2 [] (by decide)) d) := by
  rcases hstep : (device pf).step d (.apdu (command ins p1 p2 [] (by decide)) c.refusal c.faults)
    with ⟨d', o⟩
  rw [hstep] at hreply
  rw [exchange_of_reply pf hstep hreply]
  have hr : requestOf insGetSig d (.apdu (command ins p1 p2 [] (by decide)) c.refusal c.faults) =
      none := by
    cases c.refusal with
    | some e => rfl
    | none => exact if_neg fun h => hins h.2.2
  have hstore := store_other pf hr
  rw [hstep] at hstore
  exact ⟨hstore, hanswer, hfriendly⟩

/-- A world whose device can hand out a key of 512 bytes. -/
structure World.HasKey (w : World σ) : Prop where
  deviceInitialized : w.dev.store.deviceInitialized = true
  initialized : cryptoStoreIsInitialized w.dev.store = true
  size : w.dev.store.current.rsaPub.size = rsaModulusLen

variable {w : World σ}

/-- Having a key depends on the store only. -/
theorem World.HasKey.of_store {w' : World σ} (hw : w.HasKey) (h : w'.dev.store = w.dev.store) :
    w'.HasKey := by
  refine ⟨?_, ?_, ?_⟩ <;> rw [h]
  · exact hw.deviceInitialized
  · exact hw.initialized
  · exact hw.size

/-- `getPubKeyPart` asks for a part of the modulus.

**Proof sketch.** By the step of `GET_PK`, which hands out this half of the modulus. -/
theorem asked_getPubKeyPart (hw : w.HasKey) {partnum : ℕ} (hpart : partnum ≤ 1) :
    Asked surroundings w (halve w.dev.store.current.rsaPub.n partnum)
      ((getPubKeyPart pf surroundings partnum).run w) := by
  refine asked_of_serves pf surroundings (by decide) hw.deviceInitialized (fun _ => rfl) ?_
  rintro c ⟨hrefusal, hinit⟩
  have hp2 : (if partnum = 0 then 0 else 1 : UInt8).toNat = partnum := by
    obtain rfl | rfl : partnum = 0 ∨ partnum = 1 := by omega
    · rfl
    · rfl
  have hreply : ((device pf).step w.dev (.apdu (command insGetPk 0 (if partnum = 0 then 0 else 1) []
      (by decide)) c.refusal c.faults)).2.reply =
        some (halve w.dev.store.current.rsaPub.n partnum ++ statusReply apduCodeOk) := by
    have hr := requestOf_eq_some (a := command insGetPk 0 (if partnum = 0 then 0 else 1) []
      (by decide)) c.faults rfl hinit
    rw [hrefusal, reply_getPk pf hw.initialized (hp2.trans_le hpart) hr, hp2]
  refine serves_of_reply pf (by decide) hreply (fun _ => ?_) fun _ => statusOf_ok _
  exact congrArg some (List.take_left' (length_halve _ hpart))

/-- What `processGetAddrResponse` takes for the address. -/
theorem output_processGetAddrResponse (address : Bytes) (code : ℕ) :
    (processGetAddrResponse (address ++ statusReply code)).output = some address := by
  have hlen : (address ++ statusReply code).length - 2 = address.length := by
    rw [List.length_append]
    rfl
  rw [processGetAddrResponse, hlen, List.take_left]

/-- `getAddressHash` asks for the address.

**Proof sketch.** `agrees_of_store` says what `GET_ADDR` hands out, and that it fails only with the
hash. -/
theorem asked_getAddressHash (hzx : pf.zx.Pages) (hw : w.HasKey) :
    Asked surroundings w (addressOfKey pf.sdk w.dev.store.current.rsaPub.n.val)
      ((getAddressHash pf surroundings).run w) := by
  refine asked_of_serves pf surroundings (by decide) hw.deviceInitialized (fun _ => rfl) ?_
  rintro c ⟨hrefusal, hinit⟩
  have hagrees := agrees_of_store pf hzx hw.initialized hw.size
  have hreply := hagrees.getAddr (command insGetAddr 0 0 [] (by decide)) c.faults 0
    (requestOf_eq_some c.faults rfl hinit)
  rw [← hrefusal] at hreply
  refine serves_of_reply pf (by decide) hreply ?_ ?_
  · cases c.faults.headD false with
    | true => exact fun hok => absurd hok (statusOf_code_ne [] (.inr (.inr (.inr (.inl rfl)))))
    | false => exact fun _ => output_processGetAddrResponse _ _
  · intro hfaults
    rw [hfaults]
    exact statusOf_ok _

/-! ## The whole -/

/-- The three parts of `getAddress`.

**Proof sketch.** By reading the three attempts one after another. -/
theorem run_getAddress (bufferTob64Url : Bytes → String) (w : World σ) :
    let hash := (getAddressHash pf surroundings).run w
    let first := (getPubKeyPart pf surroundings 0).run hash.2
    let second := (getPubKeyPart pf surroundings 1).run first.2
    let pk := first.1.output.getD [] ++ second.1.output.getD []
    (getAddress pf surroundings bufferTob64Url).run w =
      if hash.1.returnCode ≠ some 0x9000 then (hash.1.noAddress, hash.2)
      else if first.1.returnCode ≠ some 0x9000 then (first.1.noAddress, first.2)
      else if second.1.returnCode ≠ some 0x9000 then (second.1.noAddress, second.2)
      else
        (⟨hash.1.output, some pk, some (bufferTob64Url pk), some 0x9000,
          errorCodeToString (some 0x9000)⟩,
          second.2) := by
  intro hash first second pk
  rw [getAddress, run_attempt, run_attempt, run_attempt]
  rfl

/-- What `getAddress` has led to: the keys stay as they are, a success carries the address of the
public key, the public key, and the owner made from it, and without a refusal or a failing call it
is one. -/
structure GotAddress (bufferTob64Url : Bytes → String) (w : World σ) (pk : Bytes)
    (run : AddressResult × World σ) : Prop where
  store : run.2.dev.store = w.dev.store
  answer : run.1.returnCode = some 0x9000 →
    run.1.pubkey = some pk ∧ run.1.address = some (addressOfKey pf.sdk pk) ∧
      run.1.owner = some (bufferTob64Url pk)
  friendly : (∀ i, (surroundings i).refusal = none ∧ (surroundings i).faults = []) →
    run.1.returnCode = some 0x9000

/-- **`getAddress`** on a device that can hand out a key of 512 bytes.

**Proof sketch.** Each part asks for its value and leaves the store as it is, so that the next part
meets the same keys. The two halves make up the modulus. -/
theorem gotAddress (hzx : pf.zx.Pages) (hw : w.HasKey) (bufferTob64Url : Bytes → String) :
    GotAddress pf surroundings bufferTob64Url w w.dev.store.current.rsaPub.n.val
      ((getAddress pf surroundings bufferTob64Url).run w) := by
  rw [run_getAddress]
  have hhash := asked_getAddressHash pf surroundings hzx hw
  generalize StateT.run (getAddressHash pf surroundings) w = hash at hhash ⊢
  have hw₁ : hash.2.HasKey := hw.of_store hhash.store
  have hfirst := asked_getPubKeyPart pf surroundings hw₁ (Nat.zero_le 1)
  generalize StateT.run (getPubKeyPart pf surroundings 0) hash.2 = first at hfirst ⊢
  have hsecond := asked_getPubKeyPart pf surroundings (hw₁.of_store hfirst.store) le_rfl
  generalize StateT.run (getPubKeyPart pf surroundings 1) first.2 = second at hsecond ⊢
  have hstore₁ := hfirst.store.trans hhash.store
  refine ⟨?_, ?_, fun hfriendly => ?_⟩
  · split_ifs
    · exact hhash.store
    · exact hstore₁
    · exact hsecond.store.trans hstore₁
    · exact hsecond.store.trans hstore₁
  · intro hok
    split_ifs at hok ⊢ with hno₀ hno₁ hno₂
    · exact absurd hok hno₀
    · exact absurd hok hno₁
    · exact absurd hok hno₂
    · have h₀ := hhash.answer (not_not.mp hno₀)
      have h₁ := hfirst.answer (not_not.mp hno₁)
      have h₂ := hsecond.answer (not_not.mp hno₂)
      rw [hhash.store] at h₁
      rw [hstore₁] at h₂
      have hpk : first.1.output.getD [] ++ second.1.output.getD [] =
          w.dev.store.current.rsaPub.n.val := by
        rw [h₁, h₂]
        exact halve_append _
      exact ⟨congrArg some hpk, h₀, congrArg (fun pk => some (bufferTob64Url pk)) hpk⟩
  · have hcalm (i : ℕ) := hfriendly i
    rw [if_neg (not_not.mpr (hhash.friendly (hcalm _).1 (hcalm _).2)),
      if_neg (not_not.mpr (hfirst.friendly (hcalm _).1 (hcalm _).2)),
      if_neg (not_not.mpr (hsecond.friendly (hcalm _).1 (hcalm _).2))]

/-- **Address, public key and owner agree**, in every state an initialized device reaches, if the
modulus in use has 512 bytes: what `GET_PK` and `GET_ADDR` hand out, what the review of the address
shows and what the owner of a transaction is compared with belongs to one public key. So does what
`getAddress` returns, whatever happens between its requests, and the device accepts its owner.

**Proof sketch.** An initialized device has an initialized slot in use, by the invariant of the key
store. Then the ways of the device agree by `agrees_of_store`, and the client gets the same by
`gotAddress`; neither changes the store. -/
theorem address_agrees (hzx : pf.zx.Pages) {bufferTob64Url : Bytes → String}
    {b64UrlToBuffer : String → Bytes}
    (hb64 : ∀ buffer, b64UrlToBuffer (bufferTob64Url buffer) = buffer) (es : List DeviceEvent) :
    let d := (device pf).run (.fresh pf) es
    d.store.deviceInitialized = true → d.store.current.rsaPub.size = rsaModulusLen →
    ∃ pk, d.Agrees pf pk ∧ ∀ surroundings sent stored,
      let run := (getAddress pf surroundings bufferTob64Url).run ⟨d, sent, stored⟩
      GotAddress pf surroundings bufferTob64Url ⟨d, sent, stored⟩ pk run ∧
        ∀ m tx, tx.owner.len = rsaModulusLen →
          m.deref tx.owner = b64UrlToBuffer (bufferTob64Url pk) →
          validateTx m run.2.dev.store tx = .ok () := by
  intro d hdev hsize
  have hinit : cryptoStoreIsInitialized d.store = true := isInitialized_run pf es hdev
  have hagrees := agrees_of_store pf hzx hinit hsize
  refine ⟨_, hagrees, fun surroundings sent stored => ?_⟩
  have hgot := gotAddress pf surroundings hzx
    (⟨hdev, hinit, hsize⟩ : World.HasKey ⟨d, sent, stored⟩) bufferTob64Url
  refine ⟨hgot, fun m tx hlen howner => ?_⟩
  rw [hb64] at howner
  rw [hgot.store]
  exact (hagrees.owner m tx hlen).mpr howner

end Client

/-! ## A sample run -/

section Sample

/-- The text of a buffer. -/
def sampleTob64Url (buffer : Bytes) : String := asciiText (b64urlText buffer)

/-- The buffer of a text. -/
def sampleToBuffer (text : String) : Bytes := b64urlDecode (ascii text)

/-- ASCII bytes are read back from their text. -/
theorem ascii_asciiText {text : Bytes} (h : ∀ c ∈ text, c.toNat < 128) :
    ascii (asciiText text) = text := by
  have hchar : ∀ n < 128, UInt8.ofNat (Char.ofNat (n % 128)).toNat = UInt8.ofNat n := by decide
  have hmap : ascii (asciiText text) =
      text.map fun c => UInt8.ofNat (Char.ofNat (c.toNat % 128)).toNat := by
    rw [ascii, asciiText, String.toList_ofList, List.map_map]
    rfl
  rw [hmap]
  refine (List.map_congr_left fun c hc => ?_).trans (List.map_id text)
  rw [hchar _ (h c hc), UInt8.ofNat_toNat]
  rfl

/-- The sample decoder undoes the sample encoder. -/
theorem sampleToBuffer_sampleTob64Url (buffer : Bytes) :
    sampleToBuffer (sampleTob64Url buffer) = buffer := by
  have hascii : ∀ i : Fin 64, (b64urlChar i.val).toNat < 128 := by decide +kernel
  rw [sampleToBuffer, sampleTob64Url, ascii_asciiText, b64urlDecode_b64urlText]
  intro c hc
  obtain ⟨n, hn, rfl⟩ := List.mem_map.mp hc
  exact hascii ⟨n, Base64.lt_of_mem_encode hn⟩

/-- The sample device hands out its key, and `getAddress` succeeds. -/
theorem address_agrees_sample :
    ∃ pk, Device.Agrees samplePlatform
        ((device samplePlatform).run (.fresh samplePlatform) sampleSetup) pk ∧
      ((getAddress samplePlatform (fun _ => ⟨none, [], none⟩) sampleTob64Url).run
        ⟨(device samplePlatform).run (.fresh samplePlatform) sampleSetup, 0, []⟩).1.pubkey =
          some pk := by
  have hagree := address_agrees samplePlatform sampleFormat_pages sampleToBuffer_sampleTob64Url
    sampleSetup (by decide +kernel) (by decide +kernel)
  generalize (device samplePlatform).run (.fresh samplePlatform) sampleSetup = d at hagree ⊢
  obtain ⟨pk, hagrees, hget⟩ := hagree
  obtain ⟨hgot, -⟩ := hget (fun _ => ⟨none, [], none⟩) 0 []
  exact ⟨pk, hagrees, (hgot.answer (hgot.friendly fun _ => ⟨rfl, rfl⟩)).1⟩

end Sample

end LedgerArweave
