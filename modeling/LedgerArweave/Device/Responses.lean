import LedgerArweave.Device.Retrieval
import LedgerArweave.Device.Address

set_option relaxedAutoImplicit false
set_option autoImplicit false

/-!
# Responses

All commands and all answers after a review go through one buffer of 260 bytes, in which a reply
is put together from its beginning and ends with a status word. Nothing is written behind the
buffer, nothing is sent from behind it, and the host gets one response for every command: at once,
or when the user has decided on the review that the command has opened.

## Main definitions

* `Device.IoOk` — the buffer has its size.
* `IsResponse` — what a response looks like.
* `Step.replied`, `Step.isCommand`, `Step.abandons` — what a step adds to the account.

## Main results

* `responses_run` — the buffer and the responses in every run.
* `replies_matched` — every run has as many responses as commands, except for a review that is
  pending and those that have been abandoned.
-/

namespace LedgerArweave

open Fallible

section Responses

variable {σ : Type}

/-! ## Status words -/

/-- The values of a status word: `0x6...` and `0x9...`. -/
def IsStatus (code : ℕ) : Prop := code % 65536 / 4096 = 6 ∨ code % 65536 / 4096 = 9

/-- Whether a number is a status word can be evaluated. -/
instance (code : ℕ) : Decidable (IsStatus code) := inferInstanceAs (Decidable (_ ∨ _))

/-- The mask of `CATCH_OTHER` looks at the highest four bits. -/
theorem and_mask (e : ℕ) : (e &&& 0xF000) / 4096 = e / 4096 % 16 := by
  have hshift := Nat.shiftRight_and_distrib (a := e) (b := 0xF000) (i := 12)
  rw [Nat.shiftRight_eq_div_pow, Nat.shiftRight_eq_div_pow, Nat.shiftRight_eq_div_pow] at hshift
  exact hshift.trans (Nat.and_two_pow_sub_one_eq_mod _ 4)

/-- Whatever has been thrown, the host gets a status word.

**Proof sketch.** A code of class 6 or 9 is sent as it is. Of any other one, eleven bits are put
behind `0x6800`, which is of class 6. -/
theorem isStatus_statusWord (e : ℕ) : IsStatus (statusWord e) := by
  have hmask := and_mask e
  unfold statusWord IsStatus
  split_ifs with h
  · rcases h with h | h
    · rw [h] at hmask
      omega
    · rw [h] at hmask
      have hok : apduCodeOk = 36864 := rfl
      omega
  · have hlow : e &&& 0x7FF = e % 2 ^ 11 := Nat.and_two_pow_sub_one_eq_mod e 11
    have hor := Nat.two_pow_add_eq_or_of_lt (Nat.mod_lt e (by decide : 0 < 2 ^ 11)) 13
    rw [hlow, show 0x6800 = 2 ^ 11 * 13 from rfl, ← hor]
    omega

/-- A response: up to 256 bytes and a status word. -/
structure IsResponse (r : Bytes) : Prop where
  nonempty : 2 ≤ r.length
  short : r.length ≤ rsaModulusHalve + 2
  status : ∃ code, statusOf r = some code ∧ IsStatus code

/-! ## The buffer -/

/-- The I/O buffer has its size, and the address prepared in it has the length of an address. -/
structure Device.IoOk (d : Device σ) : Prop where
  buffer : d.ioApduBuffer.length = ioApduBufferSize
  address : d.actionAddrResponseLen ≤ addrStrLen

/-- A write inside the buffer. -/
theorem Device.IoOk.write {d : Device σ} (h : d.IoOk) {pos : ℕ} {w : Bytes}
    (hw : pos + w.length ≤ ioApduBufferSize) : (d.setIo (overwrite d.ioApduBuffer pos w)).IoOk where
  buffer := (length_overwrite (by rw [h.buffer]; exact hw)).trans h.buffer
  address := h.address

/-- The cleared buffer has the size. -/
theorem Device.IoOk.zeros {d : Device σ} (h : d.IoOk) :
    (d.setIo (zeros ioApduBufferSize)).IoOk where
  buffer := List.length_replicate
  address := h.address

/-- What has been sent: a response from inside the buffer. -/
structure Handler.Sent (review : Option Review) (h : Handler σ) : Prop where
  ioOk : h.dev.IoOk
  asynchReply : h.asynchReply = false
  review : h.dev.review = review
  response : IsResponse (h.dev.ioApduBuffer.take h.tx)

/-- `set_code` behind up to 256 bytes completes a response.

**Proof sketch.** The code is written behind the offset, which is at most 256, so it is inside the
buffer and at the end of what is sent. -/
theorem sent_replyCode {h : Handler σ} {review : Option Review} {offset code : ℕ}
    (hio : h.dev.IoOk) (hasynch : h.asynchReply = false) (hreview : h.dev.review = review)
    (hoffset : offset ≤ rsaModulusHalve) (hcode : IsStatus code) :
    Ensures (replyCode offset code) h fun _ h' => h'.Sent review := by
  have hcodeLen : (be16.encode code).length = 2 := length_be16_encode code
  have hsize : ioApduBufferSize = 260 := rfl
  have hhalve : rsaModulusHalve = 256 := rfl
  have hlen := hio.buffer
  have htake : (overwrite h.dev.ioApduBuffer offset (be16.encode code)).take (offset + 2) =
      h.dev.ioApduBuffer.take offset ++ be16.encode code := by
    have hfront : (h.dev.ioApduBuffer.take offset ++ be16.encode code).length = offset + 2 := by
      rw [List.length_append, List.length_take_of_le (by omega), hcodeLen]
    rw [overwrite, ← hfront, List.take_left]
  have hrun : (replyCode offset code).exec h = (.ok (), { h with
      dev := h.dev.setIo (overwrite h.dev.ioApduBuffer offset (be16.encode code))
      tx := offset + 2 }) := rfl
  unfold Ensures
  rw [hrun]
  refine ⟨hio.write (by omega), hasynch, hreview, ?_⟩
  show IsResponse ((overwrite h.dev.ioApduBuffer offset (be16.encode code)).take (offset + 2))
  rw [htake]
  constructor
  · rw [List.length_append, hcodeLen]
    omega
  · rw [List.length_append, List.length_take_of_le (by omega), hcodeLen]
    omega
  · refine ⟨_, statusOf_append _ _, ?_⟩
    unfold IsStatus at hcode ⊢
    rwa [Nat.mod_mod]

/-! ## Commands -/

/-- Nothing has been put into the reply, and the review is the given one. -/
structure Handler.Ready (review : Option Review) (h : Handler σ) : Prop where
  ioOk : h.dev.IoOk
  asynchReply : h.asynchReply = false
  review : h.dev.review = review
  tx : h.tx = 0

/-- How a command ends: a code is thrown when up to 256 bytes are in the reply, or a review has
been opened. -/
def Answers (review : Option Review) : Except ℕ Unit → Handler σ → Prop
  | .error _, h =>
    h.dev.IoOk ∧ h.asynchReply = false ∧ h.dev.review = review ∧ h.tx ≤ rsaModulusHalve
  | .ok (), h => h.dev.IoOk ∧ h.asynchReply = true ∧ h.dev.review.isSome = true

/-- What has to do with the reply is the same. -/
structure Handler.SameReply (h h' : Handler σ) : Prop where
  ioApduBuffer : h'.dev.ioApduBuffer = h.dev.ioApduBuffer
  actionAddrResponseLen : h'.dev.actionAddrResponseLen = h.dev.actionAddrResponseLen
  review : h'.dev.review = h.dev.review
  asynchReply : h'.asynchReply = h.asynchReply
  tx : h'.tx = h.tx

/-- A sequence keeps the response as it is if its parts do. -/
instance : IsPreorder (Handler σ) Handler.SameReply where
  refl _ := ⟨rfl, rfl, rfl, rfl, rfl⟩
  trans _ _ _ h h' := ⟨h'.ioApduBuffer.trans h.ioApduBuffer,
    h'.actionAddrResponseLen.trans h.actionAddrResponseLen, h'.review.trans h.review,
    h'.asynchReply.trans h.asynchReply, h'.tx.trans h.tx⟩

section Commands

variable {review : Option Review} {h : Handler σ} {α : Type} {p : HandlerM σ α}
  {f : α → HandlerM σ Unit}

/-- A handler that has replied nothing is as ready as before. -/
theorem Handler.Ready.of_same {h' : Handler σ} (h₀ : h.Ready review) (hsame : h.SameReply h') :
    h'.Ready review where
  ioOk := ⟨by rw [hsame.ioApduBuffer]; exact h₀.ioOk.buffer,
    by rw [hsame.actionAddrResponseLen]; exact h₀.ioOk.address⟩
  asynchReply := hsame.asynchReply.trans h₀.asynchReply
  review := hsame.review.trans h₀.review
  tx := hsame.tx.trans h₀.tx

/-- A code may be thrown when nothing has been put into the reply. -/
theorem Handler.Ready.answers (h₀ : h.Ready review) (code : ℕ) : Answers review (.error code) h :=
  ⟨h₀.ioOk, h₀.asynchReply, h₀.review, by rw [h₀.tx]; exact Nat.zero_le _⟩

/-- A command begins with what puts nothing into the reply. -/
theorem answers_bind_of_ready (hp : Ensures p h fun _ h' => h'.Ready review)
    (hf : ∀ a h', h'.Ready review → Ensures (f a) h' (Answers review)) :
    Ensures (p >>= f) h (Answers review) := hp.bind hf fun e _ h₁ => h₁.answers e

/-- A command begins with what has nothing to do with the reply. -/
theorem answers_bind (hp : Within Handler.SameReply p) (h₀ : h.Ready review)
    (hf : ∀ a h', h'.Ready review → Ensures (f a) h' (Answers review)) :
    Ensures (p >>= f) h (Answers review) :=
  answers_bind_of_ready ((hp.ensures h).mono fun _ _ hsame => h₀.of_same hsame) hf

/-- A check replies nothing. -/
theorem sameReply_throwIf (condition : Prop) [Decidable condition] (code : ℕ) :
    Within Handler.SameReply (throwIf condition code : HandlerM σ Unit) :=
  Within.ite (within_throw _) (within_pure _)

/-- Reading a byte replies nothing. -/
theorem sameReply_ioByte (i : ℕ) : Within Handler.SameReply (ioByte i : HandlerM σ UInt8) :=
  within_get.bind fun _ => within_pure _

/-- Reading bytes replies nothing. -/
theorem sameReply_ioBytes (i n : ℕ) :
    Within Handler.SameReply (ioBytes i n : HandlerM σ Bytes) :=
  within_get.bind fun _ => within_pure _

/-- Checking the PIN replies nothing. -/
theorem sameReply_checkPinValidated (pinCheck : Option ErrorCode) :
    Within Handler.SameReply (checkPinValidated pinCheck : HandlerM σ Unit) := by
  cases pinCheck with
  | none => exact within_pure _
  | some e => exact within_throw _

/-- What the store does replies nothing. -/
theorem sameReply_runStore (q : StoreM α) :
    Within Handler.SameReply (runStore q : HandlerM σ (Except ZxErr α)) :=
  fun _ => ⟨rfl, rfl, rfl, rfl, rfl⟩

variable (pf : Platform σ)

/-- Appending a payload replies nothing. -/
theorem sameReply_appendPayload (rx : ℕ) : Within Handler.SameReply (appendPayload pf rx) := by
  refine (sameReply_ioBytes _ _).bind fun bytes => Within.bind ?_ fun added => ?_
  · exact within_get.bind fun _ => Within.bind (fun _ => ⟨rfl, rfl, rfl, rfl, rfl⟩) fun _ =>
      within_pure _
  · exact Within.ite (Within.bind (fun _ => ⟨rfl, rfl, rfl, rfl, rfl⟩) fun _ => within_throw _)
      (within_pure _)

/-- Processing a chunk replies nothing.

**Proof sketch.** The checks before the switch and each of its branches stay within `SameReply`; so
do their sequences. -/
theorem sameReply_processChunk (rx : ℕ) : Within Handler.SameReply (processChunk pf rx) := by
  refine (sameReply_ioByte _).bind fun payloadType => (sameReply_throwIf _ _).bind fun _ => ?_
  refine (sameReply_ioByte _).bind fun p2 => (sameReply_throwIf _ _).bind fun _ => ?_
  refine Within.ite ?_ (Within.ite ?_ (Within.ite ?_ ?_))
  · exact Within.bind (fun _ => ⟨rfl, rfl, rfl, rfl, rfl⟩) fun _ =>
      Within.bind (fun _ => ⟨rfl, rfl, rfl, rfl, rfl⟩) fun _ =>
        Within.bind (fun _ => ⟨rfl, rfl, rfl, rfl, rfl⟩) fun _ => within_pure _
  · exact (sameReply_appendPayload pf rx).bind fun _ => within_pure _
  · exact within_get.bind fun h => (sameReply_throwIf _ _).bind fun _ =>
      (sameReply_appendPayload pf rx).bind fun _ => within_pure _
  · exact Within.bind (fun _ => ⟨rfl, rfl, rfl, rfl, rfl⟩) fun _ => within_throw _

/-- Parsing replies nothing. -/
theorem sameReply_txParse : Within Handler.SameReply (txParse pf) := by
  intro h
  rw [exec_txParse]
  exact ⟨rfl, rfl, rfl, rfl, rfl⟩

/-- Throwing after a write from the beginning of the buffer. -/
theorem answers_writeIo (h₀ : h.Ready review) {w : Bytes} (hw : w.length ≤ rsaModulusHalve)
    {g : ℕ → ℕ} (hg : g 0 ≤ rsaModulusHalve) (code : ℕ) :
    Ensures (do
      writeIo 0 w
      modify fun h : Handler σ => { h with tx := g h.tx }
      throw code : HandlerM σ Unit) h (Answers review) := by
  have hsize : 0 + w.length ≤ ioApduBufferSize :=
    (Nat.zero_add _).trans_le (hw.trans (by decide))
  refine ensures_modify_bind (ensures_modify_bind (ensures_throw ?_))
  refine ⟨h₀.ioOk.write hsize, h₀.asynchReply, h₀.review, ?_⟩
  show g h.tx ≤ rsaModulusHalve
  rwa [h₀.tx]

/-- `GET_VERSION` is answered at once. -/
theorem answers_handleGetVersion (h₀ : h.Ready review) :
    Ensures (handleGetVersion pf) h (Answers review) :=
  answers_writeIo h₀ (by rw [pf.version.property]; decide) (g := (· + 9)) (by decide) _

/-- No message is longer than a part. -/
theorem length_errorDescription (e : ParserError) :
    (ascii (parserGetErrorDescription e)).length ≤ rsaModulusHalve := by
  cases e <;> decide

/-- The message of a refusal fits the buffer: it is one of the texts of the parser. -/
theorem length_of_txVerdict {d : Device σ} {msg : String} (hmsg : txVerdict pf d = .ok (some msg)) :
    (ascii msg).length ≤ rsaModulusHalve := by
  unfold txVerdict at hmsg
  dsimp only at hmsg
  split at hmsg
  · exact absurd hmsg (by simp)
  · obtain rfl := Option.some.inj (Except.ok.inj hmsg)
    exact length_errorDescription _
  · split at hmsg
    · obtain rfl := Option.some.inj (Except.ok.inj hmsg)
      exact length_errorDescription _
    · exact absurd (Except.ok.inj hmsg) (by simp)

/-- Opening a review leaves the answer to it. -/
theorem answers_reviewInit (h₀ : h.Ready review) (r : Review) :
    Ensures (reviewInit r) h (Answers review) := ⟨⟨h₀.ioOk.buffer, h₀.ioOk.address⟩, rfl, rfl⟩

/-- `SIGN` is answered at once, or opens a review.

**Proof sketch.** By what `process_chunk` returns, and for the last chunk by what `tx_parse`
returns: a message is copied into the buffer, which has room for it. -/
theorem answers_handleSign (h₀ : h.Ready review) (rx : ℕ) :
    Ensures (handleSign pf rx) h (Answers review) := by
  refine answers_bind (sameReply_processChunk pf rx) h₀ fun more h₁ h₁Ready => ?_
  refine answers_bind (sameReply_throwIf _ _) h₁Ready fun _ h₂ h₂Ready => ?_
  have hparse := exec_txParse pf h₂
  have hsame := sameReply_txParse pf h₂
  rw [hparse] at hsame
  have h₃Ready := h₂Ready.of_same hsame
  rcases hverdict : txVerdict pf h₂.dev with code | _ | msg
  · rw [hverdict] at hparse
    unfold Ensures
    rw [exec_bind_error hparse]
    exact h₃Ready.answers code
  · rw [hverdict] at hparse
    exact ensures_bind_of_exec hparse (answers_reviewInit h₃Ready .transaction)
  · rw [hverdict] at hparse
    refine ensures_bind_of_exec hparse ?_
    exact answers_writeIo h₃Ready (length_of_txVerdict pf hverdict)
      (g := (· + (ascii msg).length)) (by
        rw [Nat.zero_add]
        exact length_of_txVerdict pf hverdict) _

/-- The buffer may be cleared before anything is put into the reply. -/
theorem ready_zeroIo (h₀ : h.Ready review) :
    Ensures zeroIo h fun _ h' => h'.Ready review :=
  ⟨h₀.ioOk.zeros, h₀.asynchReply, h₀.review, h₀.tx⟩

/-- With an empty response, a handler is ready to reply. -/
theorem ready_setTx (hio : h.dev.IoOk) (hasynch : h.asynchReply = false)
    (hreview : h.dev.review = review) : Ensures (setTx 0) h fun _ h' => h'.Ready review :=
  ⟨hio, hasynch, hreview, rfl⟩

/-- An address has the length of its field.

**Proof sketch.** The hash has 32 bytes, so its encoding in base64url has 43 characters. -/
theorem ensures_cryptoFillAddress (sdk : Sdk) (bufferLen : ℕ) (r : StoreRun) :
    Ensures (cryptoFillAddress sdk bufferLen) r fun res _ =>
      ∀ addrStr, res = .ok addrStr → addrStr.length = addrStrLen := by
  have herror : ∀ (e : ZxErr) (addrStr : Bytes), (.error e : Except ZxErr Bytes) = .ok addrStr →
      addrStr.length = addrStrLen := fun _ _ hres => absurd hres (by simp)
  unfold cryptoFillAddress
  apply ensures_getStore_bind
  by_cases hinit : cryptoStoreIsInitialized r.store = true
  swap
  · rw [if_pos hinit]
    exact herror _
  rw [if_neg (not_not.mpr hinit)]
  by_cases hlen : bufferLen < answerLen
  · rw [if_pos hlen]
    exact herror _
  rw [if_neg hlen]
  dsimp only
  rcases cryptoStoreGetPubkey r.store with _ | rsaPubkey
  · exact herror _
  refine ensures_sdkCall_bind (fun r' _ => ?_) fun r' _ _ => herror _
  dsimp only
  rw [b64urlEncode_address, if_neg (by decide : ¬ addrStrLen = 0)]
  rintro addrStr hres
  rw [← Except.ok.inj hres, length_b64urlText, (sdk.sha256 _).property]
  rfl

/-- Preparing the address leaves a handler ready to reply.

**Proof sketch.** The address and its length fit the I/O buffer. -/
theorem ready_appFillAddress (h₀ : h.Ready review) :
    Ensures (appFillAddress pf) h fun _ h' => h'.Ready review := by
  have hfill := ensures_cryptoFillAddress pf.sdk (ioApduBufferSize - 2)
    (h.dev.store.start h.faults)
  have hsame := h₀.of_same (sameReply_runStore (cryptoFillAddress pf.sdk (ioApduBufferSize - 2)) h)
  refine ensures_bind_of_exec (exec_runStore h _) ?_
  rcases hres : ((cryptoFillAddress pf.sdk (ioApduBufferSize - 2)).exec
    (h.dev.store.start h.faults)).1 with e | addrStr
  · exact ensures_modify_bind (ensures_pure ⟨hsame.ioOk.zeros, hsame.asynchReply, hsame.review,
      hsame.tx⟩)
  · have hlen := hfill addrStr hres
    refine ensures_modify_bind (ensures_pure ⟨⟨?_, Nat.le_refl _⟩, hsame.asynchReply, hsame.review,
      hsame.tx⟩)
    have hinside : 0 + addrStr.length ≤ (zeros ioApduBufferSize).length := by
      rw [hlen, zeros, List.length_replicate]
      decide
    exact (length_overwrite hinside).trans List.length_replicate

/-- `GET_ADDR` is answered at once, or opens a review.

**Proof sketch.** Step by step through the handler: it is ready after each step, and ends by
throwing a code behind at most 43 bytes or by opening a review. -/
theorem answers_handleGetAddress (h₀ : h.Ready review) :
    Ensures (handleGetAddress pf) h (Answers review) := by
  refine answers_bind_of_ready (ready_setTx h₀.ioOk h₀.asynchReply h₀.review) fun _ h₁ h₁Ready => ?_
  refine answers_bind (sameReply_ioByte _) h₁Ready fun _ h₂ h₂Ready => ?_
  refine answers_bind (sameReply_throwIf _ _) h₂Ready fun _ h₃ h₃Ready => ?_
  refine answers_bind (sameReply_ioByte _) h₃Ready fun _ h₄ h₄Ready => ?_
  refine answers_bind_of_ready (ready_zeroIo h₄Ready) fun _ h₅ h₅Ready => ?_
  refine ensures_modify_bind (answers_bind_of_ready (ready_appFillAddress pf
    (h := { h₅ with dev := { h₅.dev with actionAddrResponseLen := 0 } })
    ⟨⟨h₅Ready.ioOk.buffer, Nat.zero_le _⟩, h₅Ready.asynchReply, h₅Ready.review, h₅Ready.tx⟩)
    fun err h₆ h₆Ready => ?_)
  refine ensures_bind_of_exec (exec_get h₆) ?_
  dsimp only
  split_ifs
  · exact ensures_modify_bind (ensures_throw ⟨h₆Ready.ioOk, h₆Ready.asynchReply, h₆Ready.review,
      Nat.zero_le _⟩)
  · exact answers_reviewInit h₆Ready .address
  · refine ensures_modify_bind (ensures_throw ⟨h₆Ready.ioOk, h₆Ready.asynchReply, h₆Ready.review,
      ?_⟩)
    exact h₆Ready.ioOk.address.trans (by decide)

/-- A request for a part is answered at once: the part has 256 bytes, which leaves room for the
status word.

**Proof sketch.** Step by step through the handler, which ends by throwing a code behind 256 bytes
or none. -/
theorem answers_handleGetPart {getPart : ℕ → HandlerM σ (Except ZxErr Bytes)}
    (hpart : ∀ index, Within Handler.SameReply (getPart index))
    (hlen : ∀ index h, Ensures (getPart index) h fun res _ =>
      ∀ part, res = .ok (.ok part) → part.length = rsaModulusHalve)
    (h₀ : h.Ready review) : Ensures (handleGetPart getPart) h (Answers review) := by
  refine answers_bind_of_ready (ready_setTx h₀.ioOk h₀.asynchReply h₀.review) fun _ h₁ h₁Ready => ?_
  refine answers_bind (sameReply_ioByte _) h₁Ready fun _ h₂ h₂Ready => ?_
  refine answers_bind (sameReply_throwIf _ _) h₂Ready fun _ h₃ h₃Ready => ?_
  refine answers_bind (sameReply_ioByte _) h₃Ready fun index h₄ h₄Ready => ?_
  refine answers_bind_of_ready (ready_zeroIo h₄Ready) fun _ h₅ h₅Ready => ?_
  refine (((hpart index.toNat).ensures h₅).and (hlen index.toNat h₅)).bind ?_ fun e _ hres =>
    (h₅Ready.of_same hres.1).answers e
  rintro (e | part) h₆ ⟨hsame, hpartLen⟩
  · exact ensures_modify_bind (ensures_throw ⟨(h₅Ready.of_same hsame).ioOk,
      (h₅Ready.of_same hsame).asynchReply, (h₅Ready.of_same hsame).review, Nat.zero_le _⟩)
  · exact answers_writeIo (h₅Ready.of_same hsame) (Nat.le_of_eq (hpartLen part rfl))
      (g := fun _ => 256) (by decide) _

/-- `GET_PK` is answered at once. -/
theorem answers_handleGetPubKeyPart (h₀ : h.Ready review) :
    Ensures handleGetPubKeyPart h (Answers review) := by
  refine answers_handleGetPart (fun _ => within_get.bind fun _ => within_pure _)
    (fun index h' => ?_) h₀
  rintro part hres
  exact length_cryptoGetpubkeyPart (Except.ok.inj hres)

/-- `GET_SIG` is answered at once. -/
theorem answers_handleGetSigPart (h₀ : h.Ready review) :
    Ensures handleGetSigPart h (Answers review) := by
  refine answers_handleGetPart (fun _ => sameReply_runStore _) (fun index h' => ?_) h₀
  obtain ⟨r', hrun, -, -⟩ := exec_cryptoGetsignaturePart (h'.dev.store.start h'.faults)
    (by decide : ¬ ioApduBufferSize - 3 < minBufferLen) index
  rintro part hres
  rw [exec_runStore, hrun] at hres
  exact CryptoStore.length_handOut (Except.ok.inj hres)

/-- The `TRY` block.

**Proof sketch.** The checks only read and throw. After them each handler of the switch answers. -/
theorem answers_dispatchApdu (h₀ : h.Ready review) (rx : ℕ) (pinCheck : Option ErrorCode) :
    Ensures (dispatchApdu pf rx pinCheck) h (Answers review) := by
  refine answers_bind (sameReply_ioByte _) h₀ fun _ h₁ h₁Ready => ?_
  refine answers_bind (sameReply_throwIf _ _) h₁Ready fun _ h₂ h₂Ready => ?_
  refine answers_bind (sameReply_throwIf _ _) h₂Ready fun _ h₃ h₃Ready => ?_
  refine answers_bind (sameReply_ioByte _) h₃Ready fun ins h₄ h₄Ready => ?_
  refine answers_bind within_get h₄Ready fun g h₅ h₅Ready => ?_
  refine answers_bind (sameReply_throwIf _ _) h₅Ready fun _ h₆ h₆Ready => ?_
  have hpin {q : HandlerM σ Unit} (hq : ∀ h', h'.Ready review → Ensures q h' (Answers review)) :
      Ensures (checkPinValidated pinCheck >>= fun _ => q) h₆ (Answers review) :=
    answers_bind (sameReply_checkPinValidated pinCheck) h₆Ready fun _ h' hReady => hq h' hReady
  unfold switchIns
  split_ifs
  · exact answers_handleGetVersion pf h₆Ready
  · exact hpin fun _ => answers_handleGetAddress pf
  · exact hpin fun _ hReady => answers_handleSign pf hReady rx
  · exact hpin fun _ => answers_handleGetSigPart
  · exact hpin fun _ => answers_handleGetPubKeyPart
  · exact ensures_throw (h₆Ready.answers _)

end Commands

/-! ## Answers after a review -/

section Decisions

variable (pf : Platform σ) {h : Handler σ}

/-- A digest that is returned has its length. -/
theorem length_parserGetDigest {H : Bytes → Digest} {m : Memory} {tx : ParserTx} {digest : Bytes}
    (h : (parserGetDigest H m tx sha384DigestLen).val = .ok digest) :
    digest.length = sha384DigestLen := by
  rw [parserGetDigest, if_neg (Nat.lt_irrefl _)] at h
  simp only [Hashed.val_bind, Hashed.val_pure, Except.ok.injEq] at h
  rw [← h, List.length_append, List.length_replicate, Nat.sub_self, Nat.add_zero]
  exact (hashChunkWithAccumulator H _ _).val.acc.property

/-- The response after an approval: the digest and the status word, or an error.

**Proof sketch.** If `crypto_sign` succeeds, what it returns is a digest of 48 bytes, which fits the
buffer together with the code. -/
theorem sent_appSign (hio : h.dev.IoOk) (hasynch : h.asynchReply = false) (salt : Bytes) :
    Ensures (appSign pf salt) h fun _ h' => h'.Sent h.dev.review := by
  have hspec := cryptoSign_spec pf.sdk pf.sha384 (txBuffer pf h.dev) h.dev.parser.tx
    (ioApduBufferSize - 3) salt (h.dev.store.start h.faults)
  refine ensures_bind_of_exec (exec_get h) (ensures_bind_of_exec (exec_runStore h _) ?_)
  unfold Ensures at hspec
  rcases hres : ((cryptoSign pf.sdk pf.sha384 (txBuffer pf h.dev) h.dev.parser.tx
    (ioApduBufferSize - 3) salt).exec (h.dev.store.start h.faults)).1 with e | digest
  · exact sent_replyCode ⟨hio.buffer, hio.address⟩ hasynch rfl (Nat.zero_le _) (by decide)
  · rw [hres] at hspec
    have hlen : digest.length = sha384DigestLen := length_parserGetDigest hspec.1
    have hinside : 0 + digest.length ≤ ioApduBufferSize := by
      rw [hlen]
      decide
    refine ensures_modify_bind (sent_replyCode ?_ hasynch rfl (by decide) (by decide))
    exact ⟨(hio.write hinside).buffer, hio.address⟩

/-- The response after a rejection. -/
theorem sent_appReject (hio : h.dev.IoOk) (hasynch : h.asynchReply = false) :
    Ensures appReject h fun _ h' => h'.Sent h.dev.review :=
  ensures_modify_bind (sent_replyCode hio.zeros hasynch rfl (Nat.zero_le _) (by decide))

/-- The response after an address has been confirmed. -/
theorem sent_appReplyAddress (hio : h.dev.IoOk) (hasynch : h.asynchReply = false) :
    Ensures appReplyAddress h fun _ h' => h'.Sent h.dev.review :=
  ensures_bind_of_exec (exec_get h)
    (sent_replyCode hio hasynch rfl (hio.address.trans (by decide)) (by decide))

end Decisions

/-! ## Steps -/

/-- A step sends a response. -/
def Step.replied (t : Transition (Device σ) DeviceEvent Output) : Bool := t.output.reply.isSome

/-- A command arrives. -/
def Step.isCommand (t : Transition (Device σ) DeviceEvent Output) : Bool :=
  match t.event with
  | .apdu _ _ _ => true
  | _ => false

/-- A pending review is abandoned: by a reset, or for the review that a command opens. -/
def Step.abandons (t : Transition (Device σ) DeviceEvent Output) : Bool :=
  t.before.review.isSome &&
    match t.event with
    | .boot _ _ => true
    | .apdu _ _ _ => t.output.reply.isNone
    | _ => false

/-- What one step does to the buffer and to the account of responses. -/
structure Step.Accounted (t : Transition (Device σ) DeviceEvent Output) : Prop where
  ioOk : t.after.IoOk
  response : ∀ r, t.output.reply = some r → IsResponse r
  count : (Step.replied t).toNat + t.after.review.isSome.toNat + (Step.abandons t).toNat =
    (Step.isCommand t).toNat + t.before.review.isSome.toNat

variable (pf : Platform σ)

/-- The buffer of a new device has its size. -/
theorem ioOk_fresh : (Device.fresh pf).IoOk := ⟨List.length_replicate, Nat.zero_le _⟩

/-- A handler that has sent a response. -/
theorem Handler.Sent.finish {review : Option Review} {h : Handler σ} (hsent : h.Sent review) :
    h.finish.1.IoOk ∧ h.finish.1.review = review ∧
      ∃ r, h.finish.2.reply = some r ∧ IsResponse r := by
  refine ⟨hsent.ioOk, hsent.review, h.dev.ioApduBuffer.take h.tx, ?_, hsent.response⟩
  rw [Handler.finish, hsent.asynchReply]
  rfl

/-- **A command** is answered at once, or opens a review.

**Proof sketch.** Receiving the command leaves the handler ready, so it answers by
`answers_dispatchApdu`. A code that is thrown becomes the end of a response; without one, the review
is pending. -/
theorem step_answered {d : Device σ} (hd : d.IoOk) (a : Apdu) (pinCheck : Option ErrorCode)
    (faults : List Bool) :
    let step := (device pf).step d (.apdu a pinCheck faults)
    step.1.IoOk ∧
      ((∃ r, step.2.reply = some r ∧ IsResponse r ∧ step.1.review = d.review) ∨
        step.2.reply = none ∧ step.1.review.isSome = true) := by
  intro step
  have hfits : 0 + a.bytes.length ≤ ioApduBufferSize := (Nat.zero_add _).trans_le a.fits
  have hreceive : ((d.receive a).start faults).Ready d.review := ⟨hd.write hfits, rfl, rfl, rfl⟩
  have hanswers := answers_dispatchApdu pf hreceive a.bytes.length pinCheck
  have hstep : step = (afterDispatch ((dispatchApdu pf a.bytes.length pinCheck).exec
      ((d.receive a).start faults))).2.finish := step_apdu pf d a pinCheck faults
  rw [hstep]
  unfold Ensures at hanswers
  rcases hrun : (dispatchApdu pf a.bytes.length pinCheck).exec ((d.receive a).start faults) with
    ⟨code | ⟨⟩, h⟩ <;> rw [hrun] at hanswers
  · obtain ⟨hio, hasynch, hreview, htx⟩ := hanswers
    obtain ⟨hio', hreview', r, hreply, hresponse⟩ :=
      Handler.Sent.finish (sent_replyCode hio hasynch hreview htx (isStatus_statusWord code))
    exact ⟨hio', Or.inl ⟨r, hreply, hresponse, hreview'⟩⟩
  · obtain ⟨hio, hasynch, hreview⟩ := hanswers
    refine ⟨hio, Or.inr ⟨?_, hreview⟩⟩
    show (if h.asynchReply then none else some _) = none
    rw [hasynch, if_pos rfl]

/-- **A decision** answers the command that has opened the review.

**Proof sketch.** The review is closed first, and then the answer is sent. -/
theorem run_answered {d : Device σ} (hd : d.IoOk) {answer : HandlerM σ Unit} (faults : List Bool)
    (hanswer : ∀ h : Handler σ, h.dev.IoOk → h.asynchReply = false →
      Ensures answer h fun _ h' => h'.Sent h.dev.review) :
    (d.run (closeReview answer) faults).1.IoOk ∧
      (d.run (closeReview answer) faults).1.review = none ∧
      ∃ r, (d.run (closeReview answer) faults).2.reply = some r ∧ IsResponse r := by
  have hsent := hanswer (Device.start { d with review := none } faults)
    ⟨hd.buffer, hd.address⟩ rfl
  exact Handler.Sent.finish hsent

/-- A step with no response, no command and no review given up. -/
theorem accounted_silent {t : Transition (Device σ) DeviceEvent Output} (hio : t.after.IoOk)
    (hreply : t.output.reply = none) (hcommand : Step.isCommand t = false)
    (hreview : t.after.review.isSome.toNat + (Step.abandons t).toNat =
      t.before.review.isSome.toNat) : Step.Accounted t where
  ioOk := hio
  response r hr := by
    rw [hreply] at hr
    exact absurd hr (by simp)
  count := by
    rw [Step.replied, hreply, hcommand]
    simpa using hreview

/-- A command is answered, or leaves a review pending.

**Proof sketch.** By `step_answered`; a command that opens a review is not answered, and takes the
place of one that is pending. -/
theorem accounted_apdu {d : Device σ} (hd : d.IoOk) (a : Apdu) (pinCheck : Option ErrorCode)
    (faults : List Bool) :
    Step.Accounted ((device pf).transition d (.apdu a pinCheck faults)) := by
  obtain ⟨hio, hstep⟩ := step_answered pf hd a pinCheck faults
  have hresponse : ∀ r, ((device pf).step d (.apdu a pinCheck faults)).2.reply = some r →
      IsResponse r := by
    intro r hr
    rcases hstep with ⟨r', hreply, hresponse, -⟩ | ⟨hnone, -⟩
    · obtain rfl := Option.some.inj (hreply.symm.trans hr)
      exact hresponse
    · exact absurd (hnone.symm.trans hr) (by simp)
  have hcount : ((device pf).step d (.apdu a pinCheck faults)).2.reply.isSome.toNat +
      ((device pf).step d (.apdu a pinCheck faults)).1.review.isSome.toNat +
      (d.review.isSome && ((device pf).step d (.apdu a pinCheck faults)).2.reply.isNone).toNat =
      1 + d.review.isSome.toNat := by
    rcases hstep with ⟨r, hreply, -, hreview⟩ | ⟨hnone, hreview⟩
    · rw [hreply, hreview]
      simp
    · rw [hnone, hreview]
      simp
  exact ⟨hio, hresponse, hcount⟩

/-- A decision is ignored if no review is pending, and answers the command otherwise. -/
def Device.Decided (d : Device σ) (step : Device σ × Output) : Prop :=
  d.review = none ∧ step = (d, .silent) ∨
    d.review.isSome = true ∧ step.1.IoOk ∧ step.1.review = none ∧
      ∃ r, step.2.reply = some r ∧ IsResponse r

/-- A decision on a review keeps the account.

**Proof sketch.** Without a review it is silent. With one, the response it sends takes the place of
the review. -/
theorem accounted_decision {d : Device σ} (hd : d.IoOk) {e : DeviceEvent}
    (h : d.Decided ((device pf).step d e))
    (hcommand : Step.isCommand ((device pf).transition d e) = false)
    (habandons : Step.abandons ((device pf).transition d e) = (d.review.isSome && false)) :
    Step.Accounted ((device pf).transition d e) := by
  rcases h with ⟨hnone, hstep⟩ | ⟨hsome, hio, hreview, r, hreply, hresponse⟩
  · refine accounted_silent ?_ ?_ hcommand ?_
    · rw [Machine.after_transition, hstep]
      exact hd
    · rw [Machine.output_transition, hstep]
      rfl
    · rw [habandons, Machine.after_transition, hstep, Bool.and_false]
      rfl
  · refine ⟨hio, fun r' hr' => ?_, ?_⟩
    · obtain rfl := Option.some.inj (hreply.symm.trans hr')
      exact hresponse
    · rw [hcommand, habandons, Step.replied, Machine.output_transition, Machine.after_transition,
        hreply, hreview, Bool.and_false]
      show 1 + 0 + 0 = 0 + d.review.isSome.toNat
      rw [hsome]
      rfl

/-- An approval answers the command whose review is pending.

**Proof sketch.** By the pending review. Without one nothing happens. -/
theorem decided_approve {d : Device σ} (hd : d.IoOk) (salt : Bytes) (faults : List Bool) :
    d.Decided ((device pf).step d (.approve salt faults)) := by
  rcases hreview : d.review with _ | _ | _
  · exact Or.inl ⟨hreview, by simp only [device, hreview]⟩
  · have hstep : (device pf).step d (.approve salt faults) =
        d.run (closeReview (appSign pf salt)) faults := by simp only [device, hreview]
    rw [hstep]
    exact Or.inr ⟨by rw [hreview]; rfl,
      run_answered hd faults fun h hio hasynch => sent_appSign pf hio hasynch salt⟩
  · have hstep : (device pf).step d (.approve salt faults) =
        d.run (closeReview appReplyAddress) faults := by simp only [device, hreview]
    rw [hstep]
    exact Or.inr ⟨by rw [hreview]; rfl,
      run_answered hd faults fun h hio hasynch => sent_appReplyAddress hio hasynch⟩

/-- A rejection answers the command whose review is pending. -/
theorem decided_reject {d : Device σ} (hd : d.IoOk) :
    d.Decided ((device pf).step d .reject) := by
  rcases hreview : d.review with _ | review
  · exact Or.inl ⟨hreview, by simp only [device, hreview]⟩
  · have hstep : (device pf).step d .reject = d.run (closeReview appReject) [] := by
      simp only [device, hreview]
    rw [hstep]
    exact Or.inr ⟨by rw [hreview]; rfl,
      run_answered hd [] fun h hio hasynch => sent_appReject hio hasynch⟩

/-- **Every step** keeps the account.

**Proof sketch.** By the kind of event: commands by `accounted_apdu`, decisions by
`accounted_decision`; no other event is answered. -/
theorem accounted_step {d : Device σ} (hd : d.IoOk) (e : DeviceEvent) :
    Step.Accounted ((device pf).transition d e) := by
  cases e with
  | boot seed faults =>
    refine accounted_silent ⟨List.length_replicate, Nat.zero_le _⟩ rfl rfl ?_
    show 0 + (d.review.isSome && true).toNat = d.review.isSome.toNat
    rw [Bool.and_true, Nat.zero_add]
  | storeInit faults =>
    refine accounted_silent ⟨hd.buffer, hd.address⟩ rfl rfl ?_
    show d.review.isSome.toNat + (d.review.isSome && false).toNat = d.review.isSome.toNat
    rw [Bool.and_false]
    rfl
  | setExpert expert =>
    refine accounted_silent ⟨hd.buffer, hd.address⟩ rfl rfl ?_
    show d.review.isSome.toNat + (d.review.isSome && false).toNat = d.review.isSome.toNat
    rw [Bool.and_false]
    rfl
  | apdu a pinCheck faults => exact accounted_apdu pf hd a pinCheck faults
  | approve salt faults =>
    exact accounted_decision pf hd (decided_approve pf hd salt faults) rfl rfl
  | reject => exact accounted_decision pf hd (decided_reject pf hd) rfl rfl

/-! ## Runs -/

/-- Every step of a run keeps the account. -/
theorem accounted_trace {d : Device σ} (hd : d.IoOk) (es : List DeviceEvent) :
    ∀ t ∈ (device pf).trace d es, Step.Accounted t :=
  (Machine.forall_trace_iff (G := fun _ => True) hd
    (fun _ e hs _ => ⟨(accounted_step pf hs e).ioOk, accounted_step pf hs e⟩)
    fun _ _ _ hnot => absurd trivial hnot).mpr fun _ _ => trivial

/-- **The buffer and the responses** in every run: nothing has been written behind the buffer, and
what is sent is a response.

**Proof sketch.** Every transition of the run is accounted for, which includes both. -/
theorem responses_run (es : List DeviceEvent) :
    ∀ t ∈ (device pf).trace (Device.fresh pf) es,
      t.after.ioApduBuffer.length = ioApduBufferSize ∧
        ∀ r, t.output.reply = some r → IsResponse r := by
  intro t ht
  have haccounted := accounted_trace pf (ioOk_fresh pf) es t ht
  exact ⟨haccounted.ioOk.buffer, haccounted.response⟩

/-- The sample upload is reviewed and approved: a signature is stored and the last chunk gets a
response.

**Proof sketch.** The approval has stored a signature, so the review of a transaction was pending
and its approval is answered. -/
theorem responses_run_sample :
    let step := (device hashingPlatform).step
      ((device hashingPlatform).run (.fresh hashingPlatform) sampleUploaded) (.approve [] [])
    step.2.signed ≠ [] ∧ ∃ r, step.2.reply = some r ∧ IsResponse r := by
  -- which platform and which upload it is plays no role
  suffices hall : ∀ {σ : Type} (pf : Platform σ) (es : List DeviceEvent),
      ((device pf).step ((device pf).run (.fresh pf) es) (.approve [] [])).2.signed ≠ [] →
      ∃ r, ((device pf).step ((device pf).run (.fresh pf) es) (.approve [] [])).2.reply = some r ∧
        IsResponse r from
    ⟨sampleUploaded_signed, hall hashingPlatform sampleUploaded sampleUploaded_signed⟩
  intro σ pf es hsigned
  obtain ⟨_, _, _, -, hreview, -⟩ := step_signed pf hsigned
  have hio : ((device pf).run (.fresh pf) es).IoOk :=
    Machine.invariant (G := fun _ => True) (ioOk_fresh pf)
      (fun _ e hs _ => (accounted_step pf hs e).ioOk) fun _ _ => trivial
  rcases decided_approve pf hio [] [] with ⟨hnone, -⟩ | ⟨-, -, -, r, hreply, -⟩
  · exact absurd (hreview.symm.trans hnone) (by simp)
  · have hmem : (device pf).transition ((device pf).run (.fresh pf) es) (.approve [] []) ∈
        (device pf).trace (.fresh pf) (es ++ [.approve [] []]) := by
      rw [Machine.trace_concat]
      simp
    exact ⟨r, hreply, (responses_run pf _ _ hmem).2 r hreply⟩

/-- A condition counted over a list with one more entry. -/
theorem countP_cons_toNat {α : Type} (p : α → Bool) (x : α) (xs : List α) :
    (x :: xs).countP p = xs.countP p + (p x).toNat := by
  rw [List.countP_cons]
  cases p x <;> rfl

/-- The account of a run that starts with a review pending or without.

**Proof sketch.** By induction on the run, adding up what each step is accounted for. -/
theorem replies_matched_from {d : Device σ} (hd : d.IoOk) (es : List DeviceEvent) :
    ((device pf).trace d es).countP Step.replied + ((device pf).run d es).review.isSome.toNat +
        ((device pf).trace d es).countP Step.abandons =
      ((device pf).trace d es).countP Step.isCommand + d.review.isSome.toNat := by
  induction es generalizing d with
  | nil =>
    show 0 + d.review.isSome.toNat + 0 = 0 + d.review.isSome.toNat
    rfl
  | cons e es ih =>
    have hstep := accounted_step pf hd e
    have hrest := ih hstep.ioOk
    have hcount := hstep.count
    rw [Machine.trace_cons, Machine.run_cons, countP_cons_toNat, countP_cons_toNat,
      countP_cons_toNat]
    rw [Machine.after_transition] at hcount hrest
    have hbefore : ((device pf).transition d e).before = d := rfl
    rw [hbefore] at hcount
    omega

/-- **Responses match commands**: in every run the commands are as many as the responses, the
review that is pending at the end, and the reviews that have been abandoned.

**Proof sketch.** A step that sends a response without a command closes a review, a command
without a response opens one, and a review that is pending when this happens is abandoned. -/
theorem replies_matched (es : List DeviceEvent) :
    ((device pf).trace (Device.fresh pf) es).countP Step.replied +
        ((device pf).run (Device.fresh pf) es).review.isSome.toNat +
        ((device pf).trace (Device.fresh pf) es).countP Step.abandons =
      ((device pf).trace (Device.fresh pf) es).countP Step.isCommand :=
  replies_matched_from pf (ioOk_fresh pf) es

end Responses

end LedgerArweave
