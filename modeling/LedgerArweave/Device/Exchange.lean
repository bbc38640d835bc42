import LedgerArweave.Device.Parts
import LedgerArweave.Device.Signing

set_option relaxedAutoImplicit false
set_option autoImplicit false

/-!
# Exchanges

One command and its response, as the host sees them: the device may refuse the command before it
is processed, and if it shows a review, the response comes when the user has decided. What an
exchange does is stated for the commands a client needs to have a transaction signed.

## Main definitions

* `Choice`, `exchange` — what the surroundings decide, and an exchange.
* `statusOf` — the status word of a response.
* `Device.append` — the device after a payload that fits.

## Main results

* `exchange_refused` — a refused command changes nothing.
* `exchange_init`, `exchange_add`, `exchange_last` — the chunks of an upload.
* `exchange_getSig` — a part of the signature.
-/

namespace LedgerArweave

open Fallible

/-- What the surroundings decide during an exchange: whether the device refuses the command, which
calls of the SDK fail, and whether the user approves a review. -/
structure Choice where
  refusal : Option ErrorCode
  faults : List Bool
  /-- The salt and the failures of the signer if the user approves. -/
  approval : Option (Bytes × List Bool)

/-- The decision of the user. -/
def Choice.answer (c : Choice) : DeviceEvent :=
  match c.approval with
  | some (salt, faults) => .approve salt faults
  | none => .reject

/-- The last two bytes of a response, as a number. Where one of them is missing it is `NaN`, which
is `none` here. -/
def statusOf (response : Bytes) : Option ℕ :=
  match response.drop (response.length - 2) with
  | [high, low] => some (high.toNat * 256 + low.toNat)
  | _ => none

/-- The device after an exchange, the response, and the signatures stored. -/
structure Exchanged (σ : Type) where
  dev : Device σ
  response : Bytes
  stored : List (Block 512)

section Exchange

variable {σ : Type} (pf : Platform σ)

/-- An exchange. -/
def exchange (c : Choice) (a : Apdu) (d : Device σ) : Exchanged σ :=
  let (dev, output) := (device pf).step d (.apdu a c.refusal c.faults)
  match output.reply with
  | some response => ⟨dev, response, output.signed⟩
  | none =>
    let (dev', output') := (device pf).step dev c.answer
    ⟨dev', output'.reply.getD [], output.signed ++ output'.signed⟩

/-- A command that is answered at once. -/
theorem exchange_of_reply {c : Choice} {a : Apdu} {d d' : Device σ} {o : Output} {response : Bytes}
    (hstep : (device pf).step d (.apdu a c.refusal c.faults) = (d', o))
    (hreply : o.reply = some response) : exchange pf c a d = ⟨d', response, o.signed⟩ := by
  unfold exchange
  rw [hstep]
  dsimp only
  rw [hreply]

/-! ## Status words -/

/-- The status word behind a reply is found again. -/
theorem statusOf_append (w : Bytes) (n : ℕ) :
    statusOf (w ++ be16.encode n) = some (n % 65536) := by
  have hdrop : (w ++ be16.encode n).drop ((w ++ be16.encode n).length - 2) = be16.encode n := by
    rw [List.length_append, length_be16_encode, Nat.add_sub_cancel, List.drop_left]
  have hbytes : be16.encode n = [UInt8.ofNat (n / 256), UInt8.ofNat n] := rfl
  unfold statusOf
  rw [hdrop, hbytes]
  simp only [UInt8.toNat_ofNat', Option.some.injEq]
  omega

/-- A response has a status word if it has two bytes.

**Proof sketch.** The last two bytes make up a list of two exactly if there are two. -/
theorem statusOf_eq_none {response : Bytes} : statusOf response = none ↔ response.length < 2 := by
  have hlen : (response.drop (response.length - 2)).length =
      response.length - (response.length - 2) := List.length_drop
  unfold statusOf
  split
  · rename_i high low hdrop
    rw [hdrop] at hlen
    simp only [List.length_cons, List.length_nil] at hlen
    exact iff_of_false (by simp) (by omega)
  · rename_i hno
    refine iff_of_true rfl (Nat.lt_of_not_le fun hle => ?_)
    obtain ⟨high, low, hdrop⟩ := List.length_eq_two.mp (hlen.trans (by omega))
    exact hno high low hdrop

/-- The status word of success. -/
theorem statusOf_ok (w : Bytes) : statusOf (w ++ statusReply apduCodeOk) = apduCodeOk :=
  statusOf_append w _

/-- The status word of a thrown code is not the one of success. -/
theorem statusOf_statusReply_ne (e : ErrorCode) : statusOf (statusReply e.val) ≠ apduCodeOk := by
  obtain ⟨e, hlt, hne, -⟩ := e
  have happ := statusOf_append [] (statusWord e)
  rw [List.nil_append] at happ
  rw [statusReply, happ, statusWord, Ne, Option.some.injEq]
  split_ifs with h
  · rwa [Nat.mod_eq_of_lt hlt]
  · have hand : e &&& 0x7FF < 2 ^ 15 :=
      lt_of_le_of_lt Nat.and_le_right (by decide)
    have hor : 0x6800 ||| (e &&& 0x7FF) < 2 ^ 15 := Nat.or_lt_two_pow (by decide) hand
    have hok : apduCodeOk = 36864 := rfl
    omega

/-- The codes the handlers throw. -/
theorem statusOf_code_ne (w : Bytes) {code : ℕ} (hcode : code = apduCodeTxNotInitialized ∨
    code = apduCodeOutputBufferTooSmall ∨ code = apduCodeDataInvalid ∨
    code = apduCodeExecutionError ∨ code = apduCodeConditionsNotSatisfied) :
    statusOf (w ++ statusReply code) ≠ apduCodeOk := by
  rw [statusReply, statusOf_append]
  rcases hcode with rfl | rfl | rfl | rfl | rfl <;> decide

/-! ## Refused commands -/

/-- A command reaches its handler: the device does not refuse it, and its keys are set up. -/
def Processed (c : Choice) (d : Device σ) : Prop :=
  c.refusal = none ∧ d.store.deviceInitialized = true

/-- Whether a command is processed can be evaluated. -/
instance (c : Choice) (d : Device σ) : Decidable (Processed c d) :=
  inferInstanceAs (Decidable (c.refusal = none ∧ d.store.deviceInitialized = true))

section Refused

variable {c : Choice} {d : Device σ} (ins p1 p2 : UInt8) {data : Bytes}

/-- Without keys, every command but `GET_VERSION` is refused.

**Proof sketch.** The check of the initialization comes before the instruction is looked at. -/
theorem step_uninitialized (hinit : d.store.deviceInitialized = false)
    (hins : ins ≠ insGetVersion) (pinCheck : Option ErrorCode) (faults : List Bool)
    (h : data.length < 256) :
    ∃ io, (device pf).step d (.apdu (command ins p1 p2 data h) pinCheck faults) =
      (d.setIo io, ⟨some (statusReply apduCodeTxNotInitialized), none, []⟩) := by
  have hio := receive_ioApduBuffer d (command ins p1 p2 data h)
  have hins' : ((d.receive (command ins p1 p2 data h)).start faults).dev.ioApduBuffer.getD
      offsetIns 0 = ins := congrArg (fun io => io.getD offsetIns 0) hio
  have hcla : ((d.receive (command ins p1 p2 data h)).start faults).dev.ioApduBuffer.getD
      offsetCla 0 = claByte := congrArg (fun io => io.getD offsetCla 0) hio
  have hnot : ¬ ((d.receive (command ins p1 p2 data h)).start faults).dev.store.deviceInitialized =
      true := by
    intro htrue
    exact absurd (hinit.symm.trans htrue) (by simp)
  have hrx : ¬ data.length + 5 < apduMinLength := Nat.not_lt.mpr (Nat.le_add_left 5 _)
  have hdispatch : (dispatchApdu pf (data.length + 5) pinCheck).exec
      ((d.receive (command ins p1 p2 data h)).start faults) =
        (.error apduCodeTxNotInitialized, (d.receive (command ins p1 p2 data h)).start faults) := by
    rw [dispatchApdu, exec_ioByte_bind, exec_throwIf_neg _ (not_not.mpr hcla),
      exec_throwIf_neg _ hrx, exec_ioByte_bind, exec_get_bind, hins',
      exec_throwIf_pos _ ⟨hnot, hins⟩]
  obtain ⟨io, hfinish⟩ := finish_afterDispatch_code apduCodeTxNotInitialized
    (h := (d.receive (command ins p1 p2 data h)).start faults) rfl rfl
  have hbytes : (command ins p1 p2 data h).bytes.length = data.length + 5 := rfl
  refine ⟨io, ?_⟩
  rw [step_apdu, hbytes, hdispatch]
  exact hfinish

/-- **A refused command** is answered with an error and changes nothing.

**Proof sketch.** Either the device has no keys, which refuses every command but one, or it is
locked, which refuses those whose handlers check the PIN. -/
theorem exchange_refused (hins : ins ∈ guardedIns) (hno : ¬ Processed c d)
    (h : data.length < 256) :
    ∃ io response, statusOf response ≠ apduCodeOk ∧
      exchange pf c (command ins p1 p2 data h) d = ⟨d.setIo io, response, []⟩ := by
  cases hinit : d.store.deviceInitialized with
  | false =>
    have hversion : ins ≠ insGetVersion := by
      rintro rfl
      exact absurd hins (by decide)
    obtain ⟨io, hstep⟩ := step_uninitialized pf ins p1 p2 hinit hversion c.refusal c.faults h
    refine ⟨io, _, statusOf_code_ne [] (.inl rfl), ?_⟩
    rw [exchange, hstep]
    rfl
  | true =>
    cases hrefusal : c.refusal with
    | none => exact absurd ⟨hrefusal, hinit⟩ hno
    | some e =>
      obtain ⟨io, hstep⟩ := step_locked pf hins e c.faults (a := command ins p1 p2 data h) rfl hinit
      refine ⟨io, _, statusOf_statusReply_ne e, ?_⟩
      rw [exchange, hrefusal, hstep]

/-- Only a command that is processed is answered with success. -/
theorem processed_of_statusOf (hins : ins ∈ guardedIns) (h : data.length < 256)
    (hok : statusOf (exchange pf c (command ins p1 p2 data h) d).response = apduCodeOk) :
    Processed c d := by
  by_contra hno
  obtain ⟨io, response, hne, hx⟩ := exchange_refused pf ins p1 p2 hins hno h
  rw [hx] at hok
  exact hne hok

end Refused

/-! ## Chunks -/

/-- The device after a payload that fits is appended. -/
def Device.append (d : Device σ) (payload : Bytes) : Option (Device σ) :=
  let (buffering, added) := pf.buffering.append d.buffering payload
  if added = payload.length then some { d with buffering := buffering } else none

/-- A payload fits if all of it is appended. -/
theorem Device.append_eq_some {d d' : Device σ} {payload : Bytes} :
    d.append pf payload = some d' ↔
      (pf.buffering.append d.buffering payload).2 = payload.length ∧
        d' = { d with buffering := (pf.buffering.append d.buffering payload).1 } := by
  unfold Device.append
  dsimp only
  split_ifs with hadd
  · simp [hadd, eq_comm]
  · simp [hadd]

section Chunk

variable {c : Choice} {d : Device σ} {payload : Bytes} (hproc : Processed c d)
  (hlen : payload.length < 256)

include hproc in
/-- A chunk that is not refused reaches `process_chunk`. -/
theorem chunkOf_command (p1 : UInt8) :
    chunkOf d (.apdu (command insSign p1 0 payload hlen) c.refusal c.faults) =
      some (p1, payload) := by
  obtain ⟨hrefusal, hinit⟩ := hproc
  rw [hrefusal]
  simp [chunkOf, command, hinit]

include hproc in
/-- `INIT` empties the buffer. -/
theorem exchange_init :
    ∃ io, exchange pf c (command insSign p1Init 0 payload hlen) d =
      ⟨(d.setUpload ⟨true, pf.buffering.reset (pf.buffering.init d.buffering), .more⟩).setIo io,
        statusReply apduCodeOk, []⟩ := by
  obtain ⟨io, hstep⟩ := step_chunk pf (chunkOf_command hproc hlen p1Init)
  refine ⟨io, ?_⟩
  rw [exchange, hstep]
  rfl

/-- A payload that fits, in terms of `appendEffect`. -/
theorem appendEffect_of_append {d' : Device σ} (happend : d.append pf payload = some d')
    (result : ChunkResult) :
    appendEffect pf.buffering d.txInitialized d.buffering payload result =
      ⟨d.txInitialized, d'.buffering, result⟩ ∧ d' = { d with buffering := d'.buffering } := by
  obtain ⟨hadd, rfl⟩ := (Device.append_eq_some pf).mp happend
  rw [appendEffect]
  exact ⟨if_pos hadd, rfl⟩

/-- A payload that does not fit, in terms of `appendEffect`. -/
theorem appendEffect_of_append_none (happend : d.append pf payload = none)
    (result : ChunkResult) :
    (appendEffect pf.buffering d.txInitialized d.buffering payload result).result =
      .refused apduCodeOutputBufferTooSmall := by
  unfold Device.append at happend
  unfold appendEffect
  rcases hr : pf.buffering.append d.buffering payload with ⟨buffering, added⟩
  rw [hr] at happend
  dsimp only at happend ⊢
  split_ifs at happend ⊢ with hadd
  rfl

include hproc in
/-- `ADD` appends its payload, whether or not an upload is open.

**Proof sketch.** By the step of a chunk: an `ADD` is appended or there is no room for it, and it is
answered at once. -/
theorem exchange_add :
    (∀ d', d.append pf payload = some d' →
      ∃ io, exchange pf c (command insSign p1Add 0 payload hlen) d =
        ⟨d'.setIo io, statusReply apduCodeOk, []⟩) ∧
    (d.append pf payload = none →
      statusOf (exchange pf c (command insSign p1Add 0 payload hlen) d).response ≠ apduCodeOk) := by
  obtain ⟨io, hstep⟩ := step_chunk pf (chunkOf_command hproc hlen p1Add)
  have heffect : chunkEffect pf.buffering d.txInitialized d.buffering p1Add payload =
      appendEffect pf.buffering d.txInitialized d.buffering payload .more := rfl
  rw [heffect] at hstep
  constructor
  · intro d' happend
    obtain ⟨happ, hd'⟩ := appendEffect_of_append pf happend .more
    rw [happ] at hstep
    refine ⟨io, ?_⟩
    rw [exchange, hstep, hd']
    rfl
  · intro happend
    rw [appendEffect_of_append_none pf happend .more] at hstep
    rw [exchange, hstep]
    exact statusOf_code_ne [] (.inr (.inl rfl))

include hproc in
/-- `LAST` is refused unless an upload is open, and answered with an error unless what is then in
the buffer is accepted.

**Proof sketch.** By the cause: `LAST` without the flag, without room, or with a buffer that is not
parsed or not valid. Each is answered with an error of its own. -/
theorem exchange_last_refused
    (hno : ∀ d', d.txInitialized = true → d.append pf payload = some d' →
      txVerdict pf d' ≠ .ok none) :
    statusOf (exchange pf c (command insSign p1Last 0 payload hlen) d).response ≠ apduCodeOk := by
  obtain ⟨io, hstep⟩ := step_chunk pf (chunkOf_command hproc hlen p1Last)
  cases hopen : d.txInitialized with
  | false =>
    rw [hopen] at hstep
    rw [exchange, hstep]
    exact statusOf_code_ne [] (.inl rfl)
  | true =>
    have heffect : chunkEffect pf.buffering true d.buffering p1Last payload =
        appendEffect pf.buffering true d.buffering payload .last := rfl
    rw [hopen, heffect, ← hopen] at hstep
    cases happend : d.append pf payload with
    | none =>
      rw [appendEffect_of_append_none pf happend .last] at hstep
      rw [exchange, hstep]
      exact statusOf_code_ne [] (.inr (.inl rfl))
    | some d' =>
      obtain ⟨happ, hd'⟩ := appendEffect_of_append pf happend .last
      have hdev : d.setUpload ⟨d.txInitialized, d'.buffering, .last⟩ = d' := by
        rw [hd']
        rfl
      rw [happ, hdev, chunkStep] at hstep
      dsimp only at hstep
      cases hverdict : txVerdict pf d' with
      | error code =>
        rw [hverdict] at hstep
        rw [exchange, hstep]
        exact statusOf_code_ne [] (.inr (.inr (.inr (.inl (txVerdict_error pf hverdict)))))
      | ok msg =>
        cases msg with
        | none => exact absurd hverdict (hno d' hopen happend)
        | some msg =>
          rw [hverdict] at hstep
          rw [exchange, hstep]
          exact statusOf_code_ne (ascii msg) (.inr (.inr (.inl rfl)))

/-- The device that shows the review of what is in its buffer. -/
def Device.reviewing (d : Device σ) : Device σ :=
  { d with parser := txParsed pf d, review := some .transaction }

include hproc in
/-- `LAST` opens a review of what is then in the buffer if it is accepted; the response is the
answer of the user.

**Proof sketch.** By the step of a chunk, which opens the review; the response is then that of the
user's decision. -/
theorem exchange_last {d' : Device σ} (hopen : d.txInitialized = true)
    (happend : d.append pf payload = some d') (hverdict : txVerdict pf d' = .ok none) :
    ∃ io, let step := (device pf).step ((d'.reviewing pf).setIo io) c.answer
      exchange pf c (command insSign p1Last 0 payload hlen) d =
        ⟨step.1, step.2.reply.getD [], step.2.signed⟩ := by
  obtain ⟨io, hstep⟩ := step_chunk pf (chunkOf_command hproc hlen p1Last)
  have heffect : chunkEffect pf.buffering true d.buffering p1Last payload =
      appendEffect pf.buffering true d.buffering payload .last := rfl
  obtain ⟨happ, hd'⟩ := appendEffect_of_append pf happend .last
  have hdev : d.setUpload ⟨d.txInitialized, d'.buffering, .last⟩ = d' := by
    rw [hd']
    rfl
  rw [hopen, heffect, ← hopen, happ, hdev, chunkStep, hverdict] at hstep
  refine ⟨io, ?_⟩
  rw [exchange, hstep]
  rfl

end Chunk

/-! ## The answer of the user -/

section Answer

variable {d : Device σ}

/-- The deep hash of the transaction in the buffer. -/
def Device.deepHash (d : Device σ) : Digest :=
  LedgerArweave.deepHash pf.sha384 ((txParsed pf d).tx.fields (txBuffer pf d)).item

/-- The signature of the transaction in the buffer. -/
def Device.signature (d : Device σ) (salt : Bytes) : Block 512 :=
  pf.sdk.rsaSign d.store.current.rsaPriv (pf.sdk.sha256 (d.deepHash pf).val) salt

/-- The response of `app_sign`.

**Proof sketch.** If `crypto_sign` fails, the code is all that is sent. If not, the digest is
written to the I/O buffer and the code behind it. -/
theorem reply_appSign (d : Device σ) (salt : Bytes) (faults : List Bool) :
    let run := (cryptoSign pf.sdk pf.sha384 (txBuffer pf d) d.parser.tx (ioApduBufferSize - 3)
      salt).exec (d.store.start faults)
    let reply := (d.run (closeReview (appSign pf salt)) faults).2.reply
    (∀ e r, run = (.error e, r) → reply = some (be16.encode apduCodeSignVerifyError)) ∧
      ∀ digest r, run = (.ok digest, r) → digest.length = sha384DigestLen →
        reply = some (digest ++ statusReply apduCodeOk) := by
  intro run reply
  have hstep : reply =
      ((appSign pf salt).exec (Device.start { d with review := none } faults)).2.finish.2.reply :=
    rfl
  have hrun : (cryptoSign pf.sdk pf.sha384 (txBuffer pf { d with review := none }) d.parser.tx
      (ioApduBufferSize - 3) salt).exec (d.store.start faults) = run := rfl
  rw [hstep, appSign, exec_get_bind, exec_bind_ok (exec_runStore _ _)]
  dsimp only [Device.start]
  rw [hrun]
  constructor
  · intro e r hr
    rw [hr]
    rfl
  · intro digest r hr hdigest
    have hwrite : overwrite (overwrite d.ioApduBuffer 0 digest) (0 + digest.length)
        (be16.encode apduCodeOk) = overwrite d.ioApduBuffer 0 (digest ++ be16.encode apduCodeOk) :=
      overwrite_overwrite (Nat.zero_le _)
    have htake := take_overwrite d.ioApduBuffer (digest ++ be16.encode apduCodeOk)
    rw [← hwrite, Nat.zero_add, List.length_append, length_be16_encode] at htake
    rw [hr]
    show some ((overwrite (overwrite d.ioApduBuffer 0 digest) sha384DigestLen
      (be16.encode apduCodeOk)).take (sha384DigestLen + 2)) = _
    rw [← hdigest, htake]
    rfl

/-- The parse of an accepted buffer, and the digest of what it yields. -/
theorem getDigest_of_verdict (hverdict : txVerdict pf d = .ok none) :
    (parserGetDigest pf.sha384 (txBuffer pf d) (txParsed pf d).tx sha384DigestLen).val =
      .ok (d.deepHash pf).val :=
  val_parserGetDigest pf.sha384
    (fits_of_valid (valid_of_parserParse le_rfl (accepted_of_txVerdict pf hverdict).1))

/-- What an approval leaves behind and answers. -/
structure Signs (d : Device σ) (salt : Bytes) (step : Device σ × Output) : Prop where
  reply : step.2.reply = some ((d.deepHash pf).val ++ statusReply apduCodeOk)
  signed : step.2.signed = [d.signature pf salt]
  store : step.1.store = d.store.withSig (d.signature pf salt)

/-- An approval that is answered with success has signed the transaction in the buffer.

**Proof sketch.** An error of `crypto_sign` would have been answered as such. So it has not failed,
and `cryptoSign_spec` says what it has stored. -/
theorem signs_of_statusOf (hverdict : txVerdict pf d = .ok none) (io salt : Bytes)
    (faults : List Bool) :
    let step := (device pf).step ((d.reviewing pf).setIo io) (.approve salt faults)
    statusOf (step.2.reply.getD []) = apduCodeOk → Signs pf d salt step := by
  intro step hstatus
  have hstep : step = ((d.reviewing pf).setIo io).run (closeReview (appSign pf salt)) faults := rfl
  obtain ⟨hstore, hsigned⟩ := run_appSign pf ((d.reviewing pf).setIo io) salt faults
  obtain ⟨hfail, hreply⟩ := reply_appSign pf ((d.reviewing pf).setIo io) salt faults
  rw [← hstep] at hstore hsigned hfail hreply
  have hspec := cryptoSign_spec pf.sdk pf.sha384 (txBuffer pf d) (txParsed pf d).tx
    (ioApduBufferSize - 3) salt (d.store.start faults)
  unfold Ensures at hspec
  rcases hrun : (cryptoSign pf.sdk pf.sha384 (txBuffer pf d) (txParsed pf d).tx
    (ioApduBufferSize - 3) salt).exec (d.store.start faults) with ⟨e | digest, r⟩
  · rw [hfail e r hrun] at hstatus
    exact absurd hstatus (by decide)
  · rw [hrun] at hspec
    obtain ⟨hdigest, -, hst, hsg⟩ := hspec
    rw [getDigest_of_verdict pf hverdict] at hdigest
    obtain rfl := Except.ok.inj hdigest
    refine ⟨hreply _ r hrun (d.deepHash pf).property, hsigned.trans ?_, hstore.trans ?_⟩
    · exact (congrArg (fun run => run.2.signed) hrun).trans hsg
    · exact (congrArg (fun run => run.2.store) hrun).trans hst

/-- If no call of the SDK fails, an approval is answered with success.

**Proof sketch.** What is accepted has a digest, and the slot in use is initialized, so nothing of
`crypto_sign` fails. -/
theorem statusOf_approve (hverdict : txVerdict pf d = .ok none) (io salt : Bytes) :
    statusOf (((device pf).step ((d.reviewing pf).setIo io) (.approve salt [])).2.reply.getD []) =
      apduCodeOk := by
  obtain ⟨hparse, hvalid⟩ := accepted_of_txVerdict pf hverdict
  have hinit := (owner_of_parserValidate hparse hvalid).1
  have hrun : ∃ r, (cryptoSign pf.sdk pf.sha384 (txBuffer pf d) (txParsed pf d).tx
      (ioApduBufferSize - 3) salt).exec (d.store.start []) = (.ok (d.deepHash pf).val, r) :=
    exec_cryptoSign hinit (by decide) (getDigest_of_verdict pf hverdict)
  obtain ⟨r, hrun⟩ := hrun
  have hreply := (reply_appSign pf ((d.reviewing pf).setIo io) salt []).2 _ r hrun
    (d.deepHash pf).property
  have hstep : (device pf).step ((d.reviewing pf).setIo io) (.approve salt []) =
      ((d.reviewing pf).setIo io).run (closeReview (appSign pf salt)) [] := rfl
  rw [hstep, hreply]
  exact statusOf_ok _

/-- A rejection is answered with an error. -/
theorem statusOf_reject (d : Device σ) (io : Bytes) :
    statusOf (((device pf).step ((d.reviewing pf).setIo io) .reject).2.reply.getD []) ≠
      apduCodeOk := by
  have hreply : ((device pf).step ((d.reviewing pf).setIo io) .reject).2.reply =
      some (be16.encode apduCodeCommandNotAllowed) := rfl
  rw [hreply]
  decide

/-- **`LAST`**, if it is answered with success: an upload was open, its payload has been appended,
what was then in the buffer was accepted, and the user has approved it.

**Proof sketch.** By contraposition: `LAST` that is refused, rejected by the user, or fails at
signing is answered with an error. -/
theorem exchange_last_ok {c : Choice} {payload : Bytes} (hproc : Processed c d)
    (hlen : payload.length < 256) :
    let x := exchange pf c (command insSign p1Last 0 payload hlen) d
    statusOf x.response = apduCodeOk →
      d.txInitialized = true ∧ ∃ d' salt, d.append pf payload = some d' ∧
        txVerdict pf d' = .ok none ∧
        x.response = (d'.deepHash pf).val ++ statusReply apduCodeOk ∧
        x.stored = [d'.signature pf salt] ∧
        x.dev.store = d'.store.withSig (d'.signature pf salt) := by
  intro x hok
  have haccepted : ∃ d', d.txInitialized = true ∧ d.append pf payload = some d' ∧
      txVerdict pf d' = .ok none := by
    by_contra hno
    refine exchange_last_refused pf hproc hlen ?_ hok
    intro d' hopen happend hverdict
    exact hno ⟨d', hopen, happend, hverdict⟩
  obtain ⟨d', hopen, happend, hverdict⟩ := haccepted
  obtain ⟨io, hx⟩ := exchange_last pf hproc hlen hopen happend hverdict
  have hx' : x = _ := hx
  rw [hx'] at hok ⊢
  refine ⟨hopen, d', ?_⟩
  unfold Choice.answer at hok ⊢
  cases happroval : c.approval with
  | none =>
    rw [happroval] at hok
    exact absurd hok (statusOf_reject pf d' io)
  | some approval =>
    obtain ⟨salt, faults⟩ := approval
    rw [happroval] at hok
    obtain ⟨hreply, hsigned, hstore⟩ := signs_of_statusOf pf hverdict io salt faults hok
    dsimp only
    exact ⟨salt, happend, hverdict, by rw [hreply]; rfl, hsigned, hstore⟩

/-- **`LAST`** is answered with success if all this is so and no call of the SDK fails.

**Proof sketch.** The review is opened by `exchange_last` and approved by assumption, which succeeds
by `statusOf_approve`. -/
theorem statusOf_last {c : Choice} {payload salt : Bytes} {d' : Device σ} (hproc : Processed c d)
    (hlen : payload.length < 256) (hopen : d.txInitialized = true)
    (happend : d.append pf payload = some d') (hverdict : txVerdict pf d' = .ok none)
    (happroval : c.approval = some (salt, [])) :
    statusOf (exchange pf c (command insSign p1Last 0 payload hlen) d).response = apduCodeOk := by
  obtain ⟨io, hx⟩ := exchange_last pf hproc hlen hopen happend hverdict
  rw [hx]
  dsimp only
  rw [Choice.answer, happroval]
  exact statusOf_approve pf hverdict io salt

end Answer

/-! ## The parts of the signature -/

/-- While a signature is set, both parts of it are there. -/
theorem CryptoStore.handOut_of_set {st : CryptoStore} (hset : st.signatureSet = 1) {i : ℕ}
    (hi : i ≤ 1) :
    st.handOut i =
      (.ok (halve (st.flash.sigs st.slotInUse) i), if i = 1 then st.spent else st) := by
  rw [CryptoStore.handOut, if_neg (not_not.mpr hset), if_neg (Nat.not_lt.mpr hi)]

/-- **A part of the signature**: while a signature is set, `GET_SIG` returns its parts; the first
one stays available.

**Proof sketch.** By the step of `GET_SIG`; only the second half is spent. -/
theorem exchange_getSig {c : Choice} {d : Device σ} (hproc : Processed c d)
    (hset : d.store.signatureSet = 1) {i : ℕ} (hi : i ≤ 1) :
    ∃ d', exchange pf c (command insGetSig 0 (UInt8.ofNat i) [] (by decide)) d =
        ⟨d', halve (d.store.flash.sigs d.store.slotInUse) i ++ statusReply apduCodeOk, []⟩ ∧
      (i = 0 → d'.store = d.store) := by
  obtain ⟨hrefusal, hinit⟩ := hproc
  have hr : requestOf insGetSig d
      (.apdu (command insGetSig 0 (UInt8.ofNat i) [] (by decide)) none c.faults) =
        some (0, UInt8.ofNat i, 0) := requestOf_eq_some c.faults rfl hinit
  have hindex : (UInt8.ofNat i).toNat = i := by
    rw [UInt8.toNat_ofNat']
    omega
  obtain ⟨io, hstep⟩ := (step_getSig pf hr).2 rfl
  rw [hindex, CryptoStore.handOut_of_set hset hi] at hstep
  refine ⟨Device.setIo { d with store := if i = 1 then d.store.spent else d.store } io, ?_, ?_⟩
  · rw [exchange, hrefusal, hstep]
    rfl
  · rintro rfl
    rfl

end Exchange

end LedgerArweave
