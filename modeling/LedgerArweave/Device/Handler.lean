import LedgerArweave.Lib.Machine
import LedgerArweave.Parser.Display
import LedgerArweave.Parser.Unambiguous

set_option relaxedAutoImplicit false
set_option autoImplicit false

/-!
# The device

`apdu_handler.c`, `tx.c` and `actions.h`: the commands of the host, the upload of a transaction
in chunks, and the answers given when the user has decided on a review. A command runs in a monad
whose error is the code thrown, since the handlers also return by throwing; what they have changed
by then stays.

## Main definitions

* `Buffering`, `Buffering.Lawful` — the upload buffer.
* `Platform` — everything the app is linked with.
* `Device` — the state of the app.
* `processChunk`, `handleSign`, `handleApdu` — the commands.
* `appSign`, `appReject`, `appReplyAddress` — the answers after a review.
* `device` — the app as a machine, with commands, decisions of the user and resets as events.

## Implementation notes

`zxlib` and the SDK are parameters. `buffering_get_buffer` gives the address and the bytes
received; the memory the parser sees consists of these bytes. What `CHECK_PIN_VALIDATED` throws
on a locked device is part of the event, as is which calls of the SDK fail. The screens are
left out: `Device.review` records the callback of a review shown, which runs when the user
approves. The static `tx_obj` of `tx.c` is cleared and never read, and is left out.

`Output.parsed` and `Output.signed` are ghosts: the buffer `tx_parse` is called on and the
signatures handed to `crypto_store_signature` in a step.
-/

namespace LedgerArweave

/-! ## Codes -/

/-- `CLA` -/
def claByte : UInt8 := 0x44

/-- `INS_GET_VERSION` -/
def insGetVersion : UInt8 := 0x00

/-- `INS_GET_ADDR` -/
def insGetAddr : UInt8 := 0x01

/-- `INS_SIGN` -/
def insSign : UInt8 := 0x02

/-- `INS_GET_SIG` -/
def insGetSig : UInt8 := 0x10

/-- `INS_GET_PK` -/
def insGetPk : UInt8 := 0x20

/-- `P1_INIT` -/
def p1Init : UInt8 := 0

/-- `P1_ADD` -/
def p1Add : UInt8 := 1

/-- `P1_LAST` -/
def p1Last : UInt8 := 2

/-- `APDU_CODE_OK` -/
def apduCodeOk : ℕ := 0x9000

/-- `APDU_CODE_EXECUTION_ERROR` -/
def apduCodeExecutionError : ℕ := 0x6400

/-- `APDU_CODE_WRONG_LENGTH` -/
def apduCodeWrongLength : ℕ := 0x6700

/-- `APDU_CODE_OUTPUT_BUFFER_TOO_SMALL` -/
def apduCodeOutputBufferTooSmall : ℕ := 0x6983

/-- `APDU_CODE_DATA_INVALID` -/
def apduCodeDataInvalid : ℕ := 0x6984

/-- `APDU_CODE_CONDITIONS_NOT_SATISFIED` -/
def apduCodeConditionsNotSatisfied : ℕ := 0x6985

/-- `APDU_CODE_COMMAND_NOT_ALLOWED` -/
def apduCodeCommandNotAllowed : ℕ := 0x6986

/-- `APDU_CODE_TX_NOT_INITIALIZED` -/
def apduCodeTxNotInitialized : ℕ := 0x6987

/-- `APDU_CODE_INVALIDP1P2` -/
def apduCodeInvalidP1P2 : ℕ := 0x6B00

/-- `APDU_CODE_INS_NOT_SUPPORTED` -/
def apduCodeInsNotSupported : ℕ := 0x6D00

/-- `APDU_CODE_CLA_NOT_SUPPORTED` -/
def apduCodeClaNotSupported : ℕ := 0x6E00

/-- `APDU_CODE_SIGN_VERIFY_ERROR` -/
def apduCodeSignVerifyError : ℕ := 0x6F01

/-- `EXCEPTION_IO_RESET` -/
def exceptionIoReset : ℕ := 0x10

/-- The codes `CHECK_PIN_VALIDATED` may throw: neither `APDU_CODE_OK`, nor `EXCEPTION_IO_RESET`,
which `handleApdu` does not answer but throws again. -/
abbrev ErrorCode := { e : ℕ // e < 65536 ∧ e ≠ apduCodeOk ∧ e ≠ exceptionIoReset }

/-- The status word for a thrown code, in `CATCH_OTHER`. -/
def statusWord (e : ℕ) : ℕ :=
  if e &&& 0xF000 = 0x6000 ∨ e &&& 0xF000 = apduCodeOk then e else 0x6800 ||| (e &&& 0x7FF)

/-- `IO_APDU_BUFFER_SIZE` -/
def ioApduBufferSize : ℕ := 260

/-- `APDU_MIN_LENGTH` -/
def apduMinLength : ℕ := 5

/-- `OFFSET_CLA` -/
def offsetCla : ℕ := 0

/-- `OFFSET_INS` -/
def offsetIns : ℕ := 1

/-- `OFFSET_P1` and `OFFSET_PAYLOAD_TYPE` -/
def offsetPayloadType : ℕ := 2

/-- `OFFSET_P2` -/
def offsetP2 : ℕ := 3

/-- `OFFSET_DATA_LEN` -/
def offsetDataLen : ℕ := 4

/-- `OFFSET_DATA` -/
def offsetData : ℕ := 5

/-! ## The state -/

/-- `buffering` of `zxlib`: the static variables and the functions on them. -/
structure Buffering (σ : Type) where
  /-- The variables after a reset. -/
  start : σ
  /-- `buffering_init` on the buffers of `tx.c` -/
  init : σ → σ
  /-- `buffering_reset` -/
  reset : σ → σ
  /-- `buffering_append`: the bytes to append; the number returned. -/
  append : σ → Bytes → σ × ℕ
  /-- `buffering_get_buffer()->data` -/
  address : σ → ℕ
  /-- The `buffering_get_buffer()->pos` bytes at this address. -/
  data : σ → Bytes

/-- `buffering_reset` empties the buffer; `buffering_append` appends all bytes and returns their
number, or appends nothing and returns zero. Once initialized, the buffer is one of the arrays of
`tx.c`, whose addresses are not `NULL`. -/
structure Buffering.Lawful {σ : Type} (bf : Buffering σ) : Prop where
  data_reset : ∀ s, bf.data (bf.reset s) = []
  address_reset : ∀ s, 0 < bf.address (bf.reset (bf.init s))
  address_append : ∀ s x, 0 < bf.address s → 0 < bf.address (bf.append s x).1
  append : ∀ s x,
    (bf.data (bf.append s x).1 = bf.data s ++ x ∧ (bf.append s x).2 = x.length) ∨
      (bf.data (bf.append s x).1 = bf.data s ∧ (bf.append s x).2 = 0)

/-- What the app is linked with. -/
structure Platform (σ : Type) where
  sdk : Sdk
  /-- `cx_hash_sha384` -/
  sha384 : Bytes → Digest
  zx : ZxFormat
  buffering : Buffering σ
  /-- The answer to `GET_VERSION`. -/
  version : Block 9

/-- The reviews, by the callback that runs on approval: `app_sign` or `app_reply_address`. -/
inductive Review where
  | transaction
  | address
deriving DecidableEq

/-- The state of the app. -/
structure Device (σ : Type) where
  /-- `tx_initialized` -/
  txInitialized : Bool
  buffering : σ
  /-- `ctx_parsed_tx` and `parser_tx_obj` -/
  parser : ParserState
  /-- `action_addrResponseLen` -/
  actionAddrResponseLen : ℕ
  /-- `G_io_apdu_buffer` -/
  ioApduBuffer : Bytes
  /-- The review shown. -/
  review : Option Review
  /-- `app_mode_expert` -/
  expert : Bool
  store : CryptoStore
  seed : Seed

/-- The variables of `handleApdu`, the failures to come, and the ghosts. -/
structure Handler (σ : Type) where
  dev : Device σ
  tx : ℕ
  asynchReply : Bool
  faults : List Bool
  parsed : Option Bytes
  signed : List (Block 512)

/-- Command handlers; the error is the code thrown. -/
abbrev HandlerM (σ : Type) := Fallible ℕ (Handler σ)

section Handlers

variable {σ : Type}

/-- The state in which a handler starts. -/
def Device.start (d : Device σ) (faults : List Bool) : Handler σ := ⟨d, 0, false, faults, none, []⟩

/-- Change the device. -/
def modifyDevice (f : Device σ → Device σ) : HandlerM σ Unit :=
  modify fun h => { h with dev := f h.dev }

/-- `if (condition) { THROW(code); }` -/
def throwIf (condition : Prop) [Decidable condition] (code : ℕ) : HandlerM σ Unit :=
  if condition then throw code else pure ()

/-- Run a function on the store. -/
def runStore {α : Type} (p : StoreM α) : HandlerM σ (Except ZxErr α) := do
  let h ← get
  let run := p.exec (h.dev.store.start h.faults)
  modify fun h =>
    { h with
      dev := { h.dev with store := run.2.store }
      faults := run.2.faults
      signed := h.signed ++ run.2.signed }
  return run.1

/-! ## The I/O buffer -/

/-- `G_io_apdu_buffer[i]` -/
def ioByte (i : ℕ) : HandlerM σ UInt8 := do
  return (← get).dev.ioApduBuffer.getD i 0

/-- The bytes at `&G_io_apdu_buffer[i]` -/
def ioBytes (i n : ℕ) : HandlerM σ Bytes := do
  return ((← get).dev.ioApduBuffer.drop i).take n

/-- `MEMZERO(G_io_apdu_buffer, IO_APDU_BUFFER_SIZE)` -/
def zeroIo : HandlerM σ Unit :=
  modifyDevice fun d => { d with ioApduBuffer := zeros ioApduBufferSize }

/-- Write to the I/O buffer. -/
def writeIo (pos : ℕ) (w : Bytes) : HandlerM σ Unit :=
  modifyDevice fun d => { d with ioApduBuffer := overwrite d.ioApduBuffer pos w }

/-- `*tx = n` -/
def setTx (n : ℕ) : HandlerM σ Unit := modify fun h => { h with tx := n }

/-- `*tx += n` -/
def addTx (n : ℕ) : HandlerM σ Unit := modify fun h => { h with tx := h.tx + n }

/-- `set_code` and the `io_exchange` that sends the reply. -/
def replyCode (offset code : ℕ) : HandlerM σ Unit := do
  writeIo offset (be16.encode code)
  setTx (offset + 2)

/-- `view_review_init` and `view_review_show`; the answer is given later. -/
def reviewInit (review : Review) : HandlerM σ Unit :=
  modify fun h => { h with dev := { h.dev with review := some review }, asynchReply := true }

/-! ## The transaction -/

variable (pf : Platform σ)

/-- `tx_initialize` -/
def txInitialize : HandlerM σ Unit :=
  modifyDevice fun d => { d with buffering := pf.buffering.init d.buffering }

/-- `tx_reset` -/
def txReset : HandlerM σ Unit :=
  modifyDevice fun d => { d with buffering := pf.buffering.reset d.buffering }

/-- `tx_append` -/
def txAppend (buffer : Bytes) : HandlerM σ ℕ := do
  let h ← get
  let (buffering, added) := pf.buffering.append h.dev.buffering buffer
  modifyDevice fun d => { d with buffering := buffering }
  return added

/-- The bytes received, where they are in memory: `tx_get_buffer` and `tx_get_buffer_length`. -/
def txBuffer (d : Device σ) : Memory :=
  ⟨pf.buffering.address d.buffering, pf.buffering.data d.buffering⟩

/-- `tx_parse`: a message if there is an error. What it clears first is `tx_obj`, which no function
reads. The parser does not leave the buffer, so that the fault branch is never taken. -/
def txParse : HandlerM σ (Option String) := do
  let d := (← get).dev
  let m := txBuffer pf d
  modify fun h => { h with parsed := some m.bytes }
  let (err, parser) := (parserParse m m.base m.bytes.length).exec d.parser
  modifyDevice fun d => { d with parser := parser }
  match err with
  | .error .fault => throw apduCodeExecutionError
  | .error (.error e) => return some (parserGetErrorDescription e)
  | .ok () =>
    match parserValidate pf.zx m d.store d.expert parser.tx with
    | .error e => return some (parserGetErrorDescription e)
    | .ok () => return none

/-! ## The commands -/

/-- `tx_initialized = b` -/
def setTxInitialized (b : Bool) : HandlerM σ Unit :=
  modifyDevice fun d => { d with txInitialized := b }

/-- What `P1_ADD` and `P1_LAST` share in `process_chunk`: the payload is appended, or the upload
is over. -/
def appendPayload (rx : ℕ) : HandlerM σ Unit := do
  let added ← txAppend pf (← ioBytes offsetData (rx - offsetData))
  if added ≠ rx - offsetData then
    setTxInitialized false
    throw apduCodeOutputBufferTooSmall

/-- `process_chunk` -/
def processChunk (rx : ℕ) : HandlerM σ Bool := do
  let payloadType ← ioByte offsetPayloadType
  throwIf (rx < offsetData) apduCodeWrongLength
  throwIf ((← ioByte offsetP2) ≠ 0) apduCodeInvalidP1P2
  if payloadType = p1Init then
    txInitialize pf
    txReset pf
    setTxInitialized true
    return false
  else if payloadType = p1Add then
    appendPayload pf rx
    return false
  else if payloadType = p1Last then
    throwIf (¬ (← get).dev.txInitialized) apduCodeTxNotInitialized
    appendPayload pf rx
    return true
  else
    setTxInitialized false
    throw apduCodeInvalidP1P2

/-- `handle_getversion` -/
def handleGetVersion : HandlerM σ Unit := do
  writeIo 0 pf.version.val
  addTx 9
  throw apduCodeOk

/-- `app_fill_address` -/
def appFillAddress : HandlerM σ (Except ZxErr Unit) := do
  match ← runStore (cryptoFillAddress pf.sdk (ioApduBufferSize - 2)) with
  | .error e =>
    zeroIo
    return .error e
  | .ok addrStr =>
    modifyDevice fun d =>
      { d with
        ioApduBuffer := overwrite (zeros ioApduBufferSize) 0 addrStr
        actionAddrResponseLen := addrStrLen }
    return .ok ()

/-- `handleGetAddress` -/
def handleGetAddress : HandlerM σ Unit := do
  setTx 0
  throwIf ((← ioByte offsetDataLen) ≠ 0) apduCodeCommandNotAllowed
  let requireConfirmation ← ioByte offsetPayloadType
  zeroIo
  modifyDevice fun d => { d with actionAddrResponseLen := 0 }
  let err ← appFillAddress pf
  let len := (← get).dev.actionAddrResponseLen
  if ¬ err.isOk ∨ len = 0 then
    setTx 0
    throw apduCodeExecutionError
  else if requireConfirmation ≠ 0 then reviewInit .address
  else
    setTx len
    throw apduCodeOk

/-- What `handleGetPubKeyPart` and `handleGetSigPart` share: a part of 256 bytes is fetched into
the cleared buffer. -/
def handleGetPart (getPart : ℕ → HandlerM σ (Except ZxErr Bytes)) : HandlerM σ Unit := do
  setTx 0
  throwIf ((← ioByte offsetDataLen) ≠ 0) apduCodeCommandNotAllowed
  let index ← ioByte offsetP2
  zeroIo
  match ← getPart index.toNat with
  | .error _ =>
    setTx 0
    throw apduCodeConditionsNotSatisfied
  | .ok part =>
    writeIo 0 part
    setTx 256
    throw apduCodeOk

/-- `handleGetPubKeyPart` -/
def handleGetPubKeyPart : HandlerM σ Unit :=
  handleGetPart fun index => do
    return cryptoGetpubkeyPart (← get).dev.store (ioApduBufferSize - 3) index

/-- `handleGetSigPart` -/
def handleGetSigPart : HandlerM σ Unit :=
  handleGetPart fun index => runStore (cryptoGetsignaturePart (ioApduBufferSize - 3) index)

/-- `handleSign` -/
def handleSign (rx : ℕ) : HandlerM σ Unit := do
  throwIf (¬ (← processChunk pf rx)) apduCodeOk
  match ← txParse pf with
  | some errorMsg =>
    writeIo 0 (ascii errorMsg)
    addTx (ascii errorMsg).length
    throw apduCodeDataInvalid
  | none => reviewInit .transaction

/-- `CHECK_PIN_VALIDATED` -/
def checkPinValidated (pinCheck : Option ErrorCode) : HandlerM σ Unit :=
  match pinCheck with
  | some e => throw e.val
  | none => pure ()

/-- The `switch (ins)` of `handleApdu`. -/
def switchIns (ins : UInt8) (rx : ℕ) (pinCheck : Option ErrorCode) : HandlerM σ Unit := do
  if ins = insGetVersion then handleGetVersion pf
  else if ins = insGetAddr then
    checkPinValidated pinCheck
    handleGetAddress pf
  else if ins = insSign then
    checkPinValidated pinCheck
    handleSign pf rx
  else if ins = insGetSig then
    checkPinValidated pinCheck
    handleGetSigPart
  else if ins = insGetPk then
    checkPinValidated pinCheck
    handleGetPubKeyPart
  else throw apduCodeInsNotSupported

/-- The `TRY` block of `handleApdu`. -/
def dispatchApdu (rx : ℕ) (pinCheck : Option ErrorCode) : HandlerM σ Unit := do
  throwIf ((← ioByte offsetCla) ≠ claByte) apduCodeClaNotSupported
  throwIf (rx < apduMinLength) apduCodeWrongLength
  let ins ← ioByte offsetIns
  throwIf (¬ (← get).dev.store.deviceInitialized ∧ ins ≠ insGetVersion) apduCodeTxNotInitialized
  switchIns pf ins rx pinCheck

/-- `handleApdu`: a thrown code becomes the status word after the bytes of the reply. -/
def handleApdu (rx : ℕ) (pinCheck : Option ErrorCode) : HandlerM σ Unit :=
  tryCatch (dispatchApdu pf rx pinCheck) fun e => do
    replyCode (← get).tx (statusWord e)

/-! ## The answers after a review -/

/-- `app_sign` -/
def appSign (salt : Bytes) : HandlerM σ Unit := do
  let d := (← get).dev
  match ← runStore (cryptoSign pf.sdk pf.sha384 (txBuffer pf d) d.parser.tx (ioApduBufferSize - 3)
      salt) with
  | .error _ => replyCode 0 apduCodeSignVerifyError
  | .ok digest =>
    writeIo 0 digest
    replyCode sha384DigestLen apduCodeOk

/-- `app_reject` -/
def appReject : HandlerM σ Unit := do
  zeroIo
  replyCode 0 apduCodeCommandNotAllowed

/-- `app_reply_address` -/
def appReplyAddress : HandlerM σ Unit := do
  replyCode (← get).dev.actionAddrResponseLen apduCodeOk

/-- The user has decided: the review is closed and the answer given. -/
def closeReview (answer : HandlerM σ Unit) : HandlerM σ Unit := do
  modifyDevice fun d => { d with review := none }
  answer

/-! ## The machine -/

/-- The bytes of a command, which fit the I/O buffer. -/
structure Apdu where
  bytes : Bytes
  fits : bytes.length ≤ ioApduBufferSize

/-- The bytes of a command with data. -/
def command (ins p1 p2 : UInt8) (data : Bytes) (h : data.length < 256) : Apdu where
  bytes := claByte :: ins :: p1 :: p2 :: UInt8.ofNat data.length :: data
  fits := by
    have hlen : (claByte :: ins :: p1 :: p2 :: UInt8.ofNat data.length :: data).length =
      data.length + 5 := rfl
    rw [hlen, ioApduBufferSize]
    omega

/-- What can happen to the device. -/
inductive DeviceEvent where
  /-- A reset; the device then holds a seed. -/
  | boot (seed : Seed) (faults : List Bool)
  /-- The user starts the initialization of the keys. -/
  | storeInit (faults : List Bool)
  /-- The user changes the display mode. -/
  | setExpert (expert : Bool)
  /-- A command arrives. -/
  | apdu (a : Apdu) (pinCheck : Option ErrorCode) (faults : List Bool)
  /-- The user approves the review; the signer uses a salt. -/
  | approve (salt : Bytes) (faults : List Bool)
  /-- The user rejects the review. -/
  | reject

/-- What comes out of a step: the reply to the host, and the ghosts. -/
structure Output where
  reply : Option Bytes
  parsed : Option Bytes
  signed : List (Block 512)

/-- Nothing. -/
def Output.silent : Output := ⟨none, none, []⟩

/-- The device and the output after a handler has run. -/
def Handler.finish (h : Handler σ) : Device σ × Output :=
  (h.dev, ⟨if h.asynchReply then none else some (h.dev.ioApduBuffer.take h.tx), h.parsed,
    h.signed⟩)

/-- Run a handler. -/
def Device.run (d : Device σ) (p : HandlerM σ Unit) (faults : List Bool) : Device σ × Output :=
  (p.exec (d.start faults)).2.finish

/-- The I/O buffer when a command has arrived. -/
def Device.receive (d : Device σ) (a : Apdu) : Device σ :=
  { d with ioApduBuffer := overwrite d.ioApduBuffer 0 a.bytes }

/-- A freshly installed app. -/
def Device.fresh : Device σ where
  txInitialized := false
  buffering := pf.buffering.start
  parser := .zero
  actionAddrResponseLen := 0
  ioApduBuffer := zeros ioApduBufferSize
  review := none
  expert := false
  store := .reset .zero
  seed := []

/-- The device after a reset: what is not in flash has its initial value. -/
def Device.boot (d : Device σ) (seed : Seed) (faults : List Bool) : Device σ :=
  { Device.fresh pf with
    expert := d.expert
    store := (bootStore pf.sdk seed d.store.flash faults).1
    seed := seed }

/-- The app. -/
def device : Machine (Device σ) DeviceEvent Output where
  step d
    | .boot seed faults =>
      (d.boot pf seed faults, ⟨none, none, (bootRun pf.sdk seed d.store.flash faults).2.signed⟩)
    | .storeInit faults =>
      ({ d with store := initializeStore pf.sdk d.seed d.store faults },
        ⟨none, none,
          if d.store.deviceInitialized then []
          else (storeInitRun pf.sdk d.seed d.store faults).signed⟩)
    | .setExpert expert => ({ d with expert := expert }, .silent)
    | .apdu a pinCheck faults =>
      (d.receive a).run (handleApdu pf a.bytes.length pinCheck) faults
    | .approve salt faults =>
      match d.review with
      | none => (d, .silent)
      | some .transaction => d.run (closeReview (appSign pf salt)) faults
      | some .address => d.run (closeReview appReplyAddress) faults
    | .reject =>
      match d.review with
      | none => (d, .silent)
      | some _ => d.run (closeReview appReject) []

end Handlers

end LedgerArweave
