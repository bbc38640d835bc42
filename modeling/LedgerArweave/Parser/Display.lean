import LedgerArweave.Store.Crypto

set_option relaxedAutoImplicit false
set_option autoImplicit false

/-!
# The items of the review

The display half of `parser.c`, with `_getNumItems` and `_validateTx` of `parser_impl.c` and
`tx_getItem` of `tx.c`. An item is a key and a page of a value, written as C strings into buffers
of the caller. Fields and the caller's buffers have lengths, the texts in between are C strings in
buffers of 200 bytes.

## Main definitions

* `ZxFormat` — the formatting functions of `zxlib`.
* `parserPrintTarget`, `parserPrintQuantity`, …, `parserPrintTag` — printing one field.
* `parserGetNumItems`, `parserGetItem`, `txGetItem` — the items.
* `parserValidate` — the checks before a review.

## Implementation notes

`zxlib` is a parameter. `pageStringExt` is always called on a buffer of zeros, so it is a function
of the length of the buffer. The comparisons of local and global pointers with `NULL` are left
out; an element's pointer, which is zero before the first parse, is compared where the source
does it. `_validateTx` is that of the device.
-/

namespace LedgerArweave

/-! ## C strings -/

/-- The C string at the beginning of some bytes. -/
def cstr (b : Bytes) : Bytes := b.takeWhile fun c => c ≠ 0

/-- `snprintf(buf, size, …)` for a text without terminator. -/
def snprintf (buf : Bytes) (size : ℕ) (text : Bytes) : Bytes :=
  if size = 0 then buf else overwrite buf 0 (text.take (size - 1) ++ [0])

/-- A buffer of zeros. -/
def zeros (n : ℕ) : Bytes := List.replicate n 0

/-! ## Printing -/

/-- The formatting functions of `zxlib` the parser uses. -/
structure ZxFormat where
  /-- `pageStringExt`: length of the output buffer, input and page; the output and the number
  of pages. -/
  pageStringExt : ℕ → Bytes → ℕ → Bytes × ℕ
  /-- `intstr_to_fpstr_inplace`: buffer and number of decimal places; the buffer and the
  result. -/
  intstrToFpstrInplace : Bytes → ℕ → Bytes × ℕ
  /-- `z_str3join`: buffer and the texts put before and after it; the buffer and success. -/
  zStr3join : Bytes → Bytes → Bytes → Bytes × Bool
  /-- `number_inplace_trimming` -/
  numberInplaceTrimming : Bytes → ℕ → Bytes

/-- What the caller of `parser_getItem` gets: the key, the page and the number of pages. -/
structure ItemOut where
  outKey : Bytes
  outVal : Bytes
  pageCount : ℕ
deriving DecidableEq

/-- Functions that print an item. -/
abbrev ItemM := Fallible ParserError ItemOut

/-- `MEMZERO(outVal, outValLen)` -/
def zeroVal : ItemM Unit := modify fun o => { o with outVal := zeros o.outVal.length }

/-- `snprintf(outKey, outKeyLen, …)` -/
def setKey (text : Bytes) : ItemM Unit :=
  modify fun o => { o with outKey := snprintf o.outKey o.outKey.length text }

/-- `sizeof(uibuffer)` -/
def uibufferLen : ℕ := 200

section Print

variable (zx : ZxFormat) (m : Memory)

/-- `pageStringExt(outVal, outValLen, text, …, pageIdx, pageCount)` -/
def pageText (text : Bytes) (pageIdx : ℕ) : ItemM Unit :=
  modify fun o =>
    { o with
      outVal := (zx.pageStringExt o.outVal.length text pageIdx).1
      pageCount := (zx.pageStringExt o.outVal.length text pageIdx).2 }

/-- Print a field in base64url. -/
def printB64url (v : ParserElement) (pageIdx : ℕ) : ItemM Unit := do
  zeroVal
  let (uibuffer, len) := b64urlEncode (zeros uibufferLen) v.ptr (m.deref v)
  if len = 0 then throw .unexpectedBufferEnd
  pageText zx (cstr uibuffer) pageIdx

/-- `parser_printTarget` -/
def parserPrintTarget (v : ParserElement) (pageIdx : ℕ) : ItemM Unit := printB64url zx m v pageIdx

/-- `parser_printLastTx` -/
def parserPrintLastTx (v : ParserElement) (pageIdx : ℕ) : ItemM Unit := printB64url zx m v pageIdx

/-- `parser_printData` -/
def parserPrintData (v : ParserElement) (pageIdx : ℕ) : ItemM Unit := printB64url zx m v pageIdx

/-- `parser_printQuantity` -/
def parserPrintQuantity (c : ParserElement) (decimalPlaces : ℕ) (trimTrailingZeros : Bool)
    (after before : Bytes) (pageIdx : ℕ) : ItemM Unit := do
  if c.len > uibufferLen then throw .unexpectedError
  zeroVal
  modify fun o => { o with pageCount := 1 }
  let bufferUI := overwrite (zeros uibufferLen) 0 (m.deref c)
  let (bufferUI, formatted) := zx.intstrToFpstrInplace bufferUI decimalPlaces
  if formatted = 0 then throw .unexpectedValue
  let (bufferUI, joined) := zx.zStr3join bufferUI before after
  if ¬ joined then throw .unexpectedBufferEnd
  let bufferUI := if trimTrailingZeros then zx.numberInplaceTrimming bufferUI 1 else bufferUI
  pageText zx (cstr (bufferUI.take uibufferLen)) pageIdx

/-- `parser_printSize` -/
def parserPrintSize (v : ParserElement) (pageIdx : ℕ) : ItemM Unit := do
  if v.len > uibufferLen then throw .unexpectedError
  zeroVal
  pageText zx (cstr (overwrite (zeros uibufferLen) 0 (m.deref v))) pageIdx

/-- `parser_printReward` -/
def parserPrintReward (v : ParserElement) (pageIdx : ℕ) : ItemM Unit := do
  zeroVal
  pageText zx (m.deref v) pageIdx

/-- `parser_printTag`. The name is printed as the C string at its address. -/
def parserPrintTag (v : ParserTag) (pageIdx : ℕ) : ItemM Unit := do
  modify fun o => { o with outKey := zeros o.outKey.length }
  zeroVal
  modify fun o =>
    let maxKeyLen := if o.outKey.length ≥ v.key.len + 1 then v.key.len + 1 else o.outKey.length
    { o with outKey := snprintf o.outKey maxKeyLen (cstr (m.suffix v.key.ptr)) }
  pageText zx (m.deref v.value) pageIdx

/-! ## The items -/

/-- `CONST_NUM_UI_ITEMS` -/
def constNumUiItems : ℕ := 4

/-- `DATA_SIZE_NUM_UI_ITEMS` -/
def dataSizeNumUiItems : ℕ := 1

/-- `DATA_ROOT_NUM_UI_ITEMS`, if there is a data root -/
def dataRootNumUiItems (v : ParserTx) : ℕ := if v.dataRoot.len ≠ 0 then 1 else 0

/-- `_getNumItems` and `parser_getNumItems` -/
def parserGetNumItems (expert : Bool) (v : ParserTx) : ℕ :=
  if ¬ expert then constNumUiItems
  else (constNumUiItems + v.tagsCount + dataSizeNumUiItems + dataRootNumUiItems v) % 256

/-- `COIN_AMOUNT_DECIMAL_PLACES` -/
def coinAmountDecimalPlaces : ℕ := 12

/-- `COIN_DEFAULT_DENOM_REPR` -/
def coinDefaultDenomRepr : Bytes := ascii "AR "

/-- The items after the fixed ones: the data root if there is one, then the tags. -/
def getExtraItem (tx : ParserTx) (displayIdx pageIdx : ℕ) : ItemM Unit := do
  if displayIdx = 5 ∧ tx.dataRoot.len ≠ 0 then
    setKey (ascii "Data root")
    parserPrintData zx m tx.dataRoot pageIdx
  else
    let tagIdx :=
      u16 (displayIdx + 65536 - (constNumUiItems + dataSizeNumUiItems + dataRootNumUiItems tx))
    if tagIdx ≥ maxNumberTags then throw .unexpectedValue
    parserPrintTag zx m (tx.tags tagIdx) pageIdx

/-- `parser_getItem` -/
def parserGetItem (expert : Bool) (tx : ParserTx) (displayIdx pageIdx : ℕ) : ItemM Unit := do
  modify fun o => ⟨zeros o.outKey.length, zeros o.outVal.length, 0⟩
  setKey (ascii "? " ++ decimal displayIdx)
  modify fun o => { o with outVal := snprintf o.outVal o.outVal.length (ascii "?") }
  if displayIdx ≥ parserGetNumItems expert tx then throw .noData
  modify fun o => { o with pageCount := 1 }
  match displayIdx with
  | 0 =>
    setKey (ascii "Target")
    parserPrintTarget zx m tx.target pageIdx
  | 1 =>
    setKey (ascii "Quantity")
    parserPrintQuantity zx m tx.quantity coinAmountDecimalPlaces true [] coinDefaultDenomRepr
      pageIdx
  | 2 =>
    setKey (ascii "Reward")
    parserPrintReward zx m tx.reward pageIdx
  | 3 =>
    setKey (ascii "Last tx")
    parserPrintLastTx zx m tx.lastTx pageIdx
  | 4 =>
    setKey (ascii "Data size")
    parserPrintSize zx m tx.dataSize pageIdx
  | _ => getExtraItem zx m tx displayIdx pageIdx

/-! ## Items by their index on the screen -/

/-- The error codes of `tx_getItem`. -/
def convertParserError : ParserError → ZxErr
  | .noData | .displayIdxOutOfRange | .displayPageOutOfRange => .noData
  | _ => .unknown

/-- `tx_getItem`. The index is an `int8_t`, compared with the number of items as an `int`. -/
def txGetItem (expert : Bool) (tx : ParserTx) (displayIdx : Int8) (pageIdx : ℕ) :
    Fallible ZxErr ItemOut Unit := do
  if displayIdx.toInt < 0 ∨ displayIdx.toInt > parserGetNumItems expert tx then throw .noData
  ExceptT.adapt convertParserError (parserGetItem zx m expert tx displayIdx.toInt.toNat pageIdx)

/-! ## Validation -/

/-- One round of the loop of `_validateTx`: a half of the owner is that of the public key in
use. -/
def checkOwnerPart (st : CryptoStore) (tx : ParserTx) (i : ℕ) : Except ParserError Unit :=
  match cryptoGetpubkeyPart st rsaModulusHalve i with
  | .error _ => .error .unexpectedError
  | .ok rsakey =>
    if m.deref ⟨rsaModulusHalve, tx.owner.ptr + i * rsaModulusHalve⟩ ≠ rsakey then
      .error .unexpectedError
    else .ok ()

/-- `_validateTx` -/
def validateTx (st : CryptoStore) (tx : ParserTx) : Except ParserError Unit :=
  forM [0, 1] (checkOwnerPart m st tx)

/-- The buffers of `parser_validate`. -/
def tmpOut : ItemOut := ⟨zeros 40, zeros 40, 0⟩

/-- `parser_validate` -/
def parserValidate (st : CryptoStore) (expert : Bool) (tx : ParserTx) : Except ParserError Unit :=
  (validateTx m st tx).bind fun _ =>
    forM (List.range (parserGetNumItems expert tx)) fun idx =>
      ((parserGetItem zx m expert tx idx 0).exec tmpOut).1

end Print

end LedgerArweave
