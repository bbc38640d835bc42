import LedgerArweave.Lib.Fallible
import LedgerArweave.Wire

set_option relaxedAutoImplicit false
set_option autoImplicit false

/-!
# The transaction parser

`parser_impl.c` and `parser_parse` of `parser.c`. A transaction is not copied out of the
received buffer: the parser records the length and the address of every element in the global
`parser_tx_obj`, field by field, so a failing parse leaves a partly overwritten object behind.
The functions therefore run in a monad that keeps the context and the object when an error
is returned.

## Main definitions

* `Memory` — a region of mapped memory.
* `ParserContext`, `ParserElement`, `ParserTag`, `ParserTx` — the structs of
  `parser_common.h` and `parser_txdef.h`.
* `parserReadU16`, `parserReadElement`, `parserReadTag`, `read`, `parserParse` — the parser.

## Implementation notes

Addresses are natural numbers, `NULL` is `0`. `uint16_t` values are natural numbers with the
truncation `u16` where the C code assigns to one. A read outside the mapped region stops the
parser with `ParserStop.fault`, which no C function returns. `ParserState.wrapped` is a ghost:
it records whether an advance of the offset ever exceeded 16 bits.
-/

namespace LedgerArweave

/-! ## Memory -/

/-- The value of `n` after assignment to a `uint16_t`. -/
def u16 (n : ℕ) : ℕ := n % 65536

/-- A region of mapped memory: its first address and its bytes. -/
structure Memory where
  base : ℕ
  bytes : Bytes
deriving DecidableEq

/-- The byte at an address, if it is mapped. -/
def Memory.read (m : Memory) (p : ℕ) : Option UInt8 :=
  if m.base ≤ p then m.bytes[p - m.base]? else none

/-- The mapped bytes from an address on. -/
def Memory.suffix (m : Memory) (p : ℕ) : Bytes :=
  if m.base ≤ p then m.bytes.drop (p - m.base) else []

/-! ## The structs -/

/-- `parser_error_t` without `parser_ok`. -/
inductive ParserError where
  | noData
  | initContextEmpty
  | displayIdxOutOfRange
  | displayPageOutOfRange
  | unexpectedError
  | unexpectedTxVersion
  | unexpectedType
  | unexpectedBufferEnd
  | unexpectedValue
  | unexpectedNumberItems
  | unexpectedCharacters
  | unexpectedField
  | valueOutOfRange
  | invalidAddress
  | contextMismatch
  | contextUnexpectedSize
  | contextInvalidChars
  | contextUnknownPrefix
  | requiredNonce
  | requiredMethod
deriving DecidableEq

/-- `parser_getErrorDescription` -/
def parserGetErrorDescription : ParserError → String
  | .noData => "No more data"
  | .initContextEmpty => "Initialized empty context"
  | .displayIdxOutOfRange => "display_idx_out_of_range"
  | .displayPageOutOfRange => "display_page_out_of_range"
  | .unexpectedError => "Unexepected internal error"
  | .unexpectedTxVersion => "tx version is not supported"
  | .unexpectedType => "Unexpected data type"
  | .unexpectedBufferEnd => "Unexpected buffer end"
  | .unexpectedValue => "Unexpected value"
  | .unexpectedNumberItems => "Unexpected number of items"
  | .unexpectedCharacters => "Unexpected characters"
  | .unexpectedField => "Unexpected field"
  | .valueOutOfRange => "Value out of range"
  | .invalidAddress => "Invalid address format"
  | .contextMismatch => "context prefix is invalid"
  | .contextUnexpectedSize => "context unexpected size"
  | .contextInvalidChars => "context invalid chars"
  | .requiredNonce => "Required field nonce"
  | .requiredMethod => "Required field method"
  | .contextUnknownPrefix => "Unrecognized error code"

/-- `parser_context_t` -/
structure ParserContext where
  buffer : ℕ
  bufferLen : ℕ
  offset : ℕ
deriving DecidableEq

/-- `parser_element_t` -/
structure ParserElement where
  len : ℕ
  ptr : ℕ
deriving DecidableEq

/-- `parser_tag_t` -/
structure ParserTag where
  key : ParserElement
  value : ParserElement
deriving DecidableEq

/-- `parser_tx_t`. The array of `MAX_NUMBER_TAGS` tags is a function of the index; every
access is guarded by a comparison with `tags_count` or `MAX_NUMBER_TAGS`. -/
structure ParserTx where
  format : ParserElement
  owner : ParserElement
  target : ParserElement
  quantity : ParserElement
  reward : ParserElement
  lastTx : ParserElement
  tagsCount : ℕ
  tags : ℕ → ParserTag
  dataSize : ParserElement
  dataRoot : ParserElement

/-- A `parser_tx_t` of zero bytes. -/
def ParserTx.zero : ParserTx :=
  ⟨⟨0, 0⟩, ⟨0, 0⟩, ⟨0, 0⟩, ⟨0, 0⟩, ⟨0, 0⟩, ⟨0, 0⟩, 0, fun _ => ⟨⟨0, 0⟩, ⟨0, 0⟩⟩, ⟨0, 0⟩, ⟨0, 0⟩⟩

/-- The bytes an element points to; unmapped ones read as zero. -/
def Memory.deref (m : Memory) (v : ParserElement) : Bytes :=
  (List.range v.len).map fun i => (m.read (v.ptr + i)).getD 0

/-- An element has as many bytes as its length says. -/
@[simp]
theorem Memory.length_deref (m : Memory) (v : ParserElement) : (m.deref v).length = v.len := by
  rw [Memory.deref, List.length_map, List.length_range]

/-- What the parser works on: `ctx`, the global `parser_tx_obj`, and a ghost that becomes
true when an advance of the offset exceeds 16 bits. -/
structure ParserState where
  ctx : ParserContext
  tx : ParserTx
  wrapped : Bool

/-- The state before the first parse: static memory is zero. -/
def ParserState.zero : ParserState := ⟨⟨0, 0, 0⟩, .zero, false⟩

/-- Why the parser stops early: it returns an error, or it reads unmapped memory. -/
inductive ParserStop where
  | error (e : ParserError)
  | fault
deriving DecidableEq

/-- Parser functions: the state survives an error, as the memory behind the pointers does. -/
abbrev ParserM := Fallible ParserStop ParserState

/-- Return an error code. -/
def parserFail {α : Type} (e : ParserError) : ParserM α := throw (.error e)

/-- A pointer to an element of `parser_tx_obj`, given by how the object changes with it. -/
structure ElementRef where
  update : (ParserElement → ParserElement) → ParserTx → ParserTx

namespace ElementRef

/-- `&v->format` -/
def format : ElementRef := ⟨fun f v => { v with format := f v.format }⟩

/-- `&v->owner` -/
def owner : ElementRef := ⟨fun f v => { v with owner := f v.owner }⟩

/-- `&v->target` -/
def target : ElementRef := ⟨fun f v => { v with target := f v.target }⟩

/-- `&v->quantity` -/
def quantity : ElementRef := ⟨fun f v => { v with quantity := f v.quantity }⟩

/-- `&v->reward` -/
def reward : ElementRef := ⟨fun f v => { v with reward := f v.reward }⟩

/-- `&v->last_tx` -/
def lastTx : ElementRef := ⟨fun f v => { v with lastTx := f v.lastTx }⟩

/-- `&v->tags[i].key` -/
def tagKey (i : ℕ) : ElementRef :=
  ⟨fun f v => { v with tags := Function.update v.tags i { v.tags i with key := f (v.tags i).key } }⟩

/-- `&v->tags[i].value` -/
def tagValue (i : ℕ) : ElementRef :=
  ⟨fun f v =>
    { v with tags := Function.update v.tags i { v.tags i with value := f (v.tags i).value } }⟩

/-- `&v->data_size` -/
def dataSize : ElementRef := ⟨fun f v => { v with dataSize := f v.dataSize }⟩

/-- `&v->data_root` -/
def dataRoot : ElementRef := ⟨fun f v => { v with dataRoot := f v.dataRoot }⟩

end ElementRef

/-! ## The reading functions -/

/-- Change `parser_tx_obj`. -/
def modifyTx (f : ParserTx → ParserTx) : ParserM Unit := modify fun s => { s with tx := f s.tx }

/-- Read one byte of memory. -/
def readByte (m : Memory) (p : ℕ) : ParserM UInt8 :=
  match m.read p with
  | some b => pure b
  | none => throw .fault

/-- `CTX_CHECK_AVAIL` -/
def ctxCheckAvail (size : ℕ) : ParserM Unit := do
  let s ← get
  if s.ctx.offset + size > s.ctx.bufferLen then parserFail .unexpectedBufferEnd

/-- `CTX_CHECK_AND_ADVANCE` -/
def ctxCheckAndAdvance (size : ℕ) : ParserM Unit := do
  ctxCheckAvail size
  modify fun s =>
    { s with
      ctx := { s.ctx with offset := u16 (s.ctx.offset + size) }
      wrapped := s.wrapped || decide (65536 ≤ s.ctx.offset + size) }

/-- `parser_readU16`; the caller stores the result where its pointer argument points. -/
def parserReadU16 (m : Memory) : ParserM ℕ := do
  ctxCheckAvail 2
  let c := (← get).ctx
  let hi ← readByte m (c.buffer + c.offset)
  let lo ← readByte m (c.buffer + c.offset + 1)
  ctxCheckAndAdvance 2
  return u16 (u16 (hi.toNat * 256) + lo.toNat)

/-- `parser_readElement`. The length is stored before it is known to fit the buffer. -/
def parserReadElement (m : Memory) (v : ElementRef) : ParserM Unit := do
  let len ← parserReadU16 m
  modifyTx (v.update fun x => { x with len := len })
  ctxCheckAvail len
  let c := (← get).ctx
  modifyTx (v.update fun x => { x with ptr := c.buffer + c.offset })
  ctxCheckAndAdvance len

/-- `parser_readTag` on `v->tags[i]` -/
def parserReadTag (m : Memory) (i : ℕ) : ParserM Unit := do
  parserReadElement m (.tagKey i)
  parserReadElement m (.tagValue i)

/-- The loop of `_read` over the tags `i`, `i + 1`, …, as many as the first argument says. -/
def readTags (m : Memory) : ℕ → ℕ → ParserM Unit
  | 0, _ => pure ()
  | k + 1, i => do
    parserReadTag m i
    readTags m k (i + 1)

/-- The format part of `_read` -/
def readFormat (m : Memory) : ParserM Unit := do
  parserReadElement m .format
  let v := (← get).tx
  if v.format.len ≠ 1 then parserFail .unexpectedTxVersion
  if (← readByte m v.format.ptr) ≠ 0x32 then parserFail .unexpectedTxVersion

/-- The owner part of `_read` -/
def readOwner (m : Memory) : ParserM Unit := do
  parserReadElement m .owner
  let v := (← get).tx
  if v.owner.len ≠ rsaModulusLen then parserFail .unexpectedTxVersion

/-- The tags part of `_read` -/
def readTagList (m : Memory) : ParserM Unit := do
  let n ← parserReadU16 m
  modifyTx fun v => { v with tagsCount := n }
  if n > maxNumberTags then parserFail .valueOutOfRange
  readTags m n 0

/-- `_read` -/
def read (m : Memory) : ParserM Unit := do
  readFormat m
  readOwner m
  parserReadElement m .target
  parserReadElement m .quantity
  parserReadElement m .reward
  parserReadElement m .lastTx
  readTagList m
  parserReadElement m .dataSize
  parserReadElement m .dataRoot

/-- `parser_init_context` -/
def parserInitContext (buffer bufferSize : ℕ) : ParserM Unit := do
  modify fun s => { s with ctx := ⟨0, 0, 0⟩ }
  if bufferSize = 0 ∨ buffer = 0 then parserFail .initContextEmpty
  modify fun s => { s with ctx := { s.ctx with buffer := buffer, bufferLen := bufferSize } }

/-- `parser_init` -/
def parserInit (buffer bufferSize : ℕ) : ParserM Unit := parserInitContext buffer bufferSize

/-- `parser_parse`. The `size_t` length is passed on as a `uint16_t`. -/
def parserParse (m : Memory) (data dataLen : ℕ) : ParserM Unit := do
  if dataLen < 1 then parserFail .noData
  parserInit data (u16 dataLen)
  read m

end LedgerArweave
