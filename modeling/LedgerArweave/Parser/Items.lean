import LedgerArweave.Lib.Slices
import LedgerArweave.Parser.Display
import LedgerArweave.Parser.Unambiguous
import Mathlib.Data.List.TakeWhile

set_option relaxedAutoImplicit false
set_option autoImplicit false

/-!
# What the items contain

The items of `parser.c` in terms of the fields of the transaction: one equation for each printing
function, and what a successful `parser_validate` says about the fields.

## Main definitions

* `ZxFormat.Pages` — the law of `pageStringExt`.

## Main results

* `exec_printB64url`, `cstr_tagKey` — the printing functions.
* `validateTx_eq_ok` — the owner of a validated transaction is the key in use.
* `parserValidate_eq_ok` — validation checks the owner and prints page 0 of every item.
-/

namespace LedgerArweave

open Fallible (exec_bind exec_bind_ok exec_bind_error)

/-! ## C strings -/

/-- Bytes without a terminator are a C string as a whole. -/
theorem cstr_of_notMem {b : Bytes} (h : 0 ∉ b) : cstr b = b := by
  rw [cstr, List.takeWhile_eq_self_iff]
  intro c hc
  have hne : c ≠ 0 := fun h0 => h (h0 ▸ hc)
  simpa using hne

/-- A text before a terminator is read back. -/
theorem cstr_append_cons {b r : Bytes} (h : 0 ∉ b) : cstr (b ++ 0 :: r) = b := by
  have hb : ∀ c ∈ b, decide (c ≠ 0) = true := by
    intro c hc
    have hne : c ≠ 0 := fun h0 => h (h0 ▸ hc)
    simpa using hne
  rw [cstr, List.takeWhile_append_of_pos hb]
  simp

/-- Zeros after some bytes do not change their C string. -/
theorem cstr_append_zeros (b : Bytes) (n : ℕ) : cstr (b ++ zeros n) = cstr b := by
  by_cases h : 0 ∈ b
  · obtain ⟨s, t, rfl, hs⟩ := List.eq_append_cons_of_mem h
    rw [List.append_assoc, List.cons_append, cstr_append_cons hs, cstr_append_cons hs]
  · cases n with
    | zero => rw [zeros, List.replicate_zero, List.append_nil]
    | succ n => rw [zeros, List.replicate_succ, cstr_append_cons h, cstr_of_notMem h]

/-- A C string contains no terminator. -/
theorem zero_notMem_cstr (b : Bytes) : 0 ∉ cstr b := by
  intro h
  simpa using List.mem_takeWhile_imp h

/-- The C string of a beginning is a beginning of the C string. -/
theorem cstr_take (b : Bytes) (n : ℕ) : cstr (b.take n) = (cstr b).take n :=
  List.take_takeWhile.symm

/-- A buffer of zeros has its size. -/
@[simp] theorem length_zeros (n : ℕ) : (zeros n).length = n := List.length_replicate

/-- What is written into zeros is followed by zeros. -/
theorem overwrite_zeros {n : ℕ} (text : Bytes) :
    overwrite (zeros n) 0 text = text ++ zeros (n - text.length) := by
  rw [overwrite, List.take_zero, List.nil_append, Nat.zero_add, zeros, List.drop_replicate]
  rfl

/-- A text written into a buffer of zeros is read back. -/
theorem cstr_overwrite_zeros {n : ℕ} {text : Bytes} (h : 0 ∉ text) :
    cstr (overwrite (zeros n) 0 text) = text := by
  rw [overwrite_zeros, cstr_append_zeros, cstr_of_notMem h]

/-- `snprintf` does not change the size of the buffer. -/
theorem length_snprintf {buf text : Bytes} {size : ℕ} (h : size ≤ buf.length) :
    (snprintf buf size text).length = buf.length := by
  unfold snprintf
  split_ifs with h0
  · rfl
  · apply length_overwrite
    rw [List.length_append, List.length_take, List.length_singleton]
    omega

/-- `snprintf` leaves the text in the buffer, cut if there is no room for the terminator. -/
theorem cstr_snprintf {buf text : Bytes} {size : ℕ} (hsize : size ≠ 0) (h : 0 ∉ text) :
    cstr (snprintf buf size text) = text.take (size - 1) := by
  have htake : 0 ∉ text.take (size - 1) := fun hmem => h (List.mem_of_mem_take hmem)
  rw [snprintf, if_neg hsize, overwrite, List.take_zero, List.nil_append, List.append_assoc]
  exact cstr_append_cons htake

/-! ## Pages -/

/-- `pageStringExt` cuts its input into consecutive pages of `outLen - 1` bytes, counts them in
a `uint8_t`, and fills the rest of the output with zeros. -/
structure ZxFormat.Pages (zx : ZxFormat) : Prop where
  pageCount : ∀ outLen text page, 2 ≤ outLen →
    (zx.pageStringExt outLen text page).2 = sliceCount (outLen - 1) text % 256
  page : ∀ outLen text page, 2 ≤ outLen → page < sliceCount (outLen - 1) text % 256 →
    (zx.pageStringExt outLen text page).1 = slice (outLen - 1) text page ++
      zeros (outLen - (slice (outLen - 1) text page).length)

/-- An item that shows a page of a text. -/
def ItemOut.showing (o : ItemOut) (zx : ZxFormat) (text : Bytes) (page : ℕ) : ItemOut :=
  ⟨o.outKey, (zx.pageStringExt o.outVal.length text page).1,
    (zx.pageStringExt o.outVal.length text page).2⟩

/-! ## The printing functions -/

section Print

variable (zx : ZxFormat) (m : Memory)

/-- The bytes of a mapped element follow on its address.

**Proof sketch.** Byte by byte. -/
theorem Memory.deref_eq_take {m : Memory} {v : ParserElement} (hlo : m.base ≤ v.ptr)
    (hhi : v.ptr + v.len ≤ m.base + m.bytes.length) : m.deref v = (m.suffix v.ptr).take v.len := by
  have hlen : v.len ≤ (m.suffix v.ptr).length := by
    rw [Memory.suffix, if_pos hlo, List.length_drop]
    omega
  apply List.ext_getElem
  · rw [List.length_take_of_le hlen, Memory.length_deref]
  · intro i h₁ h₂
    have hi : i < v.len := by simpa using h₁
    have hread : v.ptr - m.base + i < m.bytes.length := by omega
    have hidx : v.ptr + i - m.base = v.ptr - m.base + i := by omega
    simp only [Memory.deref, List.getElem_map, List.getElem_range, Memory.read,
      if_pos (show m.base ≤ v.ptr + i by omega), hidx, List.getElem?_eq_getElem hread,
      Option.getD_some, List.getElem_take, Memory.suffix, if_pos hlo, List.getElem_drop]

/-- **Printing in base64url**: the whole text of the field is paged, unless it is empty or does
not fit the buffer.

**Proof sketch.** By what makes the encoder return zero: no input buffer, no input, or no room. -/
theorem exec_printB64url (v : ParserElement) (page : ℕ) (o : ItemOut) :
    (printB64url zx m v page).exec o =
      if v.ptr ≠ 0 ∧ m.deref v ≠ [] ∧ (b64urlText (m.deref v)).length ≤ uibufferLen then
        (.ok (), o.showing zx (b64urlText (m.deref v)) page)
      else (.error .unexpectedBufferEnd, { o with outVal := zeros o.outVal.length }) := by
  have hempty : (b64urlText (m.deref v)).length = 0 ↔ m.deref v = [] := by
    rw [length_b64urlText, List.eq_nil_iff_length_eq_zero]
    omega
  by_cases hptr : v.ptr = 0
  · simp [printB64url, zeroVal, exec_bind, b64urlEncode, hptr]
  · by_cases hfits : (b64urlText (m.deref v)).length ≤ uibufferLen
    · by_cases hnil : m.deref v = []
      · simp [printB64url, zeroVal, exec_bind, b64urlEncode_eq _ hptr, hnil, b64urlText,
          Base64.encode]
      · have hne : (b64urlText (m.deref v)).length ≠ 0 := fun h => hnil (hempty.mp h)
        have hread : cstr (overwrite (List.replicate uibufferLen 0) 0 (b64urlText (m.deref v))) =
            b64urlText (m.deref v) := cstr_overwrite_zeros (zero_notMem_b64urlText _)
        rw [if_pos ⟨hptr, hnil, hfits⟩]
        simp [printB64url, zeroVal, exec_bind, b64urlEncode_eq _ hptr, hfits, hne, hread,
          pageText, ItemOut.showing]
    · rw [if_neg fun h => hfits h.2.2]
      simp [printB64url, zeroVal, exec_bind, b64urlEncode_eq _ hptr, hfits]

/-- What `parser_printTag` leaves in a key buffer of a given size. -/
def tagKey (v : ParserTag) (keyLen : ℕ) : Bytes :=
  snprintf (zeros keyLen) (if keyLen ≥ v.key.len + 1 then v.key.len + 1 else keyLen)
    (cstr (m.suffix v.key.ptr))

/-- **Printing a tag** never fails: the value is paged.

**Proof sketch.** Nothing in it can fail: the key is cut to its buffer, and the value is paged. -/
theorem exec_parserPrintTag (v : ParserTag) (page : ℕ) (o : ItemOut) :
    (parserPrintTag zx m v page).exec o =
      (.ok (), ItemOut.showing ⟨tagKey m v o.outKey.length, o.outVal, 0⟩ zx (m.deref v.value)
        page) := by
  simp [parserPrintTag, zeroVal, exec_bind, pageText, ItemOut.showing, tagKey]

variable {m} in
/-- The key shown for a tag is the C string of its name, cut to the buffer. -/
theorem cstr_tagKey {v : ParserTag} (hlo : m.base ≤ v.key.ptr)
    (hhi : v.key.ptr + v.key.len ≤ m.base + m.bytes.length) (keyLen : ℕ) :
    cstr (tagKey m v keyLen) = (cstr (m.deref v.key)).take (keyLen - 1) := by
  rw [Memory.deref_eq_take hlo hhi, cstr_take, List.take_take]
  rcases Nat.eq_zero_or_pos keyLen with rfl | hpos
  · simp [tagKey, snprintf, cstr, zeros]
  · rw [tagKey, cstr_snprintf (by split_ifs <;> omega) (zero_notMem_cstr _)]
    congr 1
    split_ifs <;> omega

/-! ## The items -/

/-- What the printing function of an item finds: the index as the key, a question mark as the
value. -/
def ItemOut.asked (o : ItemOut) (idx : ℕ) : ItemOut :=
  ⟨snprintf (zeros o.outKey.length) o.outKey.length (ascii "? " ++ decimal idx),
    snprintf (zeros o.outVal.length) o.outVal.length (ascii "?"), 1⟩

/-- Asking for an item leaves the size of the key buffer. -/
@[simp] theorem ItemOut.length_outKey_asked (o : ItemOut) (idx : ℕ) :
    (o.asked idx).outKey.length = o.outKey.length := by
  rw [ItemOut.asked, length_snprintf (by rw [length_zeros]), length_zeros]

/-- Asking for an item leaves the size of the value buffer. -/
@[simp] theorem ItemOut.length_outVal_asked (o : ItemOut) (idx : ℕ) :
    (o.asked idx).outVal.length = o.outVal.length := by
  rw [ItemOut.asked, length_snprintf (by rw [length_zeros]), length_zeros]

/-- Asking for an item past the fixed ones. -/
theorem exec_parserGetItem_extra {expert : Bool} (tx : ParserTx) (j : ℕ)
    (hidx : j + 5 < parserGetNumItems expert tx) (page : ℕ) (o : ItemOut) :
    (parserGetItem zx m expert tx (j + 5) page).exec o =
      (getExtraItem zx m tx (j + 5) page).exec (o.asked (j + 5)) := by
  have hlt : ¬ parserGetNumItems expert tx ≤ j + 5 := Nat.not_le.mpr hidx
  simp [parserGetItem, setKey, exec_bind, hlt, ItemOut.asked]

/-- The number of items in expert mode, which does not wrap. -/
theorem numItems_expert {tx : ParserTx} (hcount : tx.tagsCount ≤ maxNumberTags) :
    parserGetNumItems true tx = 5 + dataRootNumUiItems tx + tx.tagsCount := by
  have hroot : dataRootNumUiItems tx ≤ 1 := by
    unfold dataRootNumUiItems
    split_ifs <;> omega
  have hcount' : tx.tagsCount ≤ 16 := hcount
  simp only [parserGetNumItems, constNumUiItems, dataSizeNumUiItems]
  rw [if_neg (by simp)]
  omega

/-- There are always the first four items. -/
theorem constNumUiItems_le {tx : ParserTx} {expert : Bool}
    (hcount : tx.tagsCount ≤ maxNumberTags) : constNumUiItems ≤ parserGetNumItems expert tx := by
  cases expert with
  | false => exact le_rfl
  | true =>
    rw [numItems_expert hcount, constNumUiItems]
    omega

/-- Tags come after the data root. -/
theorem not_root {tx : ParserTx} (k : ℕ) :
    ¬ (dataRootNumUiItems tx + k + 5 = 5 ∧ tx.dataRoot.len ≠ 0) := by
  rintro ⟨hidx, hlen⟩
  rw [dataRootNumUiItems, if_pos hlen] at hidx
  omega

/-- Past the data root, `getExtraItem` prints the tags in order. -/
theorem getExtraItem_tag {tx : ParserTx} {k : ℕ} (hk : k < maxNumberTags) (page : ℕ) :
    getExtraItem zx m tx (dataRootNumUiItems tx + k + 5) page =
      parserPrintTag zx m (tx.tags k) page := by
  have hidx : u16 (dataRootNumUiItems tx + k + 5 + 65536 -
      (constNumUiItems + dataSizeNumUiItems + dataRootNumUiItems tx)) = k := by
    have hk' : k < 16 := hk
    unfold u16 constNumUiItems dataSizeNumUiItems
    omega
  rw [getExtraItem, if_neg (not_root k), hidx]
  exact if_neg (Nat.not_le.mpr hk)

/-! ## Validation -/

/-- `forM` succeeds if every round does. -/
theorem forM_eq_ok {ε α : Type} {f : α → Except ε Unit} {l : List α} :
    forM l f = .ok () ↔ ∀ a ∈ l, f a = .ok () := by
  induction l with
  | nil => simp [pure, Except.pure]
  | cons a l ih =>
    rw [List.forM_cons, List.forall_mem_cons, ← ih]
    rcases f a with _ | ⟨⟩ <;> simp [bind, Except.bind]

variable {zx m}

/-- A part of an element is a part of its bytes. -/
theorem Memory.deref_part {v : ParserElement} {i n : ℕ} (h : i + n ≤ v.len) :
    m.deref ⟨n, v.ptr + i⟩ = ((m.deref v).drop i).take n := by
  apply List.ext_getElem
  · rw [List.length_take, List.length_drop, Memory.length_deref, Memory.length_deref]
    show n = _
    omega
  · intro k h₁ h₂
    simp only [Memory.deref, List.getElem_map, List.getElem_range, List.getElem_take,
      List.getElem_drop, Nat.add_assoc]

/-- Both halves of a block make up the block. -/
theorem halve_append (b : Block 512) : halve b 0 ++ halve b 1 = b.val := by
  have hrest : (b.val.drop 256).take 256 = b.val.drop 256 := by
    apply List.take_of_length_le
    rw [List.length_drop, b.property]
  show (b.val.drop 0).take 256 ++ (b.val.drop 256).take 256 = b.val
  rw [hrest, List.drop_zero, List.take_append_drop]

/-- The parts of the public key are the halves of the modulus. -/
theorem cryptoGetpubkeyPart_eq {st : CryptoStore} {i bufferLen : ℕ} (hi : i ≤ 1)
    (hinit : cryptoStoreIsInitialized st = true) (hlen : minBufferLen ≤ bufferLen) :
    cryptoGetpubkeyPart st bufferLen i = .ok (halve st.current.rsaPub.n i) := by
  simp [cryptoGetpubkeyPart, cryptoPubkeyPart, cryptoStoreGetPubkey, hinit, Nat.not_lt.mpr hlen,
    Nat.not_lt.mpr hi]

/-- One half of the owner is compared.

**Proof sketch.** The part of the owner that is read is the half of its bytes, and the key part is
the half of the modulus, if there is one. -/
theorem checkOwnerPart_eq_ok {st : CryptoStore} {tx : ParserTx} {i : ℕ} (hi : i ≤ 1)
    (howner : (m.deref tx.owner).length = 512) :
    checkOwnerPart m st tx i = .ok () ↔ cryptoStoreIsInitialized st = true ∧
      halve ⟨m.deref tx.owner, howner⟩ i = halve st.current.rsaPub.n i := by
  have hpart : m.deref ⟨rsaModulusHalve, tx.owner.ptr + i * rsaModulusHalve⟩ =
      halve ⟨m.deref tx.owner, howner⟩ i := by
    apply Memory.deref_part
    rw [Memory.length_deref] at howner
    rw [howner, rsaModulusHalve]
    omega
  unfold checkOwnerPart
  by_cases hinit : cryptoStoreIsInitialized st = true
  · have hlen : minBufferLen ≤ rsaModulusHalve := le_rfl
    rw [cryptoGetpubkeyPart_eq hi hinit hlen, hpart]
    by_cases heq : halve ⟨m.deref tx.owner, howner⟩ i = halve st.current.rsaPub.n i
    · simp [heq, hinit]
    · simp [heq]
  · simp [cryptoGetpubkeyPart, hinit]

/-- **The owner check** compares the owner with the modulus of the key in use.

**Proof sketch.** Blocks are equal if both halves are. -/
theorem validateTx_eq_ok {st : CryptoStore} {tx : ParserTx} (hlen : tx.owner.len = rsaModulusLen) :
    validateTx m st tx = .ok () ↔
      cryptoStoreIsInitialized st = true ∧ m.deref tx.owner = st.current.rsaPub.n.val := by
  have howner : (m.deref tx.owner).length = 512 := by
    rw [Memory.length_deref, hlen, rsaModulusLen]
  rw [validateTx, forM_eq_ok, List.forall_mem_cons, List.forall_mem_singleton,
    checkOwnerPart_eq_ok (Nat.zero_le 1) howner, checkOwnerPart_eq_ok (le_refl 1) howner]
  constructor
  · rintro ⟨⟨hinit, h₀⟩, -, h₁⟩
    refine ⟨hinit, ?_⟩
    rw [← halve_append st.current.rsaPub.n, ← h₀, ← h₁, halve_append]
  · rintro ⟨hinit, heq⟩
    have hblock : (⟨m.deref tx.owner, howner⟩ : Block 512) = st.current.rsaPub.n :=
      Subtype.ext heq
    rw [hblock]
    exact ⟨⟨hinit, rfl⟩, hinit, rfl⟩

/-- **Validation** succeeds if the owner is right and page 0 of every item can be printed.

**Proof sketch.** The loop over the items succeeds if every round does. -/
theorem parserValidate_eq_ok {st : CryptoStore} {expert : Bool} {tx : ParserTx} :
    parserValidate zx m st expert tx = .ok () ↔ validateTx m st tx = .ok () ∧
      ∀ idx < parserGetNumItems expert tx,
        ((parserGetItem zx m expert tx idx 0).exec tmpOut).1 = .ok () := by
  unfold parserValidate
  rcases validateTx m st tx with e | ⟨⟩
  · simp [Except.bind]
  · simp [Except.bind, forM_eq_ok]

/-- What is parsed and validated is owned by the key in use. -/
theorem owner_of_parserValidate {s s' : ParserState} {st : CryptoStore} {expert : Bool}
    (hparse : (parserParse m m.base m.bytes.length).exec s = (.ok (), s'))
    (hvalid : parserValidate zx m st expert s'.tx = .ok ()) :
    cryptoStoreIsInitialized st = true ∧ (s'.tx.fields m).owner = st.current.rsaPub.n.val := by
  have hlen : (s'.tx.fields m).owner.length = rsaModulusLen :=
    ((transaction_valid_iff _).mp (valid_of_parserParse le_rfl hparse)).2.1
  rw [ParserTx.fields, Memory.length_deref] at hlen
  exact (validateTx_eq_ok hlen).mp (parserValidate_eq_ok.mp hvalid).1

end Print

end LedgerArweave
