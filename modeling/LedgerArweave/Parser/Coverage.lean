import LedgerArweave.Parser.Digest
import LedgerArweave.Parser.Review

set_option relaxedAutoImplicit false
set_option autoImplicit false

/-!
# What a review covers

Validation prints page 0 of every item into buffers of 40 bytes; the review then asks for any page
in buffers of its own. And it should show all of every item: the pages of an item, one after the
other, should be its text. They are not if there are no pages, as for an empty text, if a
`uint8_t` does not count them, or if the text contains a zero byte, where the C string of a page
ends.

## Main definitions

* `fullText` — the complete text of an item.
* `Shown.Encodes` — an item shows a byte string in base64url.

## Main results

* `getItem_of_accepted` — everything the review may ask for is there.
* `pages_iff` — when the pages of a text make up the text.
* `paging_iff` — when an item is shown completely.
* `shown_binary_fields` — the binary fields are shown as they are hashed.
-/

namespace LedgerArweave

open Fallible (exec exec_adapt)

section Accepted

variable {zx : ZxFormat} {m : Memory} {st : CryptoStore} {expert : Bool} {dataLen : ℕ}
  {s s' : ParserState}

/-- Every page of every item of what is parsed and validated can be printed. -/
theorem getItem_ok_of_accepted (hmap : dataLen ≤ m.bytes.length)
    (hparse : (parserParse m m.base dataLen).exec s = (.ok (), s'))
    (hvalid : parserValidate zx m st expert s'.tx = .ok ()) {idx : ℕ}
    (hidx : idx < parserGetNumItems expert s'.tx) (page : ℕ) (o : ItemOut) :
    ((parserGetItem zx m expert s'.tx idx page).exec o).1 = .ok () := by
  have hcount := tagsCount_of_parserParse hmap hparse
  exact (getItem_ok_iff hcount hidx page o).mpr
    (((parserValidate_iff_texts hcount).mp hvalid).2 idx hidx)

/-- **Validation covers the review**: for every buffer that has been parsed and validated, in the
same display mode, every page of every item can be printed into buffers of any sizes, and
`tx_getItem` returns `zxerr_ok` for the items and `zxerr_no_data` for all other indices.

**Proof sketch.** Validation prints page 0 of an item, and whether that fails is decided by the text
of the item, not by the page or the buffers. The test of `tx_getItem` lets one index more pass than
there are items; `parser_getItem` refuses it. -/
theorem getItem_of_accepted (hmap : dataLen ≤ m.bytes.length)
    (hparse : (parserParse m m.base dataLen).exec s = (.ok (), s'))
    (hvalid : parserValidate zx m st expert s'.tx = .ok ()) :
    (∀ idx < parserGetNumItems expert s'.tx, ∀ page o,
      ((parserGetItem zx m expert s'.tx idx page).exec o).1 = .ok ()) ∧
    ∀ (displayIdx : Int8) page o,
      ((txGetItem zx m expert s'.tx displayIdx page).exec o).1 =
        if 0 ≤ displayIdx.toInt ∧ displayIdx.toInt < parserGetNumItems expert s'.tx then .ok ()
        else .error .noData := by
  have hitems : ∀ idx < parserGetNumItems expert s'.tx, ∀ page o,
      ((parserGetItem zx m expert s'.tx idx page).exec o).1 = .ok () :=
    fun _ hidx => getItem_ok_of_accepted hmap hparse hvalid hidx
  refine ⟨hitems, fun displayIdx page o => ?_⟩
  by_cases hneg : displayIdx.toInt < 0 ∨ displayIdx.toInt > parserGetNumItems expert s'.tx
  · rw [txGetItem, if_pos hneg, if_neg (by omega)]
    rfl
  have hexec : (exec (txGetItem zx m expert s'.tx displayIdx page) o).1 =
      ((parserGetItem zx m expert s'.tx displayIdx.toInt.toNat page).exec o).1.mapError
        convertParserError := by
    rw [txGetItem, if_neg hneg]
    exact congrArg Prod.fst (exec_adapt convertParserError _ o)
  rw [hexec]
  by_cases hlast : displayIdx.toInt = parserGetNumItems expert s'.tx
  · rw [getItem_noData zx m (by omega), if_neg (by omega)]
    rfl
  · rw [hitems _ (by omega), if_pos (by omega)]
    rfl

end Accepted

/-- The tag of a sample can be shown in a buffer of two bytes. -/
theorem getItem_of_accepted_sample :
    let t := sampleTx [⟨ascii "n", ascii "a"⟩] []
    ((parserGetItem sampleFormat ⟨1, transaction.encode t⟩ true (sampleState t).tx 5 0).exec
      ⟨zeros 2, zeros 2, 0⟩).1 = .ok () := by
  intro t
  have ht : SampleAccepted t := samples_accepted.1
  exact (getItem_of_accepted (m := ⟨1, transaction.encode t⟩) le_rfl ht.parse ht.validate).1 5
    (by decide +kernel) 0 _

/-! ## The pages of a text -/

/-- The first pages of a text without zero bytes are a beginning of it. -/
theorem flatten_pages {w : ℕ} {text : Bytes} (hfree : 0 ∉ text) (n : ℕ) :
    ((List.range n).map fun page => cstr (slice w text page)).flatten = text.take (n * w) := by
  rw [← flatten_map_slice]
  congr 1
  exact List.map_congr_left fun page _ => cstr_of_notMem fun h => hfree (mem_of_mem_slice h)

/-- **The pages of a text**, shown as C strings and counted in a `uint8_t`, make up the text if it
is not empty, contains no zero byte and needs no more than 255 pages; and only then.

**Proof sketch.** A page as a C string contains no zero byte, so neither does what the pages make
up; a text without zero bytes is made up by its slices, if a `uint8_t` counts them all. -/
theorem pages_iff {w : ℕ} (hw : 0 < w) {text full : Bytes}
    (htext : text = full ∨ text = cstr full) :
    (1 ≤ sliceCount w text % 256 ∧
      ((List.range (sliceCount w text % 256)).map fun page => cstr (slice w text page)).flatten =
        full) ↔ full ≠ [] ∧ 0 ∉ full ∧ full.length ≤ 255 * w := by
  have hcover := length_le_sliceCount_mul hw text
  constructor
  · rintro ⟨hcount, hflat⟩
    have hfree : 0 ∉ full := by
      rw [← hflat]
      intro hzero
      obtain ⟨page, hpage, hmem⟩ := List.mem_flatten.mp hzero
      obtain ⟨i, -, rfl⟩ := List.mem_map.mp hpage
      exact zero_notMem_cstr _ hmem
    obtain rfl : text = full := htext.elim id fun h => h.trans (cstr_of_notMem hfree)
    refine ⟨?_, hfree, ?_⟩
    · rintro rfl
      have hnone : sliceCount w ([] : Bytes) ≤ 0 := sliceCount_le hw (Nat.zero_le _)
      rw [Nat.le_zero.mp hnone] at hcount
      exact absurd hcount (by decide)
    · rw [flatten_pages hfree] at hflat
      have hpages : text.length ≤ sliceCount w text % 256 * w := by
        have hle := congrArg List.length hflat
        rw [List.length_take] at hle
        omega
      have hlt : sliceCount w text % 256 ≤ 255 := by omega
      exact hpages.trans (Nat.mul_le_mul_right w hlt)
  · rintro ⟨hne, hfree, hlen⟩
    obtain rfl : text = full := htext.elim id fun h => h.trans (cstr_of_notMem hfree)
    have hle : sliceCount w text ≤ 255 := sliceCount_le hw hlen
    rw [Nat.mod_eq_of_lt (by omega), flatten_pages hfree]
    refine ⟨?_, List.take_of_length_le hcover⟩
    by_contra hnone
    rw [show sliceCount w text = 0 by omega, Nat.zero_mul] at hcover
    exact hne (List.length_eq_zero_iff.mp (Nat.le_zero.mp hcover))

/-! ## The pages of an item -/

section Paging

variable (zx : ZxFormat) (m : Memory) (tx : ParserTx)

/-- The complete text of an item: the target, the last transaction or the data root in base64url,
the formatted quantity, or the bytes of the reward, the data size or the value of a tag. -/
def fullText (idx : ℕ) : Bytes :=
  match idx with
  | 0 => b64urlText (m.deref tx.target)
  | 1 => (quantityText zx m tx.quantity).toOption.getD []
  | 2 => m.deref tx.reward
  | 3 => b64urlText (m.deref tx.lastTx)
  | 4 => m.deref tx.dataSize
  | idx =>
    if idx = 5 ∧ tx.dataRoot.len ≠ 0 then b64urlText (m.deref tx.dataRoot)
    else m.deref (tx.tags (idx - (5 + dataRootNumUiItems tx))).value

variable {zx m tx}

/-- A text in base64url is that of the field's bytes. -/
theorem eq_of_b64Text {v : ParserElement} {text : Bytes} (h : b64Text m v = .ok text) :
    text = b64urlText (m.deref v) := by
  unfold b64Text at h
  split_ifs at h
  exact (Except.ok.inj h).symm

/-- What is paged is the complete text, of the data size its C string.

**Proof sketch.** By the index: a text that is not refused is that of the bytes of the field, and of
the data size its C string. -/
theorem fullText_of_itemText {idx : ℕ} {text : Bytes} (h : itemText zx m tx idx = .ok text) :
    text = fullText zx m tx idx ∨ text = cstr (fullText zx m tx idx) := by
  match idx with
  | 0 | 3 => exact .inl (eq_of_b64Text h)
  | 1 =>
    have hquantity : quantityText zx m tx.quantity = .ok text := h
    exact .inl (by rw [fullText, hquantity]; rfl)
  | 2 => exact .inl (Except.ok.inj h).symm
  | 4 =>
    have hsize : sizeText m tx.dataSize = .ok text := h
    unfold sizeText at hsize
    split_ifs at hsize
    exact .inr (Except.ok.inj hsize).symm
  | j + 5 =>
    left
    by_cases hroot : j + 5 = 5 ∧ tx.dataRoot.len ≠ 0
    · rw [show itemText zx m tx (j + 5) = _ from if_pos hroot] at h
      rw [show fullText zx m tx (j + 5) = _ from if_pos hroot]
      exact eq_of_b64Text h
    · rw [show itemText zx m tx (j + 5) = _ from if_neg hroot] at h
      rw [show fullText zx m tx (j + 5) = _ from if_neg hroot]
      exact (Except.ok.inj h).symm

end Paging

/-- **Paging**, for every accepted transaction, every item, and every size of the value buffer of at
least 2: there is a page, and the texts of the pages one after the other are the complete text of
the item, exactly if this text is not empty, contains no zero byte and needs at most 255 pages.

**Proof sketch.** The pages of an item are the slices of its text, as C strings; `pages_iff` says
when they make it up. -/
theorem paging_iff {zx : ZxFormat} (hzx : zx.Pages) {m : Memory} {dataLen : ℕ}
    (hmap : dataLen ≤ m.bytes.length) {s s' : ParserState}
    (hparse : (parserParse m m.base dataLen).exec s = (.ok (), s')) {st : CryptoStore}
    {expert : Bool} (hvalid : parserValidate zx m st expert s'.tx = .ok ()) {idx : ℕ}
    (hidx : idx < parserGetNumItems expert s'.tx) {outValLen : ℕ} (hlen : 2 ≤ outValLen)
    (outKeyLen : ℕ) :
    let shown := shownItem zx m expert s'.tx outKeyLen outValLen idx
    let text := fullText zx m s'.tx idx
    (1 ≤ shown.pageCount ∧ shown.texts.flatten = text) ↔
      text ≠ [] ∧ 0 ∉ text ∧ text.length ≤ 255 * (outValLen - 1) := by
  intro shown text
  have hcount := tagsCount_of_parserParse hmap hparse
  obtain ⟨paged, htext⟩ := ((parserValidate_iff_texts hcount).mp hvalid).2 idx hidx
  have hshown : shown = _ := shownItem_eq hzx hlen hcount hidx htext
  rw [hshown]
  exact pages_iff (by omega) (fullText_of_itemText htext)

/-- The value of a short tag is shown on one page. -/
theorem paging_iff_sample :
    let t := sampleTx [⟨ascii "n", ascii "a"⟩] []
    let shown := shownItem sampleFormat ⟨1, transaction.encode t⟩ true (sampleState t).tx 40 40 5
    1 ≤ shown.pageCount ∧ shown.texts.flatten =
      fullText sampleFormat ⟨1, transaction.encode t⟩ (sampleState t).tx 5 := by
  intro t shown
  have ht : SampleAccepted t := samples_accepted.1
  apply (paging_iff sampleFormat_pages (m := ⟨1, transaction.encode t⟩) le_rfl ht.parse ht.validate
    (by decide +kernel) (by decide) 40).mpr
  decide +kernel

/-! ## The binary fields -/

/-- The pages of an item, of width `w`, are a byte string in base64url without padding. They are
counted without wrapping, and there are at most 200. -/
structure Shown.Encodes (shown : Shown) (w : ℕ) (field : Bytes) : Prop where
  pageCount : shown.pageCount = sliceCount w (Base64.encodeUrl field)
  pos : 1 ≤ shown.pageCount
  le : shown.pageCount ≤ 200
  decode : Base64.decodeUrl shown.texts.flatten = field

/-- A printed encoding fits the buffer of 200 bytes, so it needs at most 200 pages.

**Proof sketch.** The text has no zero byte, so the pages as C strings are its slices, and they
make it up; decoding it gives the field. -/
theorem encodes_of_b64Text {m : Memory} {v : ParserElement} {text : Bytes}
    (htext : b64Text m v = .ok text) {w : ℕ} (hw : 0 < w) (key : Bytes) :
    Shown.Encodes ⟨key, sliceCount w text % 256,
      (List.range (sliceCount w text % 256)).map fun page => cstr (slice w text page)⟩ w
      (m.deref v) := by
  unfold b64Text at htext
  split_ifs at htext with hprinted
  obtain rfl : b64urlText (m.deref v) = text := Except.ok.inj htext
  obtain ⟨-, hne, hlen⟩ := hprinted
  have hlen200 : (b64urlText (m.deref v)).length ≤ 200 * w :=
    hlen.trans (Nat.le_mul_of_pos_right _ hw)
  have hcount : sliceCount w (b64urlText (m.deref v)) ≤ 200 := sliceCount_le hw hlen200
  have hne' : b64urlText (m.deref v) ≠ [] := by
    intro hnil
    exact hne (b64urlText_injective hnil)
  obtain ⟨hpos, hflat⟩ := (pages_iff hw (.inl rfl)).mpr
    ⟨hne', zero_notMem_b64urlText (m.deref v), hlen200.trans (Nat.mul_le_mul_right w (by decide))⟩
  refine ⟨?_, hpos, (Nat.mod_le _ _).trans hcount, ?_⟩
  · rw [← b64urlText_eq_encodeUrl]
    exact Nat.mod_eq_of_lt (by omega)
  · dsimp only
    rw [hflat, b64urlText_eq_encodeUrl, Base64.decodeUrl_encodeUrl]

/-- **Binary fields are shown as they are hashed.** For every transaction that has been parsed and
validated, every size of the value buffer of at least 2 and either mode of display, decoding the
joined pages of the target and of the last transaction gives the bytes of these fields in the
transaction whose deep hash `parser_getDigest` computes; so does decoding those of the data root,
if there is one, in expert mode. There are at most 200 pages.

**Proof sketch.** The text of such an item is the base64url of its bytes, and it fits the buffer of
200 bytes: `encodes_of_b64Text`. The digest is the deep hash of the same bytes. -/
theorem shown_binary_fields (H : Bytes → Digest) {zx : ZxFormat} (hzx : zx.Pages) {m : Memory}
    {dataLen : ℕ} (hmap : dataLen ≤ m.bytes.length) {s s' : ParserState}
    (hparse : (parserParse m m.base dataLen).exec s = (.ok (), s')) {st : CryptoStore}
    {validated : Bool} (hvalid : parserValidate zx m st validated s'.tx = .ok ())
    {outValLen : ℕ} (hlen : 2 ≤ outValLen) (outKeyLen : ℕ) (expert : Bool) :
    let t := s'.tx.fields m
    let shown := shownItem zx m expert s'.tx outKeyLen outValLen
    (parserGetDigest H m s'.tx sha384DigestLen).val = .ok (deepHash H t.item).val ∧
      (shown 0).Encodes (outValLen - 1) t.target ∧ (shown 3).Encodes (outValLen - 1) t.lastTx ∧
      (validated = true → expert = true → s'.tx.dataRoot.len ≠ 0 →
        (shown 5).Encodes (outValLen - 1) t.dataRoot) := by
  intro t shown
  have hcount := tagsCount_of_parserParse hmap hparse
  have htexts := ((parserValidate_iff_texts hcount).mp hvalid).2
  have hpos : 0 < outValLen - 1 := by omega
  have hshow : ∀ {idx : ℕ} {v : ParserElement}, itemText zx m s'.tx idx = b64Text m v →
      idx < parserGetNumItems validated s'.tx → idx < parserGetNumItems expert s'.tx →
      (shown idx).Encodes (outValLen - 1) (m.deref v) := by
    intro idx v hv hidx hidx'
    obtain ⟨text, htext⟩ := htexts idx hidx
    have hshown : shown idx = _ := shownItem_eq hzx hlen hcount hidx' htext
    rw [hshown]
    exact encodes_of_b64Text (hv.symm.trans htext) hpos _
  have hfour : ∀ mode : Bool, 4 ≤ parserGetNumItems mode s'.tx := fun _ => constNumUiItems_le hcount
  have hfirst : ∀ (idx : ℕ) (mode : Bool), idx < 4 → idx < parserGetNumItems mode s'.tx :=
    fun _ mode hidx => hidx.trans_le (hfour mode)
  refine ⟨val_parserGetDigest H (fits_of_valid (valid_of_parserParse hmap hparse)), ?_, ?_, ?_⟩
  · exact hshow rfl (hfirst 0 validated (by decide)) (hfirst 0 expert (by decide))
  · exact hshow rfl (hfirst 3 validated (by decide)) (hfirst 3 expert (by decide))
  · rintro rfl rfl hroot
    have hfive : 5 < parserGetNumItems true s'.tx := by
      rw [numItems_expert hcount, dataRootNumUiItems, if_pos hroot]
      omega
    exact hshow (if_pos ⟨rfl, hroot⟩) hfive hfive

/-- The fields of a sample with a data root. -/
theorem shown_binary_fields_sample :
    let t := sampleTx [] [2]
    let shown := shownItem sampleFormat ⟨1, transaction.encode t⟩ true (sampleState t).tx 40 40
    (shown 0).Encodes 39 [1] ∧ (shown 3).Encodes 39 [1] ∧ (shown 5).Encodes 39 [2] := by
  intro t shown
  have ht : SampleAccepted t := sampleTx_accepted _ _ (by decide) (by decide) (by decide +kernel)
    (by decide +kernel)
  have h := shown_binary_fields (fun _ => .zero) sampleFormat_pages (m := ⟨1, transaction.encode t⟩)
    le_rfl ht.parse ht.validate (by decide : 2 ≤ 40) 40 true
  have hfields := ht.fields
  dsimp only at h
  rw [hfields] at h
  exact ⟨h.2.1, h.2.2.1, h.2.2.2 rfl rfl (by decide +kernel)⟩

/-- A transaction with a tag whose value needs 256 pages of one byte. -/
def longTx : Transaction := sampleTx [⟨ascii "n", List.replicate 256 0x61⟩] []

/-- The long tag value is accepted: validation prints one page of it only. -/
theorem longTx_accepted : SampleAccepted longTx := by
  have hvalid : transaction.Valid longTx := by
    refine (transaction_valid_iff _).mpr ⟨rfl, (zeroBlock 512).property, by decide, ?_⟩
    decide +kernel
  refine sampleAccepted hvalid rfl (by decide +kernel) (by decide +kernel)
    ⟨by decide, by decide, ?_, ?_⟩
  · decide +kernel
  · decide +kernel

/-- Neither an empty tag value nor one of 256 pages has a page, and a zero byte ends a page. -/
theorem not_paging :
    let shown (t : Transaction) (outValLen : ℕ) :=
      shownItem sampleFormat ⟨1, transaction.encode t⟩ true (sampleState t).tx 40 outValLen 5
    let empty := sampleTx [⟨ascii "n", []⟩] []
    let zeroByte := sampleTx [⟨ascii "n", ascii "a" ++ 0 :: ascii "b"⟩] []
    (SampleAccepted empty ∧ (shown empty 40).pageCount = 0) ∧
      (SampleAccepted longTx ∧ (shown longTx 2).pageCount = 0) ∧
      SampleAccepted zeroByte ∧ (shown zeroByte 40).texts.flatten = ascii "a" := by
  refine ⟨⟨?_, by decide +kernel⟩, ⟨longTx_accepted, by decide +kernel⟩, samples_accepted.2.1,
    by decide +kernel⟩
  exact sampleTx_accepted _ _ (by decide +kernel) (by decide) (by decide +kernel)
    (by decide +kernel)

end LedgerArweave
