import LedgerArweave.Parser.Items

set_option relaxedAutoImplicit false
set_option autoImplicit false

/-!
# The text of an item

Every item of `parser_getItem` is a key and a text, of which one page is shown. Which text that
is, and whether the item can be printed at all, depends on the transaction and the index only,
neither on the page asked for nor on the buffers of the caller. So printing page 0 of every item
into small buffers, as `parser_validate` does, tells whether every page can be printed into any
buffers.

## Main definitions

* `itemText` — the text of an item, or why there is none.
* `Prints` — a printing function shows the pages of a text.

## Main results

* `exec_parserGetItem` — what `parser_getItem` does, in terms of the text.
* `parserValidate_iff_texts` — validation says that every item has a text.
-/

namespace LedgerArweave

open Fallible (exec exec_adapt exec_bind exec_bind_ok)

section Text

variable (zx : ZxFormat) (m : Memory)

/-! ## The text of a field -/

/-- The text of a field printed in base64url. -/
def b64Text (v : ParserElement) : Except ParserError Bytes :=
  if v.ptr ≠ 0 ∧ m.deref v ≠ [] ∧ (b64urlText (m.deref v)).length ≤ uibufferLen then
    .ok (b64urlText (m.deref v))
  else .error .unexpectedBufferEnd

/-- The text of an amount. -/
def quantityText (c : ParserElement) : Except ParserError Bytes :=
  if c.len > uibufferLen then .error .unexpectedError
  else
    let formatted := zx.intstrToFpstrInplace (overwrite (zeros uibufferLen) 0 (m.deref c))
      coinAmountDecimalPlaces
    if formatted.2 = 0 then .error .unexpectedValue
    else
      let joined := zx.zStr3join formatted.1 coinDefaultDenomRepr []
      if joined.2 then .ok (cstr ((zx.numberInplaceTrimming joined.1 1).take uibufferLen))
      else .error .unexpectedBufferEnd

/-- The text of a size: the C string at the beginning of the field. -/
def sizeText (v : ParserElement) : Except ParserError Bytes :=
  if v.len > uibufferLen then .error .unexpectedError else .ok (cstr (m.deref v))

/-- A printing function shows the pages of the text, or fails without one. -/
def Prints (p : ℕ → ItemM Unit) (text : Except ParserError Bytes) : Prop :=
  ∀ page o, match text with
    | .ok t => exec (p page) o = (.ok (), ItemOut.showing o zx t page)
    | .error e => (exec (p page) o).1 = .error e

/-- What is printed in base64url is the text of the field's bytes. -/
theorem prints_printB64url (v : ParserElement) : Prints zx (printB64url zx m v) (b64Text m v) := by
  intro page o
  have hexec := exec_printB64url zx m v page o
  unfold b64Text
  split_ifs at hexec ⊢ with h
  · exact hexec
  · exact congrArg Prod.fst hexec

/-- A quantity is printed as the formatted amount.

**Proof sketch.** Three calls can fail, in the order in which the text is defined. -/
theorem prints_parserPrintQuantity (c : ParserElement) :
    Prints zx (parserPrintQuantity zx m c coinAmountDecimalPlaces true [] coinDefaultDenomRepr)
      (quantityText zx m c) := by
  intro page o
  unfold quantityText
  by_cases hlen : c.len > uibufferLen
  · simp [parserPrintQuantity, hlen]
  rw [if_neg hlen]
  dsimp only
  by_cases hformat : (zx.intstrToFpstrInplace (overwrite (zeros uibufferLen) 0 (m.deref c))
      coinAmountDecimalPlaces).2 = 0
  · simp [parserPrintQuantity, zeroVal, exec_bind, hlen, hformat]
  rw [if_neg hformat]
  cases hjoin : (zx.zStr3join (zx.intstrToFpstrInplace (overwrite (zeros uibufferLen) 0
      (m.deref c)) coinAmountDecimalPlaces).1 coinDefaultDenomRepr []).2 with
  | false => simp [parserPrintQuantity, zeroVal, exec_bind, hlen, hformat, hjoin]
  | true =>
    simp [parserPrintQuantity, zeroVal, exec_bind, hlen, hformat, hjoin, pageText,
      ItemOut.showing]

/-- A reward is printed as it is. -/
theorem prints_parserPrintReward (v : ParserElement) :
    Prints zx (parserPrintReward zx m v) (.ok (m.deref v)) := by
  intro page o
  simp [parserPrintReward, zeroVal, exec_bind, pageText, ItemOut.showing]

/-- A size is printed as the C string at the beginning of the field. -/
theorem prints_parserPrintSize (v : ParserElement) :
    Prints zx (parserPrintSize zx m v) (sizeText m v) := by
  intro page o
  unfold sizeText
  by_cases hlen : v.len > uibufferLen
  · simp [parserPrintSize, hlen]
  · rw [if_neg hlen]
    simp [parserPrintSize, zeroVal, exec_bind, hlen, pageText, ItemOut.showing, overwrite_zeros,
      cstr_append_zeros]

/-! ## The text of an item -/

variable (tx : ParserTx)

/-- The text of an item. -/
def itemText (idx : ℕ) : Except ParserError Bytes :=
  match idx with
  | 0 => b64Text m tx.target
  | 1 => quantityText zx m tx.quantity
  | 2 => .ok (m.deref tx.reward)
  | 3 => b64Text m tx.lastTx
  | 4 => sizeText m tx.dataSize
  | idx =>
    if idx = 5 ∧ tx.dataRoot.len ≠ 0 then b64Text m tx.dataRoot
    else .ok (m.deref (tx.tags (idx - (5 + dataRootNumUiItems tx))).value)

/-- The key of an item in a buffer of some length. A label is written over the index. -/
def itemKey (idx keyLen : ℕ) : Bytes :=
  let label := snprintf (snprintf (zeros keyLen) keyLen (ascii "? " ++ decimal idx)) keyLen
  match idx with
  | 0 => label (ascii "Target")
  | 1 => label (ascii "Quantity")
  | 2 => label (ascii "Reward")
  | 3 => label (ascii "Last tx")
  | 4 => label (ascii "Data size")
  | idx =>
    if idx = 5 ∧ tx.dataRoot.len ≠ 0 then label (ascii "Data root")
    else tagKey m (tx.tags (idx - (5 + dataRootNumUiItems tx))) keyLen

/-- The text of a tag is its value. -/
theorem itemText_tag {tx : ParserTx} (k : ℕ) :
    itemText zx m tx (dataRootNumUiItems tx + k + 5) = .ok (m.deref (tx.tags k).value) := by
  rw [show itemText zx m tx (dataRootNumUiItems tx + k + 5) = _ from if_neg (not_root k),
    show dataRootNumUiItems tx + k + 5 - (5 + dataRootNumUiItems tx) = k by omega]

/-- The key of a tag is that of its name. -/
theorem itemKey_tag {tx : ParserTx} (k keyLen : ℕ) :
    itemKey m tx (dataRootNumUiItems tx + k + 5) keyLen = tagKey m (tx.tags k) keyLen := by
  rw [show itemKey m tx (dataRootNumUiItems tx + k + 5) keyLen = _ from if_neg (not_root k),
    show dataRootNumUiItems tx + k + 5 - (5 + dataRootNumUiItems tx) = k by omega]

/-- An item past the data root is that of a tag.

**Proof sketch.** In simple mode there are no such items. In expert mode the index is below the
count of the fixed items, the data root and the tags. -/
theorem exists_tag {tx : ParserTx} {expert : Bool} (hcount : tx.tagsCount ≤ maxNumberTags) {j : ℕ}
    (hidx : j + 5 < parserGetNumItems expert tx) (hroot : ¬ (j + 5 = 5 ∧ tx.dataRoot.len ≠ 0)) :
    ∃ k < tx.tagsCount, j = dataRootNumUiItems tx + k := by
  cases expert with
  | false =>
    have hsimple : parserGetNumItems false tx = 4 := rfl
    omega
  | true =>
    rw [numItems_expert hcount] at hidx
    have hle : dataRootNumUiItems tx ≤ j := by
      unfold dataRootNumUiItems
      split_ifs with hlen
      · exact Nat.one_le_iff_ne_zero.mpr fun h => hroot ⟨by rw [h], hlen⟩
      · exact Nat.zero_le j
    exact ⟨j - dataRootNumUiItems tx, by omega, by omega⟩

/-- An item shows a page of its text under its key, or there is none. -/
def ShowsItem (idx page : ℕ) (o : ItemOut) (run : Except ParserError Unit × ItemOut) : Prop :=
  match itemText zx m tx idx with
  | .ok text => run = (.ok (), ItemOut.showing ⟨itemKey m tx idx o.outKey.length, o.outVal, 0⟩ zx
      text page)
  | .error e => run.1 = .error e

variable {tx}

/-- An item whose label is written before its field is printed.

**Proof sketch.** Writing the label does not fail, and what is printed afterwards does not look at
the key. -/
theorem showsItem_of_prints {p : ℕ → ItemM Unit} {idx : ℕ} (hp : Prints zx p (itemText zx m tx idx))
    {label : Bytes} {page : ℕ} {o : ItemOut}
    (hkey : itemKey m tx idx o.outKey.length =
      snprintf (o.asked idx).outKey o.outKey.length label)
    {run : Except ParserError Unit × ItemOut}
    (hrun : run = exec (do setKey label; p page) (o.asked idx)) :
    ShowsItem zx m tx idx page o run := by
  have hexec := hp page ⟨snprintf (o.asked idx).outKey (o.asked idx).outKey.length label,
    (o.asked idx).outVal, 1⟩
  have hlabel : run = exec (p page) ⟨snprintf (o.asked idx).outKey (o.asked idx).outKey.length
      label, (o.asked idx).outVal, 1⟩ := hrun.trans (exec_bind_ok (Fallible.exec_modify _ _) _)
  unfold ShowsItem
  cases htext : itemText zx m tx idx with
  | error e =>
    rw [htext] at hexec
    rw [hlabel]
    exact hexec
  | ok t =>
    rw [htext] at hexec
    dsimp only at hexec ⊢
    rw [hlabel, hexec, hkey, ItemOut.showing, ItemOut.showing, ItemOut.length_outVal_asked,
      ItemOut.length_outKey_asked]

/-- **`parser_getItem`** shows the asked page of the text of the item under its key.

**Proof sketch.** By the index: each field has its printing function, whose equation gives the text,
and past the fixed ones it is the data root or a tag. -/
theorem exec_parserGetItem {expert : Bool} (hcount : tx.tagsCount ≤ maxNumberTags) {idx : ℕ}
    (hidx : idx < parserGetNumItems expert tx) (page : ℕ) (o : ItemOut) :
    ShowsItem zx m tx idx page o ((parserGetItem zx m expert tx idx page).exec o) := by
  have hlt : ¬ parserGetNumItems expert tx ≤ idx := Nat.not_le.mpr hidx
  match idx with
  | 0 =>
    apply showsItem_of_prints zx m (prints_printB64url zx m tx.target) rfl
    simp [parserGetItem, setKey, exec_bind, hlt, ItemOut.asked, parserPrintTarget]
  | 1 =>
    apply showsItem_of_prints zx m (prints_parserPrintQuantity zx m tx.quantity) rfl
    simp [parserGetItem, setKey, exec_bind, hlt, ItemOut.asked]
  | 2 =>
    apply showsItem_of_prints zx m (prints_parserPrintReward zx m tx.reward) rfl
    simp [parserGetItem, setKey, exec_bind, hlt, ItemOut.asked]
  | 3 =>
    apply showsItem_of_prints zx m (prints_printB64url zx m tx.lastTx) rfl
    simp [parserGetItem, setKey, exec_bind, hlt, ItemOut.asked, parserPrintLastTx]
  | 4 =>
    apply showsItem_of_prints zx m (prints_parserPrintSize zx m tx.dataSize) rfl
    simp [parserGetItem, setKey, exec_bind, hlt, ItemOut.asked]
  | j + 5 =>
    rw [exec_parserGetItem_extra zx m tx j hidx]
    by_cases hroot : j + 5 = 5 ∧ tx.dataRoot.len ≠ 0
    · have hp := prints_printB64url zx m tx.dataRoot
      rw [show b64Text m tx.dataRoot = itemText zx m tx (j + 5) from (if_pos hroot).symm] at hp
      refine showsItem_of_prints zx m hp (if_pos hroot) ?_
      rw [getExtraItem, if_pos hroot]
      rfl
    · obtain ⟨k, hk, rfl⟩ := exists_tag hcount hidx hroot
      rw [getExtraItem_tag zx m (lt_of_lt_of_le hk hcount), exec_parserPrintTag, ShowsItem,
        itemText_tag, itemKey_tag]
      simp only [ItemOut.showing, ItemOut.length_outKey_asked, ItemOut.length_outVal_asked]

/-- There are no items past the last one. -/
theorem getItem_noData {expert : Bool} {idx page : ℕ} {o : ItemOut}
    (hidx : parserGetNumItems expert tx ≤ idx) :
    ((parserGetItem zx m expert tx idx page).exec o).1 = .error .noData := by
  simp [parserGetItem, setKey, exec_bind, hidx]

variable {zx m}

/-- Whether an item can be shown is decided by its text. -/
theorem getItem_ok_iff {expert : Bool} (hcount : tx.tagsCount ≤ maxNumberTags) {idx : ℕ}
    (hidx : idx < parserGetNumItems expert tx) (page : ℕ) (o : ItemOut) :
    ((parserGetItem zx m expert tx idx page).exec o).1 = .ok () ↔
      ∃ text, itemText zx m tx idx = .ok text := by
  have hshow := exec_parserGetItem zx m hcount hidx page o
  unfold ShowsItem at hshow
  cases htext : itemText zx m tx idx with
  | error e =>
    rw [htext] at hshow
    exact iff_of_false (fun h => by rw [show _ = Except.error e from hshow] at h; cases h) nofun
  | ok t =>
    rw [htext] at hshow
    exact iff_of_true (congrArg Prod.fst hshow) ⟨t, rfl⟩

/-- **Validation** says that the owner is the key in use and that every item has a text.

**Proof sketch.** An item can be printed exactly if it has a text, whatever the page and the
buffers. -/
theorem parserValidate_iff_texts {st : CryptoStore} {expert : Bool}
    (hcount : tx.tagsCount ≤ maxNumberTags) :
    parserValidate zx m st expert tx = .ok () ↔ validateTx m st tx = .ok () ∧
      ∀ idx < parserGetNumItems expert tx, ∃ text, itemText zx m tx idx = .ok text := by
  rw [parserValidate_eq_ok]
  exact and_congr_right fun _ => forall₂_congr fun idx hidx => getItem_ok_iff hcount hidx 0 tmpOut

end Text

/-! ## Showing the items of a validated transaction -/

section Accepted

variable {zx : ZxFormat} {m : Memory} {st : CryptoStore} {expert : Bool} {dataLen : ℕ}
  {s s' : ParserState}

/-- What is parsed has at most as many tags as the array. -/
theorem tagsCount_of_parserParse (hmap : dataLen ≤ m.bytes.length)
    (hparse : (parserParse m m.base dataLen).exec s = (.ok (), s')) :
    s'.tx.tagsCount ≤ maxNumberTags := by
  have htags := ((transaction_valid_iff _).mp (valid_of_parserParse hmap hparse)).2.2.1
  simpa [ParserTx.fields, ParserTx.tagList] using htags

end Accepted

end LedgerArweave
