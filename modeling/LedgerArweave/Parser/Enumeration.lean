import LedgerArweave.Parser.Coverage
import LedgerArweave.Parser.Names
import LedgerArweave.Parser.Residue

set_option relaxedAutoImplicit false
set_option autoImplicit false

/-!
# The order of the items

`_getNumItems` counts the items and `parser_getItem` finds the field of an index, each with its own
arithmetic. Together they list the fields of a transaction in order.

## Main definitions

* `Field` — what an item can be of.
* `Transaction.shownFields` — the fields shown in each mode, in order.
* `Field.label`, `Field.text` — what is shown of a field.

## Main results

* `parserGetNumItems_eq`, `exec_of_shownFields` — the count and the items are those of the list.
* `text_of_shownFields` — what an item shows is the text of the listed field.
* `items_enumerated` — every field of an accepted transaction is shown once, under its label.
-/

namespace LedgerArweave

open Fallible (exec exec_bind)

/-! ## The list of fields -/

/-- What an item is of: a field of the transaction, or a tag by its place. -/
inductive Field where
  | target
  | quantity
  | reward
  | lastTx
  | dataSize
  | dataRoot
  | tag (k : ℕ)
deriving DecidableEq

/-- The fields after the fixed ones: the data root if there is one, then the tags. -/
def Transaction.extraFields (t : Transaction) : List Field :=
  (if t.dataRoot = [] then [] else [.dataRoot]) ++ (List.range t.tags.length).map Field.tag

/-- The fields that are shown of a transaction, in order. -/
def Transaction.shownFields (expert : Bool) (t : Transaction) : List Field :=
  [.target, .quantity, .reward, .lastTx] ++ if expert then .dataSize :: t.extraFields else []

/-- The label of a field; that of a tag is its name as a C string. -/
def Field.label (t : Transaction) : Field → Bytes
  | .target => ascii "Target"
  | .quantity => ascii "Quantity"
  | .reward => ascii "Reward"
  | .lastTx => ascii "Last tx"
  | .dataSize => ascii "Data size"
  | .dataRoot => ascii "Data root"
  | .tag k => ((t.tags[k]?).map fun u => cstr u.name).getD []

/-- The text of an amount: its digits with the decimal point and the unit, without the zeros at the
end. -/
def amountText (zx : ZxFormat) (quantity : Bytes) : Bytes :=
  let formatted := zx.intstrToFpstrInplace (overwrite (zeros uibufferLen) 0 quantity)
    coinAmountDecimalPlaces
  let joined := zx.zStr3join formatted.1 coinDefaultDenomRepr []
  cstr ((zx.numberInplaceTrimming joined.1 1).take uibufferLen)

/-- The text of a field: its bytes in base64url, as an amount, as a C string or as they are. -/
def Field.text (zx : ZxFormat) (t : Transaction) : Field → Bytes
  | .target => b64urlText t.target
  | .quantity => amountText zx t.quantity
  | .reward => t.reward
  | .lastTx => b64urlText t.lastTx
  | .dataSize => cstr t.dataSize
  | .dataRoot => b64urlText t.dataRoot
  | .tag k => ((t.tags[k]?).map Tag.value).getD []

/-- Printing a field. -/
def Field.print (zx : ZxFormat) (m : Memory) (tx : ParserTx) (page : ℕ) : Field → ItemM Unit
  | .target => do
    setKey (ascii "Target")
    parserPrintTarget zx m tx.target page
  | .quantity => do
    setKey (ascii "Quantity")
    parserPrintQuantity zx m tx.quantity coinAmountDecimalPlaces true [] coinDefaultDenomRepr page
  | .reward => do
    setKey (ascii "Reward")
    parserPrintReward zx m tx.reward page
  | .lastTx => do
    setKey (ascii "Last tx")
    parserPrintLastTx zx m tx.lastTx page
  | .dataSize => do
    setKey (ascii "Data size")
    parserPrintSize zx m tx.dataSize page
  | .dataRoot => do
    setKey (ascii "Data root")
    parserPrintData zx m tx.dataRoot page
  | .tag k => parserPrintTag zx m (tx.tags k) page

/-! ## Properties of the list -/

section List

variable (t : Transaction)

/-- The fields after the fixed ones are none of these. -/
theorem mem_extraFields {f : Field} (hf : f ∈ t.extraFields) : f = .dataRoot ∨ ∃ k, f = .tag k := by
  rcases List.mem_append.mp hf with hroot | htag
  · split_ifs at hroot
    · exact absurd hroot List.not_mem_nil
    · exact .inl (List.mem_singleton.mp hroot)
  · obtain ⟨k, -, rfl⟩ := List.mem_map.mp htag
    exact .inr ⟨k, rfl⟩

/-- No field after the fixed ones is listed twice. -/
theorem nodup_extraFields : t.extraFields.Nodup := by
  have htags : ((List.range t.tags.length).map Field.tag).Nodup :=
    List.Pairwise.map Field.tag (fun _ _ hne h => hne (Field.tag.inj h)) List.nodup_range
  unfold Transaction.extraFields
  split_ifs with hroot
  · exact htags
  · exact List.nodup_cons.mpr ⟨by simp, htags⟩

/-- **No field is listed twice.**

**Proof sketch.** The fixed fields are different, and the ones after them are none of these. -/
theorem nodup_shownFields (expert : Bool) : (t.shownFields expert).Nodup := by
  cases expert with
  | false =>
    show [Field.target, .quantity, .reward, .lastTx].Nodup
    decide
  | true =>
    show ([Field.target, .quantity, .reward, .lastTx, .dataSize] ++ t.extraFields).Nodup
    refine List.nodup_append.mpr ⟨by decide, nodup_extraFields t, ?_⟩
    rintro f hf g hg rfl
    rcases mem_extraFields t hg with rfl | ⟨k, rfl⟩
    · exact absurd hf (by decide)
    · simp at hf

/-- There are as many fields after the fixed ones as tags, and one more for a data root. -/
theorem length_extraFields :
    t.extraFields.length = (if t.dataRoot = [] then 0 else 1) + t.tags.length := by
  unfold Transaction.extraFields
  split_ifs with hroot
  · simp
  · simp
    omega

variable {t}

/-- What is listed after the fixed fields.

**Proof sketch.** With a data root, the first one is that; the tags are listed by their places. -/
theorem getElem?_extraFields {j : ℕ} {f : Field} (h : t.extraFields[j]? = some f) :
    (j = 0 ∧ t.dataRoot ≠ [] ∧ f = .dataRoot) ∨
      ∃ k < t.tags.length, j = (if t.dataRoot = [] then 0 else 1) + k ∧ f = .tag k := by
  have htag : ∀ {k : ℕ}, ((List.range t.tags.length).map Field.tag)[k]? = some f →
      k < t.tags.length ∧ f = .tag k := by
    intro k hk
    rw [List.getElem?_map, Option.map_eq_some_iff] at hk
    obtain ⟨i, hi, rfl⟩ := hk
    obtain ⟨hlt, rfl⟩ := List.getElem?_eq_some_iff.mp hi
    rw [List.length_range] at hlt
    exact ⟨hlt, by rw [List.getElem_range]⟩
  unfold Transaction.extraFields at h
  split_ifs at h with hroot
  · obtain ⟨hk, hf⟩ := htag h
    exact .inr ⟨j, hk, by rw [if_pos hroot, Nat.zero_add], hf⟩
  · cases j with
    | zero => exact .inl ⟨rfl, hroot, (Option.some.inj h).symm⟩
    | succ k =>
      obtain ⟨hk, hf⟩ := htag h
      exact .inr ⟨k, hk, by rw [if_neg hroot, Nat.add_comm], hf⟩

end List

/-! ## The items of a parsed transaction -/

section Items

variable {zx : ZxFormat} {m : Memory} {tx : ParserTx} {expert : Bool} {idx : ℕ} {f : Field}

/-- The transaction read off an object has the counted tags. -/
theorem length_tags_fields : (tx.fields m).tags.length = tx.tagsCount := by
  rw [ParserTx.fields, List.length_map, ParserTx.tagList, List.length_map, List.length_range]

/-- The data root read off an object is empty if its length is zero. -/
theorem dataRoot_fields : (tx.fields m).dataRoot = [] ↔ tx.dataRoot.len = 0 := by
  rw [List.eq_nil_iff_length_eq_zero]
  show (m.deref tx.dataRoot).length = 0 ↔ _
  rw [Memory.length_deref]

/-- The item counted for the data root is that of the transaction. -/
theorem dataRootNumUiItems_fields :
    dataRootNumUiItems tx = if (tx.fields m).dataRoot = [] then 0 else 1 := by
  unfold dataRootNumUiItems
  by_cases hroot : tx.dataRoot.len = 0
  · rw [if_neg (not_not.mpr hroot), if_pos (dataRoot_fields.mpr hroot)]
  · rw [if_pos hroot, if_neg (mt dataRoot_fields.mp hroot)]

/-- **The count is that of the listed fields**, without wrapping.

**Proof sketch.** In expert mode there are at most 22 items, so the sum of a `uint8_t` does not
wrap. -/
theorem parserGetNumItems_eq (m : Memory) (hcount : tx.tagsCount ≤ maxNumberTags) :
    parserGetNumItems expert tx = ((tx.fields m).shownFields expert).length := by
  cases expert with
  | false => rfl
  | true =>
    have hlen : ((tx.fields m).shownFields true).length = 5 + (tx.fields m).extraFields.length := by
      show ([Field.target, .quantity, .reward, .lastTx, .dataSize] ++
        (tx.fields m).extraFields).length = _
      rw [List.length_append]
      rfl
    rw [hlen, length_extraFields, length_tags_fields, ← dataRootNumUiItems_fields,
      numItems_expert hcount, Nat.add_assoc]

/-- Past the fixed fields, the item is of the data root or of a tag, by the arithmetic of
`parser_getItem`. -/
theorem extra_of_shownFields {j : ℕ}
    (h : ((tx.fields m).shownFields expert)[j + 5]? = some f) :
    (j = 0 ∧ tx.dataRoot.len ≠ 0 ∧ f = .dataRoot) ∨
      ∃ k < tx.tagsCount, j = dataRootNumUiItems tx + k ∧ f = .tag k := by
  cases expert with
  | false => exact absurd h (by simp [Transaction.shownFields])
  | true =>
    have hextra : (tx.fields m).extraFields[j]? = some f := h
    rw [dataRootNumUiItems_fields (m := m), ← length_tags_fields (m := m)]
    rcases getElem?_extraFields hextra with ⟨hj, hroot, hf⟩ | htag
    · exact .inl ⟨hj, mt dataRoot_fields.mpr hroot, hf⟩
    · exact .inr htag

/-- **The item of an index is that of the listed field.**

**Proof sketch.** By the index. Past the fixed fields, `getExtraItem` finds the data root or a tag
by its own arithmetic; `extra_of_shownFields` says which. -/
theorem exec_of_shownFields (hcount : tx.tagsCount ≤ maxNumberTags)
    (h : ((tx.fields m).shownFields expert)[idx]? = some f) (page : ℕ) (o : ItemOut) :
    exec (parserGetItem zx m expert tx idx page) o = exec (f.print zx m tx page) (o.asked idx) := by
  have hidx : idx < parserGetNumItems expert tx := by
    rw [parserGetNumItems_eq m hcount]
    exact (List.getElem?_eq_some_iff.mp h).1
  have hlt : ¬ parserGetNumItems expert tx ≤ idx := Nat.not_le.mpr hidx
  match idx with
  | 0 | 1 | 2 | 3 =>
    obtain rfl := Option.some.inj h
    simp [parserGetItem, setKey, exec_bind, hlt, ItemOut.asked, Field.print]
  | 4 =>
    cases expert with
    | false => exact absurd h (by simp [Transaction.shownFields])
    | true =>
      obtain rfl := Option.some.inj h
      simp [parserGetItem, setKey, exec_bind, hlt, ItemOut.asked, Field.print]
  | j + 5 =>
    rw [exec_parserGetItem_extra zx m tx j hidx]
    rcases extra_of_shownFields h with ⟨rfl, hroot, rfl⟩ | ⟨k, hk, rfl, rfl⟩
    · rw [getExtraItem, if_pos ⟨rfl, hroot⟩]
      rfl
    · rw [getExtraItem_tag zx m (lt_of_lt_of_le hk hcount)]
      rfl

/-- A tag of the transaction read off the object. -/
theorem getElem?_tags_fields {k : ℕ} (hk : k < tx.tagsCount) :
    (tx.fields m).tags[k]? = some (m.derefTag (tx.tags k)) := by
  show (tx.tagList.map m.derefTag)[k]? = _
  rw [List.getElem?_map, ParserTx.tagList, List.getElem?_map, List.getElem?_range hk]
  rfl

/-- An amount that can be formatted is shown with the text of its bytes. -/
theorem eq_of_quantityText {c : ParserElement} {text : Bytes}
    (h : quantityText zx m c = .ok text) : text = amountText zx (m.deref c) := by
  unfold quantityText at h
  dsimp only at h
  split_ifs at h
  exact (Except.ok.inj h).symm

/-- **The text of an item is that of the bytes of the listed field.**

**Proof sketch.** By the index, as in `exec_of_shownFields`: the fixed fields are read off directly,
and the ones after them are the data root or a tag, whose place in the array is its place in the
list. -/
theorem text_of_shownFields {text : Bytes} (h : ((tx.fields m).shownFields expert)[idx]? = some f)
    (htext : itemText zx m tx idx = .ok text) : text = f.text zx (tx.fields m) := by
  match idx with
  | 0 | 3 =>
    obtain rfl := Option.some.inj h
    exact eq_of_b64Text htext
  | 1 =>
    obtain rfl := Option.some.inj h
    exact eq_of_quantityText htext
  | 2 =>
    obtain rfl := Option.some.inj h
    exact (Except.ok.inj htext).symm
  | 4 =>
    cases expert with
    | false => exact absurd h (by simp [Transaction.shownFields])
    | true =>
      obtain rfl := Option.some.inj h
      have hsize : sizeText m tx.dataSize = .ok text := htext
      unfold sizeText at hsize
      split_ifs at hsize
      exact (Except.ok.inj hsize).symm
  | j + 5 =>
    rcases extra_of_shownFields h with ⟨rfl, hroot, rfl⟩ | ⟨k, hk, rfl, rfl⟩
    · rw [show itemText zx m tx (0 + 5) = _ from if_pos ⟨rfl, hroot⟩] at htext
      exact eq_of_b64Text htext
    · rw [itemText_tag] at htext
      rw [Field.text, getElem?_tags_fields hk]
      exact (Except.ok.inj htext).symm

/-- A label written over something else in a key buffer. -/
theorem cstr_label {text : Bytes} (htext : 0 ∉ text) (other : Bytes) (keyLen : ℕ) :
    cstr (snprintf (snprintf (zeros keyLen) keyLen other) keyLen text) =
      text.take (keyLen - 1) := by
  rcases Nat.eq_zero_or_pos keyLen with rfl | hpos
  · simp [snprintf, cstr, zeros]
  · exact cstr_snprintf (by omega) htext

/-- The key of an item is the label of its field, cut to the buffer.

**Proof sketch.** A label is written over the index and ends with its own terminator. The name of a
tag is the C string at its address, cut at its length. -/
theorem cstr_itemKey
    (hnames : ∀ k < tx.tagsCount, m.base ≤ (tx.tags k).key.ptr ∧
      (tx.tags k).key.ptr + (tx.tags k).key.len ≤ m.base + m.bytes.length)
    (h : ((tx.fields m).shownFields expert)[idx]? = some f) (keyLen : ℕ) :
    cstr (itemKey m tx idx keyLen) = (f.label (tx.fields m)).take (keyLen - 1) := by
  match idx with
  | 0 | 1 | 2 | 3 =>
    obtain rfl := Option.some.inj h
    exact cstr_label (by decide +kernel) _ _
  | 4 =>
    cases expert with
    | false => exact absurd h (by simp [Transaction.shownFields])
    | true =>
      obtain rfl := Option.some.inj h
      exact cstr_label (by decide +kernel) _ _
  | j + 5 =>
    rcases extra_of_shownFields h with ⟨rfl, hroot, rfl⟩ | ⟨k, hk, rfl, rfl⟩
    · rw [show itemKey m tx (0 + 5) keyLen = _ from if_pos ⟨rfl, hroot⟩]
      exact cstr_label (by decide +kernel) _ _
    · have hlabel : Field.label (tx.fields m) (.tag k) = cstr (m.deref (tx.tags k).key) := by
        rw [Field.label, getElem?_tags_fields hk]
        rfl
      rw [itemKey_tag, hlabel]
      exact cstr_tagKey (hnames k hk).1 (hnames k hk).2 keyLen

/-- Only the entries of the tag array below the count matter.

**Proof sketch.** Clipping the array at the count changes no item, and the clipped arrays are equal.
-/
theorem getItem_congr_tags (hcount : tx.tagsCount ≤ maxNumberTags) {tags : ℕ → ParserTag}
    (h : ∀ k < tx.tagsCount, tags k = tx.tags k) (page : ℕ) (o : ItemOut) :
    exec (parserGetItem zx m expert { tx with tags := tags } idx page) o =
      exec (parserGetItem zx m expert tx idx page) o := by
  have hclip : ({ tx with tags := tags } : ParserTx).clip = tx.clip := by
    have hfun : (fun k => if k < tx.tagsCount then tags k else ⟨⟨0, 0⟩, ⟨0, 0⟩⟩) =
        fun k => if k < tx.tagsCount then tx.tags k else ⟨⟨0, 0⟩, ⟨0, 0⟩⟩ := by
      funext k
      split_ifs with hk
      · exact h k hk
      · rfl
    show { tx with tags := _ } = { tx with tags := _ }
    rw [hfun]
  rw [← exec_parserGetItem_clip zx m hcount, ← hclip]
  exact (exec_parserGetItem_clip (v := { tx with tags := tags }) zx m hcount _ _ _ _).symm

end Items

/-- An item shows a field: it is printed by the function of that field, which succeeds, for every
page and buffers of any sizes, under the label of that field. What is shown is the asked page of the
text of the field's bytes, and how many pages there are. -/
structure ShowsField (zx : ZxFormat) (m : Memory) (expert : Bool) (tx : ParserTx) (idx : ℕ)
    (f : Field) : Prop where
  print : ∀ page o, exec (parserGetItem zx m expert tx idx page) o =
    exec (f.print zx m tx page) (o.asked idx)
  ok : ∀ page o, (exec (parserGetItem zx m expert tx idx page) o).1 = .ok ()
  key : ∀ page o, cstr (exec (parserGetItem zx m expert tx idx page) o).2.outKey =
    (f.label (tx.fields m)).take (o.outKey.length - 1)
  value : ∀ page o,
    let out := (exec (parserGetItem zx m expert tx idx page) o).2
    (out.outVal, out.pageCount) =
      zx.pageStringExt o.outVal.length (f.text zx (tx.fields m)) page

/-- **The items are the fields, in order.** For every transaction parsed and validated in a mode,
the number of items is that of the fields shown in this mode, which a `uint8_t` holds; no field is
listed twice; the item of each index shows the field listed there; the indices past the last one
are refused; and no index reaches an entry of the tag array at or past the count.

**Proof sketch.** The count and the field of an index are those of the list, for any object with at
most sixteen tags. Validation has printed every item, so every item has a text; it is the text of
the listed field. The label is read off the key buffer, where a name ends in mapped memory. -/
theorem items_enumerated {zx : ZxFormat} {m : Memory} {dataLen : ℕ}
    (hmap : dataLen ≤ m.bytes.length) {s s' : ParserState}
    (hparse : (parserParse m m.base dataLen).exec s = (.ok (), s')) {st : CryptoStore}
    {expert : Bool} (hvalid : parserValidate zx m st expert s'.tx = .ok ()) :
    let fields := (s'.tx.fields m).shownFields expert
    parserGetNumItems expert s'.tx = fields.length ∧ fields.length < 256 ∧ fields.Nodup ∧
      (∀ idx f, fields[idx]? = some f → ShowsField zx m expert s'.tx idx f) ∧
      (∀ idx page o, fields.length ≤ idx →
        (exec (parserGetItem zx m expert s'.tx idx page) o).1 = .error .noData) ∧
      (∀ idx k, printedTag expert s'.tx idx = some k → k < s'.tx.tagsCount) ∧
      ∀ tags : ℕ → ParserTag, (∀ k < s'.tx.tagsCount, tags k = s'.tx.tags k) →
        ∀ idx page o, exec (parserGetItem zx m expert { s'.tx with tags := tags } idx page) o =
          exec (parserGetItem zx m expert s'.tx idx page) o := by
  intro fields
  have hcount := tagsCount_of_parserParse hmap hparse
  have hnum : parserGetNumItems expert s'.tx = fields.length := parserGetNumItems_eq m hcount
  refine ⟨hnum, ?_, nodup_shownFields _ expert, fun idx f hf => ?_, fun idx page o hidx => ?_,
    fun idx k hk => (printedTag_lt hcount hk).1, fun tags htags idx page o => ?_⟩
  · rw [← hnum, parserGetNumItems]
    split_ifs
    · exact Nat.mod_lt _ (Nat.succ_pos 255)
    · show 4 < 256
      decide
  · have hidx : idx < parserGetNumItems expert s'.tx := by
      rw [hnum]
      exact (List.getElem?_eq_some_iff.mp hf).1
    obtain ⟨text, htext⟩ := ((parserValidate_iff_texts hcount).mp hvalid).2 idx hidx
    have hshow : ∀ page o, exec (parserGetItem zx m expert s'.tx idx page) o = (.ok (),
        ItemOut.showing ⟨itemKey m s'.tx idx o.outKey.length, o.outVal, 0⟩ zx text page) := by
      intro page o
      have hitem := exec_parserGetItem zx m hcount hidx page o
      rwa [ShowsItem, htext] at hitem
    refine ⟨exec_of_shownFields hcount hf, getItem_ok_of_accepted hmap hparse hvalid hidx,
      fun page o => ?_, fun page o => ?_⟩
    · rw [hshow]
      refine cstr_itemKey (fun k hk => ?_) hf _
      obtain ⟨hlo, hhi, -⟩ := name_of_parserParse hmap hparse hk
      exact ⟨hlo, hhi⟩
    · rw [hshow, ← text_of_shownFields hf htext]
      rfl
  · exact getItem_noData zx m (hnum.trans_le hidx)
  · exact getItem_congr_tags hcount htags page o

/-- The fields of a sample with a data root and a tag. -/
theorem items_enumerated_sample :
    let t := sampleTx [⟨ascii "n", ascii "a"⟩] [2]
    let m : Memory := ⟨1, transaction.encode t⟩
    t.shownFields true =
        [.target, .quantity, .reward, .lastTx, .dataSize, .dataRoot, .tag 0] ∧
      parserGetNumItems true (sampleState t).tx = 7 ∧
      ShowsField sampleFormat m true (sampleState t).tx 6 (.tag 0) := by
  intro t m
  have ht : SampleAccepted t := sampleTx_accepted _ _ (by decide) (by decide) (by decide +kernel)
    (by decide +kernel)
  have h := items_enumerated (m := m) le_rfl ht.parse ht.validate
  rw [ht.fields] at h
  exact ⟨rfl, h.1, h.2.2.2.1 6 (.tag 0) rfl⟩

end LedgerArweave
