import LedgerArweave.Parser.Text
import Mathlib.Data.List.Forall2

set_option relaxedAutoImplicit false
set_option autoImplicit false

/-!
# What a review determines

The screen shows every item page by page, and shows C strings. In expert mode the data root and
the tags can be read off from a review up to two ambiguities: nothing is shown of what follows a
zero byte in a name or in a page of a value, and a data root is shown like a tag of the name
"Data root".

## Main definitions

* `review` — everything shown of a transaction.
* `Tag.shown` — what is shown of a tag.
* `Alike` — transactions whose data root and tags agree up to the second ambiguity.

## Main results

* `review_extraItems` — the items after the fixed ones.
* `review_alike` — what two equal reviews have in common.
-/

namespace LedgerArweave

/-! ## The review -/

/-- What the screen shows of an item: the key, the number of pages and their texts. -/
structure Shown where
  key : Bytes
  pageCount : ℕ
  texts : List Bytes
deriving DecidableEq

section Review

variable (zx : ZxFormat) (m : Memory) (expert : Bool) (tx : ParserTx) (keyLen valLen : ℕ)

/-- A page of an item. -/
def itemPage (idx page : ℕ) : ItemOut :=
  ((parserGetItem zx m expert tx idx page).exec ⟨zeros keyLen, zeros valLen, 0⟩).2

/-- All pages of an item, as C strings. -/
def shownItem (idx : ℕ) : Shown :=
  let out := itemPage zx m expert tx keyLen valLen idx 0
  ⟨cstr out.outKey, out.pageCount,
    (List.range out.pageCount).map fun page =>
      cstr (itemPage zx m expert tx keyLen valLen idx page).outVal⟩

/-- All items. -/
def review : List Shown :=
  (List.range (parserGetNumItems expert tx)).map (shownItem zx m expert tx keyLen valLen)

end Review

/-! ## The items after the fixed ones -/

/-- What is shown of a tag with pages of width `w`. -/
def Tag.shown (w : ℕ) (u : Tag) : Shown :=
  ⟨cstr u.name, sliceCount w u.value, (slices w u.value).map cstr⟩

/-- A data root as it is shown. -/
def rootTag (dataRoot : Bytes) : Tag := ⟨ascii "Data root", b64urlText dataRoot⟩

/-- The items after the fixed ones. -/
def Transaction.extraItems (t : Transaction) : List Tag :=
  (if t.dataRoot = [] then [] else [rootTag t.dataRoot]) ++ t.tags

/-- No key is cut and the value of no tag needs more than 255 pages. -/
structure Transaction.FitsScreen (t : Transaction) (keyLen valLen : ℕ) : Prop where
  dataRootKey : 10 ≤ keyLen
  onePage : 2 ≤ valLen
  name : ∀ u ∈ t.tags, (cstr u.name).length < keyLen
  value : ∀ u ∈ t.tags, u.value.length ≤ 255 * (valLen - 1)

section Extra

variable {zx : ZxFormat} {m : Memory} {tx : ParserTx} {keyLen valLen : ℕ}

/-- **The pages of a text** under a key, as C strings, are the slices of the text, as many as a
`uint8_t` counts.

**Proof sketch.** The count and the key are those of page 0, and each page below the count is a
slice padded with zeros. -/
theorem shown_of_pages (hzx : zx.Pages) (hval : 2 ≤ valLen) {key text : Bytes}
    {pageOf : ℕ → ItemOut}
    (hpage : ∀ page, pageOf page = ItemOut.showing ⟨key, zeros valLen, 0⟩ zx text page) :
    (⟨cstr (pageOf 0).outKey, (pageOf 0).pageCount,
      (List.range (pageOf 0).pageCount).map fun page => cstr (pageOf page).outVal⟩ : Shown) =
      ⟨cstr key, sliceCount (valLen - 1) text % 256,
        (List.range (sliceCount (valLen - 1) text % 256)).map fun page =>
          cstr (slice (valLen - 1) text page)⟩ := by
  have hcount : (pageOf 0).pageCount = sliceCount (valLen - 1) text % 256 := by
    rw [hpage, ItemOut.showing, length_zeros, hzx.pageCount _ _ _ hval]
  have hkey : (pageOf 0).outKey = key := congrArg ItemOut.outKey (hpage 0)
  rw [hcount, hkey]
  congr 1
  apply List.map_congr_left
  intro page hmem
  rw [hpage page, ItemOut.showing, length_zeros, hzx.page _ _ _ hval (List.mem_range.mp hmem),
    cstr_append_zeros]

/-- **The pages of an item** are the slices of its text.

**Proof sketch.** An item that has a text shows its pages: `exec_parserGetItem`. -/
theorem shownItem_eq (hzx : zx.Pages) (hval : 2 ≤ valLen) {expert : Bool}
    (hcount : tx.tagsCount ≤ maxNumberTags) {idx : ℕ} (hidx : idx < parserGetNumItems expert tx)
    {text : Bytes} (htext : itemText zx m tx idx = .ok text) :
    shownItem zx m expert tx keyLen valLen idx =
      ⟨cstr (itemKey m tx idx keyLen), sliceCount (valLen - 1) text % 256,
        (List.range (sliceCount (valLen - 1) text % 256)).map fun page =>
          cstr (slice (valLen - 1) text page)⟩ := by
  refine shown_of_pages hzx hval fun page => ?_
  have hshow := exec_parserGetItem zx m hcount hidx page ⟨zeros keyLen, zeros valLen, 0⟩
  rw [ShowsItem, htext] at hshow
  dsimp only at hshow
  rw [itemPage, hshow, length_zeros]

/-- An item that pages a text under a key is shown like a tag. -/
theorem shownItem_of_text (hzx : zx.Pages) (hval : 2 ≤ valLen)
    (hcount : tx.tagsCount ≤ maxNumberTags) {idx : ℕ} (hidx : idx < parserGetNumItems true tx)
    {u : Tag} (hpages : u.value.length ≤ 255 * (valLen - 1))
    (htext : itemText zx m tx idx = .ok u.value)
    (hkey : cstr (itemKey m tx idx keyLen) = cstr u.name) :
    shownItem zx m true tx keyLen valLen idx = u.shown (valLen - 1) := by
  have hle : sliceCount (valLen - 1) u.value ≤ 255 := sliceCount_le (by omega) hpages
  rw [shownItem_eq hzx hval hcount hidx htext, Nat.mod_eq_of_lt (by omega), hkey, Tag.shown, slices,
    List.map_map]
  rfl

/-- The tags recorded in an object lie in mapped memory. -/
def ParserTx.TagsMapped (m : Memory) (v : ParserTx) : Prop :=
  ∀ u ∈ v.tagList, m.base ≤ u.key.ptr ∧ u.key.ptr + u.key.len ≤ m.base + m.bytes.length

/-- The data root, if there is one, can be printed. -/
def ParserTx.RootPrints (m : Memory) (v : ParserTx) : Prop :=
  v.dataRoot.len ≠ 0 →
    v.dataRoot.ptr ≠ 0 ∧ (b64urlText (m.deref v.dataRoot)).length ≤ uibufferLen

/-- An element without bytes has length zero. -/
theorem deref_eq_nil_iff {v : ParserElement} : m.deref v = [] ↔ v.len = 0 := by
  rw [← List.length_eq_zero_iff, Memory.length_deref]

/-- The items after the fixed ones, for the transaction read off an object. -/
theorem extraItems_fields : (tx.fields m).extraItems =
    (if tx.dataRoot.len = 0 then [] else [rootTag (m.deref tx.dataRoot)]) ++
      tx.tagList.map m.derefTag := by
  simp only [Transaction.extraItems, ParserTx.fields, deref_eq_nil_iff]

/-- The item of a tag. -/
theorem shownItem_tag (hzx : zx.Pages) (hcount : tx.tagsCount ≤ maxNumberTags)
    (hmap : tx.TagsMapped m) (hfits : (tx.fields m).FitsScreen keyLen valLen) {k : ℕ}
    (hk : k < tx.tagsCount) :
    shownItem zx m true tx keyLen valLen (dataRootNumUiItems tx + k + 5) =
      (m.derefTag (tx.tags k)).shown (valLen - 1) := by
  have hmem : tx.tags k ∈ tx.tagList := List.mem_map_of_mem (List.mem_range.mpr hk)
  have hmem' : m.derefTag (tx.tags k) ∈ (tx.fields m).tags := List.mem_map_of_mem hmem
  have hshort := hfits.name _ hmem'
  have hidx : dataRootNumUiItems tx + k + 5 < parserGetNumItems true tx := by
    rw [numItems_expert hcount]
    omega
  apply shownItem_of_text hzx hfits.onePage hcount hidx (hfits.value _ hmem') (itemText_tag zx m k)
  rw [itemKey_tag, cstr_tagKey (hmap _ hmem).1 (hmap _ hmem).2]
  exact List.take_of_length_le (Nat.le_sub_one_of_lt hshort)

/-- The item of the data root.

**Proof sketch.** Its text is the base64url of its bytes, of at most 200 characters, under the label
that a tag of this name would have. -/
theorem shownItem_root (hzx : zx.Pages) (hcount : tx.tagsCount ≤ maxNumberTags)
    (hroot : tx.RootPrints m) (hfits : (tx.fields m).FitsScreen keyLen valLen)
    (hlen : tx.dataRoot.len ≠ 0) :
    shownItem zx m true tx keyLen valLen 5 =
      (rootTag (m.deref tx.dataRoot)).shown (valLen - 1) := by
  obtain ⟨hptr, htext⟩ := hroot hlen
  have honePage := hfits.onePage
  have hten := hfits.dataRootKey
  have hidx : 5 < parserGetNumItems true tx := by
    rw [numItems_expert hcount, dataRootNumUiItems, if_pos hlen]
    omega
  have hzero : 0 ∉ ascii "Data root" := by decide +kernel
  have hlabel : (ascii "Data root").length = 9 := by decide +kernel
  apply shownItem_of_text hzx hfits.onePage hcount hidx
  · show (b64urlText (m.deref tx.dataRoot)).length ≤ _
    unfold uibufferLen at htext
    omega
  · exact (if_pos ⟨rfl, hlen⟩).trans (if_pos ⟨hptr, mt deref_eq_nil_iff.mp hlen, htext⟩)
  · rw [show itemKey m tx 5 keyLen = _ from if_pos ⟨rfl, hlen⟩, cstr_snprintf (by omega) hzero,
      rootTag, cstr_of_notMem hzero, List.take_of_length_le (by omega)]

/-- **The items after the fixed ones** are shown like tags: the data root if there is one, then
the tags.

**Proof sketch.** Entry by entry: the data root comes first if there is one, and the tags are
shifted by it. -/
theorem review_extraItems (hzx : zx.Pages) (hcount : tx.tagsCount ≤ maxNumberTags)
    (hmap : tx.TagsMapped m) (hroot : tx.RootPrints m)
    (hfits : (tx.fields m).FitsScreen keyLen valLen) :
    (review zx m true tx keyLen valLen).drop 5 =
      (tx.fields m).extraItems.map (Tag.shown (valLen - 1)) := by
  have hlength : (tx.fields m).extraItems.length = dataRootNumUiItems tx + tx.tagsCount := by
    rw [extraItems_fields, List.length_append, List.length_map, ParserTx.tagList, List.length_map,
      List.length_range, dataRootNumUiItems]
    split_ifs <;> first | rfl | contradiction
  apply List.ext_getElem
  · rw [List.length_drop, review, List.length_map, List.length_range, numItems_expert hcount,
      List.length_map, hlength]
    omega
  · intro j h₁ h₂
    rw [List.length_map, hlength] at h₂
    simp only [review, List.getElem_drop, List.getElem_map, List.getElem_range, extraItems_fields]
    by_cases hlen : tx.dataRoot.len = 0
    · have hnone : dataRootNumUiItems tx = 0 := if_neg (not_not.mpr hlen)
      have htag := shownItem_tag hzx hcount hmap hfits (k := j) (by omega)
      rw [hnone, show 0 + j + 5 = 5 + j by omega] at htag
      simp [hlen, htag, ParserTx.tagList]
    · have hone : dataRootNumUiItems tx = 1 := if_pos hlen
      cases j with
      | zero => simp [hlen, shownItem_root hzx hcount hroot hfits hlen]
      | succ k =>
        have htag := shownItem_tag hzx hcount hmap hfits (k := k) (by omega)
        rw [hone, show 1 + k + 5 = 5 + (k + 1) by omega] at htag
        simp [hlen, htag, ParserTx.tagList]

end Extra

/-! ## Accepted buffers -/

section Accepted

variable {zx : ZxFormat} {base : ℕ} {b : Bytes} {s s' : ParserState} {st : CryptoStore}
  {keyLen valLen : ℕ}

/-- A validated data root can be printed. -/
theorem rootPrints_of_parserValidate {m : Memory} {tx : ParserTx}
    (hcount : tx.tagsCount ≤ maxNumberTags) (h : parserValidate zx m st true tx = .ok ()) :
    tx.RootPrints m := by
  intro hlen
  have hfive : 5 < parserGetNumItems true tx := by
    rw [numItems_expert hcount, dataRootNumUiItems, if_pos hlen]
    omega
  obtain ⟨text, htext⟩ := ((parserValidate_iff_texts hcount).mp h).2 5 hfive
  rw [show itemText zx m tx 5 = b64Text m tx.dataRoot from if_pos ⟨rfl, hlen⟩, b64Text] at htext
  split_ifs at htext with hprints
  exact ⟨hprints.1, hprints.2.2⟩

/-- The names of a parsed transaction lie in the buffer. -/
theorem tagsMapped_of_parseBuffer (hbase : 0 < base) (hb : b.length ≤ 65535)
    (hparse : parseBuffer base b s = (.ok (), s')) : s'.tx.TagsMapped ⟨base, b⟩ := by
  intro u hu
  have hkey : u.key ∈ s'.tx.tailElements :=
    List.mem_append_left _ (List.mem_flatMap.mpr ⟨u, hu, by simp⟩)
  exact mapped_of_parseBuffer hbase hb hparse u.key (List.mem_append_right _ hkey)

/-- The items after the fixed ones, for an accepted buffer. -/
theorem review_of_accepted (hzx : zx.Pages) (hbase : 0 < base) (hb : b.length ≤ 65535)
    (hparse : parseBuffer base b s = (.ok (), s'))
    (hvalid : parserValidate zx ⟨base, b⟩ st true s'.tx = .ok ())
    (hfits : (s'.tx.fields ⟨base, b⟩).FitsScreen keyLen valLen) :
    (review zx ⟨base, b⟩ true s'.tx keyLen valLen).drop 5 =
      (s'.tx.fields ⟨base, b⟩).extraItems.map (Tag.shown (valLen - 1)) :=
  have hcount := tagsCount_of_parserParse (m := ⟨base, b⟩) le_rfl hparse
  review_extraItems hzx hcount (tagsMapped_of_parseBuffer hbase hb hparse)
    (rootPrints_of_parserValidate hcount hvalid) hfits

end Accepted

/-! ## What is read off -/

/-- No zero byte in the name or the value. -/
def Tag.ZeroFree (u : Tag) : Prop := 0 ∉ u.name ∧ 0 ∉ u.value

/-- Read a tag off the screen. -/
def Shown.read (sh : Shown) : Tag := ⟨sh.key, sh.texts.flatten⟩

/-- A tag without zero bytes is read back. -/
theorem read_shown {w : ℕ} (hw : 0 < w) {u : Tag} (hu : u.ZeroFree) : (u.shown w).read = u := by
  have hpages : (slices w u.value).map cstr = slices w u.value := by
    refine (List.map_congr_left fun page hmem => ?_).trans (List.map_id _)
    obtain ⟨i, -, rfl⟩ := List.mem_map.mp hmem
    exact cstr_of_notMem fun h0 => hu.2 (mem_of_mem_slice h0)
  simp only [Shown.read, Tag.shown]
  rw [hpages, flatten_slices hw, cstr_of_notMem hu.1]

/-- A data root is shown without zero bytes. -/
theorem rootTag_zeroFree (dataRoot : Bytes) : (rootTag dataRoot).ZeroFree :=
  ⟨by
    show 0 ∉ ascii "Data root"
    decide +kernel, zero_notMem_b64urlText dataRoot⟩

/-- A data root is read back. -/
theorem rootTag_injective {r r' : Bytes} (h : rootTag r = rootTag r') : r = r' :=
  b64urlText_injective (congrArg Tag.value h)

/-- The data roots agree and the tags are related, or one transaction has no data root and a first
tag related to the data root of the other, followed by related tags. -/
def Alike (R : Tag → Tag → Prop) (t t' : Transaction) : Prop :=
  (t.dataRoot = t'.dataRoot ∧ List.Forall₂ R t.tags t'.tags) ∨
  (t.dataRoot ≠ [] ∧ t'.dataRoot = [] ∧ List.Forall₂ R (rootTag t.dataRoot :: t.tags) t'.tags) ∨
  (t.dataRoot = [] ∧ t'.dataRoot ≠ [] ∧ List.Forall₂ R t.tags (rootTag t'.dataRoot :: t'.tags))

/-- Related items make transactions alike, if related data roots are equal.

**Proof sketch.** By whether the two transactions have data roots. -/
theorem alike_of_forall₂ {R : Tag → Tag → Prop} {t t' : Transaction}
    (hR : ∀ r r', R (rootTag r) (rootTag r') → r = r')
    (h : List.Forall₂ R t.extraItems t'.extraItems) : Alike R t t' := by
  unfold Transaction.extraItems at h
  by_cases h₁ : t.dataRoot = []
  · by_cases h₂ : t'.dataRoot = []
    · rw [if_pos h₁, if_pos h₂] at h
      exact .inl ⟨h₁.trans h₂.symm, h⟩
    · rw [if_pos h₁, if_neg h₂] at h
      exact .inr (.inr ⟨h₁, h₂, h⟩)
  · by_cases h₂ : t'.dataRoot = []
    · rw [if_neg h₁, if_pos h₂] at h
      exact .inr (.inl ⟨h₁, h₂, h⟩)
    · rw [if_neg h₁, if_neg h₂] at h
      obtain ⟨hroot, htags⟩ := List.forall₂_cons.mp h
      exact .inl ⟨hR _ _ hroot, htags⟩

/-- Lists of tags shown alike agree item by item. -/
theorem forall₂_of_map_shown {w : ℕ} {us us' : List Tag}
    (h : us.map (Tag.shown w) = us'.map (Tag.shown w)) :
    List.Forall₂ (fun u u' => u.shown w = u'.shown w) us us' := by
  rw [← List.forall₂_eq_eq_eq, List.forall₂_map_left_iff, List.forall₂_map_right_iff] at h
  exact h

/-- Lists of tags without zero bytes that are shown alike are equal. -/
theorem eq_of_map_shown {w : ℕ} (hw : 0 < w) {us us' : List Tag} (hus : ∀ u ∈ us, u.ZeroFree)
    (hus' : ∀ u ∈ us', u.ZeroFree) (h : us.map (Tag.shown w) = us'.map (Tag.shown w)) :
    us = us' := by
  have hread : ∀ vs : List Tag, (∀ u ∈ vs, u.ZeroFree) →
      (vs.map (Tag.shown w)).map Shown.read = vs := by
    intro vs hvs
    rw [List.map_map]
    exact (List.map_congr_left fun u hu => read_shown hw (hvs u hu)).trans (List.map_id _)
  rw [← hread us hus, h, hread us' hus']

/-- If no tag contains a zero byte, neither does any item. -/
theorem extraItems_zeroFree {t : Transaction} (h : ∀ u ∈ t.tags, u.ZeroFree) :
    ∀ u ∈ t.extraItems, u.ZeroFree := by
  intro u hu
  rcases List.mem_append.mp hu with hroot | htag
  · by_cases hnil : t.dataRoot = []
    · rw [if_pos hnil] at hroot
      exact absurd hroot List.not_mem_nil
    · rw [if_neg hnil] at hroot
      rw [List.mem_singleton.mp hroot]
      exact rootTag_zeroFree _
  · exact h u htag

/-! ## Samples

Accepted transactions under a zero owner, reviewed on a screen with rows of 40 bytes. -/

/-- The formatting of amounts below one that have no zeros at the end. -/
def sampleFormat : ZxFormat where
  pageStringExt outLen text page :=
    (slice (outLen - 1) text page ++ zeros (outLen - (slice (outLen - 1) text page).length),
      sliceCount (outLen - 1) text % 256)
  intstrToFpstrInplace buf decimalPlaces :=
    let text := ascii "0." ++ List.replicate (decimalPlaces - (cstr buf).length) 0x30 ++ cstr buf
    (overwrite (zeros buf.length) 0 text, text.length)
  zStr3join buf before after :=
    (overwrite (zeros buf.length) 0 (before ++ cstr buf ++ after), true)
  numberInplaceTrimming buf _ := buf

/-- The sample format cuts texts into pages. -/
theorem sampleFormat_pages : sampleFormat.Pages where
  pageCount _ _ _ _ := rfl
  page _ _ _ _ _ := rfl

/-- A store whose first slot holds a zero modulus. -/
def sampleStore : CryptoStore :=
  { CryptoStore.reset Flash.zero with
    flash := Flash.zero.setSlot keySlot1 fun c => { c with initialized := true } }

/-- A transaction with the given tags and data root. -/
def sampleTx (tags : List Tag) (dataRoot : Bytes) : Transaction :=
  ⟨formatTwo, (zeroBlock 512).val, [1], ascii "1", ascii "1", [1], tags, ascii "1", dataRoot⟩

/-- The state after parsing the encoding of a transaction. -/
def sampleState (t : Transaction) : ParserState :=
  ⟨⟨1, (transaction.encode t).length, (transaction.encode t).length⟩,
    layout ⟨1, transaction.encode t⟩ 0 t ParserTx.zero.tags, false⟩

/-- A sample parses and validates to its fields, and fits the screen. -/
structure SampleAccepted (t : Transaction) : Prop where
  length : (transaction.encode t).length ≤ 65535
  parse : parseBuffer 1 (transaction.encode t) .zero = (.ok (), sampleState t)
  validate : parserValidate sampleFormat ⟨1, transaction.encode t⟩ sampleStore true
    (sampleState t).tx = .ok ()
  fields : (sampleState t).tx.fields ⟨1, transaction.encode t⟩ = t
  fits : t.FitsScreen 40 40

/-- The review of a sample. -/
def sampleReview (t : Transaction) : List Shown :=
  review sampleFormat ⟨1, transaction.encode t⟩ true (sampleState t).tx 40 40

section Sample

variable {t : Transaction}

/-- The state of a sample holds its fields. -/
theorem sample_fields : (sampleState t).tx.fields ⟨1, transaction.encode t⟩ = t :=
  fields_layout (m := ⟨1, transaction.encode t⟩) (o := 0) (List.prefix_refl _)
    (List.append_nil _).symm _

/-- A well-formed sample is parsed. -/
theorem sample_parse (ht : transaction.Valid t) (hlen : (transaction.encode t).length ≤ 65535) :
    parseBuffer 1 (transaction.encode t) .zero = (.ok (), sampleState t) :=
  parserParse_accept (m := ⟨1, transaction.encode t⟩) Nat.one_pos (List.prefix_refl _)
    (Nat.lt_succ_of_le hlen) (transaction.decode_encode_self ht) .zero

/-- A transaction of the zero owner whose items can be printed is validated. -/
theorem sample_validate (howner : t.owner = (zeroBlock 512).val) {zx : ZxFormat}
    (hitems : ∀ idx < parserGetNumItems true (sampleState t).tx,
      ((parserGetItem zx ⟨1, transaction.encode t⟩ true (sampleState t).tx idx 0).exec
        tmpOut).1 = .ok ()) :
    parserValidate zx ⟨1, transaction.encode t⟩ sampleStore true (sampleState t).tx = .ok () := by
  refine parserValidate_eq_ok.mpr ⟨(validateTx_eq_ok ?_).mpr ⟨rfl, ?_⟩, hitems⟩
  · show t.owner.length = _
    rw [howner, (zeroBlock 512).property, rsaModulusLen]
  · exact (congrArg Transaction.owner sample_fields).trans howner

/-- A well-formed transaction of the zero owner whose items can be printed is accepted. -/
theorem sampleAccepted (ht : transaction.Valid t)
    (howner : t.owner = (zeroBlock 512).val) (hlen : (transaction.encode t).length ≤ 65535)
    (hitems : ∀ idx < parserGetNumItems true (sampleState t).tx,
      ((parserGetItem sampleFormat ⟨1, transaction.encode t⟩ true (sampleState t).tx idx 0).exec
        tmpOut).1 = .ok ())
    (hfits : t.FitsScreen 40 40) : SampleAccepted t :=
  ⟨hlen, sample_parse ht hlen, sample_validate howner hitems, sample_fields, hfits⟩

end Sample

/-- A sample with few and short tags is well-formed. -/
theorem sampleTx_valid {tags : List Tag} {dataRoot : Bytes}
    (htags : tags.length ≤ 16 ∧ ∀ u ∈ tags, u.name.length < 40 ∧ u.value.length < 40)
    (hroot : dataRoot.length < 65536) : transaction.Valid (sampleTx tags dataRoot) := by
  have hone : (ascii "1").length < 65536 := by decide +kernel
  have hbyte : [(1 : UInt8)].length < 65536 := by decide
  refine (transaction_valid_iff _).mpr ⟨rfl, (zeroBlock 512).property, htags.1, hbyte, hone, hone,
    hbyte, fun u hu => ?_, hone, hroot⟩
  obtain ⟨hname, hvalue⟩ := htags.2 u hu
  exact ⟨by omega, by omega⟩

/-- The conditions of `sampleAccepted`, for transactions of the sample owner. -/
theorem sampleTx_accepted (tags : List Tag) (dataRoot : Bytes)
    (htags : tags.length ≤ 16 ∧ ∀ u ∈ tags, u.name.length < 40 ∧ u.value.length < 40)
    (hroot : dataRoot.length < 65536)
    (hlen : (transaction.encode (sampleTx tags dataRoot)).length ≤ 65535)
    (hitems : ∀ idx < parserGetNumItems true (sampleState (sampleTx tags dataRoot)).tx,
      ((parserGetItem sampleFormat ⟨1, transaction.encode (sampleTx tags dataRoot)⟩ true
        (sampleState (sampleTx tags dataRoot)).tx idx 0).exec tmpOut).1 = .ok ()) :
    SampleAccepted (sampleTx tags dataRoot) := by
  refine sampleAccepted (sampleTx_valid htags hroot) rfl hlen hitems
    ⟨by decide, by decide, fun u hu => ?_, fun u hu => ?_⟩
  · exact lt_of_le_of_lt (List.takeWhile_prefix _).length_le (htags.2 u hu).1
  · have hvalue := (htags.2 u hu).2
    omega

/-- The samples that differ after a zero byte, and those with a data root and a tag like it. -/
theorem samples_accepted :
    SampleAccepted (sampleTx [⟨ascii "n", ascii "a"⟩] []) ∧
      SampleAccepted (sampleTx [⟨ascii "n", ascii "a" ++ 0 :: ascii "b"⟩] []) ∧
      SampleAccepted (sampleTx [] [1]) ∧
      SampleAccepted (sampleTx [⟨ascii "Data root", ascii "AQ"⟩] []) := by
  refine ⟨?_, ?_, ?_, ?_⟩
  all_goals
    exact sampleTx_accepted _ _ (by decide +kernel) (by decide) (by decide +kernel)
      (by decide +kernel)

/-- What follows a zero byte is not shown. -/
theorem sampleReview_zero :
    sampleReview (sampleTx [⟨ascii "n", ascii "a"⟩] []) =
      sampleReview (sampleTx [⟨ascii "n", ascii "a" ++ 0 :: ascii "b"⟩] []) := by
  decide +kernel

/-- **What a review determines**, for any two accepted buffers shown alike in expert mode on a
screen that fits both: the data roots and the tags are alike, where two tags are related if
the same is shown of them, and where no tag contains a zero byte, only if they are equal.

**Proof sketch.** The items after the fixed ones are shown as the same list, so they are related one
by one; a data root is shown without zero bytes and is read back. If no tag contains a zero byte,
every item is read back. -/
theorem review_alike (zx : ZxFormat) (hzx : zx.Pages) {base base' : ℕ} (hbase : 0 < base)
    (hbase' : 0 < base') {b b' : Bytes} (hb : b.length ≤ 65535) (hb' : b'.length ≤ 65535)
    {s₀ s s₀' s' : ParserState} (hparse : parseBuffer base b s₀ = (.ok (), s))
    (hparse' : parseBuffer base' b' s₀' = (.ok (), s')) {st st' : CryptoStore}
    (hvalid : parserValidate zx ⟨base, b⟩ st true s.tx = .ok ())
    (hvalid' : parserValidate zx ⟨base', b'⟩ st' true s'.tx = .ok ()) {keyLen valLen : ℕ}
    (hfits : (s.tx.fields ⟨base, b⟩).FitsScreen keyLen valLen)
    (hfits' : (s'.tx.fields ⟨base', b'⟩).FitsScreen keyLen valLen)
    (hreview : review zx ⟨base, b⟩ true s.tx keyLen valLen =
      review zx ⟨base', b'⟩ true s'.tx keyLen valLen) :
    let t := s.tx.fields ⟨base, b⟩
    let t' := s'.tx.fields ⟨base', b'⟩
    Alike (fun u u' => u.shown (valLen - 1) = u'.shown (valLen - 1)) t t' ∧
      ((∀ u ∈ t.tags ++ t'.tags, u.ZeroFree) → Alike (fun u u' => u = u') t t') := by
  intro t t'
  have hw : 0 < valLen - 1 := by
    have honePage := hfits.onePage
    omega
  have hitems : t.extraItems.map (Tag.shown (valLen - 1)) =
      t'.extraItems.map (Tag.shown (valLen - 1)) := by
    rw [← review_of_accepted hzx hbase hb hparse hvalid hfits,
      ← review_of_accepted hzx hbase' hb' hparse' hvalid' hfits', hreview]
  constructor
  · refine alike_of_forall₂ (fun r r' h => rootTag_injective ?_) (forall₂_of_map_shown hitems)
    rw [← read_shown hw (rootTag_zeroFree r), h, read_shown hw (rootTag_zeroFree r')]
  · intro hfree
    have heq : t.extraItems = t'.extraItems :=
      eq_of_map_shown hw (extraItems_zeroFree fun u hu => hfree u (List.mem_append_left _ hu))
        (extraItems_zeroFree fun u hu => hfree u (List.mem_append_right _ hu)) hitems
    refine alike_of_forall₂ (fun r r' h => rootTag_injective h) ?_
    rw [heq, List.forall₂_eq_eq_eq]


/-- Reviews of different transactions can be the same: with a zero byte in the value of a tag,
and with a tag that is shown like a data root.

**Proof sketch.** The samples are accepted, and their reviews are computed. -/
theorem review_ambiguous :
    let a := sampleTx [⟨ascii "n", ascii "a"⟩] []
    let b := sampleTx [⟨ascii "n", ascii "a" ++ 0 :: ascii "b"⟩] []
    let c := sampleTx [] [1]
    let d := sampleTx [⟨ascii "Data root", ascii "AQ"⟩] []
    (sampleFormat.Pages ∧ SampleAccepted a ∧ SampleAccepted b ∧ SampleAccepted c ∧
      SampleAccepted d) ∧
    (sampleReview a = sampleReview b ∧ a.tags ≠ b.tags) ∧
    sampleReview c = sampleReview d ∧ c.dataRoot ≠ d.dataRoot ∧ c.tags ≠ d.tags := by
  refine ⟨⟨sampleFormat_pages, samples_accepted⟩, ⟨sampleReview_zero, ?_⟩, ?_, ?_, ?_⟩
  · decide +kernel
  · decide +kernel
  · decide +kernel
  · decide +kernel

/-- The two samples that differ after a zero byte have alike tags. -/
theorem review_alike_sample :
    let a := sampleTx [⟨ascii "n", ascii "a"⟩] []
    let b := sampleTx [⟨ascii "n", ascii "a" ++ 0 :: ascii "b"⟩] []
    Alike (fun u u' => u.shown 39 = u'.shown 39) a b := by
  intro a b
  obtain ⟨ha, hb, -, -⟩ := samples_accepted
  have h := (review_alike sampleFormat sampleFormat_pages Nat.one_pos Nat.one_pos ha.length
    hb.length ha.parse hb.parse ha.validate hb.validate (by rw [ha.fields]; exact ha.fits)
    (by rw [hb.fields]; exact hb.fits) sampleReview_zero).1
  rwa [ha.fields, hb.fields] at h

end LedgerArweave
