import LedgerArweave.Parser.Unambiguous

set_option relaxedAutoImplicit false
set_option autoImplicit false

/-!
# The client's encoder

`ArweaveApp.encodeTx` of the JavaScript client and its agreement with the parser on the device.
The two were written separately: the encoder truncates lengths and the tag count to 16 bits
without looking, the parser checks the format, the owner and the number of tags. On every blob
that fits the buffer of the device they agree.

## Main definitions

* `ClientTx`, `ClientTag` — what the encoder reads of a transaction object.
* `encodeu16`, `concatArray`, `encodeWithLen`, `flatten`, `encodeTx` — the encoder.

## Main results

* `encodeTx_eq` — the encoder computes the encoding of the wire format, for every transaction.
* `parse_encodeTx` — what `parser_parse` makes of an encoded transaction.

## Implementation notes

A `Uint8Array` is a byte string, and storing a number in one keeps its low eight bits.
`Arweave.utils.stringToBuffer` comes from the `arweave` package; it is a parameter, of which
only that it is the UTF-8 encoding is used. What `get` of a transaction or tag object returns
for a field with `decode` is a field of `ClientTx` and `ClientTag`.
-/

namespace LedgerArweave

/-! ## The encoder -/

/-- What the encoder reads of a tag: the decoded name and value. -/
structure ClientTag where
  name : Bytes
  value : Bytes

/-- What the encoder reads of a transaction object: the strings and the decoded fields. -/
structure ClientTx where
  format : String
  owner : Bytes
  target : Bytes
  quantity : String
  reward : String
  lastTx : Bytes
  tags : List ClientTag
  dataSize : String
  dataRoot : Bytes

/-- `encodeu16` -/
def encodeu16 (u16Value : ℕ) : Bytes :=
  [UInt8.ofNat (u16Value >>> 8), UInt8.ofNat (u16Value &&& 0xff)]

/-- `concatArray` -/
def concatArray (a b : Bytes) : Bytes := a ++ b

/-- `encodeWithLen` -/
def encodeWithLen (input : Bytes) : Bytes := concatArray (encodeu16 input.length) input

/-- `flatten` -/
def flatten (input : List Bytes) : Bytes := input.foldl concatArray []

/-- The arrays `encodeTx` pushes for the tags. -/
def serializedTags (tags : List ClientTag) : List Bytes :=
  tags.flatMap fun currentTag => [encodeWithLen currentTag.name, encodeWithLen currentTag.value]

section Encoder

variable (stringToBuffer : String → Bytes)

/-- `encodeTx` -/
def encodeTx (tx : ClientTx) : Bytes :=
  flatten
    [encodeWithLen (stringToBuffer tx.format),
      encodeWithLen tx.owner,
      encodeWithLen tx.target,
      encodeWithLen (stringToBuffer tx.quantity),
      encodeWithLen (stringToBuffer tx.reward),
      encodeWithLen tx.lastTx,
      encodeu16 tx.tags.length,
      flatten (serializedTags tx.tags),
      encodeWithLen (stringToBuffer tx.dataSize),
      encodeWithLen tx.dataRoot]

/-- The transaction a client object stands for. -/
def ClientTx.fields (tx : ClientTx) : Transaction where
  format := stringToBuffer tx.format
  owner := tx.owner
  target := tx.target
  quantity := stringToBuffer tx.quantity
  reward := stringToBuffer tx.reward
  lastTx := tx.lastTx
  tags := tx.tags.map fun t => ⟨t.name, t.value⟩
  dataSize := stringToBuffer tx.dataSize
  dataRoot := tx.dataRoot

/-- `stringToBuffer` is the UTF-8 encoding. -/
def IsUtf8 : Prop := ∀ s, stringToBuffer s = s.toUTF8.data.toList

end Encoder

/-! ## The encoder computes the wire format -/

/-- Truncation included, `encodeu16` is the encoding of the wire format. -/
theorem encodeu16_eq (n : ℕ) : encodeu16 n = be16.encode n := by
  have hlow : UInt8.ofNat (n &&& 0xff) = UInt8.ofNat n := by
    apply UInt8.toNat_inj.mp
    rw [UInt8.toNat_ofNat', UInt8.toNat_ofNat', Nat.and_two_pow_sub_one_eq_mod n 8, Nat.mod_mod]
  rw [encodeu16, Nat.shiftRight_eq_div_pow, hlow]
  rfl

/-- `encodeWithLen` encodes an element. -/
theorem encodeWithLen_eq (x : Bytes) : encodeWithLen x = element.encode x := by
  rw [encodeWithLen, encodeu16_eq]
  rfl

/-- `flatten` joins the arrays. -/
theorem flatten_eq (input : List Bytes) : flatten input = input.flatten := by
  have hfold : ∀ acc : Bytes, input.foldl concatArray acc = acc ++ input.flatten := by
    induction input with
    | nil => simp
    | cons x xs ih => simp [ih, concatArray, List.append_assoc]
  exact hfold []

/-- The arrays pushed for the tags are the encodings of the tags. -/
theorem flatten_serializedTags (tags : List ClientTag) :
    flatten (serializedTags tags) =
      (tags.map fun t => (⟨t.name, t.value⟩ : Tag)).flatMap tag.encode := by
  rw [flatten_eq]
  induction tags with
  | nil => rfl
  | cons t ts ih =>
    rw [List.map_cons, List.flatMap_cons, ← ih]
    simp [serializedTags, encodeWithLen_eq, tag_encode]

/-- **The encoder computes the wire format**, for transactions of any shape and size.

**Proof sketch.** Both write the same fields in the same order, with the same prefixes of two bytes.
-/
theorem encodeTx_eq (stringToBuffer : String → Bytes) (tx : ClientTx) :
    encodeTx stringToBuffer tx = transaction.encode (tx.fields stringToBuffer) := by
  unfold encodeTx
  rw [flatten_eq, flatten_serializedTags, transaction_encode]
  simp [encodeWithLen_eq, encodeu16_eq, ClientTx.fields]

/-! ## The wire format without the device's checks -/

/-- The format the encoder writes: any format string, any owner, any number of tags. -/
def uncheckedTransaction : Codec UInt8 Transaction :=
  (element.prod <| element.prod <| element.prod <| element.prod <| element.prod <| element.prod <|
    (be16.counted tag).prod <| element.prod element).map wireEquiv

/-- Without the checks, only that every length fits two bytes is left. -/
theorem unchecked_valid_iff (t : Transaction) :
    uncheckedTransaction.Valid t ↔
      t.format.length < 65536 ∧ t.owner.length < 65536 ∧ t.target.length < 65536 ∧
      t.quantity.length < 65536 ∧ t.reward.length < 65536 ∧ t.lastTx.length < 65536 ∧
      (t.tags.length < 65536 ∧ ∀ u ∈ t.tags, tag.Valid u) ∧
      t.dataSize.length < 65536 ∧ t.dataRoot.length < 65536 := Iff.rfl

/-- What passes the checks of the device is well-formed without them. -/
theorem unchecked_of_valid {t : Transaction} (h : transaction.Valid t) :
    uncheckedTransaction.Valid t := by
  obtain ⟨⟨hf, -⟩, ⟨ho, -⟩, h₁, h₂, h₃, h₄, ⟨hts, -⟩, h₅, h₆⟩ := h
  exact ⟨hf, ho, h₁, h₂, h₃, h₄, hts, h₅, h₆⟩

private lemma length_le_flatMap_tag (ts : List Tag) :
    ts.length ≤ (ts.flatMap tag.encode).length ∧ ∀ t ∈ ts,
      t.name.length + t.value.length ≤ (ts.flatMap tag.encode).length := by
  induction ts with
  | nil => simp
  | cons t ts ih =>
    rw [List.flatMap_cons, List.length_append, length_tag_encode, List.length_cons]
    refine ⟨by omega, fun u hu => ?_⟩
    cases hu with
    | head => omega
    | tail _ hu =>
      have hle := ih.2 u hu
      omega

/-- No length wraps in an encoding of fewer than `2 ^ 16` bytes: every field is at most as long
as the encoding, and so is the number of tags. -/
theorem unchecked_of_length_encode {t : Transaction} (h : (transaction.encode t).length < 65536) :
    uncheckedTransaction.Valid t := by
  rw [transaction_encode] at h
  simp only [List.length_append, length_element_encode, length_be16_encode] at h
  obtain ⟨hcount, htags⟩ := length_le_flatMap_tag t.tags
  have hvalid : ∀ u ∈ t.tags, tag.Valid u := by
    intro u hu
    have hle := htags u hu
    rw [tag_valid]
    omega
  rw [unchecked_valid_iff]
  refine ⟨?_, ?_, ?_, ?_, ?_, ?_, ⟨?_, hvalid⟩, ?_, ?_⟩ <;> omega

/-- An encoding of fewer than `2 ^ 16` bytes decodes on the device to nothing but the encoded
transaction, and only if it meets the device's checks.

**Proof sketch.** If the transaction meets the checks, the codec decodes its own encoding. If it
does not, an accepted transaction with this encoding would be the same one, since without the checks
the encoding is still injective, and it would fail the checks. -/
theorem decode_encode_of_length {t : Transaction} (h : (transaction.encode t).length < 65536) :
    transaction.decode (transaction.encode t) =
      if t.format = formatTwo ∧ t.owner.length = rsaModulusLen ∧ t.tags.length ≤ maxNumberTags
      then some (t, []) else none := by
  have hloose := unchecked_of_length_encode h
  by_cases hchecks : t.format = formatTwo ∧ t.owner.length = rsaModulusLen ∧
      t.tags.length ≤ maxNumberTags
  · rw [if_pos hchecks]
    obtain ⟨hf, ho, h₁, h₂, h₃, h₄, hts, h₅, h₆⟩ := hloose
    exact transaction.decode_encode_self
      ⟨⟨hf, hchecks.1⟩, ⟨ho, hchecks.2.1⟩, h₁, h₂, h₃, h₄,
        ⟨hts, hchecks.2.2⟩, h₅, h₆⟩
  · rw [if_neg hchecks, Codec.decode_eq_none_iff]
    rintro t' ht' ⟨rest, hrest⟩
    have hinj := uncheckedTransaction.encode_append_inj (r := rest) (s := [])
      (unchecked_of_valid ht') hloose (by rw [List.append_nil]; exact hrest)
    obtain ⟨hf, ho, hn, -⟩ := (transaction_valid_iff t').mp ht'
    rw [hinj.1] at hf ho hn
    exact hchecks ⟨hf, ho, hn⟩

/-! ## Encoder and parser agree -/

/-- `RAM_BUFFER_SIZE` -/
def ramBufferSize : ℕ := 8192

/-- `FLASH_BUFFER_SIZE` -/
def flashBufferSize : ℕ := 16384

/-- Only the string `"2"` encodes to the supported format. -/
theorem IsUtf8.eq_formatTwo_iff {stringToBuffer : String → Bytes} (h : IsUtf8 stringToBuffer)
    (s : String) : stringToBuffer s = formatTwo ↔ s = "2" := by
  have htwo : stringToBuffer "2" = formatTwo := by
    rw [h]
    decide
  constructor
  · intro hs
    rw [← htwo, h, h, Array.toList_inj] at hs
    exact String.toByteArray_inj.mp (ByteArray.ext hs)
  · rintro rfl
    exact htwo

/-- A blob that fits the buffer and passes the checks of the device is parsed: every field is found
where the encoder put it and the whole blob is consumed.

**Proof sketch.** The blob is the encoding of the fields. It decodes to them, because its length
bounds every prefix, and the parser accepts exactly what decodes. -/
theorem parseBuffer_encodeTx (stringToBuffer : String → Bytes) {tx : ClientTx}
    (hfits : (encodeTx stringToBuffer tx).length ≤ ramBufferSize + flashBufferSize)
    (hformat : (tx.fields stringToBuffer).format = formatTwo)
    (howner : tx.owner.length = rsaModulusLen) (htags : tx.tags.length ≤ maxNumberTags)
    {base : ℕ} (hbase : 0 < base) (s : ParserState) :
    let blob := encodeTx stringToBuffer tx
    ∃ s', parseBuffer base blob s = (.ok (), s') ∧
      s'.tx.fields ⟨base, blob⟩ = tx.fields stringToBuffer ∧
      s'.ctx.bufferLen = blob.length ∧ s'.ctx.offset = s'.ctx.bufferLen := by
  intro blob
  set t := tx.fields stringToBuffer with ht
  have hblob : blob = transaction.encode t := encodeTx_eq stringToBuffer tx
  have hlen : blob.length ≤ 65535 := le_trans hfits (by decide)
  have htags' : t.tags.length ≤ maxNumberTags := by
    rw [ht, ClientTx.fields, List.length_map]
    exact htags
  have hdecode := decode_encode_of_length (t := t) (by rw [← hblob]; omega)
  rw [← hblob, if_pos ⟨hformat, howner, htags'⟩] at hdecode
  have hsplit : blob.drop 0 = transaction.encode t ++ [] := by
    rw [List.drop_zero, List.append_nil, hblob]
  refine ⟨_, parserParse_accept (m := ⟨base, blob⟩) hbase (List.prefix_refl blob) (by omega)
    hdecode s, fields_layout (m := ⟨base, blob⟩) (List.prefix_refl blob) hsplit s.tx.tags, rfl, ?_⟩
  show (transaction.encode t).length = blob.length
  rw [hblob]

/-- **Encoder and parser agree.** If what the encoder produces fits the buffer of the device, the
parser accepts it exactly for format `"2"`, an owner of 512 bytes and at most 16 tags, and then
finds every field where the encoder put it and consumes the whole blob.

**Proof sketch.** The encoder computes the encoding of the wire format, whether or not lengths
wrap. A blob that fits the buffer is too short for a length to wrap, so it is a valid encoding of
the transaction in the format without the device's checks, and no other transaction has an
encoding that starts it. -/
theorem parse_encodeTx (stringToBuffer : String → Bytes) (hutf8 : IsUtf8 stringToBuffer)
    (tx : ClientTx) (hfits : (encodeTx stringToBuffer tx).length ≤ ramBufferSize + flashBufferSize)
    (base : ℕ) (hbase : 0 < base) (s : ParserState) :
    let blob := encodeTx stringToBuffer tx
    ((∃ s', parseBuffer base blob s = (.ok (), s')) ↔
      tx.format = "2" ∧ tx.owner.length = 512 ∧ tx.tags.length ≤ 16) ∧
    ∀ s', parseBuffer base blob s = (.ok (), s') →
      s'.tx.fields ⟨base, blob⟩ = tx.fields stringToBuffer ∧
      s'.ctx.bufferLen = blob.length ∧ s'.ctx.offset = s'.ctx.bufferLen := by
  intro blob
  have hlen : blob.length ≤ 65535 := le_trans hfits (by decide)
  by_cases hpass : tx.format = "2" ∧ tx.owner.length = 512 ∧ tx.tags.length ≤ 16
  · obtain ⟨s₁, haccept, hparsed⟩ := parseBuffer_encodeTx stringToBuffer hfits
      ((hutf8.eq_formatTwo_iff _).mpr hpass.1) hpass.2.1 hpass.2.2 hbase s
    refine ⟨iff_of_true ⟨s₁, haccept⟩ hpass, fun s' hs' => ?_⟩
    obtain rfl : s₁ = s' := (Prod.mk.inj (haccept.symm.trans hs')).2
    exact hparsed
  · have hchecks : ¬ ((tx.fields stringToBuffer).format = formatTwo ∧
        (tx.fields stringToBuffer).owner.length = rsaModulusLen ∧
        (tx.fields stringToBuffer).tags.length ≤ maxNumberTags) := by
      rw [show (tx.fields stringToBuffer).tags.length = tx.tags.length from List.length_map _]
      exact fun h => hpass ⟨(hutf8.eq_formatTwo_iff _).mp h.1, h.2.1, h.2.2⟩
    have hblob : blob = transaction.encode (tx.fields stringToBuffer) :=
      encodeTx_eq stringToBuffer tx
    have hdecode := decode_encode_of_length (t := tx.fields stringToBuffer) (by
      rw [← hblob]
      omega)
    rw [← hblob, if_neg hchecks] at hdecode
    obtain ⟨e, s₁, he, -⟩ := parseBuffer_reject hbase hlen hdecode s
    have hno : ∀ s', parseBuffer base blob s ≠ (.ok (), s') := by
      intro s' hs'
      rw [he] at hs'
      simp at hs'
    exact ⟨iff_of_false (fun ⟨s', hs'⟩ => hno s' hs') hpass, fun s' hs' => absurd hs' (hno s')⟩

/-- With the UTF-8 encoding of the language, a transaction with two tags is accepted as encoded, and
its fields are found.

**Proof sketch.** By the theorem, after evaluating the size and the checks of this transaction. -/
theorem parse_encodeTx_sample :
    let tx : ClientTx := ⟨"2", List.replicate 512 0, [1, 2], "10", "7", [3],
      [⟨ascii "App", ascii "a"⟩, ⟨ascii "n", []⟩], "4", [5]⟩
    let blob := encodeTx (fun s => s.toUTF8.data.toList) tx
    ∃ s', parseBuffer 1 blob .zero = (.ok (), s') ∧
      s'.tx.fields ⟨1, blob⟩ = .small (List.replicate 512 0) := by
  intro tx blob
  have hblob : blob = transaction.encode (.small (List.replicate 512 0)) := encodeTx_eq _ tx
  have hfits : blob.length ≤ ramBufferSize + flashBufferSize := by
    rw [hblob, length_encode_small, List.length_replicate]
    decide
  obtain ⟨haccepted, hfields⟩ := parse_encodeTx _ (fun _ => rfl) tx hfits 1 (by decide) .zero
  obtain ⟨s', hs'⟩ := haccepted.mpr ⟨rfl, List.length_replicate, by decide⟩
  exact ⟨s', hs', (hfields s' hs').1⟩

end LedgerArweave
