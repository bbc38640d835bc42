import LedgerArweave.Lib.TreeHash
import LedgerArweave.Parser.Unambiguous
import Mathlib.Data.Nat.Digits.Defs

set_option relaxedAutoImplicit false
set_option autoImplicit false

/-!
# The signed digest

The digest functions of `parser.c`. They unroll the recursion of Arweave's deep hash over the
three levels of a transaction by hand, with one accumulator per level. Here they are shown to
compute the deep hash of the transaction as a tree of byte strings, hashing the same byte strings
in the same order, so that what is known about hash trees in general holds of the digest: it
binds all fields and tags.

## Main definitions

* `hashTag`, `hashBlob`, `hashAccumulate`, `hashChunkWithAccumulator`, `parserGetTagDigest`,
  `parserApplyDigestTags`, `parserGetDigest` — the functions of `parser.c`.
* `deepHash` — the recursive reference.
* `Transaction.item` — a transaction as a tree.

## Main results

* `parserGetDigest_eq` — the digest functions compute a hash tree.
* `parserGetDigest_deepHash` — the digest is the deep hash of the parsed transaction.
* `parserGetDigest_binding` — equal digests come from equal transactions or from a collision.

## Implementation notes

SHA-384 is an arbitrary function from byte strings to 48 bytes. The functions run in `Hashed`,
which records what is hashed.
-/

namespace LedgerArweave

open TreeHash (Item)

/-- `SHA384_DIGEST_LEN` -/
def sha384DigestLen : ℕ := 48

/-- A SHA-384 digest. -/
abbrev Digest := Block 48

/-- `deepHash_t`; the `pair` of the union is one field after the other. -/
structure DeepHash where
  acc : Digest
  hash : Digest

/-- 48 zero bytes. -/
def Digest.zero : Digest := ⟨List.replicate 48 0, List.length_replicate⟩

/-! ## The functions of `parser.c` -/

section Source

variable (H : Bytes → Digest)

/-- `hashTag`: the text is cut by `snprintf` to what fits 50 bytes with the terminator. -/
def hashTag (tagName : String) (tagNumber : ℕ) : Hashed UInt8 Digest :=
  Hashed.hash H ((ascii tagName ++ decimal tagNumber).take 49)

/-- `hashBlob` -/
def hashBlob (data : Bytes) : Hashed UInt8 Digest := do
  let tagHash ← hashTag H "blob" data.length
  let dataHash ← Hashed.hash H data
  Hashed.hash H (tagHash.val ++ dataHash.val)

/-- `hashAccumulate` -/
def hashAccumulate (dh : DeepHash) : Hashed UInt8 DeepHash := do
  let temp ← Hashed.hash H (dh.acc.val ++ dh.hash.val)
  return { dh with acc := temp }

/-- `hashChunkWithAccumulator` -/
def hashChunkWithAccumulator (dh : DeepHash) (data : Bytes) : Hashed UInt8 DeepHash := do
  let hash ← hashBlob H data
  hashAccumulate H { dh with hash := hash }

/-- `parser_getTagDigest` -/
def parserGetTagDigest (m : Memory) (tagObject : ParserTag) : Hashed UInt8 Digest := do
  let acc ← hashTag H "list" 2
  let ctx ← hashChunkWithAccumulator H ⟨acc, .zero⟩ (m.deref tagObject.key)
  let ctx ← hashChunkWithAccumulator H ctx (m.deref tagObject.value)
  return ctx.acc

/-- The loop of `parser_applyDigestTags` over the tags. -/
def applyTags (m : Memory) (ctx : DeepHash) : List ParserTag → Hashed UInt8 DeepHash
  | [] => pure ctx
  | t :: ts => do
    let hash ← parserGetTagDigest H m t
    let ctx ← hashAccumulate H { ctx with hash := hash }
    applyTags m ctx ts

/-- `parser_applyDigestTags` -/
def parserApplyDigestTags (m : Memory) (tx : ParserTx) (dh : DeepHash) :
    Hashed UInt8 DeepHash := do
  let acc ← hashTag H "list" tx.tagsCount
  let ctx ← applyTags H m ⟨acc, .zero⟩ tx.tagList
  hashAccumulate H { dh with hash := ctx.acc }

/-- `parser_getDigest` of the object `tx`; the result is the whole output buffer. -/
def parserGetDigest (m : Memory) (tx : ParserTx) (digestLen : ℕ) :
    Hashed UInt8 (Except ParserError Bytes) :=
  if digestLen < sha384DigestLen then return .error .unexpectedBufferEnd
  else do
    let acc ← hashTag H "list" 9
    let ctx ← hashChunkWithAccumulator H ⟨acc, .zero⟩ (m.deref tx.format)
    let ctx ← hashChunkWithAccumulator H ctx (m.deref tx.owner)
    let ctx ← hashChunkWithAccumulator H ctx (m.deref tx.target)
    let ctx ← hashChunkWithAccumulator H ctx (m.deref tx.quantity)
    let ctx ← hashChunkWithAccumulator H ctx (m.deref tx.reward)
    let ctx ← hashChunkWithAccumulator H ctx (m.deref tx.lastTx)
    let ctx ← parserApplyDigestTags H m tx ctx
    let ctx ← hashChunkWithAccumulator H ctx (m.deref tx.dataSize)
    let ctx ← hashChunkWithAccumulator H ctx (m.deref tx.dataRoot)
    return .ok (ctx.acc.val ++ List.replicate (digestLen - sha384DigestLen) 0)

end Source

/-! ## The deep hash -/

/-- A tag as a tree. -/
def Tag.item (t : Tag) : Item UInt8 := .list [.blob t.name, .blob t.value]

/-- A transaction as a tree. -/
def Transaction.item (t : Transaction) : Item UInt8 :=
  .list [.blob t.format, .blob t.owner, .blob t.target, .blob t.quantity, .blob t.reward,
    .blob t.lastTx, .list (t.tags.map Tag.item), .blob t.dataSize, .blob t.dataRoot]

section Reference

variable (H : Bytes → Digest)

mutual

/-- Arweave's deep hash. -/
def deepHash : Item UInt8 → Digest
  | .blob data => H ((H (ascii "blob" ++ decimal data.length)).val ++ (H data).val)
  | .list items => deepHashItems (H (ascii "list" ++ decimal items.length)) items

/-- The children of a list folded into the accumulator. -/
def deepHashItems (acc : Digest) : List (Item UInt8) → Digest
  | [] => acc
  | x :: xs => deepHashItems (H (acc.val ++ (deepHash x).val)) xs

end

/-- The deep hash as a hash tree. -/
def arweaveScheme : TreeHash.Scheme UInt8 Digest where
  hash := H
  toWord d := d.val
  blobTag n := ascii "blob" ++ decimal n
  listTag n := ascii "list" ++ decimal n

mutual

/-- The recursive reference is the hash of the tree. -/
theorem val_hashItem (x : Item UInt8) : ((arweaveScheme H).hashItem x).val = deepHash H x := by
  cases x with
  | blob data => simp [TreeHash.Scheme.hashItem, deepHash, arweaveScheme]
  | list items =>
    rw [TreeHash.Scheme.hashItem, deepHash, Hashed.val_bind, val_hashItems]
    rfl

/-- Hashing a list into an accumulator, by recursion on the list. -/
theorem val_hashItems (acc : Digest) (xs : List (Item UInt8)) :
    ((arweaveScheme H).hashItems acc xs).val = deepHashItems H acc xs := by
  cases xs with
  | nil => rfl
  | cons x xs =>
    rw [TreeHash.Scheme.hashItems, deepHashItems, Hashed.val_bind, Hashed.val_bind, val_hashItems,
      val_hashItem]
    rfl

end

end Reference

/-! ## The digest functions compute a hash tree -/

/-- A number below `2 ^ 16` has at most five digits, so no text of a tag is cut. -/
theorem length_decimal_le {n : ℕ} (hn : n < 65536) : (decimal n).length ≤ 5 := by
  rw [decimal, List.length_map]
  exact Nat.toDigits_length 10 n 5 (by decide) (by omega)

/-- The texts of tags are never cut. -/
theorem hashTag_eq (H : Bytes → Digest) {tagName : String} (hname : (ascii tagName).length ≤ 44)
    {n : ℕ} (hn : n < 65536) :
    hashTag H tagName n = Hashed.hash H (ascii tagName ++ decimal n) := by
  have hdec := length_decimal_le hn
  have hlen : (ascii tagName ++ decimal n).length ≤ 49 := by
    rw [List.length_append]
    omega
  rw [hashTag, List.take_of_length_le hlen]

section Tree

variable (H : Bytes → Digest) {m : Memory}

/-- `hashBlob` hashes a blob. -/
theorem hashBlob_eq {data : Bytes} (hdata : data.length < 65536) :
    hashBlob H data = (arweaveScheme H).hashItem (.blob data) := by
  rw [hashBlob, hashTag_eq H (by decide) hdata, TreeHash.Scheme.hashItem]
  rfl

/-- `hashAccumulate` hashes the pair of the accumulator and the hash. -/
theorem hashAccumulate_eq (dh : DeepHash) :
    hashAccumulate H dh = do
      let acc ← (arweaveScheme H).accumulate dh.acc dh.hash
      return ⟨acc, dh.hash⟩ := rfl

/-- `hashChunkWithAccumulator` hashes a blob and accumulates it. -/
theorem hashChunkWithAccumulator_eq {data : Bytes} (hdata : data.length < 65536)
    (dh : DeepHash) :
    hashChunkWithAccumulator H dh data = do
      let h ← (arweaveScheme H).hashItem (.blob data)
      let acc ← (arweaveScheme H).accumulate dh.acc h
      return ⟨acc, h⟩ := by
  rw [hashChunkWithAccumulator, hashBlob_eq H hdata]
  rfl

/-- A tag fits if its name and value have 16-bit lengths. -/
theorem fits_tag_item (t : Tag) :
    t.item.Fits 65536 ↔ t.name.length < 65536 ∧ t.value.length < 65536 := by
  simp [Tag.item, Item.Fits]

/-- `parser_getTagDigest` hashes the list of a tag's name and value. -/
theorem parserGetTagDigest_eq (t : ParserTag) (ht : (m.derefTag t).item.Fits 65536) :
    parserGetTagDigest H m t = (arweaveScheme H).hashItem (m.derefTag t).item := by
  obtain ⟨hname, hvalue⟩ : (m.deref t.key).length < 65536 ∧ (m.deref t.value).length < 65536 :=
    (fits_tag_item _).mp ht
  rw [parserGetTagDigest, hashTag_eq H (by decide) (by decide)]
  simp only [hashChunkWithAccumulator_eq H hname, hashChunkWithAccumulator_eq H hvalue, Tag.item,
    TreeHash.Scheme.hashItem_list, TreeHash.Scheme.hashList, TreeHash.Scheme.hashItems,
    bind_assoc, pure_bind, bind_pure]
  rfl

/-- The loop over the tags folds their digests into the accumulator.

**Proof sketch.** Induction on the tags; what is done afterwards may use the accumulator only,
since the other half of the struct holds the digest of the last tag. -/
theorem applyTags_bind {α : Type} (ts : List ParserTag)
    (hts : ∀ t ∈ ts, (m.derefTag t).item.Fits 65536) (ctx : DeepHash)
    (f : Digest → Hashed UInt8 α) :
    (applyTags H m ctx ts >>= fun ctx => f ctx.acc) =
      ((arweaveScheme H).hashItems ctx.acc ((ts.map m.derefTag).map Tag.item) >>= f) := by
  induction ts generalizing ctx with
  | nil => simp [applyTags, TreeHash.Scheme.hashItems]
  | cons t ts ih =>
    have htail := ih fun u hu => hts u (by simp [hu])
    simp only [applyTags, parserGetTagDigest_eq H t (hts t (by simp)), hashAccumulate_eq,
      List.map_cons, TreeHash.Scheme.hashItems, bind_assoc, pure_bind, htail]

/-- **The digest functions compute a hash tree**: the hash of the transaction, from the same
hashed byte strings in the same order.

**Proof sketch.** Each helper is rewritten as hashing a blob or accumulating a hash, by its own
equation; the loop over the tags is the recursion over their list. What is left is the definition of
the hash of a list of nine items. -/
theorem parserGetDigest_eq (tx : ParserTx) (hfits : (tx.fields m).item.Fits 65536) :
    parserGetDigest H m tx sha384DigestLen = do
      let d ← (arweaveScheme H).hashItem (tx.fields m).item
      return .ok d.val := by
  have hcount : (tx.fields m).tags.length = tx.tagsCount := by
    simp [ParserTx.fields, ParserTx.tagList]
  simp only [Transaction.item, Item.Fits, List.mem_cons, List.not_mem_nil, or_false,
    forall_eq_or_imp, forall_eq, List.length_map, hcount] at hfits
  obtain ⟨-, h₁, h₂, h₃, h₄, h₅, h₆, ⟨hn, hts⟩, h₇, h₈⟩ := hfits
  have htags : ∀ t ∈ tx.tagList, (m.derefTag t).item.Fits 65536 := fun t ht =>
    hts _ (List.mem_map_of_mem (List.mem_map_of_mem ht))
  have happly : ∀ dh : DeepHash, parserApplyDigestTags H m tx dh = do
      let h ← (arweaveScheme H).hashItem (.list ((tx.fields m).tags.map Tag.item))
      let acc ← (arweaveScheme H).accumulate dh.acc h
      return ⟨acc, h⟩ := by
    intro dh
    rw [parserApplyDigestTags, hashTag_eq H (by decide) hn, TreeHash.Scheme.hashItem_list,
      TreeHash.Scheme.hashList, List.length_map, hcount, bind_assoc]
    exact bind_congr fun acc =>
      applyTags_bind H tx.tagList htags ⟨acc, .zero⟩ fun d => hashAccumulate H { dh with hash := d }
  rw [parserGetDigest, if_neg (by decide), hashTag_eq H (by decide) (by decide)]
  simp only [ParserTx.fields] at h₁ h₂ h₃ h₄ h₅ h₆ h₇ h₈
  simp only [happly, hashChunkWithAccumulator_eq H h₁, hashChunkWithAccumulator_eq H h₂,
    hashChunkWithAccumulator_eq H h₃, hashChunkWithAccumulator_eq H h₄,
    hashChunkWithAccumulator_eq H h₅, hashChunkWithAccumulator_eq H h₆,
    hashChunkWithAccumulator_eq H h₇, hashChunkWithAccumulator_eq H h₈, Transaction.item,
    TreeHash.Scheme.hashItem_list, TreeHash.Scheme.hashList, TreeHash.Scheme.hashItems,
    bind_assoc, pure_bind, Nat.sub_self, List.replicate_zero, List.append_nil]
  rfl

end Tree

/-! ## The digest of a parsed transaction -/

/-- Well-formed transactions are trees within the 16-bit limits. -/
theorem fits_of_valid {t : Transaction} (ht : transaction.Valid t) : t.item.Fits 65536 := by
  obtain ⟨hf, ho, hn, h₁, h₂, h₃, h₄, hts, h₅, h₆⟩ := (transaction_valid_iff t).mp ht
  have hformat : t.format.length < 65536 := by rw [hf]; decide
  have howner : t.owner.length < 65536 := by rw [ho]; decide
  have hcount : t.tags.length < 65536 := lt_of_le_of_lt hn (by decide)
  have htags : ∀ x ∈ t.tags.map Tag.item, x.Fits 65536 := by
    intro x hx
    obtain ⟨u, hu, rfl⟩ := List.mem_map.mp hx
    exact (fits_tag_item u).mpr (hts u hu)
  simp only [Transaction.item, Item.Fits, List.mem_cons, List.not_mem_nil, or_false,
    forall_eq_or_imp, forall_eq, List.length_map, List.length_cons, List.length_nil]
  exact ⟨by decide, hformat, howner, h₁, h₂, h₃, h₄, ⟨hcount, htags⟩, h₅, h₆⟩

/-- The tree determines the transaction. -/
theorem item_injective : Function.Injective Transaction.item := by
  have htag : Function.Injective Tag.item := by
    rintro ⟨n, v⟩ ⟨n', v'⟩ h
    simpa [Tag.item] using h
  intro t t' h
  simp only [Transaction.item, Item.list.injEq, List.cons.injEq, Item.blob.injEq, and_true,
    List.map_inj_right htag] at h
  obtain ⟨h₁, h₂, h₃, h₄, h₅, h₆, h₇, h₈, h₉⟩ := h
  cases t
  cases t'
  simp_all

section Parsed

variable (H : Bytes → Digest) {m m' : Memory} {dataLen dataLen' : ℕ} {s s' u u' : ParserState}

/-- The digest of an object whose fields are short enough. -/
theorem val_parserGetDigest {tx : ParserTx} (hfits : (tx.fields m).item.Fits 65536) :
    (parserGetDigest H m tx sha384DigestLen).val = .ok (deepHash H (tx.fields m).item).val := by
  rw [parserGetDigest_eq H tx hfits, Hashed.val_bind, val_hashItem]
  rfl

/-- A hash that tells inputs with different ends apart. -/
def lastBytes (b : Bytes) : Digest :=
  ⟨(b.drop (b.length - 48) ++ List.replicate 48 0).take 48, by simp⟩

/-- **The digest is the deep hash.** For every transaction the parser accepts, `parser_getDigest`
returns the deep hash of the parsed fields.

**Proof sketch.** What is accepted has lengths below `2 ^ 16`, so no text of a tag is cut and every
call of the unrolled computation hashes what the recursive one does: `parserGetDigest_eq`. -/
theorem parserGetDigest_deepHash (hmap : dataLen ≤ m.bytes.length)
    (hparse : (parserParse m m.base dataLen).exec s = (.ok (), s')) :
    (parserGetDigest H m s'.tx sha384DigestLen).val =
      .ok (deepHash H (s'.tx.fields m).item).val :=
  val_parserGetDigest H (fits_of_valid (valid_of_parserParse hmap hparse))

/-- The deep hash of a small transaction. -/
theorem parserGetDigest_deepHash_sample :
    let owner : Bytes := List.replicate 512 0
    let m : Memory := ⟨1, transaction.encode (.small owner)⟩
    ∃ s', parseBuffer 1 m.bytes .zero = (.ok (), s') ∧
      (parserGetDigest lastBytes m s'.tx 48).val =
        .ok (deepHash lastBytes (Transaction.small owner).item).val := by
  intro owner m
  obtain ⟨s', hs', hfields, -⟩ := parseBuffer_small (List.length_replicate : owner.length = 512)
  exact ⟨s', hs', hfields ▸ parserGetDigest_deepHash lastBytes (m := m) le_rfl hs'⟩

/-- The parameters of the deep hash are lawful: a digest is 48 bytes, and no tag text has the
96 bytes of two digests.

**Proof sketch.** A digit of a length takes a byte, and lengths below `2 ^ 16` have at most five of
them. -/
theorem arweaveScheme_lawful : (arweaveScheme H).Lawful 65536 48 where
  length_toWord d := d.property
  toWord_inj d d' h := Subtype.ext h
  tags_ne k l h := by
    have hhead : (ascii "blob").head? = (ascii "list").head? := by
      have := congrArg List.head? h
      rwa [arweaveScheme, List.head?_append_of_ne_nil _ (by decide),
        List.head?_append_of_ne_nil _ (by decide)] at this
    exact absurd hhead (by decide)
  length_blobTag k hk := by
    have hdec := length_decimal_le hk
    have hname : (ascii "blob").length = 4 := by decide
    simp only [arweaveScheme, List.length_append]
    omega
  length_listTag k hk := by
    have hdec := length_decimal_le hk
    have hname : (ascii "list").length = 4 := by decide
    simp only [arweaveScheme, List.length_append]
    omega

/-- **The digest binds the transaction.** If two parsed transactions have the same digest, they
agree in all fields and tags, or two different byte strings hashed for one of the digests have
the same SHA-384 value.

**Proof sketch.** Equal digests are equal hashes of the two trees; the binding of tree hashes gives
equal trees or a collision among the words hashed. -/
theorem parserGetDigest_binding (hmap : dataLen ≤ m.bytes.length)
    (hmap' : dataLen' ≤ m'.bytes.length)
    (hparse : (parserParse m m.base dataLen).exec s = (.ok (), s'))
    (hparse' : (parserParse m' m'.base dataLen').exec u = (.ok (), u'))
    (hdigest : (parserGetDigest H m s'.tx sha384DigestLen).val =
      (parserGetDigest H m' u'.tx sha384DigestLen).val) :
    s'.tx.fields m = u'.tx.fields m' ∨
      Collision H ((parserGetDigest H m s'.tx sha384DigestLen).asked ++
        (parserGetDigest H m' u'.tx sha384DigestLen).asked) := by
  have hfits := fits_of_valid (valid_of_parserParse hmap hparse)
  have hfits' := fits_of_valid (valid_of_parserParse hmap' hparse')
  rw [parserGetDigest_eq H _ hfits, parserGetDigest_eq H _ hfits'] at hdigest ⊢
  simp only [Hashed.val_bind, Hashed.val_pure, Except.ok.injEq] at hdigest
  simp only [Hashed.asked_bind, Hashed.asked_pure, List.append_nil]
  rcases (TreeHash.Scheme.hashItem_binding (arweaveScheme_lawful H) _ _ hfits hfits'
    (Subtype.ext hdigest)) with hitem | hcol
  · exact Or.inl (item_injective hitem)
  · exact Or.inr hcol

/-- A digest at the end of some bytes is found there. -/
theorem lastBytes_append (b : Bytes) (d : Digest) : lastBytes (b ++ d.val) = d := by
  apply Subtype.ext
  have hdrop : (b ++ d.val).drop ((b ++ d.val).length - 48) = d.val := by
    rw [List.length_append, d.property, Nat.add_sub_cancel, List.drop_left]
  show ((b ++ d.val).drop _ ++ List.replicate 48 0).take 48 = d.val
  rw [hdrop, List.take_append_of_le_length d.property.ge, List.take_of_length_le d.property.le]

/-- Under a hash of the last 48 bytes, the digest of a transaction is that of its data root, so two
transactions with different owners have the same digest. This is a collision.

**Proof sketch.** The last word hashed ends with the hash of the data root, which is all that this
hash function keeps. -/
theorem parserGetDigest_binding_sample :
    let m : Memory := ⟨1, transaction.encode (.small (List.replicate 512 0))⟩
    let m' : Memory := ⟨1, transaction.encode (.small (List.replicate 512 1))⟩
    ∃ s' u', parseBuffer 1 m.bytes .zero = (.ok (), s') ∧
      parseBuffer 1 m'.bytes .zero = (.ok (), u') ∧
      Collision lastBytes ((parserGetDigest lastBytes m s'.tx 48).asked ++
        (parserGetDigest lastBytes m' u'.tx 48).asked) := by
  intro m m'
  obtain ⟨s', hs', hfields, -⟩ :=
    parseBuffer_small (List.length_replicate : (List.replicate 512 (0 : UInt8)).length = 512)
  obtain ⟨u', hu', hfields', -⟩ :=
    parseBuffer_small (List.length_replicate : (List.replicate 512 (1 : UInt8)).length = 512)
  have hroot : ∀ t : Transaction,
      deepHash lastBytes t.item = deepHash lastBytes (.blob t.dataRoot) := by
    intro t
    have hlast := TreeHash.Scheme.val_hashList_concat (arweaveScheme lastBytes) 9
      [.blob t.format, .blob t.owner, .blob t.target, .blob t.quantity, .blob t.reward,
        .blob t.lastTx, .list (t.tags.map Tag.item), .blob t.dataSize] (.blob t.dataRoot)
    rw [← val_hashItem, ← val_hashItem, Transaction.item, TreeHash.Scheme.hashItem_list]
    rw [TreeHash.Scheme.lastPair] at hlast
    dsimp only [arweaveScheme] at hlast ⊢
    exact hlast.trans (lastBytes_append _ _)
  have hdigest := val_parserGetDigest lastBytes
    (fits_of_valid (valid_of_parserParse (m := m) le_rfl hs'))
  have hdigest' := val_parserGetDigest lastBytes
    (fits_of_valid (valid_of_parserParse (m := m') le_rfl hu'))
  have hmap : m.bytes.length ≤ m.bytes.length := le_rfl
  have hmap' : m'.bytes.length ≤ m'.bytes.length := le_rfl
  have hsame := parserGetDigest_binding lastBytes hmap hmap' hs' hu' (by
    rw [hdigest, hdigest', hfields, hfields', hroot, hroot]
    rfl)
  refine ⟨s', u', hs', hu', hsame.resolve_left fun heq => ?_⟩
  have howner : List.replicate 512 (0 : UInt8) = List.replicate 512 1 :=
    congrArg Transaction.owner (hfields.symm.trans (heq.trans hfields'))
  exact absurd howner (by decide +kernel)

end Parsed

end LedgerArweave
