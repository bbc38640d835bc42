import LedgerArweave.Lib.Codec

set_option relaxedAutoImplicit false
set_option autoImplicit false

/-!
# Transactions and their wire format

What a format-2 transaction is, independently of how the device stores one, and the byte
format in which a client sends it: every field preceded by its length as a big-endian 16-bit
number, the tags preceded by their number in the same form. The format is a `Codec`, so that
what it means to be well-formed and unique readability come from the general theory.

## Main definitions

* `Transaction`, `Tag` — the fields as byte strings.
* `be16`, `element`, `tag` — the codecs of the parts.
* `transaction` — the codec of the transactions the device accepts: format `"2"`, a 512-byte
  owner and at most 16 tags.

## Main results

* `transaction_valid_iff`, `transaction_encode` — the codec in terms of the fields.
-/

namespace LedgerArweave

/-- Byte strings. -/
abbrev Bytes := List UInt8

/-- Byte strings of a fixed length. -/
abbrev Block (n : ℕ) := { b : Bytes // b.length = n }

/-- The characters of a text, one byte each. -/
def ascii (s : String) : Bytes := s.toList.map fun c => UInt8.ofNat c.toNat

/-- The decimal digits of a number. -/
def decimal (n : ℕ) : Bytes := (Nat.toDigits 10 n).map fun c => UInt8.ofNat c.toNat

/-- A tag of a transaction. -/
structure Tag where
  name : Bytes
  value : Bytes
deriving DecidableEq

/-- The fields of a transaction, as the bytes that are signed. -/
structure Transaction where
  format : Bytes
  owner : Bytes
  target : Bytes
  quantity : Bytes
  reward : Bytes
  lastTx : Bytes
  tags : List Tag
  dataSize : Bytes
  dataRoot : Bytes
deriving DecidableEq

/-- The one supported format, the character `2`. -/
def formatTwo : Bytes := [0x32]

/-- `RSA_MODULUS_LEN`: the length of an owner. -/
def rsaModulusLen : ℕ := 512

/-- `MAX_NUMBER_TAGS` -/
def maxNumberTags : ℕ := 16

/-- A small transaction of the given owner, with something in every field and two tags. -/
def Transaction.small (owner : Bytes) : Transaction :=
  ⟨formatTwo, owner, [1, 2], ascii "10", ascii "7", [3],
    [⟨ascii "App", ascii "a"⟩, ⟨ascii "n", []⟩], ascii "4", [5]⟩

/-! ## The codecs of the parts -/

/-- Numbers below `2 ^ 16` as two bytes, the high one first. -/
def be16 : Codec UInt8 ℕ where
  Valid n := n < 65536
  encode n := [UInt8.ofNat (n / 256), UInt8.ofNat n]
  decode
    | hi :: lo :: rest => some (hi.toNat * 256 + lo.toNat, rest)
    | _ => none
  decode_encode := by
    intro n rest hn
    simp only [List.cons_append, List.nil_append, UInt8.toNat_ofNat', Option.some.injEq,
      Prod.mk.injEq, and_true]
    omega
  decode_sound := by
    rintro (_ | ⟨hi, _ | ⟨lo, bs⟩⟩) n rest h
    · simp at h
    · simp at h
    · simp only [Option.some.injEq, Prod.mk.injEq] at h
      obtain ⟨rfl, rfl⟩ := h
      have hhi := hi.toNat_lt
      have hlo := lo.toNat_lt
      refine ⟨by omega, ?_⟩
      have h₁ : UInt8.ofNat ((hi.toNat * 256 + lo.toNat) / 256) = hi := by
        rw [show (hi.toNat * 256 + lo.toNat) / 256 = hi.toNat by omega, UInt8.ofNat_toNat]
      have h₂ : UInt8.ofNat (hi.toNat * 256 + lo.toNat) = lo := by
        apply UInt8.toNat_inj.mp
        rw [UInt8.toNat_ofNat']
        omega
      rw [h₁, h₂]
      rfl

/-- A byte string preceded by its length. -/
def element : Codec UInt8 Bytes := be16.sized

/-- The two byte strings of a tag. -/
def tagEquiv : Bytes × Bytes ≃ Tag where
  toFun p := ⟨p.1, p.2⟩
  invFun t := (t.name, t.value)
  left_inv _ := rfl
  right_inv _ := rfl

/-- A tag: name and value, one after the other. -/
def tag : Codec UInt8 Tag := (element.prod element).map tagEquiv

/-- The tags: their number, then the tags in order. -/
def tagList : Codec UInt8 (List Tag) :=
  (be16.counted tag).restrict fun ts => ts.length ≤ maxNumberTags

/-! ## The whole transaction -/

/-- The fields in wire order as nested pairs. -/
abbrev WireFields :=
  Bytes × Bytes × Bytes × Bytes × Bytes × Bytes × List Tag × Bytes × Bytes

/-- The fields of a transaction in wire order. -/
def wireEquiv : WireFields ≃ Transaction where
  toFun := fun (format, owner, target, quantity, reward, lastTx, tags, dataSize, dataRoot) =>
    ⟨format, owner, target, quantity, reward, lastTx, tags, dataSize, dataRoot⟩
  invFun t :=
    (t.format, t.owner, t.target, t.quantity, t.reward, t.lastTx, t.tags, t.dataSize, t.dataRoot)
  left_inv _ := rfl
  right_inv _ := rfl

/-- The fields in wire order, with the conditions the device checks on the way. -/
def wireFields : Codec UInt8 WireFields :=
  (element.restrict fun f => f = formatTwo).prod <|
    (element.restrict fun o => o.length = rsaModulusLen).prod <|
      element.prod <| element.prod <| element.prod <| element.prod <|
        tagList.prod <| element.prod element

/-- The wire format of the transactions the device accepts. -/
def transaction : Codec UInt8 Transaction := wireFields.map wireEquiv

/-! ## The codecs in terms of the fields -/

/-- Numbers that two bytes hold are well-formed. -/
@[simp] theorem be16_valid (n : ℕ) : be16.Valid n ↔ n < 65536 := Iff.rfl

/-- A number takes two bytes. -/
@[simp] theorem length_be16_encode (n : ℕ) : (be16.encode n).length = 2 := rfl

/-- An element is its length and its bytes. -/
theorem element_encode (x : Bytes) : element.encode x = be16.encode x.length ++ x := rfl

/-- An element takes two bytes more than it has. -/
@[simp] theorem length_element_encode (x : Bytes) :
    (element.encode x).length = x.length + 2 := by
  rw [element_encode, List.length_append, length_be16_encode, Nat.add_comm]

/-- A tag is well-formed if the lengths of its name and value fit two bytes. -/
@[simp] theorem tag_valid (t : Tag) :
    tag.Valid t ↔ t.name.length < 65536 ∧ t.value.length < 65536 := Iff.rfl

/-- A tag is its name and its value, each an element. -/
theorem tag_encode (t : Tag) :
    tag.encode t = element.encode t.name ++ element.encode t.value := rfl

/-- A tag takes four bytes more than its name and value have. -/
@[simp] theorem length_tag_encode (t : Tag) :
    (tag.encode t).length = t.name.length + t.value.length + 4 := by
  rw [tag_encode, List.length_append, length_element_encode, length_element_encode]
  omega

/-- A tag list is valid if it has at most 16 tags and every one fits its length fields. -/
@[simp] theorem tagList_valid (ts : List Tag) :
    tagList.Valid ts ↔ ts.length ≤ maxNumberTags ∧
      ∀ t ∈ ts, t.name.length < 65536 ∧ t.value.length < 65536 := by
  constructor
  · rintro ⟨⟨-, hts⟩, hlen⟩
    exact ⟨hlen, hts⟩
  · rintro ⟨hlen, hts⟩
    refine ⟨⟨?_, hts⟩, hlen⟩
    rw [be16_valid]
    exact lt_of_le_of_lt hlen (by decide)

/-- A list of tags is their number and the tags. -/
theorem tagList_encode (ts : List Tag) :
    tagList.encode ts = be16.encode ts.length ++ ts.flatMap tag.encode := rfl

/-- The transactions of the format, in terms of their fields.

**Proof sketch.** The format and the owner are restricted elements, so that their lengths need no
bounds of their own. -/
theorem transaction_valid_iff (t : Transaction) :
    transaction.Valid t ↔
      t.format = formatTwo ∧ t.owner.length = rsaModulusLen ∧ t.tags.length ≤ maxNumberTags ∧
      t.target.length < 65536 ∧ t.quantity.length < 65536 ∧ t.reward.length < 65536 ∧
      t.lastTx.length < 65536 ∧
      (∀ u ∈ t.tags, u.name.length < 65536 ∧ u.value.length < 65536) ∧
      t.dataSize.length < 65536 ∧ t.dataRoot.length < 65536 := by
  show ((t.format.length < 65536 ∧ t.format = formatTwo) ∧
    (t.owner.length < 65536 ∧ t.owner.length = rsaModulusLen) ∧ t.target.length < 65536 ∧
    t.quantity.length < 65536 ∧ t.reward.length < 65536 ∧ t.lastTx.length < 65536 ∧
    tagList.Valid t.tags ∧ t.dataSize.length < 65536 ∧ t.dataRoot.length < 65536) ↔ _
  rw [tagList_valid]
  constructor
  · rintro ⟨⟨-, hf⟩, ⟨-, ho⟩, h₁, h₂, h₃, h₄, ⟨hn, ht⟩, h₅, h₆⟩
    exact ⟨hf, ho, hn, h₁, h₂, h₃, h₄, ht, h₅, h₆⟩
  · rintro ⟨hf, ho, hn, h₁, h₂, h₃, h₄, ht, h₅, h₆⟩
    refine ⟨⟨?_, hf⟩, ⟨?_, ho⟩, h₁, h₂, h₃, h₄, ⟨hn, ht⟩, h₅, h₆⟩
    · rw [hf]
      decide
    · rw [ho]
      decide

/-- A small transaction with an owner of the right length is well-formed. -/
theorem transaction_valid_small {owner : Bytes} (h : owner.length = rsaModulusLen) :
    transaction.Valid (.small owner) := by
  have hascii : ∀ s ∈ ["10", "7", "App", "a", "n", "4"], (ascii s).length < 65536 := by decide
  simp only [List.forall_mem_cons] at hascii
  simp [transaction_valid_iff, Transaction.small, h, hascii, maxNumberTags]

/-- The bytes of a transaction. -/
theorem transaction_encode (t : Transaction) :
    transaction.encode t =
      element.encode t.format ++ (element.encode t.owner ++ (element.encode t.target ++
      (element.encode t.quantity ++ (element.encode t.reward ++ (element.encode t.lastTx ++
      ((be16.encode t.tags.length ++ t.tags.flatMap tag.encode) ++
      (element.encode t.dataSize ++ element.encode t.dataRoot))))))) := rfl

/-- The length of a small transaction. -/
theorem length_encode_small (owner : Bytes) :
    (transaction.encode (.small owner)).length = owner.length + 40 := by
  have htags : ((Transaction.small owner).tags.flatMap tag.encode).length = 13 := rfl
  have hquantity : (ascii "10").length = 2 := rfl
  have hreward : (ascii "7").length = 1 := rfl
  have hsize : (ascii "4").length = 1 := rfl
  simp only [transaction_encode, List.length_append, length_element_encode, length_be16_encode,
    htags]
  simp only [Transaction.small, formatTwo, hquantity, hreward, hsize, List.length_cons,
    List.length_nil]
  omega

end LedgerArweave
