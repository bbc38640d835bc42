import LedgerArweave.Client.EncodeTx
import LedgerArweave.Parser.Amount

set_option relaxedAutoImplicit false
set_option autoImplicit false

/-!
# Reviewing what the client sends

A transaction of format 2 that a wallet builds has an owner, amounts in decimal, a hash or a
transaction as its anchor, and a target or, if it only stores data, none. The device prints the
target whenever it validates a transaction, and `b64url_encode` returns 0 for an empty field as
it does for one that does not fit. So all genuine transactions are accepted that have a target,
and none that has none.

## Main definitions

* `ClientTx.Genuine` — a transaction as wallets build it.

## Main results

* `exists_itemText` — the items that can be printed.
* `genuine_iff` — which genuine transactions are accepted.
-/

namespace LedgerArweave

open Decimal (Digits IsDigit)

/-! ## Decimal strings of the client -/

/-- A decimal number of up to 30 digits, as a string of the client. -/
def IsAmount (s : String) : Prop := 1 ≤ s.length ∧ s.length ≤ 30 ∧ ∀ c ∈ s.toList, c.isDigit

/-- A digit is encoded as one byte, which is a digit.

**Proof sketch.** A digit is below 128, so its encoding is its code point. -/
theorem utf8EncodeChar_digit {c : Char} (hc : c.isDigit) :
    ∃ d, String.utf8EncodeChar c = [d] ∧ IsDigit d := by
  obtain ⟨hlo, hhi⟩ : 48 ≤ c.val ∧ c.val ≤ 57 := by simpa [Char.isDigit] using hc
  rw [UInt32.le_iff_toNat_le] at hlo hhi
  have hlo' : 48 ≤ c.val.toNat := hlo
  have hhi' : c.val.toNat ≤ 57 := hhi
  have hsize : c.utf8Size = 1 := by
    rw [Char.utf8Size_eq_one_iff, UInt32.le_iff_toNat_le]
    exact hhi'.trans (by decide)
  refine ⟨_, String.utf8EncodeChar_eq_singleton hsize, ?_, ?_⟩
  · rw [UInt8.le_iff_toNat_le, UInt32.toNat_toUInt8, Nat.mod_eq_of_lt (by omega)]
    exact hlo'
  · rw [UInt8.le_iff_toNat_le, UInt32.toNat_toUInt8, Nat.mod_eq_of_lt (by omega)]
    exact hhi'

/-- Digits are encoded as digits, one byte each. -/
theorem utf8_digits {l : List Char} (hl : ∀ c ∈ l, c.isDigit) :
    Digits (l.flatMap String.utf8EncodeChar) ∧
      (l.flatMap String.utf8EncodeChar).length = l.length := by
  induction l with
  | nil => exact ⟨nofun, rfl⟩
  | cons c l ih =>
    obtain ⟨d, hd, hdigit⟩ := utf8EncodeChar_digit (hl c List.mem_cons_self)
    obtain ⟨hdigits, hlen⟩ := ih fun c' hc' => hl c' (List.mem_cons_of_mem c hc')
    rw [List.flatMap_cons, hd]
    exact ⟨List.forall_mem_cons.mpr ⟨hdigit, hdigits⟩, congrArg Nat.succ hlen⟩

/-- The bytes of a decimal number are its digits. -/
theorem IsUtf8.digits {stringToBuffer : String → Bytes} (h : IsUtf8 stringToBuffer) {s : String}
    (hs : IsAmount s) : Digits (stringToBuffer s) ∧ (stringToBuffer s).length ≤ 30 := by
  have hbytes : stringToBuffer s = s.toList.flatMap String.utf8EncodeChar := by
    rw [h, String.toUTF8_eq_toByteArray, ← String.utf8Encode_toList, List.utf8Encode,
      List.data_toByteArray]
  obtain ⟨hdigits, hlen⟩ := utf8_digits hs.2.2
  rw [hbytes, hlen]
  exact ⟨hdigits, String.length_toList ▸ hs.2.1⟩

/-! ## Genuine transactions -/

/-- A transaction of format 2 as wallets build it, of a given owner. -/
structure ClientTx.Genuine (tx : ClientTx) (owner : Bytes) : Prop where
  format : tx.format = "2"
  owner : tx.owner = owner
  target : tx.target.length = 32 ∨ tx.target = []
  lastTx : tx.lastTx.length = 32 ∨ tx.lastTx.length = 48
  quantity : IsAmount tx.quantity
  reward : IsAmount tx.reward
  dataSize : IsAmount tx.dataSize
  dataRoot : tx.dataRoot = [] ∨ tx.dataRoot.length = 32
  tags : tx.tags.length ≤ 16

/-- The fields that are printed in base64url are not too long.

**Proof sketch.** None of them has more than 48 bytes. -/
theorem ClientTx.Genuine.lengths {tx : ClientTx} {owner : Bytes} (h : tx.Genuine owner) :
    tx.target.length ≤ 150 ∧ (tx.lastTx ≠ [] ∧ tx.lastTx.length ≤ 150) ∧
      tx.dataRoot.length ≤ 150 := by
  obtain ⟨-, -, htarget, hlastTx, -, -, -, hdataRoot, -⟩ := h
  refine ⟨?_, ⟨?_, by omega⟩, ?_⟩
  · rcases htarget with hlen | hnil
    · omega
    · rw [hnil]
      exact Nat.zero_le _
  · rintro hnil
    rw [hnil] at hlastTx
    exact absurd hlastTx (by decide)
  · rcases hdataRoot with hnil | hlen
    · rw [hnil]
      exact Nat.zero_le _
    · omega

/-! ## What can be printed -/

section Texts

variable {zx : ZxFormat} {m : Memory}

/-- A field of 1 to 150 bytes is printed in base64url. -/
theorem exists_b64Text {v : ParserElement} (hptr : v.ptr ≠ 0) (hne : m.deref v ≠ [])
    (hlen : (m.deref v).length ≤ 150) : ∃ text, b64Text m v = .ok text := by
  refine ⟨_, if_pos ⟨hptr, hne, ?_⟩⟩
  rw [length_b64urlText, uibufferLen]
  omega

/-- **The items that can be printed**: all of them, if target and last transaction are there, the
fields printed in base64url are not too long, and quantity and data size are not either.

**Proof sketch.** By the index of the item. The reward and the tags have a text without any
condition. -/
theorem exists_itemText (hzx : zx.Amounts) {v : ParserTx}
    (hptr : v.target.ptr ≠ 0 ∧ v.lastTx.ptr ≠ 0 ∧ v.dataRoot.ptr ≠ 0)
    (htarget : (v.fields m).target ≠ [] ∧ (v.fields m).target.length ≤ 150)
    (hlastTx : (v.fields m).lastTx ≠ [] ∧ (v.fields m).lastTx.length ≤ 150)
    (hquantity : Digits (v.fields m).quantity ∧ (v.fields m).quantity.length ≤ 195)
    (hdataSize : (v.fields m).dataSize.length ≤ uibufferLen)
    (hdataRoot : (v.fields m).dataRoot.length ≤ 150) (idx : ℕ) :
    ∃ text, itemText zx m v idx = .ok text := by
  match idx with
  | 0 => exact exists_b64Text hptr.1 htarget.1 htarget.2
  | 1 =>
    refine quantityText_digits hzx ?_ hquantity.1
    rw [← Memory.length_deref m]
    exact hquantity.2
  | 2 => exact ⟨_, rfl⟩
  | 3 => exact exists_b64Text hptr.2.1 hlastTx.1 hlastTx.2
  | 4 =>
    refine ⟨_, if_neg (Nat.not_lt.mpr ?_)⟩
    rw [← Memory.length_deref m]
    exact hdataSize
  | j + 5 =>
    by_cases hroot : j + 5 = 5 ∧ v.dataRoot.len ≠ 0
    · rw [show itemText zx m v (j + 5) = _ from if_pos hroot]
      exact exists_b64Text hptr.2.2 (mt deref_eq_nil_iff.mp hroot.2) hdataRoot
    · exact ⟨_, if_neg hroot⟩

end Texts

/-! ## Accepting what the client sends -/

section Genuine

variable {zx : ZxFormat} {stringToBuffer : String → Bytes} {tx : ClientTx} {st : CryptoStore}
  {base : ℕ} {s s' : ParserState}

/-- A genuine transaction that fits the buffer is parsed to its fields. -/
theorem parse_genuine (hutf8 : IsUtf8 stringToBuffer) (h : tx.Genuine st.current.rsaPub.n.val)
    (hfits : (encodeTx stringToBuffer tx).length ≤ ramBufferSize + flashBufferSize)
    (hbase : 0 < base) (s : ParserState) :
    let blob := encodeTx stringToBuffer tx
    ∃ s', parseBuffer base blob s = (.ok (), s') ∧
      s'.tx.fields ⟨base, blob⟩ = tx.fields stringToBuffer := by
  have howner : tx.owner.length = rsaModulusLen := by
    rw [h.owner]
    exact st.current.rsaPub.n.property
  obtain ⟨s', hparse, hfields, -⟩ := parseBuffer_encodeTx stringToBuffer hfits
    ((hutf8.eq_formatTwo_iff _).mpr h.format) howner h.tags hbase s
  exact ⟨s', hparse, hfields⟩

/-- What a genuine transaction is validated for on the device of its owner.

**Proof sketch.** Every field of a genuine transaction is short enough for the buffer of its
printing function and every amount is a number, so every item has a text, the target apart: its text
is refused if it is empty. -/
theorem validate_genuine (hzx : zx.Amounts) (hutf8 : IsUtf8 stringToBuffer)
    (hinit : cryptoStoreIsInitialized st = true) (h : tx.Genuine st.current.rsaPub.n.val)
    (hfits : (encodeTx stringToBuffer tx).length ≤ ramBufferSize + flashBufferSize)
    (hbase : 0 < base) (hparse : parseBuffer base (encodeTx stringToBuffer tx) s = (.ok (), s'))
    (expert : Bool) :
    parserValidate zx ⟨base, encodeTx stringToBuffer tx⟩ st expert s'.tx = .ok () ↔
      tx.target ≠ [] := by
  set m : Memory := ⟨base, encodeTx stringToBuffer tx⟩ with hm
  have hb : (encodeTx stringToBuffer tx).length ≤ 65535 := hfits.trans (by decide)
  obtain ⟨s₁, hparse₁, hfields⟩ := parse_genuine hutf8 h hfits hbase s
  obtain rfl : s' = s₁ := (Prod.mk.inj (hparse.symm.trans hparse₁)).2
  rw [← hm] at hfields
  have hcount := tagsCount_of_parserParse (m := m) le_rfl hparse
  have hptr : ∀ e ∈ s'.tx.headElements ++ s'.tx.tailElements, e.ptr ≠ 0 := by
    intro e he
    have hlo := (mapped_of_parseBuffer hbase hb hparse e he).1
    omega
  have howner : m.deref s'.tx.owner = st.current.rsaPub.n.val :=
    (congrArg Transaction.owner hfields).trans h.owner
  have hownerLen : s'.tx.owner.len = rsaModulusLen := by
    rw [← Memory.length_deref m, howner]
    exact st.current.rsaPub.n.property
  rw [parserValidate_iff_texts hcount, validateTx_eq_ok hownerLen, and_iff_right ⟨hinit, howner⟩]
  constructor
  · intro htexts
    obtain ⟨text, htext⟩ := htexts 0 (lt_of_lt_of_le (by decide) (constNumUiItems_le hcount))
    have htarget : b64Text m s'.tx.target = .ok text := htext
    unfold b64Text at htarget
    split_ifs at htarget with hprints
    show (tx.fields stringToBuffer).target ≠ []
    rw [← hfields]
    exact hprints.2.1
  · intro htarget idx _
    obtain ⟨htargetLen, hlastTx, hdataRoot⟩ := h.lengths
    obtain ⟨hquantity, hquantityLen⟩ := hutf8.digits h.quantity
    have hdataSize := (hutf8.digits h.dataSize).2
    refine exists_itemText hzx ⟨hptr _ ?_, hptr _ ?_, hptr _ ?_⟩ ?_ ?_ ?_ ?_ ?_ idx
    · simp [ParserTx.headElements]
    · simp [ParserTx.headElements]
    · simp [ParserTx.tailElements]
    all_goals rw [hfields]
    · exact ⟨htarget, htargetLen⟩
    · exact hlastTx
    · exact ⟨hquantity, hquantityLen.trans (by decide)⟩
    · exact hdataSize.trans (by decide)
    · exact hdataRoot

/-- **Genuine transactions**, on the device of their owner, in a buffer at any address and after
any earlier parses: a transaction whose encoding fits the buffer is parsed and validated in both
display modes exactly if it has a target.

**Proof sketch.** It is parsed in any case: its format, owner and number of tags pass the checks.
Validation is `validate_genuine`, for each of the two modes. -/
theorem genuine_iff (hzx : zx.Amounts) (hutf8 : IsUtf8 stringToBuffer)
    (hinit : cryptoStoreIsInitialized st = true) (h : tx.Genuine st.current.rsaPub.n.val)
    (hfits : (encodeTx stringToBuffer tx).length ≤ ramBufferSize + flashBufferSize)
    (hbase : 0 < base) (s : ParserState) :
    let blob := encodeTx stringToBuffer tx
    (∃ s', parseBuffer base blob s = (.ok (), s') ∧
      ∀ expert, parserValidate zx ⟨base, blob⟩ st expert s'.tx = .ok ()) ↔ tx.target ≠ [] := by
  intro blob
  obtain ⟨s', hparse, -⟩ := parse_genuine hutf8 h hfits hbase s
  constructor
  · rintro ⟨s₁, hparse₁, hvalid⟩
    exact (validate_genuine hzx hutf8 hinit h hfits hbase hparse₁ false).mp (hvalid false)
  · intro htarget
    exact ⟨s', hparse, fun expert =>
      (validate_genuine hzx hutf8 hinit h hfits hbase hparse expert).mpr htarget⟩

end Genuine

/-- A transaction of the zero owner with the given target -/
def genuineTx (target : Bytes) : ClientTx :=
  ⟨"2", (zeroBlock 512).val, target, "1500000000000", "65595508", List.replicate 32 7, [], "0", []⟩

/-- The sample amounts are amounts. -/
theorem isAmount_samples : IsAmount "1500000000000" ∧ IsAmount "65595508" ∧ IsAmount "0" := by
  simp only [IsAmount, ← List.all_eq_true]
  decide +kernel

/-- A sample is genuine if its target is empty or has the length of an address. -/
theorem genuineTx_genuine {target : Bytes} (htarget : target.length = 32 ∨ target = []) :
    (genuineTx target).Genuine sampleStore.current.rsaPub.n.val where
  format := rfl
  owner := rfl
  target := htarget
  lastTx := .inl rfl
  quantity := isAmount_samples.1
  reward := isAmount_samples.2.1
  dataSize := isAmount_samples.2.2
  dataRoot := .inl rfl
  tags := Nat.zero_le _

/-- A transaction with a target is accepted. -/
theorem genuine_iff_sample :
    let blob := encodeTx (fun s => s.toUTF8.data.toList) (genuineTx (List.replicate 32 1))
    ∃ s', parseBuffer 1 blob .zero = (.ok (), s') ∧
      ∀ expert, parserValidate plainFormat ⟨1, blob⟩ sampleStore expert s'.tx = .ok () :=
  (genuine_iff plainFormat_amounts (fun _ => rfl) rfl (genuineTx_genuine (by decide))
    (by decide +kernel) Nat.one_pos .zero).mpr (by decide)

/-- A transaction that only stores data is parsed and refused.

**Proof sketch.** It is parsed by `parse_genuine`, and it is genuine except that its target is
empty, so `validate_genuine` says that it is refused. -/
theorem not_genuine :
    let blob := encodeTx (fun s => s.toUTF8.data.toList) (genuineTx [])
    plainFormat.Amounts ∧ (genuineTx []).Genuine sampleStore.current.rsaPub.n.val ∧
      blob.length ≤ ramBufferSize + flashBufferSize ∧
      (parseBuffer 1 blob .zero).1 = .ok () ∧
      ∀ expert, parserValidate plainFormat ⟨1, blob⟩ sampleStore expert
        (parseBuffer 1 blob .zero).2.tx ≠ .ok () := by
  intro blob
  have hgenuine : (genuineTx []).Genuine sampleStore.current.rsaPub.n.val :=
    genuineTx_genuine (.inr rfl)
  have hfits : blob.length ≤ ramBufferSize + flashBufferSize := by decide +kernel
  obtain ⟨s', hparse, -⟩ := parse_genuine (fun _ => rfl) hgenuine hfits Nat.one_pos .zero
  refine ⟨plainFormat_amounts, hgenuine, hfits, congrArg Prod.fst hparse, fun expert hvalid => ?_⟩
  rw [show parseBuffer 1 blob .zero = _ from hparse] at hvalid
  exact (validate_genuine plainFormat_amounts (fun _ => rfl) rfl hgenuine hfits Nat.one_pos hparse
    expert).mp hvalid rfl

end LedgerArweave
